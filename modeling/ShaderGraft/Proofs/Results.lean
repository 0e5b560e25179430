import Mathlib.Data.List.Forall2

/-!
# Results, and lists of results

How a computation that can fail comes to its result, one step at a time or for all elements of a
list, and lists whose elements correspond one by one.
-/

namespace ShaderGraft

variable {ε ε' α β : Type}

/-! ### Steps that can fail -/

theorem bind_eq_ok {x : Except ε α} {f : α → Except ε β} {b : β} :
    x >>= f = .ok b ↔ ∃ a, x = .ok a ∧ f a = .ok b := by
  cases x with
  | error e =>
    constructor
    · intro h
      cases h
    · rintro ⟨a, ha, -⟩
      cases ha
  | ok a =>
    constructor
    · intro h
      exact ⟨a, rfl, h⟩
    · rintro ⟨a', ha, h⟩
      cases ha
      exact h

theorem bind_eq_error {x : Except ε α} {f : α → Except ε β} {e : ε} :
    x >>= f = .error e ↔ x = .error e ∨ ∃ a, x = .ok a ∧ f a = .error e := by
  cases x with
  | error e' => simp [bind, Except.bind]
  | ok a => simp [bind, Except.bind]

theorem mapError_eq_ok {f : ε → ε'} {x : Except ε α} {a : α} (h : x.mapError f = .ok a) :
    x = .ok a := by
  cases x with
  | error e => cases h
  | ok b =>
    cases h
    rfl

theorem mapError_eq_error {f : ε → ε'} {x : Except ε α} {e' : ε'} (h : x.mapError f = .error e') :
    ∃ e, x = .error e ∧ e' = f e := by
  cases x with
  | error e =>
    cases h
    exact ⟨e, rfl, rfl⟩
  | ok a => cases h

/-! ### All elements of a list -/

theorem mapM_congr {f g : α → Except ε β} {as : List α} (h : ∀ a ∈ as, f a = g a) :
    as.mapM f = as.mapM g := by
  induction as with
  | nil => rfl
  | cons a as ih =>
    obtain ⟨ha, has⟩ := List.forall_mem_cons.1 h
    rw [List.mapM_cons, List.mapM_cons, ha, ih has]

theorem mapM_eq_ok {f : α → Except ε β} {as : List α} {bs : List β} :
    as.mapM f = .ok bs ↔ List.Forall₂ (fun a b => f a = .ok b) as bs := by
  induction as generalizing bs with
  | nil => cases bs <;> simp [pure, Except.pure]
  | cons a as ih =>
    rw [List.mapM_cons, bind_eq_ok]
    constructor
    · rintro ⟨b, hb, h⟩
      obtain ⟨bs, hbs, h⟩ := bind_eq_ok.1 h
      cases h
      exact .cons hb (ih.1 hbs)
    · intro h
      cases h with
      | cons hb hbs => exact ⟨_, hb, bind_eq_ok.2 ⟨_, ih.2 hbs, rfl⟩⟩

theorem mapM_eq_error {f : α → Except ε β} {as : List α} {e : ε} (h : as.mapM f = .error e) :
    ∃ a ∈ as, f a = .error e := by
  induction as with
  | nil => cases h
  | cons a as ih =>
    rw [List.mapM_cons] at h
    obtain ha | ⟨b, -, h⟩ := bind_eq_error.1 h
    · exact ⟨a, List.mem_cons_self, ha⟩
    · obtain has | ⟨bs, -, h⟩ := bind_eq_error.1 h
      · obtain ⟨a', hmem, ha'⟩ := ih has
        exact ⟨a', List.mem_cons_of_mem _ hmem, ha'⟩
      · cases h

/-- Where `f` does not fail with `e`, another function may stand for it if all of the list does not
fail with `e`. -/
theorem mapM_eq_of_ne_error {f g : α → Except ε β} {as : List α} {e : ε}
    (h : ∀ a ∈ as, f a ≠ .error e → g a = f a) (hf : as.mapM f ≠ .error e) :
    as.mapM g = as.mapM f := by
  induction as with
  | nil => rfl
  | cons a as ih =>
    obtain ⟨ha, has⟩ := List.forall_mem_cons.1 h
    rw [List.mapM_cons] at hf
    rw [List.mapM_cons, List.mapM_cons, ha fun heq => hf (bind_eq_error.2 (.inl heq))]
    cases hfa : f a with
    | error e' => rfl
    | ok b =>
      have htail : as.mapM f ≠ .error e := fun heq =>
        hf (bind_eq_error.2 (.inr ⟨b, hfa, bind_eq_error.2 (.inl heq)⟩))
      change (as.mapM g >>= _) = (as.mapM f >>= _)
      rw [ih has htail]

theorem mapM_eq_some {γ : Type} {f : β → Option γ} {g : α → γ} {as : List α} {bs : List β}
    (h : List.Forall₂ (fun a b => f b = some (g a)) as bs) : bs.mapM f = some (as.map g) := by
  induction h with
  | nil => rfl
  | cons hab _ ih => simp [List.mapM_cons, hab, ih]

/-! ### Lists in step -/

variable {R S : α → β → Prop}

theorem forall₂_split {front back : List α} {a : α} {bs : List β}
    (h : List.Forall₂ R (front ++ a :: back) bs) :
    ∃ before b after, bs = before ++ b :: after ∧ before.length = front.length ∧
      List.Forall₂ R front before ∧ R a b ∧ List.Forall₂ R back after := by
  induction front generalizing bs with
  | nil =>
    obtain ⟨b, after, hb, hafter, rfl⟩ := List.forall₂_cons_left_iff.1 h
    exact ⟨[], b, after, rfl, rfl, .nil, hb, hafter⟩
  | cons c front ih =>
    obtain ⟨d, rest, hd, hrest, rfl⟩ := List.forall₂_cons_left_iff.1 h
    obtain ⟨before, b, after, rfl, hlength, hbefore, hb, hafter⟩ := ih hrest
    exact ⟨d :: before, b, after, rfl, congrArg _ hlength, .cons hd hbefore, hb, hafter⟩

theorem forall₂_getElem? {as : List α} {bs : List β} {k : Nat} {a : α}
    (h : List.Forall₂ R as bs) (ha : as[k]? = some a) : ∃ b, bs[k]? = some b ∧ R a b := by
  obtain ⟨hk, rfl⟩ := List.getElem?_eq_some_iff.1 ha
  obtain ⟨hlength, hget⟩ := List.forall₂_iff_get.1 h
  have hk' : k < bs.length := hlength ▸ hk
  exact ⟨bs[k], List.getElem?_eq_getElem hk', hget k hk hk'⟩

theorem forall₂_unique {as : List α} {bs cs : List β} (hbs : List.Forall₂ R as bs)
    (hcs : List.Forall₂ S as cs) (h : ∀ a ∈ as, ∀ b c, R a b → S a c → b = c) : bs = cs := by
  induction hbs generalizing cs with
  | nil => exact (List.forall₂_nil_left_iff.1 hcs).symm
  | cons hb _ ih =>
    obtain ⟨c, rest, hc, hrest, rfl⟩ := List.forall₂_cons_left_iff.1 hcs
    rw [List.forall_mem_cons] at h
    rw [h.1 _ _ hb hc, ih hrest h.2]

end ShaderGraft
