import Mathlib.Data.List.Nodup
import Mathlib.Data.List.Perm.Subperm
import ShaderGraft.Proofs.Lookups
import ShaderGraft.Proofs.Precedence

/-!
# The values of constants

What a constant is, apart from any run: its declaration is evaluated, and those of its parts in
turn (`Module.evaluate`). A chain of constants, each of which needs the next, goes through as many
declarations as it is long, so fuel for all declarations is as good as any more
(`Module.evaluate_eq_constant`), and what a constant is follows from what its parts are
(`Module.constant_compose`).

A run remembers the constants that it has looked up. As long as it remembers them right, it finds
for every id that is not in the frame what that constant is, and remembers that right
(`Module.looksUp_value`).
-/

namespace ShaderGraft

variable {host : Host}

namespace Module

variable {m : Module}

/-- The value of a constant, following at most `fuel` references between constants in a row. -/
def evaluate (m : Module) (host : Host) : (fuel : Nat) → ResultId → Except Stop Value
  | 0, _ => .error .endless
  | fuel + 1, id =>
    match m.recipe id with
    | .give r => r
    | .compose type parts => do compositeValue host type (← parts.mapM (m.evaluate host fuel))

/-- Whether that many references are enough. -/
def Settled (m : Module) (host : Host) (fuel : Nat) (id : ResultId) : Prop :=
  m.evaluate host fuel id ≠ .error .endless

theorem evaluate_give {id : ResultId} {r : Except Stop Value} (h : m.recipe id = .give r)
    (fuel : Nat) : m.evaluate host (fuel + 1) id = r := by
  rw [evaluate, h]

theorem evaluate_compose {id : ResultId} {type : Instruction} {parts : List ResultId}
    (h : m.recipe id = .compose type parts) (fuel : Nat) :
    m.evaluate host (fuel + 1) id =
      (do compositeValue host type (← parts.mapM (m.evaluate host fuel))) := by
  rw [evaluate, h]

/-- A composite has enough fuel only if its parts do. -/
theorem Settled.mapM_ne {fuel : Nat} {id : ResultId} {type : Instruction} {parts : List ResultId}
    (h : m.Settled host (fuel + 1) id) (hrecipe : m.recipe id = .compose type parts) :
    parts.mapM (m.evaluate host fuel) ≠ .error .endless := by
  intro heq
  rw [Settled, evaluate_compose hrecipe, heq] at h
  exact h rfl

theorem Settled.evaluate_succ {fuel : Nat} {id : ResultId} (h : m.Settled host fuel id) :
    m.evaluate host (fuel + 1) id = m.evaluate host fuel id := by
  induction fuel generalizing id with
  | zero => exact absurd rfl h
  | succ fuel ih =>
    cases hrecipe : m.recipe id with
    | give r => rw [evaluate_give hrecipe, evaluate_give hrecipe]
    | compose type parts =>
      rw [evaluate_compose hrecipe, evaluate_compose hrecipe,
        mapM_eq_of_ne_error (fun part _ hpart => ih hpart) (h.mapM_ne hrecipe)]

theorem Settled.evaluate_of_le {fuel fuel' : Nat} {id : ResultId} (h : m.Settled host fuel id)
    (hle : fuel ≤ fuel') : m.evaluate host fuel' id = m.evaluate host fuel id := by
  induction hle with
  | refl => rfl
  | step _ ih =>
    rw [← ih]
    exact Settled.evaluate_succ (by rwa [Settled, ih])

theorem Settled.mono {fuel fuel' : Nat} {id : ResultId} (h : m.Settled host fuel id)
    (hle : fuel ≤ fuel') : m.Settled host fuel' id := by
  rwa [Settled, h.evaluate_of_le hle]

/-- A constant that needs all of its fuel has a part that needs all of what is left. -/
theorem exists_part_of_settled {fuel : Nat} {id : ResultId} (h : m.Settled host (fuel + 2) id)
    (hnot : ¬ m.Settled host (fuel + 1) id) :
    Defines m.globals id ∧ ∃ part, m.Settled host (fuel + 1) part ∧ ¬ m.Settled host fuel part := by
  cases hrecipe : m.recipe id with
  | give r => exact absurd (by rwa [Settled, evaluate_give hrecipe] at h ⊢) hnot
  | compose type parts =>
    obtain ⟨inst, hglobal, -⟩ := recipe_eq_compose hrecipe
    refine ⟨defines_of_global? (by rw [hglobal]; rfl), ?_⟩
    by_contra hparts
    simp only [not_exists, not_and, not_not] at hparts
    have hmapM := mapM_eq_of_ne_error (fun part _ hpart =>
      (Settled.evaluate_succ (hparts part hpart)).symm) (h.mapM_ne hrecipe)
    rw [Settled, evaluate_compose hrecipe, hmapM, ← evaluate_compose hrecipe] at hnot
    exact hnot h

/-- A constant that needs all of its fuel leads through as many declarations. -/
theorem exists_chain_of_settled {fuel : Nat} {id : ResultId} (h : m.Settled host (fuel + 1) id)
    (hnot : ¬ m.Settled host fuel id) :
    ∃ chain : List ResultId, chain.Nodup ∧ chain.length = fuel ∧
      ∀ id ∈ chain, Defines m.globals id ∧ m.Settled host (fuel + 1) id := by
  induction fuel generalizing id with
  | zero => exact ⟨[], List.nodup_nil, rfl, by simp⟩
  | succ fuel ih =>
    obtain ⟨hid, part, hpart, hpart'⟩ := exists_part_of_settled h hnot
    obtain ⟨chain, hnodup, hlength, hchain⟩ := ih hpart hpart'
    refine ⟨id :: chain, List.nodup_cons.2 ⟨fun hmem => hnot (hchain id hmem).2, hnodup⟩, ?_, ?_⟩
    · rw [List.length_cons, hlength]
    · exact List.forall_mem_cons.2 ⟨⟨hid, h⟩, fun j hj =>
        ⟨(hchain j hj).1, (hchain j hj).2.mono (Nat.le_succ _)⟩⟩

theorem length_le_of_nodup {chain : List ResultId} (hnodup : chain.Nodup)
    (hchain : ∀ id ∈ chain, Defines m.globals id) : chain.length ≤ m.globals.length := by
  have hsub : chain ⊆ m.globals.map (·.resultId) := fun id hid => by
    obtain ⟨-, inst, hinst, rfl⟩ := hchain id hid
    exact List.mem_map_of_mem hinst
  simpa using (List.subperm_of_subset hnodup hsub).length_le

/-- The value of a constant. -/
def constant (m : Module) (host : Host) (id : ResultId) : Except Stop Value :=
  m.evaluate host (m.globals.length + 1) id

/-- Fuel for all declarations is enough if any is. -/
theorem evaluate_eq_constant {fuel : Nat} {id : ResultId} (h : m.Settled host fuel id) :
    m.evaluate host fuel id = m.constant host id := by
  induction fuel with
  | zero => exact absurd rfl h
  | succ fuel ih =>
    by_cases hless : m.Settled host fuel id
    · rw [← ih hless, hless.evaluate_succ]
    · obtain ⟨chain, hnodup, hlength, hchain⟩ := exists_chain_of_settled h hless
      have hle := length_le_of_nodup hnodup fun id hid => (hchain id hid).1
      exact (h.evaluate_of_le (by omega)).symm

theorem constant_give {id : ResultId} {r : Except Stop Value} (h : m.recipe id = .give r) :
    m.constant host id = r :=
  evaluate_give h _

/-- A composite is what its type makes of the values of its parts. -/
theorem constant_compose {id : ResultId} {type : Instruction} {parts : List ResultId}
    (h : m.recipe id = .compose type parts) :
    m.constant host id = (do compositeValue host type (← parts.mapM (m.constant host))) := by
  change _ = (do compositeValue host type (← parts.mapM (m.evaluate host (m.globals.length + 1))))
  rw [← evaluate_compose h]
  by_cases hsettled : m.Settled host (m.globals.length + 2) id
  · exact (evaluate_eq_constant hsettled).symm
  · have hless : ¬ m.Settled host (m.globals.length + 1) id := fun hless =>
      hsettled (hless.mono (Nat.le_succ _))
    simp only [Settled, not_not] at hsettled hless
    rw [constant, hless, hsettled]

end Module

/-! ### Remembered constants -/

/-- Whether the constants that a run has remembered are right. -/
def Machine.Remembers (m : Module) (host : Host) (s : Machine) : Prop :=
  ∀ id v, s.constants.get? id = some v → m.constant host id = .ok v

theorem Machine.remembers_empty (m : Module) (host : Host) : Machine.Remembers m host {} := by
  intro id v h
  simp at h

theorem Machine.Remembers.insert {m : Module} {s : Machine} (h : s.Remembers m host) {id : ResultId}
    {v : Value} (hv : m.constant host id = .ok v) :
    Machine.Remembers m host { s with constants := s.constants.insert id v } := by
  intro id' w hget
  simp only [IdMap.get?_insert] at hget
  split at hget
  · rename_i heq
    cases hget
    exact heq ▸ hv
  · exact h id' w hget

namespace Eval

/-- Whether a part of a run that remembers constants right gives a known result and goes on
remembering them right. It may run out of fuel if there is too little. -/
def LooksUp {α : Type} (m : Module) (host : Host) (x : Eval α) (r : Except Stop α)
    (short : Prop) : Prop :=
  ∀ s : Machine, s.Remembers m host →
    (∃ a s', x.run s = .ok (a, s') ∧ r = .ok a ∧ s'.Remembers m host) ∨
      ∃ stop, x.run s = .error stop ∧ (r = .error stop ∨ stop = .endless ∧ short)

theorem looksUp_lift {α : Type} {m : Module} (r : Except Stop α) (short : Prop) :
    LooksUp m host (lift r) r short := by
  intro s hs
  cases r with
  | ok a => exact .inl ⟨a, s, rfl, rfl, hs⟩
  | error stop => exact .inr ⟨stop, rfl, .inl rfl⟩

theorem LooksUp.bind_lift {α β : Type} {m : Module} {x : Eval α} {r : Except Stop α}
    {short short' : Prop} (h : LooksUp m host x r short) (hshort : short → short')
    (f : α → Except Stop β) : LooksUp m host (x >>= fun a => lift (f a)) (r >>= f) short' := by
  intro s hs
  obtain ⟨a, s₁, hrun, rfl, hs₁⟩ | ⟨stop, hrun, hstop⟩ := h s hs
  · rw [run_bind_ok hrun]
    exact looksUp_lift (f a) short' s₁ hs₁
  · refine .inr ⟨stop, run_bind_error hrun _, ?_⟩
    obtain rfl | ⟨rfl, hless⟩ := hstop
    · exact .inl rfl
    · exact .inr ⟨rfl, hshort hless⟩

/-- Elements are looked up one after the other. -/
theorem LooksUp.mapM {α β : Type} {m : Module} {f : α → Eval β} {g h : α → Except Stop β}
    {as : List α} (hf : ∀ a ∈ as, LooksUp m host (f a) (g a) (h a = .error .endless))
    (hg : ∀ a ∈ as, h a ≠ .error .endless → h a = g a) :
    LooksUp m host (as.mapM f) (as.mapM g) (as.mapM h = .error .endless) := by
  induction as with
  | nil => exact looksUp_lift (.ok []) _
  | cons a as ih =>
    obtain ⟨hfa, hfas⟩ := List.forall_mem_cons.1 hf
    obtain ⟨hga, hgas⟩ := List.forall_mem_cons.1 hg
    rw [List.mapM_cons, List.mapM_cons, List.mapM_cons]
    intro s hs
    obtain ⟨b, s₁, hrun, hb, hs₁⟩ | ⟨stop, hrun, hstop⟩ := hfa s hs
    · rw [run_bind_ok hrun, hb]
      refine (ih hfas hgas).bind_lift (fun hshort => ?_) (fun bs => .ok (b :: bs)) s₁ hs₁
      -- what is remembered of `a` may have saved fuel that `h` does not have
      by_cases hha : h a = .error .endless
      · rw [hha]
        rfl
      · rw [hga hha, hb, hshort]
        rfl
    · refine .inr ⟨stop, run_bind_error hrun _, ?_⟩
      obtain hstop | ⟨rfl, hshort⟩ := hstop
      · rw [hstop]
        exact .inl rfl
      · rw [hshort]
        exact .inr ⟨rfl, rfl⟩

end Eval

namespace Module

open Eval

/-- Whether composites are made of declarations only. -/
def Closed (m : Module) : Prop :=
  ∀ inst ∈ m.globals, inst.opcode = .constantComposite → ∀ id ∈ inst.operands, Defines m.globals id

instance (m : Module) : Decidable m.Closed :=
  inferInstanceAs (Decidable (∀ inst ∈ _, _))

variable {m : Module} {frame : Frame}

theorem get?_eq_none_of_defines (hlocal : frame.Local m) {id : ResultId}
    (hid : Defines m.globals id) : frame.values.get? id = none := by
  obtain ⟨hne, inst, hinst, rfl⟩ := hid
  cases hglobal : m.global? inst.resultId with
  | some decl => exact hlocal _ _ hglobal
  | none =>
    rw [global?, if_neg hne, List.find?_eq_none] at hglobal
    exact absurd (hglobal inst hinst) (by simp)

theorem looksUp_valueOf (hclosed : m.Closed) (hlocal : frame.Local m) {fuel : Nat} {id : ResultId}
    (hid : frame.values.get? id = none) :
    LooksUp m host (m.valueOf host frame fuel id) (m.constant host id)
      (m.evaluate host fuel id = .error .endless) := by
  induction fuel generalizing id with
  | zero => exact fun s _ => .inr ⟨_, rfl, .inr ⟨rfl, rfl⟩⟩
  | succ fuel ih =>
    have hcompute : LooksUp m host (m.compute host (m.valueOf host frame fuel) id)
        (m.constant host id) (m.evaluate host (fuel + 1) id = .error .endless) := by
      cases hrecipe : m.recipe id with
      | give r =>
        rw [constant_give hrecipe, compute, hrecipe]
        exact looksUp_lift r _
      | compose type parts =>
        obtain ⟨inst, hglobal, hop, rfl⟩ := recipe_eq_compose hrecipe
        rw [constant_compose hrecipe, compute, hrecipe]
        refine LooksUp.bind_lift (.mapM (fun part hpart => ih ?_) fun part _ =>
          evaluate_eq_constant) (fun hshort => ?_) _
        · have hdefined := hclosed inst (mem_of_global? hglobal).1 hop part hpart
          exact get?_eq_none_of_defines hlocal hdefined
        · rw [evaluate_compose hrecipe, hshort]
          rfl
    intro s hs
    rw [run_valueOf, hid]
    cases hremembered : s.constants.get? id with
    | some v => exact .inl ⟨v, s, rfl, hs id v hremembered, hs⟩
    | none =>
      simp only [fetch]
      obtain ⟨v, s₁, hrun, hv, hs₁⟩ | ⟨stop, hrun, hstop⟩ := hcompute s hs
      · rw [run_bind_ok hrun]
        exact .inl ⟨v, _, rfl, hv, hs₁.insert hv⟩
      · exact .inr ⟨stop, run_bind_error hrun _, hstop⟩

/-- An id that is not in the frame stands for the constant. -/
theorem looksUp_value (host : Host) (hclosed : m.Closed) (hlocal : frame.Local m) {id : ResultId}
    (hid : frame.values.get? id = none) :
    LooksUp m host (m.value host frame id) (m.constant host id) False := by
  intro s hs
  obtain hok | ⟨stop, hrun, hstop⟩ := looksUp_valueOf hclosed hlocal hid s hs
  · exact .inl hok
  · refine .inr ⟨stop, hrun, .inl ?_⟩
    obtain hstop | ⟨rfl, hshort⟩ := hstop
    · exact hstop
    · exact hshort

end Module

end ShaderGraft
