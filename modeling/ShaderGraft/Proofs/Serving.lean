import ShaderGraft.Jit
import ShaderGraft.Proofs.ByteOrder
import ShaderGraft.Proofs.Survival

/-!
# Serving the words of a module

A server keeps the words that it last computed, with the generation they were computed at. The main
statement is `Jit.performAll_eq`: whatever calls come in whatever order, it answers them as a server
without a cache would (`Source`), with the words of the module as it is now. It computes them again
only after something was injected: the generation is that of the injector, so a failed injection
leaves the words valid, and a committed one never does (`Jit.Serves`).

The one way to get no words at all is a capacity that no buffer can have (`Jit.words?_negative`).
-/

namespace ShaderGraft

namespace Jit

/-- Whether buffers of a capacity can be made. -/
def Allocates (capacity : Int) : Prop :=
  0 ≤ capacity ∧ capacity ≤ maxCapacity

instance (capacity : Int) : Decidable (Allocates capacity) :=
  inferInstanceAs (Decidable (_ ∧ _))

theorem not_allocates_iff {capacity : Int} :
    ¬ Allocates capacity ↔ (capacity < 0 || maxCapacity < capacity) = true := by
  simp only [Allocates, Bool.or_eq_true, decide_eq_true_eq]
  omega

theorem inject_eq {i : Input} {t : HostType} (j : Jit) (tree : Tree i t) (input : i.Value) :
    (j.inject tree input).2 =
      (j.injector.inject tree input).2.map fun injector => { j with injector } :=
  rfl

end Jit

open Jit

/-! ### Serving without a cache -/

/-- A server without a cache. It only knows whether it was asked for its words since they last
changed. -/
structure Source where
  injector : Injector
  asked : Bool := false

namespace Source

/-- The words of the module as it is now. -/
def words (s : Source) : List Word :=
  s.injector.target.assemble

def perform (s : Source) : Call → Answer × Source
  | .inject tree input =>
    match (s.injector.inject tree input).2 with
    | .ok next => (.committed, { injector := next })
    | .error (.error _) => (.failed, s)
    | .error .endless => (.endless, s)
  | .words => (.words s.words (! s.asked), { s with asked := true })
  | .bytes => (.bytes (Word.toLittleEndian s.words) (! s.asked), { s with asked := true })

def performAll (s : Source) : List Call → List Answer × Source
  | [] => ([], s)
  | call :: calls =>
    let rest := (s.perform call).2.performAll calls
    ((s.perform call).1 :: rest.1, rest.2)

theorem answers_cons (s : Source) (call : Call) (calls : List Call) :
    (s.performAll (call :: calls)).1 =
      (s.perform call).1 :: ((s.perform call).2.performAll calls).1 :=
  rfl

/-- Once it was asked, nothing is computed until something is committed. -/
theorem perform_of_asked {s : Source} (hs : s.asked = true) (call : Call) :
    (s.perform call).1 = .committed ∨
      (s.perform call).1.computed = false ∧ (s.perform call).2.asked = true := by
  cases call with
  | inject tree input =>
    cases hresult : (s.injector.inject tree input).2 with
    | ok next => exact .inl (by simp [perform, hresult])
    | error halt =>
      cases halt with
      | error e | endless => exact .inr (by simp [perform, hresult, Answer.computed, hs])
  | words | bytes => exact .inr ⟨by simp [perform, Answer.computed, hs], rfl⟩

theorem asked_of_computed {s : Source} {call : Call} (h : (s.perform call).1.computed = true) :
    (s.perform call).2.asked = true := by
  cases call with
  | inject tree input =>
    cases hresult : (s.injector.inject tree input).2 with
    | ok next => simp [perform, hresult, Answer.computed] at h
    | error halt =>
      cases halt with
      | error e | endless => simp [perform, hresult, Answer.computed] at h
  | words | bytes => rfl

theorem mem_of_asked {s : Source} {calls : List Call} {middle after : List Answer} {b : Answer}
    (hs : s.asked = true) (h : (s.performAll calls).1 = middle ++ b :: after)
    (hb : b.computed = true) : .committed ∈ middle := by
  induction calls generalizing s middle with
  | nil => simp [performAll] at h
  | cons call calls ih =>
    have hstep := perform_of_asked hs call
    rw [answers_cons] at h
    cases middle with
    | nil =>
      obtain ⟨rfl, -⟩ := List.cons.inj h
      rcases hstep with hcommitted | ⟨hcomputed, -⟩
      · simp [hcommitted, Answer.computed] at hb
      · simp [hcomputed] at hb
    | cons a middle =>
      obtain ⟨rfl, hrest⟩ := List.cons.inj h
      rcases hstep with hcommitted | ⟨-, hasked⟩
      · simp [hcommitted]
      · exact List.mem_cons_of_mem _ (ih hasked hrest)

/-- Between two computations something was committed. -/
theorem mem_of_computed {s : Source} {calls : List Call} {before middle after : List Answer}
    {a b : Answer} (h : (s.performAll calls).1 = before ++ a :: (middle ++ b :: after))
    (ha : a.computed = true) (hb : b.computed = true) : .committed ∈ middle := by
  induction calls generalizing s before with
  | nil => simp [performAll] at h
  | cons call calls ih =>
    rw [answers_cons] at h
    cases before with
    | nil =>
      obtain ⟨rfl, hrest⟩ := List.cons.inj h
      exact mem_of_asked (asked_of_computed ha) hrest hb
    | cons other before =>
      obtain ⟨-, hrest⟩ := List.cons.inj h
      exact ih hrest

end Source

/-! ### The cache -/

namespace Jit

/-- A counter of 64 bits tells generations apart until it wraps around. -/
theorem generation_eq_add_iff {generation : UInt64} {n : Nat} (hn : n < UInt64.size) :
    generation = generation + UInt64.ofNat n ↔ n = 0 := by
  rw [UInt64.left_eq_add, UInt64.ofNat_eq_iff_mod_eq_toNat, UInt64.toNat_zero]
  exact ⟨fun h => by rwa [Nat.mod_eq_of_lt hn] at h, fun h => by simp [h]⟩

/-- A server whose answers are those of a server without a cache, and stay so for a number of
commits that are still to come. What it has stored is some commits old, and right if it is none; it
is too young for the counter of generations to have come round to it. -/
structure Serves (j : Jit) (s : Source) (coming : Nat) : Prop where
  injector : j.injector = s.injector
  allocates : Allocates j.capacity
  asked : j.cached?.isSome = s.asked
  coming_lt : coming < UInt64.size
  age : ∀ c, j.cache = some c → ∃ n, n + coming < UInt64.size ∧
    j.injector.generation = c.generation + UInt64.ofNat n ∧ (n = 0 → c.words = s.words)

section

variable {j : Jit} {s : Source} {coming : Nat}

theorem Serves.cached?_eq (h : j.Serves s coming) {ws : List Word} (hws : j.cached? = some ws) :
    ws = s.words := by
  unfold cached? at hws
  split at hws
  · rename_i c hc
    obtain ⟨n, hn, hgeneration, hwords⟩ := h.age c hc
    split at hws
    · rename_i heq
      cases hws
      exact hwords ((generation_eq_add_iff (by omega)).1 (heq.trans hgeneration))
    · cases hws
  · cases hws

/-- The words are those of the module, and then they are stored. -/
theorem Serves.words?_eq (h : j.Serves s coming) :
    ∃ next, j.words? = some (s.words, next) ∧ next.Serves { s with asked := true } coming := by
  unfold words?
  cases hcached : j.cached? with
  | some ws =>
    have hasked : s.asked = true := by rw [← h.asked, hcached, Option.isSome_some]
    cases h.cached?_eq hcached
    exact ⟨j, rfl, h.injector, h.allocates, by simp [hcached], h.coming_lt, h.age⟩
  | none =>
    simp only [if_neg fun hnone => not_allocates_iff.2 hnone h.allocates, h.injector]
    refine ⟨_, rfl, rfl, h.allocates, by simp [cached?], h.coming_lt, ?_⟩
    rintro c ⟨⟩
    exact ⟨0, by simpa using h.coming_lt, by simp, fun _ => rfl⟩

/-- A committed injection makes what is stored invalid. -/
theorem Serves.commit (h : j.Serves s (coming + 1)) {i : Input} {t : HostType} {tree : Tree i t}
    {input : i.Value} {next : Injector} (hinject : (s.injector.inject tree input).2 = .ok next) :
    ({ j with injector := next } : Jit).Serves { injector := next } coming := by
  obtain ⟨_, _, _, _, _, _, _, _, _, _, _, _, _, rfl⟩ :=
    Injector.inject_eq_ok (Prod.ext rfl hinject)
  have hage (c : WordCache) (hc : j.cache = some c) : ∃ n, n + 1 + coming < UInt64.size ∧
      s.injector.generation + 1 = c.generation + UInt64.ofNat (n + 1) := by
    obtain ⟨n, hn, hgeneration, -⟩ := h.age c hc
    refine ⟨n, by omega, ?_⟩
    rw [← h.injector, hgeneration, UInt64.ofNat_add, UInt64.add_assoc]
    rfl
  refine ⟨rfl, h.allocates, ?_, Nat.lt_of_succ_lt h.coming_lt, fun c hc => ?_⟩
  · cases hc : j.cache with
    | none => simp [cached?]
    | some c =>
      obtain ⟨n, hn, hgeneration⟩ := hage c hc
      have hne : c.generation ≠ s.injector.generation + 1 := by
        rw [hgeneration, ne_eq, generation_eq_add_iff (by omega)]
        exact Nat.succ_ne_zero n
      simp [cached?, Injector.commit, hne]
  · obtain ⟨n, hn, hgeneration⟩ := hage c hc
    exact ⟨n + 1, hn, hgeneration, fun hzero => absurd hzero (Nat.succ_ne_zero n)⟩

theorem Serves.perform {call : Call}
    (h : j.Serves s (coming + [(s.perform call).1].count .committed)) :
    (j.perform call).1 = (s.perform call).1 ∧
      (j.perform call).2.Serves (s.perform call).2 coming := by
  have hnone : j.cached?.isNone = ! s.asked := by
    rw [← h.asked, Option.not_isSome]
  cases call with
  | inject tree input =>
    simp only [Jit.perform, Source.perform, inject_eq, h.injector] at h ⊢
    cases hresult : (s.injector.inject tree input).2 with
    | error halt =>
      simp only [hresult] at h
      cases halt with
      | error e | endless => exact ⟨rfl, h⟩
    | ok next =>
      simp only [hresult] at h
      exact ⟨rfl, h.commit hresult⟩
  | words =>
    obtain ⟨next, hwords, hnext⟩ := h.words?_eq
    simp only [Jit.perform, Source.perform, hwords, hnone]
    exact ⟨trivial, hnext⟩
  | bytes =>
    obtain ⟨next, hwords, hnext⟩ := h.words?_eq
    simp only [Jit.perform, Source.perform, bytes?, hwords, Option.map_some, hnone]
    exact ⟨trivial, hnext⟩

theorem Serves.performAll {calls : List Call}
    (h : j.Serves s ((s.performAll calls).1.count .committed)) :
    (j.performAll calls).1 = (s.performAll calls).1 ∧
      (j.performAll calls).2.Serves (s.performAll calls).2 0 := by
  induction calls generalizing j s with
  | nil => exact ⟨rfl, h⟩
  | cons call calls ih =>
    rw [Source.answers_cons, ← List.singleton_append, List.count_append, Nat.add_comm] at h
    obtain ⟨hanswer, hnext⟩ := h.perform
    obtain ⟨hanswers, hlast⟩ := ih hnext
    exact ⟨congrArg₂ List.cons hanswer hanswers, hlast⟩

/-- A server that cannot make buffers, next to one that can. -/
structure Refuses (j : Jit) (s : Source) : Prop where
  injector : j.injector = s.injector
  allocates : ¬ Allocates j.capacity
  cache : j.cache = none

theorem Refuses.words?_eq_none (h : j.Refuses s) : j.words? = none := by
  simp [words?, cached?, h.cache, not_allocates_iff.1 h.allocates]

theorem Refuses.perform (h : j.Refuses s) (call : Call) :
    (j.perform call).1 = (s.perform call).1.faulted ∧
      (j.perform call).2.Refuses (s.perform call).2 := by
  cases call with
  | inject tree input =>
    simp only [Jit.perform, Source.perform, inject_eq, h.injector]
    cases hresult : (s.injector.inject tree input).2 with
    | error halt =>
      cases halt with
      | error e | endless => exact ⟨rfl, h⟩
    | ok next => exact ⟨rfl, rfl, h.allocates, h.cache⟩
  | words =>
    simp only [Jit.perform, Source.perform, h.words?_eq_none]
    exact ⟨rfl, h.injector, h.allocates, h.cache⟩
  | bytes =>
    simp only [Jit.perform, Source.perform, bytes?, h.words?_eq_none, Option.map_none]
    exact ⟨rfl, h.injector, h.allocates, h.cache⟩

theorem Refuses.performAll (h : j.Refuses s) (calls : List Call) :
    (j.performAll calls).1 = (s.performAll calls).1.map Answer.faulted := by
  induction calls generalizing j s with
  | nil => rfl
  | cons call calls ih =>
    obtain ⟨hanswer, hnext⟩ := h.perform call
    exact congrArg₂ List.cons hanswer (ih hnext)

end

theorem create_eq_ok {j : Jit} {m : Module} {options : Options} (h : (create m options).2 = .ok j) :
    j.cache = none ∧ j.capacity = options.capacity := by
  unfold create at h
  cases hmade : (Injector.create m options.function options).2 with
  | error e => simp [hmade, Except.map] at h
  | ok injector =>
    simp only [hmade, Except.map] at h
    cases h
    exact ⟨rfl, rfl⟩

/-- **A server never gives out old words.** If buffers of its capacity can be made, it answers any
calls as a server without a cache does: with the words of the current module, or with their bytes,
which are computed again only if something was committed since they last were. That holds for fewer
commits than a counter of 64 bits can tell apart. Otherwise it gives no words. The bytes are read as
the words are. -/
theorem performAll_eq {m : Module} {options : Options} {j : Jit}
    (h : (create m options).2 = .ok j) (calls : List Call) :
    (Allocates options.capacity →
      (Source.performAll { injector := j.injector } calls).1.count .committed < UInt64.size →
      (j.performAll calls).1 = (Source.performAll { injector := j.injector } calls).1 ∧
      (j.performAll calls).2.injector =
        (Source.performAll { injector := j.injector } calls).2.injector ∧
      ∀ before a middle b after, (j.performAll calls).1 = before ++ a :: (middle ++ b :: after) →
        a.computed = true → b.computed = true → .committed ∈ middle) ∧
    (¬ Allocates options.capacity →
      (j.performAll calls).1 =
        (Source.performAll { injector := j.injector } calls).1.map Answer.faulted) ∧
    ∀ ws, Module.parseBytes (Word.toLittleEndian ws) = Module.parse ws := by
  obtain ⟨hcache, hcapacity⟩ := create_eq_ok h
  rw [← hcapacity]
  refine ⟨fun hallocates hcommits => ?_, fun hallocates => ?_, Module.parseBytes_toLittleEndian⟩
  · have hserves : j.Serves { injector := j.injector } _ :=
      ⟨rfl, hallocates, by simp [cached?, hcache], hcommits, by simp [hcache]⟩
    obtain ⟨hanswers, hlast⟩ := hserves.performAll
    refine ⟨hanswers, hlast.injector, fun before a middle b after hsplit => ?_⟩
    exact Source.mem_of_computed (hanswers ▸ hsplit)
  · have hrefuses : j.Refuses { injector := j.injector } := ⟨rfl, hallocates, hcache⟩
    exact hrefuses.performAll calls

/-- The server for what was built. -/
def built (capacity : Int) : Jit :=
  { injector := .built, capacity }

/-- Asking around an injection that is committed and around one that is not. -/
def mixedCalls : List Call :=
  [.words, .inject Tree.successor (), .bytes, .words,
    .inject (Tree.missing : Tree .none .f32) (), .words]

theorem performAll_eq_mixedCalls :
    (create .built { function := utf8 "f", capacity := 16 }).2 = .ok (built 16) ∧
      Allocates 16 ∧
      ((built 16).performAll mixedCalls).1 =
        (Source.performAll { injector := .built } mixedCalls).1 ∧
      ((built 16).performAll mixedCalls).1.map Answer.computed =
        [true, false, true, false, false, false] := by
  have hcreate : (create .built { function := utf8 "f", capacity := 16 }).2 = .ok (built 16) := rfl
  obtain ⟨hserves, -⟩ := performAll_eq hcreate mixedCalls
  exact ⟨hcreate, by decide, (hserves (by decide) (by decide +kernel)).1, by decide +kernel⟩

/-- With a negative capacity a server can be made, but gives no words. -/
theorem words?_negative :
    (create .built { function := utf8 "f", capacity := -1 }).2 = .ok (built (-1)) ∧
      (built (-1)).words? = none := by
  exact ⟨rfl, rfl⟩

end Jit

end ShaderGraft
