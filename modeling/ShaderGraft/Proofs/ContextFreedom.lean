import ShaderGraft.Proofs.Activations
import ShaderGraft.Proofs.ConstantValues
import ShaderGraft.Proofs.Correctness

/-!
# Calls do not depend on where they are made

The frames of a run do not hide declarations, and the constants that it remembers are right, at
every point of it (`Module.sound_iterate_next`). Two runs of the same thing from such states come to
the same, whatever they remember and however many instructions and calls came before, unless a limit
stops one of them (`Module.agree_callAt`). So a call inside of a run comes to what it comes to on
its own (`Module.call_context_free`).
-/

namespace ShaderGraft

variable {host : Host}

/-- Whether a run was stopped by the limit of instructions or of nested calls. -/
def Stop.IsLimit : Stop → Prop
  | .error cause => cause.root = .stepLimit ∨ cause.root = .callDepth
  | _ => False

theorem Stop.IsLimit.within {stop : Stop} (h : stop.IsLimit) (function block : ResultId) :
    (stop.within function block).IsLimit := by
  cases stop <;> exact h

namespace Eval

/-- Whether two results are the same and remember constants right, unless one of them is due to a
limit. -/
inductive Matches {α : Type} (m : Module) (host : Host) (post : α → Prop) :
    Except Stop (α × Machine) → Except Stop (α × Machine) → Prop
  | ok {a : α} {s t : Machine} : post a → s.Remembers m host → t.Remembers m host →
    Matches m host post (.ok (a, s)) (.ok (a, t))
  | error (stop : Stop) : Matches m host post (.error stop) (.error stop)
  | left {stop : Stop} (r : Except Stop (α × Machine)) : stop.IsLimit →
    Matches m host post (.error stop) r
  | right {stop : Stop} (r : Except Stop (α × Machine)) : stop.IsLimit →
    Matches m host post r (.error stop)

/-- Whether two parts of runs come to the same from all states that remember constants right. -/
def Agree {α : Type} (m : Module) (host : Host) (post : α → Prop) (x y : Eval α) : Prop :=
  ∀ s t : Machine, s.Remembers m host → t.Remembers m host → Matches m host post (x.run s) (y.run t)

variable {m : Module} {α β : Type}

theorem Agree.bind {mid : α → Prop} {post : β → Prop} {x y : Eval α} {f g : α → Eval β}
    (h : Agree m host mid x y) (hf : ∀ a, mid a → Agree m host post (f a) (g a)) :
    Agree m host post (x >>= f) (y >>= g) := by
  intro s t hs ht
  have hxy := h s t hs ht
  generalize hx : x.run s = r at hxy
  generalize hy : y.run t = r' at hxy
  cases hxy with
  | ok ha hs₁ ht₁ =>
    rw [run_bind_ok hx, run_bind_ok hy]
    exact hf _ ha _ _ hs₁ ht₁
  | error stop =>
    rw [run_bind_error hx, run_bind_error hy]
    exact .error stop
  | left _ hstop =>
    rw [run_bind_error hx]
    exact .left _ hstop
  | right _ hstop =>
    rw [run_bind_error hy]
    exact .right _ hstop

theorem Agree.of_run {post : α → Prop} {x : Eval α} {s s' : Machine} {a : α}
    (h : Agree m host post x x) (hs : s.Remembers m host) (hrun : x.run s = .ok (a, s')) :
    post a ∧ s'.Remembers m host := by
  have hmatches := h s s hs hs
  rw [hrun] at hmatches
  cases hmatches with
  | ok ha hs' _ => exact ⟨ha, hs'⟩

theorem Agree.inBlock {post : α → Prop} {x y : Eval α} (function block : ResultId)
    (h : Agree m host post x y) :
    Agree m host post (inBlock function block x) (inBlock function block y) := by
  intro s t hs ht
  have hxy := h s t hs ht
  generalize hx : x.run s = r at hxy
  generalize hy : y.run t = r' at hxy
  cases hxy with
  | ok ha hs₁ ht₁ =>
    rw [run_inBlock_eq_ok.2 hx, run_inBlock_eq_ok.2 hy]
    exact .ok ha hs₁ ht₁
  | error stop =>
    rw [run_inBlock_error hx, run_inBlock_error hy]
    exact .error _
  | left _ hstop =>
    rw [run_inBlock_error hx]
    exact .left _ (hstop.within function block)
  | right _ hstop =>
    rw [run_inBlock_error hy]
    exact .right _ (hstop.within function block)

/-- What an id stands for does not depend on what is remembered. -/
theorem agree_value (hclosed : m.Closed) {frame : Frame} (hlocal : frame.Local m) (id : ResultId) :
    Agree m host (fun _ => True) (m.value host frame id) (m.value host frame id) := by
  intro s t hs ht
  cases hframe : frame.values.get? id with
  | some v =>
    have hrun (s : Machine) : (m.value host frame id).run s = .ok (v, s) := by
      rw [Module.value, Module.run_valueOf, hframe]
    rw [hrun, hrun]
    exact .ok trivial hs ht
  | none =>
    have hlookup := Module.looksUp_value host hclosed hlocal hframe
    obtain ⟨v, s₁, hx, hv, hs₁⟩ | ⟨cause, hx, hcause⟩ := hlookup s hs
    · obtain ⟨w, t₁, hy, hw, ht₁⟩ | ⟨cause', hy, hcause'⟩ := hlookup t ht
      · cases hv.symm.trans hw
        rw [hx, hy]
        exact .ok trivial hs₁ ht₁
      · rw [hv] at hcause'
        simp at hcause'
    · obtain ⟨w, t₁, hy, hw, ht₁⟩ | ⟨cause', hy, hcause'⟩ := hlookup t ht
      · rw [hw] at hcause
        simp at hcause
      · simp only [and_false, or_false] at hcause hcause'
        cases hcause.symm.trans hcause'
        rw [hx, hy]
        exact .error _

theorem agree_countStep : Agree m host (fun _ => True) countStep countStep := by
  intro s t hs ht
  by_cases hsteps : s.steps < maxSteps
  · by_cases hsteps' : t.steps < maxSteps
    · rw [Module.run_countStep hsteps, Module.run_countStep hsteps']
      exact .ok trivial hs ht
    · rw [Module.run_countStep_limit hsteps']
      exact .right _ (.inl rfl)
  · rw [Module.run_countStep_limit hsteps]
    exact .left _ (.inl rfl)

theorem agree_logic (host : Host) (hclosed : m.Closed) :
    Logic m host (Frame.Local m) (fun _ => True) fun post x y => Agree m host post x y where
  pure ha := fun _ _ hs ht => .ok ha hs ht
  bind := .bind
  throw _ := fun _ _ _ _ => .error _
  inBlock := .inBlock
  value id hlocal := agree_value hclosed hlocal id
  allows _ := trivial
  remember _ hlocal := hlocal

theorem agree_request (host : Host) (hclosed : m.Closed) {frame : Frame} (hlocal : frame.Local m)
    (ops : List Word) :
    Agree m host (fun _ => True) (m.request host frame ops) (m.request host frame ops) :=
  (agree_logic host hclosed).request hlocal (.inr trivial)

/-- Results that match and are not due to a limit are the same. -/
theorem Matches.eq {post : α → Prop} {r r' : Except Stop (α × Machine)}
    (h : Matches m host post r r') (hr : ∀ stop, r = .error stop → ¬ stop.IsLimit)
    (hr' : ∀ stop, r' = .error stop → ¬ stop.IsLimit) : (·.1) <$> r = (·.1) <$> r' := by
  cases h with
  | ok => rfl
  | error stop => rfl
  | left _ hstop => exact absurd hstop (hr _ rfl)
  | right _ hstop => exact absurd hstop (hr' _ rfl)

end Eval

namespace Module

open Eval

variable {m : Module}

/-! ### Frames -/

/-- What a function defines is no declaration. -/
theorem IdsDistinct.ne_of_global? (hm : m.IdsDistinct) {f : Function} {inst decl : Instruction}
    {id : ResultId} (hf : f ∈ m.functions) (hinst : inst ∈ f.instructions)
    (hdecl : m.global? id = some decl) : inst.resultId ≠ id := by
  rintro rfl
  obtain ⟨hmem, heq⟩ := mem_of_global? hdecl
  have hdistinct := List.pairwise_append.1 hm.distinct
  have hzero := hdistinct.2.2 decl (List.mem_append_right _ hmem) inst
    (List.mem_flatMap.2 ⟨f, hf, hinst⟩) heq
  rw [global?, ← heq, if_pos hzero] at hdecl
  cases hdecl

theorem IdsDistinct.local_startFrame (hm : m.IdsDistinct) {f : Function} (hf : f ∈ m.functions)
    (args : List Value) : (startFrame f args).Local m := by
  intro id decl hdecl
  cases hget : (startFrame f args).values.get? id with
  | none => rfl
  | some v =>
    obtain ⟨inst, hinst, heq⟩ := mem_parameters_of_startFrame hget
    have hmem : inst ∈ f.instructions := by simp [Function.instructions, hinst]
    exact absurd heq (hm.ne_of_global? hf hmem hdecl)

theorem IdsDistinct.fits (hm : m.IdsDistinct) {f : Function} {b : Block} {inst : Instruction}
    (hf : f ∈ m.functions) (hb : b ∈ f.blocks) (hinst : inst ∈ b.body) :
    inst.Fits (Frame.Local m) fun _ => True := by
  refine ⟨fun frame v hlocal id decl hdecl => ?_, .inr trivial⟩
  have hmem := f.mem_instructions_of_mem_body hb hinst
  unfold Frame.define
  split
  · exact hlocal id decl hdecl
  · rw [IdMap.get?_insert, if_neg (hm.ne_of_global? hf hmem hdecl)]
    exact hlocal id decl hdecl

theorem agree_callAt (hm : m.IdsDistinct) (hclosed : m.Closed) (depth depth' index : Nat)
    (args : List Value) :
    Agree m host (fun _ => True) (m.callAt host depth index args)
      (m.callAt host depth' index args) := by
  refine (agree_logic host hclosed).callAt agree_countStep
    (fun f hf b hb inst hinst => hm.fits hf hb hinst)
    (fun f hf args => hm.local_startFrame hf args) (.inr fun x => ⟨?_, ?_⟩) index args
  · exact fun _ _ _ _ => .left _ (.inr rfl)
  · exact fun _ _ _ _ => .right _ (.inr rfl)

/-! ### Every point of a run -/

end Module

/-- What holds of an activation at every point: its function is one of the module, the instructions
that it has left fit in, and its frame hides no declarations. -/
structure Activation.Sound (m : Module) (a : Activation) : Prop where
  function : a.function ∈ m.functions
  rest : ∀ inst ∈ a.rest, inst.Fits (Frame.Local m) fun _ => True
  frame : a.frame.Local m

/-- What holds of a run at every point: its activations are sound, and the constants that it
remembers are right. -/
def Run.Sound (m : Module) (host : Host) : Run → Prop
  | running s _ top callers => s.Remembers m host ∧ ∀ a ∈ top :: callers, a.Sound m
  | ended _ _ => True

/-- What holds of where an instruction leads. -/
def Move.Sound (m : Module) : Move → Prop
  | .proceed a | .call a => a.Sound m
  | .return _ => True

theorem Activation.Sound.resume {m : Module} {a : Activation} (h : a.Sound m) (v : Value) :
    (a.resume v).Sound m := by
  unfold Activation.resume
  split
  · exact h
  · rename_i inst rest hrest
    have hfits := h.rest
    rw [hrest, List.forall_mem_cons] at hfits
    exact ⟨h.function, hfits.2, hfits.1.define _ v h.frame⟩

namespace Module

open Eval

section

variable {m : Module} (hm : m.IdsDistinct) (hclosed : m.Closed)

include hm

theorem IdsDistinct.sound_atBlock {f : Function} {frame : Frame} {block : Block}
    (hf : f ∈ m.functions) (hblock : block ∈ f.blocks) (hframe : frame.Local m) :
    (Activation.atBlock f frame block).Sound m :=
  ⟨hf, fun _ hinst => hm.fits hf hblock hinst, hframe⟩

theorem IdsDistinct.sound_activate {active index : Nat} {args : List Value} {a : Activation}
    (h : m.activate active index args = .ok a) : a.Sound m := by
  obtain ⟨-, f, first, hf, hfirst, rfl⟩ := activate_eq_ok h
  have hmem := List.mem_of_getElem? hf
  exact hm.sound_atBlock hmem hfirst (hm.local_startFrame hmem args)

theorem IdsDistinct.sound_start (index : Int) (args : List Value) :
    (m.start index args).Sound m host := by
  unfold start
  split
  · trivial
  split
  · trivial
  · rename_i a ha
    exact ⟨Machine.remembers_empty m host, List.forall_mem_singleton.2 (hm.sound_activate ha)⟩

include hclosed

theorem sound_advance {waiting : Nat} {a : Activation} {s s' : Machine} {move : Move}
    (ha : a.Sound m) (hs : s.Remembers m host)
    (h : (m.advance host waiting a).run s = .ok (move, s')) :
    move.Sound m ∧ s'.Remembers m host := by
  obtain ⟨inst, rest, hrest, ⟨-, call, s₁, callee, hcount, hrequest, hactivate, rfl⟩ |
    ⟨-, effect, hstep, hmoves⟩⟩ := advance_eq_ok h
  · have hs₁ := (agree_countStep.of_run hs hcount).2
    have hagree := agree_request host hclosed ha.frame inst.operands
    exact ⟨hm.sound_activate hactivate, (hagree.of_run hs₁ hrequest).2⟩
  · have hfits := ha.rest
    rw [hrest, List.forall_mem_cons] at hfits
    have hagree := (agree_logic host hclosed).step agree_countStep .none .none
      (fun _ _ _ _ _ _ => .error _) ha.frame hfits.1
    obtain ⟨heffect, hs'⟩ := hagree.of_run hs hstep
    refine ⟨?_, hs'⟩
    cases hmoves with
    | proceed frame => exact ⟨ha.function, hfits.2, heffect⟩
    | «return» v => trivial
    | branch label hblock => exact hm.sound_atBlock ha.function hblock ha.frame

theorem sound_next {run : Run} (h : run.Sound m host) : (m.next host run).Sound m host := by
  cases run with
  | ended executed outcome => exact h
  | running s executed top callers =>
    obtain ⟨hs, hsound⟩ := h
    obtain ⟨htop, hcallers⟩ := List.forall_mem_cons.1 hsound
    cases hrun : m.next host (.running s executed top callers) with
    | ended executed' outcome => trivial
    | running s' executed' top' callers' =>
      obtain ⟨move, hadvance, hmove⟩ := next_eq_running hrun
      obtain ⟨hsound', hs'⟩ := sound_advance hm hclosed htop hs hadvance
      refine ⟨hs', ?_⟩
      obtain ⟨rfl, rfl⟩ | ⟨rfl, rfl⟩ | ⟨v, a, rfl, rfl, rfl⟩ := hmove
      · exact List.forall_mem_cons.2 ⟨hsound', hcallers⟩
      · exact List.forall_mem_cons.2 ⟨hsound', hsound⟩
      · obtain ⟨ha, hcallers'⟩ := List.forall_mem_cons.1 hcallers
        exact List.forall_mem_cons.2 ⟨ha.resume v, hcallers'⟩

/-- A run is sound at every point. -/
theorem sound_iterate_next (host : Host) (n : Nat) (index : Int) (args : List Value) :
    ((m.next host)^[n] (m.start index args)).Sound m host := by
  induction n with
  | zero => exact hm.sound_start index args
  | succ n ih =>
    rw [Function.iterate_succ_apply']
    exact sound_next hm hclosed ih

end

/-- Wherever a call is made in a run, it comes to what the function comes to when it is called with
the same arguments on its own, unless one of the two runs into a limit. The caller goes on
with that value, or stops for that reason. -/
theorem call_context_free {m : Module} (hm : m.IdWellFormed) (hclosed : m.Closed) {n : Nat}
    {index : Int} {args : List Value} {s s' : Machine} {executed rest : List Instruction}
    {top : Activation} {callers : List Activation} {inst : Instruction} {callee : Nat}
    {values : List Value}
    (hrun : (m.next host)^[n] (m.start index args) = .running s executed top callers)
    (hrest : top.rest = inst :: rest) (hop : inst.opcode = .functionCall)
    (hrequest : (do countStep; m.request host top.frame inst.operands : Eval _).run s =
      .ok ((callee, values), s'))
    (hnested : ∀ stop, (m.callAt host (maxCallDepth - callers.length) callee values).run s' =
      .error stop → ¬ stop.IsLimit)
    (hfresh : ∀ stop, m.call host callee values = .error stop → ¬ stop.IsLimit) :
    (·.1) <$> (m.callAt host (maxCallDepth - callers.length) callee values).run s' =
        m.call host callee values ∧
      (·.1) <$> (m.step host (m.callAt host (maxCallDepth - callers.length)) top.frame inst).run s =
        (fun v => .continue (top.resume v).frame) <$> m.call host callee values := by
  have hsound := sound_iterate_next hm.toIdsDistinct hclosed host n index args
  rw [hrun] at hsound
  obtain ⟨hs, hactivations⟩ := hsound
  have hframe := (hactivations top List.mem_cons_self).frame
  have hs' : s'.Remembers m host :=
    ((agree_countStep.bind fun _ _ => agree_request host hclosed hframe inst.operands).of_run hs
      hrequest).2
  have hcall : m.call host callee values =
      (·.1) <$> (m.callAt host (maxCallDepth + 1) callee values).run {} := by
    rw [call, if_neg (by omega), Int.toNat_natCast]
  have heq : (·.1) <$> (m.callAt host (maxCallDepth - callers.length) callee values).run s' =
      m.call host callee values := by
    rw [hcall]
    refine (agree_callAt hm.toIdsDistinct hclosed _ _ callee values s' {} hs'
      (Machine.remembers_empty m host)).eq hnested fun stop hstop => hfresh stop ?_
    rw [hcall, hstop]
    rfl
  refine ⟨heq, ?_⟩
  have hstep : m.step host (m.callAt host (maxCallDepth - callers.length)) top.frame inst =
      ((do countStep; m.request host top.frame inst.operands) >>= fun call => do
        let v ← m.callAt host (maxCallDepth - callers.length) call.1 call.2
        return .continue (top.resume v).frame) := by
    simp only [step_functionCall m hop, bind_assoc, Activation.resume, hrest]
  rw [hstep, run_bind_ok hrequest, ← heq]
  cases hcallee : (m.callAt host (maxCallDepth - callers.length) callee values).run s' with
  | error stop =>
    rw [run_bind_error hcallee]
    rfl
  | ok p =>
    rw [run_bind_ok hcallee]
    rfl

/-- A function that calls another one twice, which looks up the same constant both times. -/
def callsTwice : Module where
  header := { version := ⟨1, 3⟩, bound := 9 }
  globals := [
    { opcode := .typeFloat, resultId := 1, operands := [32] },
    { opcode := .constant, resultType := 1, resultId := 2, operands := [0x40800000] }]
  functions := [
    { definition := { opcode := .function, resultType := 1, resultId := 3, operands := [0, 0] }
      blocks := [{ label := { opcode := .label, resultId := 4 }
                   body := [
                    { opcode := .functionCall, resultType := 1, resultId := 5, operands := [7] },
                    { opcode := .functionCall, resultType := 1, resultId := 6, operands := [7] },
                    { opcode := .returnValue, operands := [6] }] }] },
    { definition := { opcode := .function, resultType := 1, resultId := 7, operands := [0, 0] }
      blocks := [{ label := { opcode := .label, resultId := 8 }
                   body := [{ opcode := .returnValue, operands := [2] }] }] }]

namespace callsTwice

/-- The constant. -/
def four : Value :=
  .float (Float32.ofBits 0x40800000)

/-- The function that is called, at its start. -/
def callee : Activation where
  function := callsTwice.functions[1]
  block := 8
  frame := {}
  rest := [{ opcode := .returnValue, operands := [2] }]

/-- The caller after the first call. -/
def caller : Activation where
  function := callsTwice.functions[0]
  block := 4
  frame := { values := .insert .empty 5 four }
  rest := [
    { opcode := .functionCall, resultType := 1, resultId := 6, operands := [7] },
    { opcode := .returnValue, operands := [6] }]

theorem run_value_first (n : Nat) : (callsTwice.value host {} 2).run { steps := n } =
    .ok (four, { constants := .insert .empty 2 four, steps := n }) := by
  rw [value, run_valueOf]
  simp only [IdMap.get?_empty]
  rfl

theorem run_value_again (n : Nat) :
    (callsTwice.value host {} 2).run { constants := .insert .empty 2 four, steps := n } =
      .ok (four, { constants := .insert .empty 2 four, steps := n }) := by
  rw [value, run_valueOf]
  simp only [IdMap.get?_empty, IdMap.get?_insert, if_true]

theorem run_callAt (active : Nat) {depth : Nat} (h : active + depth = maxCallDepth + 1)
    (hactivate : callsTwice.activate active 1 [] = .ok callee) {s s' : Machine}
    (hsteps : s.steps < maxSteps)
    (hvalue : (callsTwice.value host {} 2).run { s with steps := s.steps + 1 } = .ok (four, s')) :
    (callsTwice.callAt host depth 1 []).run s = .ok (four, s') := by
  have hstep (call : Callee) : (callsTwice.step host call callee.frame
      { opcode := .returnValue, operands := [2] }).run s = .ok (.leave (.return four), s') := by
    rw [step, run_bind_ok (run_countStep hsteps)]
    change (callsTwice.value host {} 2 >>= fun v => pure (Effect.leave (.return v))).run _ = _
    rw [run_bind_ok hvalue]
    rfl
  have hrest : callee.rest = [{ opcode := .returnValue, operands := [2] }] := rfl
  rw [callAt_eq callsTwice h, hactivate]
  change (callsTwice.finish host _ _ callee).run s = _
  rw [finish_cons callsTwice host _ _ hrest, run_bind_ok (run_inBlock_eq_ok.2 (hstep _))]
  rfl

theorem iterate_next_start : ∃ executed, (callsTwice.next host)^[2] (callsTwice.start 0 []) =
    .running { constants := .insert .empty 2 four, steps := 2 } executed caller [] := by
  have hreturn : (callsTwice.advance host 1 callee).run { steps := 1 } =
      .ok (.return four, { constants := .insert .empty 2 four, steps := 2 }) := by
    change (inBlock 7 8 (callsTwice.value host {} 2 >>= fun v =>
      pure (Effect.leave (.return v))) >>= moveTo _ _).run { steps := 2 } = _
    rw [run_bind_ok (run_inBlock_eq_ok.2 (run_bind_ok (run_value_first 2)))]
    rfl
  have hcall : callsTwice.next host (callsTwice.start 0 []) = .running { steps := 1 }
      [{ opcode := .functionCall, resultType := 1, resultId := 5, operands := [7] }] callee
      [.atBlock callsTwice.functions[0] {} callsTwice.functions[0].blocks[0]] := rfl
  rw [Function.iterate_succ_apply', Function.iterate_one, hcall]
  simp only [next, List.length_singleton, hreturn]
  exact ⟨_, rfl⟩

/-- At the second call the constant is remembered, and the first call has left a value in the frame
of the caller. -/
theorem call_context_free_second : callsTwice.IdWellFormed ∧ callsTwice.Closed ∧
    ∃ executed s s', (callsTwice.next .native)^[2] (callsTwice.start 0 []) =
        .running s executed caller [] ∧
      s.constants.get? 2 = some four ∧
      (do countStep; callsTwice.request .native caller.frame [7] : Eval _).run s =
        .ok ((1, []), s') ∧
      (∀ stop, (callsTwice.callAt .native maxCallDepth 1 []).run s' = .error stop →
        ¬ stop.IsLimit) ∧
      (∀ stop, callsTwice.call .native 1 [] = .error stop → ¬ stop.IsLimit) ∧
      (·.1) <$> (callsTwice.callAt .native maxCallDepth 1 []).run s' =
        callsTwice.call .native 1 [] ∧
      (·.1) <$> (callsTwice.step .native (callsTwice.callAt .native maxCallDepth) caller.frame
        { opcode := .functionCall, resultType := 1, resultId := 6, operands := [7] }).run s =
          (fun v => .continue (caller.resume v).frame) <$> callsTwice.call .native 1 [] := by
  obtain ⟨executed, hrun⟩ := iterate_next_start
  have hrequest : (do countStep; callsTwice.request .native caller.frame [7] : Eval _).run
      { constants := .insert .empty 2 four, steps := 2 } =
        .ok ((1, []), { constants := .insert .empty 2 four, steps := 3 }) := rfl
  have hnested : ∀ stop, (callsTwice.callAt .native maxCallDepth 1 []).run
      { constants := .insert .empty 2 four, steps := 3 } = .error stop → ¬ stop.IsLimit := by
    rw [run_callAt 1 rfl rfl (by decide) (run_value_again 4)]
    simp
  have hfresh : ∀ stop, callsTwice.call .native 1 [] = .error stop → ¬ stop.IsLimit := by
    have hcallAt : (callsTwice.callAt .native (maxCallDepth + 1) 1 []).run {} = _ :=
      run_callAt 0 rfl rfl (by decide) (run_value_first 1)
    rw [call, if_neg (by decide), Int.toNat_one, hcallAt]
    simp
  exact ⟨by decide, by decide, executed, _, _, hrun, by simp, hrequest, hnested, hfresh,
    call_context_free (by decide) (by decide) hrun rfl rfl hrequest hnested hfresh⟩

end callsTwice

end Module

end ShaderGraft
