import ShaderGraft.Evaluator.Run

/-!
The same runs one instruction at a time. `Module.call` runs a call inside of the instruction that
makes it, and the blocks of a function one inside of the other. Here a run has a stack of activations
that are each at some place of their function, and goes on until it has ended (`Module.next`).
-/

namespace ShaderGraft

/-- The frame after an instruction with the given result has a value. -/
def Frame.define (frame : Frame) (id : ResultId) (v : Value) : Frame :=
  if id = 0 then frame else { frame with values := frame.values.insert id v }

/-- How the end of a block looks from outside of it. -/
def Stop.within (function block : ResultId) : Stop → Stop
  | .error cause => .error (.within function block cause)
  | stop => stop

/-- A call that is being run: its function, the block that it is in, its frame, and the instructions
of the block that it has not finished. While it waits for another call, the instruction that made
this call is the first of them. -/
structure Activation where
  function : Function
  block : ResultId
  frame : Frame
  rest : List Instruction

namespace Activation

/-- An activation at the start of a block. -/
def atBlock (f : Function) (frame : Frame) (block : Block) : Activation where
  function := f
  block := block.label.resultId
  frame := frame
  rest := block.body

/-- The activation after the instruction that it was at has given a value. -/
def resume (a : Activation) (v : Value) : Activation :=
  match a.rest with
  | [] => a
  | inst :: rest => { a with frame := a.frame.define inst.resultId v, rest }

end Activation

/-- What running an instruction does to the stack. -/
inductive Move where
  | proceed (top : Activation)
  | call (callee : Activation)
  | return (v : Value)

/-- A run at some point: what its calls share, the instructions that were run so far, and the
activations, of which the callers wait for the one on top; or the outcome of the run. -/
inductive Run where
  | running (machine : Machine) (executed : List Instruction) (top : Activation)
      (callers : List Activation)
  | ended (executed : List Instruction) (outcome : Except Stop Value)

namespace Run

/-- The instructions that were run. -/
def executed : Run → List Instruction
  | running _ executed _ _ | ended executed _ => executed

end Run

/-- How the end of a call looks from outside of those that wait for it. -/
def Stop.throughCallers : Stop → List Activation → Stop
  | stop, [] => stop
  | stop, a :: callers => (stop.within a.function.id a.block).throughCallers callers

/-- For an instruction that makes no call. -/
def Callee.none : Callee :=
  fun _ _ => Eval.fail .callDepth

namespace Module

/-- The function that a call means, with the arguments that it is called with. -/
def request (m : Module) (host : Host) (frame : Frame) (ops : List Word) :
    Eval (Nat × List Value) := do
  let id ← Eval.operand ops 0
  match m.functionWithId? id with
  | none => Eval.fail (.undefinedFunction id)
  | some index => return (index, ← m.valuesOf host frame ops.tail)

/-- The activation that a call starts with, if it can be made while `active` others are there. -/
def activate (m : Module) (active index : Nat) (args : List Value) :
    Except Stop Activation :=
  match m.functions[index]? with
  | none => .error (.error (.functionOutOfRange index))
  | some f =>
    if active > maxCallDepth then .error (.error .callDepth)
    else if args.length ≠ f.parameters.length then
      .error (.error (.argumentCount f.id f.parameters.length args.length))
    else
      match f.blocks with
      | [] => .error (.error (.noBody f.id))
      | first :: _ => .ok (.atBlock f (startFrame f args) first)

/-- Where an activation goes with what its instruction does. -/
def moveTo (a : Activation) (rest : List Instruction) : Effect → Eval Move
  | .continue frame => return .proceed { a with frame, rest }
  | .leave (.return v) => return .return v
  | .leave (.branch label) =>
    match a.function.blocks.find? (·.label.resultId == label) with
    | some next => return .proceed (.atBlock a.function a.frame next)
    | none => Eval.fail (.branchTarget label)

/-- Runs the instruction that the activation on top of `waiting` others is at. -/
def advance (m : Module) (host : Host) (waiting : Nat) (a : Activation) : Eval Move :=
  match a.rest with
  | [] => Eval.inBlock a.function.id a.block (Eval.fail .noTerminator)
  | inst :: rest =>
    if inst.opcode = .functionCall then
      Eval.inBlock a.function.id a.block do
        Eval.countStep
        let call ← m.request host a.frame inst.operands
        return .call (← Eval.lift (m.activate (waiting + 1) call.1 call.2))
    else do
      moveTo a rest (← Eval.inBlock a.function.id a.block (m.step host .none a.frame inst))

/-- A run after its next instruction. The instruction is run if it is within the limit. -/
def next (m : Module) (host : Host) : Run → Run
  | .ended executed outcome => .ended executed outcome
  | .running s executed top callers =>
    let executed := if s.steps < maxSteps then executed ++ top.rest.take 1 else executed
    match (m.advance host callers.length top).run s with
    | .error stop => .ended executed (.error (stop.throughCallers callers))
    | .ok (.proceed top, s) => .running s executed top callers
    | .ok (.call callee, s) => .running s executed callee (top :: callers)
    | .ok (.return v, s) =>
      match callers with
      | [] => .ended executed (.ok v)
      | a :: callers => .running s executed (a.resume v) callers

/-- A run at its start. -/
def start (m : Module) (index : Int) (args : List Value) : Run :=
  if index < 0 then .ended [] (.error (.error (.functionOutOfRange index)))
  else
    match m.activate 0 index.toNat args with
    | .error stop => .ended [] (.error stop)
    | .ok a => .running {} [] a []

end Module

end ShaderGraft
