import ShaderGraft.Evaluator.Basic

/-!
Running instructions, blocks and calls. What a call does is a parameter of running instructions, so
calls nest by recursion on the depth that is left.
-/

namespace ShaderGraft

/-- What running a call gives, by the index of the function and its arguments. -/
abbrev Callee := Nat → List Value → Eval Value

/-- How a block ends. -/
inductive Exit where
  | branch (label : ResultId)
  | return (v : Value)

/-- What an instruction does besides changing the frame. -/
inductive Effect where
  | continue (frame : Frame)
  | leave (exit : Exit)

namespace Eval

/-- An operand that the instruction must have. -/
def operand (ops : List Word) (i : Nat) : Eval Word :=
  match ops[i]? with
  | some w => pure w
  | none => throw .tooFewOperands

end Eval

namespace Module

/-- A composite of an instruction's operands. -/
def construct (m : Module) (host : Host) (frame : Frame) (inst : Instruction) : Eval Value := do
  match m.global? inst.resultType with
  | none => Eval.fail (.undefinedType inst.resultType)
  | some type =>
    let parts ← m.valuesOf host frame inst.operands
    Eval.lift (compositeValue host type parts)

/-- A call of a function by id. -/
def callById (m : Module) (host : Host) (callee : Callee) (frame : Frame) (ops : List Word) :
    Eval Value := do
  let id ← Eval.operand ops 0
  match m.functionWithId? id with
  | none => Eval.fail (.undefinedFunction id)
  | some index => callee index (← m.valuesOf host frame ops.tail)

/-- Float arithmetic on two operands. -/
def arithmetic (m : Module) (host : Host) (frame : Frame) (f : Float32 → Float32 → Float32)
    (ops : List Word) : Eval Value := do
  let a ← m.value host frame (← Eval.operand ops 0)
  let b ← m.value host frame (← Eval.operand ops 1)
  Eval.lift (a.zipFloats host f b)

/-- A function of an imported instruction set, of which only the standard one is known. -/
def extended (m : Module) (host : Host) (frame : Frame) : List Word → Eval Value
  | set :: n :: first :: rest => do
    match m.definition? set with
    | none => Eval.fail (.undefinedSet set)
    | some inst =>
      if inst.opcode ≠ .extInstImport then Eval.fail (.undefinedSet set)
      let name := (Literal.decode inst.operands).1
      if name ≠ standardSet then Eval.fail (.unsupportedSet name)
      let args ← m.valuesOf host frame (first :: rest)
      Eval.lift (standardValue host n args)
  | _ => Eval.fail .extInstOperands

/-- The value of an instruction that has one. -/
def result (m : Module) (host : Host) (callee : Callee) (frame : Frame) (inst : Instruction) :
    Eval Value :=
  match inst.opcode with
  | .load => do
    let pointer ← Eval.operand inst.operands 0
    match frame.memory.get? pointer with
    | some v => return v
    | none => Eval.fail (.uninitialized pointer)
  | .functionCall => m.callById host callee frame inst.operands
  | .compositeConstruct => m.construct host frame inst
  | .compositeExtract => do
    let v ← m.value host frame (← Eval.operand inst.operands 0)
    Eval.lift (v.extract host inst.operands.tail)
  | .fNegate => do
    let v ← m.value host frame (← Eval.operand inst.operands 0)
    return v.mapFloats (- ·)
  | .extInst => m.extended host frame inst.operands
  | op =>
    match op.arithmetic? with
    | some f => m.arithmetic host frame f inst.operands
    | none => Eval.fail (.unsupported op)

/-- Runs one instruction. -/
def step (m : Module) (host : Host) (callee : Callee) (frame : Frame) (inst : Instruction) :
    Eval Effect := do
  Eval.countStep
  match inst.opcode with
  | .nop | .line | .noLine | .selectionMerge | .loopMerge => return .continue frame
  | .branch => return .leave (.branch (← Eval.operand inst.operands 0))
  | .returnVoid => return .leave (.return .void)
  | .returnValue => return .leave (.return (← m.value host frame (← Eval.operand inst.operands 0)))
  | .memoryVariable =>
    match inst.operands with
    | _ :: initial :: _ =>
      let v ← m.value host frame initial
      return .continue { frame with memory := frame.memory.insert inst.resultId v }
    | _ => return .continue frame
  | .store =>
    let pointer ← Eval.operand inst.operands 0
    let v ← m.value host frame (← Eval.operand inst.operands 1)
    return .continue { frame with memory := frame.memory.insert pointer v }
  | _ =>
    let v ← m.result host callee frame inst
    if inst.resultId = 0 then return .continue frame
    return .continue { frame with values := frame.values.insert inst.resultId v }

/-- Runs the instructions of a block until one leaves it. -/
def runBody (m : Module) (host : Host) (callee : Callee) :
    Frame → List Instruction → Eval (Frame × Exit)
  | _, [] => Eval.fail .noTerminator
  | frame, inst :: rest => do
    match ← m.step host callee frame inst with
    | .leave exit => return (frame, exit)
    | .continue frame => m.runBody host callee frame rest

/-- Runs a block of a function and the blocks it branches to. Every block takes at least one step,
so `fuel` blocks are enough when it exceeds the number of steps. -/
def runBlocks (m : Module) (host : Host) (callee : Callee) (f : Function) :
    (fuel : Nat) → Frame → Block → Eval Value
  | 0, _, _ => Eval.fail .stepLimit
  | fuel + 1, frame, block => do
    let (frame, exit) ← Eval.inBlock f.id block.label.resultId
      (m.runBody host callee frame block.body)
    match exit with
    | .return v => return v
    | .branch label =>
      match f.blocks.find? (·.label.resultId == label) with
      | some next => m.runBlocks host callee f fuel frame next
      | none => Eval.fail (.branchTarget label)

/-- The frame that a call starts with. -/
def startFrame (f : Function) (args : List Value) : Frame :=
  { values := (f.parameters.zip args).foldl (fun vs (p, v) => vs.insert p.resultId v) .empty }

/-- Runs a function on its arguments. -/
def enter (m : Module) (host : Host) (callee : Callee) (f : Function) (args : List Value) :
    Eval Value := do
  if args.length ≠ f.parameters.length then
    Eval.fail (.argumentCount f.id f.parameters.length args.length)
  match f.blocks with
  | [] => Eval.fail (.noBody f.id)
  | first :: _ => m.runBlocks host callee f (maxSteps + 1) (startFrame f args) first

/-- Calls the function at an index, with `depth` levels of calls left including this one. -/
def callAt (m : Module) (host : Host) : (depth : Nat) → Callee
  | depth, index, args => do
    match m.functions[index]? with
    | none => Eval.fail (.functionOutOfRange index)
    | some f =>
      match depth with
      | 0 => Eval.fail .callDepth
      | depth + 1 => m.enter host (m.callAt host depth) f args

/-- Calls the function at an index and gives its value. -/
def call (m : Module) (host : Host) (index : Int) (args : List Value) : Except Stop Value :=
  if index < 0 then .error (.error (.functionOutOfRange index))
  else (·.1) <$> (m.callAt host (maxCallDepth + 1) index.toNat args).run {}

/-- Calls the function with the given debug name. -/
def callNamed (m : Module) (host : Host) (name : Bytes) (args : List Value) :
    Except Stop Value :=
  match m.functionNamed? name with
  | none => .error (.error (.functionNotFound name))
  | some index => m.call host index args

end Module

end ShaderGraft
