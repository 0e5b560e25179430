import ShaderGraft.Module.Declare

/-!
Building functions. A builder edits one module and has a function and a block of it selected, at
whose end new instructions go.
-/

namespace ShaderGraft

/-- What a builder has selected, by index. -/
structure Selection where
  function : Option Nat := none
  block : Option Nat := none
deriving DecidableEq, Repr

/-- A module and what is selected in it. -/
structure Builder where
  target : Module
  selection : Selection := {}
deriving Repr

/-- Why a builder refuses a selection. -/
inductive Refusal where
  | noFunctionSelected
  | functionOutOfRange (index : Int) (count : Nat)
  | blockOutOfRange (index : Int)
deriving DecidableEq, Repr

def Refusal.message : Refusal → String
  | .noFunctionSelected => "no function selected"
  | .functionOutOfRange index count =>
    "function index " ++ toString index ++ " out of range [0," ++ toString count ++ ")"
  | .blockOutOfRange index => "block index " ++ toString index ++ " out of range"

/-- What a caller did that no builder allows. -/
inductive BuilderMisuse where
  | noBlockSelected
  | noFunctionSelected
  | parameterAfterBlock
deriving DecidableEq, Repr

def BuilderMisuse.message : BuilderMisuse → String
  | .noBlockSelected => "spirv: no block selected"
  | .noFunctionSelected => "spirv: no function selected"
  | .parameterAfterBlock => "spirv: function parameter after first block"

/-- Why a step of a builder ends early. What it did to the module before stays. -/
inductive BuildError where
  | refused (cause : Refusal)
  | misuse (cause : BuilderMisuse)
  /-- What is selected is no longer in the module. -/
  | lost
deriving DecidableEq, Repr

/-- A step of a builder. It can fail after it has changed the module. -/
abbrev Build (α : Type) := EStateM BuildError Builder α

namespace Build

/-- Runs a step that needs no selection. -/
def declare {α : Type} (step : Declare α) : Build α := fun b =>
  let (a, m) := step.run b.target
  .ok a { b with target := m }

def fresh : Build ResultId :=
  declare Declare.fresh

/-- Selects the function at `index` and no block. -/
def selectFunction (index : Int) : Build Unit := do
  let b ← get
  if 0 ≤ index ∧ index < b.target.functions.length then
    set { b with selection := { function := some index.toNat } }
  else throw (.refused (.functionOutOfRange index b.target.functions.length))

/-- Selects a block of the selected function. -/
def selectBlock (index : Int) : Build Unit := do
  let b ← get
  match b.selection.function with
  | none => throw (.refused .noFunctionSelected)
  | some f =>
    if index < 0 then throw (.refused (.blockOutOfRange index))
    match b.target.functions[f]? with
    | none => throw .lost
    | some fn =>
      if index < fn.blocks.length then set { b with selection.block := some index.toNat }
      else throw (.refused (.blockOutOfRange index))

/-- Appends a block with the given label to the selected function and selects it. -/
def beginBlockWithLabel (label : ResultId) : Build Nat := do
  let b ← get
  match b.selection.function with
  | none => throw (.refused .noFunctionSelected)
  | some f =>
    match b.target.functions[f]? with
    | none => throw .lost
    | some fn =>
      let block : Block := { label := { opcode := .label, resultId := label } }
      let functions := b.target.functions.set f { fn with blocks := fn.blocks ++ [block] }
      set { b with
        target := { b.target with functions }
        selection.block := some fn.blocks.length }
      return fn.blocks.length

/-- Appends a block with a fresh label and selects it. -/
def beginBlock : Build (ResultId × Nat) := do
  if (← get).selection.function.isNone then throw (.refused .noFunctionSelected)
  let label ← fresh
  return (label, ← beginBlockWithLabel label)

/-- Appends an instruction to the selected block. -/
def insert (inst : Instruction) : Build Unit := do
  let b ← get
  match b.selection.function, b.selection.block with
  | some f, some k =>
    match b.target.functions[f]? with
    | none => throw .lost
    | some fn =>
      match fn.blocks[k]? with
      | none => throw .lost
      | some block =>
        let blocks := fn.blocks.set k { block with body := block.body ++ [inst] }
        let functions := b.target.functions.set f { fn with blocks }
        set { b with target := { b.target with functions } }
  | _, _ => throw (.misuse .noBlockSelected)

/-- Appends an instruction with a fresh result id, which is taken before the selection is looked
at. -/
def emit (op : Opcode) (resultType : ResultId) (operands : List Word) : Build ResultId := do
  let id ← fresh
  insert { opcode := op, resultType, resultId := id, operands }
  return id

/-- Appends a function and selects it. -/
def beginFunction (result : ResultId) (control : Word) (type : ResultId) : Build ResultId := do
  let id ← fresh
  modify fun b => {
    target := { b.target with functions := b.target.functions ++ [{
      definition := {
        opcode := .function, resultType := result, resultId := id, operands := [control, type] } }] }
    selection := { function := some b.target.functions.length } }
  return id

/-- Appends a parameter to the selected function, which must have no blocks yet. -/
def functionParameter (type : ResultId) : Build ResultId := do
  let b ← get
  match b.selection.function with
  | none => throw (.misuse .noFunctionSelected)
  | some f =>
    match b.target.functions[f]? with
    | none => throw .lost
    | some fn =>
      if fn.blocks.isEmpty then
        let id ← fresh
        let parameter : Instruction :=
          { opcode := .functionParameter, resultType := type, resultId := id }
        modify fun b =>
          let functions := b.target.functions.set f { fn with
            parameters := fn.parameters ++ [parameter] }
          { b with target := { b.target with functions } }
        return id
      else throw (.misuse .parameterAfterBlock)

/-- Selects nothing. -/
def endFunction : Build Unit :=
  modify fun b => { b with selection := {} }

/-- Arithmetic on two values. -/
def binary (op : Opcode) (type x y : ResultId) : Build ResultId :=
  emit op type [x, y]

/-- An instruction of an imported set. -/
def extInst (type set n : Word) (operands : List ResultId) : Build ResultId :=
  emit .extInst type (set :: n :: operands)

def compositeConstruct (type : ResultId) (constituents : List ResultId) : Build ResultId :=
  emit .compositeConstruct type constituents

def compositeExtract (type composite : ResultId) (indices : List Word) : Build ResultId :=
  emit .compositeExtract type (composite :: indices)

def functionCall (type function : ResultId) (arguments : List ResultId) : Build ResultId :=
  emit .functionCall type (function :: arguments)

/-- A variable in the memory of its function. -/
def memoryVariable (pointerType storageClass : Word) : Build ResultId :=
  emit .memoryVariable pointerType [storageClass]

def load (type pointer : ResultId) : Build ResultId :=
  emit .load type [pointer]

def store (pointer value : ResultId) : Build Unit :=
  insert { opcode := .store, operands := [pointer, value] }

def branch (target : ResultId) : Build Unit :=
  insert { opcode := .branch, operands := [target] }

def returnValue (value : ResultId) : Build Unit :=
  insert { opcode := .returnValue, operands := [value] }

def returnVoid : Build Unit :=
  insert { opcode := .returnVoid }

end Build

/-- The state that a step ends in, whether it fails or not. -/
def endState {ε σ α : Type} (x : EStateM ε σ α) (s : σ) : σ :=
  match x.run s with
  | .ok _ s' | .error _ s' => s'

end ShaderGraft
