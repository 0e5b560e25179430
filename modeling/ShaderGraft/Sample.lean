import ShaderGraft.Builder
import ShaderGraft.Injector

/-!
Sample modules that follow the calling convention of runtime parameters: a compute shader whose entry
point builds a struct of hash and value for every slot and passes them to a function that returns a
float.
-/

namespace ShaderGraft

/-- A parameter of the sample's function: a float, or a float vector if `size` is more than one. -/
structure Slot where
  name : Bytes
  size : Word
  /-- The components of the value that the entry point passes. -/
  value : List UInt32

namespace Sample

/-- The slots of a distance field: a position and an offset. -/
def fieldSlots : List Slot := [
  { name := utf8 "coord", size := 2, value := [0x3f800000, 0x3f800000] },
  { name := utf8 "offset", size := 2, value := [0x3f000000, 0x3e800000] }]

/-- The value type and the struct type of every slot. -/
def slotTypes (float uint : ResultId) : List Slot → Declare (List (ResultId × ResultId))
  | [] => return []
  | s :: rest => do
    let value ← if s.size > 1 then Declare.typeVector float s.size else pure float
    let struct ← Declare.typeStruct [uint, value]
    return (value, struct) :: (← slotTypes float uint rest)

/-- The value of a slot. A slot of size one is its first component, which must be there. -/
def slotValue (float : ResultId) (slot : Slot) (type : ResultId) : Build ResultId := do
  let components ← slot.value.mapM fun bits => Build.declare (Declare.constant float [bits])
  if slot.size = 1 then
    match components with
    | first :: _ => return first
    | [] => throw .lost
  else Build.compositeConstruct type components

/-- The function that is injected into: two named blocks that return zero. -/
def injectable (float type zero : ResultId) (structs : List ResultId) : Build ResultId := do
  let function ← Build.beginFunction float 2 type
  for struct in structs do
    let _ ← Build.functionParameter struct
  let (entry, _) ← Build.beginBlock
  let next ← Build.fresh
  Build.branch next
  let _ ← Build.beginBlockWithLabel next
  Build.returnValue zero
  Build.endFunction
  Build.declare (Declare.name entry (utf8 "entry"))
  Build.declare (Declare.name next (utf8 "bb1"))
  return function

/-- The entry point: it builds all values, then one struct for every slot, and calls the function. -/
def entryPoint (void float uint type function : ResultId)
    (slots : List (Slot × ResultId × ResultId)) : Build ResultId := do
  let main ← Build.beginFunction void 0 type
  let _ ← Build.beginBlock
  let values ← slots.mapM fun (slot, valueType, _) => slotValue float slot valueType
  let arguments ← (slots.zip values).mapM fun ((slot, _, struct), value) => do
    let hash ← Build.declare (Declare.constant uint [nameHash slot.name])
    Build.compositeConstruct struct [hash, value]
  let _ ← Build.functionCall float function arguments
  Build.returnVoid
  Build.endFunction
  return main

/-- Builds the sample with the given slots. -/
def build (slots : List Slot) : Build Unit := do
  Build.declare (Declare.capability 1)
  Build.declare (Declare.memoryModel 0 1)
  let void ← Build.declare Declare.typeVoid
  let float ← Build.declare (Declare.typeFloat 32)
  let uint ← Build.declare (Declare.typeInt 32 false)
  let types ← Build.declare (slotTypes float uint slots)
  let mainType ← Build.declare (Declare.typeFunction void [])
  let functionType ← Build.declare (Declare.typeFunction float (types.map (·.2)))
  let zero ← Build.declare (Declare.constant float [0])
  let function ← injectable float functionType zero (types.map (·.2))
  let main ← entryPoint void float uint mainType function (slots.zip types)
  Build.declare (Declare.entryPoint 5 main (utf8 "main") [])
  Build.declare (Declare.executionMode main 17 [1, 1, 1])
  Build.declare (Declare.name function defaultFunction)
  Build.declare (Declare.name main (utf8 "main"))

/-- The sample with the given slots. There is none if a slot of size one has no component. -/
def module? (slots : List Slot) : Option Module :=
  match (build slots).run { target := .empty ⟨1, 3⟩ } with
  | .ok _ b => some b.target
  | .error _ _ => none

end Sample

end ShaderGraft
