import ShaderGraft.Proofs.Ids
import ShaderGraft.Proofs.Reflection
import ShaderGraft.Proofs.TypeReading

/-!
# Reflection finds every runtime parameter

A formal parameter is wrapped if its type is a struct of a hash and a value. Reflection reports one
parameter for each wrapped formal, in order, and drops one for each formal whose type cannot be
read, provided that the instructions right before the first call build the structs of the wrapped
ones (`Module.reflect_complete`). Dropped formals keep their places, so they do not shift the
others.

The hashes have to be declared with the types and constants: one that is declared in a function is
not found (`Module.reflect_hidden_hash`).
-/

namespace ShaderGraft

namespace Module

variable {m : Module}

/-! ### Steps that succeed -/

theorem DefinedWith.valueTypeId_eq {id type : ResultId} (h : m.DefinedWith id type) :
    m.valueTypeId id = .ok type := by
  obtain ⟨hne, inst, hinst, rfl⟩ := h
  simp only [valueTypeId, hinst, if_neg hne]

theorem Wraps.parameterOf_eq {construct : Instruction} {p : Parameter} (h : m.Wraps construct p)
    (name : Bytes) (index : Nat) :
    m.parameterOf name { index, composite := p.composite, type := p.type } construct = .ok p := by
  obtain ⟨hash, value, hops, hhash, hvalue⟩ := h.operands
  simp only [parameterOf, h.opcode, hops, hashConstant_of_unsignedConstant hhash,
    hvalue.valueTypeId_eq]
  rfl

theorem Denotes.formalType_eq {formal : Instruction} {type : ValueType}
    (h : m.Denotes formal.resultType (.struct [.u32, type])) :
    m.formalType formal = .wrapped type := by
  obtain ⟨decl, hdecl, htype⟩ := h
  simp only [formalType, hdecl, htype]

/-! ### Formals and their places -/

/-- What a formal and the instruction at its place before the call come to: the runtime parameter
whose struct the instruction builds, or nothing if the type of the formal cannot be read. -/
inductive Passes (m : Module) (formal construct : Instruction) : Option Parameter → Prop
  | wrapped {p : Parameter} : m.Denotes formal.resultType (.struct [.u32, p.type]) →
    p.composite = formal.resultId → m.Wraps construct p → Passes m formal construct (some p)
  | unreadable : m.Unreadable formal.resultType → Passes m formal construct none

/-- What the formals and the instructions before a call come to, place by place. -/
inductive Aligned (R : Instruction → Instruction → Option Parameter → Prop) :
    List Instruction → List Instruction → List (Option Parameter) → Prop
  | nil : Aligned R [] [] []
  | cons {formal construct : Instruction} {result : Option Parameter}
    {formals constructs : List Instruction} {results : List (Option Parameter)} :
    R formal construct result → Aligned R formals constructs results →
    Aligned R (formal :: formals) (construct :: constructs) (result :: results)

theorem Aligned.imp {R R' : Instruction → Instruction → Option Parameter → Prop}
    {formals constructs : List Instruction} {results : List (Option Parameter)}
    (h : Aligned R formals constructs results)
    (himp : ∀ formal construct result, R formal construct result → R' formal construct result) :
    Aligned R' formals constructs results := by
  induction h with
  | nil => exact .nil
  | cons hhead _ ih => exact .cons (himp _ _ _ hhead) ih

theorem Aligned.length_eq {R : Instruction → Instruction → Option Parameter → Prop}
    {formals constructs : List Instruction} {results : List (Option Parameter)}
    (h : Aligned R formals constructs results) :
    formals.length = constructs.length := by
  induction h with
  | nil => rfl
  | cons _ _ ih => rw [List.length_cons, List.length_cons, ih]

/-- The formals from a place on. What is read from them refers to their own places. -/
theorem Aligned.exists_formals {formals constructs : List Instruction}
    {results : List (Option Parameter)} (h : Aligned m.Passes formals constructs results)
    (name : Bytes) (front : List Instruction) :
    ∃ dropped read, m.formals name front.length formals = (dropped, .ok read) ∧
      m.parametersOf name (front ++ constructs) read = .ok (results.filterMap id) ∧
      dropped.map (·.index) =
        ((results.zipIdx front.length).filter (·.1.isNone)).map (·.2) := by
  induction h generalizing front with
  | nil => exact ⟨[], [], rfl, rfl, rfl⟩
  | @cons formal construct result formals constructs results hpasses _ ih =>
    obtain ⟨dropped, read, hformals, hparameters, hindices⟩ := ih (front ++ [construct])
    rw [List.length_append, List.length_singleton] at hformals hindices
    rw [List.append_assoc, List.singleton_append] at hparameters
    cases hpasses with
    | unreadable htype =>
      obtain ⟨cause, hcause⟩ := formalType_eq_unreadable htype
      refine ⟨{ index := front.length, cause } :: dropped, read, ?_, hparameters, ?_⟩
      · rw [Module.formals, hcause]
        simp only [hformals]
      · simpa using hindices
    | @wrapped p htype hcomposite hwraps =>
      refine ⟨dropped, { index := front.length, composite := p.composite, type := p.type } :: read,
        ?_, ?_, ?_⟩
      · rw [Module.formals, htype.formalType_eq]
        simp only [hformals, hcomposite]
        rfl
      · rw [parametersOf]
        simp only [List.getElem?_append_right (Nat.le_refl _), Nat.sub_self,
          List.getElem?_cons_zero, hwraps.parameterOf_eq, hparameters]
        rfl
      · simpa using hindices

/-- Reflection of a function whose formals are aligned with the instructions before its first
call. -/
theorem Aligned.reflect_eq {name : Bytes} {index : Nat} {f : Function}
    {before window after : List Instruction} {call : Instruction}
    {results : List (Option Parameter)}
    (h : Aligned m.Passes f.parameters window results) (hindex : m.functionNamed? name = some index)
    (hf : m.functions[index]? = some f)
    (hsplit : m.instructions = before ++ window ++ call :: after)
    (hfirst : ∀ inst ∈ before ++ window, calls f.id inst = false)
    (hcall : calls f.id call = true) :
    ∃ dropped, m.reflect name =
        (dropped, .ok { function := index, parameters := results.filterMap id }) ∧
      dropped.map (·.index) = (results.zipIdx.filter (·.1.isNone)).map (·.2) := by
  obtain ⟨dropped, read, hformals, hparameters, hindices⟩ := h.exists_formals name []
  refine ⟨dropped, ?_, hindices⟩
  have harguments : m.callArguments? f.id f.parameters.length = some window := by
    rw [h.length_eq]
    exact callArguments?_of_split hsplit hcall hfirst
  rw [List.nil_append] at hparameters
  simp only [List.length_nil] at hformals
  simp only [reflect, hindex, hf, hformals, harguments]
  cases read with
  | nil =>
    rw [parametersOf] at hparameters
    rw [← Except.ok.inj hparameters]
    rfl
  | cons formal read =>
    change (dropped, m.parametersOf name window (formal :: read) >>= _) = _
    rw [hparameters]
    rfl

/-! ### The convention -/

/-- What the convention for runtime parameters asks of a formal and of the instruction at its place
before the call. The hash and the type of a wrapped formal are declared. -/
inductive Conforms (m : Module) (formal construct : Instruction) : Option Parameter → Prop
  | wrapped {p : Parameter} {hash value : Instruction} :
    m.Denotes formal.resultType (.struct [.u32, p.type]) → p.composite = formal.resultId →
    construct.opcode = .compositeConstruct →
    construct.operands = [hash.resultId, value.resultId] →
    hash ∈ m.globals → hash.opcode = .constant → hash.operands = [p.hash] →
    m.Denotes hash.resultType .u32 →
    value ∈ m.instructions → value.resultId ≠ 0 → value.resultType = p.typeId → p.typeId ≠ 0 →
    Conforms m formal construct (some p)
  | unreadable : m.Unreadable formal.resultType → Conforms m formal construct none

/-- Where ids are distinct, the hash and the value are found by their ids. -/
theorem Conforms.passes (hm : m.IdsDistinct) {formal construct : Instruction}
    {result : Option Parameter} (h : m.Conforms formal construct result) :
    m.Passes formal construct result := by
  cases h with
  | unreadable htype => exact .unreadable htype
  | @wrapped p hash value htype hcomposite hop hops hmem hconstant hword hunsigned hvalue hid
      htypeId hne =>
    obtain ⟨decl, hdecl, hu32⟩ := hunsigned
    have hhash : hash.resultId ≠ 0 :=
      hm.ne_zero hash (m.sublist_globals.subset hmem) (by rw [hconstant]; decide)
    refine .wrapped htype hcomposite ⟨hop, hash.resultId, value.resultId, hops, ?_, hne, ?_⟩
    · exact ⟨hash, decl, hm.global?_eq hmem hhash, hconstant, hword, hdecl, hu32⟩
    · exact ⟨value, hm.definition?_eq hvalue hid, htypeId⟩

/-- Reflection reports the runtime parameters of a function that keeps to the convention: one for
each wrapped formal in their order, with one formal dropped for each type that cannot be read. -/
theorem reflect_complete (hm : m.IdWellFormed) {name : Bytes} {index : Nat} {f : Function}
    {before window after : List Instruction} {call : Instruction}
    {results : List (Option Parameter)} (hindex : m.functionNamed? name = some index)
    (hf : m.functions[index]? = some f)
    (hsplit : m.instructions = before ++ window ++ call :: after)
    (hfirst : ∀ inst ∈ before ++ window, calls f.id inst = false)
    (hcall : calls f.id call = true) (h : Aligned m.Conforms f.parameters window results) :
    ∃ dropped, m.reflect name =
        (dropped, .ok { function := index, parameters := results.filterMap id }) ∧
      dropped.map (·.index) = (results.zipIdx.filter (·.1.isNone)).map (·.2) :=
  (h.imp fun _ _ _ => Conforms.passes hm.toIdsDistinct).reflect_eq hindex hf hsplit hfirst hcall

/-- A function `f` of three formals, of which the second is a pointer. It is called after `g`. -/
def threeFormals : Module where
  header := { version := ⟨1, 3⟩, bound := 23 }
  names := [{ opcode := .name, operands := 9 :: Literal.encode (utf8 "f") }]
  globals := [
    { opcode := .typeFloat, resultId := 1, operands := [32] },
    { opcode := .typeInt, resultId := 2, operands := [32, 0] },
    { opcode := .typeStruct, resultId := 3, operands := [2, 1] },
    { opcode := .typeVector, resultId := 4, operands := [1, 2] },
    { opcode := .typeStruct, resultId := 5, operands := [2, 4] },
    { opcode := .typePointer, resultId := 6, operands := [7, 1] },
    { opcode := .constant, resultType := 2, resultId := 7, operands := [120] },
    { opcode := .constant, resultType := 1, resultId := 8, operands := [0] }]
  functions := [
    { definition := { opcode := .function, resultType := 1, resultId := 9, operands := [0, 0] }
      parameters := [
        { opcode := .functionParameter, resultType := 3, resultId := 10 },
        { opcode := .functionParameter, resultType := 6, resultId := 11 },
        { opcode := .functionParameter, resultType := 5, resultId := 12 }]
      blocks := [{ label := { opcode := .label, resultId := 13 }
                   body := [{ opcode := .returnValue, operands := [8] }] }] },
    { definition := { opcode := .function, resultType := 1, resultId := 14, operands := [0, 0] }
      blocks := [{ label := { opcode := .label, resultId := 15 }
                   body := [{ opcode := .returnValue, operands := [8] }] }] },
    { definition := { opcode := .function, resultId := 16, operands := [0, 0] }
      blocks := [{ label := { opcode := .label, resultId := 17 }
                   body := [
                    { opcode := .functionCall, resultType := 1, resultId := 18, operands := [14] },
                    { opcode := .compositeConstruct, resultType := 4, resultId := 19
                      operands := [8, 8] },
                    { opcode := .compositeConstruct, resultType := 3, resultId := 20
                      operands := [7, 8] },
                    { opcode := .nop },
                    { opcode := .compositeConstruct, resultType := 5, resultId := 21
                      operands := [7, 19] },
                    { opcode := .functionCall, resultType := 1, resultId := 22
                      operands := [9, 20, 8, 21] },
                    { opcode := .returnVoid }] }] }]

/-- What the formals of `f` come to. -/
def threeFormalsResults : List (Option Parameter) :=
  [some { composite := 10, typeId := 1, hash := 120, type := .f32 }, none,
    some { composite := 12, typeId := 4, hash := 120, type := .vector .f32 2 }]

theorem unreadable_pointer : threeFormals.Unreadable 6 := by
  intro decl hdecl
  cases hdecl
  exact ⟨_, rfl⟩

theorem reflect_complete_pointer : threeFormals.IdWellFormed ∧
    threeFormals.functionNamed? (utf8 "f") = some 0 ∧
    ∃ f before window call after, threeFormals.functions[0]? = some f ∧
      threeFormals.instructions = before ++ window ++ call :: after ∧
      (∀ inst ∈ before ++ window, calls f.id inst = false) ∧ calls f.id call = true ∧
      Aligned threeFormals.Conforms f.parameters window threeFormalsResults ∧
      ∃ dropped, threeFormals.reflect (utf8 "f") = (dropped, .ok {
          function := 0
          parameters := [
            { composite := 10, typeId := 1, hash := 120, type := .f32 },
            { composite := 12, typeId := 4, hash := 120, type := .vector .f32 2 }] }) ∧
        dropped.map (·.index) = [1] := by
  have hm : threeFormals.IdWellFormed := by decide
  have hf : threeFormals.functions[0]? = some threeFormals.functions[0] := rfl
  have hsplit : threeFormals.instructions = threeFormals.instructions.take 24 ++
      (threeFormals.instructions.drop 24).take 3 ++
        threeFormals.instructions[27] :: threeFormals.instructions.drop 28 := rfl
  have hfirst : ∀ inst ∈ threeFormals.instructions.take 24 ++
      (threeFormals.instructions.drop 24).take 3, calls 9 inst = false := by decide
  have haligned : Aligned threeFormals.Conforms threeFormals.functions[0].parameters
      ((threeFormals.instructions.drop 24).take 3) threeFormalsResults := by
    refine .cons ?_ (.cons (.unreadable unreadable_pointer) (.cons ?_ .nil))
    · exact @Conforms.wrapped _ _ _ _ threeFormals.globals[6] threeFormals.globals[7]
        ⟨_, rfl, rfl⟩ rfl rfl rfl (by decide) rfl rfl ⟨_, rfl, rfl⟩ (by decide) (by decide) rfl
        (by decide)
    · exact @Conforms.wrapped _ _ _ _ threeFormals.globals[6] threeFormals.instructions[23]
        ⟨_, rfl, rfl⟩ rfl rfl rfl (by decide) rfl rfl ⟨_, rfl, rfl⟩ (by decide) (by decide) rfl
        (by decide)
  exact ⟨hm, rfl, _, _, _, _, _, hf, hsplit, hfirst, rfl, haligned,
    reflect_complete hm rfl hf hsplit hfirst rfl haligned⟩

/-- A function `f` of one wrapped formal. The hash is declared in the function that calls it. -/
def hiddenHash : Module where
  header := { version := ⟨1, 3⟩, bound := 13 }
  names := [{ opcode := .name, operands := 5 :: Literal.encode (utf8 "f") }]
  globals := [
    { opcode := .typeFloat, resultId := 1, operands := [32] },
    { opcode := .typeInt, resultId := 2, operands := [32, 0] },
    { opcode := .typeStruct, resultId := 3, operands := [2, 1] },
    { opcode := .constant, resultType := 1, resultId := 4, operands := [0] }]
  functions := [
    { definition := { opcode := .function, resultType := 1, resultId := 5, operands := [0, 1] }
      parameters := [{ opcode := .functionParameter, resultType := 3, resultId := 6 }]
      blocks := [{ label := { opcode := .label, resultId := 7 }
                   body := [{ opcode := .returnValue, operands := [4] }] }] },
    { definition := { opcode := .function, resultType := 1, resultId := 8, operands := [0, 1] }
      blocks := [{ label := { opcode := .label, resultId := 9 }
                   body := [
                    { opcode := .constant, resultType := 2, resultId := 10, operands := [120] },
                    { opcode := .compositeConstruct, resultType := 3, resultId := 11
                      operands := [10, 4] },
                    { opcode := .functionCall, resultType := 1, resultId := 12
                      operands := [5, 11] },
                    { opcode := .returnVoid }] }] }]

/-- Ids are well-formed, the formal of `f` is wrapped, and the instruction right before the only
call of `f` builds a struct of an unsigned constant and of something that has a type, but `f` is not
reflected. -/
theorem reflect_hidden_hash : hiddenHash.IdWellFormed ∧
    hiddenHash.functionNamed? (utf8 "f") = some 0 ∧
    ∃ f formal before construct call after hash value,
      hiddenHash.functions[0]? = some f ∧ f.parameters = [formal] ∧
      hiddenHash.Denotes formal.resultType (.struct [.u32, .f32]) ∧
      hiddenHash.instructions = before ++ [construct] ++ call :: after ∧
      (∀ inst ∈ before ++ [construct], calls f.id inst = false) ∧ calls f.id call = true ∧
      construct.opcode = .compositeConstruct ∧
      construct.operands = [hash.resultId, value.resultId] ∧
      hash ∈ hiddenHash.instructions ∧ hash.opcode = .constant ∧ hash.operands = [120] ∧
      hiddenHash.Denotes hash.resultType .u32 ∧
      value ∈ hiddenHash.instructions ∧ value.resultType ≠ 0 ∧
      hiddenHash.reflect (utf8 "f") =
        ([], .error (.error (.argument 0 (utf8 "f") (.hashNotConstant hash.resultId)))) := by
  have hfirst : ∀ inst ∈ hiddenHash.instructions.take 13 ++ [hiddenHash.instructions[13]],
      calls 5 inst = false := by decide
  have hsplit : hiddenHash.instructions = hiddenHash.instructions.take 13 ++
      [hiddenHash.instructions[13]] ++
        hiddenHash.instructions[14] :: hiddenHash.instructions.drop 15 := rfl
  exact ⟨by decide, rfl, _, _, _, _, _, _, hiddenHash.instructions[12], hiddenHash.globals[3], rfl,
    rfl, ⟨_, rfl, rfl⟩, hsplit, hfirst, rfl, rfl, rfl, by decide, rfl, rfl, ⟨_, rfl, rfl⟩,
    by decide, by decide, rfl⟩

end Module

end ShaderGraft
