import ShaderGraft.Proofs.Completeness

/-!
# Why reflection fails

A function that is not there, and a parameter that is not described at the first call, are what
reflection is meant to fail for. It fails for the first exactly if no function has the name.
Anything else that is wrong is of the second kind, with one exception: where the hash of an argument
is a constant whose own type cannot be read, the error is that of reading the type
(`Module.reflect_error_kinds`).
-/

namespace ShaderGraft

/-! ### Kinds of errors -/

theorem TypeError.kind_ne_functionNotFound (cause : TypeError) :
    cause.kind ≠ .functionNotFound := by
  cases cause with
  | notAType | shape | operandNotDeclared | parameterNotDeclared => simp [kind]

theorem Halt.eq_error_of_map {ε ε' : Type} {f : ε → ε'} {halt : Halt ε} {e' : ε'}
    (h : .error e' = halt.map f) : ∃ e, halt = .error e ∧ e' = f e := by
  cases halt with
  | endless => cases h
  | error e =>
    cases h
    exact ⟨e, rfl, rfl⟩

namespace Module

variable {m : Module} {name : Bytes}

/-! ### Arguments -/

/-- Whether an instruction builds a struct of a hash and a value, and the hash is a declared
constant of one word whose type is declared and cannot be read. -/
inductive UnreadableHash (m : Module) (construct : Instruction) (cause : TypeError) : Prop where
  | intro {hash value : ResultId} {constant decl : Instruction} {word : Word} :
    construct.opcode = .compositeConstruct → construct.operands = [hash, value] →
    m.global? hash = some constant → constant.opcode = .constant → constant.operands = [word] →
    m.global? constant.resultType = some decl → m.typeOf decl = .error (.error cause) →
    UnreadableHash m construct cause

theorem hashConstant_eq_error {id : ResultId} {e : ArgumentError}
    (h : m.hashConstant id = .error (.error e)) : e.kind = .noVariableDescriptor ∨
      ∃ constant decl word cause, m.global? id = some constant ∧ constant.opcode = .constant ∧
        constant.operands = [word] ∧ m.global? constant.resultType = some decl ∧
        m.typeOf decl = .error (.error cause) ∧ e = .hashTypeUnreadable cause := by
  unfold hashConstant at h
  split at h
  · cases h
    exact .inl rfl
  rename_i constant hconstant
  split at h
  · rename_i word hop hops
    split at h
    · cases h
      exact .inl rfl
    rename_i decl hdecl
    split at h
    · rename_i halt hhalt
      cases halt with
      | endless => cases h
      | error cause =>
        cases h
        exact .inr ⟨constant, decl, word, cause, hconstant, hop, hops, hdecl, hhalt, rfl⟩
    · split at h
      · cases h
      · cases h
        exact .inl rfl
  · cases h
    exact .inl rfl

theorem valueTypeId_eq_error {id : ResultId} {e : ArgumentError}
    (h : m.valueTypeId id = .error e) : e.kind = .noVariableDescriptor := by
  unfold valueTypeId at h
  split at h
  · cases h
    rfl
  · split at h
    · cases h
      rfl
    · cases h

theorem parameterOf_eq_error {formal : Formal} {construct : Instruction} {e : ReflectError}
    (h : m.parameterOf name formal construct = .error (.error e)) :
    e.kind = .noVariableDescriptor ∨
      ∃ cause, e.kind = cause.kind ∧ m.UnreadableHash construct cause := by
  unfold parameterOf at h
  split at h
  · rename_i hash value hop hops
    obtain h | ⟨word, -, h⟩ := bind_eq_error.1 h
    · obtain ⟨halt, hhash, hmap⟩ := mapError_eq_error h
      obtain ⟨e, rfl, rfl⟩ := Halt.eq_error_of_map hmap
      obtain hkind | ⟨constant, decl, word, cause, hconstant, hcop, hcops, hdecl, hcause, rfl⟩ :=
        hashConstant_eq_error hhash
      · exact .inl hkind
      · exact .inr ⟨cause, rfl, .intro hop hops hconstant hcop hcops hdecl hcause⟩
    obtain h | ⟨type, -, h⟩ := bind_eq_error.1 h
    · obtain ⟨e, hvalue, hcause⟩ := mapError_eq_error h
      cases hcause
      exact .inl (valueTypeId_eq_error hvalue)
    · cases h
  · cases h
    exact .inl rfl

theorem UnreadableHash.parameterOf_eq {construct : Instruction} {cause : TypeError}
    (h : m.UnreadableHash construct cause) (name : Bytes) (formal : Formal) :
    m.parameterOf name formal construct =
      .error (.error (.argument formal.index name (.hashTypeUnreadable cause))) := by
  obtain ⟨hop, hops, hconstant, hcop, hcops, hdecl, hcause⟩ := h
  simp only [parameterOf, hop, hops, hashConstant, hconstant, hcop, hcops, hdecl, hcause]
  rfl

/-- Whether the arguments of some formals are in order up to one whose hash has an unreadable
type. -/
inductive UnreadableArgument (m : Module) (arguments : List Instruction) (cause : TypeError) :
    List Formal → Prop where
  | here {formal : Formal} {rest : List Formal} {construct : Instruction} :
    arguments[formal.index]? = some construct → m.UnreadableHash construct cause →
    UnreadableArgument m arguments cause (formal :: rest)
  | later {formal : Formal} {rest : List Formal} {construct : Instruction} {p : Parameter} :
    arguments[formal.index]? = some construct → m.Wraps construct p →
    UnreadableArgument m arguments cause rest →
    UnreadableArgument m arguments cause (formal :: rest)

theorem parametersOf_eq_error {arguments : List Instruction} {fs : List Formal} {e : ReflectError}
    (h : m.parametersOf name arguments fs = .error (.error e)) : e.kind = .noVariableDescriptor ∨
      ∃ cause, e.kind = cause.kind ∧ m.UnreadableArgument arguments cause fs := by
  induction fs with
  | nil => cases h
  | cons formal rest ih =>
    rw [parametersOf] at h
    split at h
    · cases h
      exact .inl rfl
    rename_i construct hconstruct
    obtain h | ⟨p, hp, h⟩ := bind_eq_error.1 h
    · obtain hkind | ⟨cause, hkind, hhash⟩ := parameterOf_eq_error h
      · exact .inl hkind
      · exact .inr ⟨cause, hkind, .here hconstruct hhash⟩
    obtain h | ⟨ps, -, h⟩ := bind_eq_error.1 h
    · obtain hkind | ⟨cause, hkind, hrest⟩ := ih h
      · exact .inl hkind
      · exact .inr ⟨cause, hkind, .later hconstruct (parameterOf_eq_ok hp).2.2 hrest⟩
    · cases h

theorem UnreadableArgument.parametersOf_eq {arguments : List Instruction} {cause : TypeError}
    {fs : List Formal} (h : m.UnreadableArgument arguments cause fs) (name : Bytes) :
    ∃ index, m.parametersOf name arguments fs =
      .error (.error (.argument index name (.hashTypeUnreadable cause))) := by
  induction h with
  | @here formal rest construct hconstruct hhash =>
    refine ⟨formal.index, ?_⟩
    simp only [parametersOf, hconstruct, hhash.parameterOf_eq]
    rfl
  | @later formal rest construct p hconstruct hwraps _ ih =>
    obtain ⟨index, hrest⟩ := ih
    refine ⟨index, ?_⟩
    obtain ⟨hash, value, hops, hhash, hvalue⟩ := hwraps.operands
    simp only [parametersOf, hconstruct, parameterOf, hwraps.opcode, hops,
      hashConstant_of_unsignedConstant hhash, hvalue.valueTypeId_eq, hrest]
    rfl

/-! ### Functions -/

theorem functionNamed?_eq_none_iff :
    m.functionNamed? name = none ↔ ∀ f ∈ m.functions, m.name? f.id ≠ some name := by
  simp [functionNamed?, List.findIdx?_eq_none_iff]

theorem exists_of_functionNamed? {index : Nat} (h : m.functionNamed? name = some index) :
    ∃ f, m.functions[index]? = some f := by
  obtain ⟨hlt, -⟩ := List.findIdx?_eq_some_iff_getElem.1 h
  exact ⟨m.functions[index], List.getElem?_eq_getElem hlt⟩

theorem formals_eq_error {start : Nat} {ps : List Instruction} {e : ReflectError}
    (h : (m.formals name start ps).2 = .error (.error e)) : e.kind = .noVariableDescriptor := by
  induction ps generalizing start with
  | nil => cases h
  | cons p ps ih =>
    rw [formals] at h
    cases htype : m.formalType p with
    | plain type =>
      simp only [htype] at h
      cases h
      rfl
    | endless =>
      simp only [htype] at h
      cases h
    | unreadable cause =>
      simp only [htype] at h
      exact ih h
    | wrapped type =>
      simp only [htype] at h
      cases hrest : (m.formals name (start + 1) ps).2 with
      | error e' =>
        rw [hrest] at h
        cases h
        exact ih hrest
      | ok fs =>
        rw [hrest] at h
        cases h

/-- Whether the function of a name has only formals that can be wrapped or dropped, and its first
call has arguments in order up to one whose hash has an unreadable type. -/
inductive UnreadableCall (m : Module) (name : Bytes) (cause : TypeError) : Prop where
  | intro {index : Nat} {f : Function} {fs : List Formal} {arguments : List Instruction} :
    m.functionNamed? name = some index → m.functions[index]? = some f →
    (m.formals name 0 f.parameters).2 = .ok fs →
    m.callArguments? f.id f.parameters.length = some arguments →
    m.UnreadableArgument arguments cause fs → UnreadableCall m name cause

theorem reflect_eq_error {e : ReflectError} (h : (m.reflect name).2 = .error (.error e)) :
    (e.kind = .functionNotFound ∧ ∀ f ∈ m.functions, m.name? f.id ≠ some name) ∨
    (∃ index, m.functionNamed? name = some index) ∧ (e.kind = .noVariableDescriptor ∨
      ∃ cause, e.kind = cause.kind ∧ m.UnreadableCall name cause) := by
  unfold reflect at h
  split at h
  · rename_i hnone
    cases h
    exact .inl ⟨rfl, functionNamed?_eq_none_iff.1 hnone⟩
  rename_i index hindex
  obtain ⟨f, hf⟩ := exists_of_functionNamed? hindex
  refine .inr ⟨⟨index, hindex⟩, ?_⟩
  simp only [hf] at h
  obtain h | ⟨fs, hfs, h⟩ := bind_eq_error.1 h
  · exact .inl (formals_eq_error h)
  split at h
  · cases h
  split at h
  · cases h
    exact .inl rfl
  rename_i arguments harguments
  obtain h | ⟨ps, -, h⟩ := bind_eq_error.1 h
  · obtain hkind | ⟨cause, hkind, hargument⟩ := parametersOf_eq_error h
    · exact .inl hkind
    · exact .inr ⟨cause, hkind, .intro hindex hf hfs harguments hargument⟩
  · cases h

theorem UnreadableCall.reflect_eq {cause : TypeError} (h : m.UnreadableCall name cause) :
    ∃ index, (m.reflect name).2 =
      .error (.error (.argument index name (.hashTypeUnreadable cause))) := by
  obtain ⟨hindex, hf, hfs, harguments, hargument⟩ := h
  obtain ⟨index, hparameters⟩ := hargument.parametersOf_eq name
  have hne {fs : List Formal} {arguments : List Instruction}
      (h : m.UnreadableArgument arguments cause fs) : ¬ fs.isEmpty = true := by
    cases h with
    | here | later => simp
  refine ⟨index, ?_⟩
  simp only [reflect, hindex, hf, hfs, harguments]
  refine (if_neg (hne hargument)).trans ?_
  rw [hparameters]
  rfl

/-- **What reflection fails for.** It fails with a function that is not found exactly if no function
has the name. Any other failure is a parameter without a descriptor, except that the error of
reading a type is passed on, exactly if the first call of the function is in order up to a hash
whose type cannot be read. -/
theorem reflect_error_kinds (m : Module) (name : Bytes) :
    ((∃ e, (m.reflect name).2 = .error (.error e) ∧ e.kind = .functionNotFound) ↔
      ∀ f ∈ m.functions, m.name? f.id ≠ some name) ∧
    (∀ e, (m.reflect name).2 = .error (.error e) → e.kind = .functionNotFound ∨
      e.kind = .noVariableDescriptor ∨
      ∃ cause, e.kind = cause.kind ∧ m.UnreadableCall name cause) ∧
    (∀ cause, m.UnreadableCall name cause →
      ∃ e, (m.reflect name).2 = .error (.error e) ∧ e.kind = cause.kind) := by
  refine ⟨⟨?_, fun h => ?_⟩, fun e h => ?_, fun cause h => ?_⟩
  · rintro ⟨e, h, hkind⟩
    obtain ⟨-, hnone⟩ | ⟨-, hother | ⟨cause, hcause, -⟩⟩ := reflect_eq_error h
    · exact hnone
    · exact absurd (hkind.symm.trans hother) (by decide)
    · exact absurd (hcause.symm.trans hkind) cause.kind_ne_functionNotFound
  · refine ⟨.functionNotFound name, ?_, rfl⟩
    simp only [reflect, functionNamed?_eq_none_iff.2 h]
  · obtain ⟨hkind, -⟩ | ⟨-, h⟩ := reflect_eq_error h
    · exact .inl hkind
    · exact .inr h
  · obtain ⟨index, hreflect⟩ := h.reflect_eq
    exact ⟨_, hreflect, rfl⟩

/-- A function `f` of one wrapped formal and a call of it. The hash is a constant whose type is the
given declaration of `%4`. -/
def hashOfType (decl : Instruction) : Module where
  header := { version := ⟨1, 3⟩, bound := 15 }
  names := [{ opcode := .name, operands := 7 :: Literal.encode (utf8 "f") }]
  globals := [
    { opcode := .typeFloat, resultId := 1, operands := [32] },
    { opcode := .typeInt, resultId := 2, operands := [32, 0] },
    { opcode := .typeStruct, resultId := 3, operands := [2, 1] },
    decl,
    { opcode := .constant, resultType := 4, resultId := 5, operands := [120] },
    { opcode := .constant, resultType := 1, resultId := 6, operands := [0] }]
  functions := [
    { definition := { opcode := .function, resultType := 1, resultId := 7, operands := [0, 1] }
      parameters := [{ opcode := .functionParameter, resultType := 3, resultId := 8 }]
      blocks := [{ label := { opcode := .label, resultId := 9 }
                   body := [{ opcode := .returnValue, operands := [6] }] }] },
    { definition := { opcode := .function, resultType := 1, resultId := 10, operands := [0, 1] }
      blocks := [{ label := { opcode := .label, resultId := 11 }
                   body := [
                    { opcode := .compositeConstruct, resultType := 3, resultId := 12
                      operands := [5, 6] },
                    { opcode := .functionCall, resultType := 1, resultId := 13
                      operands := [7, 12] },
                    { opcode := .returnVoid }] }] }]

/-- A hash of a pointer type, and one whose type is a truth value: the function is there, and the
errors are those of reading the types. -/
theorem reflect_odd_hash :
    (∃ e, ((hashOfType { opcode := .typePointer, resultId := 4, operands := [7, 2] }).reflect
      (utf8 "f")).2 = .error (.error e) ∧ e.kind = .typeUnparsable) ∧
    ∃ e, ((hashOfType { opcode := .constantTrue, resultType := 1, resultId := 4 }).reflect
      (utf8 "f")).2 = .error (.error e) ∧ e.kind = .noTypeInstruction :=
  ⟨⟨_, rfl, rfl⟩, _, rfl, rfl⟩

end Module

end ShaderGraft
