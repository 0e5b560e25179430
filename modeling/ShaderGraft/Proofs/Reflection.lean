import Mathlib.Data.List.TakeDrop
import Mathlib.Data.List.TakeWhile
import ShaderGraft.Interface
import ShaderGraft.Proofs.Layout

/-!
# What reflection reads

Every step of reflecting a function is inverted once. A reported parameter comes from a formal of
the function and from an instruction in the window right before its first call, as many instructions
as there are formals (`Module.reflect_window`). The operands of the call itself are never looked at:
that it passes on what the window builds is for the caller to keep (`Module.reflect_swapped`).
-/

namespace ShaderGraft

theorem ValueType.eq_of_same_int {t : ValueType} {signed : Bool} {width : Word}
    (h : t.same (.int signed width)) : t = .int signed width := by
  cases t <;> simp_all [same]

namespace Module

/-! ### Arguments -/

/-- Whether `id` is a 32-bit unsigned constant of the given value. -/
def UnsignedConstant (m : Module) (id : ResultId) (value : Word) : Prop :=
  ∃ inst decl, m.global? id = some inst ∧ inst.opcode = .constant ∧ inst.operands = [value] ∧
    m.global? inst.resultType = some decl ∧ m.typeOf decl = .ok .u32

theorem hashConstant_eq_ok {m : Module} {id : ResultId} {value : Word}
    (h : m.hashConstant id = .ok value) : m.UnsignedConstant id value := by
  unfold hashConstant at h
  split at h
  · cases h
  rename_i inst hinst
  split at h
  · rename_i hop hops
    split at h
    · cases h
    rename_i decl hdecl
    split at h
    · cases h
    rename_i type htype
    split at h
    · rename_i hsame
      cases h
      rw [ValueType.eq_of_same_int hsame] at htype
      exact ⟨inst, decl, hinst, hop, hops, hdecl, htype⟩
    · cases h
  · cases h

theorem hashConstant_of_unsignedConstant {m : Module} {id : ResultId} {value : Word}
    (h : m.UnsignedConstant id value) : m.hashConstant id = .ok value := by
  obtain ⟨inst, decl, hinst, hop, hops, hdecl, htype⟩ := h
  simp only [hashConstant, hinst, hop, hops, hdecl, htype]
  rfl

/-- Whether `id` is defined with the given result type, which is not missing. -/
def DefinedWith (m : Module) (id type : ResultId) : Prop :=
  type ≠ 0 ∧ ∃ inst, m.definition? id = some inst ∧ inst.resultType = type

theorem valueTypeId_eq_ok {m : Module} {id type : ResultId} (h : m.valueTypeId id = .ok type) :
    m.DefinedWith id type := by
  unfold valueTypeId at h
  split at h
  · cases h
  rename_i inst hinst
  split at h
  · cases h
  rename_i hne
  cases h
  exact ⟨hne, inst, hinst, rfl⟩

/-- Whether an instruction builds the struct of hash and value of a runtime parameter. -/
structure Wraps (m : Module) (construct : Instruction) (p : Parameter) : Prop where
  opcode : construct.opcode = .compositeConstruct
  operands : ∃ hash value, construct.operands = [hash, value] ∧
    m.UnsignedConstant hash p.hash ∧ m.DefinedWith value p.typeId

theorem parameterOf_eq_ok {m : Module} {name : Bytes} {formal : Formal} {construct : Instruction}
    {p : Parameter} (h : m.parameterOf name formal construct = .ok p) :
    p.composite = formal.composite ∧ p.type = formal.type ∧ m.Wraps construct p := by
  unfold parameterOf at h
  split at h
  · rename_i hash value hop hops
    obtain ⟨word, hword, h⟩ := bind_eq_ok.1 h
    obtain ⟨type, htype, h⟩ := bind_eq_ok.1 h
    cases h
    exact ⟨rfl, rfl, hop, hash, value, hops, hashConstant_eq_ok (mapError_eq_ok hword),
      valueTypeId_eq_ok (mapError_eq_ok htype)⟩
  · cases h

theorem parametersOf_eq_ok {m : Module} {name : Bytes} {arguments : List Instruction}
    {fs : List Formal} {ps : List Parameter} (h : m.parametersOf name arguments fs = .ok ps) :
    List.Forall₂ (fun formal p => ∃ construct, arguments[formal.index]? = some construct ∧
      m.parameterOf name formal construct = .ok p) fs ps := by
  induction fs generalizing ps with
  | nil =>
    cases h
    exact .nil
  | cons formal rest ih =>
    rw [parametersOf] at h
    split at h
    · cases h
    rename_i construct hconstruct
    obtain ⟨p, hp, h⟩ := bind_eq_ok.1 h
    obtain ⟨ps', hrest, h⟩ := bind_eq_ok.1 h
    cases h
    exact .cons ⟨construct, hconstruct, hp⟩ (ih hrest)

/-! ### Formals -/

/-- A formal that is read has the number and the id of a parameter of the function. -/
theorem formals_eq_ok {m : Module} {name : Bytes} {start : Nat} {ps : List Instruction}
    {dropped : List Dropped} {fs : List Formal} (h : m.formals name start ps = (dropped, .ok fs)) :
    fs.Pairwise (·.index < ·.index) ∧ ∀ formal ∈ fs, start ≤ formal.index ∧
      ∃ p, ps[formal.index - start]? = some p ∧ p.resultId = formal.composite := by
  induction ps generalizing start dropped fs with
  | nil =>
    cases h
    exact ⟨.nil, by simp⟩
  | cons p ps ih =>
    -- what is read from the rest of the parameters is one place further on
    have hshift {rest : List Formal} (hrest : ∀ formal ∈ rest, start + 1 ≤ formal.index ∧
        ∃ q, ps[formal.index - (start + 1)]? = some q ∧ q.resultId = formal.composite) :
        ∀ formal ∈ rest, start ≤ formal.index ∧
          ∃ q, (p :: ps)[formal.index - start]? = some q ∧ q.resultId = formal.composite := by
      intro formal hformal
      obtain ⟨hle, q, hq, hid⟩ := hrest formal hformal
      have hindex : formal.index - start = formal.index - (start + 1) + 1 := by omega
      exact ⟨by omega, q, by rw [hindex, List.getElem?_cons_succ]; exact hq, hid⟩
    rcases hread : m.formals name (start + 1) ps with ⟨dropped', rest⟩
    rw [formals] at h
    cases htype : m.formalType p with
    | plain type => simp [htype] at h
    | endless => simp [htype] at h
    | unreadable cause =>
      simp only [htype, hread] at h
      cases h
      obtain ⟨hpairwise, hmem⟩ := ih hread
      exact ⟨hpairwise, hshift hmem⟩
    | wrapped type =>
      simp only [htype, hread] at h
      cases rest with
      | error e => cases h
      | ok rest =>
        cases h
        obtain ⟨hpairwise, hmem⟩ := ih hread
        refine ⟨List.pairwise_cons.2 ⟨fun formal hformal => ?_, hpairwise⟩, ?_⟩
        · exact (hmem formal hformal).1
        · rw [List.forall_mem_cons]
          exact ⟨⟨Nat.le_refl start, p, by simp, rfl⟩, hshift hmem⟩

/-! ### The call -/

/-- The instructions right before the first call are its arguments. -/
theorem callArguments?_of_split {m : Module} {id : ResultId}
    {before window after : List Instruction} {call : Instruction}
    (h : m.instructions = before ++ window ++ call :: after) (hcall : calls id call = true)
    (hfirst : ∀ inst ∈ before ++ window, calls id inst = false) :
    m.callArguments? id window.length = some window := by
  have hspan : m.instructions.span (! calls id ·) = (before ++ window, call :: after) := by
    rw [h, List.span_eq_takeWhile_dropWhile,
      List.takeWhile_append_of_pos (by simpa using hfirst),
      List.dropWhile_append_of_pos (by simpa using hfirst)]
    simp [hcall]
  simp only [callArguments?, hspan, List.length_append]
  rw [if_neg (by omega), Nat.add_sub_cancel, List.drop_left]

theorem callArguments?_eq_some {m : Module} {id : ResultId} {n : Nat} {arguments : List Instruction}
    (h : m.callArguments? id n = some arguments) :
    ∃ pos call, m.instructions.findIdx? (calls id) = some pos ∧ m.instructions[pos]? = some call ∧
      n ≤ pos ∧ ∀ k < n, arguments[k]? = m.instructions[pos - n + k]? := by
  unfold callArguments? at h
  rw [List.span_eq_takeWhile_dropWhile] at h
  split at h
  · cases h
  rename_i before call after hspan
  injection hspan with hbefore hafter
  split at h
  · cases h
  rename_i hlength
  cases h
  have hsplit : m.instructions = before ++ call :: after := by
    rw [← hbefore, ← hafter, List.takeWhile_append_dropWhile]
  have hnone : ∀ inst ∈ before, calls id inst = false := by
    intro inst hinst
    rw [← hbefore] at hinst
    simpa using List.mem_takeWhile_imp hinst
  have hcall : calls id call = true := by
    have hhead := List.head?_dropWhile_not (! calls id ·) m.instructions
    rw [hafter] at hhead
    simpa using hhead
  refine ⟨before.length, call, ?_, by simp [hsplit], by omega, fun k hk => ?_⟩
  · rw [hsplit, List.findIdx?_append, List.findIdx?_eq_none_iff.2 hnone, List.findIdx?_cons, hcall]
    simp
  · rw [List.getElem?_drop, hsplit, List.getElem?_append_left (by omega)]

/-- The steps of a reflection that succeeds with parameters. -/
theorem reflect_eq_ok {m : Module} {name : Bytes} {dropped : List Dropped} {i : Interface}
    (h : m.reflect name = (dropped, .ok i)) :
    ∃ f fs, m.functionNamed? name = some i.function ∧ m.functions[i.function]? = some f ∧
      m.formals name 0 f.parameters = (dropped, .ok fs) ∧
      (fs = [] ∧ i.parameters = [] ∨
        ∃ arguments, m.callArguments? f.id f.parameters.length = some arguments ∧
          m.parametersOf name arguments fs = .ok i.parameters) := by
  unfold reflect at h
  split at h
  · cases h
  rename_i index hindex
  split at h
  · cases h
  rename_i f hf
  rcases hformals : m.formals name 0 f.parameters with ⟨dropped', read⟩
  rw [hformals] at h
  injection h with hdropped h
  subst hdropped
  obtain ⟨fs, rfl, hread⟩ := bind_eq_ok.1 h
  by_cases hempty : fs.isEmpty
  · rw [if_pos hempty] at hread
    cases hread
    exact ⟨f, fs, hindex, hf, hformals, .inl ⟨List.isEmpty_iff.1 hempty, rfl⟩⟩
  rw [if_neg hempty] at hread
  split at hread
  · cases hread
  rename_i arguments harguments
  obtain ⟨ps, hps, hi⟩ := bind_eq_ok.1 hread
  cases hi
  exact ⟨f, fs, hindex, hf, hformals, .inr ⟨arguments, harguments, hps⟩⟩

/-- What a formal and the arguments of a call say about a runtime parameter. -/
structure Reads (m : Module) (f : Function) (arguments : List Instruction) (formal : Formal)
    (p : Parameter) : Prop where
  formalAt : ∃ inst, f.parameters[formal.index]? = some inst ∧ inst.resultId = p.composite
  built : ∃ construct, arguments[formal.index]? = some construct ∧ m.Wraps construct p

theorem reads_of_reflect {m : Module} {name : Bytes} {f : Function} {dropped : List Dropped}
    {fs : List Formal} {arguments : List Instruction} {ps : List Parameter}
    (hformals : m.formals name 0 f.parameters = (dropped, .ok fs))
    (hps : m.parametersOf name arguments fs = .ok ps) :
    List.Forall₂ (m.Reads f arguments) fs ps := by
  have hread := (List.forall₂_and_left _ _).2 ⟨(formals_eq_ok hformals).2, parametersOf_eq_ok hps⟩
  refine hread.imp ?_
  rintro formal p ⟨⟨-, inst, hinst, hid⟩, construct, hconstruct, hp⟩
  obtain ⟨hcomposite, -, hwraps⟩ := parameterOf_eq_ok hp
  exact ⟨⟨inst, hinst, hid.trans hcomposite.symm⟩, construct, hconstruct, hwraps⟩

/-- The runtime parameters of a function are formals of it, and their values have types. -/
theorem reflect_parameters {m : Module} {name : Bytes} {dropped : List Dropped} {i : Interface}
    (h : m.reflect name = (dropped, .ok i)) :
    ∃ f, m.functions[i.function]? = some f ∧ ∀ p ∈ i.parameters, p.typeId ≠ 0 ∧
      ∃ formal ∈ f.parameters, formal.resultId = p.composite := by
  obtain ⟨f, fs, -, hf, hformals, ⟨-, hnil⟩ | ⟨arguments, -, hps⟩⟩ := reflect_eq_ok h
  · exact ⟨f, hf, by simp [hnil]⟩
  refine ⟨f, hf, ?_⟩
  have hreads := (reads_of_reflect hformals hps).flip
  refine ((List.forall₂_and_left (R := fun _ _ => True) _ _).1 (hreads.imp ?_)).1
  rintro p formal ⟨⟨inst, hinst, hid⟩, construct, -, hwraps⟩
  obtain ⟨hash, value, -, -, hne, -⟩ := hwraps.operands
  exact ⟨⟨hne, inst, List.mem_of_getElem? hinst, hid⟩, trivial⟩

/-! ### The window before the call -/

/-- Whether a call at a position passes on the results of the `n` instructions before it, in their
order. -/
def PassesWindow (m : Module) (pos n : Nat) (call : Instruction) : Prop :=
  ∀ k < n, call.operands[1 + k]? = (m.instructions[pos - n + k]?).map (·.resultId)

/-- Whether a runtime parameter is what the formal with number `k` of the function stands for, by
the window before a call. -/
structure Describes (m : Module) (f : Function) (pos : Nat) (call : Instruction) (k : Nat)
    (p : Parameter) : Prop where
  formal : ∃ formal, f.parameters[k]? = some formal ∧ formal.resultId = p.composite
  built : ∃ construct, m.instructions[pos - f.parameters.length + k]? = some construct ∧
    m.Wraps construct p ∧ (m.PassesWindow pos f.parameters.length call →
      call.operands[1 + k]? = some construct.resultId)

/-- Every runtime parameter is described by the window before the first call: in the order of the
formals, each of them has an instruction there that builds its struct of hash and value. -/
theorem reflect_window {m : Module} {name : Bytes} {dropped : List Dropped} {i : Interface}
    (h : m.reflect name = (dropped, .ok i)) (hne : i.parameters ≠ []) :
    ∃ f pos call, m.functionNamed? name = some i.function ∧ m.functions[i.function]? = some f ∧
      m.instructions.findIdx? (calls f.id) = some pos ∧ m.instructions[pos]? = some call ∧
      f.parameters.length ≤ pos ∧
      ∃ indices : List Nat, indices.Pairwise (· < ·) ∧
        List.Forall₂ (m.Describes f pos call) indices i.parameters := by
  obtain ⟨f, fs, hindex, hf, hformals, ⟨-, hnil⟩ | ⟨arguments, harguments, hps⟩⟩ := reflect_eq_ok h
  · exact absurd hnil hne
  obtain ⟨pos, call, hpos, hcall, hle, hwindow⟩ := callArguments?_eq_some harguments
  refine ⟨f, pos, call, hindex, hf, hpos, hcall, hle, fs.map Formal.index,
    List.pairwise_map.2 (formals_eq_ok hformals).1, ?_⟩
  rw [List.forall₂_map_left_iff]
  refine (reads_of_reflect hformals hps).imp ?_
  rintro formal p ⟨⟨inst, hinst, hid⟩, construct, hconstruct, hwraps⟩
  obtain ⟨hlt, -⟩ := List.getElem?_eq_some_iff.1 hinst
  rw [hwindow _ hlt] at hconstruct
  refine ⟨⟨inst, hinst, hid⟩, construct, hconstruct, hwraps, fun hpasses => ?_⟩
  rw [hpasses _ hlt, hconstruct]
  rfl

/-- A function `f` of two runtime parameters `x` and `y`, and a call of it with the given arguments
right after their structs `%13` and `%14` were built. -/
def twoParameters (arguments : List ResultId) : Module where
  header := { version := ⟨1, 3⟩, bound := 16 }
  names := [{ opcode := .name, operands := 7 :: Literal.encode (utf8 "f") }]
  globals := [
    { opcode := .typeFloat, resultId := 1, operands := [32] },
    { opcode := .typeInt, resultId := 2, operands := [32, 0] },
    { opcode := .typeStruct, resultId := 3, operands := [2, 1] },
    { opcode := .constant, resultType := 2, resultId := 4, operands := [120] },
    { opcode := .constant, resultType := 2, resultId := 5, operands := [121] },
    { opcode := .constant, resultType := 1, resultId := 6, operands := [0] }]
  functions := [
    { definition := { opcode := .function, resultType := 1, resultId := 7, operands := [0, 0] }
      parameters := [
        { opcode := .functionParameter, resultType := 3, resultId := 8 },
        { opcode := .functionParameter, resultType := 3, resultId := 9 }]
      blocks := [{ label := { opcode := .label, resultId := 10 }
                   body := [{ opcode := .returnValue, operands := [6] }] }] },
    { definition := { opcode := .function, resultId := 11, operands := [0, 0] }
      blocks := [{ label := { opcode := .label, resultId := 12 }
                   body := [
                    { opcode := .compositeConstruct, resultType := 3, resultId := 13
                      operands := [4, 6] },
                    { opcode := .compositeConstruct, resultType := 3, resultId := 14
                      operands := [5, 6] },
                    { opcode := .functionCall, resultType := 1, resultId := 15
                      operands := 7 :: arguments },
                    { opcode := .returnVoid }] }] }]

/-- The interface of that function, whatever the arguments of the call are. -/
def twoParametersInterface : Interface where
  function := 0
  parameters := [
    { composite := 8, typeId := 1, hash := 120, type := .f32 },
    { composite := 9, typeId := 1, hash := 121, type := .f32 }]

theorem reflect_window_two :
    (twoParameters [13, 14]).reflect (utf8 "f") = ([], .ok twoParametersInterface) ∧
      ∃ f pos call, (twoParameters [13, 14]).functionNamed? (utf8 "f") = some 0 ∧
        (twoParameters [13, 14]).functions[0]? = some f ∧
        (twoParameters [13, 14]).instructions.findIdx? (calls f.id) = some pos ∧
        (twoParameters [13, 14]).instructions[pos]? = some call ∧ f.parameters.length ≤ pos ∧
        ∃ indices : List Nat, indices.Pairwise (· < ·) ∧
          List.Forall₂ ((twoParameters [13, 14]).Describes f pos call) indices
            twoParametersInterface.parameters :=
  ⟨rfl, reflect_window (i := twoParametersInterface) rfl (by decide)⟩

/-- With the arguments of the call swapped, the parameter for the first formal still has the hash
of `x`, but no instruction that the call could mean by its first argument builds that struct. -/
theorem reflect_swapped :
    ∃ f p call, (twoParameters [14, 13]).reflect (utf8 "f") = ([], .ok twoParametersInterface) ∧
      p ∈ twoParametersInterface.parameters ∧ (twoParameters [14, 13]).functions[0]? = some f ∧
      f.parameters.map (·.resultId) = [p.composite, 9] ∧
      (twoParameters [14, 13]).instructions.find? (calls f.id) = some call ∧
      ¬ ∃ construct ∈ (twoParameters [14, 13]).instructions,
        call.operands[1 + 0]? = some construct.resultId ∧
          (twoParameters [14, 13]).Wraps construct p := by
  have hbuilder : ∀ construct ∈ (twoParameters [14, 13]).instructions, construct.resultId = 14 →
      construct.operands = [5, 6] := by
    decide
  refine ⟨_, { composite := 8, typeId := 1, hash := 120, type := .f32 }, _, rfl, .head _, rfl, rfl,
    rfl, ?_⟩
  rintro ⟨construct, hmem, hid, -, hash, value, hops, ⟨inst, decl, hinst, -, hword, -⟩, -⟩
  have hid : construct.resultId = 14 := by
    injection hid with hid
    exact hid.symm
  cases hops.symm.trans (hbuilder construct hmem hid)
  cases hinst
  cases hword

end Module

end ShaderGraft
