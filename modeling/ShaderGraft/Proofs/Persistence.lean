import ShaderGraft.Proofs.Correctness
import ShaderGraft.Proofs.Targets
import ShaderGraft.Proofs.TypeReading

/-!
# The interface of a function that is injected into

An injector reflects its function once and goes on with what it found. The main statement is
`Injector.reflect_reaches`: however often trees are injected, reflecting the function again finds
the same.

`Module.Grafts` says what an injection does to all that reflection looks at. The rest is one
invariant, `Module.Anchored`, that holds where an injector is made and that a graft keeps: the
declarations that the types of the formals are read from are all there, the first call of the
function is in another one, and what it passes on is never dropped. Without enough ids, with a type
that is not declared yet, or with a value that an annotation defines, reflecting again can fail
(`Injector.reflect_unanchored`).
-/

namespace ShaderGraft

namespace Module

/-! ### What an injection does -/

/-- What an injection adds to a module. -/
def added (m : Module) (a : Additions) (result : ResultId) : List Instruction :=
  a.capabilities ++ a.imports ++ a.globals ++ (m.graftedBlock a.body result).instructions

theorem compiled_perm_added {m : Module} {index : Nat} {f : Function}
    (hf : m.functions[index]? = some f) (n : Nat) (a : Additions) (result : ResultId) :
    (m.compiled index f n a result).instructions.Perm (m.instructions ++ m.added a result) := by
  obtain ⟨hlt, rfl⟩ := List.getElem?_eq_some_iff.1 hf
  have hfunctions : ((m.compiled index m.functions[index] n a result).functions.flatMap
      Function.instructions).Perm ((m.graftedBlock a.body result).instructions ++
        m.functions.flatMap Function.instructions) := by
    have hfunction (f : Function) (block : Block) :
        ({ f with blocks := f.blocks ++ [block] } : Function).instructions.Perm
          (block.instructions ++ f.instructions) := by
      rw [List.perm_iff_count]
      intro other
      simp only [Function.instructions, List.flatMap_append, List.flatMap_singleton,
        List.count_append]
      omega
    have hset := flatMap_set_perm_append Function.instructions
      (hfunction m.functions[index] (m.graftedBlock a.body result)) hlt
    rwa [← functions_compiled, List.set_getElem_self] at hset
  rw [List.perm_iff_count] at hfunctions ⊢
  intro other
  have hcount := hfunctions other
  simp only [instructions, declarations, added, List.count_append] at hcount ⊢
  simp only [compiled, appendTo, grow, openBlock, takeId, List.count_append] at hcount ⊢
  omega

/-- What reflection can see of an injection into the function `f` at an index. -/
structure Grafts (m m' : Module) (index : Nat) (f : Function) (block : Block) : Prop where
  function : m.functions[index]? = some f
  functions : m'.functions = m.functions.set index { f with blocks := [block] }
  names : m'.names = m.names.filter (¬ ·.IsAbout f)
  annotations : m'.annotations = m.annotations.filter (¬ ·.IsAbout f)
  declarations : ∀ inst ∈ m'.declarations, inst ∈ m.declarations ∨ inst.opcode ≠ .functionCall
  noCalls : ∀ inst ∈ block.instructions, inst.opcode ≠ .functionCall
  bound : m.header.bound ≤ m'.header.bound
  /-- What the new block defines is new. -/
  fresh : ∀ id, block.Defines id → m.header.bound ≤ id
  keeps : m.Keeps m'
  global?_eq : ∀ id < m.header.bound, m'.global? id = m.global? id
  definition?_eq : ∀ id definer, m.definition? id = some definer → ¬ m.Drops f id →
    m'.definition? id = some definer
  definition?_of_drops : ∀ id, m.Drops f id → m'.definition? id = none
  idWellFormed : m'.IdWellFormed

section

variable {m : Module} {index n : Nat} {f : Function} {a : Additions} {result : ResultId}

/-- What is added has new ids: otherwise it would have been there before, and then it would be there
twice. -/
theorem bound_le_of_mem_added (hm : m.IdWellFormed) (hf : m.functions[index]? = some f)
    {kind : Module → ResultId → Prop}
    (hchanges : m.Changes Instruction.Plain kind (n + 1) (m.compiled index f n a result))
    (hlimit : m.header.bound.toNat + (n + 1) ≤ UInt32.size) {inst : Instruction}
    (hinst : inst ∈ m.added a result) (hid : inst.resultId ≠ 0) :
    m.header.bound ≤ inst.resultId := by
  have hperm := compiled_perm_added hf n a result
  have hbelow := hchanges.idsBelow hm.idsBelow hlimit fun _ h => h
  have hnew := hchanges.newAbove hm.idsBelow hlimit (fun _ h => h) inst
    (hperm.mem_iff.2 (List.mem_append_right _ hinst))
  have hdistinct := hbelow.distinct
  rw [hperm.pairwise_iff fun h => h.symm, List.pairwise_append] at hdistinct
  rcases hnew with hold | hzero | hle
  · exact absurd (hdistinct.2.2 inst hold inst hinst rfl) hid
  · exact absurd hzero hid
  · exact UInt32.le_iff_toNat_le.2 hle

theorem global?_graft {id : ResultId}
    (hnew : ∀ inst ∈ m.added a result, inst.resultId ≠ 0 → m.header.bound ≤ inst.resultId)
    (hid : id < m.header.bound) : (m.graft index f n a result).global? id = m.global? id := by
  unfold global?
  split
  · rfl
  rename_i hne
  have hnone : a.globals.find? (·.resultId == id) = none := by
    rw [List.find?_eq_none]
    intro inst hinst heq
    rw [beq_iff_eq] at heq
    have hmem : inst ∈ m.added a result := by simp [added, hinst]
    have hle := hnew inst hmem (heq ▸ hne)
    rw [heq] at hle
    exact absurd hid (UInt32.not_lt.2 hle)
  rw [graft, List.find?_append, hnone, Option.or_none]

theorem bound_le_of_defines
    (hnew : ∀ inst ∈ m.added a result, inst.resultId ≠ 0 → m.header.bound ≤ inst.resultId)
    {id : ResultId} (h : (m.graftedBlock a.body result).Defines id) : m.header.bound ≤ id := by
  rcases h with rfl | ⟨hne, inst, hinst, rfl⟩
  · exact UInt32.le_refl _
  · exact hnew inst (by simp [added, Block.instructions, hinst]) hne

theorem mem_declarations_graft {inst : Instruction}
    (h : inst ∈ (m.graft index f n a result).declarations) :
    inst ∈ m.declarations ∨ inst.opcode ≠ .functionCall := by
  have hmem : inst ∈ m.declarations ∨ inst ∈ a.imports ∨
      inst ∈ a.capabilities ++ a.globals ++ a.body := by
    simp only [declarations, graft, List.mem_append, List.mem_filter] at h ⊢
    tauto
  rcases hmem with hold | himport | hnew
  · exact .inl hold
  · right
    rw [a.imported inst himport]
    decide
  · exact .inr (a.noCalls inst hnew)

theorem mem_graftedBlock {inst : Instruction}
    (h : inst ∈ (m.graftedBlock a.body result).instructions) : inst.opcode ≠ .functionCall := by
  simp only [Block.instructions, graftedBlock, List.mem_cons, List.mem_append, List.not_mem_nil,
    or_false] at h
  rcases h with rfl | h | rfl
  · exact (by decide : Opcode.label ≠ .functionCall)
  · exact a.noCalls inst (List.mem_append_right _ h)
  · exact (by decide : Opcode.returnValue ≠ .functionCall)

end

end Module

theorem Injector.grafts_inject {inj next : Injector} {index : Nat} {f : Function} {i : Input}
    {t : HostType} {tree : Tree i t} {input : i.Value} (hm : inj.target.IdWellFormed)
    (hindex : inj.target.functionWithId? inj.functionId = some index)
    (hf : inj.target.functions[index]? = some f) (h : (inj.inject tree input).2 = .ok next)
    (hlimit : inj.target.header.bound.toNat + inj.target.idsTaken next.target index <
      UInt32.size) :
    ∃ block, inj.target.Grafts next.target index f block := by
  have hids := (idsBelow_inject (Prod.ext rfl h) hm hindex (Nat.le_of_lt hlimit)).idWellFormed
    hlimit
  obtain ⟨index', f', n, a, result, hindex', hf', hchanges, hsub, hnext, htaken⟩ :=
    changes_inject (Prod.ext rfl h)
  cases hindex.symm.trans hindex'
  cases hf.symm.trans hf'
  rw [htaken] at hlimit
  rw [hnext] at hids ⊢
  have hnew : ∀ inst ∈ inj.target.added a result, inst.resultId ≠ 0 →
      inj.target.header.bound ≤ inst.resultId := fun _ =>
    Module.bound_le_of_mem_added hm hf hchanges (Nat.le_of_lt hlimit)
  have hbelow := hchanges.idsBelow hm.idsBelow (Nat.le_of_lt hlimit) fun _ h => h
  refine ⟨inj.target.graftedBlock a.body result, {
    function := hf
    functions := rfl
    names := by simp [Module.graft, Module.isAbout_definedIn]
    annotations := by simp [Module.graft, Module.isAbout_definedIn]
    declarations := fun inst => Module.mem_declarations_graft
    noCalls := fun inst => Module.mem_graftedBlock
    bound := ?_
    fresh := fun id => Module.bound_le_of_defines hnew
    keeps := .of_globals (List.prefix_append ..)
    global?_eq := fun id => Module.global?_graft hnew
    definition?_eq := fun id definer => Module.definition?_graft hf hsub hids.toIdsDistinct
    definition?_of_drops := fun id => Module.definition?_graft_of_drops hf hbelow.distinct
    idWellFormed := hids }⟩
  change _ ≤ (inj.target.compiled index f n a result).header.bound
  rw [hchanges.bound, UInt32.le_iff_toNat_le, toNat_add_ofNat hlimit]
  omega

namespace Injector

/-- The function of an injector is where it was found, in a module with well-formed ids. -/
structure Located (inj : Injector) (f : Function) : Prop where
  idWellFormed : inj.target.IdWellFormed
  function : inj.target.functions[inj.interface.function]? = some f
  id : f.id = inj.functionId

theorem Located.functionWithId?_eq {inj : Injector} {f : Function} (h : inj.Located f) :
    inj.target.functionWithId? inj.functionId = some inj.interface.function := by
  rw [← h.id]
  exact h.idWellFormed.toIdsDistinct.functionWithId?_eq h.function

/-- It stays there with the new block. -/
theorem Located.inject {inj next : Injector} {f : Function} {i : Input} {t : HostType}
    {tree : Tree i t} {input : i.Value} (h : inj.Located f)
    (hinject : (inj.inject tree input).2 = .ok next)
    (hwrap : inj.target.header.bound.toNat +
      inj.target.idsTaken next.target inj.interface.function < UInt32.size) :
    next.interface = inj.interface ∧ ∃ block,
      inj.target.Grafts next.target inj.interface.function f block ∧
        next.Located { f with blocks := [block] } := by
  obtain ⟨block, hgrafts⟩ :=
    grafts_inject h.idWellFormed h.functionWithId?_eq h.function hinject hwrap
  obtain ⟨_, _, _, _, _, _, _, _, _, _, _, _, _, rfl⟩ := inject_eq_ok (Prod.ext rfl hinject)
  obtain ⟨hlt, -⟩ := List.getElem?_eq_some_iff.1 h.function
  refine ⟨rfl, block, hgrafts, hgrafts.idWellFormed, ?_, h.id⟩
  exact hgrafts.functions ▸ List.getElem?_set_self hlt

/-- However often something is injected, the parameters of the function and all declarations
stay. -/
theorem Located.reaches {inj next : Injector} {f : Function} (h : inj.Located f)
    (hreaches : inj.Reaches next) : next.interface = inj.interface ∧
      inj.target.Keeps next.target ∧ ∃ f', next.Located f' ∧ f'.parameters = f.parameters := by
  induction hreaches with
  | refl => exact ⟨rfl, .refl _, f, h, rfl⟩
  | inject _ hinject hwrap ih =>
    obtain ⟨hinterface, hkeeps, f', hlocated, hparameters⟩ := ih
    obtain ⟨hsame, block, hgrafts, hlocated'⟩ := hlocated.inject hinject hwrap
    exact ⟨hsame.trans hinterface, hkeeps.trans hgrafts.keeps, _, hlocated', hparameters⟩

end Injector

namespace Module

/-! ### Debug names -/

theorem head?_of_debugName? {id : ResultId} {inst : Instruction} {name : Bytes}
    (h : debugName? id inst = some name) : inst.operands.head? = some id := by
  unfold debugName? at h
  split at h
  · rename_i target w ws hops
    split at h
    · rename_i hname
      rw [hops, List.head?_cons, hname.2]
    · cases h
  · cases h

/-- What is filtered out does not matter if nothing is found in it. -/
theorem findSome?_filter {α β : Type} {p : α → Bool} {g : α → Option β} {as : List α}
    (h : ∀ a ∈ as, ¬ p a → g a = none) : (as.filter p).findSome? g = as.findSome? g := by
  induction as with
  | nil => rfl
  | cons a as ih =>
    obtain ⟨ha, has⟩ := List.forall_mem_cons.1 h
    by_cases hp : p a
    · rw [List.filter_cons_of_pos hp, List.findSome?_cons, List.findSome?_cons, ih has]
    · rw [List.filter_cons_of_neg hp, List.findSome?_cons, ha hp, ih has]

theorem findIdx?_congr {α : Type} {p q : α → Bool} {as : List α} (h : ∀ a ∈ as, p a = q a) :
    as.findIdx? p = as.findIdx? q := by
  induction as with
  | nil => rfl
  | cons a as ih =>
    obtain ⟨ha, has⟩ := List.forall_mem_cons.1 h
    rw [List.findIdx?_cons, List.findIdx?_cons, ha, ih has]

section

variable {m m' : Module} {index : Nat} {f : Function} {block : Block}

/-- A name stays if its id is not dropped. -/
theorem Grafts.name?_eq (h : m.Grafts m' index f block) {id : ResultId} (hid : ¬ m.Drops f id) :
    m'.name? id = m.name? id := by
  unfold name?
  rw [h.names]
  refine findSome?_filter fun inst _ habout => ?_
  by_contra hname
  obtain ⟨name, hname⟩ := Option.ne_none_iff_exists'.1 hname
  obtain ⟨target, htarget, hdefines⟩ : inst.IsAbout f := by simpa using habout
  cases htarget.symm.trans (head?_of_debugName? hname)
  exact hid (.inl hdefines)

theorem Grafts.map_id (h : m.Grafts m' index f block) :
    m'.functions.map Function.id = m.functions.map Function.id := by
  rw [h.functions, map_id_set h.function]

/-- The ids of functions are never dropped. -/
theorem Grafts.not_drops_id (h : m.Grafts m' index f block) {g : Function} (hg : g ∈ m.functions) :
    ¬ m.Drops f g.id := by
  intro hdrops
  have hmem : g.id ∈ m'.functions.map Function.id := by
    rw [h.map_id]
    exact List.mem_map_of_mem hg
  obtain ⟨g', hg', hid⟩ := List.mem_map.1 hmem
  have hdefinition : g'.definition ∈ m'.instructions :=
    mem_instructions_of_mem_function hg' (by simp [Function.instructions])
  have hne : g'.definition.resultId ≠ 0 :=
    h.idWellFormed.outline g' hg' _ (List.mem_cons_self ..)
  have hsome := h.idWellFormed.toIdsDistinct.definition?_eq hdefinition hne
  have hnone := h.definition?_of_drops g.id hdrops
  rw [← hid] at hnone
  cases hsome.symm.trans hnone

/-- The function with a debug name is still the same. -/
theorem Grafts.functionNamed?_eq (h : m.Grafts m' index f block) (name : Bytes) :
    m'.functionNamed? name = m.functionNamed? name := by
  have hids (m : Module) : m.functionNamed? name =
      (m.functions.map Function.id).findIdx? fun id => m.name? id == some name := by
    rw [functionNamed?, List.findIdx?_map]
    rfl
  rw [hids, hids, h.map_id]
  refine findIdx?_congr fun id hid => ?_
  obtain ⟨g, hg, rfl⟩ := List.mem_map.1 hid
  rw [h.name?_eq (h.not_drops_id hg)]

end

/-! ### Formals -/

/-- The ids that reading the types of the formals of a function looks up. -/
inductive Involves (m : Module) (f : Function) : ResultId → Prop where
  | formal {p : Instruction} : p ∈ f.parameters → Involves m f p.resultType
  | reference {id r : ResultId} {decl : Instruction} : Involves m f id →
      m.global? id = some decl → r ∈ ValueType.references decl → Involves m f r

section

variable {m m' : Module} {index : Nat} {f : Function} {block : Block}

/-- No more ids are looked up than before. -/
theorem Grafts.involves (h : m.Grafts m' index f block)
    (hbelow : ∀ id, m.Involves f id → id < m.header.bound) {id : ResultId}
    (hid : m'.Involves { f with blocks := [block] } id) : m.Involves f id := by
  induction hid with
  | formal hp => exact .formal hp
  | reference _ hdecl hr ih =>
    rw [h.global?_eq _ (hbelow _ ih)] at hdecl
    exact .reference ih hdecl hr

/-- The type of a formal is read as before: the same type, or none for the same reason. -/
theorem Grafts.formalType_eq (h : m.Grafts m' index f block)
    (hbelow : ∀ id, m.Involves f id → id < m.header.bound) {p : Instruction}
    (hp : p ∈ f.parameters) : m'.formalType p = m.formalType p := by
  unfold formalType
  rw [h.global?_eq _ (hbelow _ (.formal hp))]
  cases hdecl : m.global? p.resultType with
  | none => rfl
  | some decl =>
    have htype : m'.typeOf decl = m.typeOf decl :=
      typeOf_eq_of_agree (fun id hid => h.global?_eq id (hbelow id hid))
        (fun _ hid _ hdecl _ hr => .reference hid hdecl hr)
        fun _ hr => .reference (.formal hp) hdecl hr
    simp only [htype]

/-- Formals are read the same if their types are. -/
theorem formals_congr {name : Bytes} {start : Nat} {ps : List Instruction}
    (h : ∀ p ∈ ps, m'.formalType p = m.formalType p) :
    m'.formals name start ps = m.formals name start ps := by
  induction ps generalizing start with
  | nil => rfl
  | cons p ps ih =>
    obtain ⟨hp, hps⟩ := List.forall_mem_cons.1 h
    rw [formals, formals, hp, ih hps]

end

/-! ### The call -/

/-- The first call of the function `f` at an index: it is in a block of another function, after as
many instructions of that block as there are formals. -/
structure CallSite (m : Module) (index : Nat) (f : Function) where
  earlier : List Function
  caller : Function
  later : List Function
  functions : m.functions = earlier ++ caller :: later
  outside : earlier.length ≠ index
  blocksBefore : List Block
  block : Block
  blocksAfter : List Block
  blocks : caller.blocks = blocksBefore ++ block :: blocksAfter
  front : List Instruction
  window : List Instruction
  call : Instruction
  rest : List Instruction
  instructions : block.instructions = front ++ window ++ call :: rest
  length : window.length = f.parameters.length
  calls : Module.calls f.id call = true
  first : ∀ inst ∈ m.declarations ++ earlier.flatMap Function.instructions ++
    caller.definition :: caller.parameters ++ blocksBefore.flatMap Block.instructions ++ front ++
    window, Module.calls f.id inst = false

section

variable {m m' : Module} {index : Nat} {f : Function} {block : Block}

theorem CallSite.callArguments?_eq (s : m.CallSite index f) :
    m.callArguments? f.id f.parameters.length = some s.window := by
  have hsplit : m.instructions = m.declarations ++ s.earlier.flatMap Function.instructions ++
      s.caller.definition :: s.caller.parameters ++ s.blocksBefore.flatMap Block.instructions ++
      s.front ++ s.window ++ s.call :: (s.rest ++ s.blocksAfter.flatMap Block.instructions ++
      [s.caller.ending] ++ s.later.flatMap Function.instructions) := by
    rw [Module.instructions, s.functions]
    simp [Function.instructions, s.blocks, s.instructions]
  rw [← s.length]
  exact callArguments?_of_split hsplit s.calls s.first

/-- Changing an entry on one side of another. -/
theorem set_append_cons {α : Type} {as bs : List α} {a x : α} {i : Nat} (h : as.length ≠ i) :
    (as ++ a :: bs).set i x =
      as.set i x ++ a :: if i < as.length then bs else bs.set (i - as.length - 1) x := by
  rw [List.set_append]
  split
  · rfl
  · obtain ⟨k, rfl⟩ : ∃ k, i = as.length + k + 1 := ⟨i - as.length - 1, by omega⟩
    rw [List.set_eq_of_length_le (by omega : as.length ≤ as.length + k + 1)]
    have hk : as.length + k + 1 - as.length = k + 1 := by omega
    rw [hk, List.set_cons_succ, Nat.add_sub_cancel]

/-- What a graft puts in place of the function calls nothing. -/
theorem Grafts.calls_eq_false (h : m.Grafts m' index f block) {fs : List Function}
    (hf : ∀ g, fs[index]? = some g → g = f)
    (hfs : ∀ inst ∈ fs.flatMap Function.instructions, calls f.id inst = false) {inst : Instruction}
    (hinst : inst ∈ (fs.set index { f with blocks := [block] }).flatMap Function.instructions) :
    calls f.id inst = false := by
  obtain ⟨g, hg, hinst⟩ := List.mem_flatMap.1 hinst
  obtain ⟨j, hj⟩ := List.mem_iff_getElem?.1 hg
  rw [List.getElem?_set] at hj
  split at hj
  · rename_i hindex
    subst hindex
    split at hj
    · rename_i hlt
      cases hj
      have hmem : f ∈ fs := by
        rw [← hf _ (List.getElem?_eq_getElem hlt)]
        exact List.getElem_mem hlt
      simp only [Function.instructions, List.flatMap_singleton, List.mem_append] at hinst
      have hold : inst ∈ f.instructions ∨ inst ∈ block.instructions := by
        simp only [Function.instructions, List.mem_append]
        tauto
      rcases hold with hold | hnew
      · exact hfs inst (List.mem_flatMap.2 ⟨f, hmem, hold⟩)
      · simp [calls, h.noCalls inst hnew]
    · cases hj
  · exact hfs inst (List.mem_flatMap.2 ⟨g, List.mem_of_getElem? hj, hinst⟩)

/-- The first call is still where it was. -/
def Grafts.callSite (h : m.Grafts m' index f block) (s : m.CallSite index f) :
    m'.CallSite index { f with blocks := [block] } where
  earlier := s.earlier.set index { f with blocks := [block] }
  caller := s.caller
  later := if index < s.earlier.length then s.later
    else s.later.set (index - s.earlier.length - 1) { f with blocks := [block] }
  functions := by rw [h.functions, s.functions, set_append_cons s.outside]
  outside := by rw [List.length_set]; exact s.outside
  blocksBefore := s.blocksBefore
  block := s.block
  blocksAfter := s.blocksAfter
  blocks := s.blocks
  front := s.front
  window := s.window
  call := s.call
  rest := s.rest
  instructions := s.instructions
  length := s.length
  calls := s.calls
  first := by
    have hold := s.first
    have hf : ∀ g, s.earlier[index]? = some g → g = f := by
      intro g hg
      have hlt := (List.getElem?_eq_some_iff.1 hg).1
      have hfunction := h.function
      rw [s.functions, List.getElem?_append_left hlt, hg] at hfunction
      exact Option.some.inj hfunction
    simp only [List.mem_append, List.mem_cons, or_imp, forall_and] at hold ⊢
    obtain ⟨⟨⟨⟨⟨hdeclarations, hearlier⟩, hcaller⟩, hblocks⟩, hfront⟩, hwindow⟩ := hold
    refine ⟨⟨⟨⟨⟨?_, ?_⟩, hcaller⟩, hblocks⟩, hfront⟩, hwindow⟩
    · intro inst hinst
      rcases h.declarations inst hinst with hinst | hop
      · exact hdeclarations inst hinst
      · simp [Module.calls, hop]
    · intro inst hinst
      exact h.calls_eq_false hf hearlier hinst

end

/-! ### Arguments -/

theorem Keeps.hashConstant {m m' : Module} (h : m.Keeps m') {id : ResultId} {value : Word}
    (hvalue : m.hashConstant id = .ok value) : m'.hashConstant id = .ok value := by
  obtain ⟨inst, decl, hinst, hop, hops, hdecl, htype⟩ := hashConstant_eq_ok hvalue
  exact hashConstant_of_unsignedConstant
    ⟨inst, decl, h id inst hinst, hop, hops, h _ decl hdecl, h.typeOf htype⟩

/-- A definition that no injection into `f` drops, neither now nor later: later ones drop what is
about ids that are not given out yet. -/
structure Lasts (m : Module) (f : Function) (id : ResultId) (definer : Instruction) : Prop where
  defined : m.definition? id = some definer
  kept : ¬ m.Drops f id
  target : definer ∈ m.names ++ m.annotations →
    ∀ target ∈ definer.operands.head?, target < m.header.bound

/-- The values that are passed on last. -/
def CallSite.Lasting {m : Module} {index : Nat} {f : Function} (s : m.CallSite index f) : Prop :=
  ∀ construct ∈ s.window, construct.opcode = .compositeConstruct →
    ∀ hash value, construct.operands = [hash, value] → ∃ definer, m.Lasts f value definer

/-- They are defined, and not in the function itself. -/
def CallSite.Outside {m : Module} {index : Nat} {f : Function} (s : m.CallSite index f) : Prop :=
  ∀ construct ∈ s.window, construct.opcode = .compositeConstruct →
    ∀ hash value, construct.operands = [hash, value] →
      (m.definition? value).isSome ∧ ¬ ∃ b ∈ f.blocks, b.Defines value

section

variable {m m' : Module} {index : Nat} {f : Function} {block : Block}

theorem mem_instructions_of_target {inst : Instruction} (h : inst ∈ m.names ++ m.annotations) :
    inst ∈ m.instructions := by
  simp only [instructions, declarations, List.mem_append] at h ⊢
  tauto

theorem Grafts.lasts (h : m.Grafts m' index f block) (hm : m.IdWellFormed) {id : ResultId}
    {definer : Instruction} (hid : m.Lasts f id definer) :
    m'.Lasts { f with blocks := [block] } id definer := by
  obtain ⟨hdefined, hkept, htarget⟩ := hid
  obtain ⟨hne, hmem, rfl⟩ := mem_of_definition? hdefined
  have hnames : m'.names ++ m'.annotations ⊆ m.names ++ m.annotations := by
    rw [h.names, h.annotations, ← List.filter_append]
    exact List.filter_subset_self _
  refine ⟨h.definition?_eq _ _ hdefined hkept, ?_, ?_⟩
  · rintro (⟨b, hb, hdefines⟩ | ⟨inst, hinst, ⟨target, hhead, b, hb, hdefines⟩, hres⟩)
    · cases List.mem_singleton.1 hb
      exact UInt32.not_lt.2 (h.fresh _ hdefines) (hm.below definer hmem)
    · cases List.mem_singleton.1 hb
      have hold := hnames hinst
      have hsame := hm.toIdsDistinct.definition?_eq (mem_instructions_of_target hold) (hres ▸ hne)
      rw [hres, hdefined] at hsame
      cases hsame
      exact UInt32.not_lt.2 (h.fresh _ hdefines) (htarget hold target hhead)
  · intro hdefiner target hhead
    exact UInt32.lt_of_lt_of_le (htarget (hnames hdefiner) target hhead) h.bound

theorem Grafts.parameterOf (h : m.Grafts m' index f block) {name : Bytes} {formal : Formal}
    {construct : Instruction} {p : Parameter}
    (hvalue : construct.opcode = .compositeConstruct → ∀ hash value,
      construct.operands = [hash, value] → ∃ definer, m.Lasts f value definer)
    (hp : m.parameterOf name formal construct = .ok p) :
    m'.parameterOf name formal construct = .ok p := by
  unfold Module.parameterOf at hp ⊢
  split at hp
  · rename_i hash value hop hops
    obtain ⟨word, hword, hp⟩ := bind_eq_ok.1 hp
    obtain ⟨type, htype, hp⟩ := bind_eq_ok.1 hp
    obtain ⟨definer, hdefined, hkept, -⟩ := hvalue hop hash value hops
    have hsame : m'.valueTypeId value = m.valueTypeId value := by
      simp only [valueTypeId, hdefined, h.definition?_eq value definer hdefined hkept]
    rw [h.keeps.hashConstant (mapError_eq_ok hword), hsame, mapError_eq_ok htype]
    exact hp
  · cases hp

theorem Grafts.parametersOf (h : m.Grafts m' index f block) {name : Bytes}
    {arguments : List Instruction} (hvalues : ∀ construct ∈ arguments,
      construct.opcode = .compositeConstruct → ∀ hash value,
        construct.operands = [hash, value] → ∃ definer, m.Lasts f value definer)
    {fs : List Formal} {ps : List Parameter} (hps : m.parametersOf name arguments fs = .ok ps) :
    m'.parametersOf name arguments fs = .ok ps := by
  induction fs generalizing ps with
  | nil => exact hps
  | cons formal fs ih =>
    rw [Module.parametersOf] at hps ⊢
    split at hps
    · cases hps
    rename_i construct hconstruct
    obtain ⟨p, hp, hps⟩ := bind_eq_ok.1 hps
    obtain ⟨rest, hrest, hps⟩ := bind_eq_ok.1 hps
    have hmem := List.mem_of_getElem? hconstruct
    simp only [h.parameterOf (hvalues construct hmem) hp, ih hrest]
    exact hps

end

/-! ### Reflecting again -/

theorem reflect_of_formals {m : Module} {name : Bytes} {index : Nat} {f : Function}
    {fs : List Formal} {ps : List Parameter} (hindex : m.functionNamed? name = some index)
    (hf : m.functions[index]? = some f) (hfs : (m.formals name 0 f.parameters).2 = .ok fs)
    (hps : fs = [] ∧ ps = [] ∨
      ∃ arguments, m.callArguments? f.id f.parameters.length = some arguments ∧
        m.parametersOf name arguments fs = .ok ps) :
    (m.reflect name).2 = .ok { function := index, parameters := ps } := by
  simp only [reflect, hindex, hf, hfs]
  rcases hps with ⟨rfl, rfl⟩ | ⟨arguments, harguments, hps⟩
  · rfl
  cases fs with
  | nil =>
    cases hps
    rfl
  | cons formal fs =>
    simp only [harguments]
    exact bind_eq_ok.2 ⟨formal :: fs, rfl, bind_eq_ok.2 ⟨ps, hps, rfl⟩⟩

/-- What reflecting a function with the same result again and again rests on. -/
structure Anchored (m : Module) (name : Bytes) (i : Interface) (f : Function) : Prop where
  reflects : (m.reflect name).2 = .ok i
  types : ∀ id, m.Involves f id → id < m.header.bound
  callSite : i.parameters ≠ [] → ∃ s : m.CallSite i.function f, s.Lasting

theorem Anchored.reflect_graft {m m' : Module} {name : Bytes} {i : Interface} {f : Function}
    {block : Block} (h : m.Anchored name i f) (hgrafts : m.Grafts m' i.function f block) :
    (m'.reflect name).2 = .ok i := by
  obtain ⟨f', fs, hindex, hf', hformals, hps⟩ := reflect_eq_ok (Prod.ext rfl h.reflects)
  cases hgrafts.function.symm.trans hf'
  have hlt := (List.getElem?_eq_some_iff.1 hf').1
  have hf : m'.functions[i.function]? = some { f with blocks := [block] } := by
    rw [hgrafts.functions, List.getElem?_set_self hlt]
  have hread : (m'.formals name 0 f.parameters).2 = .ok fs := by
    rw [formals_congr fun p hp => hgrafts.formalType_eq h.types hp, hformals]
  refine reflect_of_formals ((hgrafts.functionNamed?_eq name).trans hindex) hf hread ?_
  rcases hps with hnone | ⟨arguments, harguments, hps⟩
  · exact .inl hnone
  by_cases hne : i.parameters = []
  · have hlength := (parametersOf_eq_ok hps).length_eq
    rw [hne] at hlength
    exact .inl ⟨List.eq_nil_of_length_eq_zero hlength, hne⟩
  obtain ⟨s, hs⟩ := h.callSite hne
  cases s.callArguments?_eq.symm.trans harguments
  exact .inr ⟨s.window, (hgrafts.callSite s).callArguments?_eq, hgrafts.parametersOf hs hps⟩

/-- An injection keeps all of it. -/
theorem Anchored.graft {m m' : Module} {name : Bytes} {i : Interface} {f : Function}
    {block : Block} (h : m.Anchored name i f) (hm : m.IdWellFormed)
    (hgrafts : m.Grafts m' i.function f block) :
    m'.Anchored name i { f with blocks := [block] } where
  reflects := h.reflect_graft hgrafts
  types := fun id hid =>
    UInt32.lt_of_lt_of_le (h.types id (hgrafts.involves h.types hid)) hgrafts.bound
  callSite := fun hne => by
    obtain ⟨s, hs⟩ := h.callSite hne
    refine ⟨hgrafts.callSite s, fun construct hconstruct hop hash value hops => ?_⟩
    obtain ⟨definer, hlasts⟩ := hs construct hconstruct hop hash value hops
    exact ⟨definer, hgrafts.lasts hm hlasts⟩

end Module

namespace Injector

theorem create_eq_ok {m : Module} {name : Bytes} {options : Options} {inj : Injector}
    (h : (create m name options).2 = .ok inj) (hm : m.IdWellFormed) :
    (m.reflect name).2 = .ok inj.interface ∧ m = inj.target ∧ ∃ f, inj.Located f := by
  unfold create at h
  rcases hreflect : m.reflect name with ⟨dropped, e | i⟩
  · simp [hreflect] at h
  · simp only [hreflect] at h
    cases h
    obtain ⟨f, hf, -⟩ := Module.reflect_parameters hreflect
    exact ⟨rfl, rfl, f, hm, hf, by simp [hf]⟩

/-- All of it is kept however often something is injected. -/
theorem anchored_reaches {inj next : Injector} {name : Bytes} {f : Function}
    (hlocated : inj.Located f) (h : inj.target.Anchored name inj.interface f)
    (hreaches : inj.Reaches next) : next.interface = inj.interface ∧
      ∃ f', next.Located f' ∧ next.target.Anchored name next.interface f' := by
  induction hreaches with
  | refl => exact ⟨rfl, f, hlocated, h⟩
  | inject _ hinject hwrap ih =>
    obtain ⟨hinterface, g, hg, hanchored⟩ := ih
    obtain ⟨hsame, block, hgrafts, hnext⟩ := hg.inject hinject hwrap
    refine ⟨hsame.trans hinterface, { g with blocks := [block] }, hnext, ?_⟩
    rw [hsame]
    exact hanchored.graft hg.idWellFormed hgrafts

/-- Reflecting again after any number of injections gives the interface that the injector was made
with, if the formal types are declared and some call of the function lasts. -/
theorem reflect_reaches {m : Module} {name : Bytes} {options : Options} {inj next : Injector}
    {f : Function} (hm : m.IdWellFormed) (hcreate : (create m name options).2 = .ok inj)
    (hf : m.functions[inj.interface.function]? = some f)
    (htypes : ∀ id, m.Involves f id → id < m.header.bound)
    (hcalls : inj.interface.parameters ≠ [] →
      ∃ s : m.CallSite inj.interface.function f, s.Lasting)
    (hreaches : inj.Reaches next) : (next.target.reflect name).2 = .ok inj.interface := by
  obtain ⟨hreflect, rfl, f', hlocated⟩ := create_eq_ok hcreate hm
  cases hf.symm.trans hlocated.function
  obtain ⟨hinterface, _, -, hanchored⟩ :=
    anchored_reaches hlocated ⟨hreflect, htypes, hcalls⟩ hreaches
  rw [← hinterface]
  exact hanchored.reflects

end Injector

/-! ### Instances -/

/-- A function of one formal parameter with the given type. -/
def Function.taking (type : ResultId) : Function := { built with
  parameters := [{ opcode := .functionParameter, resultType := type, resultId := 10 }] }

namespace Module

/-- A module with that function and a call that passes on the given value. -/
def passing (bound : Word) (annotations : List Instruction) (type value : ResultId) : Module := {
  built with
  header := { version := ⟨1, 3⟩, bound }
  annotations
  functions := [.taking type,
    { definition := { opcode := .function, resultType := 6, resultId := 13, operands := [0, 8] }
      blocks := [{ label := { opcode := .label, resultId := 14 }
                   body := [
                    { opcode := .compositeConstruct, resultType := 3, resultId := 15
                      operands := [4, value] },
                    { opcode := .functionCall, resultType := 1, resultId := 16
                      operands := [9, 15] },
                    { opcode := .returnVoid }] }] }] }

/-- The call in it. -/
def passingCall (bound : Word) {annotations : List Instruction} (type value : ResultId)
    (h : ∀ inst ∈ (passing bound annotations type value).declarations, calls 9 inst = false) :
    (passing bound annotations type value).CallSite 0 (.taking type) where
  earlier := [.taking type]
  caller := _
  later := []
  functions := rfl
  outside := Nat.one_ne_zero
  blocksBefore := []
  block := _
  blocksAfter := []
  blocks := rfl
  front := [{ opcode := .label, resultId := 14 }]
  window := [
    { opcode := .compositeConstruct, resultType := 3, resultId := 15, operands := [4, value] }]
  call := _
  rest := [{ opcode := .returnVoid }]
  instructions := rfl
  length := rfl
  calls := rfl
  first := by
    simp only [List.mem_append, or_imp, forall_and]
    refine ⟨⟨⟨⟨⟨h, ?_⟩, ?_⟩, ?_⟩, ?_⟩, ?_⟩
    all_goals
      simp [Function.taking, Function.built, Function.instructions, Block.instructions, calls]

theorem involves_passing {bound : Word} {annotations : List Instruction} {value id : ResultId}
    (h : (passing bound annotations 3 value).Involves (.taking 3) id)
    (hbound : 3 < bound) : id < bound := by
  have hid : id = 3 ∨ id = 2 ∨ id = 1 := by
    induction h with
    | formal hp =>
      cases List.mem_singleton.1 hp
      exact .inl rfl
    | reference _ hdecl hr ih =>
      rcases ih with rfl | rfl | rfl
      · cases hdecl
        have hfield : _ ∈ ([2, 1] : List ResultId) := hr
        exact .inr (by simpa using hfield)
      · cases hdecl
        cases hr
      · cases hdecl
        cases hr
  rcases hid with rfl | rfl | rfl
  · exact hbound
  · exact UInt32.lt_trans (by decide) hbound
  · exact UInt32.lt_trans (by decide) hbound

end Module

namespace Injector

/-- After the successor and then something without instructions were injected. -/
def builtReturning (result : ResultId) : Injector :=
  builtInjected.commit { Module.built.withSuccessor with
    header := { version := ⟨1, 3⟩, bound := 22 }
    functions := Module.built.functions.set 0 { Function.built with
      blocks := [{ label := { opcode := .label, resultId := 21 }
                   body := [{ opcode := .returnValue, operands := [result] }] }] } }

theorem reflect_reaches_twice :
    Module.built.IdWellFormed ∧ (create .built (utf8 "f")).2 = .ok built ∧
      built.Reaches (builtReturning 19) ∧
      ((builtReturning 19).target.reflect (utf8 "f")).2 = .ok built.interface := by
  have hm : Module.built.IdWellFormed := by decide +kernel
  have hcreate : (create .built (utf8 "f")).2 = .ok built := rfl
  have hfirst : (built.inject Tree.successor ()).2 = .ok builtInjected :=
    inject_eq_commit (by decide +kernel)
  have hsecond : (builtInjected.inject Tree.one ()).2 = .ok (builtReturning 19) :=
    inject_eq_commit (by decide +kernel)
  have hreaches : built.Reaches (builtReturning 19) :=
    .inject (.inject .refl hfirst (by decide +kernel)) hsecond (by decide +kernel)
  have hbuilt : Module.built = .passing 17 [] 3 5 := rfl
  refine ⟨hm, hcreate, hreaches, reflect_reaches hm hcreate rfl ?_ (fun _ => ?_) hreaches⟩
  · rw [hbuilt]
    exact fun id hid => Module.involves_passing hid (by decide)
  · refine ⟨Module.passingCall 17 3 5 (by decide +kernel), ?_⟩
    intro construct hconstruct _ hash value hops
    cases List.mem_singleton.1 hconstruct
    cases hops
    exact ⟨_, rfl, by decide +kernel, by decide +kernel⟩

/-- The injector after trees were injected one after the other. -/
def injectAll? (inj : Injector) (trees : List (Tree .none .f32)) : Option Injector :=
  trees.foldlM (fun inj tree => (inj.inject tree ()).2.toOption) inj

/-- Whether trees can be injected into the function of a module, which cannot be reflected then. -/
def Forgets (m : Module) (trees : List (Tree .none .f32)) : Prop :=
  ∃ inj next e, (create m (utf8 "f")).2 = .ok inj ∧ inj.injectAll? trees = some next ∧
    (next.target.reflect (utf8 "f")).2 = .error e

theorem forgets_of_isOk {m : Module} {trees : List (Tree .none .f32)} {inj : Injector}
    (hcreate : (create m (utf8 "f")).2 = .ok inj)
    (h : ((inj.injectAll? trees).map fun next => (next.target.reflect (utf8 "f")).2.isOk) =
      some false) : Forgets m trees := by
  obtain ⟨next, hinject, hreflect⟩ := Option.map_eq_some_iff.1 h
  cases hresult : (next.target.reflect (utf8 "f")).2 with
  | error e => exact ⟨inj, next, e, hcreate, hinject, hresult⟩
  | ok i => simp [hresult, Except.isOk, Except.toBool] at hreflect

end Injector

namespace Module

/-- Whether the types are declared below the bound and the call passes on what is defined, and not
in the function itself. -/
def WellPlaced (m : Module) : Prop :=
  m.IdWellFormed ∧ (∀ id, m.Involves (.taking 3) id → id < m.header.bound) ∧
    ∃ s : m.CallSite 0 (.taking 3), s.Outside

theorem wellPlaced_passing {bound : Word} {annotations : List Instruction} {value : ResultId}
    (hm : (passing bound annotations 3 value).IdWellFormed) (hbound : 3 < bound)
    (hcalls : ∀ inst ∈ (passing bound annotations 3 value).declarations, calls 9 inst = false)
    (hvalue : ((passing bound annotations 3 value).definition? value).isSome)
    (houtside : ¬ ∃ b ∈ (Function.taking 3).blocks, b.Defines value) :
    (passing bound annotations 3 value).WellPlaced := by
  refine ⟨hm, fun id hid => involves_passing hid hbound, passingCall bound 3 value hcalls, ?_⟩
  intro construct hconstruct _ hash _ hops
  cases List.mem_singleton.1 hconstruct
  cases hops
  exact ⟨hvalue, houtside⟩

/-- The value is defined by an annotation. -/
def annotated (target : ResultId) : Module :=
  passing 18 [{ opcode := .undef, resultType := 1, resultId := 17, operands := [target] }] 3 17

/-- The next id is the last one. -/
def crowded : Module :=
  passing 0xffffffff [] 3 5

/-- The type of the formal is not declared yet. -/
def undeclared : Module :=
  passing 17 [] 18 5

end Module

/-- The root of one, squared four times. -/
def Tree.squares : Tree .none .f32 :=
  .elementary .sqrt (.square (.square (.square (.square .one))))

/-- Values that are defined outside of the function can be dropped with its block, or with the block
of a later injection, if what defines them is an annotation. A value can get a second definition
when the ids start again from zero. A type that is not declared can become one that is. -/
theorem Injector.reflect_unanchored :
    ((Module.annotated 11).WellPlaced ∧ Forgets (.annotated 11) [.one]) ∧
    ((Module.annotated 18).WellPlaced ∧ Forgets (.annotated 18) [.one, .one]) ∧
    (Module.crowded.WellPlaced ∧
      (∃ s : Module.crowded.CallSite 0 (.taking 3), s.Lasting) ∧ Forgets .crowded [.squares]) ∧
    (Module.undeclared.IdWellFormed ∧
      (Module.undeclared.reflect (utf8 "f")).2 = .ok { function := 0, parameters := [] } ∧
      Forgets .undeclared [.one]) := by
  have hown : (Module.annotated 11).WellPlaced :=
    Module.wellPlaced_passing (by decide +kernel) (by decide) (by decide +kernel) rfl
      (by decide +kernel)
  have hlater : (Module.annotated 18).WellPlaced :=
    Module.wellPlaced_passing (by decide +kernel) (by decide) (by decide +kernel) rfl
      (by decide +kernel)
  have hcrowded : Module.crowded.WellPlaced :=
    Module.wellPlaced_passing (by decide +kernel) (by decide) (by decide +kernel) rfl
      (by decide +kernel)
  have hlasting : ∃ s : Module.crowded.CallSite 0 (.taking 3), s.Lasting := by
    refine ⟨Module.passingCall 0xffffffff 3 5 (by decide +kernel), ?_⟩
    intro construct hconstruct _ hash value hops
    cases List.mem_singleton.1 hconstruct
    cases hops
    exact ⟨_, rfl, by decide +kernel, by decide +kernel⟩
  exact ⟨⟨hown, forgets_of_isOk rfl (by decide +kernel)⟩,
    ⟨hlater, forgets_of_isOk rfl (by decide +kernel)⟩,
    ⟨hcrowded, hlasting, forgets_of_isOk rfl (by decide +kernel)⟩,
    by decide +kernel, rfl, forgets_of_isOk rfl (by decide +kernel)⟩

end ShaderGraft
