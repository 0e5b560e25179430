import Mathlib.Logic.Relation
import ShaderGraft.Proofs.Correctness
import ShaderGraft.Proofs.Targets
import ShaderGraft.Proofs.TypeReading

/-!
# Runs that an injection does not change

An injection into one function leaves the values that other functions give alone
(`Injector.call_inject_other`). A run is compared with the run in a module that has grown
(`Eval.Refines`): what the first gives, the second gives from the same state. One instruction is
compared first, then a body, the blocks of a function, and calls to any depth
(`Module.Covers.refines_callAt`). All that an instruction looks up outside the values of its frame
is the declarations, the functions by id and the instruction sets, and an injection only ever takes
the last of these away.
-/

namespace ShaderGraft

variable {host : Host}

namespace Eval

/-- Whenever the first computation succeeds, the second does the same. -/
def Refines {α : Type} (x y : Eval α) : Prop :=
  ∀ s a s', x.run s = .ok (a, s') → y.run s = .ok (a, s')

variable {α β : Type}

theorem Refines.refl (x : Eval α) : Refines x x :=
  fun _ _ _ h => h

theorem refines_throw (stop : Stop) (y : Eval α) : Refines (throw stop) y := by
  intro s a s' h
  cases h

theorem refines_throw_bind (stop : Stop) (f : α → Eval β) (y : Eval β) :
    Refines (throw stop >>= f) y := by
  intro s a s' h
  cases h

/-- The second step need only be refined for what the first one gives. -/
theorem Refines.bind_of_run {x y : Eval α} {f g : α → Eval β} (hx : Refines x y)
    (hf : ∀ s a s', x.run s = .ok (a, s') → Refines (f a) (g a)) :
    Refines (x >>= f) (y >>= g) := by
  intro s b s' h
  rw [StateT.run_bind] at h
  obtain ⟨⟨a, s₁⟩, hrun, hrest⟩ := bind_eq_ok.1 h
  rw [run_bind_ok (hx s a s₁ hrun)]
  exact hf s a s₁ hrun s₁ b s' hrest

theorem Refines.bind {x y : Eval α} {f g : α → Eval β} (hx : Refines x y)
    (hf : ∀ a, Refines (f a) (g a)) : Refines (x >>= f) (y >>= g) :=
  hx.bind_of_run fun _ a _ _ => hf a

theorem run_operand_eq_ok {ops : List Word} {i : Nat} {w : Word} {s s' : Machine}
    (h : (operand ops i).run s = .ok (w, s')) : ops[i]? = some w := by
  unfold operand at h
  split at h
  · rename_i w' hw
    cases h
    exact hw
  · cases h

theorem Refines.mapM {f g : α → Eval β} (h : ∀ a, Refines (f a) (g a)) (as : List α) :
    Refines (as.mapM f) (as.mapM g) := by
  induction as with
  | nil => exact .refl _
  | cons a as ih =>
    rw [List.mapM_cons, List.mapM_cons]
    exact (h a).bind fun _ => ih.bind fun _ => .refl _

theorem run_inBlock_eq_ok {x : Eval α} {function block : ResultId} {s s' : Machine} {a : α} :
    (inBlock function block x).run s = .ok (a, s') ↔ x.run s = .ok (a, s') := by
  simp only [inBlock, StateT.run]
  split
  · rename_i cause hx
    simp [hx]
  · rfl

theorem Refines.inBlock {x y : Eval α} (h : Refines x y) (function block : ResultId) :
    Refines (inBlock function block x) (inBlock function block y) := by
  intro s a s' hrun
  exact run_inBlock_eq_ok.2 (h s a s' (run_inBlock_eq_ok.1 hrun))

end Eval

namespace Module

open Eval

/-- Function `i` has an instruction with the given opcode whose first operand is `id`. -/
def Uses (m : Module) (i : Nat) (op : Opcode) (id : ResultId) : Prop :=
  ∃ f, m.functions[i]? = some f ∧ ∃ b ∈ f.blocks, ∃ inst ∈ b.body,
    inst.opcode = op ∧ inst.operands.head? = some id

/-- Function `i` has a call of function `j`. -/
def Calls (m : Module) (i j : Nat) : Prop :=
  ∃ id, m.Uses i .functionCall id ∧ m.functionWithId? id = some j

/-- The second module has the declarations of the first and the same functions by id. -/
structure Contains (m m' : Module) : Prop where
  keeps : m.Keeps m'
  globals : m.globals.length ≤ m'.globals.length
  functionWithId : ∀ id, m'.functionWithId? id = m.functionWithId? id

/-- What an instruction needs besides values is there in the second module: the function that it
calls, and the instruction set that it takes its function from. -/
structure Supports (m m' : Module) (callee callee' : Callee) (inst : Instruction) : Prop where
  calls : inst.opcode = .functionCall → ∀ id j, inst.operands.head? = some id →
    m.functionWithId? id = some j → ∀ args, Refines (callee j args) (callee' j args)
  sets : inst.opcode = .extInst → ∀ id definer, inst.operands.head? = some id →
    m.definition? id = some definer → definer.opcode = .extInstImport →
    m'.definition? id = some definer

variable {m m' : Module}

theorem Keeps.constantValue (h : m.Keeps m') {inst : Instruction} {v : Value}
    (hv : m.constantValue inst = .ok v) : m'.constantValue inst = .ok v := by
  unfold Module.constantValue at hv ⊢
  cases htype : m.typeOf inst with
  | error e =>
    rw [htype] at hv
    cases e <;> cases hv
  | ok t =>
    rw [htype] at hv
    rw [h.typeOf htype]
    exact hv

theorem Keeps.refines_valueOf (h : m.Keeps m') (frame : Frame) {fuel fuel' : Nat}
    (hfuel : fuel ≤ fuel') (id : ResultId) :
    Refines (m.valueOf host frame fuel id) (m'.valueOf host frame fuel' id) := by
  induction fuel generalizing fuel' id with
  | zero => exact refines_throw _ _
  | succ fuel ih =>
    obtain ⟨fuel', rfl⟩ : ∃ k, fuel' = k + 1 := ⟨fuel' - 1, by omega⟩
    rw [valueOf, valueOf]
    cases frame.values.get? id with
    | some v => exact .refl _
    | none =>
      simp only
      refine (Refines.refl _).bind fun s => ?_
      cases s.constants.get? id with
      | some v => exact .refl _
      | none =>
        simp only
        cases hglobal : m.global? id with
        | none => exact refines_throw _ _
        | some inst =>
          rw [h id inst hglobal]
          simp only
          split
          · cases hv : m.constantValue inst with
            | error cause => exact refines_throw_bind _ _ _
            | ok v =>
              rw [h.constantValue hv]
              exact .refl _
          · exact .refl _
          · exact .refl _
          · cases htype : m.global? inst.resultType with
            | none => exact refines_throw_bind _ _ _
            | some decl =>
              rw [h _ decl htype]
              exact (Refines.mapM (fun part => ih (by omega) part) _).bind fun _ => .refl _
          · exact refines_throw_bind _ _ _

section

variable (h : m.Contains m') (frame : Frame)

include h

theorem Contains.refines_value (id : ResultId) :
    Refines (m.value host frame id) (m'.value host frame id) :=
  h.keeps.refines_valueOf frame (Nat.succ_le_succ h.globals) id

theorem Contains.refines_valuesOf (ids : List ResultId) :
    Refines (m.valuesOf host frame ids) (m'.valuesOf host frame ids) :=
  .mapM (h.refines_value frame) ids

theorem Contains.refines_construct (inst : Instruction) :
    Refines (m.construct host frame inst) (m'.construct host frame inst) := by
  unfold construct
  cases htype : m.global? inst.resultType with
  | none => exact refines_throw _ _
  | some type =>
    rw [h.keeps _ type htype]
    exact (h.refines_valuesOf frame _).bind fun _ => .refl _

theorem Contains.refines_arithmetic (f : Float32 → Float32 → Float32) (ops : List Word) :
    Refines (m.arithmetic host frame f ops) (m'.arithmetic host frame f ops) := by
  unfold arithmetic
  refine (Refines.refl _).bind fun a => (h.refines_value frame a).bind fun _ => ?_
  exact (Refines.refl _).bind fun b => (h.refines_value frame b).bind fun _ => .refl _

variable {callee callee' : Callee} {inst : Instruction} (hinst : m.Supports m' callee callee' inst)

include hinst

theorem Contains.refines_extended (hop : inst.opcode = .extInst) :
    Refines (m.extended host frame inst.operands) (m'.extended host frame inst.operands) := by
  have hsets := hinst.sets hop
  generalize inst.operands = ops at hsets
  rcases ops with _ | ⟨set, _ | ⟨n, _ | ⟨first, rest⟩⟩⟩
  case cons.cons.cons =>
    simp only [extended]
    cases hset : m.definition? set with
    | none => exact refines_throw _ _
    | some definer =>
      by_cases himport : definer.opcode = .extInstImport
      · rw [hsets set definer rfl hset himport]
        simp only [himport, ne_eq, not_true_eq_false, if_false]
        split
        · exact refines_throw_bind _ _ _
        · exact (h.refines_valuesOf frame _).bind fun _ => .refl _
      · simp only [himport, ne_eq, not_false_eq_true, if_true]
        exact refines_throw_bind _ _ _
  all_goals exact .refl _

theorem Contains.refines_callById (hop : inst.opcode = .functionCall) :
    Refines (m.callById host callee frame inst.operands)
      (m'.callById host callee' frame inst.operands) := by
  unfold callById
  refine (Refines.refl _).bind_of_run fun s id s' hrun => ?_
  have hid : inst.operands.head? = some id := by
    rw [List.head?_eq_getElem?]
    exact run_operand_eq_ok hrun
  rw [h.functionWithId]
  cases hj : m.functionWithId? id with
  | none => exact refines_throw _ _
  | some j => exact (h.refines_valuesOf frame _).bind (hinst.calls hop id j hid hj)

theorem Contains.refines_result :
    Refines (m.result host callee frame inst) (m'.result host callee' frame inst) := by
  unfold result
  split
  · exact .refl _
  · rename_i hop
    exact h.refines_callById frame hinst hop
  · exact h.refines_construct frame _
  · exact (Refines.refl _).bind fun a => (h.refines_value frame a).bind fun _ => .refl _
  · exact (Refines.refl _).bind fun a => (h.refines_value frame a).bind fun _ => .refl _
  · rename_i hop
    exact h.refines_extended frame hinst hop
  · split
    · exact h.refines_arithmetic frame _ _
    · exact refines_throw _ _

theorem Contains.refines_step :
    Refines (m.step host callee frame inst) (m'.step host callee' frame inst) := by
  unfold step
  refine (Refines.refl _).bind fun _ => ?_
  split
  case h_8 => exact (Refines.refl _).bind fun a => (h.refines_value frame a).bind fun _ => .refl _
  case h_9 =>
    split
    · exact (h.refines_value frame _).bind fun _ => .refl _
    · exact .refl _
  case h_10 =>
    refine (Refines.refl _).bind fun _ => (Refines.refl _).bind fun a => ?_
    exact (h.refines_value frame a).bind fun _ => .refl _
  case h_11 => exact (h.refines_result frame hinst).bind fun _ => .refl _
  -- The others do not look at the module.
  all_goals exact .refl _

end

theorem Contains.refines_runBody (h : m.Contains m') {callee callee' : Callee}
    {body : List Instruction} (hbody : ∀ inst ∈ body, m.Supports m' callee callee' inst)
    (frame : Frame) :
    Refines (m.runBody host callee frame body) (m'.runBody host callee' frame body) := by
  induction body generalizing frame with
  | nil => exact refines_throw _ _
  | cons inst rest ih =>
    obtain ⟨hinst, hrest⟩ := List.forall_mem_cons.1 hbody
    rw [runBody, runBody]
    refine (h.refines_step frame hinst).bind fun effect => ?_
    cases effect with
    | «continue» frame => exact ih hrest frame
    | leave exit => exact .refl _

theorem Contains.refines_runBlocks (h : m.Contains m') {callee callee' : Callee} {f : Function}
    (hblocks : ∀ b ∈ f.blocks, ∀ inst ∈ b.body, m.Supports m' callee callee' inst)
    (fuel : Nat) (frame : Frame) {block : Block} (hblock : block ∈ f.blocks) :
    Refines (m.runBlocks host callee f fuel frame block)
      (m'.runBlocks host callee' f fuel frame block) := by
  induction fuel generalizing frame block with
  | zero => exact refines_throw _ _
  | succ fuel ih =>
    rw [runBlocks, runBlocks]
    have hbody : Refines (m.runBody host callee frame block.body) _ :=
      h.refines_runBody (hblocks block hblock) frame
    refine (hbody.inBlock f.id block.label.resultId).bind fun left => ?_
    obtain ⟨frame, exit⟩ := left
    cases exit with
    | «return» v => exact .refl _
    | branch label =>
      simp only
      cases hnext : f.blocks.find? (·.label.resultId == label) with
      | none => exact refines_throw _ _
      | some next => exact ih frame (List.mem_of_find?_eq_some hnext)

theorem Contains.refines_enter (h : m.Contains m') {callee callee' : Callee} {f : Function}
    (hblocks : ∀ b ∈ f.blocks, ∀ inst ∈ b.body, m.Supports m' callee callee' inst)
    (args : List Value) : Refines (m.enter host callee f args) (m'.enter host callee' f args) := by
  simp only [enter]
  split
  · exact refines_throw_bind _ _ _
  · split
    · exact refines_throw _ _
    · rename_i first rest hfirst
      exact h.refines_runBlocks hblocks _ _ (hfirst ▸ List.mem_cons_self)

/-- All that the functions with the given indices use is the same in the second module. -/
structure Covers (m m' : Module) (P : Nat → Prop) : Prop extends m.Contains m' where
  functions : ∀ i, P i → m'.functions[i]? = m.functions[i]?
  calls : ∀ i j, P i → m.Calls i j → P j
  sets : ∀ i id definer, P i → m.Uses i .extInst id → m.definition? id = some definer →
    definer.opcode = .extInstImport → m'.definition? id = some definer

/-- A covered function runs the same, to any depth of calls. -/
theorem Covers.refines_callAt {P : Nat → Prop} (h : m.Covers m' P) (depth : Nat) {i : Nat}
    (hi : P i) (args : List Value) :
    Refines (m.callAt host depth i args) (m'.callAt host depth i args) := by
  induction depth generalizing i args with
  | zero =>
    unfold callAt
    cases m.functions[i]? with
    | none => exact refines_throw _ _
    | some f => exact refines_throw _ _
  | succ depth ih =>
    rw [callAt, callAt, h.functions i hi]
    cases hf : m.functions[i]? with
    | none => exact refines_throw _ _
    | some f =>
      refine h.refines_enter (fun b hb inst hinst => ⟨?_, ?_⟩) args
      · intro hop id j hid hj args
        exact ih (h.calls i j hi ⟨id, ⟨f, hf, b, hb, inst, hinst, hop, hid⟩, hj⟩) args
      · intro hop id definer hid
        exact h.sets i id definer hi ⟨f, hf, b, hb, inst, hinst, hop, hid⟩

theorem Covers.call_eq_ok {P : Nat → Prop} (h : m.Covers m' P) {i : Nat} (hi : P i)
    {args : List Value} {v : Value} (hcall : m.call host i args = .ok v) :
    m'.call host i args = .ok v := by
  unfold call at hcall ⊢
  rw [if_neg (by omega), Int.toNat_natCast] at hcall ⊢
  cases hrun : (m.callAt host (maxCallDepth + 1) i args).run {} with
  | error e =>
    rw [hrun] at hcall
    cases hcall
  | ok p =>
    rw [hrun] at hcall
    rw [h.refines_callAt _ hi args {} p.1 p.2 hrun]
    exact hcall

theorem functionWithId?_graft {index : Nat} {f : Function} (hf : m.functions[index]? = some f)
    (n : Nat) (a : Additions) (result id : ResultId) :
    (m.graft index f n a result).functionWithId? id = m.functionWithId? id := by
  have hids (m : Module) : m.functionWithId? id =
      (m.functions.map Function.id).findIdx? (· == id) := by
    rw [functionWithId?, List.findIdx?_map]
    rfl
  rw [hids, hids, graft, map_id_set hf]

theorem contains_graft {index : Nat} {f : Function} (hf : m.functions[index]? = some f) (n : Nat)
    (a : Additions) (result : ResultId) : m.Contains (m.graft index f n a result) where
  keeps := .of_globals (List.prefix_append ..)
  globals := by simp [graft]
  functionWithId := functionWithId?_graft hf n a result

end Module

namespace Injector

/-- An injection into one function does not change what another gives that does not reach it, if it
drops no instruction set that is in use there. -/
theorem call_inject_other {inj next : Injector} {index g : Nat} {f : Function} {i : Input}
    {t : HostType} {tree : Tree i t} {input : i.Value} {args : List Value} {v : Value}
    (hm : inj.target.IdWellFormed)
    (hindex : inj.target.functionWithId? inj.functionId = some index)
    (hf : inj.target.functions[index]? = some f) (h : (inj.inject tree input).2 = .ok next)
    (hlimit : inj.target.header.bound.toNat + inj.target.idsTaken next.target index ≤ UInt32.size)
    (hg : ¬ Relation.ReflTransGen inj.target.Calls g index)
    (hsets : ∀ j id, Relation.ReflTransGen inj.target.Calls g j → inj.target.Uses j .extInst id →
      ¬ inj.target.Drops f id)
    (hcall : inj.target.call host g args = .ok v) : next.target.call host g args = .ok v := by
  obtain ⟨index', f', n, a, result, hindex', hf', -, hsub, hnext, -⟩ :=
    changes_inject (Prod.ext rfl h)
  cases hindex.symm.trans hindex'
  cases hf.symm.trans hf'
  have hdistinct := (idsBelow_inject (Prod.ext rfl h) hm hindex hlimit).toIdsDistinct
  rw [hnext] at hdistinct ⊢
  have hcovers : inj.target.Covers (inj.target.graft index f n a result)
      (Relation.ReflTransGen inj.target.Calls g) := by
    refine ⟨Module.contains_graft hf n a result, ?_, ?_, ?_⟩
    · intro j hj
      have hne : index ≠ j := fun heq => hg (heq ▸ hj)
      exact List.getElem?_set_ne hne
    · intro j k hj hcalls
      exact hj.tail hcalls
    · intro j id definer hj huses hdefiner _
      exact Module.definition?_graft hf hsub hdistinct hdefiner (hsets j id hj huses)
  exact hcovers.call_eq_ok .refl hcall

end Injector

/-- A function that gives four, with further instructions behind its end. -/
def Function.four (behind : List Instruction) : Function where
  definition := { opcode := .function, resultType := 2, resultId := 5, operands := [0, 3] }
  blocks := [{ label := { opcode := .label, resultId := 6 }
               body := { opcode := .returnValue, operands := [4] } :: behind }]

/-- A module with that function and, beside it, one that gives the root of four. -/
def Module.rooted (imports behind : List Instruction) : Module where
  header := { version := ⟨1, 3⟩, bound := 10 }
  imports
  names := [{ opcode := .name, operands := 5 :: Literal.encode (utf8 "f") }]
  globals := [
    { opcode := .typeFloat, resultId := 2, operands := [32] },
    { opcode := .typeFunction, resultId := 3, operands := [2] },
    { opcode := .constant, resultType := 2, resultId := 4, operands := [0x40800000] }]
  functions := [.four behind,
    { definition := { opcode := .function, resultType := 2, resultId := 7, operands := [0, 3] }
      blocks := [{ label := { opcode := .label, resultId := 8 }
                   body := [
                    { opcode := .extInst, resultType := 2, resultId := 9, operands := [1, 31, 4] },
                    { opcode := .returnValue, operands := [9] }] }] }]

/-- The module with one for the body of the first function. -/
def Module.rootedOne (imports behind : List Instruction) : Module := { rooted imports behind with
  header := { version := ⟨1, 3⟩, bound := 12 }
  globals := (rooted imports behind).globals ++ [
    { opcode := .constant, resultType := 2, resultId := 11, operands := [0x3f800000] }]
  functions := (rooted imports behind).functions.set 0 { Function.four behind with
    blocks := [{ label := { opcode := .label, resultId := 10 }
                 body := [{ opcode := .returnValue, operands := [11] }] }] } }

def Instruction.standardImport : Instruction :=
  { opcode := .extInstImport, resultId := 1, operands := Literal.encode standardSet }

theorem Module.call_rooted (host : Host) (imports behind : List Instruction)
    (hset : (rooted imports behind).definition? 1 = some .standardImport) :
    ∃ v, (rooted imports behind).call host 1 [] = .ok v := by
  let m := rooted imports behind
  let four : Float32 := .ofBits 0x40800000
  let root : Instruction :=
    { opcode := .extInst, resultType := 2, resultId := 9, operands := [1, 31, 4] }
  have hfour : m.FloatConstant 4 four := ⟨_, rfl, rfl, rfl⟩
  have hlocal : Frame.Local m {} := fun id _ _ => IdMap.get?_empty id
  have hroot : Eval.Yields m (m.result host (m.callAt host maxCallDepth) {} root)
      (.floatVector [host.sqrt four]) :=
    yields_extended hlocal hset rfl decode_encode_standardSet
      (.cons (.constant (.float hfour)) .nil) rfl
  have hleads := (leads_nil m host (m.callAt host maxCallDepth) {}).snoc
    (by simp [Opcode.Computes, root]) (by decide) hroot (by decide)
  have hlocal' :
      Frame.Local m { values := IdMap.insert .empty 9 (.floatVector [host.sqrt four]) } := by
    intro id inst hinst
    have hne : 9 ≠ id := by
      rintro rfl
      cases hinst
    simp [hne]
  have hget : (IdMap.insert .empty 9 (.floatVector [host.sqrt four])).get? 9 =
      some (Value.floatVector [host.sqrt four]) := by simp
  exact ⟨_, call_eq_ok rfl rfl rfl rfl hleads hlocal' (.value hget) (by decide)⟩

theorem Module.uses_rooted {imports behind : List Instruction} {op : Opcode} {id : ResultId}
    (h : (rooted imports behind).Uses 1 op id) : op = .extInst ∧ id = 1 ∨ op = .returnValue := by
  obtain ⟨f, hf, b, hb, inst, hinst, hop, hid⟩ := h
  cases hf
  cases List.mem_singleton.1 hb
  simp only [List.mem_cons, List.not_mem_nil, or_false] at hinst
  rcases hinst with rfl | rfl
  · cases hid
    exact .inl ⟨hop.symm, rfl⟩
  · exact .inr hop.symm

theorem Module.eq_one_of_reaches_rooted {imports behind : List Instruction} {j : Nat}
    (h : Relation.ReflTransGen (rooted imports behind).Calls 1 j) : j = 1 := by
  rcases h.cases_head with rfl | ⟨k, ⟨id, huses, -⟩, -⟩
  · rfl
  · rcases uses_rooted huses with ⟨hop, -⟩ | hop <;> cases hop

namespace Injector

/-- The injector for the function that gives four. -/
def rooted (imports behind : List Instruction) : Injector where
  target := .rooted imports behind
  interface := { function := 0, parameters := [] }
  functionId := 5
  name := utf8 "f"
  instructionSet := []

/-- After one was injected. -/
def rootedOne (imports behind : List Instruction) : Injector :=
  (rooted imports behind).commit (.rootedOne imports behind)

theorem call_inject_other_root :
    (Module.rooted [.standardImport] []).IdWellFormed ∧
      ((rooted [.standardImport] []).inject Tree.one ()).2 = .ok (rootedOne [.standardImport] []) ∧
      ∃ v, (Module.rooted [.standardImport] []).call .native 1 [] = .ok v ∧
        (Module.rootedOne [.standardImport] []).call .native 1 [] = .ok v := by
  have hm : (Module.rooted [.standardImport] []).IdWellFormed := by decide +kernel
  have hinject : ((rooted [.standardImport] []).inject Tree.one ()).2 =
      .ok (rootedOne [.standardImport] []) := inject_eq_commit (by decide +kernel)
  obtain ⟨v, hcall⟩ := Module.call_rooted .native [.standardImport] [] rfl
  refine ⟨hm, hinject, v, hcall, ?_⟩
  refine call_inject_other hm rfl rfl hinject (by decide +kernel) ?_ ?_ hcall
  · intro h
    cases Module.eq_one_of_reaches_rooted h
  · intro j id hj huses
    cases Module.eq_one_of_reaches_rooted hj
    rcases Module.uses_rooted huses with ⟨-, rfl⟩ | hop
    · decide +kernel
    · cases hop

/-- An import that stands in a block is gone with the block. -/
theorem call_inject_other_stray :
    (Module.rooted [] [.standardImport]).IdWellFormed ∧
      (create (.rooted [] [.standardImport]) (utf8 "f")).2 = .ok (rooted [] [.standardImport]) ∧
      ((rooted [] [.standardImport]).inject Tree.one ()).2 = .ok (rootedOne [] [.standardImport]) ∧
      ¬ Relation.ReflTransGen (Module.rooted [] [.standardImport]).Calls 1 0 ∧
      ∃ v, (Module.rooted [] [.standardImport]).call .native 1 [] = .ok v ∧
        (Module.rootedOne [] [.standardImport]).call .native 1 [] ≠ .ok v := by
  obtain ⟨v, hcall⟩ := Module.call_rooted .native [] [.standardImport] rfl
  have hafter : ((Module.rootedOne [] [.standardImport]).call .native 1 []).isOk = false := by
    decide +kernel
  refine ⟨by decide +kernel, rfl, inject_eq_commit (by decide +kernel), ?_, v, hcall, fun h => ?_⟩
  · intro h
    cases Module.eq_one_of_reaches_rooted h
  · rw [h] at hafter
    cases hafter

end Injector

end ShaderGraft
