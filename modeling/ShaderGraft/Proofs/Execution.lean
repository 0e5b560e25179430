import Mathlib.Data.List.Forall2
import ShaderGraft.Evaluator.Run
import ShaderGraft.Proofs.Meaning

/-!
# Running straight-line code

What one instruction of a compiled tree does to the frame of a run. Floats and vectors of floats are
either in the frame or constants of the module (`Frame.Holds`); the constants that a run has
remembered are right (`Machine.Valid`), so looking a value up gives the same whether it was
remembered or not.
-/

namespace ShaderGraft

variable {host : Host}

namespace Module

/-- A declared float. -/
def FloatConstant (m : Module) (id : ResultId) (x : Float32) : Prop :=
  ∃ inst, m.global? id = some inst ∧ inst.opcode = .constant ∧
    m.constantValue inst = .ok (.float x)

/-- A declared float or vector of up to four floats. -/
inductive Constant (m : Module) : ResultId → List Float32 → Prop where
  | float {id : ResultId} {x : Float32} : m.FloatConstant id x → m.Constant id [x]
  | vector {id : ResultId} {xs : List Float32} {inst type : Instruction} :
    m.global? id = some inst → inst.opcode = .constantComposite →
      m.global? inst.resultType = some type → type.opcode = .typeVector →
      List.Forall₂ m.FloatConstant inst.operands xs → xs.length ≤ 4 → m.Constant id xs

theorem FloatConstant.unique {m : Module} {id : ResultId} {x y : Float32}
    (hx : m.FloatConstant id x) (hy : m.FloatConstant id y) : x = y := by
  obtain ⟨inst, hinst, -, hx⟩ := hx
  obtain ⟨inst', hinst', -, hy⟩ := hy
  cases hinst.symm.trans hinst'
  have hv : Value.float x = Value.float y := Except.ok.inj (hx.symm.trans hy)
  simpa [Value.float] using hv

theorem Constant.unique {m : Module} {id : ResultId} {xs ys : List Float32}
    (hx : m.Constant id xs) (hy : m.Constant id ys) : xs = ys := by
  cases hx with
  | float hx =>
    cases hy with
    | float hy => rw [hx.unique hy]
    | vector hinst hop _ _ _ _ =>
      obtain ⟨inst', hinst', hop', -⟩ := hx
      cases hinst.symm.trans hinst'
      cases hop.symm.trans hop'
  | vector hinst hop _ _ hparts _ =>
    cases hy with
    | float hy =>
      obtain ⟨inst', hinst', hop', -⟩ := hy
      cases hinst.symm.trans hinst'
      cases hop.symm.trans hop'
    | vector hinst' _ _ _ hparts' _ =>
      cases hinst.symm.trans hinst'
      exact List.right_unique_forall₂' (fun _ _ _ hx hy => hx.unique hy) hparts hparts'

end Module

/-- Whether the constants that a run has remembered are right. -/
def Machine.Valid (m : Module) (s : Machine) : Prop :=
  ∀ id v xs, s.constants.get? id = some v → m.Constant id xs → v = .floatVector xs

theorem Machine.valid_empty (m : Module) : Machine.Valid m {} := by
  intro id v xs h
  simp at h

theorem Machine.Valid.insert {m : Module} {s : Machine} (h : s.Valid m) {id : ResultId}
    {xs : List Float32} (hconstant : m.Constant id xs) :
    Machine.Valid m { s with constants := s.constants.insert id (.floatVector xs) } := by
  intro id' v ys hget hys
  simp only [IdMap.get?_insert] at hget
  split at hget
  · rename_i heq
    subst heq
    cases hget
    rw [hconstant.unique hys]
  · exact h id' v ys hget hys

theorem Value.zipFloats_eq {f : Float32 → Float32 → Float32} {xs ys : List Float32}
    (hlength : xs.length = ys.length) (hxs : xs ≠ []) :
    (floatVector xs).zipFloats host f (floatVector ys) =
      .ok (floatVector (List.zipWith f xs ys)) := by
  simp [zipFloats, zipFloats?, floatVector, hlength, hxs]

/-! ### Parts of a run that give a value -/

namespace Eval

/-- Whether a part of a run gives a value, whatever was remembered before. It begins no
instruction. -/
def Yields {α : Type} (m : Module) (x : Eval α) (a : α) : Prop :=
  ∀ s : Machine, s.Valid m → ∃ s' : Machine, x.run s = .ok (a, s') ∧ s'.Valid m ∧ s'.steps = s.steps

theorem run_bind_ok {α β : Type} {x : Eval α} {f : α → Eval β} {s s' : Machine} {a : α}
    (h : x.run s = .ok (a, s')) : (x >>= f).run s = (f a).run s' := by
  rw [StateT.run_bind, h]
  rfl

theorem yields_pure {α : Type} (m : Module) (a : α) : Yields m (pure a) a :=
  fun s hs => ⟨s, rfl, hs, rfl⟩

theorem Yields.bind {α β : Type} {m : Module} {x : Eval α} {f : α → Eval β} {a : α} {b : β}
    (hx : Yields m x a) (hf : Yields m (f a) b) : Yields m (x >>= f) b := by
  intro s hs
  obtain ⟨s₁, hrun₁, hs₁, hsteps₁⟩ := hx s hs
  obtain ⟨s₂, hrun₂, hs₂, hsteps₂⟩ := hf s₁ hs₁
  exact ⟨s₂, (run_bind_ok hrun₁).trans hrun₂, hs₂, hsteps₂.trans hsteps₁⟩

theorem yields_operand {ops : List Word} {i : Nat} {w : Word} (m : Module) (h : ops[i]? = some w) :
    Yields m (operand ops i) w := by
  rw [operand, h]
  exact yields_pure m w

theorem yields_lift {α : Type} {x : Except Stop α} {a : α} (m : Module) (h : x = .ok a) :
    Yields m (lift x) a := by
  rw [h]
  exact yields_pure m a

theorem Yields.mapM {α β : Type} {m : Module} {f : α → Eval β} {as : List α} {bs : List β}
    (h : List.Forall₂ (fun a b => Yields m (f a) b) as bs) : Yields m (as.mapM f) bs := by
  induction h with
  | nil => exact yields_pure m []
  | cons hab _ ih =>
    rw [List.mapM_cons]
    exact hab.bind (ih.bind (yields_pure m _))

end Eval

/-! ### Looking values up -/

namespace Frame

/-- Whether no declaration is hidden by a value of the frame. -/
def Local (m : Module) (frame : Frame) : Prop :=
  ∀ id inst, m.global? id = some inst → frame.values.get? id = none

/-- Whether an id stands for a float or a vector of floats in a frame. -/
inductive Holds (m : Module) (frame : Frame) : ResultId → List Float32 → Prop where
  | value {id : ResultId} {xs : List Float32} :
    frame.values.get? id = some (.floatVector xs) → Holds m frame id xs
  | constant {id : ResultId} {xs : List Float32} : m.Constant id xs → Holds m frame id xs

end Frame

namespace Module

open Eval

variable {m : Module} {frame : Frame}

/-- A constant is taken as remembered, or computed and remembered. -/
theorem yields_valueOf {id : ResultId} {xs : List Float32} {inst : Instruction} {fuel : Nat}
    {compute : Eval Value} (hlocal : frame.Local m) (hinst : m.global? id = some inst)
    (hconstant : m.Constant id xs) (hcompute : Yields m compute (.floatVector xs))
    (hvalueOf : ∀ s : Machine, s.constants.get? id = none →
      (m.valueOf host frame (fuel + 1) id).run s = (do
        let v ← compute
        modify fun s => { s with constants := s.constants.insert id v }
        return v : Eval Value).run s) :
    Yields m (m.valueOf host frame (fuel + 1) id) (.floatVector xs) := by
  intro s hs
  cases hget : s.constants.get? id with
  | some v =>
    refine ⟨s, ?_, hs, rfl⟩
    rw [valueOf, hlocal id inst hinst]
    simp only [pure_bind, StateT.run_bind, StateT.run_get, hget, hs id v xs hget hconstant]
    rfl
  | none =>
    obtain ⟨s₁, hrun, hs₁, hsteps⟩ := hcompute s hs
    refine ⟨{ s₁ with constants := s₁.constants.insert id (.floatVector xs) }, ?_,
      hs₁.insert hconstant, hsteps⟩
    rw [hvalueOf s hget, run_bind_ok hrun]
    rfl

theorem yields_valueOf_float (hlocal : frame.Local m) {id : ResultId} {x : Float32}
    (h : m.FloatConstant id x) (fuel : Nat) :
    Yields m (m.valueOf host frame (fuel + 1) id) (.floatVector [x]) := by
  have hconstant := Constant.float h
  obtain ⟨inst, hinst, hop, hvalue⟩ := h
  refine yields_valueOf hlocal hinst hconstant (yields_pure m _) fun s hget => ?_
  rw [valueOf, hlocal id inst hinst]
  simp only [hinst, hop, hvalue, pure_bind, StateT.run_bind, StateT.run_get, hget]
  rfl

theorem yields_valueOf_constant (hlocal : frame.Local m) {id : ResultId} {xs : List Float32}
    (h : m.Constant id xs) (fuel : Nat) :
    Yields m (m.valueOf host frame (fuel + 2) id) (.floatVector xs) := by
  have hconstant := h
  cases h with
  | float h => exact yields_valueOf_float hlocal h (fuel + 1)
  | @vector _ inst type hinst hop htype hvector hparts hsize =>
    have hparts : Yields m (inst.operands.mapM (m.valueOf host frame (fuel + 1)))
        (xs.map fun x => .floatVector [x]) :=
      Yields.mapM (List.forall₂_map_right_iff.2
        (hparts.imp fun _ _ hpart => yields_valueOf_float hlocal hpart fuel))
    have hcomposite : compositeValue host type (xs.map fun x => .floatVector [x]) =
        .ok (.floatVector xs) := by
      have hscalars : (xs.map fun x => Value.floatVector [x]).find? (·.members.isSome) = none := by
        simp [Value.floatVector]
      simp only [compositeValue, hvector, if_true, hscalars]
      simp [Host.build, Value.width, Value.floatVector, List.flatMap_map, hsize]
    have hcompute : Yields m (do
        let parts ← inst.operands.mapM (m.valueOf host frame (fuel + 1))
        lift (compositeValue host type parts)) (.floatVector xs) :=
      hparts.bind (yields_lift m hcomposite)
    refine yields_valueOf hlocal hinst hconstant hcompute fun s hget => ?_
    rw [valueOf, hlocal id inst hinst]
    simp only [hinst, hop, htype, pure_bind, StateT.run_bind, StateT.run_get, hget]
    rw [bind_assoc]

theorem length_globals_pos {id : ResultId} {xs : List Float32} (h : m.Constant id xs) :
    0 < m.globals.length := by
  have hmem {inst : Instruction} (hinst : m.global? id = some inst) : 0 < m.globals.length := by
    rw [global?] at hinst
    split at hinst
    · cases hinst
    · exact List.length_pos_of_mem (List.mem_of_find?_eq_some hinst)
  cases h with
  | float h =>
    obtain ⟨inst, hinst, -⟩ := h
    exact hmem hinst
  | vector hinst => exact hmem hinst

theorem yields_value_of_get? {id : ResultId} {v : Value} (h : frame.values.get? id = some v) :
    Yields m (m.value host frame id) v := by
  rw [value, valueOf, h]
  exact yields_pure m v

/-- What an id holds is what the evaluator finds. -/
theorem yields_value (hlocal : frame.Local m) {id : ResultId} {xs : List Float32}
    (h : frame.Holds m id xs) : Yields m (m.value host frame id) (.floatVector xs) := by
  cases h with
  | value h => exact yields_value_of_get? h
  | constant h =>
    obtain ⟨fuel, hfuel⟩ := Nat.exists_eq_add_of_lt (length_globals_pos h)
    rw [value, hfuel]
    exact yields_valueOf_constant hlocal h _

theorem yields_valuesOf (hlocal : frame.Local m) {ids : List ResultId} {xss : List (List Float32)}
    (h : List.Forall₂ (frame.Holds m) ids xss) :
    Yields m (m.valuesOf host frame ids) (xss.map .floatVector) :=
  Yields.mapM (List.forall₂_map_right_iff.2 (h.imp fun _ _ hid => yields_value hlocal hid))

/-! ### Instructions that have a value -/

theorem yields_arithmetic (hlocal : frame.Local m) {f : Float32 → Float32 → Float32}
    {a b : ResultId} {xs ys : List Float32} (ha : frame.Holds m a xs) (hb : frame.Holds m b ys)
    (hlength : xs.length = ys.length) (hxs : xs ≠ []) :
    Yields m (m.arithmetic host frame f [a, b]) (.floatVector (List.zipWith f xs ys)) := by
  refine (yields_operand m rfl).bind ((yields_value hlocal ha).bind ?_)
  exact (yields_operand m rfl).bind ((yields_value hlocal hb).bind
    (yields_lift m (Value.zipFloats_eq hlength hxs)))

/-- A function of the standard set, which must be imported. -/
theorem yields_extended (hlocal : frame.Local m) {set : ResultId} {n : Word} {id : ResultId}
    {ids : List ResultId} {xss : List (List Float32)} {v : Value} {imported : Instruction}
    (hset : m.definition? set = some imported) (hop : imported.opcode = .extInstImport)
    (hname : (Literal.decode imported.operands).1 = standardSet)
    (hargs : List.Forall₂ (frame.Holds m) (id :: ids) xss)
    (hvalue : standardValue host n (xss.map .floatVector) = .ok v) :
    Yields m (m.extended host frame (set :: n :: id :: ids)) v := by
  simp only [extended, hset, hop, hname, ne_eq, not_true_eq_false, if_false]
  exact (yields_valuesOf hlocal hargs).bind (yields_lift m hvalue)

theorem yields_compositeExtract {callee : Callee} {inst : Instruction}
    {a : ResultId} {indices : List Word} {v w : Value} (hop : inst.opcode = .compositeExtract)
    (hops : inst.operands = a :: indices) (hv : Yields m (m.value host frame a) v)
    (hw : v.extract host indices = .ok w) : Yields m (m.result host callee frame inst) w := by
  obtain ⟨op, type, id, ops⟩ := inst
  cases hop
  cases hops
  exact (yields_operand m rfl).bind (hv.bind (yields_lift m hw))

end Module

/-! ### Running a body -/

/-- The opcodes whose instructions only put a value into the frame. -/
def Opcode.Computes (op : Opcode) : Prop :=
  op ∈ [.fAdd, .fSub, .fMul, .fDiv, .extInst, .compositeExtract]

namespace Module

open Eval

variable {m : Module} {callee : Callee} {frame : Frame}

theorem step_eq {inst : Instruction} (hop : inst.opcode.Computes) (hid : inst.resultId ≠ 0) :
    m.step host callee frame inst = (do
      Eval.countStep
      let v ← m.result host callee frame inst
      return .continue { frame with values := frame.values.insert inst.resultId v }) := by
  obtain ⟨op, type, id, ops⟩ := inst
  change id ≠ 0 at hid
  simp only [Opcode.Computes, List.mem_cons, List.not_mem_nil, or_false] at hop
  rcases hop with rfl | rfl | rfl | rfl | rfl | rfl <;>
    (simp only [step, if_neg hid]; rfl)

theorem run_countStep {s : Machine} (h : s.steps < maxSteps) :
    countStep.run s = .ok ((), { s with steps := s.steps + 1 }) := by
  have hlimit : ¬ s.steps + 1 > maxSteps := by omega
  simp only [countStep, StateT.run_bind, StateT.run_get, StateT.run_modify, pure_bind,
    if_neg hlimit]
  rfl

/-- An instruction that computes a value puts it into the frame. -/
theorem run_step {inst : Instruction} {v : Value} (hop : inst.opcode.Computes)
    (hid : inst.resultId ≠ 0) (hresult : Yields m (m.result host callee frame inst) v) {s : Machine}
    (hs : s.Valid m) (hsteps : s.steps < maxSteps) :
    ∃ s' : Machine, (m.step host callee frame inst).run s =
      .ok (.continue { frame with values := frame.values.insert inst.resultId v }, s') ∧
      s'.Valid m ∧ s'.steps = s.steps + 1 := by
  obtain ⟨s', hrun, hs', hsteps'⟩ := hresult { s with steps := s.steps + 1 } hs
  refine ⟨s', ?_, hs', hsteps'⟩
  rw [step_eq hop hid, run_bind_ok (run_countStep hsteps), run_bind_ok hrun]
  rfl

/-- Whether running `body` at the start of a run leads to a frame. -/
def Leads (m : Module) (host : Host) (callee : Callee) (start : Frame) (body : List Instruction)
    (frame : Frame) : Prop :=
  ∃ s : Machine, s.Valid m ∧ s.steps = body.length ∧
    ∀ rest, (m.runBody host callee start (body ++ rest)).run {} =
      (m.runBody host callee frame rest).run s

theorem leads_nil (m : Module) (host : Host) (callee : Callee) (start : Frame) :
    m.Leads host callee start [] start :=
  ⟨{}, Machine.valid_empty m, rfl, fun _ => rfl⟩

theorem Leads.snoc {start : Frame} {body : List Instruction} {inst : Instruction} {v : Value}
    (h : m.Leads host callee start body frame) (hop : inst.opcode.Computes)
    (hid : inst.resultId ≠ 0) (hresult : Yields m (m.result host callee frame inst) v)
    (hsteps : body.length < maxSteps) :
    m.Leads host callee start (body ++ [inst])
      { frame with values := frame.values.insert inst.resultId v } := by
  obtain ⟨s, hs, hcount, hrun⟩ := h
  obtain ⟨s', hstep, hs', hcount'⟩ := run_step hop hid hresult hs (hcount ▸ hsteps)
  refine ⟨s', hs', by simp [hcount', hcount], fun rest => ?_⟩
  rw [List.append_assoc, hrun, List.singleton_append, runBody, run_bind_ok hstep]

/-- A body that leads to a frame and then returns an id gives what the id holds. -/
theorem Leads.run_return {start : Frame} {body : List Instruction} {id : ResultId}
    {xs : List Float32} (h : m.Leads host callee start body frame) (hlocal : frame.Local m)
    (hid : frame.Holds m id xs) (hsteps : body.length < maxSteps) :
    ∃ s, (m.runBody host callee start
      (body ++ [{ opcode := .returnValue, operands := [id] }])).run {} =
        .ok ((frame, .return (.floatVector xs)), s) := by
  obtain ⟨s, hs, hcount, hrun⟩ := h
  have hlimit : s.steps < maxSteps := hcount ▸ hsteps
  obtain ⟨s', hvalue, -⟩ := yields_value hlocal hid { s with steps := s.steps + 1 } hs
  refine ⟨s', ?_⟩
  have hstep : (m.step host callee frame { opcode := .returnValue, operands := [id] }).run s =
      .ok (.leave (.return (.floatVector xs)), s') := by
    rw [step, run_bind_ok (run_countStep hlimit)]
    change (m.value host frame id >>= fun v => pure (.leave (.return v)) : Eval Effect).run _ = _
    rw [run_bind_ok hvalue]
    rfl
  rw [hrun, runBody, run_bind_ok hstep]
  rfl

/-- A call of a function with one block. -/
theorem call_eq_ok {index : Nat} {f : Function} {block : Block} {args : List Value}
    {body : List Instruction} {id : ResultId} {xs : List Float32}
    (hf : m.functions[index]? = some f) (hblocks : f.blocks = [block])
    (hbody : block.body = body ++ [{ opcode := .returnValue, operands := [id] }])
    (hargs : args.length = f.parameters.length)
    (h : m.Leads host (m.callAt host maxCallDepth) (startFrame f args) body frame)
    (hlocal : frame.Local m) (hid : frame.Holds m id xs) (hsteps : body.length < maxSteps) :
    m.call host index args = .ok (.floatVector xs) := by
  obtain ⟨s, hrun⟩ := h.run_return hlocal hid hsteps
  have hblock : (inBlock f.id block.label.resultId
      (m.runBody host (m.callAt host maxCallDepth) (startFrame f args) block.body)).run {} =
      .ok ((frame, .return (.floatVector xs)), s) := by
    simp only [StateT.run] at hrun
    simp only [inBlock, StateT.run, hbody, hrun]
  have hcall : (m.callAt host (maxCallDepth + 1) index args).run {} = .ok (.floatVector xs, s) := by
    rw [callAt, hf]
    simp only [enter, hargs, hblocks, ne_eq, not_true_eq_false, if_false]
    rw [runBlocks, run_bind_ok hblock]
    rfl
  rw [call, if_neg (by omega), Int.toNat_natCast, hcall]
  rfl

end Module

end ShaderGraft
