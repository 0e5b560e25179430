import ShaderGraft.Evaluator.Stack
import ShaderGraft.Proofs.Execution

/-!
# Properties of runs from properties of lookups

All that running an instruction does is to look values up, to call, to stop, and to change the
frame. `Eval.Logic` lists what a property of parts of runs has to be closed under for this to go
through, and then the property holds of instructions, bodies and functions whenever it holds of the
lookups and of the calls that are made (`Eval.Logic.enter`). The properties compare two runs, which
may differ in their callees; a property of one run does not look at the second.
-/

namespace ShaderGraft

variable {host : Host}

/-- What holds of the frame that an instruction goes on with. -/
def Effect.Keeps (frames : Frame → Prop) : Effect → Prop
  | .continue frame => frames frame
  | .leave _ => True

/-- The number of operands that an instruction must have because they are looked at in any case. -/
def Opcode.operandsRead : Opcode → Nat
  | .branch | .returnValue | .load | .fNegate | .functionCall | .compositeExtract => 1
  | .store | .fAdd | .fSub | .fMul | .fDiv => 2
  | _ => 0

theorem Opcode.operandsRead_of_arithmetic? {op : Opcode} {f : Float32 → Float32 → Float32}
    (h : op.arithmetic? = some f) : op.operandsRead = 2 := by
  unfold arithmetic? at h
  split at h
  case h_5 => cases h
  all_goals rfl

/-- Whether an instruction has the operands that are looked at in any case. -/
def Instruction.Complete (inst : Instruction) : Prop :=
  inst.opcode.operandsRead ≤ inst.operands.length

instance (inst : Instruction) : Decidable inst.Complete :=
  inferInstanceAs (Decidable (_ ≤ _))

/-- Whether an instruction can be run in frames of one kind: its result leads to another one of the
kind, and it has its operands unless it may stop without them. -/
structure Instruction.Fits (inst : Instruction) (frames : Frame → Prop) (stops : Stop → Prop) :
    Prop where
  define : ∀ frame v, frames frame → frames (frame.define inst.resultId v)
  complete : inst.Complete ∨ stops .tooFewOperands

/-- Whether the machine has no room: for the components of a value, or for the text of an error. -/
def Stop.OutOfMemory (host : Host) : Stop → Prop
  | .tooLarge components => 4 < components ∧ host.room < components
  | .tooLong characters => host.textRoom < characters
  | .error _ | .tooFewOperands | .endless => False

/-- Whether a run has stopped with an error, or because the machine has no room. -/
def Stop.Regular (host : Host) (stop : Stop) : Prop :=
  (∃ cause, stop = .error cause) ∨ stop.OutOfMemory host

/-! ### How pure steps stop -/

theorem Stop.regular_error (cause : EvalError) : (Stop.error cause).Regular host :=
  .inl ⟨cause, rfl⟩

theorem Host.regular_refuse (host : Host) (cause : EvalError) :
    (host.refuse cause).Regular host := by
  unfold refuse
  split
  · exact Stop.regular_error cause
  · rename_i htext
    exact .inr (Nat.lt_of_not_le htext)

theorem Host.regular_build {v : Value} {stop : Stop} (h : host.build v = .error stop) :
    stop.Regular host := by
  unfold build at h
  split at h
  · cases h
  · rename_i hroom
    cases h
    obtain ⟨hfew, hroom⟩ := not_or.1 hroom
    exact .inr ⟨Nat.lt_of_not_le hfew, Nat.lt_of_not_le hroom⟩

theorem Module.regular_compositeValue {type : Instruction} {parts : List Value} {stop : Stop}
    (h : compositeValue host type parts = .error stop) : stop.Regular host := by
  unfold compositeValue at h
  split at h
  · split at h
    · cases h
      exact host.regular_refuse _
    · exact Host.regular_build h
  · exact Host.regular_build h

namespace Value

theorem regular_extract {v : Value} {indices : List Word} {stop : Stop}
    (h : v.extract host indices = .error stop) : stop.Regular host := by
  induction indices generalizing v with
  | nil => cases h
  | cons i rest ih =>
    rw [extract] at h
    split at h
    · cases h
      exact host.regular_refuse _
    · exact ih h

theorem regular_zipFloats {f : Float32 → Float32 → Float32} {a b : Value} {stop : Stop}
    (h : a.zipFloats host f b = .error stop) : stop.Regular host := by
  unfold zipFloats at h
  split at h
  · cases h
  · cases h
    exact host.regular_refuse _

end Value

theorem regular_standardValue {n : Word} {args : List Value} {stop : Stop}
    (h : standardValue host n args = .error stop) : stop.Regular host := by
  unfold standardValue at h
  split at h
  · cases h
  · cases h
    exact Stop.regular_error _
  · split at h
    · exact Value.regular_zipFloats h
    · exact Value.regular_zipFloats h
    · split at h
      · cases h
      · cases h
        exact Stop.regular_error _
    all_goals
      cases h
      exact Stop.regular_error _

namespace Module

/-- A call is requested, then made. -/
theorem callById_eq (m : Module) (host : Host) (callee : Callee) (frame : Frame) (ops : List Word) :
    m.callById host callee frame ops =
      m.request host frame ops >>= fun call => callee call.1 call.2 := by
  unfold callById request
  rw [bind_assoc]
  refine bind_congr fun id => ?_
  cases m.functionWithId? id with
  | none => rfl
  | some index => simp

end Module

namespace Eval

/-- What a property of parts of runs is closed under: giving a value, one part after the other,
stopping for a reason of the given kind, looking values up in a frame of the given kind. -/
structure Logic (m : Module) (host : Host) (frames : Frame → Prop) (stops : Stop → Prop)
    (P : {α : Type} → (α → Prop) → Eval α → Eval α → Prop) : Prop where
  pure {α : Type} {post : α → Prop} {a : α} : post a → P post (pure a) (pure a)
  bind {α β : Type} {mid : α → Prop} {post : β → Prop} {x y : Eval α} {f g : α → Eval β} :
    P mid x y → (∀ a, mid a → P post (f a) (g a)) → P post (x >>= f) (y >>= g)
  throw {α : Type} {post : α → Prop} {stop : Stop} : stops stop → P post (throw stop) (throw stop)
  inBlock {α : Type} {post : α → Prop} {x y : Eval α} (function block : ResultId) :
    P post x y → P post (inBlock function block x) (inBlock function block y)
  value {frame : Frame} (id : ResultId) : frames frame →
    P (fun _ => True) (m.value host frame id) (m.value host frame id)
  allows {stop : Stop} : stop.Regular host → stops stop
  remember {frame : Frame} (memory : IdMap Value) : frames frame → frames { frame with memory }

namespace Logic

variable {m : Module} {frames : Frame → Prop} {stops : Stop → Prop}
  {P : {α : Type} → (α → Prop) → Eval α → Eval α → Prop}
  (h : Logic m host frames stops P)

include h

theorem fail {α : Type} {post : α → Prop} (cause : EvalError) :
    P post (fail cause) (fail cause) :=
  h.throw (h.allows (Stop.regular_error cause))

theorem fail_bind {α β : Type} {post : β → Prop} {cause : EvalError} {f g : α → Eval β} :
    P post (Eval.fail cause >>= f) (Eval.fail cause >>= g) :=
  h.bind (h.fail cause : P (fun _ => False) _ _) fun _ hfalse => hfalse.elim

theorem operand {ops : List Word} {i : Nat} (hi : i < ops.length ∨ stops .tooFewOperands) :
    P (fun _ => True) (operand ops i) (operand ops i) := by
  unfold Eval.operand
  cases hw : ops[i]? with
  | some w => exact h.pure trivial
  | none =>
    have hlength := List.getElem?_eq_none_iff.1 hw
    exact h.throw (hi.resolve_left (by omega))

theorem lift {α : Type} {x : Except Stop α} (hx : ∀ stop, x = .error stop → stop.Regular host) :
    P (fun _ => True) (lift x) (lift x) := by
  cases x with
  | ok a => exact h.pure trivial
  | error stop => exact h.throw (h.allows (hx stop rfl))

theorem mapM {α β : Type} {f g : α → Eval β} (hf : ∀ a, P (fun _ => True) (f a) (g a))
    (as : List α) : P (fun _ => True) (as.mapM f) (as.mapM g) := by
  induction as with
  | nil => exact h.pure trivial
  | cons a as ih =>
    rw [List.mapM_cons, List.mapM_cons]
    exact h.bind (hf a) fun _ _ => h.bind ih fun _ _ => h.pure trivial

/-! ### Instructions -/

variable {frame : Frame} (hframe : frames frame)

include hframe

theorem valuesOf (ids : List ResultId) :
    P (fun _ => True) (m.valuesOf host frame ids) (m.valuesOf host frame ids) :=
  h.mapM (fun id => h.value id hframe) ids

theorem construct (inst : Instruction) :
    P (fun _ => True) (m.construct host frame inst) (m.construct host frame inst) := by
  unfold Module.construct
  split
  · exact h.fail _
  · exact h.bind (h.valuesOf hframe _) fun _ _ => h.lift fun _ => Module.regular_compositeValue

theorem request {ops : List Word} (hops : 0 < ops.length ∨ stops .tooFewOperands) :
    P (fun _ => True) (m.request host frame ops) (m.request host frame ops) := by
  unfold Module.request
  refine h.bind (h.operand hops) fun id _ => ?_
  split
  · exact h.fail _
  · exact h.bind (h.valuesOf hframe _) fun _ _ => h.pure trivial

theorem arithmetic (f : Float32 → Float32 → Float32) {ops : List Word}
    (hops : 2 ≤ ops.length ∨ stops .tooFewOperands) :
    P (fun _ => True) (m.arithmetic host frame f ops) (m.arithmetic host frame f ops) := by
  unfold Module.arithmetic
  refine h.bind (h.operand (hops.imp_left (by omega))) fun a _ => h.bind (h.value a hframe) ?_
  refine fun _ _ => h.bind (h.operand (hops.imp_left (by omega))) fun b _ => ?_
  exact h.bind (h.value b hframe) fun _ _ => h.lift fun _ => Value.regular_zipFloats

theorem extended (ops : List Word) :
    P (fun _ => True) (m.extended host frame ops) (m.extended host frame ops) := by
  unfold Module.extended
  split
  · split
    · exact h.fail _
    · simp only
      split
      · exact h.fail_bind
      split
      · exact h.fail_bind
      · exact h.bind (h.valuesOf hframe _) fun _ _ => h.lift fun _ => regular_standardValue
  · exact h.fail _

variable (callee callee' : Callee) (inst : Instruction)
  (hcallee : inst.opcode = .functionCall →
    ∀ index args, P (fun _ => True) (callee index args) (callee' index args))
  (hinst : inst.Complete ∨ stops .tooFewOperands)

include hcallee hinst

theorem result :
    P (fun _ => True) (m.result host callee frame inst) (m.result host callee' frame inst) := by
  obtain ⟨op, type, id, ops⟩ := inst
  have hops {n : Nat} (hn : op.operandsRead = n) : n ≤ ops.length ∨ stops .tooFewOperands :=
    hn ▸ hinst
  unfold Module.result
  split
  case h_1 hop =>
    cases hop
    refine h.bind (h.operand (hops rfl)) fun pointer _ => ?_
    split
    · exact h.pure trivial
    · exact h.fail _
  case h_2 hop =>
    cases hop
    rw [Module.callById_eq, Module.callById_eq]
    exact h.bind (h.request hframe (hops rfl)) fun call _ => hcallee rfl call.1 call.2
  case h_3 => exact h.construct hframe _
  case h_4 hop =>
    cases hop
    refine h.bind (h.operand (hops rfl)) fun a _ => h.bind (h.value a hframe) fun _ _ => ?_
    exact h.lift fun _ => Value.regular_extract
  case h_5 hop =>
    cases hop
    refine h.bind (h.operand (hops rfl)) fun a _ => h.bind (h.value a hframe) fun _ _ => ?_
    exact h.pure trivial
  case h_6 => exact h.extended hframe _
  case h_7 =>
    split
    · rename_i f hf
      exact h.arithmetic hframe f (hops (Opcode.operandsRead_of_arithmetic? hf))
    · exact h.fail _

/-- What an instruction does after it was counted. -/
theorem step_parts (hdefine : ∀ v, frames (frame.define inst.resultId v)) :
    ∃ x y : Eval Effect, m.step host callee frame inst = (countStep >>= fun _ => x) ∧
      m.step host callee' frame inst = (countStep >>= fun _ => y) ∧ P (Effect.Keeps frames) x y := by
  refine ⟨_, _, rfl, rfl, ?_⟩
  obtain ⟨op, type, id, ops⟩ := inst
  have hops {n : Nat} (hn : op.operandsRead = n) : n ≤ ops.length ∨ stops .tooFewOperands :=
    hn ▸ hinst
  simp only
  split
  case h_6 => exact h.bind (h.operand (hops rfl)) fun label _ => h.pure trivial
  case h_7 => exact h.pure trivial
  case h_8 =>
    refine h.bind (h.operand (hops rfl)) fun a _ => h.bind (h.value a hframe) fun _ _ => ?_
    exact h.pure trivial
  case h_9 =>
    split
    · exact h.bind (h.value _ hframe) fun _ _ => h.pure (h.remember _ hframe)
    · exact h.pure hframe
  case h_10 =>
    have htwo : 2 ≤ ops.length ∨ stops .tooFewOperands := hops rfl
    refine h.bind (h.operand (htwo.imp_left (by omega))) fun pointer _ => ?_
    refine h.bind (h.operand (htwo.imp_left (by omega))) fun a _ => ?_
    exact h.bind (h.value a hframe) fun _ _ => h.pure (h.remember _ hframe)
  case h_11 =>
    refine h.bind (h.result hframe callee callee' _ hcallee hinst) fun v _ => ?_
    have hv := hdefine v
    rw [Frame.define] at hv
    split at hv
    · rename_i hid
      rw [if_pos hid]
      exact h.pure hframe
    · rename_i hid
      rw [if_neg hid]
      exact h.pure hv
  -- the others do nothing
  all_goals exact h.pure hframe

end Logic

/-! ### Functions -/

namespace Logic

variable {m : Module} {frames : Frame → Prop} {stops : Stop → Prop}
  {P : {α : Type} → (α → Prop) → Eval α → Eval α → Prop}
  (h : Logic m host frames stops P) (hcount : P (fun _ => True) countStep countStep)
  (callee callee' : Callee)
  (hcallee : ∀ index args, P (fun _ => True) (callee index args) (callee' index args))

include h hcount hcallee

theorem step {frame : Frame} {inst : Instruction} (hframe : frames frame)
    (hinst : inst.Fits frames stops) :
    P (Effect.Keeps frames) (m.step host callee frame inst) (m.step host callee' frame inst) := by
  obtain ⟨x, y, hx, hy, hxy⟩ := h.step_parts hframe callee callee' inst (fun _ => hcallee)
    hinst.complete
    fun v => hinst.define frame v hframe
  rw [hx, hy]
  exact h.bind hcount fun _ _ => hxy

theorem runBody {frame : Frame} {body : List Instruction} (hframe : frames frame)
    (hbody : ∀ inst ∈ body, inst.Fits frames stops) :
    P (fun left => frames left.1) (m.runBody host callee frame body)
      (m.runBody host callee' frame body) := by
  induction body generalizing frame with
  | nil => exact h.fail _
  | cons inst rest ih =>
    obtain ⟨hinst, hrest⟩ := List.forall_mem_cons.1 hbody
    rw [Module.runBody, Module.runBody]
    refine h.bind (h.step hcount callee callee' hcallee hframe hinst) fun effect heffect => ?_
    cases effect with
    | «continue» next => exact ih heffect hrest
    | leave exit => exact h.pure hframe

theorem runBlocks {f : Function} (hblocks : ∀ b ∈ f.blocks, ∀ inst ∈ b.body, inst.Fits frames stops)
    (fuel : Nat) {frame : Frame} {block : Block} (hframe : frames frame)
    (hblock : block ∈ f.blocks) :
    P (fun _ => True) (m.runBlocks host callee f fuel frame block)
      (m.runBlocks host callee' f fuel frame block) := by
  induction fuel generalizing frame block with
  | zero => exact h.fail _
  | succ fuel ih =>
    rw [Module.runBlocks, Module.runBlocks]
    have hbody := h.runBody hcount callee callee' hcallee hframe (hblocks block hblock)
    refine h.bind (h.inBlock f.id block.label.resultId hbody) fun left hleft => ?_
    obtain ⟨next, exit⟩ := left
    cases exit with
    | «return» v => exact h.pure trivial
    | branch label =>
      simp only
      cases hnext : f.blocks.find? (·.label.resultId == label) with
      | none => exact h.fail _
      | some block => exact ih hleft (List.mem_of_find?_eq_some hnext)

/-- A function whose instructions fit in the frames, run on its arguments. -/
theorem enter {f : Function} (hblocks : ∀ b ∈ f.blocks, ∀ inst ∈ b.body, inst.Fits frames stops)
    {args : List Value} (hstart : frames (Module.startFrame f args)) :
    P (fun _ => True) (m.enter host callee f args) (m.enter host callee' f args) := by
  simp only [Module.enter]
  split
  · exact h.fail_bind
  · split
    · exact h.fail _
    · rename_i first rest hfirst
      exact h.runBlocks hcount callee callee' hcallee hblocks _ hstart (hfirst ▸ List.mem_cons_self)

end Logic

/-- Calls of the functions of a module whose instructions fit in the frames. The depths that are
left may differ if it does not matter what a call without any depth left is compared to. -/
theorem Logic.callAt {m : Module} {host : Host} {frames : Frame → Prop} {stops : Stop → Prop}
    {P : {α : Type} → (α → Prop) → Eval α → Eval α → Prop} (h : Logic m host frames stops P)
    (hcount : P (fun _ => True) countStep countStep)
    (hblocks : ∀ f ∈ m.functions, ∀ b ∈ f.blocks, ∀ inst ∈ b.body, inst.Fits frames stops)
    (hstart : ∀ f ∈ m.functions, ∀ args, frames (Module.startFrame f args)) {depth depth' : Nat}
    (hdepth : depth = depth' ∨ ∀ x : Eval Value,
      P (fun _ => True) (Eval.fail .callDepth) x ∧ P (fun _ => True) x (Eval.fail .callDepth))
    (index : Nat) (args : List Value) :
    P (fun _ => True) (m.callAt host depth index args) (m.callAt host depth' index args) := by
  induction depth generalizing depth' index args with
  | zero =>
    unfold Module.callAt
    cases hf : m.functions[index]? with
    | none => exact h.fail _
    | some f =>
      obtain rfl | hlimit := hdepth
      · exact h.fail _
      · exact (hlimit _).1
  | succ depth ih =>
    unfold Module.callAt
    cases hf : m.functions[index]? with
    | none => exact h.fail _
    | some f =>
      have hmem := List.mem_of_getElem? hf
      cases depth' with
      | zero =>
        obtain hdepth | hlimit := hdepth
        · cases hdepth
        · exact (hlimit _).2
      | succ depth' =>
        refine h.enter hcount (m.callAt host depth) (m.callAt host depth') ?_ (hblocks f hmem)
          (hstart f hmem args)
        exact fun index args => ih (hdepth.imp_left Nat.succ.inj) index args

end Eval

end ShaderGraft
