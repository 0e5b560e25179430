import Mathlib.Data.List.Forall2
import Mathlib.Data.List.Induction
import ShaderGraft.DistanceField
import ShaderGraft.Proofs.Layout
import ShaderGraft.Tree.Serialize

/-!
# What a function of positions is called with

A function of positions is made from an interface, the name of the position and the values of the
other parameters. The position takes the place of the last parameter of its name and type, while
compiled code reads the first one. Where there is only one, they are the same, and every argument is
the struct of the hash of its parameter and a value; where there are several, the others get nothing
(`DistanceField.evaluate_binds`).

The values are found by the hashes of their names, and of several names with the same hash the last
one counts. So the order of the names matters exactly if two names with the hash of a parameter have
different values (`DistanceField.create_order`).
-/

namespace ShaderGraft

namespace DistanceField

variable {m : Module} {i : Interface} {name : Bytes} {hash : Word} {d : DistanceField}
  {values values' : List (Bytes × Value)}

/-! ### Fixed arguments -/

/-- The fixed argument of a parameter: nothing for a position, and for another parameter its hash
with the value for it, if there is one. -/
def fixed? (values : List (Bytes × Value)) (hash : Word) (p : Parameter) : Option Value :=
  if isCoordinate hash p then some .void
  else (valueFor? values p.hash).map (.parameter p.hash)

theorem fixed?_position {p : Parameter} (h : isCoordinate hash p = true) :
    fixed? values hash p = some .void := by
  rw [fixed?, if_pos h]

theorem fixed?_other {p : Parameter} (h : isCoordinate hash p = false) :
    fixed? values hash p = (valueFor? values p.hash).map (.parameter p.hash) := by
  rw [fixed?, if_neg (Bool.eq_false_iff.1 h)]

theorem fixedArguments_cons_none {start : Nat} {p : Parameter} {ps : List Parameter}
    (h : fixed? values hash p = none) :
    fixedArguments values hash start (p :: ps) = .error (.noValue start p.hash) := by
  rw [fixedArguments]
  split
  · rename_i hp
    cases (fixed?_position hp).symm.trans h
  · rename_i hp
    rw [fixed?_other (Bool.eq_false_iff.2 hp), Option.map_eq_none_iff] at h
    simp only [h]

theorem fixedArguments_cons_some {start : Nat} {p : Parameter} {ps : List Parameter} {v : Value}
    (h : fixed? values hash p = some v) :
    fixedArguments values hash start (p :: ps) =
      (fixedArguments values hash (start + 1) ps).map (v :: ·) := by
  have hbind (x : Except FieldError (List Value)) : (do return v :: (← x)) = x.map (v :: ·) := by
    cases x with
    | error e => rfl
    | ok vs => rfl
  rw [fixedArguments]
  split
  · rename_i hp
    cases (fixed?_position hp).symm.trans h
    exact hbind _
  · rename_i hp
    rw [fixed?_other (Bool.eq_false_iff.2 hp)] at h
    obtain ⟨w, hw, rfl⟩ := Option.map_eq_some_iff.1 h
    simp only [hw]
    exact hbind _

theorem fixedArguments_eq_ok {ps : List Parameter} {start : Nat} {vs : List Value} :
    fixedArguments values hash start ps = .ok vs ↔
      List.Forall₂ (fun p v => fixed? values hash p = some v) ps vs := by
  induction ps generalizing start vs with
  | nil =>
    rw [fixedArguments, List.forall₂_nil_left_iff]
    exact ⟨fun h => (Except.ok.inj h).symm, fun h => h ▸ rfl⟩
  | cons p ps ih =>
    rw [List.forall₂_cons_left_iff]
    cases hp : fixed? values hash p with
    | none =>
      rw [fixedArguments_cons_none hp]
      constructor
      · intro h
        cases h
      · rintro ⟨v, rest, hv, -, -⟩
        cases hv
    | some v =>
      rw [fixedArguments_cons_some hp]
      constructor
      · intro h
        cases hrest : fixedArguments values hash (start + 1) ps with
        | error e =>
          rw [hrest] at h
          cases h
        | ok rest =>
          rw [hrest] at h
          cases h
          exact ⟨v, rest, rfl, ih.1 hrest, rfl⟩
      · rintro ⟨w, rest, hw, hrest, rfl⟩
        cases hw
        rw [ih.2 hrest]
        rfl

/-! ### The position -/

/-- The position is the last parameter that can be it. -/
theorem coordinateIndex?_eq_some {ps : List Parameter} {k : Nat}
    (h : coordinateIndex? hash ps = some k) : ∃ front p back, ps = front ++ p :: back ∧
      k = front.length ∧ isCoordinate hash p = true ∧
      ∀ q ∈ back, isCoordinate hash q = false := by
  -- From the back: the last parameter is the position, or it is among the ones before.
  induction ps using List.reverseRecOn with
  | nil => cases h
  | append_singleton ps p ih =>
    have hzip : (ps ++ [p]).zipIdx = ps.zipIdx ++ [(p, ps.length)] := by
      simp [List.zipIdx_append]
    rw [coordinateIndex?, hzip, List.filter_append] at h
    by_cases hp : isCoordinate hash p = true
    · have hk : ps.length = k := by simpa [hp] using h
      exact ⟨ps, p, [], rfl, hk.symm, hp, by simp⟩
    · have hbefore : coordinateIndex? hash ps = some k := by simpa [coordinateIndex?, hp] using h
      obtain ⟨front, q, back, rfl, hk, hq, hback⟩ := ih hbefore
      refine ⟨front, q, back ++ [p], by simp, hk, hq, ?_⟩
      rw [List.forall_mem_append, List.forall_mem_singleton]
      exact ⟨hback, Bool.eq_false_iff.2 hp⟩

theorem create_eq_ok (h : create m i name values = .ok d) :
    d.function = i.function ∧ d.hash = nameHash name ∧
      List.Forall₂ (fun p v => fixed? values (nameHash name) p = some v) i.parameters d.arguments ∧
      coordinateIndex? (nameHash name) i.parameters = some d.coordinate := by
  unfold create at h
  split at h
  · cases h
  split at h
  · cases h
  obtain ⟨vs, hvs, h⟩ := bind_eq_ok.1 h
  split at h
  · cases h
  rename_i k hk
  cases h
  exact ⟨rfl, rfl, fixedArguments_eq_ok.1 hvs, hk⟩

/-! ### Evaluation -/

/-- The arguments at a position. -/
def argumentsAt (d : DistanceField) (x y : Float32) : List Value :=
  d.arguments.set d.coordinate (.parameter d.hash (.floatVector [x, y]))

/-- A buffer that is filled from the front with what calls give at positions, up to the first call
that is stopped or gives no distance. In the first case the buffer is as before from there on, in the
second there is a zero. -/
inductive Fills (host : Host) (call : Float32 → Float32 → Except Stop Value) :
    List (Float32 × Float32) → List Float32 → List Float32 → Option FieldError → Prop where
  | done : Fills host call [] [] [] none
  | stops {x y old : Float32} {rest : List (Float32 × Float32)} {buffer : List Float32}
    {stop : Stop} : call x y = .error stop →
      Fills host call ((x, y) :: rest) (old :: buffer) (old :: buffer) (some (.stopped stop))
  | refuses {x y old : Float32} {rest : List (Float32 × Float32)} {buffer : List Float32}
    {v : Value} {cause : Value.ShapeMismatch} : call x y = .ok v → v.asFloat = .error cause →
      Fills host call ((x, y) :: rest) (old :: buffer) (0 :: buffer) (some (refuse host cause))
  | goes {x y old r : Float32} {rest : List (Float32 × Float32)} {buffer rs : List Float32}
    {v : Value} {e : Option FieldError} : call x y = .ok v → v.asFloat = .ok r →
      Fills host call rest buffer rs e →
      Fills host call ((x, y) :: rest) (old :: buffer) (r :: rs) e

theorem fills_fill {host : Host} {positions : List (Float32 × Float32)} {buffer : List Float32}
    (hlength : positions.length = buffer.length) :
    Fills host (d.valueAt host m) positions buffer (d.fill host m positions buffer).1
      (d.fill host m positions buffer).2 := by
  induction positions generalizing buffer with
  | nil =>
    cases List.length_eq_zero_iff.1 hlength.symm
    exact .done
  | cons position positions ih =>
    obtain ⟨x, y⟩ := position
    cases buffer with
    | nil => cases hlength
    | cons old buffer =>
      cases hcall : d.valueAt host m x y with
      | error stop =>
        simp only [fill, hcall]
        exact .stops hcall
      | ok v =>
        cases hv : v.asFloat with
        | error cause =>
          simp only [fill, hcall, hv]
          exact .refuses hcall hv
        | ok r =>
          simp only [fill, hcall, hv]
          exact .goes hcall hv (ih (Nat.succ.inj hlength))

theorem Fills.fill_eq {host : Host} {positions : List (Float32 × Float32)}
    {buffer rs : List Float32} {e : Option FieldError}
    (h : Fills host (d.valueAt host m) positions buffer rs e) :
    d.fill host m positions buffer = (rs, e) := by
  induction h with
  | done => rfl
  | stops hcall => simp only [fill, hcall]
  | refuses hcall hv => simp only [fill, hcall, hv]
  | goes hcall hv _ ih => simp only [fill, hcall, hv, ih]

theorem evaluate_eq_iff {host : Host} {positions : List (Float32 × Float32)}
    {buffer rs : List Float32} {e : Option FieldError} (hlength : positions.length = buffer.length)
    (hne : positions ≠ []) : d.evaluate host m positions buffer = (rs, e) ↔
      Fills host (d.valueAt host m) positions buffer rs e := by
  have hfill : d.evaluate host m positions buffer = d.fill host m positions buffer := by
    rw [evaluate, if_neg (not_not_intro hlength), if_neg (by simpa using hne)]
  rw [hfill]
  constructor
  · intro h
    have hfills : Fills host (d.valueAt host m) positions buffer _ _ := fills_fill hlength
    rwa [h] at hfills
  · exact Fills.fill_eq

/-! ### The parameter that is read -/

/-- The parameters of an interface around the last that can be the position, and the arguments that
the ones before and after it are given. -/
structure Binds (i : Interface) (hash : Word) (values : List (Bytes × Value))
    (front : List Parameter) (p : Parameter) (back : List Parameter) (before after : List Value) :
    Prop where
  parameters : i.parameters = front ++ p :: back
  position : isCoordinate hash p = true
  last : ∀ q ∈ back, isCoordinate hash q = false
  before : List.Forall₂ (fun q v => fixed? values hash q = some v) front before
  after : List.Forall₂ (fun q v => fixed? values hash q = some v) back after

theorem binds_of_create (h : create m i name values = .ok d) :
    ∃ front p back before after, Binds i (nameHash name) values front p back before after ∧
      ∀ x y, d.argumentsAt x y = before ++ .parameter p.hash (.floatVector [x, y]) :: after := by
  obtain ⟨-, hhash, hargs, hk⟩ := create_eq_ok h
  obtain ⟨front, p, back, hps, hk, hp, hback⟩ := coordinateIndex?_eq_some hk
  rw [hps] at hargs
  obtain ⟨before, v, after, hvs, hlength, hbefore, -, hafter⟩ := forall₂_split hargs
  refine ⟨front, p, back, before, after, ⟨hps, hp, hback, hbefore, hafter⟩, fun x y => ?_⟩
  have hphash : p.hash = nameHash name := by
    simp only [isCoordinate, Bool.and_eq_true, beq_iff_eq] at hp
    exact hp.1
  rw [argumentsAt, hvs, hk, ← hlength, List.set_append_right _ _ (Nat.le_refl _), Nat.sub_self,
    List.set_cons_zero, hhash, hphash]

/-- A parameter that is not a position is given the struct of its hash and its value. -/
theorem carries_of_fixed {ps : List Parameter} {vs : List Value}
    (h : List.Forall₂ (fun q v => fixed? values hash q = some v) ps vs)
    (hps : ∀ q ∈ ps, isCoordinate hash q = false) :
    List.Forall₂ (fun q v => ∃ w, valueFor? values q.hash = some w ∧ v = .parameter q.hash w)
      ps vs := by
  induction h with
  | nil => exact .nil
  | @cons q v ps vs hv _ ih =>
    rw [List.forall_mem_cons] at hps
    rw [fixed?_other hps.1] at hv
    obtain ⟨w, hw, rfl⟩ := Option.map_eq_some_iff.1 hv
    exact .cons ⟨w, hw, rfl⟩ (ih hps.2)

namespace Binds

variable {front back : List Parameter} {p : Parameter} {before after : List Value}

/-- Compiled code reads the first parameter that can be the position. -/
theorem parameter?_of_front (h : Binds i hash values front p back before after)
    (hfront : ∀ q ∈ front, isCoordinate hash q = false) :
    i.parameter? hash (.vector .f32 2) = some p := by
  refine List.find?_eq_some_iff_append.2 ⟨h.position, front, back, h.parameters, fun q hq => ?_⟩
  have hq := hfront q hq
  rw [isCoordinate] at hq
  rw [hq]
  rfl

theorem void_of_front (h : Binds i hash values front p back before after)
    (hfront : ∃ q ∈ front, isCoordinate hash q = true) :
    ∃ front₁ q front₂, front = front₁ ++ q :: front₂ ∧
      i.parameter? hash (.vector .f32 2) = some q ∧ before[front₁.length]? = some .void := by
  cases hq : front.find? (isCoordinate hash) with
  | none =>
    obtain ⟨q, hmem, hcoordinate⟩ := hfront
    exact absurd hcoordinate (List.find?_eq_none.1 hq q hmem)
  | some q =>
    have hparameter : i.parameter? hash (.vector .f32 2) = some q := by
      change i.parameters.find? (isCoordinate hash) = some q
      rw [h.parameters, List.find?_append, hq, Option.some_or]
    obtain ⟨hcoordinate, front₁, front₂, rfl, -⟩ := List.find?_eq_some_iff_append.1 hq
    obtain ⟨before₁, v, before₂, rfl, hlength, -, hv, -⟩ := forall₂_split h.before
    cases (fixed?_position hcoordinate).symm.trans hv
    refine ⟨front₁, q, front₂, rfl, hparameter, ?_⟩
    rw [← hlength, List.getElem?_append_right (Nat.le_refl _), Nat.sub_self,
      List.getElem?_cons_zero]

end Binds

theorem run_serialize_parameter {j : Input} {x : j.Value} {default : HostType.vec2.Value}
    {s : Serializer} {q : Parameter} (hs : s.interface = some i)
    (hq : i.parameter? (nameHash name) (.vector .f32 2) = some q) :
    ((Tree.parameter name default : Tree j .vec2).serialize x).run s =
      (Emit.build (Build.compositeExtract q.typeId q.composite [1])).run s := by
  have hq : s.interface.bind (·.parameter? (nameHash name) (.vector .f32 2)) = some q := by
    rw [hs, Option.bind_some, hq]
  have hget (f : Serializer → Emit ResultId) : (do f (← get)).run s = (f s).run s := rfl
  simp only [Tree.serialize, Emit.parameter, Emit.valueType, HostType.valueType, pure_bind]
  rw [hget, hq]

/-- At every position the function is called with the position for the last parameter that can be
it, while compiled code reads the first one, `q`. If there is no other, the two are the same, and
all other arguments are structs of the hash of their parameter and its value. If there is another,
nothing is passed for `q`. -/
theorem evaluate_binds (h : create m i name values = .ok d) :
    ∃ front p back before after q, Binds i (nameHash name) values front p back before after ∧
      (∀ host positions buffer rs e, positions.length = buffer.length → positions ≠ [] →
        (d.evaluate host m positions buffer = (rs, e) ↔
          Fills host (fun x y => m.call host i.function
            (before ++ .parameter p.hash (.floatVector [x, y]) :: after)) positions buffer rs e)) ∧
      i.parameter? (nameHash name) (.vector .f32 2) = some q ∧
      (∀ (j : Input) (x : j.Value) (default : HostType.vec2.Value) (s : Serializer),
        s.interface = some i → ((Tree.parameter name default : Tree j .vec2).serialize x).run s =
          (Emit.build (Build.compositeExtract q.typeId q.composite [1])).run s) ∧
      ((∀ r ∈ front, isCoordinate (nameHash name) r = false) →
        q = p ∧
        List.Forall₂ (fun r v => ∃ w, valueFor? values r.hash = some w ∧ v = .parameter r.hash w)
          (front ++ back) (before ++ after)) ∧
      ((∃ r ∈ front, isCoordinate (nameHash name) r = true) →
        ∃ front₁ front₂, front = front₁ ++ q :: front₂ ∧ before[front₁.length]? = some .void) := by
  obtain ⟨front, p, back, before, after, hbinds, hargs⟩ := binds_of_create h
  have hvalueAt (host : Host) : d.valueAt host m = fun x y => m.call host i.function
      (before ++ .parameter p.hash (.floatVector [x, y]) :: after) := by
    funext x y
    rw [← hargs, ← (create_eq_ok h).1]
    rfl
  have hevaluate (host : Host) (positions : List (Float32 × Float32)) (buffer rs : List Float32)
      (e : Option FieldError) (hlength : positions.length = buffer.length)
      (hne : positions ≠ []) : d.evaluate host m positions buffer = (rs, e) ↔
        Fills host (fun x y => m.call host i.function
          (before ++ .parameter p.hash (.floatVector [x, y]) :: after)) positions buffer rs e := by
    rw [evaluate_eq_iff hlength hne, hvalueAt]
  by_cases hfront : ∃ r ∈ front, isCoordinate (nameHash name) r = true
  · obtain ⟨front₁, q, front₂, hsplit, hq, hvoid⟩ := hbinds.void_of_front hfront
    refine ⟨front, p, back, before, after, q, hbinds, hevaluate, hq,
      fun _ _ _ _ hs => run_serialize_parameter hs hq, fun hnone => ?_,
      fun _ => ⟨front₁, front₂, hsplit, hvoid⟩⟩
    obtain ⟨r, hr, hcoordinate⟩ := hfront
    cases (hnone r hr).symm.trans hcoordinate
  · have hnone : ∀ r ∈ front, isCoordinate (nameHash name) r = false := fun r hr =>
      Bool.eq_false_iff.2 fun hcoordinate => hfront ⟨r, hr, hcoordinate⟩
    have hq := hbinds.parameter?_of_front hnone
    refine ⟨front, p, back, before, after, p, hbinds, hevaluate, hq,
      fun _ _ _ _ hs => run_serialize_parameter hs hq, fun _ => ⟨rfl, ?_⟩,
      fun hsome => absurd hsome hfront⟩
    exact List.rel_append (carries_of_fixed hbinds.before hnone)
      (carries_of_fixed hbinds.after hbinds.last)

/-- A function of two wrapped formals that gives the first component of the first one's value. -/
def firstOfTwo : Module where
  header := { version := ⟨1, 3⟩, bound := 12 }
  globals := [
    { opcode := .typeFloat, resultId := 1, operands := [32] },
    { opcode := .typeInt, resultId := 2, operands := [32, 0] },
    { opcode := .typeVector, resultId := 3, operands := [1, 2] },
    { opcode := .typeStruct, resultId := 4, operands := [2, 3] },
    { opcode := .typeFunction, resultId := 5, operands := [1, 4, 4] }]
  functions := [
    { definition := { opcode := .function, resultType := 1, resultId := 6, operands := [0, 5] }
      parameters := [
        { opcode := .functionParameter, resultType := 4, resultId := 7 },
        { opcode := .functionParameter, resultType := 4, resultId := 8 }]
      blocks := [{ label := { opcode := .label, resultId := 9 }
                   body := [
                    { opcode := .compositeExtract, resultType := 3, resultId := 10
                      operands := [7, 1] },
                    { opcode := .compositeExtract, resultType := 1, resultId := 11
                      operands := [10, 0] },
                    { opcode := .returnValue, operands := [11] }] }] }]

/-- The interface of `firstOfTwo` with two parameters of the given names, both of the type of
positions. -/
def pairInterface (first second : Bytes) : Interface where
  function := 0
  parameters := [
    { composite := 7, typeId := 3, hash := nameHash first, type := .vector .f32 2 },
    { composite := 8, typeId := 3, hash := nameHash second, type := .vector .f32 2 }]

/-- With the names `c` and `e` and the position `c`, the first parameter is the position and is what
compiled code reads, and the value for `e` is passed for the second. -/
theorem evaluate_binds_pair :
    ∃ d, create firstOfTwo (pairInterface (utf8 "c") (utf8 "e")) (utf8 "c")
        [(utf8 "e", .floatVector [0, 0])] = .ok d ∧
      (∀ host positions buffer rs e, positions.length = buffer.length → positions ≠ [] →
        (d.evaluate host firstOfTwo positions buffer = (rs, e) ↔
          Fills host (fun x y => firstOfTwo.call host 0
            [.parameter (nameHash (utf8 "c")) (.floatVector [x, y]),
              .parameter (nameHash (utf8 "e")) (.floatVector [0, 0])]) positions buffer rs e)) ∧
      (pairInterface (utf8 "c") (utf8 "e")).parameter? (nameHash (utf8 "c")) (.vector .f32 2) =
        (pairInterface (utf8 "c") (utf8 "e")).parameters[0]? ∧
      ∀ (j : Input) (x : j.Value) (default : HostType.vec2.Value) (s : Serializer),
        s.interface = some (pairInterface (utf8 "c") (utf8 "e")) →
        ((Tree.parameter (utf8 "c") default : Tree j .vec2).serialize x).run s =
          (Emit.build (Build.compositeExtract 3 7 [1])).run s := by
  have hcreate : create firstOfTwo (pairInterface (utf8 "c") (utf8 "e")) (utf8 "c")
      [(utf8 "e", .floatVector [0, 0])] = .ok {
        function := 0, coordinate := 0, hash := nameHash (utf8 "c")
        arguments := [.void, .parameter (nameHash (utf8 "e")) (.floatVector [0, 0])] } := rfl
  refine ⟨_, hcreate, ?_⟩
  obtain ⟨front, p, back, before, after, q, hbinds, hevaluate, hq, hread, hone, -⟩ :=
    evaluate_binds hcreate
  -- `e` is no position, so nothing stands before the parameter that is
  obtain rfl : front = [] := by
    cases front with
    | nil => rfl
    | cons r front =>
      have hmem : p ∈ (pairInterface (utf8 "c") (utf8 "e")).parameters.tail := by
        rw [hbinds.parameters]
        simp
      rw [List.mem_singleton.1 hmem] at hbinds
      exact absurd hbinds.position (by decide)
  obtain ⟨rfl, hcarries⟩ := hone (by simp)
  cases hbinds.parameters
  cases hbinds.before
  obtain ⟨v, rest, ⟨w, hw, rfl⟩, hnil, hafter⟩ := List.forall₂_cons_left_iff.1 hcarries
  cases hw
  cases hnil
  rw [List.nil_append] at hafter
  subst hafter
  exact ⟨hevaluate, hq, hread⟩

/-- Two parameters have the name and the type of the position. The function reads the first one,
which is void at every position; the position is the second one. -/
theorem evaluate_second_position :
    ∃ d, create firstOfTwo (pairInterface (utf8 "c") (utf8 "c")) (utf8 "c") [] = .ok d ∧
      (pairInterface (utf8 "c") (utf8 "c")).parameter? (nameHash (utf8 "c")) (.vector .f32 2) =
        (pairInterface (utf8 "c") (utf8 "c")).parameters[0]? ∧
      (∀ x y, d.argumentsAt x y =
        [.void, .parameter (nameHash (utf8 "c")) (.floatVector [x, y])]) ∧
      ∀ v, Value.void ≠ .parameter (nameHash (utf8 "c")) v := by
  refine ⟨_, rfl, rfl, fun _ _ => rfl, fun v h => ?_⟩
  simp [Value.void, Value.parameter, Value.composite] at h

/-! ### The order of the values -/

theorem valueFor?_eq_some {w : Value} (h : valueFor? values hash = some w) :
    ∃ a ∈ values, nameHash a.1 = hash ∧ a.2 = w := by
  obtain ⟨a, ha, rfl⟩ := Option.map_eq_some_iff.1 h
  have hmem := List.mem_of_find?_eq_some ha
  have hhash := List.find?_some ha
  exact ⟨a, List.mem_reverse.1 hmem, beq_iff_eq.1 hhash, rfl⟩

/-- Of the entries with a hash, each one is the last in some order. -/
theorem exists_perm_valueFor? {a : Bytes × Value} (ha : a ∈ values) :
    ∃ values', values'.Perm values ∧ valueFor? values' (nameHash a.1) = some a.2 := by
  obtain ⟨front, back, rfl⟩ := List.append_of_mem ha
  refine ⟨front ++ back ++ [a], ?_, ?_⟩
  · rw [List.append_assoc]
    exact (List.perm_append_singleton a back).append_left front
  · simp [valueFor?]

/-- What a parameter can be given: nothing if it is a position, and otherwise the value of any entry
with its hash. -/
def Possible (values : List (Bytes × Value)) (hash : Word) (p : Parameter) (v : Value) : Prop :=
  (isCoordinate hash p = true ∧ v = .void) ∨
    (isCoordinate hash p = false ∧ ∃ a ∈ values, nameHash a.1 = p.hash ∧ v = .parameter p.hash a.2)

theorem possible_of_perm {p : Parameter} {v : Value} (hperm : values'.Perm values)
    (h : fixed? values' hash p = some v) : Possible values hash p v := by
  cases hp : isCoordinate hash p with
  | true =>
    rw [fixed?_position hp] at h
    exact .inl ⟨hp, (Option.some.inj h).symm⟩
  | false =>
    rw [fixed?_other hp] at h
    obtain ⟨w, hw, rfl⟩ := Option.map_eq_some_iff.1 h
    obtain ⟨a, ha, hhash, rfl⟩ := valueFor?_eq_some hw
    exact .inr ⟨hp, a, hperm.mem_iff.1 ha, hhash, rfl⟩

theorem Possible.exists_perm {p : Parameter} {v : Value} (h : Possible values hash p v) :
    ∃ values', values'.Perm values ∧ fixed? values' hash p = some v := by
  obtain ⟨hp, rfl⟩ | ⟨hp, a, ha, hhash, rfl⟩ := h
  · exact ⟨values, .refl _, fixed?_position hp⟩
  · obtain ⟨values', hperm, hvalue⟩ := exists_perm_valueFor? ha
    refine ⟨values', hperm, ?_⟩
    rw [fixed?_other hp, ← hhash, hvalue]
    rfl

theorem fixed?_eq_none_iff {p : Parameter} : fixed? values hash p = none ↔
    isCoordinate hash p = false ∧ ∀ a ∈ values, nameHash a.1 ≠ p.hash := by
  cases hp : isCoordinate hash p with
  | true => simp [fixed?_position hp]
  | false => simp [fixed?_other hp, valueFor?]

theorem fixed?_eq_none_perm {p : Parameter} (hperm : values'.Perm values) :
    fixed? values' hash p = none ↔ fixed? values hash p = none := by
  simp only [fixed?_eq_none_iff, hperm.mem_iff]

/-- Whether there are arguments, and the error if there are none, is the same in every order. -/
theorem fixedArguments_perm (hperm : values'.Perm values) (hash : Word) (start : Nat)
    (ps : List Parameter) :
    (∃ e, fixedArguments values hash start ps = .error e ∧
      fixedArguments values' hash start ps = .error e) ∨
    ∃ vs vs', fixedArguments values hash start ps = .ok vs ∧
      fixedArguments values' hash start ps = .ok vs' := by
  induction ps generalizing start with
  | nil => exact .inr ⟨[], [], rfl, rfl⟩
  | cons p ps ih =>
    cases hp : fixed? values hash p with
    | none =>
      have hp' := (fixed?_eq_none_perm hperm).2 hp
      exact .inl ⟨_, fixedArguments_cons_none hp, fixedArguments_cons_none hp'⟩
    | some v =>
      have hp' : fixed? values' hash p ≠ none := by
        rw [ne_eq, fixed?_eq_none_perm hperm, hp]
        exact Option.some_ne_none v
      obtain ⟨v', hp'⟩ := Option.ne_none_iff_exists'.1 hp'
      rw [fixedArguments_cons_some hp, fixedArguments_cons_some hp']
      obtain ⟨e, h, h'⟩ | ⟨vs, vs', h, h'⟩ := ih (start + 1)
      · exact .inl ⟨e, by rw [h]; rfl, by rw [h']; rfl⟩
      · exact .inr ⟨v :: vs, v' :: vs', by rw [h]; rfl, by rw [h']; rfl⟩

theorem create_perm (m : Module) (i : Interface) (name : Bytes) (hperm : values'.Perm values) :
    (∃ e, create m i name values = .error e ∧ create m i name values' = .error e) ∨
    ∃ d args, create m i name values = .ok d ∧
      create m i name values' = .ok { d with arguments := args } := by
  unfold create
  cases m.functions[i.function]? with
  | none => exact .inl ⟨_, rfl, rfl⟩
  | some f =>
    by_cases hcount : i.parameters.length ≠ f.parameters.length
    · exact .inl ⟨_, if_pos hcount, if_pos hcount⟩
    simp only [if_neg hcount]
    obtain ⟨e, h, h'⟩ | ⟨vs, vs', h, h'⟩ :=
      fixedArguments_perm hperm (nameHash name) 0 i.parameters
    · rw [h, h']
      exact .inl ⟨e, rfl, rfl⟩
    · rw [h, h']
      cases hk : coordinateIndex? (nameHash name) i.parameters with
      | none => exact .inl ⟨_, rfl, rfl⟩
      | some k => exact .inr ⟨_, vs', rfl, rfl⟩

/-- The arguments at an index over all orders of the values. -/
theorem exists_create_perm_iff (h : create m i name values = .ok d) {k : Nat} {p : Parameter}
    (hp : i.parameters[k]? = some p) {v : Value} :
    (∃ values' args, values'.Perm values ∧
      create m i name values' = .ok { d with arguments := args } ∧ args[k]? = some v) ↔
        Possible values (nameHash name) p v := by
  constructor
  · rintro ⟨values', args, hperm, hcreate, hv⟩
    obtain ⟨-, -, hargs, -⟩ := create_eq_ok hcreate
    obtain ⟨w, hw, hfixed⟩ := forall₂_getElem? hargs hp
    cases hw.symm.trans hv
    exact possible_of_perm hperm hfixed
  · intro hpossible
    obtain ⟨values', hperm, hfixed⟩ := hpossible.exists_perm
    obtain ⟨e, he, -⟩ | ⟨d', args, hd, hcreate⟩ := create_perm m i name hperm
    · cases he.symm.trans h
    cases hd.symm.trans h
    obtain ⟨-, -, hargs, -⟩ := create_eq_ok hcreate
    obtain ⟨w, hw, hfixed'⟩ := forall₂_getElem? hargs hp
    cases hfixed.symm.trans hfixed'
    exact ⟨values', args, hperm, hcreate, hw⟩

theorem Possible.unique {p : Parameter} {v w : Value} (hv : Possible values hash p v)
    (hw : Possible values hash p w)
    (h : isCoordinate hash p = false → ∀ a ∈ values, ∀ b ∈ values, nameHash a.1 = p.hash →
      nameHash b.1 = p.hash → a.2 = b.2) : v = w := by
  obtain ⟨hp, rfl⟩ | ⟨hp, a, ha, hahash, rfl⟩ := hv
  · obtain ⟨-, rfl⟩ | ⟨hp', -⟩ := hw
    · rfl
    · cases hp.symm.trans hp'
  · obtain ⟨hp', -⟩ | ⟨-, b, hb, hbhash, rfl⟩ := hw
    · cases hp.symm.trans hp'
    · rw [h hp a ha b hb hahash hbhash]

/-- In every order of the values there is the same error, or the same function of positions up to
its arguments. At each index the arguments over all orders are the possible ones, and the order does
not matter exactly if no two entries with the hash of a parameter have different values. -/
theorem create_order (m : Module) (i : Interface) (name : Bytes) (values : List (Bytes × Value)) :
    (∀ values', values'.Perm values →
      (∃ e, create m i name values = .error e ∧ create m i name values' = .error e) ∨
      ∃ d args, create m i name values = .ok d ∧
        create m i name values' = .ok { d with arguments := args }) ∧
    (∀ d, create m i name values = .ok d → ∀ (k : Nat) p, i.parameters[k]? = some p → ∀ v,
      ((∃ values' args, values'.Perm values ∧
        create m i name values' = .ok { d with arguments := args } ∧ args[k]? = some v) ↔
          Possible values (nameHash name) p v)) ∧
    ((∀ values', values'.Perm values → create m i name values' = create m i name values) ↔
      ∀ d, create m i name values = .ok d → ∀ p ∈ i.parameters,
        isCoordinate (nameHash name) p = false → ∀ a ∈ values, ∀ b ∈ values,
          nameHash a.1 = p.hash → nameHash b.1 = p.hash → a.2 = b.2) := by
  refine ⟨fun _ => create_perm m i name, fun d h k p hp v => exists_create_perm_iff h hp, ?_, ?_⟩
  · intro horder d h p hmem hp a ha b hb hahash hbhash
    obtain ⟨k, hk⟩ := List.mem_iff_getElem?.1 hmem
    -- Each of the two entries is the last one in some order, and all orders give the same.
    have hargument (c : Bytes × Value) (hc : c ∈ values) (hhash : nameHash c.1 = p.hash) :
        d.arguments[k]? = some (.parameter p.hash c.2) := by
      obtain ⟨values', args, hperm, hcreate, hv⟩ :=
        (exists_create_perm_iff h hk).2 (.inr ⟨hp, c, hc, hhash, rfl⟩)
      rw [horder values' hperm, h] at hcreate
      rw [Except.ok.inj hcreate]
      exact hv
    have hsame := (hargument a ha hahash).symm.trans (hargument b hb hbhash)
    simpa [Value.parameter, Value.composite] using hsame
  · intro hsame values' hperm
    obtain ⟨e, he, he'⟩ | ⟨d, args, hd, hd'⟩ := create_perm m i name hperm
    · rw [he, he']
    obtain ⟨-, -, hvs, -⟩ := create_eq_ok hd
    obtain ⟨-, -, hvs', -⟩ := create_eq_ok hd'
    have hargs : args = d.arguments := forall₂_unique hvs' hvs fun p hp v w hv hw =>
      (possible_of_perm hperm hv).unique (possible_of_perm (.refl _) hw) (hsame d hd p hp)
    rw [hd, hd', hargs]

/-- The names `e` and `eaaaaaaaa` have the same hash. Whichever comes last has its value passed for
the parameter `e`. -/
theorem create_colliding_names :
    ∃ d d', create firstOfTwo (pairInterface (utf8 "c") (utf8 "e")) (utf8 "c")
        [(utf8 "e", .uint 1), (utf8 "eaaaaaaaa", .uint 2)] = .ok d ∧
      create firstOfTwo (pairInterface (utf8 "c") (utf8 "e")) (utf8 "c")
        [(utf8 "eaaaaaaaa", .uint 2), (utf8 "e", .uint 1)] = .ok d' ∧
      d.arguments = [.void, .parameter (nameHash (utf8 "e")) (.uint 2)] ∧
      d'.arguments = [.void, .parameter (nameHash (utf8 "e")) (.uint 1)] ∧
      d.arguments ≠ d'.arguments := by
  refine ⟨_, _, rfl, rfl, rfl, rfl, fun h => ?_⟩
  simp [Value.parameter, Value.composite, Value.uint] at h

end DistanceField

end ShaderGraft
