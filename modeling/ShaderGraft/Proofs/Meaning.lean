import ShaderGraft.Evaluator.Host
import ShaderGraft.Tree.Serialize

/-!
# The value of a tree

What a tree over floats and vectors of floats stands for, without a module: a value is the list of
its components, operations work on the components, a link passes a value on, and a chain makes the
values of its steps known by name to the steps after them. What the elementary functions are is up
to the host.

Evaluation is a relation, since an index can be out of range and a name unknown. A tree has at most
one value (`Tree.evaluates_unique`).
-/

namespace ShaderGraft

/-! ### Components -/

/-- The host types of floats and of vectors of floats, with the number of their components. -/
inductive HostType.Floats : HostType → Nat → Prop where
  | f32 : Floats .f32 1
  | vec2 : Floats .vec2 2
  | vec3 : Floats .vec3 3
  | quad : Floats (.array 4 .f32) 4

/-- The components of a value. -/
def HostType.components : (t : HostType) → t.Value → List Float32
  | .scalar .float32, bits => [.ofBits bits]
  | .vec2, v => v.toList.map .ofBits
  | .vec3, v => v.toList.map .ofBits
  | .array 4 (.scalar .float32), v => v.toList.map Float32.ofBits
  | _, _ => []

theorem HostType.Floats.length_components {t : HostType} {n : Nat} (h : t.Floats n) (v : t.Value) :
    (t.components v).length = n := by
  cases h with
  | f32 => rfl
  | vec2 | vec3 | quad => exact (List.length_map _).trans v.length_toList

/-- The arithmetic of a node. -/
def Arithmetic.apply : Arithmetic → Float32 → Float32 → Float32
  | .add => (· + ·)
  | .sub => (· - ·)
  | .mul => (· * ·)
  | .div => (· / ·)

def Extremum.apply (host : Host) : Extremum → Float32 → Float32 → Float32
  | .max => host.max
  | .min => host.min

def Elementary.apply (host : Host) : Elementary → Float32 → Float32
  | .sqrt => host.sqrt
  | .abs => host.abs
  | .sine => host.sin
  | .cosine => host.cos
  | .tangent => host.tan

/-- The euclidean length of a vector. -/
def norm (host : Host) (xs : List Float32) : Float32 :=
  host.sqrt ((xs.map fun x => x * x).foldl (· + ·) 0)

/-! ### Inputs -/

/-- Values by name with their types, the newest first. -/
abbrev Scope := List (Bytes × HostType × List Float32)

/-- The values of runtime parameters by name hash and type. -/
abbrev Environment := Word → ValueType → Option (List Float32)

/-- The runtime parameters of an interface, with a value for each formal parameter. -/
def Interface.environment (i : Interface) (values : ResultId → List Float32) : Environment :=
  fun hash type => (i.parameter? hash type).map (values ·.composite)

/-- What an input stands for. -/
abbrev Input.Meaning : Input → Type
  | .none => Unit
  | .context => Scope
  | .data _ => List Float32

/-- The inputs that hold nothing. -/
inductive Input.Empty : {i : Input} → i.Value → i.Meaning → Prop where
  | none : Empty (i := .none) () ()
  | context : Empty (i := .context) .empty []

/-- What an input map does: it passes its input on, or gives an input that holds nothing. -/
inductive Input.Maps : {i j : Input} → (i.Value → j.Value) → i.Meaning → j.Meaning → Prop where
  | passOn {i : Input} {f : i.Value → i.Value} {x : i.Meaning} : (∀ v, f v = v) → Maps f x x
  | discard {i j : Input} {f : i.Value → j.Value} {x : i.Meaning} {y : j.Meaning} :
    (∀ v, Input.Empty (f v) y) → Maps f x y

/-! ### Trees -/

mutual

/-- `tree.Evaluates host env x xs` says that the tree has the value `xs` on the input `x`. -/
inductive Tree.Evaluates (host : Host) (env : Environment) :
    {i : Input} → {t : HostType} → Tree i t → i.Meaning → List Float32 → Prop where
  | constant {i : Input} {t : HostType} {v : t.Value} {x : i.Meaning} :
    Tree.Evaluates host env (.constant v) x (t.components v)
  | parameter {i : Input} {t : HostType} {name : Bytes} {v : t.Value} {x : i.Meaning}
    {type : ValueType} : t.valueType = .ok type →
      Tree.Evaluates host env (.parameter name v) x
        ((env (nameHash name) type).getD (t.components v))
  | input {t : HostType} {xs : List Float32} :
    Tree.Evaluates host env (.input : Tree (.data t) t) xs xs
  | arithmetic {i : Input} {t : HostType} {op : Arithmetic} {a b : Tree i t} {x : i.Meaning}
    {xs ys : List Float32} : a.Evaluates host env x xs → b.Evaluates host env x ys →
      Tree.Evaluates host env (.arithmetic op a b) x (List.zipWith op.apply xs ys)
  | extremum {i : Input} {t : HostType} {op : Extremum} {a b : Tree i t} {x : i.Meaning}
    {xs ys : List Float32} : a.Evaluates host env x xs → b.Evaluates host env x ys →
      Tree.Evaluates host env (.extremum op a b) x (List.zipWith (op.apply host) xs ys)
  | square {i : Input} {t : HostType} {of : Tree i t} {x : i.Meaning} {xs : List Float32} :
    of.Evaluates host env x xs → Tree.Evaluates host env (.square of) x (xs.map fun x => x * x)
  | elementary {i : Input} {t : HostType} {fn : Elementary} {of : Tree i t} {x : i.Meaning}
    {xs : List Float32} : of.Evaluates host env x xs →
      Tree.Evaluates host env (.elementary fn of) x (xs.map (fn.apply host))
  | normalize {i : Input} {t : HostType} {of : Tree i t} {x : i.Meaning} {xs : List Float32} :
    of.Evaluates host env x xs →
      Tree.Evaluates host env (.normalize of) x (xs.map (· / norm host xs))
  | cross {i : Input} {a b : Tree i .vec3} {x : i.Meaning} {a₀ a₁ a₂ b₀ b₁ b₂ : Float32} :
    a.Evaluates host env x [a₀, a₁, a₂] → b.Evaluates host env x [b₀, b₁, b₂] →
      Tree.Evaluates host env (.cross a b) x
        [a₁ * b₂ - a₂ * b₁, a₂ * b₀ - a₀ * b₂, a₀ * b₁ - a₁ * b₀]
  | length {i : Input} {v : HostType} {of : Tree i v} {x : i.Meaning} {xs : List Float32} :
    of.Evaluates host env x xs → Tree.Evaluates host env (.length of) x [norm host xs]
  | select {i : Input} {v : HostType} {index : Word} {of : Tree i v} {x : i.Meaning}
    {xs : List Float32} {e : Float32} : of.Evaluates host env x xs → xs[index.toNat]? = some e →
      Tree.Evaluates host env (.select index of) x [e]
  | link {i : Input} {m t : HostType} {first : Tree i m} {second : Tree (.data m) t} {x : i.Meaning}
    {ys zs : List Float32} : first.Evaluates host env x ys → second.Evaluates host env ys zs →
      Tree.Evaluates host env (.link first second) x zs
  | mapInput {i j : Input} {t : HostType} {f : i.Value → j.Value} {inner : Tree j t}
    {x : i.Meaning} {y : j.Meaning} {xs : List Float32} : Input.Maps f x y →
      inner.Evaluates host env y xs → Tree.Evaluates host env (.mapInput f inner) x xs
  | access {t : HostType} {name : Bytes} {scope : Scope} {xs : List Float32} :
    scope.lookup name = some (t, xs) →
      Tree.Evaluates host env (.access name : Tree .context t) scope xs
  | chain {t : HostType} {steps : Chain t} {scope : Scope} {xs : List Float32} :
    steps.Evaluates host env scope xs → Tree.Evaluates host env (.chain steps) scope xs
  | detached {t : HostType} {steps : Chain t} {xs : List Float32} :
    steps.Evaluates host env [] xs → Tree.Evaluates host env (.detached steps) () xs
  | withInput {m t : HostType} {steps : Chain t} {x xs : List Float32} :
    steps.Evaluates host env [(inputName, m, x)] xs →
      Tree.Evaluates host env (.withInput steps : Tree (.data m) t) x xs

/-- The value of a chain is that of its last step. -/
inductive Chain.Evaluates (host : Host) (env : Environment) :
    {t : HostType} → Chain t → Scope → List Float32 → Prop where
  | step {r t : HostType} {before : Chain r} {name : Bytes} {op : Tree .context t}
    {scope scope' : Scope} {xs : List Float32} : before.Binds host env scope scope' →
      op.Evaluates host env scope' xs → Chain.Evaluates host env (.step before name op) scope xs

/-- Every step of a chain adds its value to what the steps after it see. -/
inductive Chain.Binds (host : Host) (env : Environment) :
    {t : HostType} → Chain t → Scope → Scope → Prop where
  | empty {t : HostType} {scope : Scope} : Chain.Binds host env (.empty : Chain t) scope scope
  | step {r t : HostType} {before : Chain r} {name : Bytes} {op : Tree .context t}
    {scope scope' : Scope} {xs : List Float32} : before.Binds host env scope scope' →
      op.Evaluates host env scope' xs →
      Chain.Binds host env (.step before name op) scope ((name, t, xs) :: scope')

end

theorem Input.Empty.unique {i : Input} {v w : i.Value} {x y : i.Meaning} (hx : Empty v x)
    (hy : Empty w y) : x = y := by
  cases hx with
  | none => rfl
  | context =>
    cases hy
    rfl

/-- Where every input holds nothing, there is only one input. -/
theorem Input.Empty.eq_of_forall {i : Input} {x y : i.Meaning} (h : ∀ v : i.Value, Empty v y) :
    x = y := by
  cases i with
  | none => rfl
  | context => cases h { entries := [([], { id := 0, type := .f32 })] }
  | data t => cases h (0 : ResultId)

theorem Input.Maps.unique {i j : Input} {f : i.Value → j.Value} {x : i.Meaning} {y z : j.Meaning}
    (hy : Maps f x y) (hz : Maps f x z) : y = z := by
  have value : Nonempty i.Value := by
    cases i with
    | none => exact ⟨()⟩
    | context => exact ⟨.empty⟩
    | data t => exact ⟨(0 : ResultId)⟩
  obtain ⟨v⟩ := value
  cases hy with
  | passOn hf =>
    cases hz with
    | passOn _ => rfl
    | discard hz => exact Input.Empty.eq_of_forall fun v => hf v ▸ hz v
  | discard hy =>
    cases hz with
    | passOn hf => exact (Input.Empty.eq_of_forall fun v => hf v ▸ hy v).symm
    | discard hz => exact (hy v).unique (hz v)

mutual

/-- A tree has at most one value. -/
theorem Tree.evaluates_unique {host : Host} {env : Environment} {i : Input} {t : HostType} :
    (tree : Tree i t) → {x : i.Meaning} → {xs ys : List Float32} → tree.Evaluates host env x xs →
      tree.Evaluates host env x ys → xs = ys
  | .constant _, _, _, _, h, h' => by
    cases h
    cases h'
    rfl
  | .parameter _ _, _, _, _, h, h' => by
    cases h with
    | parameter ht =>
      cases h' with
      | parameter ht' =>
        cases ht.symm.trans ht'
        rfl
  | .ref _, _, _, _, h, _ => nomatch h
  | .input, _, _, _, h, h' => by
    cases h
    cases h'
    rfl
  | .arithmetic _ a b, _, _, _, h, h' => by
    cases h with
    | arithmetic ha hb =>
      cases h' with
      | arithmetic ha' hb' => rw [a.evaluates_unique ha ha', b.evaluates_unique hb hb']
  | .extremum _ a b, _, _, _, h, h' => by
    cases h with
    | extremum ha hb =>
      cases h' with
      | extremum ha' hb' => rw [a.evaluates_unique ha ha', b.evaluates_unique hb hb']
  | .square of, _, _, _, h, h' => by
    cases h with
    | square h =>
      cases h' with
      | square h' => rw [of.evaluates_unique h h']
  | .elementary _ of, _, _, _, h, h' => by
    cases h with
    | elementary h =>
      cases h' with
      | elementary h' => rw [of.evaluates_unique h h']
  | .normalize of, _, _, _, h, h' => by
    cases h with
    | normalize h =>
      cases h' with
      | normalize h' => rw [of.evaluates_unique h h']
  | .cross a b, _, _, _, h, h' => by
    cases h with
    | cross ha hb =>
      cases h' with
      | cross ha' hb' =>
        cases a.evaluates_unique ha ha'
        cases b.evaluates_unique hb hb'
        rfl
  | .length of, _, _, _, h, h' => by
    cases h with
    | length h =>
      cases h' with
      | length h' => rw [of.evaluates_unique h h']
  | .select _ of, _, _, _, h, h' => by
    cases h with
    | select h he =>
      cases h' with
      | select h' he' =>
        cases of.evaluates_unique h h'
        cases he.symm.trans he'
        rfl
  | .link first second, _, _, _, h, h' => by
    cases h with
    | link hfirst hsecond =>
      cases h' with
      | link hfirst' hsecond' =>
        cases first.evaluates_unique hfirst hfirst'
        exact second.evaluates_unique hsecond hsecond'
  | .mapInput _ inner, _, _, _, h, h' => by
    cases h with
    | mapInput hf h =>
      cases h' with
      | mapInput hf' h' =>
        cases hf.unique hf'
        exact inner.evaluates_unique h h'
  | .access _, _, _, _, h, h' => by
    cases h with
    | access h =>
      cases h' with
      | access h' =>
        cases h.symm.trans h'
        rfl
  | .chain steps, _, _, _, h, h' => by
    cases h with
    | chain h =>
      cases h' with
      | chain h' => exact steps.evaluates_unique h h'
  | .detached steps, _, _, _, h, h' => by
    cases h with
    | detached h =>
      cases h' with
      | detached h' => exact steps.evaluates_unique h h'
  | .withInput steps, _, _, _, h, h' => by
    cases h with
    | withInput h =>
      cases h' with
      | withInput h' => exact steps.evaluates_unique h h'
  | .inspect _ _, _, _, _, h, _ => nomatch h
  | .missing, _, _, _, h, _ => nomatch h
termination_by structural tree => tree

theorem Chain.evaluates_unique {host : Host} {env : Environment} {t : HostType} :
    (steps : Chain t) → {scope : Scope} → {xs ys : List Float32} →
      steps.Evaluates host env scope xs → steps.Evaluates host env scope ys → xs = ys
  | .empty, _, _, _, h, _ => nomatch h
  | .step before _ op, _, _, _, h, h' => by
    cases h with
    | step hbinds h =>
      cases h' with
      | step hbinds' h' =>
        cases before.binds_unique hbinds hbinds'
        exact op.evaluates_unique h h'
termination_by structural steps => steps

theorem Chain.binds_unique {host : Host} {env : Environment} {t : HostType} :
    (steps : Chain t) → {scope left right : Scope} → steps.Binds host env scope left →
      steps.Binds host env scope right → left = right
  | .empty, _, _, _, h, h' => by
    cases h
    cases h'
    rfl
  | .step before _ op, _, _, _, h, h' => by
    cases h with
    | step hbinds h =>
      cases h' with
      | step hbinds' h' =>
        cases before.binds_unique hbinds hbinds'
        rw [op.evaluates_unique h h']
termination_by structural steps => steps

end

mutual

/-- The trees that have a value here: those over floats and vectors of floats that take nothing from
a module, and whose input maps pass their input on or discard it. -/
def Tree.Direct {i : Input} {t : HostType} : Tree i t → Prop
  | .constant _ | .parameter _ _ | .input | .access _ => ∃ n, t.Floats n
  | .ref _ | .inspect _ _ | .missing => False
  | .arithmetic _ a b => a.Direct ∧ b.Direct
  | .extremum _ a b => a.Direct ∧ b.Direct
  | .square of => of.Direct
  | .elementary _ of => of.Direct
  | .normalize of => of.Direct
  | .cross a b => a.Direct ∧ b.Direct
  | .length of => of.Direct
  | .select _ of => of.Direct
  | .link first second => first.Direct ∧ second.Direct
  | .mapInput f inner => (∀ x, ∃ y, Input.Maps f x y) ∧ inner.Direct
  | .chain steps => steps.Direct
  | .detached steps => steps.Direct
  | .withInput steps => steps.Direct

def Chain.Direct {t : HostType} : Chain t → Prop
  | .empty => True
  | .step before _ op => before.Direct ∧ op.Direct

end

end ShaderGraft
