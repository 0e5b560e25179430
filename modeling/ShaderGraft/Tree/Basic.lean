import ShaderGraft.Tree.Context

/-!
Operation trees. A tree has the host type of its result and the kind of input it is given; nodes
whose children do not fit cannot be written down.
-/

namespace ShaderGraft

/-- What a tree is given when it is compiled. -/
inductive Input where
  /-- Nothing. -/
  | none
  /-- The results of earlier steps. -/
  | context
  /-- A single result. -/
  | data (type : HostType)
deriving DecidableEq, Repr

/-- The inputs of a kind. -/
abbrev Input.Value : Input → Type
  | .none => Unit
  | .context => Context
  | .data _ => ResultId

/-- Operations on two values of the same type, component by component. -/
inductive Arithmetic where
  | add
  | sub
  | mul
  | div
deriving DecidableEq, Repr

/-- The larger or the smaller of two values, component by component. -/
inductive Extremum where
  | max
  | min
deriving DecidableEq, Repr

/-- Functions of one value, component by component. -/
inductive Elementary where
  | sqrt
  | abs
  | sine
  | cosine
  | tangent
deriving DecidableEq, Repr

mutual

/-- A tree with the given input and result type. -/
inductive Tree : Input → HostType → Type where
  | constant {i : Input} {t : HostType} (value : t.Value) : Tree i t
  /-- A runtime parameter by name, or a constant if there is none of that name and type. -/
  | parameter {i : Input} {t : HostType} (name : Bytes) (default : t.Value) : Tree i t
  /-- A result that is already there. -/
  | ref {i : Input} {t : HostType} (id : ResultId) : Tree i t
  /-- The input itself. -/
  | input {t : HostType} : Tree (.data t) t
  | arithmetic {i : Input} {t : HostType} (op : Arithmetic) (a b : Tree i t) : Tree i t
  | extremum {i : Input} {t : HostType} (op : Extremum) (a b : Tree i t) : Tree i t
  | square {i : Input} {t : HostType} (of : Tree i t) : Tree i t
  | elementary {i : Input} {t : HostType} (fn : Elementary) (of : Tree i t) : Tree i t
  | normalize {i : Input} {t : HostType} (of : Tree i t) : Tree i t
  | cross {i : Input} (a b : Tree i .vec3) : Tree i .vec3
  | length {i : Input} {v : HostType} (of : Tree i v) : Tree i .f32
  /-- A component of a vector. -/
  | select {i : Input} {v : HostType} (index : Word) (of : Tree i v) : Tree i .f32
  /-- The second tree on the result of the first. -/
  | link {i : Input} {m t : HostType} (first : Tree i m) (second : Tree (.data m) t) : Tree i t
  /-- A tree on a changed input. -/
  | mapInput {i j : Input} {t : HostType} (f : i.Value → j.Value) (inner : Tree j t) : Tree i t
  /-- The result of an earlier step. -/
  | access {t : HostType} (name : Bytes) : Tree .context t
  /-- A chain that sees the results of the chain around it. -/
  | chain {t : HostType} (steps : Chain t) : Tree .context t
  /-- A chain that starts without results. -/
  | detached {t : HostType} (steps : Chain t) : Tree .none t
  /-- A chain that starts with the input as a named result. -/
  | withInput {m t : HostType} (steps : Chain t) : Tree (.data m) t
  /-- A tree before which the context is recorded. -/
  | inspect {t : HostType} (names : List Bytes) (of : Tree .context t) : Tree .context t
  /-- A place where a tree is missing. -/
  | missing {i : Input} {t : HostType} : Tree i t

/-- Named steps in order, the last of which gives the result. -/
inductive Chain : HostType → Type where
  | empty {t : HostType} : Chain t
  | step {r t : HostType} (before : Chain r) (name : Bytes) (op : Tree .context t) : Chain t

end

end ShaderGraft
