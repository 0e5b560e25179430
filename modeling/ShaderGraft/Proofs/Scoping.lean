import ShaderGraft.Proofs.Simulation

/-!
# Chains are let-bindings

A chain binds the result of each step to the name of the step, for the steps after it. What a name
stands for at a place of a tree follows from the place alone: the latest step of that name before
the place, in the chains around it from the inside out, or else what the outermost of them was
given. `LetScope` is this rule. `Tree.Reaches` follows compiling to the places it comes to, with the
context that is there on the one hand and the scope by the rule on the other. They agree in all
chains, and a chain refers to an unknown name exactly if compiling comes to one (`Chain.scoped`).
-/

namespace ShaderGraft

/-! ### Names in scope -/

/-- The names in scope at a place: what the outermost chain around it was given, and the results of
the steps before it in the chains around it, the latest first. -/
structure LetScope where
  inherited : Context
  lets : List (Bytes × Binding)

namespace LetScope

/-- The scope at the start of an outermost chain. -/
def of (c : Context) : LetScope where
  inherited := c
  lets := []

/-- What a name stands for. The result of an earlier step of the same name is not looked at. -/
def find? (σ : LetScope) (name : Bytes) : Option Binding :=
  (σ.lets.lookup name).or (σ.inherited.find? name)

/-- The scope after a step. -/
def bind (σ : LetScope) (name : Bytes) (b : Binding) : LetScope :=
  { σ with lets := (name, b) :: σ.lets }

/-- The context with all results in scope. -/
def context (σ : LetScope) : Context :=
  σ.lets.foldr (fun entry c => c.bind entry.1 entry.2) σ.inherited

theorem bind_inj {σ τ : LetScope} {name : Bytes} {t : HostType} {id id' : ResultId}
    (h : σ.bind name ⟨id, t⟩ = τ.bind name ⟨id', t⟩) : σ = τ ∧ id = id' := by
  obtain ⟨c, lets⟩ := σ
  obtain ⟨c', lets'⟩ := τ
  cases h
  exact ⟨rfl, rfl⟩

/-- Overwriting results leaves the latest one of each name. -/
theorem find?_context (σ : LetScope) (name : Bytes) : σ.context.find? name = σ.find? name := by
  obtain ⟨c, lets⟩ := σ
  induction lets with
  | nil => rfl
  | cons entry lets ih =>
    obtain ⟨key, b⟩ := entry
    change (Context.bind (context ⟨c, lets⟩) key b).find? name = _
    by_cases hkey : name = key
    · subst hkey
      simp [find?, Context.find?, Context.bind]
    · have hbeq : (name == key) = false := by simpa using hkey
      rw [Context.find?_bind_ne _ hkey]
      simpa [find?, List.lookup_cons, hbeq] using ih

theorem contains_context (σ : LetScope) (name : Bytes) :
    σ.context.contains name = (σ.find? name).isSome := by
  rw [Context.contains, find?_context]

theorem access_eq_pure {σ : LetScope} {name : Bytes} {t : HostType} {id : ResultId}
    (h : σ.find? name = some ⟨id, t⟩) : Emit.access σ.context name t = pure id := by
  simp [Emit.access, Context.get?, find?_context, h]

theorem access_eq_throw {σ : LetScope} {name : Bytes} {t : HostType}
    (h : ∀ id, σ.find? name ≠ some ⟨id, t⟩) :
    Emit.access σ.context name t = throw (.unresolved name t) := by
  have hnone : σ.context.get? name t = none := by
    rw [Context.get?, find?_context]
    cases hb : σ.find? name with
    | none => rfl
    | some b =>
      have hne : b.type ≠ t := by
        rintro rfl
        exact h b.id hb
      simp [hne]
  simp only [Emit.access, hnone]

/-- Looking a name up gives what it stands for if this has the wanted type. -/
theorem run_access (σ : LetScope) (name : Bytes) (t : HostType) (s : Serializer) :
    (∀ id, (Emit.access σ.context name t).run s = .ok id s ↔ σ.find? name = some ⟨id, t⟩) ∧
    ((Emit.access σ.context name t).run s = .error (.unresolved name t) s ↔
      ∀ id, σ.find? name ≠ some ⟨id, t⟩) := by
  by_cases hfind : ∃ id, σ.find? name = some ⟨id, t⟩
  · obtain ⟨id, hid⟩ := hfind
    rw [access_eq_pure hid, hid]
    refine ⟨fun id' => ⟨?_, ?_⟩, ?_, fun h => absurd rfl (h id)⟩
    · intro h
      cases h
      rfl
    · intro h
      cases h
      rfl
    · intro h
      cases h
  · have hnone := not_exists.1 hfind
    rw [access_eq_throw hnone]
    refine ⟨fun id => ⟨?_, fun h => absurd h (hnone id)⟩, fun _ => hnone, fun _ => rfl⟩
    intro h
    cases h

end LetScope

/-! ### Runs of steps -/

namespace Emit

variable {α β : Type} {s s' : Serializer} {e : EmitError}

theorem run_bind_eq_ok {x : Emit α} {f : α → Emit β} {b : β} :
    (x >>= f).run s = .ok b s' ↔ ∃ a s₁, x.run s = .ok a s₁ ∧ (f a).run s₁ = .ok b s' := by
  rw [EStateM.run_bind]
  cases x.run s <;> simp

theorem run_bind_eq_error {x : Emit α} {f : α → Emit β} :
    (x >>= f).run s = .error e s' ↔
      x.run s = .error e s' ∨ ∃ a s₁, x.run s = .ok a s₁ ∧ (f a).run s₁ = .error e s' := by
  rw [EStateM.run_bind]
  cases x.run s <;> simp

theorem run_step_eq_ok {c c' : Context} {name : Bytes} {t : HostType} {x : Emit ResultId}
    {id : ResultId} :
    (step c name t x).run s = .ok (id, c') s' ↔ c' = c.bind name ⟨id, t⟩ ∧
      ∃ s₁, x.run s = .ok id s₁ ∧ s' = if c.contains name then
        { s₁ with log := s₁.log ++ [.resultOverwritten name] } else s₁ := by
  rw [step, run_bind_eq_ok]
  constructor
  · rintro ⟨id', s₁, hx, h⟩
    split at h
    · rename_i hbound
      cases h
      exact ⟨rfl, s₁, hx, by rw [if_pos hbound]⟩
    · rename_i hbound
      cases h
      exact ⟨rfl, _, hx, by rw [if_neg hbound]⟩
  · rintro ⟨rfl, s₁, hx, rfl⟩
    refine ⟨id, s₁, hx, ?_⟩
    split
    · rfl
    · rfl

theorem run_step_eq_error {c : Context} {name : Bytes} {t : HostType} {x : Emit ResultId} :
    (step c name t x).run s = .error e s' ↔ x.run s = .error e s' := by
  rw [step, run_bind_eq_error]
  refine ⟨fun h => h.resolve_right ?_, .inl⟩
  rintro ⟨id, s₁, -, h⟩
  split at h
  · cases h
  · cases h

end Emit

namespace Chain

/-- The steps of a chain, one after the other in a scope that grows by the result of each. A result
whose name was in scope already is warned about. -/
inductive Performs (σ : LetScope) (s : Serializer) :
    {t : HostType} → Chain t → LetScope → Serializer → Prop where
  | empty {t : HostType} : Performs σ s (.empty : Chain t) σ s
  | fresh {r t : HostType} {before : Chain r} {name : Bytes} {op : Tree .context t} {τ : LetScope}
    {s₁ s₂ : Serializer} {id : ResultId} : before.Performs σ s τ s₁ →
      (op.serialize τ.context).run s₁ = .ok id s₂ → τ.find? name = none →
      Performs σ s (.step before name op) (τ.bind name ⟨id, t⟩) s₂
  | again {r t : HostType} {before : Chain r} {name : Bytes} {op : Tree .context t} {τ : LetScope}
    {s₁ s₂ : Serializer} {id : ResultId} {old : Binding} : before.Performs σ s τ s₁ →
      (op.serialize τ.context).run s₁ = .ok id s₂ → τ.find? name = some old →
      Performs σ s (.step before name op) (τ.bind name ⟨id, t⟩)
        { s₂ with log := s₂.log ++ [.resultOverwritten name] }

/-- Whether a chain has a step right after a part of it. -/
inductive HasStep : {t r u : HostType} → Chain t → Chain r → Bytes → Tree .context u → Prop where
  | last {r u : HostType} {before : Chain r} {name : Bytes} {op : Tree .context u} :
    HasStep (.step before name op) before name op
  | earlier {q t r u : HostType} {c : Chain q} {other : Bytes} {next : Tree .context t}
    {before : Chain r} {name : Bytes} {op : Tree .context u} :
    c.HasStep before name op → HasStep (.step c other next) before name op

/-- A step that fails after the steps before it were performed. -/
inductive Fails (σ : LetScope) (s : Serializer) {t : HostType} (c : Chain t) (e : EmitError)
    (s' : Serializer) : Prop where
  | step {r u : HostType} {before : Chain r} {name : Bytes} {op : Tree .context u} {τ : LetScope}
    {s₁ : Serializer} : c.HasStep before name op → before.Performs σ s τ s₁ →
      (op.serialize τ.context).run s₁ = .error e s' → Fails σ s c e s'

variable {σ τ : LetScope} {s s' s₁ s₂ : Serializer} {e : EmitError}

theorem performs_step_iff {r t : HostType} {before : Chain r} {name : Bytes}
    {op : Tree .context t} :
    (Chain.step before name op).Performs σ s τ s' ↔ ∃ τ₁ s₁ id s₂, before.Performs σ s τ₁ s₁ ∧
      (op.serialize τ₁.context).run s₁ = .ok id s₂ ∧ τ = τ₁.bind name ⟨id, t⟩ ∧
      s' = if τ₁.context.contains name then
        { s₂ with log := s₂.log ++ [.resultOverwritten name] } else s₂ := by
  constructor
  · intro h
    cases h with
    | fresh hbefore hop hnew =>
      exact ⟨_, _, _, _, hbefore, hop, rfl, by simp [LetScope.contains_context, hnew]⟩
    | again hbefore hop hold =>
      exact ⟨_, _, _, _, hbefore, hop, rfl, by simp [LetScope.contains_context, hold]⟩
  · rintro ⟨τ₁, s₁, id, s₂, hbefore, hop, rfl, rfl⟩
    rw [LetScope.contains_context]
    cases hname : τ₁.find? name with
    | none => exact .fresh hbefore hop hname
    | some old => exact .again hbefore hop hname

/-- Performing steps adds to what was inherited and leaves it as it is. -/
theorem Performs.inherited_eq {t : HostType} {c : Chain t} (h : c.Performs σ s τ s') :
    τ.inherited = σ.inherited := by
  induction h with
  | empty => rfl
  | fresh _ _ _ ih => exact ih
  | again _ _ _ ih => exact ih

theorem fails_step_iff {r t : HostType} {before : Chain r} {name : Bytes}
    {op : Tree .context t} :
    (Chain.step before name op).Fails σ s e s' ↔ before.Fails σ s e s' ∨
      ∃ τ s₁, before.Performs σ s τ s₁ ∧ (op.serialize τ.context).run s₁ = .error e s' := by
  constructor
  · rintro ⟨hstep, hperforms, hop⟩
    cases hstep with
    | last => exact .inr ⟨_, _, hperforms, hop⟩
    | earlier hstep => exact .inl (.step hstep hperforms hop)
  · rintro (⟨hstep, hperforms, hop⟩ | ⟨τ, s₁, hperforms, hop⟩)
    · exact .step (.earlier hstep) hperforms hop
    · exact .step .last hperforms hop

/-- The last step of a chain, of which either the result or the context is kept. -/
theorem run_last_eq_ok {r t : HostType} {β : Type} {before : Chain r} {name : Bytes}
    {op : Tree .context t} {f : ResultId × Context → β} {b : β}
    (hbefore : ∀ {y s₁}, (before.extend σ.context).run s = .ok y s₁ ↔
      ∃ τ, before.Performs σ s τ s₁ ∧ y = τ.context) :
    (do
      let c ← before.extend σ.context
      return f (← Emit.step c name t (op.serialize c)) : Emit β).run s = .ok b s' ↔
    ∃ (τ : LetScope) (id : ResultId),
      (Chain.step before name op).Performs σ s (τ.bind name ⟨id, t⟩) s' ∧
      b = f (id, (τ.bind name ⟨id, t⟩).context) := by
  rw [Emit.run_bind_eq_ok]
  constructor
  · rintro ⟨y, s₁, hrun, h⟩
    obtain ⟨τ, hperforms, rfl⟩ := hbefore.1 hrun
    obtain ⟨⟨id, c⟩, s₂, hstep, h⟩ := Emit.run_bind_eq_ok.1 h
    cases h
    obtain ⟨rfl, s₃, hop, rfl⟩ := Emit.run_step_eq_ok.1 hstep
    exact ⟨τ, id, performs_step_iff.2 ⟨τ, s₁, id, s₃, hperforms, hop, rfl, rfl⟩, rfl⟩
  · rintro ⟨τ, id, h, rfl⟩
    obtain ⟨τ₁, s₁, id₁, s₂, hperforms, hop, hbind, rfl⟩ := performs_step_iff.1 h
    obtain ⟨rfl, rfl⟩ := LetScope.bind_inj hbind
    refine ⟨τ.context, s₁, hbefore.2 ⟨τ, hperforms, rfl⟩, Emit.run_bind_eq_ok.2 ?_⟩
    exact ⟨(id, _), _, Emit.run_step_eq_ok.2 ⟨rfl, s₂, hop, rfl⟩, rfl⟩

/-- A chain extends the context of a scope to that of the scope it leaves. -/
theorem run_extend_eq_ok {t : HostType} : (c : Chain t) → {y : Context} → {s' : Serializer} →
    ((c.extend σ.context).run s = .ok y s' ↔ ∃ τ, c.Performs σ s τ s' ∧ y = τ.context)
  | .empty, y, s' => by
    rw [extend]
    constructor
    · intro h
      cases h
      exact ⟨σ, .empty, rfl⟩
    · rintro ⟨τ, h, rfl⟩
      cases h
      rfl
  | .step before name op, y, s' => by
    rw [extend, run_last_eq_ok (run_extend_eq_ok before)]
    constructor
    · rintro ⟨τ, id, h, rfl⟩
      exact ⟨_, h, rfl⟩
    · rintro ⟨τ, h, rfl⟩
      obtain ⟨τ₁, -, id, -, -, -, rfl, -⟩ := performs_step_iff.1 h
      exact ⟨τ₁, id, h, rfl⟩

theorem run_last_eq_error {r t : HostType} {β : Type} {before : Chain r} {name : Bytes}
    {op : Tree .context t} {f : ResultId × Context → β}
    (hbefore : (before.extend σ.context).run s = .error e s' ↔ before.Fails σ s e s') :
    (do
      let c ← before.extend σ.context
      return f (← Emit.step c name t (op.serialize c)) : Emit β).run s = .error e s' ↔
    (Chain.step before name op).Fails σ s e s' := by
  rw [Emit.run_bind_eq_error, hbefore, fails_step_iff]
  refine or_congr_right ⟨?_, ?_⟩
  · rintro ⟨y, s₁, hrun, h⟩
    obtain ⟨τ, hperforms, rfl⟩ := (run_extend_eq_ok before).1 hrun
    obtain h | ⟨p, s₂, -, h⟩ := Emit.run_bind_eq_error.1 h
    · exact ⟨τ, s₁, hperforms, Emit.run_step_eq_error.1 h⟩
    · cases h
  · rintro ⟨τ, s₁, hperforms, hop⟩
    refine ⟨τ.context, s₁, (run_extend_eq_ok before).2 ⟨τ, hperforms, rfl⟩, ?_⟩
    exact Emit.run_bind_eq_error.2 (.inl (Emit.run_step_eq_error.2 hop))

theorem run_extend_eq_error {t : HostType} (c : Chain t) :
    (c.extend σ.context).run s = .error e s' ↔ c.Fails σ s e s' := by
  cases c with
  | empty =>
    rw [extend]
    constructor
    · intro h
      cases h
    · rintro ⟨hstep, -, -⟩
      cases hstep
  | step before name op =>
    rw [extend]
    exact run_last_eq_error (run_extend_eq_error before)

/-- The result of a chain is that of its last step. -/
theorem run_serialize_eq_ok {r t : HostType} {before : Chain r} {name : Bytes}
    {op : Tree .context t} {id : ResultId} :
    ((Chain.step before name op).serialize σ.context).run s = .ok id s' ↔
      ∃ τ : LetScope, (Chain.step before name op).Performs σ s (τ.bind name ⟨id, t⟩) s' := by
  rw [serialize, run_last_eq_ok (run_extend_eq_ok before)]
  constructor
  · rintro ⟨τ, id', h, rfl⟩
    exact ⟨τ, h⟩
  · rintro ⟨τ, h⟩
    exact ⟨τ, id, h, rfl⟩

theorem run_serialize_eq_error {r t : HostType} {before : Chain r} {name : Bytes}
    {op : Tree .context t} :
    ((Chain.step before name op).serialize σ.context).run s = .error e s' ↔
      (Chain.step before name op).Fails σ s e s' := by
  rw [serialize]
  exact run_last_eq_error (run_extend_eq_error before)

end Chain

/-! ### The places that compiling comes to -/

/-- The scope that goes with an input. -/
abbrev Input.LetScope : Input → Type
  | .none => Unit
  | .context => ShaderGraft.LetScope
  | .data _ => Unit

/-- The scope of an input that was given from outside. -/
def Input.outset : (i : Input) → i.Value → i.LetScope
  | .none, _ => ()
  | .context, c => .of c
  | .data _, _ => ()

/-- `c.Calls x σ s op y τ s₁` says that the chain on the context `x`, in the scope `σ` and from the
state `s`, comes to its step `op` on the context `y`, in the scope `τ` and in the state `s₁`. -/
inductive Chain.Calls {t : HostType} (c : Chain t) (x : Context) (σ : LetScope) (s : Serializer) :
    {u : HostType} → Tree .context u → Context → LetScope → Serializer → Prop where
  | step {r u : HostType} {before : Chain r} {name : Bytes} {op : Tree .context u} {y : Context}
    {τ : LetScope} {s₁ : Serializer} : c.HasStep before name op →
      (before.extend x).run s = .ok y s₁ → before.Performs σ s τ s₁ → Calls c x σ s op y τ s₁

/-- `tree.Calls x σ s child y τ s₁` says the same for a tree and a tree right below it. Operands are
in the scope of the node, and what another operand binds is not in it. -/
inductive Tree.Calls : {i j : Input} → {t u : HostType} → Tree i t → i.Value → i.LetScope →
    Serializer → Tree j u → j.Value → j.LetScope → Serializer → Prop where
  | arithmeticLeft {i : Input} {t : HostType} {op : Arithmetic} {a b : Tree i t} {x : i.Value}
    {σ : i.LetScope} {s : Serializer} : Calls (.arithmetic op a b) x σ s a x σ s
  | arithmeticRight {i : Input} {t : HostType} {op : Arithmetic} {a b : Tree i t} {x : i.Value}
    {σ : i.LetScope} {s s₁ : Serializer} {id : ResultId} : (a.serialize x).run s = .ok id s₁ →
      Calls (.arithmetic op a b) x σ s b x σ s₁
  | extremumLeft {i : Input} {t : HostType} {op : Extremum} {a b : Tree i t} {x : i.Value}
    {σ : i.LetScope} {s : Serializer} : Calls (.extremum op a b) x σ s a x σ s
  | extremumRight {i : Input} {t : HostType} {op : Extremum} {a b : Tree i t} {x : i.Value}
    {σ : i.LetScope} {s s₁ : Serializer} {id : ResultId} : (a.serialize x).run s = .ok id s₁ →
      Calls (.extremum op a b) x σ s b x σ s₁
  | square {i : Input} {t : HostType} {of : Tree i t} {x : i.Value} {σ : i.LetScope}
    {s : Serializer} : Calls (.square of) x σ s of x σ s
  | elementary {i : Input} {t : HostType} {fn : Elementary} {of : Tree i t} {x : i.Value}
    {σ : i.LetScope} {s : Serializer} : Calls (.elementary fn of) x σ s of x σ s
  | normalize {i : Input} {t : HostType} {of : Tree i t} {x : i.Value} {σ : i.LetScope}
    {s s₁ : Serializer} {count : Word} : (Emit.floatVector "Normalize" t).run s = .ok count s₁ →
      Calls (.normalize of) x σ s of x σ s₁
  | crossLeft {i : Input} {a b : Tree i .vec3} {x : i.Value} {σ : i.LetScope} {s : Serializer} :
    Calls (.cross a b) x σ s a x σ s
  | crossRight {i : Input} {a b : Tree i .vec3} {x : i.Value} {σ : i.LetScope}
    {s s₁ : Serializer} {id : ResultId} : (a.serialize x).run s = .ok id s₁ →
      Calls (.cross a b) x σ s b x σ s₁
  | length {i : Input} {v : HostType} {of : Tree i v} {x : i.Value} {σ : i.LetScope}
    {s s₁ : Serializer} {count : Word} : (Emit.floatVector "Length" v).run s = .ok count s₁ →
      Calls (.length of) x σ s of x σ s₁
  | select {i : Input} {v : HostType} {index : Word} {of : Tree i v} {x : i.Value}
    {σ : i.LetScope} {s s₁ : Serializer} {count : Word} :
    (Emit.floatVector "VectorElementSelect" v).run s = .ok count s₁ → ¬ index ≥ count →
      Calls (.select index of) x σ s of x σ s₁
  | linkFirst {i : Input} {m t : HostType} {first : Tree i m} {second : Tree (.data m) t}
    {x : i.Value} {σ : i.LetScope} {s : Serializer} :
    Calls (.link first second) x σ s first x σ s
  | linkSecond {i : Input} {m t : HostType} {first : Tree i m} {second : Tree (.data m) t}
    {x : i.Value} {σ : i.LetScope} {s s₁ : Serializer} {y : ResultId} :
    (first.serialize x).run s = .ok y s₁ → Calls (.link first second) x σ s second y () s₁
  | mapInput {i j : Input} {t : HostType} {f : i.Value → j.Value} {inner : Tree j t} {x : i.Value}
    {σ : i.LetScope} {s : Serializer} :
    Calls (.mapInput f inner) x σ s inner (f x) (j.outset (f x)) s
  | chain {t u : HostType} {steps : Chain t} {op : Tree .context u} {x y : Context}
    {σ τ : LetScope} {s s₁ : Serializer} : steps.Calls x σ s op y τ s₁ →
      Calls (.chain steps) x σ s op y τ s₁
  | detached {t u : HostType} {steps : Chain t} {op : Tree .context u} {y : Context}
    {τ : LetScope} {s s₁ : Serializer} : steps.Calls .empty (.of .empty) s op y τ s₁ →
      Calls (.detached steps) () () s op y τ s₁
  | withInput {m t u : HostType} {steps : Chain t} {op : Tree .context u} {x : ResultId}
    {c y : Context} {τ : LetScope} {s s₁ : Serializer} :
    c = Context.empty.bind inputName ⟨x, m⟩ → steps.Calls c (.of c) s op y τ s₁ →
      Calls (.withInput steps : Tree (.data m) t) x () s op y τ s₁
  | inspect {t : HostType} {names : List Bytes} {of : Tree .context t} {x : Context}
    {σ : LetScope} {s s₁ : Serializer} {u : Unit} :
    (Emit.tell (.contextInspected x.size (names.map fun name =>
      { binding := x.find? name, typed := x.get? name t }))).run s = .ok u s₁ →
      Calls (.inspect names of) x σ s of x σ s₁

/-- `tree.Reaches x σ s goal y τ s'` says that compiling the tree on the input `x`, in the scope `σ`
and from the state `s`, comes to the tree `goal` on the input `y`, in the scope `τ` and in the state
`s'`. -/
inductive Tree.Reaches : {i j : Input} → {t u : HostType} → Tree i t → i.Value → i.LetScope →
    Serializer → Tree j u → j.Value → j.LetScope → Serializer → Prop where
  | here {i : Input} {t : HostType} {tree : Tree i t} {x : i.Value} {σ : i.LetScope}
    {s : Serializer} : Reaches tree x σ s tree x σ s
  | call {i j k : Input} {t u v : HostType} {tree : Tree i t} {child : Tree k v} {goal : Tree j u}
    {x : i.Value} {z : k.Value} {y : j.Value} {σ : i.LetScope} {ρ : k.LetScope} {τ : j.LetScope}
    {s s₁ s' : Serializer} : tree.Calls x σ s child z ρ s₁ → child.Reaches z ρ s₁ goal y τ s' →
      Reaches tree x σ s goal y τ s'

/-! ### Contexts agree with scopes -/

/-- Whether an input is what its scope says. -/
def Input.Agrees : (i : Input) → i.Value → i.LetScope → Prop
  | .none, _, _ => True
  | .context, c, σ => c = σ.context
  | .data _, _, _ => True

theorem Input.agrees_outset : (i : Input) → (x : i.Value) → i.Agrees x (i.outset x)
  | .none, _ => trivial
  | .context, _ => rfl
  | .data _, _ => trivial

theorem Chain.Calls.agrees {t u : HostType} {c : Chain t} {op : Tree .context u} {x y : Context}
    {σ τ : LetScope} {s s₁ : Serializer} (h : c.Calls x σ s op y τ s₁) (hx : x = σ.context) :
    y = τ.context := by
  obtain ⟨-, hrun, hperforms⟩ := h
  rw [hx, (run_extend_eq_ok _).2 ⟨τ, hperforms, rfl⟩] at hrun
  cases hrun
  rfl

theorem Tree.Calls.agrees {i j : Input} {t u : HostType} {tree : Tree i t} {child : Tree j u}
    {x : i.Value} {y : j.Value} {σ : i.LetScope} {τ : j.LetScope} {s s₁ : Serializer}
    (h : tree.Calls x σ s child y τ s₁) (hx : i.Agrees x σ) : j.Agrees y τ := by
  cases h with
  | arithmeticLeft | arithmeticRight | extremumLeft | extremumRight | square | elementary
  | normalize | crossLeft | crossRight | length | select | linkFirst | inspect => exact hx
  | linkSecond => trivial
  | mapInput => exact Input.agrees_outset _ _
  | chain h => exact h.agrees hx
  | detached h => exact h.agrees rfl
  | withInput _ h => exact h.agrees rfl

theorem Tree.Reaches.agrees {i j : Input} {t u : HostType} {tree : Tree i t} {goal : Tree j u}
    {x : i.Value} {y : j.Value} {σ : i.LetScope} {τ : j.LetScope} {s s' : Serializer}
    (h : tree.Reaches x σ s goal y τ s') (hx : i.Agrees x σ) : j.Agrees y τ := by
  induction h with
  | here => exact hx
  | call hcall _ ih => exact ih (hcall.agrees hx)

/-! ### Failing below is failing -/

theorem Chain.Fails.run_serialize {t : HostType} {σ : LetScope} {s s' : Serializer} {e : EmitError}
    {c : Chain t} (h : c.Fails σ s e s') : (c.serialize σ.context).run s = .error e s' := by
  cases c with
  | empty =>
    obtain ⟨hstep, -, -⟩ := h
    cases hstep
  | step before name op => exact run_serialize_eq_error.2 h

theorem Chain.fails_of_run {t : HostType} {σ : LetScope} {s s' : Serializer} {e : EmitError}
    {c : Chain t} (h : (c.serialize σ.context).run s = .error e s') (he : e ≠ .emptyChain) :
    c.Fails σ s e s' := by
  cases c with
  | empty =>
    rw [serialize] at h
    cases h
    exact absurd rfl he
  | step before name op => exact run_serialize_eq_error.1 h

theorem Chain.Calls.run_serialize {t u : HostType} {c : Chain t} {op : Tree .context u}
    {x y : Context} {σ τ : LetScope} {s s₁ s' : Serializer} {e : EmitError}
    (h : c.Calls x σ s op y τ s₁) (hx : x = σ.context)
    (he : (op.serialize y).run s₁ = .error e s') : (c.serialize x).run s = .error e s' := by
  have hy := h.agrees hx
  obtain ⟨hstep, -, hperforms⟩ := h
  subst hx hy
  exact Fails.run_serialize (.step hstep hperforms he)

open Emit in
theorem Tree.Calls.run_serialize {i j : Input} {t u : HostType} {tree : Tree i t} {child : Tree j u}
    {x : i.Value} {y : j.Value} {σ : i.LetScope} {τ : j.LetScope} {s s₁ s' : Serializer}
    {e : EmitError} (h : tree.Calls x σ s child y τ s₁) (hx : i.Agrees x σ)
    (he : (child.serialize y).run s₁ = .error e s') :
    (tree.serialize x).run s = .error e s' := by
  cases h with
  | arithmeticLeft | extremumLeft | square | elementary | crossLeft | linkFirst =>
    rw [Tree.serialize]
    exact run_bind_eq_error.2 (.inl he)
  | arithmeticRight ha | extremumRight ha | crossRight ha =>
    rw [Tree.serialize]
    exact run_bind_eq_error.2 (.inr ⟨_, _, ha, run_bind_eq_error.2 (.inl he)⟩)
  | normalize hcount | length hcount =>
    rw [Tree.serialize]
    exact run_bind_eq_error.2 (.inr ⟨_, _, hcount, run_bind_eq_error.2 (.inl he)⟩)
  | select hcount hindex =>
    rw [Tree.serialize]
    refine run_bind_eq_error.2 (.inr ⟨_, _, hcount, ?_⟩)
    rw [if_neg hindex]
    exact run_bind_eq_error.2 (.inl he)
  | linkSecond hfirst =>
    rw [Tree.serialize]
    exact run_bind_eq_error.2 (.inr ⟨_, _, hfirst, he⟩)
  | mapInput =>
    rw [Tree.serialize]
    exact he
  | chain h =>
    rw [Tree.serialize]
    exact h.run_serialize hx he
  | detached h =>
    rw [Tree.serialize]
    exact h.run_serialize rfl he
  | withInput hc h =>
    rw [Tree.serialize]
    subst hc
    exact h.run_serialize rfl he
  | inspect htell =>
    rw [Tree.serialize]
    exact run_bind_eq_error.2 (.inr ⟨_, _, htell, he⟩)

theorem Tree.Reaches.run_serialize {i j : Input} {t u : HostType} {tree : Tree i t}
    {goal : Tree j u} {x : i.Value} {y : j.Value} {σ : i.LetScope} {τ : j.LetScope}
    {s s₁ s' : Serializer} {e : EmitError} (h : tree.Reaches x σ s goal y τ s₁)
    (hx : i.Agrees x σ) (he : (goal.serialize y).run s₁ = .error e s') :
    (tree.serialize x).run s = .error e s' := by
  induction h with
  | here => exact he
  | call hcall _ ih => exact hcall.run_serialize hx (ih (hcall.agrees hx) he)

/-! ### Only names are unresolved -/

namespace Emit

variable {α β : Type}

/-- A step that never ends with a name that stands for nothing. -/
def NameFree (x : Emit α) : Prop :=
  ∀ s key u s', x.run s ≠ .error (.unresolved key u) s'

theorem nameFree_pure (a : α) : NameFree (pure a) := by
  intro s key u s' h
  cases h

theorem nameFree_throw {e : EmitError} (he : ∀ key u, e ≠ .unresolved key u) :
    NameFree (throw e : Emit α) := by
  intro s key u s' h
  cases h
  exact he key u rfl

theorem NameFree.bind {x : Emit α} {f : α → Emit β} (hx : x.NameFree) (hf : ∀ a, (f a).NameFree) :
    (x >>= f).NameFree := by
  intro s key u s' h
  obtain h | ⟨a, s₁, -, h⟩ := run_bind_eq_error.1 h
  · exact hx s key u s' h
  · exact hf a s₁ key u s' h

theorem NameFree.mapM {f : α → Emit β} (hf : ∀ a, (f a).NameFree) (as : List α) :
    (as.mapM f).NameFree := by
  induction as with
  | nil => exact nameFree_pure []
  | cons a as ih =>
    rw [List.mapM_cons]
    exact (hf a).bind fun _ => ih.bind fun _ => nameFree_pure _

theorem nameFree_build (step : Build α) : (build step).NameFree := by
  intro s key u s' h
  rw [run_build] at h
  cases hstep : step.run s.builder with
  | ok a b =>
    rw [hstep] at h
    cases h
  | error e b =>
    rw [hstep] at h
    cases h

theorem nameFree_tell (r : Record) : (tell r).NameFree := by
  intro s key u s' h
  cases h

theorem nameFree_declare (step : Declare α) : (declare step).NameFree :=
  nameFree_build _

theorem nameFree_typeId (t : ValueType) : (typeId t).NameFree := by
  refine (nameFree_declare _).bind fun id => ?_
  cases id with
  | none => exact nameFree_throw (by simp)
  | some id => exact nameFree_pure id

theorem nameFree_valueType (t : HostType) : (valueType t).NameFree := by
  unfold valueType
  split
  · exact nameFree_pure _
  · exact nameFree_throw (by simp)

theorem nameFree_get : (get : Emit Serializer).NameFree := by
  intro s key u s' h
  cases h

theorem nameFree_instructionSet : instructionSet.NameFree := by
  refine nameFree_get.bind fun s => ?_
  split
  · refine (nameFree_declare _).bind fun id => ?_
    intro s key u s' h
    cases h
  · exact nameFree_pure _

theorem nameFree_extended (type : ResultId) (n : Word) (operands : List ResultId) :
    (extended type n operands).NameFree :=
  nameFree_instructionSet.bind fun _ => nameFree_build _

theorem nameFree_floatTypeId (node : String) (t : HostType) : (floatTypeId node t).NameFree := by
  refine (nameFree_valueType t).bind fun type => ?_
  split
  · exact nameFree_typeId type
  · exact nameFree_throw (by simp)

theorem nameFree_floatVector (node : String) (t : HostType) : (floatVector node t).NameFree := by
  refine (nameFree_valueType t).bind fun type => ?_
  split
  · exact nameFree_pure _
  · exact nameFree_throw (by simp)

end Emit

open Emit

theorem Scalar.nameFree_emit (s : Scalar) (v : s.Value) : (s.emit v).NameFree :=
  (nameFree_typeId _).bind fun _ => nameFree_declare _

theorem Scalar.nameFree_emitVector (s : Scalar) (vs : List s.Value) : (s.emitVector vs).NameFree :=
  (nameFree_typeId _).bind fun _ => (NameFree.mapM s.nameFree_emit vs).bind fun _ =>
    nameFree_declare _

theorem nameFree_emitMatrix (n : Nat) (elements : List UInt32) :
    (emitMatrix n elements).NameFree := by
  refine (nameFree_typeId _).bind fun _ => (nameFree_typeId _).bind fun _ =>
    (nameFree_typeId _).bind fun _ => ?_
  refine (NameFree.mapM (fun c => ?_) _).bind fun _ => nameFree_declare _
  exact (NameFree.mapM (fun _ => nameFree_declare _) _).bind fun _ => nameFree_declare _

theorem HostType.nameFree_emit (t : HostType) (v : t.Value) : (t.emit v).NameFree := by
  unfold HostType.emit
  split
  · exact Scalar.nameFree_emit _ _
  · exact Scalar.nameFree_emit _ _
  · exact Scalar.nameFree_emitVector _ _
  · exact Scalar.nameFree_emitVector _ _
  · exact Scalar.nameFree_emitVector _ _
  · exact Scalar.nameFree_emitVector _ _
  · exact nameFree_emitMatrix _ _
  · exact nameFree_emitMatrix _ _
  · exact nameFree_emitMatrix _ _
  · exact (nameFree_valueType _).bind fun _ => Scalar.nameFree_emitVector _ _
  · exact (nameFree_valueType _).bind fun _ => Scalar.nameFree_emitVector _ _
  · split
    · exact nameFree_throw (by simp)
    · exact nameFree_throw (by simp)

theorem Emit.nameFree_parameter (name : Bytes) (t : HostType) (default : t.Value) :
    (parameter name t default).NameFree := by
  refine (nameFree_valueType t).bind fun type => nameFree_get.bind fun s => ?_
  split
  · exact nameFree_build _
  · exact (nameFree_tell _).bind fun _ => t.nameFree_emit default

/-! ### Names that stand for nothing -/

/-- Compiling comes to a name that stands for nothing of the wanted type. -/
def Tree.Misses {i : Input} {t : HostType} (tree : Tree i t) (x : i.Value) (σ : i.LetScope)
    (s : Serializer) (key : Bytes) (u : HostType) (s' : Serializer) : Prop :=
  ∃ y τ, tree.Reaches x σ s (.access key : Tree .context u) y τ s' ∧
    ∀ id, τ.find? key ≠ some ⟨id, u⟩

theorem Tree.Calls.misses {i j : Input} {t u v : HostType} {tree : Tree i t} {child : Tree j v}
    {x : i.Value} {y : j.Value} {σ : i.LetScope} {τ : j.LetScope} {s s₁ s' : Serializer}
    {key : Bytes} (h : tree.Calls x σ s child y τ s₁) (hchild : child.Misses y τ s₁ key u s') :
    tree.Misses x σ s key u s' := by
  obtain ⟨z, ρ, hreaches, hnone⟩ := hchild
  exact ⟨z, ρ, .call h hreaches, hnone⟩

/-- A step of a chain that comes to such a name. -/
def Chain.Misses {t : HostType} (c : Chain t) (σ : LetScope) (s : Serializer) (key : Bytes)
    (u : HostType) (s' : Serializer) : Prop :=
  ∃ (v : HostType) (op : Tree .context v) (y : Context) (τ : LetScope) (s₁ : Serializer),
    c.Calls σ.context σ s op y τ s₁ ∧ op.Misses y τ s₁ key u s'

section

variable {key : Bytes} {u : HostType} {s' : Serializer}

mutual

-- Only an access can end so by itself; everywhere else the error comes from a child.
theorem Tree.misses_of_unresolved {i : Input} {t : HostType} : (tree : Tree i t) →
    {x : i.Value} → {σ : i.LetScope} → {s : Serializer} → i.Agrees x σ →
    (tree.serialize x).run s = .error (.unresolved key u) s' → tree.Misses x σ s key u s'
  | .constant value, _, _, s, _, h => by
    rw [Tree.serialize] at h
    exact absurd h (t.nameFree_emit value s key u s')
  | .parameter name default, _, _, s, _, h => by
    rw [Tree.serialize] at h
    exact absurd h (nameFree_parameter name t default s key u s')
  | .ref id, _, _, s, _, h => by
    rw [Tree.serialize] at h
    exact absurd h (nameFree_pure id s key u s')
  | .input, x, _, s, _, h => by
    rw [Tree.serialize] at h
    exact absurd h (nameFree_pure x s key u s')
  | .arithmetic _ a b, _, _, _, hx, h => by
    rw [Tree.serialize] at h
    obtain h | ⟨_, _, ha, h⟩ := run_bind_eq_error.1 h
    · exact Tree.Calls.arithmeticLeft.misses (a.misses_of_unresolved hx h)
    obtain h | ⟨_, _, -, h⟩ := run_bind_eq_error.1 h
    · exact (Tree.Calls.arithmeticRight ha).misses (b.misses_of_unresolved hx h)
    exact absurd h ((nameFree_floatTypeId _ t).bind (fun _ => nameFree_build _) _ key u s')
  | .extremum _ a b, _, _, _, hx, h => by
    rw [Tree.serialize] at h
    obtain h | ⟨_, _, ha, h⟩ := run_bind_eq_error.1 h
    · exact Tree.Calls.extremumLeft.misses (a.misses_of_unresolved hx h)
    obtain h | ⟨_, _, -, h⟩ := run_bind_eq_error.1 h
    · exact (Tree.Calls.extremumRight ha).misses (b.misses_of_unresolved hx h)
    exact absurd h ((nameFree_floatTypeId _ t).bind (fun _ => nameFree_extended _ _ _) _ key u s')
  | .square of, _, _, _, hx, h => by
    rw [Tree.serialize] at h
    obtain h | ⟨_, _, -, h⟩ := run_bind_eq_error.1 h
    · exact Tree.Calls.square.misses (of.misses_of_unresolved hx h)
    exact absurd h ((nameFree_floatTypeId _ t).bind (fun _ => nameFree_build _) _ key u s')
  | .elementary _ of, _, _, _, hx, h => by
    rw [Tree.serialize] at h
    obtain h | ⟨_, _, -, h⟩ := run_bind_eq_error.1 h
    · exact Tree.Calls.elementary.misses (of.misses_of_unresolved hx h)
    exact absurd h ((nameFree_floatTypeId _ t).bind (fun _ => nameFree_extended _ _ _) _ key u s')
  | .normalize of, _, _, s, hx, h => by
    rw [Tree.serialize] at h
    obtain h | ⟨_, _, hcount, h⟩ := run_bind_eq_error.1 h
    · exact absurd h (nameFree_floatVector _ t s key u s')
    obtain h | ⟨_, _, -, h⟩ := run_bind_eq_error.1 h
    · exact (Tree.Calls.normalize hcount).misses (of.misses_of_unresolved hx h)
    exact absurd h ((nameFree_typeId _).bind (fun _ => nameFree_extended _ _ _) _ key u s')
  | .cross a b, _, _, _, hx, h => by
    rw [Tree.serialize] at h
    obtain h | ⟨_, _, ha, h⟩ := run_bind_eq_error.1 h
    · exact Tree.Calls.crossLeft.misses (a.misses_of_unresolved hx h)
    obtain h | ⟨_, _, -, h⟩ := run_bind_eq_error.1 h
    · exact (Tree.Calls.crossRight ha).misses (b.misses_of_unresolved hx h)
    exact absurd h ((nameFree_typeId _).bind (fun _ => nameFree_extended _ _ _) _ key u s')
  | .length (v := v) of, _, _, s, hx, h => by
    rw [Tree.serialize] at h
    obtain h | ⟨_, _, hcount, h⟩ := run_bind_eq_error.1 h
    · exact absurd h (nameFree_floatVector _ v s key u s')
    obtain h | ⟨_, _, -, h⟩ := run_bind_eq_error.1 h
    · exact (Tree.Calls.length hcount).misses (of.misses_of_unresolved hx h)
    exact absurd h ((nameFree_typeId _).bind (fun _ => nameFree_extended _ _ _) _ key u s')
  | .select (v := v) index of, _, _, s, hx, h => by
    rw [Tree.serialize] at h
    obtain h | ⟨count, s₁, hcount, h⟩ := run_bind_eq_error.1 h
    · exact absurd h (nameFree_floatVector _ v s key u s')
    by_cases hindex : index ≥ count
    · rw [if_pos hindex] at h
      cases h
    rw [if_neg hindex] at h
    obtain h | ⟨_, _, -, h⟩ := run_bind_eq_error.1 h
    · exact (Tree.Calls.select hcount hindex).misses (of.misses_of_unresolved hx h)
    exact absurd h ((nameFree_typeId _).bind (fun _ => nameFree_build _) _ key u s')
  | .link first second, _, _, _, hx, h => by
    rw [Tree.serialize] at h
    obtain h | ⟨_, _, hfirst, h⟩ := run_bind_eq_error.1 h
    · exact Tree.Calls.linkFirst.misses (first.misses_of_unresolved hx h)
    · exact (Tree.Calls.linkSecond hfirst).misses (second.misses_of_unresolved trivial h)
  | .mapInput f inner, x, _, _, _, h => by
    rw [Tree.serialize] at h
    exact Tree.Calls.mapInput.misses (inner.misses_of_unresolved (Input.agrees_outset _ (f x)) h)
  | .access name, c, σ, s, hx, h => by
    have hx : c = σ.context := hx
    subst hx
    rw [Tree.serialize] at h
    by_cases hfind : ∃ id, σ.find? name = some ⟨id, t⟩
    · obtain ⟨id, hid⟩ := hfind
      rw [LetScope.access_eq_pure hid] at h
      cases h
    · have hnone := not_exists.1 hfind
      rw [LetScope.access_eq_throw hnone] at h
      cases h
      exact ⟨_, σ, .here, hnone⟩
  | .chain steps, c, σ, _, hx, h => by
    have hx : c = σ.context := hx
    subst hx
    rw [Tree.serialize] at h
    obtain ⟨_, _, _, _, _, hcalls, hop⟩ := steps.misses_of_fails (Chain.fails_of_run h (by simp))
    exact (Tree.Calls.chain hcalls).misses hop
  | .detached steps, _, _, _, _, h => by
    rw [Tree.serialize] at h
    obtain ⟨_, _, _, _, _, hcalls, hop⟩ :=
      steps.misses_of_fails (Chain.fails_of_run (σ := .of .empty) h (by simp))
    exact (Tree.Calls.detached hcalls).misses hop
  | .withInput steps, _, _, _, _, h => by
    rw [Tree.serialize] at h
    obtain ⟨_, _, _, _, _, hcalls, hop⟩ :=
      steps.misses_of_fails (Chain.fails_of_run (σ := .of _) h (by simp))
    exact (Tree.Calls.withInput rfl hcalls).misses hop
  | .inspect names of, c, _, s, hx, h => by
    rw [Tree.serialize] at h
    obtain h | ⟨_, _, htell, h⟩ := run_bind_eq_error.1 h
    · exact absurd h (nameFree_tell _ s key u s')
    · exact (Tree.Calls.inspect htell).misses (of.misses_of_unresolved hx h)
  | .missing, _, _, s, _, h => by
    rw [Tree.serialize] at h
    cases h

/-- If a chain fails for a name, one of its steps comes to that name. -/
theorem Chain.misses_of_fails {t : HostType} {σ : LetScope} {s : Serializer} : (c : Chain t) →
    c.Fails σ s (.unresolved key u) s' → c.Misses σ s key u s'
  | .empty, h => by
    obtain ⟨hstep, -, -⟩ := h
    cases hstep
  | .step before name op, h => by
    obtain h | ⟨τ, s₁, hperforms, h⟩ := Chain.fails_step_iff.1 h
    · obtain ⟨v, next, y, τ, s₁, ⟨hstep, hrun, hperforms⟩, hmisses⟩ := before.misses_of_fails h
      exact ⟨v, next, y, τ, s₁, .step (.earlier hstep) hrun hperforms, hmisses⟩
    · exact ⟨t, op, τ.context, τ, s₁,
        .step .last ((Chain.run_extend_eq_ok before).2 ⟨τ, hperforms, rfl⟩) hperforms,
        op.misses_of_unresolved rfl h⟩

end

end

/-! ### Chains -/

/-- **Chains are lexically scoped let-bindings.** A chain on a context succeeds exactly if its steps
can be performed in order, each in the scope of the steps before it and of the context, which stays
as it is; its result is that of the last step, and there is one warning for each step whose name was
in scope. It fails exactly as the first step that fails. Wherever compiling comes to a name, also in
chains inside of the steps, the name gives the result that it stands for in the scope of that place
if this has the wanted type, and is unresolved otherwise; and the chain ends with an unresolved name
exactly if compiling comes to one. -/
theorem Chain.scoped {r t : HostType} (before : Chain r) (name : Bytes) (op : Tree .context t)
    (outer : Context) (s : Serializer) :
    (∀ id s', ((Chain.step before name op).serialize outer).run s = .ok id s' ↔
      ∃ lets, (Chain.step before name op).Performs (.of outer) s
        ⟨outer, (name, ⟨id, t⟩) :: lets⟩ s') ∧
    (∀ e s', ((Chain.step before name op).serialize outer).run s = .error e s' ↔
      (Chain.step before name op).Fails (.of outer) s e s') ∧
    (∀ (u : HostType) (key : Bytes) (y : Context) (τ : LetScope) (s' : Serializer),
      (Tree.chain (.step before name op)).Reaches outer (.of outer) s
        (.access key : Tree .context u) y τ s' →
      (∀ id, ((.access key : Tree .context u).serialize y).run s' = .ok id s' ↔
        τ.find? key = some ⟨id, u⟩) ∧
      (((.access key : Tree .context u).serialize y).run s' = .error (.unresolved key u) s' ↔
        ∀ id, τ.find? key ≠ some ⟨id, u⟩)) ∧
    ∀ (u : HostType) (key : Bytes) (s' : Serializer),
      ((Chain.step before name op).serialize outer).run s = .error (.unresolved key u) s' ↔
        ∃ y τ, (Tree.chain (.step before name op)).Reaches outer (.of outer) s
          (.access key : Tree .context u) y τ s' ∧ ∀ id, τ.find? key ≠ some ⟨id, u⟩ := by
  refine ⟨fun id s' => ?_, fun e s' => run_serialize_eq_error (σ := .of outer),
    fun u key y τ s' h => ?_, fun u key s' => ⟨fun h => ?_, ?_⟩⟩
  · refine (run_serialize_eq_ok (σ := .of outer)).trans ⟨?_, ?_⟩
    · rintro ⟨⟨c, lets⟩, h⟩
      cases h.inherited_eq
      exact ⟨lets, h⟩
    · rintro ⟨lets, h⟩
      exact ⟨⟨outer, lets⟩, h⟩
  · have hy : y = τ.context := h.agrees rfl
    rw [hy, Tree.serialize]
    exact τ.run_access key u s'
  -- The unresolved name is followed down from the step that fails, and back up from the access.
  · have hfails := (run_serialize_eq_error (σ := .of outer)).1 h
    obtain ⟨_, _, _, _, _, hcalls, hop⟩ := misses_of_fails _ hfails
    exact (Tree.Calls.chain hcalls).misses hop
  · rintro ⟨y, τ, hreaches, hnone⟩
    have hy : y = τ.context := hreaches.agrees rfl
    have herror : ((.access key : Tree .context u).serialize y).run s' =
        .error (.unresolved key u) s' := by
      rw [hy, Tree.serialize]
      exact (τ.run_access key u s').2.2 hnone
    have hrun := hreaches.run_serialize rfl herror
    rwa [Tree.serialize] at hrun

/-- The name `a` stands for another result, of another type, in the chain inside of the second step,
and for the first result again after it. -/
example (s : Serializer) :
    let inner : Chain .vec2 := .step (.step (.empty : Chain .vec2) (utf8 "a")
      (.ref 8 : Tree .context .vec2)) (utf8 "b") (.access (utf8 "a"))
    let chain : Chain .f32 := .step (.step (.step (.empty : Chain .f32) (utf8 "a")
      (.ref 7 : Tree .context .f32)) (utf8 "c") (.chain inner)) (utf8 "d") (.access (utf8 "a"))
    (chain.serialize .empty).run s =
      .ok 7 { s with log := s.log ++ [.resultOverwritten (utf8 "a")] } :=
  rfl

end ShaderGraft
