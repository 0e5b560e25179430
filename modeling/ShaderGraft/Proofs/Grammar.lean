import ShaderGraft.Proofs.Canonical

/-!
# Which streams are modules

A stream is cut into segments, each as long as its first word tells and long enough for the result
of its opcode, and the opcodes of the segments are a list of phrases: single opcodes outside of
functions, among them one memory model at most, and whole functions. The main statement is
`Module.exists_parse_iff`: these are exactly the streams that can be read.

Reading goes from left to right, so the phrases are first taken apart into what can follow at each
position (`Position.Follows`). A step of reading is a step along that relation, whatever it puts
where (`Draft.Places.follows`, `Draft.Follows.exists_places`).
-/

namespace ShaderGraft

/-- The number of words that a result takes. -/
def ResultLayout.slots : ResultLayout → Nat
  | .none => 0
  | .id => 1
  | .typed => 2

theorem Instruction.exists_ofWords_iff {op : Opcode} {ws : List Word} :
    (∃ inst, ofWords op ws = .ok inst) ↔ op.layout.slots ≤ ws.length := by
  unfold ofWords
  split <;> rename_i hlayout <;> simp [hlayout, ResultLayout.slots]

/-! ### Segments -/

/-- A first word and the words that go with it. -/
structure Segment where
  first : Word
  rest : List Word

namespace Segment

def words (s : Segment) : List Word :=
  s.first :: s.rest

def opcode (s : Segment) : Opcode :=
  Scan.opcode s.first

/-- The segment is as long as its first word tells and has the words of its result. -/
structure Complete (s : Segment) : Prop where
  length : Scan.length s.first = s.words.length
  slots : s.opcode.layout.slots ≤ s.rest.length

end Segment

/-- The words can be split into instructions with the given opcodes exactly if they are the words of
complete segments with these opcodes. -/
theorem exists_splits_iff {ws : List Word} {ops : List Opcode} :
    (∃ insts, Splits ws insts ∧ insts.map (·.opcode) = ops) ↔
      ∃ segments : List Segment, (∀ s ∈ segments, s.Complete) ∧
        segments.flatMap Segment.words = ws ∧ segments.map Segment.opcode = ops := by
  constructor
  · rintro ⟨insts, hsplit, rfl⟩
    induction hsplit with
    | nil => exact ⟨[], by simp⟩
    | @cons w ws rest inst insts hlen hinst _ ih =>
      obtain ⟨segments, hcomplete, hwords, hops⟩ := ih
      have hslots := Instruction.exists_ofWords_iff.1 ⟨inst, hinst⟩
      refine ⟨⟨w, ws⟩ :: segments, ?_, ?_, ?_⟩
      · exact List.forall_mem_cons.2 ⟨⟨hlen, hslots⟩, hcomplete⟩
      · simp [Segment.words, hwords]
      · simp [Segment.opcode, hops, (Instruction.ofWords_eq_ok.1 hinst).1]
  · rintro ⟨segments, hcomplete, rfl, rfl⟩
    induction segments with
    | nil => exact ⟨[], .nil, rfl⟩
    | cons s segments ih =>
      obtain ⟨hs, hcomplete⟩ := List.forall_mem_cons.1 hcomplete
      obtain ⟨insts, hsplit, hops⟩ := ih hcomplete
      obtain ⟨inst, hinst⟩ := Instruction.exists_ofWords_iff.2 hs.slots
      refine ⟨inst :: insts, .cons hs.length hinst hsplit, ?_⟩
      simp [hops, (Instruction.ofWords_eq_ok.1 hinst).1, Segment.opcode]

/-! ### Phrases -/

/-- A phrase of a stream: one opcode outside of functions, or a function by the number of its
parameters and the bodies of its blocks. -/
inductive Phrase where
  | plain (op : Opcode)
  | function (parameters : Nat) (bodies : List (List Opcode))
deriving DecidableEq

namespace Phrase

/-- The opcodes of blocks with the given bodies. -/
def blocks (bodies : List (List Opcode)) : List Opcode :=
  bodies.flatMap (.label :: ·)

def opcodes : Phrase → List Opcode
  | .plain op => [op]
  | .function parameters bodies =>
    .function :: (List.replicate parameters .functionParameter ++ blocks bodies ++ [.functionEnd])

/-- The opcodes that make up the frame of a function are nowhere else. -/
def Formed : Phrase → Prop
  | .plain op => op.IsBody
  | .function _ bodies => ∀ body ∈ bodies, ∀ op ∈ body, op.IsBody

end Phrase

/-- The opcodes are those of well-formed phrases, of which one at most is a memory model. -/
def Phrased (ops : List Opcode) : Prop :=
  ∃ phrases : List Phrase, (∀ p ∈ phrases, p.Formed) ∧ phrases.count (.plain .memoryModel) ≤ 1 ∧
    phrases.flatMap Phrase.opcodes = ops

/-- Where a reader stands: outside of functions, in a function that has no block yet, or in a
block. -/
inductive Position where
  | outside
  | heading
  | inBlock

namespace Position

/-- The opcodes can follow at the position up to the end of the stream. `modelled` tells whether
there was a memory model before. -/
inductive Follows : (modelled : Bool) → Position → List Opcode → Prop where
  | nil {modelled : Bool} : Follows modelled .outside []
  | plain {modelled : Bool} {op : Opcode} {ops : List Opcode} :
    op.IsBody → op ≠ .memoryModel → Follows modelled .outside ops →
      Follows modelled .outside (op :: ops)
  | memoryModel {ops : List Opcode} :
    Follows true .outside ops → Follows false .outside (.memoryModel :: ops)
  | function {modelled : Bool} {ops : List Opcode} :
    Follows modelled .heading ops → Follows modelled .outside (.function :: ops)
  | parameter {modelled : Bool} {ops : List Opcode} :
    Follows modelled .heading ops → Follows modelled .heading (.functionParameter :: ops)
  | label {modelled : Bool} {p : Position} {ops : List Opcode} :
    p ≠ .outside → Follows modelled .inBlock ops → Follows modelled p (.label :: ops)
  | body {modelled : Bool} {op : Opcode} {ops : List Opcode} :
    op.IsBody → Follows modelled .inBlock ops → Follows modelled .inBlock (op :: ops)
  | functionEnd {modelled : Bool} {p : Position} {ops : List Opcode} :
    p ≠ .outside → Follows modelled .outside ops → Follows modelled p (.functionEnd :: ops)

/-- A stream ends outside of functions. -/
theorem Follows.eq_outside {modelled : Bool} {p : Position} (h : Follows modelled p []) :
    p = .outside := by
  cases h
  rfl

/-- Phrases of which as many are memory models as there can still be. -/
def PhrasedAfter (modelled : Bool) (ops : List Opcode) : Prop :=
  ∃ phrases : List Phrase, (∀ p ∈ phrases, p.Formed) ∧
    modelled.toNat + phrases.count (.plain .memoryModel) ≤ 1 ∧
    phrases.flatMap Phrase.opcodes = ops

/-- What follows at a position, as the rest of a phrase and the phrases behind it. -/
def Rest (modelled : Bool) : Position → List Opcode → Prop
  | .outside, ops => PhrasedAfter modelled ops
  | .heading, ops => ∃ parameters bodies ops', Phrase.Formed (.function parameters bodies) ∧
      PhrasedAfter modelled ops' ∧
      ops = List.replicate parameters .functionParameter ++ Phrase.blocks bodies ++
        .functionEnd :: ops'
  | .inBlock, ops => ∃ body bodies ops', Phrase.Formed (.function 0 (body :: bodies)) ∧
      PhrasedAfter modelled ops' ∧
      ops = body ++ Phrase.blocks bodies ++ .functionEnd :: ops'

theorem Follows.rest {modelled : Bool} {p : Position} {ops : List Opcode}
    (h : Follows modelled p ops) : Rest modelled p ops := by
  induction h with
  | @nil modelled => exact ⟨[], by simp, by cases modelled <;> simp, rfl⟩
  | @plain modelled op ops hop hmodel _ ih =>
    obtain ⟨phrases, hformed, hcount, rfl⟩ := ih
    refine ⟨.plain op :: phrases, List.forall_mem_cons.2 ⟨hop, hformed⟩, ?_, rfl⟩
    rwa [List.count_cons_of_ne (by simpa using hmodel)]
  | memoryModel _ ih =>
    obtain ⟨phrases, hformed, hcount, rfl⟩ := ih
    refine ⟨.plain .memoryModel :: phrases, List.forall_mem_cons.2 ⟨?_, hformed⟩, ?_, rfl⟩
    · exact (by decide : Opcode.memoryModel.IsBody)
    · rw [List.count_cons_self]
      simp only [Bool.toNat_true, Bool.toNat_false] at hcount ⊢
      omega
  | function _ ih =>
    obtain ⟨parameters, bodies, _, hbodies, ⟨phrases, hformed, hcount, rfl⟩, rfl⟩ := ih
    refine ⟨.function parameters bodies :: phrases, ?_, ?_, ?_⟩
    · exact List.forall_mem_cons.2 ⟨hbodies, hformed⟩
    · rwa [List.count_cons_of_ne (by simp)]
    · simp [Phrase.opcodes]
  | parameter _ ih =>
    obtain ⟨parameters, bodies, ops', hbodies, hrest, rfl⟩ := ih
    exact ⟨parameters + 1, bodies, ops', hbodies, hrest, by simp [List.replicate_succ]⟩
  | @label modelled p _ hp _ ih =>
    obtain ⟨body, bodies, ops', hbodies, hrest, rfl⟩ := ih
    cases p with
    | outside => exact absurd rfl hp
    | heading => exact ⟨0, body :: bodies, ops', hbodies, hrest, by simp [Phrase.blocks]⟩
    | inBlock =>
      refine ⟨[], body :: bodies, ops', ?_, hrest, by simp [Phrase.blocks]⟩
      exact List.forall_mem_cons.2 ⟨by simp, hbodies⟩
  | @body modelled op _ hop _ ih =>
    obtain ⟨body, bodies, ops', hbodies, hrest, rfl⟩ := ih
    obtain ⟨hbody, hbodies⟩ := List.forall_mem_cons.1 hbodies
    refine ⟨op :: body, bodies, ops', ?_, hrest, rfl⟩
    exact List.forall_mem_cons.2 ⟨List.forall_mem_cons.2 ⟨hop, hbody⟩, hbodies⟩
  | @functionEnd modelled p ops hp _ ih =>
    cases p with
    | outside => exact absurd rfl hp
    | heading => exact ⟨0, [], ops, by simp [Phrase.Formed], ih, rfl⟩
    | inBlock => exact ⟨[], [], ops, by simp [Phrase.Formed], ih, rfl⟩

theorem Follows.of_body {modelled : Bool} {body ops : List Opcode}
    (hbody : ∀ op ∈ body, op.IsBody) (h : Follows modelled .inBlock ops) :
    Follows modelled .inBlock (body ++ ops) := by
  induction body with
  | nil => exact h
  | cons op body ih =>
    obtain ⟨hop, hbody⟩ := List.forall_mem_cons.1 hbody
    exact .body hop (ih hbody)

/-- Blocks and the end of their function can follow wherever a function is open. -/
theorem Follows.of_blocks {modelled : Bool} {bodies : List (List Opcode)} {ops : List Opcode}
    (hbodies : ∀ body ∈ bodies, ∀ op ∈ body, op.IsBody) (h : Follows modelled .outside ops)
    {p : Position} (hp : p ≠ .outside) :
    Follows modelled p (Phrase.blocks bodies ++ .functionEnd :: ops) := by
  induction bodies generalizing p with
  | nil => exact .functionEnd hp h
  | cons body bodies ih =>
    obtain ⟨hbody, hbodies⟩ := List.forall_mem_cons.1 hbodies
    rw [Phrase.blocks, List.flatMap_cons, List.cons_append, List.cons_append, List.append_assoc]
    exact .label hp (.of_body hbody (ih hbodies (by simp)))

theorem Follows.of_parameters {modelled : Bool} {ops : List Opcode}
    (h : Follows modelled .heading ops) (parameters : Nat) :
    Follows modelled .heading (List.replicate parameters .functionParameter ++ ops) := by
  induction parameters with
  | zero => exact h
  | succ parameters ih => exact .parameter ih

theorem PhrasedAfter.follows {modelled : Bool} {ops : List Opcode}
    (h : PhrasedAfter modelled ops) : Follows modelled .outside ops := by
  obtain ⟨phrases, hformed, hcount, rfl⟩ := h
  induction phrases generalizing modelled with
  | nil => exact .nil
  | cons p phrases ih =>
    obtain ⟨hp, hphrases⟩ := List.forall_mem_cons.1 hformed
    have hfewer :
        phrases.count (.plain .memoryModel) ≤ (p :: phrases).count (.plain .memoryModel) :=
      List.count_le_count_cons
    cases p with
    | function parameters bodies =>
      have hrest : Follows modelled .outside _ := ih hphrases (by omega)
      rw [List.flatMap_cons, Phrase.opcodes, List.cons_append, List.append_assoc, List.append_assoc]
      exact .function (.of_parameters (.of_blocks hp hrest (by simp)) parameters)
    | plain op =>
      by_cases hop : op = .memoryModel
      · subst hop
        rw [List.count_cons_self] at hcount
        cases modelled with
        | true =>
          rw [Bool.toNat_true] at hcount
          omega
        | false =>
          rw [Bool.toNat_false] at hcount
          exact .memoryModel (ih hphrases (by rw [Bool.toNat_true]; omega))
      · exact .plain hp hop (ih hphrases (by omega))

theorem follows_outside_iff {ops : List Opcode} : Follows false .outside ops ↔ Phrased ops := by
  have hphrased : Phrased ops ↔ PhrasedAfter false ops := by simp [Phrased, PhrasedAfter]
  rw [hphrased]
  exact ⟨Follows.rest, PhrasedAfter.follows⟩

end Position

/-! ### Steps of reading -/

/-- Whatever can stand in a block has a section, unless it is a memory model. -/
theorem Opcode.exists_within {op : Opcode} (h : op.IsBody) (hmodel : op ≠ .memoryModel) :
    ∃ s, op.placement = .within s := by
  obtain ⟨hfunction, hparameter, hend, hlabel⟩ := h
  unfold placement
  split <;> first | exact ⟨_, rfl⟩ | contradiction

namespace Draft

/-- The position of a draft in its stream. -/
def position (d : Draft) : Position :=
  d.current.elim .outside fun f => if f.blocks.isEmpty then .heading else .inBlock

/-- The opcodes can follow where the draft stands. -/
def Follows (d : Draft) (ops : List Opcode) : Prop :=
  d.position.Follows d.complete.memoryModel.isSome ops

section

variable {m : Module} {f : Function} {ops : List Opcode}

theorem follows_outside :
    Follows ⟨m, none⟩ ops ↔ Position.Follows m.memoryModel.isSome .outside ops :=
  Iff.rfl

theorem follows_heading (h : f.blocks = []) :
    Follows ⟨m, some f⟩ ops ↔ Position.Follows m.memoryModel.isSome .heading ops := by
  simp [Follows, position, h]

theorem follows_inBlock (h : f.blocks ≠ []) :
    Follows ⟨m, some f⟩ ops ↔ Position.Follows m.memoryModel.isSome .inBlock ops := by
  simp [Follows, position, h]

theorem position_ne_outside : position ⟨m, some f⟩ ≠ .outside := by
  unfold position
  simp only [Option.elim_some]
  split <;> simp

end

/-- If the rest can follow after a step, then the whole can follow before it. -/
theorem Places.follows {d next : Draft} {inst : Instruction} {ops : List Opcode}
    (h : Places d inst next) (hnext : next.Follows ops) : d.Follows (inst.opcode :: ops) := by
  cases h with
  | @within m inst s hs =>
    have hmodel : (m.append inst s).memoryModel = m.memoryModel := by cases s <;> rfl
    rw [follows_outside, hmodel] at hnext
    refine .plain (Opcode.isBody_of_within hs) ?_ hnext
    intro hop
    rw [Opcode.placement_eq_memoryModel.2 hop] at hs
    cases hs
  | memoryModel hop hnone =>
    rw [follows_outside, hop, hnone]
    exact .memoryModel (follows_outside.1 hnext)
  | opens hop =>
    rw [hop]
    exact .function ((follows_heading rfl).1 hnext)
  | parameter hop hblocks =>
    rw [hop]
    exact (follows_heading hblocks).2 (.parameter ((follows_heading hblocks).1 hnext))
  | label hop =>
    rw [hop]
    exact .label position_ne_outside ((follows_inBlock (by simp)).1 hnext)
  | body hop hblocks =>
    exact (follows_inBlock (by simp [hblocks])).2 (.body hop ((follows_inBlock (by simp)).1 hnext))
  | closes hop =>
    rw [hop]
    exact .functionEnd position_ne_outside (follows_outside.1 hnext)

/-- Where an opcode can follow, its instruction has a place, and the rest can follow then. -/
theorem Follows.exists_places {d : Draft} {inst : Instruction} {ops : List Opcode}
    (h : d.Follows (inst.opcode :: ops)) : ∃ next, Places d inst next ∧ next.Follows ops := by
  obtain ⟨m, current⟩ := d
  unfold Follows at h
  generalize hop : inst.opcode = op at h
  generalize hp : position ⟨m, current⟩ = p at h
  simp only at h
  generalize hmodelled : m.memoryModel.isSome = modelled at h
  have hopen (hne : p ≠ .outside) : ∃ f, current = some f := by
    cases current with
    | none => exact absurd hp.symm hne
    | some f => exact ⟨f, rfl⟩
  have houtside (heq : p = .outside) : current = none := by
    cases current with
    | none => rfl
    | some f => exact absurd (hp.trans heq) position_ne_outside
  cases h with
  | plain hbody hne hrest =>
    cases houtside rfl
    obtain ⟨s, hs⟩ := Opcode.exists_within hbody hne
    have hmodel : (m.append inst s).memoryModel = m.memoryModel := by cases s <;> rfl
    refine ⟨_, .within (hop ▸ hs), ?_⟩
    rwa [follows_outside, hmodel, hmodelled]
  | memoryModel hrest =>
    cases houtside rfl
    exact ⟨_, .memoryModel hop (by simpa using hmodelled), hrest⟩
  | function hrest =>
    cases houtside rfl
    exact ⟨_, .opens hop, (follows_heading rfl).2 (hmodelled ▸ hrest)⟩
  | parameter hrest =>
    obtain ⟨f, rfl⟩ := hopen (by simp)
    have hblocks : f.blocks = [] := by simpa [position] using hp
    exact ⟨_, .parameter hop hblocks, (follows_heading hblocks).2 (hmodelled ▸ hrest)⟩
  | label hne hrest =>
    obtain ⟨f, rfl⟩ := hopen hne
    exact ⟨_, .label hop, (follows_inBlock (by simp)).2 (hmodelled ▸ hrest)⟩
  | body hbody hrest =>
    obtain ⟨f, rfl⟩ := hopen (by simp)
    have hblocks : f.blocks ≠ [] := by simpa [position] using hp
    exact ⟨_, .body (hop ▸ hbody) (List.dropLast_append_getLast hblocks).symm,
      (follows_inBlock (by simp)).2 (hmodelled ▸ hrest)⟩
  | functionEnd hne hrest =>
    obtain ⟨f, rfl⟩ := hopen hne
    exact ⟨_, .closes hop, follows_outside.2 (hmodelled ▸ hrest)⟩

/-- A stream can be read to its end exactly if its opcodes can follow. -/
theorem exists_foldlM_iff {d : Draft} {insts : List Instruction} :
    (∃ m, insts.foldlM place d = .ok { complete := m }) ↔ d.Follows (insts.map (·.opcode)) := by
  induction insts generalizing d with
  | nil =>
    obtain ⟨m, current⟩ := d
    constructor
    · rintro ⟨m', h⟩
      cases h
      exact .nil
    · intro h
      cases current with
      | none => exact ⟨m, rfl⟩
      | some f => exact absurd (Position.Follows.eq_outside h) position_ne_outside
  | cons inst insts ih =>
    simp only [foldlM_cons_eq_ok, List.map_cons]
    constructor
    · rintro ⟨m, next, hplaces, hrest⟩
      exact hplaces.follows (ih.1 ⟨m, hrest⟩)
    · intro h
      obtain ⟨next, hplaces, hnext⟩ := h.exists_places
      obtain ⟨m, hrest⟩ := ih.2 hnext
      exact ⟨m, next, hplaces, hrest⟩

end Draft

/-! ### Whole streams -/

/-- The stream is a header behind the magic number in either byte order, followed by the segments of
well-formed phrases. -/
structure Stream.Grammatical (ws : List Word) : Prop where
  header : Module.headerLength ≤ ws.length
  magic : ws.head? = some Module.magic ∨ ws.head?.map Word.reverseBytes = some Module.magic
  body : ∃ segments : List Segment, (∀ s ∈ segments, s.Complete) ∧
    segments.flatMap Segment.words = (native ws).drop Module.headerLength ∧
    Phrased (segments.map Segment.opcode)

/-- Behind the header, a stream can be read exactly if it is the segments of well-formed phrases. -/
theorem Module.exists_parseNative_iff {version generator bound schema : Word} {body : List Word} :
    (∃ m, parseNative version generator bound schema body = .ok m) ↔
      ∃ segments : List Segment, (∀ s ∈ segments, s.Complete) ∧
        segments.flatMap Segment.words = body ∧ Phrased (segments.map Segment.opcode) := by
  have hread (insts : List Instruction) (header : Header) :
      (∃ m, insts.foldlM Draft.place { complete := { header } } = .ok { complete := m }) ↔
        Phrased (insts.map (·.opcode)) :=
    Draft.exists_foldlM_iff.trans Position.follows_outside_iff
  constructor
  · rintro ⟨m, hparse⟩
    obtain ⟨insts, hsplit, hfold⟩ := parseNative_eq_ok.1 hparse
    obtain ⟨segments, hcomplete, hwords, hops⟩ := exists_splits_iff.1 ⟨insts, hsplit, rfl⟩
    exact ⟨segments, hcomplete, hwords, hops ▸ (hread insts _).1 ⟨m, hfold⟩⟩
  · rintro ⟨segments, hcomplete, hwords, hphrased⟩
    obtain ⟨insts, hsplit, hops⟩ := exists_splits_iff.2 ⟨segments, hcomplete, hwords, rfl⟩
    obtain ⟨m, hfold⟩ := (hread insts _).2 (hops ▸ hphrased)
    exact ⟨m, parseNative_eq_ok.2 ⟨insts, hsplit, hfold⟩⟩

/-- A stream that has a header, by the byte order that its first word tells. -/
theorem Module.exists_parse_cons_iff {first version generator bound schema : Word}
    {body : List Word} :
    (∃ m, parse (first :: version :: generator :: bound :: schema :: body) = .ok m) ↔
      Stream.Grammatical (first :: version :: generator :: bound :: schema :: body) := by
  have hheader :
      headerLength ≤ (first :: version :: generator :: bound :: schema :: body).length := by
    simp [headerLength]
  rw [parse]
  split
  · rename_i hmagic
    rw [exists_parseNative_iff]
    constructor
    · intro h
      exact ⟨hheader, .inl (by simp [hmagic]),
        by simpa [Stream.native, hmagic, headerLength] using h⟩
    · intro h
      simpa [Stream.native, hmagic, headerLength] using h.body
  · rename_i hmagic
    split
    · rename_i hreversed
      rw [exists_parseNative_iff]
      constructor
      · intro h
        exact ⟨hheader, .inr (by simp [hreversed]),
          by simpa [Stream.native, hmagic, headerLength] using h⟩
      · intro h
        simpa [Stream.native, hmagic, headerLength] using h.body
    · rename_i hreversed
      constructor
      · rintro ⟨m, h⟩
        cases h
      · intro h
        simpa [hmagic, hreversed] using h.magic

/-- Exactly the grammatical streams can be read. -/
theorem Module.exists_parse_iff (ws : List Word) :
    (∃ m, parse ws = .ok m) ↔ Stream.Grammatical ws := by
  rcases ws with _ | ⟨first, _ | ⟨version, _ | ⟨generator, _ | ⟨bound, _ | ⟨schema, body⟩⟩⟩⟩⟩
  case cons.cons.cons.cons.cons => exact exists_parse_cons_iff
  -- The others are too short for a header.
  all_goals
    constructor
    · rintro ⟨m, h⟩
      cases h
    · intro h
      exact absurd h.header (by simp [headerLength])

end ShaderGraft
