import ShaderGraft.Proofs.Layout

/-!
# Which modules survive writing and reading

A module is representable if every instruction fits into the binary form and stands where reading
would put it. The main statement is `Module.parse_assemble_iff`: writing a module and reading the
result gives the module back exactly if it is representable. From right to left this follows the
parts of the module one by one. From left to right, what comes out of reading is always routed and
short enough, so the words of the module split at its own instructions; these are in layout order,
so reading keeps their order, and each of them must be what reading its own words gives.
-/

namespace ShaderGraft

/-- The frame of a function up to its end. -/
structure Function.Framed (f : Function) : Prop where
  definition : f.definition.opcode = .function
  parameters : ∀ p ∈ f.parameters, p.opcode = .functionParameter
  labels : ∀ b ∈ f.blocks, b.label.opcode = .label
  bodies : ∀ b ∈ f.blocks, ∀ inst ∈ b.body, inst.opcode.IsBody

/-- The instructions of a function stand where the opcodes that make up its frame put them. -/
structure Function.Formed (f : Function) : Prop extends Framed f where
  ending : f.ending.opcode = .functionEnd

/-- Every instruction stands where reading would put it. -/
structure Module.Routed (m : Module) : Prop where
  sections : ∀ s, ∀ inst ∈ m.instructionsIn s, inst.opcode.placement = .within s
  memoryModel : ∀ inst ∈ m.memoryModel, inst.opcode = .memoryModel
  functions : ∀ f ∈ m.functions, f.Formed

/-- Every instruction fits into the binary form and stands where reading would put it. -/
structure Module.Representable (m : Module) : Prop extends Routed m where
  lengths : ∀ inst ∈ m.instructions, inst.wordCount ≤ Instruction.maxWords
  slots : ∀ inst ∈ m.instructions, inst.SlotsFilled

/-! ### Reading gives routed modules -/

namespace Draft

/-- What is complete is routed, and so is the function that is still open. -/
structure Routed (d : Draft) : Prop where
  complete : d.complete.Routed
  current : ∀ f ∈ d.current, f.Framed

theorem routed_start (header : Header) : Routed { complete := { header } } := by
  refine ⟨⟨?_, by simp, by simp⟩, by simp⟩
  intro s
  cases s <;> simp [Module.instructionsIn]

theorem Places.routed {d d' : Draft} {inst : Instruction} (h : Places d inst d')
    (hd : d.Routed) : d'.Routed := by
  obtain ⟨hm, hf⟩ := hd
  cases h with
  | @within m inst s hs =>
    refine ⟨⟨?_, ?_, ?_⟩, by simp⟩
    · intro s' i hi
      rw [← Module.members_rank, Module.members_append, Module.members_rank] at hi
      rcases List.mem_append.1 hi with hi | hi
      · exact hm.sections s' i hi
      · have hrank : s = s' := by
          cases s <;> cases s' <;> simp [Section.rank] at hi ⊢
        subst hrank
        simp at hi
        exact hi ▸ hs
    · cases s <;> exact hm.memoryModel
    · cases s <;> exact hm.functions
  | memoryModel hop _ =>
    refine ⟨⟨?_, by simpa using hop, hm.functions⟩, by simp⟩
    intro s
    have hs := hm.sections s
    cases s <;> exact hs
  | opens hop => exact ⟨hm, by simpa using ⟨hop, by simp, by simp, by simp⟩⟩
  | parameter hop _ =>
    obtain ⟨h1, h2, h3, h4⟩ := hf _ rfl
    refine ⟨hm, ?_⟩
    simp only [Option.mem_def, Option.some.injEq, forall_eq']
    exact ⟨h1, by simpa [or_imp, forall_and, hop] using h2, h3, h4⟩
  | label hop =>
    obtain ⟨h1, h2, h3, h4⟩ := hf _ rfl
    refine ⟨hm, ?_⟩
    simp only [Option.mem_def, Option.some.injEq, forall_eq']
    exact ⟨h1, h2, by simpa [or_imp, forall_and, hop] using h3,
      by simpa [or_imp, forall_and] using h4⟩
  | body hop hblocks =>
    obtain ⟨h1, h2, h3, h4⟩ := hf _ rfl
    rw [hblocks] at h3 h4
    simp only [List.mem_append, List.mem_singleton, or_imp, forall_and, forall_eq] at h3 h4
    refine ⟨hm, ?_⟩
    simp only [Option.mem_def, Option.some.injEq, forall_eq']
    exact ⟨h1, h2, by simpa [or_imp, forall_and] using h3,
      by simpa [or_imp, forall_and, hop] using h4⟩
  | closes hop =>
    refine ⟨⟨?_, hm.memoryModel, ?_⟩, by simp⟩
    · intro s
      have hs := hm.sections s
      cases s <;> exact hs
    · intro f hmem
      rcases List.mem_append.1 hmem with hmem | hmem
      · exact hm.functions f hmem
      · obtain ⟨h1, h2, h3, h4⟩ := hf _ rfl
        cases List.mem_singleton.1 hmem
        exact ⟨⟨h1, h2, h3, h4⟩, hop⟩

theorem routed_of_foldlM {d d' : Draft} {insts : List Instruction}
    (h : insts.foldlM place d = .ok d') (hd : d.Routed) : d'.Routed := by
  induction insts generalizing d with
  | nil =>
    cases h
    exact hd
  | cons inst rest ih =>
    obtain ⟨next, hnext, hrest⟩ := foldlM_cons_eq_ok.1 h
    exact ih hrest (hnext.routed hd)

theorem foldlM_placeAt {d d' : Draft} {items : List Located} :
    items.foldlM placeAt d = .ok d' ↔ (items.map (·.inst)).foldlM place d = .ok d' := by
  induction items generalizing d with
  | nil => simp [pure, Except.pure]
  | cons item items ih =>
    rw [List.map_cons, List.foldlM_cons, List.foldlM_cons, placeAt]
    cases d.place item.inst with
    | error e =>
      constructor <;> (intro h; cases h)
    | ok next => exact ih

end Draft

/-- Reading splits the words and puts one instruction after the other in its place. -/
theorem Module.parseNative_eq_ok {version generator bound schema : Word} {body : List Word}
    {m : Module} :
    parseNative version generator bound schema body = .ok m ↔
      ∃ insts, Splits body insts ∧
        insts.foldlM Draft.place
            { complete := { header := { version := .ofWord version, generator, bound, schema } } } =
          .ok { complete := m } := by
  unfold parseNative ofScan
  constructor
  · intro h
    generalize hscan : Scan.scanFrom 0 headerLength body = scan at h
    obtain ⟨draft, hfold, h⟩ := bind_eq_ok.1 h
    cases hfailure : scan.failure with
    | some e => simp [hfailure] at h
    | none =>
      have hnone : (Scan.scanFrom 0 headerLength body).failure = none := by rw [hscan, hfailure]
      have hsplit := splits_scanFrom hnone
      rw [hscan] at hsplit
      refine ⟨_, hsplit, ?_⟩
      rw [Draft.foldlM_placeAt.1 hfold]
      rcases draft with ⟨m', _ | f⟩
      · simp [hfailure, Draft.finish] at h
        rw [h]
      · simp [hfailure, Draft.finish] at h
  · rintro ⟨insts, hsplit, hfold⟩
    obtain ⟨items, hscan, rfl⟩ := hsplit.scanFrom_eq headerLength
    rw [hscan]
    dsimp only
    rw [Draft.foldlM_placeAt.2 hfold]
    rfl

/-! ### Routed modules are read as they are -/

/-- The module with instructions added at the end of a section. -/
def Module.appendAll (m : Module) (insts : List Instruction) : Section → Module
  | .capabilities => { m with capabilities := m.capabilities ++ insts }
  | .extensions => { m with extensions := m.extensions ++ insts }
  | .imports => { m with imports := m.imports ++ insts }
  | .entryPoints => { m with entryPoints := m.entryPoints ++ insts }
  | .executionModes => { m with executionModes := m.executionModes ++ insts }
  | .sources => { m with sources := m.sources ++ insts }
  | .names => { m with names := m.names ++ insts }
  | .processed => { m with processed := m.processed ++ insts }
  | .annotations => { m with annotations := m.annotations ++ insts }
  | .globals => { m with globals := m.globals ++ insts }

theorem Module.appendAll_nil (m : Module) (s : Section) : m.appendAll [] s = m := by
  cases s <;> simp [appendAll]

theorem Module.appendAll_append (m : Module) (inst : Instruction) (rest : List Instruction)
    (s : Section) : (m.append inst s).appendAll rest s = m.appendAll (inst :: rest) s := by
  cases s <;> simp [appendAll, append]

namespace Draft

theorem foldlM_section {m : Module} {s : Section} {insts : List Instruction}
    (h : ∀ inst ∈ insts, inst.opcode.placement = .within s) :
    insts.foldlM place ⟨m, none⟩ = .ok ⟨m.appendAll insts s, none⟩ := by
  induction insts generalizing m with
  | nil =>
    rw [Module.appendAll_nil]
    rfl
  | cons inst rest ih =>
    refine foldlM_cons_eq_ok.2 ⟨_, .within (h inst List.mem_cons_self), ?_⟩
    rw [ih fun i hi => h i (List.mem_cons_of_mem _ hi), Module.appendAll_append]

theorem foldlM_memoryModel {m : Module} {model : Option Instruction}
    (h : ∀ inst ∈ model, inst.opcode = .memoryModel) (hm : m.memoryModel = none) :
    model.toList.foldlM place ⟨m, none⟩ = .ok ⟨{ m with memoryModel := model }, none⟩ := by
  cases model with
  | none =>
    cases m
    cases hm
    rfl
  | some inst =>
    exact foldlM_cons_eq_ok.2 ⟨_, .memoryModel (h inst rfl) hm, rfl⟩

theorem foldlM_parameters {m : Module} {f : Function} {ps : List Instruction}
    (h : ∀ p ∈ ps, p.opcode = .functionParameter) (hf : f.blocks = []) :
    ps.foldlM place ⟨m, some f⟩ =
      .ok ⟨m, some { f with parameters := f.parameters ++ ps }⟩ := by
  induction ps generalizing f with
  | nil => simp [pure, Except.pure]
  | cons p ps ih =>
    refine foldlM_cons_eq_ok.2 ⟨_, .parameter (h p List.mem_cons_self) hf, ?_⟩
    rw [ih fun q hq => h q (List.mem_cons_of_mem _ hq)]
    · simp
    · exact hf

theorem foldlM_body {m : Module} {f : Function} {bs : List Block} {b : Block}
    {insts : List Instruction} (h : ∀ inst ∈ insts, inst.opcode.IsBody)
    (hf : f.blocks = bs ++ [b]) :
    insts.foldlM place ⟨m, some f⟩ =
      .ok ⟨m, some { f with blocks := bs ++ [{ b with body := b.body ++ insts }] }⟩ := by
  induction insts generalizing f b with
  | nil => simp [pure, Except.pure, ← hf]
  | cons inst rest ih =>
    refine foldlM_cons_eq_ok.2 ⟨_, .body (h inst List.mem_cons_self) hf, ?_⟩
    rw [ih (b := { b with body := b.body ++ [inst] })
      (fun i hi => h i (List.mem_cons_of_mem _ hi)) rfl]
    simp

theorem foldlM_blocks {m : Module} {f : Function} {blocks : List Block}
    (hlabels : ∀ b ∈ blocks, b.label.opcode = .label)
    (hbodies : ∀ b ∈ blocks, ∀ inst ∈ b.body, inst.opcode.IsBody) :
    (blocks.flatMap Block.instructions).foldlM place ⟨m, some f⟩ =
      .ok ⟨m, some { f with blocks := f.blocks ++ blocks }⟩ := by
  induction blocks generalizing f with
  | nil => simp [pure, Except.pure]
  | cons b rest ih =>
    rw [List.flatMap_cons, Block.instructions, List.cons_append]
    refine foldlM_cons_eq_ok.2 ⟨_, .label (hlabels b List.mem_cons_self), ?_⟩
    refine foldlM_append_ok (foldlM_body (hbodies b List.mem_cons_self) rfl) ?_
    rw [ih fun c hc => hlabels c (List.mem_cons_of_mem _ hc)]
    · simp
    · exact fun c hc => hbodies c (List.mem_cons_of_mem _ hc)

theorem foldlM_function {m : Module} {f : Function} (h : f.Formed) :
    f.instructions.foldlM place ⟨m, none⟩ =
      .ok ⟨{ m with functions := m.functions ++ [f] }, none⟩ := by
  obtain ⟨⟨hdefinition, hparameters, hlabels, hbodies⟩, hending⟩ := h
  rw [Function.instructions_eq, Function.opened, List.cons_append, List.cons_append]
  refine foldlM_cons_eq_ok.2 ⟨_, .opens hdefinition, ?_⟩
  refine foldlM_append_ok (foldlM_append_ok (foldlM_parameters hparameters rfl)
    (foldlM_blocks hlabels hbodies)) ?_
  exact foldlM_cons_eq_ok.2 ⟨_, .closes hending, by simp [pure, Except.pure]⟩

theorem foldlM_functions {m : Module} {fs : List Function} (h : ∀ f ∈ fs, f.Formed) :
    (fs.flatMap Function.instructions).foldlM place ⟨m, none⟩ =
      .ok ⟨{ m with functions := m.functions ++ fs }, none⟩ := by
  induction fs generalizing m with
  | nil => simp [pure, Except.pure]
  | cons f fs ih =>
    rw [List.flatMap_cons]
    refine foldlM_append_ok (foldlM_function (h f List.mem_cons_self)) ?_
    rw [ih fun g hg => h g (List.mem_cons_of_mem _ hg)]
    simp

end Draft

/-- The module with the instructions of sections of another one added. -/
def Module.appendSections (m source : Module) (sections : List Section) : Module :=
  sections.foldl (fun m s => m.appendAll (source.instructionsIn s) s) m

theorem Module.Routed.foldlM_sections {source : Module} (h : source.Routed) (m : Module)
    (sections : List Section) :
    (sections.flatMap source.instructionsIn).foldlM Draft.place ⟨m, none⟩ =
      .ok ⟨m.appendSections source sections, none⟩ := by
  induction sections generalizing m with
  | nil => rfl
  | cons s rest ih =>
    rw [List.flatMap_cons]
    exact Draft.foldlM_append_ok (Draft.foldlM_section (h.sections s)) (ih _)

/-- The declarations of a module section by section. -/
theorem Module.declarations_eq (m : Module) : m.declarations =
    [.capabilities, .extensions, .imports].flatMap m.instructionsIn ++ m.memoryModel.toList ++
      [.entryPoints, .executionModes, .sources, .names, .processed, .annotations,
        .globals].flatMap m.instructionsIn := by
  simp [declarations, instructionsIn]

/-- Reading the instructions of a routed module in layout order gives the module. -/
theorem Module.Routed.foldlM_instructions {m : Module} (h : m.Routed) :
    m.instructions.foldlM Draft.place { complete := { header := m.header } } =
      .ok { complete := m } := by
  rw [instructions, m.declarations_eq]
  have hstart := h.foldlM_sections { header := m.header } [.capabilities, .extensions, .imports]
  have hmodel := Draft.foldlM_append_ok hstart (Draft.foldlM_memoryModel h.memoryModel rfl)
  have hrest := Draft.foldlM_append_ok hmodel (h.foldlM_sections _
    [.entryPoints, .executionModes, .sources, .names, .processed, .annotations, .globals])
  rw [Draft.foldlM_append_ok hrest (Draft.foldlM_functions h.functions)]
  simp [appendSections, appendAll, instructionsIn]

/-! ### The layout order of a routed module -/

theorem ranked_section {s : Section} {insts : List Instruction}
    (h : ∀ inst ∈ insts, inst.opcode.placement = .within s) (rest : List Instruction) :
    ranked false (insts ++ rest) = insts.map (s.rank, ·) ++ ranked false rest := by
  induction insts with
  | nil => rfl
  | cons inst insts ih =>
    have hs := h inst List.mem_cons_self
    have hop : (inst.opcode == .function) = false := by simpa using (Opcode.isBody_of_within hs).1
    rw [List.cons_append, ranked, hop, ih fun i hi => h i (List.mem_cons_of_mem _ hi), hs]
    rfl

theorem ranked_memoryModel {model : Option Instruction}
    (h : ∀ inst ∈ model, inst.opcode = .memoryModel) (rest : List Instruction) :
    ranked false (model.toList ++ rest) =
      model.toList.map (.memoryModel, ·) ++ ranked false rest := by
  cases model with
  | none => rfl
  | some inst =>
    have hop := h inst rfl
    have hopens : (inst.opcode == .function) = false := by rw [hop]; rfl
    simp [ranked, hopens, Opcode.placement_eq_memoryModel.2 hop, Placement.rank]

/-- Inside of a function everything up to its end has the rank of functions. -/
theorem ranked_inside {insts : List Instruction} (h : ∀ inst ∈ insts, inst.opcode ≠ .functionEnd)
    (rest : List Instruction) :
    ranked true (insts ++ rest) = insts.map (.functions, ·) ++ ranked true rest := by
  induction insts with
  | nil => rfl
  | cons inst insts ih =>
    have hop : (inst.opcode != .functionEnd) = true := by simpa using h inst List.mem_cons_self
    rw [List.cons_append, ranked, hop, ih fun i hi => h i (List.mem_cons_of_mem _ hi)]
    rfl

theorem Function.Framed.opened_ne_functionEnd {f : Function} (h : f.Framed) :
    ∀ inst ∈ f.opened, inst.opcode ≠ .functionEnd := by
  intro inst hinst
  simp only [opened, List.cons_append, List.mem_cons, List.mem_append, List.mem_flatMap,
    Block.instructions] at hinst
  rcases hinst with rfl | hinst | ⟨b, hb, rfl | hinst⟩
  · simp [h.definition]
  · simp [h.parameters inst hinst]
  · simp [h.labels b hb]
  · exact (h.bodies b hb inst hinst).2.2.1

theorem ranked_function {f : Function} (h : f.Formed) (rest : List Instruction) :
    ranked false (f.instructions ++ rest) =
      f.instructions.map (.functions, ·) ++ ranked false rest := by
  have hopened := h.toFramed.opened_ne_functionEnd
  rw [Function.instructions_eq]
  rw [Function.opened, List.cons_append] at hopened ⊢
  have hinside : ∀ inst ∈ f.parameters ++ f.blocks.flatMap Block.instructions,
      inst.opcode ≠ .functionEnd := fun inst hinst => hopened inst (List.mem_cons_of_mem _ hinst)
  have hend : (f.ending.opcode != .functionEnd) = false := by simp [h.ending]
  rw [List.cons_append, List.cons_append, List.append_assoc, ranked, h.definition, beq_self_eq_true,
    ranked_inside hinside, List.singleton_append, ranked, hend,
    Opcode.placement_eq_opensFunction.2 rfl]
  simp [Placement.rank]

theorem ranked_functions {fs : List Function} (h : ∀ f ∈ fs, f.Formed) :
    ranked false (fs.flatMap Function.instructions) =
      (fs.flatMap Function.instructions).map (.functions, ·) := by
  induction fs with
  | nil => rfl
  | cons f fs ih =>
    rw [List.flatMap_cons, ranked_function (h f List.mem_cons_self),
      ih fun g hg => h g (List.mem_cons_of_mem _ hg), List.map_append]

theorem Module.Routed.ranked_sections {m : Module} (h : m.Routed) (sections : List Section)
    (rest : List Instruction) :
    ranked false (sections.flatMap m.instructionsIn ++ rest) =
      (sections.flatMap fun s => (m.members s.rank).map (s.rank, ·)) ++ ranked false rest := by
  induction sections with
  | nil => rfl
  | cons s sections ih =>
    rw [List.flatMap_cons, List.append_assoc, ranked_section (h.sections s), ih, List.flatMap_cons,
      members_rank, List.append_assoc]

/-- In a routed module the instructions stand by parts, each with its rank. -/
theorem Module.Routed.ranked_instructions {m : Module} (h : m.Routed) :
    ranked false m.instructions = Rank.all.flatMap fun r => (m.members r).map (r, ·) := by
  rw [instructions, m.declarations_eq, List.append_assoc, List.append_assoc, h.ranked_sections,
    ranked_memoryModel h.memoryModel, h.ranked_sections, ranked_functions h.functions]
  simp [Rank.all, Section.rank, members]

theorem Module.Routed.ordered {m : Module} (h : m.Routed) :
    Ordered (ranked false m.instructions) := by
  unfold Ordered
  rw [h.ranked_instructions, List.pairwise_flatMap]
  constructor
  · intro r _
    refine List.pairwise_of_forall_mem_list fun a ha b hb => ?_
    obtain ⟨_, _, rfl⟩ := List.mem_map.1 ha
    obtain ⟨_, _, rfl⟩ := List.mem_map.1 hb
    exact Rank.le_refl r
  · refine Rank.pairwise_all.imp fun {r r'} hr a ha b hb => ?_
    obtain ⟨_, _, rfl⟩ := List.mem_map.1 ha
    obtain ⟨_, _, rfl⟩ := List.mem_map.1 hb
    exact hr.1

/-- The ranks of a stream come from its opcodes. -/
theorem ordered_of_opcodes {first second : List Instruction} {inside : Bool}
    (h : List.Forall₂ (fun a b => a.opcode = b.opcode) first second) :
    Ordered (ranked inside first) → Ordered (ranked inside second) := by
  have hranks : (ranked inside first).map (·.1) = (ranked inside second).map (·.1) := by
    induction h generalizing inside with
    | nil => rfl
    | cons hop _ ih => cases inside <;> simp [ranked, hop, ih]
  unfold Ordered
  intro hfirst
  have hmap := List.pairwise_map.2 hfirst
  rw [hranks] at hmap
  exact List.pairwise_map.1 hmap

/-! ### The round trip -/

theorem Module.parse_assemble_eq (m : Module) :
    parse m.assemble = parseNative m.header.version.word m.header.generator m.header.bound
      m.header.schema (m.instructions.flatMap Instruction.words) := by
  simp [parse, assemble, headerWords]

theorem Module.Representable.parse_assemble {m : Module} (h : m.Representable) :
    parse m.assemble = .ok m := by
  rw [parse_assemble_eq, parseNative_eq_ok]
  refine ⟨m.instructions, splits_words fun inst hinst => ?_, ?_⟩
  · exact ⟨h.slots inst hinst, h.lengths inst hinst⟩
  rw [Version.ofWord_word]
  exact h.toRouted.foldlM_instructions

/-- An ordered stream is read as it is. -/
theorem Draft.instructions_of_ordered {header : Header} {insts : List Instruction} {m : Module}
    (h : insts.foldlM place { complete := { header } } = .ok { complete := m })
    (hordered : Ordered (ranked false insts)) : m.instructions = insts := by
  rw [instructions_of_foldlM h, hordered.byRank_eq, map_snd_ranked]

/-- Reading keeps all instructions of the stream. -/
theorem Draft.perm_of_foldlM {header : Header} {insts : List Instruction} {m : Module}
    (h : insts.foldlM place { complete := { header } } = .ok { complete := m }) :
    m.instructions.Perm insts := by
  have hperm := (stablySorted_byRank (ranked false insts)).perm.map (·.2)
  rwa [map_snd_ranked, ← instructions_of_foldlM h] at hperm

/-- A module that is read back from its own words is representable. -/
theorem Module.representable_of_parse {m : Module} (h : parse m.assemble = .ok m) :
    m.Representable := by
  rw [parse_assemble_eq, parseNative_eq_ok] at h
  obtain ⟨read, hsplit, hfold⟩ := h
  have hrouted : m.Routed := (Draft.routed_of_foldlM hfold (Draft.routed_start _)).complete
  have hlengths : ∀ inst ∈ m.instructions, inst.wordCount ≤ Instruction.maxWords :=
    fun inst hinst => (hsplit.decoded inst ((Draft.perm_of_foldlM hfold).mem_iff.1 hinst)).2
  have hread := hsplit.of_words hlengths
  have hopcodes : List.Forall₂ (fun a b => a.opcode = b.opcode) m.instructions read :=
    hread.imp fun _ _ hab => (Instruction.ofWords_eq_ok.1 hab).1.symm
  have heq := Draft.instructions_of_ordered hfold (ordered_of_opcodes hopcodes hrouted.ordered)
  rw [← heq, List.forall₂_same] at hread
  refine ⟨hrouted, hlengths, fun inst hinst => ?_⟩
  exact Instruction.ofWords_resultWords_iff.1 (hread inst hinst)

/-- Writing a module and reading the result gives the module back exactly if it is representable. -/
theorem Module.parse_assemble_iff (m : Module) : parse m.assemble = .ok m ↔ m.Representable :=
  ⟨representable_of_parse, Representable.parse_assemble⟩

end ShaderGraft
