import ShaderGraft.Module.Parse
import ShaderGraft.Proofs.Results
import ShaderGraft.Proofs.Scanning

/-!
# Where the instructions of a stream go

Reading puts one instruction after the other in its place. `Draft.Places` lists what one step can
do, and everything about a whole stream is an induction over these steps. The parts of a module are
numbered by their rank in the layout; a step adds its instruction at the end of the part of its rank
and leaves the other parts alone (`Draft.Places.members`), so a part holds the instructions of its
rank in stream order (`Draft.members_of_foldlM`).
-/

namespace ShaderGraft

/-- The parts of a module, in the order of the layout. -/
inductive Rank where
  | capabilities
  | extensions
  | imports
  | memoryModel
  | entryPoints
  | executionModes
  | sources
  | names
  | processed
  | annotations
  | globals
  | functions
deriving DecidableEq, Repr

namespace Rank

/-- The place of a part in the layout. -/
def index (r : Rank) : Nat := r.ctorIdx

instance : LE Rank := ⟨fun a b => a.index ≤ b.index⟩

instance (a b : Rank) : Decidable (a ≤ b) := inferInstanceAs (Decidable (a.index ≤ b.index))

/-- The parts in the order of the layout. -/
def all : List Rank :=
  [capabilities, extensions, imports, memoryModel, entryPoints, executionModes, sources, names,
    processed, annotations, globals, functions]

theorem mem_all (r : Rank) : r ∈ all := by
  cases r <;> decide

theorem pairwise_all : all.Pairwise (fun a b => a ≤ b ∧ a ≠ b) := by
  decide

theorem le_refl (a : Rank) : a ≤ a := Nat.le_refl a.index

theorem le_antisymm {a b : Rank} (h : a ≤ b) (h' : b ≤ a) : a = b := by
  have hindex : a.index = b.index := Nat.le_antisymm h h'
  revert hindex
  cases a <;> cases b <;> decide

end Rank

def Section.rank : Section → Rank
  | .capabilities => .capabilities
  | .extensions => .extensions
  | .imports => .imports
  | .entryPoints => .entryPoints
  | .executionModes => .executionModes
  | .sources => .sources
  | .names => .names
  | .processed => .processed
  | .annotations => .annotations
  | .globals => .globals

/-- The part that a place outside of functions belongs to. -/
def Placement.rank : Placement → Rank
  | .within s => s.rank
  | .memoryModel => .memoryModel
  | .opensFunction | .misplaced => .functions

/-- The instructions of a stream with their ranks. `inside` tells whether a function is open at
its start. Everything from the definition of a function to its end has the rank of functions. -/
def ranked : (inside : Bool) → List Instruction → List (Rank × Instruction)
  | _, [] => []
  | true, inst :: rest => (.functions, inst) :: ranked (inst.opcode != .functionEnd) rest
  | false, inst :: rest =>
    (inst.opcode.placement.rank, inst) :: ranked (inst.opcode == .function) rest

/-- The rank of the next instruction of a stream. -/
def nextRank (inside : Bool) (inst : Instruction) : Rank :=
  if inside then .functions else inst.opcode.placement.rank

theorem map_snd_ranked (inside : Bool) (insts : List Instruction) :
    (ranked inside insts).map (·.2) = insts := by
  induction insts generalizing inside with
  | nil => rfl
  | cons inst rest ih => cases inside <;> simp [ranked, ih]

/-! ### Stable order -/

/-- The ranks of a stream never go down. -/
def Ordered (stream : List (Rank × Instruction)) : Prop :=
  stream.Pairwise fun a b => a.1 ≤ b.1

/-- The second list is the first one in the order of the ranks: nothing is lost or doubled, and what
has the same rank keeps its order. -/
structure StablySorted (stream sorted : List (Rank × Instruction)) : Prop where
  perm : sorted.Perm stream
  ordered : Ordered sorted
  stable : ∀ r, sorted.filter (·.1 = r) = stream.filter (·.1 = r)

/-- Two ordered streams with the same instructions of every rank are the same. -/
theorem Ordered.ext {first second : List (Rank × Instruction)} (h : Ordered first)
    (h' : Ordered second) (heq : ∀ r, first.filter (·.1 = r) = second.filter (·.1 = r)) :
    first = second := by
  induction first generalizing second with
  | nil =>
    cases second with
    | nil => rfl
    | cons y second => simpa using heq y.1
  | cons x first ih =>
    cases second with
    | nil => simpa using heq x.1
    | cons y second =>
      obtain ⟨hx, hfirst⟩ := List.pairwise_cons.1 h
      obtain ⟨hy, hsecond⟩ := List.pairwise_cons.1 h'
      -- Both heads have the lowest rank of the same instructions.
      have hmemx : x ∈ (y :: second).filter (·.1 = x.1) := by
        rw [← heq]
        simp
      have hmemy : y ∈ (x :: first).filter (·.1 = y.1) := by
        rw [heq]
        simp
      have hyx : y.1 ≤ x.1 := by
        rcases List.mem_cons.1 (List.mem_filter.1 hmemx).1 with rfl | hmem
        · exact Rank.le_refl _
        · exact hy x hmem
      have hxy : x.1 ≤ y.1 := by
        rcases List.mem_cons.1 (List.mem_filter.1 hmemy).1 with rfl | hmem
        · exact Rank.le_refl _
        · exact hx y hmem
      have hrank : x.1 = y.1 := Rank.le_antisymm hxy hyx
      have hhead := heq x.1
      simp only [List.filter_cons, hrank, decide_true, if_true, List.cons.injEq] at hhead
      obtain ⟨rfl, htail⟩ := hhead
      rw [ih hfirst hsecond fun r => ?_]
      have hr := heq r
      by_cases hxr : x.1 = r <;> simpa [List.filter_cons, hxr] using hr

/-- The instructions of a stream in the order of their ranks. -/
def byRank (stream : List (Rank × Instruction)) : List (Rank × Instruction) :=
  Rank.all.flatMap fun r => stream.filter (·.1 = r)

theorem filter_byRank (stream : List (Rank × Instruction)) (r : Rank) :
    (byRank stream).filter (·.1 = r) = stream.filter (·.1 = r) := by
  have hpart : ∀ ranks : List Rank, ranks.Pairwise (fun a b => a ≤ b ∧ a ≠ b) →
      (ranks.flatMap fun r => stream.filter (·.1 = r)).filter (·.1 = r) =
        if r ∈ ranks then stream.filter (·.1 = r) else [] := by
    intro ranks
    induction ranks with
    | nil => simp
    | cons a ranks ih =>
      intro h
      obtain ⟨ha, hranks⟩ := List.pairwise_cons.1 h
      rw [List.flatMap_cons, List.filter_append, ih hranks, List.filter_filter]
      by_cases har : a = r
      · subst har
        have hnot : a ∉ ranks := fun hmem => (ha a hmem).2 rfl
        simp [hnot]
      · have hnone : (stream.filter fun x => decide (x.1 = r) && decide (x.1 = a)) = [] := by
          rw [List.filter_eq_nil_iff]
          intro x _
          simp only [Bool.and_eq_true, decide_eq_true_eq, not_and]
          rintro rfl rfl
          exact har rfl
        have hra : r ≠ a := fun h => har h.symm
        simp [hnone, hra]
  rw [byRank, hpart _ Rank.pairwise_all, if_pos (Rank.mem_all r)]

theorem ordered_byRank (stream : List (Rank × Instruction)) : Ordered (byRank stream) := by
  unfold Ordered byRank
  rw [List.pairwise_flatMap]
  constructor
  · intro r _
    refine List.pairwise_of_forall_mem_list fun a ha b hb => ?_
    have har : a.1 = r := by simpa using (List.mem_filter.1 ha).2
    have hbr : b.1 = r := by simpa using (List.mem_filter.1 hb).2
    rw [har, hbr]
    exact Rank.le_refl r
  · refine Rank.pairwise_all.imp fun {r r'} hr a ha b hb => ?_
    have har : a.1 = r := by simpa using (List.mem_filter.1 ha).2
    have hbr : b.1 = r' := by simpa using (List.mem_filter.1 hb).2
    rw [har, hbr]
    exact hr.1

theorem stablySorted_byRank (stream : List (Rank × Instruction)) :
    StablySorted stream (byRank stream) := by
  refine ⟨List.perm_iff_count.2 fun a => ?_, ordered_byRank stream, filter_byRank stream⟩
  have hcount := congrArg (List.count a) (filter_byRank stream a.1)
  rwa [List.count_filter (by simp), List.count_filter (by simp)] at hcount

theorem Ordered.byRank_eq {stream : List (Rank × Instruction)} (h : Ordered stream) :
    byRank stream = stream :=
  (ordered_byRank stream).ext h (filter_byRank stream)

/-! ### Opcodes -/

namespace Opcode

/-- Whether the opcode can stand in the body of a block: it is none of those that make up the frame
of a function. -/
def IsBody (op : Opcode) : Prop :=
  op ≠ .function ∧ op ≠ .functionParameter ∧ op ≠ .functionEnd ∧ op ≠ .label

instance (op : Opcode) : Decidable op.IsBody :=
  inferInstanceAs (Decidable (_ ∧ _))

theorem placement_eq_opensFunction {op : Opcode} :
    op.placement = .opensFunction ↔ op = .function := by
  constructor
  · unfold placement
    split <;> simp
  · rintro rfl
    rfl

theorem placement_eq_memoryModel {op : Opcode} :
    op.placement = .memoryModel ↔ op = .memoryModel := by
  constructor
  · unfold placement
    split <;> simp
  · rintro rfl
    rfl

/-- What belongs to a section can also stand in a block. -/
theorem isBody_of_within {op : Opcode} {s : Section} (h : op.placement = .within s) :
    op.IsBody := by
  refine ⟨?_, ?_, ?_, ?_⟩ <;> (rintro rfl; cases h)

end Opcode

/-! ### One step of reading -/

namespace Block

theorem appendToLast?_append (inst : Instruction) (bs : List Block) (b : Block) :
    appendToLast? inst (bs ++ [b]) = some (bs ++ [{ b with body := b.body ++ [inst] }]) := by
  induction bs with
  | nil => rfl
  | cons c bs ih =>
    rw [List.cons_append, appendToLast?, ih]
    · rfl
    · simp

theorem appendToLast?_eq_some {inst : Instruction} {blocks blocks' : List Block}
    (h : appendToLast? inst blocks = some blocks') :
    ∃ bs b, blocks = bs ++ [b] ∧ blocks' = bs ++ [{ b with body := b.body ++ [inst] }] := by
  rcases List.eq_nil_or_concat blocks with rfl | ⟨bs, b, rfl⟩
  · cases h
  · rw [List.concat_eq_append, appendToLast?_append] at h
    cases h
    exact ⟨bs, b, List.concat_eq_append, rfl⟩

end Block

namespace Draft

/-- What putting one instruction in its place can do. -/
inductive Places : Draft → Instruction → Draft → Prop where
  | within {m : Module} {inst : Instruction} {s : Section} :
    inst.opcode.placement = .within s → Places ⟨m, none⟩ inst ⟨m.append inst s, none⟩
  | memoryModel {m : Module} {inst : Instruction} :
    inst.opcode = .memoryModel → m.memoryModel = none →
      Places ⟨m, none⟩ inst ⟨{ m with memoryModel := some inst }, none⟩
  | opens {m : Module} {inst : Instruction} :
    inst.opcode = .function → Places ⟨m, none⟩ inst ⟨m, some { definition := inst }⟩
  | parameter {m : Module} {f : Function} {inst : Instruction} :
    inst.opcode = .functionParameter → f.blocks = [] →
      Places ⟨m, some f⟩ inst ⟨m, some { f with parameters := f.parameters ++ [inst] }⟩
  | label {m : Module} {f : Function} {inst : Instruction} :
    inst.opcode = .label →
      Places ⟨m, some f⟩ inst ⟨m, some { f with blocks := f.blocks ++ [{ label := inst }] }⟩
  | body {m : Module} {f : Function} {inst : Instruction} {bs : List Block} {b : Block} :
    inst.opcode.IsBody → f.blocks = bs ++ [b] →
      Places ⟨m, some f⟩ inst
        ⟨m, some { f with blocks := bs ++ [{ b with body := b.body ++ [inst] }] }⟩
  | closes {m : Module} {f : Function} {inst : Instruction} :
    inst.opcode = .functionEnd →
      Places ⟨m, some f⟩ inst
        ⟨{ m with functions := m.functions ++ [{ f with ending := inst }] }, none⟩

theorem Places.place_eq {d d' : Draft} {inst : Instruction} (h : Places d inst d') :
    d.place inst = .ok d' := by
  cases h with
  | within hs => simp [place, hs]
  | memoryModel hop hnone => simp [place, hop, Opcode.placement_eq_memoryModel.2, hnone]
  | opens hop => simp [place, hop, Opcode.placement_eq_opensFunction.2]
  | parameter hop hblocks => simp [place, Function.extend, hop, hblocks, Except.map]
  | label hop => simp [place, Function.extend, hop, Except.map]
  | closes hop => simp [place, hop]
  | body hop hblocks =>
    obtain ⟨h1, h2, h3, h4⟩ := hop
    simp only [place, h3, if_false, Function.extend, hblocks, Block.appendToLast?_append]
    rfl

theorem places_of_place {d d' : Draft} {inst : Instruction} (h : d.place inst = .ok d') :
    Places d inst d' := by
  rcases d with ⟨m, _ | f⟩
  · simp only [place] at h
    split at h
    · rename_i s hs
      cases h
      exact .within hs
    · rename_i hs
      split at h
      · cases h
      · rename_i hmodel
        cases h
        exact .memoryModel (Opcode.placement_eq_memoryModel.1 hs) (by simpa using hmodel)
    · rename_i hs
      cases h
      exact .opens (Opcode.placement_eq_opensFunction.1 hs)
    · cases h
  · simp only [place] at h
    split at h
    · rename_i hend
      cases h
      exact .closes hend
    · rename_i hend
      unfold Function.extend at h
      split at h
      · rename_i hop
        split at h
        · rename_i hblocks
          cases h
          exact .parameter hop (by simpa using hblocks)
        · cases h
      · rename_i hop
        cases h
        exact .label hop
      · cases h
      · rename_i hparameter hlabel hfunction
        split at h
        · rename_i blocks hblocks
          obtain ⟨bs, b, hf, rfl⟩ := Block.appendToLast?_eq_some hblocks
          cases h
          exact .body ⟨hfunction, hparameter, hend, hlabel⟩ hf
        · cases h

theorem place_eq_ok {d d' : Draft} {inst : Instruction} :
    d.place inst = .ok d' ↔ Places d inst d' :=
  ⟨places_of_place, Places.place_eq⟩

/-- A stream goes step by step. -/
theorem foldlM_cons_eq_ok {d d' : Draft} {inst : Instruction} {rest : List Instruction} :
    (inst :: rest).foldlM place d = .ok d' ↔
      ∃ next, Places d inst next ∧ rest.foldlM place next = .ok d' := by
  rw [List.foldlM_cons, bind_eq_ok]
  simp only [place_eq_ok]

theorem foldlM_append_ok {d next d' : Draft} {first second : List Instruction}
    (h : first.foldlM place d = .ok next) (h' : second.foldlM place next = .ok d') :
    (first ++ second).foldlM place d = .ok d' := by
  rw [List.foldlM_append, h]
  exact h'

end Draft

/-! ### The parts of a module -/

/-- The instructions of a function that is still open: all but its end. -/
def Function.opened (f : Function) : List Instruction :=
  f.definition :: f.parameters ++ f.blocks.flatMap Block.instructions

theorem Function.instructions_eq (f : Function) : f.instructions = f.opened ++ [f.ending] := by
  simp [instructions, opened]

/-- The instructions of a part of the module. -/
def Module.members (m : Module) : Rank → List Instruction
  | .capabilities => m.capabilities
  | .extensions => m.extensions
  | .imports => m.imports
  | .memoryModel => m.memoryModel.toList
  | .entryPoints => m.entryPoints
  | .executionModes => m.executionModes
  | .sources => m.sources
  | .names => m.names
  | .processed => m.processed
  | .annotations => m.annotations
  | .globals => m.globals
  | .functions => m.functions.flatMap Function.instructions

theorem Module.instructions_eq_members (m : Module) :
    m.instructions = Rank.all.flatMap m.members := by
  simp [instructions, declarations, Rank.all, members]

theorem Module.members_rank (m : Module) (s : Section) : m.members s.rank = m.instructionsIn s := by
  cases s <;> rfl

theorem Module.members_append (m : Module) (inst : Instruction) (s : Section) (r : Rank) :
    (m.append inst s).members r = m.members r ++ if s.rank = r then [inst] else [] := by
  cases s <;> cases r <;> simp [append, members, Section.rank]

namespace Draft

/-- The instructions of a part, those of the open function included. -/
def members (d : Draft) (r : Rank) : List Instruction :=
  d.complete.members r ++ if r = .functions then (d.current.map Function.opened).getD [] else []

/-- A step adds its instruction at the end of the part of its rank. -/
theorem Places.members {d d' : Draft} {inst : Instruction} (h : Places d inst d') (r : Rank) :
    d'.members r = d.members r ++ if nextRank d.current.isSome inst = r then [inst] else [] := by
  cases h with
  | within hs =>
    simp only [Draft.members, Module.members_append, nextRank, hs, Placement.rank]
    simp
  | memoryModel hop hnone =>
    simp only [Draft.members, nextRank, hop, Opcode.placement_eq_memoryModel.2, Placement.rank]
    cases r <;> simp [Module.members, hnone]
  | opens hop =>
    simp only [Draft.members, nextRank, hop, Opcode.placement_eq_opensFunction.2, Placement.rank]
    cases r <;> simp [Module.members, Function.opened]
  | parameter hop hblocks =>
    cases r <;> simp [Draft.members, nextRank, Module.members, Function.opened, hblocks]
  | label hop =>
    cases r <;> simp [Draft.members, nextRank, Module.members, Function.opened, Block.instructions]
  | body hop hblocks =>
    cases r <;>
      simp [Draft.members, nextRank, Module.members, Function.opened, Block.instructions, hblocks]
  | closes hop =>
    cases r <;>
      simp [Draft.members, nextRank, Module.members, Function.instructions_eq, Function.opened]

/-- Whether a function is open after a step. -/
theorem Places.current_isSome {d d' : Draft} {inst : Instruction} (h : Places d inst d') :
    d'.current.isSome =
      if d.current.isSome then inst.opcode != .functionEnd else inst.opcode == .function := by
  cases h with
  | within hs =>
    have := (Opcode.isBody_of_within hs).1
    simp [this]
  | memoryModel hop | opens hop | parameter hop | label hop | closes hop => simp [hop]
  | body hop =>
    have := hop.2.2.1
    simp [this]

theorem ranked_cons (inside : Bool) (inst : Instruction) (rest : List Instruction) :
    ranked inside (inst :: rest) = (nextRank inside inst, inst) ::
      ranked (if inside then inst.opcode != .functionEnd else inst.opcode == .function) rest := by
  cases inside <;> rfl

/-- After a stream, a part holds what it held before and the instructions of its rank in order. -/
theorem members_of_foldlM {d d' : Draft} {insts : List Instruction}
    (h : insts.foldlM place d = .ok d') (r : Rank) :
    d'.members r =
      d.members r ++ ((ranked d.current.isSome insts).filter (·.1 = r)).map (·.2) := by
  induction insts generalizing d with
  | nil =>
    cases h
    simp [ranked]
  | cons inst rest ih =>
    obtain ⟨next, hnext, hrest⟩ := foldlM_cons_eq_ok.1 h
    rw [ih hrest, hnext.members, ranked_cons, hnext.current_isSome, List.append_assoc,
      List.filter_cons]
    by_cases hr : nextRank d.current.isSome inst = r <;> simp [hr]

theorem Places.header {d d' : Draft} {inst : Instruction} (h : Places d inst d') :
    d'.complete.header = d.complete.header := by
  cases h with
  | @within m inst s => cases s <;> rfl
  | _ => rfl

theorem header_of_foldlM {d d' : Draft} {insts : List Instruction}
    (h : insts.foldlM place d = .ok d') : d'.complete.header = d.complete.header := by
  induction insts generalizing d with
  | nil =>
    cases h
    rfl
  | cons inst rest ih =>
    obtain ⟨next, hnext, hrest⟩ := foldlM_cons_eq_ok.1 h
    rw [ih hrest, hnext.header]

/-- Reading gives the instructions of the stream in the order of their ranks. -/
theorem instructions_of_foldlM {header : Header} {insts : List Instruction} {m : Module}
    (h : insts.foldlM place { complete := { header } } = .ok { complete := m }) :
    m.instructions = (byRank (ranked false insts)).map (·.2) := by
  have hmembers : ∀ r, m.members r = ((ranked false insts).filter (·.1 = r)).map (·.2) := by
    intro r
    have hr := members_of_foldlM h r
    cases r <;> simpa [members, Module.members] using hr
  rw [Module.instructions_eq_members, byRank, List.map_flatMap]
  exact List.flatMap_congr fun r _ => hmembers r

end Draft

end ShaderGraft
