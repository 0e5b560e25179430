import ShaderGraft.Proofs.RoundTrip

/-!
# What reading and writing again does to a stream

Reading accepts a stream in any order of its sections, in either byte order, and with anything in
the unused bytes of the version word; writing gives one form only. `Module.parse_canonical` says
what that does to an accepted stream: the instructions are put into the order of their ranks and
nothing else happens to them, and the words are the same again exactly if the stream was in the
written form before.
-/

namespace ShaderGraft

namespace Stream

/-- The words of a stream in native byte order. -/
def native (ws : List Word) : List Word :=
  if ws.head? = some Module.magic then ws else ws.map Word.reverseBytes

/-- The instructions of a stream, in its order. -/
def instructions (ws : List Word) : List Instruction :=
  (Scan.scanFrom 0 Module.headerLength ((native ws).drop Module.headerLength)).items.map (·.inst)

/-- The instructions of a stream with their ranks in the layout. -/
def ranks (ws : List Word) : List (Rank × Instruction) :=
  ranked false (instructions ws)

/-- The bytes of the version word that are not looked at are zero. -/
def PlainVersion (ws : List Word) : Prop :=
  ∀ version : Word, ws[1]? = some version → (version >>> 24).toUInt8 = 0 ∧ version.toUInt8 = 0

/-- The stream is as a module is written. -/
structure Written (ws : List Word) : Prop where
  magic : ws.head? = some Module.magic
  version : PlainVersion ws
  slots : ∀ inst ∈ instructions ws, inst.NoZeroSlot
  ordered : Ordered (ranks ws)

theorem instructions_eq {ws body : List Word} {magic version generator bound schema : Word}
    {insts : List Instruction}
    (hws : native ws = magic :: version :: generator :: bound :: schema :: body)
    (h : Splits body insts) : instructions ws = insts := by
  obtain ⟨items, hscan, rfl⟩ := h.scanFrom_eq Module.headerLength
  have hdrop : (native ws).drop Module.headerLength = body := by rw [hws]; rfl
  rw [instructions, hdrop, hscan]

end Stream

/-- An accepted stream in native byte order: it is split, and its instructions are put in their
places. -/
theorem Module.parse_eq_ok {ws : List Word} {m : Module} (h : parse ws = .ok m) :
    ∃ version generator bound schema body,
      Stream.native ws = magic :: version :: generator :: bound :: schema :: body ∧
        Splits body (Stream.instructions ws) ∧
        (Stream.instructions ws).foldlM Draft.place
            { complete := { header := { version := .ofWord version, generator, bound, schema } } } =
          .ok { complete := m } := by
  have hnative : ∃ version generator bound schema body,
      Stream.native ws = magic :: version :: generator :: bound :: schema :: body ∧
        parseNative version generator bound schema body = .ok m := by
    unfold parse at h
    split at h
    · rename_i first version generator bound schema body
      split at h
      · rename_i hmagic
        exact ⟨version, generator, bound, schema, body, by simp [Stream.native, hmagic], h⟩
      · rename_i hmagic
        split at h
        · rename_i hreversed
          exact ⟨_, _, _, _, _, by simp [Stream.native, hmagic, hreversed], h⟩
        · cases h
    · cases h
  obtain ⟨version, generator, bound, schema, body, hws, hparse⟩ := hnative
  obtain ⟨insts, hsplit, hfold⟩ := parseNative_eq_ok.1 hparse
  have hinsts := Stream.instructions_eq hws hsplit
  exact ⟨version, generator, bound, schema, body, hws, hinsts ▸ hsplit, hinsts ▸ hfold⟩

/-- Reading and writing again keeps a stream exactly if it is in the written form. -/
theorem Module.assemble_eq_iff {ws : List Word} {m : Module} (h : parse ws = .ok m) :
    m.assemble = ws ↔ Stream.Written ws := by
  obtain ⟨version, generator, bound, schema, body, hws, hsplit, hfold⟩ := parse_eq_ok h
  have hheader : m.header = { version := .ofWord version, generator, bound, schema } :=
    Draft.header_of_foldlM hfold
  have hassemble : m.assemble = magic :: (Version.ofWord version).word :: generator :: bound ::
      schema :: m.instructions.flatMap Instruction.words := by
    simp [assemble, headerWords, hheader]
  have hperm := Draft.perm_of_foldlM hfold
  constructor
  · intro heq
    have hmagic : ws.head? = some magic := by rw [← heq, hassemble]; rfl
    have hnative : Stream.native ws = ws := if_pos hmagic
    rw [hnative] at hws
    rw [hassemble, hws] at heq
    simp only [List.cons.injEq, true_and] at heq
    obtain ⟨hversion, hbody⟩ := heq
    have hlength : ((Stream.instructions ws).flatMap Instruction.words).length = body.length := by
      rw [← hbody]
      exact (hperm.flatMap_right Instruction.words).length_eq.symm
    have hfilled := hsplit.slotsFilled_of_length hlength
    -- Both lists of instructions have the words of the stream, which split in one way only.
    have hinsts : m.instructions = Stream.instructions ws := by
      refine Splits.unique ?_ hsplit
      rw [← hbody]
      refine splits_words fun inst hinst => ?_
      have hmem := hperm.mem_iff.1 hinst
      exact ⟨hfilled inst hmem, (hsplit.decoded inst hmem).2⟩
    have hslots (inst : Instruction) (hinst : inst ∈ Stream.instructions ws) : inst.NoZeroSlot :=
      (Instruction.slotsFilled_iff.1 (hfilled inst hinst)).2
    refine ⟨hmagic, ?_, hslots, ?_⟩
    · intro v hv
      rw [hws] at hv
      cases hv
      exact (Version.word_ofWord_iff version).1 hversion
    · rw [Stream.ranks, ← hinsts]
      exact (Draft.routed_of_foldlM hfold (Draft.routed_start _)).complete.ordered
  · rintro ⟨hmagic, hversion, hslots, hordered⟩
    have hnative : Stream.native ws = ws := if_pos hmagic
    rw [hnative] at hws
    have hfilled : ∀ inst ∈ Stream.instructions ws, inst.SlotsFilled := fun inst hinst =>
      Instruction.slotsFilled_iff.2 ⟨(hsplit.decoded inst hinst).1, hslots inst hinst⟩
    have hword := (Version.word_ofWord_iff version).2 (hversion version (by rw [hws]; rfl))
    rw [hassemble, Draft.instructions_of_ordered hfold hordered, ← hsplit.eq_words hfilled, hword]
    exact hws.symm

/-- Reading a stream puts its instructions into the order of their ranks, without loss and stably,
and writing the result gives the stream again exactly if it was in the written form. -/
theorem Module.parse_canonical {ws : List Word} {m : Module} (h : parse ws = .ok m) :
    (∃ sorted, StablySorted (Stream.ranks ws) sorted ∧ m.instructions = sorted.map (·.2)) ∧
      (m.assemble = ws ↔ Stream.Written ws) := by
  refine ⟨⟨byRank (Stream.ranks ws), stablySorted_byRank _, ?_⟩, assemble_eq_iff h⟩
  obtain ⟨_, _, _, _, _, -, -, hfold⟩ := parse_eq_ok h
  exact Draft.instructions_of_foldlM hfold

/-- A stream that names an id before it asks for a capability, with a function between them. -/
def Stream.scattered : List Word :=
  [Module.magic, 0x00010300, 0, 9, 0,
    0x00030005, 7, 0x61, 0x00050036, 1, 7, 0, 2, 0x00010038, 0x00020011, 1]

theorem Module.parse_canonical_scattered :
    ∃ m, parse Stream.scattered = .ok m ∧ m.assemble ≠ Stream.scattered ∧
      (∃ sorted, StablySorted (Stream.ranks Stream.scattered) sorted ∧
        m.instructions = sorted.map (·.2)) ∧
      (m.assemble = Stream.scattered ↔ Stream.Written Stream.scattered) :=
  ⟨_, rfl, by decide, parse_canonical rfl⟩

end ShaderGraft
