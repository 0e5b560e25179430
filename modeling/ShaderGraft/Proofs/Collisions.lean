import ShaderGraft.CommandLine.Commands
import ShaderGraft.Proofs.Escapes
import ShaderGraft.Proofs.LogLines
import ShaderGraft.Proofs.Tables

/-!
# Collisions of hashes

The command that hashes names warns of a collision exactly if there is one, and writes every name
with its hash (`CommandLine.runHash_reports`). It compares each name only with the last one before
it that has the same hash. That is enough as long as no warning was given: then all names seen so
far that have the same hash are equal (`Coherent`), and the last one stands for all of them.

The names can be read back from the warnings and from the JSON output, whatever bytes they have
apart from stray ones in JSON, which are all written alike (`CommandLine.runHash_stray`). In a table
the names are as they are if they have no byte that forms cells and lines.
-/

namespace ShaderGraft.CommandLine

open Text

/-! ### The names seen so far -/

/-- Entries with the same hash have the same name. -/
def Coherent (entries : List HashEntry) : Prop :=
  ∀ a ∈ entries, ∀ b ∈ entries, a.hash = b.hash → a.name = b.name

theorem mem_collisionsFrom_cons {seen rest : List HashEntry} {e : HashEntry} {c : Collision} :
    c ∈ collisionsFrom seen (e :: rest) ↔
      (∃ other, seen.find? (·.hash == e.hash) = some other ∧ other.name ≠ e.name ∧
        c = ⟨e.hash, other.name, e.name⟩) ∨ c ∈ collisionsFrom (e :: seen) rest := by
  rw [collisionsFrom, List.mem_append]
  refine or_congr_left ?_
  cases hother : seen.find? (·.hash == e.hash) with
  | none => simp
  | some other => by_cases hname : other.name = e.name <;> simp [hname]

theorem of_find?_hash {seen : List HashEntry} {e other : HashEntry}
    (h : seen.find? (·.hash == e.hash) = some other) : other ∈ seen ∧ other.hash = e.hash := by
  have hhash := List.find?_some h
  exact ⟨List.mem_of_find?_eq_some h, beq_iff_eq.1 hhash⟩

/-- One more entry is coherent with all those before if it is with the last one of its hash. -/
theorem Coherent.cons {seen : List HashEntry} (hseen : Coherent seen) {e : HashEntry}
    (he : ∀ other, seen.find? (·.hash == e.hash) = some other → other.name = e.name) :
    Coherent (e :: seen) := by
  have hlast : ∀ b ∈ seen, b.hash = e.hash → b.name = e.name := by
    intro b hb hhash
    have hsome : (seen.find? (·.hash == e.hash)).isSome := by
      rw [List.find?_isSome]
      exact ⟨b, hb, by simpa using hhash⟩
    obtain ⟨other, hother⟩ := Option.isSome_iff_exists.1 hsome
    obtain ⟨hmem, hsame⟩ := of_find?_hash hother
    rw [hseen b hb other hmem (hhash.trans hsame.symm)]
    exact he other hother
  intro a ha b hb hhash
  rcases List.mem_cons.1 ha with rfl | ha'
  · rcases List.mem_cons.1 hb with rfl | hb'
    · rfl
    · exact (hlast b hb' hhash.symm).symm
  · rcases List.mem_cons.1 hb with rfl | hb'
    · exact hlast a ha' hhash
    · exact hseen a ha' b hb' hhash

/-- Without a collision, the entries stay coherent to the end. -/
theorem Coherent.of_collisionsFrom {seen rest : List HashEntry} (hseen : Coherent seen)
    (h : collisionsFrom seen rest = []) : Coherent (rest.reverse ++ seen) := by
  induction rest generalizing seen with
  | nil => exact hseen
  | cons e rest ih =>
    have hnone (c : Collision) : c ∉ collisionsFrom seen (e :: rest) := h ▸ List.not_mem_nil
    have he : ∀ other, seen.find? (·.hash == e.hash) = some other → other.name = e.name := by
      intro other hother
      by_contra hname
      exact hnone _ (mem_collisionsFrom_cons.2 (.inl ⟨other, hother, hname, rfl⟩))
    have hrest : collisionsFrom (e :: seen) rest = [] :=
      List.eq_nil_iff_forall_not_mem.2 fun c hc => hnone c (mem_collisionsFrom_cons.2 (.inr hc))
    rw [List.reverse_cons, List.append_assoc, List.singleton_append]
    exact ih (hseen.cons he) hrest

/-- A collision is between two of the entries. -/
theorem exists_of_mem_collisionsFrom {seen rest : List HashEntry} {c : Collision}
    (h : c ∈ collisionsFrom seen rest) :
    c.first ≠ c.second ∧ ⟨c.first, c.hash⟩ ∈ rest ++ seen ∧ ⟨c.second, c.hash⟩ ∈ rest := by
  induction rest generalizing seen with
  | nil => cases h
  | cons e rest ih =>
    rcases mem_collisionsFrom_cons.1 h with ⟨other, hother, hname, rfl⟩ | h
    · obtain ⟨hmem, hsame⟩ := of_find?_hash hother
      refine ⟨hname, List.mem_append_right _ ?_, List.mem_cons_self⟩
      rw [← hsame]
      exact hmem
    · obtain ⟨hne, hfirst, hsecond⟩ := ih h
      refine ⟨hne, ?_, List.mem_cons_of_mem _ hsecond⟩
      exact List.perm_middle.subset hfirst

/-! ### The names of a command -/

theorem mem_hashEntries {names : List Bytes} {e : HashEntry} :
    e ∈ hashEntries names ↔ e.name ∈ names ∧ nameHash e.name = e.hash := by
  rw [hashEntries, List.mem_map]
  constructor
  · rintro ⟨name, hname, rfl⟩
    exact ⟨hname, rfl⟩
  · rintro ⟨hname, hhash⟩
    exact ⟨e.name, hname, by rw [hhash]⟩

theorem of_mem_collisions {names : List Bytes} {c : Collision} (h : c ∈ collisions names) :
    c.first ∈ names ∧ c.second ∈ names ∧ c.first ≠ c.second ∧ nameHash c.first = c.hash ∧
      nameHash c.second = c.hash := by
  obtain ⟨hne, hfirst, hsecond⟩ := exists_of_mem_collisionsFrom h
  rw [List.append_nil] at hfirst
  obtain ⟨hfirst, hfirstHash⟩ := mem_hashEntries.1 hfirst
  obtain ⟨hsecond, hsecondHash⟩ := mem_hashEntries.1 hsecond
  exact ⟨hfirst, hsecond, hne, hfirstHash, hsecondHash⟩

theorem collisions_ne_nil_iff {names : List Bytes} :
    collisions names ≠ [] ↔ ∃ a ∈ names, ∃ b ∈ names, a ≠ b ∧ nameHash a = nameHash b := by
  constructor
  · intro h
    obtain ⟨c, hc⟩ := List.exists_mem_of_ne_nil _ h
    obtain ⟨hfirst, hsecond, hne, hfirstHash, hsecondHash⟩ := of_mem_collisions hc
    exact ⟨c.first, hfirst, c.second, hsecond, hne, hfirstHash.trans hsecondHash.symm⟩
  · rintro ⟨a, ha, b, hb, hne, hhash⟩ hnone
    have hcoherent : Coherent ((hashEntries names).reverse ++ []) :=
      Coherent.of_collisionsFrom (fun _ h => absurd h List.not_mem_nil) hnone
    have hmem (name : Bytes) (hname : name ∈ names) :
        ⟨name, nameHash name⟩ ∈ (hashEntries names).reverse ++ [] := by
      simpa using mem_hashEntries.2 ⟨hname, rfl⟩
    exact hne (hcoherent _ (hmem a ha) _ (hmem b hb) hhash)

/-! ### The warnings -/

/-- Both names of a collision, as they are logged. -/
def Collision.names (c : Collision) : Bytes :=
  utf8 "[" ++ c.first ++ 32 :: c.second ++ utf8 "]"

/-- The warning of a collision. -/
def Collision.warning (c : Collision) : String :=
  "level=WARN msg=\"hash collision\" hash=" ++ toString c.hash ++ " names=" ++ quote c.names

/-- The keys and values of the warning. -/
def Collision.fields (c : Collision) : List (String × Bytes) :=
  [("level", utf8 "WARN"), ("msg", utf8 "hash collision"), ("hash", utf8 (toString c.hash)),
    ("names", c.names)]

-- The texts are variables here, since comparing literal ones is slow.
theorem render_pairs (a b c d : String) (u v w x : Bytes) :
    LogLine.render [(a, u), (b, v), (c, w), (d, x)] =
      utf8 a ++ 61 :: LogLine.value u ++ 32 :: utf8 b ++ 61 :: LogLine.value v ++ 32 :: utf8 c ++
        [61] ++ LogLine.value w ++ (32 :: utf8 d ++ [61]) ++ LogLine.value x := by
  simp [LogLine.render, List.intercalate]

theorem utf8_append_append (a b c d : String) :
    utf8 (a ++ b ++ c ++ d) = utf8 a ++ utf8 b ++ utf8 c ++ utf8 d := by
  rw [utf8_append, utf8_append, utf8_append]

theorem render_fields (c : Collision) : LogLine.render c.fields = utf8 c.warning := by
  have hstart : utf8 "level" ++ 61 :: LogLine.value (utf8 "WARN") ++ 32 :: utf8 "msg" ++ 61 ::
      LogLine.value (utf8 "hash collision") ++ 32 :: utf8 "hash" ++ [61] =
        utf8 "level=WARN msg=\"hash collision\" hash=" := by decide +kernel
  have hmiddle : 32 :: utf8 "names" ++ [61] = utf8 " names=" := by decide +kernel
  have hnames : LogLine.value c.names = utf8 (quote c.names) :=
    LogLine.value_of_blank (by simp [Collision.names])
  calc LogLine.render c.fields
    _ = utf8 "level=WARN msg=\"hash collision\" hash=" ++ utf8 (toString c.hash) ++
        utf8 " names=" ++ utf8 (quote c.names) := by
      have hhash := LogLine.value_word c.hash
      refine (render_pairs ..).trans ?_
      exact congrArg₂ _ (congrArg₂ _ (congrArg₂ _ hstart hhash) hmiddle) hnames
    _ = utf8 c.warning := (utf8_append_append ..).symm

/-- The log is found again line by line, one for each collision, whatever bytes the names have. -/
theorem splitOn_warnings (cs : List Collision) :
    (cs.flatMap Collision.line).splitOn 10 = cs.map (fun c => utf8 c.warning) ++ [[]] := by
  have hlines : ∀ line ∈ cs.map (fun c => LogLine.render c.fields), 10 ∉ line := by
    rw [List.forall_mem_map]
    intro c hc
    apply LogLine.newline_notMem_render
    simp only [Collision.fields, List.forall_mem_cons]
    decide
  simp only [← render_fields]
  rw [← splitOn_lines hlines, List.flatMap_map]
  rfl

/-! ### The entries -/

theorem exists_of_mem_hexDigits {width n : Nat} {c : Char} (h : c ∈ hexDigits width n) :
    ∃ d < 16, c = hexDigit d := by
  induction width generalizing n with
  | zero => cases h
  | succ width ih =>
    rw [hexDigits, List.mem_append, List.mem_singleton] at h
    rcases h with h | rfl
    · exact ih h
    · exact ⟨n % 16, Nat.mod_lt n (by decide), rfl⟩

theorem toList_hexWord (w : Word) : (hexWord w).toList = '0' :: 'x' :: hexDigits 8 w.toNat := by
  simp [hexWord]

theorem plain_hexWord (w : Word) :
    Table.Plain (utf8 (hexWord w)) ∧ 32 ∉ utf8 (hexWord w) := by
  have hdigit : ∀ d < 16, Table.Plain (String.utf8EncodeChar (hexDigit d)) ∧
      32 ∉ String.utf8EncodeChar (hexDigit d) := by decide +kernel
  have hx : Table.Plain (String.utf8EncodeChar 'x') ∧ 32 ∉ String.utf8EncodeChar 'x' := by
    decide +kernel
  have hchar : ∀ c ∈ (hexWord w).toList,
      Table.Plain (String.utf8EncodeChar c) ∧ 32 ∉ String.utf8EncodeChar c := by
    rw [toList_hexWord, List.forall_mem_cons, List.forall_mem_cons]
    refine ⟨hdigit 0 (by decide), hx, fun c hc => ?_⟩
    obtain ⟨d, hd, rfl⟩ := exists_of_mem_hexDigits hc
    exact hdigit d hd
  rw [utf8_eq_flatMap]
  constructor
  · intro b hb
    obtain ⟨c, hc, hb⟩ := List.mem_flatMap.1 hb
    exact (hchar c hc).1 b hb
  · intro hblank
    obtain ⟨c, hc, hblank⟩ := List.mem_flatMap.1 hblank
    exact (hchar c hc).2 hblank

/-- Names with their hashes as the cells of a table. -/
def hashRows (names : List Bytes) : List (Bytes × Bytes) :=
  names.map fun name => (name, utf8 (hexWord (nameHash name)))

theorem stdout_runHash_text (names : List Bytes) :
    (runHash false names).stdout = Table.render (Table.pairsText (hashRows names)) := by
  simp [runHash, hashEntries, hashRows, Table.pairsText, List.flatMap_map]

/-- The entry of a name as JSON. -/
def jsonEntry (name : Bytes) : String :=
  "\x7b\n      \"name\": " ++ Json.quoted name ++ ",\n      \"hash\": " ++
    toString (nameHash name).toNat ++ "\n    \x7d"

/-- The entries of names as JSON. -/
def jsonEntries (names : List Bytes) : String :=
  "\x7b\n  \"status\": \"ok\",\n  \"data\": [\n    " ++
    ",\n    ".intercalate (names.map jsonEntry) ++ "\n  ]\n\x7d\n"

-- Here too the texts are variables, and the literal ones are compared by evaluation afterwards.
theorem bracketed_pair (opening closing a b : String) (level : Nat) :
    Json.bracketed opening closing level [a, b] = opening ++ Json.newline (level + 1) ++ a ++
      ("," ++ Json.newline (level + 1)) ++ b ++ (Json.newline level ++ closing) := by
  refine String.toList_inj.1 ?_
  simp [Json.bracketed]

theorem render_object (level : Nat) (j k : String) (u v : Json) :
    Json.render level (.object [(j, u), (k, v)]) =
      "\x7b" ++ Json.newline (level + 1) ++ (Json.quoted (utf8 j) ++ ": ") ++
        u.render (level + 1) ++
        ("," ++ Json.newline (level + 1) ++ (Json.quoted (utf8 k) ++ ": ")) ++
        v.render (level + 1) ++ (Json.newline level ++ "\x7d") := by
  rw [Json.render, Json.renderFields, Json.renderFields, Json.renderFields, bracketed_pair]
  simp only [String.append_assoc]

theorem renderItems_eq_map (level : Nat) (items : List Json) :
    Json.renderItems level items = items.map (Json.render level) := by
  induction items with
  | nil => rfl
  | cons item items ih => rw [Json.renderItems, ih, List.map_cons]

theorem render_array (level : Nat) {items : List Json} (hne : items ≠ []) :
    Json.render level (.array items) = "[" ++ Json.newline (level + 1) ++
      ("," ++ Json.newline (level + 1)).intercalate (items.map (Json.render (level + 1))) ++
        (Json.newline level ++ "]") := by
  obtain ⟨item, rest, rfl⟩ := List.exists_cons_of_ne_nil hne
  rw [Json.render, renderItems_eq_map, List.map_cons, Json.bracketed, String.append_assoc]
  simp

theorem render_entry (name : Bytes) : Json.render 2 (.object
    [("name", .string name), ("hash", .number (nameHash name).toNat)]) = jsonEntry name := by
  have hname : "\x7b" ++ Json.newline 3 ++ (Json.quoted (utf8 "name") ++ ": ") =
      "\x7b\n      \"name\": " := by decide +kernel
  have hhash : "," ++ Json.newline 3 ++ (Json.quoted (utf8 "hash") ++ ": ") =
      ",\n      \"hash\": " := by decide +kernel
  have hend : Json.newline 2 ++ "\x7d" = "\n    \x7d" := by decide +kernel
  have hstring : Json.render 3 (.string name) = Json.quoted name := by rw [Json.render]
  have hnumber : Json.render 3 (.number (nameHash name).toNat) =
      toString (nameHash name).toNat := by rw [Json.render]
  refine (render_object ..).trans ?_
  exact congrArg₂ _ (congrArg₂ _ (congrArg₂ _ (congrArg₂ _ hname hstring) hhash) hnumber) hend

theorem stdout_runHash_json {names : List Bytes} (hne : names ≠ []) :
    (runHash true names).stdout = utf8 (jsonEntries names) := by
  set items : List Json := (hashEntries names).map fun e =>
    .object [("name", .string e.name), ("hash", .number e.hash.toNat)] with hitems
  have hentries : items.map (Json.render 2) = names.map jsonEntry := by
    rw [hitems, hashEntries, List.map_map, List.map_map]
    exact List.map_congr_left fun name _ => render_entry name
  have hsome : items ≠ [] := by simpa [hitems, hashEntries] using hne
  have hok : Json.render 1 (.string (utf8 "ok")) = Json.quoted (utf8 "ok") := by rw [Json.render]
  have hstart : "\x7b" ++ Json.newline 1 ++ (Json.quoted (utf8 "status") ++ ": ") ++
      Json.quoted (utf8 "ok") ++ ("," ++ Json.newline 1 ++ (Json.quoted (utf8 "data") ++ ": ")) ++
      ("[" ++ Json.newline 2) = "\x7b\n  \"status\": \"ok\",\n  \"data\": [\n    " := by
    decide +kernel
  have hitem : "," ++ Json.newline 2 = ",\n    " := by decide +kernel
  have hend : Json.newline 1 ++ "]" ++ (Json.newline 0 ++ "\x7d") ++ "\n" = "\n  ]\n\x7d\n" := by
    decide +kernel
  have hgroup (a b c d e f g h : String) :
      a ++ b ++ c ++ (d ++ e ++ f) ++ g ++ h = a ++ b ++ c ++ d ++ e ++ (f ++ g ++ h) := by
    simp only [String.append_assoc]
  change utf8 (Json.render 0 (.object [("status", _), ("data", .array items)]) ++ "\n") = _
  refine congrArg utf8 ?_
  refine (congrArg (· ++ "\n") ((render_object ..).trans (congrArg₂ _ (congrArg₂ _ (congrArg₂ _
    (congrArg₂ _ rfl hok) rfl) (render_array 1 hsome)) rfl))).trans ?_
  exact (hgroup ..).trans (congrArg₂ _ (congrArg₂ _ hstart (congrArg₂ _ hitem hentries)) hend)

theorem render_hashRows {names : List Bytes} (hne : names ≠ [])
    (h : ∀ name ∈ names, Table.Plain name) :
    ∃ w, (∀ name ∈ names, width name + 2 ≤ w) ∧
      Table.render (Table.pairsText (hashRows names)) = names.flatMap fun name =>
        name ++ List.replicate (w - width name) 32 ++ utf8 (hexWord (nameHash name)) ++ [10] := by
  have hcells : ∀ r ∈ hashRows names, Table.Plain r.1 ∧ Table.Plain r.2 := by
    rw [hashRows, List.forall_mem_map]
    exact fun name hname => ⟨h name hname, (plain_hexWord _).1⟩
  obtain ⟨w, hw, hrender⟩ := Table.render_pairsText (by simpa [hashRows] using hne) hcells
  rw [hashRows, List.forall_mem_map] at hw
  refine ⟨w, hw, ?_⟩
  rw [hrender, hashRows, List.flatMap_map]

theorem readHex?_hexWord (w : Word) : readHex? ((hexWord w).toList.drop 2) = some w.toNat := by
  rw [toList_hexWord]
  exact readHex?_hexDigits w.toNat_lt

theorem condensed_stdout_runHash (names : List Bytes) :
    Table.condensed (runHash false names).stdout = names.flatMap fun name =>
      Table.condensed name ++ utf8 (hexWord (nameHash name)) ++ [10] := by
  rw [stdout_runHash_text, Table.condensed_render, Table.pairsText, Table.condensed_flatMap,
    hashRows, List.flatMap_map]
  refine List.flatMap_congr fun name _ => ?_
  obtain ⟨hplain, hblank⟩ := plain_hexWord (nameHash name)
  rw [← List.singleton_append, Table.condensed_append, Table.condensed_append,
    Table.condensed_append, Table.condensed_eq_self hplain hblank, List.append_assoc]
  rfl

/-! ### The command -/

/-- **A warning is given exactly if there is a collision.** The command that hashes names does not
fail. Each line of its log is a warning of two different names that have the hash it says, and there
is one as soon as any two different names have the same hash. Its output has the names in order with
their hashes. As JSON, the string for a name is read as the name with U+FFFD for its stray bytes, so
as the name itself exactly if it is an encoded text. As a table, there is a line for each name, in
which only blanks are added, unless there are names that tables split into several cells; whatever
the names are, only white space is changed. -/
theorem runHash_reports (json : Bool) {names : List Bytes} (hne : names ≠ []) :
    ∃ (o : Outcome) (warnings : List Collision), runHash json names = o ∧ o.failure = none ∧
      o.stderr.splitOn 10 = warnings.map (fun c => utf8 c.warning) ++ [[]] ∧
      (warnings ≠ [] ↔ ∃ a ∈ names, ∃ b ∈ names, a ≠ b ∧ nameHash a = nameHash b) ∧
      (∀ c ∈ warnings, c.first ∈ names ∧ c.second ∈ names ∧ c.first ≠ c.second ∧
        nameHash c.first = c.hash ∧ nameHash c.second = c.hash ∧
        readQuoted? (quote c.names).toList = some (c.names, [])) ∧
      (json = true → o.stdout = utf8 (jsonEntries names) ∧
        ∀ name ∈ names,
          (∀ rest, readQuoted? ((Json.quoted name).toList ++ rest) =
            some (utf8 (shown name), rest)) ∧
          (utf8 (shown name) = name ↔ ∃ text, name = utf8 text)) ∧
      (json = false →
        Table.condensed o.stdout = names.flatMap (fun name =>
          Table.condensed name ++ utf8 (hexWord (nameHash name)) ++ [10]) ∧
        ((∀ name ∈ names, Table.Plain name) →
          ∃ w, (∀ name ∈ names, width name + 2 ≤ w) ∧ o.stdout = names.flatMap fun name =>
            name ++ List.replicate (w - width name) 32 ++ utf8 (hexWord (nameHash name)) ++
              [10]) ∧
        ∀ name ∈ names, readHex? ((hexWord (nameHash name)).toList.drop 2) =
          some (nameHash name).toNat) := by
  refine ⟨_, collisions names, rfl, rfl, splitOn_warnings _, collisions_ne_nil_iff,
    fun c hc => ?_, ?_, ?_⟩
  · obtain ⟨hfirst, hsecond, hdiffer, hhash, hother⟩ := of_mem_collisions hc
    have hread := readQuoted?_quote c.names []
    rw [List.append_nil] at hread
    exact ⟨hfirst, hsecond, hdiffer, hhash, hother, hread⟩
  · rintro rfl
    exact ⟨stdout_runHash_json hne, fun name _ => ⟨Json.readQuoted?_quoted name, utf8_shown_iff⟩⟩
  · rintro rfl
    refine ⟨condensed_stdout_runHash names, fun hplain => ?_, fun name _ => readHex?_hexWord _⟩
    rw [stdout_runHash_text]
    exact render_hashRows hne hplain

/-- Names of which the first and the last have the same hash. -/
def collidingNames : List Bytes :=
  [utf8 "x", utf8 "-y", utf8 "x00010001"]

theorem runHash_reports_colliding :
    (∀ name ∈ collidingNames, Table.Plain name) ∧
      ∃ (c : Collision) (w : Nat),
        utf8 c.warning ∈ (runHash false collidingNames).stderr.splitOn 10 ∧
        c.first ∈ collidingNames ∧ c.second ∈ collidingNames ∧ c.first ≠ c.second ∧
        nameHash c.first = c.hash ∧ nameHash c.second = c.hash ∧ 11 ≤ w ∧
        (runHash false collidingNames).stdout = collidingNames.flatMap fun name =>
          name ++ List.replicate (w - width name) 32 ++ utf8 (hexWord (nameHash name)) ++ [10] := by
  have hplain : ∀ name ∈ collidingNames, Table.Plain name := by decide +kernel
  obtain ⟨_, warnings, rfl, -, hlog, hwarns, hnames, -, htext⟩ :=
    runHash_reports false (by simp [collidingNames] : collidingNames ≠ [])
  have hsome : warnings ≠ [] := by
    rw [hwarns]
    exact ⟨utf8 "x", by decide +kernel, utf8 "x00010001", by decide +kernel, by decide +kernel,
      by decide +kernel⟩
  obtain ⟨c, hc⟩ := List.exists_mem_of_ne_nil _ hsome
  obtain ⟨hfirst, hsecond, hne, hhash, hother, -⟩ := hnames c hc
  obtain ⟨-, haligned, -⟩ := htext rfl
  obtain ⟨w, hw, hstdout⟩ := haligned hplain
  refine ⟨hplain, c, w, ?_, hfirst, hsecond, hne, hhash, hother, ?_, hstdout⟩
  · rw [hlog]
    exact List.mem_append_left _ (List.mem_map_of_mem hc)
  · have hlast : width (utf8 "x00010001") = 9 := by decide +kernel
    have hle := hw (utf8 "x00010001") (by decide +kernel)
    rwa [hlast] at hle

/-- Two names whose entries as JSON are the same, since their first and last bytes are no
characters. -/
theorem runHash_stray :
    ([0xff, 97, 97, 97, 0xfe] : Bytes) ≠ [0xfe, 97, 97, 97, 0xff] ∧
      jsonEntry [0xff, 97, 97, 97, 0xfe] = jsonEntry [0xfe, 97, 97, 97, 0xff] ∧
      (runHash true [[0xff, 97, 97, 97, 0xfe]]).stdout =
        (runHash true [[0xfe, 97, 97, 97, 0xff]]).stdout := by
  decide +kernel

end ShaderGraft.CommandLine
