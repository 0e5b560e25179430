import Mathlib.Data.List.Basic
import Mathlib.Data.List.Nodup
import Mathlib.Data.List.Range
import ShaderGraft.Text.Table

/-!
# Tables with two columns

A table whose lines have two cells each keeps its lines in order, and what it adds are blanks
between the cells, so that the second ones stand below each other (`Text.Table.render_pairsText`).

Whatever the cells are, aligning only changes white space: without it the text and its table are the
same (`Text.Table.condensed_render`).
-/

namespace ShaderGraft.Text.Table

/-! ### Cells and lines -/

/-- Whether a text stays in one cell: it has no byte that ends a cell, a line or a table, or that
starts or ends escaped text. -/
def Plain (s : Bytes) : Prop :=
  ∀ b ∈ s, b ∉ ([9, 10, 11, 12, 0xff] : Bytes)

instance (s : Bytes) : Decidable (Plain s) :=
  decidable_of_iff (s.all fun b => ! ([9, 10, 11, 12, 0xff] : Bytes).contains b)
    (by simp [Plain])

namespace Split

variable {cell : Bytes} {line : List Cell} {lines : List (List Cell)}
  {tables : List (List (List Cell))}

theorem push_plain {b : UInt8} (hb : b ∉ ([9, 10, 11, 12, 0xff] : Bytes)) :
    push ⟨false, cell, line, lines, tables⟩ b = ⟨false, b :: cell, line, lines, tables⟩ := by
  simp only [List.mem_cons, List.not_mem_nil, or_false, not_or] at hb
  simp [push, hb]

theorem foldl_push_plain {text : Bytes} (htext : Plain text) :
    text.foldl push ⟨false, cell, line, lines, tables⟩ =
      ⟨false, text.reverse ++ cell, line, lines, tables⟩ := by
  induction text generalizing cell with
  | nil => rfl
  | cons b text ih =>
    obtain ⟨hb, htext⟩ := List.forall_mem_cons.1 htext
    rw [List.foldl_cons, push_plain hb, ih htext, List.reverse_cons, List.append_assoc,
      List.singleton_append]

/-- A line of two cells. -/
theorem foldl_push_line {first second : Bytes} (hfirst : Plain first) (hsecond : Plain second) :
    (first ++ 9 :: (second ++ [10])).foldl push ⟨false, [], [], lines, tables⟩ =
      ⟨false, [], [], [Cell.ofBytes first, Cell.ofBytes second] :: lines, tables⟩ := by
  rw [List.foldl_append, foldl_push_plain hfirst, List.foldl_cons, List.foldl_append]
  change [10].foldl push (second.foldl push ⟨false, [], [_], lines, tables⟩) = _
  rw [foldl_push_plain hsecond]
  simp [push, endLine, endCell]

end Split

/-- The text of lines of two cells. -/
def pairsText (rows : List (Bytes × Bytes)) : Bytes :=
  rows.flatMap fun r => r.1 ++ 9 :: (r.2 ++ [10])

/-- The text after the last newline is a line of its own, which is empty. -/
theorem tables_pairsText {rows : List (Bytes × Bytes)}
    (h : ∀ r ∈ rows, Plain r.1 ∧ Plain r.2) : tables (pairsText rows) =
      [rows.map (fun r => [Cell.ofBytes r.1, Cell.ofBytes r.2]) ++ [[Cell.ofBytes []]]] := by
  have hfold (lines : List (List Cell)) :
      (pairsText rows).foldl Split.push ⟨false, [], [], lines, []⟩ =
        ⟨false, [], [],
          (rows.map fun r => [Cell.ofBytes r.1, Cell.ofBytes r.2]).reverse ++ lines, []⟩ := by
    induction rows generalizing lines with
    | nil => rfl
    | cons r rows ih =>
      obtain ⟨⟨hfirst, hsecond⟩, hrows⟩ := List.forall_mem_cons.1 h
      rw [pairsText, List.flatMap_cons, ← pairsText, List.foldl_append,
        Split.foldl_push_line hfirst hsecond, ih hrows]
      simp
  rw [Table.tables]
  change ((pairsText rows).foldl Split.push ⟨false, [], [], [], []⟩).endTable.tables.reverse = _
  rw [hfold]
  simp [Split.endTable, Split.endLine, Split.endCell]

/-! ### Columns -/

theorem add_padded {rows : List Row} (h : ∀ row ∈ rows, row.isPadded = true) (p : Progress)
    (run rest : List Row) : p.add run (rows ++ rest) = p.add (rows.reverse ++ run) rest := by
  induction rows generalizing run with
  | nil => rfl
  | cons row rows ih =>
    obtain ⟨hrow, hrows⟩ := List.forall_mem_cons.1 h
    rw [List.cons_append, Progress.add, if_pos hrow, ih hrows, List.reverse_cons, List.append_assoc,
      List.singleton_append]

theorem add_unpadded {rows : List Row} (h : ∀ row ∈ rows, row.isPadded = false) (p : Progress) :
    p.add [] rows = { p with finished := rows.reverse ++ p.finished } := by
  induction rows generalizing p with
  | nil => rfl
  | cons row rows ih =>
    obtain ⟨hrow, hrows⟩ := List.forall_mem_cons.1 h
    rw [Progress.add, if_neg (by rw [hrow]; decide), ih hrows]
    simp

/-- Rows that are one column, and one more row that has no column. -/
theorem add_column {rows : List Row} (h : ∀ row ∈ rows, row.isPadded = true) (hne : rows ≠ [])
    {last : Row} (hlast : last.isPadded = false) :
    Progress.add {} [] (rows ++ [last]) = { columns := [rows], finished := [last] } := by
  rw [add_padded h, List.append_nil, Progress.add, if_neg (by rw [hlast]; decide)]
  simp [Progress.add, hne]

/-- A single column, after which there are no others. -/
theorem padColumns_column {rows : List Row} {last : Row} {fuel : Nat}
    (h : ∀ row ∈ padColumn rows, row.isPadded = false) :
    padColumns (fuel + 2) { columns := [rows], finished := [last] } =
      (padColumn rows).reverse ++ [last] := by
  rw [padColumns, if_neg (by simp), List.foldl_cons, List.foldl_nil, add_unpadded h, padColumns,
    if_pos (by simp)]

theorem le_foldl_max {α : Type} (f : α → Nat) (as : List α) (n : Nat) :
    n ≤ as.foldl (fun k a => max k (f a)) n ∧
      ∀ a ∈ as, f a ≤ as.foldl (fun k a => max k (f a)) n := by
  induction as generalizing n with
  | nil => simp
  | cons a as ih =>
    obtain ⟨hstart, hrest⟩ := ih (max n (f a))
    refine ⟨Nat.le_trans (Nat.le_max_left ..) hstart, List.forall_mem_cons.2 ⟨?_, hrest⟩⟩
    exact Nat.le_trans (Nat.le_max_right ..) hstart

/-- Rows are put in order again by their indices, whatever else is read off them. -/
theorem map_mergeSort {α : Type} (f : Row → α) {rows : List Row} {sorted : List (Nat × α)}
    (hperm : (rows.map fun row => (row.index, f row)).Perm sorted)
    (hindex : sorted.map Prod.fst = List.range sorted.length) :
    (rows.mergeSort fun a b => a.index ≤ b.index).map f = sorted.map Prod.snd := by
  have hnodup : (sorted.map Prod.fst).Nodup := hindex ▸ List.nodup_range
  have hle : (sorted.map Prod.fst).Pairwise (· ≤ ·) := hindex ▸ List.pairwise_le_range
  have hmerged : (rows.mergeSort fun a b => a.index ≤ b.index).Pairwise
      fun a b => decide (a.index ≤ b.index) = true := by
    refine List.pairwise_mergeSort ?_ ?_ rows
    · simpa using fun a b c => Nat.le_trans
    · simpa using fun a b => Nat.le_total ..
  have heq : (rows.mergeSort fun a b => a.index ≤ b.index).map (fun row => (row.index, f row)) =
      sorted := by
    refine List.Perm.eq_of_pairwise (fun a b ha hb (hab : a.1 ≤ b.1) hba => ?_) ?_
      (List.pairwise_map.1 hle) (((List.mergeSort_perm rows _).map _).trans hperm)
    · have hmem : a ∈ sorted := hperm.subset (((List.mergeSort_perm rows _).map _).subset ha)
      exact List.inj_on_of_nodup_map hnodup hmem hb (Nat.le_antisymm hab hba)
    · simpa [List.pairwise_map] using hmerged
  rw [← heq, List.map_map]
  rfl

/-- The rows of lines with two cells, of which nothing is done. -/
def pending (pairs : List (Cell × Cell)) : List Row :=
  pairs.zipIdx.map fun p => { index := p.2, rest := [p.1.1, p.1.2] }

theorem map_index_pad (w : Nat) (pairs : List (Cell × Cell)) :
    ((pending pairs).map (Row.pad w)).map Row.index = List.range pairs.length := by
  rw [pending, List.map_map, List.map_map, List.range_eq_range', ← List.zipIdx_map_snd 0 pairs]
  rfl

theorem map_text_pad (w : Nat) (pairs : List (Cell × Cell)) :
    ((pending pairs).map (Row.pad w)).map Row.text =
      pairs.map fun p => p.1.text ++ List.replicate (w - p.1.width) 32 ++ p.2.text := by
  conv => rhs; rw [← List.zipIdx_map_fst 0 pairs]
  rw [pending, List.map_map, List.map_map, List.map_map]
  refine List.map_congr_left fun p hp => ?_
  simp [Row.pad, Row.text]

theorem isPadded_pending {pairs : List (Cell × Cell)} : ∀ row ∈ pending pairs, row.isPadded := by
  rw [pending, List.forall_mem_map]
  exact fun p hp => rfl

/-- A column is padded to one width, in which each of its cells has room for two blanks more. -/
theorem padColumn_pending (pairs : List (Cell × Cell)) :
    ∃ w, (∀ p ∈ pairs, p.1.width + 2 ≤ w) ∧
      padColumn (pending pairs) = (pending pairs).map (Row.pad w) := by
  obtain ⟨-, hwidth⟩ :=
    le_foldl_max (fun row : Row => (row.rest.head?.map Cell.width).getD 0) (pending pairs) 0
  refine ⟨_, fun p hp => Nat.add_le_add_right ?_ 2, rfl⟩
  rw [← List.zipIdx_map_fst 0 pairs] at hp
  obtain ⟨q, hq, rfl⟩ := List.mem_map.1 hp
  exact hwidth _ (List.mem_map_of_mem hq)

/-- The rows of a table with two columns and a single cell in its last line, in order. -/
theorem padColumns_pairs {pairs : List (Cell × Cell)} (hne : pairs ≠ []) (last : Row)
    (hlast : last.isPadded = false) (fuel : Nat) :
    ∃ w, (∀ p ∈ pairs, p.1.width + 2 ≤ w) ∧
      (padColumns (fuel + 2) (Progress.add {} [] (pending pairs ++ [last]))).Perm
        ((pending pairs).map (Row.pad w) ++ [last]) := by
  obtain ⟨w, hw, hpad⟩ := padColumn_pending pairs
  have hdone : ∀ row ∈ padColumn (pending pairs), row.isPadded = false := by
    rw [hpad, pending, List.map_map, List.forall_mem_map]
    exact fun p hp => rfl
  refine ⟨w, hw, ?_⟩
  rw [add_column isPadded_pending (by simpa [pending] using hne) hlast, padColumns_column hdone,
    hpad]
  exact (List.reverse_perm _).append_right _

/-- The lines of a table with two columns and a single cell in its last line. -/
theorem renderLines_pairs {pairs : List (Cell × Cell)} (hne : pairs ≠ []) (last : Cell) :
    ∃ w, (∀ p ∈ pairs, p.1.width + 2 ≤ w) ∧
      renderLines (pairs.map (fun p => [p.1, p.2]) ++ [[last]]) =
        pairs.map (fun p => p.1.text ++ List.replicate (w - p.1.width) 32 ++ p.2.text) ++
          [last.text] := by
  set lines := pairs.map (fun p => [p.1, p.2]) ++ [[last]] with hlines
  have hrows : (lines.zipIdx.map fun p => ({ index := p.2, rest := p.1 } : Row)) =
      pending pairs ++ [{ index := pairs.length, rest := [last] }] := by
    simp [hlines, List.zipIdx_append, List.zipIdx_map, pending]
  obtain ⟨fuel, hfuel⟩ : ∃ fuel, lines.foldl (fun n cells => max n cells.length) 0 = fuel + 2 := by
    obtain ⟨p, hp⟩ := List.exists_mem_of_ne_nil pairs hne
    have hline : [p.1, p.2] ∈ lines :=
      List.mem_append_left _ (List.mem_map_of_mem (f := fun p : Cell × Cell => [p.1, p.2]) hp)
    exact Nat.exists_eq_add_of_le' ((le_foldl_max List.length lines 0).2 _ hline)
  obtain ⟨w, hw, hperm⟩ := padColumns_pairs hne ⟨pairs.length, [], [last]⟩ rfl fuel
  refine ⟨w, hw, ?_⟩
  change ((padColumns (lines.foldl (fun n cells => max n cells.length) 0) (Progress.add {} []
    (lines.zipIdx.map fun p => ({ index := p.2, rest := p.1 } : Row)))).mergeSort _).map _ = _
  rw [hrows, hfuel, map_mergeSort Row.text (hperm.map _)]
  · rw [List.map_map]
    change List.map Row.text _ = _
    rw [List.map_append, map_text_pad]
    simp [Row.text]
  · rw [List.map_map]
    change List.map Row.index _ = _
    rw [List.map_append, map_index_pad]
    simp [pending, List.range_succ]

/-! ### The whole text -/

theorem width_ofBytes {text : Bytes} (htext : Plain text) :
    (Cell.ofBytes text).width = Text.width text := by
  have hcount : text.count 0xff = 0 :=
    List.count_eq_zero.2 fun hmem => htext 0xff hmem (by decide)
  simp only [Cell.ofBytes, hcount, Nat.zero_div, Nat.mul_zero, Nat.sub_zero]

/-- The last of the lines is empty. -/
theorem intercalate_lines (lines : List Bytes) :
    List.intercalate [10] (lines ++ [[]]) = lines.flatMap (· ++ [10]) := by
  induction lines with
  | nil => rfl
  | cons line lines ih =>
    rw [List.cons_append, List.intercalate_cons_of_ne_nil (by simp), ih, List.flatMap_cons]

/-! ### White space -/

/-- A text without its blanks and tabs, and with a newline for a form feed. -/
def condensed (s : Bytes) : Bytes :=
  (s.filter fun b => b != 9 && b != 11 && b != 32).map fun b => if b == 12 then 10 else b

theorem condensed_append (s t : Bytes) : condensed (s ++ t) = condensed s ++ condensed t := by
  rw [condensed, List.filter_append, List.map_append]
  rfl

theorem condensed_replicate (n : Nat) : condensed (List.replicate n 32) = [] := by
  induction n with
  | zero => rfl
  | succ n ih => exact ih

theorem condensed_flatMap {α : Type} (f : α → Bytes) (xs : List α) :
    condensed (xs.flatMap f) = xs.flatMap fun x => condensed (f x) := by
  induction xs with
  | nil => rfl
  | cons x xs ih => rw [List.flatMap_cons, condensed_append, ih, List.flatMap_cons]

theorem condensed_eq_self {s : Bytes} (h : Plain s) (hblank : 32 ∉ s) : condensed s = s := by
  induction s with
  | nil => rfl
  | cons b s ih =>
    obtain ⟨hb, hs⟩ := List.forall_mem_cons.1 h
    obtain ⟨hne, hrest⟩ := not_or.1 (mt List.mem_cons.2 hblank)
    simp only [List.mem_cons, List.not_mem_nil, or_false, not_or] at hb
    have hfirst : condensed [b] = [b] := by simp [condensed, hb, Ne.symm hne]
    rw [← List.singleton_append, condensed_append, hfirst, ih hs hrest]

/-- A line as it was, with its end. -/
def lineText (line : List Cell) : Bytes :=
  line.flatMap Cell.text ++ [10]

/-- The text that was split so far, as far as its cells and lines show it. -/
def Split.content (s : Split) : Bytes :=
  s.tables.reverse.flatMap (·.flatMap lineText) ++ s.lines.reverse.flatMap lineText ++
    s.line.reverse.flatMap Cell.text ++ s.cell.reverse

theorem Split.content_endCell (s : Split) : s.endCell.content = s.content := by
  simp [content, endCell, Cell.ofBytes]

theorem Split.content_endLine (s : Split) : s.endLine.content = s.content ++ [10] := by
  rw [← content_endCell s]
  simp [content, endLine, lineText, endCell]

theorem Split.content_endTable (s : Split) : s.endTable.content = s.content ++ [10] := by
  rw [← content_endLine s]
  simp [content, endTable, endLine]

theorem Split.condensed_content_push (s : Split) (b : UInt8) :
    condensed (s.push b).content = condensed (s.content ++ [b]) := by
  have hadded (escaped : Bool) :
      content { s with cell := b :: s.cell, escaped } = s.content ++ [b] := by
    simp [content]
  unfold push
  dsimp only
  split
  · rw [hadded]
  split
  · exact congrArg condensed (hadded s.escaped)
  split
  · rw [content_endCell, condensed_append]
    exact (List.append_nil _).symm
  · rw [content_endCell, condensed_append]
    exact (List.append_nil _).symm
  · rw [content_endLine]
  · rw [content_endTable, condensed_append, condensed_append]
    rfl
  · exact congrArg condensed (hadded s.escaped)

theorem Split.condensed_content_foldl (s : Split) (text : Bytes) :
    condensed (text.foldl push s).content = condensed (s.content ++ text) := by
  induction text generalizing s with
  | nil => rw [List.foldl_nil, List.append_nil]
  | cons b text ih =>
    rw [List.foldl_cons, ih, condensed_append, condensed_content_push, ← condensed_append,
      List.append_assoc, List.singleton_append]

/-- The lines of all tables are those of the text. -/
theorem condensed_tables (text : Bytes) :
    condensed ((tables text).flatMap (·.flatMap lineText)) = condensed (text ++ [10]) := by
  have hcontent : (tables text).flatMap (·.flatMap lineText) =
      (text.foldl Split.push {}).endTable.content := by
    simp [tables, Split.content, Split.endTable, Split.endLine, Split.endCell]
  rw [hcontent, Split.content_endTable, condensed_append, Split.condensed_content_foldl,
    ← condensed_append]
  rfl

theorem Row.index_pad (w : Nat) (row : Row) : (row.pad w).index = row.index := by
  unfold pad
  split <;> rfl

theorem condensed_text_pad (w : Nat) (row : Row) :
    condensed (row.pad w).text = condensed row.text := by
  unfold Row.pad
  split
  · rfl
  · rename_i cell rest hrest
    simp [Row.text, hrest, condensed_append, condensed_replicate]

/-- All rows that are on the way. -/
def Progress.rows (p : Progress) : List Row :=
  p.columns.flatten ++ p.finished

/-- The rows right before become a column of their own. -/
theorem Progress.rows_close (p : Progress) (run : List Row) :
    (if run.isEmpty then p else { p with columns := run.reverse :: p.columns }).rows.Perm
      (run ++ p.rows) := by
  split
  · rename_i hrun
    rw [List.isEmpty_iff.1 hrun]
    exact .refl _
  · simpa [rows] using (List.reverse_perm run).append_right _

theorem Progress.rows_add (p : Progress) (run rows : List Row) :
    (p.add run rows).rows.Perm (run ++ rows ++ p.rows) := by
  induction rows generalizing p run with
  | nil =>
    rw [List.append_nil]
    exact p.rows_close run
  | cons row rows ih =>
    rw [Progress.add]
    split
    · refine (ih p (row :: run)).trans (List.Perm.append_right _ ?_)
      exact List.perm_middle.symm
    · generalize hq : (if run.isEmpty then p else
        { p with columns := run.reverse :: p.columns } : Progress) = q
      have hclose : q.rows.Perm (run ++ p.rows) := hq ▸ p.rows_close run
      calc
        List.Perm (Progress.add { q with finished := row :: q.finished } [] rows).rows
          (rows ++ (q.columns.flatten ++ row :: q.finished)) := ih _ []
        List.Perm _ (rows ++ row :: q.rows) := List.perm_middle.append_left _
        List.Perm _ (rows ++ row :: (run ++ p.rows)) := (hclose.cons row).append_left _
        List.Perm _ (row :: (rows ++ (run ++ p.rows))) := List.perm_middle
        List.Perm _ (row :: (run ++ (rows ++ p.rows))) := (List.perm_append_comm_assoc ..).cons row
        List.Perm _ (run ++ (row :: rows ++ p.rows)) := List.perm_middle.symm
        _ = run ++ row :: rows ++ p.rows := (List.append_assoc ..).symm

/-- What is kept of a row when its cells are padded. -/
def Row.kept (row : Row) : Nat × Bytes :=
  (row.index, condensed row.text)

theorem map_kept_padColumn (rows : List Row) :
    (padColumn rows).map Row.kept = rows.map Row.kept := by
  rw [padColumn, List.map_map]
  refine List.map_congr_left fun row _ => ?_
  rw [Function.comp_apply, Row.kept, condensed_text_pad, Row.index_pad]
  rfl

theorem Progress.kept_foldl (columns : List (List Row)) (p : Progress) :
    ((columns.foldl (fun q rows => q.add [] (padColumn rows)) p).rows.map Row.kept).Perm
      ((columns.flatten ++ p.rows).map Row.kept) := by
  induction columns generalizing p with
  | nil => exact .refl _
  | cons rows columns ih =>
    refine (ih _).trans ?_
    have hadd := (p.rows_add [] (padColumn rows)).map Row.kept
    rw [List.nil_append, List.map_append, map_kept_padColumn] at hadd
    rw [List.map_append, List.flatten_cons, List.append_assoc, List.map_append, List.map_append]
    refine (hadd.append_left _).trans ?_
    exact List.perm_append_comm_assoc ..

theorem kept_padColumns (fuel : Nat) (p : Progress) :
    ((padColumns fuel p).map Row.kept).Perm (p.rows.map Row.kept) := by
  induction fuel generalizing p with
  | zero => exact .refl _
  | succ fuel ih =>
    rw [padColumns]
    split
    · rename_i hcolumns
      rw [Progress.rows, List.isEmpty_iff.1 hcolumns]
      exact .refl _
    · exact (ih _).trans (Progress.kept_foldl p.columns { finished := p.finished })

/-- Padding changes the lines of a table in their blanks only. -/
theorem condensed_renderLines (lines : List (List Cell)) :
    (renderLines lines).map condensed =
      lines.map fun line => condensed (line.flatMap Cell.text) := by
  set rows := lines.zipIdx.map fun p => ({ index := p.2, rest := p.1 } : Row) with hrows
  set fuel := lines.foldl (fun n cells => max n cells.length) 0
  have hperm : ((padColumns fuel (Progress.add {} [] rows)).map Row.kept).Perm
      (lines.zipIdx.map fun p => (p.2, condensed (p.1.flatMap Cell.text))) := by
    refine (kept_padColumns fuel _).trans ((Progress.rows_add {} [] rows).map Row.kept |>.trans ?_)
    simp [hrows, Progress.rows, Row.kept, Row.text, Function.comp_def]
  have hindex : (lines.zipIdx.map fun p => (p.2, condensed (p.1.flatMap Cell.text))).map Prod.fst =
      List.range (lines.zipIdx.map fun p => (p.2, condensed (p.1.flatMap Cell.text))).length := by
    rw [List.map_map, List.length_map, List.length_zipIdx, List.range_eq_range',
      ← List.zipIdx_map_snd 0 lines]
    rfl
  change List.map condensed (((padColumns fuel (Progress.add {} [] rows)).mergeSort _).map _) = _
  rw [List.map_map]
  refine (map_mergeSort (fun row => condensed row.text) hperm hindex).trans ?_
  conv => rhs; rw [← List.zipIdx_map_fst 0 lines]
  rw [List.map_map, List.map_map]
  rfl

theorem intercalate_append_newline {lines : List Bytes} (h : lines ≠ []) :
    List.intercalate [10] lines ++ [10] = lines.flatMap (· ++ [10]) := by
  induction lines with
  | nil => exact absurd rfl h
  | cons line lines ih =>
    by_cases hlines : lines = []
    · simp [hlines]
    · rw [List.intercalate_cons_of_ne_nil hlines, List.append_assoc, List.append_assoc, ih hlines,
        List.flatMap_cons, List.append_assoc]

/-- **Aligning a text changes its white space only.** -/
theorem condensed_render (text : Bytes) : condensed (render text) = condensed text := by
  have hnewline : condensed [10] = [10] := rfl
  set lines := (tables text).flatMap renderLines with hlines
  have hcontent : condensed (lines.flatMap (· ++ [10])) = condensed (text ++ [10]) := by
    rw [← condensed_tables, hlines, List.flatMap_assoc, condensed_flatMap, condensed_flatMap]
    refine List.flatMap_congr fun table htable => ?_
    rw [condensed_flatMap, condensed_flatMap]
    have hpadded := congrArg (List.flatMap (· ++ [10])) (condensed_renderLines table)
    rw [List.flatMap_map, List.flatMap_map] at hpadded
    simpa only [condensed_append, lineText, hnewline] using hpadded
  have hne : lines ≠ [] := by
    intro hnil
    rw [hnil, condensed_append, hnewline] at hcontent
    exact List.append_ne_nil_of_right_ne_nil _ (by simp) hcontent.symm
  rw [← List.append_left_inj (condensed [10]), ← condensed_append, ← condensed_append, ← hcontent,
    render, intercalate_append_newline hne]

/-! ### Two columns -/

/-- Lines of two cells are kept in order, and what is added are blanks between the cells: two at
least, and as many as it takes for the second cells to stand below each other. -/
theorem render_pairsText {rows : List (Bytes × Bytes)} (hne : rows ≠ [])
    (h : ∀ r ∈ rows, Plain r.1 ∧ Plain r.2) :
    ∃ w, (∀ r ∈ rows, Text.width r.1 + 2 ≤ w) ∧
      render (pairsText rows) =
        rows.flatMap fun r => r.1 ++ List.replicate (w - Text.width r.1) 32 ++ r.2 ++ [10] := by
  have hcells : rows.map (fun r => (Cell.ofBytes r.1, Cell.ofBytes r.2)) ≠ [] := by simpa using hne
  obtain ⟨w, hw, hlines⟩ := renderLines_pairs hcells (Cell.ofBytes [])
  rw [List.forall_mem_map] at hw
  refine ⟨w, fun r hr => ?_, ?_⟩
  · rw [← width_ofBytes (h r hr).1]
    exact hw r hr
  · rw [List.map_map, List.map_map] at hlines
    rw [render, tables_pairsText h, List.flatMap_singleton]
    refine (congrArg (List.intercalate [10]) hlines).trans ?_
    change List.intercalate [10] (_ ++ [[]]) = _
    rw [intercalate_lines, List.flatMap_map]
    refine List.flatMap_congr fun r hr => ?_
    rw [Function.comp_apply, width_ofBytes (h r hr).1]
    rfl

end ShaderGraft.Text.Table
