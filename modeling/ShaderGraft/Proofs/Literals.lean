import Mathlib.Data.List.TakeWhile
import ShaderGraft.Literal
import ShaderGraft.Proofs.ByteOrder

/-!
# String literals

The words of a string hold its bytes, and then zeros up to the end of the last word, of which there
is at least one (`Literal.toLittleEndian_encode`). Reading goes through the bytes of the words, not
through the words: it stops at the first zero byte and takes the words up to the one with this byte
(`Literal.decode_eq`). From the two it follows when one undoes the other
(`Literal.decode_encode_exact`).
-/

namespace ShaderGraft.Literal

open Word

/-! ### Strings as bytes -/

/-- The words of a string hold its bytes, and zeros up to the end of the last word. -/
theorem toLittleEndian_encode (s : Bytes) :
    toLittleEndian (encode s) = s ++ List.replicate (4 - s.length % 4) 0 := by
  fun_induction encode s with
  | case1 => rfl
  | case2 a | case3 a b | case4 a b c => simp [toLittleEndian, List.replicate]
  | case5 a b c d rest ih =>
    have hlength : (a :: b :: c :: d :: rest).length % 4 = rest.length % 4 := by
      simp only [List.length_cons]
      omega
    rw [toLittleEndian, List.flatMap_cons, ← toLittleEndian, ih, toBytes_ofBytes, hlength]
    rfl

theorem length_encode (s : Bytes) : (encode s).length = s.length / 4 + 1 := by
  have hbytes := congrArg List.length (toLittleEndian_encode s)
  simp only [length_toLittleEndian, List.length_append, List.length_replicate] at hbytes
  omega

/-- The bytes of the words in front of the first zero byte. -/
def text (ws : List Word) : Bytes :=
  (toLittleEndian ws).takeWhile (· != 0)

/-- The text goes on after a word without zero bytes, and ends in any other. -/
theorem text_cons (w : Word) (ws : List Word) :
    text (w :: ws) = if ((toBytes w).takeWhile (· != 0)).length < 4
      then (toBytes w).takeWhile (· != 0)
      else (toBytes w).takeWhile (· != 0) ++ text ws := by
  have hsublist : ((toBytes w).takeWhile (· != 0)).Sublist (toBytes w) := List.takeWhile_sublist _
  have hle : ((toBytes w).takeWhile (· != 0)).length ≤ 4 := hsublist.length_le
  have hlength : (toBytes w).length = 4 := rfl
  rw [text, toLittleEndian, List.flatMap_cons, ← toLittleEndian, List.takeWhile_append, ← text]
  split
  · rename_i hfull
    rw [if_neg (by omega), hsublist.eq_of_length hfull]
  · rw [if_pos (by omega)]

/-- A string is read up to the first zero byte, and takes the words up to the one with this byte. -/
theorem decode_eq (ws : List Word) :
    decode ws = (text ws, min ((text ws).length / 4 + 1) ws.length) := by
  fun_induction decode ws with
  | case1 => rfl
  | case2 w ws part hpart =>
    have htext : text (w :: ws) = part := by rw [text_cons, if_pos hpart]
    rw [htext, List.length_cons]
    congr 1
    omega
  | case3 w ws part hpart rest n hrest ih =>
    have hle : part.length ≤ 4 := (List.takeWhile_sublist _).length_le
    have htext : text (w :: ws) = part ++ text ws := by rw [text_cons, if_neg hpart]
    rw [hrest] at ih
    obtain ⟨rfl, rfl⟩ := Prod.mk.inj ih
    rw [htext, List.length_append, List.length_cons]
    congr 1
    omega

theorem length_decode_le (ws : List Word) : (decode ws).2 ≤ ws.length := by
  rw [decode_eq]
  exact Nat.min_le_right ..

/-- The words that a string takes hold all of its text. -/
theorem text_take_decode (ws : List Word) : text (ws.take (decode ws).2) = text ws := by
  fun_induction decode ws with
  | case1 => rfl
  | case2 w ws part hpart => simp only [List.take_succ_cons, text_cons, part, if_pos hpart]
  | case3 w ws part hpart rest n hrest ih =>
    rw [hrest] at ih
    simp only [List.take_succ_cons, text_cons, part, if_neg hpart, ih]

/-! ### Reading what was written -/

theorem takeWhile_eq_self {s : Bytes} : s.takeWhile (· != 0) = s ↔ 0 ∉ s := by
  rw [List.takeWhile_eq_self_iff]
  constructor
  · intro h hzero
    exact bne_iff_ne.1 (h 0 hzero) rfl
  · exact fun h b hb => bne_iff_ne.2 fun hzero => h (hzero ▸ hb)

theorem zero_notMem_takeWhile (s : Bytes) : 0 ∉ s.takeWhile (· != 0) :=
  takeWhile_eq_self.1 List.takeWhile_idem

/-- The bytes in front of the first zero byte are the longest beginning without a zero byte. -/
theorem longest_takeWhile {q s : Bytes} (hq : q <+: s) (hzero : 0 ∉ q) :
    q <+: s.takeWhile (· != 0) := by
  obtain ⟨r, rfl⟩ := hq
  rw [List.takeWhile_append, if_pos (congrArg List.length (takeWhile_eq_self.2 hzero))]
  exact List.prefix_append ..

theorem text_encode_append (s : Bytes) (rest : List Word) :
    text (encode s ++ rest) = s.takeWhile (· != 0) := by
  have hpadding : 4 - s.length % 4 = (3 - s.length % 4) + 1 := by omega
  rw [text, toLittleEndian, List.flatMap_append, ← toLittleEndian, toLittleEndian_encode, hpadding,
    List.replicate_succ, List.append_assoc, List.takeWhile_append]
  split
  · rename_i hfull
    simp [(List.takeWhile_sublist _).eq_of_length hfull]
  · rfl

/-- What is read back of a string is what stands in front of its first zero byte. -/
theorem decode_encode_append (s : Bytes) (rest : List Word) :
    decode (encode s ++ rest) =
      (s.takeWhile (· != 0), (s.takeWhile (· != 0)).length / 4 + 1) := by
  have hle : (s.takeWhile (· != 0)).length ≤ s.length := (List.takeWhile_sublist _).length_le
  rw [decode_eq, text_encode_append, List.length_append, length_encode]
  congr 1
  omega

/-- A string without zero bytes is read as it was written. -/
theorem decode_encode {s : Bytes} (h : 0 ∉ s) : (decode (encode s)).1 = s := by
  rw [← List.append_nil (encode s), decode_encode_append]
  exact takeWhile_eq_self.2 h

/-! ### Writing what was read -/

/-- A zero byte ends the words: all bytes after the first one are zero as far as its word goes. -/
def Terminated (ws : List Word) : Prop :=
  ∃ k : Nat, (toLittleEndian ws)[k]? = some 0 ∧ (∀ j < k, (toLittleEndian ws)[j]? ≠ some 0) ∧
    ∀ j, k < j → j / 4 = k / 4 → (toLittleEndian ws)[j]? = some 0

/-- The words of a string without zero bytes are terminated, by the zeros that fill the last one. -/
theorem terminated_encode {s : Bytes} (h : 0 ∉ s) : Terminated (encode s) := by
  refine ⟨s.length, ?_, fun j hj => ?_, fun j hj hword => ?_⟩
  · rw [toLittleEndian_encode, List.getElem?_append_right (Nat.le_refl _), List.getElem?_replicate,
      if_pos (by omega)]
  · rw [toLittleEndian_encode, List.getElem?_append_left hj]
    exact fun hzero => h (List.mem_of_getElem? hzero)
  · rw [toLittleEndian_encode, List.getElem?_append_right (Nat.le_of_lt hj),
      List.getElem?_replicate, if_pos (by omega)]

/-- The text ends at the first zero byte. -/
theorem text_eq_take {ws : List Word} {k : Nat} (hzero : (toLittleEndian ws)[k]? = some 0)
    (hbefore : ∀ j < k, (toLittleEndian ws)[j]? ≠ some 0) :
    text ws = (toLittleEndian ws).take k := by
  obtain ⟨hk, hget⟩ := List.getElem?_eq_some_iff.1 hzero
  have hsplit : (toLittleEndian ws).take k ++ 0 :: (toLittleEndian ws).drop (k + 1) =
      toLittleEndian ws := by
    rw [← hget, List.getElem_cons_drop, List.take_append_drop]
  have hnonzero : 0 ∉ (toLittleEndian ws).take k := by
    intro h
    obtain ⟨j, hj⟩ := List.mem_iff_getElem?.1 h
    rw [List.getElem?_take] at hj
    split at hj
    · rename_i hjk
      exact hbefore j hjk hj
    · cases hj
  have hfull := takeWhile_eq_self.2 hnonzero
  rw [text, ← hsplit, List.takeWhile_append, if_pos (congrArg List.length hfull), hsplit]
  simp

theorem toLittleEndian_injective {us ws : List Word}
    (h : toLittleEndian us = toLittleEndian ws) : us = ws := by
  rw [← ofLittleEndian_toLittleEndian us, h, ofLittleEndian_toLittleEndian]

/-- Terminated words are those of their text, if they end where the text does. -/
theorem encode_text {ws : List Word} (h : Terminated ws)
    (hlength : ws.length ≤ (text ws).length / 4 + 1) : encode (text ws) = ws := by
  obtain ⟨k, hzero, hbefore, hafter⟩ := h
  have htext := text_eq_take hzero hbefore
  obtain ⟨hk, -⟩ := List.getElem?_eq_some_iff.1 hzero
  have hcount : (text ws).length = k := by
    rw [htext, List.length_take, Nat.min_eq_left (Nat.le_of_lt hk)]
  rw [hcount] at hlength
  rw [length_toLittleEndian] at hk
  apply toLittleEndian_injective
  rw [toLittleEndian_encode, hcount]
  -- byte by byte: the text, the first zero byte, the others of its word, and nothing after them
  apply List.ext_getElem?
  intro j
  by_cases hj : j < k
  · rw [List.getElem?_append_left (by omega), htext, List.getElem?_take_of_lt hj]
  rw [List.getElem?_append_right (by omega), hcount, List.getElem?_replicate]
  split
  · by_cases hjk : j = k
    · rw [hjk, hzero]
    · rw [hafter j (by omega) (by omega)]
  · rw [List.getElem?_eq_none (by rw [length_toLittleEndian]; omega)]

/-- The words that a string was read from are those it is written as exactly if they are
terminated. -/
theorem encode_decode_iff (ws : List Word) :
    encode (decode ws).1 = ws.take (decode ws).2 ↔ Terminated (ws.take (decode ws).2) := by
  have hfst : (decode ws).1 = text (ws.take (decode ws).2) := by
    rw [text_take_decode, decode_eq]
  have hsnd : (decode ws).2 ≤ (text ws).length / 4 + 1 := by
    rw [decode_eq]
    exact Nat.min_le_left ..
  rw [hfst]
  constructor
  · intro h
    rw [← h]
    exact terminated_encode (zero_notMem_takeWhile _)
  · intro h
    refine encode_text h ?_
    rw [text_take_decode, List.length_take]
    omega

/-- **Strings are read as they were written**, up to their first zero byte: what is read of the
words of a string, whatever follows them, is its longest beginning without a zero byte, and so all
of the string from all of its words exactly if it has none. The other way round, what is read from
any words is written as the words that were read exactly if these are terminated. -/
theorem decode_encode_exact (s : Bytes) (rest ws : List Word) :
    (∃ p, p <+: s ∧ 0 ∉ p ∧ (∀ q, q <+: s → 0 ∉ q → q <+: p) ∧
        decode (encode s ++ rest) = (p, p.length / 4 + 1)) ∧
      (decode (encode s ++ rest) = (s, (encode s).length) ↔ 0 ∉ s) ∧
      (encode (decode ws).1 = ws.take (decode ws).2 ↔ Terminated (ws.take (decode ws).2)) := by
  have hread := decode_encode_append s rest
  refine ⟨⟨s.takeWhile (· != 0), ?_, zero_notMem_takeWhile s, ?_, hread⟩, ?_, encode_decode_iff ws⟩
  · exact List.takeWhile_prefix _
  · exact fun q => longest_takeWhile
  · rw [hread, length_encode, Prod.mk.injEq, takeWhile_eq_self]
    refine and_iff_left_of_imp fun h => ?_
    rw [takeWhile_eq_self.2 h]

theorem decode_encode_exact_cut :
    (∃ p, [97] <+: p ∧ p <+: [97, 0, 98] ∧
        decode (encode [97, 0, 98] ++ [7]) = (p, p.length / 4 + 1)) ∧
      decode [0x00636261, 7] = ([97, 98, 99], 1) ∧ Terminated [0x00636261] := by
  obtain ⟨⟨p, hstart, -, hlongest, hread⟩, -, hwords⟩ :=
    decode_encode_exact [97, 0, 98] [7] [0x00636261, 7]
  have hbeginning : [97] <+: p := hlongest [97] ⟨[0, 98], rfl⟩ (by decide)
  exact ⟨⟨p, hbeginning, hstart, hread⟩, rfl, hwords.1 rfl⟩

end ShaderGraft.Literal
