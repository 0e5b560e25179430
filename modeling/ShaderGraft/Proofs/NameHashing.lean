import ShaderGraft.NameHash
import ShaderGraft.Proofs.Literals

/-!
# The hash of a name

The hash puts each byte of a name into one of the four bytes of a word, by its position. So the hash
of what comes later in a name is a rotated hash (`nameHashFrom_add`), and the hash of two strings in
a row is made of the hashes of both (`nameHash_algebra`). Any four bytes in a row are a word, so the
hash is also the exclusive or of the words that a name is written as (`nameHash_toLittleEndian`).
-/

namespace ShaderGraft

namespace Word

/-- The word with its bits moved up by `n` places. Those that leave it at the top come back at the
bottom. -/
def rotateLeft (w : Word) (n : Nat) : Word :=
  ⟨w.toBitVec.rotateLeft n⟩

theorem getLsbD_rotateLeft (w : Word) {n i : Nat} (hi : i < 32) :
    (w.rotateLeft n).toBitVec.getLsbD i = w.toBitVec.getLsbD ((i + (32 - n % 32)) % 32) := by
  have hn := Nat.mod_lt n (by decide : 0 < 32)
  rw [rotateLeft, BitVec.getLsbD_rotateLeft]
  by_cases h : i < n % 32
  · have hindex : 32 - n % 32 + i = (i + (32 - n % 32)) % 32 := by omega
    simp [h, hindex]
  · have hindex : i - n % 32 = (i + (32 - n % 32)) % 32 := by omega
    simp [h, hi, hindex]

/-- Words are equal if they have the same bits. -/
theorem eq_of_getLsbD {v w : Word} (h : ∀ i < 32, v.toBitVec.getLsbD i = w.toBitVec.getLsbD i) :
    v = w :=
  UInt32.toBitVec_inj.1 (BitVec.eq_of_getLsbD_eq h)

theorem rotateLeft_xor (v w : Word) (n : Nat) :
    (v ^^^ w).rotateLeft n = v.rotateLeft n ^^^ w.rotateLeft n :=
  eq_of_getLsbD fun i hi => by simp [getLsbD_rotateLeft _ hi]

@[simp] theorem zero_rotateLeft (n : Nat) : rotateLeft 0 n = 0 :=
  eq_of_getLsbD fun i hi => by simp [getLsbD_rotateLeft _ hi]

@[simp] theorem rotateLeft_zero (w : Word) : w.rotateLeft 0 = w :=
  eq_of_getLsbD fun i hi => by simp [getLsbD_rotateLeft _ hi, Nat.mod_eq_of_lt hi]

/-! ### Bytes at the four places of a word -/

/-- The word that has a byte at one of its four places, and zeros at the others. -/
def place (k : Nat) (b : UInt8) : Word :=
  b.toUInt32 <<< (8 * k).toUInt32

theorem getLsbD_place (b : UInt8) {k i : Nat} (hk : k < 4) (hi : i < 32) :
    (place k b).toBitVec.getLsbD i = (decide (i / 8 = k) && b.toBitVec.getLsbD (i % 8)) := by
  have hshift : (place k b).toBitVec = b.toBitVec.setWidth 32 <<< (8 * k) := by
    obtain rfl | rfl | rfl | rfl : k = 0 ∨ k = 1 ∨ k = 2 ∨ k = 3 := by omega
    all_goals rfl
  rw [hshift, BitVec.getLsbD_shiftLeft, BitVec.getLsbD_setWidth]
  by_cases hplace : i / 8 = k
  · have hindex : i - 8 * k = i % 8 := by omega
    have hlow : ¬ i < 8 * k := by omega
    have hword : i % 8 < 32 := by omega
    simp [hi, hplace, hindex, hlow, hword]
  by_cases hbelow : i < 8 * k
  · simp [hplace, hbelow]
  · rw [BitVec.getLsbD_of_ge b.toBitVec _ (by omega)]
    simp [hplace]

@[simp] theorem place_zero (k : Nat) : place k 0 = 0 := by
  simp [place]

/-- Rotating by whole bytes takes a byte to another place. -/
theorem rotateLeft_place (b : UInt8) (i j : Nat) :
    (place (j % 4) b).rotateLeft (8 * (i % 4)) = place ((i + j) % 4) b := by
  have hi := Nat.mod_lt i (by decide : 0 < 4)
  have hj := Nat.mod_lt j (by decide : 0 < 4)
  refine eq_of_getLsbD fun n hn => ?_
  have hbyte : (n + (32 - 8 * (i % 4) % 32)) % 32 / 8 = j % 4 ↔ n / 8 = (i + j) % 4 := by omega
  have hbit : (n + (32 - 8 * (i % 4) % 32)) % 32 % 8 = n % 8 := by omega
  rw [getLsbD_rotateLeft _ hn, getLsbD_place b hj (by omega), getLsbD_place b (by omega) hn, hbit,
    decide_eq_decide.2 hbyte]

/-- The bytes of a word do not overlap, so that it does not matter how they are joined. -/
theorem ofBytes_eq_xor (a b c d : UInt8) :
    ofBytes a b c d = place 0 a ^^^ (place 1 b ^^^ (place 2 c ^^^ (place 3 d ^^^ 0))) := by
  have hjoin : ofBytes a b c d = place 0 a ||| place 1 b ||| place 2 c ||| place 3 d := by
    have hfirst : a.toUInt32 = place 0 a := by simp [place]
    rw [ofBytes, hfirst]
    rfl
  refine eq_of_getLsbD fun i hi => ?_
  have hbyte : i / 8 = 0 ∨ i / 8 = 1 ∨ i / 8 = 2 ∨ i / 8 = 3 := by omega
  rw [hjoin]
  simp only [UInt32.toBitVec_or, UInt32.toBitVec_xor, BitVec.getLsbD_or, BitVec.getLsbD_xor,
    getLsbD_place _ (by decide : 0 < 4) hi, getLsbD_place _ (by decide : 1 < 4) hi,
    getLsbD_place _ (by decide : 2 < 4) hi, getLsbD_place _ (by decide : 3 < 4) hi]
  rcases hbyte with h | h | h | h <;> simp [h]

end Word

open Word

/-! ### Hashes of strings in a row -/

theorem nameHashFrom_cons (i : Nat) (b : UInt8) (s : Bytes) :
    nameHashFrom i (b :: s) = place (i % 4) b ^^^ nameHashFrom (i + 1) s :=
  rfl

theorem nameHashFrom_append (i : Nat) (s t : Bytes) :
    nameHashFrom i (s ++ t) = nameHashFrom i s ^^^ nameHashFrom (i + s.length) t := by
  induction s generalizing i with
  | nil => simp [nameHashFrom]
  | cons b s ih =>
    have hlength : i + 1 + s.length = i + (b :: s).length := by
      rw [List.length_cons]
      omega
    rw [List.cons_append, nameHashFrom_cons, nameHashFrom_cons, ih, hlength, UInt32.xor_assoc]

/-- The hash of what starts `i` bytes later is rotated by `i` bytes. -/
theorem nameHashFrom_add (i j : Nat) (s : Bytes) :
    nameHashFrom (i + j) s = (nameHashFrom j s).rotateLeft (8 * (i % 4)) := by
  induction s generalizing j with
  | nil => simp [nameHashFrom]
  | cons b s ih =>
    rw [nameHashFrom_cons, nameHashFrom_cons, rotateLeft_xor, rotateLeft_place, ← ih, Nat.add_assoc]

theorem nameHash_append (s t : Bytes) :
    nameHash (s ++ t) = nameHash s ^^^ (nameHash t).rotateLeft (8 * (s.length % 4)) := by
  rw [nameHash, nameHashFrom_append, Nat.add_comm, nameHashFrom_add]
  rfl

/-! ### Hashes of words -/

/-- Zero bytes do not change a hash. -/
theorem nameHashFrom_replicate_zero (i n : Nat) : nameHashFrom i (List.replicate n 0) = 0 := by
  induction n generalizing i with
  | zero => rfl
  | succ n ih => rw [List.replicate_succ, nameHashFrom_cons, ih, place_zero, UInt32.xor_zero]

/-- The four bytes of a word have the word as their hash. -/
theorem nameHash_toBytes (w : Word) : nameHash (toBytes w) = w := by
  calc nameHash (toBytes w)
    _ = ofBytes w.toUInt8 (w >>> 8).toUInt8 (w >>> 16).toUInt8 (w >>> 24).toUInt8 :=
      (ofBytes_eq_xor ..).symm
    _ = w := ofBytes_toUInt8 w

/-- The hash of the bytes of words is the exclusive or of the words. -/
theorem nameHash_toLittleEndian (ws : List Word) :
    nameHash (toLittleEndian ws) = ws.foldr (· ^^^ ·) 0 := by
  induction ws with
  | nil => rfl
  | cons w ws ih =>
    have hlength : (toBytes w).length = 4 := rfl
    rw [toLittleEndian, List.flatMap_cons, ← toLittleEndian, nameHash_append, nameHash_toBytes, ih,
      hlength, Nat.mod_self, Nat.mul_zero, rotateLeft_zero, List.foldr_cons]

theorem nameHash_eq_foldr_encode (s : Bytes) :
    nameHash s = (Literal.encode s).foldr (· ^^^ ·) 0 := by
  rw [← nameHash_toLittleEndian, Literal.toLittleEndian_encode, nameHash, nameHash,
    nameHashFrom_append, nameHashFrom_replicate_zero, UInt32.xor_zero]

/-- **How hashes are made of one another.** The hash of two strings in a row is that of the first
and, by exclusive or, that of the second, rotated by as many bytes as the first is longer than whole
words; and the hash of a string is the exclusive or of all words it is written as. So a string of
whole words that is appended twice leaves the hash as it was. -/
theorem nameHash_algebra (s t : Bytes) :
    nameHash (s ++ t) = nameHash s ^^^ (nameHash t).rotateLeft (8 * (s.length % 4)) ∧
      nameHash s = (Literal.encode s).foldr (· ^^^ ·) 0 ∧
      (4 ∣ t.length → nameHash (s ++ t ++ t) = nameHash s) := by
  refine ⟨nameHash_append s t, nameHash_eq_foldr_encode s, fun hwords => ?_⟩
  have hrotation : (s ++ t).length % 4 = s.length % 4 := by
    rw [List.length_append]
    omega
  rw [nameHash_append, nameHash_append, hrotation, UInt32.xor_assoc, UInt32.xor_self,
    UInt32.xor_zero]

theorem nameHash_algebra_repeated :
    nameHash (utf8 "x" ++ utf8 "0001" ++ utf8 "0001") = nameHash (utf8 "x") ∧
      nameHash (utf8 "x") = 0x78 ∧ nameHash (utf8 "x" ++ utf8 "0001") = 0x30303049 := by
  refine ⟨(nameHash_algebra (utf8 "x") (utf8 "0001")).2.2 (by decide), by decide, by decide⟩

end ShaderGraft
