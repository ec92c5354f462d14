import Mathlib.Algebra.Group.Nat.Defs
import Mathlib.Tactic.SplitIfs

/-!
# Names in the order of their bytes

Names are compared character by character.  Written in UTF-8 they are sequences of bytes, and the
two readings of a name give the same order: a name comes before another one exactly if its bytes do
(`Utf8.compare_eq_lt_iff`).

In UTF-8 a character is a *leading* byte followed by up to three *trailing* bytes
(`Utf8.encodeChar_eq`).  A trailing byte holds a digit of the character's code to base 64, the most
significant digit first, and the leading byte holds what is left of the code above a mark for the
number of trailing bytes.  So of two characters the one with fewer trailing bytes has the smaller
leading byte; with equally many, the digits decide (`Utf8.trailing_append_lt`, by induction on their
number).  Either way the first byte that differs decides, and what follows the characters plays no
part.  That is why `Utf8.encodeChar_append_lt` is stated with arbitrary bytes behind both: it is
then the step for whole names.
-/

namespace TypeQuery.Utf8

/-- The bytes of a name. -/
def bytes (name : String) : List UInt8 := name.toUTF8.data.toList

lemma bytes_eq_flatMap (name : String) :
    bytes name = name.toList.flatMap String.utf8EncodeChar := by
  rw [bytes, String.toUTF8_eq_toByteArray, ← String.utf8Encode_toList, List.utf8Encode,
    List.toList_data_toByteArray]

/-! ## The bytes of a character -/

/-- The number of trailing bytes of a character, by its code. -/
def width (code : Nat) : Nat :=
  if code ≤ 0x7f then 0 else if code ≤ 0x7ff then 1 else if code ≤ 0xffff then 2 else 3

/-- What a leading byte adds to tell how many bytes follow. -/
def mark : Nat → Nat
  | 0 => 0
  | 1 => 0xc0
  | 2 => 0xe0
  | _ => 0xf0

/-- The value of the leading byte. -/
def leading (code : Nat) : Nat := code / 64 ^ width code + mark (width code)

/-- The last `n` digits of a code to base 64, each with the mark of a trailing byte. -/
def trailing : Nat → Nat → List UInt8
  | 0, _ => []
  | n + 1, code => UInt8.ofNat (code / 64 ^ n % 64 + 0x80) :: trailing n code

lemma toNat_lt (c : Char) : c.toNat < 0x110000 := by
  have h := c.valid
  simp only [UInt32.isValidChar, Nat.isValidChar, Char.toNat_val] at h
  omega

lemma encodeChar_eq (c : Char) :
    String.utf8EncodeChar c =
      UInt8.ofNat (leading c.toNat) :: trailing (width c.toNat) c.toNat := by
  -- The leading byte is cut to its free bits, which the code never exceeds.
  simp only [String.utf8EncodeChar, Char.toNat_val, leading, width]
  split
  · simp [trailing, mark]
  · split
    · rw [Nat.mod_eq_of_lt (show c.toNat / 64 < 32 by omega)]
      simp [trailing, mark]
    · split
      · rw [Nat.mod_eq_of_lt (show c.toNat / 4096 < 16 by omega)]
        simp [trailing, mark]
      · have hc := toNat_lt c
        rw [Nat.mod_eq_of_lt (show c.toNat / 262144 < 8 by omega)]
        simp [trailing, mark]

lemma leading_lt_size {v : Nat} (hv : v < 0x110000) : leading v < UInt8.size := by
  simp only [leading, width, UInt8.size]
  split_ifs <;> simp only [mark] <;> omega

lemma width_le_width {v w : Nat} (h : v ≤ w) : width v ≤ width w := by
  simp only [width]
  split_ifs <;> omega

/-- The leading bytes of shorter characters come first. -/
lemma leading_lt_leading {v w : Nat} (h : width v < width w) : leading v < leading w := by
  simp only [leading]
  simp only [width] at h ⊢
  split_ifs at h ⊢ <;> simp only [mark] <;> omega

/-- Of two codes that agree above their last `n` digits, the smaller one has the smaller digits. -/
lemma trailing_append_lt {v w : Nat} (h : v < w) (l m : List UInt8) (n : Nat)
    (hn : v / 64 ^ n = w / 64 ^ n) : trailing n v ++ l < trailing n w ++ m := by
  induction n with
  | zero =>
    rw [Nat.pow_zero, Nat.div_one, Nat.div_one] at hn
    exact absurd hn (Nat.ne_of_lt h)
  | succ n ih =>
    rw [Nat.pow_succ, ← Nat.div_div_eq_div_mul, ← Nat.div_div_eq_div_mul] at hn
    have hle : v / 64 ^ n ≤ w / 64 ^ n := Nat.div_le_div_right (Nat.le_of_lt h)
    have hsize : ∀ code, code % 64 + 0x80 < UInt8.size := fun code => by
      simp only [UInt8.size]
      omega
    rw [trailing, trailing, List.cons_append, List.cons_append, List.cons_lt_cons_iff,
      UInt8.ofNat_lt_iff_lt (hsize _) (hsize _)]
    rcases Nat.lt_or_eq_of_le hle with hlt | heq
    · left
      omega
    · exact .inr ⟨by rw [heq], ih heq⟩

/-- Of two characters the smaller one has the smaller bytes, whatever follows them. -/
lemma encodeChar_append_lt {c d : Char} (h : c < d) (l m : List UInt8) :
    String.utf8EncodeChar c ++ l < String.utf8EncodeChar d ++ m := by
  have hlt : c.toNat < d.toNat := h
  rw [encodeChar_eq, encodeChar_eq, List.cons_append, List.cons_append, List.cons_lt_cons_iff,
    UInt8.ofNat_lt_iff_lt (leading_lt_size (toNat_lt c)) (leading_lt_size (toNat_lt d))]
  rcases Nat.lt_or_eq_of_le (width_le_width (Nat.le_of_lt hlt)) with hw | hw
  · exact .inl (leading_lt_leading hw)
  · have hle := Nat.div_le_div_right (c := 64 ^ width d.toNat) (Nat.le_of_lt hlt)
    simp only [leading, hw]
    rcases Nat.lt_or_eq_of_le hle with hlead | hlead
    · exact .inl (Nat.add_lt_add_right hlead _)
    · exact .inr ⟨by rw [hlead], trailing_append_lt hlt l m _ hlead⟩

/-! ## The bytes of a name -/

lemma flatMap_encodeChar_lt {cs ds : List Char} (h : cs < ds) :
    cs.flatMap String.utf8EncodeChar < ds.flatMap String.utf8EncodeChar := by
  induction h with
  | nil =>
    rw [List.flatMap_nil, List.flatMap_cons, encodeChar_eq]
    exact List.nil_lt_cons _ _
  | rel hcd =>
    rw [List.flatMap_cons, List.flatMap_cons]
    exact encodeChar_append_lt hcd _ _
  | cons _ ih =>
    rw [List.flatMap_cons, List.flatMap_cons]
    exact List.append_left_lt ih

lemma bytes_lt_bytes {m n : String} (h : compare m n = .lt) : bytes m < bytes n := by
  rw [bytes_eq_flatMap, bytes_eq_flatMap]
  exact flatMap_encodeChar_lt (String.lt_iff.1 (compareOfLessAndEq_eq_lt.1 h))

/-- Comparing names is comparing their bytes. -/
theorem compare_eq_lt_iff {m n : String} : compare m n = .lt ↔ bytes m < bytes n := by
  refine ⟨bytes_lt_bytes, fun h => ?_⟩
  -- The other two outcomes would put the bytes in an order of their own.
  cases hc : compare m n with
  | lt => rfl
  | eq =>
    rw [Std.compare_eq_iff_eq.1 hc] at h
    exact absurd h (List.lt_irrefl _)
  | gt => exact absurd (bytes_lt_bytes (Std.OrientedCmp.lt_of_gt hc)) (List.lt_asymm h)

end TypeQuery.Utf8
