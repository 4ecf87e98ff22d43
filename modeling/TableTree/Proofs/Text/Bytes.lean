/-!
# The order of texts by bytes

Texts are ordered by code points. In UTF-8 a code point is cut into digits of six bits, the highest
first, and the first byte tells how many there are as well. So of two characters the one with the
smaller code point has the smaller encoding, at a place where both have a byte, and texts are ordered
by the bytes of their encodings.

Results:

* `Text.bytes`: the encoding of a text.
* `Text.exists_utf8EncodeChar_eq`: the encoding of a character by its digits.
* `Text.utf8EncodeChar_append_lt`: the order of characters by bytes.
* `Text.bytes_lt_bytes`: the order of texts by bytes.
-/

namespace TableTree.Text

/-- The encoding of a text in UTF-8. -/
def bytes (s : String) : List UInt8 := s.toUTF8.data.toList

theorem bytes_eq_flatMap (s : String) : bytes s = s.toList.flatMap String.utf8EncodeChar := by
  have h : s.toList.utf8Encode = s.toUTF8 := String.utf8Encode_toList
  rw [bytes, ← h, List.utf8Encode, List.toList_data_toByteArray]

/-! ## Characters -/

/-- A smaller byte, or an equal one with something smaller after it. -/
theorem ofNat_cons_lt {a b : Nat} {u v : List UInt8} (ha : a < 256) (hb : b < 256)
    (h : a < b ∨ a = b ∧ u < v) : UInt8.ofNat a :: u < UInt8.ofNat b :: v := by
  rw [List.cons_lt_cons_iff, UInt8.lt_iff_toNat_lt, UInt8.toNat_ofNat_of_lt' ha,
    UInt8.toNat_ofNat_of_lt' hb]
  rcases h with h | ⟨rfl, h⟩
  · exact .inl h
  · exact .inr ⟨rfl, h⟩

/-- What is left of a code point without its lowest digits. -/
def leading : Nat → Nat → Nat
  | 0, v => v
  | k + 1, v => leading k (v / 64)

/-- The bytes for the lowest digits of a code point. -/
def trailing : Nat → Nat → List UInt8
  | 0, _ => []
  | k + 1, v => trailing k (v / 64) ++ [UInt8.ofNat (v % 64 + 0x80)]

/-- Of two code points the smaller one has a smaller leading part, or the same with smaller digits. -/
theorem leading_lt_or_trailing_lt (k : Nat) {v w : Nat} (h : v < w) (x y : List UInt8) :
    leading k v < leading k w ∨
      leading k v = leading k w ∧ trailing k v ++ x < trailing k w ++ y := by
  induction k generalizing v w x y with
  | zero => exact .inl h
  | succ k ih =>
    simp only [leading, trailing, List.append_assoc]
    have hdigit : v / 64 < w / 64 ∨ v / 64 = w / 64 ∧ v % 64 < w % 64 := by omega
    rcases hdigit with hupper | ⟨hupper, hlow⟩
    · exact ih hupper _ _
    · right
      rw [hupper]
      exact ⟨rfl, List.append_left_lt (ofNat_cons_lt (by omega) (by omega) (.inl (by omega)))⟩

/-- A character with the code point `v` is encoded by a first byte and `k` digits. The first byte is
the leading part of the code point on top of an offset that belongs to the number of digits. -/
theorem exists_utf8EncodeChar_eq (c : Char) : ∃ k offset,
    String.utf8EncodeChar c = UInt8.ofNat (leading k c.val.toNat + offset) :: trailing k c.val.toNat ∧
      (k = 0 ∧ offset = 0 ∧ c.val.toNat < 0x80 ∨
        k = 1 ∧ offset = 0xC0 ∧ 0x80 ≤ c.val.toNat ∧ c.val.toNat < 0x800 ∨
        k = 2 ∧ offset = 0xE0 ∧ 0x800 ≤ c.val.toNat ∧ c.val.toNat < 0x10000 ∨
        k = 3 ∧ offset = 0xF0 ∧ 0x10000 ≤ c.val.toNat ∧ c.val.toNat < 0x110000) := by
  have hvalid : c.val.toNat < 0x110000 := by
    rcases c.valid with h | h <;> omega
  unfold String.utf8EncodeChar
  generalize c.val.toNat = v at hvalid
  have hdiv₂ : v / 4096 = v / 64 / 64 := (Nat.div_div_eq_div_mul v 64 64).symm
  have hdiv₃ : v / 262144 = v / 4096 / 64 := (Nat.div_div_eq_div_mul v 4096 64).symm
  dsimp only
  split
  · exact ⟨0, 0, rfl, by omega⟩
  split
  · have hupper : v / 64 % 32 = v / 64 := by omega
    exact ⟨1, 0xC0, by rw [hupper]; rfl, by omega⟩
  split
  · have hupper : v / 4096 % 16 = v / 4096 := by omega
    exact ⟨2, 0xE0, by rw [hupper, hdiv₂]; rfl, by omega⟩
  · have hupper : v / 262144 % 8 = v / 262144 := by omega
    exact ⟨3, 0xF0, by rw [hupper, hdiv₃, hdiv₂]; rfl, by omega⟩

/-- Of two characters the one with the smaller code point has the smaller encoding, whatever comes
after the two. -/
theorem utf8EncodeChar_append_lt {c d : Char} (h : c < d) (x y : List UInt8) :
    String.utf8EncodeChar c ++ x < String.utf8EncodeChar d ++ y := by
  have hlt : c.val.toNat < d.val.toNat := h
  obtain ⟨k, offset, hc, hk⟩ := exists_utf8EncodeChar_eq c
  obtain ⟨l, offset', hd, hl⟩ := exists_utf8EncodeChar_eq d
  rw [hc, hd]
  generalize c.val.toNat = v at hlt hk
  generalize d.val.toNat = w at hlt hl
  have hfirst : leading k v + offset < 256 ∧ leading l w + offset' < 256 ∧
      (k = l ∧ offset = offset' ∨ leading k v + offset < leading l w + offset') := by
    rcases hk with hk | hk | hk | hk <;> rcases hl with hl | hl | hl | hl <;>
      obtain ⟨rfl, rfl, hv⟩ := hk <;> obtain ⟨rfl, rfl, hw⟩ := hl <;>
      simp only [leading, and_self, true_or, and_true] <;> omega
  obtain ⟨hv, hw, ⟨rfl, rfl⟩ | hfirst⟩ := hfirst
  · refine ofNat_cons_lt hv hw ?_
    rcases leading_lt_or_trailing_lt k hlt x y with hupper | ⟨hupper, hdigits⟩
    · exact .inl (Nat.add_lt_add_right hupper offset)
    · exact .inr ⟨congrArg (· + offset) hupper, hdigits⟩
  · exact ofNat_cons_lt hv hw (.inl hfirst)

/-! ## Texts -/

/-- Characters are encoded one after the other, so lists of them are ordered by their encodings. -/
theorem flatMap_utf8EncodeChar_lt {l l' : List Char} (h : l < l') :
    l.flatMap String.utf8EncodeChar < l'.flatMap String.utf8EncodeChar := by
  induction h with
  | @nil d l' =>
    obtain ⟨k, offset, hd, -⟩ := exists_utf8EncodeChar_eq d
    rw [List.flatMap_nil, List.flatMap_cons, hd]
    exact List.nil_lt_cons _ _
  | rel h =>
    rw [List.flatMap_cons, List.flatMap_cons]
    exact utf8EncodeChar_append_lt h _ _
  | cons _ ih =>
    rw [List.flatMap_cons, List.flatMap_cons]
    exact List.append_left_lt ih

/-- A smaller text has a smaller encoding. -/
theorem bytes_lt_bytes {s t : String} (h : s < t) : bytes s < bytes t := by
  rw [bytes_eq_flatMap, bytes_eq_flatMap]
  exact flatMap_utf8EncodeChar_lt h

end TableTree.Text
