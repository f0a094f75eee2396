import Mathlib.Data.Char
import Mathlib.Tactic.SplitIfs

/-! The bytes of texts. Texts are ordered as the bytes of their UTF-8 encodings are. -/
namespace ShellTree.Text

/-- The bytes of a text in UTF-8. -/
def bytes (s : String) : List UInt8 := s.toByteArray.data.toList

theorem bytes_eq_flatMap (s : String) : bytes s = s.toList.flatMap String.utf8EncodeChar := by
  rw [bytes, ← String.utf8Encode_toList, List.utf8Encode, List.data_toByteArray]

theorem length_bytes (s : String) : (bytes s).length = s.utf8ByteSize := Array.length_toList

theorem ofNat_cons_lt {m n : Nat} (hm : m < 256) (hn : n < 256) {s t : List UInt8} :
    UInt8.ofNat m :: s < UInt8.ofNat n :: t ↔ m < n ∨ m = n ∧ s < t := by
  rw [List.cons_lt_cons_iff, UInt8.lt_iff_toNat_lt, ← UInt8.toNat_inj, UInt8.toNat_ofNat',
    UInt8.toNat_ofNat', Nat.mod_eq_of_lt hm, Nat.mod_eq_of_lt hn]

theorem val_lt (c : Char) : c.val.toNat < 0x110000 := by
  rcases c.valid with h | h
  · have : c.val.toNat < 0xd800 := h
    omega
  · exact h.2

/-- The encodings of two characters part at some byte, whatever follows them. -/
theorem utf8EncodeChar_append_lt {c d : Char} (h : c < d) (s t : List UInt8) :
    String.utf8EncodeChar c ++ s < String.utf8EncodeChar d ++ t := by
  have hcd : c.val.toNat < d.val.toNat := h
  have hd := val_lt d
  -- Division by 64 alone, so that the digits of the two can be told apart.
  have twelve : ∀ v : Nat, v / 4096 = v / 64 / 64 := by
    intro v
    rw [Nat.div_div_eq_div_mul]
  have eighteen : ∀ v : Nat, v / 262144 = v / 64 / 64 / 64 := by
    intro v
    rw [Nat.div_div_eq_div_mul, Nat.div_div_eq_div_mul]
  unfold String.utf8EncodeChar
  simp only [twelve, eighteen]
  split_ifs <;>
    simp (disch := omega) only [List.cons_append, List.nil_append, ofNat_cons_lt] <;>
    omega

theorem flatMap_utf8EncodeChar_lt {s t : List Char} (h : s < t) :
    s.flatMap String.utf8EncodeChar < t.flatMap String.utf8EncodeChar := by
  induction h with
  | @nil c t =>
    obtain ⟨x, xs, hx⟩ := List.exists_cons_of_ne_nil (String.utf8EncodeChar_ne_nil (c := c))
    rw [List.flatMap_nil, List.flatMap_cons, hx]
    exact .nil
  | cons _ ih => exact List.append_left_lt ih
  | rel h => exact utf8EncodeChar_append_lt h _ _

theorem lt_iff_bytes_lt {s t : String} : s < t ↔ bytes s < bytes t := by
  rw [bytes_eq_flatMap, bytes_eq_flatMap]
  constructor
  · exact flatMap_utf8EncodeChar_lt
  · intro h
    by_contra hlt
    rcases List.le_iff_lt_or_eq.mp (List.not_lt.mp hlt) with hts | hts
    · exact List.lt_asymm h (flatMap_utf8EncodeChar_lt hts)
    · rw [hts] at h
      exact List.lt_irrefl _ h

/-- Texts are ordered by their bytes. -/
theorem le_iff_bytes_le {s t : String} : s ≤ t ↔ bytes s ≤ bytes t := not_congr lt_iff_bytes_lt

end ShellTree.Text
