import DelphiUnits.Text.Chars
import Mathlib.Data.List.Basic

/-!
# Texts as bytes

A text is stored as the bytes that encode its characters. Texts are compared character by
character, and their bytes byte by byte. Both comparisons agree: of two characters, the one with the
greater code has the greater encoding, whatever follows, since encodings of different lengths differ
in their first byte.

## Main results

* `encode_append_lt`: encodings are ordered as the characters are;
* `bytes_lt_iff`: texts are ordered as their bytes are.
-/

namespace DelphiUnits.Text

/-- The bytes of a text. -/
def bytes (s : String) : List UInt8 :=
  s.toUTF8.data.toList

/-- The bytes of a text are those of its characters. -/
theorem bytes_eq (s : String) : bytes s = s.toList.flatMap String.utf8EncodeChar := by
  have hencode : s.toUTF8 = s.toList.utf8Encode := by simp
  rw [bytes, hencode, List.utf8Encode]
  simp

/-- The order of bytes is that of the numbers they stand for. -/
theorem ofNat_lt_iff {m n : Nat} (hm : m < 256) (hn : n < 256) :
    UInt8.ofNat m < UInt8.ofNat n ↔ m < n := by
  rw [UInt8.lt_iff_toNat_lt, UInt8.toNat_ofNat', UInt8.toNat_ofNat', Nat.mod_eq_of_lt hm,
    Nat.mod_eq_of_lt hn]

/-- Bytes are equal if the numbers are that they stand for. -/
theorem ofNat_eq_iff {m n : Nat} (hm : m < 256) (hn : n < 256) :
    UInt8.ofNat m = UInt8.ofNat n ↔ m = n := by
  rw [← UInt8.toNat_inj, UInt8.toNat_ofNat', UInt8.toNat_ofNat', Nat.mod_eq_of_lt hm,
    Nat.mod_eq_of_lt hn]

/-- The codes of characters end before this one. -/
theorem toNat_val_lt (c : Char) : c.val.toNat < 0x110000 := by
  rcases c.valid with hlow | ⟨-, hhigh⟩
  · have hlow' : c.val.toNat < 0xd800 := hlow
    omega
  · exact hhigh

/-- **Encodings are ordered as the characters are**, whatever follows them. -/
theorem encode_append_lt {c d : Char} (h : c < d) (xs ys : List UInt8) :
    String.utf8EncodeChar c ++ xs < String.utf8EncodeChar d ++ ys := by
  have hlt : c.val.toNat < d.val.toNat := UInt32.lt_iff_toNat_lt.mp h
  have hd := toNat_val_lt d
  simp only [String.utf8EncodeChar]
  generalize c.val.toNat = m at hlt ⊢
  generalize d.val.toNat = n at hlt hd ⊢
  -- The bytes hold the digits of the codes to the base 64. No leading part of the smaller code is
  -- greater, so the first digit that differs is smaller.
  have hdigits (v : Nat) : v / 64 / 64 = v / 4096 ∧ v / 4096 / 64 = v / 262144 := by omega
  obtain ⟨hm₂, hm₃⟩ := hdigits m
  obtain ⟨hn₂, hn₃⟩ := hdigits n
  have hle₁ : m / 64 ≤ n / 64 := Nat.div_le_div_right (Nat.le_of_lt hlt)
  have hle₂ : m / 4096 ≤ n / 4096 := Nat.div_le_div_right (Nat.le_of_lt hlt)
  have hle₃ : m / 262144 ≤ n / 262144 := Nat.div_le_div_right (Nat.le_of_lt hlt)
  have hntop : n / 262144 % 8 = n / 262144 := Nat.mod_eq_of_lt (by omega)
  have hmtop : m / 262144 % 8 = m / 262144 := Nat.mod_eq_of_lt (by omega)
  split_ifs <;>
    simp (disch := omega) only [List.cons_append, List.nil_append, List.cons_lt_cons_iff,
      ofNat_lt_iff, ofNat_eq_iff] <;>
    omega

/-- A greater text has greater bytes. -/
theorem flatMap_encode_lt {cs ds : List Char} (h : cs < ds) :
    cs.flatMap String.utf8EncodeChar < ds.flatMap String.utf8EncodeChar := by
  induction cs generalizing ds with
  | nil =>
      cases ds with
      | nil => exact absurd h (List.lt_irrefl [])
      | cons d ds =>
          obtain ⟨b, bs, hb⟩ := List.exists_cons_of_ne_nil (String.utf8EncodeChar_ne_nil (c := d))
          rw [List.flatMap_cons, hb]
          exact List.nil_lt_cons _ _
  | cons c cs ih =>
      cases ds with
      | nil => exact absurd h (List.not_lt_nil _)
      | cons d ds =>
          rw [List.flatMap_cons, List.flatMap_cons]
          rcases List.cons_lt_cons_iff.mp h with hcd | ⟨rfl, hrest⟩
          · exact encode_append_lt hcd _ _
          · exact List.append_left_lt (ih hrest)

/-- **Texts are ordered as their bytes are.** -/
theorem bytes_lt_iff {s t : String} : bytes s < bytes t ↔ s < t := by
  have hlt {a b : String} (h : a < b) : bytes a < bytes b := by
    rw [bytes_eq, bytes_eq]
    exact flatMap_encode_lt h
  refine ⟨fun h => ?_, hlt⟩
  by_contra hnot
  rcases Decidable.em (t < s) with hts | hts
  · exact List.lt_asymm h (hlt hts)
  · obtain rfl := String.le_antisymm (a := s) (b := t) hts hnot
    exact List.lt_irrefl _ h

end DelphiUnits.Text
