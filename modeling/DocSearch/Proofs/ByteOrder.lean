import Mathlib.Data.String.Basic

/-!
# The order of texts and of their bytes

Texts are ordered character by character, in the order of the codes. The bytes of their encoding
are in the same order: a character with a smaller code is encoded by smaller bytes, at the first
byte where the encodings differ.

* `Text.bytes_lt_bytes_iff`: the two orders are one.
-/

namespace DocSearch.Text

/-- The bytes that encode a text. -/
def bytes (s : String) : List UInt8 := s.toUTF8.data.toList

theorem bytes_eq (s : String) : bytes s = s.toList.flatMap String.utf8EncodeChar := by
  have hencoded : s.toUTF8 = s.toList.utf8Encode := by
    rw [← String.toByteArray_ofList, String.ofList_toList]
    rfl
  rw [bytes, hencoded, List.utf8Encode, List.data_toByteArray]

/-- A character with a smaller code is encoded by smaller bytes, whatever follows. -/
theorem encoded_lt {c d : Char} (h : c < d) (after others : List UInt8) :
    String.utf8EncodeChar c ++ after < String.utf8EncodeChar d ++ others := by
  have hlt : c.val.toNat < d.val.toNat := h
  have hbound : d.val.toNat < 0x110000 := by
    have hvalid : d.val.toNat < 0xD800 ∨ 0xDFFF < d.val.toNat ∧ d.val.toNat < 0x110000 := d.valid
    omega
  unfold String.utf8EncodeChar
  dsimp only
  generalize c.val.toNat = v at *
  generalize d.val.toNat = w at *
  -- A case for each number of bytes of either character. The bytes are compared as numbers, which
  -- are the digits of the code to the base 64 with a mark added.
  split_ifs <;>
    simp (disch := omega) only [List.cons_append, List.nil_append, List.cons_lt_cons_iff,
      UInt8.lt_iff_toNat_lt, ← UInt8.toNat_inj, UInt8.toNat_ofNat', Nat.mod_eq_of_lt] <;>
    omega

theorem flatMap_encoded_lt {cs ds : List Char} (h : cs < ds) :
    cs.flatMap String.utf8EncodeChar < ds.flatMap String.utf8EncodeChar := by
  induction cs generalizing ds with
  | nil =>
    cases ds with
    | nil => exact absurd h (List.lt_irrefl [])
    | cons d ds =>
      cases hencoded : String.utf8EncodeChar d with
      | nil => exact absurd hencoded (String.utf8EncodeChar_ne_nil)
      | cons byte bytes => simp [hencoded]
  | cons c cs ih =>
    cases ds with
    | nil => cases h
    | cons d ds =>
      rw [List.flatMap_cons, List.flatMap_cons]
      rcases List.cons_lt_cons_iff.mp h with hcd | ⟨rfl, hrest⟩
      · exact encoded_lt hcd _ _
      · exact List.append_left_lt (ih hrest)

theorem bytes_lt_bytes_iff {s t : String} : bytes s < bytes t ↔ s < t := by
  have hmono : ∀ {s t : String}, s < t → bytes s < bytes t := by
    intro s t h
    rw [bytes_eq, bytes_eq]
    exact flatMap_encoded_lt (String.lt_iff_toList_lt.mp h)
  refine ⟨fun h => ?_, hmono⟩
  rcases lt_trichotomy s t with hlt | rfl | hlt
  · exact hlt
  · exact absurd h (List.lt_irrefl _)
  · exact absurd h (List.lt_asymm (hmono hlt))

end DocSearch.Text
