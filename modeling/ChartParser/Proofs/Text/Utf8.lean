import ChartParser.Text.Utf8
import Mathlib.Data.List.Basic

/-! # One-byte characters

The bytes of a text are those of its characters, one character after another. A byte below 128 is
always a whole character, so line ends may be looked for in the bytes. -/

namespace ChartParser.Text

variable {s : String} {b : UInt8} {c : Char}

theorem encodeUtf8_eq_flatMap (s : String) :
    encodeUtf8 s = s.toList.flatMap String.utf8EncodeChar := by
  rw [encodeUtf8, ← String.utf8Encode_toList, List.utf8Encode, List.toList_data_toByteArray]

theorem encodeUtf8_append (s t : String) : encodeUtf8 (s ++ t) = encodeUtf8 s ++ encodeUtf8 t := by
  simp [encodeUtf8_eq_flatMap]

private theorem toNat_of_mem_utf8EncodeChar (hb : b.toNat < 128) (h : b ∈ String.utf8EncodeChar c) :
    c.toNat = b.toNat := by
  change c.val.toNat = b.toNat
  unfold String.utf8EncodeChar at h
  simp only at h
  split at h
  · next hsmall =>
    rw [List.mem_singleton.mp h, UInt8.toNat_ofNat']
    omega
  · -- all bytes of a longer character are at least 128
    exfalso
    split at h
    · simp only [List.mem_cons, List.not_mem_nil, or_false, ← UInt8.toNat_inj,
        UInt8.toNat_ofNat'] at h
      omega
    split at h
    all_goals
      simp only [List.mem_cons, List.not_mem_nil, or_false, ← UInt8.toNat_inj,
        UInt8.toNat_ofNat'] at h
      omega

/-- A byte below 128 is the whole character. -/
theorem eq_of_mem_utf8EncodeChar {d : Char} (hc : c.toNat < 128)
    (h : UInt8.ofNat c.toNat ∈ String.utf8EncodeChar d) : d = c := by
  have hb : (UInt8.ofNat c.toNat).toNat = c.toNat := by
    rw [UInt8.toNat_ofNat']
    omega
  have hcode := toNat_of_mem_utf8EncodeChar (by omega) h
  rw [hb] at hcode
  exact Char.toNat_inj.mp hcode

/-- A one-byte character is found in the bytes of a text only if the text has it. -/
theorem mem_of_mem_encodeUtf8 (hc : c.toNat < 128) (h : UInt8.ofNat c.toNat ∈ encodeUtf8 s) :
    c ∈ s.toList := by
  rw [encodeUtf8_eq_flatMap] at h
  obtain ⟨d, hd, hmem⟩ := List.mem_flatMap.mp h
  rwa [← eq_of_mem_utf8EncodeChar hc hmem]

/-- The last byte of a text is a one-byte character only if the last character is. -/
theorem getLast?_of_getLast?_encodeUtf8 (hc : c.toNat < 128)
    (h : (encodeUtf8 s).getLast? = some (UInt8.ofNat c.toNat)) : s.toList.getLast? = some c := by
  rcases List.eq_nil_or_concat s.toList with hnil | ⟨initial, d, hlast⟩
  · simp [encodeUtf8_eq_flatMap, hnil] at h
  · rw [encodeUtf8_eq_flatMap, hlast, List.concat_eq_append, List.flatMap_append,
      List.flatMap_singleton, List.getLast?_append_of_ne_nil _ String.utf8EncodeChar_ne_nil] at h
    obtain rfl := eq_of_mem_utf8EncodeChar hc (List.mem_of_getLast? h)
    rw [hlast, List.concat_eq_append, List.getLast?_concat]

end ChartParser.Text
