/-! Texts as bytes in UTF-8. Bytes decode to a text exactly when they are its encoding, so no text
has two encodings and the bytes of no text are refused. -/

namespace ChartParser.Text

/-- The bytes of a text. -/
def encodeUtf8 (s : String) : List UInt8 := s.toByteArray.data.toList

/-- The text that bytes encode, if they encode any. -/
def decodeUtf8 (bytes : List UInt8) : Option String := String.fromUTF8? bytes.toByteArray

theorem toByteArray_encodeUtf8 (s : String) : (encodeUtf8 s).toByteArray = s.toByteArray := by
  apply ByteArray.ext
  simp [encodeUtf8]

theorem decodeUtf8_eq_some_iff {bytes : List UInt8} {s : String} :
    decodeUtf8 bytes = some s ↔ bytes = encodeUtf8 s := by
  unfold decodeUtf8 String.fromUTF8?
  constructor
  · intro h
    split at h
    · cases h
      simp [encodeUtf8, String.fromUTF8]
    · contradiction
  · rintro rfl
    have hv : (encodeUtf8 s).toByteArray.IsValidUTF8 := by
      rw [toByteArray_encodeUtf8]
      exact s.isValidUTF8
    rw [dif_pos hv]
    congr 1
    apply String.toByteArray_inj.1
    exact toByteArray_encodeUtf8 s

end ChartParser.Text
