import SealedMail.Bytes.Basic

/-!
# Text as bytes

The UTF-8 encoding of a string and the string that a byte string encodes, if it is well formed.
-/

namespace SealedMail.Bytes

/-- The UTF-8 encoding of a string. -/
def ofText (text : String) : Bytes := text.toUTF8.data.toList

/-- The string with the given UTF-8 encoding. -/
def toText? (bytes : Bytes) : Option String := String.fromUTF8? ⟨bytes.toArray⟩

@[simp] theorem length_ofText (text : String) : (ofText text).length = text.utf8ByteSize := rfl

theorem toText?_ofText (text : String) : toText? (ofText text) = some text := by
  simp [toText?, ofText, String.fromUTF8?, text.isValidUTF8, String.fromUTF8]

theorem ofText_injective {a b : String} (h : ofText a = ofText b) : a = b := by
  have same := congrArg toText? h
  rw [toText?_ofText, toText?_ofText] at same
  exact Option.some.inj same

theorem ofText_of_toText? {bytes : Bytes} {text : String} (h : toText? bytes = some text) :
    ofText text = bytes := by
  simp only [toText?, String.fromUTF8?] at h
  split at h
  · cases h; rfl
  · cases h

end SealedMail.Bytes
