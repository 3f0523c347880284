/-!
# Text as octets

Text travels as UTF-8. Both directions are those of the core library, over lists of octets.
-/

namespace ContainerFeed.Text

/-- The UTF-8 octets of a text. -/
def toOctets (text : String) : List UInt8 :=
  text.toUTF8.data.toList

/-- The text that the octets spell, when they are well-formed UTF-8. -/
def ofOctets? (octets : List UInt8) : Option String :=
  String.fromUTF8? ⟨octets.toArray⟩

/-- A text is read back from its octets. -/
theorem ofOctets?_toOctets (text : String) : ofOctets? (toOctets text) = some text := by
  have h : text.toByteArray.IsValidUTF8 := text.isValidUTF8
  simp [ofOctets?, toOctets, String.toUTF8, String.fromUTF8?, String.fromUTF8, h]

/-- Only the octets of a text spell it. -/
theorem toOctets_of_ofOctets? {octets : List UInt8} {text : String}
    (h : ofOctets? octets = some text) : toOctets text = octets := by
  unfold ofOctets? String.fromUTF8? at h
  split at h
  · cases h
    simp [toOctets, String.toUTF8, String.fromUTF8]
  · simp at h

end ContainerFeed.Text
