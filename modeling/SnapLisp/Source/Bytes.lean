/-!
# Texts as bytes

Source texts are read byte by byte. `utf8` gives the bytes of a text; `ofAscii` gives the text of
bytes that are ASCII characters, which is all that a lexeme can hold.
-/

namespace SnapLisp.Bytes

/-- The UTF-8 bytes of a text. -/
def utf8 (text : String) : List UInt8 := text.toUTF8.data.toList

/-- The text whose characters have the given bytes as their code points. -/
def ofAscii (bytes : List UInt8) : String := String.ofList (bytes.map (Char.ofNat ·.toNat))

/-- The text that the bytes are the UTF-8 form of, if they are one. -/
def decode? (bytes : List UInt8) : Option String := String.fromUTF8? ⟨bytes.toArray⟩

end SnapLisp.Bytes
