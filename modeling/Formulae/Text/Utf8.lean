namespace Formulae.Text

/-- The offset after all characters that are well-formed, counted from `offset` on. -/
def wellFormedEnd (bytes : ByteArray) (offset : Nat) : Nat :=
  match _h : bytes.utf8DecodeChar? offset with
  | some c => wellFormedEnd bytes (offset + c.utf8Size)
  | none => offset
termination_by bytes.size - offset
decreasing_by
  have := ByteArray.le_size_of_utf8DecodeChar?_eq_some ‹_›
  have := c.utf8Size_pos
  omega

def decodeUtf8 (bytes : ByteArray) : Except Nat String :=
  match String.fromUTF8? bytes with
  | some text => .ok text
  | none => .error (wellFormedEnd bytes 0)

end Formulae.Text
