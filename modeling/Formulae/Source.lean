import Formulae.Diagnostic
import Formulae.Text.Utf8

namespace Formulae

/-- Bytes in memory, of which any number can be asked for, or pieces that come as they are, whatever
size is asked for. -/
inductive Source
  | memory (bytes : List UInt8)
  | pieces (list : List (List UInt8))

namespace Source

def cut (size : Nat) : List UInt8 → List (List UInt8)
  | [] => []
  | b :: bs => (b :: bs.take size) :: cut size (bs.drop size)
termination_by bs => bs.length
decreasing_by simp only [List.length_cons, List.length_drop]; omega

/-- The pieces before the first empty one, if `size` bytes are asked for each time. Less than none
asks for all. -/
def deliveries (size : Int) : Source → List (List UInt8)
  | .memory bytes =>
    if size = 0 ∨ bytes = [] then []
    else if size < 0 then [bytes]
    else cut (size.toNat - 1) bytes
  | .pieces list => list.takeWhile (· ≠ [])

def bytes (size : Int) (source : Source) : List UInt8 := (source.deliveries size).flatten

def requests (size : Int) (source : Source) : Nat := (source.deliveries size).length + 1

end Source

structure ReadError where
  offset : Nat
  bytes : List UInt8

def ReadError.toDiagnostic (e : ReadError) : Diagnostic where
  kind := .read
  message := s!"Input is not valid UTF-8 at byte {e.offset}"
  received := s!"Bytes: {Text.quotedBytes (e.bytes.take 4)}"
  expected := "UTF-8 encoded text"
  suggestion := "Save the formula as UTF-8"

/-- The text of bytes in UTF-8. A byte order mark is part of it. -/
def decode (bytes : List UInt8) : Except ReadError String :=
  match Text.decodeUtf8 bytes.toByteArray with
  | .ok text => .ok text
  | .error offset => .error ⟨offset, bytes.drop offset⟩

namespace Source

def defaultSize : Int := 1000

def read (size : Int) (source : Source) : Except ReadError String := decode (source.bytes size)

end Source

end Formulae
