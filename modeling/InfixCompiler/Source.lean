import InfixCompiler.Text

/-!
# Source text

A source is a text and the path that names it in messages. The path is kept as it was given and
never looked at.
-/

namespace InfixCompiler

/-- A text with the path it is known by. -/
structure Source where
  /-- The text itself. -/
  contents : String
  /-- What messages call it. -/
  path : String
deriving DecidableEq

/-- Why the bytes behind a path are no source. -/
inductive ReadFault where
  /-- Nothing has this path. -/
  | notFound
  /-- A directory has this path. -/
  | isDirectory
  /-- The bytes are not UTF-8. -/
  | notText
  /-- The bytes can not be had for another reason. -/
  | unreadable
deriving DecidableEq

namespace Source

/-- A text that came from no file. -/
def ofString (contents : String) : Source := ⟨contents, "./source"⟩

/-- The source whose UTF-8 form is `bytes`. -/
def ofBytes (path : String) (bytes : ByteArray) : Except ReadFault Source :=
  match String.fromUTF8? bytes with
  | some contents => .ok ⟨contents, path⟩
  | none => .error .notText

variable (s : Source)

/-- The characters of the text. -/
def chars : List Char := s.contents.toList

/-- The number of bytes of the text. -/
def size : Nat := Text.byteLength s.chars

/-- Whether there is no text. -/
def isEmpty : Bool := s.chars.isEmpty

end Source

end InfixCompiler
