/-!
# Schemata — FileTree — Name

Names of files. A name is made of bytes, and most often they are a text, which then stands for the
name. Bytes that are no text are written in hexadecimal digits after a slash; no name of text has a
slash, so the two kinds are never taken for each other.
-/

namespace Schemata

/-- The greatest number of bytes in a name. -/
def longestName : Nat := 255

/-- The byte between the names of a path. -/
def slash : UInt8 := '/'.toUInt8

namespace FileName

/-- What stands before the digits of a name that is no text. -/
def mark : Char := '/'

/-- The hexadecimal digits of a byte. -/
def digits (byte : UInt8) : List Char :=
  [Nat.digitChar (byte.toNat / 16), Nat.digitChar (byte.toNat % 16)]

/-- The value of a hexadecimal digit. -/
def digitValue (c : Char) : Nat :=
  if c.isDigit then c.toNat - '0'.toNat else c.toNat - 'a'.toNat + 10

/-- The bytes of hexadecimal digits. -/
def ofDigits : List Char → List UInt8
  | high :: low :: rest => UInt8.ofNat (16 * digitValue high + digitValue low) :: ofDigits rest
  | _ => []

/-- The name of bytes. -/
def ofBytes (bytes : List UInt8) : String :=
  (String.fromUTF8? ⟨bytes.toArray⟩).getD (String.ofList (mark :: bytes.flatMap digits))

/-- Whether a name is a text. -/
def isText (name : String) : Bool := name.toList.head? ≠ some mark

/-- The bytes of a name. -/
def bytes (name : String) : List UInt8 :=
  if isText name then name.toUTF8.toList else ofDigits (name.toList.drop 1)

/-- The number of bytes in a name. -/
def size (name : String) : Nat := (bytes name).length

/-- The name with more at its end. -/
def extend (name ending : String) : String :=
  if isText name then name ++ ending
  else name ++ String.ofList (ending.toUTF8.toList.flatMap digits)

/-- Bytes cut at each slash. -/
def cut (bytes : List UInt8) : List (List UInt8) :=
  bytes.foldr (fun b pieces =>
    if b = slash then [] :: pieces
    else match pieces with
      | []             => [[b]]
      | piece :: later => (b :: piece) :: later) [[]]

/-- The names that a path of bytes leads through. -/
def namesOf (bytes : List UInt8) : List String := (cut bytes).map ofBytes

end FileName
end Schemata
