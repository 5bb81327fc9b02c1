import Schemata.Json.Token

/-!
# Schemata — Store — Opening

What the parameters of a location say about opening a store. Of those that state the file system the
last counts, of those that state a yes or a no and of those that name a model file the first; how
the store is accessed may only be narrowed. Parameters of other names count for nothing.
-/

namespace Schemata

/-- How a store in a file is opened: for reading, for writing too, or for writing and made if it is
missing. -/
inductive Access where
  | reading
  | writing
  | making
deriving DecidableEq, Repr

/-- What a store's file is reached through. All but the last keep it in the file: as all others do,
for one process only, without any lock, or with a lock that is a directory beside it. -/
inductive FileSystem where
  | standard
  | exclusive
  | lockless
  | dotted
  | memory
deriving DecidableEq, Repr

/-- What parameters say: how the store is accessed, where none means that it is kept in memory;
whether its cache is shared; the file system, if there is one of the name; whether its file is said
not to change, whether it is opened without locks, and the file whose mode a new one takes. -/
structure Opening where
  access : Option Access := some .making
  shared : Bool := false
  system : Option FileSystem := some .standard
  fixed : Option Bool := none
  lockless : Option Bool := none
  model : Option (List UInt8) := none
deriving DecidableEq, Repr

namespace Access

/-- How much an access allows. -/
def rank : Access → Nat
  | .reading => 0
  | .writing => 1
  | .making  => 2

/-- The access that a mode stands for; none is for a store in memory. -/
def ofMode? : String → Option (Option Access)
  | "ro"     => some (some .reading)
  | "rw"     => some (some .writing)
  | "rwc"    => some (some .making)
  | "memory" => some none
  | _        => none

/-- Whether an access may follow on another: none gives back what an earlier one took. -/
def allows : Option Access → Option Access → Bool
  | some now, some next => next.rank ≤ now.rank
  | _, _                => true

end Access

namespace FileSystem

/-- The file system of a name. -/
def ofName? : String → Option FileSystem
  | "unix"         => some .standard
  | "unix-excl"    => some .exclusive
  | "unix-none"    => some .lockless
  | "unix-dotfile" => some .dotted
  | "memdb"        => some .memory
  | _              => none

end FileSystem

namespace Opening

open Scanner (hexValue?)

/-- The value of the hexadecimal digits that a text begins with. -/
def hexNumber (text : List Char) : Nat :=
  (((text.map hexValue?).takeWhile Option.isSome).filterMap id).foldl (fun n d => 16 * n + d) 0

/-- The number a text begins with, in decimal digits or, after `0x`, in hexadecimal ones. What does
not fit in 32 bits with a sign counts as zero. -/
def number (text : List Char) : Nat :=
  let n := match text with
    | '0' :: x :: digit :: rest =>
      if x.toLower = 'x' ∧ (hexValue? digit).isSome then hexNumber (digit :: rest)
      else Nat.ofDigitChars 10 (text.takeWhile Char.isDigit) 0
    | _ => Nat.ofDigitChars 10 (text.takeWhile Char.isDigit) 0
  if n < 2147483648 then n else 0

/-- Whether the value of a parameter is for yes: a word for it, or a number whose last eight bits
are not all zero. -/
def isYes (value : String) : Bool :=
  if (value.toList.head?.map Char.isDigit).getD false then number value.toList % 256 ≠ 0
  else value.toLower ∈ ["yes", "true", "on"]

/-- Bytes as a text of as many characters. -/
def wide (bytes : List UInt8) : String := String.ofList (bytes.map fun b => Char.ofNat b.toNat)

/-- What parameters say with one more. -/
def take? (o : Opening) (parameter : List UInt8 × List UInt8) : Option Opening :=
  let value := wide parameter.2
  match wide parameter.1 with
  | "mode" =>
    match Access.ofMode? value with
    | some access => if Access.allows o.access access then some { o with access } else none
    | none        => none
  | "cache" =>
    if value ∈ ["shared", "private"] then some { o with shared := value = "shared" } else none
  | "vfs"       => some { o with system := FileSystem.ofName? value }
  | "immutable" => some { o with fixed := o.fixed <|> some (isYes value) }
  | "nolock"    => some { o with lockless := o.lockless <|> some (isYes value) }
  | "modeof"    => some { o with model := o.model <|> some parameter.2 }
  | _           => some o

end Opening

end Schemata
