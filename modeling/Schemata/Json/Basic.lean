import Schemata.Number.Literal

/-!
# Schemata — Json — Basic

JSON as a tree. Objects keep their members in the order of the text, repeated keys included.
`unreadable` stands for text that is well formed and has no value: a number above the largest float,
a string with half of a surrogate pair, an object with such a key. It can be skipped, never read.
-/

namespace Schemata

/-- A JSON value. -/
inductive Json where
  | null
  | bool (value : Bool)
  | number (value : Number)
  | string (value : String)
  | array (items : List Json)
  | object (members : List (String × Json))
  | unreadable
deriving Repr, Inhabited

namespace Json

mutual
/-- How many containers are open at once in the text of a value. -/
def depth : Json → Nat
  | .array items    => itemsDepth items + 1
  | .object members => membersDepth members + 1
  | _               => 0
/-- The greatest depth of a list of items. -/
def itemsDepth : List Json → Nat
  | []        => 0
  | j :: rest => max j.depth (itemsDepth rest)
/-- The greatest depth of a list of members. -/
def membersDepth : List (String × Json) → Nat
  | []             => 0
  | (_, j) :: rest => max j.depth (membersDepth rest)
end

mutual
/-- Nothing in the value is unreadable. -/
def readable : Json → Bool
  | .unreadable     => false
  | .array items    => itemsReadable items
  | .object members => membersReadable members
  | _               => true
/-- Every item is readable. -/
def itemsReadable : List Json → Bool
  | []        => true
  | j :: rest => j.readable && itemsReadable rest
/-- The value of every member is readable. -/
def membersReadable : List (String × Json) → Bool
  | []             => true
  | (_, j) :: rest => j.readable && membersReadable rest
end

/-- The values given for a key, in order. -/
def valuesOf (members : List (String × Json)) (key : String) : List Json :=
  (members.filter (·.1 = key)).map Prod.snd

end Json

end Schemata
