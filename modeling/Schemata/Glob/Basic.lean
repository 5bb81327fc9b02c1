import Schemata.Path

/-!
# Schemata — Glob — Basic

Patterns for paths. A component of a pattern is made of tokens that match the characters of one
name, `*` any number of them; the component `**` stands for any number of directories. A leading dot
of a name is a character like any other.
-/

namespace Schemata

namespace Glob

/-- The characters between two, ends included. -/
structure CharRange where
  first : Char
  last : Char
deriving DecidableEq, Repr

/-- A part of a component. -/
inductive Token where
  | literal (c : Char)
  | anyChar
  | anyText
  | within (ranges : List CharRange)
  | outside (ranges : List CharRange)
  | directories
deriving DecidableEq, Repr

/-- A component: any number of directories, or one name. -/
inductive Component where
  | directories
  | name (tokens : List Token)
deriving DecidableEq, Repr

/-- Whether a character is between the ends. -/
def CharRange.contains (r : CharRange) (c : Char) : Bool := r.first ≤ c && c ≤ r.last

namespace Token

/-- Whether a token matches a single character. -/
def accepts : Token → Char → Bool
  | .literal d, c      => c = d
  | .anyChar, _        => true
  | .within ranges, c  => ranges.any (·.contains c)
  | .outside ranges, c => !ranges.any (·.contains c)
  | .anyText, _        => false
  | .directories, _    => false

/-- Whether some tail of a text passes a test. -/
def someTail (test : List Char → Bool) : List Char → Bool
  | []        => test []
  | c :: rest => test (c :: rest) || someTail test rest

/-- Whether tokens match the whole of a text. -/
def matchesText : List Token → List Char → Bool
  | [], text                     => text.isEmpty
  | .anyText :: rest, text       => someTail (matchesText rest) text
  | .directories :: rest, text   => someTail (matchesText rest) text
  | _ :: _, []                   => false
  | t :: rest, c :: text         => t.accepts c && matchesText rest text

/-- The character of a literal token. -/
def literal? : Token → Option Char
  | .literal c => some c
  | _          => none

/-- The text of tokens that are all literal. -/
def text? (tokens : List Token) : Option String := (tokens.mapM literal?).map String.ofList

/-- For each tail of a text, the longest first: whether the token takes its first character and a
test of the tail after it holds. The tests of the tails are given in the same order. -/
def afterOne (t : Token) : List Char → List Bool → List Bool
  | [], _                => [false]
  | c :: text, _ :: test => (t.accepts c && test.headD false) :: afterOne t text test
  | _ :: _, []           => []

/-- For each place of a list: whether it or a later one is true. -/
def fromHere : List Bool → List Bool
  | []        => []
  | b :: rest =>
    let later := fromHere rest
    (b || later.headD false) :: later

/-- For each tail of a text, the longest first: whether tokens match all of it. Each token is met
once a tail, so the work is bounded however many wildcards there are. -/
def matchedTails : List Token → List Char → List Bool
  | [], text                   => text.map (fun _ => false) ++ [true]
  | .anyText :: rest, text     => fromHere (matchedTails rest text)
  | .directories :: rest, text => fromHere (matchedTails rest text)
  | t :: rest, text            => afterOne t text (matchedTails rest text)

/-- A test of each tail of a text, the longest first. -/
def onTails (test : List Char → Bool) : List Char → List Bool
  | []        => [test []]
  | c :: text => test (c :: text) :: onTails test text

theorem head?_onTails (test : List Char → Bool) (text : List Char) :
    (onTails test text).head? = some (test text) := by
  cases text <;> rfl

theorem fromHere_onTails (test : List Char → Bool) (text : List Char) :
    fromHere (onTails test text) = onTails (someTail test) text := by
  induction text with
  | nil => simp [onTails, fromHere, someTail]
  | cons c text ih => simp [onTails, fromHere, someTail, ih, head?_onTails]

theorem matchedTails_eq_onTails (tokens : List Token) (text : List Char) :
    matchedTails tokens text = onTails (matchesText tokens) text := by
  induction tokens with
  | nil =>
    induction text with
    | nil => rfl
    | cons c text ih => simp_all [matchedTails, onTails, matchesText]
  | cons t rest ih =>
    have one (h₁ : t ≠ .anyText) (h₂ : t ≠ .directories) :
        afterOne t text (onTails (matchesText rest) text) =
          onTails (matchesText (t :: rest)) text := by
      clear ih
      induction text with
      | nil => cases t <;> simp_all [onTails, afterOne, matchesText]
      | cons c text ih =>
        cases t <;> simp_all [onTails, afterOne, matchesText, head?_onTails]
    have any : onTails (someTail (matchesText rest)) text =
        onTails (matchesText (.anyText :: rest)) text := by
      induction text <;> simp_all [onTails, matchesText]
    have all : onTails (someTail (matchesText rest)) text =
        onTails (matchesText (.directories :: rest)) text := by
      induction text <;> simp_all [onTails, matchesText]
    cases t with
    | anyText => rw [matchedTails, ih, fromHere_onTails, any]
    | directories => rw [matchedTails, ih, fromHere_onTails, all]
    | literal c => rw [matchedTails, ih, one] <;> simp
    | anyChar => rw [matchedTails, ih, one] <;> simp
    | within ranges => rw [matchedTails, ih, one] <;> simp
    | outside ranges => rw [matchedTails, ih, one] <;> simp

/-- Whether tokens match a name. A name that is no text is matched by none. -/
def matchesName (tokens : List Token) (name : String) : Bool :=
  FileName.isText name && (matchedTails tokens name.toList).headD false

theorem matchesName_eq (tokens : List Token) (name : String) :
    matchesName tokens name = (FileName.isText name && matchesText tokens name.toList) := by
  simp [matchesName, matchedTails_eq_onTails, head?_onTails]

end Token

/-- The component that tokens make. -/
def Component.ofTokens (tokens : List Token) : Component :=
  if tokens.contains .directories then .directories else .name tokens

end Glob

/-- A pattern: its components. -/
abbrev Glob := List Glob.Component

end Schemata
