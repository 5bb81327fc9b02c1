import Schemata.Glob.Basic

/-!
# Schemata — Glob — Parser

Reading a pattern. A pattern is read twice: as a whole, where a bracket may hold a slash, and
component by component, where it may not; so a fault is reported at a position in the whole pattern,
or in a component if the whole has none.
-/

namespace Schemata

namespace Glob

/-- What is wrong with a pattern. -/
inductive Fault where
  | stars
  | directories
  | range
deriving DecidableEq, Repr

/-- A fault and the number of characters before it. -/
structure FaultAt where
  position : Nat
  fault : Fault
deriving DecidableEq, Repr

/-- The wording of a fault. -/
def Fault.message : Fault → String
  | .stars       => "wildcards are either regular `*` or recursive `**`"
  | .directories => "recursive wildcards must form a single path component"
  | .range       => "invalid range pattern"

/-- The wording of a fault at its position. -/
def FaultAt.message (e : FaultAt) : String :=
  "Pattern syntax error near position " ++ toString e.position ++ ": " ++ e.fault.message

/-- The ranges between brackets: pairs of characters joined by a hyphen, and single characters. -/
def ranges : List Char → List CharRange
  | a :: '-' :: b :: rest => ⟨a, b⟩ :: ranges rest
  | a :: rest             => ⟨a, a⟩ :: ranges rest
  | []                    => []

/-- What stands before the first closing bracket, and what after it. -/
def untilBracket : List Char → Option (List Char × List Char)
  | []          => none
  | ']' :: rest => some ([], rest)
  | c :: rest   => (untilBracket rest).map fun (inside, after) => (c :: inside, after)

/-- The token of a bracket that was just opened, and what comes after it. The first character inside
is never the closing bracket. -/
def bracket? : List Char → Option (Token × List Char)
  | '!' :: c :: rest =>
    (untilBracket rest).map fun (inside, after) => (.outside (ranges (c :: inside)), after)
  | '!' :: [] => none
  | c :: rest =>
    (untilBracket rest).map fun (inside, after) => (.within (ranges (c :: inside)), after)
  | [] => none

/-- Where a token stands: after how many characters, and whether at the start of a component. -/
structure Spot where
  position : Nat
  atStart : Bool

/-- The token that starts with a character, and what comes after it. `**` takes the slash that ends
it. -/
def token? (spot : Spot) : Char → List Char → Except FaultAt (Token × List Char)
  | '?', rest => .ok (.anyChar, rest)
  | '[', rest =>
    match bracket? rest with
    | some found => .ok found
    | none       => .error ⟨spot.position, .range⟩
  | '*', '*' :: '*' :: _ => .error ⟨spot.position + 2, .stars⟩
  | '*', '*' :: rest =>
    if !spot.atStart then .error ⟨spot.position - 1, .directories⟩
    else match rest with
      | []          => .ok (.directories, [])
      | '/' :: rest => .ok (.directories, rest)
      | _           => .error ⟨spot.position + 2, .directories⟩
  | '*', rest => .ok (.anyText, rest)
  | c, rest   => .ok (.literal c, rest)

theorem untilBracket_length {text inside after : List Char}
    (h : untilBracket text = some (inside, after)) : after.length ≤ text.length := by
  fun_induction untilBracket text generalizing inside after with
  | case1 => cases h
  | case2 rest => cases h; simp
  | case3 c rest _ ih =>
    obtain ⟨⟨i, a⟩, hu, he⟩ := Option.map_eq_some_iff.1 h
    cases he
    exact Nat.le_trans (ih hu) (by simp)

theorem bracket?_length {text after : List Char} {t : Token}
    (h : bracket? text = some (t, after)) : after.length ≤ text.length := by
  unfold bracket? at h
  split at h
  · obtain ⟨⟨i, a⟩, hu, he⟩ := Option.map_eq_some_iff.1 h
    cases he
    have := untilBracket_length hu
    simp only [List.length_cons]; omega
  · cases h
  · obtain ⟨⟨i, a⟩, hu, he⟩ := Option.map_eq_some_iff.1 h
    cases he
    have := untilBracket_length hu
    simp only [List.length_cons]; omega
  · cases h

/-- What comes after a token is shorter than the text it starts. -/
theorem token?_length {spot : Spot} {c : Char} {rest after : List Char} {t : Token}
    (h : token? spot c rest = .ok (t, after)) : after.length ≤ rest.length := by
  unfold token? at h
  split at h
  · cases h; exact Nat.le_refl _
  · split at h
    · rename_i found hb
      cases h
      exact bracket?_length hb
    · cases h
  · cases h
  · split at h
    · cases h
    · split at h
      · cases h; simp
      · cases h; simp; omega
      · cases h
  · cases h; exact Nat.le_refl _
  · cases h; exact Nat.le_refl _

/-- The tokens of a text. -/
def tokens? (spot : Spot) : List Char → Except FaultAt (List Token)
  | []        => .ok []
  | c :: rest =>
    match _h : token? spot c rest with
    | .error e       => .error e
    | .ok (t, after) =>
      let next : Spot :=
        { position := spot.position + (rest.length + 1 - after.length)
          atStart := t = .literal '/' ∨ t = .directories }
      (tokens? next after).map (t :: ·)
termination_by text => text.length
decreasing_by
  have := token?_length _h
  simp only [List.length_cons]; omega

/-- The tokens of a text that starts a component. -/
def read? (text : List Char) : Except FaultAt (List Token) := tokens? ⟨0, true⟩ text

/-- The components of a pattern as text; a slash at the end ends the last one. -/
def componentTexts (pattern : List Char) : List (List Char) :=
  let texts := piecesAt '/' pattern
  if texts.getLast? = some [] then texts.dropLast else texts

/-- Reads a pattern. -/
def parse (pattern : String) : Except FaultAt Glob := do
  let _ ← read? pattern.toList
  (componentTexts pattern.toList).mapM fun text => (read? text).map Component.ofTokens

end Glob

end Schemata
