import Schemata.Json.Parser
import Schemata.Proofs.Json.Numbers
import Schemata.Proofs.Json.Scanning

/-!
# Schemata — Proofs — Json — Parsing

What is read from the text of a readable tree: the tree itself, but for its floats, each of which is
what its text is read as (`Json.parse?_render`).  The tokens of a value take the parser from where
it waits for a value to where the value is complete, whatever containers stand around it
(`Parser.Parses`); those of a container do so if those of its contents do.  Where the floats of
texts are read as the numbers nearest to them a tree is read back as it is, so its text tells which
it is (`Json.eq_of_render_eq`).
-/

namespace Schemata

namespace Parser

variable {float : Literal → Option Binary64}

/-- From where a value is awaited tokens lead to where it is complete, and they start with no end
of an array. -/
structure Parses (float : Literal → Option Binary64) (tokens : List Token) (j : Json) :
    Prop where
  reads : ∀ stack, tokens.foldlM (step float) ⟨.value, stack⟩ = some ⟨.next j, stack⟩
  starts : ∃ t rest, tokens = t :: rest ∧ t ≠ .closeBracket

/-- The tokens of a member: its key, a colon and those of its value. -/
def ParsesMember (float : Literal → Option Binary64) (tokens : List Token) (m : String × Json) :
    Prop :=
  ∃ value, tokens = .text (some m.1) :: .colon :: value ∧ Parses float value m.2

theorem Parses.word {chars : List Char} {j : Json} (h : wordValue? float chars = some j) :
    Parses float [.word chars] j :=
  ⟨fun _ => by simp [step, beginValue?, h], _, _, rfl, nofun⟩

theorem Parses.text (s : String) : Parses float [.text (some s)] (.string s) :=
  ⟨fun _ => rfl, _, _, rfl, nofun⟩

theorem Parses.null : Parses float [.word ['n', 'u', 'l', 'l']] .null :=
  .word (by simp [wordValue?])

theorem Parses.bool (b : Bool) : Parses float [.word (Json.bool b).chars] (.bool b) := by
  cases b <;> exact .word (by simp [wordValue?, Json.chars])

/-- The text of a number stands for what it is read as. -/
theorem Parses.number (n : Number) :
    Parses float [.word n.text] (Json.ofNumber? (n.readBy? float)) := by
  have hvalue := n.ofLiteralBy?_text float
  -- none of the three names is a literal
  have hname : ∀ name, Literal.ofChars? name = none → n.text ≠ name := by
    rintro name hnone rfl
    rw [Number.ofLiteralBy?, hnone] at hvalue
    cases hvalue
  refine .word ?_
  rw [wordValue?, if_neg (hname _ (by decide)), if_neg (hname _ (by decide)),
    if_neg (hname _ (by decide)), hvalue]
  cases n.readBy? float <;> rfl

/-! ### Arrays -/

/-- Items up to the end of their array. -/
theorem foldlM_items {tokens : List (List Token)} {items : List Json}
    (h : List.Forall₂ (Parses float) tokens items) (hne : items ≠ []) (before : List Json)
    (stack : List Frame) :
    ([Token.comma].intercalate tokens ++ [Token.closeBracket]).foldlM (step float)
        ⟨.value, .items before :: stack⟩
      = some ⟨.next (.array (before.reverse ++ items)), stack⟩ := by
  induction h generalizing before with
  | nil => exact absurd rfl hne
  | @cons first j rest more hfirst hrest ih =>
      cases hrest with
      | nil =>
          rw [List.intercalate_singleton, List.foldlM_append, hfirst.reads]
          simp [step]
      | @cons second k _ _ hsecond hmore =>
          rw [List.intercalate_cons_cons, List.append_assoc, List.append_assoc,
            List.foldlM_append, hfirst.reads]
          -- the comma puts the first item behind those before it
          have h := ih (by simp) (j :: before)
          simpa [step] using h

/-- Where an array may still be empty its first item is read as any other. -/
theorem foldlM_firstItem {t : Token} (ht : t ≠ .closeBracket) (rest : List Token)
    (stack : List Frame) :
    (t :: rest).foldlM (step float) ⟨.firstItem, stack⟩
      = (t :: rest).foldlM (step float) ⟨.value, .items [] :: stack⟩ := by
  rw [List.foldlM_cons, List.foldlM_cons]
  congr 1
  cases t <;> first | rfl | exact absurd rfl ht

theorem Parses.array {tokens : List (List Token)} {items : List Json}
    (h : List.Forall₂ (Parses float) tokens items) :
    Parses float (.openBracket :: [Token.comma].intercalate tokens ++ [.closeBracket])
      (.array items) := by
  refine ⟨fun stack => ?_, _, _, rfl, nofun⟩
  cases h with
  | nil => rfl
  | @cons first j rest more hfirst hrest =>
      -- the first token settles whether the array is empty, and it does not end it
      obtain ⟨t, ts, rfl, ht⟩ := hfirst.starts
      have hitems := foldlM_items (.cons hfirst hrest) (by simp) [] stack
      obtain ⟨ts', hts'⟩ : ∃ ts', [Token.comma].intercalate ((t :: ts) :: rest) = t :: ts' := by
        cases rest with
        | nil => exact ⟨ts, List.intercalate_singleton⟩
        | cons second more => exact ⟨_, by rw [List.intercalate_cons_cons]; rfl⟩
      rw [hts'] at hitems ⊢
      rw [List.cons_append, List.foldlM_cons]
      exact (foldlM_firstItem ht _ stack).trans hitems

/-! ### Objects -/

/-- Members as they are kept while their object is read. -/
def keyed (members : List (String × Json)) : List (Option String × Json) :=
  members.map fun m => (some m.1, m.2)

theorem objectValue_keyed (members : List (String × Json)) :
    objectValue (keyed members) = .object members := by
  have hkeys : (keyed members).mapM (fun m => m.1.map (·, m.2)) = some members := by
    induction members with
    | nil => rfl
    | cons m rest ih => simp_all [keyed]
  rw [objectValue, hkeys]

/-- Members up to the end of their object. -/
theorem foldlM_members {tokens : List (List Token)} {members : List (String × Json)}
    (h : List.Forall₂ (ParsesMember float) tokens members) (hne : members ≠ [])
    (before : List (String × Json)) (first : Bool) (stack : List Frame) :
    ([Token.comma].intercalate tokens ++ [Token.closeBrace]).foldlM (step float)
        ⟨.key (keyed before) first, stack⟩
      = some ⟨.next (.object (before.reverse ++ members)), stack⟩ := by
  induction h generalizing before first with
  | nil => exact absurd rfl hne
  | @cons _ m rest more hfirst hrest ih =>
      obtain ⟨value, rfl, hvalue⟩ := hfirst
      have hread : (Token.text (some m.1) :: .colon :: value).foldlM (step float)
          ⟨.key (keyed before) first, stack⟩
            = some ⟨.next m.2, .members (keyed before) (some m.1) :: stack⟩ :=
        hvalue.reads (.members (keyed before) (some m.1) :: stack)
      cases hrest with
      | nil =>
          have hend := objectValue_keyed (before.reverse ++ [m])
          rw [List.intercalate_singleton, List.foldlM_append, hread]
          simpa [step, keyed] using hend
      | @cons second k _ _ hsecond hmore =>
          rw [List.intercalate_cons_cons, List.append_assoc, List.append_assoc,
            List.foldlM_append, hread]
          have h := ih (by simp) (m :: before) false
          simpa [step, keyed] using h

theorem Parses.object {tokens : List (List Token)} {members : List (String × Json)}
    (h : List.Forall₂ (ParsesMember float) tokens members) :
    Parses float (.openBrace :: [Token.comma].intercalate tokens ++ [.closeBrace])
      (.object members) := by
  refine ⟨fun stack => ?_, _, _, rfl, nofun⟩
  cases h with
  | nil => rfl
  | @cons first m rest more hfirst hrest =>
      exact foldlM_members (.cons hfirst hrest) (by simp) [] true stack

end Parser

/-! ### Trees -/

namespace Json

section

variable (float : Literal → Option Binary64)

mutual
/-- The tokens of a readable tree are read as the tree, its numbers as their texts are. -/
theorem parses_tokens : ∀ j : Json, j.readable = true →
    Parser.Parses float j.tokens (j.mapNumbers (·.readBy? float))
  | .null, _ => .null
  | .bool b, _ => .bool b
  | .number n, _ => .number n
  | .string s, _ => .text s
  | .array items, h => .array (parses_itemsTokens items h)
  | .object members, h => .object (parses_membersTokens members h)
/-- The tokens of items. -/
theorem parses_itemsTokens : ∀ items : List Json, itemsReadable items = true →
    List.Forall₂ (Parser.Parses float) (itemsTokens items) (mapItems (·.readBy? float) items)
  | [], _ => .nil
  | j :: rest, h => by
      rw [itemsReadable, Bool.and_eq_true] at h
      exact .cons (parses_tokens j h.1) (parses_itemsTokens rest h.2)
/-- The tokens of members. -/
theorem parses_membersTokens : ∀ members : List (String × Json), membersReadable members = true →
    List.Forall₂ (Parser.ParsesMember float) (membersTokens members)
      (mapMembers (·.readBy? float) members)
  | [], _ => .nil
  | (k, j) :: rest, h => by
      rw [membersReadable, Bool.and_eq_true] at h
      exact .cons ⟨_, rfl, parses_tokens j h.1⟩ (parses_membersTokens rest h.2)
end

variable {j j' : Json}

theorem ofChars?_chars (h : j.readable = true) :
    ofChars? float j.chars = some (j.mapNumbers (·.readBy? float)) := by
  rw [ofChars?, scan?_chars, Option.bind_some, ofTokens?, (j.parses_tokens float h).reads]
  rfl

end

variable {j j' : Json}

/-- **What is read from the text of a readable tree.** -/
theorem parse?_render (h : j.readable = true) : parse? j.render = some j.reread := by
  rw [parse?, render_eq, String.toList_ofList, ofChars?_chars _ h]
  rfl

/-- The text of a readable tree tells which it is. -/
theorem eq_of_render_eq (h : j.readable = true) (h' : j'.readable = true)
    (htext : j.render = j'.render) : j = j' := by
  rw [render_eq, render_eq, String.ofList_inj] at htext
  have hsame : ∀ j : Json, j.mapNumbers (·.readBy? Literal.nearest?) = j := fun j =>
    (mapNumbers_eq_self_iff _ j).mpr fun n _ => n.readBy?_nearest
  have hread := congrArg (ofChars? Literal.nearest?) htext
  rwa [ofChars?_chars _ h, ofChars?_chars _ h', hsame, hsame, Option.some.injEq] at hread

end Json

end Schemata
