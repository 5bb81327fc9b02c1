import Mathlib.Tactic.FinCases
import Schemata.Json.Printer
import Schemata.Json.Token
import Schemata.Proofs.Number.Reading

/-!
# Schemata — Proofs — Json — Scanning

The tokens of the text of a tree.  A word ends only at what follows it, so a piece of text is said
to scan to tokens if they are what the scanner would have were the text to end there
(`Scanner.Scans`).  Pieces join at a mark between them (`Scans.join`), which ends any word; the text
of a tree is made of marks, words and strings, and scans to the tokens of the tree
(`Json.scans_chars`).
-/

namespace Schemata

mutual
/-- The tokens of the compact text. -/
def Json.tokens : Json → List Token
  | .null           => [.word ['n', 'u', 'l', 'l']]
  | .bool b         => [.word (Json.bool b).chars]
  | .number n       => [.word n.text]
  | .string s       => [.text (some s)]
  | .array items    =>
      .openBracket :: [Token.comma].intercalate (Json.itemsTokens items) ++ [.closeBracket]
  | .object members =>
      .openBrace :: [Token.comma].intercalate (Json.membersTokens members) ++ [.closeBrace]
  | .unreadable     => [.word ['n', 'u', 'l', 'l']]
/-- The tokens of each item. -/
def Json.itemsTokens : List Json → List (List Token)
  | []        => []
  | j :: rest => j.tokens :: Json.itemsTokens rest
/-- The tokens of each member. -/
def Json.membersTokens : List (String × Json) → List (List Token)
  | []             => []
  | (k, j) :: rest => (.text (some k) :: .colon :: j.tokens) :: Json.membersTokens rest
end

namespace Scanner

/-- A text read from between two tokens gives further tokens, the last of which may be a word that
its end would end. -/
def Scans (text : List Char) (tokens : List Token) : Prop :=
  ∀ found, ∃ s, text.foldlM step ⟨found, .between⟩ = some s ∧
    s.finish = some (found.reverse ++ tokens)

/-- A character that stands for a token and is part of no word. -/
structure IsMark (c : Char) (t : Token) : Prop where
  apart : isWordChar c = false
  begins : ∀ found, begin? found c = some ⟨t :: found, .between⟩

theorem isMark_openBrace : IsMark '{' .openBrace := ⟨by decide, fun _ => rfl⟩
theorem isMark_closeBrace : IsMark '}' .closeBrace := ⟨by decide, fun _ => rfl⟩
theorem isMark_openBracket : IsMark '[' .openBracket := ⟨by decide, fun _ => rfl⟩
theorem isMark_closeBracket : IsMark ']' .closeBracket := ⟨by decide, fun _ => rfl⟩
theorem isMark_colon : IsMark ':' .colon := ⟨by decide, fun _ => rfl⟩
theorem isMark_comma : IsMark ',' .comma := ⟨by decide, fun _ => rfl⟩

/-- Where a text may end, any word ends at a character that is part of none. -/
theorem step_of_finish {s : Scanner} {tokens : List Token} {c : Char}
    (h : s.finish = some tokens) (hc : isWordChar c = false) :
    s.step c = begin? tokens.reverse c := by
  obtain ⟨found, mode⟩ := s
  cases mode with
  | between =>
      obtain rfl := Option.some.inj h
      rw [List.reverse_reverse]
      rfl
  | word run =>
      obtain rfl := Option.some.inj h
      simp [step, hc]
  -- no text ends within a string
  | text d => nomatch h
  | escape d => nomatch h
  | unit d count value => nomatch h

namespace Scans

variable {text text' : List Char} {tokens tokens' : List Token} {c : Char} {t : Token}

theorem nil : Scans [] [] := fun found => ⟨⟨found, .between⟩, rfl, by simp [finish]⟩

/-- Pieces of text join at a mark between them. -/
theorem join (hc : IsMark c t) (h : Scans text tokens) (h' : Scans text' tokens') :
    Scans (text ++ c :: text') (tokens ++ t :: tokens') := by
  intro found
  obtain ⟨s, hs, hfinish⟩ := h found
  -- the second piece is read from where the mark leaves the tokens of the first
  obtain ⟨s', hs', hfinish'⟩ := h' (t :: (found.reverse ++ tokens).reverse)
  refine ⟨s', ?_, ?_⟩
  · rw [List.foldlM_append, hs, Option.bind_eq_bind, Option.bind_some, List.foldlM_cons,
      step_of_finish hfinish hc.apart, hc.begins]
    exact hs'
  · simpa using hfinish'

/-- A piece of text between two marks. -/
theorem between {c' : Char} {t' : Token} (hc : IsMark c t) (h : Scans text tokens)
    (hc' : IsMark c' t') : Scans (c :: text ++ [c']) (t :: tokens ++ [t']) := by
  simpa using nil.join hc (h.join hc' nil)

/-- Pieces of text with commas between them. -/
theorem commas {texts : List (List Char)} {tokens : List (List Token)}
    (h : List.Forall₂ Scans texts tokens) :
    Scans ([','].intercalate texts) ([Token.comma].intercalate tokens) := by
  induction h with
  | nil => exact nil
  | cons hfirst hrest ih =>
      cases hrest with
      | nil => simpa using hfirst
      | cons hsecond hmore =>
          rw [List.intercalate_cons_cons, List.intercalate_cons_cons]
          simpa using hfirst.join isMark_comma ih

/-! ### Words -/

theorem foldlM_word {found : List Token} {word : List Char}
    (hword : ∀ c ∈ word, isWordChar c = true) (run : List Char) :
    word.foldlM step ⟨found, .word run⟩ = some ⟨found, .word (word.reverse ++ run)⟩ := by
  induction word generalizing run with
  | nil => rfl
  | cons c rest ih =>
      have hstep : step ⟨found, .word run⟩ c = some ⟨found, .word (c :: run)⟩ := by
        simp [step, hword c List.mem_cons_self]
      rw [List.foldlM_cons, hstep, Option.bind_eq_bind, Option.bind_some,
        ih fun c hc => hword c (List.mem_cons_of_mem _ hc)]
      simp

theorem begin?_word (hc : isWordChar c = true) (found : List Token) :
    begin? found c = some ⟨found, .word [c]⟩ := by
  have hne : ∀ c', isWordChar c' = false → c ≠ c' := by
    rintro c' hc' rfl
    rw [hc] at hc'
    nomatch hc'
  simp [begin?, hc, hne ' ' (by decide), hne '\t' (by decide), hne '\n' (by decide),
    hne '\r' (by decide), hne '{' (by decide), hne '}' (by decide), hne '[' (by decide),
    hne ']' (by decide), hne ':' (by decide), hne ',' (by decide), hne '"' (by decide)]

theorem word {word : List Char} (hne : word ≠ []) (hall : word.all isWordChar = true) :
    Scans word [.word word] := by
  intro found
  have hword := List.all_eq_true.mp hall
  cases word with
  | nil => exact absurd rfl hne
  | cons c rest =>
      refine ⟨⟨found, .word (rest.reverse ++ [c])⟩, ?_, ?_⟩
      · rw [List.foldlM_cons, step, begin?_word (hword c List.mem_cons_self)]
        exact foldlM_word (fun c hc => hword c (List.mem_cons_of_mem _ hc)) [c]
      · simp [finish]

theorem null : Scans ['n', 'u', 'l', 'l'] [.word ['n', 'u', 'l', 'l']] :=
  word (by decide) (by decide)

theorem bool (b : Bool) : Scans (Json.bool b).chars [.word (Json.bool b).chars] := by
  cases b <;> exact word (by rw [Json.chars]; decide) (by rw [Json.chars]; decide)

/-- The text of a number is one word. -/
theorem number (n : Number) : Scans n.text [.word n.text] := by
  obtain ⟨l, htext, hwf, -⟩ := n.exists_literal
  refine word (htext ▸ Literal.text_ne_nil hwf) (List.all_eq_true.mpr fun c hc => ?_)
  rcases Literal.mem_text hwf (htext ▸ hc) with h | h
  · simp [isWordChar, Char.isAlphanum, h]
  · fin_cases h <;> decide

/-! ### Strings -/

theorem hexValue?_hexDigit {n : Nat} (hn : n < 16) : hexValue? (hexDigit n) = some n := by
  interval_cases n <;> decide

/-- A character that is written as a unit is read as that unit. -/
theorem foldlM_unit {n : Nat} (hn : n < 32) (found : List Token) (chars : List Char) :
    ['\\', 'u', '0', '0', hexDigit (n / 16), hexDigit (n % 16)].foldlM step
        ⟨found, .text ⟨some chars, none⟩⟩
      = some ⟨found, .text ⟨some (Char.ofNat n :: chars), none⟩⟩ := by
  have hhigh := hexValue?_hexDigit (show n / 16 < 16 by omega)
  have hlow := hexValue?_hexDigit (show n % 16 < 16 by omega)
  have hzero : hexValue? '0' = some 0 := by decide
  have hvalue : 16 * (n / 16) + n % 16 = n := by omega
  -- such a unit is no half of a pair, so it stands for a character at once
  have hunit : ¬ (0xD800 ≤ n ∧ n < 0xDC00) ∧ ¬ (0xDC00 ≤ n ∧ n < 0xE000) := by omega
  simp [step, hhigh, hlow, hzero, hvalue, Decoding.pushUnit, hunit]

/-- A character of a string is read as it was before it was written. -/
theorem foldlM_quotedChar (c : Char) (found : List Token) (chars : List Char) :
    (quotedChar c).foldlM step ⟨found, .text ⟨some chars, none⟩⟩
      = some ⟨found, .text ⟨some (c :: chars), none⟩⟩ := by
  unfold quotedChar
  split_ifs with h₁ h₂ h₃ h₄ h₅ h₆ h₇ h₈
  · subst h₁; rfl
  · subst h₂; rfl
  · subst h₃; rfl
  · subst h₄; rfl
  · subst h₅; rfl
  · subst h₆; rfl
  · subst h₇; rfl
  · have hn : c.toNat < 32 := h₈
    rw [foldlM_unit hn, Char.ofNat_toNat]
  · simp [step, Decoding.push, h₁, h₂, h₈]

/-- A string is scanned as itself. -/
theorem quoted (s : String) : Scans (Schemata.quoted s) [.text (some s)] := by
  have hchars : ∀ (cs : List Char) (found : List Token) (chars : List Char),
      (cs.flatMap quotedChar).foldlM step ⟨found, .text ⟨some chars, none⟩⟩
        = some ⟨found, .text ⟨some (cs.reverse ++ chars), none⟩⟩ := by
    intro cs
    induction cs with
    | nil => exact fun _ _ => rfl
    | cons c rest ih =>
        intro found chars
        rw [List.flatMap_cons, List.foldlM_append, foldlM_quotedChar, Option.bind_eq_bind,
          Option.bind_some, ih]
        simp
  intro found
  refine ⟨⟨.text (some s) :: found, .between⟩, ?_, by simp [finish]⟩
  have hopen : step ⟨found, .between⟩ '"' = some ⟨found, .text ⟨some [], none⟩⟩ := rfl
  have hclose : Decoding.finish ⟨some s.toList.reverse, none⟩ = some s := by
    simp [Decoding.finish]
  rw [Schemata.quoted, List.cons_append, List.foldlM_cons, hopen, Option.bind_eq_bind,
    Option.bind_some, List.foldlM_append, hchars, Option.bind_eq_bind, Option.bind_some]
  simp [step, hclose]

end Scans

end Scanner

/-! ### Trees -/

namespace Json

open Scanner

mutual
/-- **The text of a tree is scanned to its tokens.** -/
theorem scans_chars : ∀ j : Json, Scans j.chars j.tokens
  | .null | .unreadable => .null
  | .bool b => .bool b
  | .number n => .number n
  | .string s => .quoted s
  | .array items =>
      .between isMark_openBracket (.commas (scans_itemsChars items)) isMark_closeBracket
  | .object members =>
      .between isMark_openBrace (.commas (scans_membersChars members)) isMark_closeBrace
/-- The texts of items. -/
theorem scans_itemsChars : ∀ items : List Json,
    List.Forall₂ Scans (itemsChars items) (itemsTokens items)
  | []        => .nil
  | j :: rest => .cons (scans_chars j) (scans_itemsChars rest)
/-- The texts of members. -/
theorem scans_membersChars : ∀ members : List (String × Json),
    List.Forall₂ Scans (membersChars members) (membersTokens members)
  | []             => .nil
  | (k, j) :: rest =>
      .cons ((Scans.quoted k).join isMark_colon (scans_chars j)) (scans_membersChars rest)
end

/-- The tokens of the compact text. -/
theorem scan?_chars (j : Json) : Token.scan? j.chars = some j.tokens := by
  obtain ⟨s, hs, hfinish⟩ := j.scans_chars []
  rw [Token.scan?, hs, Option.bind_some, hfinish]
  rfl

end Json

end Schemata
