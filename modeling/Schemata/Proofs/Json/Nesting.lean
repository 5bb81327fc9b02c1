import Schemata.Proofs.Json.Scanning

/-!
# Schemata — Proofs — Json — Nesting

How many containers are open at once in a text.  They are counted over its tokens, an opening
bracket or brace up and a closing one down (`Token.mostOpen`).  The tokens of a tree raise the
count by the depth of the tree and bring it back to where it was (`Json.mostOpen_tokens`), so the
count for the text of a tree is its depth (`Json.openAtOnce?_render`).
-/

namespace Schemata

namespace Token

/-- How many containers are open behind a token. -/
def openAfter (count : Nat) : Token → Nat
  | .openBrace | .openBracket   => count + 1
  | .closeBrace | .closeBracket => count - 1
  | _                           => count

/-- The greatest number of containers open at once from where so many are open. -/
def mostOpen (count : Nat) : List Token → Nat
  | []        => count
  | t :: rest => max count (mostOpen (t.openAfter count) rest)

theorem le_mostOpen (count : Nat) (tokens : List Token) : count ≤ mostOpen count tokens := by
  cases tokens with
  | nil => exact Nat.le_refl _
  | cons t rest => exact Nat.le_max_left _ _

/-- Tokens that open so many containers more and close them again, whatever follows. -/
def Raises (tokens : List Token) (depth : Nat) : Prop :=
  ∀ count rest, mostOpen count (tokens ++ rest) = max (count + depth) (mostOpen count rest)

namespace Raises

theorem nil : Raises [] 0 := fun count rest => (Nat.max_eq_right (le_mostOpen count rest)).symm

theorem append {tokens tokens' : List Token} {depth depth' : Nat} (h : Raises tokens depth)
    (h' : Raises tokens' depth') : Raises (tokens ++ tokens') (max depth depth') := by
  intro count rest
  rw [List.append_assoc, h, h']
  omega

/-- A token that neither opens nor closes. -/
theorem flat {t : Token} (ht : ∀ count, t.openAfter count = count) : Raises [t] 0 := by
  intro count rest
  rw [List.singleton_append, mostOpen, ht]
  rfl

/-- A container around tokens. -/
theorem container {t t' : Token} {tokens : List Token} {depth : Nat}
    (ht : ∀ count, t.openAfter count = count + 1) (ht' : ∀ count, t'.openAfter count = count - 1)
    (h : Raises tokens depth) : Raises (t :: tokens ++ [t']) (depth + 1) := by
  intro count rest
  have hafter := le_mostOpen count rest
  rw [List.cons_append, List.cons_append, List.append_assoc, mostOpen, ht, h,
    List.singleton_append, mostOpen, ht', Nat.add_sub_cancel]
  omega

end Raises

end Token

namespace Json

open Token (Raises)

mutual
/-- **The tokens of a tree raise the count by the depth of the tree.** -/
theorem raises_tokens : ∀ j : Json, Raises j.tokens j.depth
  | .null | .bool _ | .number _ | .string _ | .unreadable => .flat fun _ => rfl
  | .array items => .container (fun _ => rfl) (fun _ => rfl) (raises_itemsTokens items)
  | .object members => .container (fun _ => rfl) (fun _ => rfl) (raises_membersTokens members)
/-- The tokens of items, with commas between them. -/
theorem raises_itemsTokens : ∀ items : List Json,
    Raises ([Token.comma].intercalate (itemsTokens items)) (itemsDepth items)
  | [] => .nil
  | [j] => by
      simpa [itemsTokens, itemsDepth] using raises_tokens j
  | j :: k :: more => by
      have hcomma : Raises [.comma] 0 := .flat fun _ => rfl
      have hrest := hcomma.append (raises_itemsTokens (k :: more))
      have h := (raises_tokens j).append hrest
      rw [Nat.zero_max] at h
      simpa [itemsTokens, itemsDepth, List.intercalate_cons_cons] using h
/-- The tokens of members, with commas between them. -/
theorem raises_membersTokens : ∀ members : List (String × Json),
    Raises ([Token.comma].intercalate (membersTokens members)) (membersDepth members)
  | [] => .nil
  | [(k, j)] => by
      have hkey : Raises [.text (some k), .colon] 0 :=
        (Raises.flat fun _ => rfl).append (.flat fun _ => rfl)
      have h := hkey.append (raises_tokens j)
      simpa [membersTokens, membersDepth] using h
  | (k, j) :: m :: more => by
      have hkey : Raises [.text (some k), .colon] 0 :=
        (Raises.flat fun _ => rfl).append (.flat fun _ => rfl)
      have hcomma : Raises [.comma] 0 := .flat fun _ => rfl
      have hrest := hcomma.append (raises_membersTokens (m :: more))
      have h := (hkey.append (raises_tokens j)).append hrest
      rw [Nat.zero_max, Nat.zero_max] at h
      simpa [membersTokens, membersDepth, List.intercalate_cons_cons] using h
end

/-- The greatest number of containers open at once in a text, if it is made of tokens. -/
def openAtOnce? (text : String) : Option Nat :=
  (Token.scan? text.toList).map (Token.mostOpen 0)

/-- **As many containers are open at once in the text of a tree as the tree is deep.** -/
theorem openAtOnce?_render (j : Json) : openAtOnce? j.render = some j.depth := by
  have h := j.raises_tokens 0 []
  rw [List.append_nil, Nat.zero_add, Token.mostOpen, Nat.max_zero] at h
  rw [openAtOnce?, render_eq, String.toList_ofList, scan?_chars, Option.map_some, h]

end Json

end Schemata
