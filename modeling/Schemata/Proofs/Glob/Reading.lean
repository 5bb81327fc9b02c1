import Schemata.Glob.Search
import Schemata.Proofs.Lists
import Schemata.Proofs.Path

/-!
# Schemata — Proofs — Glob — Reading

What the components of a pattern are read to.  Where no component starts with a dot, each is read to
any number of directories or to tokens that do not start with a dot or a slash
(`Glob.isDotless_of_parse`), and where none is empty either, to tokens that are not none
(`Glob.isPlain_of_parse`).  Tokens that are all literal match just their text
(`Glob.Token.matchesText_iff_of_text?`).
-/

namespace Schemata

namespace Glob

/-- A component that stands for directories, or for names by tokens that do not start with a dot or
a slash. -/
def Component.IsPlain : Component → Prop
  | .directories => True
  | .name tokens => tokens ≠ [] ∧ ∀ c, tokens.head? = some (.literal c) → c ≠ '.' ∧ c ≠ '/'

/-- A component that stands for directories, or for names by tokens that are none or do not start
with a dot or a slash. -/
def Component.IsDotless : Component → Prop
  | .directories => True
  | .name tokens => ∀ c, tokens.head? = some (.literal c) → c ≠ '.' ∧ c ≠ '/'

/-! ### Tokens -/

namespace Token

/-- Tokens that are all literal match their own text and no other. -/
theorem matchesText_iff_of_text? {tokens : List Token} {piece : String}
    (h : text? tokens = some piece) (name : String) :
    matchesText tokens name.toList = true ↔ name = piece := by
  obtain ⟨text, htext, rfl⟩ := Option.map_eq_some_iff.mp h
  rw [← String.toList_inj, String.toList_ofList]
  clear h
  generalize name.toList = name
  induction tokens generalizing text name with
  | nil =>
      obtain rfl := Option.some.inj htext
      simp [matchesText]
  | cons t rest ih =>
      rw [List.mapM_cons] at htext
      cases t with
      | literal c =>
          obtain ⟨_, ⟨⟩, htext⟩ := Option.bind_eq_some_iff.mp htext
          obtain ⟨later, hlater, hcons⟩ := Option.bind_eq_some_iff.mp htext
          obtain rfl := Option.some.inj hcons
          cases name with
          | nil => simp [matchesText]
          | cons d name => simp [matchesText, accepts, ih later hlater name]
      | anyChar | anyText | within | outside | directories => cases htext

/-- Tokens that are all literal have a text that starts as they do. -/
theorem head?_of_text? {tokens : List Token} {piece : String} (h : text? tokens = some piece)
    (hne : tokens ≠ []) : ∃ c, tokens.head? = some (.literal c) ∧ piece.toList.head? = some c := by
  obtain ⟨text, htext, rfl⟩ := Option.map_eq_some_iff.mp h
  obtain ⟨t, rest, rfl⟩ := List.exists_cons_of_ne_nil hne
  rw [List.mapM_cons] at htext
  obtain ⟨c, hc, htext⟩ := Option.bind_eq_some_iff.mp htext
  obtain ⟨later, -, hcons⟩ := Option.bind_eq_some_iff.mp htext
  obtain rfl := Option.some.inj hcons
  refine ⟨c, ?_, by rw [String.toList_ofList]; rfl⟩
  cases t <;> cases hc
  rfl

end Token

/-- A bracket is no literal. -/
theorem bracket?_ne_literal {text after : List Char} {d : Char} :
    bracket? text ≠ some (.literal d, after) := by
  intro h
  unfold bracket? at h
  split at h
  · obtain ⟨_, -, he⟩ := Option.map_eq_some_iff.mp h
    nomatch he
  · nomatch h
  · obtain ⟨_, -, he⟩ := Option.map_eq_some_iff.mp h
    nomatch he
  · nomatch h

/-- A literal token is the character that it starts with. -/
theorem eq_of_token?_literal {spot : Spot} {c d : Char} {rest after : List Char}
    (h : token? spot c rest = .ok (.literal d, after)) : d = c := by
  unfold token? at h
  split at h
  · nomatch h
  · split at h
    · next found hfound =>
        obtain rfl := Except.ok.inj h
        exact absurd hfound bracket?_ne_literal
    · nomatch h
  · nomatch h
  · split at h
    · nomatch h
    · split at h <;> nomatch h
  · nomatch h
  · obtain ⟨hd, -⟩ := Prod.mk.inj (Except.ok.inj h)
    exact (Token.literal.inj hd).symm

/-- The tokens of a text are not none, and if the first is literal the text starts with it. -/
theorem exists_cons_of_read? {c : Char} {rest : List Char} {tokens : List Token}
    (h : read? (c :: rest) = .ok tokens) :
    ∃ t later, tokens = t :: later ∧ ∀ d, t = .literal d → d = c := by
  rw [read?, tokens?] at h
  split at h
  · cases h
  · next t after htoken =>
      dsimp only at h
      generalize tokens? _ after = read at h
      cases read with
      | error e => cases h
      | ok later =>
          refine ⟨t, later, (Except.ok.inj h).symm, ?_⟩
          rintro d rfl
          exact eq_of_token?_literal htoken

theorem componentTexts_cases (pattern : List Char) :
    componentTexts pattern = piecesAt '/' pattern ∨
      componentTexts pattern = (piecesAt '/' pattern).dropLast := by
  by_cases hlast : (piecesAt '/' pattern).getLast? = some []
  · exact .inr (if_pos hlast)
  · exact .inl (if_neg hlast)

/-- An empty first piece is what is before a slash. -/
theorem isAbsolute_of_componentTexts {pattern : String} {later : List (List Char)}
    (h : componentTexts pattern.toList = [] :: later) : Path.isAbsolute pattern = true := by
  rw [Path.isAbsolute]
  cases htext : pattern.toList with
  | nil => rw [htext] at h; cases h
  | cons c rest =>
      by_cases hc : c = '/'
      · rw [hc]
        rfl
      -- the first piece starts with the character
      obtain ⟨piece, pieces, hpieces⟩ :=
        List.exists_cons_of_ne_nil (piecesAt_ne_nil '/' rest)
      have hall : piecesAt '/' pattern.toList = (c :: piece) :: pieces := by
        rw [htext, piecesAt, if_neg hc, hpieces]
      rcases componentTexts_cases pattern.toList with hsame | hsame
      · rw [h, hall] at hsame
        cases hsame
      · rw [h, hall] at hsame
        cases pieces <;> cases hsame

/-- Only an empty text has no tokens. -/
theorem eq_nil_of_read? {text : List Char} (h : read? text = .ok []) : text = [] := by
  cases text with
  | nil => rfl
  | cons c rest =>
      obtain ⟨t, later, hcons, -⟩ := exists_cons_of_read? h
      nomatch hcons

/-- The components of a pattern that is read are read one by one. -/
theorem mapM_of_parse {pattern : String} {glob : Glob} (h : parse pattern = .ok glob) :
    (componentTexts pattern.toList).mapM (fun text => (read? text).map Component.ofTokens)
      = .ok glob := by
  cases hread : read? pattern.toList with
  | error e => rw [parse, hread] at h; nomatch h
  | ok _ =>
      rw [parse, hread] at h
      exact h

theorem exists_tokens_of_map {text : List Char} {component : Component}
    (h : (read? text).map Component.ofTokens = .ok component) :
    ∃ tokens, read? text = .ok tokens ∧ component = .ofTokens tokens := by
  cases htokens : read? text with
  | error e => rw [htokens] at h; nomatch h
  | ok tokens =>
      rw [htokens] at h
      exact ⟨tokens, rfl, (Except.ok.inj h).symm⟩

/-- The components of a pattern are read from its pieces, but for an empty one at its end. -/
theorem exists_piece_of_parse {pattern : String} {glob : Glob} (h : parse pattern = .ok glob)
    {component : Component} (hcomponent : component ∈ glob) :
    ∃ text ∈ piecesAt '/' pattern.toList, ∃ tokens, read? text = .ok tokens ∧
      component = .ofTokens tokens := by
  obtain ⟨text, htext, hcomp⟩ := exists_of_mem_mapM_ok (mapM_of_parse h) hcomponent
  refine ⟨text, ?_, exists_tokens_of_map hcomp⟩
  rcases componentTexts_cases pattern.toList with hall | hall
  · exact hall ▸ htext
  · exact (List.dropLast_sublist _).mem (hall ▸ htext)

/-- **Components that do not start with a dot** stand for directories, or for names by tokens that
do not start with a dot or a slash. -/
theorem isDotless_of_parse {pattern : String} {glob : Glob}
    (hpieces : ∀ piece ∈ Path.pieces pattern, piece.toList.head? ≠ some '.')
    (h : parse pattern = .ok glob) : ∀ component ∈ glob, component.IsDotless := by
  intro component hcomponent
  obtain ⟨text, htext, tokens, htokens, rfl⟩ := exists_piece_of_parse h hcomponent
  have hdot := hpieces (String.ofList text) (List.mem_map_of_mem htext)
  rw [String.toList_ofList] at hdot
  rw [Component.ofTokens]
  split
  · trivial
  · intro d hd
    cases text with
    | nil =>
        rw [read?, tokens?] at htokens
        obtain rfl := Except.ok.inj htokens
        cases hd
    | cons c rest =>
        obtain ⟨t, later, rfl, hliteral⟩ := exists_cons_of_read? htokens
        obtain rfl := hliteral d (Option.some.inj hd)
        refine ⟨fun he => hdot (by rw [he]; rfl), ?_⟩
        rintro rfl
        exact separator_notMem '/' _ _ htext List.mem_cons_self

/-- A pattern whose first component is empty starts with a slash. -/
theorem isAbsolute_of_parse {pattern : String} {glob : Glob} (h : parse pattern = .ok glob)
    (hhead : glob.head? = some (.name [])) : Path.isAbsolute pattern = true := by
  have hmap := mapM_of_parse h
  cases htexts : componentTexts pattern.toList with
  | nil =>
      rw [htexts] at hmap
      obtain rfl := Except.ok.inj hmap
      nomatch hhead
  | cons text later =>
      rw [htexts, List.mapM_cons] at hmap
      obtain ⟨first, hfirst, hmap⟩ := bind_eq_ok.mp hmap
      obtain ⟨rest, -, hmap⟩ := bind_eq_ok.mp hmap
      obtain rfl := Except.ok.inj hmap
      obtain rfl := Option.some.inj hhead
      obtain ⟨tokens, htokens, hcomponent⟩ := exists_tokens_of_map hfirst
      obtain rfl : tokens = [] := by
        rw [Component.ofTokens] at hcomponent
        split at hcomponent
        · nomatch hcomponent
        · exact (Component.name.inj hcomponent).symm
      obtain rfl := eq_nil_of_read? htokens
      exact isAbsolute_of_componentTexts htexts

end Glob

end Schemata
