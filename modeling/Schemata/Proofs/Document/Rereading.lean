import Schemata.Proofs.Document.Nested
import Schemata.Proofs.Fragment.Rereading
import Schemata.Proofs.Json.Nesting

/-!
# Schemata — Proofs — Document — Rereading

Documents and models that are read are written and read again as themselves, as fragments and
properties are (`Document.fits`, `Model.fits`).  With what is known of compiled documents this says
how exact the texts are (`Document.codec_exact`).
-/

namespace Schemata

open Json (given ReadsBack Fits slotDepth decode? openAtOnce?)

theorem ValidationAction.fits : Fits read? toJson := Json.fits_of_scalar fun _ => rfl

theorem ValidationLevel.fits : Fits read? toJson := Json.fits_of_scalar fun _ => rfl

/-! ### Documents that are read -/

namespace Document

/-- A document is read from its slots. -/
theorem read?_cases {room : Nat} {j : Json} {d : Document} (h : read? room j = some d) :
    ∃ inner, room = inner + 1 ∧ ∃ type properties needed action level defaults : Option Json,
      Json.required (JsonType.read? inner) type = some d.type ∧
      Json.required (Properties.read? inner) properties = some d.properties ∧
      Json.required (Json.list? (fun _ => Json.string?) inner) needed = some d.required ∧
      Json.required (ValidationAction.read? inner) action = some d.action ∧
      Json.required (ValidationLevel.read? inner) level = some d.level ∧
      Json.optional (Json.defaults? inner) defaults = some d.defaults := by
  cases room with
  | zero => cases h
  | succ inner =>
      rw [read?] at h
      obtain ⟨slots, -, h⟩ := Option.bind_eq_some_iff.mp h
      split at h
      · simp only [Option.bind_eq_bind, Option.bind_eq_some_iff, Option.pure_def] at h
        obtain ⟨_, h₁, _, h₂, _, h₃, _, -, _, h₄, _, h₅, _, h₆, ⟨⟩⟩ := h
        exact ⟨inner, rfl, _, _, _, _, _, _, h₁, h₂, h₃, h₄, h₅, h₆⟩
      · cases h

variable {room : Nat} {j : Json} {d : Document}

/-- A document that is read has no name twice at any level. -/
theorem distinct_of_read (h : read? room j = some d) : Properties.Distinct d.properties := by
  obtain ⟨inner, -, _, _, _, _, _, _, -, hproperties, -⟩ := read?_cases h
  obtain ⟨k, -, hk⟩ := Option.bind_eq_some_iff.mp hproperties
  exact Properties.distinct_of_read hk

/-- A document is written no deeper than what it was read from. -/
theorem fits : Fits read? toJson := by
  intro room j d h
  obtain ⟨inner, rfl, _, _, _, _, _, _, htype, hproperties, hrequired, haction, hlevel,
    hdefaults⟩ := read?_cases h
  rw [toJson_eq_given, Json.depth, Nat.add_le_add_iff_right,
    Json.membersDepth_given_le d.length_slots]
  simp only [slots, List.forall_mem_cons]
  exact ⟨(JsonType.fits inner).required htype, (Properties.fits inner).required hproperties,
    (Json.fits_strings inner).required hrequired, Nat.zero_le _,
    (ValidationAction.fits inner).required haction, (ValidationLevel.fits inner).required hlevel,
    (Json.fits_defaults inner).optional hdefaults, by simp⟩

end Document

/-! ### Models -/

namespace Model

/-- The keys of a model, in order. -/
def keys : List String := ["name", "schema"]

/-- The slot of each key. -/
def slots (m : Model) : List (Option Json) := [some (.string m.name), some m.document.toJson]

theorem toJson_eq_given (m : Model) : m.toJson = .object (given keys m.slots) := rfl

/-- There is nothing unreadable in what is written of a model. -/
theorem readable_toJson {m : Model} (h : Properties.Distinct m.document.properties) :
    m.toJson.readable = true := by
  rw [toJson_eq_given, Json.readable, Json.membersReadable_given rfl]
  simp [slots, Document.readable_toJson h]
  rfl

/-- The model with what each of its numbers is read as. -/
def reread (m : Model) : Model := { m with document := m.document.reread }

/-- A model is read again as its document is. -/
theorem rereading : Json.Rereading toJson reread := fun m =>
  congrArg (fun j => Json.object [("name", .string m.name), ("schema", j)])
    (Document.rereading m.document)

/-- **A model whose names come once each reads back.** -/
theorem readsBack {m : Model} (h : Properties.Distinct m.document.properties) :
    ReadsBack read? toJson m := by
  intro room b
  rw [toJson_eq_given]
  cases room with
  | zero => simp [read?, Json.depth]
  | succ room =>
      have hdocument := Document.readsBack h room
      have hslots : Json.record? false ["name", "schema"] (.object (given keys m.slots))
          = some m.slots := Json.slots?_given false (by decide) rfl
      rw [Json.depth, Nat.add_le_add_iff_right, Json.membersDepth_given_le rfl, read?, hslots]
      simp only [slots, Json.required, Option.bind_eq_bind, Option.bind_some, Json.string?,
        Option.pure_def]
      exact Json.bind_eq_some_iff_of_reads hdocument (by simp [Json.depth])

/-- A model that is read has its document in a slot. -/
theorem read?_cases {room : Nat} {j : Json} {m : Model} (h : read? room j = some m) :
    ∃ inner, room = inner + 1 ∧ ∃ document : Option Json,
      Json.required (Document.read? inner) document = some m.document := by
  cases room with
  | zero => cases h
  | succ inner =>
      rw [read?] at h
      obtain ⟨slots, -, h⟩ := Option.bind_eq_some_iff.mp h
      split at h
      · simp only [Option.bind_eq_bind, Option.bind_eq_some_iff, Option.pure_def] at h
        obtain ⟨_, -, _, hdocument, ⟨⟩⟩ := h
        exact ⟨inner, rfl, _, hdocument⟩
      · cases h

theorem distinct_of_read {room : Nat} {j : Json} {m : Model} (h : read? room j = some m) :
    Properties.Distinct m.document.properties := by
  obtain ⟨inner, -, _, hdocument⟩ := read?_cases h
  obtain ⟨k, -, hk⟩ := Option.bind_eq_some_iff.mp hdocument
  exact Document.distinct_of_read hk

/-- A model is written no deeper than what it was read from. -/
theorem fits : Fits read? toJson := by
  intro room j m h
  obtain ⟨inner, rfl, _, hdocument⟩ := read?_cases h
  rw [toJson_eq_given, Json.depth, Nat.add_le_add_iff_right, Json.membersDepth_given_le rfl]
  simp only [slots, List.forall_mem_cons]
  exact ⟨Nat.zero_le _, (Document.fits inner).required hdocument, by simp⟩

end Model

/-! ### Texts -/

/-- Whatever is read from a text comes back from the text that is written of it, as `again` of it;
and that is the value itself just where its numbers last. -/
def Json.Rereads {α : Type} (read : Nat → Json → Option α) (write : α → Json) (again : α → α) :
    Prop :=
  ∀ text a, decode? read text = some a →
    decode? read (write a).render = some (again a) ∧ (again a = a ↔ (write a).Lasts)

/-- So it is where what is read fits, has nothing unreadable in it and reads back, with other
numbers too. -/
theorem Json.rereads {α : Type} {read : Nat → Json → Option α} {write : α → Json} {again : α → α}
    (Good : α → Prop) (hagain : Rereading write again) (hfits : Fits read write)
    (hgood : ∀ {room j a}, read room j = some a → Good a)
    (hkept : ∀ {a}, Good a → Good (again a))
    (hback : ∀ {a}, Good a → ReadsBack read write a)
    (hreadable : ∀ {a}, Good a → (write a).readable = true) : Rereads read write again := by
  intro text a h
  obtain ⟨j, -, hj⟩ := Option.bind_eq_some_iff.mp h
  have ha := hgood hj
  exact ⟨hagain.decodes_of_read (hreadable ha) (hback (hkept ha)) (hfits maxDepth) h,
    hagain.eq_self_iff (hback ha) (hback (hkept ha))⟩

/-- A fragment that was read is read again from what is written of it. -/
theorem Fragment.rereads : Json.Rereads read? toJson reread :=
  Json.rereads Distinct rereading fits distinct_of_read (distinct_reread _) (readsBack _)
    (readable_toJson _)

theorem Properties.rereads : Json.Rereads read? toJson reread :=
  Json.rereads Distinct rereading fits distinct_of_read (distinct_reread _) readsBack
    (readable_toMembers _)

/-- So is a document. -/
theorem Document.rereads : Json.Rereads read? toJson reread :=
  Json.rereads (fun d => Properties.Distinct d.properties) rereading fits distinct_of_read
    distinct_reread readsBack readable_toJson

/-- So is a model. -/
theorem Model.rereads : Json.Rereads read? toJson reread :=
  Json.rereads (fun m => Properties.Distinct m.document.properties) rereading fits
    distinct_of_read Document.distinct_reread readsBack readable_toJson

namespace Document

/-- **Texts are exact.**  Some number of containers are open at once in the text of a compiled
document; if these are at most 127 the document is read from the text, with what its numbers are
read as, and otherwise it is not read.  Whatever is read from a text, as a fragment, properties, a
document or a model, is read again from the text that is written of it.  And the one and the other
are the very same value just where the numbers in it last, as all integers do. -/
theorem codec_exact :
    (∀ d : Document, d.Compilable → (d.reread = d ↔ d.toJson.Lasts) ∧
      ∃ count, openAtOnce? d.text = some count ∧
        ofText? d.text = if count ≤ 127 then some d.reread else none) ∧
    Json.Rereads Fragment.read? Fragment.toJson Fragment.reread ∧
    Json.Rereads Properties.read? Properties.toJson Properties.reread ∧
    Json.Rereads Document.read? Document.toJson Document.reread ∧
    Json.Rereads Model.read? Model.toJson Model.reread := by
  refine ⟨fun d hd => ⟨reread_eq_self_iff hd.distinct, ?_⟩, Fragment.rereads, Properties.rereads,
    rereads, Model.rereads⟩
  exact ⟨d.toJson.depth, d.toJson.openAtOnce?_render, ofText?_text hd.distinct⟩

/-- Nested maps at the bound and behind it, and a fragment with a key that is none of its own. -/
theorem codec_exact_nested :
    ofText? (nested 62).text = some (nested 62) ∧ ofText? (nested 63).text = none ∧
    decode? Fragment.read? (Json.object [("title", .null)]).render = some {} ∧
    decode? Fragment.read? (Fragment.toJson {}).render = some {} := by
  have hcount : ∀ n count, openAtOnce? (nested n).text = some count → count = 2 * n + 3 := by
    intro n count h
    rw [text, Json.openAtOnce?_render, depth_nested] at h
    exact (Option.some.inj h).symm
  have hread : decode? Fragment.read? (Json.object [("title", .null)]).render = some {} := by
    rw [decode?, Json.parse?_render rfl]
    rfl
  obtain ⟨-, _, h62, hwithin⟩ := codec_exact.1 _ (Model.compiled_nested 62).compilable
  obtain ⟨-, _, h63, hbeyond⟩ := codec_exact.1 _ (Model.compiled_nested 63).compilable
  obtain rfl := hcount 62 _ h62
  obtain rfl := hcount 63 _ h63
  rw [reread_nested] at hwithin
  exact ⟨hwithin, hbeyond, hread, (codec_exact.2.1 _ _ hread).1⟩

end Document

end Schemata
