import Schemata.Proofs.Declaration.Described
import Schemata.Proofs.Declaration.Numbers
import Schemata.Proofs.Document.Rereading

/-!
# Schemata — Proofs — Declaration — Rereading

Declarations that are read are written and read again as themselves.  Kinds, fields, their options
and settings are written within the room that they were read in, since what is written where a key
is not given has no containers (`Layout.depth_of_rewrite?`).  An object and a model are always
written with a list of fields, which there is room for wherever a text is read.  So the codecs of
all six go round, from values and from texts (`Declaration.codecs_round_trip`).
-/

namespace Schemata

open Json (ReadsBack FitsIn Rereading maxDepth decode? openAtOnce? membersDepth_le)

/-! ### Depths -/

namespace Layout

/-- A record whose defaults have no containers, and so those of all records in it. -/
def Record.flat : Record → Bool
  | .kind _ | .stamps | .settings | .options | .field => true
  | .object | .model | .file => false

/-- A layout of such records. -/
def flat : Layout → Bool
  | .leaf _               => true
  | .list item            => item.flat
  | .record r | .flagOr r => r.flat

/-- The defaults of an entry have at most so many containers open at once. -/
def Entry.DefaultFits (e : Entry) (room : Nat) : Prop :=
  ∀ value, e.presence = .byDefault value → value.depth ≤ room

theorem Record.flat_entries {r : Record} {j : Json} {entries : List Entry} (hr : r.flat = true)
    (h : r.entries? j = some entries) : ∀ e ∈ entries, e.layout.flat = true ∧ e.DefaultFits 0 := by
  unfold Record.entries? at h
  split at h
  · obtain ⟨⟨name, settings⟩, -, h⟩ := Option.bind_eq_some_iff.mp h
    obtain ⟨others, hothers, rfl⟩ := Option.map_eq_some_iff.mp h
    refine List.forall_mem_cons.mpr ⟨⟨rfl, nofun⟩, ?_⟩
    unfold kindEntries? at hothers
    split at hothers <;> cases hothers
    all_goals simp [Layout.flat, flat, Entry.DefaultFits]
  all_goals first | contradiction | obtain rfl := Option.some.inj h
  all_goals simp [settingsEntries, Layout.flat, flat, Entry.DefaultFits, Json.depth]

/-- A leaf is written within its room. -/
theorem Leaf.depth_of_rewrite? {l : Leaf} {room : Nat} {j k : Json}
    (h : l.rewrite? room j = some k) : k.depth ≤ room := by
  cases l <;> obtain ⟨a, ha, rfl⟩ := Option.map_eq_some_iff.mp h
  case values => exact Json.fits_values room j a ha
  case defaults => exact Json.fits_defaults room j a ha
  all_goals exact Nat.zero_le _

/-- A record is written within its room if what is in it is, and the defaults are. -/
theorem depth_record {inner : Nat} {r : Record} {j k : Json} {entries : List Entry}
    (hentries : r.entries? j = some entries)
    (hinner : ∀ e ∈ entries, (∀ j k, rewrite? inner e.layout j = some k → k.depth ≤ inner) ∧
      e.DefaultFits inner)
    (h : rewrite? (inner + 1) (.record r) j = some k) : k.depth ≤ inner + 1 := by
  obtain ⟨_, hroom, entries', slots, row, hentries', -, hrow, rfl⟩ := rewrite?_record_cases h
  obtain rfl := Nat.succ.inj hroom
  obtain rfl := Option.some.inj (hentries.symm.trans hentries')
  obtain ⟨members, hwritten⟩ : ∃ members, written row = .object members := ⟨_, rfl⟩
  rw [hwritten, Json.depth, Nat.add_le_add_iff_right, membersDepth_le]
  intro m hm
  obtain ⟨e, hmem, -⟩ := (mem_written hwritten).mp hm
  obtain ⟨slot, hzip, hrewrite⟩ := mem_row hrow hmem
  obtain ⟨hread, hdefault⟩ := hinner e (List.of_mem_zip hzip).1
  cases slot with
  | none => exact hdefault m.2 (Entry.rewrite?_none hrewrite)
  | some j' =>
      rcases Entry.rewrite?_some hrewrite with ⟨-, -, hnone⟩ | ⟨-, k', hsome, hk⟩
      · cases hnone
      · exact Option.some.inj hsome ▸ hread j' k' hk

/-- **What is read in a flat layout is written within the room that it was read in.** -/
theorem depth_of_rewrite? {room : Nat} {layout : Layout} {j k : Json} (hflat : layout.flat = true)
    (h : rewrite? room layout j = some k) : k.depth ≤ room := by
  induction room generalizing layout j k with
  | zero =>
      cases layout with
      | leaf l => exact Leaf.depth_of_rewrite? h
      | list item => cases h
      | record r => cases h
      | flagOr r =>
          rcases rewrite?_flagOr_cases h with ⟨on, -, rfl⟩ | ⟨-, h⟩
          · exact Nat.zero_le _
          · cases h
  | succ inner ih =>
      have hrecord : ∀ {r : Record}, r.flat = true →
          rewrite? (inner + 1) (.record r) j = some k → k.depth ≤ inner + 1 := by
        intro r hr h
        obtain ⟨_, -, entries, -, -, hentries, -⟩ := rewrite?_record_cases h
        refine depth_record hentries (fun e he => ?_) h
        obtain ⟨hlayout, hdefault⟩ := Record.flat_entries hr hentries e he
        exact ⟨fun _ _ => ih hlayout, fun value hv => (hdefault value hv).trans (Nat.zero_le _)⟩
      cases layout with
      | leaf l => exact Leaf.depth_of_rewrite? h
      | list item =>
          cases j with
          | array items =>
              obtain ⟨items', hitems, rfl⟩ := Option.map_eq_some_iff.mp h
              refine Nat.succ_le_succ (Json.itemsDepth_le.mpr fun k hk => ?_)
              obtain ⟨item', -, hitem⟩ := Json.exists_of_mapM hitems hk
              have hitemFlat : item.flat = true := hflat
              exact ih hitemFlat hitem
          | null | bool _ | number _ | string _ | object _ | unreadable => cases h
      | record r => exact hrecord hflat h
      | flagOr r =>
          rcases rewrite?_flagOr_cases h with ⟨on, -, rfl⟩ | ⟨-, h⟩
          · exact Nat.zero_le _
          · exact hrecord hflat h

/-- What is read of a type is written within a room if it is rewritten so. -/
theorem Describes.fitsIn {α : Type} {layout : Layout} {read : Nat → Json → Option α}
    {write : α → Json} (h : Describes layout read write) {room : Nat}
    (hdepth : ∀ {j k}, layout.rewrite? room j = some k → k.depth ≤ room) :
    FitsIn read write room := fun j _ ha =>
  hdepth ((h room j).trans (congrArg (Option.map write) ha))

theorem Describes.fits {α : Type} {layout : Layout} {read : Nat → Json → Option α}
    {write : α → Json} (h : Describes layout read write) (hflat : layout.flat = true) :
    Json.Fits read write := fun _ => h.fitsIn (depth_of_rewrite? hflat)

/-- A record of flat values is written where there is room for an empty list by default. -/
theorem depth_of_flat_entries {inner : Nat} {r : Record} {j k : Json} {entries : List Entry}
    (hentries : r.entries? j = some entries)
    (hflat : ∀ e ∈ entries, e.layout.flat = true ∧ e.DefaultFits 1)
    (h : rewrite? (inner + 2) (.record r) j = some k) : k.depth ≤ inner + 2 := by
  refine depth_record hentries (fun e he => ?_) h
  obtain ⟨hlayout, hdefault⟩ := hflat e he
  exact ⟨fun _ _ => depth_of_rewrite? hlayout, fun value hv =>
    (hdefault value hv).trans (Nat.le_add_left 1 inner)⟩

theorem depth_object {inner : Nat} {j k : Json}
    (h : rewrite? (inner + 2) (.record .object) j = some k) : k.depth ≤ inner + 2 := by
  refine depth_of_flat_entries rfl ?_ h
  simp [fields, flat, Record.flat, Entry.DefaultFits, Json.depth, Json.itemsDepth]

theorem depth_model {inner : Nat} {j k : Json}
    (h : rewrite? (inner + 2) (.record .model) j = some k) : k.depth ≤ inner + 2 := by
  refine depth_of_flat_entries rfl ?_ h
  simp [settingsEntries, fields, flat, Record.flat, Entry.DefaultFits, Json.depth, Json.itemsDepth]

end Layout

/-! ### Codecs -/

/-- Reads a text and writes what was read. -/
def Json.rewriteText? {α : Type} (read : Nat → Json → Option α) (write : α → Json)
    (text : String) : Option String := (decode? read text).map fun a => (write a).render

/-- A value is read from its text just where no more containers are open in that at once than a
reader allows, as `again` of it, which is the value itself just where its numbers last.  What is
read from any text is written within that bound and read again; and so a text that was written is
rewritten as itself, if the numbers in it last. -/
structure Json.RoundTrips {α : Type} (read : Nat → Json → Option α) (write : α → Json)
    (again : α → α) : Prop where
  value : ∀ a, ∃ count, openAtOnce? (write a).render = some count ∧
    decode? read (write a).render = if count ≤ maxDepth then some (again a) else none
  same : ∀ a, again a = a ↔ (write a).Lasts
  text : ∀ text a, decode? read text = some a →
    (∃ count, openAtOnce? (write a).render = some count ∧ count ≤ maxDepth) ∧
      decode? read (write a).render = some (again a)
  idempotent : ∀ text a, decode? read text = some a → (write a).Lasts →
    rewriteText? read write (write a).render = some (write a).render

/-- Codecs go round if values read back and those that are read in the room of a text fit it. -/
theorem Json.roundTrips {α : Type} {read : Nat → Json → Option α} {write : α → Json}
    {again : α → α} (hagain : Rereading write again) (hback : ∀ a, ReadsBack read write a)
    (hfits : FitsIn read write maxDepth) (hreadable : ∀ a, (write a).readable = true) :
    RoundTrips read write again where
  value a := ⟨_, openAtOnce?_render _, hagain.decodes (hreadable a) (hback (again a))⟩
  same a := hagain.eq_self_iff (hback a) (hback (again a))
  text text a h := by
    obtain ⟨j, -, hj⟩ := Option.bind_eq_some_iff.mp h
    exact ⟨⟨_, openAtOnce?_render _, hfits j a hj⟩,
      hagain.decodes_of_read (hreadable a) (hback (again a)) hfits h⟩
  idempotent text a h hlasts := by
    have hread := hagain.decodes_of_read (hreadable a) (hback (again a)) hfits h
    rw [(hagain.eq_self_iff (hback a) (hback (again a))).mpr hlasts] at hread
    rw [rewriteText?, hread, Option.map_some]

namespace Declaration

/-- **The codecs of declarations go round.**  Of kinds, options, fields, objects, settings and
models, every value is read from its text, with what its numbers are read as, if that has at most
127 containers open at once, and else nothing is; and whatever a text is read as, however it is
spelled, the text that is written of that keeps to the bound and is read again.  A value whose
numbers last, as all integers do, is read as itself, and its text is rewritten as itself. -/
theorem codecs_round_trip :
    Json.RoundTrips Kind.read? Kind.toJson Kind.reread ∧
    Json.RoundTrips FieldOptions.read? FieldOptions.toJson FieldOptions.reread ∧
    Json.RoundTrips Field.read? Field.toJson Field.reread ∧
    Json.RoundTrips Object.read? Object.toJson Object.reread ∧
    Json.RoundTrips Settings.read? Settings.toJson Settings.reread ∧
    Json.RoundTrips Model.read? Model.toJson Model.reread := by
  refine ⟨?_, ?_, ?_, ?_, ?_, ?_⟩
  · exact Json.roundTrips Kind.rereading Kind.readsBack (Layout.describes_kind.fits rfl _)
      Kind.readable_toJson
  · exact Json.roundTrips FieldOptions.rereading FieldOptions.readsBack
      (Layout.describes_options.fits rfl _) FieldOptions.readable_toJson
  · exact Json.roundTrips Field.rereading Field.readsBack (Layout.describes_field.fits rfl _)
      Field.readable_toJson
  · exact Json.roundTrips Object.rereading Object.readsBack
      (Layout.describes_object.fitsIn Layout.depth_object) Object.readable_toJson
  · exact Json.roundTrips Settings.rereading Settings.readsBack
      (Layout.describes_settings.fits rfl _) Settings.readable_toJson
  · exact Json.roundTrips Model.rereading Model.readsBack
      (Layout.describes_model.fitsIn Layout.depth_model) Model.readable_toJson

/-- An array of dates that is spelled by places is written by names, which is how it is rewritten
from then on; and options that are written are read. -/
theorem codecs_round_trip_by_place :
    Json.rewriteText? Kind.read? Kind.toJson (Kind.arrayOf .date).toJson.render =
      some (Kind.arrayOf .date).toJson.render ∧
    decode? FieldOptions.read? (FieldOptions.toJson {}).render = some {} := by
  have hplace : decode? Kind.read?
      (Json.array [.string "array", .object [("kind", .count 3)]]).render =
        some (Kind.arrayOf .date) := by
    rw [decode?, Json.parse?_render rfl]
    rfl
  refine ⟨codecs_round_trip.1.idempotent _ _ hplace (by decide), ?_⟩
  obtain ⟨count, hcount, hread⟩ := codecs_round_trip.2.1.value {}
  rw [Json.openAtOnce?_render] at hcount
  obtain rfl := Option.some.inj hcount
  exact hread

end Declaration

end Schemata
