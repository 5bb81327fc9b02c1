import Schemata.Proofs.Declaration.Layout
import Schemata.Proofs.Declaration.Reading

/-!
# Schemata — Proofs — Declaration — Described

Each type of declaration is laid out as the table says: to rewrite JSON in the layout of the type is
to read the type and to write it (`Layout.Describes`).  A type is compared with its entries slot by
slot (`Layout.describes_record`), a kind by its name first (`Layout.map_ofSettings?`).
-/

namespace Schemata

open Json (given bind_record?)

namespace Layout

/-- A layout is that of a type if to rewrite in it is to read the type and to write it. -/
def Describes {α : Type} (layout : Layout) (read : Nat → Json → Option α)
    (write : α → Json) : Prop :=
  ∀ room j, layout.rewrite? room j = (read room j).map write

/-- A text is rewritten as the text that it is read as. -/
theorem rewrite_text (room : Nat) (j : Json) :
    rewrite? room (.leaf .text) j = j.string?.map .string := rewrite?_leaf room .text j

theorem rewrite_flag (room : Nat) (j : Json) :
    rewrite? room (.leaf .flag) j = j.bool?.map .bool := rewrite?_leaf room .flag j

/-- A count is rewritten as the count that it is read as, however it was spelled. -/
theorem rewrite_count (room : Nat) (j : Json) :
    rewrite? room (.leaf .count) j = j.count?.map Json.count := rewrite?_leaf room .count j

theorem rewrite_number (room : Nat) (j : Json) :
    rewrite? room (.leaf .number) j = j.number?.map .number := rewrite?_leaf room .number j

/-- Allowed values are rewritten item by item. -/
theorem rewrite_values (room : Nat) (j : Json) :
    rewrite? room (.leaf .values) j = (Json.list? Json.value? room j).map Json.values :=
  rewrite?_leaf room .values j

/-- Defaults are rewritten with the last value of each name. -/
theorem rewrite_defaults (room : Nat) (j : Json) :
    rewrite? room (.leaf .defaults) j = (Json.defaults? room j).map Defaults.json :=
  rewrite?_leaf room .defaults j

/-- What is written of a row is given by the keys of its entries and its slots. -/
theorem written_eq_given (row : List (Entry × Option Json)) :
    written row = .object (given (row.map fun p => p.1.key) (row.map Prod.snd)) := by
  rw [written]
  congr 1
  induction row with
  | nil => rfl
  | cons p rest ih =>
      obtain ⟨e, slot⟩ := p
      cases slot <;> simp [given, ih]

/-! ### Slots and their entries -/

section Row

variable {β : Type} {inner : Layout → Json → Option Json} {entries : List Entry}
  {slots : List (Option Json)}

theorem map_row?_nil (g : List (Entry × Option Json) → β) :
    (row? inner [] []).map g = some (g []) := rfl

/-- A row is rewritten slot by slot, up to the first that is not read. -/
theorem map_row?_cons (e : Entry) (slot : Option Json) (g : List (Entry × Option Json) → β) :
    (row? inner (e :: entries) (slot :: slots)).map g = (e.rewrite? inner slot).bind fun slot' =>
      (row? inner entries slots).map fun row => g ((e, slot') :: row) := by
  rw [row?, List.zip_cons_cons, List.mapM_cons]
  simp only [row?, Option.map_eq_bind, Option.bind_eq_bind, Option.pure_def, Option.bind_assoc,
    Option.bind_some, Function.comp_def]

/-- What a slot is read as, and what of that is written, by the presence of its entry. -/
inductive Presence.Reads {α : Type} (read : Json → Option α) (write : α → Json) :
    Presence → {β : Type} → (Option Json → Option β) → (β → Option Json) → Prop where
  | required : Reads read write .required (Json.required read) fun a => some (write a)
  | optional : Reads read write .optional (Json.optional read) (Option.map write)
  | byDefault {value : Json} (default : α) (h : value = write default) :
      Reads read write (.byDefault value) (Json.withDefault default read) fun a => some (write a)

/-- A slot is rewritten as it is read by its entry and written. -/
theorem map_row?_slot {α γ : Type} {layout : Layout} {read : Json → Option α} {write : α → Json}
    {presence : Presence} {fill : Option Json → Option γ} {show' : γ → Option Json}
    (h : ∀ j, inner layout j = (read j).map write)
    (hpresence : presence.Reads read write fill show') (key : String) (slot : Option Json)
    (g : List (Entry × Option Json) → β) :
    (row? inner (⟨key, presence, layout⟩ :: entries) (slot :: slots)).map g =
      (fill slot).bind fun a => (row? inner entries slots).map fun row =>
        g ((⟨key, presence, layout⟩, show' a) :: row) := by
  rw [map_row?_cons]
  cases hpresence with
  | required =>
      cases slot <;> simp [Entry.rewrite?, Json.required, h, Option.bind_map, Function.comp_def]
  | optional =>
      simp only [Entry.rewrite?, Json.optional]
      split <;> simp [h, Option.bind_map, Function.comp_def]
  | byDefault default hvalue =>
      cases slot <;> simp [Entry.rewrite?, Json.withDefault, h, hvalue, Option.bind_map,
        Function.comp_def]

end Row

/-- Lists are laid out as their items are. -/
theorem Describes.list {α : Type} {layout : Layout} {read : Nat → Json → Option α}
    {write : α → Json} (h : Describes layout read write) :
    Describes (.list layout) (Json.list? read) (fun as => .array (as.map write)) := by
  have hmap : ∀ room (items : List Json), items.mapM (layout.rewrite? room)
      = (items.mapM (read room)).map (List.map write) := by
    intro room items
    induction items with
    | nil => rfl
    | cons j rest ih => simp [h room j, ih, Option.bind_map, Option.map_bind]
  intro room j
  cases room with
  | zero => rfl
  | succ room =>
      cases j with
      | array items => simp [rewrite?, Json.list?, hmap, Function.comp_def]
      | null | bool _ | number _ | string _ | object _ | unreadable => rfl

/-- A record is described by what is done with its slots. -/
theorem describes_record {α : Type} {r : Record} {entries : List Entry}
    {read : Nat → Json → Option α} {write : α → Json} {fill : Nat → List (Option Json) → Option α}
    (hentries : ∀ j, r.entries? j = some entries) (hzero : ∀ j, read 0 j = none)
    (hsucc : ∀ room j, read (room + 1) j =
      (Json.record? true (entries.map Entry.key) j).bind (fill room))
    (hfill : ∀ room slots, slots.length = entries.length →
      (row? (rewrite? room) entries slots).map written = (fill room slots).map write) :
    Describes (.record r) read write := by
  intro room j
  cases room with
  | zero =>
      rw [hzero]
      rfl
  | succ room =>
      rw [rewrite?, Record.rewrite?, hentries, hsucc, Option.map_bind]
      exact bind_record? fun slots hlen => hfill room slots (hlen.trans (List.length_map _))

/-! ### Kinds -/

/-- Settings are rewritten by the entries of a name if they are slot by slot. -/
theorem map_settings {room : Nat} (name : String) {settings : Json} {entries : List Entry}
    {fill : List (Option Json) → Option Kind}
    {finish : List (Entry × Option Json) → Json} (hentries : kindEntries? name = some entries)
    (hfill : ∀ slots, slots.length = entries.length →
      (fill slots).map Kind.toJson = (row? (rewrite? room) entries slots).map finish) :
    ((Json.record? true (entries.map Entry.key) settings).bind fill).map Kind.toJson =
      (kindEntries? name).bind fun entries =>
        (Json.record? true (entries.map Entry.key) settings).bind fun slots =>
          (row? (rewrite? room) entries slots).map finish := by
  rw [hentries, Option.bind_some, Option.map_bind]
  exact bind_record? fun slots hlen => hfill slots (hlen.trans (List.length_map _))

/-- The settings of a kind are rewritten by the entries of its name, and its name comes first. -/
theorem map_ofSettings? {room : Nat} {inner : Json → Option Kind}
    (hinner : ∀ j, rewrite? room (.record (.kind true)) j = (inner j).map Kind.toJson)
    (nested : Bool) (name : String) (settings : Json) :
    (Kind.ofSettings? inner room name settings).map Kind.toJson =
      (kindEntries? name).bind fun entries =>
        (Json.record? true (entries.map Entry.key) settings).bind fun slots =>
          (row? (rewrite? room) entries slots).map fun row =>
            written ((tagEntry nested, some (.string name)) :: row) := by
  unfold Kind.ofSettings?
  split
  case h_1 =>
      refine map_settings "string" rfl fun slots hlen => ?_
      rcases slots with _ | ⟨least, _ | ⟨most, _ | ⟨pattern, _ | ⟨allowed, _ | _⟩⟩⟩⟩ <;>
        cases hlen
      simp only [map_row?_slot (rewrite_count room) .optional,
        map_row?_slot (rewrite_text room) .optional, map_row?_slot (rewrite_values room) .optional,
        StringLimits.ofSlots?, map_row?_nil, Option.bind_eq_bind, Option.pure_def, Option.map_bind,
        Option.bind_assoc, Option.bind_some, Option.map_some, Kind.toJson_eq_given,
        written_eq_given, Function.comp_def]
      rfl
  case h_2 =>
      refine map_settings "number" rfl fun slots hlen => ?_
      rcases slots with _ | ⟨minimum, _ | ⟨maximum, _ | ⟨above, _ | ⟨below, _ | ⟨multipleOf, _ |
        ⟨allowed, _ | _⟩⟩⟩⟩⟩⟩ <;>
        cases hlen
      simp only [map_row?_slot (rewrite_number room) .optional,
        map_row?_slot (rewrite_values room) .optional, NumberLimits.ofSlots?, map_row?_nil,
        Option.bind_eq_bind, Option.pure_def, Option.map_bind, Option.bind_assoc,
        Option.bind_some, Option.map_some, Kind.toJson_eq_given, written_eq_given,
        Function.comp_def]
      rfl
  case h_8 =>
      refine map_settings "array" rfl fun slots hlen => ?_
      rcases slots with _ | ⟨item, _ | ⟨least, _ | ⟨most, _ | ⟨unique, _ | _⟩⟩⟩⟩ <;>
        cases hlen
      simp only [map_row?_slot hinner .optional, map_row?_slot (rewrite_count room) .optional,
        map_row?_slot (rewrite_flag room) .optional, ArrayLimits.ofSlots?, map_row?_nil,
        Option.bind_eq_bind, Option.pure_def, Option.map_bind, Option.bind_assoc,
        Option.bind_some, Option.map_some, Kind.toJson_eq_given, written_eq_given,
        Function.comp_def]
      rfl
  case h_9 =>
      refine map_settings "object" rfl fun slots hlen => ?_
      rcases slots with _ | ⟨reference, _ | ⟨least, _ | ⟨most, _ | _⟩⟩⟩ <;>
        cases hlen
      simp only [map_row?_slot (rewrite_text room) .optional,
        map_row?_slot (rewrite_count room) .optional, ObjectLimits.ofSlots?, map_row?_nil,
        Option.bind_eq_bind, Option.pure_def, Option.map_bind, Option.bind_assoc, Option.bind_some,
        Option.map_some, Kind.toJson_eq_given, written_eq_given, Function.comp_def]
      rfl
  case h_10 =>
      refine map_settings "objectGeneric" rfl fun slots hlen => ?_
      rcases slots with _ | ⟨value, _ | ⟨pattern, _ | ⟨least, _ | ⟨most, _ | _⟩⟩⟩⟩ <;>
        cases hlen
      simp only [map_row?_slot hinner .optional, map_row?_slot (rewrite_text room) .optional,
        map_row?_slot (rewrite_count room) .optional, ObjectLimits.ofSlots?, map_row?_nil,
        Option.bind_eq_bind, Option.pure_def, Option.map_bind, Option.bind_assoc,
        Option.bind_some, Option.map_some, Kind.toJson_eq_given, written_eq_given,
        Function.comp_def]
      rfl
  case h_11 =>
      refine map_settings "enum" rfl fun slots hlen => ?_
      rcases slots with _ | ⟨values, _ | _⟩ <;>
        cases hlen
      simp only [map_row?_slot (rewrite_values room) .required, map_row?_nil, Option.bind_eq_bind,
        Option.pure_def, Option.map_bind, Option.map_some, Kind.toJson_eq_given,
        written_eq_given, Function.comp_def]
      rfl
  case h_3 | h_4 | h_5 | h_6 | h_7 =>
      simp only [kindEntries?, Option.bind_some, List.map_nil]
      cases Json.record? true [] settings with
      | none => rfl
      | some slots =>
          rw [Option.map_some, Option.map_some, Kind.toJson_eq_given]
          rfl
  case h_12 =>
      have hnone : kindEntries? name = none := by
        unfold kindEntries?
        split <;> first | rfl | contradiction
      rw [hnone]
      rfl

/-- The name of a kind is a slot in front of those of its settings. -/
theorem record?_of_tagged? {nested : Bool} {j settings : Json} {name : String}
    (h : Kind.tagged? nested j = some (name, settings)) :
    ∃ tag, Kind.tag? nested tag = some name ∧ ∀ keys, "kind" ∉ keys →
      Json.record? true ("kind" :: keys) j =
        (Json.record? true keys settings).map (some tag :: ·) := by
  unfold Kind.tagged? at h
  split at h
  · next members =>
      split at h
      · next tag hvalues =>
          obtain ⟨_, htag, he⟩ := Option.map_eq_some_iff.mp h
          obtain ⟨rfl, rfl⟩ := Prod.mk.inj he
          refine ⟨tag, htag, fun keys hkeys => ?_⟩
          rw [Json.record?, Json.slots?_cons hkeys hvalues]
          rfl
      · cases h
  · next tag settings =>
      obtain ⟨_, htag, he⟩ := Option.map_eq_some_iff.mp h
      obtain ⟨rfl, rfl⟩ := Prod.mk.inj he
      refine ⟨tag, htag, fun keys _ => ?_⟩
      simp only [Json.record?, List.length_cons, Nat.add_le_add_iff_right, Nat.add_sub_add_right]
      split <;> rfl
  · cases h

/-- A kind is rewritten as its name and its settings are. -/
theorem rewrite?_kind (nested : Bool) (room : Nat) (j : Json) :
    rewrite? (room + 1) (.record (.kind nested)) j = (Kind.tagged? nested j).bind fun p =>
      (kindEntries? p.1).bind fun entries =>
        (Json.record? true (entries.map Entry.key) p.2).bind fun slots =>
          (row? (rewrite? room) entries slots).map fun row =>
            written ((tagEntry nested, some (.string p.1)) :: row) := by
  rw [rewrite?, Record.rewrite?, Record.entries?]
  cases htagged : Kind.tagged? nested j with
  | none => rfl
  | some p =>
      obtain ⟨name, settings⟩ := p
      obtain ⟨tag, htag, hrecord⟩ := record?_of_tagged? htagged
      simp only [Option.bind_some]
      cases hentries : kindEntries? name with
      | none => rfl
      | some entries =>
          have hslots := hrecord _ (kind_notMem_kindEntries hentries)
          have hrow : ∀ slots, (row? (rewrite? room) (tagEntry nested :: entries)
              (some tag :: slots)).map written = (row? (rewrite? room) entries slots).map fun row =>
                written ((tagEntry nested, some (.string name)) :: row) := by
            intro slots
            have hread : Json.required (Kind.tag? nested) (some tag) = some name := htag
            rw [tagEntry, map_row?_slot (rewrite?_leaf room (.tag nested)) .required, hread,
              Option.bind_some]
          simp only [Option.map_some, Option.bind_eq_bind, Option.bind_some, List.map_cons,
            show (tagEntry nested).key = "kind" from rfl, hslots, Option.bind_map,
            Function.comp_def, hrow]

/-- Kinds within kinds are laid out by the table: by induction on how deep they may be. -/
theorem describes_kind_nested :
    Describes (.record (.kind true)) Kind.readNested? Kind.toJson := by
  intro room
  induction room with
  | zero => exact fun j => rfl
  | succ room ih =>
      intro j
      rw [rewrite?_kind, Kind.readNested?, Option.map_bind]
      exact congrArg _ (funext fun p => (map_ofSettings? ih true p.1 p.2).symm)

/-- Kinds of fields are laid out by the table. -/
theorem describes_kind : Describes (.record (.kind false)) Kind.read? Kind.toJson := by
  intro room j
  cases room with
  | zero => rfl
  | succ room =>
      rw [rewrite?_kind, Kind.read?, Option.map_bind]
      exact congrArg _ (funext fun p =>
        (map_ofSettings? (describes_kind_nested room) false p.1 p.2).symm)

/-! ### Options, fields and settings -/

theorem describes_hostType : Describes (.leaf .hostType) HostType.read? HostType.toJson :=
  fun room j => rewrite?_leaf room .hostType j

theorem describes_action :
    Describes (.leaf .action) ValidationAction.read? ValidationAction.toJson :=
  fun room j => rewrite?_leaf room .action j

theorem describes_level :
    Describes (.leaf .level) ValidationLevel.read? ValidationLevel.toJson :=
  fun room j => rewrite?_leaf room .level j

/-- The names of timestamps are laid out by the table. -/
theorem describes_stampNames : Describes (.record .stamps) StampNames.read? StampNames.toJson := by
  refine describes_record (fun _ => rfl) (fun _ => rfl) (fun _ _ => rfl) fun room slots hlen => ?_
  match slots, hlen with
  | [created, updated], _ =>
      simp only [map_row?_slot (rewrite_text room) (.byDefault "createdAt" rfl),
        map_row?_slot (rewrite_text room) (.byDefault "updatedAt" rfl), map_row?_nil,
        Option.bind_eq_bind, Option.pure_def, Option.map_bind, Option.map_some, written_eq_given,
        Function.comp_def]
      rfl

/-- Timestamps are a flag or a record of names. -/
theorem describes_stamps : Describes (.flagOr .stamps) Timestamps.read? Timestamps.toJson := by
  intro room j
  cases j with
  | bool on => cases room <;> rfl
  | null | number _ | string _ | array _ | object _ | unreadable =>
      rw [rewrite?_flagOr (by simp), describes_stampNames]
      simp [Timestamps.read?, Function.comp_def, Timestamps.toJson]

/-- What the slots of settings are rewritten to, behind what else there is. -/
theorem map_row?_settings (room : Nat) (timestamps defaults action level : Option Json)
    (head : List (Entry × Option Json)) :
    (row? (rewrite? room) settingsEntries [timestamps, defaults, action, level]).map
        (fun row => written (head ++ row)) =
      (Settings.ofSlots? room timestamps defaults action level).map fun s =>
        .object (given (head.map (fun p => p.1.key) ++ Settings.keys)
          (head.map Prod.snd ++ s.slots)) := by
  have haction : Json.string "error" = ValidationAction.toJson .error := rfl
  have hlevel : Json.string "strict" = ValidationLevel.toJson .strict := rfl
  have hstamps : Json.bool false = Timestamps.toJson (.enabled false) := rfl
  simp only [settingsEntries, map_row?_slot (describes_stamps room) (.byDefault _ hstamps),
    map_row?_slot (rewrite_defaults room) .optional,
    map_row?_slot (describes_action room) (.byDefault _ haction),
    map_row?_slot (describes_level room) (.byDefault _ hlevel), map_row?_nil, Settings.ofSlots?,
    Option.bind_eq_bind, Option.pure_def, Option.map_bind, Option.map_some, written_eq_given,
    Function.comp_def, List.map_append]
  rfl

/-- Settings are laid out by the table. -/
theorem describes_settings : Describes (.record .settings) Settings.read? Settings.toJson := by
  refine describes_record (fun _ => rfl) (fun _ => rfl) (fun _ _ => rfl) fun room slots hlen => ?_
  match slots, hlen with
  | [timestamps, defaults, action, level], _ =>
      have hwrite : Settings.toJson = fun s => .object (given Settings.keys s.slots) :=
        funext fun s => congrArg Json.object s.members_eq_given
      rw [hwrite]
      exact map_row?_settings room timestamps defaults action level []

/-- Options are laid out by the table. -/
theorem describes_options :
    Describes (.record .options) FieldOptions.read? FieldOptions.toJson := by
  refine describes_record (fun _ => rfl) (fun _ => rfl) (fun _ _ => rfl) fun room slots hlen => ?_
  match slots, hlen with
  | [kind, needed], _ =>
      simp only [map_row?_slot (describes_kind room) .optional,
        map_row?_slot (rewrite_flag room) (.byDefault false rfl), map_row?_nil, Option.bind_eq_bind,
        Option.pure_def, Option.map_bind, Option.map_some, FieldOptions.toJson_eq_given,
        written_eq_given, Function.comp_def]
      rfl

/-- Fields are laid out by the table. -/
theorem describes_field :
    Describes (.record .field) Declaration.Field.read? Declaration.Field.toJson := by
  refine describes_record (fun _ => rfl) (fun _ => rfl) (fun _ _ => rfl) fun room slots hlen => ?_
  match slots, hlen with
  | [name, declared, kind, needed], _ =>
      simp only [map_row?_slot (rewrite_text room) .required,
        map_row?_slot (describes_kind room) .optional,
        map_row?_slot (describes_hostType room) .optional,
        map_row?_slot (rewrite_flag room) (.byDefault false rfl), map_row?_nil, Option.bind_eq_bind,
        Option.pure_def, Option.map_bind, Option.map_some, Declaration.Field.toJson_eq_given,
        written_eq_given, Function.comp_def]
      rfl

/-! ### Objects, models and files -/

theorem describes_fields :
    Describes fields (Json.list? Declaration.Field.read?) Declaration.fieldsToJson :=
  describes_field.list

/-- Objects are laid out by the table. -/
theorem describes_object :
    Describes (.record .object) Declaration.Object.read? Declaration.Object.toJson := by
  have hnone : Json.array [] = Declaration.fieldsToJson [] := rfl
  refine describes_record (fun _ => rfl) (fun _ => rfl) (fun _ _ => rfl) fun room slots hlen => ?_
  match slots, hlen with
  | [name, fields], _ =>
      simp only [map_row?_slot (rewrite_text room) .required,
        map_row?_slot (describes_fields room) (.byDefault _ hnone), map_row?_nil,
        Option.bind_eq_bind, Option.pure_def, Option.map_bind, Option.map_some,
        Declaration.Object.toJson_eq_given, written_eq_given, Function.comp_def]
      rfl

/-- Models are laid out by the table, with their settings among their own keys. -/
theorem describes_model :
    Describes (.record .model) Declaration.Model.read? Declaration.Model.toJson := by
  have hnone : Json.array [] = Declaration.fieldsToJson [] := rfl
  refine describes_record (fun _ => rfl) (fun _ => rfl) (fun _ _ => rfl) fun room slots hlen => ?_
  match slots, hlen with
  | [name, fields, timestamps, defaults, action, level], _ =>
      have hsettings := fun name fields =>
        map_row?_settings room timestamps defaults action level
          [(⟨"name", .required, .leaf .text⟩, some (.string name)),
            (⟨"fields", .byDefault (.array []), Layout.fields⟩,
              some (Declaration.fieldsToJson fields))]
      simp only [List.cons_append, List.nil_append] at hsettings
      simp only [map_row?_slot (rewrite_text room) .required,
        map_row?_slot (describes_fields room) (.byDefault _ hnone), hsettings, Option.bind_eq_bind,
        Option.pure_def, Function.comp_def, Declaration.Model.toJson_eq_given, Option.map_eq_bind,
        Option.bind_assoc, Option.bind_some]
      rfl

/-- Declaration files are laid out so, though none is written. -/
theorem describes_file :
    Describes (.record .file) Declaration.File.read? fun file =>
      .object (given ["objects", "model"]
        [some (.array (file.objects.map Declaration.Object.toJson)),
          file.model.map Declaration.Model.toJson]) := by
  have hnone : Json.array [] =
    .array (([] : List Declaration.Object).map Declaration.Object.toJson) := rfl
  refine describes_record (fun _ => rfl) (fun _ => rfl) (fun _ _ => rfl) fun room slots hlen => ?_
  match slots, hlen with
  | [objects, model], _ =>
      simp only [map_row?_slot (describes_object.list room) (.byDefault [] hnone),
        map_row?_slot (describes_model room) .optional, map_row?_nil, Option.bind_eq_bind,
        Option.pure_def, Option.map_bind, Option.map_some, written_eq_given, Function.comp_def]
      rfl

end Layout

end Schemata
