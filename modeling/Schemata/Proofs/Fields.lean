import Schemata.Proofs.Catalog.Building
import Schemata.Proofs.Document.Compiling

/-!
# Schemata — Proofs — Fields

Attaching fields, and every reason not to.  What a field offers is refused for its name, then for
want of a kind, and then for what its kind leaves open in its innermost place, where items and
values lead (`Kind.resolve_eq_error_iff`).  Each reason comes with one error (`Fields.Refuses`,
`Fields.attach_eq_error_iff`), which is told once of which field it is
(`DeclarationError.inField_inField`); what is not refused is attached (`Fields.attach_ok_iff`).

* `Fields.attach_answers`: what a field that is offered after any others comes to, and what its
  error names.
-/

namespace Schemata

/-! ### What an error names -/

namespace DeclarationError

/-- The field that an error names. -/
def field? : DeclarationError → Option String
  | .undeterminedKind field _ | .missingReference field | .duplicateField field
  | .reservedField field | .undeclaredDefault field | .unresolved field _ => some field
  | .missingItem | .missingValue | .unknownObject _ | .cyclicReference _ | .noChoices
  | .duplicateDeclaration _ => none

theorem root_eq_self_of_field? {e : DeclarationError} (h : e.field? = none) : e.root = e := by
  cases e with
  | unresolved => nomatch h
  | _ => rfl

/-- An error is told once of which field it is. -/
theorem inField_inField {e : DeclarationError} (field field' : String)
    (h : e ≠ .missingReference "") : (e.inField field).inField field' = e.inField field := by
  cases e with
  | missingReference known =>
      have hknown : known ≠ "" := fun heq => h (congrArg _ heq)
      simp only [inField, if_neg hknown]
  | _ => rfl

end DeclarationError

/-! ### Fields that are refused -/

/-- A type that implies no kind is one of lists or of structures. -/
theorem HostType.infer?_eq_none_iff {type : HostType} :
    type.infer? = none ↔ type = .array ∨ type = .object := by
  cases type <;> simp [infer?]

/-- A kind that a type implies leaves nothing out. -/
theorem HostType.not_fails_of_infer? {type : HostType} {kind : Kind} (h : type.infer? = some kind)
    (lookup : String → Lookup) (cause : DeclarationError) :
    ¬ Kind.Fails lookup kind.innermost cause := by
  cases type <;> cases h <;> nofun

namespace Fields

variable {lookup : String → Lookup} {fs fs' : Fields} {f : Declaration.Field}
  {e : DeclarationError} {kind : Kind}

/-- A name that a field can still be given. -/
def Free (fs : Fields) (name : String) : Prop := name ≠ versionField ∧ name ∉ fs.names

/-- A field says its kind, or says none and is declared with a type that implies it. -/
inductive Determines (f : Declaration.Field) : Kind → Prop where
  | given {kind : Kind} (h : f.kind = some kind) : Determines f kind
  | inferred {type : HostType} {kind : Kind} (hkind : f.kind = none)
      (htype : f.declared = some type) (h : type.infer? = some kind) : Determines f kind

/-- A field that says no kind, and whose declared type implies none. -/
def Undetermined (f : Declaration.Field) : Prop :=
  f.kind = none ∧ (f.declared = none ∨ f.declared = some .array ∨ f.declared = some .object)

/-- Why a field is refused, with the error that it is refused with. -/
inductive Refuses (lookup : String → Lookup) (fs : Fields) (f : Declaration.Field) :
    DeclarationError → Prop where
  | reserved (h : f.name = versionField) : Refuses lookup fs f (.reservedField f.name)
  | duplicate (hname : f.name ≠ versionField) (h : f.name ∈ fs.names) :
      Refuses lookup fs f (.duplicateField f.name)
  | undetermined (hname : fs.Free f.name) (h : Undetermined f) :
      Refuses lookup fs f (.undeterminedKind f.name f.declared)
  /-- An object that names no declaration, at any depth. -/
  | unnamed {kind : Kind} {limits : ObjectLimits} (hname : fs.Free f.name)
      (hkind : f.kind = some kind) (h : kind.innermost = .object none limits) :
      Refuses lookup fs f (.missingReference f.name)
  | unresolved {kind : Kind} {cause : DeclarationError} (hname : fs.Free f.name)
      (hkind : f.kind = some kind) (h : Kind.Fails lookup kind.innermost cause)
      (hcause : cause ≠ .missingReference "") :
      Refuses lookup fs f (.unresolved f.name cause)

theorem kindOf_eq_ok_iff :
    kindOf f.name f.declared f.options = .ok kind ↔ Determines f kind := by
  unfold kindOf
  simp only [Declaration.Field.options]
  constructor
  · intro h
    split at h
    · next given hkind => exact Except.ok.inj h ▸ .given hkind
    · next hkind =>
        split at h
        · next inferred hinferred =>
            obtain ⟨type, htype, h'⟩ := Option.bind_eq_some_iff.mp hinferred
            exact Except.ok.inj h ▸ .inferred hkind htype h'
        · nomatch h
  · rintro (hkind | ⟨hkind, htype, h⟩)
    · rw [hkind]
    · rw [hkind, htype, Option.bind_some, h]

theorem kindOf_eq_error_iff : kindOf f.name f.declared f.options = .error e ↔
    Undetermined f ∧ e = .undeterminedKind f.name f.declared := by
  unfold kindOf Undetermined
  simp only [Declaration.Field.options]
  cases f.kind with
  | some given => simp
  | none =>
      cases f.declared with
      | none => simp [eq_comm]
      | some type =>
          simp only [Option.bind_some, Option.some.injEq, reduceCtorEq, false_or, true_and,
            ← HostType.infer?_eq_none_iff]
          cases type.infer? <;> simp [eq_comm]

/-- A field whose name is free and whose kind can be told is attached if the kind resolves. -/
theorem attach_of_determines (hname : fs.Free f.name) (hkind : Determines f kind) :
    fs.attach lookup f.name f.declared f.options =
      ((kind.resolve lookup).mapError (.inField f.name)).map
        fun fragment => fs ++ [⟨f.name, fragment, f.required⟩] := by
  rw [attach_eq, if_neg hname.1, if_neg (mt contains_iff.mp hname.2), kindOf_eq_ok_iff.mpr hkind]
  cases hresolve : kind.resolve lookup <;> simp only [bind, Except.bind, hresolve] <;> rfl

theorem attach_of_refuses (h : Refuses lookup fs f e) :
    fs.attach lookup f.name f.declared f.options = .error e := by
  cases h with
  | reserved h => rw [attach_eq, if_pos h]; rfl
  | duplicate hname h => rw [attach_eq, if_neg hname, if_pos (contains_iff.mpr h)]; rfl
  | undetermined hname h =>
      rw [attach_eq, if_neg hname.1, if_neg (mt contains_iff.mp hname.2),
        kindOf_eq_error_iff.mpr ⟨h, rfl⟩]
      rfl
  | @unnamed kind limits hname hkind h =>
      have hresolve : kind.resolve lookup = .error (.missingReference "") :=
        Kind.resolve_eq_error_iff.mpr (h ▸ .reference limits)
      rw [attach_of_determines hname (.given hkind), hresolve]
      rfl
  | @unresolved kind cause hname hkind h hcause =>
      have hresolve : kind.resolve lookup = .error cause := Kind.resolve_eq_error_iff.mpr h
      rw [attach_of_determines hname (.given hkind), hresolve, Except.mapError, h.inField,
        if_neg hcause]
      rfl

theorem refuses_of_attach (h : fs.attach lookup f.name f.declared f.options = .error e) :
    Refuses lookup fs f e := by
  by_cases hversion : f.name = versionField
  · rw [attach_eq, if_pos hversion] at h
    exact Except.error.inj h ▸ .reserved hversion
  by_cases htaken : f.name ∈ fs.names
  · rw [attach_eq, if_neg hversion, if_pos (contains_iff.mpr htaken)] at h
    exact Except.error.inj h ▸ .duplicate hversion htaken
  have hname : fs.Free f.name := ⟨hversion, htaken⟩
  cases hkind : kindOf f.name f.declared f.options with
  | error e' =>
      obtain ⟨hundetermined, rfl⟩ := kindOf_eq_error_iff.mp hkind
      rw [attach_of_refuses (.undetermined hname hundetermined)] at h
      exact Except.error.inj h ▸ .undetermined hname hundetermined
  | ok kind =>
      have hkind := kindOf_eq_ok_iff.mp hkind
      rw [attach_of_determines hname hkind] at h
      cases hresolve : kind.resolve lookup with
      | ok fragment => rw [hresolve] at h; nomatch h
      | error cause =>
          rw [hresolve] at h
          obtain rfl := Except.error.inj h
          have hfails := Kind.resolve_eq_error_iff.mp hresolve
          -- a kind that a type implies always resolves
          rcases hkind with hkind | ⟨-, -, hinferred⟩
          swap
          · exact absurd hfails (HostType.not_fails_of_infer? hinferred lookup cause)
          rw [hfails.inField]
          split_ifs with hcause
          · subst hcause
            obtain ⟨-, limits, hinnermost⟩ := hfails.exists_limits
            exact .unnamed hname hkind hinnermost
          · exact .unresolved hname hkind hfails hcause

/-- **A field is refused for just these reasons**, with the error of the first. -/
theorem attach_eq_error_iff :
    fs.attach lookup f.name f.declared f.options = .error e ↔ Refuses lookup fs f e :=
  ⟨refuses_of_attach, attach_of_refuses⟩

/-- Below items and values an object that names no declaration is told by the field as well. -/
example : attach (fun _ => .missing) [] "tree" none
    ⟨some (.array (some (.map (some (.object none {})) none {})) {}), false⟩
      = .error (.missingReference "tree") := rfl

/-- A field that is attached comes behind the others, with the fragment of its kind. -/
theorem attach_ok_iff : fs.attach lookup f.name f.declared f.options = .ok fs' ↔
    fs.Free f.name ∧ ∃ kind fragment, Determines f kind ∧ kind.resolve lookup = .ok fragment ∧
      fs' = fs ++ [⟨f.name, fragment, f.required⟩] := by
  constructor
  · intro h
    obtain ⟨hversion, hnew, kind, fragment, hkind, hresolve, hfs⟩ := attach_cases h
    refine ⟨⟨hversion, ?_⟩, kind, fragment, kindOf_eq_ok_iff.mp hkind, hresolve, hfs⟩
    rw [← contains_iff, hnew]
    exact Bool.false_ne_true
  · rintro ⟨hname, kind, fragment, hkind, hresolve, rfl⟩
    rw [attach_of_determines hname hkind, hresolve]
    rfl

/-! ### Fields that are offered -/

/-- The fields after one is offered: they take it, or they are as before. -/
def offer (lookup : String → Lookup) (fs : Fields) (f : Declaration.Field) : Fields :=
  match fs.attach lookup f.name f.declared f.options with
  | .ok fs'  => fs'
  | .error _ => fs

/-- The fields after some are offered to none, each with what can be looked up then. -/
def offered (offers : List ((String → Lookup) × Declaration.Field)) : Fields :=
  offers.foldl (fun fs offer => fs.offer offer.1 offer.2) []

theorem Attached.offer (h : fs.Attached) (lookup : String → Lookup) (f : Declaration.Field) :
    (fs.offer lookup f).Attached := by
  unfold Fields.offer
  split
  · next hattach => exact h.attach hattach
  · exact h

theorem attached_offered (offers : List ((String → Lookup) × Declaration.Field)) :
    (offered offers).Attached := by
  unfold offered
  suffices ∀ fs : Fields, fs.Attached →
      (offers.foldl (fun fs offer => fs.offer offer.1 offer.2) fs).Attached from this [] .nil
  induction offers with
  | nil => exact fun _ h => h
  | cons offer rest ih => exact fun fs h => ih _ (h.offer offer.1 offer.2)

theorem Refuses.field? (h : Refuses lookup fs f e) : e.field? = some f.name := by
  cases h <;> rfl

/-- What a kind fails with names no field, but for an object that names no declaration. -/
theorem field?_of_fails {cause : DeclarationError} (h : Kind.Fails lookup kind cause)
    (hcause : cause ≠ .missingReference "") : cause.field? = none := by
  cases h with
  | reference => exact absurd rfl hcause
  | _ => rfl

/-- An error has an error that names no field within it, in the name of the field, or there is no
such error. -/
theorem Refuses.eq_unresolved_iff (h : Refuses lookup fs f e) {cause : DeclarationError} :
    e = .unresolved f.name cause ↔ e.root = cause ∧ cause.field? = none := by
  cases h with
  | @unresolved _ cause' _ _ h hcause =>
      have hfield := field?_of_fails h hcause
      have hroot : (DeclarationError.unresolved f.name cause').root = cause' :=
        DeclarationError.root_eq_self_of_field? hfield
      rw [hroot]
      refine ⟨fun heq => ?_, fun heq => heq.1 ▸ rfl⟩
      obtain rfl := (DeclarationError.unresolved.inj heq).2
      exact ⟨rfl, hfield⟩
  | _ => exact iff_of_false nofun fun ⟨hroot, hfield⟩ => nomatch hroot ▸ hfield

theorem offered_snoc (offers : List ((String → Lookup) × Declaration.Field)) :
    offered (offers ++ [(lookup, f)]) = (offered offers).offer lookup f := by
  rw [offered, List.foldl_append]
  rfl

/-- **What a field that is offered after any others comes to.**  It is refused for a first reason
and with the error of that reason, which names the field and at most one cause; the fields are then
as they were.  Or there is no reason, and it comes behind the others, with the fragment of its kind.
Names come once each, and none is that of the field that counts revisions. -/
theorem attach_answers (offers : List ((String → Lookup) × Declaration.Field))
    (lookup : String → Lookup) (f : Declaration.Field) :
    let fs := offered offers
    let fs' := offered (offers ++ [(lookup, f)])
    (∀ e, fs.attach lookup f.name f.declared f.options = .error e ↔ Refuses lookup fs f e) ∧
    (∀ e, Refuses lookup fs f e → fs' = fs ∧ e.field? = some f.name ∧
      ∀ cause, e = .unresolved f.name cause ↔ e.root = cause ∧ cause.field? = none) ∧
    ((∀ e, ¬ Refuses lookup fs f e) → ∃ kind fragment, Determines f kind ∧
      kind.resolve lookup = .ok fragment ∧ fs' = fs ++ [⟨f.name, fragment, f.required⟩] ∧
      fs.attach lookup f.name f.declared f.options = .ok fs') ∧
    fs.names.Nodup ∧ versionField ∉ fs.names := by
  intro fs fs'
  have hfs' : fs' = fs.offer lookup f := offered_snoc offers
  refine ⟨fun e => attach_eq_error_iff, fun e h => ⟨?_, h.field?, fun cause => h.eq_unresolved_iff⟩,
    fun hfree => ?_, (attached_offered offers).names⟩
  · rw [hfs', offer, attach_of_refuses h]
  · cases hattach : fs.attach lookup f.name f.declared f.options with
    | error e => exact absurd (refuses_of_attach hattach) (hfree e)
    | ok taken =>
        obtain ⟨-, kind, fragment, hkind, hresolve, htaken⟩ := attach_ok_iff.mp hattach
        have htaken' : fs' = taken := by rw [hfs', offer, hattach]
        exact ⟨kind, fragment, hkind, hresolve, htaken'.trans htaken, congrArg _ htaken'.symm⟩

end Fields

end Schemata
