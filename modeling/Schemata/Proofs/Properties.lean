import Schemata.Proofs.Fields

/-!
# Schemata — Proofs — Properties

Properties as a map in the order of insertion.  A fragment that is put under a name takes the place
of the one that is there, which is given back, or comes behind all others (`Properties.Exchanged`).
Properties are filled one by one, collected from pairs, and read from objects whose keys may come
again (`Properties.Change`).  Each way they are what is collected from the pairs that they were
given (`Properties.run_eq_ofList`): the names in the order in which they came first, and under each
the last fragment (`Properties.Holds`).

Fields give their properties and the names that are required in the order in which they were
attached (`Fields.InOrder`).

* `Properties.insertion_ordered`: what properties hold after any changes, and what fields that were
  attached give.
-/

namespace Schemata

/-! ### A fragment under a name -/

namespace Properties

/-- What comes of putting a fragment under a name: it takes the place of the one that is there,
which is given back, or it comes behind all others.  Nothing else moves. -/
inductive Exchanged (name : String) (f : Fragment) :
    Properties → Option Fragment × Properties → Prop where
  | replaced {before behind : Properties} (old : Fragment) (hbefore : name ∉ before.names)
      (hbehind : name ∉ behind.names) :
      Exchanged name f (before ++ (name, old) :: behind) (some old, before ++ (name, f) :: behind)
  | added {ps : Properties} (h : name ∉ ps.names) :
      Exchanged name f ps (none, ps ++ [(name, f)])

variable {ps before : Properties} {name : String}

theorem exchange_of_notMem (h : name ∉ ps.names) (f : Fragment) :
    ps.exchange name f = (none, ps ++ [(name, f)]) := by
  have hnone : ps.get? name = none := Option.not_isSome_iff_eq_none.mp (mt contains_iff.mp h)
  rw [exchange_eq, insert_of_notMem h, hnone]

theorem exchange_append (h : name ∉ before.names) (old f : Fragment) (behind : Properties) :
    exchange (before ++ (name, old) :: behind) name f
      = (some old, before ++ (name, f) :: behind) := by
  induction before with
  | nil => exact if_pos rfl
  | cons p rest ih =>
      obtain ⟨k, g⟩ := p
      obtain ⟨hne, hrest⟩ : name ≠ k ∧ name ∉ names rest := by simpa [names] using h
      rw [List.cons_append, exchange, if_neg (Ne.symm hne), ih hrest]
      rfl

/-- Where names come once each, putting a fragment under one moves nothing else. -/
theorem exchanged (h : ps.names.Nodup) (name : String) (f : Fragment) :
    Exchanged name f ps (ps.exchange name f) := by
  by_cases hname : name ∈ ps.names
  · obtain ⟨⟨_, old⟩, hmem, rfl⟩ := List.mem_map.mp hname
    obtain ⟨before, behind, rfl⟩ := List.append_of_mem hmem
    -- as names come once, none like it stands before or behind
    rw [names, List.map_append, List.map_cons] at h
    obtain ⟨-, hnodup, hapart⟩ := List.nodup_append.mp h
    have hbefore : _ ∉ names before := fun hmem => hapart _ hmem _ List.mem_cons_self rfl
    rw [exchange_append hbefore]
    exact .replaced old hbefore (List.nodup_cons.mp hnodup).1
  · rw [exchange_of_notMem hname]
    exact .added hname

/-! ### Properties of pairs -/

/-- Properties hold pairs: the names in the order in which they came first, each once, and under
each the last fragment that came with it. -/
structure Holds (ps : Properties) (pairs : List (String × Fragment)) : Prop where
  names : ps.names = (pairs.map Prod.fst).eraseDups
  nodup : ps.names.Nodup
  last : ∀ name, ps.get? name = (pairs.reverse.find? (·.1 = name)).map Prod.snd

/-- **What is collected from pairs holds them.** -/
theorem holds_ofList (pairs : List (String × Fragment)) : (ofList pairs).Holds pairs := by
  have hnames : (ofList pairs).names = (pairs.map Prod.fst).eraseDups :=
    keys_foldl _ Prod.fst names (fun ps p => map_fst_insert ps p.1 p.2) rfl pairs
  refine ⟨hnames, hnames ▸ nodup_eraseDups _, fun name => ?_⟩
  rw [ofList, get?_foldl_insert]
  exact Option.or_none

/-- Properties are read from an object where each of its members holds a fragment. -/
theorem read?_object (room : Nat) (members : List (String × Json)) :
    read? (room + 1) (.object members) =
      if ∀ m ∈ members, (Fragment.read? room m.2).isSome then
        some (ofList (members.filterMap fun m => (Fragment.read? room m.2).map (m.1, ·)))
      else none := by
  rw [read?, mapM_eq_ite]
  simp only [Option.isSome_map]
  split <;> rfl

/-! ### Changes -/

/-- What happens to properties: a fragment is put under a name, or they are made anew, collected
from pairs or read from the members of an object while so many containers may be opened. -/
inductive Change where
  | insert (name : String) (f : Fragment)
  | collect (pairs : List (String × Fragment))
  | read (room : Nat) (members : List (String × Json))

/-- Properties after a change.  What cannot be read leaves them as they are. -/
def next (ps : Properties) : Change → Properties
  | .insert name f     => (ps.exchange name f).2
  | .collect pairs     => ofList pairs
  | .read room members => (read? room (.object members)).getD ps

/-- Properties after changes, from none. -/
def run (changes : List Change) : Properties := changes.foldl next []

/-- The pairs that properties were given after a change, of those given before it.  An object gives
its keys with the fragments of their values, if each value is one. -/
def Change.given (pairs : List (String × Fragment)) : Change → List (String × Fragment)
  | .insert name f           => pairs ++ [(name, f)]
  | .collect pairs'          => pairs'
  | .read 0 _                => pairs
  | .read (room + 1) members =>
    if ∀ m ∈ members, (Fragment.read? room m.2).isSome then
      members.filterMap fun m => (Fragment.read? room m.2).map (m.1, ·)
    else pairs

/-- The pairs that properties were given since they were last made anew. -/
def given (changes : List Change) : List (String × Fragment) := changes.foldl Change.given []

/-- What is collected from pairs is collected from more or from others after a change. -/
theorem next_ofList (pairs : List (String × Fragment)) (c : Change) :
    (ofList pairs).next c = ofList (c.given pairs) := by
  cases c with
  | insert name f =>
      rw [next, exchange_eq, Change.given, ofList, ofList, List.foldl_append]
      rfl
  | collect pairs' => rfl
  | read room members =>
      cases room with
      | zero => simp [next, read?, Change.given]
      | succ room =>
          rw [next, read?_object, Change.given]
          split <;> rfl

/-- **Filled, collected or read**, properties are what is collected from the pairs that they were
given. -/
theorem run_eq_ofList (changes : List Change) : run changes = ofList (given changes) := by
  -- what was given before the changes may be anything
  suffices ∀ pairs, changes.foldl next (ofList pairs)
      = ofList (changes.foldl Change.given pairs) from this []
  induction changes with
  | nil => exact fun _ => rfl
  | cons c rest ih =>
      intro pairs
      rw [List.foldl_cons, List.foldl_cons, next_ofList]
      exact ih _

/-- A key of an object that comes again keeps its place, with the fragment that comes last. -/
example : run [.read 2 [("to", .object [("type", .string "string")]), ("from", .object []),
      ("to", .object [("bsonType", .string "date")])], .insert "via" {}]
    = [("to", .bson .date), ("from", {}), ("via", {})] := rfl

end Properties

/-! ### Fields in order -/

namespace Fields

/-- The fields that are taken of those offered, each with what can be looked up then. -/
def taken : Fields → List ((String → Lookup) × Declaration.Field) → List Declaration.Field
  | _, []                 => []
  | fs, (lookup, f) :: rest =>
    match fs.attach lookup f.name f.declared f.options with
    | .ok fs'  => f :: taken fs' rest
    | .error _ => taken fs rest

/-- Fields are those declared, in order.  They give a property for each, and as required the names
of those properties whose field is. -/
structure InOrder (fs : Fields) (ds : List Declaration.Field) : Prop where
  declared : fs.map (fun f => (f.name, f.required)) = ds.map fun d => (d.name, d.required)
  properties : fs.properties = fs.map fun f => (f.name, f.fragment)
  required : fs.required =
    fs.properties.names.filter fun name => (fs.get? name).any Field.required

/-- Fields that are offered come behind the others, as far as they are taken. -/
theorem map_foldl_offer (offers : List ((String → Lookup) × Declaration.Field)) (fs : Fields) :
    (offers.foldl (fun fs offer => fs.offer offer.1 offer.2) fs).map
        (fun f => (f.name, f.required))
      = fs.map (fun f => (f.name, f.required)) ++
        (fs.taken offers).map fun f => (f.name, f.required) := by
  induction offers generalizing fs with
  | nil => exact (List.append_nil _).symm
  | cons o rest ih =>
      obtain ⟨lookup, f⟩ := o
      rw [List.foldl_cons, ih, offer, taken]
      cases hattach : fs.attach lookup f.name f.declared f.options with
      | error e => rfl
      | ok fs' =>
          obtain ⟨-, _, _, -, -, rfl⟩ := attach_ok_iff.mp hattach
          simp

/-- Where names come once each, the names of required fields are found among all. -/
theorem required_eq_filter {fs : Fields} (h : fs.names.Nodup) :
    fs.required = fs.names.filter fun name => (fs.get? name).any Field.required := by
  rw [required, names, List.filter_map]
  refine congrArg (List.map Field.name) (List.filter_congr fun f hf => ?_)
  rw [Function.comp_apply, get?_of_mem h hf]
  rfl

theorem inOrder_offered (offers : List ((String → Lookup) × Declaration.Field)) :
    (offered offers).InOrder (taken [] offers) := by
  have hnodup : (offered offers).names.Nodup := (attached_offered offers).names.1
  refine ⟨map_foldl_offer offers [], properties_eq hnodup, ?_⟩
  rw [names_properties hnodup, required_eq_filter hnodup]

end Fields

/-- **Properties are a map in the order of insertion.**  Whatever fragments were put under names,
whatever pairs they were collected from and whatever objects they were read from, they hold all that
they were given since they were last made anew: the names once each, in the order in which they came
first, and under each the last fragment.  A fragment that is put under a name takes the place of the
one there, which is given back, or comes behind all others; collected once more they are the same.
And whichever fields were offered, there is a property for each that was taken, in the order of
their declaration, and those that are required are named in the same order. -/
theorem Properties.insertion_ordered :
    (∀ changes : List Change, let ps := run changes
      ps.Holds (given changes) ∧
      (∀ name f, Exchanged name f ps (ps.exchange name f)) ∧
      ofList ps = ps) ∧
    ∀ offers, (Fields.offered offers).InOrder (Fields.taken [] offers) := by
  refine ⟨?_, Fields.inOrder_offered⟩
  intro changes ps
  have hps : ps = ofList (given changes) := run_eq_ofList changes
  have hholds : ps.Holds (given changes) := hps ▸ holds_ofList (given changes)
  exact ⟨hholds, exchanged hholds.nodup, ofList_of_nodup hholds.nodup⟩

end Schemata
