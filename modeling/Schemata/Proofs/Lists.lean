/-!
# Schemata — Proofs — Lists

Lists whose items have keys of their own, what is built from such items when keys come again, and
results that may be errors: one after another, and one for each item of a list, with or without a
state that is passed on.
-/

namespace Schemata

variable {α β ε : Type}

/-! ### Keys -/

/-- Where keys come once each, an item is found under its own. -/
theorem find?_of_nodup [DecidableEq β] {key : α → β} {as : List α} (h : (as.map key).Nodup) {a : α}
    (ha : a ∈ as) : as.find? (key · = key a) = some a := by
  induction as with
  | nil => nomatch ha
  | cons b rest ih =>
      obtain ⟨hnew, hrest⟩ := List.nodup_cons.mp h
      rcases List.mem_cons.mp ha with rfl | ha
      · simp
      -- the first item has another key, as each comes once
      · have hne : key b ≠ key a := fun he => hnew (he ▸ List.mem_map_of_mem ha)
        rw [List.find?_cons_of_neg (by simpa using hne), ih hrest ha]

/-- An item whose key comes once is found from either end. -/
theorem find?_reverse_of_nodup [DecidableEq β] {key : α → β} {as : List α}
    (h : (as.map key).Nodup) {a : α} (ha : a ∈ as) :
    as.reverse.find? (key · = key a) = some a := by
  refine find?_of_nodup ?_ (List.mem_reverse.mpr ha)
  rw [List.map_reverse]
  exact List.pairwise_reverse.mpr (h.imp Ne.symm)

/-- Where keys come once each, at most one item has a given key. -/
theorem filter_of_nodup [DecidableEq β] {key : α → β} {as : List α}
    (h : (as.map key).Nodup) (b : β) :
    as.filter (key · = b) = (as.find? (key · = b)).toList := by
  induction as with
  | nil => rfl
  | cons a rest ih =>
      obtain ⟨hnew, hrest⟩ := List.nodup_cons.mp h
      by_cases ha : key a = b
      · have hnone : rest.filter (key · = b) = [] := by
          refine List.filter_eq_nil_iff.mpr fun a' ha' he => hnew ?_
          exact List.mem_map.mpr ⟨a', ha', (of_decide_eq_true he).trans ha.symm⟩
        simp [ha, hnone]
      · simp [ha, ih hrest]

/-! ### Keys that come again -/

/-- One more item is kept if it is new. -/
theorem eraseDups_append_singleton [DecidableEq β] (bs : List β) (b : β) :
    (bs ++ [b]).eraseDups = if b ∈ bs then bs.eraseDups else bs.eraseDups ++ [b] := by
  rw [List.eraseDups_append]
  by_cases h : b ∈ bs
  · simp [List.removeAll, h]
  · simp [List.removeAll, h, List.eraseDups_cons]

theorem nodup_eraseDups [DecidableEq β] : ∀ bs : List β, bs.eraseDups.Nodup
  | [] => .nil
  | b :: rest => by
      rw [List.eraseDups_cons]
      exact List.nodup_cons.mpr ⟨by simp [List.mem_eraseDups], nodup_eraseDups _⟩
termination_by bs => bs.length
decreasing_by exact Nat.lt_succ_of_le (List.length_filter_le _ rest)

section Folding

variable {σ γ : Type} [DecidableEq β] (put : σ → α → σ) (key : α → β)

/-- Where a key that comes again keeps its place, the keys are in the order in which they came
first. -/
theorem keys_foldl (keys : σ → List β)
    (hput : ∀ s a, keys (put s a) = if key a ∈ keys s then keys s else keys s ++ [key a])
    {s : σ} (hs : keys s = []) (as : List α) :
    keys (as.foldl put s) = (as.map key).eraseDups := by
  suffices ∀ s bs, keys s = bs.eraseDups →
      keys (as.foldl put s) = (bs ++ as.map key).eraseDups from this s [] hs
  clear hs
  induction as with
  | nil => exact fun s bs hs => by simpa using hs
  | cons a rest ih =>
      intro s bs hs
      have hnext : keys (put s a) = (bs ++ [key a]).eraseDups := by
        rw [hput, hs, eraseDups_append_singleton]
        simp only [List.mem_eraseDups]
      rw [List.foldl_cons, ih _ _ hnext, List.append_assoc, List.map_cons, List.singleton_append]

/-- Where what comes is found under its key, and all else is found as before, the last that came
with a key is found. -/
theorem find_foldl (find : σ → β → Option γ) (value : α → γ)
    (hput : ∀ s a b, find (put s a) b = if key a = b then some (value a) else find s b)
    (as : List α) (s : σ) (b : β) :
    find (as.foldl put s) b = ((as.reverse.find? (key · = b)).map value).or (find s b) := by
  induction as generalizing s with
  | nil => rfl
  | cons a rest ih =>
      rw [List.foldl_cons, ih, hput, List.reverse_cons, List.find?_append, List.find?_singleton]
      cases rest.reverse.find? (key · = b) with
      | some last => rfl
      | none => by_cases h : key a = b <;> simp [h]

end Folding

/-! ### Results -/

/-- Two steps succeed if the first does, and the second with what that gives. -/
theorem bind_eq_ok {x : Except ε α} {g : α → Except ε β} {b : β} :
    (x >>= g) = .ok b ↔ ∃ a, x = .ok a ∧ g a = .ok b := by
  cases x with
  | error e => exact ⟨nofun, nofun⟩
  | ok a => exact ⟨fun h => ⟨a, rfl, h⟩, fun ⟨_, ha, h⟩ => Except.ok.inj ha ▸ h⟩

/-- Two steps fail if the first does, or the second with what that gives. -/
theorem bind_eq_error {x : Except ε α} {g : α → Except ε β} {e : ε} :
    (x >>= g) = .error e ↔ x = .error e ∨ ∃ a, x = .ok a ∧ g a = .error e := by
  cases x with
  | error e' =>
      refine ⟨fun h => .inl (congrArg Except.error (Except.error.inj h)), ?_⟩
      rintro (h | ⟨a, ha, -⟩)
      · exact congrArg Except.error (Except.error.inj h)
      · nomatch ha
  | ok a =>
      refine ⟨fun h => .inr ⟨a, rfl, h⟩, ?_⟩
      rintro (h | ⟨a', ha, h⟩)
      · nomatch h
      · exact Except.ok.inj ha ▸ h

theorem bind_ok_eq_error_iff {x : Except ε α} {g : α → β} {e : ε} :
    (x >>= fun a => .ok (g a)) = .error e ↔ x = .error e := by
  rw [bind_eq_error]
  refine or_iff_left ?_
  rintro ⟨a, -, h⟩
  nomatch h

theorem eq_error_of_map {x : Except ε α} {f : α → β} {e : ε}
    (h : x.map f = .error e) : x = .error e := by
  cases x with
  | error e' => exact congrArg Except.error (Except.error.inj h)
  | ok a => cases h

/-- A list succeeds if its first item does, and the others do. -/
theorem mapM_cons_eq_ok_iff {f : α → Except ε β} {a : α} {as : List α} {bs : List β} :
    (a :: as).mapM f = .ok bs ↔
      ∃ b later, f a = .ok b ∧ as.mapM f = .ok later ∧ bs = b :: later := by
  rw [List.mapM_cons]
  constructor
  · intro h
    obtain ⟨b, hb, h⟩ := bind_eq_ok.mp h
    obtain ⟨later, hlater, h⟩ := bind_eq_ok.mp h
    exact ⟨b, later, hb, hlater, (Except.ok.inj h).symm⟩
  · rintro ⟨b, later, hb, hlater, rfl⟩
    exact bind_eq_ok.mpr ⟨b, hb, bind_eq_ok.mpr ⟨later, hlater, rfl⟩⟩

/-- A list succeeds just where each of its items does. -/
theorem mapM_ok_iff {f : α → Except ε β} {as : List α} :
    (∃ bs, as.mapM f = .ok bs) ↔ ∀ a ∈ as, ∃ b, f a = .ok b := by
  induction as with
  | nil => exact ⟨fun _ => nofun, fun _ => ⟨[], rfl⟩⟩
  | cons a rest ih =>
      rw [List.forall_mem_cons, ← ih]
      constructor
      · rintro ⟨bs, h⟩
        obtain ⟨b, later, hb, hlater, -⟩ := mapM_cons_eq_ok_iff.mp h
        exact ⟨⟨b, hb⟩, later, hlater⟩
      · rintro ⟨⟨b, hb⟩, later, hlater⟩
        exact ⟨b :: later, mapM_cons_eq_ok_iff.mpr ⟨b, later, hb, hlater, rfl⟩⟩

/-- There is a result for each item where each has one. -/
theorem mapM_eq_ite (f : α → Option β) (as : List α) :
    as.mapM f = if ∀ a ∈ as, (f a).isSome then some (as.filterMap f) else none := by
  induction as with
  | nil => rfl
  | cons a rest ih =>
      rw [List.mapM_cons, ih]
      cases ha : f a with
      | none => simp [ha]
      | some b =>
          simp only [List.forall_mem_cons, ha, Option.isSome_some, true_and,
            List.filterMap_cons_some ha]
          split <;> rfl

/-- What is among the results comes from one of the items. -/
theorem exists_of_mem_mapM_ok {f : α → Except ε β} {as : List α} {bs : List β}
    (h : as.mapM f = .ok bs) {b : β} (hb : b ∈ bs) : ∃ a ∈ as, f a = .ok b := by
  induction as generalizing bs with
  | nil =>
      obtain rfl := Except.ok.inj h
      nomatch hb
  | cons a rest ih =>
      obtain ⟨first, later, ha, hrest, rfl⟩ := mapM_cons_eq_ok_iff.mp h
      rcases List.mem_cons.mp hb with rfl | hb
      · exact ⟨a, List.mem_cons_self, ha⟩
      · obtain ⟨a', ha', hfa⟩ := ih hrest hb
        exact ⟨a', List.mem_cons_of_mem _ ha', hfa⟩

/-- What each result keeps of its item, the results together keep of all items. -/
theorem map_eq_of_mapM_ok {γ : Type} {f : α → Except ε β} {view : β → γ} {key : α → γ}
    (hkey : ∀ a b, f a = .ok b → view b = key a) {as : List α} {bs : List β}
    (h : as.mapM f = .ok bs) : bs.map view = as.map key := by
  induction as generalizing bs with
  | nil =>
      obtain rfl := Except.ok.inj h
      rfl
  | cons a rest ih =>
      obtain ⟨b, later, hb, hlater, rfl⟩ := mapM_cons_eq_ok_iff.mp h
      rw [List.map_cons, List.map_cons, hkey a b hb, ih hlater]

section Running

/-! Steps that are taken up to the first that fails, each joining what it gives to what those after
it give. -/

variable {S A B C : Type} (step : S → A → Except ε B × S) (run : S → List A → Except ε C × S)
  (join : B → C → C) (start : C) (hnil : ∀ s, run s [] = (.ok start, s))
  (hcons : ∀ s a rest, run s (a :: rest) = match step s a with
    | (.error e, s) => (.error e, s)
    | (.ok b, s)    => ((run s rest).1.map (join b), (run s rest).2))
  {s s' : S} {a : A} {as : List A} {e : ε}

include hcons

theorem run_cons_eq_ok_iff {c : C} : run s (a :: as) = (.ok c, s') ↔
    ∃ b mid done, step s a = (.ok b, mid) ∧ run mid as = (.ok done, s') ∧ c = join b done := by
  rw [hcons]
  rcases step s a with ⟨e | b, mid⟩
  · exact iff_of_false nofun nofun
  · constructor
    · intro h
      obtain ⟨hresult, rfl⟩ := Prod.mk.inj h
      cases hrest : (run mid as).1 with
      | error e => rw [hrest] at hresult; nomatch hresult
      | ok done =>
          rw [hrest] at hresult
          exact ⟨b, mid, done, rfl, Prod.ext hrest rfl, (Except.ok.inj hresult).symm⟩
    · rintro ⟨_, _, done, ⟨⟩, hrest, rfl⟩
      simp only [hrest]
      rfl

theorem run_cons_eq_error_iff : run s (a :: as) = (.error e, s') ↔
    step s a = (.error e, s') ∨
      ∃ b mid, step s a = (.ok b, mid) ∧ run mid as = (.error e, s') := by
  rw [hcons]
  rcases step s a with ⟨e | b, mid⟩
  · simp
  · constructor
    · intro h
      obtain ⟨hresult, rfl⟩ := Prod.mk.inj h
      exact .inr ⟨b, mid, rfl, Prod.ext (eq_error_of_map hresult) rfl⟩
    · rintro (h | ⟨_, _, ⟨⟩, hrest⟩)
      · nomatch (Prod.mk.inj h).1
      · simp only [hrest]
        rfl

include hnil

/-- The step that fails is one that fails after those before it were taken. -/
theorem run_eq_error_iff : run s as = (.error e, s') ↔
    ∃ before a after done mid, as = before ++ a :: after ∧ run s before = (.ok done, mid) ∧
      step mid a = (.error e, s') := by
  have herror := @run_cons_eq_error_iff ε S A B C step run join hcons
  have hok := @run_cons_eq_ok_iff ε S A B C step run join hcons
  induction as generalizing s with
  | nil =>
      rw [hnil]
      refine iff_of_false (fun h => nomatch (Prod.mk.inj h).1) ?_
      rintro ⟨before, a, after, -, -, hsplit, -⟩
      exact absurd hsplit.symm
        (List.append_ne_nil_of_right_ne_nil before (List.cons_ne_nil a after))
  | cons a rest ih =>
      rw [herror]
      constructor
      · rintro (hstep | ⟨b, next, hstep, hrest⟩)
        · exact ⟨[], a, rest, start, s, rfl, hnil s, hstep⟩
        · obtain ⟨before, a', after, done, mid, rfl, hbefore, ha'⟩ := ih.mp hrest
          exact ⟨a :: before, a', after, join b done, mid, rfl,
            hok.mpr ⟨b, next, done, hstep, hbefore, rfl⟩, ha'⟩
      · rintro ⟨before, a', after, done, mid, hsplit, hbefore, ha'⟩
        cases before with
        | nil =>
            obtain ⟨rfl, rfl⟩ := List.cons.inj hsplit
            rw [hnil] at hbefore
            obtain ⟨-, rfl⟩ := Prod.mk.inj hbefore
            exact .inl ha'
        | cons first before =>
            obtain ⟨rfl, rfl⟩ := List.cons.inj hsplit
            obtain ⟨b, next, done', hstep, hrest, -⟩ := hok.mp hbefore
            exact .inr ⟨b, next, hstep, ih.mpr ⟨before, a', after, done', mid, rfl, hrest, ha'⟩⟩

end Running

/-- There is no result for each item where one behind others that have theirs fails. -/
theorem mapM_eq_error_iff {f : α → Except ε β} {as : List α} {e : ε} :
    as.mapM f = .error e ↔ ∃ before a after, as = before ++ a :: after ∧
      (∃ bs, before.mapM f = .ok bs) ∧ f a = .error e := by
  have hrun := @run_eq_error_iff ε Unit α β (List β) (fun _ a => (f a, ()))
    (fun _ as => (as.mapM f, ())) List.cons [] (fun _ => rfl) (fun _ a rest => by
      rw [List.mapM_cons]
      cases f a with
      | error e => rfl
      | ok b => cases rest.mapM f <;> rfl) () () as e
  simpa using hrun

end Schemata
