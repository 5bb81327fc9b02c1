import Schemata.Proofs.Lists
import Schemata.Proofs.Store.Ledger
import Schemata.Session

/-!
# Schemata — Proofs — Session

What a session loses.  Synchronizing takes the registered models out of the session before it tries
to write them, so they are gone if it fails: a later attempt writes what was registered since, and
succeeds.

A session is followed through what happens to it and around it (`Session.Desk`).  Another writer
may take the lock, give it back, and leave any rows behind at any point.

* `Session.find?_pending`: a session has what was registered since it last tried to write.
* `Session.stored_iff`: after a success, what was registered since the last success is stored just
  where it was registered after the last failure too, or was stored already.
-/

namespace Schemata

/-! ### Registering -/

namespace Session

theorem find?_stage (m : Model) (ms : List Model) (name : String) :
    (stage m ms).find? (·.name = name) = if m.name = name then some m
      else ms.find? (·.name = name) := by
  induction ms with
  | nil => by_cases h : m.name = name <;> simp [stage, h]
  | cons n rest ih =>
      unfold stage
      by_cases hn : n.name = m.name
      · by_cases h : m.name = name <;> simp [hn, h]
      · by_cases h : m.name = name
        · rw [if_neg hn, List.find?_cons_of_neg (by simpa [← h] using hn), ih, if_pos h, if_pos h]
        · rw [if_neg hn, List.find?_cons, ih, if_neg h, if_neg h, List.find?_cons]

theorem mem_stage {m n : Model} {ms : List Model} (h : n ∈ stage m ms) : n = m ∨ n ∈ ms := by
  induction ms with
  | nil => exact .inl (List.mem_singleton.mp h)
  | cons k rest ih =>
      unfold stage at h
      split at h
      · exact (List.mem_cons.mp h).imp id (List.mem_cons_of_mem k)
      · rcases List.mem_cons.mp h with rfl | h
        · exact .inr List.mem_cons_self
        · exact (ih h).imp id (List.mem_cons_of_mem k)

/-- A name is registered once, however often. -/
theorem nodup_stage {ms : List Model} (m : Model) (h : (ms.map Model.name).Nodup) :
    ((stage m ms).map Model.name).Nodup := by
  induction ms with
  | nil => simp [stage]
  | cons n rest ih =>
      obtain ⟨hn, hrest⟩ := List.nodup_cons.mp h
      unfold stage
      split
      · next he => exact List.nodup_cons.mpr ⟨he ▸ hn, hrest⟩
      · next hne =>
          refine List.nodup_cons.mpr ⟨fun hmem => ?_, ih hrest⟩
          obtain ⟨k, hk, hname⟩ := List.mem_map.mp hmem
          rcases mem_stage hk with rfl | hk
          · exact hne hname.symm
          · exact hn (hname ▸ List.mem_map_of_mem hk)

/-! ### What happens to a session -/

/-- What happens to a session: a model is registered, or it synchronizes.  Around it another writer
takes the lock or gives it back, and leaves other rows behind. -/
inductive Event where
  | register (m : Model)
  | synchronize (now : Instant)
  | lock
  | unlock
  | rewrite (t : Table)

/-- What a session did: it took a model, or it wrote, or it tried to. -/
inductive Deed where
  | registered (m : Model)
  | succeeded
  | failed

/-- A session with its store, and what the session did, the latest first. -/
structure Desk where
  session : Session := {}
  store : Store
  deeds : List Deed := []

namespace Desk

/-- The desk after what happens. -/
def next (d : Desk) : Event → Desk
  | .register m      =>
    { d with session := d.session.register m, deeds := .registered m :: d.deeds }
  | .synchronize now =>
    let (result, session, store) := d.session.synchronize d.store now
    { session, store, deeds := (if result.toBool then .succeeded else .failed) :: d.deeds }
  | .lock            => { d with store := { d.store with barrier := some .lock } }
  | .unlock          => { d with store := { d.store with barrier := none } }
  | .rewrite t       => { d with store := { d.store with table := some t } }

/-- The desk after all that happens. -/
def run (d : Desk) (events : List Event) : Desk := events.foldl next d

end Desk

/-- The models registered since the session last succeeded, the latest first. -/
def awaited : List Deed → List Model
  | .registered m :: rest => m :: awaited rest
  | .failed :: rest       => awaited rest
  | .succeeded :: _       => []
  | []                    => []

/-- The models registered since the session last tried to write, the latest first. -/
def staged : List Deed → List Model
  | .registered m :: rest => m :: staged rest
  | _                     => []

theorem staged_attempt (succeeds : Bool) (deeds : List Deed) :
    staged ((if succeeds then .succeeded else .failed) :: deeds) = [] := by
  cases succeeds <;> rfl

/-- A name that was registered since the last attempt was last registered then. -/
theorem find?_awaited {deeds : List Deed} {name : String} {m : Model}
    (h : (staged deeds).find? (·.name = name) = some m) :
    (awaited deeds).find? (·.name = name) = some m := by
  induction deeds with
  | nil => nomatch h
  | cons d rest ih =>
      cases d with
      | registered n =>
          rw [staged, List.find?_cons] at h
          rw [awaited, List.find?_cons]
          split at h
          · exact h
          · exact ih h
      | succeeded => nomatch h
      | failed => nomatch h

/-- A session has each name once, with what was last registered for it since the last attempt. -/
structure Staged (d : Desk) : Prop where
  nodup : (d.session.pending.map Model.name).Nodup
  find? : ∀ name, d.session.pending.find? (·.name = name)
    = (staged d.deeds).find? (·.name = name)

theorem staged_next {d : Desk} (h : Staged d) (e : Event) : Staged (d.next e) := by
  cases e with
  | register m =>
      refine ⟨nodup_stage m h.nodup, fun name => ?_⟩
      rw [Desk.next, staged, List.find?_cons, ← h.find? name]
      simp only [register, find?_stage]
      by_cases hn : m.name = name <;> simp [hn]
  | synchronize now =>
      refine ⟨List.nodup_nil, fun name => ?_⟩
      rw [Desk.next, staged_attempt]
      rfl
  | lock => exact ⟨h.nodup, h.find?⟩
  | unlock => exact ⟨h.nodup, h.find?⟩
  | rewrite t => exact ⟨h.nodup, h.find?⟩

theorem staged_run {d : Desk} (h : Staged d) (events : List Event) : Staged (d.run events) := by
  induction events generalizing d with
  | nil => exact h
  | cons e rest ih => exact ih (staged_next h e)

/-- A session that starts with nothing has what was registered since it last tried to write. -/
theorem find?_pending (store : Store) (events : List Event) :
    Staged (Desk.run { store } events) :=
  staged_run (d := { store }) ⟨List.nodup_nil, fun _ => rfl⟩ events

/-! ### What is lost -/

/-- A store has a model's text under its name. -/
def Stores (s : Store) (m : Model) : Prop := ∃ t, s.table = some t ∧ t.Holds m

variable {s s' : Store} {now : Instant} {models : List Model} {report : Report} {m : Model}

theorem table_of_sync_ok (hne : models ≠ []) (h : s.sync now models = (.ok report, s')) :
    ∃ t, s.table = some t := by
  cases ht : s.table with
  | some t => exact ⟨t, rfl⟩
  | none =>
      have he : ∃ e, s.synced now.text models = .error e := by
        cases hs : s.seal? <;>
          simp [Store.synced, Store.migratedTable, hs, ht, bind, Except.bind]
      obtain ⟨e, he⟩ := he
      rw [Store.sync_of_synced_error hne he] at h
      exact absurd (Prod.mk.inj h).1 (by simp)

theorem stores_of_mem (hnodup : (models.map Model.name).Nodup)
    (h : s.sync now models = (.ok report, s')) (hm : m ∈ models) : Stores s' m := by
  obtain ⟨t, ht⟩ := table_of_sync_ok (List.ne_nil_of_mem hm) h
  obtain ⟨t', rfl, hreplays, hmodels, -⟩ := Store.replays_of_sync ht h
  refine ⟨t', rfl, hreplays.holds_of_last ?_⟩
  rw [hmodels]
  refine find?_of_nodup ?_ (List.mem_reverse.mpr hm)
  rw [List.map_reverse]
  exact List.pairwise_reverse.mpr (hnodup.imp Ne.symm)

theorem stores_iff_of_forall_ne (h : s.sync now models = (.ok report, s'))
    (hm : ∀ n ∈ models, n.name ≠ m.name) : Stores s' m ↔ Stores s m := by
  by_cases hne : models = []
  · subst hne
    obtain ⟨-, rfl⟩ := Prod.mk.inj h
    rfl
  · obtain ⟨t, ht⟩ := table_of_sync_ok hne h
    obtain ⟨t', rfl, hreplays, hmodels, -⟩ := Store.replays_of_sync ht h
    have hrow : t'.get? m.name = t.get? m.name :=
      hreplays.get?_of_forall_ne fun e he => hm _ (hmodels ▸ List.mem_map_of_mem he)
    simp [Stores, Table.Holds, ht, hrow]

/-- A failure empties a session that had something, so what it had is never tried again. -/
theorem pending_of_error {session : Session} {store : Store} {e : SessionError}
    (h : (session.synchronize store now).1 = .error e) :
    session.pending ≠ [] ∧ (session.synchronize store now).2.1.pending = [] := by
  refine ⟨fun hempty => ?_, rfl⟩
  rw [synchronize, hempty] at h
  nomatch h

/-- **What a session loses.**  Whenever synchronizing fails, the session had registered models and
has none of them afterwards.  Whenever it succeeds, a name that was registered since the last
success is stored with the document last registered for it if and only if it was registered since
the last failure too, or the store had that document already. -/
theorem stored_iff (store : Store) (events : List Event) (now : Instant) :
    let d := Desk.run { store } events
    let outcome := d.session.synchronize d.store now
    (∀ e, outcome.1 = .error e → d.session.pending ≠ [] ∧ outcome.2.1.pending = []) ∧
    ∀ report, outcome.1 = .ok report →
      ∀ m, (awaited d.deeds).find? (·.name = m.name) = some m →
        (Stores outcome.2.2 m ↔
          (∃ n ∈ staged d.deeds, n.name = m.name) ∨ Stores d.store m) := by
  intro d outcome
  have hd : Staged d := find?_pending store events
  refine ⟨fun e => pending_of_error, fun report hok m hm => ?_⟩
  have hsync : d.store.sync now d.session.pending = (.ok report, outcome.2.2) := by
    refine Prod.ext ?_ rfl
    change ((d.store.sync now d.session.pending).1.mapError _) = _ at hok
    cases hs : (d.store.sync now d.session.pending).1 with
    | error e => rw [hs] at hok; nomatch hok
    | ok r => rw [hs] at hok; exact congrArg Except.ok (Except.ok.inj hok)
  by_cases hstaged : ∃ n ∈ staged d.deeds, n.name = m.name
  -- what was registered since the last attempt is also what was last registered
  · obtain ⟨n, hn, hname⟩ := hstaged
    obtain ⟨k, hk⟩ : ∃ k, (staged d.deeds).find? (·.name = m.name) = some k :=
      Option.isSome_iff_exists.mp (List.find?_isSome.mpr ⟨n, hn, by simpa using hname⟩)
    obtain rfl : k = m := Option.some.inj ((find?_awaited hk).symm.trans hm)
    rw [← hd.find?] at hk
    exact iff_of_true (stores_of_mem hd.nodup hsync (List.mem_of_find?_eq_some hk))
      (.inl ⟨n, hn, hname⟩)
  -- what was lost is not written, so it is stored only if it was before
  · have hnone : ∀ n ∈ d.session.pending, n.name ≠ m.name := by
      have hfind : d.session.pending.find? (·.name = m.name) = none := by
        rw [hd.find?, List.find?_eq_none]
        exact fun n hn => by simpa using fun he => hstaged ⟨n, hn, he⟩
      simpa using List.find?_eq_none.mp hfind
    rw [stores_iff_of_forall_ne hsync hnone]
    exact ⟨.inr, fun h => h.resolve_left hstaged⟩

/-- A model is registered, and the session tries to write it while the lock is held: the session
has it no more, and when it succeeds later the model is not stored. -/
theorem lost_behind_lock :
    let d := Desk.run { store := { table := some .empty } } [.register (.bare "Photo"), .lock]
    let e := Desk.run d [.synchronize ⟨0, 0, 0⟩, .unlock]
    (d.session.synchronize d.store ⟨0, 0, 0⟩).1
        = .error (.busy "the store is locked by another writer") ∧
      d.session.names = ["Photo"] ∧ e.session.names = [] ∧
      (awaited e.deeds).map Model.name = ["Photo"] ∧
      (e.session.synchronize e.store ⟨0, 0, 0⟩).1 = .ok {} ∧
      ¬ Stores (e.session.synchronize e.store ⟨0, 0, 0⟩).2.2 (.bare "Photo") := by
  refine ⟨rfl, rfl, rfl, rfl, rfl, ?_⟩
  rintro ⟨t, ht, row, hrow, -⟩
  obtain rfl := Option.some.inj ht
  nomatch hrow

end Session

end Schemata
