import Schemata.Workspace.Reaching

/-!
# Schemata — Proofs — Workspace — Attempts

An attempt changes the workspace as it goes and keeps what it did when it fails.  What is true after
it is said from the workspace it begins in: `Attempt.Ends` says what is true whether it fails or not
and what is true if it succeeds, and `Attempt.Goes` says that it succeeds.  There is one lemma of
each for every way to put attempts together.
-/

namespace Schemata

namespace Attempt

variable {α β : Type} {P : Workspace → Prop} {Q : α → Workspace → Prop} {R : β → Workspace → Prop}
  {w w' : Workspace}

/-- Attempts one after another: the second begins where the first ended, unless that failed. -/
theorem run_bind (x : Attempt α) (f : α → Attempt β) (w : Workspace) :
    (x >>= f).run.run w = match x.run.run w with
      | (.ok a, w')    => (f a).run.run w'
      | (.error e, w') => (.error e, w') := by
  rw [ExceptT.run_bind, StateT.run_bind]
  simp only [bind]
  rcases x.run.run w with ⟨_ | _, _⟩ <;> rfl

/-- A handler begins where the attempt failed, with what that changed. -/
theorem run_tryCatch (x : Attempt α) (f : StoreFault → Attempt α) (w : Workspace) :
    (tryCatch x f : Attempt α).run.run w = match x.run.run w with
      | (.ok a, w')    => (.ok a, w')
      | (.error e, w') => (f e).run.run w' := by
  rw [ExceptT.run_tryCatch, StateT.run_bind]
  simp only [bind]
  rcases x.run.run w with ⟨_ | _, _⟩ <;> rfl

/-! ### What is true after an attempt -/

/-- What is true of the workspace after an attempt, whether it failed or not, and what is true of it
and of the result if it did not. -/
def Ends (x : Attempt α) (P : Workspace → Prop) (Q : α → Workspace → Prop) (w : Workspace) : Prop :=
  P (x.run.run w).2 ∧ ∀ a, (x.run.run w).1 = .ok a → Q a (x.run.run w).2

theorem ends_pure {a : α} (hw : P w) (ha : Q a w) : (pure a : Attempt α).Ends P Q w :=
  ⟨hw, fun _ h => Except.ok.inj h ▸ ha⟩

theorem ends_throw {e : StoreFault} (hw : P w) : (throw e : Attempt α).Ends P Q w :=
  ⟨hw, nofun⟩

/-- An attempt may look at the workspace it begins in. -/
theorem ends_get {f : Workspace → Attempt α} (h : (f w).Ends P Q w) :
    (get >>= f : Attempt α).Ends P Q w :=
  h

/-- What is true of the workspace that is set is true after it is set. -/
theorem ends_set {Q : PUnit → Workspace → Prop} (hw : P w') (hu : ∀ u, Q u w') :
    (set w' : Attempt PUnit).Ends P Q w :=
  ⟨hw, fun _ _ => hu _⟩

/-- What is true after the first of two attempts is what the second begins with. -/
theorem ends_bind {x : Attempt α} {f : α → Attempt β} (hx : x.Ends P Q w)
    (hf : ∀ a w', P w' → Q a w' → (f a).Ends P R w') : (x >>= f).Ends P R w := by
  unfold Ends at hx ⊢
  rw [run_bind]
  rcases hrun : x.run.run w with ⟨e | a, w'⟩
  · rw [hrun] at hx
    exact ⟨hx.1, nofun⟩
  · rw [hrun] at hx
    exact hf a w' hx.1 (hx.2 a rfl)

/-- A handler is to see to what is true after the attempt that failed. -/
theorem ends_tryCatch {x : Attempt α} {f : StoreFault → Attempt α} (hx : x.Ends P Q w)
    (hf : ∀ e w', P w' → (f e).Ends P Q w') : (tryCatch x f : Attempt α).Ends P Q w := by
  unfold Ends at hx ⊢
  rw [run_tryCatch]
  rcases hrun : x.run.run w with ⟨e | a, w'⟩
  · rw [hrun] at hx
    exact hf e w' hx.1
  · rw [hrun] at hx
    exact hx

/-- Of two attempts one is made. -/
theorem ends_ite {p : Prop} [Decidable p] {x y : Attempt α} (hx : p → x.Ends P Q w)
    (hy : ¬ p → y.Ends P Q w) : (if p then x else y).Ends P Q w := by
  split
  · next hp => exact hx hp
  · next hp => exact hy hp

/-- What comes after a check is only done if the check passes. -/
theorem ends_guard {p : Prop} [Decidable p] {e : StoreFault} {f : PUnit → Attempt α} (hw : P w)
    (hf : ¬ p → (f ⟨⟩).Ends P Q w) : (if p then throw e >>= f else f ⟨⟩).Ends P Q w :=
  ends_ite (fun _ => ends_bind (Q := fun _ _ => False) (ends_throw hw) fun _ _ _ h => h.elim) hf

/-- After an attempt less may be said than is true. -/
theorem Ends.imp {P' : Workspace → Prop} {Q' : α → Workspace → Prop} {x : Attempt α}
    (h : x.Ends P Q w) (hP : ∀ w', P w' → P' w') (hQ : ∀ a w', P w' → Q a w' → Q' a w') :
    x.Ends P' Q' w :=
  ⟨hP _ h.1, fun a ha => hQ a _ h.1 (h.2 a ha)⟩

/-- Of an attempt that did not fail all is true. -/
theorem Ends.both {x : Attempt α} (h : x.Ends P Q w) :
    x.Ends (fun _ => True) (fun a w' => P w' ∧ Q a w') w :=
  h.imp (fun _ _ => trivial) fun _ _ hP hQ => ⟨hP, hQ⟩

/-! ### Attempts that succeed -/

/-- An attempt succeeds, with a result and a workspace of which something is true. -/
def Goes (x : Attempt α) (Q : α → Workspace → Prop) (w : Workspace) : Prop :=
  ∃ a w', x.run.run w = (.ok a, w') ∧ Q a w'

theorem goes_pure {a : α} (h : Q a w) : (pure a : Attempt α).Goes Q w := ⟨a, w, rfl, h⟩

theorem goes_get {f : Workspace → Attempt α} (h : (f w).Goes Q w) :
    (get >>= f : Attempt α).Goes Q w :=
  h

/-- To set the workspace does not fail. -/
theorem goes_set {Q : PUnit → Workspace → Prop} (h : Q ⟨⟩ w') : (set w' : Attempt PUnit).Goes Q w :=
  ⟨⟨⟩, w', rfl, h⟩

/-- Two attempts succeed one after another if the second does from where the first ended. -/
theorem goes_bind {x : Attempt α} {f : α → Attempt β} (hx : x.Goes Q w)
    (hf : ∀ a w', Q a w' → (f a).Goes R w') : (x >>= f).Goes R w := by
  obtain ⟨a, w', hrun, hQ⟩ := hx
  obtain ⟨b, w'', hrun', hR⟩ := hf a w' hQ
  exact ⟨b, w'', by rw [run_bind, hrun]; exact hrun', hR⟩

/-- An attempt that succeeds needs no handler. -/
theorem goes_tryCatch {x : Attempt α} {f : StoreFault → Attempt α} (hx : x.Goes Q w) :
    (tryCatch x f : Attempt α).Goes Q w := by
  obtain ⟨a, w', hrun, hQ⟩ := hx
  exact ⟨a, w', by rw [run_tryCatch, hrun], hQ⟩

/-- A check passes. -/
theorem goes_guard {p : Prop} [Decidable p] {e : StoreFault} {f : PUnit → Attempt α} (hp : ¬ p)
    (hf : (f ⟨⟩).Goes Q w) : (if p then throw e >>= f else f ⟨⟩).Goes Q w := by
  rwa [if_neg hp]

end Attempt

end Schemata
