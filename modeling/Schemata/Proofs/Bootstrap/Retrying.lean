import Mathlib.Data.Nat.Find
import Schemata.Bootstrap.Rehearsal

/-!
# Schemata — Proofs — Bootstrap — Retrying

How long a bootstrap tries to connect.  What the attempts come to is a sequence without end: every
attempt is made in the surroundings that the one before left (`Connector.outcome`).  The loop goes
on while attempts fail in a way that may pass, and while it has retries left.  After so many such
failures its counter stands at just that number (`Connector.connectFrom_eq_after_laps`), which is
never more than the policy's retries and so does not wrap.

* `Connector.connectFrom_outcomes`: how often it connects and waits, and what it comes to.
* `Connector.connectFrom_induction`: what every attempt keeps, the loop keeps.
-/

namespace Schemata

/-- The wait that an event is. -/
def Event.wait? : Event → Option UInt64
  | .wait delay => some delay
  | _           => none

/-- The number of the retry that an event announces. -/
def Event.retry? : Event → Option UInt32
  | .retry number => some number
  | _             => none

namespace Connector

variable {σ κ : Type} (c : Connector σ κ) (policy : RetryPolicy) (s : σ)

/-- The surroundings after so many attempts to connect. -/
def surroundings : Nat → σ
  | 0     => s
  | n + 1 => (c.connect (surroundings n)).2

/-- What the attempt comes to that is made after so many others. -/
def outcome (n : Nat) : Except SessionError κ := (c.connect (c.surroundings s n)).1

/-- An attempt fails in a way that may pass: the store is not available, or it is busy. -/
def MayPass (outcome : Except SessionError κ) : Prop :=
  ∃ reason, outcome = .error (.unavailable reason) ∨ outcome = .error (.busy reason)

/-- The events of a failed attempt and of the wait after it, before the retry of a number. -/
def lap (number : UInt32) : List Event :=
  attempt .disconnected ++ [.retry number, .wait policy.delay]

/-- The events of so many failed attempts, each with the wait after it. -/
def laps (n : Nat) : List Event := (List.range n).flatMap fun i => lap policy (.ofNat (i + 1))

variable {c policy s}

/-! ### One attempt -/

theorem mayPass_iff {outcome : Except SessionError κ} :
    MayPass outcome ↔ ∃ e : SessionError, outcome = .error e ∧ e.isTransient = true := by
  constructor
  · rintro ⟨reason, rfl | rfl⟩
    · exact ⟨_, rfl, rfl⟩
    · exact ⟨_, rfl, rfl⟩
  · rintro ⟨e, rfl, he⟩
    cases e with
    | unavailable reason => exact ⟨reason, .inl rfl⟩
    | busy reason => exact ⟨reason, .inr rfl⟩
    | connection reason => nomatch he
    | sync reason => nomatch he

theorem connectFrom_of_not_mayPass (policy : RetryPolicy) (retried : UInt32)
    {k : Except SessionError κ} {s' : σ} (h : c.connect s = (k, s')) (hk : ¬ MayPass k) :
    ∃ phase, c.connectFrom policy retried s = ⟨k.mapError .session, attempt phase, s'⟩ := by
  rw [connectFrom, h]
  cases k with
  | ok k => exact ⟨.connected, rfl⟩
  | error e =>
      have he : e.isTransient = false :=
        Bool.eq_false_iff.mpr fun he => hk (mayPass_iff.mpr ⟨e, rfl, he⟩)
      refine ⟨.disconnected, ?_⟩
      simp [he, Except.mapError]

theorem connectFrom_of_mayPass (policy : RetryPolicy) (retried : UInt32) {e : SessionError}
    {s' : σ} (h : c.connect s = (.error e, s')) (he : e.isTransient = true) :
    c.connectFrom policy retried s =
      if policy.retries ≤ retried then
        ⟨.error (.retriesExhausted policy.retries e), attempt .disconnected, s'⟩
      else (c.connectFrom policy (retried + 1) s').after (lap policy (retried + 1)) := by
  rw [connectFrom, h]
  simp [he, lap]

/-! ### Laps -/

theorem connect_surroundings (n : Nat) :
    c.connect (c.surroundings s n) = (c.outcome s n, c.surroundings s (n + 1)) := rfl

theorem laps_succ (n : Nat) :
    laps policy (n + 1) = laps policy n ++ lap policy (.ofNat (n + 1)) := by
  simp [laps, List.range_succ]

@[simp] theorem count_connect_laps (n : Nat) : (laps policy n).count .connect = n := by
  induction n with
  | zero => rfl
  | succ n ih => rw [laps_succ, List.count_append, ih]; rfl

@[simp] theorem waits_laps (n : Nat) :
    (laps policy n).filterMap Event.wait? = List.replicate n policy.delay := by
  induction n with
  | zero => rfl
  | succ n ih => rw [laps_succ, List.filterMap_append, ih, List.replicate_succ']; rfl

@[simp] theorem retries_laps (n : Nat) :
    (laps policy n).filterMap Event.retry? = (List.range n).map fun i => .ofNat (i + 1) := by
  induction n with
  | zero => rfl
  | succ n ih => rw [laps_succ, List.filterMap_append, ih, List.range_succ, List.map_append]; rfl

/-- The counter stands at the number of failures, as long as that is not more than there are
retries. -/
theorem toNat_ofNat_of_le {n : Nat} (h : n ≤ policy.retries.toNat) : (UInt32.ofNat n).toNat = n :=
  UInt32.toNat_ofNat_of_lt' (Nat.lt_of_le_of_lt h policy.retries.toNat_lt)

/-- **After failures that may pass** the loop is where it would be if it began with its counter at
their number, in the surroundings that they left. -/
theorem connectFrom_eq_after_laps {n : Nat} (hn : n ≤ policy.retries.toNat)
    (h : ∀ i < n, MayPass (c.outcome s i)) :
    c.connectFrom policy 0 s
      = (c.connectFrom policy (.ofNat n) (c.surroundings s n)).after (laps policy n) := by
  induction n with
  | zero => rfl
  | succ n ih =>
      obtain ⟨e, he, htransient⟩ := mayPass_iff.mp (h n (Nat.lt_succ_self n))
      have hconnect := connect_surroundings (c := c) (s := s) n
      rw [he] at hconnect
      have hle : ¬ policy.retries ≤ .ofNat n := by
        rw [UInt32.le_iff_toNat_le, toNat_ofNat_of_le (Nat.le_of_succ_le hn)]
        omega
      rw [ih (Nat.le_of_succ_le hn) fun i hi => h i (Nat.lt_succ_of_lt hi),
        connectFrom_of_mayPass _ _ hconnect htransient, if_neg hle, laps_succ]
      simp [Run.after, UInt32.ofNat_add]

/-! ### What the loop comes to -/

/-- The events of a loop that retried so often: it connected once more, waited as often, and
numbered its retries from one on without a gap. -/
structure Retried (policy : RetryPolicy) (n : Nat) (events : List Event) : Prop where
  connects : events.count .connect = n + 1
  waits : events.filterMap Event.wait? = List.replicate n policy.delay
  numbers : (events.filterMap Event.retry?).map UInt32.toNat = (List.range n).map (· + 1)

theorem retried_laps {n : Nat} (hn : n ≤ policy.retries.toNat) (phase : Phase) :
    Retried policy n (laps policy n ++ attempt phase) := by
  refine ⟨?_, ?_, ?_⟩
  · rw [List.count_append, count_connect_laps]
    rfl
  · rw [List.filterMap_append, waits_laps]
    exact List.append_nil _
  · rw [List.filterMap_append, retries_laps]
    simp only [attempt, List.filterMap_cons, Event.retry?, List.filterMap_nil, List.append_nil,
      List.map_map]
    refine List.map_congr_left fun i hi => ?_
    exact toNat_ofNat_of_le (Nat.le_trans (List.mem_range.mp hi) hn)

/-- An outcome that is no failure that may pass ends the loop. -/
theorem connectFrom_of_settled {n : Nat} (hn : n ≤ policy.retries.toNat)
    (h : ∀ i < n, MayPass (c.outcome s i)) (hsettled : ¬ MayPass (c.outcome s n)) :
    let r := c.connectFrom policy 0 s
    Retried policy n r.events ∧ r.result = (c.outcome s n).mapError .session ∧
      r.state = c.surroundings s (n + 1) := by
  obtain ⟨phase, hlast⟩ :=
    connectFrom_of_not_mayPass policy (.ofNat n) (connect_surroundings n) hsettled
  rw [connectFrom_eq_after_laps hn h, hlast]
  exact ⟨retried_laps hn phase, rfl, rfl⟩

/-- Failures that may pass end the loop when its retries are used up. -/
theorem connectFrom_of_exhausted (h : ∀ i ≤ policy.retries.toNat, MayPass (c.outcome s i)) :
    let r := c.connectFrom policy 0 s
    Retried policy policy.retries.toNat r.events ∧
      ∃ e, c.outcome s policy.retries.toNat = .error e ∧
        r.result = .error (.retriesExhausted policy.retries e) := by
  obtain ⟨e, he, htransient⟩ := mayPass_iff.mp (h _ (Nat.le_refl _))
  have hconnect := connect_surroundings (c := c) (s := s) policy.retries.toNat
  rw [he] at hconnect
  have hlast := connectFrom_of_mayPass policy policy.retries hconnect htransient
  rw [if_pos (UInt32.le_refl _)] at hlast
  have hlaps := connectFrom_eq_after_laps (Nat.le_refl _) fun i hi => h i (Nat.le_of_lt hi)
  rw [UInt32.ofNat_toNat, hlast] at hlaps
  intro r
  rw [show r = _ from hlaps]
  exact ⟨retried_laps (Nat.le_refl _) .disconnected, e, he, rfl⟩

/-- **What the loop comes to.**  Whatever the attempts come to, the loop connects at most once more
than it has retries.

* If the first outcome that is no failure that may pass comes after `n` others, and there are so
  many retries, the loop connects `n + 1` times, waits `n` times, and comes to that outcome, an
  error as it is.
* If no such outcome comes in time the loop retries as often as it may, and reports the last failure
  beside the number of retries. -/
theorem connectFrom_outcomes (c : Connector σ κ) (policy : RetryPolicy) (s : σ) :
    let r := c.connectFrom policy 0 s
    let retries := policy.retries.toNat
    r.events.count .connect ≤ retries + 1 ∧
    (∀ n ≤ retries, (∀ i < n, MayPass (c.outcome s i)) → ¬ MayPass (c.outcome s n) →
      Retried policy n r.events ∧ r.result = (c.outcome s n).mapError .session) ∧
    ((∀ i ≤ retries, MayPass (c.outcome s i)) →
      Retried policy retries r.events ∧ ∃ e, c.outcome s retries = .error e ∧
        r.result = .error (.retriesExhausted policy.retries e)) := by
  intro r retries
  refine ⟨?_, fun n hn h hsettled => ?_, connectFrom_of_exhausted⟩
  · by_cases hall : ∀ i ≤ retries, MayPass (c.outcome s i)
    · exact Nat.le_of_eq (connectFrom_of_exhausted hall).1.connects
    -- the first outcome that is no such failure comes in time
    · classical
      obtain ⟨i, hi⟩ := not_forall.mp hall
      have hex : ∃ i, i ≤ retries ∧ ¬ MayPass (c.outcome s i) := ⟨i, Classical.not_imp.mp hi⟩
      obtain ⟨hn, hsettled⟩ := Nat.find_spec hex
      have hbefore : ∀ j < Nat.find hex, MayPass (c.outcome s j) := fun j hj =>
        not_not.mp fun hj' => Nat.find_min hex hj ⟨Nat.le_trans (Nat.le_of_lt hj) hn, hj'⟩
      have hcount := (connectFrom_of_settled hn hbefore hsettled).1.connects
      exact hcount ▸ Nat.succ_le_succ hn
  · obtain ⟨hretried, hresult, -⟩ := connectFrom_of_settled hn h hsettled
    exact ⟨hretried, hresult⟩

/-- A store that is busy, then starting, and then there: found with as many retries as there can be,
and given up on with one. -/
theorem connectFrom_third_time :
    let s : Script := { connect := [some (.busy "locked"), some (.unavailable "starting")] }
    let many := Script.connector.connectFrom { retries := 4294967295, delay := 10 } 0 s
    let once := Script.connector.connectFrom { retries := 1 } 0 s
    many.events.count .connect = 3 ∧ many.events.filterMap Event.wait? = [10, 10] ∧
      many.result = .ok [] ∧ once.events.count .connect = 2 ∧
      once.result = .error (.retriesExhausted 1 (.unavailable "starting")) := by
  intro s many once
  have hfirst : ∀ i ≤ 1, MayPass (Script.connector.outcome s i)
    | 0, _ => ⟨_, .inr rfl⟩
    | 1, _ => ⟨_, .inl rfl⟩
  have hthird : ¬ MayPass (Script.connector.outcome s 2) := nofun
  obtain ⟨-, hmany, -⟩ :=
    connectFrom_outcomes Script.connector { retries := 4294967295, delay := 10 } s
  obtain ⟨hretried, hresult⟩ :=
    hmany 2 (by decide) (fun i hi => hfirst i (Nat.le_of_lt_succ hi)) hthird
  obtain ⟨-, -, honce⟩ := connectFrom_outcomes Script.connector { retries := 1 } s
  obtain ⟨hexhausted, e, he, hgaveUp⟩ := honce hfirst
  obtain rfl := Except.error.inj he
  exact ⟨hretried.connects, hretried.waits, hresult, hexhausted.connects, hgaveUp⟩

/-- What every attempt to connect keeps, the loop keeps, and its session is one that an attempt
gave. -/
theorem connectFrom_induction {P : σ → Prop} {Q : κ → σ → Prop}
    (hP : ∀ s, P s → P (c.connect s).2)
    (hQ : ∀ s k, P s → (c.connect s).1 = .ok k → Q k (c.connect s).2) (retried : UInt32)
    (hs : P s) :
    P (c.connectFrom policy retried s).state ∧
      ∀ k, (c.connectFrom policy retried s).result = .ok k →
        Q k (c.connectFrom policy retried s).state := by
  fun_induction c.connectFrom policy retried s with
  | case1 retried s k s' h =>
      have hkept := hP s hs
      have hgiven := hQ s k hs
      rw [h] at hkept hgiven
      exact ⟨hkept, fun k' hk' => Except.ok.inj hk' ▸ hgiven rfl⟩
  | case2 retried s e s' h he =>
      have hkept := hP s hs
      rw [h] at hkept
      exact ⟨hkept, nofun⟩
  | case3 retried s e s' h he hle =>
      have hkept := hP s hs
      rw [h] at hkept
      exact ⟨hkept, nofun⟩
  | case4 retried s e s' h he hle ih =>
      have hkept := hP s hs
      rw [h] at hkept
      exact ih hkept

end Connector

end Schemata
