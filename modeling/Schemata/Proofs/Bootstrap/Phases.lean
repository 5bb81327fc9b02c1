import Schemata.Proofs.Bootstrap.Retrying

/-!
# Schemata — Proofs — Bootstrap — Phases

Which phases a bootstrap goes through, and what it calls in them.  It is disconnected at first; each
attempt to connect enters two phases, and where they lead says what became of it
(`Connector.attempted_connectFrom`).  A run that never connects makes no other calls.  One that does
is connected from then on, and calls its session for the models that it loads: each is registered in
turn, up to the first that fails, and if none does they are synchronized once
(`Connector.Served`).  It is ready only as the last thing of all.

* `Connector.served_serve`: the calls on a session, and what they come to.
* `Connector.bootstrap_course`: the phases and the calls of a run.
-/

namespace Schemata

/-- The phase that an event enters. -/
def Event.entered? : Event → Option Phase
  | .enter phase => some phase
  | _            => none

/-- Whether an event is a call on a session. -/
def Event.isCall : Event → Bool
  | .register _  => true
  | .synchronize => true
  | _            => false

namespace Run

/-- The phases that events enter, in order. -/
def entered (events : List Event) : List Phase := events.filterMap Event.entered?

/-- The phases that a run publishes, from the one that it starts in. -/
def phases {σ α : Type} (r : Run σ α) : List Phase := .disconnected :: entered r.events

/-- The calls on a session, in order. -/
def calls {σ α : Type} (r : Run σ α) : List Event := r.events.filter Event.isCall

/-- The phases of so many attempts to connect that fail. -/
def failures (n : Nat) : List Phase :=
  (List.replicate n [Phase.connecting, .disconnected]).flatten

theorem entered_append (events events' : List Event) :
    entered (events ++ events') = entered events ++ entered events' :=
  List.filterMap_append

theorem failures_succ (n : Nat) :
    failures (n + 1) = [.connecting, .disconnected] ++ failures n := by
  rw [failures, List.replicate_succ, List.flatten_cons, failures]

theorem getLastD_failures (n : Nat) : (failures n).getLastD .disconnected = .disconnected := by
  induction n with
  | zero => rfl
  | succ n ih =>
      rw [failures_succ]
      exact (List.getLastD_cons).trans ((List.getLastD_cons).trans ih)

/-- Where events lead is told by the last phase that they enter. -/
theorem foldl_phaseAfter (events : List Event) (phase : Phase) :
    events.foldl Event.phaseAfter phase = (entered events).getLastD phase := by
  induction events generalizing phase with
  | nil => rfl
  | cons e rest ih =>
      rw [List.foldl_cons, ih]
      cases e with
      | enter next => exact (List.getLastD_cons).symm
      | connect | register _ | synchronize | retry _ | wait _ => rfl

/-- A run ends in the last phase that it publishes. -/
theorem getLast?_phases {σ α : Type} (r : Run σ α) : r.phases.getLast? = some r.phase := by
  rw [phase, phaseAfter, foldl_phaseAfter, phases, List.getLast?_cons, List.getLastD_eq_getLast?]

end Run

/-! ### Phases of events -/

theorem timeline_append (phase : Phase) (time : Nat) (events events' : List Event) :
    timeline phase time (events ++ events') = timeline phase time events ++
      timeline (events.foldl Event.phaseAfter phase)
        (events.foldl (fun time e => time + e.duration) time) events' := by
  induction events generalizing phase time with
  | nil => rfl
  | cons e rest ih =>
      rw [List.cons_append, timeline, ih]
      rfl

theorem event_mem_of_mem_timeline {phase : Phase} {time : Nat} {events : List Event}
    {t : TimedEvent} (h : t ∈ timeline phase time events) : t.event ∈ events := by
  induction events generalizing phase time with
  | nil => nomatch h
  | cons e rest ih =>
      rcases List.mem_cons.mp h with rfl | h
      · exact List.mem_cons_self
      · exact List.mem_cons_of_mem _ (ih h)

/-- Calls on a session leave the phase as it is. -/
theorem phase_of_mem_timeline {phase : Phase} {time : Nat} {events : List Event}
    (hcalls : ∀ e ∈ events, e.isCall = true) {t : TimedEvent}
    (h : t ∈ timeline phase time events) : t.phase = phase := by
  induction events generalizing time with
  | nil => nomatch h
  | cons e rest ih =>
      obtain ⟨he, hrest⟩ := List.forall_mem_cons.mp hcalls
      have hsame : e.phaseAfter phase = phase := by
        cases e with
        | enter next => nomatch he
        | connect | register _ | synchronize | retry _ | wait _ => rfl
      rw [timeline, hsame] at h
      rcases List.mem_cons.mp h with rfl | h
      · rfl
      · exact ih hrest h

namespace Connector

variable {σ κ : Type}

/-! ### Calls on a session -/

theorem entered_calls {calls : List Event} (h : ∀ e ∈ calls, e.isCall = true) :
    Run.entered calls = [] := by
  refine List.filterMap_eq_nil_iff.mpr fun e he => ?_
  cases e with
  | enter phase => nomatch h _ he
  | connect | register _ | synchronize | retry _ | wait _ => rfl

theorem count_connect_calls {calls : List Event} (h : ∀ e ∈ calls, e.isCall = true) :
    calls.count .connect = 0 :=
  List.count_eq_zero.mpr fun hmem => nomatch h _ hmem

/-- What a run that succeeds enters last. -/
def ending {α : Type} : Except BootstrapError α → List Event
  | .ok _    => [.enter .ready]
  | .error _ => []

theorem calls_append_ending {calls : List Event} (h : ∀ e ∈ calls, e.isCall = true) {α : Type}
    (result : Except BootstrapError α) :
    (calls ++ ending result).filter Event.isCall = calls := by
  rw [List.filter_append, List.filter_eq_self.mpr h]
  cases result <;> exact List.append_nil calls

/-! ### Attempts to connect -/

/-- A run connected: one of the attempts that it made gave a session. -/
def Connects {α : Type} (c : Connector σ κ) (s : σ) (r : Run σ α) : Prop :=
  ∃ i < r.events.count .connect, ∃ k, c.outcome s i = .ok k

/-- How attempts to connect end.  All of them fail; or so many do, and the next gives a session. -/
inductive Attempted (c : Connector σ κ) (s : σ) : Run σ κ → Prop where
  | failed {n : Nat} {e : BootstrapError} {events : List Event}
      (hfailed : ∀ i < n, ∃ e, c.outcome s i = .error e) (hconnects : events.count .connect = n)
      (hcalls : ∀ e ∈ events, e.isCall = false) (hentered : Run.entered events = Run.failures n) :
      Attempted c s ⟨.error e, events, c.surroundings s n⟩
  | connected {n : Nat} {k : κ} {events : List Event}
      (hfailed : ∀ i < n, ∃ e, c.outcome s i = .error e) (hk : c.outcome s n = .ok k)
      (hconnects : events.count .connect = n + 1) (hcalls : ∀ e ∈ events, e.isCall = false)
      (hentered : Run.entered events = Run.failures n ++ [.connecting, .connected]) :
      Attempted c s ⟨.ok k, events, c.surroundings s (n + 1)⟩

variable {c : Connector σ κ} {policy : RetryPolicy} {s : σ}

/-- The surroundings after the first attempt are those that all others are made in. -/
theorem surroundings_succ (n : Nat) :
    c.surroundings s (n + 1) = c.surroundings (c.connect s).2 n := by
  induction n with
  | zero => rfl
  | succ n ih => rw [surroundings, ih, surroundings]

theorem outcome_succ (n : Nat) : c.outcome s (n + 1) = c.outcome (c.connect s).2 n := by
  rw [outcome, surroundings_succ, outcome]

/-- A failed attempt before others. -/
theorem failed_of_succ {s' : σ} {e : SessionError} (h : c.connect s = (.error e, s')) {n : Nat}
    (hfailed : ∀ i < n, ∃ e, c.outcome s' i = .error e) :
    ∀ i < n + 1, ∃ e, c.outcome s i = .error e := by
  intro i hi
  cases i with
  | zero => exact ⟨e, congrArg Prod.fst h⟩
  | succ i =>
      rw [outcome_succ, h]
      exact hfailed i (Nat.lt_of_succ_lt_succ hi)

theorem Attempted.after_lap {s' : σ} {e : SessionError} (h : c.connect s = (.error e, s'))
    {number : UInt32} {r : Run σ κ} (hr : Attempted c s' r) :
    Attempted c s (r.after (lap policy number)) := by
  have hs' : s' = (c.connect s).2 := (congrArg Prod.snd h).symm
  have hlap : ∀ e ∈ lap policy number, e.isCall = false := by
    simp [lap, attempt, Event.isCall]
  cases hr with
  | @failed n _ events hfailed hconnects hcalls hentered =>
      have hcount : (lap policy number ++ events).count .connect = n + 1 := by
        rw [List.count_append, hconnects, Nat.add_comm]
        rfl
      have hphases : Run.entered (lap policy number ++ events) = Run.failures (n + 1) := by
        rw [Run.entered_append, hentered, Run.failures_succ]
        rfl
      rw [Run.after, hs', ← surroundings_succ]
      exact .failed (failed_of_succ h hfailed) hcount
        (List.forall_mem_append.mpr ⟨hlap, hcalls⟩) hphases
  | @connected n k events hfailed hk hconnects hcalls hentered =>
      have hcount : (lap policy number ++ events).count .connect = n + 1 + 1 := by
        rw [List.count_append, hconnects, Nat.add_comm]
        rfl
      have hphases : Run.entered (lap policy number ++ events)
          = Run.failures (n + 1) ++ [.connecting, .connected] := by
        rw [Run.entered_append, hentered, Run.failures_succ]
        rfl
      rw [hs', ← outcome_succ] at hk
      rw [Run.after, hs', ← surroundings_succ]
      exact .connected (failed_of_succ h hfailed) hk hcount
        (List.forall_mem_append.mpr ⟨hlap, hcalls⟩) hphases

/-- **How the attempts of a loop end**, whatever its counter starts at. -/
theorem attempted_connectFrom (c : Connector σ κ) (policy : RetryPolicy) (retried : UInt32)
    (s : σ) : Attempted c s (c.connectFrom policy retried s) := by
  have hcalls : ∀ phase, ∀ e ∈ attempt phase, e.isCall = false := by
    simp [attempt, Event.isCall]
  -- an attempt that ends the loop with a failure
  have hlast : ∀ {s s' : σ} {e : SessionError} {e' : BootstrapError},
      c.connect s = (.error e, s') → Attempted c s ⟨.error e', attempt .disconnected, s'⟩ := by
    intro s s' e e' h
    have hs' : s' = c.surroundings s 1 := (congrArg Prod.snd h).symm
    rw [hs']
    exact .failed (failed_of_succ h (by simp)) rfl (hcalls _) rfl
  fun_induction c.connectFrom policy retried s with
  | case1 retried s k s' h =>
      have hs' : s' = c.surroundings s 1 := (congrArg Prod.snd h).symm
      rw [hs']
      exact .connected (by simp) (congrArg Prod.fst h) rfl (hcalls _) rfl
  | case2 retried s e s' h he => exact hlast h
  | case3 retried s e s' h he hle => exact hlast h
  | case4 retried s e s' h he hle ih => exact ih.after_lap h

/-! ### Serving models -/

/-- All of a list of models are registered, one after another: from a session and surroundings to
those after the last. -/
inductive Registers (c : Connector σ κ) : List Model → κ → σ → κ → σ → Prop where
  | nil (k : κ) (s : σ) : Registers c [] k s k s
  | cons {m : Model} {rest : List Model} {k k' k'' : κ} {s s' s'' : σ}
      (h : c.register m k s = (.ok k', s')) (hrest : Registers c rest k' s' k'' s'') :
      Registers c (m :: rest) k s k'' s''

theorem registerAll_of_registers {models : List Model} {k k' : κ} {s s' : σ}
    (h : Registers c models k s k' s') :
    c.registerAll models k s = ⟨.ok k', models.map (.register ·.name), s'⟩ := by
  induction h with
  | nil k s => rfl
  | cons h _ ih =>
      rw [registerAll, h]
      simp [ih, Run.after]

theorem registerAll_of_fails {before rest : List Model} {m : Model} {k k' : κ} {s s' s'' : σ}
    {e : SessionError} (h : Registers c before k s k' s')
    (hm : c.register m k' s' = (.error e, s'')) :
    c.registerAll (before ++ m :: rest) k s
      = ⟨.error (.session e), (before ++ [m]).map (.register ·.name), s''⟩ := by
  induction h with
  | nil k s =>
      rw [List.nil_append, registerAll, hm]
      rfl
  | cons h _ ih =>
      rw [List.cons_append, registerAll, h]
      simp [ih hm, Run.after]

/-- What loading comes to and how the models are served: the calls on the session, and the result.

* Nothing is called if loading fails, or gives no model.
* If every registration succeeds there is one of each model, in order, and then one call to
  synchronize.
* A registration that fails is the last call. -/
structure Served (c : Connector σ κ) (k : κ) (s : σ) (loaded : Except LoadError (List Model))
    (calls : List Event) (result : Except BootstrapError (Ready κ)) : Prop where
  unloaded : ∀ e, loaded = .error e → calls = [] ∧ result = .error (.load e)
  empty : loaded = .ok [] → calls = [] ∧ result = .ok ⟨k, [], none⟩
  registered : ∀ models k' s', loaded = .ok models → models ≠ [] →
    Registers c models k s k' s' →
      calls = models.map (.register ·.name) ++ [.synchronize] ∧
      result = match c.synchronize k' s' with
        | (.error e, _, _)    => .error (.session e)
        | (.ok report, k'', _) => .ok ⟨k'', models.map Model.name, some report⟩
  refused : ∀ before m rest k' s' e s'', loaded = .ok (before ++ m :: rest) →
    Registers c before k s k' s' → c.register m k' s' = (.error e, s'') →
      calls = (before ++ [m]).map (.register ·.name) ∧ result = .error (.session e)

theorem isCall_registerAll (c : Connector σ κ) (models : List Model) (k : κ) (s : σ) :
    ∀ e ∈ (c.registerAll models k s).events, e.isCall = true := by
  induction models generalizing k s with
  | nil => exact nofun
  | cons m rest ih =>
      have hm : (Event.register m.name).isCall = true := rfl
      rw [registerAll]
      split
      · exact List.forall_mem_singleton.mpr hm
      · exact List.forall_mem_cons.mpr ⟨hm, ih _ _⟩

theorem serve_of_ne_nil {models : List Model} (h : models ≠ []) (k : κ) (s : σ) :
    c.serve models k s = match c.registerAll models k s with
      | ⟨.error e, events, s⟩ => ⟨.error e, events, s⟩
      | ⟨.ok k, events, s⟩    => (c.finish (models.map Model.name) k s).after events := by
  rw [serve, if_neg (by simpa using h)]
  obtain ⟨result, events, s'⟩ := c.registerAll models k s
  cases result <;> rfl

/-- Nothing but calls on the session happens while models are served, until a run that succeeds is
ready. -/
theorem events_serve (c : Connector σ κ) (models : List Model) (k : κ) (s : σ) :
    ∃ calls, (∀ e ∈ calls, e.isCall = true) ∧
      (c.serve models k s).events = calls ++ ending (c.serve models k s).result := by
  by_cases hne : models = []
  · subst hne
    exact ⟨[], nofun, rfl⟩
  · have hcalls := c.isCall_registerAll models k s
    rw [serve_of_ne_nil hne]
    generalize c.registerAll models k s = registered at hcalls
    obtain ⟨result, events, s'⟩ := registered
    cases result with
    | error e => exact ⟨events, hcalls, (List.append_nil _).symm⟩
    | ok k' =>
        have hsynchronize : ∀ e ∈ [Event.synchronize], e.isCall = true :=
          List.forall_mem_singleton.mpr rfl
        refine ⟨_, List.forall_mem_append.mpr ⟨hcalls, hsynchronize⟩, ?_⟩
        simp only [Run.after, finish]
        split
        · exact (List.append_nil _).symm
        · exact (List.append_assoc events [.synchronize] [.enter .ready]).symm

/-- **The calls on a session, and what they come to.** -/
theorem served_serve (c : Connector σ κ) (models : List Model) (k : κ) (s : σ) :
    Served c k s (.ok models) (c.serve models k s).calls (c.serve models k s).result where
  unloaded := nofun
  empty h := by
    obtain rfl := Except.ok.inj h
    exact ⟨rfl, rfl⟩
  registered := by
    rintro _ k' s' ⟨⟩ hne hall
    have hcalls := c.isCall_registerAll models k s
    rw [serve_of_ne_nil hne, registerAll_of_registers hall]
    rw [registerAll_of_registers hall] at hcalls
    simp only [Run.calls, Run.after, finish]
    obtain ⟨result, k'', s''⟩ := c.synchronize k' s'
    cases result with
    | error e => exact ⟨by rw [List.filter_append, List.filter_eq_self.mpr hcalls]; rfl, rfl⟩
    | ok report => exact ⟨by rw [List.filter_append, List.filter_eq_self.mpr hcalls]; rfl, rfl⟩
  refused := by
    rintro before m rest k' s' e s'' ⟨⟩ hbefore hm
    have hcalls := c.isCall_registerAll (before ++ m :: rest) k s
    rw [serve_of_ne_nil (by simp), registerAll_of_fails hbefore hm]
    rw [registerAll_of_fails hbefore hm] at hcalls
    exact ⟨List.filter_eq_self.mpr hcalls, rfl⟩

/-! ### The course of a run -/

/-- How a run goes.

* It starts disconnected, and enters two phases for every attempt that fails; then it stops there,
  or it connects, and is ready at the very end or never.
* Where it stands in the end tells whether it succeeded, and whether it ever connected.
* Sessions are called only while it is connected.
* Once it has connected it serves what loading gives with the session that the attempt gave. -/
structure Course (c : Connector σ κ) (load : κ → σ → Except LoadError (List Model)) (s : σ)
    (r : Run σ (Ready κ)) : Prop where
  phases : ∃ n, ∃ rest ∈ [[], [Phase.connecting, .connected], [.connecting, .connected, .ready]],
    r.phases = .disconnected :: Run.failures n ++ rest
  ready : r.phases.getLast? = some .ready ↔ ∃ ready, r.result = .ok ready
  connected : r.phases.getLast? = some .connected ↔
    (∃ e, r.result = .error e) ∧ c.Connects s r
  disconnected : r.phases.getLast? = some .disconnected ↔ ¬ c.Connects s r
  calls : ∀ t ∈ timeline .disconnected 0 r.events, t.event.isCall = true → t.phase = .connected
  served : ∀ i k, i < r.events.count .connect → c.outcome s i = .ok k →
    Served c k (c.surroundings s (i + 1)) (load k (c.surroundings s (i + 1))) r.calls r.result

/-- A run that never connects makes no calls. -/
theorem course_of_failed (load : κ → σ → Except LoadError (List Model)) {n : Nat}
    {e : BootstrapError} {events : List Event} {s' : σ}
    (hfailed : ∀ i < n, ∃ e, c.outcome s i = .error e) (hconnects : events.count .connect = n)
    (hcalls : ∀ e ∈ events, e.isCall = false) (hentered : Run.entered events = Run.failures n) :
    Course c load s ⟨.error e, events, s'⟩ := by
  have hnever : ¬ c.Connects s (⟨.error e, events, s'⟩ : Run σ (Ready κ)) := by
    rintro ⟨i, hi, k, hk⟩
    obtain ⟨e', he'⟩ := hfailed i (hconnects ▸ hi)
    nomatch hk.symm.trans he'
  have hphase : (⟨.error e, events, s'⟩ : Run σ (Ready κ)).phases.getLast?
      = some .disconnected := by
    rw [Run.getLast?_phases, Run.phase, Run.phaseAfter, Run.foldl_phaseAfter, hentered,
      Run.getLastD_failures]
  refine ⟨⟨n, [], by simp, ?_⟩, ?_, ?_, ?_, ?_, ?_⟩
  · rw [Run.phases, hentered, List.append_nil]
  · exact iff_of_false (by simp [hphase]) nofun
  · exact iff_of_false (by simp [hphase]) fun h => hnever h.2
  · exact iff_of_true hphase hnever
  · intro t ht hcall
    exact absurd hcall (by simp [hcalls _ (event_mem_of_mem_timeline ht)])
  · exact fun i k hi hk => absurd ⟨i, hi, k, hk⟩ hnever

/-- A run that connects makes its calls while it is connected. -/
theorem course_of_connected {load : κ → σ → Except LoadError (List Model)} {n : Nat} {k : κ}
    {before : List Event} {r : Run σ (Ready κ)}
    (hfailed : ∀ i < n, ∃ e, c.outcome s i = .error e) (hk : c.outcome s n = .ok k)
    (hconnects : before.count .connect = n + 1) (hbefore : ∀ e ∈ before, e.isCall = false)
    (hentered : Run.entered before = Run.failures n ++ [.connecting, .connected])
    (hafter : ∃ calls, (∀ e ∈ calls, e.isCall = true) ∧
      r.events = before ++ (calls ++ ending r.result) ∧
      Served c k (c.surroundings s (n + 1)) (load k (c.surroundings s (n + 1))) calls r.result) :
    Course c load s r := by
  obtain ⟨calls, hcalls, hevents, hserved⟩ := hafter
  have hphases : Run.entered r.events
      = Run.failures n ++ [.connecting, .connected] ++ Run.entered (ending r.result) := by
    rw [hevents, Run.entered_append, Run.entered_append, entered_calls hcalls, hentered]
    rfl
  have hcount : r.events.count .connect = n + 1 := by
    rw [hevents, List.count_append, List.count_append, hconnects, count_connect_calls hcalls]
    cases r.result <;> rfl
  have hconnected : c.Connects s r := ⟨n, hcount ▸ Nat.lt_succ_self n, k, hk⟩
  have hcallsOf : r.calls = calls := by
    rw [Run.calls, hevents, List.filter_append, List.filter_eq_nil_iff.mpr (by simpa using hbefore)]
    exact calls_append_ending hcalls r.result
  have hconnects : before.foldl Event.phaseAfter .disconnected = .connected := by
    rw [Run.foldl_phaseAfter, hentered]
    simp
  have hphase : r.phases.getLast? = some ((Run.entered (ending r.result)).getLastD .connected) := by
    rw [Run.getLast?_phases, Run.phase, Run.phaseAfter, hevents, List.foldl_append, hconnects,
      Run.foldl_phaseAfter, Run.entered_append, entered_calls hcalls, List.nil_append]
  refine ⟨⟨n, [.connecting, .connected] ++ Run.entered (ending r.result), ?_, ?_⟩, ?_, ?_, ?_, ?_,
    ?_⟩
  · cases r.result <;> simp [ending, Run.entered, Event.entered?]
  · rw [Run.phases, hphases, List.append_assoc]
    rfl
  · rw [hphase]
    cases r.result <;> simp [ending, Run.entered, Event.entered?]
  · rw [hphase]
    cases r.result <;> simp [ending, Run.entered, Event.entered?, hconnected]
  · rw [hphase]
    cases r.result <;> simp [ending, Run.entered, Event.entered?, hconnected]
  · intro t ht hcall
    rw [hevents, timeline_append, timeline_append, hconnects, List.mem_append, List.mem_append]
      at ht
    rcases ht with ht | ht | ht
    · exact absurd hcall (by simp [hbefore _ (event_mem_of_mem_timeline ht)])
    · exact phase_of_mem_timeline hcalls ht
    · have hending := event_mem_of_mem_timeline ht
      cases hresult : r.result with
      | error e => rw [hresult] at hending; nomatch hending
      | ok ready =>
          rw [hresult] at hending
          rw [List.mem_singleton.mp hending] at hcall
          nomatch hcall
  · intro i k' hi hk'
    rcases Nat.lt_or_eq_of_le (Nat.le_of_lt_succ (hcount ▸ hi)) with hlt | rfl
    · obtain ⟨e, he⟩ := hfailed i hlt
      nomatch hk'.symm.trans he
    · obtain rfl := Except.ok.inj (hk.symm.trans hk')
      exact hcallsOf ▸ hserved

/-- **How a bootstrap goes**, whatever it connects to, however that answers and whatever is
loaded. -/
theorem bootstrap_course (c : Connector σ κ) (policy : RetryPolicy)
    (load : κ → σ → Except LoadError (List Model)) (s : σ) :
    Course c load s (c.bootstrap policy load s) := by
  have hends := c.attempted_connectFrom policy 0 s
  rw [bootstrap]
  generalize c.connectFrom policy 0 s = connection at hends
  cases hends with
  | failed hfailed hconnects hcalls hentered =>
      exact course_of_failed load hfailed hconnects hcalls hentered
  | @connected n k events hfailed hk hconnects hbefore hentered =>
      dsimp only
      refine course_of_connected hfailed hk hconnects hbefore hentered ?_
      cases load k (c.surroundings s (n + 1)) with
      | error e =>
          refine ⟨[], nofun, (List.append_nil _).symm, ?_⟩
          exact ⟨by rintro _ ⟨⟩; exact ⟨rfl, rfl⟩, nofun, nofun, nofun⟩
      | ok models =>
          have hserved := c.served_serve models k (c.surroundings s (n + 1))
          obtain ⟨calls, hcalls, hevents⟩ := c.events_serve models k (c.surroundings s (n + 1))
          have hsame : (c.serve models k (c.surroundings s (n + 1))).calls = calls := by
            rw [Run.calls, hevents, calls_append_ending hcalls]
          exact ⟨calls, hcalls, congrArg _ hevents, hsame ▸ hserved⟩

/-- A store that is busy at first and refuses the second of two models: it is left connected, with
both registrations made and nothing synchronized. -/
theorem bootstrap_course_refused :
    let s : Script := {
      connect := [some (.busy "locked")], register := [none, some (.unavailable "gone")] }
    let document : Document := ⟨.object, [], [], false, .error, .strict, none⟩
    let models : List Model := [⟨"Photo", document⟩, ⟨"Album", document⟩]
    let r := Script.connector.bootstrap {} (fun _ _ => .ok models) s
    r.phases = [.disconnected, .connecting, .disconnected, .connecting, .connected] ∧
      r.calls = [.register "Photo", .register "Album"] ∧
      r.result = .error (.session (.unavailable "gone")) := by
  intro s document models r
  have hcourse : Course Script.connector (fun _ _ => .ok models) s r := bootstrap_course _ _ _ _
  have hserved := hcourse.served 1 [] (by decide +kernel) rfl
  -- the first model is registered and the second is refused
  obtain ⟨hcalls, hresult⟩ := hserved.refused [⟨"Photo", document⟩] ⟨"Album", document⟩ [] ["Photo"]
    { register := [some (.unavailable "gone")] } _ {} rfl (.cons rfl (.nil _ _)) rfl
  exact ⟨by decide +kernel, hcalls, hresult⟩

end Connector

end Schemata
