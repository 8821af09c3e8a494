import OpenLock.Device.Frames
import OpenLock.Device.Scripted
import OpenLock.Properties.Drives
import OpenLock.Properties.Poison

/-! A hazard stops the actuator before anything is persisted: the stop follows the reading
at once, then the drive is recorded as failed, and a stop that fails poisons. -/
namespace OpenLock
open Controller Effects

variable {P : Primitives} {f : FactoryIdentity} {ev : Event Answer}
  {tr pre post : List (Event Answer)} {a : Active} {t t' : Lock P f} {s s' : Abs}

section Readings

/-- A reading comes first: only the monotonic clock is asked before it. -/
private abbrev readsFirst : Spec storage (Option DeviceSnapshot × List (Event Answer)) :=
  traced storage fun tr ev => ev.effect = .sensors → ∀ ev' ∈ tr, ev'.effect = .monotonicMs

variable {c : Controller} {s : Option DeviceSnapshot × List (Event Answer)}

/-- What only services a reading takes none. -/
private theorem serviced_readsFirst {α : Type} {x : Ctl α}
    (h : StaysE Effect.services Frozen x) : SimE readsFirst x c s fun _ _ _ => True := by
  refine Sim.mono ((h c).sim (J := fun _ => True) (fun tr ev _ services => ⟨fun reads => ?_, trivial⟩)
    trivial) fun _ _ _ => trivial
  rw [reads] at services
  cases services

/-- A method that fails whatever happens. -/
private theorem fails_readsFirst {x : Ctl Unit} (h : StaysE Effect.services Frozen x) (e : Error) :
    SimE readsFirst (do x; throw e : Ctl UInt64) c s fun r _ _ => ∀ t, r ≠ .ok t :=
  (serviced_readsFirst h).bind (fun _ _ _ _ _ h => by cases h) fun _ _ _ _ _ h => by cases h

private theorem now_readsFirst : SimE readsFirst now c s fun r _ s' =>
    ∀ t, r = .ok t → s'.2 = s.2 ++ [⟨.monotonicMs, t⟩] := by
  have stops : StaysE Effect.services Frozen poison := .poison trivial fun _ _ h => h
  unfold now
  rw [simE_bind, simE_get, andThen_ok]
  split
  · exact (fails_readsFirst (.stopPoisonedAction trivial fun _ _ h => h) .storageUnavailable).mono
      fun _ _ _ failed t ok => absurd ok (failed t)
  · rw [simE_bind]
    refine simE_perform.2 fun t _ => ⟨_, ⟨nofun, rfl⟩, ?_⟩
    rw [andThen_ok]
    split
    · exact (fails_readsFirst stops .clockUntrusted).mono fun _ _ _ failed t ok => absurd ok (failed t)
    · rintro _ ⟨⟩
      rfl

private theorem hardwareChanged_readsFirst (ticks : ∀ ev ∈ s.2, ev.effect = .monotonicMs) :
    SimE readsFirst (hardwareChanged P) c s fun _ _ _ => True := by
  have serving : Serving (StaysE Effect.services Frozen) :=
    StaysE.serving (fun _ h => h) fun _ _ h => h
  unfold hardwareChanged observeHardware
  rw [simE_bind]
  refine now_readsFirst.bind (fun now c₁ s₁ read => ?_) fun _ _ _ _ => trivial
  rw [simE_bind]
  refine simE_perform.2 fun sample _ => ⟨_, ⟨fun _ ev' hev' => ?_, rfl⟩, ?_⟩
  · rw [read now rfl] at hev'
    rcases List.mem_append.1 hev' with old | new
    · exact ticks ev' old
    · rw [List.mem_singleton.1 new]
  · rw [andThen_ok, simE_bind, simE_get, andThen_ok]
    have returns : ∀ (r : Except Error (Option ClockSample)) (c' : Controller) s', True →
        andThen readsFirst (fun _ => pure ()) (fun _ _ _ => True) r c' s' := by
      rintro (_ | _) _ _ _
      · exact trivial
      · exact trivial
    cases validateSample c₁ sample with
    | ok => exact (serviced_readsFirst (serving.validSample _ _)).mono returns
    | error => exact (serviced_readsFirst (serving.sensorFault _)).mono returns

/-- `actuator_finished` takes its reading before it persists anything. -/
theorem actuatorFinished_reads {disk : Option DeviceSnapshot} (id : ActuationId)
    (result : ActuatorResult) :
    SimE readsFirst (actuatorFinished P id result) c (disk, []) fun _ _ _ => True := by
  have serving : Serving (StaysE Effect.services Frozen) :=
    StaysE.serving (fun _ h => h) fun _ _ h => h
  unfold actuatorFinished
  refine now_readsFirst.bind (fun now c₁ s₁ read => ?_) fun _ _ _ _ => trivial
  rw [simE_bind, simE_get, andThen_ok, simE_bind, simE_failIf]
  refine ⟨fun _ => trivial, fun _ => ?_⟩
  rw [andThen_ok]
  refine SimE.bind (hardwareChanged_readsFirst fun ev hev => ?_) (fun _ c₂ s₂ _ => ?_)
    fun _ _ _ _ => trivial
  · rw [read now rfl] at hev
    rw [List.mem_singleton.1 hev]
  · rw [simE_bind, simE_get, andThen_ok]
    cases c₂.active with
    | none => exact trivial
    | some a => exact serviced_readsFirst (serving.completeDrive a result now)

end Readings

section Stopping
variable {s s' : Abs} {ev : Event Answer} {a : Active} {e : Error} {m : DeviceSnapshot}

/-- The snapshot records the stopped drive: nothing automatic is in flight, and a manual
drive's operation failed with this error. -/
def RecordsFailure (a : Active) (e : Error) (n : DeviceSnapshot) : Prop :=
  n.automaticInflight = false ∧ (a.automatic = false →
    ∃ r ∈ n.operations, r.key = a.key ∧ r.status.phase = .failed ∧ r.status.error = e.code)

/-- With a hazard in view the only effect is the stop. -/
theorem Abs.Step.of_hazard (hs : s.Step P f ev s') (hazard : s.hazard.isSome)
    (settled : s.pending = none) : ∃ x, ev = ⟨.stopAction, x⟩ ∧ s' = s.stop x := by
  have endangered : s.hazard = none → False := by
    intro safe
    rw [safe] at hazard
    cases hazard
  cases hs.shape with
  | stop r => exact ⟨r, rfl, rfl⟩
  | commit _ _ _ _ _ _ _ _ _ submitted =>
    rw [submitted] at settled
    cases settled
  | hear _ _ safe | submit _ _ _ _ _ _ safe => exact (endangered safe).elim
  | late _ quiet | tick _ quiet | sense _ quiet | note _ _ _ quiet | load _ quiet
  | start _ _ _ _ _ _ _ _ quiet | install _ _ quiet => exact (endangered quiet.safe).elim

/-- After a stop the only effects are clock readings and the submission that records it. -/
structure Failing (a : Active) (e : Error) (m : DeviceSnapshot) (s : Abs) : Prop where
  failing : s.failing = some (a, e)
  settled : s.pending = none
  idle : s.owned = none
  mem : s.mem = some m
  live : s.poisoned = false

theorem Failing.step (h : Failing a e m s) (hs : s.Step P f ev s') :
    (∃ r, ev = ⟨.wallClock, r⟩ ∧ Failing a e m s')
    ∨ ∃ n u, ev = ⟨.submit n, u⟩ ∧ (Spent m ∨ RecordsFailure a e n) := by
  have busy : s.failing = none → False := by
    intro recorded
    rw [h.failing] at recorded
    cases recorded
  -- The drive is stopped already, so this is no second stop.
  have driven : (s.call.constructs = true ∧ s.mem = none)
      ∨ (s.owned.isSome ∧ (s.poisoned = true ∨ s.hazard.isSome)) → False := by
    rw [h.mem, h.idle]
    rintro (⟨_, ⟨⟩⟩ | ⟨⟨⟩, _⟩)
  cases hs.shape with
  | hear r => exact .inl ⟨r, rfl, h.failing, rfl, h.idle, h.mem, h.live⟩
  | stop => exact (driven hs.1).elim
  | submit n u m' pr ow _ _ hm change =>
    refine .inr ⟨n, u, rfl, ?_⟩
    cases h.mem.symm.trans hm
    cases change with
    | upkeep upkeep =>
      cases upkeep with
      | background recorded => exact recorded.elim (fun h => (busy h).elim) .inl
      | failure a' e' failing _ inflight record =>
        cases h.failing.symm.trans failing
        exact .inr ⟨inflight, record⟩
      | release _ _ _ recorded | relock recorded | recover recorded => exact (busy recorded).elim
    | accept _ recorded | claim _ _ _ _ _ _ _ _ recorded | domain _ _ _ _ _ _ recorded
    | effect _ recorded | clock _ _ recorded | trialEnded _ recorded => exact (busy recorded).elim
  | commit _ _ _ _ _ _ _ _ _ submitted =>
    have settled := h.settled
    rw [submitted] at settled
    cases settled
  | late _ quiet | tick _ quiet | sense _ quiet | note _ _ _ quiet | load _ quiet
  | start _ _ _ _ _ _ _ _ quiet | install _ _ quiet => exact (busy quiet.recorded).elim

/-- What follows the stop of a drive: clock readings, then nothing more or its record. -/
theorem Failing.path (h : Failing a e m t.1) (path : Path (lockSpec P f) t tr t') :
    ((∀ ev ∈ tr, ev.effect = .wallClock) ∧ Failing a e m t'.1)
    ∨ ∃ clocks n u rest, tr = clocks ++ ⟨.submit n, u⟩ :: rest
      ∧ (∀ ev ∈ clocks, ev.effect = .wallClock) ∧ (Spent m ∨ RecordsFailure a e n) := by
  induction path with
  | nil => exact .inl ⟨fun _ h => (by cases h), h⟩
  | @cons t t₁ t' ev tr head _ ih =>
    rcases h.step head with ⟨r, rfl, next⟩ | ⟨n, u, rfl, recorded⟩
    · rcases ih next with ⟨clocks, last⟩ | ⟨clocks, n, u, rest, rfl, only, recorded⟩
      · exact .inl ⟨List.forall_mem_cons.2 ⟨rfl, clocks⟩, last⟩
      · exact .inr ⟨⟨.wallClock, r⟩ :: clocks, n, u, rest, rfl, List.forall_mem_cons.2 ⟨rfl, only⟩,
          recorded⟩
    · exact .inr ⟨[], n, u, tr, rfl, fun _ h => (by cases h), recorded⟩

end Stopping

/-- The drive the call found is still owned, unless it was stopped or its completion has
persisted something. -/
def StillOwned (a : Active) (tr : List (Event Answer)) (s : Abs) : Prop :=
  ActuatorStopped tr ∨ s.owned = some a
    ∨ (∃ id result, s.call = .method (.actuatorFinished id result))
      ∧ ∃ n u, (⟨.submit n, u⟩ : Event Answer) ∈ tr

theorem StillOwned.step (h : StillOwned a tr s) (hs : s.Step P f ev s') :
    StillOwned a (tr ++ [ev]) s' := by
  have call := (Frame.step hs).call
  rcases h with ⟨u, stopped⟩ | owned | ⟨completes, n, u, submitted⟩
  · exact .inl ⟨u, List.mem_append_left _ stopped⟩
  · cases Abs.Step.handover hs with
    | start _ _ _ _ _ _ idle =>
      rw [idle] at owned
      cases owned
    | stopped u => exact .inl ⟨u, List.mem_append_right _ List.mem_cons_self⟩
    | release n u _ _ b result _ completes =>
      exact .inr (.inr ⟨⟨b.id, result, call.trans completes⟩, n, u,
        List.mem_append_right _ List.mem_cons_self⟩)
    | kept _ _ _ same => exact .inr (.inl (same.trans owned))
  · exact .inr (.inr ⟨call ▸ completes, n, u, List.mem_append_left _ submitted⟩)

/-- Nothing follows a failed stop in any call. -/
theorem Record.nothing_after_failed_stop (r : Record P f) {m : Method} (call : r.call = .method m)
    (split : r.trace = pre ++ ev :: post) (failed : FailedStop ev) :
    post = [] := by
  obtain ⟨before, k, trace, output, after, performed⟩ := r
  cases call
  cases performed with
  | method _ exec => exact ((method_ends m _).exec exec split failed).1

/-- A reading of `actuator_finished` comes before anything is persisted. -/
theorem Record.reads_first (r : Record P f) {id : ActuationId} {result : ActuatorResult}
    (call : r.call = .method (.actuatorFinished id result)) {reading : HardwareSample}
    (split : r.trace = pre ++ ⟨.sensors, reading⟩ :: post) :
    ∀ ev ∈ pre, ev.effect = .monotonicMs := by
  obtain ⟨before, k, trace, output, after, performed⟩ := r
  cases call
  cases performed with
  | @method _ c _ _ _ _ exec =>
    have spec : Sim readsFirst ((Method.actuatorFinished id result).program P c) (before.disk, [])
        fun _ _ => True := by
      change Sim _ (((actuatorFinished P id result).run c).bind _) _ _
      rw [sim_bind]
      exact Sim.mono (actuatorFinished_reads id result) fun _ _ _ => trivial
    exact (spec.exec exec).1 pre _ post split rfl

/-- What follows a reading that shows a hazard of the drive. -/
inductive HazardHandled (r : Record P f) (a : Active) (e : Error) (m : DeviceSnapshot) :
    List (Event Answer) → Prop
  | cut (output : r.output = none) : HazardHandled r a e m []
  | failed (x : Error) (kept : ∀ c', r.after.controller = some c' →
      c'.poisoned = true ∧ c'.active = some a) : HazardHandled r a e m [⟨.stopAction, .error x⟩]
  | recorded (u : Unit) (clocks : List (Event Answer)) (n : DeviceSnapshot) (v : Unit)
      (rest : List (Event Answer)) (only : ∀ ev ∈ clocks, ev.effect = .wallClock)
      (records : Spent m ∨ RecordsFailure a e n)
      (released : ∀ c', r.after.controller = some c' → c'.active ≠ some a) :
      HazardHandled r a e m (⟨.stopAction, .ok u⟩ :: (clocks ++ ⟨.submit n, v⟩ :: rest))
  | unrecorded (u : Unit) (clocks : List (Event Answer))
      (only : ∀ ev ∈ clocks, ev.effect = .wallClock) (spent : r.output = none ∨ Spent m)
      (released : ∀ c', r.after.controller = some c' → c'.active ≠ some a) :
      HazardHandled r a e m (⟨.stopAction, .ok u⟩ :: clocks)

/-- A drive that runs after an effect ran before it or was started by it. -/
theorem Abs.Step.owned_from (hs : s.Step P f ev s') (owned : s'.owned = some a) :
    s.owned = some a ∨ ∃ target, ev.effect.drive = some (a.id, target) := by
  cases Abs.Step.handover hs with
  | start id target _ _ _ b _ same =>
    cases owned
    exact .inr ⟨target, by rw [same]; rfl⟩
  | stopped _ _ idle | release _ _ _ _ _ _ _ _ _ _ idle =>
    rw [idle] at owned
    cases owned
  | kept _ _ _ same => exact .inl (same.symm.trans owned)

/-- The running drive was started by an earlier effect. -/
def Begun (ms : List Moment) (s : Lock P f) : Prop :=
  ∀ a, s.1.owned = some a → ∃ q ∈ ms, ∃ target, q.drive = some (a.id, target)

theorem Begun.inductively : Run.Inductive (Begun : List Moment → Lock P f → Prop) := by
  refine ⟨fun _ h => (by cases h), fun _ _ _ _ h => h, fun ms s ev s' h hs a owned => ?_⟩
  rcases Abs.Step.owned_from hs owned with before | started
  · obtain ⟨q, hq, started⟩ := h a before
    exact ⟨q, List.mem_append_left _ hq, started⟩
  · exact ⟨_, List.mem_append_right _ List.mem_cons_self, started⟩

/-- A drive that runs at the end of effects that found none was started by one of them. -/
theorem owned_started (path : Path (lockSpec P f) t tr t') (idle : t.1.owned = none)
    (owned : t'.1.owned = some a) :
    ∃ ev ∈ tr, ∃ target, ev.effect.drive = some (a.id, target) := by
  have start : ∀ a, t.1.owned = some a → ∃ ev ∈ ([] : List (Event Answer)),
      ∃ target, ev.effect.drive = some (a.id, target) := by
    intro a owned
    rw [idle] at owned
    cases owned
  refine Path.history (I := fun tr u => ∀ a, u.1.owned = some a →
    ∃ ev ∈ tr, ∃ target, ev.effect.drive = some (a.id, target)) ?_ start path a owned
  intro tr u ev u' h hs a owned
  rcases Abs.Step.owned_from hs owned with before | started
  · obtain ⟨ev', hev', started⟩ := h a before
    exact ⟨ev', List.mem_append_left _ hev', started⟩
  · exact ⟨ev, List.mem_append_right _ List.mem_cons_self, started⟩

/-- A drive that was running when the call began is not started again by it. -/
theorem Run.not_restarted (run : Run P f) {rs rest : List (Record P f)} {r : Record P f}
    (split : run.records = rs ++ r :: rest) {s : Lock P f}
    (begun : Begun (rs.flatMap Record.moments) s) (owned : s.1.owned = some a) (hev : ev ∈ r.trace)
    {target : ActionTarget} : ev.effect.drive ≠ some (a.id, target) := by
  intro started
  obtain ⟨q, hq, target', before⟩ := begun a owned
  obtain ⟨q', hq', event⟩ : ∃ q' ∈ r.moments, q'.event = ev := momentsFrom_event hev
  obtain ⟨_, _, dated⟩ := run.history Dated.inductively
  have distinct := dated.distinct
  rw [Run.moments, split, List.flatMap_append, List.flatMap_cons] at distinct
  have apart := (List.pairwise_append.1 distinct).2.2 q hq q' (List.mem_append_left _ hq')
  exact apart _ _ _ _ before (by rw [Moment.drive, event]; exact started) rfl

/-- A reading that shows a hazard of the running drive, in any call of any run: the next
effect stops the actuator. If the stop succeeds, the drive is given up and the next
snapshot submitted records it as failed, unless the log is spent; if it fails, the
controller is poisoned, keeps the drive and does nothing more. -/
theorem hazards_stop_first (run : Run P f) : ∀ r ∈ run.records, ∀ m c a,
    r.call = .method m → r.before.controller = some c → c.active = some a →
    ∀ pre reading post e, r.trace = pre ++ ⟨.sensors, reading⟩ :: post → ¬ ActuatorStopped pre →
      hazardOf f.info (lastTick c.lastMono pre) reading a = some e →
      HazardHandled r a e (memoryAfter c.state pre) post := by
  intro r hr m c a call found active pre reading post e split running shows
  obtain ⟨rs, others, place⟩ := List.append_of_mem hr
  obtain ⟨s, s', begun, follows⟩ := run.call Begun.inductively place
  have method : r.call.constructs = false := by rw [call]; rfl
  have coupled := follows.coupled found method
  obtain ⟨t, t', before, hs, rest, callT, _⟩ := follows.effect split
  have owned : t.1.owned = some a := by
    have still : StillOwned a pre t.1 :=
      Follows.along (I := fun tr u => StillOwned a tr u.1) (fun _ _ _ _ h hs => h.step hs)
        (.inr (.inl (coupled.owned.trans active))) before
    rcases still with stopped | owned | ⟨⟨id, result, completes⟩, n, u, submitted⟩
    · exact absurd stopped running
    · exact owned
    · cases r.reads_first (callT.symm.trans completes) split _ submitted
  have recalls : Recalls c pre t.1 :=
    Follows.along (I := fun tr u => Recalls c tr u.1) (fun _ _ _ _ h hs => h.step hs)
      ⟨method, coupled.mem, fun _ => coupled.mono⟩ before
  have sensed : t'.1 = t.1.sense f.info reading := hs.2
  have live : t'.1.poisoned = false := by rw [sensed]; exact hs.1.live
  have mem : t'.1.mem = some (memoryAfter c.state pre) := by rw [sensed]; exact recalls.mem
  have running' : t'.1.owned = some a := by rw [sensed]; exact owned
  have hazard : t'.1.hazard = some e := by
    rw [sensed]
    change t.1.owned.bind _ = _
    rw [owned, Option.bind_some, recalls.mono hs.1.live]
    exact shows
  cases rest with
  | nil =>
    -- A call that has returned has dealt with every hazard.
    refine .cut ?_
    cases output : r.output with
    | none => rfl
    | some out =>
      obtain ⟨c', hc'⟩ := r.left method output
      have after := follows.after.controller c' hc'
      have safe := after.safe (after.poisoned.symm.trans live)
      rw [hazard] at safe
      cases safe
  | @cons _ t₁ _ ev tail head rest =>
    obtain ⟨x, rfl, stopped⟩ := Abs.Step.of_hazard head (by rw [hazard]; rfl) (by rw [sensed]; rfl)
    cases x with
    | error x =>
      have again : r.trace = (pre ++ [⟨.sensors, reading⟩]) ++ ⟨.stopAction, .error x⟩ :: tail := by
        rw [split]
        simp
      obtain rfl := r.nothing_after_failed_stop call again ⟨x, rfl⟩
      cases rest
      refine .failed x fun c' hc' => ?_
      have after := follows.after.controller c' hc'
      refine ⟨?_, ?_⟩
      · rw [← after.poisoned, stopped]
        rfl
      · rw [← after.owned, stopped]
        exact running'
    | ok u =>
      have idle : t₁.1.owned = none := by rw [stopped]; rfl
      have failing : Failing a e (memoryAfter c.state pre) t₁.1 := by
        rw [stopped]
        refine ⟨?_, rfl, rfl, mem, live⟩
        change t'.1.toRecord = _
        rw [Abs.toRecord, live, running', hazard]
        rfl
      have released : ∀ c', r.after.controller = some c' → c'.active ≠ some a := by
        intro c' hc' same
        obtain ⟨ev, hev, target, started⟩ :=
          owned_started rest idle ((follows.after.controller c' hc').owned.trans same)
        refine run.not_restarted place begun (coupled.owned.trans active) ?_ started
        rw [split]
        simp [hev]
      rcases failing.path rest with ⟨clocks, last⟩ | ⟨clocks, n, v, more, rfl, only, records⟩
      · refine .unrecorded u tail clocks ?_ released
        cases output : r.output with
        | none => exact .inl rfl
        | some out =>
          obtain ⟨c', hc'⟩ := r.left method output
          have after := follows.after.controller c' hc'
          have returned := follows.returned m c out c' call found output hc'
          rcases returned.recorded (after.poisoned.symm.trans last.live) with none | spent
          · rw [last.failing] at none
            cases none
          · have same := Option.some.inj (after.mem.symm.trans last.mem)
            exact .inr (same ▸ spent)
      · exact .recorded u clocks n v more only records released

/-- A second unlock that arrives when the first has run out of time, on a device with room
for one operation record. -/
def Bench.overtaken : Run Bench.primitives Bench.factory :=
  Bench.driven.then (Bench.steady 1001) (Bench.send 1 (some 2) .unlock)

theorem Bench.overtaken_three : 2 < Bench.overtaken.records.length := by decide +kernel

def Bench.overtaking : Record Bench.primitives Bench.factory :=
  Bench.overtaken.records.get ⟨2, Bench.overtaken_three⟩

theorem Bench.overtaking_begins : Bench.overtaking.trace = [⟨.monotonicMs, (1001 : UInt64)⟩] ++
    ⟨.sensors, Bench.showing .locked⟩ :: ⟨.stopAction, .ok ()⟩ :: Bench.overtaking.trace.drop 3 := by
  have begins : Bench.overtaking.trace.take 3 = [⟨.monotonicMs, (1001 : UInt64)⟩,
      ⟨.sensors, Bench.showing .locked⟩, ⟨.stopAction, .ok ()⟩] := by decide +kernel
  have whole := List.take_append_drop 3 Bench.overtaking.trace
  rw [begins] at whole
  exact whole.symm

private theorem tick_runs (t : UInt64) : ¬ ActuatorStopped [⟨.monotonicMs, t⟩] := by
  rintro ⟨u, stopped⟩
  cases List.mem_singleton.1 stopped

/-- The first drive has run out of time. -/
theorem Bench.overtaking_late : (Bench.overtaking.before.controller.any fun c => c.active.any fun a =>
    !a.automatic
    && decide (hazardOf Bench.factory.info 1001 (Bench.showing .locked) a = some .actionTimeout)
    && Bench.overtaking.after.controller.any fun c' =>
      !c'.poisoned && c'.state.operations.all fun op => decide (op.key ≠ a.key)) = true := by
  decide +kernel

/-- Its drive is handled as a hazard. -/
theorem hazards_stop_first_overtaken : ∃ c a,
    Bench.overtaking.before.controller = some c ∧ c.active = some a
    ∧ HazardHandled Bench.overtaking a .actionTimeout
      (memoryAfter c.state [⟨.monotonicMs, (1001 : UInt64)⟩])
      (⟨.stopAction, .ok ()⟩ :: Bench.overtaking.trace.drop 3) := by
  have late := Bench.overtaking_late
  simp only [Option.any_eq_true, Bool.and_eq_true, decide_eq_true_eq] at late
  obtain ⟨c, found, a, active, ⟨_, timeout⟩, _⟩ := late
  exact ⟨c, a, found, active, hazards_stop_first Bench.overtaken _ (List.get_mem _ _) _ c a rfl found
    active _ _ _ _ Bench.overtaking_begins (tick_runs 1001) timeout⟩

def Bench.commitsOk : Event Answer → Bool
  | ⟨.commit _, x⟩ => x = .ok
  | _ => true

/-- It is stopped, every commit succeeds and the controller lives, but the same call has
evicted the drive's record by the time it returns. -/
theorem overtaken_record_evicted :
    ∃ r ∈ Bench.overtaken.records, ∃ m c c' a pre reading post,
      r.call = .method m ∧ r.before.controller = some c ∧ c.active = some a
      ∧ a.automatic = false ∧ r.trace = pre ++ ⟨.sensors, reading⟩ :: ⟨.stopAction, .ok ()⟩ :: post
      ∧ ¬ ActuatorStopped pre
      ∧ hazardOf Bench.factory.info (lastTick c.lastMono pre) reading a = some .actionTimeout
      ∧ (∀ ev ∈ post, ∀ n, ev.effect = .commit n → ev = ⟨.commit n, .ok⟩)
      ∧ r.after.controller = some c' ∧ c'.poisoned = false
      ∧ ∀ op ∈ c'.state.operations, op.key ≠ a.key := by
  have commits : Bench.overtaking.trace.all Bench.commitsOk = true := by decide +kernel
  have late := Bench.overtaking_late
  simp only [Option.any_eq_true, Bool.and_eq_true, List.all_eq_true, decide_eq_true_eq,
    Bool.not_eq_true'] at late
  obtain ⟨c, found, a, active, ⟨manual, timeout⟩, c', left, live, evicted⟩ := late
  refine ⟨Bench.overtaking, List.get_mem _ _, _, c, c', a, _, _, _, rfl, found, active, manual,
    Bench.overtaking_begins, tick_runs 1001, timeout, ?_, left, live, evicted⟩
  rintro ⟨e, x⟩ hev n rfl
  have ok := of_decide_eq_true (List.all_eq_true.1 commits _ (List.mem_of_mem_drop hev))
  rw [ok]

end OpenLock
