import OpenLock.Abstract.Order
import OpenLock.Refinement.Run

/-! A poisoned controller stays poisoned and fails closed: it only retries the stop of a
drive it still owns. -/
namespace OpenLock
open Controller Effects

variable {P : Primitives} {f : FactoryIdentity} {tr : List (Event Answer)} {ev : Event Answer}
  {c : Controller} {mono : UInt64}

/-- The controller's snapshot after some effects of a method: the last one committed. -/
def memoryAfter (m : DeviceSnapshot) (tr : List (Event Answer)) : DeviceSnapshot :=
  tr.foldl (fun m ev => match ev with
    | ⟨.commit n, .ok⟩ => n
    | _ => m) m

/-- The last monotonic reading. -/
def lastTick (mono : UInt64) (tr : List (Event Answer)) : UInt64 :=
  tr.foldl (fun t ev => match ev with
    | ⟨.monotonicMs, t'⟩ => t'
    | _ => t) mono

section Steps
variable {m : DeviceSnapshot} {mono : UInt64} {s s' : Abs} {ev : Event Answer}

private theorem memoryAfter_snoc (other : ∀ n, ev.effect ≠ .commit n) :
    memoryAfter m (tr ++ [ev]) = memoryAfter m tr := by
  rw [memoryAfter, List.foldl_append]
  obtain ⟨e, x⟩ := ev
  cases e with
  | commit n => exact absurd rfl (other n)
  | _ => rfl

private theorem lastTick_snoc (other : ev.effect ≠ .monotonicMs) :
    lastTick mono (tr ++ [ev]) = lastTick mono tr := by
  rw [lastTick, List.foldl_append]
  obtain ⟨e, x⟩ := ev
  cases e with
  | monotonicMs => exact absurd rfl other
  | _ => rfl

/-- The lock's clock after some effects of a call, as long as it is not poisoned. -/
def Ticked (mono : UInt64) (tr : List (Event Answer)) (s : Abs) : Prop :=
  s.poisoned = false → s.lastMono = lastTick mono tr

theorem Ticked.step (h : Ticked mono tr s) (hs : s.Step P f ev s') : Ticked mono (tr ++ [ev]) s' := by
  intro live
  cases hs.shape with
  | late => cases live
  | tick t =>
    rw [lastTick, List.foldl_append]
    rfl
  | note e x noted =>
    rw [lastTick_snoc (by rintro rfl; cases noted)]
    exact h live
  | stop r | load r | commit _ r | install _ r =>
    rw [lastTick_snoc (fun h => by cases h)]
    cases r <;> first | exact h live | cases live
  | hear | sense | start | submit =>
    rw [lastTick_snoc (fun h => by cases h)]
    exact h live

/-- What the effects of a method call so far say about the lock's memory and clock. -/
structure Recalls (c : Controller) (tr : List (Event Answer)) (s : Abs) : Prop where
  method : s.call.constructs = false
  mem : s.mem = some (memoryAfter c.state tr)
  mono : Ticked c.lastMono tr s

theorem Recalls.step (h : Recalls c tr s) (hs : s.Step P f ev s') : Recalls c (tr ++ [ev]) s' := by
  have method : s'.call.constructs = false := by rw [(Frame.step hs).call]; exact h.method
  have constructs : s.call.constructs = true → False := by
    rw [h.method]
    exact Bool.false_ne_true
  refine ⟨method, ?_, h.mono.step hs⟩
  cases hs.shape with
  | load _ _ built => exact (constructs built).elim
  | install _ _ _ _ _ installs => exact (constructs (Call.installs_constructs installs)).elim
  | commit n r =>
    rw [memoryAfter, List.foldl_append]
    cases r with
    | ok => rfl
    | lost | written => exact h.mem
  | stop r =>
    rw [memoryAfter_snoc (fun _ h => by cases h)]
    cases r <;> exact h.mem
  | note e x noted =>
    rw [memoryAfter_snoc (by rintro n rfl; cases noted)]
    exact h.mem
  | late | tick | hear | sense | start | submit =>
    rw [memoryAfter_snoc (fun _ h => by cases h)]
    exact h.mem

end Steps

section Retry
variable {c : Controller} {α : Type}

/-- The runs of `retryStop`: nothing without a drive, one attempt to stop it with one. -/
private theorem retryStop_exec {out : α} {disk disk' : Option DeviceSnapshot}
    {r : Option (α × Controller)} (exec : Exec storage disk (retryStop c out) tr disk' r) :
    (∀ ev ∈ tr, ev.effect = .stopAction) ∧ disk' = disk
    ∧ ∀ y, r = some y → y.1 = out ∧ y.2.poisoned = c.poisoned ∧ y.2.state = c.state
      ∧ (y.2.active = c.active ∨ (y.2.active = none ∧ ActuatorStopped tr))
      ∧ (c.active.isSome → ∃ x, tr = [⟨.stopAction, x⟩]) := by
  unfold retryStop at exec
  cases active : c.active with
  | none =>
    rw [active] at exec
    cases exec with
    | done =>
      refine ⟨fun _ h => (by cases h), rfl, ?_⟩
      rintro _ ⟨⟩
      exact ⟨rfl, rfl, rfl, .inl active, fun h => by cases h⟩
    | cut => exact ⟨fun _ h => (by cases h), rfl, fun _ h => by cases h⟩
  | some a =>
    rw [active] at exec
    cases exec with
    | cut => exact ⟨fun _ h => (by cases h), rfl, fun _ h => by cases h⟩
    | @step _ _ _ _ x _ _ _ rest =>
      cases x with
      | ok u =>
        cases rest with
        | done =>
          refine ⟨fun _ h => by rw [List.mem_singleton.1 h], rfl, ?_⟩
          rintro _ ⟨⟩
          exact ⟨rfl, rfl, rfl, .inr ⟨rfl, u, List.mem_singleton.2 rfl⟩, fun _ => ⟨_, rfl⟩⟩
        | cut => exact ⟨fun _ h => by rw [List.mem_singleton.1 h], rfl, fun _ h => by cases h⟩
      | error e =>
        cases rest with
        | done =>
          refine ⟨fun _ h => by rw [List.mem_singleton.1 h], rfl, ?_⟩
          rintro _ ⟨⟩
          exact ⟨rfl, rfl, rfl, .inl active, fun _ => ⟨_, rfl⟩⟩
        | cut => exact ⟨fun _ h => by rw [List.mem_singleton.1 h], rfl, fun _ h => by cases h⟩

end Retry

/-- A method on a poisoned controller: it only retries the stop of an owned drive, fails,
and gives the drive up only when a stop succeeded. -/
structure FailsClosed (r : Record P f) (m : Method) (c : Controller) : Prop where
  effects : ∀ ev ∈ r.trace, ev.effect = .stopAction
  disk : r.after.disk = r.before.disk
  failed : ∀ out, r.output = some out → out.failed = true
  kept : ∀ c', r.after.controller = some c' → c'.poisoned = true ∧ c'.state = c.state
    ∧ (c'.active = c.active ∨ (c'.active = none ∧ ActuatorStopped r.trace))
  retried : reachesClock P c m = true → c.active.isSome → r.output.isSome →
    ∃ x, r.trace = [⟨.stopAction, x⟩]

theorem Record.failsClosed (r : Record P f) {m : Method} (call : r.call = .method m)
    (found : r.before.controller = some c) (poisoned : c.poisoned = true) : FailsClosed r m c := by
  obtain ⟨before, k, trace, output, after, performed⟩ := r
  cases call
  cases performed with
  | @method _ c₀ _ _ r controller exec =>
    cases controller.symm.trans found
    cases reaches : reachesClock P c m with
    | true =>
      rw [method_retries poisoned m reaches] at exec
      obtain ⟨effects, disk, returned⟩ := retryStop_exec exec
      refine ⟨effects, disk, fun out ho => ?_, fun c' hc' => ?_, fun _ owned ho => ?_⟩
      · obtain ⟨y, hy, rfl⟩ := Option.map_eq_some_iff.1 ho
        rw [(returned y hy).1]
        cases m <;> rfl
      · obtain ⟨y, hy, rfl⟩ := Option.map_eq_some_iff.1 hc'
        obtain ⟨_, dead, state, active, _⟩ := returned y hy
        exact ⟨dead.trans poisoned, state, active⟩
      · obtain ⟨out, ho⟩ := Option.isSome_iff_exists.1 ho
        obtain ⟨y, hy, _⟩ := Option.map_eq_some_iff.1 ho
        exact (returned y hy).2.2.2.2 owned
    | false =>
      obtain ⟨e, rejects⟩ := method_rejects m reaches
      rw [rejects] at exec
      cases exec with
      | done =>
        refine ⟨fun _ h => (by cases h), rfl, ?_, ?_, fun h => by rw [reaches] at h; cases h⟩
        · rintro _ ⟨⟩
          rfl
        · rintro _ ⟨⟩
          exact ⟨poisoned, rfl, .inl rfl⟩
      | cut => exact ⟨fun _ h => (by cases h), rfl, fun _ h => (by cases h), fun _ h => (by cases h),
          fun h => by rw [reaches] at h; cases h⟩

/-- A controller that a method leaves live was live before. -/
theorem Record.live (r : Record P f) {c c' : Controller} (method : r.call.constructs = false)
    (found : r.before.controller = some c) (left : r.after.controller = some c')
    (live : c'.poisoned = false) : c.poisoned = false := by
  obtain ⟨m, call⟩ := Call.exists_method method
  by_contra dead
  have kept := ((r.failsClosed call found (by simpa using dead)).kept c' left).1
  rw [kept] at live
  cases live

/-- The effects that poison the controller: a failed commit, a monotonic clock that went
backwards, and a failed stop of the actuator. -/
inductive Poisons (mono : UInt64) (pre : List (Event Answer)) : Event Answer → Prop
  | commit (n : DeviceSnapshot) (x : CommitAnswer) (failed : x ≠ .ok) :
      Poisons mono pre ⟨.commit n, x⟩
  | clock (t : UInt64) (back : t < lastTick mono pre) : Poisons mono pre ⟨.monotonicMs, t⟩
  | stop (e : Error) : Poisons mono pre ⟨.stopAction, .error e⟩

theorem Poisons.poisoned {pre : List (Event Answer)} {s s' : Abs} (h : Poisons mono pre ev)
    (ticked : Ticked mono pre s) (hs : s.Step P f ev s') :
    s'.poisoned = true := by
  cases h with
  | commit n x failed =>
    cases hs.shape with
    | note _ _ noted => cases noted
    | commit | install =>
      cases x with
      | ok => exact absurd rfl failed
      | lost | written => rfl
  | clock t back =>
    obtain ⟨quiet, rfl⟩ := hs
    rw [← ticked quiet.live] at back
    rw [Abs.tick, if_pos back]
  | stop e =>
    obtain ⟨_, rfl⟩ := hs
    rfl

/-- From an effect that poisons the controller on, a call only stops the actuator. -/
theorem Follows.poisons {r : Record P f} {s s' : Lock P f} {pre post : List (Event Answer)}
    (follows : Follows r s s') (entered : Ticked mono [] (s.enter r.call r.before.controller).1)
    (split : r.trace = pre ++ ev :: post) (poisons : Poisons mono pre ev) :
    (∀ ev ∈ post, ev.effect = .stopAction) ∧ s'.1.poisoned = true := by
  obtain ⟨t, t', before, hs, rest, _⟩ := follows.effect split
  have ticked : Ticked mono pre t.1 :=
    Follows.along (I := fun tr u => Ticked mono tr u.1) (fun _ _ _ _ h hs => h.step hs) entered before
  have dead := poisons.poisoned ticked hs
  exact ⟨Abs.poisoned_trace rest dead, Abs.poisoned_path rest dead⟩

/-- Stops change no memory. -/
private theorem memoryAfter_stops {m : DeviceSnapshot} (stops : ∀ ev ∈ tr, ev.effect = .stopAction) :
    memoryAfter m tr = m := by
  induction tr with
  | nil => rfl
  | cons ev tr ih =>
    obtain ⟨e, x⟩ := ev
    obtain rfl : e = .stopAction := stops _ List.mem_cons_self
    exact ih fun ev hev => stops ev (List.mem_cons_of_mem _ hev)

/-- Nor does the effect that poisons the controller. -/
private theorem Poisons.memoryAfter {m : DeviceSnapshot} {pre post : List (Event Answer)}
    (h : Poisons mono pre ev) (stops : ∀ ev ∈ post, ev.effect = .stopAction) :
    memoryAfter m (pre ++ ev :: post) = memoryAfter m pre := by
  rw [OpenLock.memoryAfter, List.foldl_append, List.foldl_cons]
  change OpenLock.memoryAfter _ post = _
  rw [memoryAfter_stops stops]
  cases h with
  | commit n x failed =>
    cases x with
    | ok => exact absurd rfl failed
    | lost | written => rfl
  | clock => rfl
  | stop => rfl

/-- A constructor that leaves no controller has failed. -/
private theorem Record.built_failed (r : Record P f) (built : r.call.constructs = true)
    (gone : r.after.controller = none) {out : Output} (returned : r.output = some out) :
    out.failed = true := by
  obtain ⟨before, call, trace, output, after, performed⟩ := r
  cases performed with
  | construct =>
    obtain ⟨x, rfl, rfl⟩ := Option.map_eq_some_iff.1 returned
    cases x with
    | ok => cases gone
    | error => rfl
  | method => cases built

/-- A constructor that is poisoned leaves no controller. -/
private theorem Follows.abandons {r : Record P f} {s s' : Lock P f} (follows : Follows r s s')
    (built : r.call.constructs = true) (dead : s'.1.poisoned = true) :
    r.after.controller = none := by
  cases left : r.after.controller with
  | none => rfl
  | some c' =>
    have live := (follows.built built c' left).live
    rw [(follows.after.controller c' left).poisoned.symm.trans dead] at live
    cases live

/-- Poisoning is absorbing and fails closed, in every run: for the rest of the call that
poisons the controller, and in every later call on it. A constructor that meets such a failure
returns no controller. -/
theorem poison_fails_closed (run : Run P f) :
    (∀ r ∈ run.records, ∀ m c, r.call = .method m → r.before.controller = some c →
      c.poisoned = true → FailsClosed r m c)
    ∧ (∀ r ∈ run.records, ∀ m c, r.call = .method m → r.before.controller = some c →
      ∀ pre ev post, r.trace = pre ++ ev :: post → Poisons c.lastMono pre ev →
        (∀ ev ∈ post, ev.effect = .stopAction)
        ∧ (∀ out, r.output = some out → out.failed = true)
        ∧ ∀ c', r.after.controller = some c' →
          c'.poisoned = true ∧ c'.state = memoryAfter c.state pre)
    ∧ ∀ r ∈ run.records, r.call.constructs = true →
      ∀ pre ev post, r.trace = pre ++ ev :: post → Poisons 0 pre ev →
        (∀ ev ∈ post, ev.effect = .stopAction)
        ∧ (∀ out, r.output = some out → out.failed = true)
        ∧ r.after.controller = none := by
  refine ⟨fun r _ m c call found poisoned => r.failsClosed call found poisoned, ?_, ?_⟩
  · intro r hr m c call found pre ev post split poisons
    obtain ⟨s, s', follows⟩ := run.follows hr
    have method : r.call.constructs = false := by rw [call]; rfl
    have coupled := follows.coupled found method
    obtain ⟨stops, dead⟩ := follows.poisons (fun _ => coupled.mono) split poisons
    have ended : Recalls c r.trace s'.1 :=
      Follows.along (I := fun tr u => Recalls c tr u.1) (fun _ _ _ _ h hs => h.step hs)
        ⟨method, coupled.mem, fun _ => coupled.mono⟩ follows.path
    have left : ∀ c', r.after.controller = some c' → c'.poisoned = true := fun c' hc' =>
      (follows.after.controller c' hc').poisoned.symm.trans dead
    refine ⟨stops, fun out ho => ?_, fun c' hc' => ⟨left c' hc', ?_⟩⟩
    · obtain ⟨c', hc'⟩ := r.left method ho
      by_contra answered
      have ready := (follows.returned m c out c' call found ho hc').ready (by simpa using answered)
      have live := ready.live
      rw [left c' hc'] at live
      cases live
    · have mem := ended.mem.symm.trans (follows.after.controller c' hc').mem
      rw [← Option.some.inj mem, split, poisons.memoryAfter stops]
  · intro r hr built pre ev post split poisons
    obtain ⟨s, s', follows⟩ := run.follows hr
    have entered : Ticked 0 [] (s.enter r.call r.before.controller).1 := by
      intro _
      change (if r.call.constructs then 0 else s.1.lastMono) = 0
      rw [if_pos built]
    obtain ⟨stops, dead⟩ := follows.poisons entered split poisons
    have gone := follows.abandons built dead
    exact ⟨stops, fun out => r.built_failed built gone, gone⟩

end OpenLock
