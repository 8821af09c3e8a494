import OpenLock.Abstract.Order
import OpenLock.Device.Scripted
import OpenLock.Refinement.Run

/-! The interlock of a drive: what the last sensor reading of a call showed when the call
started the actuator. -/
namespace OpenLock
open Controller Effects

variable {P : Primitives} {f : FactoryIdentity} {sample : HardwareSample}

/-- Whether the controller owns a drive after an effect. -/
def owns (owned : Bool) : Event Answer → Bool
  | ⟨.startAction _ _ _ _, _⟩ => true
  | ⟨.stopAction, .ok _⟩ => false
  | _ => owned

/-- The call read these sensors last, and has committed nothing since. -/
def LastReading (tr : List (Event Answer)) (sample : HardwareSample) : Prop :=
  ∃ before after, tr = before ++ ⟨.sensors, sample⟩ :: after
    ∧ ∀ ev ∈ after, ev.effect ≠ .sensors ∧ ∀ n, ev.effect ≠ .commit n

theorem LastReading.snoc {tr : List (Event Answer)} {ev : Event Answer} (h : LastReading tr sample)
    (sensors : ev.effect ≠ .sensors) (commit : ∀ n, ev.effect ≠ .commit n) :
    LastReading (tr ++ [ev]) sample := by
  obtain ⟨before, after, rfl, quiet⟩ := h
  refine ⟨before, after ++ [ev], by simp, fun x hx => ?_⟩
  rcases List.mem_append.1 hx with hx | hx
  · exact quiet x hx
  · cases List.mem_singleton.1 hx
    exact ⟨sensors, commit⟩

/-- What the effects of a method call so far say about the lock. -/
structure Watched (owned : Bool) (tr : List (Event Answer)) (s : Abs) : Prop where
  method : s.call.constructs = false
  reading : ∀ sample, s.reading = some sample → LastReading tr sample
  owned : (∃ id result, s.call = .method (.actuatorFinished id result))
    ∨ s.owned.isSome = tr.foldl owns owned

namespace Watched
variable {owned : Bool} {tr : List (Event Answer)} {s s' : Abs} {ev : Event Answer}

/-- An effect that touches neither the actuator nor the memory of the last reading. -/
private theorem other (h : Watched owned tr s) (hs : s.Step P f ev s')
    (sensors : ev.effect ≠ .sensors) (commit : ∀ n, ev.effect ≠ .commit n)
    (actuator : owns (tr.foldl owns owned) ev = tr.foldl owns owned)
    (reading : s'.reading = s.reading) (kept : s'.owned = s.owned) :
    Watched owned (tr ++ [ev]) s' := by
  have frame := Frame.step hs
  refine ⟨by rw [frame.call]; exact h.method, fun sample hr => ?_, ?_⟩
  · exact (h.reading sample (reading ▸ hr)).snoc sensors commit
  · rw [frame.call, kept, List.foldl_append]
    simp only [List.foldl_cons, List.foldl_nil, actuator]
    exact h.owned

theorem step (h : Watched owned tr s) (hs : s.Step P f ev s') : Watched owned (tr ++ [ev]) s' := by
  have constructs : s.call.constructs = true → False := by
    rw [h.method]
    exact Bool.false_ne_true
  cases hs.shape with
  | sense r =>
    refine ⟨h.method, fun sample hr => ?_, ?_⟩
    · cases hr
      exact ⟨tr, [], rfl, fun _ h => by cases h⟩
    · rw [List.foldl_append]
      exact h.owned
  | start =>
    refine ⟨h.method, fun sample hr => ?_, .inr ?_⟩
    · exact (h.reading sample hr).snoc (fun h => (by cases h)) fun _ h => by cases h
    · rw [List.foldl_append]
      rfl
  | stop r =>
    cases r with
    | error => exact h.other hs (fun h => (by cases h)) (fun _ h => (by cases h)) rfl rfl rfl
    | ok =>
      refine ⟨h.method, fun sample hr => ?_, .inr ?_⟩
      · exact (h.reading sample hr).snoc (fun h => (by cases h)) fun _ h => by cases h
      · rw [List.foldl_append]
        rfl
  | load _ _ built => exact (constructs built).elim
  | install _ _ _ _ _ installs => exact (constructs (Call.installs_constructs installs)).elim
  | submit _ _ _ _ _ _ _ _ change =>
    refine ⟨h.method, fun _ hr => (by cases hr), ?_⟩
    rw [List.foldl_append]
    cases change with
    | upkeep upkeep =>
      cases upkeep with
      | release _ a result _ _ call => exact .inl ⟨a.id, result, call⟩
      | _ => exact h.owned
    | _ => exact h.owned
  | commit n r s₀ m pr ow _ _ _ submitted =>
    have kept : (s.committed n pr r).owned = s.owned := by cases r <;> rfl
    have frame := Frame.step hs
    refine ⟨by rw [frame.call]; exact h.method, fun sample hr => ?_, ?_⟩
    · -- A commit follows its own submission, which forgot the reading.
      rw [submitted] at hr
      cases r <;> cases hr
    · rw [frame.call, kept, List.foldl_append]
      exact h.owned
  | note e _ noted =>
    refine h.other hs ?_ ?_ (by cases e <;> first | rfl | cases noted) rfl rfl
    · rintro rfl
      cases noted
    · rintro n rfl
      cases noted
  | late | tick | hear => exact h.other hs (fun h => (by cases h)) (fun _ h => (by cases h)) rfl rfl rfl

end Watched

/-- The last reading of the call lets the actuator move towards the target. -/
def SafeReading (f : FactoryIdentity) (tr : List (Event Answer)) (target : ActionTarget) : Prop :=
  ∃ sample, LastReading tr sample ∧ sampleValid f.info sample = true
    ∧ sample.bolt ≠ .known (expectedBolt target)
    ∧ (target = .lock → f.info.actuator = .motor ∧ (sample.door = .known .closed
      ∨ (sample.door = .unsupported ∧ f.info.safeLockWithoutDoor = true)))
    ∧ (target = .unlock → sample.privacy ≠ .known true ∧ sample.privacy ≠ .unknown)

theorem canLockSample_ok {i : DeviceInfo} (h : canLockSample i sample = .ok ()) :
    i.actuator = .motor ∧ (sample.door = .known .closed
      ∨ (sample.door = .unsupported ∧ i.safeLockWithoutDoor = true)) := by
  unfold canLockSample at h
  split at h
  · cases h
  · rename_i motor
    refine ⟨by simpa using motor, ?_⟩
    split at h
    · rename_i closed
      exact .inl closed
    · cases h
    · rename_i unsupported
      split at h
      · rename_i safe
        exact .inr ⟨unsupported, safe⟩
      · cases h
    · cases h

/-- Only requests and `poll` start drives. -/
theorem Abs.Inv.starter {s : Abs} {a : Active} (h : s.Inv P f) (armed : Armed s.progress a) :
    s.call = .method .poll ∨ ∃ context cmd, s.call.request s.entry = some (context, cmd) := by
  generalize hp : s.progress = pr at armed
  cases armed with
  | manual x => exact .inr ⟨_, _, h.request hp⟩
  | relock => exact .inl (h.polls hp)

/-- Every start of a run has passed the interlock: the last reading of its call, with no
commit since, is valid and lets the target be reached from elsewhere; no drive is owned;
and the durable firmware is not on trial. Pulse hardware is never driven to lock. -/
theorem starts_interlocked (run : Run P f) (r : Record P f) (hr : r ∈ run.records)
    (pre post : List (Event Answer)) (id : ActuationId) (target : ActionTarget)
    (releaseMs : UInt32) (hold : Bool) (answer : Except Error Unit)
    (split : r.trace = pre ++ ⟨.startAction id target releaseMs hold, answer⟩ :: post) :
    SafeReading f pre target
    ∧ pre.foldl owns (r.before.controller.any fun c => c.active.isSome) = false
    ∧ (∃ d, storage.afterAll r.before.disk pre = some d ∧ d.firmware.phase ≠ .trial)
    ∧ ¬ (f.info.actuator = .pulse ∧ target = .lock) := by
  obtain ⟨s, s', follows⟩ := run.follows hr
  obtain ⟨t, t', before, hs, _, call, _, view⟩ := follows.effect split
  have moves := t.2.moves hs
  generalize t'.1 = u at moves
  cases moves with
  | start _ _ _ _ _ a m sample _ idle disk _ read safe armed _ toward =>
    subst toward
    have starter := t.2.starter armed
    rw [call] at starter
    have method : r.call.constructs = false := by
      rcases starter with poll | ⟨_, _, request⟩
      · rw [poll]
        rfl
      · exact Call.request_method request
    obtain ⟨c, found⟩ := r.controller method
    have entered : Watched (r.before.controller.any fun c => c.active.isSome) []
        (s.enter r.call r.before.controller).1 := by
      refine ⟨method, fun _ h => (by cases h), .inr ?_⟩
      rw [found]
      exact congrArg Option.isSome (follows.coupled found method).owned
    have watched : Watched (r.before.controller.any fun c => c.active.isSome) pre t.1 :=
      Follows.along (I := fun tr u => Watched _ tr u.1) (fun _ _ _ _ h hs => h.step hs) entered before
    have lock : a.target = .lock → f.info.actuator = .motor ∧ (sample.door = .known .closed
        ∨ (sample.door = .unsupported ∧ f.info.safeLockWithoutDoor = true)) :=
      fun lock => canLockSample_ok (safe.lock lock)
    refine ⟨⟨sample, watched.reading sample read, safe.valid, safe.moves, lock, safe.unlock⟩, ?_,
      ⟨m, view.symm.trans disk, safe.settled⟩, ?_⟩
    · rcases watched.owned with ⟨_, _, completion⟩ | same
      · rw [call] at completion
        rw [completion] at starter
        rcases starter with poll | ⟨_, _, request⟩
        · cases poll
        · cases request
      · rw [← same, idle]
        rfl
    · rintro ⟨pulse, toLock⟩
      rw [(lock toLock).1] at pulse
      cases pulse
  | other _ _ drive => cases drive

/-- The first unlock of a device whose bolt is locked. -/
theorem starts_interlocked_unlocking : ∃ pre post,
    Bench.unlocking.trace = pre ++ ⟨.startAction ⟨1, 1⟩ .unlock 500 false, .ok ()⟩ :: post
    ∧ SafeReading Bench.factory pre .unlock := by
  have started : Bench.unlocking.trace[13]?
      = some ⟨.startAction ⟨1, 1⟩ .unlock 500 false, .ok ()⟩ := by decide +kernel
  have split := trace_split started
  exact ⟨_, _, split, (starts_interlocked Bench.driven Bench.unlocking Bench.unlocking_mem _ _ _ _ _ _
    _ split).1⟩

end OpenLock
