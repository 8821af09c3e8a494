import OpenLock.Device.Scripted
import OpenLock.Refinement.Run

/-! The firmware version a device reports, before and after a restart. The version is kept in
memory; a restart derives it from the firmware record, which later transfers overwrite. -/
namespace OpenLock
open Controller Effects

variable {P : Primitives} {f : FactoryIdentity}

/-- A restart on a working platform: `open` runs to its end after the controller of a run
was dropped, while it was not poisoned and had no image on trial. -/
structure Restart (P : Primitives) (f : FactoryIdentity) where
  run : Run P f
  dropped : Controller
  found : run.final.controller = some dropped
  live : dropped.poisoned = false
  settled : dropped.state.firmware.phase ≠ .trial
  reopened : Record P f
  next : reopened.before = run.final
  opens : reopened.call = .construct .open
  completes : reopened.output.isSome
  works : ∀ ev ∈ reopened.trace, Works f ev

/-- `info().firmware` is what it was before the restart. -/
def Restart.Survives (x : Restart P f) : Prop :=
  ∃ c, x.reopened.after.controller = some c
    ∧ c.factory.info.firmware = x.dropped.factory.info.firmware

/-- Between calls a live controller agrees with its store and with its firmware record. -/
theorem Run.identified (run : Run P f) {c : Controller} (found : run.final.controller = some c)
    (live : c.poisoned = false) : ∃ s : Lock P f, Tracks run.final s
      ∧ run.final.disk = some c.state ∧ Identified f c.factory c.state.firmware := by
  have trivially : Run.Inductive fun _ (_ : Lock P f) => True :=
    ⟨trivial, fun _ _ _ _ _ => trivial, fun _ _ _ _ _ _ => trivial⟩
  obtain ⟨s, tracks, _⟩ := run.history trivially
  have coupled := tracks.controller c found
  refine ⟨s, tracks, ?_, coupled.factory⟩
  rw [← tracks.disk]
  exact s.2.synced (coupled.poisoned.trans live) _ coupled.mem

/-- What `open` makes of the snapshot it finds. -/
theorem Record.restarted {s : Lock P f} {m : DeviceSnapshot} (r : Record P f)
    (opens : r.call = .construct .open) (completes : r.output.isSome) (tracks : Tracks r.before s)
    (disk : r.before.disk = some m) (settled : m.firmware.phase ≠ .trial) :
    ∃ x : Except Error Controller, r.after.controller = x.toOption
      ∧ Restarted f (· ∈ r.trace) m (x.map (·.factory.info.firmware)) := by
  obtain ⟨before, call, trace, output, after, performed⟩ := r
  cases performed with
  | method => cases opens
  | @construct k _ _ result exec =>
    cases opens
    cases result with
    | none => cases completes
    | some x =>
      refine ⟨x, rfl, ?_⟩
      obtain ⟨s', _, _, post⟩ := Sim.sound (open_spec (s.entering .open before.controller))
        tracks.disk (exec.assuming fun _ occurs => occurs)
      exact (post x rfl).2 m (tracks.disk.trans disk) settled

/-- On a working platform a restart succeeds, with the version its firmware record implies,
unless an interrupted drive can no longer be recorded. -/
theorem Restart.outcome (x : Restart P f) : x.reopened.after.controller = none ∧ Stuck x.dropped.state
    ∨ ¬ Stuck x.dropped.state ∧ ∃ c, x.reopened.after.controller = some c
      ∧ c.factory.info.firmware = bootVersion f x.dropped.state.firmware := by
  obtain ⟨s, tracks, disk, _⟩ := x.run.identified x.found x.live
  rw [← x.next] at tracks disk
  obtain ⟨r, left, restarted⟩ :=
    x.reopened.restarted x.opens x.completes tracks disk x.settled
  cases r with
  | error e =>
    rcases restarted with ⟨ev, occurs, broken⟩ | stuck
    · exact absurd (x.works ev occurs) broken
    · exact .inl ⟨left, stuck⟩
  | ok c => exact .inr ⟨restarted.2, c, left, restarted.1⟩

/-- The reported version survives a restart exactly when the firmware record still holds the
confirmed image, or the version is the built-in one, and the restart is possible at all. -/
theorem version_survives_iff (x : Restart P f) :
    x.Survives ↔ (x.dropped.state.firmware.phase = .confirmed
        ∨ x.dropped.factory.info.firmware = f.info.firmware) ∧ ¬ Stuck x.dropped.state := by
  obtain ⟨_, _, _, identified⟩ := x.run.identified x.found x.live
  have same : bootVersion f x.dropped.state.firmware = x.dropped.factory.info.firmware ↔
      x.dropped.state.firmware.phase = .confirmed
        ∨ x.dropped.factory.info.firmware = f.info.firmware := by
    by_cases confirmed : x.dropped.state.firmware.phase = .confirmed
    · obtain ⟨m, known, version⟩ := identified.version confirmed
      rw [bootVersion_confirmed confirmed known, version]
      exact ⟨fun _ => .inl confirmed, fun _ => rfl⟩
    · rw [bootVersion_unconfirmed confirmed, eq_comm]
      exact ⟨.inr, fun either => either.resolve_left confirmed⟩
  rcases x.outcome with ⟨gone, stuck⟩ | ⟨unstuck, c, left, version⟩
  · constructor
    · rintro ⟨c, left, _⟩
      cases gone.symm.trans left
    · exact fun both => absurd stuck both.2
  · rw [← same]
    constructor
    · rintro ⟨c', left', reported⟩
      cases left.symm.trans left'
      exact ⟨version.symm.trans reported, unstuck⟩
    · exact fun both => ⟨c, left, version.trans both.1⟩

namespace Updating
/-! The bench lock with a bootloader, whose codec also knows one firmware manifest. -/

def manifest : FirmwareManifest := ⟨"bench", "bench", "second", 1, Vector.replicate 32 0, 1⟩

def primitives : Primitives := Bench.signing (Wire.value manifest)

def factory : FactoryIdentity :=
  { Bench.factory with
    info := { Bench.factory.info with
      capabilities := 0x7e00f
      maxImageSize := 1
      maxChunkSize := 1 } }

def confirming : Script := { Bench.steady 1 with bootOutcome := .confirmed }

/-- A device whose image was transferred, activated and confirmed. -/
def confirmed : Run primitives factory :=
  [(Bench.steady 1, Bench.send 1 (some 1) (.firmwareBegin [2, 9])),
    (Bench.steady 1, Bench.send 1 (some 2) (.firmwareChunk 0 [0])),
    (Bench.steady 1, Bench.send 1 (some 3) .firmwareFinish),
    (Bench.steady 1, Bench.send 1 (some 4) .firmwareActivate),
    (confirming, .method .poll)].foldl (fun run call => run.then call.1 call.2)
      Bench.imported

/-- It then drops the record of that transfer. -/
def aborted : Run primitives factory :=
  confirmed.then (Bench.steady 1) (Bench.send 1 (some 5) .firmwareAbort)

def reopened : Record primitives factory :=
  .construct primitives factory aborted.final .open (Bench.steady 1)

theorem aborted_alive : aborted.final.controller.isSome = true := by decide +kernel

/-- The controller that is dropped. -/
def dropped : Controller := aborted.final.controller.get aborted_alive

theorem dropped_live : dropped.poisoned = false := by decide +kernel

theorem dropped_empty : dropped.state.firmware.phase = .empty := by decide +kernel

theorem dropped_settled : dropped.state.firmware.phase ≠ .trial := by
  rw [dropped_empty]
  exact fun same => by cases same

theorem steady_works (disk : Option DeviceSnapshot) (past : List (Event Answer)) (e : Effect) :
    Works factory ⟨e, (Bench.steady 1).answer disk past e⟩ := by
  cases e with
  | load => exact ⟨disk, rfl⟩
  | sensors => change sampleValid factory.info (Bench.showing .locked) = true; decide
  | _ => trivial

theorem reopened_works : ∀ ev ∈ reopened.trace, Works factory ev :=
  Record.construct_forall primitives factory steady_works aborted.final .open

def restart : Restart primitives factory where
  run := aborted
  dropped := dropped
  found := (Option.some_get aborted_alive).symm
  live := dropped_live
  settled := dropped_settled
  reopened := reopened
  next := rfl
  opens := rfl
  completes := rfl
  works := reopened_works

/-- After the image was confirmed, aborting the next transfer and restarting make the device
report the version it was built with. -/
theorem aborted_version_lost : ¬ restart.Survives
    ∧ restart.dropped.factory.info.firmware = manifest.version
    ∧ ∃ c, restart.reopened.after.controller = some c
      ∧ c.factory.info.firmware = factory.info.firmware := by
  have reported : restart.dropped.factory.info.firmware = manifest.version := by decide +kernel
  have back : restart.reopened.after.controller.map (·.factory.info.firmware) =
      some factory.info.firmware := by
    decide +kernel
  obtain ⟨c, left, version⟩ := Option.map_eq_some_iff.1 back
  refine ⟨?_, reported, c, left, version⟩
  rintro ⟨c', left', same⟩
  obtain rfl : c = c' := Option.some.inj (left.symm.trans left')
  have clash : factory.info.firmware = manifest.version := version.symm.trans (same.trans reported)
  exact absurd clash (by decide)

end Updating
end OpenLock
