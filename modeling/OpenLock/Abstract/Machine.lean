import OpenLock.Abstract.Change

/-! The abstract lock: one transition for each effect of the controller. It says what
may be persisted, driven or stopped, and in which order, without the code that does it. -/
namespace OpenLock
open Controller Effects
variable {call : Call}

/-- How far the current call has come. -/
inductive Progress where
  | fresh
  /-- A request is durably accepted and not yet driven. -/
  | accepted (x : Accepted)
  /-- The relock obligation is durably claimed and not yet driven. -/
  | relocking
  /-- This call has started a drive, for the given operation unless automatic. -/
  | driven (operation : Option OpKey)
  /-- Ownership or the whole domain has changed; nothing else may happen. -/
  | settled

def Progress.key : Progress → Option OpKey
  | .accepted x => some x.key
  | .driven k => k
  | _ => none

structure Abs where
  call : Call
  entry : Option Controller
  disk : Option DeviceSnapshot
  /-- The controller's own snapshot, once one has been loaded. -/
  mem : Option DeviceSnapshot
  poisoned : Bool
  owned : Option Active
  lastMono : UInt64
  /-- Monotonic readings of this call, and the wall-clock readings it could trust. -/
  times : List UInt64
  clocks : List ClockSample
  /-- What the platform and the bootloader answered in this call, latest first. -/
  notes : List (Event Answer)
  /-- The last sensor reading, while nothing has been persisted since. -/
  reading : Option HardwareSample
  /-- What that reading shows to be wrong with the running drive. -/
  hazard : Option Error
  /-- A drive that was stopped for a hazard and is not yet recorded as failed. -/
  failing : Option (Active × Error)
  /-- Drives released in this call. -/
  released : List Active
  /-- The snapshot just handed to `commit`, with what its success would mean. -/
  pending : Option (DeviceSnapshot × Progress)
  progress : Progress

/-- The violation a reading shows for a running drive. -/
def hazardOf (i : DeviceInfo) (now : UInt64) (r : HardwareSample) (a : Active) : Option Error :=
  if sampleValid i r then driveHazard i r a now else some .sensorConflict

def Call.constructs : Call → Bool
  | .construct _ => true
  | .method _ => false

theorem Call.exists_method (h : call.constructs = false) : ∃ m, call = .method m := by
  cases call with
  | construct => cases h
  | method m => exact ⟨m, rfl⟩

theorem Call.request_method {entry : Option Controller} {x : SessionContext × Command}
    (h : call.request entry = some x) : call.constructs = false := by
  cases call with
  | construct => cases h
  | method => rfl

/-- The snapshot a constructor installs on an absent store. -/
def Call.installs (f : FactoryIdentity) : Call → Option DeviceSnapshot
  | .construct .provision => some (DeviceSnapshot.factory f)
  | .construct (.migrateLegacy legacy issuer firstAdmin) =>
    some (migratedSnapshot f legacy issuer firstAdmin)
  | _ => none

theorem Call.installs_constructs {f : FactoryIdentity} {n : DeviceSnapshot}
    (h : call.installs f = some n) : call.constructs = true := by
  cases call with
  | construct => rfl
  | method => cases h

namespace Abs

def request (s : Abs) : Option (SessionContext × Command) := s.call.request s.entry

/-- Operations whose outcome this call may record. -/
def touches (s : Abs) (k : OpKey) : Prop :=
  (∃ a ∈ s.released, a.automatic = false ∧ a.key = k) ∨ s.progress.key = some k

/-- Free to act: not poisoned, no hazard to stop and no stopped drive to record. -/
structure Quiet (s : Abs) : Prop where
  live : s.poisoned = false
  safe : s.hazard = none
  recorded : s.failing = none

def tick (s : Abs) (t : UInt64) : Abs :=
  if t < s.lastMono then { s with poisoned := true, pending := none }
  else { s with lastMono := t, times := t :: s.times, pending := none }

def hear (s : Abs) (r : Option ClockSample) : Abs :=
  { s with
    clocks := (r.filter fun r => s.mem.any fun m => m.trusts r).toList ++ s.clocks
    pending := none }

def sense (s : Abs) (i : DeviceInfo) (r : HardwareSample) : Abs :=
  { s with
    reading := some r
    hazard := s.owned.bind (hazardOf i s.lastMono r)
    pending := none }

def note (s : Abs) (ev : Event Answer) : Abs := { s with notes := ev :: s.notes, pending := none }

def drive (s : Abs) (a : Active) : Abs :=
  { s with
    owned := some a
    progress := .driven (if a.automatic then none else some a.key)
    pending := none }

/-- A drive stopped for a hazard must next be recorded as failed. -/
def toRecord (s : Abs) : Option (Active × Error) :=
  if s.poisoned then none else s.owned.bind fun a => s.hazard.map fun e => (a, e)

def stop (s : Abs) (r : Except Error Unit) : Abs :=
  match r with
  | .ok _ => { s with
      owned := none
      hazard := none
      failing := s.toRecord
      released := s.owned.toList ++ s.released
      pending := none }
  | .error _ => { s with poisoned := true, pending := none }

def loaded (s : Abs) (r : Except Error (Option DeviceSnapshot)) : Abs :=
  match r with
  | .ok d => { s with mem := d, pending := none }
  | .error _ => { s with pending := none }

def submitted (s : Abs) (n : DeviceSnapshot) (progress : Progress) (owned : Option Active) : Abs :=
  { s with
    released := (if owned.isNone then s.owned.toList else []) ++ s.released
    owned := owned
    reading := none
    pending := some (n, progress) }

def committed (s : Abs) (n : DeviceSnapshot) (progress : Progress) (r : CommitAnswer) : Abs :=
  match r with
  | .ok => { s with
      disk := some n
      mem := some n
      failing := none
      progress := progress
      pending := none }
  | .lost _ => { s with poisoned := true, pending := none }
  | .written _ => { s with disk := some n, poisoned := true, pending := none }

/-- A constructor's first commit, before any controller exists. -/
def installed (s : Abs) (n : DeviceSnapshot) (r : CommitAnswer) : Abs :=
  match r with
  | .ok => { s with disk := some n, pending := none }
  | .lost _ => { s with poisoned := true, pending := none }
  | .written _ => { s with disk := some n, poisoned := true, pending := none }

/-- The state in which a call begins. A constructor starts over from the store. -/
def enter (s : Abs) (call : Call) (entry : Option Controller) : Abs :=
  { s with
    call, entry
    mem := if call.constructs then none else s.mem
    poisoned := if call.constructs then false else s.poisoned
    lastMono := if call.constructs then 0 else s.lastMono
    hazard := if call.constructs then none else s.hazard
    times := []
    clocks := []
    notes := []
    reading := none
    failing := none
    released := []
    pending := none
    progress := .fresh }

end Abs

variable (P : Primitives) (f : FactoryIdentity)

/-- What the bootloader has just answered when an accepted firmware action is recorded. -/
def Witnessed (notes : List (Event Answer)) (m n : DeviceSnapshot) : Action → Prop
  | .firmwareBegin signed =>
    ∃ w, n.firmware.manifest = some w ∧ notes.head? = some ⟨.bootBegin w signed, .ok ()⟩
  | .firmwareChunk offset data =>
    offset = m.firmware.received ∧ n.firmware.received.toNat = offset.toNat + data.length
      ∧ notes.head? = some ⟨.bootWrite offset data, .ok ()⟩
  | .firmwareFinish =>
    ∃ w, m.firmware.manifest = some w ∧ notes.head? = some ⟨.bootImageHash w.size, .ok w.sha256⟩
  | _ => True

/-- The log has no room for the two events that may record a stopped drive. -/
def Spent (m : DeviceSnapshot) : Prop := 2^64 ≤ m.nextCursor.toNat + 2

/-- The changes that leave the authorization state alone: the log and the flags, the outcomes of
operations, a drive that has ended and the claim of a relock. -/
inductive Upkeep (s : Abs) (m n : DeviceSnapshot) : Progress → Option Active → Prop
  | background (recorded : s.failing = none ∨ Spent m) (h : Background f s.touches m n) :
      Upkeep s m n s.progress s.owned
  | failure (a : Active) (e : Error) (failing : s.failing = some (a, e))
      (h : Background f (fun k => a.automatic = false ∧ a.key = k) m n)
      (inflight : n.automaticInflight = false)
      (record : a.automatic = false →
        ∃ r ∈ n.operations, r.key = a.key ∧ r.status.phase = .failed ∧ r.status.error = e.code) :
      Upkeep s m n s.progress s.owned
  | release (entry : Controller) (a : Active) (result : ActuatorResult) (recorded : s.failing = none)
      (owned : s.owned = some a) (call : s.call = .method (.actuatorFinished a.id result))
      (entered : s.entry = some entry) (active : entry.active = some a)
      (h : Background f (fun _ => False) m n) : Upkeep s m n s.progress none
  | relock (recorded : s.failing = none) (fresh : s.progress = .fresh)
      (call : s.call = .method .poll) (idle : s.owned = none)
      (settled : m.firmware.phase ≠ .trial) (h : Background f (fun _ => False) m n)
      (grew : Grew m n) : Upkeep s m n .relocking s.owned
  | recover (recorded : s.failing = none) (call : s.call.constructs = true)
      (h : Background f (fun _ => True) m n) : Upkeep s m n s.progress s.owned

/-- The snapshots an abstract lock may hand to storage, with what a success means. -/
inductive Change (s : Abs) (m n : DeviceSnapshot) : Progress → Option Active → Prop
  | upkeep {pr : Progress} {ow : Option Active} (h : Upkeep f s m n pr ow) : Change s m n pr ow
  | accept (x : Accepted) (recorded : s.failing = none) (fresh : s.progress = .fresh)
      (request : s.request = some (x.context, x.command))
      (h : Acceptance P f s.clocks s.owned x m n) : Change s m n (.accepted x) s.owned
  | claim (entry : Controller) (now : UInt64) (context : SessionContext) (c : Command)
      (key issuer : Bytes32) (admin : Bytes) (g : Grant) (recorded : s.failing = none)
      (fresh : s.progress = .fresh) (request : s.request = some (context, c))
      (entered : s.entry = some entry) (read : now ∈ s.times)
      (h : Claiming P f entry now context c key issuer admin g m n) :
      Change s m n .settled s.owned
  | domain (entry : Controller) (now : UInt64) (context : SessionContext) (c : Command) (g : Grant)
      (seq : UInt64) (recorded : s.failing = none) (fresh : s.progress = .fresh)
      (request : s.request = some (context, c)) (entered : s.entry = some entry)
      (read : now ∈ s.times) (idle : s.owned = none)
      (authorized : Authorized P f m s.clocks context c g seq)
      (h : DomainChange P f entry now context c m n) : Change s m n .settled s.owned
  | effect (x : Accepted) (recorded : s.failing = none) (accepted : s.progress = .accepted x)
      (auth : Effected P f m x n.auth)
      (operations : Retouched (fun _ => False) m.operations n.operations)
      (logged : Logged f.info.logCapacity.toNat m n)
      (witnessed : Witnessed s.notes m n x.command.action) : Change s m n s.progress s.owned
  | clock (x : Accepted) (t : UInt64) (recorded : s.failing = none)
      (accepted : s.progress = .accepted x) (action : x.command.action = .setClock t)
      (set : s.notes.head? = some ⟨.setWallClock t, .ok ()⟩)
      (h : Background f s.touches { m with clockValid := true } n) : Change s m n s.progress s.owned
  | trialEnded (firmware : FirmwareStatus) (recorded : s.failing = none)
      (call : s.call = .method .poll ∨ s.call.constructs = true)
      (trial : m.firmware.phase = .trial) (ended : TrialEnded m firmware)
      (auth : n.auth = { m.auth with firmware })
      (operations : Retouched (fun _ => False) m.operations n.operations)
      (logged : Logged f.info.logCapacity.toNat m n)
      (seen : firmware.phase = .confirmed → ∃ w, m.firmware.manifest = some w
        ∧ s.notes.head? = some ⟨.bootOutcome w, .ok .confirmed⟩) : Change s m n s.progress s.owned

/-- What must hold of the last reading and the snapshot when a drive starts. -/
structure StartSafe (now : UInt64) (m : DeviceSnapshot) (r : HardwareSample) (a : Active) :
    Prop where
  valid : sampleValid f.info r = true
  moves : r.bolt ≠ .known (expectedBolt a.target)
  settled : m.firmware.phase ≠ .trial
  lock : a.target = .lock → canLockSample f.info r = .ok ()
  unlock : a.target = .unlock → r.privacy ≠ .known true ∧ r.privacy ≠ .unknown
  id : a.id = ⟨m.generation, m.nextCursor - 1⟩
  deadline : checkedAdd now m.config.actionTimeoutMs.toUInt64 = some a.deadline

/-- The drive carries out what this call has durably accepted. -/
inductive Armed : Progress → Active → Prop
  | manual (x : Accepted) (a : Active) (manual : a.automatic = false) (key : a.key = x.key)
      (action : (x.command.action = .unlock ∧ x.reserved = true ∧ a.target = .unlock)
        ∨ (x.command.action = .lock ∧ a.target = .lock)) : Armed (.accepted x) a
  | relock (a : Active) (automatic : a.automatic = true) (target : a.target = .lock) :
      Armed .relocking a

/-- A platform or bootloader call that carries out an accepted action. -/
def CarriesOut (action : Action) : Effect → Prop
  | .setWallClock t => action = .setClock t
  | .requestReboot => action = .reboot
  | .bootBegin _ signed => action = .firmwareBegin signed
  | .bootWrite offset data => action = .firmwareChunk offset data
  | .bootActivate _ _ => action = .firmwareActivate
  | .bootAbort => action = .firmwareAbort
  | _ => False

/-- What the stored firmware record must say when the bootloader's slot is changed. -/
def Custody (m : DeviceSnapshot) : Effect → Prop
  | .bootBegin _ _ => m.firmware.phase ≠ .receiving ∧ m.firmware.phase ≠ .verified
    ∧ m.firmware.phase ≠ .trial
  | .bootWrite offset data => m.firmware.phase = .receiving ∧ offset = m.firmware.received
    ∧ ∃ w, m.firmware.manifest = some w ∧ offset.toNat + data.length ≤ w.size.toNat
  | .bootActivate w signed => m.firmware.phase = .trial ∧ m.firmware.manifest = some w
    ∧ m.signedManifest = signed
  | .bootAbort => m.firmware.phase = .empty
  | _ => True

def Abs.Acts (s : Abs) (e : Effect) : Prop :=
  s.Quiet ∧ ∃ x, s.progress = .accepted x ∧ CarriesOut x.command.action e
    ∧ ∃ m, s.mem = some m ∧ Custody m e

/-- The abstract transition of one answered effect. -/
def Abs.Step (s : Abs) : Event Answer → Abs → Prop
  | ⟨.monotonicMs, t⟩, s' => s.Quiet ∧ s' = s.tick t
  | ⟨.wallClock, r⟩, s' => s.poisoned = false ∧ s.hazard = none ∧ s' = s.hear r
  | ⟨.sensors, r⟩, s' => s.Quiet ∧ s' = s.sense f.info r
  | ⟨.startAction id target releaseMs holdOpen, _⟩, s' =>
    s.Quiet ∧ s.owned = none ∧ ∃ a m r, s.mem = some m ∧ s.reading = some r
      ∧ StartSafe f s.lastMono m r a ∧ Armed s.progress a ∧ a.id = id ∧ a.target = target
      ∧ releaseMs = m.config.releaseMs ∧ holdOpen = (!a.automatic && m.config.holdOpen)
      ∧ s' = s.drive a
  | ⟨.stopAction, r⟩, s' =>
    ((s.call.constructs = true ∧ s.mem = none)
      ∨ (s.owned.isSome ∧ (s.poisoned = true ∨ s.hazard.isSome))) ∧ s' = s.stop r
  | ⟨.load, r⟩, s' =>
    s.Quiet ∧ s.call.constructs = true ∧ s.owned = none ∧ s.progress = .fresh
      ∧ (∀ d, r = .ok d → d = s.disk) ∧ s' = s.loaded r
  | ⟨.submit n, _⟩, s' =>
    s.poisoned = false ∧ s.hazard = none ∧ ∃ m progress owned, s.mem = some m
      ∧ Change P f s m n progress owned ∧ s' = s.submitted n progress owned
  | ⟨.commit n, r⟩, s' =>
    (∃ s₀ m progress owned, s₀.poisoned = false ∧ s₀.mem = some m
      ∧ Change P f s₀ m n progress owned ∧ s = s₀.submitted n progress owned
      ∧ Valid P f n ∧ FloorLe m.clockFloor n.clockFloor ∧ s' = s.committed n progress r)
    ∨ (s.Quiet ∧ s.owned = none ∧ s.mem = none ∧ s.disk = none ∧ s.call.installs f = some n
      ∧ f.info.validate = .ok () ∧ Valid P f n ∧ s' = s.installed n r)
  | ⟨.bootloader, r⟩, s' => s.Quiet ∧ s' = s.note ⟨.bootloader, r⟩
  | ⟨.bootRead o l, r⟩, s' => s.Quiet ∧ s' = s.note ⟨.bootRead o l, r⟩
  | ⟨.bootImageHash l, r⟩, s' => s.Quiet ∧ s' = s.note ⟨.bootImageHash l, r⟩
  | ⟨.bootReady, r⟩, s' => s.Quiet ∧ s' = s.note ⟨.bootReady, r⟩
  | ⟨.bootOutcome m, r⟩, s' => s.Quiet ∧ s' = s.note ⟨.bootOutcome m, r⟩
  | ⟨.hasDevicePrivateKey k, r⟩, s' => s.Quiet ∧ s' = s.note ⟨.hasDevicePrivateKey k, r⟩
  | ⟨.setWallClock t, r⟩, s' => s.Acts (.setWallClock t) ∧ s' = s.note ⟨.setWallClock t, r⟩
  | ⟨.requestReboot, r⟩, s' => s.Acts .requestReboot ∧ s' = s.note ⟨.requestReboot, r⟩
  | ⟨.bootBegin m b, r⟩, s' => s.Acts (.bootBegin m b) ∧ s' = s.note ⟨.bootBegin m b, r⟩
  | ⟨.bootWrite o d, r⟩, s' => s.Acts (.bootWrite o d) ∧ s' = s.note ⟨.bootWrite o d, r⟩
  | ⟨.bootActivate m b, r⟩, s' => s.Acts (.bootActivate m b) ∧ s' = s.note ⟨.bootActivate m b, r⟩
  | ⟨.bootAbort, r⟩, s' => s.Acts .bootAbort ∧ s' = s.note ⟨.bootAbort, r⟩

/-- The effects whose answers the lock only notes. -/
def Effect.noted : Effect → Bool
  | .bootloader | .bootRead _ _ | .bootImageHash _ | .bootReady | .bootOutcome _
  | .hasDevicePrivateKey _ | .setWallClock _ | .requestReboot | .bootBegin _ _ | .bootWrite _ _
  | .bootActivate _ _ | .bootAbort => true
  | _ => false

/-- What an answered effect finds and leads to: the cases of `Abs.Step`. -/
inductive Abs.Shape (s : Abs) : Event Answer → Abs → Prop
  | late (t : UInt64) (quiet : s.Quiet) (back : t < s.lastMono) :
      Shape s ⟨.monotonicMs, t⟩ { s with poisoned := true, pending := none }
  | tick (t : UInt64) (quiet : s.Quiet) (forth : ¬ t < s.lastMono) :
      Shape s ⟨.monotonicMs, t⟩ { s with lastMono := t, times := t :: s.times, pending := none }
  | hear (r : Option ClockSample) (live : s.poisoned = false) (safe : s.hazard = none) :
      Shape s ⟨.wallClock, r⟩ (s.hear r)
  | sense (r : HardwareSample) (quiet : s.Quiet) : Shape s ⟨.sensors, r⟩ (s.sense f.info r)
  | note (e : Effect) (x : Answer e) (noted : e.noted = true) (quiet : s.Quiet)
      (acts : e.privileged = true → s.Acts e) : Shape s ⟨e, x⟩ (s.note ⟨e, x⟩)
  | start (id : ActuationId) (target : ActionTarget) (releaseMs : UInt32) (hold : Bool)
      (r : Except Error Unit) (a : Active) (m : DeviceSnapshot) (reading : HardwareSample)
      (quiet : s.Quiet) (idle : s.owned = none) (mem : s.mem = some m)
      (read : s.reading = some reading) (safe : StartSafe f s.lastMono m reading a)
      (armed : Armed s.progress a) (same : a.id = id) (toward : a.target = target) :
      Shape s ⟨.startAction id target releaseMs hold, r⟩ (s.drive a)
  | stop (r : Except Error Unit) : Shape s ⟨.stopAction, r⟩ (s.stop r)
  | load (r : Except Error (Option DeviceSnapshot)) (quiet : s.Quiet)
      (constructs : s.call.constructs = true) (idle : s.owned = none) (fresh : s.progress = .fresh)
      (found : ∀ d, r = .ok d → d = s.disk) : Shape s ⟨.load, r⟩ (s.loaded r)
  | submit (n : DeviceSnapshot) (u : Unit) (m : DeviceSnapshot) (progress : Progress)
      (owned : Option Active) (live : s.poisoned = false) (safe : s.hazard = none)
      (mem : s.mem = some m) (change : Change P f s m n progress owned) :
      Shape s ⟨.submit n, u⟩ (s.submitted n progress owned)
  | commit (n : DeviceSnapshot) (r : CommitAnswer) (s₀ : Abs) (m : DeviceSnapshot)
      (progress : Progress) (owned : Option Active) (live : s₀.poisoned = false)
      (mem : s₀.mem = some m) (change : Change P f s₀ m n progress owned)
      (submitted : s = s₀.submitted n progress owned) (valid : Valid P f n) :
      Shape s ⟨.commit n, r⟩ (s.committed n progress r)
  | install (n : DeviceSnapshot) (r : CommitAnswer) (quiet : s.Quiet) (mem : s.mem = none)
      (disk : s.disk = none) (installs : s.call.installs f = some n)
      (info : f.info.validate = .ok ()) (valid : Valid P f n) :
      Shape s ⟨.commit n, r⟩ (s.installed n r)

variable {P f}

theorem Abs.Step.shape {s s' : Abs} {ev : Event Answer} (hs : s.Step P f ev s') :
    s.Shape P f ev s' := by
  obtain ⟨e, x⟩ := ev
  cases e with
  | monotonicMs =>
    obtain ⟨quiet, rfl⟩ := hs
    unfold tick
    split
    · exact .late x quiet ‹_›
    · exact .tick x quiet ‹_›
  | wallClock =>
    obtain ⟨live, safe, rfl⟩ := hs
    exact .hear x live safe
  | sensors =>
    obtain ⟨quiet, rfl⟩ := hs
    exact .sense x quiet
  | startAction =>
    obtain ⟨quiet, idle, a, m, r, mem, read, safe, armed, same, toward, _, _, rfl⟩ := hs
    exact .start _ _ _ _ x a m r quiet idle mem read safe armed same toward
  | stopAction =>
    obtain ⟨_, rfl⟩ := hs
    exact .stop x
  | load =>
    obtain ⟨quiet, constructs, idle, fresh, found, rfl⟩ := hs
    exact .load x quiet constructs idle fresh found
  | submit n =>
    obtain ⟨live, safe, m, progress, owned, mem, change, rfl⟩ := hs
    exact .submit n x m progress owned live safe mem change
  | commit n =>
    rcases hs with ⟨s₀, m, progress, owned, live, mem, change, submitted, valid, _, rfl⟩ |
      ⟨quiet, _, mem, disk, installs, info, valid, rfl⟩
    · exact .commit n x s₀ m progress owned live mem change submitted valid
    · exact .install n x quiet mem disk installs info valid
  | bootloader | bootRead | bootImageHash | bootReady | bootOutcome | hasDevicePrivateKey =>
    obtain ⟨quiet, rfl⟩ := hs
    exact .note _ x rfl quiet fun h => by cases h
  | setWallClock | requestReboot | bootBegin | bootWrite | bootActivate | bootAbort =>
    obtain ⟨acts, rfl⟩ := hs
    exact .note _ x rfl acts.1 fun _ => acts

end OpenLock
