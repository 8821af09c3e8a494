import OpenLock.Device.Execution

/-! Completion callbacks, background polling and the constructors. -/
namespace OpenLock.Controller
open Effects

variable (P : Primitives)

/-- The firmware record after a trial's durable outcome; `none` while it is pending. -/
def bootResult (s : DeviceSnapshot) (m : FirmwareManifest) : BootOutcome → Option DeviceSnapshot
  | .pending => none
  | .confirmed => some { s with
      firmware := { s.firmware with phase := .confirmed, securityVersion := m.securityVersion } }
  | .rolledBack => some { s with firmware := { s.firmware with phase := .failed } }

def reportVersion (version : String) : Ctl Unit :=
  modify fun c => { c with
    factory := { c.factory with info := { c.factory.info with firmware := version } } }

def reportVersionIf (p : Prop) [Decidable p] (version : String) : Ctl Unit :=
  if p then reportVersion version else pure ()

def reconcileBoot : Ctl Unit := do
  let s := (← get).state
  if s.firmware.phase ≠ .trial then pure ()
  else
    let candidate ← orFail (okOr s.firmware.manifest .firmwareInvalid)
    boot
    let outcome ← orFail (← request (.bootOutcome candidate))
    match bootResult s candidate outcome with
    | none => pure ()
    | some next =>
      reportVersionIf (outcome = .confirmed) candidate.version
      commit P (← audit next .firmware none none
        (if outcome = .rolledBack then Error.bootFailed.code else 0))

/-- What a driver's report means once the fresh bolt reading is known. -/
def completion (bolt : Reading BoltState) (target : ActionTarget) :
    ActuatorResult → Fault × OperationPhase × CompletionEvidence × UInt32
  | .completed =>
    match bolt with
    | .known b =>
      if b ≠ expectedBolt target then
        (.sensorConflict, .failed, .sensor, Error.sensorConflict.code)
      else (.none, .completed, .sensor, 0)
    | _ => (.none, .completed, .driver, 0)
  | .jammed => (.jammed, .failed, .none, Error.jammed.code)
  | .sensorConflict => (.sensorConflict, .failed, .none, Error.sensorConflict.code)
  | .failed => (.driver, .failed, .none, Error.actuatorFailed.code)

/-- The relock flags a finished drive leaves behind. -/
def releaseRelock (active : Active) (bolt : Reading BoltState) (next : DeviceSnapshot) :
    Ctl DeviceSnapshot := do
  if active.target = .lock ∨ bolt = .known .locked then
    dropRelock { next with automaticInflight := false }
  else pure next

/-- Record the result of a drive that has just been released. -/
def recordCompletion (active : Active) (phase : OperationPhase) (evidence : CompletionEvidence)
    (error : UInt32) : Ctl Unit := do
  let s := (← get).state
  if active.automatic then
    commit P (← auditAutomatic s phase evidence error)
  else
    let record ← orFail (okOr (findOperation s.operations active.credentialId active.sequence)
      .resultUnavailable)
    let _ ← finish P record.status phase evidence error

def completeDrive (active : Active) (result : ActuatorResult) (now : UInt64) : Ctl Unit := do
  let bolt := (← get).sample.bolt
  let (fault, phase, evidence, error) := completion bolt active.target result
  modify fun c => { c with active := none, lastIdleBolt := idleBolt bolt, fault := fault }
  let next ← scheduleRelockIf (phase = .completed ∧ active.target = .unlock) (← get).state now
  commit P (← releaseRelock active bolt next)
  recordCompletion P active phase evidence error

def actuatorFinished (id : ActuationId) (result : ActuatorResult) : Ctl Unit := do
  let now ← now
  failIf ((← get).active.all fun active => active.id ≠ id) .invalidState
  hardwareChanged P
  match (← get).active with
  | none => pure ()
  | some active => completeDrive P active result now

/-- The door-ajar reminder of `poll`. -/
def remindDoorAjar (now : UInt64) : Ctl Unit := do
  let c ← get
  if c.state.config.doorAjarMs > 0
      ∧ c.doorOpenSince.any (fun t => saturatingSub now t ≥ c.state.config.doorAjarMs.toUInt64)
      ∧ c.fault ≠ .doorAjar then
    modify fun c => { c with fault := .doorAjar }
    commit P (← audit c.state .hardware none none Error.doorOpen.code)
  else pure ()

def relockDue (c : Controller) (now : UInt64) : Bool :=
  c.active.isNone && c.state.firmware.phase != .trial && c.state.pendingRelock
    && (c.relockDeadline.any fun t => now ≥ t)
    && match canLock c with
      | .ok () => true
      | .error _ => false

/-- End an automatic attempt that did not drive. -/
def endAutomatic (phase : OperationPhase) (evidence : CompletionEvidence) (error : UInt32) :
    Ctl Unit := do
  let s := (← get).state
  commit P (← auditAutomatic { s with automaticInflight := false } phase evidence error)

def automaticDrive (c : Controller) (deadline : UInt64) : Active :=
  ⟨nextActuationId c, ⟨Vector.replicate 16 0⟩, 0, .lock, deadline, true⟩

def startAutomatic (deadline : UInt64) : Ctl Unit := do
  modify fun c => { c with active := some (automaticDrive c deadline), lastIdleBolt := none }
  let c ← get
  match ← request (.startAction (nextActuationId c) .lock c.state.config.releaseMs false) with
  | .ok () => pure ()
  | .error e =>
    modify fun c => { c with fault := .driver }
    throw e

/-- Claim the relock obligation durably, then drive it at most once. -/
def automaticRelock : Ctl Unit := do
  let s := (← get).state
  commit P (← auditAutomatic { s with pendingRelock := false, automaticInflight := true }
    .accepted .none 0)
  modify fun c => { c with relockDeadline := none }
  match ← attempt (prepareActuation .lock) with
  | .ok (some deadline) => startAutomatic deadline
  | .ok none => endAutomatic P .completed .sensor 0
  | .error error =>
    if (← get).poisoned then throw error
    else
      endAutomatic P .failed .none error.code
      throw error

def poll : Ctl Unit := do
  let now ← now
  hardwareChanged P
  reconcileBoot P
  remindDoorAjar P now
  if relockDue (← get) now then automaticRelock P else pure ()

/-- A constructor: it returns the controller it built, or an error and none. -/
abbrev Init := ExceptT Error (Prog Answer)

def Init.request (e : Effect) : Init (Answer e) :=
  ExceptT.mk (.op e fun a => .pure (.ok a))

def Init.orFail {α : Type} (x : Except Error α) : Init α := ExceptT.mk (.pure x)

/-- Run a method on a freshly built controller. -/
def Init.onController (x : Ctl Unit) (c : Controller) : Init Controller :=
  ExceptT.mk ((x.run c).bind fun
    | (.ok (), c') => .pure (.ok c')
    | (.error e, _) => .pure (.error e))

/-- An interrupted operation is reported as unknown and never resumed. -/
def interruptOperation (r : OperationRecord) : OperationRecord :=
  if r.status.phase = .accepted ∨ r.status.phase = .running then
    { r with status := { r.status with phase := .unknown, error := Error.actuatorFailed.code } }
  else r

def recoveredSnapshot (s : DeviceSnapshot) (sample : HardwareSample) : DeviceSnapshot :=
  { s with
    automaticInflight := false
    pendingRelock := if sample.bolt = .known .locked then false else s.pendingRelock
    operations := s.operations.map interruptOperation }

def bootController (f : FactoryIdentity) (s : DeviceSnapshot) (sample : HardwareSample)
    (lastMono : UInt64) : Controller where
  factory := f
  state := s
  poisoned := false
  sample := sample
  lastIdleBolt := idleBolt sample.bolt
  fault := .none
  active := none
  lastMono := lastMono
  relockDeadline := if s.pendingRelock then some lastMono else none
  doorOpenSince := if sample.door = .known .open then some lastMono else none
  pairingUntil := none
  pairingFailures := 0
  confirmation := none

/-- An automatic drive that was running is audited as unknown. -/
def auditInterrupted (interruptedAutomatic : Bool) (s : DeviceSnapshot) : Ctl DeviceSnapshot := do
  if interruptedAutomatic then
    modify fun c => { c with fault := .driver }
    auditAutomatic s .unknown .none Error.actuatorFailed.code
  else pure s

/-- Report the version of firmware that was confirmed before. -/
def reportConfirmed (w : FirmwareStatus) : Ctl Unit := do
  if w.phase = .confirmed then
    let m ← orFail (okOr w.manifest .storageUnavailable)
    reportVersion m.version
  else pure ()

/-- The methods `open_stopped` calls on the controller it has built. -/
def recover (sample : HardwareSample) (interruptedAutomatic : Bool) : Ctl Unit := do
  orFail (validateSample (← get) sample)
  commit P (← auditInterrupted interruptedAutomatic (← get).state)
  reportConfirmed (← get).state.firmware
  reconcileBoot P

/-- A device that advertises firmware updates needs a bootloader. -/
def requireBootloader (f : FactoryIdentity) : Init Unit := do
  if f.info.capabilities &&& firmwareCapabilities ≠ 0 then
    failIf (¬ (← Init.request .bootloader)) .invalidConfig
  else pure ()

def openStopped (f : FactoryIdentity) : Init Controller := do
  Init.orFail f.info.validate
  let stored ← Init.orFail (← Init.request .load)
  let s ← Init.orFail (okOr stored .notProvisioned)
  Init.orFail (s.validate P f)
  requireBootloader f
  let sample ← Init.request .sensors
  let lastMono ← Init.request .monotonicMs
  Init.onController (recover P sample s.automaticInflight)
    (bootController f (recoveredSnapshot s sample) sample lastMono)

def «open» (f : FactoryIdentity) : Init Controller := do
  Init.orFail (← Init.request .stopAction)
  openStopped P f

/-- `storage.commit(..)?` of a constructor: any failure ends it. -/
def Init.store (s : DeviceSnapshot) : Init Unit := do
  match ← Init.request (.commit s) with
  | .ok => pure ()
  | .lost e | .written e => throw e

/-- The shared body of `provision` and `migrate_legacy`: only for an absent store. -/
def install (f : FactoryIdentity) (s : DeviceSnapshot) : Init Controller := do
  Init.orFail (← Init.request .stopAction)
  Init.orFail f.info.validate
  let stored ← Init.orFail (← Init.request .load)
  failIf stored.isSome .alreadyProvisioned
  Init.orFail (s.validate P f)
  Init.store s
  openStopped P f

def provision (f : FactoryIdentity) : Init Controller := install P f (DeviceSnapshot.factory f)

def migratedSnapshot (f : FactoryIdentity) (legacy : LockSnapshot) (issuer : VerifyingKey)
    (firstAdmin : SubjectKey) : DeviceSnapshot :=
  { DeviceSnapshot.factory f with
    owner := some ⟨issuer.bytes, firstAdmin⟩
    epoch := legacy.epoch
    policyVersion := legacy.policyVersion
    revoked := legacy.revoked
    uses := legacy.usage
    generation := 1 }

def migrateLegacy (f : FactoryIdentity) (legacy : LockSnapshot) (issuer : VerifyingKey)
    (firstAdmin : SubjectKey) : Init Controller :=
  install P f (migratedSnapshot f legacy issuer firstAdmin)

end OpenLock.Controller
