import OpenLock.Effects.Program
import OpenLock.Device.Snapshot

/-! The controller's state, the effects it asks of its platform and storage, and
its innermost operations: commit, clocks, poisoning and the audit log. -/
namespace OpenLock
open Effects

structure ActuationId where
  generation : UInt64
  auditCursor : UInt64
  deriving DecidableEq

inductive ActuatorResult where
  | completed | jammed | sensorConflict | failed
  deriving DecidableEq

inductive BootOutcome where
  | pending | confirmed | rolledBack
  deriving DecidableEq

/-- Calls of `DevicePlatform`, `Bootloader` and `DeviceStorage`. The controller
receives them in this order; `submit` marks a snapshot handed to the controller's
own `commit` and reaches nothing outside. -/
inductive Effect where
  | monotonicMs
  | wallClock
  | sensors
  | startAction (id : ActuationId) (target : ActionTarget) (releaseMs : UInt32) (holdOpen : Bool)
  | stopAction
  | setWallClock (unixSeconds : UInt64)
  | requestReboot
  | bootloader
  | bootBegin (manifest : FirmwareManifest) (signed : Bytes)
  | bootWrite (offset : UInt64) (data : Bytes)
  | bootRead (offset : UInt64) (length : Nat)
  | bootImageHash (size : UInt64)
  | bootReady
  | bootActivate (manifest : FirmwareManifest) (signed : Bytes)
  | bootOutcome (candidate : FirmwareManifest)
  | bootAbort
  | hasDevicePrivateKey (key : Bytes32)
  | load
  | submit (next : DeviceSnapshot)
  | commit (next : DeviceSnapshot)
  deriving DecidableEq

abbrev Answer : Effect → Type
  | .monotonicMs => UInt64
  | .wallClock => Option ClockSample
  | .sensors => HardwareSample
  | .startAction _ _ _ _ | .stopAction | .setWallClock _ | .requestReboot => Except Error Unit
  | .bootloader => Bool
  | .bootBegin _ _ | .bootWrite _ _ | .bootReady | .bootActivate _ _ | .bootAbort =>
    Except Error Unit
  | .bootRead _ _ => Except Error Bytes
  | .bootImageHash _ => Except Error Bytes32
  | .bootOutcome _ => Except Error BootOutcome
  | .hasDevicePrivateKey _ => Bool
  | .load => Except Error (Option DeviceSnapshot)
  | .submit _ => Unit
  | .commit _ => CommitAnswer

instance : (e : Effect) → DecidableEq (Answer e)
  | .monotonicMs => inferInstanceAs (DecidableEq UInt64)
  | .wallClock => inferInstanceAs (DecidableEq (Option ClockSample))
  | .sensors => inferInstanceAs (DecidableEq HardwareSample)
  | .startAction _ _ _ _ | .stopAction | .setWallClock _ | .requestReboot =>
    inferInstanceAs (DecidableEq (Except Error Unit))
  | .bootloader => inferInstanceAs (DecidableEq Bool)
  | .bootBegin _ _ | .bootWrite _ _ | .bootReady | .bootActivate _ _ | .bootAbort =>
    inferInstanceAs (DecidableEq (Except Error Unit))
  | .bootRead _ _ => inferInstanceAs (DecidableEq (Except Error Bytes))
  | .bootImageHash _ => inferInstanceAs (DecidableEq (Except Error Bytes32))
  | .bootOutcome _ => inferInstanceAs (DecidableEq (Except Error BootOutcome))
  | .hasDevicePrivateKey _ => inferInstanceAs (DecidableEq Bool)
  | .load => inferInstanceAs (DecidableEq (Except Error (Option DeviceSnapshot)))
  | .submit _ => inferInstanceAs (DecidableEq Unit)
  | .commit _ => inferInstanceAs (DecidableEq CommitAnswer)

structure SessionContext where
  peer : SubjectKey
  generation : UInt64
  deriving DecidableEq

structure Active where
  id : ActuationId
  credentialId : CredentialId
  sequence : UInt64
  target : ActionTarget
  deadline : UInt64
  automatic : Bool
  deriving DecidableEq

structure Confirmation where
  peer : SubjectKey
  digest : Bytes32
  expires : UInt64
  deriving DecidableEq

/-- `DeviceController` without its storage and platform handles, which are effects. -/
structure Controller where
  factory : FactoryIdentity
  state : DeviceSnapshot
  poisoned : Bool
  sample : HardwareSample
  lastIdleBolt : Option BoltState
  fault : Fault
  active : Option Active
  lastMono : UInt64
  relockDeadline : Option UInt64
  doorOpenSince : Option UInt64
  pairingUntil : Option UInt64
  pairingFailures : UInt8
  confirmation : Option Confirmation

/-- A method with `&mut self`: an error keeps the changes made before it. -/
abbrev Ctl := ExceptT Error (StateT Controller (Prog Answer))

namespace Controller
variable (P : Primitives)

def request (e : Effect) : Ctl (Answer e) :=
  ExceptT.mk fun c => .op e fun a => .pure (.ok a, c)

/-- The `?` operator on a computed result. -/
def orFail {α : Type} (x : Except Error α) : Ctl α := ExceptT.mk fun c => .pure (x, c)

/-- Keep a method's result instead of propagating its error. -/
def attempt {α : Type} (x : Ctl α) : Ctl (Except Error α) :=
  ExceptT.mk fun c => (x.run c).bind fun (r, c') => .pure (.ok r, c')

def context (c : Controller) (peer : SubjectKey) : SessionContext := ⟨peer, c.state.generation⟩

/-- `Option<u64>` order: an absent watermark is below every time. -/
def floorBelow : Option UInt64 → Option UInt64 → Bool
  | none, some _ => true
  | some a, some b => a < b
  | _, none => false

def stopPoisonedAction : Ctl Unit := do
  if (← get).active.isSome then
    match ← request .stopAction with
    | .ok () => modify fun c => { c with active := none }
    | .error _ => pure ()

def poison : Ctl Unit := do
  modify fun c => { c with poisoned := true }
  stopPoisonedAction

def commit (next : DeviceSnapshot) : Ctl Unit := do
  let c ← get
  failIf c.poisoned .storageUnavailable
  request (.submit next)
  failIf (floorBelow next.clockFloor c.state.clockFloor) .clockRollback
  orFail (next.validate P c.factory)
  match ← request (.commit next) with
  | .ok => modify fun c => { c with state := next }
  | .lost _ | .written _ => do
    poison
    throw .storageUnavailable

def now : Ctl UInt64 := do
  let c ← get
  if c.poisoned then
    stopPoisonedAction
    throw .storageUnavailable
  else
    let now ← request .monotonicMs
    if now < c.lastMono then
      poison
      throw .clockUntrusted
    else
      modify fun c => { c with lastMono := now }
      pure now

/-- The persistence of `refresh_clock`: distrust a missing, inverted or rolled-back
reading, otherwise raise the watermark to it. -/
def recordClock (observed : Option ClockSample) : Ctl Unit := do
  let s := (← get).state
  match observed with
  | some sample =>
    if sample.lower > sample.upper ∨ s.clockFloor.any (fun floor => sample.lower < floor) then
      if s.clockValid then commit P { s with clockValid := false } else pure ()
    else if s.clockValid ∧ s.clockFloor ≠ some sample.lower then
      commit P { s with clockFloor := some sample.lower }
    else pure ()
  | none => if s.clockValid then commit P { s with clockValid := false } else pure ()

def refreshClock : Ctl (Option ClockSample) := do
  let observed ← request .wallClock
  recordClock P observed
  let valid := (← get).state.clockValid
  pure (observed.filter fun _ => valid)

def wall : Ctl (Option ClockSample) := do
  let s := (← get).state
  if s.clockValid then
    let observed ← request .wallClock
    pure (observed.filter fun c =>
      c.lower ≤ c.upper && s.clockFloor.all fun floor => c.lower ≥ floor)
  else pure none

def recordWall (s : DeviceSnapshot) : Ctl DeviceSnapshot := do
  match ← wall with
  | some now => pure { s with clockFloor := some ((s.clockFloor.map (max · now.lower)).getD now.lower) }
  | none => pure s

/-- Append to a bounded log, dropping its oldest entry when it is over capacity. -/
def pushBounded (capacity : Nat) (events : List AuditEvent) (e : AuditEvent) : List AuditEvent :=
  let events := events ++ [e]
  if events.length > capacity then events.drop 1 else events

/-- The record an operation event describes. -/
def findOperation (ops : List OperationRecord) (id : CredentialId) (sequence : UInt64) :
    Option OperationRecord :=
  ops.find? fun r => r.status.credentialId == id && r.status.sequence == sequence

def auditedOperation (s : DeviceSnapshot) (kind : AuditKind) (id : Option CredentialId)
    (sequence : Option UInt64) : Option OperationStatus :=
  if kind = .operation then
    (s.operations.find? fun r =>
      some r.status.credentialId == id && some r.status.sequence == sequence).map (·.status)
  else none

def audit (s : DeviceSnapshot) (kind : AuditKind) (id : Option CredentialId)
    (sequence : Option UInt64) (code : UInt32) : Ctl DeviceSnapshot := do
  let s ← recordWall s
  let next ← orFail (okOr (checkedAdd s.nextCursor 1) .resourceExhausted)
  let time ← wall
  let capacity := (← get).factory.info.logCapacity.toNat
  pure { s with
    nextCursor := next
    events := pushBounded capacity s.events {
      cursor := s.nextCursor
      unixSeconds := time.map (·.lower)
      kind := kind
      credentialId := id
      sequence := sequence
      code := code
      hardware := none
      operation := auditedOperation s kind id sequence } }

/-- `next.events.last_mut()`. -/
def modifyLast (f : AuditEvent → AuditEvent) : List AuditEvent → List AuditEvent
  | [] => []
  | [e] => [f e]
  | e :: e' :: es => e :: modifyLast f (e' :: es)

def automaticStatus (phase : OperationPhase) (evidence : CompletionEvidence) (error : UInt32) :
    OperationStatus :=
  ⟨⟨Vector.replicate 16 0⟩, 0, 3, phase, evidence, error⟩

def auditAutomatic (next : DeviceSnapshot) (phase : OperationPhase)
    (evidence : CompletionEvidence) (error : UInt32) : Ctl DeviceSnapshot := do
  let next ← audit next .operation none none error
  let describe (e : AuditEvent) : AuditEvent :=
    { e with operation := some (automaticStatus phase evidence error) }
  pure { next with events := modifyLast describe next.events }

/-- Change the first record of an operation, as `iter_mut().find(..)` does. -/
def setStatus (id : CredentialId) (sequence : UInt64) (phase : OperationPhase)
    (evidence : CompletionEvidence) (error : UInt32) :
    List OperationRecord → Option (List OperationRecord)
  | [] => none
  | r :: rs =>
    if r.status.credentialId = id ∧ r.status.sequence = sequence then
      some ({ r with status := { r.status with phase, evidence, error } } :: rs)
    else (setStatus id sequence phase evidence error rs).map (r :: ·)

end Controller
end OpenLock
