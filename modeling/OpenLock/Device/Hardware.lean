import OpenLock.Device.Controller

/-! Sensor observation, the interlocks of a drive and the relock obligation. -/
namespace OpenLock.Controller
open Effects

variable (P : Primitives)

/-- A reading is unsupported exactly when its sensor is absent. -/
def readingValid {α : Type} (r : Reading α) (present : Bool) : Bool :=
  match r with
  | .unsupported => !present
  | _ => present

def sampleValid (i : DeviceInfo) (s : HardwareSample) : Bool :=
  readingValid s.bolt i.boltSensor && readingValid s.door i.doorSensor
    && readingValid s.privacy i.privacySensor && readingValid s.batteryPercent i.batterySensor
    && match s.batteryPercent with
      | .known n => n ≤ 100
      | _ => true

def validateSample (c : Controller) (s : HardwareSample) : Except Error Unit :=
  failIf (¬ sampleValid c.factory.info s) .sensorConflict

def canLockSample (i : DeviceInfo) (sample : HardwareSample) : Except Error Unit :=
  if i.actuator ≠ .motor then .error .unsupportedCapability
  else
    match sample.door with
    | .known .closed => .ok ()
    | .known .open => .error .doorOpen
    | .unsupported => if i.safeLockWithoutDoor then .ok () else .error .sensorConflict
    | .unknown => .error .sensorConflict

def canLock (c : Controller) : Except Error Unit := canLockSample c.factory.info c.sample

/-- What the cached sample becomes on a sensor fault. -/
def unavailable {α : Type} (present : Bool) : Reading α := if present then .unknown else .unsupported

def unavailableSample (i : DeviceInfo) : HardwareSample :=
  ⟨unavailable i.boltSensor, unavailable i.doorSensor, unavailable i.privacySensor,
    unavailable i.batterySensor⟩

def idleBolt (bolt : Reading BoltState) : Option BoltState :=
  match bolt with
  | .known b => some b
  | _ => none

def scheduleRelock (next : DeviceSnapshot) (now : UInt64) : Ctl DeviceSnapshot := do
  if next.config.holdOpen then pure next
  else
    match next.config.autoRelock with
    | .disabled => pure next
    | .delay ms =>
      modify fun c => { c with relockDeadline := some (saturatingAdd now ms.toUInt64) }
      pure { next with pendingRelock := true }
    | .afterClose ms =>
      modify fun c => { c with relockDeadline :=
        if c.sample.door = .known .closed then some (saturatingAdd now ms.toUInt64) else none }
      pure { next with pendingRelock := true }

def scheduleRelockIf (p : Prop) [Decidable p] (next : DeviceSnapshot) (now : UInt64) :
    Ctl DeviceSnapshot :=
  if p then scheduleRelock next now else pure next

/-- A required stop: failure poisons the controller and keeps the drive owned. -/
def requireStop : Ctl Unit := do
  match ← request .stopAction with
  | .ok () => modify fun c => { c with active := none }
  | .error _ =>
    modify fun c => { c with poisoned := true }
    throw .actuatorFailed

/-- Record a stopped drive as failed: its manual record or an automatic audit entry. -/
def failDrive (next : DeviceSnapshot) (active : Active) (error : Error) : Ctl DeviceSnapshot := do
  if active.automatic then
    auditAutomatic next .failed .none error.code
  else
    let operations ← orFail (okOr (setStatus active.credentialId active.sequence .failed .none
      error.code next.operations) .resultUnavailable)
    audit { next with operations } .operation (some active.credentialId) (some active.sequence)
      error.code

/-- Give up the relock obligation in the snapshot and in memory. -/
def dropRelock (next : DeviceSnapshot) : Ctl DeviceSnapshot := do
  modify fun c => { c with relockDeadline := none }
  pure { next with pendingRelock := false }

def dropRelockIf (p : Prop) [Decidable p] (next : DeviceSnapshot) : Ctl DeviceSnapshot :=
  if p then dropRelock next else pure next

/-- The drive a sensor fault stops, in the snapshot to be committed. -/
def stopFaultyDrive : Ctl DeviceSnapshot := do
  let c ← get
  match c.active with
  | none => pure c.state
  | some active =>
    requireStop
    let next ← dropRelockIf (active.target = .lock) { c.state with automaticInflight := false }
    failDrive next active .sensorConflict

/-- Whether the newest event already reports this fault. -/
def faultLogged (events : List AuditEvent) : Bool :=
  events.getLast?.any fun e => e.kind == .hardware && e.code == Error.sensorConflict.code

/-- Report a sensor fault once. -/
def reportFault (next : DeviceSnapshot) : Ctl DeviceSnapshot :=
  if faultLogged next.events then pure next
  else audit next .hardware none none Error.sensorConflict.code

def commitIfChanged (next : DeviceSnapshot) : Ctl Unit := do
  if next ≠ (← get).state then commit P next else pure ()

/-- `observe_hardware` after an invalid reading. -/
def sensorFault (allowSensorFault : Bool) : Ctl (Option ClockSample) := do
  modify fun c => { c with fault := .sensorConflict, sample := unavailableSample c.factory.info }
  let next ← stopFaultyDrive
  let next ← reportFault next
  commitIfChanged P next
  let clock ← refreshClock P
  if allowSensorFault then pure clock else throw .sensorConflict

/-- The interlock or deadline a running drive violates. -/
def driveHazard (i : DeviceInfo) (sample : HardwareSample) (active : Active) (now : UInt64) :
    Option Error :=
  let interlock := if active.target = .lock then
    match canLockSample i sample with
    | .ok () => none
    | .error e => some e
  else none
  interlock.or (if now ≥ active.deadline then some .actionTimeout else none)

def hazardFault (error : Error) : Fault :=
  if error = .actionTimeout then .timeout
  else if error = .doorOpen then .doorAjar
  else .sensorConflict

def stopUnsafeAction (now : UInt64) : Ctl Unit := do
  let c ← get
  match c.active with
  | none => pure ()
  | some active =>
    match driveHazard c.factory.info c.sample active now with
    | none => pure ()
    | some error =>
      requireStop
      modify fun c => { c with lastIdleBolt := idleBolt c.sample.bolt, fault := hazardFault error }
      let next ← dropRelockIf (active.target = .lock ∨ c.sample.bolt = .known .locked)
        { c.state with automaticInflight := false }
      commit P (← failDrive next active error)

/-- The relock deadline that follows a changed door reading. -/
def doorDeadline (next : DeviceSnapshot) (sample : HardwareSample) (now : UInt64)
    (deadline : Option UInt64) : Option UInt64 :=
  if next.pendingRelock then
    match next.config.autoRelock with
    | .afterClose ms =>
      if sample.door = .known .closed then some (saturatingAdd now ms.toUInt64) else none
    | _ => deadline
  else deadline

/-- The door timers that follow a changed door reading. -/
def doorChanged (next : DeviceSnapshot) (old sample : HardwareSample) (now : UInt64) : Ctl Unit :=
  if old.door ≠ sample.door then
    modify fun c => { c with
      fault := if sample.door = .known .closed ∧ c.fault = .doorAjar then .none else c.fault
      doorOpenSince := if sample.door = .known .open then some now else none
      relockDeadline := doorDeadline next sample now c.relockDeadline }
  else pure ()

/-- An audit entry for a changed reading. -/
def auditSample (next : DeviceSnapshot) (old sample : HardwareSample) : Ctl DeviceSnapshot := do
  if sample = old then pure next
  else
    let next ← audit next .hardware none none 0
    pure { next with
      events := modifyLast (fun e => { e with hardware := some sample }) next.events }

/-- The snapshot a changed observation commits. -/
def recordSample (old sample : HardwareSample) (now : UInt64) (wasIdle confirmedLocked : Bool)
    (previousIdleBolt : Option BoltState) : Ctl Unit := do
  let next ← auditSample (← get).state old sample
  let next ← dropRelockIf confirmedLocked next
  doorChanged next old sample now
  let next ← scheduleRelockIf
    (wasIdle ∧ previousIdleBolt = some .locked ∧ sample.bolt = .known .unlocked) next now
  commit P next

/-- Remember the bolt position seen while nothing ran. -/
def noteIdleBolt (idle : Bool) (bolt : Reading BoltState) : Ctl Unit :=
  modify fun c => { c with
    lastIdleBolt := if idle then (idleBolt bolt).or c.lastIdleBolt else c.lastIdleBolt }

/-- `observe_hardware` after a valid reading: interlocks first, then the clock, then
the observation itself. -/
def validSample (now : UInt64) (sample : HardwareSample) : Ctl (Option ClockSample) := do
  let c ← get
  modify fun c => { c with sample := sample }
  stopUnsafeAction P now
  let clock ← refreshClock P
  noteIdleBolt c.active.isNone sample.bolt
  let me ← get
  let confirmedLocked : Bool := sample.bolt = .known .locked
    ∧ ¬ me.active.any fun a => a.target == .unlock
  if sample = c.sample ∧ ¬ (confirmedLocked ∧ me.state.pendingRelock) then pure clock
  else
    recordSample P c.sample sample now c.active.isNone confirmedLocked c.lastIdleBolt
    let floor := (← get).state.clockFloor
    pure (clock.filter fun s => floor.all fun floor => s.lower ≥ floor)

def observeHardware (allowSensorFault : Bool) : Ctl (Option ClockSample) := do
  let now ← now
  let sample ← request .sensors
  match validateSample (← get) sample with
  | .error _ => sensorFault P allowSensorFault
  | .ok () => validSample P now sample

def hardwareChanged : Ctl Unit := do
  let _ ← observeHardware P false

/-- The bolt position a drive is meant to reach. -/
def expectedBolt : ActionTarget → BoltState
  | .lock => .locked
  | .unlock => .unlocked

/-- The fresh interlock of a drive about to start. -/
def startInterlock (c : Controller) (target : ActionTarget) (sample : HardwareSample) :
    Except Error Unit := do
  validateSample c sample
  match target with
  | .lock =>
    if sample.bolt = .known .locked then pure () else canLockSample c.factory.info sample
  | .unlock =>
    match sample.privacy with
    | .known true => .error .privacyActive
    | .unknown => .error .sensorConflict
    | _ => pure ()

/-- The final gate before a drive: no storage access follows the fresh reading. -/
def prepareActuation (target : ActionTarget) : Ctl (Option UInt64) := do
  let now ← now
  let sample ← request .sensors
  let c ← get
  orFail (startInterlock c target sample)
  if sample.bolt = .known (expectedBolt target) then
    modify fun c => { c with sample := { c.sample with bolt := sample.bolt },
                             lastIdleBolt := some (expectedBolt target) }
    pure none
  else
    some <$> orFail (okOr (checkedAdd now c.state.config.actionTimeoutMs.toUInt64) .invalidState)

def nextActuationId (c : Controller) : ActuationId := ⟨c.state.generation, c.state.nextCursor - 1⟩

end OpenLock.Controller
