import OpenLock.Device.Authorization

/-! Acceptance and execution of requests, and the request entry points. -/
namespace OpenLock.Controller
open Effects

variable (P : Primitives)

/-- Complete an operation: change its record, audit it and commit. -/
def finish (status : OperationStatus) (phase : OperationPhase) (evidence : CompletionEvidence)
    (error : UInt32) : Ctl Reply := do
  let s := (← get).state
  let operations ← orFail (okOr
    (setStatus status.credentialId status.sequence phase evidence error s.operations)
    .resultUnavailable)
  let result ← orFail (okOr (findOperation operations status.credentialId status.sequence)
    .resultUnavailable)
  commit P (← audit { s with operations } .operation (some status.credentialId)
    (some status.sequence) error)
  pure (.operation result.status)

/-- How an action's execution continues: through the common final commit, or done. -/
inductive Outcome where
  | commit (next : DeviceSnapshot)
  | done (reply : Option Reply)

/-- The reply of an operation that cleared its own domain. -/
def completedReply (status : OperationStatus) : Outcome :=
  .done (some (.operation { status with phase := .completed }))

namespace Execute

def target (action : Action) : ActionTarget := if action = .unlock then .unlock else .lock

/-- The manual drive recorded as owned just before it is started. -/
def manualDrive (c : Controller) (status : OperationStatus) (target : ActionTarget)
    (deadline : UInt64) : Active :=
  ⟨nextActuationId c, status.credentialId, status.sequence, target, deadline, false⟩

def startManual (status : OperationStatus) (target : ActionTarget) (deadline : UInt64) :
    Ctl Reply := do
  modify fun c => { c with
    sample := if c.factory.info.boltSensor then { c.sample with bolt := .unknown } else c.sample
    active := some (manualDrive c status target deadline)
    lastIdleBolt := none }
  let c ← get
  match ← request (.startAction (nextActuationId c) target c.state.config.releaseMs
      c.state.config.holdOpen) with
  | .ok () => finish P status .running .none 0
  | .error _ =>
    modify fun c => { c with fault := .driver }
    finish P status .unknown .none Error.actuatorFailed.code

def drive (status : OperationStatus) (action : Action) : Ctl Outcome := do
  match ← prepareActuation (target action) with
  | none => do pure (.done (some (← finish P status .completed .sensor 0)))
  | some deadline => do pure (.done (some (← startManual P status (target action) deadline)))

def setConfig (status : OperationStatus) (config : DeviceConfig) (now : UInt64) : Ctl Outcome := do
  let c ← get
  let relockChanged : Bool := config.autoRelock ≠ c.state.config.autoRelock
    ∨ config.holdOpen ≠ c.state.config.holdOpen
  let shouldRelock : Bool := c.state.pendingRelock ∨ c.sample.bolt = .known .unlocked
  let next ← dropRelockIf relockChanged { c.state with config := config }
  let next ← scheduleRelockIf (relockChanged ∧ shouldRelock) next now
  .commit <$> audit next .configuration (some status.credentialId) (some status.sequence) 0

/-- The snapshot of a policy that opens a new epoch: everything of the old one is cleared. -/
def newEpoch (s : DeviceSnapshot) (epoch generation : UInt64) : DeviceSnapshot :=
  { s with
    epoch := epoch
    revoked := ∅
    uses := ∅
    bindings := ∅
    watermarks := ∅
    operations := []
    generation := generation }

/-- The snapshot a policy leads to, before its audit entry. -/
def policySnapshot (s : DeviceSnapshot) (p : PolicyUpdate) : Except Error DeviceSnapshot := do
  let next ← if p.epoch > s.epoch then do
      let generation ← okOr (checkedAdd s.generation 1) .resourceExhausted
      pure (newEpoch s p.epoch generation)
    else pure s
  pure { next with policyVersion := p.version, revoked := next.revoked ∪ p.revoked }

def applyPolicy (status : OperationStatus) (bytes : Bytes) : Ctl Outcome := do
  let s := (← get).state
  let key ← orFail (issuerKey P s)
  let p ← orFail (readPolicy P key bytes)
  let next ← orFail (policySnapshot s p)
  let next ← audit next .policy (some status.credentialId) (some status.sequence) 0
  if p.epoch > s.epoch then
    commit P next
    modify fun c => { c with confirmation := none }
    pure (completedReply status)
  else pure (.commit next)

def setClock (status : OperationStatus) (time : UInt64) : Ctl Outcome := do
  let clock ← observeHardware P false
  let next := (← get).state
  failIf (next.clockFloor.any (fun floor => time < floor) ∨ clock.any fun now => time < now.lower)
    .clockRollback
  commit P { next with clockFloor := some time, clockValid := false }
  orFail (← request (.setWallClock time))
  let next := (← get).state
  .commit <$> audit { next with clockValid := true } .clock (some status.credentialId)
    (some status.sequence) 0

def reboot (status : OperationStatus) : Ctl Outcome := do
  let s := (← get).state
  orFail (← request .requestReboot)
  .commit <$> audit s .reboot (some status.credentialId) (some status.sequence) 0

/-- The factory snapshot that keeps the counters a reset must not rewind. -/
def resetSnapshot (f : FactoryIdentity) (s : DeviceSnapshot) (epoch generation : UInt64) :
    DeviceSnapshot :=
  let fresh := DeviceSnapshot.factory f
  { fresh with
    epoch := epoch
    generation := generation
    firmware := { fresh.firmware with securityVersion := s.firmware.securityVersion }
    clockFloor := s.clockFloor
    clockValid := s.clockValid }

def factoryReset (status : OperationStatus) : Ctl Outcome := do
  let c ← get
  let epoch ← orFail (okOr (checkedAdd c.state.epoch 1) .resourceExhausted)
  let generation ← orFail (okOr (checkedAdd c.state.generation 1) .resourceExhausted)
  commit P (resetSnapshot c.factory c.state epoch generation)
  modify fun c => { c with pairingUntil := none, confirmation := none, relockDeadline := none }
  pure (completedReply status)

def replacedSnapshot (s : DeviceSnapshot) (issuer : Bytes32) (peer : SubjectKey)
    (epoch generation : UInt64) : DeviceSnapshot :=
  { newEpoch s epoch generation with
    owner := some ⟨issuer, peer⟩
    policyVersion := 0 }

def replaceIssuer (context : SessionContext) (status : OperationStatus) (issuer : Bytes32) :
    Ctl Outcome := do
  let s := (← get).state
  let epoch ← orFail (okOr (checkedAdd s.epoch 1) .resourceExhausted)
  let generation ← orFail (okOr (checkedAdd s.generation 1) .resourceExhausted)
  commit P (← audit (replacedSnapshot s issuer context.peer epoch generation) .ownership
    (some status.credentialId) (some status.sequence) 0)
  modify fun c => { c with confirmation := none }
  pure (completedReply status)

/-- The firmware audit entry of the common tail. -/
def auditFirmware (status : OperationStatus) (next : DeviceSnapshot) : Ctl Outcome :=
  .commit <$> audit next .firmware (some status.credentialId) (some status.sequence) 0

def firmwareBegin (status : OperationStatus) (bytes : Bytes) : Ctl Outcome := do
  let c ← get
  let m ← orFail (manifest P c bytes)
  boot
  orFail (← request (.bootBegin m bytes))
  auditFirmware status { c.state with
    firmware := ⟨.receiving, 0, some m, c.state.firmware.securityVersion⟩
    signedManifest := bytes }

def firmwareChunk (status : OperationStatus) (offset : UInt64) (data : Bytes) : Ctl Outcome := do
  let s := (← get).state
  if offset = s.firmware.received then
    boot
    orFail (← request (.bootWrite offset data))
    auditFirmware status { s with
      firmware := { s.firmware with received := offset + UInt64.ofNat data.length } }
  else auditFirmware status s

def firmwareFinish (status : OperationStatus) : Ctl Outcome := do
  let s := (← get).state
  let m ← orFail (okOr s.firmware.manifest .firmwareInvalid)
  boot
  let hash ← orFail (← request (.bootImageHash m.size))
  failIf (hash ≠ m.sha256) .firmwareInvalid
  auditFirmware status { s with firmware := { s.firmware with phase := .verified } }

def firmwareActivate (status : OperationStatus) : Ctl Outcome := do
  let s := (← get).state
  let m ← orFail (okOr s.firmware.manifest .firmwareInvalid)
  commit P { s with firmware := { s.firmware with phase := .trial } }
  let signed := (← get).state.signedManifest
  boot
  orFail (← request (.bootActivate m signed))
  auditFirmware status (← get).state

def abortedSnapshot (s : DeviceSnapshot) : DeviceSnapshot :=
  { s with
    firmware := ⟨.empty, 0, none, s.firmware.securityVersion⟩
    signedManifest := [] }

def firmwareAbort (status : OperationStatus) : Ctl Outcome := do
  let s := (← get).state
  commit P (← audit (abortedSnapshot s) .firmware (some status.credentialId)
    (some status.sequence) 0)
  boot
  orFail (← request .bootAbort)
  pure (.done none)

def rotateDeviceKey (bytes : Bytes) : Ctl Outcome := do
  let clock ← orFail (okOr (← observeHardware P false) .clockUntrusted)
  let s := (← get).state
  let issuer ← orFail (issuerKey P s)
  let update ← orFail (readKeyUpdate P issuer s.deviceKey bytes clock)
  failIf (¬ (← request (.hasDevicePrivateKey update.newRecord.key.x25519PublicKey))) .untrustedKey
  let generation ← orFail (okOr (checkedAdd s.generation 1) .resourceExhausted)
  pure (.commit { s with deviceKey := update.newRecord.key, generation := generation })

end Execute

def executeAction (context : SessionContext) (c : Command) (status : OperationStatus)
    (now : UInt64) : Ctl Outcome :=
  match c.action with
  | .unlock | .lock => Execute.drive P status c.action
  | .setConfig config => Execute.setConfig status config now
  | .applyPolicy bytes => Execute.applyPolicy P status bytes
  | .setClock time => Execute.setClock P status time
  | .reboot => Execute.reboot status
  | .factoryReset => Execute.factoryReset P status
  | .replaceIssuer issuer => Execute.replaceIssuer P context status issuer
  | .firmwareBegin bytes => Execute.firmwareBegin P status bytes
  | .firmwareChunk offset data => Execute.firmwareChunk status offset data
  | .firmwareFinish => Execute.firmwareFinish status
  | .firmwareActivate => Execute.firmwareActivate P status
  | .firmwareAbort => Execute.firmwareAbort P status
  | .rotateDeviceKey bytes => Execute.rotateDeviceKey P bytes
  | _ => throw .invalidPayload

def execute (context : SessionContext) (c : Command) (status : OperationStatus)
    (now : UInt64) : Ctl (Option Reply) := do
  match ← executeAction P context c status now with
  | .done reply => pure reply
  | .commit next =>
    commit P next
    pure none

/-- Whether an action replaces the whole authorization domain in one commit. -/
def clearsDomain (s : DeviceSnapshot) (action : Action) : Except Error Bool :=
  match action with
  | .factoryReset | .replaceIssuer _ => .ok true
  | .applyPolicy bytes => do
    let issuer ← issuerKey P s
    let p ← readPolicy P issuer bytes
    pure (p.epoch > s.epoch)
  | _ => .ok false

/-- Whether the bolt already shows the requested position. -/
def noChange (c : Controller) (action : Action) : Bool :=
  match action with
  | .unlock => c.sample.bolt = .known .unlocked
  | .lock => c.sample.bolt = .known .locked
  | _ => false

def capacityExhausted (c : Controller) (id : CredentialId) : Bool :=
  let capacity := c.factory.info.credentialCapacity.toNat
  (!c.state.watermarks.contains id && c.state.watermarks.size ≥ capacity)
    || (!c.state.bindings.contains id && c.state.bindings.size ≥ capacity)

/-- Reserve one unlock use. -/
def reserveUse (s : DeviceSnapshot) (grant : Grant) : Except Error DeviceSnapshot := do
  let uses := s.usesOf grant.credentialId
  failIf (grant.maxUses.any fun max => uses ≥ max) .usageExhausted
  let next ← okOr (checkedAdd32 uses 1) .usageExhausted
  pure { s with uses := s.uses.insert grant.credentialId next }

/-- Reserve the use of an unlock that has to move the bolt. -/
def reserveUseIf (p : Prop) [Decidable p] (s : DeviceSnapshot) (grant : Grant) :
    Except Error DeviceSnapshot :=
  if p then reserveUse s grant else pure s

/-- A record that may be evicted: not the running drive's and not unfinished. -/
def evictable (c : Controller) (r : OperationRecord) : Bool :=
  (c.active.all fun a => a.credentialId != r.status.credentialId || a.sequence != r.status.sequence)
    && r.status.phase != .accepted && r.status.phase != .running

/-- Make room for one more operation record. -/
def evict (c : Controller) (ops : List OperationRecord) : Except Error (List OperationRecord) :=
  if ops.length ≥ c.factory.info.operationCapacity.toNat then do
    let index ← okOr (ops.findIdx? (evictable c)) .resourceExhausted
    pure (ops.eraseIdx index)
  else pure ops

/-- The accepted snapshot before the clock and audit entries. -/
def acceptedSnapshot (me : Controller) (c : Command) (grant : Grant) (seq : UInt64)
    (record : OperationRecord) : Except Error DeviceSnapshot := do
  failIf (capacityExhausted me grant.credentialId) .resourceExhausted
  let next := { me.state with
    watermarks := me.state.watermarks.insert grant.credentialId seq
    bindings := me.state.bindings.insert grant.credentialId (P.sha256 c.credential) }
  let next ← reserveUseIf (c.action = .unlock ∧ ¬ noChange me c.action) next grant
  let ops ← evict me next.operations
  pure { next with operations := ops ++ [record] }

/-- The acceptance commit: sequence, binding, use and operation record become durable
together before anything else happens. -/
def accept (c : Command) (grant : Grant) (seq now : UInt64) (digest : Bytes32)
    (status : OperationStatus) : Ctl Bool := do
  let me ← get
  let next ← orFail (acceptedSnapshot P me c grant seq ⟨digest, status⟩)
  let next ← recordWall next
  let next ← scheduleRelockIf (c.action = .unlock ∧ ¬ noChange me c.action) next now
  let next ← dropRelockIf (c.action = .lock) next
  commit P (← audit next .operation (some grant.credentialId) (some seq) 0)
  pure (noChange me c.action)

/-- A sequence at or below the watermark is answered from the record, never executed. -/
def replay (s : DeviceSnapshot) (id : CredentialId) (seq : UInt64) (digest : Bytes32) :
    Except Error Reply := do
  let previous ← okOr (findOperation s.operations id seq) .resultUnavailable
  failIf (previous.digest ≠ digest) .conflict
  pure (.operation previous.status)

def acceptedStatus (grant : Grant) (seq : UInt64) (action : Action) : OperationStatus :=
  ⟨grant.credentialId, seq, action.opcode, .accepted, .none, 0⟩

/-- Accept a request and carry it out; a failure after acceptance is an operation result. -/
def acceptAndExecute (context : SessionContext) (c : Command) (grant : Grant) (seq now : UInt64)
    (digest : Bytes32) : Ctl Reply := do
  let status := acceptedStatus grant seq c.action
  if ← accept P c grant seq now digest status then
    finish P status .completed .noChange 0
  else
    match ← attempt (execute P context c status now) with
    | .ok (some reply) => pure reply
    | .ok none => finish P status .completed .none 0
    | .error e =>
      if (← get).poisoned then throw e
      else finish P status .failed .none e.code

def mutate (context : SessionContext) (c : Command) (grant : Grant) (now : UInt64) :
    Ctl Reply := do
  let seq ← orFail (okOr c.sequence .invalidPayload)
  let encoded ← orFail (encodeWire P c)
  let digest := P.sha256 encoded
  let s := (← get).state
  if seq ≤ s.watermark grant.credentialId then orFail (replay s grant.credentialId seq digest)
  else
    preflight P grant c now digest context.peer
    if ← orFail (clearsDomain P (← get).state c.action) then
      let reply ← execute P context c (acceptedStatus grant seq c.action) now
      orFail (okOr reply .invalidState)
    else acceptAndExecute P context c grant seq now digest

/-- Service hazards first; a sensor fault alone does not end a request. -/
def serviceHazards : Ctl Unit := do
  match ← attempt (hardwareChanged P) with
  | .ok () => pure ()
  | .error error => failIf (error ≠ .sensorConflict) error

def dispatch (context : SessionContext) (c : Command) : Ctl Reply := do
  serviceHazards P
  let now ← now
  orFail c.validate
  let _ ← orFail (Action.parse c.action.value)
  let me ← get
  failIf (c.capability &&& me.factory.info.capabilities = 0) .unsupportedCapability
  failIf (context.generation ≠ me.state.generation) .invalidState
  match c.action with
  | .pairingStatus => pairingStatus now
  | .claim setupKey issuer admin => claim P context setupKey issuer admin now
  | action =>
    let grant ← authorize P context c
    if action.mutates then mutate P context c grant now else query grant action

/-- The audit entry of a rejected request. -/
def auditRejection (code : UInt32) : Ctl Unit := do
  commit P (← audit (← get).state .rejected none none code)

def handle (context : SessionContext) (c : Command) : StateT Controller (Prog Answer) Response := do
  match ← (dispatch P context c).run with
  | .ok reply => pure ⟨c.action.opcode, .ok reply⟩
  | .error e =>
    let me ← get
    if ¬ me.poisoned ∧ me.state.owner.isSome then
      match ← (auditRejection P e.code).run with
      | .ok () => pure ⟨c.action.opcode, .error e.code⟩
      | .error _ => pure ⟨c.action.opcode, .error Error.storageUnavailable.code⟩
    else pure ⟨c.action.opcode, .error e.code⟩

def handleLocal (peer : SubjectKey) (c : Command) : StateT Controller (Prog Answer) Response := do
  handle P ((← get).context peer) c

end OpenLock.Controller
