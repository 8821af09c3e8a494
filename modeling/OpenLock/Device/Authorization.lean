import OpenLock.Device.Hardware

/-! Commissioning, authorization, queries and the checks made before acceptance. -/
namespace OpenLock.Controller
open Effects

variable (P : Primitives)

def openPairingWindow : Ctl Unit := do
  let now ← now
  failIf (← get).state.owner.isSome .alreadyProvisioned
  let until_ ← orFail (okOr (checkedAdd now 120000) .invalidState)
  modify fun c => { c with pairingUntil := some until_, pairingFailures := 0 }

/-- The checks of `authorize` that need no observation. -/
def checkGrant (s : DeviceSnapshot) (context : SessionContext) (c : Command) :
    Except Error Grant := do
  failIf (context.generation ≠ s.generation) .invalidState
  let owner ← okOr s.owner .notProvisioned
  let key ← VerifyingKey.fromBytes P owner.issuer .untrustedKey
  let grant ← readGrant P key c.credential
  failIf (grant.lockId ≠ s.lockId) .wrongLock
  failIf (grant.subjectKey ≠ context.peer) .badSignature
  failIf (grant.epoch ≠ s.epoch) .staleEpoch
  failIf (grant.rights &&& c.action.right ≠ c.action.right) .missingRight
  failIf (grant.credentialId ∈ s.revoked) .revoked
  pure grant

/-- A grant with a window needs a trusted interval inside it. -/
def checkValidity (validity : Option Validity) (clock : Option ClockSample) : Except Error Unit :=
  match validity with
  | none => .ok ()
  | some v => do
    let now ← okOr clock .clockUntrusted
    failIf (now.lower < v.notBefore ∨ now.upper ≥ v.notAfter) .expired

/-- A credential id already used for a mutation stays bound to its bytes. -/
def checkBinding (s : DeviceSnapshot) (grant : Grant) (c : Command) : Except Error Unit :=
  match s.bindings[grant.credentialId]? with
  | none => .ok ()
  | some binding => failIf (binding ≠ P.sha256 c.credential) .conflict

/-- The observation and window check of a grant with a validity. -/
def checkWindow (grant : Grant) : Ctl Unit := do
  if grant.validity.isSome then
    let now ← observeHardware P true
    orFail (checkValidity grant.validity now)
  else pure ()

def authorize (context : SessionContext) (c : Command) : Ctl Grant := do
  let grant ← orFail (checkGrant P (← get).state context c)
  checkWindow P grant
  orFail (checkBinding P (← get).state grant c)
  pure grant

/-- Remember a button press for exactly this peer and command, for a minute. -/
def recordConfirmation (context : SessionContext) (c : Command) : Ctl Unit := do
  let now ← now
  let encoded ← orFail (encodeWire P c)
  let expires ← orFail (okOr (checkedAdd now 60000) .invalidState)
  modify fun me => { me with confirmation := some ⟨context.peer, P.sha256 encoded, expires⟩ }

def confirmPhysical (context : SessionContext) (c : Command) : Ctl Unit := do
  let _ ← authorize P context c
  match c.action with
  | .factoryReset | .replaceIssuer _ => recordConfirmation P context c
  | _ => throw .invalidPayload

/-- The grant a claim installs: an unlimited administrator of this lock, epoch and peer. -/
def adminRejected (s : DeviceSnapshot) (context : SessionContext) (grant : Grant) : Bool :=
  grant.lockId != s.lockId || grant.subjectKey != context.peer || grant.epoch != s.epoch
    || grant.rights != knownRights || grant.maxUses.isSome || grant.validity.isSome

def windowClosed (c : Controller) (now : UInt64) : Bool :=
  (c.pairingUntil.all fun until_ => now ≥ until_) || c.pairingFailures ≥ 5

/-- The setup key is wrong: count the failure and close the window at the fifth. -/
def wrongSetupKey {α : Type} : Ctl α := do
  modify fun c => { c with pairingFailures := c.pairingFailures + 1 }
  modify fun c => { c with pairingUntil := if c.pairingFailures ≥ 5 then none else c.pairingUntil }
  throw .invalidSetupKey

/-- The claimed snapshot before its audit entry. -/
def claimedSnapshot (s : DeviceSnapshot) (context : SessionContext) (issuer : Bytes32)
    (admin : Bytes) (grant : Grant) (generation : UInt64) : DeviceSnapshot :=
  { s with
    owner := some ⟨issuer, context.peer⟩
    generation := generation
    bindings := s.bindings.insert grant.credentialId (P.sha256 admin) }

def claim (context : SessionContext) (key issuer : Bytes32) (admin : Bytes) (now : UInt64) :
    Ctl Reply := do
  let c ← get
  failIf c.state.owner.isSome .alreadyProvisioned
  failIf (windowClosed c now) .pairingClosed
  if P.sha256 key.toList ≠ c.factory.setupKeyHash then wrongSetupKey
  else
    let verifying ← orFail (VerifyingKey.fromBytes P issuer .untrustedKey)
    let grant ← orFail (readGrant P verifying admin)
    failIf (adminRejected c.state context grant) .invalidPayload
    let generation ← orFail (okOr (checkedAdd c.state.generation 1) .resourceExhausted)
    let next ← recordWall (claimedSnapshot P c.state context issuer admin grant generation)
    commit P (← audit next .ownership (some grant.credentialId) none 0)
    modify fun c => { c with pairingUntil := none, confirmation := none }
    let c ← get
    pure (.claimed c.state.epoch c.state.generation)

def pairingStatus (now : UInt64) : Ctl Reply := do
  let c ← get
  failIf c.state.owner.isSome .alreadyProvisioned
  pure (.pairing c.state.epoch c.state.generation (c.pairingUntil.any fun until_ => now < until_))

/-- The operation of a running drive, as `status` reports it. -/
def activeStatus (c : Controller) : Option OperationStatus :=
  c.active.bind fun a =>
    if a.automatic then some (automaticStatus .running .none 0)
    else (findOperation c.state.operations a.credentialId a.sequence).map (·.status)

def status : Ctl LockStatus := do
  let trusted ← wall
  let c ← get
  pure {
    bolt := c.sample.bolt
    door := c.sample.door
    privacy := c.sample.privacy
    batteryPercent := c.sample.batteryPercent
    fault := c.fault
    active := activeStatus c
    epoch := c.state.epoch
    policyVersion := c.state.policyVersion
    configVersion := c.state.config.version
    generation := c.state.generation
    clockTrusted := trusted.isSome }

def readLog (s : DeviceSnapshot) (after : UInt64) (limit : UInt32) : AuditPage :=
  let first := (s.events.head?.map (·.cursor)).getD s.nextCursor
  let events := (s.events.filter fun e => e.cursor > after).take limit.toNat
  ⟨events, (events.getLast?.map (·.cursor)).getD after, saturatingAdd after 1 < first⟩

def query (g : Grant) (action : Action) : Ctl Reply := do
  let c ← get
  match action with
  | .info => pure (.info c.factory.info)
  | .status => .status <$> status
  | .getConfig => pure (.config c.state.config)
  | .operation seq =>
    let record ← orFail (okOr (findOperation c.state.operations g.credentialId seq)
      .resultUnavailable)
    pure (.operation record.status)
  | .readLog after limit => pure (.audit (readLog c.state after limit))
  | .firmwareStatus => pure (.firmware c.state.firmware)
  | .credentialStatus =>
    let next ← orFail (okOr (checkedAdd (c.state.watermark g.credentialId) 1) .resourceExhausted)
    pure (.credential (c.state.usesOf g.credentialId) g.maxUses next)
  | _ => throw .invalidPayload

/-- `boot()?`: the bootloader handle, when the platform has one. -/
def boot : Ctl Unit := do
  failIf (¬ (← request .bootloader)) .unsupportedCapability

/-- A manifest this device may install. -/
def manifest (c : Controller) (bytes : Bytes) : Except Error FirmwareManifest := do
  let key ← VerifyingKey.fromBytes P c.factory.firmwareRoot .untrustedKey
  let m ← readManifest P key bytes
  failIf (m.model ≠ c.factory.info.model ∨ m.hardware ≠ c.factory.info.hardware)
    .firmwareTargetMismatch
  failIf (m.securityVersion ≤ c.state.firmware.securityVersion) .firmwareRollback
  pure m

/-- The current issuer's key, re-read from the snapshot at each use. -/
def issuerKey (s : DeviceSnapshot) : Except Error VerifyingKey := do
  let owner ← okOr s.owner .notProvisioned
  VerifyingKey.fromBytes P owner.issuer .untrustedKey

namespace Preflight

def drive (c : Controller) (action : Action) : Except Error Unit := do
  failIf c.active.isSome .busy
  failIf (c.state.firmware.phase = .trial) .busy
  if action = .unlock then
    match c.sample.privacy with
    | .known true => .error .privacyActive
    | .unknown => .error .sensorConflict
    | _ => pure ()
  else if c.sample.bolt ≠ .known .locked then canLock c
  else pure ()

def setConfig (c : Controller) (config : DeviceConfig) : Except Error Unit := do
  failIf c.active.isSome .busy
  config.validate c.factory.info
  let next ← okOr (checkedAdd c.state.config.version 1) .resourceExhausted
  failIf (config.version ≠ next) .conflict

def setClock (c : Controller) (clock : Option ClockSample) (t : UInt64) : Except Error Unit := do
  failIf (c.state.clockFloor.any fun floor => t < floor) .clockRollback
  failIf (clock.any fun now => t < now.lower) .clockRollback

/-- Take the one-shot confirmation; it is consumed whether or not it matches. -/
def confirmation (peer : SubjectKey) (digest : Bytes32) (now : UInt64) : Ctl Unit := do
  let c ← get
  modify fun c => { c with confirmation := none }
  let confirmation ← orFail (okOr c.confirmation .physicalConfirmationRequired)
  failIf (confirmation.peer ≠ peer ∨ confirmation.digest ≠ digest ∨ now ≥ confirmation.expires)
    .physicalConfirmationRequired
  failIf (c.state.firmware.phase = .trial) .busy

def begin (c : Controller) (bytes : Bytes) : Except Error Unit := do
  failIf (c.state.firmware.phase = .receiving ∨ c.state.firmware.phase = .verified
    ∨ c.state.firmware.phase = .trial) .busy
  let m ← manifest P c bytes
  failIf (m.size > c.factory.info.maxImageSize) .objectTooLarge

/-- The bounds of a chunk; the rest of a retransmission compares the staged bytes. -/
def chunkBounds (c : Controller) (offset : UInt64) (data : Bytes) : Except Error Unit := do
  failIf (c.state.firmware.phase ≠ .receiving) .invalidState
  let m ← okOr c.state.firmware.manifest .firmwareInvalid
  failIf (data.length > c.factory.info.maxChunkSize.toNat
    ∨ (checkedAdd offset (UInt64.ofNat data.length)).all (fun stop => stop > m.size)
    ∨ offset > c.state.firmware.received) .firmwareConflict

def chunk (offset : UInt64) (data : Bytes) : Ctl Unit := do
  let c ← get
  orFail (chunkBounds c offset data)
  if offset < c.state.firmware.received then
    failIf (offset + UInt64.ofNat data.length > c.state.firmware.received) .firmwareConflict
    boot
    let old ← orFail (← request (.bootRead offset data.length))
    failIf (old ≠ data) .firmwareConflict
  else pure ()

def finish (c : Controller) : Except Error Unit :=
  failIf (c.state.firmware.phase ≠ .receiving
    ∨ c.state.firmware.manifest.all fun m => m.size ≠ c.state.firmware.received)
    .firmwareIncomplete

def activate : Ctl Unit := do
  failIf ((← get).state.firmware.phase ≠ .verified) .firmwareIncomplete
  boot
  orFail (← request .bootReady)

def policy (c : Controller) (bytes : Bytes) : Except Error Unit := do
  let key ← issuerKey P c.state
  let p ← readPolicy P key bytes
  failIf (p.lockId ≠ c.state.lockId) .wrongLock
  failIf (c.active.isSome ∧ p.epoch > c.state.epoch) .busy
  failIf (p.epoch < c.state.epoch
    ∨ (p.epoch = c.state.epoch ∧ p.version ≤ c.state.policyVersion)) .stalePolicy
  failIf (p.revoked.size > c.factory.info.credentialCapacity.toNat
    ∨ (p.epoch = c.state.epoch
      ∧ (c.state.revoked ∪ p.revoked).size > c.factory.info.credentialCapacity.toNat))
    .resourceExhausted

end Preflight

/-- The match of `preflight` over the action, after its fresh observation. -/
def preflightAction (c : Command) (clock : Option ClockSample) (now : UInt64) (digest : Bytes32)
    (peer : SubjectKey) : Ctl Unit := do
  let me ← get
  match c.action with
  | .unlock | .lock => orFail (Preflight.drive me c.action)
  | .setConfig config => orFail (Preflight.setConfig me config)
  | .setClock t => orFail (Preflight.setClock me clock t)
  | .reboot | .rotateDeviceKey _ => failIf me.active.isSome .busy
  | .factoryReset => do
    failIf me.active.isSome .busy
    Preflight.confirmation peer digest now
  | .replaceIssuer key => do
    failIf me.active.isSome .busy
    Preflight.confirmation peer digest now
    let _ ← orFail (VerifyingKey.fromBytes P key .untrustedKey)
  | .firmwareActivate => do
    failIf me.active.isSome .busy
    Preflight.activate
  | .firmwareBegin bytes => orFail (Preflight.begin P me bytes)
  | .firmwareChunk offset data => Preflight.chunk offset data
  | .firmwareFinish => orFail (Preflight.finish me)
  | .firmwareAbort => failIf (me.state.firmware.phase = .trial) .busy
  | .applyPolicy bytes => orFail (Preflight.policy P me bytes)
  | _ => pure ()

def preflight (grant : Grant) (c : Command) (now : UInt64) (digest : Bytes32)
    (peer : SubjectKey) : Ctl Unit := do
  let clock ← observeHardware P false
  orFail (checkValidity grant.validity clock)
  preflightAction P c clock now digest peer

end OpenLock.Controller
