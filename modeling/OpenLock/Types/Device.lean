import OpenLock.Types.Basic

/-! The physical and management contract of `openlock-types`: readings, records,
actions, commands and replies. -/
namespace OpenLock

inductive Reading (α : Type) where
  | unsupported
  | unknown
  | known (value : α)
  deriving DecidableEq

inductive BoltState where
  | locked | unlocked
  deriving DecidableEq

inductive DoorState where
  | closed | open
  deriving DecidableEq

inductive ActuatorKind where
  | motor | pulse
  deriving DecidableEq

inductive ActionTarget where
  | unlock | lock
  deriving DecidableEq

inductive Fault where
  | none | jammed | timeout | sensorConflict | driver | doorAjar
  deriving DecidableEq

inductive CompletionEvidence where
  | none | driver | sensor | noChange
  deriving DecidableEq

inductive OperationPhase where
  | accepted | running | completed | failed | unknown
  deriving DecidableEq

structure OperationStatus where
  credentialId : CredentialId
  sequence : UInt64
  opcode : UInt8
  phase : OperationPhase
  evidence : CompletionEvidence
  error : UInt32
  deriving DecidableEq

structure LockStatus where
  bolt : Reading BoltState
  door : Reading DoorState
  privacy : Reading Bool
  batteryPercent : Reading UInt8
  fault : Fault
  active : Option OperationStatus
  epoch : UInt64
  policyVersion : UInt64
  configVersion : UInt64
  generation : UInt64
  clockTrusted : Bool
  deriving DecidableEq

structure DeviceInfo where
  lockId : LockId
  model : String
  hardware : String
  firmware : String
  capabilities : UInt64
  actuator : ActuatorKind
  boltSensor : Bool
  doorSensor : Bool
  privacySensor : Bool
  batterySensor : Bool
  safeLockWithoutDoor : Bool
  holdOpen : Bool
  maxReleaseMs : UInt32
  maxActionMs : UInt32
  maxDelayMs : UInt32
  logCapacity : UInt32
  operationCapacity : UInt32
  credentialCapacity : UInt32
  maxImageSize : UInt64
  maxChunkSize : UInt32
  deriving DecidableEq

/-- The six firmware opcodes 13 to 18. -/
def firmwareCapabilities : UInt64 := (0x3f : UInt64) <<< 13

def DeviceInfo.validate (i : DeviceInfo) : Except Error Unit :=
  failIf (i.capabilities = 0
    ∨ i.capabilities &&& ~~~knownCapabilities ≠ 0
    ∨ i.model.isEmpty ∨ i.hardware.isEmpty ∨ i.firmware.isEmpty
    ∨ i.model.utf8ByteSize > 64 ∨ i.hardware.utf8ByteSize > 64 ∨ i.firmware.utf8ByteSize > 64
    ∨ i.maxReleaseMs = 0 ∨ i.maxActionMs = 0 ∨ i.maxDelayMs = 0
    ∨ i.logCapacity = 0 ∨ i.operationCapacity = 0 ∨ i.credentialCapacity = 0
    ∨ i.maxChunkSize > 1024
    ∨ (i.actuator = .pulse ∧ i.capabilities &&& ((1 : UInt64) <<< 3) ≠ 0)
    ∨ (i.capabilities &&& firmwareCapabilities ≠ 0
      ∧ (i.maxImageSize = 0 ∨ i.maxChunkSize = 0))) .invalidConfig

inductive AutoRelock where
  | disabled
  | delay (ms : UInt32)
  | afterClose (ms : UInt32)
  deriving DecidableEq

structure DeviceConfig where
  version : UInt64
  autoRelock : AutoRelock
  releaseMs : UInt32
  actionTimeoutMs : UInt32
  holdOpen : Bool
  doorAjarMs : UInt32
  deriving DecidableEq

def DeviceConfig.factory (info : DeviceInfo) : DeviceConfig where
  version := 0
  autoRelock := .disabled
  releaseMs := min info.maxReleaseMs 500
  actionTimeoutMs := min info.maxActionMs 10000
  holdOpen := false
  doorAjarMs := 0

/-- The shared bound of both relock modes; `afterClose` also needs a door sensor. -/
def DeviceConfig.relockRejected (c : DeviceConfig) (info : DeviceInfo) (ms : UInt32)
    (afterClose : Bool) : Bool :=
  ms == 0 || ms > info.maxDelayMs || info.capabilities &&& ((1 : UInt64) <<< 3) == 0 || c.holdOpen
    || (!info.doorSensor && !info.safeLockWithoutDoor) || (afterClose && !info.doorSensor)

def DeviceConfig.validate (c : DeviceConfig) (info : DeviceInfo) : Except Error Unit := do
  failIf (c.releaseMs = 0 ∨ c.releaseMs > info.maxReleaseMs
    ∨ c.actionTimeoutMs = 0 ∨ c.actionTimeoutMs > info.maxActionMs
    ∨ (c.holdOpen ∧ ¬ info.holdOpen)
    ∨ c.doorAjarMs > info.maxDelayMs
    ∨ (c.doorAjarMs ≠ 0 ∧ ¬ info.doorSensor)) .invalidConfig
  match c.autoRelock with
  | .disabled => pure ()
  | .delay ms => failIf (c.relockRejected info ms false) .invalidConfig
  | .afterClose ms => failIf (c.relockRejected info ms true) .invalidConfig

inductive AuditKind where
  | operation | hardware | configuration | ownership | clock | policy | firmware | reboot
  | rejected
  deriving DecidableEq

/-- `HardwareState`, also named `HardwareSample` by the controller. -/
structure HardwareSample where
  bolt : Reading BoltState
  door : Reading DoorState
  privacy : Reading Bool
  batteryPercent : Reading UInt8
  deriving DecidableEq

structure AuditEvent where
  cursor : UInt64
  unixSeconds : Option UInt64
  kind : AuditKind
  credentialId : Option CredentialId
  sequence : Option UInt64
  code : UInt32
  hardware : Option HardwareSample
  operation : Option OperationStatus
  deriving DecidableEq

structure AuditPage where
  events : List AuditEvent
  nextCursor : UInt64
  gap : Bool
  deriving DecidableEq

structure FirmwareManifest where
  model : String
  hardware : String
  version : String
  size : UInt64
  sha256 : Bytes32
  securityVersion : UInt64
  deriving DecidableEq

inductive FirmwarePhase where
  | empty | receiving | verified | trial | confirmed | failed
  deriving DecidableEq

structure FirmwareStatus where
  phase : FirmwarePhase
  received : UInt64
  manifest : Option FirmwareManifest
  securityVersion : UInt64
  deriving DecidableEq

inductive Action where
  | unlock
  | status
  | applyPolicy (signed : Bytes)
  | lock
  | info
  | operation (sequence : UInt64)
  | getConfig
  | setConfig (config : DeviceConfig)
  | readLog (after : UInt64) (limit : UInt32)
  | setClock (time : UInt64)
  | reboot
  | factoryReset
  | replaceIssuer (issuer : Bytes32)
  | firmwareBegin (signed : Bytes)
  | firmwareChunk (offset : UInt64) (data : Bytes)
  | firmwareFinish
  | firmwareActivate
  | firmwareAbort
  | firmwareStatus
  | claim (setupKey issuer : Bytes32) (adminCredential : Bytes)
  | credentialStatus
  | rotateDeviceKey (signed : Bytes)
  | pairingStatus
  deriving DecidableEq

namespace Action

def opcode : Action → UInt8
  | .unlock => 0 | .status => 1 | .applyPolicy _ => 2 | .lock => 3 | .info => 4
  | .operation _ => 5 | .getConfig => 6 | .setConfig _ => 7 | .readLog _ _ => 8
  | .setClock _ => 9 | .reboot => 10 | .factoryReset => 11 | .replaceIssuer _ => 12
  | .firmwareBegin _ => 13 | .firmwareChunk _ _ => 14 | .firmwareFinish => 15
  | .firmwareActivate => 16 | .firmwareAbort => 17 | .firmwareStatus => 18
  | .claim _ _ _ => 19 | .credentialStatus => 20 | .rotateDeviceKey _ => 21
  | .pairingStatus => 22

def right : Action → UInt32
  | .unlock => rightsUnlock
  | .lock => rightsLock
  | .status | .info | .operation _ | .getConfig | .credentialStatus => rightsStatus
  | .applyPolicy _ => rightsCredentials
  | .setConfig _ => rightsConfig
  | .readLog _ _ => rightsLog
  | .setClock _ => rightsClock
  | .reboot => rightsReboot
  | .factoryReset => rightsReset
  | .replaceIssuer _ | .rotateDeviceKey _ => rightsTrust
  | .firmwareBegin _ | .firmwareChunk _ _ | .firmwareFinish | .firmwareActivate
  | .firmwareAbort | .firmwareStatus => rightsFirmware
  | .claim _ _ _ | .pairingStatus => 0

def mutates : Action → Bool
  | .status | .info | .operation _ | .getConfig | .readLog _ _ | .firmwareStatus
  | .credentialStatus | .pairingStatus => false
  | _ => true

/-- The two commissioning actions, which carry no credential. -/
def commissioning : Action → Bool
  | .claim _ _ _ | .pairingStatus => true
  | _ => false

end Action

structure Command where
  credential : Bytes
  sequence : Option UInt64
  action : Action
  deriving DecidableEq

namespace Command

def capability (c : Command) : UInt64 := 1 <<< c.action.opcode.toUInt64

def validate (c : Command) : Except Error Unit :=
  failIf (c.credential.length > maxObjectSize
    ∨ c.credential.isEmpty ≠ c.action.commissioning
    ∨ c.action.mutates ≠ c.sequence.isSome
    ∨ c.sequence = some 0) .invalidPayload

end Command

inductive Reply where
  | operation (status : OperationStatus)
  | status (status : LockStatus)
  | info (info : DeviceInfo)
  | config (config : DeviceConfig)
  | audit (page : AuditPage)
  | firmware (status : FirmwareStatus)
  | pairing (epoch generation : UInt64) (windowOpen : Bool)
  | claimed (epoch generation : UInt64)
  | credential (uses : UInt32) (maxUses : Option UInt32) (nextSequence : UInt64)
  deriving DecidableEq

structure Response where
  opcode : UInt8
  result : Except UInt32 Reply
  deriving DecidableEq

end OpenLock
