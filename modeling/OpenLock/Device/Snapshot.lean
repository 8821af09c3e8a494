import OpenLock.Crypto.Cose

/-! The durable record of a lock and the check it passes before every commit. -/
namespace OpenLock

structure FactoryIdentity where
  info : DeviceInfo
  setupKeyHash : Bytes32
  firmwareRoot : Bytes32
  deviceKey : DeviceKey

structure Owner where
  issuer : Bytes32
  firstAdmin : SubjectKey
  deriving DecidableEq

structure OperationRecord where
  digest : Bytes32
  status : OperationStatus
  deriving DecidableEq

structure DeviceSnapshot where
  format : UInt32
  lockId : LockId
  owner : Option Owner
  epoch : UInt64
  generation : UInt64
  policyVersion : UInt64
  revoked : CredentialSet
  uses : CredentialMap UInt32
  watermarks : CredentialMap UInt64
  bindings : CredentialMap Bytes32
  operations : List OperationRecord
  config : DeviceConfig
  events : List AuditEvent
  nextCursor : UInt64
  clockFloor : Option UInt64
  clockValid : Bool
  pendingRelock : Bool
  automaticInflight : Bool
  firmware : FirmwareStatus
  signedManifest : Bytes
  deviceKey : DeviceKey
  deriving DecidableEq

/-- The legacy v2 record, read only by migration. -/
structure LockSnapshot where
  epoch : UInt64
  policyVersion : UInt64
  revoked : CredentialSet
  usage : CredentialMap UInt32

namespace DeviceSnapshot

def factory (f : FactoryIdentity) : DeviceSnapshot where
  format := 1
  lockId := f.info.lockId
  owner := none
  epoch := 0
  generation := 0
  policyVersion := 0
  revoked := ∅
  uses := ∅
  watermarks := ∅
  bindings := ∅
  operations := []
  config := DeviceConfig.factory f.info
  events := []
  nextCursor := 1
  clockFloor := none
  clockValid := true
  pendingRelock := false
  automaticInflight := false
  firmware := ⟨.empty, 0, none, 0⟩
  signedManifest := []
  deviceKey := f.deviceKey

/-- The highest sequence accepted for a credential; zero when none was. -/
def watermark (s : DeviceSnapshot) (id : CredentialId) : UInt64 := s.watermarks[id]?.getD 0

def usesOf (s : DeviceSnapshot) (id : CredentialId) : UInt32 := s.uses[id]?.getD 0

/-- The operation loop of `validate`, for one record. -/
def operationRejected (s : DeviceSnapshot) (op : OperationRecord) : Bool :=
  op.status.sequence == 0 || s.watermark op.status.credentialId < op.status.sequence
    || op.status.opcode > 22

/-- The event loop of `validate`: cursors increase from `last` and stay below `next`. -/
def cursorsOrdered (next : UInt64) : UInt64 → List AuditEvent → Bool
  | _, [] => true
  | last, e :: es => last < e.cursor && e.cursor < next && cursorsOrdered next e.cursor es

/-- The comparison of the stored firmware record with the manifest it re-reads. -/
def manifestRejected (s : DeviceSnapshot) (f : FactoryIdentity) (m : FirmwareManifest) : Bool :=
  s.firmware.manifest != some m || m.model != f.info.model || m.hardware != f.info.hardware
    || m.size > f.info.maxImageSize
    || ((s.firmware.phase == .verified || s.firmware.phase == .trial
        || s.firmware.phase == .confirmed) && s.firmware.received != m.size)
    || (s.firmware.phase == .confirmed && s.firmware.securityVersion != m.securityVersion)
    || (s.firmware.phase != .confirmed && m.securityVersion ≤ s.firmware.securityVersion)

/-- `map_err(|_| Error::StorageUnavailable)`. -/
def asStorage {α : Type} (x : Except Error α) : Except Error α :=
  x.mapError fun _ => .storageUnavailable

@[simp] theorem asStorage_eq_ok {α : Type} {x : Except Error α} {a : α} :
    asStorage x = .ok a ↔ x = .ok a := mapError_eq_ok

def validateFirmware (P : Primitives) (s : DeviceSnapshot) (f : FactoryIdentity) :
    Except Error Unit := do
  if s.firmware.phase = .empty then
    failIf (s.firmware.manifest.isSome ∨ ¬ s.signedManifest.isEmpty) .storageUnavailable
  else
    let root ← VerifyingKey.fromBytes P f.firmwareRoot .storageUnavailable
    let manifest ← asStorage (readManifest P root s.signedManifest)
    failIf (s.manifestRejected f manifest) .storageUnavailable
  failIf (s.firmware.received > (s.firmware.manifest.map (·.size)).getD 0) .storageUnavailable

def validate (P : Primitives) (s : DeviceSnapshot) (f : FactoryIdentity) : Except Error Unit := do
  failIf (s.format ≠ 1 ∨ s.lockId ≠ f.info.lockId ∨ s.deviceKey.deviceId ≠ s.lockId
    ∨ s.nextCursor = 0
    ∨ s.operations.length > f.info.operationCapacity.toNat
    ∨ s.events.length > f.info.logCapacity.toNat
    ∨ s.watermarks.size > f.info.credentialCapacity.toNat
    ∨ s.bindings.size > f.info.credentialCapacity.toNat
    ∨ s.uses.size > f.info.credentialCapacity.toNat
    ∨ s.revoked.size > f.info.credentialCapacity.toNat) .storageUnavailable
  asStorage (s.config.validate f.info)
  asStorage (validateDeviceKey P s.deviceKey)
  match s.owner with
  | none => pure ()
  | some owner => do
    let _ ← VerifyingKey.fromBytes P owner.issuer .storageUnavailable
  failIf (s.operations.any s.operationRejected) .storageUnavailable
  failIf (¬ cursorsOrdered s.nextCursor 0 s.events) .storageUnavailable
  validateFirmware P s f

end DeviceSnapshot
end OpenLock
