import OpenLock.Crypto.Cbor

/-! Canonical application values of `openlock-crypto/wire.rs`. -/
namespace OpenLock
open Cbor

class Wire (α : Type) where
  value : α → Value
  parse : Value → Except Error α

/-- `encode_wire`. -/
def encodeWire {α : Type} [Wire α] (P : Primitives) (a : α) : Except Error Bytes :=
  encode P (Wire.value a)

/-- `decode_wire`. -/
def decodeWire {α : Type} [Wire α] (P : Primitives) (input : Bytes) : Except Error α := do
  Wire.parse (← decode P input)

instance : Wire UInt64 := ⟨uint, number⟩
instance : Wire UInt32 := ⟨fun n => uint n.toUInt64, u32Value⟩

instance : Wire UInt8 where
  value n := uint n.toUInt64
  parse v := do
    let n ← number v
    if n.toNat < 2^8 then .ok n.toUInt8 else .error .invalidPayload

instance : Wire Bool where
  value b := uint (if b then 1 else 0)
  parse v := do
    let n ← number v
    if n = 0 then .ok false else if n = 1 then .ok true else .error .invalidPayload

instance : Wire String where
  value s := .text s
  parse
    | .text s => if s.utf8ByteSize ≤ 64 then .ok s else .error .invalidPayload
    | _ => .error .invalidPayload

instance (n : Nat) : Wire (Vector UInt8 n) := ⟨fun b => .bytes b.toList, fixed n⟩
instance : Wire Bytes := ⟨.bytes, data⟩

instance {α : Type} [Wire α] : Wire (Option α) where
  value
    | none => .null
    | some a => Wire.value a
  parse v := if v = .null then .ok none else some <$> Wire.parse v

/-- The `enumeration!` macro: a variant is written as its position. -/
@[reducible] def Wire.enumeration {α : Type} [DecidableEq α] (variants : List α) : Wire α where
  value a := uint (UInt64.ofNat (variants.idxOf a))
  parse v := do
    let n ← number v
    okOr variants[n.toNat]? .invalidPayload

instance : Wire BoltState := .enumeration [.locked, .unlocked]
instance : Wire DoorState := .enumeration [.closed, .open]
instance : Wire ActuatorKind := .enumeration [.motor, .pulse]
instance : Wire Fault := .enumeration
  [.none, .jammed, .timeout, .sensorConflict, .driver, .doorAjar]
instance : Wire CompletionEvidence := .enumeration [.none, .driver, .sensor, .noChange]
instance : Wire OperationPhase := .enumeration
  [.accepted, .running, .completed, .failed, .unknown]
instance : Wire AuditKind := .enumeration
  [.operation, .hardware, .configuration, .ownership, .clock, .policy, .firmware, .reboot,
    .rejected]
instance : Wire FirmwarePhase := .enumeration
  [.empty, .receiving, .verified, .trial, .confirmed, .failed]

instance {α : Type} [Wire α] : Wire (Reading α) where
  value
    | .unsupported => .array [uint 0]
    | .unknown => .array [uint 1]
    | .known a => .array [uint 2, Wire.value a]
  parse
    | .array [tag] => do
      let n ← number tag
      if n = 0 then .ok .unsupported
      else if n = 1 then .ok .unknown
      else .error .invalidPayload
    | .array [tag, x] => do
      if (← number tag) = 2 then .known <$> Wire.parse x else .error .invalidPayload
    | .array (tag :: _) => do
      let _ ← number tag
      .error .invalidPayload
    | _ => .error .invalidPayload

instance : Wire LockId := ⟨fun id => Wire.value id.bytes, fun v => .mk <$> fixed 16 v⟩
instance : Wire CredentialId := ⟨fun id => Wire.value id.bytes, fun v => .mk <$> fixed 16 v⟩
instance : Wire SubjectKey := ⟨fun id => Wire.value id.bytes, fun v => .mk <$> fixed 32 v⟩

instance : Wire AutoRelock where
  value
    | .disabled => .array [uint 0]
    | .delay ms => .array [uint 1, Wire.value ms]
    | .afterClose ms => .array [uint 2, Wire.value ms]
  parse
    | .array [tag] => do
      if (← number tag) = 0 then .ok .disabled else .error .invalidPayload
    | .array [tag, ms] => do
      let n ← number tag
      if n = 1 then .delay <$> u32Value ms
      else if n = 2 then .afterClose <$> u32Value ms
      else .error .invalidPayload
    | .array (tag :: _) => do
      let _ ← number tag
      .error .invalidPayload
    | _ => .error .invalidPayload

instance : Wire DeviceConfig where
  value c := .array [Wire.value c.version, Wire.value c.autoRelock, Wire.value c.releaseMs,
    Wire.value c.actionTimeoutMs, Wire.value c.holdOpen, Wire.value c.doorAjarMs]
  parse v := do
    match ← fields v 6 with
    | [version, autoRelock, releaseMs, actionTimeoutMs, holdOpen, doorAjarMs] =>
      pure ⟨← Wire.parse version, ← Wire.parse autoRelock, ← Wire.parse releaseMs,
        ← Wire.parse actionTimeoutMs, ← Wire.parse holdOpen, ← Wire.parse doorAjarMs⟩
    | _ => .error .invalidPayload

instance : Wire FirmwareManifest where
  value m := .array [Wire.value m.model, Wire.value m.hardware, Wire.value m.version,
    Wire.value m.size, Wire.value m.sha256, Wire.value m.securityVersion]
  parse v := do
    match ← fields v 6 with
    | [model, hardware, version, size, sha256, securityVersion] =>
      pure ⟨← Wire.parse model, ← Wire.parse hardware, ← Wire.parse version,
        ← Wire.parse size, ← Wire.parse sha256, ← Wire.parse securityVersion⟩
    | _ => .error .invalidPayload

instance : Wire OperationStatus where
  value s := .array [Wire.value s.credentialId, Wire.value s.sequence, Wire.value s.opcode,
    Wire.value s.phase, Wire.value s.evidence, Wire.value s.error]
  parse v := do
    match ← fields v 6 with
    | [credentialId, sequence, opcode, phase, evidence, error] =>
      pure ⟨← Wire.parse credentialId, ← Wire.parse sequence, ← Wire.parse opcode,
        ← Wire.parse phase, ← Wire.parse evidence, ← Wire.parse error⟩
    | _ => .error .invalidPayload

instance : Wire LockStatus where
  value s := .array [Wire.value s.bolt, Wire.value s.door, Wire.value s.privacy,
    Wire.value s.batteryPercent, Wire.value s.fault, Wire.value s.active, Wire.value s.epoch,
    Wire.value s.policyVersion, Wire.value s.configVersion, Wire.value s.generation,
    Wire.value s.clockTrusted]
  parse v := do
    match ← fields v 11 with
    | [bolt, door, privacy, batteryPercent, fault, active, epoch, policyVersion, configVersion,
        generation, clockTrusted] =>
      pure ⟨← Wire.parse bolt, ← Wire.parse door, ← Wire.parse privacy,
        ← Wire.parse batteryPercent, ← Wire.parse fault, ← Wire.parse active,
        ← Wire.parse epoch, ← Wire.parse policyVersion, ← Wire.parse configVersion,
        ← Wire.parse generation, ← Wire.parse clockTrusted⟩
    | _ => .error .invalidPayload

instance : Wire DeviceInfo where
  value i := .array [Wire.value i.lockId, Wire.value i.model, Wire.value i.hardware,
    Wire.value i.firmware, Wire.value i.capabilities, Wire.value i.actuator,
    Wire.value i.boltSensor, Wire.value i.doorSensor, Wire.value i.privacySensor,
    Wire.value i.batterySensor, Wire.value i.safeLockWithoutDoor, Wire.value i.holdOpen,
    Wire.value i.maxReleaseMs, Wire.value i.maxActionMs, Wire.value i.maxDelayMs,
    Wire.value i.logCapacity, Wire.value i.operationCapacity, Wire.value i.credentialCapacity,
    Wire.value i.maxImageSize, Wire.value i.maxChunkSize]
  parse v := do
    match ← fields v 20 with
    | [lockId, model, hardware, firmware, capabilities, actuator, boltSensor, doorSensor,
        privacySensor, batterySensor, safeLockWithoutDoor, holdOpen, maxReleaseMs, maxActionMs,
        maxDelayMs, logCapacity, operationCapacity, credentialCapacity, maxImageSize,
        maxChunkSize] =>
      pure ⟨← Wire.parse lockId, ← Wire.parse model, ← Wire.parse hardware,
        ← Wire.parse firmware, ← Wire.parse capabilities, ← Wire.parse actuator,
        ← Wire.parse boltSensor, ← Wire.parse doorSensor, ← Wire.parse privacySensor,
        ← Wire.parse batterySensor, ← Wire.parse safeLockWithoutDoor, ← Wire.parse holdOpen,
        ← Wire.parse maxReleaseMs, ← Wire.parse maxActionMs, ← Wire.parse maxDelayMs,
        ← Wire.parse logCapacity, ← Wire.parse operationCapacity,
        ← Wire.parse credentialCapacity, ← Wire.parse maxImageSize, ← Wire.parse maxChunkSize⟩
    | _ => .error .invalidPayload

instance : Wire HardwareSample where
  value s := .array [Wire.value s.bolt, Wire.value s.door, Wire.value s.privacy,
    Wire.value s.batteryPercent]
  parse v := do
    match ← fields v 4 with
    | [bolt, door, privacy, batteryPercent] =>
      pure ⟨← Wire.parse bolt, ← Wire.parse door, ← Wire.parse privacy,
        ← Wire.parse batteryPercent⟩
    | _ => .error .invalidPayload

instance : Wire AuditEvent where
  value e := .array [Wire.value e.cursor, Wire.value e.unixSeconds, Wire.value e.kind,
    Wire.value e.credentialId, Wire.value e.sequence, Wire.value e.code,
    Wire.value e.hardware, Wire.value e.operation]
  parse v := do
    match ← fields v 8 with
    | [cursor, unixSeconds, kind, credentialId, sequence, code, hardware, operation] =>
      pure ⟨← Wire.parse cursor, ← Wire.parse unixSeconds, ← Wire.parse kind,
        ← Wire.parse credentialId, ← Wire.parse sequence, ← Wire.parse code,
        ← Wire.parse hardware, ← Wire.parse operation⟩
    | _ => .error .invalidPayload

instance : Wire FirmwareStatus where
  value s := .array [Wire.value s.phase, Wire.value s.received, Wire.value s.manifest,
    Wire.value s.securityVersion]
  parse v := do
    match ← fields v 4 with
    | [phase, received, manifest, securityVersion] =>
      pure ⟨← Wire.parse phase, ← Wire.parse received, ← Wire.parse manifest,
        ← Wire.parse securityVersion⟩
    | _ => .error .invalidPayload

instance : Wire AuditPage where
  value p := .array [.array (p.events.map Wire.value), Wire.value p.nextCursor, Wire.value p.gap]
  parse v := do
    match ← fields v 3 with
    | [.array events, nextCursor, gap] => do
      failIf (events.length > 16) .objectTooLarge
      pure ⟨← events.mapM Wire.parse, ← Wire.parse nextCursor, ← Wire.parse gap⟩
    | _ => .error .invalidPayload

namespace Action

/-- The operands after the opcode. -/
def operands : Action → List Value
  | .applyPolicy x | .firmwareBegin x | .rotateDeviceKey x => [Wire.value x]
  | .operation x | .setClock x => [Wire.value x]
  | .setConfig x => [Wire.value x]
  | .readLog after limit => [Wire.value after, Wire.value limit]
  | .replaceIssuer x => [Wire.value x]
  | .firmwareChunk offset data => [Wire.value offset, Wire.value data]
  | .claim setupKey issuer admin => [Wire.value setupKey, Wire.value issuer, Wire.value admin]
  | _ => []

def value (a : Action) : Value := .array (Wire.value a.opcode :: a.operands)

def parseLog (after limit : Value) : Except Error Action := do
  let limit ← u32Value limit
  failIf (limit = 0 ∨ limit > 16) .invalidPayload
  pure (.readLog (← Wire.parse after) limit)

def parseChunk (offset data : Value) : Except Error Action := do
  let data : Bytes ← Wire.parse data
  failIf (data.isEmpty ∨ data.length > 1024) .invalidPayload
  pure (.firmwareChunk (← Wire.parse offset) data)

/-- The table of opcodes with their operands. -/
def parseOperands (op : UInt64) (f : List Value) : Except Error Action :=
  match op.toNat, f with
  | 0, [] => .ok .unlock
  | 1, [] => .ok .status
  | 2, [x] => .applyPolicy <$> Wire.parse x
  | 3, [] => .ok .lock
  | 4, [] => .ok .info
  | 5, [x] => .operation <$> Wire.parse x
  | 6, [] => .ok .getConfig
  | 7, [x] => .setConfig <$> Wire.parse x
  | 8, [after, limit] => parseLog after limit
  | 9, [x] => .setClock <$> Wire.parse x
  | 10, [] => .ok .reboot
  | 11, [] => .ok .factoryReset
  | 12, [x] => .replaceIssuer <$> Wire.parse x
  | 13, [x] => .firmwareBegin <$> Wire.parse x
  | 14, [offset, data] => parseChunk offset data
  | 15, [] => .ok .firmwareFinish
  | 16, [] => .ok .firmwareActivate
  | 17, [] => .ok .firmwareAbort
  | 18, [] => .ok .firmwareStatus
  | 19, [setupKey, issuer, admin] => do
    pure (.claim (← Wire.parse setupKey) (← Wire.parse issuer) (← Wire.parse admin))
  | 20, [] => .ok .credentialStatus
  | 21, [x] => .rotateDeviceKey <$> Wire.parse x
  | 22, [] => .ok .pairingStatus
  | _, _ => .error .invalidPayload

def parse : Value → Except Error Action
  | .array (op :: f) => do parseOperands (← number op) f
  | _ => .error .invalidPayload

end Action

instance : Wire Action := ⟨Action.value, Action.parse⟩

instance : Wire Command where
  value c := .array [Wire.value c.credential, Wire.value c.sequence, Wire.value c.action]
  parse v := do
    match ← fields v 3 with
    | [credential, sequence, action] => do
      let out : Command := ⟨← Wire.parse credential, ← Wire.parse sequence, ← Wire.parse action⟩
      out.validate
      pure out
    | _ => .error .invalidPayload

namespace Reply

/-- The tag of a reply with what follows it. -/
def tagged : Reply → UInt64 × Value
  | .operation x => (0, Wire.value x)
  | .status x => (1, Wire.value x)
  | .info x => (2, Wire.value x)
  | .config x => (3, Wire.value x)
  | .audit x => (4, Wire.value x)
  | .firmware x => (5, Wire.value x)
  | .pairing epoch generation windowOpen =>
    (8, .array [Wire.value epoch, Wire.value generation, Wire.value windowOpen])
  | .claimed epoch generation => (6, .array [Wire.value epoch, Wire.value generation])
  | .credential uses maxUses nextSequence =>
    (7, .array [Wire.value uses, Wire.value maxUses, Wire.value nextSequence])

def parsePairing (v : Value) : Except Error Reply := do
  match ← fields v 3 with
  | [epoch, generation, windowOpen] =>
    pure (.pairing (← Wire.parse epoch) (← Wire.parse generation) (← Wire.parse windowOpen))
  | _ => .error .invalidPayload

def parseClaimed (v : Value) : Except Error Reply := do
  match ← fields v 2 with
  | [epoch, generation] => pure (.claimed (← Wire.parse epoch) (← Wire.parse generation))
  | _ => .error .invalidPayload

def parseCredential (v : Value) : Except Error Reply := do
  match ← fields v 3 with
  | [uses, maxUses, nextSequence] =>
    pure (.credential (← Wire.parse uses) (← Wire.parse maxUses) (← Wire.parse nextSequence))
  | _ => .error .invalidPayload

def parseTagged (tag : UInt64) (v : Value) : Except Error Reply :=
  match tag.toNat with
  | 0 => .operation <$> Wire.parse v
  | 1 => .status <$> Wire.parse v
  | 2 => .info <$> Wire.parse v
  | 3 => .config <$> Wire.parse v
  | 4 => .audit <$> Wire.parse v
  | 5 => .firmware <$> Wire.parse v
  | 8 => parsePairing v
  | 6 => parseClaimed v
  | 7 => parseCredential v
  | _ => .error .invalidPayload

end Reply

instance : Wire Reply where
  value r := .array [uint r.tagged.1, r.tagged.2]
  parse v := do
    match ← fields v 2 with
    | [tag, data] => do Reply.parseTagged (← number tag) data
    | _ => .error .invalidPayload

/-- Whether a successful reply answers this opcode. -/
def Reply.answers (opcode : UInt8) : Reply → Bool
  | .status _ => opcode == 1
  | .info _ => opcode == 4
  | .config _ => opcode == 6
  | .audit _ => opcode == 8
  | .firmware _ => opcode == 18
  | .pairing _ _ _ => opcode == 22
  | .claimed _ _ => opcode == 19
  | .credential _ _ _ => opcode == 20
  | .operation x => opcode == 5 || x.opcode == opcode

def validateResponse (r : Response) : Except Error Unit := do
  failIf (r.opcode > 22) .invalidPayload
  match r.result with
  | .ok reply => failIf (¬ reply.answers r.opcode) .invalidPayload
  | .error code => failIf (code = 0) .invalidPayload

instance : Wire Response where
  value r :=
    match r.result with
    | .ok reply => .array [Wire.value r.opcode, uint 0, Wire.value reply]
    | .error code => .array [Wire.value r.opcode, Wire.value code, .null]
  parse v := do
    match ← fields v 3 with
    | [opcode, code, reply] => do
      let opcode : UInt8 ← Wire.parse opcode
      failIf (opcode > 22) .invalidPayload
      let code ← u32Value code
      let result : Except UInt32 Reply ←
        if code = 0 then Except.ok <$> Wire.parse reply
        else do
          failIf (reply ≠ .null) .invalidPayload
          pure (.error code)
      let r : Response := ⟨opcode, result⟩
      validateResponse r
      pure r
    | _ => .error .invalidPayload

end OpenLock
