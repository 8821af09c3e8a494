import OpenLock.Crypto.Grammar
import OpenLock.Protocol.Packet

/-! The wire codec is canonical: every wire type and every packet is read back from its
encoding, and each accepted byte string is the encoding of what it was read as. The response
parser takes every documented response, and some that the document excludes. -/
namespace OpenLock
open Cbor

/-- A type of values meeting `allowed` is encoded without loss and decoded without slack. -/
structure CanonicalWire (P : Primitives) (α : Type) [Wire α] (allowed : α → Prop) : Prop where
  decode_encode : ∀ a : α, allowed a → (Wire.value a).write.length ≤ maxObjectSize →
    ∃ b, encodeWire P a = .ok b ∧ decodeWire P b = .ok a
  encode_decode : ∀ (b : Bytes) (a : α), decodeWire P b = .ok a → encodeWire P a = .ok b

section Laws
variable {P : Primitives} {α : Type} [Wire α] [LawfulWire α]

theorem canonicalWire (codec : P.Ciborium) (shallow : LawfulWire.depth α ≤ 16) :
    CanonicalWire P α LawfulWire.Allowed where
  decode_encode a allowed fits := by
    have within := (LawfulWire.within a).mono shallow
    refine ⟨_, (encodeLimit_eq_ok codec within).2 ⟨rfl, fits⟩, ?_⟩
    simp only [decodeWire, decode, decodeLimit_write codec within fits (by decide), bind_eq_ok,
      LawfulWire.parse_eq_ok]
    exact ⟨_, rfl, rfl, allowed⟩
  encode_decode b a h := by
    simp only [decodeWire, bind_eq_ok, LawfulWire.parse_eq_ok] at h
    obtain ⟨v, read, rfl, _⟩ := h
    exact encodeLimit_of_decodeLimit read

/-- Two members of a type never share an encoding, allowed or not. -/
theorem encodeWire_injective (codec : P.Ciborium) (shallow : LawfulWire.depth α ≤ 16) {a a' : α}
    {b : Bytes} (h : encodeWire P a = .ok b) (h' : encodeWire P a' = .ok b) : a = a' :=
  LawfulWire.value_injective (encodeLimit_injective codec ((LawfulWire.within a).mono shallow)
    ((LawfulWire.within a').mono shallow) (by decide) h h')

end Laws

/-- The codec of every wire type with that type's own constraints, and of packets. -/
structure CanonicalCodec (P : Primitives) : Prop where
  u8 : CanonicalWire P UInt8 fun _ => True
  u32 : CanonicalWire P UInt32 fun _ => True
  u64 : CanonicalWire P UInt64 fun _ => True
  bool : CanonicalWire P Bool fun _ => True
  string : CanonicalWire P String fun s => s.utf8ByteSize ≤ 64
  fixed : ∀ n, CanonicalWire P (Vector UInt8 n) fun _ => True
  bytes : CanonicalWire P Bytes fun _ => True
  lockId : CanonicalWire P LockId fun _ => True
  credentialId : CanonicalWire P CredentialId fun _ => True
  subjectKey : CanonicalWire P SubjectKey fun _ => True
  boltState : CanonicalWire P BoltState fun _ => True
  doorState : CanonicalWire P DoorState fun _ => True
  actuatorKind : CanonicalWire P ActuatorKind fun _ => True
  fault : CanonicalWire P Fault fun _ => True
  completionEvidence : CanonicalWire P CompletionEvidence fun _ => True
  operationPhase : CanonicalWire P OperationPhase fun _ => True
  auditKind : CanonicalWire P AuditKind fun _ => True
  firmwarePhase : CanonicalWire P FirmwarePhase fun _ => True
  boltReading : CanonicalWire P (Reading BoltState) fun _ => True
  doorReading : CanonicalWire P (Reading DoorState) fun _ => True
  boolReading : CanonicalWire P (Reading Bool) fun _ => True
  batteryReading : CanonicalWire P (Reading UInt8) fun _ => True
  optionalU32 : CanonicalWire P (Option UInt32) fun _ => True
  optionalU64 : CanonicalWire P (Option UInt64) fun _ => True
  optionalCredential : CanonicalWire P (Option CredentialId) fun _ => True
  optionalHardware : CanonicalWire P (Option HardwareSample) fun _ => True
  optionalOperation : CanonicalWire P (Option OperationStatus) fun _ => True
  optionalManifest : CanonicalWire P (Option FirmwareManifest) fun o => ∀ m, o = some m →
    m.model.utf8ByteSize ≤ 64 ∧ m.hardware.utf8ByteSize ≤ 64 ∧ m.version.utf8ByteSize ≤ 64
  autoRelock : CanonicalWire P AutoRelock fun _ => True
  deviceConfig : CanonicalWire P DeviceConfig fun _ => True
  operationStatus : CanonicalWire P OperationStatus fun _ => True
  lockStatus : CanonicalWire P LockStatus fun _ => True
  deviceInfo : CanonicalWire P DeviceInfo fun i =>
    i.model.utf8ByteSize ≤ 64 ∧ i.hardware.utf8ByteSize ≤ 64 ∧ i.firmware.utf8ByteSize ≤ 64
  hardwareState : CanonicalWire P HardwareSample fun _ => True
  auditEvent : CanonicalWire P AuditEvent fun _ => True
  auditPage : CanonicalWire P AuditPage fun p => p.events.length ≤ 16
  firmwareManifest : CanonicalWire P FirmwareManifest fun m =>
    m.model.utf8ByteSize ≤ 64 ∧ m.hardware.utf8ByteSize ≤ 64 ∧ m.version.utf8ByteSize ≤ 64
  firmwareStatus : CanonicalWire P FirmwareStatus fun s => ∀ m, s.manifest = some m →
    m.model.utf8ByteSize ≤ 64 ∧ m.hardware.utf8ByteSize ≤ 64 ∧ m.version.utf8ByteSize ≤ 64
  action : CanonicalWire P Action Action.Bounded
  command : CanonicalWire P Command fun c => c.validate = .ok () ∧ c.action.Bounded
  reply : CanonicalWire P Reply Reply.Bounded
  response : CanonicalWire P Response fun r =>
    validateResponse r = .ok () ∧ ∀ reply, r.result = .ok reply → reply.Bounded
  packet_decode_encode : ∀ p : Packet, p.validate = .ok () →
    (packetValue p).write.length ≤ maxMessageSize →
    ∃ b, encodePacket P p = .ok b ∧ decodePacket P b = .ok p
  packet_encode_decode : ∀ (b : Bytes) (p : Packet), decodePacket P b = .ok p →
    encodePacket P p = .ok b
  command_bytes_unique : ∀ (b b' : Bytes) (c : Command), decodeWire P b = .ok c →
    decodeWire P b' = .ok c → b = b'
  digest_input_injective : ∀ (c c' : Command) (b : Bytes), encodeWire P c = .ok b →
    encodeWire P c' = .ok b → c = c'

variable {P : Primitives}

private theorem canonicalWire_of {α : Type} [Wire α] [LawfulWire α] (codec : P.Ciborium)
    {allowed : α → Prop} (constraints : ∀ a, allowed a → LawfulWire.Allowed a)
    (shallow : LawfulWire.depth α ≤ 16) : CanonicalWire P α allowed where
  decode_encode a h := (canonicalWire codec shallow).decode_encode a (constraints a h)
  encode_decode := (canonicalWire codec shallow).encode_decode

/-- Decoding inverts encoding on everything a type allows, and encoding inverts decoding. -/
theorem wire_codec_canonical (codec : P.Ciborium) : CanonicalCodec P where
  u8 := canonicalWire codec (by decide)
  u32 := canonicalWire codec (by decide)
  u64 := canonicalWire codec (by decide)
  bool := canonicalWire codec (by decide)
  string := canonicalWire codec (by decide)
  fixed n := canonicalWire codec (Nat.zero_le 16)
  bytes := canonicalWire codec (by decide)
  lockId := canonicalWire codec (by decide)
  credentialId := canonicalWire codec (by decide)
  subjectKey := canonicalWire codec (by decide)
  boltState := canonicalWire codec (by decide)
  doorState := canonicalWire codec (by decide)
  actuatorKind := canonicalWire codec (by decide)
  fault := canonicalWire codec (by decide)
  completionEvidence := canonicalWire codec (by decide)
  operationPhase := canonicalWire codec (by decide)
  auditKind := canonicalWire codec (by decide)
  firmwarePhase := canonicalWire codec (by decide)
  boltReading := canonicalWire_of codec (fun _ _ _ _ => trivial) (by decide)
  doorReading := canonicalWire_of codec (fun _ _ _ _ => trivial) (by decide)
  boolReading := canonicalWire_of codec (fun _ _ _ _ => trivial) (by decide)
  batteryReading := canonicalWire_of codec (fun _ _ _ _ => trivial) (by decide)
  optionalU32 := canonicalWire_of codec (fun _ _ _ _ => trivial) (by decide)
  optionalU64 := canonicalWire_of codec (fun _ _ _ _ => trivial) (by decide)
  optionalCredential := canonicalWire_of codec (fun _ _ _ _ => trivial) (by decide)
  optionalHardware := canonicalWire_of codec (fun _ _ _ _ => trivial) (by decide)
  optionalOperation := canonicalWire_of codec (fun _ _ _ _ => trivial) (by decide)
  optionalManifest := canonicalWire codec (by decide)
  autoRelock := canonicalWire codec (by decide)
  deviceConfig := canonicalWire codec (by decide)
  operationStatus := canonicalWire codec (by decide)
  lockStatus := canonicalWire codec (by decide)
  deviceInfo := canonicalWire codec (by decide)
  hardwareState := canonicalWire codec (by decide)
  auditEvent := canonicalWire codec (by decide)
  auditPage := canonicalWire codec (by decide)
  firmwareManifest := canonicalWire codec (by decide)
  firmwareStatus := canonicalWire codec (by decide)
  action := canonicalWire codec (by decide)
  command := canonicalWire codec (by decide)
  reply := canonicalWire codec (by decide)
  response := canonicalWire codec (by decide)
  packet_decode_encode p valid fits :=
    have encoded := (encodePacket_eq_ok codec).2 ⟨valid, rfl, fits⟩
    ⟨_, encoded, decodePacket_encodePacket codec encoded⟩
  packet_encode_decode b p := encodePacket_decodePacket
  command_bytes_unique b b' c h h' := by
    have encoded := (canonicalWire codec (by decide)).encode_decode b c h
    have again := (canonicalWire codec (by decide)).encode_decode b' c h'
    exact Except.ok.inj (encoded.symm.trans again)
  digest_input_injective c c' b := encodeWire_injective codec (by decide)

theorem wire_codec_canonical_minimal :
    CanonicalCodec (minimalPrimitives fun _ _ _ => false) :=
  wire_codec_canonical (minimalPrimitives_ciborium _)

section Documented

/-- `Response::parse` takes the value. -/
def Response.Accepted (v : Value) : Prop := ∃ r : Response, Wire.parse v = .ok r

private theorem response_iff (L : Grammar.Limits) (v : Value) :
    Grammar.response L v ↔ ∃ r : Response, Wire.parse v = .ok r ∧ r.Restrained L := by
  simp only [Grammar.describes_response L v, LawfulWire.parse_eq_ok, and_assoc]

private theorem accepted_iff (v : Value) : Response.Accepted v ↔ Grammar.response .parsed v := by
  rw [response_iff]
  constructor
  · rintro ⟨r, parsed⟩
    have allowed : LawfulWire.Allowed r := (LawfulWire.parse_eq_ok.1 parsed).2
    exact ⟨r, parsed, Grammar.restrained_parsed allowed.1⟩
  · rintro ⟨r, parsed, _⟩
    exact ⟨r, parsed⟩

/-- What is accepted is a grammar of its own, and contains every documented response. The two
agree on a value exactly when, if it is of the parser's grammar, its batteries are percentages,
its operation records name opcodes, and an operation record answers a recorded mutation or the
operation query. -/
theorem documented_responses_accepted (v : Value) :
    (Response.Accepted v ↔ Grammar.response .parsed v)
      ∧ (Grammar.response .documented v → Response.Accepted v)
      ∧ ((Response.Accepted v ↔ Grammar.response .documented v) ↔
          (Grammar.response .parsed v → Grammar.restrained v)) := by
  have accepted : Grammar.response .documented v → Response.Accepted v := by
    rw [response_iff]
    rintro ⟨r, parsed, _⟩
    exact ⟨r, parsed⟩
  refine ⟨accepted_iff v, accepted, ?_, ?_⟩
  · intro same taken
    obtain ⟨r, parsed, restrained⟩ := (response_iff _ v).1 (same.1 ((accepted_iff v).2 taken))
    obtain ⟨rfl, _⟩ := LawfulWire.parse_eq_ok.1 parsed
    exact Grammar.restrained_value.2 restrained
  · intro restrained
    refine ⟨?_, accepted⟩
    rintro ⟨r, parsed⟩
    have held := restrained ((accepted_iff v).1 ⟨r, parsed⟩)
    obtain ⟨rfl, _⟩ := LawfulWire.parse_eq_ok.1 parsed
    exact (response_iff _ _).2 ⟨r, parsed, Grammar.restrained_value.1 held⟩

namespace Lenient
variable {r : Response}

/-- A completed operation with a chosen opcode. -/
def operation (opcode : UInt8) : OperationStatus :=
  ⟨⟨Vector.replicate 16 1⟩, 1, opcode, .completed, .none, 0⟩

/-- A Status query answered by an operation record that names Status. -/
def misplaced : Response := ⟨1, .ok (.operation (operation 1))⟩

/-- An Operation query answered by a record of an opcode that does not exist. -/
def unnamed : Response := ⟨5, .ok (.operation (operation 255))⟩

/-- A battery at 200 percent. -/
def overcharged : Response := ⟨1, .ok (.status
  ⟨.known .locked, .known .closed, .unsupported, .known 200, .none, none, 1, 0, 1, 1, true⟩)⟩

private theorem accepted (valid : validateResponse r = .ok ())
    (bounded : ∀ reply, r.result = .ok reply → reply.Bounded) :
    Response.Accepted (Wire.value r) := by
  have allowed : LawfulWire.Allowed r := ⟨valid, bounded⟩
  exact ⟨r, LawfulWire.parse_eq_ok.2 ⟨rfl, allowed⟩⟩

private theorem undocumented (stray : ¬ r.Restrained .documented) :
    ¬ Grammar.response .documented (Wire.value r) := by
  rw [Grammar.describes_response]
  rintro ⟨r', same, _, restrained⟩
  cases LawfulWire.value_injective same
  exact stray restrained

theorem undocumented_accepted :
    (Response.Accepted (Wire.value misplaced)
      ∧ ¬ Grammar.response .documented (Wire.value misplaced))
    ∧ (Response.Accepted (Wire.value unnamed)
      ∧ ¬ Grammar.response .documented (Wire.value unnamed))
    ∧ Response.Accepted (Wire.value overcharged)
      ∧ ¬ Grammar.response .documented (Wire.value overcharged) := by
  refine ⟨⟨accepted rfl ?_, undocumented fun restrained => ?_⟩,
    ⟨accepted rfl ?_, undocumented fun restrained => ?_⟩,
    ⟨accepted rfl ?_, undocumented fun restrained => ?_⟩⟩
  · rintro _ ⟨⟩
    trivial
  · exact absurd (restrained _ rfl).2 (by decide)
  · rintro _ ⟨⟩
    trivial
  · exact absurd (restrained _ rfl).1 (by decide : ¬ (255 : UInt8) ≤ 22)
  · rintro _ ⟨⟩
    trivial
  · exact absurd ((restrained _ rfl).battery 200 rfl) (by decide)

end Lenient
end Documented

end OpenLock
