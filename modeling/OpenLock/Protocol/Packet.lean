import OpenLock.Crypto.Canonical

/-! The outer message envelope of `openlock-protocol`. -/
namespace OpenLock
open Cbor

def protocolVersion : UInt64 := 4
def profile : UInt64 := 1

def kindHandshake : UInt8 := 0
def kindRequest : UInt8 := 1
def kindResponse : UInt8 := 2

structure Packet where
  kind : UInt8
  requestId : UInt32
  capabilities : UInt64
  payload : Bytes
  deriving DecidableEq

def Packet.validate (p : Packet) : Except Error Unit := do
  failIf (p.kind > kindResponse ∨ p.payload.isEmpty
    ∨ p.capabilities &&& ~~~knownCapabilities ≠ 0) .invalidPayload
  if p.kind = kindHandshake then
    failIf (p.requestId ≠ 0 ∨ p.capabilities ≠ 0) .invalidPayload
  else failIf (p.requestId = 0 ∨ p.capabilities = 0) .invalidPayload

def packetValue (p : Packet) : Value :=
  .array [uint protocolVersion, uint profile, uint p.kind.toUInt64, uint p.requestId.toUInt64,
    uint p.capabilities, .bytes p.payload]

def encodePacket (P : Primitives) (p : Packet) : Except Error Bytes := do
  p.validate
  encodeLimit P (packetValue p) maxMessageSize

/-- `decode_packet` behind the CBOR reader. -/
def parsePacket (v : Value) : Except Error Packet := do
  match ← fields v 6 with
  | [version, profileField, kind, requestId, capabilities, payload] => do
    failIf ((← number version) ≠ protocolVersion) .unsupportedVersion
    failIf ((← number profileField) ≠ profile) .unsupportedVersion
    let kind ← u32Value kind
    failIf (kind > kindResponse.toUInt32) .invalidPayload
    let requestId ← u32Value requestId
    let capabilities ← number capabilities
    let payload ← data payload
    let packet : Packet := ⟨kind.toUInt8, requestId, capabilities, payload⟩
    packet.validate
    pure packet
  | _ => .error .invalidPayload

def decodePacket (P : Primitives) (bytes : Bytes) : Except Error Packet := do
  parsePacket (← decodeLimit P bytes maxMessageSize)

variable {P : Primitives} {p : Packet} {b : Bytes}

private theorem toUInt8_small {k : UInt32} (h : ¬ k > kindResponse.toUInt32) :
    k.toUInt8.toUInt64 = k.toUInt64 := by
  have bound : k.toNat ≤ 2 := UInt32.le_iff_toNat_le.1 (UInt32.not_lt.1 h)
  apply UInt64.toNat_inj.1
  rw [UInt8.toNat_toUInt64, UInt32.toNat_toUInt64, UInt32.toNat_toUInt8]
  omega

theorem Packet.kind_le (valid : p.validate = .ok ()) : p.kind ≤ kindResponse := by
  simp only [Packet.validate, bind_eq_ok, failIf_eq_ok, not_or] at valid
  obtain ⟨_, known, _⟩ := valid
  exact UInt8.not_lt.1 known.1

/-- A packet is read exactly from its own value, and only if it is valid. -/
theorem parsePacket_eq_ok {v : Value} :
    parsePacket v = .ok p ↔ packetValue p = v ∧ p.validate = .ok () := by
  refine record_eq_ok rfl fun ws len => ?_
  obtain _ | ⟨x0, _ | ⟨x1, _ | ⟨x2, _ | ⟨x3, _ | ⟨x4, _ | ⟨x5, _ | _⟩⟩⟩⟩⟩⟩ := ws <;>
    cases len
  simp only [bind_eq_ok, number_eq_ok, u32Value_eq_ok, data_eq_ok, failIf_eq_ok, pure_eq_ok,
    not_not]
  constructor
  · rintro ⟨_, rfl, _, rfl, _, rfl, _, rfl, kind, rfl, _, low, id, rfl, caps, rfl, payload, rfl,
      _, valid, rfl⟩
    rw [toUInt8_small low]
    exact ⟨rfl, valid⟩
  · rintro ⟨same, valid⟩
    cases same
    refine ⟨_, rfl, (), rfl, _, rfl, (), rfl, p.kind.toUInt32, by simp, (), ?_, _, rfl, _, rfl, _,
      rfl, (), ?_, ?_⟩
    · rw [gt_iff_lt, UInt32.not_lt, UInt32.le_iff_toNat_le]
      exact UInt8.le_iff_toNat_le.1 (Packet.kind_le valid)
    · simpa using valid
    · simp

theorem within_packetValue (p : Packet) : (packetValue p).Within 1 :=
  within_cons (α := UInt64) (by decide) (within_cons (α := UInt64) (by decide)
    (within_cons (α := UInt8) (by decide) (within_cons (α := UInt32) (by decide)
      (within_cons (α := UInt64) (by decide) (within_cons (α := Bytes) (by decide) within_nil)))))

theorem encodePacket_eq_ok (codec : P.Ciborium) : encodePacket P p = .ok b ↔
      p.validate = .ok () ∧ (packetValue p).write = b ∧ b.length ≤ maxMessageSize := by
  simp only [encodePacket, bind_eq_ok,
    encodeLimit_eq_ok codec ((within_packetValue p).mono (by decide))]
  constructor
  · rintro ⟨_, h⟩
    exact h
  · intro h
    exact ⟨(), h⟩

/-- Whether a packet can be made, and its size, depend only on the length of its payload. -/
theorem encodePacket_length (codec : P.Ciborium) {b payload : Bytes} (h : encodePacket P p = .ok b)
    (same : payload.length = p.payload.length) :
    ∃ b', encodePacket P { p with payload } = .ok b' ∧ b'.length = b.length := by
  obtain ⟨valid, rfl, fits⟩ := (encodePacket_eq_ok codec).1 h
  have size : (packetValue { p with payload }).write.length = (packetValue p).write.length := by
    simp only [packetValue, Value.write, Value.writeList, List.length_append, List.length_cons,
      List.length_nil, length_head, same]
  refine ⟨_, (encodePacket_eq_ok codec).2 ⟨?_, rfl, size ▸ fits⟩, size⟩
  · have empty : payload.isEmpty = p.payload.isEmpty := by
      rw [Bool.eq_iff_iff, List.isEmpty_iff_length_eq_zero, List.isEmpty_iff_length_eq_zero, same]
    rw [← valid]
    simp only [Packet.validate, empty]

theorem decodePacket_encodePacket (codec : P.Ciborium) (h : encodePacket P p = .ok b) :
    decodePacket P b = .ok p := by
  obtain ⟨valid, rfl, fits⟩ := (encodePacket_eq_ok codec).1 h
  simp only [decodePacket, bind_eq_ok]
  exact ⟨_, decodeLimit_write codec ((within_packetValue p).mono (by decide)) fits (by decide),
    parsePacket_eq_ok.2 ⟨rfl, valid⟩⟩

theorem encodePacket_decodePacket (h : decodePacket P b = .ok p) : encodePacket P p = .ok b := by
  simp only [decodePacket, bind_eq_ok, parsePacket_eq_ok] at h
  obtain ⟨v, read, rfl, valid⟩ := h
  simp only [encodePacket, bind_eq_ok]
  exact ⟨(), valid, encodeLimit_of_decodeLimit read⟩

end OpenLock
