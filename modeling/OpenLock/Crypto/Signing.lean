import OpenLock.Crypto.Canonical
import OpenLock.Crypto.Cose

/-! The signing side of `cose.rs`, `firmware.rs` and `trust.rs`, and what each reader of
a signed object accepts. -/
namespace OpenLock
open Cbor
variable {v : Value}

/-- An Ed25519 signing key: its public half and what it makes of a message. -/
structure SigningKey where
  verifyingKey : VerifyingKey
  sign : Bytes → Vector UInt8 64

section Signers
variable (P : Primitives)

def signObject (key : SigningKey) (kind : Bytes) (payload : Value) : Except Error Bytes := do
  let payload ← encode P payload
  let header ← encode P protectedHeader
  let signature := key.sign (← encode P (signedStructure kind header payload))
  encode P (.array [.bytes header, .map [], .bytes payload, .bytes signature.toList])

def grantValue (g : Grant) : Value :=
  .array [uint credentialVersion, .text "grant", .bytes g.credentialId.bytes.toList,
    .bytes g.lockId.bytes.toList, .bytes g.subjectKey.bytes.toList, uint g.rights.toUInt64,
    uint g.epoch,
    match g.validity with
    | none => .null
    | some v => .array [uint v.notBefore, uint v.notAfter],
    match g.maxUses with
    | none => .null
    | some n => uint n.toUInt64]

def signGrant (key : SigningKey) (g : Grant) : Except Error Bytes := do
  validateGrant g
  signObject P key grantDomain (grantValue g)

def signPolicy (key : SigningKey) (p : PolicyUpdate) : Except Error Bytes :=
  signObject P key policyDomain (policyValue p)

def signManifest (key : SigningKey) (m : FirmwareManifest) : Except Error Bytes := do
  validateManifest m
  signObject P key firmwareDomain (Wire.value m)

def signDeviceKey (issuer : SigningKey) (key : DeviceKey) (issuerKeyId : UInt32) :
    Except Error DeviceKeyRecord := do
  validateDeviceKey P key
  pure ⟨key, issuerKeyId, ← signObject P issuer deviceDomain (deviceKeyValue key issuerKeyId)⟩

/-- `sign_key_update` and `sign_key_update_with_key`, which have the same body. -/
def signKeyUpdate (key : SigningKey) (u : KeyUpdate) : Except Error KeyUpdate := do
  validateKeyUpdate P u
  pure { u with signature := ← signObject P key updateDomain (keyUpdateValue u) }

/-- Full transport object: the signed update and the independently signed new record. -/
def encodeKeyUpdate (u : KeyUpdate) : Except Error Bytes :=
  encode P (.array [.bytes u.signature, .bytes u.newRecord.signature])

/-- Parse the signed device-key payload, whose version remains 2. -/
def parseDeviceKeyValue (v : Value) : Except Error (DeviceKey × UInt32) := do
  match ← fields v 8 with
  | [version, device, keyId, keyVersion, x25519, rotation, capabilities, issuerKeyId] => do
    failIf ((← number version) ≠ 2) .unsupportedVersion
    let key : DeviceKey := ⟨⟨← fixed 16 device⟩, ← u32Value keyId, ← u32Value keyVersion,
      ← fixed 32 x25519, ← fixed 32 rotation, ← number capabilities⟩
    validateDeviceKey P key
    pure (key, ← u32Value issuerKeyId)
  | _ => .error .invalidPayload

/-- Sign the independently versioned device and key-update payloads for SDKs. -/
def signTrustPayload (key : SigningKey) (kind : UInt32) (v : Value) : Except Error Bytes :=
  if kind = 3 then do
    let (device, issuerId) ← parseDeviceKeyValue P v
    pure (← signDeviceKey P key device issuerId).signature
  else if kind = 4 then do
    match ← fields v 6 with
    | [version, oldKeyId, record, notBefore, retireAfter, issuerKeyId] => do
      failIf ((← number version) ≠ 2) .unsupportedVersion
      let _ ← u32Value oldKeyId
      let _ ← parseDeviceKeyValue P record
      let _ ← optionalU32 issuerKeyId
      failIf ((← number notBefore) ≥ (← number retireAfter)) .invalidPayload
      signObject P key updateDomain v
    | _ => .error .invalidPayload
  else .error .invalidPayload

end Signers

section Shapes

theorem optionalU32_eq_ok {o : Option UInt32} : optionalU32 v = .ok o ↔ Wire.value o = v := by
  have h : optionalU32 v = Wire.parse v := rfl
  rw [h, LawfulWire.parse_eq_ok]
  exact ⟨And.left, fun same => ⟨same, fun _ _ => trivial⟩⟩

private theorem parseValidity_eq_ok {o : Option Validity} : parseValidity v = .ok o ↔
      (match o with
        | none => .null
        | some w => .array [uint w.notBefore, uint w.notAfter]) = v := by
  unfold parseValidity
  split
  · rename_i null
    subst null
    cases o <;> simp
  · rename_i timed
    simp only [bind_eq_ok, fields_eq_ok]
    constructor
    · rintro ⟨ws, ⟨rfl, len⟩, h⟩
      obtain _ | ⟨x, _ | ⟨y, _ | _⟩⟩ := ws <;>
        cases len
      simp only [bind_eq_ok, number_eq_ok, pure_eq_ok] at h
      obtain ⟨_, rfl, _, rfl, rfl⟩ := h
      rfl
    · rintro rfl
      cases o with
      | none => exact absurd rfl timed
      | some w =>
        refine ⟨_, ⟨rfl, rfl⟩, ?_⟩
        simp only [bind_eq_ok, number_eq_ok, pure_eq_ok]
        exact ⟨w.notBefore, rfl, w.notAfter, rfl, rfl⟩

/-- A grant is read exactly from its own value, and only if it is valid. -/
theorem parseGrant_eq_ok {g : Grant} :
    parseGrant v = .ok g ↔ grantValue g = v ∧ validateGrant g = .ok () := by
  refine record_eq_ok rfl fun ws len => ?_
  obtain _ | ⟨x0, _ | ⟨x1, _ | ⟨x2, _ | ⟨x3, _ | ⟨x4, _ | ⟨x5, _ | ⟨x6, _ | ⟨x7, _ | ⟨x8, _ | _⟩⟩⟩⟩⟩⟩⟩⟩⟩ := ws <;>
    cases len
  simp only [bind_eq_ok, number_eq_ok, u32Value_eq_ok, fixed_eq_ok, optionalU32_eq_ok,
    parseValidity_eq_ok, failIf_eq_ok, pure_eq_ok, not_or, not_not]
  constructor
  · rintro ⟨_, rfl, _, ⟨rfl, rfl⟩, validity, rfl, id, rfl, lock, rfl, subject, rfl, rights, rfl,
      epoch, rfl, uses, rfl, _, valid, rfl⟩
    exact ⟨by cases uses <;> rfl, valid⟩
  · rintro ⟨same, valid⟩
    cases same
    refine ⟨_, rfl, (), ⟨rfl, rfl⟩, g.validity, rfl, _, rfl, _, rfl, _, rfl, _, rfl, _, rfl,
      g.maxUses, ?_, (), valid, rfl⟩
    cases g.maxUses <;> rfl

private theorem mapM_fixed_eq_ok {vs : List Value} {ids : List CredentialId} :
    (vs.mapM fun v => CredentialId.mk <$> fixed 16 v) = .ok ids ↔
      ids.map (fun id => .bytes id.bytes.toList) = vs := by
  have h : vs.mapM Wire.parse = .ok ids ↔
      ids.map Wire.value = vs ∧ ∀ id ∈ ids, LawfulWire.Allowed id := mapM_parse_eq_ok
  exact h.trans ⟨And.left, fun same => ⟨same, fun _ _ => trivial⟩⟩

private theorem ofList_toList (s : CredentialSet) : Std.ExtTreeSet.ofList s.toList = s := by
  apply Std.ExtTreeSet.ext_mem
  intro id
  simp

/-- A policy is read exactly from its own value: the identifiers in their order, each once. -/
theorem parsePolicy_eq_ok {p : PolicyUpdate} : parsePolicy v = .ok p ↔ policyValue p = v := by
  constructor
  · intro h
    simp only [parsePolicy, bind_eq_ok, fields_eq_ok] at h
    obtain ⟨ws, ⟨rfl, _⟩, h⟩ := h
    split at h
    · simp only [bind_eq_ok, failIf_eq_ok, pure_eq_ok, not_not] at h
      obtain ⟨_, _, _, _, _, _, _, _, _, _, _, _, _, same, rfl⟩ := h
      exact same
    · simp at h
    · cases h
  · rintro rfl
    simp only [parsePolicy, policyValue, bind_eq_ok, fields_eq_ok]
    refine ⟨_, ⟨rfl, rfl⟩, ?_⟩
    simp only [bind_eq_ok, number_eq_ok, fixed_eq_ok, mapM_fixed_eq_ok, failIf_eq_ok, pure_eq_ok,
      not_or, not_not]
    exact ⟨_, rfl, (), ⟨rfl, trivial⟩, _, rfl, _, rfl, _, rfl, _, rfl, (),
      by simp [ofList_toList], by rw [ofList_toList]⟩

variable {P : Primitives} {issuer : VerifyingKey} {r : DeviceKeyRecord}

theorem parseUpdatedKey_eq_ok {v w : Value} : parseUpdatedKey v w = .ok r ↔
      deviceKeyValue r.key r.issuerKeyId = v ∧ .bytes r.signature = w := by
  refine record_eq_ok rfl fun ws len => ?_
  obtain _ | ⟨x0, _ | ⟨x1, _ | ⟨x2, _ | ⟨x3, _ | ⟨x4, _ | ⟨x5, _ | ⟨x6, _ | ⟨x7, _ | _⟩⟩⟩⟩⟩⟩⟩⟩ := ws <;>
    cases len
  simp only [bind_eq_ok, number_eq_ok, u32Value_eq_ok, fixed_eq_ok, data_eq_ok, failIf_eq_ok,
    pure_eq_ok, not_not]
  constructor
  · rintro ⟨_, rfl, _, rfl, id, rfl, _, rfl, _, rfl, _, rfl, _, rfl, _, rfl, _, rfl, _, rfl, rfl⟩
    exact ⟨rfl, rfl⟩
  · rintro ⟨same, rfl⟩
    cases same
    exact ⟨_, rfl, (), rfl, _, rfl, _, rfl, _, rfl, _, rfl, _, rfl, _, rfl, _, rfl, _, rfl, rfl⟩

theorem parseDeviceKeyValue_eq_ok {key : DeviceKey} {id : UInt32} :
    parseDeviceKeyValue P v = .ok (key, id) ↔
      deviceKeyValue key id = v ∧ validateDeviceKey P key = .ok () := by
  refine record_eq_ok rfl fun ws len => ?_
  obtain _ | ⟨x0, _ | ⟨x1, _ | ⟨x2, _ | ⟨x3, _ | ⟨x4, _ | ⟨x5, _ | ⟨x6, _ | ⟨x7, _ | _⟩⟩⟩⟩⟩⟩⟩⟩ := ws <;>
    cases len
  simp only [bind_eq_ok, number_eq_ok, u32Value_eq_ok, fixed_eq_ok, failIf_eq_ok, pure_eq_ok,
    not_not]
  constructor
  · rintro ⟨_, rfl, _, rfl, _, rfl, _, rfl, _, rfl, _, rfl, _, rfl, _, rfl, _, valid, _, rfl,
      same⟩
    cases same
    exact ⟨rfl, valid⟩
  · rintro ⟨same, valid⟩
    cases same
    exact ⟨_, rfl, (), rfl, _, rfl, _, rfl, _, rfl, _, rfl, _, rfl, _, rfl, (), valid, _, rfl,
      rfl⟩

/-- A device-key record is accepted when its key is valid and the issuer signed its value. -/
theorem verifyDeviceKey_eq_ok :
    verifyDeviceKey P issuer r = .ok () ↔ validateDeviceKey P r.key = .ok () ∧
      verifyObject P issuer deviceDomain r.signature
        = .ok (deviceKeyValue r.key r.issuerKeyId) := by
  simp only [verifyDeviceKey, bind_eq_ok, fields_eq_ok]
  constructor
  · rintro ⟨_, valid, v, verified, ws, ⟨rfl, len⟩, h⟩
    obtain _ | ⟨x0, _ | ⟨x1, _ | ⟨x2, _ | ⟨x3, _ | ⟨x4, _ | ⟨x5, _ | ⟨x6, _ | ⟨x7, _ | _⟩⟩⟩⟩⟩⟩⟩⟩ := ws <;>
      cases len
    simp only [bind_eq_ok, number_eq_ok, u32Value_eq_ok, fixed_eq_ok, failIf_eq_ok,
      not_not] at h
    obtain ⟨_, rfl, _, rfl, _, rfl, _, rfl, _, rfl, _, rfl, _, rfl, _, rfl, _, rfl, _, rfl, _,
      rfl, _, rfl, _, rfl, _, rfl, _, rfl, rfl⟩ := h
    exact ⟨valid, verified⟩
  · rintro ⟨valid, verified⟩
    refine ⟨(), valid, _, verified, _, ⟨rfl, rfl⟩, ?_⟩
    simp only [bind_eq_ok, number_eq_ok, u32Value_eq_ok, fixed_eq_ok, failIf_eq_ok, not_not]
    exact ⟨_, rfl, (), rfl, _, rfl, (), rfl, _, rfl, (), rfl, _, rfl, (), rfl, _, rfl, (), rfl, _,
      rfl, (), rfl, _, rfl, (), rfl, _, rfl, rfl⟩

theorem ClockSample.validate_eq_ok {c c' : ClockSample} :
    c.validate = .ok c' ↔ c.lower ≤ c.upper ∧ c = c' := by
  unfold ClockSample.validate
  split
  · rename_i h
    exact ⟨fun h => (by cases h), fun h' => absurd h'.1 (UInt64.not_le.2 h)⟩
  · rename_i h
    simp [UInt64.not_lt.1 h]

/-- What `read_key_update` accepts, all its checks in one place. -/
theorem readKeyUpdate_eq_ok {old : DeviceKey} {input : Bytes} {now : ClockSample} {u : KeyUpdate} :
    readKeyUpdate P issuer old input now = .ok u ↔
      now.lower ≤ now.upper ∧
      decode P input = .ok (.array [.bytes u.signature, .bytes u.newRecord.signature]) ∧
      P.isPoint old.rotationPublicKey = true ∧
      verifyUpdate P issuer ⟨old.rotationPublicKey⟩ u.signature
        = .ok (keyUpdateValue u, u.issuerKeyId.isSome) ∧
      validateKeyUpdate P u = .ok () ∧ verifyDeviceKey P issuer u.newRecord = .ok () ∧
      u.oldKeyId = old.keyId ∧ u.newRecord.key.deviceId = old.deviceId ∧
      old.keyVersion < u.newRecord.key.keyVersion ∧
      u.notBefore ≤ now.lower ∧ now.upper < u.retireAfter := by
  simp only [readKeyUpdate, bind_eq_ok, fields_eq_ok, ClockSample.validate_eq_ok]
  constructor
  · rintro ⟨_, ordered, outer, read, parts, ⟨rfl, len⟩, h⟩
    obtain _ | ⟨x, _ | ⟨y, _ | _⟩⟩ := parts <;>
      cases len
    simp only [bind_eq_ok, data_eq_ok, VerifyingKey.fromBytes_eq_ok, fields_eq_ok] at h
    obtain ⟨signature, rfl, _, ⟨point, rfl⟩, ⟨v, root⟩, verified, ws, ⟨rfl, len⟩, h⟩ := h
    obtain _ | ⟨x0, _ | ⟨x1, _ | ⟨x2, _ | ⟨x3, _ | ⟨x4, _ | ⟨x5, _ | _⟩⟩⟩⟩⟩⟩ := ws <;>
      cases len
    simp only [bind_eq_ok, number_eq_ok, u32Value_eq_ok, parseUpdatedKey_eq_ok,
      optionalU32_eq_ok, failIf_eq_ok, pure_eq_ok, not_or, not_not, UInt32.not_le,
      UInt64.not_lt, ge_iff_le, UInt64.not_le] at h
    obtain ⟨_, _, _, _, record, ⟨_, rfl⟩, _, _, _, _, _, _, _, _, _, ⟨root, same⟩, _, valid, _,
      signed, _, stale, rfl⟩ := h
    rw [← same, root] at verified
    exact ⟨ordered.1, read, point, verified, valid, signed, stale⟩
  · rintro ⟨ordered, read, point, verified, valid, signed, stale⟩
    refine ⟨_, ⟨ordered, rfl⟩, _, read, _, ⟨rfl, rfl⟩, ?_⟩
    simp only [bind_eq_ok, data_eq_ok, VerifyingKey.fromBytes_eq_ok, fields_eq_ok]
    refine ⟨_, rfl, _, ⟨point, rfl⟩, _, verified, _, ⟨rfl, rfl⟩, ?_⟩
    simp only [bind_eq_ok, number_eq_ok, u32Value_eq_ok, parseUpdatedKey_eq_ok,
      optionalU32_eq_ok, failIf_eq_ok, pure_eq_ok, not_or, not_not, UInt32.not_le,
      UInt64.not_lt, ge_iff_le, UInt64.not_le]
    refine ⟨_, rfl, (), rfl, u.newRecord, ⟨rfl, rfl⟩, _, rfl, _, rfl, _, rfl, u.issuerKeyId, ?_, (),
      ⟨rfl, rfl⟩, (), valid, (), signed, (), stale, rfl⟩
    cases u.issuerKeyId <;> rfl

end Shapes

section Messages
variable {P : Primitives} {kind cose : Bytes}

theorem signatureFromSlice_eq_ok {b : Bytes} {s : Vector UInt8 64} :
    signatureFromSlice b = .ok s ↔ s.toList = b := by
  unfold signatureFromSlice
  constructor
  · intro h
    split at h
    · cases h
      rfl
    · cases h
  · rintro rfl
    rw [dif_pos s.length_toList]
    rfl

/-- The bytes that are signed for a payload of one kind. -/
def signedMessage (kind : Bytes) (payload : Value) : Bytes :=
  (signedStructure kind protectedHeader.write payload.write).write

theorem within_protectedHeader : protectedHeader.Within 16 := by
  intro kv mem
  rw [List.mem_singleton.1 mem]
  exact ⟨within_uint 1 15, by decide, by decide⟩

theorem within_signedStructure (kind header payload : Bytes) :
    (signedStructure kind header payload).Within 16 :=
  within_cons (α := String) (by decide) (within_cons (α := Bytes) (by decide)
    (within_cons (α := Bytes) (by decide) (within_cons (α := Bytes) (by decide) within_nil)))

/-- The COSE object around a payload and its signature. -/
def coseValue (payload : Value) (signature : Vector UInt8 64) : Value :=
  .array [.bytes protectedHeader.write, .map [], .bytes payload.write, .bytes signature.toList]

theorem within_cose (header payload signature : Bytes) :
    (Value.array [.bytes header, .map [], .bytes payload, .bytes signature]).Within 16 := by
  have unprotected : (Value.map []).Within 15 := by
    intro kv mem
    cases mem
  exact within_cons (α := Bytes) (by decide) (within_head unprotected
    (within_cons (α := Bytes) (by decide) (within_cons (α := Bytes) (by decide) within_nil)))

/-- Whoever accepts a shallow payload holds a signature over its canonical encoding, and
the bytes are the canonical object around the two. -/
theorem verifyObject_signed (codec : P.Ciborium) {key : VerifyingKey} (shallow : v.Within 16)
    (h : verifyObject P key kind cose = .ok v) :
    ∃ s, P.verifyStrict key (signedMessage kind v) s = true ∧ cose = (coseValue v s).write := by
  simp only [verifyObject, openObject, bind_eq_ok, failIf_eq_ok, not_not] at h
  obtain ⟨⟨payload, message, s⟩, ⟨object, decoded, opened⟩, _, verified, read⟩ := h
  split at opened
  · simp only [bind_eq_ok, data_eq_ok, failIf_eq_ok, not_or, not_not, signatureFromSlice_eq_ok,
      pure_eq_ok] at opened
    obtain ⟨header, rfl, expected, encoded, _, ⟨rfl, rfl⟩, _, rfl, _, rfl, _, rfl, _, structured,
      same⟩ := opened
    cases same
    obtain ⟨rfl, _⟩ := (encodeLimit_eq_ok codec within_protectedHeader).1 encoded
    obtain ⟨rfl, _⟩ := (encodeLimit_eq_ok codec (within_signedStructure _ _ _)).1 structured
    obtain ⟨rfl, _⟩ := (encodeLimit_eq_ok codec shallow).1 (encodeLimit_of_decodeLimit read)
    obtain ⟨rfl, _⟩ :=
      (encodeLimit_eq_ok codec (within_cose _ _ _)).1 (encodeLimit_of_decodeLimit decoded)
    exact ⟨s, verified, rfl⟩
  · cases opened

theorem length_coseValue (v : Value) (s : Vector UInt8 64) :
    (coseValue v s).write.length ≤ v.write.length + 81 := by
  have header : protectedHeader.write.length = 3 := by decide
  have long := headLength_le v.write.length
  simp only [coseValue, Value.write, Value.writeList, Value.writePairs, List.length_append,
    length_head, header, Vector.length_toList, List.length_cons, List.length_nil,
    show headLength 4 = 1 from rfl, show headLength 3 = 1 from rfl, show headLength 0 = 1 from rfl,
    show headLength 64 = 2 from rfl]
  omega

/-- The verifier accepts every signature of the key. -/
def SigningKey.Genuine (P : Primitives) (key : SigningKey) : Prop :=
  ∀ m, P.verifyStrict key.verifyingKey m (key.sign m) = true

private theorem openObject_cose (codec : P.Ciborium) {kind : Bytes} {signature : Vector UInt8 64}
    (header : protectedHeader.write.length ≤ maxObjectSize)
    (structured : (signedMessage kind v).length ≤ maxObjectSize)
    (fits : (coseValue v signature).write.length ≤ maxObjectSize) :
    openObject P kind (coseValue v signature).write
      = .ok (v.write, signedMessage kind v, signature) := by
  simp only [openObject, decode, bind_eq_ok]
  refine ⟨_, decodeLimit_write codec (within_cose _ _ _) fits (by decide), ?_⟩
  simp only [coseValue, bind_eq_ok, data_eq_ok, encode,
    encodeLimit_eq_ok codec within_protectedHeader,
    encodeLimit_eq_ok codec (within_signedStructure _ _ _), failIf_eq_ok,
    signatureFromSlice_eq_ok, pure_eq_ok, not_or, not_not]
  exact ⟨_, rfl, _, ⟨rfl, header⟩, (), ⟨rfl, trivial⟩, _, rfl, _, rfl, _, rfl, _,
    ⟨rfl, structured⟩, rfl⟩

/-- What a key signs, its public half accepts and returns. -/
theorem verifyObject_signObject (codec : P.Ciborium) {key : SigningKey} (genuine : key.Genuine P)
    (shallow : v.Within 16) (h : signObject P key kind v = .ok cose) :
    verifyObject P key.verifyingKey kind cose = .ok v := by
  simp only [signObject, bind_eq_ok, encode, encodeLimit_eq_ok codec shallow,
    encodeLimit_eq_ok codec within_protectedHeader,
    encodeLimit_eq_ok codec (within_signedStructure _ _ _)] at h
  obtain ⟨_, ⟨rfl, small⟩, _, ⟨rfl, header⟩, _, ⟨rfl, structured⟩, encoded⟩ := h
  rw [encodeLimit_eq_ok codec (within_cose _ _ _)] at encoded
  obtain ⟨rfl, fits⟩ := encoded
  have opened := openObject_cose codec header structured fits
  simp only [coseValue] at opened
  simp only [verifyObject, opened, bind_eq_ok, Except.ok.injEq, failIf_eq_ok, not_not]
  exact ⟨_, rfl, (), genuine _, decodeLimit_write codec shallow small (by decide)⟩

end Messages
end OpenLock
