import OpenLock.Crypto.Wire

/-! Signed objects: grants, policies, manifests, device keys and key updates
(`cose.rs`, `firmware.rs`, `trust.rs`), as the controller reads them. -/
namespace OpenLock
open Cbor

variable (P : Primitives)

/-- `VerifyingKey::from_bytes`, with the caller's error for an invalid point. -/
def VerifyingKey.fromBytes (b : Bytes32) (e : Error) : Except Error VerifyingKey :=
  if P.isPoint b then .ok ⟨b⟩ else .error e

@[simp] theorem VerifyingKey.fromBytes_eq_ok {b : Bytes32} {e : Error} {k : VerifyingKey} :
    VerifyingKey.fromBytes P b e = .ok k ↔ P.isPoint b = true ∧ k = ⟨b⟩ := by
  unfold VerifyingKey.fromBytes
  split
  · rename_i h
    exact ⟨fun hk => ⟨h, (Except.ok.inj hk).symm⟩, fun hk => by rw [hk.2]⟩
  · rename_i h
    exact ⟨(nomatch ·), fun hk => absurd hk.1 h⟩

/-- ASCII domain strings. -/
private def ascii (s : String) : Bytes := s.toList.map fun c => UInt8.ofNat c.toNat

def grantDomain : Bytes := ascii "openlock:v2:grant"
def policyDomain : Bytes := ascii "openlock:v2:policy"
def firmwareDomain : Bytes := ascii "openlock:v4:firmware"
def deviceDomain : Bytes := ascii "openlock:v2:device-key"
def updateDomain : Bytes := ascii "openlock:v2:key-update"

/-- `protected()`: the COSE header naming EdDSA. -/
def protectedHeader : Value := .map [(uint 1, .integer (-8))]

def signedStructure (kind header payload : Bytes) : Value :=
  .array [.text "Signature1", .bytes header, .bytes kind, .bytes payload]

def signatureFromSlice (b : Bytes) : Except Error (Vector UInt8 64) :=
  if h : b.length = 64 then .ok ⟨b.toArray, by simpa using h⟩ else .error .invalidCose

/-- Everything of `verify_object` before the signature is checked: the payload and
signature carried by the bytes, with the message that must have been signed. -/
def openObject (kind cose : Bytes) :
    Except Error (Bytes × Bytes × Vector UInt8 64) := do
  let object ← decode P cose
  match object with
  | .array [header, unprotected, payload, signature] => do
    let header ← data header
    let expected ← encode P protectedHeader
    failIf (header ≠ expected ∨ unprotected ≠ .map []) .invalidCose
    let payload ← data payload
    let signature ← signatureFromSlice (← data signature)
    let message ← encode P (signedStructure kind header payload)
    pure (payload, message, signature)
  | _ => .error .invalidCose

def verifyObject (key : VerifyingKey) (kind cose : Bytes) : Except Error Value := do
  let (payload, message, signature) ← openObject P kind cose
  failIf (¬ P.verifyStrict key message signature) .badSignature
  decode P payload

def validateGrant (g : Grant) : Except Error Unit :=
  failIf (g.rights = 0 ∨ g.rights &&& ~~~knownRights ≠ 0 ∨ g.maxUses = some 0
    ∨ g.validity.any fun v => v.notBefore ≥ v.notAfter) .invalidPayload

def parseValidity (v : Value) : Except Error (Option Validity) := do
  if v = .null then pure none
  else
    match ← fields v 2 with
    | [notBefore, notAfter] => pure (some ⟨← number notBefore, ← number notAfter⟩)
    | _ => .error .invalidPayload

def parseGrant (v : Value) : Except Error Grant := do
  match ← fields v 9 with
  | [version, tag, id, lock, subject, rights, epoch, validity, maxUses] => do
    failIf ((← number version) ≠ credentialVersion ∨ tag ≠ .text "grant") .unsupportedVersion
    let validity ← parseValidity validity
    let grant : Grant := ⟨⟨← fixed 16 id⟩, ⟨← fixed 16 lock⟩, ⟨← fixed 32 subject⟩,
      ← u32Value rights, ← number epoch, validity, ← optionalU32 maxUses⟩
    validateGrant grant
    pure grant
  | _ => .error .invalidPayload

def readGrant (key : VerifyingKey) (cose : Bytes) : Except Error Grant := do
  parseGrant (← verifyObject P key grantDomain cose)

def policyValue (p : PolicyUpdate) : Value :=
  .array [uint credentialVersion, .text "policy", .bytes p.lockId.bytes.toList, uint p.epoch,
    uint p.version, .array (p.revoked.toList.map fun id => .bytes id.bytes.toList)]

def parsePolicy (v : Value) : Except Error PolicyUpdate := do
  match ← fields v 6 with
  | [version, tag, lock, epoch, policyVersion, .array ids] => do
    failIf ((← number version) ≠ credentialVersion ∨ tag ≠ .text "policy") .unsupportedVersion
    let lock ← fixed 16 lock
    let epoch ← number epoch
    let policyVersion ← number policyVersion
    let ids ← ids.mapM fun v => CredentialId.mk <$> fixed 16 v
    let p : PolicyUpdate := ⟨⟨lock⟩, epoch, policyVersion, Std.ExtTreeSet.ofList ids⟩
    failIf (policyValue p ≠ v) .invalidPayload
    pure p
  | [version, tag, _, _, _, _] => do
    failIf ((← number version) ≠ credentialVersion ∨ tag ≠ .text "policy") .unsupportedVersion
    .error .invalidPayload
  | _ => .error .invalidPayload

def readPolicy (key : VerifyingKey) (cose : Bytes) : Except Error PolicyUpdate := do
  parsePolicy (← verifyObject P key policyDomain cose)

def validateManifest (m : FirmwareManifest) : Except Error Unit :=
  failIf (m.model.isEmpty ∨ m.model.utf8ByteSize > 64 ∨ m.hardware.isEmpty
    ∨ m.hardware.utf8ByteSize > 64 ∨ m.version.isEmpty ∨ m.version.utf8ByteSize > 64
    ∨ m.size = 0 ∨ m.securityVersion = 0) .firmwareInvalid

def readManifest (key : VerifyingKey) (bytes : Bytes) : Except Error FirmwareManifest := do
  let m ← Wire.parse (← verifyObject P key firmwareDomain bytes)
  validateManifest m
  pure m

/-- `validate_public`. -/
def validatePublic (key : Bytes32) : Except Error Unit :=
  failIf (key = Vector.replicate 32 0 ∨ ¬ P.contributory key) .untrustedKey

def validateDeviceKey (key : DeviceKey) : Except Error Unit := do
  failIf (key.keyVersion = 0 ∨ key.x25519PublicKey = Vector.replicate 32 0
    ∨ key.rotationPublicKey = Vector.replicate 32 0 ∨ key.capabilities = 0
    ∨ key.capabilities &&& ~~~knownCapabilities ≠ 0) .invalidPayload
  validatePublic P key.x25519PublicKey
  let _ ← VerifyingKey.fromBytes P key.rotationPublicKey .untrustedKey
  pure ()

def deviceKeyValue (key : DeviceKey) (issuerKeyId : UInt32) : Value :=
  .array [uint 2, .bytes key.deviceId.bytes.toList, uint key.keyId.toUInt64,
    uint key.keyVersion.toUInt64, .bytes key.x25519PublicKey.toList,
    .bytes key.rotationPublicKey.toList, uint key.capabilities, uint issuerKeyId.toUInt64]

def verifyDeviceKey (issuer : VerifyingKey) (record : DeviceKeyRecord) : Except Error Unit := do
  validateDeviceKey P record.key
  let value ← verifyObject P issuer deviceDomain record.signature
  match ← fields value 8 with
  | [version, device, keyId, keyVersion, x25519, rotation, capabilities, issuerKeyId] =>
    failIf ((← number version) ≠ 2) .invalidPayload
    failIf ((← fixed 16 device) ≠ record.key.deviceId.bytes) .invalidPayload
    failIf ((← u32Value keyId) ≠ record.key.keyId) .invalidPayload
    failIf ((← u32Value keyVersion) ≠ record.key.keyVersion) .invalidPayload
    failIf ((← fixed 32 x25519) ≠ record.key.x25519PublicKey) .invalidPayload
    failIf ((← fixed 32 rotation) ≠ record.key.rotationPublicKey) .invalidPayload
    failIf ((← number capabilities) ≠ record.key.capabilities) .invalidPayload
    failIf ((← u32Value issuerKeyId) ≠ record.issuerKeyId) .invalidPayload
  | _ => .error .invalidPayload

def keyUpdateValue (u : KeyUpdate) : Value :=
  .array [uint 2, uint u.oldKeyId.toUInt64, deviceKeyValue u.newRecord.key u.newRecord.issuerKeyId,
    uint u.notBefore, uint u.retireAfter,
    match u.issuerKeyId with
    | none => .null
    | some id => uint id.toUInt64]

def validateKeyUpdate (u : KeyUpdate) : Except Error Unit := do
  validateDeviceKey P u.newRecord.key
  failIf (u.notBefore ≥ u.retireAfter) .invalidPayload

/-- The record carried inside a key update, before any check but its shape. -/
def parseUpdatedKey (v signature : Value) : Except Error DeviceKeyRecord := do
  match ← fields v 8 with
  | [version, device, keyId, keyVersion, x25519, rotation, capabilities, issuerKeyId] => do
    failIf ((← number version) ≠ 2) .unsupportedVersion
    let key : DeviceKey := ⟨⟨← fixed 16 device⟩, ← u32Value keyId, ← u32Value keyVersion,
      ← fixed 32 x25519, ← fixed 32 rotation, ← number capabilities⟩
    pure ⟨key, ← u32Value issuerKeyId, ← data signature⟩
  | _ => .error .invalidPayload

/-- Try only the two configured anchors: the issuer, then the old rotation key. -/
def verifyUpdate (issuer rotation : VerifyingKey) (signature : Bytes) :
    Except Error (Value × Bool) :=
  match verifyObject P issuer updateDomain signature with
  | .ok v => .ok (v, true)
  | .error _ => do pure (← verifyObject P rotation updateDomain signature, false)

/-- Validate a ready-to-activate device rotation against the current device key. -/
def readKeyUpdate (issuer : VerifyingKey) (old : DeviceKey) (input : Bytes) (now : ClockSample) :
    Except Error KeyUpdate := do
  let _ ← now.validate
  match ← fields (← decode P input) 2 with
  | [signature, recordSignature] => do
    let signature ← data signature
    let rotation ← VerifyingKey.fromBytes P old.rotationPublicKey .untrustedKey
    let (v, rootSigned) ← verifyUpdate P issuer rotation signature
    match ← fields v 6 with
    | [version, oldKeyId, record, notBefore, retireAfter, issuerKeyId] => do
      failIf ((← number version) ≠ 2) .unsupportedVersion
      let record ← parseUpdatedKey record recordSignature
      let update : KeyUpdate := ⟨← u32Value oldKeyId, record, ← number notBefore,
        ← number retireAfter, ← optionalU32 issuerKeyId, signature⟩
      failIf (rootSigned ≠ update.issuerKeyId.isSome ∨ keyUpdateValue update ≠ v) .invalidPayload
      validateKeyUpdate P update
      verifyDeviceKey P issuer update.newRecord
      failIf (update.oldKeyId ≠ old.keyId ∨ update.newRecord.key.deviceId ≠ old.deviceId
        ∨ update.newRecord.key.keyVersion ≤ old.keyVersion
        ∨ now.lower < update.notBefore ∨ now.upper ≥ update.retireAfter) .staleKey
      pure update
    | _ => .error .invalidPayload
  | _ => .error .invalidPayload

variable {P} {key key' : VerifyingKey}

/-- Whatever key accepts a signed object, the bytes alone say what it carries. -/
theorem verifyObject_unique {kind cose : Bytes} {v v' : Value}
    (h : verifyObject P key kind cose = .ok v) (h' : verifyObject P key' kind cose = .ok v') :
    v = v' := by
  simp only [verifyObject, bind_eq_ok] at h h'
  obtain ⟨⟨payload, _, _⟩, opened, _, _, read⟩ := h
  obtain ⟨_, opened', _, _, read'⟩ := h'
  cases opened.symm.trans opened'
  exact Except.ok.inj (read.symm.trans read')

theorem readGrant_unique {cose : Bytes} {g g' : Grant} (h : readGrant P key cose = .ok g)
    (h' : readGrant P key' cose = .ok g') : g = g' := by
  simp only [readGrant, bind_eq_ok] at h h'
  obtain ⟨v, verified, parsed⟩ := h
  obtain ⟨v', verified', parsed'⟩ := h'
  cases verifyObject_unique verified verified'
  exact Except.ok.inj (parsed.symm.trans parsed')

/-- An accepted rotation carries a valid key of the same device. -/
theorem readKeyUpdate_ok {issuer : VerifyingKey} {old : DeviceKey} {input : Bytes}
    {now : ClockSample} {u : KeyUpdate} (h : readKeyUpdate P issuer old input now = .ok u) :
    validateDeviceKey P u.newRecord.key = .ok () ∧ u.newRecord.key.deviceId = old.deviceId := by
  simp only [readKeyUpdate, bind_eq_ok] at h
  obtain ⟨_, _, _, _, _, _, h⟩ := h
  split at h
  · simp only [bind_eq_ok] at h
    obtain ⟨_, _, _, _, _, _, _, _, h⟩ := h
    split at h
    · simp only [bind_eq_ok, failIf_eq_ok, pure_eq_ok, validateKeyUpdate, exists_const, not_or,
        not_not] at h
      obtain ⟨_, _, _, _, _, _, _, _, _, _, _, _, _, _, ⟨_, valid, _⟩, _, _, stale, rfl⟩ := h
      exact ⟨valid, stale.2.1⟩
    · cases h
  · cases h

end OpenLock
