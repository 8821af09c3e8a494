import OpenLock.Crypto.Signing

/-! Signed objects are unambiguous: what a signer accepts its reader returns, and what a
reader returns was signed for its own domain over its canonical encoding. -/
namespace OpenLock
open Cbor

/-- The five kinds of signed object, without the signatures carried beside them. -/
inductive SignedObject where
  | grant (g : Grant)
  | policy (p : PolicyUpdate)
  | manifest (m : FirmwareManifest)
  | deviceKey (key : DeviceKey) (issuerKeyId : UInt32)
  | keyUpdate (oldKeyId : UInt32) (key : DeviceKey) (recordIssuerKeyId : UInt32)
      (notBefore retireAfter : UInt64) (issuerKeyId : Option UInt32)

namespace SignedObject

def ofRecord (r : DeviceKeyRecord) : SignedObject := .deviceKey r.key r.issuerKeyId

def ofUpdate (u : KeyUpdate) : SignedObject :=
  .keyUpdate u.oldKeyId u.newRecord.key u.newRecord.issuerKeyId u.notBefore u.retireAfter
    u.issuerKeyId

def domain : SignedObject → Bytes
  | .grant _ => grantDomain
  | .policy _ => policyDomain
  | .manifest _ => firmwareDomain
  | .deviceKey _ _ => deviceDomain
  | .keyUpdate _ _ _ _ _ _ => updateDomain

def payload : SignedObject → Value
  | .grant g => grantValue g
  | .policy p => policyValue p
  | .manifest m => Wire.value m
  | .deviceKey key issuerKeyId => deviceKeyValue key issuerKeyId
  | .keyUpdate oldKeyId key recordIssuerKeyId notBefore retireAfter issuerKeyId =>
    keyUpdateValue ⟨oldKeyId, ⟨key, recordIssuerKeyId, []⟩, notBefore, retireAfter, issuerKeyId, []⟩

/-- The structure that is signed for an object. -/
def message (o : SignedObject) : Bytes := signedMessage o.domain o.payload

end SignedObject

section Shallow

private theorem within_validity (o : Option Validity) (d : Nat) :
    Value.Within (d + 1) (match o with
      | none => .null
      | some v => .array [uint v.notBefore, uint v.notAfter]) := by
  cases o with
  | none => trivial
  | some v => exact within_head (within_uint _ d) (within_head (within_uint _ d) within_nil)

private theorem within_optional (o : Option UInt32) (d : Nat) :
    Value.Within d (match o with
      | none => .null
      | some n => uint n.toUInt64) := by
  cases o with
  | none => simp [Value.Within]
  | some n => exact within_uint _ d

private theorem within_text (s : String) (d : Nat) : (Value.text s).Within d := by
  simp [Value.Within]

theorem within_grantValue (g : Grant) : (grantValue g).Within 16 :=
  within_head (within_uint _ 15) (within_head (within_text _ 15) (within_head (within_bytes _ 15)
    (within_head (within_bytes _ 15) (within_head (within_bytes _ 15)
      (within_head (within_uint _ 15) (within_head (within_uint _ 15)
        (within_head (within_validity _ 14) (within_head (within_optional _ 15)
          within_nil))))))))

theorem within_policyValue (p : PolicyUpdate) : (policyValue p).Within 16 := by
  have ids : (Value.array (p.revoked.toList.map fun id => .bytes id.bytes.toList)).Within 15 :=
    (within_map (α := CredentialId) p.revoked.toList).mono (by decide)
  exact within_head (within_uint _ 15) (within_head (within_text _ 15)
    (within_head (within_bytes _ 15) (within_head (within_uint _ 15)
      (within_head (within_uint _ 15) (within_head ids within_nil)))))

theorem within_deviceKeyValue (key : DeviceKey) (id : UInt32) : (deviceKeyValue key id).Within 15 :=
  within_head (within_uint _ 14) (within_head (within_bytes _ 14) (within_head (within_uint _ 14)
    (within_head (within_uint _ 14) (within_head (within_bytes _ 14)
      (within_head (within_bytes _ 14) (within_head (within_uint _ 14)
        (within_head (within_uint _ 14) within_nil)))))))

theorem within_keyUpdateValue (u : KeyUpdate) : (keyUpdateValue u).Within 16 :=
  within_head (within_uint _ 15) (within_head (within_uint _ 15)
    (within_head (within_deviceKeyValue _ _) (within_head (within_uint _ 15)
      (within_head (within_uint _ 15) (within_head (within_optional _ 15) within_nil)))))

theorem SignedObject.within_payload (o : SignedObject) : o.payload.Within 16 := by
  cases o with
  | grant g => exact within_grantValue g
  | policy p => exact within_policyValue p
  | manifest m => exact (LawfulWire.within m).mono (by decide)
  | deviceKey key id => exact (within_deviceKeyValue key id).mono (by decide)
  | keyUpdate => exact within_keyUpdateValue _

end Shallow

section Injective
variable {o o' : SignedObject}

private theorem validityValue_injective {o o' : Option Validity}
    (same : (match o with
        | none => Value.null
        | some v => .array [uint v.notBefore, uint v.notAfter]) =
      match o' with
        | none => Value.null
        | some v => .array [uint v.notBefore, uint v.notAfter]) : o = o' := by
  cases o with
  | none => cases o' <;> simp_all
  | some v =>
    cases o' with
    | none => cases same
    | some w =>
      obtain ⟨_, _⟩ := v
      obtain ⟨_, _⟩ := w
      simp_all [uint_injective.eq_iff]

private theorem optionalValue_injective {o o' : Option UInt32}
    (same : (match o with
        | none => Value.null
        | some n => uint n.toUInt64) =
      match o' with
        | none => Value.null
        | some n => uint n.toUInt64) : o = o' := by
  apply LawfulWire.value_injective
  cases o <;> cases o' <;> exact same

theorem grantValue_injective : Function.Injective grantValue := by
  intro g g' same
  obtain ⟨⟨id⟩, ⟨lock⟩, ⟨subject⟩, rights, epoch, validity, uses⟩ := g
  obtain ⟨⟨id'⟩, ⟨lock'⟩, ⟨subject'⟩, rights', epoch', validity', uses'⟩ := g'
  simp only [grantValue, Value.array.injEq, List.cons.injEq, Value.bytes.injEq, Vector.toList_inj,
    uint_injective.eq_iff, UInt32.toUInt64_inj] at same
  obtain ⟨_, _, rfl, rfl, rfl, rfl, rfl, validities, counts, _⟩ := same
  rw [validityValue_injective validities, optionalValue_injective counts]

theorem policyValue_injective : Function.Injective policyValue := by
  intro p p' same
  have read := parsePolicy_eq_ok.2 same
  rw [parsePolicy_eq_ok.2 rfl] at read
  exact (Except.ok.inj read).symm

theorem deviceKeyValue_injective {key key' : DeviceKey} {id id' : UInt32}
    (same : deviceKeyValue key id = deviceKeyValue key' id') : key = key' ∧ id = id' := by
  obtain ⟨⟨device⟩, keyId, version, x25519, rotation, capabilities⟩ := key
  obtain ⟨⟨device'⟩, keyId', version', x25519', rotation', capabilities'⟩ := key'
  simp_all [deviceKeyValue, uint_injective.eq_iff, UInt32.toUInt64_inj, Vector.toList_inj]

private theorem domain_distinct (same : o.domain = o'.domain) (payloads : o.payload = o'.payload) :
    o = o' := by
  cases o <;> cases o' <;> first
    | exact congrArg SignedObject.grant (grantValue_injective payloads)
    | exact congrArg SignedObject.policy (policyValue_injective payloads)
    | exact congrArg SignedObject.manifest (LawfulWire.value_injective payloads)
    | (simp only [SignedObject.domain] at same; exact absurd same (by decide))
    | skip
  · obtain ⟨rfl, rfl⟩ := deviceKeyValue_injective payloads
    rfl
  · simp only [SignedObject.payload, keyUpdateValue, Value.array.injEq, List.cons.injEq,
      uint_injective.eq_iff, UInt32.toUInt64_inj] at payloads
    obtain ⟨_, rfl, records, rfl, rfl, signer, _⟩ := payloads
    obtain ⟨rfl, rfl⟩ := deviceKeyValue_injective records
    rw [optionalValue_injective signer]

/-- Two objects never share what is signed for them, of one kind or of two. -/
theorem SignedObject.message_injective (fits : o.message.length ≤ maxObjectSize)
    (same : o.message = o'.message) : o = o' := by
  have small : maxObjectSize < 2 ^ 64 := by decide
  have structures := Value.write_injective (within_signedStructure _ _ _)
    (within_signedStructure _ _ _) (by unfold message signedMessage at fits; omega) same
  simp only [signedStructure, Value.array.injEq, List.cons.injEq, Value.bytes.injEq] at structures
  obtain ⟨_, _, domains, payloads, _⟩ := structures
  have shorter : o.payload.write.length ≤ o.message.length := by
    simp only [message, signedMessage, signedStructure, Value.write, Value.writeList,
      List.length_append]
    omega
  exact domain_distinct domains
    (Value.write_injective o.within_payload o'.within_payload (by omega) payloads)

end Injective

section Lengths

private theorem length_uint (n : UInt64) : (uint n).write.length ≤ 9 := by
  simp only [uint, Value.write, Int.natCast_nonneg, ↓reduceIte, length_head]
  exact headLength_le _

private theorem length_bytes (b : Bytes) : (Value.bytes b).write.length ≤ 9 + b.length := by
  simp only [Value.write, List.length_append, length_head]
  exact Nat.add_le_add_right (headLength_le _) _

private theorem length_array (vs : List Value) :
    (Value.array vs).write.length ≤ 9 + (Value.writeList vs).length := by
  simp only [Value.write, List.length_append, length_head]
  exact Nat.add_le_add_right (headLength_le _) _

private theorem length_deviceKeyValue (key : DeviceKey) (id : UInt32) :
    (deviceKeyValue key id).write.length ≤ 161 := by
  refine (length_array _).trans ?_
  have sixteen := length_bytes key.deviceId.bytes.toList
  have first := length_bytes key.x25519PublicKey.toList
  have second := length_bytes key.rotationPublicKey.toList
  have numbers := length_uint
  simp only [Vector.length_toList] at sixteen first second
  simp only [Value.writeList, List.length_append, List.length_nil]
  have n1 := numbers 2
  have n2 := numbers key.keyId.toUInt64
  have n3 := numbers key.keyVersion.toUInt64
  have n4 := numbers key.capabilities
  have n5 := numbers id.toUInt64
  omega

private theorem length_keyUpdateValue (u : KeyUpdate) :
    (keyUpdateValue u).write.length ≤ 215 := by
  refine (length_array _).trans ?_
  have record := length_deviceKeyValue u.newRecord.key u.newRecord.issuerKeyId
  have n1 := length_uint 2
  have n2 := length_uint u.oldKeyId.toUInt64
  have n3 := length_uint u.notBefore
  have n4 := length_uint u.retireAfter
  obtain ⟨oldKeyId, newRecord, notBefore, retireAfter, issuerKeyId, signature⟩ := u
  cases issuerKeyId with
  | none =>
    have n5 : Value.null.write.length = 1 := rfl
    simp only [Value.writeList, List.length_append, List.length_nil] at *
    omega
  | some id =>
    have n5 := length_uint id.toUInt64
    simp only [Value.writeList, List.length_append, List.length_nil] at *
    omega

end Lengths

section Readers
variable {P : Primitives} {issuer signer : VerifyingKey} {u : KeyUpdate}

/-- The old key, the clock and the signer that an update is made for. -/
structure RotationMatches (P : Primitives) (issuer : VerifyingKey) (signer : SigningKey)
    (old : DeviceKey) (now : ClockSample) (u : KeyUpdate) : Prop where
  oldKey : u.oldKeyId = old.keyId
  device : u.newRecord.key.deviceId = old.deviceId
  version : old.keyVersion < u.newRecord.key.keyVersion
  point : P.isPoint old.rotationPublicKey = true
  ordered : now.lower ≤ now.upper
  opened : u.notBefore ≤ now.lower
  unretired : now.upper < u.retireAfter
  root : u.issuerKeyId.isSome = true → signer.verifyingKey = issuer
  rotation : u.issuerKeyId = none → signer.verifyingKey = ⟨old.rotationPublicKey⟩

/-- The transport form of an update whose two signed parts are genuine always fits. -/
theorem encodeKeyUpdate_ok (codec : P.Ciborium)
    (record : verifyDeviceKey P issuer u.newRecord = .ok ())
    (update : verifyObject P signer updateDomain u.signature = .ok (keyUpdateValue u)) :
    ∃ b, encodeKeyUpdate P u = .ok b ∧
      decode P b = .ok (.array [.bytes u.signature, .bytes u.newRecord.signature]) := by
  have shallow : (Value.array [.bytes u.signature, .bytes u.newRecord.signature]).Within 16 :=
    within_head (within_bytes _ 15) (within_head (within_bytes _ 15) within_nil)
  obtain ⟨_, inner⟩ := verifyDeviceKey_eq_ok.1 record
  obtain ⟨s, _, signature⟩ := verifyObject_signed codec (within_keyUpdateValue u) update
  obtain ⟨s', _, recordSignature⟩ :=
    verifyObject_signed codec ((within_deviceKeyValue _ _).mono (by decide)) inner
  have fits : (Value.array [.bytes u.signature, .bytes u.newRecord.signature]).write.length
      ≤ maxObjectSize := by
    refine (length_array _).trans ?_
    have outer := length_bytes u.signature
    have nested := length_bytes u.newRecord.signature
    have l1 := length_coseValue (keyUpdateValue u) s
    have l2 := length_coseValue (deviceKeyValue u.newRecord.key u.newRecord.issuerKeyId) s'
    have l3 := length_keyUpdateValue u
    have l4 := length_deviceKeyValue u.newRecord.key u.newRecord.issuerKeyId
    rw [← signature] at l1
    rw [← recordSignature] at l2
    simp only [Value.writeList, List.length_append, List.length_nil, maxObjectSize]
    omega
  exact ⟨_, (encodeLimit_eq_ok codec shallow).2 ⟨rfl, fits⟩,
    decodeLimit_write codec shallow fits (by decide)⟩

/-- What holds of the five signers and readers when `Signed key m` says that the holder of
`key` has signed `m`. -/
structure UnambiguousSignatures (P : Primitives) (Signed : VerifyingKey → Bytes → Prop) :
    Prop where
  grant_read_back : ∀ (key : SigningKey) (g : Grant) (b : Bytes), key.Genuine P →
    signGrant P key g = .ok b → readGrant P key.verifyingKey b = .ok g
  policy_read_back : ∀ (key : SigningKey) (p : PolicyUpdate) (b : Bytes), key.Genuine P →
    signPolicy P key p = .ok b → readPolicy P key.verifyingKey b = .ok p
  manifest_read_back : ∀ (key : SigningKey) (m : FirmwareManifest) (b : Bytes), key.Genuine P →
    signManifest P key m = .ok b → readManifest P key.verifyingKey b = .ok m
  device_key_read_back : ∀ (issuer : SigningKey) (key : DeviceKey) (id : UInt32)
    (r : DeviceKeyRecord), issuer.Genuine P → signDeviceKey P issuer key id = .ok r →
    r.key = key ∧ r.issuerKeyId = id ∧ verifyDeviceKey P issuer.verifyingKey r = .ok ()
  key_update_read_back : ∀ (issuer : VerifyingKey) (signer : SigningKey) (old : DeviceKey)
    (now : ClockSample) (u u' : KeyUpdate), signer.Genuine P →
    signKeyUpdate P signer u = .ok u' → RotationMatches P issuer signer old now u →
    verifyDeviceKey P issuer u.newRecord = .ok () →
    (u.issuerKeyId = none → ¬ Signed issuer (SignedObject.ofUpdate u).message) →
    u' = { u with signature := u'.signature } ∧
    ∃ b, encodeKeyUpdate P u' = .ok b ∧ readKeyUpdate P issuer old b now = .ok u'
  trust_payload_read_back : ∀ (key : SigningKey) (kind : UInt32) (v : Value) (b : Bytes),
    key.Genuine P → signTrustPayload P key kind v = .ok b →
    verifyObject P key.verifyingKey (if kind = 3 then deviceDomain else updateDomain) b = .ok v
  grant_signed : ∀ (key : VerifyingKey) (b : Bytes) (g : Grant), readGrant P key b = .ok g →
    Signed key (SignedObject.grant g).message
  policy_signed : ∀ (key : VerifyingKey) (b : Bytes) (p : PolicyUpdate),
    readPolicy P key b = .ok p → Signed key (SignedObject.policy p).message
  manifest_signed : ∀ (key : VerifyingKey) (b : Bytes) (m : FirmwareManifest),
    readManifest P key b = .ok m → Signed key (SignedObject.manifest m).message
  device_key_signed : ∀ (issuer : VerifyingKey) (r : DeviceKeyRecord),
    verifyDeviceKey P issuer r = .ok () → Signed issuer (SignedObject.ofRecord r).message
  key_update_signed : ∀ (issuer : VerifyingKey) (old : DeviceKey) (b : Bytes) (now : ClockSample)
    (u : KeyUpdate), readKeyUpdate P issuer old b now = .ok u →
    Signed (if u.issuerKeyId.isSome then issuer else ⟨old.rotationPublicKey⟩)
      (SignedObject.ofUpdate u).message
  message_determines_object : ∀ o o' : SignedObject, o.message.length ≤ maxObjectSize →
    o.message = o'.message → o = o'
  policy_ordered : ∀ (key : VerifyingKey) (b : Bytes) (p : PolicyUpdate),
    readPolicy P key b = .ok p → ∃ ids : List CredentialId,
      verifyObject P key policyDomain b = .ok (.array [uint credentialVersion, .text "policy",
        .bytes p.lockId.bytes.toList, uint p.epoch, uint p.version,
        .array (ids.map fun id => .bytes id.bytes.toList)]) ∧
      ids.Pairwise fun id id' => compare id id' = .lt

private theorem manifest_allowed {m : FirmwareManifest} (valid : validateManifest m = .ok ()) :
    m.model.utf8ByteSize ≤ 64 ∧ m.hardware.utf8ByteSize ≤ 64 ∧ m.version.utf8ByteSize ≤ 64 := by
  simp only [validateManifest, failIf_eq_ok, not_or, Nat.not_lt, gt_iff_lt] at valid
  obtain ⟨_, model, _, hardware, _, version, _⟩ := valid
  exact ⟨model, hardware, version⟩

theorem verifyUpdate_signer {issuer rotation : VerifyingKey} {signature : Bytes} {v : Value}
    {root : Bool} (h : verifyUpdate P issuer rotation signature = .ok (v, root)) :
    verifyObject P (if root then issuer else rotation) updateDomain signature = .ok v := by
  unfold verifyUpdate at h
  split at h
  · rename_i tried
    cases h
    exact tried
  · simp only [bind_eq_ok, pure_eq_ok] at h
    obtain ⟨_, tried, same⟩ := h
    cases same
    exact tried

private theorem verifyUpdate_signed (codec : P.Ciborium) {Signed : VerifyingKey → Bytes → Prop}
    (ideal : ∀ key m s, P.verifyStrict key m s = true → Signed key m) {old : DeviceKey}
    (root : u.issuerKeyId.isSome = true → signer = issuer)
    (rotation : u.issuerKeyId = none → signer = ⟨old.rotationPublicKey⟩)
    (unsigned : u.issuerKeyId = none → ¬ Signed issuer (SignedObject.ofUpdate u).message)
    (update : verifyObject P signer updateDomain u.signature = .ok (keyUpdateValue u)) :
    verifyUpdate P issuer ⟨old.rotationPublicKey⟩ u.signature
      = .ok (keyUpdateValue u, u.issuerKeyId.isSome) := by
  unfold verifyUpdate
  cases id : u.issuerKeyId with
  | some n =>
    rw [root (by rw [id]; rfl)] at update
    rw [update]
    rfl
  | none =>
    rw [rotation id] at update
    cases tried : verifyObject P issuer updateDomain u.signature with
    | ok v =>
      rw [verifyObject_unique tried update] at tried
      obtain ⟨s, verified, _⟩ := verifyObject_signed codec (within_keyUpdateValue u) tried
      exact absurd (ideal _ _ _ verified) (unsigned id)
    | error e =>
      rw [update]
      rfl

/-- Signers and readers agree, and every accepted object was signed for its own kind. -/
theorem signed_objects_unambiguous (codec : P.Ciborium) {Signed : VerifyingKey → Bytes → Prop}
    (ideal : ∀ key m s, P.verifyStrict key m s = true → Signed key m) :
    UnambiguousSignatures P Signed where
  grant_read_back key g b genuine h := by
    simp only [signGrant, bind_eq_ok] at h
    obtain ⟨_, valid, signed⟩ := h
    simp only [readGrant, bind_eq_ok, parseGrant_eq_ok]
    exact ⟨_, verifyObject_signObject codec genuine (within_grantValue g) signed, rfl, valid⟩
  policy_read_back key p b genuine h := by
    simp only [readPolicy, bind_eq_ok, parsePolicy_eq_ok]
    exact ⟨_, verifyObject_signObject codec genuine (within_policyValue p) h, rfl⟩
  manifest_read_back key m b genuine h := by
    simp only [signManifest, bind_eq_ok] at h
    obtain ⟨_, valid, signed⟩ := h
    simp only [readManifest, bind_eq_ok, LawfulWire.parse_eq_ok, pure_eq_ok]
    exact ⟨_, verifyObject_signObject codec genuine (SignedObject.within_payload (.manifest m))
      signed, m, ⟨rfl, manifest_allowed valid⟩, (), valid, rfl⟩
  device_key_read_back issuer key id r genuine h := by
    simp only [signDeviceKey, bind_eq_ok, pure_eq_ok] at h
    obtain ⟨_, valid, signature, signed, rfl⟩ := h
    exact ⟨rfl, rfl, verifyDeviceKey_eq_ok.2 ⟨valid, verifyObject_signObject codec genuine
      ((within_deviceKeyValue key id).mono (by decide)) signed⟩⟩
  key_update_read_back issuer signer old now u u' genuine h fits record unsigned := by
    simp only [signKeyUpdate, bind_eq_ok, pure_eq_ok] at h
    obtain ⟨_, valid, signature, signed, rfl⟩ := h
    have update := verifyObject_signObject codec genuine (within_keyUpdateValue u) signed
    obtain ⟨b, encoded, decoded⟩ :=
      encodeKeyUpdate_ok codec (u := { u with signature }) record update
    refine ⟨rfl, b, encoded, readKeyUpdate_eq_ok.2 ⟨fits.ordered, decoded, fits.point, ?_, valid,
      record, fits.oldKey, fits.device, fits.version, fits.opened, fits.unretired⟩⟩
    exact verifyUpdate_signed codec ideal (u := { u with signature }) fits.root fits.rotation
      unsigned update
  trust_payload_read_back key kind v b genuine h := by
    unfold signTrustPayload at h
    split_ifs at h ⊢ with three four
    · simp only [bind_eq_ok, pure_eq_ok, signDeviceKey] at h
      obtain ⟨⟨device, id⟩, parsed, _, ⟨_, _, signature, signed, rfl⟩, rfl⟩ := h
      obtain ⟨rfl, _⟩ := parseDeviceKeyValue_eq_ok.1 parsed
      exact verifyObject_signObject codec genuine
        ((within_deviceKeyValue device id).mono (by decide)) signed
    · simp only [bind_eq_ok, fields_eq_ok] at h
      obtain ⟨ws, ⟨rfl, len⟩, h⟩ := h
      obtain _ | ⟨x0, _ | ⟨x1, _ | ⟨x2, _ | ⟨x3, _ | ⟨x4, _ | ⟨x5, _ | _⟩⟩⟩⟩⟩⟩ := ws <;>
        cases len
      simp only [bind_eq_ok, number_eq_ok, u32Value_eq_ok, optionalU32_eq_ok, failIf_eq_ok,
        not_not] at h
      obtain ⟨_, rfl, _, rfl, _, rfl, ⟨device, id⟩, parsed, o, rfl, _, rfl, _, rfl, _, _,
        signed⟩ := h
      obtain ⟨rfl, _⟩ := parseDeviceKeyValue_eq_ok.1 parsed
      exact verifyObject_signObject codec genuine (within_head (within_uint _ 15)
        (within_head (within_uint _ 15) (within_head (within_deviceKeyValue _ _)
          (within_head (within_uint _ 15) (within_head (within_uint _ 15)
            (within_cons (by decide) within_nil)))))) signed
  grant_signed key b g h := by
    simp only [readGrant, bind_eq_ok, parseGrant_eq_ok] at h
    obtain ⟨_, verified, rfl, _⟩ := h
    obtain ⟨s, signed, _⟩ := verifyObject_signed codec (within_grantValue g) verified
    exact ideal _ _ s signed
  policy_signed key b p h := by
    simp only [readPolicy, bind_eq_ok, parsePolicy_eq_ok] at h
    obtain ⟨_, verified, rfl⟩ := h
    obtain ⟨s, signed, _⟩ := verifyObject_signed codec (within_policyValue p) verified
    exact ideal _ _ s signed
  manifest_signed key b m h := by
    simp only [readManifest, bind_eq_ok, LawfulWire.parse_eq_ok, pure_eq_ok] at h
    obtain ⟨_, verified, _, ⟨rfl, _⟩, _, _, rfl⟩ := h
    obtain ⟨s, signed, _⟩ :=
      verifyObject_signed codec (SignedObject.within_payload (.manifest _)) verified
    exact ideal _ _ s signed
  device_key_signed issuer r h := by
    obtain ⟨_, verified⟩ := verifyDeviceKey_eq_ok.1 h
    obtain ⟨s, signed, _⟩ :=
      verifyObject_signed codec ((within_deviceKeyValue _ _).mono (by decide)) verified
    exact ideal _ _ s signed
  key_update_signed issuer old b now u h := by
    obtain ⟨_, _, _, verified, _⟩ := readKeyUpdate_eq_ok.1 h
    obtain ⟨s, signed, _⟩ := verifyObject_signed codec (within_keyUpdateValue u)
      (verifyUpdate_signer verified)
    exact ideal _ _ s signed
  message_determines_object o o' := SignedObject.message_injective
  policy_ordered key b p h := by
    simp only [readPolicy, bind_eq_ok, parsePolicy_eq_ok] at h
    obtain ⟨_, verified, rfl⟩ := h
    exact ⟨p.revoked.toList, verified, p.revoked.ordered_toList⟩

end Readers

namespace Stamp
/-! A verifier whose signatures are the key twice, and one key that is both the issuer's
and the old rotation key. -/

def stamp (key : VerifyingKey) : Vector UInt8 64 := key.bytes ++ key.bytes

def primitives : Primitives := minimalPrimitives fun key _ s => s = stamp key

def issuer : VerifyingKey := ⟨Vector.replicate 32 1⟩

def signer : SigningKey := ⟨issuer, fun _ => stamp issuer⟩

theorem signer_genuine : signer.Genuine primitives := by
  intro m
  simp [primitives, minimalPrimitives, signer]

def deviceKey (version : UInt32) : DeviceKey where
  deviceId := ⟨Vector.replicate 16 7⟩
  keyId := version
  keyVersion := version
  x25519PublicKey := Vector.replicate 32 5
  rotationPublicKey := issuer.bytes
  capabilities := 1

/-- A new record that the issuer did sign. -/
def record : DeviceKeyRecord :=
  ⟨deviceKey 2, 1, (coseValue (deviceKeyValue (deviceKey 2) 1) (stamp issuer)).write⟩

/-- An update of the first key to that record, in force from 10 to 20. -/
def update (issuerKeyId : Option UInt32) (newRecord : DeviceKeyRecord) : KeyUpdate :=
  ⟨1, newRecord, 10, 20, issuerKeyId, []⟩

def signedUpdate (issuerKeyId : Option UInt32) (newRecord : DeviceKeyRecord) : KeyUpdate :=
  { update issuerKeyId newRecord with
    signature := (coseValue (keyUpdateValue (update issuerKeyId newRecord)) (stamp issuer)).write }

def transport (u : KeyUpdate) : Bytes :=
  (Value.array [.bytes u.signature, .bytes u.newRecord.signature]).write

def now : ClockSample := ⟨10, 12⟩

theorem matches_update (issuerKeyId : Option UInt32) (signature : Bytes) :
    RotationMatches primitives issuer signer (deviceKey 1) now
      (update issuerKeyId ⟨deviceKey 2, 1, signature⟩) where
  oldKey := rfl
  device := rfl
  version := (by decide : (1 : UInt32) < 2)
  point := rfl
  ordered := by decide
  opened := (by decide : (10 : UInt64) ≤ 10)
  unretired := (by decide : (12 : UInt64) < 20)
  root _ := rfl
  rotation _ := rfl

/-- Two updates that a matching signer accepts and the reader refuses: one whose rotation key
is the issuer's, one whose new record carries no signature. -/
theorem signed_update_refused :
    primitives.Ciborium ∧ signer.Genuine primitives ∧
    (RotationMatches primitives issuer signer (deviceKey 1) now (update none record) ∧
      verifyDeviceKey primitives issuer record = .ok () ∧
      signKeyUpdate primitives signer (update none record) = .ok (signedUpdate none record) ∧
      encodeKeyUpdate primitives (signedUpdate none record)
        = .ok (transport (signedUpdate none record)) ∧
      readKeyUpdate primitives issuer (deviceKey 1) (transport (signedUpdate none record)) now
        = .error .invalidPayload) ∧
    (RotationMatches primitives issuer signer (deviceKey 1) now
        (update (some 1) ⟨deviceKey 2, 1, []⟩) ∧
      signKeyUpdate primitives signer (update (some 1) ⟨deviceKey 2, 1, []⟩)
        = .ok (signedUpdate (some 1) ⟨deviceKey 2, 1, []⟩) ∧
      encodeKeyUpdate primitives (signedUpdate (some 1) ⟨deviceKey 2, 1, []⟩)
        = .ok (transport (signedUpdate (some 1) ⟨deviceKey 2, 1, []⟩)) ∧
      readKeyUpdate primitives issuer (deviceKey 1)
        (transport (signedUpdate (some 1) ⟨deviceKey 2, 1, []⟩)) now
        = .error .invalidPayload) := by
  refine ⟨minimalPrimitives_ciborium _, signer_genuine, ⟨matches_update _ _, ?_, ?_, ?_, ?_⟩,
    matches_update _ _, ?_, ?_, ?_⟩
  all_goals decide +kernel

/-- The issuer has signed that record and nothing else. -/
def Signed (key : VerifyingKey) (m : Bytes) : Prop :=
  key = issuer ∧ m = (SignedObject.ofRecord record).message

instance (key : VerifyingKey) (m : Bytes) : Decidable (Signed key m) :=
  inferInstanceAs (Decidable (_ ∧ _))

/-- A verifier that accepts only what was signed. -/
def strict : Primitives := minimalPrimitives fun key m s => Signed key m ∧ s = stamp key

theorem signed_objects_unambiguous_stamp : verifyDeviceKey strict issuer record = .ok ()
    ∧ UnambiguousSignatures strict Signed := by
  refine ⟨by decide +kernel, signed_objects_unambiguous (minimalPrimitives_ciborium _) ?_⟩
  intro key m s verified
  exact (of_decide_eq_true verified).1

end Stamp
end OpenLock
