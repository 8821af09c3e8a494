import OpenLock.Ffi.Issuing
import OpenLock.Properties.Kotlin
import OpenLock.Properties.Signatures

/-! Issuing over the interfaces: the C function signs exactly what the Rust signers sign, and
the Kotlin issuer issues what the issuer crate issues. -/
namespace OpenLock
open Cbor

variable {P : Primitives} {key : SigningKey}

namespace SignedObject

/-- The number of the kind at the C interface. -/
def kind : SignedObject → UInt32
  | .grant _ => 0
  | .policy _ => 1
  | .manifest _ => 2
  | .deviceKey _ _ => 3
  | .keyUpdate _ _ _ _ _ _ => 4

/-- What the signer of the object's own kind makes of it. -/
def signed (P : Primitives) (key : SigningKey) : SignedObject → Except Error Bytes
  | .grant g => signGrant P key g
  | .policy p => signPolicy P key p
  | .manifest m => signManifest P key m
  | .deviceKey device id => DeviceKeyRecord.signature <$> signDeviceKey P key device id
  | .keyUpdate oldKeyId device id notBefore retireAfter issuerKeyId => KeyUpdate.signature <$>
    signKeyUpdate P key ⟨oldKeyId, ⟨device, id, []⟩, notBefore, retireAfter, issuerKeyId, []⟩

end SignedObject

section Signing
variable {v : Value} {kind : UInt32} {b : Bytes}

theorem decode_eq_ok (codec : P.Ciborium) (shallow : v.Within 16) :
    decode P b = .ok v ↔ encode P v = .ok b := by
  refine ⟨encodeLimit_of_decodeLimit, fun encoded => ?_⟩
  obtain ⟨rfl, fits⟩ := (encodeLimit_eq_ok codec shallow).1 encoded
  exact decodeLimit_write codec shallow fits (by decide)

private theorem encode_fits (h : encode P v = .ok b) : b.length ≤ maxMessageSize := by
  simp only [encode, encodeLimit, bind_eq_ok, failIf_eq_ok, pure_eq_ok] at h
  obtain ⟨_, _, _, short, rfl⟩ := h
  exact Nat.not_lt.1 short

/-- A payload that is signed as a policy and read back is that policy's. -/
private theorem policy_payload (codec : P.Ciborium) {b out : Bytes} {p : PolicyUpdate}
    (decoded : decode P b = .ok v) (signs : signObject P key policyDomain v = .ok out)
    (read : readPolicy P key.verifyingKey out = .ok p) : policyValue p = v := by
  simp only [readPolicy, bind_eq_ok, parsePolicy_eq_ok] at read
  obtain ⟨_, verified, rfl⟩ := read
  have shallow := within_policyValue p
  obtain ⟨s, _, object⟩ := verifyObject_signed codec shallow verified
  simp only [signObject, bind_eq_ok] at signs
  obtain ⟨payload, encoded, _, header, _, _, outer⟩ := signs
  cases (encodeLimit_of_decodeLimit decoded).symm.trans encoded
  obtain ⟨rfl, _⟩ := (encodeLimit_eq_ok codec within_protectedHeader).1 header
  -- Both objects around a payload have the same bytes, so the payloads have.
  obtain ⟨same, fits⟩ := (encodeLimit_eq_ok codec (within_cose _ _ _)).1 outer
  have equal := Value.write_injective (within_cose _ _ _) (within_cose _ _ _)
    (by rw [same]; exact Nat.lt_of_le_of_lt fits (by decide)) (same.trans object)
  simp only [Value.array.injEq, List.cons.injEq, Value.bytes.injEq] at equal
  rw [equal.2.2.1] at decoded encoded
  have read := decodeLimit_write codec shallow (encode_fits encoded) (by decide)
  exact Except.ok.inj (read.symm.trans decoded)

/-- `signTrustPayload` signs the payloads of its two kinds, as `signDeviceKey` and
`signKeyUpdate` do. -/
theorem signTrustPayload_eq_ok {out : Bytes} :
    signTrustPayload P key kind v = .ok out ↔ ∃ o : SignedObject, (kind = 3 ∨ kind = 4)
      ∧ o.kind = kind ∧ o.payload = v ∧ o.signed P key = .ok out := by
  unfold signTrustPayload
  constructor
  · intro h
    split_ifs at h with three four
    · simp only [bind_eq_ok, pure_eq_ok] at h
      obtain ⟨⟨device, id⟩, parsed, r, signs, rfl⟩ := h
      obtain ⟨rfl, _⟩ := parseDeviceKeyValue_eq_ok.1 parsed
      exact ⟨.deviceKey device id, .inl three, three.symm, rfl, map_eq_ok.2 ⟨r, signs, rfl⟩⟩
    · simp only [bind_eq_ok, fields_eq_ok] at h
      obtain ⟨ws, ⟨rfl, len⟩, h⟩ := h
      obtain _ | ⟨x0, _ | ⟨x1, _ | ⟨x2, _ | ⟨x3, _ | ⟨x4, _ | ⟨x5, _ | _⟩⟩⟩⟩⟩⟩ := ws <;> cases len
      simp only [bind_eq_ok, number_eq_ok, u32Value_eq_ok, optionalU32_eq_ok, failIf_eq_ok,
        not_not] at h
      obtain ⟨_, rfl, _, rfl, old, rfl, ⟨device, id⟩, parsed, o, rfl, start, rfl, stop, rfl, _,
        order, signs⟩ := h
      obtain ⟨rfl, valid⟩ := parseDeviceKeyValue_eq_ok.1 parsed
      refine ⟨.keyUpdate old device id start stop o, .inr four, four.symm, by cases o <;> rfl, ?_⟩
      refine map_eq_ok.2 ⟨_, bind_eq_ok.2 ⟨(), ?_, bind_eq_ok.2 ⟨out, ?_, rfl⟩⟩, rfl⟩
      · exact bind_eq_ok.2 ⟨(), valid, failIf_eq_ok.2 order⟩
      · cases o <;> exact signs
  · rintro ⟨o, trust, rfl, rfl, signs⟩
    cases o with
    | deviceKey device id =>
      obtain ⟨r, made, rfl⟩ := map_eq_ok.1 signs
      obtain ⟨_, valid, _⟩ := bind_eq_ok.1 made
      exact bind_eq_ok.2 ⟨(device, id), parseDeviceKeyValue_eq_ok.2 ⟨rfl, valid⟩,
        bind_eq_ok.2 ⟨r, made, rfl⟩⟩
    | keyUpdate old device id start stop o =>
      obtain ⟨r, made, rfl⟩ := map_eq_ok.1 signs
      simp only [signKeyUpdate, validateKeyUpdate, bind_eq_ok, pure_eq_ok, failIf_eq_ok] at made
      obtain ⟨_, ⟨_, valid, order⟩, signature, made, rfl⟩ := made
      refine bind_eq_ok.2 ⟨_, fields_eq_ok.2 ⟨rfl, rfl⟩, ?_⟩
      simp only [bind_eq_ok, number_eq_ok, u32Value_eq_ok, optionalU32_eq_ok, failIf_eq_ok,
        not_not]
      exact ⟨_, rfl, (), rfl, old, rfl, (device, id), parseDeviceKeyValue_eq_ok.2 ⟨rfl, valid⟩, o,
        by cases o <;> rfl, start, rfl, stop, rfl, (), order, made⟩
    | _ => rcases trust with trust | trust <;> cases trust

/-- A payload is signed exactly if it is the canonical encoding of an object of that kind
which the kind's own signer signs. -/
theorem signPayload_eq_ok (codec : P.Ciborium) (genuine : key.Genuine P) (kind : UInt32)
    (b out : Bytes) : signPayload P kind key b = .ok out ↔ ∃ o : SignedObject,
      o.kind = kind ∧ encode P o.payload = .ok b ∧ o.signed P key = .ok out := by
  simp only [signPayload, bind_eq_ok]
  constructor
  · rintro ⟨v, decoded, h⟩
    have encoded : encode P v = .ok b := encodeLimit_of_decodeLimit decoded
    split_ifs at h with grant policy manifest trust
    · simp only [bind_eq_ok, parseGrant_eq_ok] at h
      obtain ⟨g, ⟨rfl, _⟩, signs⟩ := h
      exact ⟨.grant g, grant.symm, encoded, signs⟩
    · simp only [bind_eq_ok, pure_eq_ok] at h
      obtain ⟨_, signs, p, read, rfl⟩ := h
      cases policy_payload codec decoded signs read
      exact ⟨.policy p, policy.symm, encoded, signs⟩
    · simp only [bind_eq_ok, LawfulWire.parse_eq_ok] at h
      obtain ⟨m, ⟨rfl, _⟩, signs⟩ := h
      exact ⟨.manifest m, manifest.symm, encoded, signs⟩
    · obtain ⟨o, _, same, rfl, signs⟩ := signTrustPayload_eq_ok.1 h
      exact ⟨o, same, encoded, signs⟩
  · rintro ⟨o, rfl, encoded, signs⟩
    refine ⟨o.payload, (decode_eq_ok codec o.within_payload).2 encoded, ?_⟩
    cases o with
    | grant g =>
      obtain ⟨_, valid, _⟩ := bind_eq_ok.1 signs
      exact bind_eq_ok.2 ⟨g, parseGrant_eq_ok.2 ⟨rfl, valid⟩, signs⟩
    | policy p =>
      refine bind_eq_ok.2 ⟨out, signs, bind_eq_ok.2 ⟨p, ?_, rfl⟩⟩
      exact bind_eq_ok.2 ⟨_, verifyObject_signObject codec genuine (within_policyValue p) signs,
        parsePolicy_eq_ok.2 rfl⟩
    | manifest m =>
      obtain ⟨_, valid, _⟩ := bind_eq_ok.1 signs
      simp only [validateManifest, failIf_eq_ok, not_or, Nat.not_lt, gt_iff_lt] at valid
      obtain ⟨_, model, _, hardware, _, version, _⟩ := valid
      have allowed : LawfulWire.Allowed m := ⟨model, hardware, version⟩
      exact bind_eq_ok.2 ⟨m, LawfulWire.parse_eq_ok.2 ⟨rfl, allowed⟩, signs⟩
    | deviceKey | keyUpdate =>
      simp only [SignedObject.kind]
      rw [if_neg (by decide), if_neg (by decide), if_neg (by decide), if_pos (by decide)]
      exact signTrustPayload_eq_ok.2 ⟨_, by decide, rfl, rfl, signs⟩

/-- The C function with buffers at hand. -/
theorem openlockSign_out {data : Bytes} {cap : Nat} {answer : CAnswer}
    (h : openlockSign P kind (some key) (.bytes data) ⟨true, cap, true⟩ = answer) :
    (∀ out, answer.out = some out ↔ out.length ≤ cap ∧ signPayload P kind key data = .ok out)
    ∧ (answer.status = 0 ↔ answer.out.isSome) := by
  subst h
  by_cases long : maxMessageSize < data.length
  · simp only [openlockSign, CInput.read, if_pos long]
    refine ⟨fun out => ⟨fun h => (by cases h), fun h => ?_⟩, by decide⟩
    obtain ⟨v, decoded, _⟩ := bind_eq_ok.1 h.2
    exact absurd (encode_fits (encodeLimit_of_decodeLimit decoded)) (Nat.not_le.2 long)
  · simp only [openlockSign, CInput.read, if_neg long]
    cases signPayload P kind key data with
    | error e => cases e <;> simp [Error.status, Error.code]
    | ok signed =>
      by_cases small : cap < signed.length
      · have long : ∀ out, ¬ (out.length ≤ cap ∧ signed = out) := by
          rintro _ ⟨fits, rfl⟩
          exact absurd fits (Nat.not_le.2 small)
        simp [copy, capacity, small, long]
      · have fits : ∀ out, signed = out → out.length ≤ cap := by
          rintro _ rfl
          exact Nat.not_lt.1 small
        simpa [copy, capacity, small] using fits

/-- The C function signs a payload exactly if it is the canonical encoding of an object of
that kind which the kind's own signer signs, and stores what that signer returns. -/
theorem c_signer_exact (codec : P.Ciborium) (genuine : key.Genuine P) (kind : UInt32)
    (data : Bytes) (cap : Nat) (out : Bytes) :
    (openlockSign P kind (some key) (.bytes data) ⟨true, cap, true⟩).out = some out
      ↔ out.length ≤ cap ∧ ∃ o : SignedObject, o.kind = kind ∧ encode P o.payload = .ok data
        ∧ o.signed P key = .ok out := by
  rw [← signPayload_eq_ok codec genuine]
  exact (openlockSign_out rfl).1 out

theorem Stamp.c_signer_exact_record :
    (openlockSign primitives 3 (some signer) (.bytes (deviceKeyValue (deviceKey 2) 1).write)
      ⟨true, 4096, true⟩).out = some record.signature :=
  (c_signer_exact (minimalPrimitives_ciborium _) signer_genuine 3 _ 4096 _).2
    ⟨by decide +kernel, .deviceKey (deviceKey 2) 1, rfl, by decide +kernel, by decide +kernel⟩

theorem Kotlin.nativeSign_eq_ok {payload out : Bytes} :
    nativeSign P kind key payload = .ok out ↔ payload.length ≤ 4096 ∧ out.length ≤ 4096
      ∧ signPayload P kind key payload = .ok out := by
  unfold nativeSign
  split
  · rename_i long
    exact ⟨fun h => (by cases h), fun h => absurd h.1 (Nat.not_le.2 long)⟩
  · rename_i short
    generalize h : openlockSign P kind (some key) (.bytes payload) ⟨true, 4096, true⟩ = answer
    obtain ⟨stores, zero⟩ := openlockSign_out h
    rw [← stores]
    cases stored : answer.out with
    | none =>
      have failed : answer.status ≠ 0 := fun h => (by simpa [stored] using zero.1 h)
      simp [failed]
    | some bytes =>
      have success : answer.status = 0 := zero.2 (by rw [stored]; rfl)
      simp [success, stored, Nat.not_lt.1 short]

end Signing

section Kotlin

theorem Kotlin.Wire.within_value {d : Nat} {t : Kotlin.Wire} (deep : t.depth < d) :
    t.value.Within d := by
  induction d generalizing t with
  | zero => exact absurd deep (Nat.not_lt_zero _)
  | succ d ih =>
    cases t with
    | uInt n => exact within_uint n _
    | items ts =>
      intro v mem
      rw [values_eq] at mem
      obtain ⟨t, ht, rfl⟩ := List.mem_map.1 mem
      simp only [depth] at deep
      exact ih (by have := (of_mem_items ht).1; omega)
    | _ => trivial

/-- The Kotlin payload is that of a grant with these fields. -/
theorem Kotlin.issueWire_value (g : Grant) (credentialID lockID subjectKey : Bytes)
    (rights epoch : UInt64) (validity : Option (UInt64 × UInt64)) (maxUses : Option UInt64) :
    grantValue g = (issueWire credentialID lockID subjectKey rights epoch validity maxUses).value ↔
      g.credentialId.bytes.toList = credentialID ∧ g.lockId.bytes.toList = lockID
      ∧ g.subjectKey.bytes.toList = subjectKey ∧ g.rights.toUInt64 = rights ∧ g.epoch = epoch
      ∧ g.validity.map (fun v => (v.notBefore, v.notAfter)) = validity
      ∧ g.maxUses.map UInt32.toUInt64 = maxUses := by
  have widen : ∀ (a : UInt32) (b : UInt64), a.toNat = b.toNat ↔ a.toUInt64 = b := by
    intro a b
    rw [← UInt64.toNat_inj, UInt32.toNat_toUInt64]
  obtain ⟨_, _, _, _, _, v, u⟩ := g
  cases v <;> cases validity <;> cases u <;> cases maxUses <;>
    simp [grantValue, issueWire, Wire.value, Wire.values, uint, credentialVersion,
      UInt64.toNat_inj, Prod.ext_iff, widen]

/-- The Kotlin issuer returns a credential exactly if its arguments are those of a request to
the issuer crate that is granted, and returns the same bytes. -/
theorem kotlin_issues_alike (codec : P.Ciborium) (genuine : key.Genuine P)
    (credentialID lockID subjectKey : Bytes) (rights epoch : UInt64)
    (validity : Option (UInt64 × UInt64)) (maxUses : Option UInt64) (out : Bytes) :
    Kotlin.issue P key credentialID lockID subjectKey rights epoch validity maxUses = .ok out
      ↔ ∃ r g, Issuer.issue P key r = .ok (g, out) ∧ r.credentialId.bytes.toList = credentialID
        ∧ r.lockId.bytes.toList = lockID ∧ r.subjectKey.bytes.toList = subjectKey
        ∧ r.rights.toUInt64 = rights ∧ r.epoch = epoch ∧ r.validity = validity
        ∧ r.maxUses.map UInt32.toUInt64 = maxUses := by
  have deep : (Kotlin.issueWire credentialID lockID subjectKey rights epoch validity
      maxUses).depth < 16 := by
    cases validity <;> cases maxUses <;> simp [Kotlin.issueWire, Kotlin.Wire.depth,
      Kotlin.Wire.depthItems]
  have fields := fun g => Kotlin.issueWire_value g credentialID lockID subjectKey rights epoch
    validity maxUses
  rw [Kotlin.issue, Kotlin.nativeSign_eq_ok, signPayload_eq_ok codec genuine]
  generalize Kotlin.issueWire credentialID lockID subjectKey rights epoch validity maxUses = t
    at deep fields
  simp only [Issuer.issue, bind_eq_ok, pure_eq_ok, Prod.mk.injEq]
  constructor
  · rintro ⟨short, _, o, grant, encoded, signs⟩
    cases o with
    | grant g =>
      obtain ⟨same, _⟩ := (encodeLimit_eq_ok codec (within_grantValue g)).1 encoded
      have small : t.encode.length < 2 ^ 64 := Nat.lt_of_le_of_lt short (by decide)
      have equal := Value.write_injective (within_grantValue g) (Kotlin.Wire.within_value deep)
        (by rw [same]; exact small) (same.trans (Kotlin.Wire.encode_eq_write deep small))
      have again : (g.validity.map fun v => (v.notBefore, v.notAfter)).map
          (fun v => (⟨v.1, v.2⟩ : Validity)) = g.validity := by
        cases g.validity <;> rfl
      refine ⟨⟨g.credentialId, g.lockId, g.subjectKey, g.rights, g.epoch,
        g.validity.map fun v => (v.notBefore, v.notAfter), g.maxUses⟩, g, ⟨out, ?_⟩,
        (fields g).1 equal⟩
      rw [again]
      exact ⟨signs, rfl, rfl⟩
    | _ => cases grant
  · rintro ⟨r, g, ⟨_, signs, is, rfl⟩, same⟩
    have equal := (fields g).2 (by rw [← is]; cases h : r.validity <;> simpa [h] using same)
    rw [is] at signs
    obtain ⟨_, _, made⟩ := bind_eq_ok.1 signs
    simp only [signObject, bind_eq_ok] at made
    obtain ⟨payload, encoded, _, _, _, _, outer⟩ := made
    obtain ⟨rfl, short⟩ := (encodeLimit_eq_ok codec (within_grantValue g)).1 encoded
    have most := Kotlin.Wire.length_encode_le deep
    rw [← equal] at most
    have small : t.encode.length ≤ maxMessageSize := most.trans short
    have written := Kotlin.Wire.encode_eq_write deep (Nat.lt_of_le_of_lt small (by decide))
    exact ⟨small, encode_fits outer, .grant g, rfl, by rw [written, ← equal]; exact encoded, signs⟩

def Stamp.grant : Grant :=
  ⟨⟨.replicate 16 1⟩, ⟨.replicate 16 2⟩, ⟨.replicate 32 3⟩, 1, 1, none, some 3⟩

theorem Stamp.kotlin_issues_alike_grant :
    Kotlin.issue primitives signer grant.credentialId.bytes.toList grant.lockId.bytes.toList
      grant.subjectKey.bytes.toList 1 1 none (some 3)
      = .ok (coseValue (grantValue grant) (stamp issuer)).write :=
  (kotlin_issues_alike (minimalPrimitives_ciborium _) signer_genuine _ _ _ _ _ _ _ _).2
    ⟨⟨grant.credentialId, grant.lockId, grant.subjectKey, 1, 1, none, some 3⟩, grant,
      by decide +kernel, rfl, rfl, rfl, rfl, rfl, rfl, rfl⟩

end Kotlin
end OpenLock
