import OpenLock.Crypto.Signing
import OpenLock.Ffi.Session
import OpenLock.Kotlin.Wire

/-! The ways to sign what a lock reads: the issuer crate, the C function `openlock_sign` and
the Kotlin issuer, which calls it through JNI. -/
namespace OpenLock
open Cbor

/-- `IssueRequest`. -/
structure IssueRequest where
  credentialId : CredentialId
  lockId : LockId
  subjectKey : SubjectKey
  rights : UInt32
  epoch : UInt64
  validity : Option (UInt64 × UInt64)
  maxUses : Option UInt32

variable (P : Primitives)

/-- `Issuer::issue`. -/
def Issuer.issue (key : SigningKey) (r : IssueRequest) : Except Error (Grant × Bytes) := do
  let grant : Grant := ⟨r.credentialId, r.lockId, r.subjectKey, r.rights, r.epoch,
    r.validity.map fun v => ⟨v.1, v.2⟩, r.maxUses⟩
  pure (grant, ← signGrant P key grant)

/-- The closure of `openlock_sign`: decode the payload, sign it as its kind. -/
def signPayload (kind : UInt32) (key : SigningKey) (bytes : Bytes) : Except Error Bytes := do
  let v ← decode P bytes
  if kind = 0 then signGrant P key (← parseGrant v)
  else if kind = 1 then
    let signed ← signObject P key policyDomain v
    let _ ← readPolicy P key.verifyingKey signed
    pure signed
  else if kind = 2 then signManifest P key (← Wire.parse v)
  else if kind = 3 ∨ kind = 4 then signTrustPayload P key kind v
  else .error .invalidPayload

/-- `openlock_sign`; the pointer to the private key may be null. -/
def openlockSign (kind : UInt32) (key : Option SigningKey) (data : CInput) (b : CBuffer) : CAnswer :=
  match key with
  | none => { status := -1 }
  | some key =>
    match data.read with
    | .error e => { status := e }
    | .ok bytes =>
      match signPayload P kind key bytes with
      | .ok signed => copy signed b
      | .error e => { status := e.status }

namespace Kotlin

/-- `Native.sign`, with its two buffers of 4096 bytes. -/
def nativeSign (kind : UInt32) (key : SigningKey) (payload : Bytes) : Except Int Bytes :=
  if payload.length > 4096 then .error 1
  else
    let answer := openlockSign P kind (some key) (.bytes payload) ⟨true, 4096, true⟩
    if answer.status ≠ 0 then .error answer.status else .ok (answer.out.getD [])

/-- The payload of `OpenLockIssuer.issue`. -/
def issueWire (credentialID lockID subjectKey : Bytes) (rights epoch : UInt64)
    (validity : Option (UInt64 × UInt64)) (maxUses : Option UInt64) : Wire :=
  .items [.uInt 2, .text "grant", .bytes credentialID, .bytes lockID, .bytes subjectKey,
    .uInt rights, .uInt epoch,
    (validity.map fun v => .items [.uInt v.1, .uInt v.2]).getD .null, (maxUses.map .uInt).getD .null]

/-- `OpenLockIssuer.issue`. -/
def issue (key : SigningKey) (credentialID lockID subjectKey : Bytes) (rights epoch : UInt64)
    (validity : Option (UInt64 × UInt64)) (maxUses : Option UInt64) : Except Int Bytes :=
  nativeSign P 0 key (issueWire credentialID lockID subjectKey rights epoch validity maxUses).encode

end Kotlin
end OpenLock
