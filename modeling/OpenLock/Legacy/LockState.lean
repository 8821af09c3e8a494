import OpenLock.Effects.Complete
import OpenLock.Device.Snapshot

/-! The legacy v2 authorization domain of `openlock-core`: `LockState` over a store that
may fail at any commit, and the actuator callback of `authorize_and_consume`. -/
namespace OpenLock
open Effects

inductive Authorization where
  | longLived
  | timed
  | counted (used max : UInt32)
  deriving DecidableEq

inductive Decision where
  | authorized (authorization : Authorization)
  | alreadyConsumed (nextUse : UInt32)
  deriving DecidableEq

inductive ActuationError where
  | failed
  deriving DecidableEq

/-- Calls of `PersistentState` and of the actuator callback. -/
inductive LockEffect where
  | commit (next : LockSnapshot)
  | actuator

abbrev LockAnswer : LockEffect → Type
  | .commit _ => Except Error Unit
  | .actuator => Except ActuationError Unit

structure LockState where
  lockId : LockId
  issuer : VerifyingKey
  snapshot : LockSnapshot
  poisoned : Bool

/-- A method of `LockState`; an error keeps what it changed. -/
abbrev LockM (α : Type) := ExceptT Error (StateT LockState (Prog LockAnswer)) α

section Signatures
variable (P : Primitives)

def verifyGrant (key : VerifyingKey) (grant : Grant) (cose : Bytes) : Except Error Unit := do
  failIf ((← readGrant P key cose) ≠ grant) .invalidPayload

def verifyPolicy (key : VerifyingKey) (policy : PolicyUpdate) (cose : Bytes) : Except Error Unit := do
  failIf ((← readPolicy P key cose) ≠ policy) .invalidPayload

end Signatures

namespace LockSnapshot

def new : LockSnapshot := ⟨0, 0, ∅, ∅⟩

/-- The recorded uses of a credential. -/
def used (s : LockSnapshot) (id : CredentialId) : UInt32 := s.usage[id]?.getD 0

/-- The snapshot under a policy: a later epoch starts afresh. -/
def apply (s : LockSnapshot) (update : PolicyUpdate) : LockSnapshot :=
  let next := if update.epoch > s.epoch then ⟨update.epoch, 0, ∅, ∅⟩ else s
  { next with policyVersion := update.version, revoked := next.revoked ∪ update.revoked }

/-- One more use than `used` is recorded. -/
def count (s : LockSnapshot) (id : CredentialId) (used : UInt32) : LockSnapshot :=
  { s with usage := s.usage.insert id (used + 1) }

end LockSnapshot

namespace LockState

def new (lockId : LockId) (issuer : VerifyingKey) : LockState := ⟨lockId, issuer, .new, false⟩

def ensureHealthy (lock : LockState) : Except Error Unit :=
  failIf (lock.poisoned = true) .storageUnavailable

/-- A failed commit may have been written, so nothing is decided on this state again. -/
def commit (next : LockSnapshot) : LockM Unit := do
  match ← ask (LockEffect.commit next) with
  | .error _ => do
    modify fun lock => { lock with poisoned := true }
    throw .storageUnavailable
  | .ok () => modify fun lock => { lock with snapshot := next }

variable (P : Primitives)

/-- The checks of `apply_policy`, all before its commit. -/
def checkPolicy (lock : LockState) (update : PolicyUpdate) (signature : Bytes) :
    Except Error Unit := do
  lock.ensureHealthy
  failIf (update.lockId ≠ lock.lockId ∨ update.epoch < lock.snapshot.epoch
    ∨ (update.epoch = lock.snapshot.epoch ∧ update.version ≤ lock.snapshot.policyVersion))
    .stalePolicy
  verifyPolicy P lock.issuer update signature

def applyPolicy (update : PolicyUpdate) (signature : Bytes) : LockM Unit := do
  let lock ← get
  ofExcept (lock.checkPolicy P update signature)
  commit (lock.snapshot.apply update)

/-- A grant with a window needs a valid interval inside it. -/
def checkWindow (validity : Option Validity) (now : Option ClockSample) : Except Error Unit :=
  match validity with
  | none => .ok ()
  | some validity => do
    let clock ← (← okOr now .clockUntrusted).validate
    failIf (clock.lower < validity.notBefore ∨ clock.upper ≥ validity.notAfter) .expired

/-- The checks of `authorize_with_rights` before any use is counted. -/
def checkGrant (lock : LockState) (grant : Grant) (signature : Bytes) (subjectKey : SubjectKey)
    (now : Option ClockSample) (requiredRights : UInt32) : Except Error Unit := do
  lock.ensureHealthy
  failIf (grant.lockId ≠ lock.lockId) .wrongLock
  failIf (grant.epoch ≠ lock.snapshot.epoch) .staleEpoch
  verifyGrant P lock.issuer grant signature
  failIf (grant.subjectKey ≠ subjectKey) .badSignature
  failIf (grant.rights &&& requiredRights ≠ requiredRights) .missingRight
  failIf (grant.credentialId ∈ lock.snapshot.revoked) .revoked
  checkWindow grant.validity now

/-- The decision on a grant without a use limit. -/
def unlimited (grant : Grant) (requestedUse : Option UInt32) : Except Error Decision := do
  failIf (requestedUse.isSome = true) .invalidConsumption
  pure (.authorized (if grant.validity.isSome then .timed else .longLived))

def authorizeWithRights (lock : LockState) (grant : Grant) (signature : Bytes)
    (subjectKey : SubjectKey) (now : Option ClockSample) (requestedUse : Option UInt32)
    (requiredRights : UInt32) : Except Error Decision := do
  lock.checkGrant P grant signature subjectKey now requiredRights
  if requiredRights &&& rightsUnlock = 0 then unlimited grant requestedUse
  else
    let used := lock.snapshot.used grant.credentialId
    match grant.maxUses with
    | some max =>
      failIf (used ≥ max) .usageExhausted
      let sequence ← okOr requestedUse .invalidConsumption
      if sequence < used then pure (.alreadyConsumed used)
      else
        failIf (sequence ≠ used) .invalidConsumption
        pure (.authorized (.counted used max))
    | none => unlimited grant requestedUse

def authorize (lock : LockState) (grant : Grant) (signature : Bytes) (subjectKey : SubjectKey)
    (now : Option ClockSample) (requestedUse : Option UInt32) : Except Error Decision :=
  lock.authorizeWithRights P grant signature subjectKey now requestedUse rightsUnlock

/-- The snapshot that `consume` commits; only a counted decision has one. -/
def nextUse (lock : LockState) (grant : Grant) (decision : Decision) :
    Except Error (Option LockSnapshot) := do
  lock.ensureHealthy
  match decision with
  | .authorized (.counted used max) => do
    failIf (grant.maxUses ≠ some max) .invalidConsumption
    failIf (lock.snapshot.used grant.credentialId ≠ used) .invalidConsumption
    failIf (used ≥ max) .usageExhausted
    pure (some (lock.snapshot.count grant.credentialId used))
  | _ => pure none

def consume (grant : Grant) (decision : Decision) : LockM Unit := do
  let lock ← get
  match ← ofExcept (lock.nextUse grant decision) with
  | some next => commit next
  | none => pure ()

def authorizeAndConsume (grant : Grant) (signature : Bytes) (peer : SubjectKey)
    (now : Option ClockSample) (useNumber : Option UInt32) : LockM Unit := do
  let lock ← get
  let decision ← ofExcept (lock.authorize P grant signature peer now useNumber)
  match decision with
  | .alreadyConsumed _ => throw .invalidConsumption
  | .authorized _ => do
    consume grant decision
    match ← ask LockEffect.actuator with
    | .ok () => pure ()
    | .error _ => throw .actuatorFailed

end LockState

/-- The calls that several callers make on one lock. -/
inductive LockCall where
  | applyPolicy (update : PolicyUpdate) (signature : Bytes)
  | authorize (grant : Grant) (signature : Bytes) (subjectKey : SubjectKey)
      (now : Option ClockSample) (requestedUse : Option UInt32) (requiredRights : UInt32)
  | consume (grant : Grant) (decision : Decision)
  | authorizeAndConsume (grant : Grant) (signature : Bytes) (peer : SubjectKey)
      (now : Option ClockSample) (useNumber : Option UInt32)

/-- A call and what it returns: a decision, or nothing. -/
def LockCall.run (P : Primitives) : LockCall → LockM (Option Decision)
  | .applyPolicy update signature => do
    LockState.applyPolicy P update signature
    pure none
  | .authorize grant signature subjectKey now requestedUse requiredRights => do
    let lock ← get
    let decision ← ofExcept
      (lock.authorizeWithRights P grant signature subjectKey now requestedUse requiredRights)
    pure (some decision)
  | .consume grant decision => do
    LockState.consume grant decision
    pure none
  | .authorizeAndConsume grant signature peer now useNumber => do
    LockState.authorizeAndConsume P grant signature peer now useNumber
    pure none

/-- The grant a call presents. -/
def LockCall.grant : LockCall → Option Grant
  | .applyPolicy _ _ => none
  | .authorize grant _ _ _ _ _ | .consume grant _ | .authorizeAndConsume grant _ _ _ _ => some grant

/-- A call that was made: its effects with their answers, its result and the state it left. -/
structure LockRecord where
  before : LockState
  call : LockCall
  trace : List (Event LockAnswer)
  result : Except Error (Option Decision)
  after : LockState

/-- Calls made one after another, each with any answers of the store and the actuator. -/
inductive LockRun (P : Primitives) : LockState → List LockRecord → LockState → Prop
  | nil (lock : LockState) : LockRun P lock [] lock
  | cons {r : LockRecord} {records : List LockRecord} {lock : LockState}
      (made : TakesE (r.call.run P) r.before r.trace r.result r.after)
      (rest : LockRun P r.after records lock) : LockRun P r.before (r :: records) lock

end OpenLock
