import OpenLock.Crypto.Signing

/-! The client's store of trusted device keys (`TrustStore` of `trust.rs`). The storage is
modelled by the snapshot it durably holds; how a commit ends is an argument. -/
namespace OpenLock
open Cbor

structure TrustSnapshot where
  devices : Std.ExtTreeMap LockId DeviceKeyRecord

structure TrustStore where
  issuer : VerifyingKey
  snapshot : TrustSnapshot
  storage : TrustSnapshot
  poisoned : Bool

namespace TrustStore
variable (P : Primitives)

def new (issuer : VerifyingKey) : TrustStore := ⟨issuer, ⟨∅⟩, ⟨∅⟩, false⟩

/-- The checks of one record of a snapshot that is restored. -/
def checkRecord (issuer : VerifyingKey) (id : LockId) (record : DeviceKeyRecord) :
    Except Error Unit := do
  failIf (id ≠ record.key.deviceId) .storageUnavailable
  validateDeviceKey P record.key
  if record.signature.isEmpty then pure () else verifyDeviceKey P issuer record

/-- Restore the complete durable snapshot. -/
def fromSnapshot (issuer : VerifyingKey) (snapshot : TrustSnapshot) :
    Except Error TrustStore := do
  snapshot.devices.toList.forM fun entry => checkRecord P issuer entry.1 entry.2
  pure ⟨issuer, snapshot, snapshot, false⟩

def ensureHealthy (s : TrustStore) : Except Error Unit :=
  failIf (s.poisoned = true) .storageUnavailable

def get (s : TrustStore) (device : LockId) : Option DeviceKeyRecord :=
  if s.poisoned then none else s.snapshot.devices[device]?

/-- `TrustStore::snapshot`. -/
def exportSnapshot (s : TrustStore) : Except Error TrustSnapshot := do
  s.ensureHealthy
  pure s.snapshot

def commit (s : TrustStore) (next : TrustSnapshot) : CommitAnswer → Except Error Unit × TrustStore
  | .ok => (.ok (), { s with snapshot := next, storage := next })
  | .lost _ => (.error .storageUnavailable, { s with poisoned := true })
  | .written _ => (.error .storageUnavailable, { s with storage := next, poisoned := true })

/-- A mutation: its checks either fail and change nothing, or give the record to commit. -/
def mutate (s : TrustStore) (checked : Except Error DeviceKeyRecord) (answer : CommitAnswer) :
    Except Error Unit × TrustStore :=
  match checked with
  | .error e => (.error e, s)
  | .ok record => s.commit ⟨s.snapshot.devices.insert record.key.deviceId record⟩ answer

/-- The rule shared by `import` and `pin`: a known device keeps its key id and moves on. -/
def checkSuccessor (s : TrustStore) (key : DeviceKey) : Except Error Unit :=
  match s.snapshot.devices[key.deviceId]? with
  | none => pure ()
  | some old => failIf (old.key.keyId ≠ key.keyId ∨ key.keyVersion ≤ old.key.keyVersion) .staleKey

def checkImport (s : TrustStore) (record : DeviceKeyRecord) : Except Error DeviceKeyRecord := do
  s.ensureHealthy
  verifyDeviceKey P s.issuer record
  s.checkSuccessor record.key
  pure record

/-- `TrustStore::import`. -/
def importRecord (s : TrustStore) (record : DeviceKeyRecord) (answer : CommitAnswer) :
    Except Error Unit × TrustStore :=
  s.mutate (s.checkImport P record) answer

def checkPin (s : TrustStore) (key : DeviceKey) : Except Error DeviceKeyRecord := do
  s.ensureHealthy
  validateDeviceKey P key
  s.checkSuccessor key
  pure ⟨key, 0, []⟩

def pin (s : TrustStore) (key : DeviceKey) (answer : CommitAnswer) :
    Except Error Unit × TrustStore :=
  s.mutate (s.checkPin P key) answer

def checkUpdate (s : TrustStore) (u : KeyUpdate) (now : ClockSample) :
    Except Error DeviceKeyRecord := do
  s.ensureHealthy
  let _ ← now.validate
  let old ← okOr s.snapshot.devices[u.newRecord.key.deviceId]? .untrustedKey
  failIf (old.key.keyId ≠ u.oldKeyId ∨ u.newRecord.key.keyVersion ≤ old.key.keyVersion
    ∨ now.lower < u.notBefore ∨ now.upper ≥ u.retireAfter ∨ u.notBefore ≥ u.retireAfter) .staleKey
  verifyDeviceKey P s.issuer u.newRecord
  let signer ←
    if u.issuerKeyId.isSome then pure s.issuer
    else VerifyingKey.fromBytes P old.key.rotationPublicKey .untrustedKey
  failIf ((← verifyObject P signer updateDomain u.signature) ≠ keyUpdateValue u) .invalidPayload
  pure u.newRecord

def applyUpdate (s : TrustStore) (u : KeyUpdate) (now : ClockSample) (answer : CommitAnswer) :
    Except Error Unit × TrustStore :=
  s.mutate (s.checkUpdate P u now) answer

section Checks
variable {P} {s : TrustStore} {r : DeviceKeyRecord} {key : DeviceKey}

@[simp] theorem ensureHealthy_eq_ok : s.ensureHealthy = .ok () ↔ s.poisoned = false := by
  simp [ensureHealthy]

private theorem forM_eq_ok {α : Type} {f : α → Except Error Unit} {l : List α}
    {u : Unit} : l.forM f = .ok u ↔ ∀ a ∈ l, f a = .ok () := by
  induction l with
  | nil => exact ⟨fun _ a mem => (by cases mem), fun _ => rfl⟩
  | cons a l ih =>
    rw [List.forM_eq_forM, List.forM_cons, bind_eq_ok, ← List.forM_eq_forM, List.forall_mem_cons]
    exact ⟨fun ⟨_, first, rest⟩ => ⟨first, ih.1 rest⟩, fun ⟨first, rest⟩ => ⟨(), first, ih.2 rest⟩⟩

/-- A snapshot is restored exactly when every record passes, and is then kept as it is. -/
theorem fromSnapshot_eq_ok {issuer : VerifyingKey} {snapshot : TrustSnapshot} :
    fromSnapshot P issuer snapshot = .ok s ↔
      (∀ id record, snapshot.devices[id]? = some record →
        checkRecord P issuer id record = .ok ()) ∧ s = ⟨issuer, snapshot, snapshot, false⟩ := by
  simp only [fromSnapshot, bind_eq_ok, forM_eq_ok, pure_eq_ok, Prod.forall,
    Std.ExtTreeMap.mem_toList_iff_getElem?_eq_some]
  constructor
  · rintro ⟨_, each, same⟩
    exact ⟨each, same.symm⟩
  · rintro ⟨each, same⟩
    exact ⟨(), each, same.symm⟩

/-- The key may replace what the store holds for its device. -/
def Succeeds (s : TrustStore) (key : DeviceKey) : Prop :=
  ∀ old, s.snapshot.devices[key.deviceId]? = some old →
    old.key.keyId = key.keyId ∧ old.key.keyVersion < key.keyVersion

theorem checkSuccessor_eq_ok : s.checkSuccessor key = .ok () ↔ s.Succeeds key := by
  unfold checkSuccessor Succeeds
  split
  · rename_i none
    simp [none]
  · rename_i old some
    simp [some]

theorem checkImport_eq_ok {record r : DeviceKeyRecord} :
    s.checkImport P record = .ok r ↔ s.poisoned = false ∧
      verifyDeviceKey P s.issuer record = .ok () ∧ s.Succeeds record.key ∧ record = r := by
  simp only [checkImport, bind_eq_ok, pure_eq_ok]
  constructor
  · rintro ⟨_, healthy, _, verified, _, successor, rfl⟩
    exact ⟨ensureHealthy_eq_ok.1 healthy, verified, checkSuccessor_eq_ok.1 successor, rfl⟩
  · rintro ⟨healthy, verified, successor, rfl⟩
    exact ⟨(), ensureHealthy_eq_ok.2 healthy, (), verified, (), checkSuccessor_eq_ok.2 successor,
      rfl⟩

theorem checkPin_eq_ok : s.checkPin P key = .ok r ↔ s.poisoned = false ∧
      validateDeviceKey P key = .ok () ∧ s.Succeeds key ∧ ⟨key, 0, []⟩ = r := by
  simp only [checkPin, bind_eq_ok, pure_eq_ok]
  constructor
  · rintro ⟨_, healthy, _, valid, _, successor, rfl⟩
    exact ⟨ensureHealthy_eq_ok.1 healthy, valid, checkSuccessor_eq_ok.1 successor, rfl⟩
  · rintro ⟨healthy, valid, successor, rfl⟩
    exact ⟨(), ensureHealthy_eq_ok.2 healthy, (), valid, (), checkSuccessor_eq_ok.2 successor, rfl⟩

/-- What `apply_update` accepts against the record it replaces, all its checks in one place. -/
structure Updates (P : Primitives) (issuer : VerifyingKey) (old : DeviceKey) (u : KeyUpdate)
    (now : ClockSample) : Prop where
  ordered : now.lower ≤ now.upper
  oldKey : old.keyId = u.oldKeyId
  version : old.keyVersion < u.newRecord.key.keyVersion
  opened : u.notBefore ≤ now.lower
  unretired : now.upper < u.retireAfter
  window : u.notBefore < u.retireAfter
  record : verifyDeviceKey P issuer u.newRecord = .ok ()
  point : u.issuerKeyId = none → P.isPoint old.rotationPublicKey = true
  signed : verifyObject P (if u.issuerKeyId.isSome then issuer else ⟨old.rotationPublicKey⟩)
    updateDomain u.signature = .ok (keyUpdateValue u)

theorem checkUpdate_eq_ok {u : KeyUpdate} {now : ClockSample} :
    s.checkUpdate P u now = .ok r ↔ s.poisoned = false ∧
      (∃ old, s.snapshot.devices[u.newRecord.key.deviceId]? = some old ∧
        Updates P s.issuer old.key u now) ∧ u.newRecord = r := by
  simp only [checkUpdate, bind_eq_ok, ClockSample.validate_eq_ok, okOr_eq_ok, failIf_eq_ok, not_or,
    UInt32.not_le, UInt64.not_lt, ge_iff_le, UInt64.not_le, not_not]
  constructor
  · rintro ⟨_, healthy, _, ⟨ordered, _⟩, old, found, _,
      ⟨oldKey, version, opened, unretired, window⟩, _, record, h⟩
    have signer : (u.issuerKeyId = none → P.isPoint old.key.rotationPublicKey = true) ∧
        verifyObject P (if u.issuerKeyId.isSome then s.issuer else ⟨old.key.rotationPublicKey⟩)
          updateDomain u.signature = .ok (keyUpdateValue u) ∧ u.newRecord = r := by
      split_ifs at h ⊢ with root
      · simp only [bind_eq_ok, pure_eq_ok, failIf_eq_ok, not_not] at h
        obtain ⟨_, rfl, _, signed, _, rfl, rfl⟩ := h
        exact ⟨fun none => by simp [none] at root, signed, rfl⟩
      · simp only [bind_eq_ok, pure_eq_ok, VerifyingKey.fromBytes_eq_ok, failIf_eq_ok,
          not_not] at h
        obtain ⟨_, ⟨point, rfl⟩, _, signed, _, rfl, rfl⟩ := h
        exact ⟨fun _ => point, signed, rfl⟩
    exact ⟨ensureHealthy_eq_ok.1 healthy, ⟨old, found, ordered, oldKey, version, opened, unretired,
      window, record, signer.1, signer.2.1⟩, signer.2.2⟩
  · rintro ⟨healthy, ⟨old, found, h⟩, rfl⟩
    refine ⟨(), ensureHealthy_eq_ok.2 healthy, _, ⟨h.ordered, rfl⟩, old, found, (),
      ⟨h.oldKey, h.version, h.opened, h.unretired, h.window⟩, (), h.record, ?_⟩
    have signed := h.signed
    split_ifs at signed ⊢ with root
    · simp only [bind_eq_ok, pure_eq_ok, failIf_eq_ok, not_not]
      exact ⟨_, rfl, _, signed, (), rfl, trivial⟩
    · simp only [bind_eq_ok, pure_eq_ok, VerifyingKey.fromBytes_eq_ok, failIf_eq_ok, not_not]
      exact ⟨_, ⟨h.point (by simpa using root), rfl⟩, _, signed, (), rfl, trivial⟩

end Checks
end TrustStore
end OpenLock
