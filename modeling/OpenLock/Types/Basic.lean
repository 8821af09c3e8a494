import Mathlib.Algebra.Ring.Int.Defs
import Mathlib.Data.UInt
import Mathlib.Data.List.Basic
import Std.Data.ExtTreeMap
import Std.Data.ExtTreeSet

/-! Shared domain values of `openlock-types`. Machine integers keep their width;
a fixed byte array is a vector and a B-tree collection is an extensional tree. -/
namespace OpenLock
variable {α β : Type} {x : Except Error α} {a b : UInt64} {e : Error}

abbrev Bytes := List UInt8
abbrev Bytes16 := Vector UInt8 16
abbrev Bytes32 := Vector UInt8 32

def maxObjectSize : Nat := 4096
def maxMessageSize : Nat := 4096
def credentialVersion : UInt64 := 2

def rightsUnlock : UInt32 := 1
def rightsStatus : UInt32 := 2
def rightsLock : UInt32 := 4
def rightsLog : UInt32 := 8
def rightsConfig : UInt32 := 16
def rightsCredentials : UInt32 := 32
def rightsClock : UInt32 := 64
def rightsReboot : UInt32 := 128
def rightsFirmware : UInt32 := 256
def rightsReset : UInt32 := 512
def rightsTrust : UInt32 := 1024
def knownRights : UInt32 := 2047
def knownCapabilities : UInt64 := ((1 : UInt64) <<< 23) - 1

structure LockId where
  bytes : Bytes16
  deriving DecidableEq

structure CredentialId where
  bytes : Bytes16
  deriving DecidableEq

structure SubjectKey where
  bytes : Bytes32
  deriving DecidableEq

instance : Ord CredentialId := ⟨fun a b => compare a.bytes b.bytes⟩

instance : Std.TransOrd CredentialId :=
  inferInstanceAs (Std.TransCmp (compareOn CredentialId.bytes))

instance : Std.LawfulEqOrd CredentialId where
  eq_of_compare {a b} h := by
    have he : a.bytes = b.bytes := Std.LawfulEqOrd.eq_of_compare (α := Bytes16) h
    cases a
    cases b
    exact congrArg CredentialId.mk he

instance : Ord LockId := ⟨fun a b => compare a.bytes b.bytes⟩

instance : Std.TransOrd LockId :=
  inferInstanceAs (Std.TransCmp (compareOn LockId.bytes))

instance : Std.LawfulEqOrd LockId where
  eq_of_compare {a b} h := by
    have he : a.bytes = b.bytes := Std.LawfulEqOrd.eq_of_compare (α := Bytes16) h
    cases a
    cases b
    exact congrArg LockId.mk he

/-- `BTreeMap<CredentialId, _>` and `BTreeSet<CredentialId>`. -/
abbrev CredentialMap (β : Type) := Std.ExtTreeMap CredentialId β
abbrev CredentialSet := Std.ExtTreeSet CredentialId

structure Validity where
  notBefore : UInt64
  notAfter : UInt64
  deriving DecidableEq

structure Grant where
  credentialId : CredentialId
  lockId : LockId
  subjectKey : SubjectKey
  rights : UInt32
  epoch : UInt64
  validity : Option Validity
  maxUses : Option UInt32
  deriving DecidableEq

structure PolicyUpdate where
  lockId : LockId
  epoch : UInt64
  version : UInt64
  revoked : CredentialSet
  deriving DecidableEq

structure ClockSample where
  lower : UInt64
  upper : UInt64
  deriving DecidableEq

structure DeviceKey where
  deviceId : LockId
  keyId : UInt32
  keyVersion : UInt32
  x25519PublicKey : Bytes32
  rotationPublicKey : Bytes32
  capabilities : UInt64
  deriving DecidableEq

structure DeviceKeyRecord where
  key : DeviceKey
  issuerKeyId : UInt32
  signature : Bytes
  deriving DecidableEq

structure KeyUpdate where
  oldKeyId : UInt32
  newRecord : DeviceKeyRecord
  notBefore : UInt64
  retireAfter : UInt64
  issuerKeyId : Option UInt32
  signature : Bytes
  deriving DecidableEq

inductive Error where
  | objectTooLarge | invalidCose | invalidPayload | badSignature | wrongLock | revoked
  | staleEpoch | expired | clockUntrusted | usageExhausted | stalePolicy | storageUnavailable
  | invalidConsumption | missingRight | noise | unsupportedVersion | invalidState
  | unsupportedCapability | untrustedKey | staleKey | actuatorFailed | invalidNfc | busy
  | doorOpen | privacyActive | jammed | actionTimeout | sensorConflict | invalidConfig
  | conflict | resultUnavailable | notProvisioned | alreadyProvisioned | pairingClosed
  | invalidSetupKey | physicalConfirmationRequired | clockRollback | firmwareInvalid
  | firmwareTargetMismatch | firmwareRollback | firmwareConflict | firmwareIncomplete
  | powerInsufficient | bootFailed | resourceExhausted
  deriving DecidableEq, Repr

/-- Stable, positive wire codes. -/
def Error.code : Error → UInt32
  | .objectTooLarge => 1 | .invalidCose => 2 | .invalidPayload => 3 | .badSignature => 4
  | .wrongLock => 5 | .revoked => 6 | .staleEpoch => 7 | .expired => 8
  | .clockUntrusted => 9 | .usageExhausted => 10 | .stalePolicy => 11
  | .storageUnavailable => 12 | .invalidConsumption => 13 | .missingRight => 14
  | .noise => 15 | .unsupportedVersion => 16 | .invalidState => 17
  | .unsupportedCapability => 18 | .untrustedKey => 19 | .staleKey => 20
  | .actuatorFailed => 21 | .invalidNfc => 22 | .busy => 32 | .doorOpen => 33
  | .privacyActive => 34 | .jammed => 35 | .actionTimeout => 36 | .sensorConflict => 37
  | .invalidConfig => 38 | .conflict => 39 | .resultUnavailable => 40
  | .notProvisioned => 41 | .alreadyProvisioned => 42 | .pairingClosed => 43
  | .invalidSetupKey => 44 | .physicalConfirmationRequired => 45 | .clockRollback => 46
  | .firmwareInvalid => 47 | .firmwareTargetMismatch => 48 | .firmwareRollback => 49
  | .firmwareConflict => 50 | .firmwareIncomplete => 51 | .powerInsufficient => 52
  | .bootFailed => 53 | .resourceExhausted => 54

/-- How a storage commit ends. A failed one may or may not have written. -/
inductive CommitAnswer where
  | ok
  | lost (e : Error)
  | written (e : Error)
  deriving DecidableEq

def ClockSample.validate (c : ClockSample) : Except Error ClockSample :=
  if c.lower > c.upper then .error .clockUntrusted else .ok c

/-- `Option::ok_or`. -/
def okOr {α : Type} (o : Option α) (e : Error) : Except Error α :=
  match o with
  | some a => .ok a
  | none => .error e

/-- A guard clause: `if p { return Err(e); }`. -/
def failIf {m : Type → Type} [Monad m] [MonadExceptOf Error m] (p : Prop) [Decidable p]
    (e : Error) : m Unit :=
  if p then throw e else pure ()

/-! Reading a successful result back: each step of a fallible computation succeeded. -/

@[simp] theorem bind_eq_ok {f : α → Except Error β} {b : β} :
    (x >>= f) = .ok b ↔ ∃ a, x = .ok a ∧ f a = .ok b := by
  cases x with
  | error e => exact ⟨(nomatch ·), fun ⟨_, h, _⟩ => (by cases h)⟩
  | ok a => exact ⟨fun h => ⟨a, rfl, h⟩, fun ⟨_, h, h'⟩ => by cases h; exact h'⟩

@[simp] theorem map_eq_ok {g : α → β} {b : β} : g <$> x = .ok b ↔ ∃ a, x = .ok a ∧ g a = b := by
  cases x with
  | error e => exact ⟨(nomatch ·), fun ⟨_, h, _⟩ => (by cases h)⟩
  | ok a => exact ⟨fun h => ⟨a, rfl, Except.ok.inj h⟩, fun ⟨_, h, h'⟩ => by cases h; rw [← h']; rfl⟩

@[simp] theorem pure_eq_ok {a b : α} : (pure a : Except Error α) = .ok b ↔ a = b := by
  simp [pure, Except.pure]

@[simp] theorem failIf_eq_ok {p : Prop} [Decidable p] {u : Unit} :
    (failIf p e : Except Error Unit) = .ok u ↔ ¬ p := by
  unfold failIf
  split <;> simp_all [throw, throwThe, MonadExceptOf.throw, pure, Except.pure]

@[simp] theorem okOr_eq_ok {o : Option α} {a : α} : okOr o e = .ok a ↔ o = some a := by
  cases o <;> simp [okOr]

@[simp] theorem mapError_eq_ok {g : Error → Error} {a : α} : x.mapError g = .ok a ↔ x = .ok a := by
  cases x <;> simp [Except.mapError]

/-- `u64::checked_add`, and the `u32` one below. -/
def checkedAdd (a b : UInt64) : Option UInt64 :=
  if a.toNat + b.toNat < 2^64 then some (a + b) else none

def checkedAdd32 (a b : UInt32) : Option UInt32 :=
  if a.toNat + b.toNat < 2^32 then some (a + b) else none

/-- `u64::saturating_add` and `u64::saturating_sub`. -/
def saturatingAdd (a b : UInt64) : UInt64 := (checkedAdd a b).getD (2^64 - 1)

def saturatingSub (a b : UInt64) : UInt64 := if b ≤ a then a - b else 0

theorem checkedAdd_eq_some {a b c : UInt64} (h : checkedAdd a b = some c) :
    c = a + b ∧ c.toNat = a.toNat + b.toNat := by
  unfold checkedAdd at h
  split at h
  · rename_i hb
    cases h
    exact ⟨rfl, by rw [UInt64.toNat_add, Nat.mod_eq_of_lt hb]⟩
  · cases h

theorem checkedAdd32_eq_some {a b c : UInt32} (h : checkedAdd32 a b = some c) :
    c = a + b ∧ c.toNat = a.toNat + b.toNat := by
  unfold checkedAdd32 at h
  split at h
  · rename_i hb
    cases h
    exact ⟨rfl, by rw [UInt32.toNat_add, Nat.mod_eq_of_lt hb]⟩
  · cases h

theorem checkedAdd_one (h : checkedAdd a 1 = some b) : b = a + 1 ∧ a.toNat + 1 < 2^64 := by
  obtain ⟨rfl, sum⟩ := checkedAdd_eq_some h
  have lt := (a + 1).toNat_lt
  rw [sum] at lt
  exact ⟨rfl, lt⟩

theorem lt_succ {n : UInt64} (h : n.toNat + 1 < 2^64) : n < n + 1 := by
  rw [UInt64.lt_iff_toNat_lt, UInt64.toNat_add]
  have one : (1 : UInt64).toNat = 1 := rfl
  omega

theorem checkedAdd_isSome (h : a.toNat + b.toNat < 2^64) : checkedAdd a b = some (a + b) := if_pos h

end OpenLock
