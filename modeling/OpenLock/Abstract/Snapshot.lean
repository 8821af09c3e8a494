import Mathlib.Data.List.Forall2
import Mathlib.Tactic.Simps.Basic
import OpenLock.Device.Hardware

/-! The parts of a snapshot an abstract change speaks about: the authorization
state, the bounded audit log, the clock watermark and the operation records. -/
namespace OpenLock
open Controller
variable {id : CredentialId} {seq : UInt64}

/-- Everything of a snapshot that only an authorized request may change. -/
structure AuthState where
  format : UInt32
  lockId : LockId
  owner : Option Owner
  epoch : UInt64
  generation : UInt64
  policyVersion : UInt64
  revoked : CredentialSet
  uses : CredentialMap UInt32
  watermarks : CredentialMap UInt64
  bindings : CredentialMap Bytes32
  config : DeviceConfig
  firmware : FirmwareStatus
  signedManifest : Bytes
  deviceKey : DeviceKey

@[simps] def DeviceSnapshot.auth (s : DeviceSnapshot) : AuthState :=
  ⟨s.format, s.lockId, s.owner, s.epoch, s.generation, s.policyVersion, s.revoked, s.uses,
    s.watermarks, s.bindings, s.config, s.firmware, s.signedManifest, s.deviceKey⟩

/-- The identity of an operation record. -/
abbrev OpKey := CredentialId × UInt64

def OperationRecord.key (r : OperationRecord) : OpKey := (r.status.credentialId, r.status.sequence)

def Active.key (a : Active) : OpKey := (a.credentialId, a.sequence)

/-- The clock watermark order, as `commit` compares it. -/
def FloorLe (a b : Option UInt64) : Prop := floorBelow b a = false

theorem FloorLe.refl (a : Option UInt64) : FloorLe a a := by
  cases a <;> simp [FloorLe, floorBelow]

theorem floorLe_some {a b : UInt64} : FloorLe (some a) (some b) ↔ a ≤ b := by
  simp [FloorLe, floorBelow]

theorem FloorLe.none (b : Option UInt64) : FloorLe none b := by
  cases b <;> rfl

theorem FloorLe.trans {a b c : Option UInt64} (h : FloorLe a b) (h' : FloorLe b c) :
    FloorLe a c := by
  cases a with
  | none => exact .none c
  | some a =>
    cases b with
    | none => simp [FloorLe, floorBelow] at h
    | some b =>
      cases c with
      | none => simp [FloorLe, floorBelow] at h'
      | some c => exact floorLe_some.2 (UInt64.le_trans (floorLe_some.1 h) (floorLe_some.1 h'))

/-- Appending any number of events with consecutive cursors to a bounded log. -/
inductive Logs (capacity : Nat) (es : List AuditEvent) (cursor : UInt64) :
    List AuditEvent → UInt64 → Prop
  | refl : Logs capacity es cursor es cursor
  | push {es' : List AuditEvent} {cursor' : UInt64} (before : Logs capacity es cursor es' cursor')
      (e : AuditEvent) (numbered : e.cursor = cursor') (room : cursor'.toNat + 1 < 2^64) :
      Logs capacity es cursor (pushBounded capacity es' e) (cursor' + 1)

namespace Logs
variable {capacity : Nat} {es es' es'' : List AuditEvent} {n n' n'' : UInt64}

theorem trans (h : Logs capacity es n es' n') (h' : Logs capacity es' n' es'' n'') :
    Logs capacity es n es'' n'' := by
  induction h' with
  | refl => exact h
  | push _ e numbered room ih => exact .push ih e numbered room

theorem cursor_le (h : Logs capacity es n es' n') : n.toNat ≤ n'.toNat := by
  induction h with
  | refl => exact Nat.le_refl _
  | push _ e numbered room ih =>
    rw [UInt64.toNat_add]
    have one : (1 : UInt64).toNat = 1 := rfl
    omega

end Logs

/-- The log with its cursor, and the clock. -/
def DeviceSnapshot.log (s : DeviceSnapshot) : List AuditEvent × UInt64 × Option UInt64 × Bool :=
  (s.events, s.nextCursor, s.clockFloor, s.clockValid)

/-- A clock interval that this snapshot trusts: the clock is set, and the interval is in
order and not below the watermark. -/
def DeviceSnapshot.trusts (s : DeviceSnapshot) (r : ClockSample) : Bool :=
  s.clockValid && r.lower ≤ r.upper && s.clockFloor.all fun floor => floor ≤ r.lower

/-- What every durable change but the setting of the clock does to the log and the clock. -/
structure Logged (capacity : Nat) (a b : DeviceSnapshot) : Prop where
  events : Logs capacity a.events a.nextCursor b.events b.nextCursor
  floor : FloorLe a.clockFloor b.clockFloor
  clock : b.clockValid = true → a.clockValid = true

namespace Logged
variable {capacity : Nat} {a b c : DeviceSnapshot}

theorem refl (a : DeviceSnapshot) : Logged capacity a a := ⟨.refl, .refl _, id⟩

theorem trans (h : Logged capacity a b) (h' : Logged capacity b c) : Logged capacity a c :=
  ⟨h.events.trans h'.events, h.floor.trans h'.floor, fun valid => h.clock (h'.clock valid)⟩

/-- Only the log, its cursor and the clock matter. -/
theorem congr {a' b' : DeviceSnapshot} (h : Logged capacity a b) (ha : a'.log = a.log)
    (hb : b'.log = b.log) : Logged capacity a' b' := by
  simp only [DeviceSnapshot.log, Prod.mk.injEq] at ha hb
  obtain ⟨ha1, ha2, ha3, ha4⟩ := ha
  obtain ⟨hb1, hb2, hb3, hb4⟩ := hb
  exact ⟨by rw [ha1, ha2, hb1, hb2]; exact h.events, by rw [ha3, hb3]; exact h.floor,
    by rw [ha4, hb4]; exact h.clock⟩

end Logged

/-- The same operation, possibly with another outcome if `K` allows it. -/
structure SameOperation (K : OpKey → Prop) (a b : OperationRecord) : Prop where
  digest : b.digest = a.digest
  key : b.key = a.key
  opcode : b.status.opcode = a.status.opcode
  kept : ¬ K a.key → b = a

/-- The same operations in the same order; only the outcomes of `K` may differ. -/
def Retouched (K : OpKey → Prop) : List OperationRecord → List OperationRecord → Prop :=
  List.Forall₂ (SameOperation K)

namespace Retouched
variable {K K' : OpKey → Prop} {a b c : List OperationRecord}

theorem refl (K : OpKey → Prop) (a : List OperationRecord) : Retouched K a a :=
  List.forall₂_same.2 fun _ _ => ⟨rfl, rfl, rfl, fun _ => rfl⟩

theorem mono (h : Retouched K a b) (hK : ∀ k, K k → K' k) : Retouched K' a b :=
  List.Forall₂.imp (fun _ _ s => ⟨s.digest, s.key, s.opcode, fun n => s.kept fun hk => n (hK _ hk)⟩) h

theorem trans (h : Retouched K a b) (h' : Retouched K b c) : Retouched K a c := by
  induction h generalizing c with
  | nil => exact h'
  | cons s _ ih =>
    cases h' with
    | cons s' rest =>
      refine .cons ⟨s'.digest.trans s.digest, s'.key.trans s.key, s'.opcode.trans s.opcode, ?_⟩
        (ih rest)
      intro hK
      rw [s'.kept (by rwa [s.key]), s.kept hK]

theorem keys (h : Retouched K a b) : b.map OperationRecord.key = a.map OperationRecord.key := by
  induction h with
  | nil => rfl
  | cons s _ ih => simp only [List.map_cons, s.key, ih]

theorem length (h : Retouched K a b) : b.length = a.length := (List.Forall₂.length_eq h).symm

/-- Each record of the result comes from one of the original. -/
theorem origin (h : Retouched K a b) {r : OperationRecord} (hr : r ∈ b) :
    ∃ x ∈ a, SameOperation K x r := by
  induction h with
  | nil => cases hr
  | @cons x y xs ys s _ ih =>
    rcases List.mem_cons.1 hr with rfl | hr
    · exact ⟨x, List.mem_cons_self, s⟩
    · obtain ⟨z, hz, same⟩ := ih hr
      exact ⟨z, List.mem_cons_of_mem _ hz, same⟩

theorem has_key (h : Retouched K a b) {k : OpKey} :
    (∃ r ∈ b, r.key = k) ↔ ∃ r ∈ a, r.key = k := by
  have hk := h.keys
  have hb : (∃ r ∈ b, r.key = k) ↔ k ∈ b.map OperationRecord.key := List.mem_map.symm
  have ha : (∃ r ∈ a, r.key = k) ↔ k ∈ a.map OperationRecord.key := List.mem_map.symm
  rw [hb, ha, hk]

end Retouched

/-- A status change touches only the operation it names. -/
theorem setStatus_retouched {phase : OperationPhase} {evidence : CompletionEvidence}
    {error : UInt32} {ops ops' : List OperationRecord}
    (h : setStatus id seq phase evidence error ops = some ops') :
    Retouched (· = (id, seq)) ops ops' := by
  induction ops generalizing ops' with
  | nil => simp [setStatus] at h
  | cons r rs ih =>
    simp only [setStatus] at h
    split at h
    · rename_i hr
      cases h
      refine .cons ⟨rfl, rfl, rfl, fun hn => absurd ?_ hn⟩ (Retouched.refl _ rs)
      simp only [OperationRecord.key, hr.1, hr.2]
    · obtain ⟨rs', hrs, rfl⟩ := Option.map_eq_some_iff.1 h
      exact .cons ⟨rfl, rfl, rfl, fun _ => rfl⟩ (ih hrs)

/-- The record of a listed operation can be found and changed. -/
theorem setStatus_isSome (phase : OperationPhase) (evidence : CompletionEvidence) (error : UInt32)
    {ops : List OperationRecord} (h : ∃ r ∈ ops, r.key = (id, seq)) :
    ∃ ops', setStatus id seq phase evidence error ops = some ops' ∧
      ∃ r ∈ ops', r.key = (id, seq) ∧ r.status.phase = phase ∧ r.status.error = error := by
  induction ops with
  | nil => obtain ⟨_, hr, _⟩ := h; cases hr
  | cons x xs ih =>
    by_cases hx : x.status.credentialId = id ∧ x.status.sequence = seq
    · refine ⟨_, by rw [setStatus, if_pos hx], _, List.mem_cons_self, ?_, rfl, rfl⟩
      simp only [OperationRecord.key, hx.1, hx.2]
    · obtain ⟨r, hr, hk⟩ := h
      have hxs : ∃ r ∈ xs, r.key = (id, seq) := by
        rcases List.mem_cons.1 hr with rfl | hr
        · exact absurd (by simpa [OperationRecord.key] using hk) hx
        · exact ⟨r, hr, hk⟩
      obtain ⟨ops', hs, r', hr', done⟩ := ih hxs
      exact ⟨_, by rw [setStatus, if_neg hx, hs]; rfl, r', List.mem_cons_of_mem _ hr', done⟩

end OpenLock
