import OpenLock.Crypto.Canonical

/-! The grammar of responses as `docs/protocol.md` writes it and as the parser takes it, on CBOR
values alone, and the members of the wire types that each describes. -/
namespace OpenLock
open Cbor
open LawfulWire (Allowed)

abbrev Shape := Value → Prop

namespace Grammar

/-! The notation of the document. -/

def unsigned (max : Nat) : Shape := fun v => ∃ n : Nat, v = .integer n ∧ n ≤ max
def exactly (n : Nat) : Shape := fun v => v = .integer n
def octets (n : Nat) : Shape := fun v => ∃ b, v = .bytes b ∧ b.length = n
def text : Shape := fun v => ∃ s, v = .text s ∧ s.utf8ByteSize ≤ 64
def orNull (S : Shape) : Shape := fun v => v = .null ∨ S v
def tuple (fields : List Shape) : Shape :=
  fun v => ∃ vs, v = .array vs ∧ List.Forall₂ (fun S w => S w) fields vs
def listOf (max : Nat) (S : Shape) : Shape :=
  fun v => ∃ vs, v = .array vs ∧ vs.length ≤ max ∧ ∀ w ∈ vs, S w

def u32 : Shape := unsigned (2 ^ 32 - 1)
def u64 : Shape := unsigned (2 ^ 64 - 1)
def bool : Shape := unsigned 1
def id16 : Shape := octets 16
def bytes32 : Shape := octets 32
def reading (S : Shape) : Shape :=
  fun v => tuple [exactly 0] v ∨ tuple [exactly 1] v ∨ tuple [exactly 2, S] v

/-- The mutations other than Claim, whose result is an operation record. -/
def recorded : List UInt8 := [0, 2, 3, 7, 9, 10, 11, 12, 13, 14, 15, 16, 17, 21]

/-- Where the document and the parser part: the largest opcode that an operation record may
name, the largest battery reading, and the opcodes that are answered by their own record. -/
structure Limits where
  opcode : UInt8
  battery : UInt8
  recorded : List UInt8
  named : ∀ asked ∈ recorded, asked ≤ opcode

theorem recorded_le : ∀ asked ∈ recorded, asked ≤ 22 := by decide +kernel

def Limits.documented : Limits := ⟨22, 100, Grammar.recorded, recorded_le⟩

/-- Any byte, and any opcode's own record. -/
def Limits.parsed : Limits :=
  ⟨255, 255, (List.range 23).map UInt8.ofNat, fun _ _ => Nat.le_of_lt_succ (UInt8.toNat_lt _)⟩

variable (L : Limits)

def opcode : Shape := unsigned L.opcode.toNat
def battery : Shape := unsigned L.battery.toNat

/-! The records. -/

def phase : Shape := unsigned 4
def evidence : Shape := unsigned 3
def bolt : Shape := unsigned 1
def door : Shape := unsigned 1
def fault : Shape := unsigned 5
def actuator : Shape := unsigned 1
def auditKind : Shape := unsigned 8
def firmwarePhase : Shape := unsigned 5

/-- `OperationStatus`, with what its opcode may be. -/
def operationStatus (named : Shape) : Shape := tuple [id16, u64, named, phase, evidence, u32]

def lockStatus : Shape := tuple
  [reading bolt, reading door, reading bool, reading (battery L), fault,
    orNull (operationStatus (opcode L)), u64, u64, u64, u64, bool]

def deviceInfo : Shape := tuple
  [id16, text, text, text, u64, actuator, bool, bool, bool, bool, bool, bool, u32, u32, u32, u32,
    u32, u32, u64, u32]

def autoRelock : Shape :=
  fun v => tuple [exactly 0] v ∨ tuple [exactly 1, u32] v ∨ tuple [exactly 2, u32] v

def deviceConfig : Shape := tuple [u64, autoRelock, u32, u32, bool, u32]

def hardwareState : Shape := tuple [reading bolt, reading door, reading bool, reading (battery L)]

def auditEvent : Shape := tuple
  [u64, orNull u64, auditKind, orNull id16, orNull u64, u32, orNull (hardwareState L),
    orNull (operationStatus (opcode L))]

def auditPage : Shape := tuple [listOf 16 (auditEvent L), u64, bool]

def firmwareManifest : Shape := tuple [text, text, text, u64, bytes32, u64]

def firmwareStatus : Shape := tuple [firmwarePhase, u64, orNull firmwareManifest, u64]

def claimed : Shape := tuple [u64, u64]
def credential : Shape := tuple [u32, orNull u32, u64]
def pairing : Shape := tuple [u64, u64, bool]

/-- The reply table: what a successful response to an opcode carries. -/
def rows : List (UInt8 × Shape) :=
  [(5, tuple [exactly 0, operationStatus (opcode L)]), (1, tuple [exactly 1, lockStatus L]),
    (4, tuple [exactly 2, deviceInfo]), (6, tuple [exactly 3, deviceConfig]),
    (8, tuple [exactly 4, auditPage L]), (18, tuple [exactly 5, firmwareStatus]),
    (19, tuple [exactly 6, claimed]), (20, tuple [exactly 7, credential]),
    (22, tuple [exactly 8, pairing])]

/-- An operation record of the same opcode, or the opcode's row. -/
def reply (asked : UInt8) : Shape := fun v =>
  asked ∈ L.recorded ∧ tuple [exactly 0, operationStatus (exactly asked.toNat)] v
    ∨ ∃ S, (asked, S) ∈ rows L ∧ S v

/-- `[opcode, error_code, reply_or_null]`. -/
def response : Shape := fun v =>
  ∃ asked : UInt8, asked ≤ 22 ∧ ∃ code record, v = .array [.integer asked.toNat, code, record] ∧
    ((∃ n : Nat, code = .integer n ∧ 0 < n ∧ n < 2 ^ 32 ∧ record = .null)
      ∨ code = .integer 0 ∧ reply L asked record)

/-- The element of an array at an index, if there is one. -/
def field (i : Nat) (S : Shape) : Shape := fun v => ∀ vs w, v = .array vs → vs[i]? = some w → S w

/-- What the document asks of a reply beyond the parser, read off its array. In an operation
record the opcode stands at 2, in a known reading the value at 1. -/
structure Restrains (asked : UInt8) (tag : Nat) (record : Value) : Prop where
  operation : tag = 0 → field 2 (unsigned 22) record ∧ (asked = 5 ∨ asked ∈ recorded)
  status : tag = 1 → field 3 (field 1 (unsigned 100)) record ∧ field 5 (field 2 (unsigned 22)) record
  audit : tag = 4 → field 0 (fun events => ∀ i, field i (fun e =>
    field 6 (field 3 (field 1 (unsigned 100))) e ∧ field 7 (field 2 (unsigned 22)) e) events) record

def restrained : Shape := fun v => ∀ (asked : UInt8) (tag : Nat) (record : Value),
  v = .array [.integer asked.toNat, .integer 0, .array [.integer tag, record]] →
    Restrains asked tag record

end Grammar

/-! The limits on members of the types. -/

section Restrained
variable (L : Grammar.Limits)

structure LockStatus.Restrained (s : LockStatus) : Prop where
  battery : ∀ n, s.batteryPercent = .known n → n ≤ L.battery
  active : ∀ o, s.active = some o → o.opcode ≤ L.opcode

def HardwareSample.Restrained (s : HardwareSample) : Prop :=
  ∀ n, s.batteryPercent = .known n → n ≤ L.battery

structure AuditEvent.Restrained (e : AuditEvent) : Prop where
  hardware : ∀ s, e.hardware = some s → s.Restrained L
  operation : ∀ o, e.operation = some o → o.opcode ≤ L.opcode

def Reply.Restrained (asked : UInt8) : Reply → Prop
  | .operation s => s.opcode ≤ L.opcode ∧ (asked = 5 ∨ asked ∈ L.recorded)
  | .status s => s.Restrained L
  | .audit p => ∀ e ∈ p.events, e.Restrained L
  | _ => True

def Response.Restrained (r : Response) : Prop :=
  ∀ reply, r.result = .ok reply → reply.Restrained L r.opcode

end Restrained

namespace Grammar
variable {S : Shape} {α β : Type} {p : α → Prop} {Ss : List Shape} {values : β → List Value}
  {q : β → Prop} {max : Nat}

/-- A shape holds of exactly the values of the members that meet `p`. -/
def Describes {α : Type} [Wire α] (S : Shape) (p : α → Prop) : Prop :=
  ∀ v, S v ↔ ∃ a, Wire.value a = v ∧ p a

/-- The same for the fields of a record, where `values` lists them. -/
def Lists {β : Type} (Ss : List Shape) (values : β → List Value) (p : β → Prop) : Prop :=
  ∀ vs, List.Forall₂ (fun S v => S v) Ss vs ↔ ∃ b, values b = vs ∧ p b

theorem Describes.mono [Wire α] {p q : α → Prop} (h : Describes S p) (same : ∀ a, p a ↔ q a) :
    Describes S q := by
  intro v
  simp only [h v, same]

theorem Lists.nil : Lists [] (fun _ : Unit => []) fun _ => True := by
  intro vs
  simp [eq_comm]

theorem Lists.cons [Wire α] (first : Describes S p) (rest : Lists Ss values q) :
    Lists (S :: Ss) (fun b : α × β => Wire.value b.1 :: values b.2) fun b => p b.1 ∧ q b.2 := by
  intro vs
  simp only [List.forall₂_cons_left_iff, first _, rest _]
  constructor
  · rintro ⟨w, ws, ⟨a, rfl, pa⟩, ⟨b, rfl, qb⟩, rfl⟩
    exact ⟨(a, b), rfl, pa, qb⟩
  · rintro ⟨⟨a, b⟩, rfl, pa, qb⟩
    exact ⟨_, _, ⟨a, rfl, pa⟩, ⟨b, rfl, qb⟩, rfl⟩

theorem Lists.tuple (fields : Lists Ss values q) (v : Value) :
    tuple Ss v ↔ ∃ b, .array (values b) = v ∧ q b := by
  simp only [Grammar.tuple, fields _]
  constructor
  · rintro ⟨vs, rfl, b, rfl, qb⟩
    exact ⟨b, rfl, qb⟩
  · rintro ⟨b, rfl, qb⟩
    exact ⟨_, rfl, b, rfl, qb⟩

/-- A record type is described by the shapes of its fields. -/
theorem Lists.record [Wire α] (fields : Lists Ss values q) (make : β → α)
    (written : ∀ b, Wire.value (make b) = .array (values b)) (onto : ∀ a, ∃ b, make b = a)
    (same : ∀ b, p (make b) ↔ q b) :
    Describes (Grammar.tuple Ss) p := by
  intro v
  rw [fields.tuple v]
  constructor
  · rintro ⟨b, rfl, qb⟩
    exact ⟨make b, written b, (same b).2 qb⟩
  · rintro ⟨a, rfl, pa⟩
    obtain ⟨b, rfl⟩ := onto a
    exact ⟨b, (written b).symm, (same b).1 pa⟩

section Scalars

/-- Unsigned integers of any width, and what is written as one. -/
theorem describes_unsigned [Wire α] (toNat : α → Nat)
    (written : ∀ a, Wire.value a = .integer (toNat a)) (onto : ∀ n ≤ max, ∃ a, toNat a = n) :
    Describes (unsigned max) fun a => toNat a ≤ max := by
  intro v
  simp only [written]
  constructor
  · rintro ⟨n, rfl, le⟩
    obtain ⟨a, rfl⟩ := onto n le
    exact ⟨a, rfl, le⟩
  · rintro ⟨a, rfl, le⟩
    exact ⟨_, rfl, le⟩

theorem describes_unsigned8 (max : UInt8) :
    Describes (unsigned max.toNat) fun n : UInt8 => n ≤ max :=
  describes_unsigned UInt8.toNat (fun n => by simp only [Wire.value, uint, UInt8.toNat_toUInt64])
    fun n le => ⟨UInt8.ofNat n, UInt8.toNat_ofNat_of_lt' (Nat.lt_of_le_of_lt le max.toNat_lt)⟩

theorem describes_u64 : Describes u64 fun _ : UInt64 => True :=
  (describes_unsigned UInt64.toNat (fun _ => rfl) fun n le =>
    ⟨UInt64.ofNat n, UInt64.toNat_ofNat_of_lt' (by change n < 2 ^ 64; omega)⟩).mono fun n => by
      have := n.toNat_lt
      simp only [iff_true]
      omega

theorem describes_u32 : Describes u32 fun _ : UInt32 => True :=
  (describes_unsigned UInt32.toNat
    (fun n => by simp only [Wire.value, uint, UInt32.toNat_toUInt64]) fun n le =>
      ⟨UInt32.ofNat n, UInt32.toNat_ofNat_of_lt' (by change n < 2 ^ 32; omega)⟩).mono fun n => by
        have := n.toNat_lt
        simp only [iff_true]
        omega

theorem describes_named (asked : UInt8) :
    Describes (exactly asked.toNat) fun n : UInt8 => n = asked := by
  intro v
  simp [exactly, Wire.value, uint, eq_comm]

theorem describes_enumeration [DecidableEq α] (variants : List α) (last : Nat)
    (length : variants.length = last + 1) (once : variants.Nodup) (every : ∀ a, a ∈ variants)
    (few : variants.length < 2 ^ 64) :
    @Describes α (Wire.enumeration variants) (unsigned last) fun _ => True := by
  intro v
  have position (a : α) : (UInt64.ofNat (variants.idxOf a)).toNat = variants.idxOf a :=
    UInt64.toNat_ofNat_of_lt' ((List.idxOf_lt_length_of_mem (every a)).trans few)
  simp only [Wire.value, uint, and_true, position]
  constructor
  · rintro ⟨n, rfl, le⟩
    have bound : n < variants.length := by omega
    exact ⟨variants[n], by rw [once.idxOf_getElem]⟩
  · rintro ⟨a, rfl⟩
    have bound := List.idxOf_lt_length_of_mem (every a)
    exact ⟨_, rfl, by omega⟩

theorem describes_bolt : Describes bolt fun _ : BoltState => True :=
  describes_enumeration _ 1 rfl (by decide) (fun a => by cases a <;> decide) (by decide)
theorem describes_door : Describes door fun _ : DoorState => True :=
  describes_enumeration _ 1 rfl (by decide) (fun a => by cases a <;> decide) (by decide)
theorem describes_actuator : Describes actuator fun _ : ActuatorKind => True :=
  describes_enumeration _ 1 rfl (by decide) (fun a => by cases a <;> decide) (by decide)
theorem describes_fault : Describes fault fun _ : Fault => True :=
  describes_enumeration _ 5 rfl (by decide) (fun a => by cases a <;> decide) (by decide)
theorem describes_evidence : Describes evidence fun _ : CompletionEvidence => True :=
  describes_enumeration _ 3 rfl (by decide) (fun a => by cases a <;> decide) (by decide)
theorem describes_phase : Describes phase fun _ : OperationPhase => True :=
  describes_enumeration _ 4 rfl (by decide) (fun a => by cases a <;> decide) (by decide)
theorem describes_auditKind : Describes auditKind fun _ : AuditKind => True :=
  describes_enumeration _ 8 rfl (by decide) (fun a => by cases a <;> decide) (by decide)
theorem describes_firmwarePhase : Describes firmwarePhase fun _ : FirmwarePhase => True :=
  describes_enumeration _ 5 rfl (by decide) (fun a => by cases a <;> decide) (by decide)

theorem describes_bool : Describes bool fun _ : Bool => True := by
  intro v
  constructor
  · rintro ⟨n, rfl, le⟩
    match n, le with
    | 0, _ => exact ⟨false, rfl, trivial⟩
    | 1, _ => exact ⟨true, rfl, trivial⟩
  · rintro ⟨b, rfl, _⟩
    cases b with
    | false => exact ⟨0, rfl, by decide⟩
    | true => exact ⟨1, rfl, by decide⟩

theorem describes_text : Describes text fun s : String => s.utf8ByteSize ≤ 64 := by
  intro v
  simp [text, Wire.value, eq_comm]

theorem describes_octets (n : Nat) : Describes (octets n) fun _ : Vector UInt8 n => True := by
  intro v
  constructor
  · rintro ⟨b, rfl, rfl⟩
    exact ⟨⟨b.toArray, by simp⟩, rfl, trivial⟩
  · rintro ⟨b, rfl, _⟩
    exact ⟨b.toList, rfl, b.length_toList⟩

/-- What is written as what it wraps. -/
theorem Describes.wrapped [Wire α] [Wire β] (h : Describes S fun _ : β => True) (make : β → α)
    (written : ∀ b, Wire.value (make b) = Wire.value b) (onto : ∀ a, ∃ b, make b = a) :
    Describes S fun _ : α => True := by
  refine fun v => (h v).trans ⟨?_, ?_⟩
  · rintro ⟨b, rfl, _⟩
    exact ⟨make b, written b, trivial⟩
  · rintro ⟨a, rfl, _⟩
    obtain ⟨b, rfl⟩ := onto a
    exact ⟨b, (written b).symm, trivial⟩

theorem describes_lockId : Describes id16 fun _ : LockId => True :=
  (describes_octets 16).wrapped LockId.mk (fun _ => rfl) fun a => ⟨a.bytes, rfl⟩

theorem describes_credentialId : Describes id16 fun _ : CredentialId => True :=
  (describes_octets 16).wrapped CredentialId.mk (fun _ => rfl) fun a => ⟨a.bytes, rfl⟩

end Scalars

section Containers
variable {α : Type} [Wire α] {S : Shape} {p : α → Prop} {v : Value} {n : Nat}

theorem Describes.orNull (h : Describes S p) :
    Describes (orNull S) fun o : Option α => ∀ a, o = some a → p a := by
  intro v
  simp only [Grammar.orNull, h v]
  constructor
  · rintro (rfl | ⟨a, rfl, pa⟩)
    · exact ⟨none, rfl, by simp⟩
    · exact ⟨some a, rfl, by simpa using pa⟩
  · rintro ⟨_ | a, rfl, all⟩
    · exact .inl rfl
    · exact .inr ⟨a, rfl, all a rfl⟩

theorem tuple_tag : tuple [exactly n] v ↔ v = .array [.integer n] := by
  simp [tuple, exactly, List.forall₂_cons_left_iff]

theorem tuple_tagged : tuple [exactly n, S] v ↔ ∃ w, v = .array [.integer n, w] ∧ S w := by
  simp only [tuple, exactly, List.forall₂_cons_left_iff, List.forall₂_nil_left_iff]
  constructor
  · rintro ⟨_, rfl, _, _, rfl, ⟨w, _, Sw, rfl, rfl⟩, rfl⟩
    exact ⟨w, rfl, Sw⟩
  · rintro ⟨w, rfl, Sw⟩
    exact ⟨_, rfl, _, _, rfl, ⟨w, _, Sw, rfl, rfl⟩, rfl⟩

theorem Describes.reading (h : Describes S p) :
    Describes (reading S) fun r : Reading α => ∀ a, r = .known a → p a := by
  intro v
  simp only [Grammar.reading, tuple_tag, tuple_tagged, h _]
  constructor
  · rintro (rfl | rfl | ⟨w, rfl, a, rfl, pa⟩)
    · exact ⟨.unsupported, rfl, by simp⟩
    · exact ⟨.unknown, rfl, by simp⟩
    · exact ⟨.known a, rfl, by simpa using pa⟩
  · rintro ⟨_ | _ | a, rfl, all⟩
    · exact .inl rfl
    · exact .inr (.inl rfl)
    · exact .inr (.inr ⟨_, rfl, a, rfl, all a rfl⟩)

theorem describes_autoRelock : Describes autoRelock fun _ : AutoRelock => True := by
  intro v
  simp only [autoRelock, tuple_tag, tuple_tagged, describes_u32 _, and_true]
  constructor
  · rintro (rfl | ⟨w, rfl, ms, rfl⟩ | ⟨w, rfl, ms, rfl⟩)
    · exact ⟨.disabled, rfl⟩
    · exact ⟨.delay ms, rfl⟩
    · exact ⟨.afterClose ms, rfl⟩
  · rintro ⟨_ | ms | ms, rfl⟩
    · exact .inl rfl
    · exact .inr (.inl ⟨_, rfl, ms, rfl⟩)
    · exact .inr (.inr ⟨_, rfl, ms, rfl⟩)

/-- A list of at most `max` members. -/
theorem Describes.listed (h : Describes S p) :
    listOf max S v ↔ ∃ as : List α, .array (as.map Wire.value) = v ∧ as.length ≤ max
      ∧ ∀ a ∈ as, p a := by
  constructor
  · rintro ⟨vs, rfl, few, all⟩
    -- Each member is chosen from its own value.
    have members : ∃ as : List α, as.map Wire.value = vs ∧ ∀ a ∈ as, p a := by
      clear few
      induction vs with
      | nil => exact ⟨[], rfl, by simp⟩
      | cons w ws ih =>
        obtain ⟨first, rest⟩ := List.forall_mem_cons.1 all
        obtain ⟨a, rfl, pa⟩ := (h w).1 first
        obtain ⟨as, rfl, each⟩ := ih rest
        exact ⟨a :: as, rfl, List.forall_mem_cons.2 ⟨pa, each⟩⟩
    obtain ⟨as, rfl, each⟩ := members
    exact ⟨as, rfl, by simpa using few, each⟩
  · rintro ⟨as, rfl, few, all⟩
    refine ⟨_, rfl, by simpa using few, ?_⟩
    intro w mem
    obtain ⟨a, listed, rfl⟩ := List.mem_map.1 mem
    exact (h _).2 ⟨a, rfl, all a listed⟩

end Containers

section Records
variable (L : Limits)

theorem describes_operationStatus {N : Shape} {p : UInt8 → Prop} (named : Describes N p) :
    Describes (operationStatus N) fun s : OperationStatus => p s.opcode :=
  (Lists.cons describes_credentialId <| .cons describes_u64 <| .cons named <|
    .cons describes_phase <| .cons describes_evidence <| .cons describes_u32 .nil).record
    (fun (credentialId, sequence, opcode, phase, evidence, error, _) =>
      ⟨credentialId, sequence, opcode, phase, evidence, error⟩)
    (fun (_, _, _, _, _, _, _) => rfl)
    (fun s => ⟨(s.credentialId, s.sequence, s.opcode, s.phase, s.evidence, s.error, ()), rfl⟩)
    (fun _ => by simp)

theorem describes_lockStatus : Describes (lockStatus L) (LockStatus.Restrained L) :=
  (Lists.cons describes_bolt.reading <| .cons describes_door.reading <|
    .cons describes_bool.reading <| .cons (describes_unsigned8 L.battery).reading <|
    .cons describes_fault <|
    .cons (describes_operationStatus (describes_unsigned8 L.opcode)).orNull <|
    .cons describes_u64 <| .cons describes_u64 <| .cons describes_u64 <| .cons describes_u64 <|
    .cons describes_bool .nil).record
    (fun (bolt, door, privacy, battery, fault, active, epoch, policy, config, generation, clock, _) =>
      ⟨bolt, door, privacy, battery, fault, active, epoch, policy, config, generation, clock⟩)
    (fun (_, _, _, _, _, _, _, _, _, _, _, _) => rfl)
    (fun s => ⟨(s.bolt, s.door, s.privacy, s.batteryPercent, s.fault, s.active, s.epoch,
      s.policyVersion, s.configVersion, s.generation, s.clockTrusted, ()), rfl⟩)
    (fun _ => by
      simp only [implies_true, true_and, and_true]
      exact ⟨fun h => ⟨h.battery, h.active⟩, fun h => ⟨h.1, h.2⟩⟩)

theorem describes_hardwareState : Describes (hardwareState L) (HardwareSample.Restrained L) :=
  (Lists.cons describes_bolt.reading <| .cons describes_door.reading <|
    .cons describes_bool.reading <| .cons (describes_unsigned8 L.battery).reading .nil).record
    (fun (bolt, door, privacy, battery, _) => ⟨bolt, door, privacy, battery⟩)
    (fun (_, _, _, _, _) => rfl)
    (fun s => ⟨(s.bolt, s.door, s.privacy, s.batteryPercent, ()), rfl⟩)
    (fun _ => by
      simp only [implies_true, true_and, and_true]
      exact Iff.rfl)

theorem describes_deviceInfo : Describes deviceInfo (Allowed : DeviceInfo → Prop) :=
  (Lists.cons describes_lockId <| .cons describes_text <| .cons describes_text <|
    .cons describes_text <| .cons describes_u64 <| .cons describes_actuator <|
    .cons describes_bool <| .cons describes_bool <| .cons describes_bool <|
    .cons describes_bool <| .cons describes_bool <| .cons describes_bool <|
    .cons describes_u32 <| .cons describes_u32 <| .cons describes_u32 <| .cons describes_u32 <|
    .cons describes_u32 <| .cons describes_u32 <| .cons describes_u64 <|
    .cons describes_u32 .nil).record
    (fun (lockId, model, hardware, firmware, capabilities, actuator, bolt, door, privacy, battery,
        safe, hold, release, action, delay, logs, operations, credentials, image, chunk, _) =>
      ⟨lockId, model, hardware, firmware, capabilities, actuator, bolt, door, privacy, battery,
        safe, hold, release, action, delay, logs, operations, credentials, image, chunk⟩)
    (fun (_, _, _, _, _, _, _, _, _, _, _, _, _, _, _, _, _, _, _, _, _) => rfl)
    (fun i => ⟨(i.lockId, i.model, i.hardware, i.firmware, i.capabilities, i.actuator,
      i.boltSensor, i.doorSensor, i.privacySensor, i.batterySensor, i.safeLockWithoutDoor,
      i.holdOpen, i.maxReleaseMs, i.maxActionMs, i.maxDelayMs, i.logCapacity,
      i.operationCapacity, i.credentialCapacity, i.maxImageSize, i.maxChunkSize, ()), rfl⟩)
    (fun _ => by simp only [true_and, and_true, Allowed])

theorem describes_deviceConfig : Describes deviceConfig fun _ : DeviceConfig => True :=
  (Lists.cons describes_u64 <| .cons describes_autoRelock <| .cons describes_u32 <|
    .cons describes_u32 <| .cons describes_bool <| .cons describes_u32 .nil).record
    (fun (version, relock, release, timeout, hold, ajar, _) =>
      ⟨version, relock, release, timeout, hold, ajar⟩)
    (fun (_, _, _, _, _, _, _) => rfl)
    (fun c => ⟨(c.version, c.autoRelock, c.releaseMs, c.actionTimeoutMs, c.holdOpen, c.doorAjarMs,
      ()), rfl⟩)
    (fun _ => by simp)

theorem describes_auditEvent : Describes (auditEvent L) (AuditEvent.Restrained L) :=
  (Lists.cons describes_u64 <| .cons describes_u64.orNull <| .cons describes_auditKind <|
    .cons describes_credentialId.orNull <| .cons describes_u64.orNull <| .cons describes_u32 <|
    .cons (describes_hardwareState L).orNull <|
    .cons (describes_operationStatus (describes_unsigned8 L.opcode)).orNull .nil).record
    (fun (cursor, seconds, kind, credentialId, sequence, code, hardware, operation, _) =>
      ⟨cursor, seconds, kind, credentialId, sequence, code, hardware, operation⟩)
    (fun (_, _, _, _, _, _, _, _, _) => rfl)
    (fun e => ⟨(e.cursor, e.unixSeconds, e.kind, e.credentialId, e.sequence, e.code, e.hardware,
      e.operation, ()), rfl⟩)
    (fun _ => by
      simp only [implies_true, true_and, and_true]
      exact ⟨fun h => ⟨h.hardware, h.operation⟩, fun h => ⟨h.1, h.2⟩⟩)

theorem describes_auditPage : Describes (auditPage L)
    fun p : AuditPage => p.events.length ≤ 16 ∧ ∀ e ∈ p.events, e.Restrained L := by
  intro v
  simp only [auditPage, tuple, List.forall₂_cons_left_iff, List.forall₂_nil_left_iff,
    (describes_auditEvent L).listed, describes_u64 _, describes_bool _, and_true]
  constructor
  · rintro ⟨_, rfl, _, _, ⟨events, rfl, few, all⟩, ⟨_, _, ⟨next, rfl⟩,
      ⟨_, _, ⟨gap, rfl⟩, rfl, rfl⟩, rfl⟩, rfl⟩
    exact ⟨⟨events, next, gap⟩, rfl, few, all⟩
  · rintro ⟨⟨events, next, gap⟩, rfl, few, all⟩
    exact ⟨_, rfl, _, _, ⟨events, rfl, few, all⟩,
      ⟨_, _, ⟨next, rfl⟩, ⟨_, _, ⟨gap, rfl⟩, rfl, rfl⟩, rfl⟩, rfl⟩

theorem describes_firmwareManifest :
    Describes firmwareManifest (Allowed : FirmwareManifest → Prop) :=
  (Lists.cons describes_text <| .cons describes_text <| .cons describes_text <|
    .cons describes_u64 <| .cons (describes_octets 32) <| .cons describes_u64 .nil).record
    (fun (model, hardware, version, size, sha256, security, _) =>
      ⟨model, hardware, version, size, sha256, security⟩)
    (fun (_, _, _, _, _, _, _) => rfl)
    (fun m => ⟨(m.model, m.hardware, m.version, m.size, m.sha256, m.securityVersion, ()), rfl⟩)
    (fun _ => by simp only [and_true, Allowed])

theorem describes_firmwareStatus :
    Describes firmwareStatus (Allowed : FirmwareStatus → Prop) :=
  (Lists.cons describes_firmwarePhase <| .cons describes_u64 <|
    .cons describes_firmwareManifest.orNull <| .cons describes_u64 .nil).record
    (fun (phase, received, manifest, security, _) => ⟨phase, received, manifest, security⟩)
    (fun (_, _, _, _, _) => rfl)
    (fun s => ⟨(s.phase, s.received, s.manifest, s.securityVersion, ()), rfl⟩)
    (fun _ => by
      simp only [true_and, and_true]
      exact Iff.rfl)

end Records

section Replies
variable {L : Limits} {asked : UInt8}

/-- A successful reply that the parser takes for an opcode and the limits allow. -/
@[mk_iff] structure Takes (L : Limits) (asked : UInt8) (x : Reply) : Prop where
  bounded : x.Bounded
  answers : x.answers asked = true
  restrained : x.Restrained L asked

/-- The opcodes that each kind of reply is taken for, and its bounds. -/
private theorem takes_cases (x : Reply) : Takes L asked x ↔
    match x with
    | .operation s => (asked = 5 ∨ s.opcode = asked) ∧ s.opcode ≤ L.opcode
        ∧ (asked = 5 ∨ asked ∈ L.recorded)
    | .status s => asked = 1 ∧ s.Restrained L
    | .info i => asked = 4 ∧ Allowed i
    | .config _ => asked = 6
    | .audit p => asked = 8 ∧ p.events.length ≤ 16 ∧ ∀ e ∈ p.events, e.Restrained L
    | .firmware s => asked = 18 ∧ Allowed s
    | .claimed _ _ => asked = 19
    | .credential _ _ _ => asked = 20
    | .pairing _ _ _ => asked = 22 := by
  cases x with
  | audit p =>
    simp [takes_iff, Reply.Bounded, Reply.answers, Reply.Restrained, Allowed, and_left_comm]
  | _ => simp [takes_iff, Reply.Bounded, Reply.answers, Reply.Restrained, and_comm]

/-- One row of the table: its record and the replies that carry it. -/
private theorem row (v : Value) {tag : Nat} {p : β → Prop} {written : β → Value}
    (shape : ∀ w, S w ↔ ∃ b, written b = w ∧ p b) (make : β → Reply)
    (tagged : ∀ b, Wire.value (make b) = .array [.integer tag, written b]) :
    tuple [exactly tag, S] v ↔ ∃ b, Wire.value (make b) = v ∧ p b := by
  simp only [tuple_tagged, shape, tagged]
  constructor
  · rintro ⟨_, rfl, b, rfl, pb⟩
    exact ⟨b, rfl, pb⟩
  · rintro ⟨b, rfl, pb⟩
    exact ⟨_, rfl, b, rfl, pb⟩

/-- The reply table is what the parser takes and the limits allow. -/
theorem reply_iff (v : Value) : reply L asked v ↔ ∃ x, Wire.value x = v ∧ Takes L asked x := by
  have own := row v (describes_operationStatus (describes_named asked)) .operation fun _ => rfl
  have operation := row v (describes_operationStatus (describes_unsigned8 L.opcode)) .operation
    fun _ => rfl
  have status := row v (describes_lockStatus L) .status fun _ => rfl
  have info := row v describes_deviceInfo .info fun _ => rfl
  have config := row v describes_deviceConfig .config fun _ => rfl
  have audit := row v (describes_auditPage L) .audit fun _ => rfl
  have firmware := row v describes_firmwareStatus .firmware fun _ => rfl
  have claimed := row v (Lists.cons describes_u64 <| .cons describes_u64 .nil).tuple
    (fun b => .claimed b.1 b.2.1) fun _ => rfl
  have credential := row v (Lists.cons describes_u32 <| .cons describes_u32.orNull <|
    .cons describes_u64 .nil).tuple (fun b => .credential b.1 b.2.1 b.2.2.1) fun _ => rfl
  have pairing := row v (Lists.cons describes_u64 <| .cons describes_u64 <|
    .cons describes_bool .nil).tuple (fun b => .pairing b.1 b.2.1 b.2.2.1) fun _ => rfl
  constructor
  · rintro (⟨mem, h⟩ | ⟨S, mem, h⟩)
    · obtain ⟨s, rfl, rfl⟩ := own.1 h
      exact ⟨_, rfl, (takes_cases _).2 ⟨.inr rfl, L.named _ mem, .inr mem⟩⟩
    · simp only [rows, List.mem_cons, List.not_mem_nil, or_false, Prod.mk.injEq] at mem
      rcases mem with ⟨rfl, rfl⟩ | ⟨rfl, rfl⟩ | ⟨rfl, rfl⟩ | ⟨rfl, rfl⟩ | ⟨rfl, rfl⟩ | ⟨rfl, rfl⟩ |
        ⟨rfl, rfl⟩ | ⟨rfl, rfl⟩ | ⟨rfl, rfl⟩
      · obtain ⟨s, rfl, low⟩ := operation.1 h
        exact ⟨_, rfl, (takes_cases _).2 ⟨.inl rfl, low, .inl rfl⟩⟩
      · obtain ⟨s, rfl, held⟩ := status.1 h
        exact ⟨_, rfl, (takes_cases _).2 ⟨rfl, held⟩⟩
      · obtain ⟨i, rfl, held⟩ := info.1 h
        exact ⟨_, rfl, (takes_cases _).2 ⟨rfl, held⟩⟩
      · obtain ⟨c, rfl, _⟩ := config.1 h
        exact ⟨_, rfl, (takes_cases _).2 rfl⟩
      · obtain ⟨p, rfl, held⟩ := audit.1 h
        exact ⟨_, rfl, (takes_cases _).2 ⟨rfl, held⟩⟩
      · obtain ⟨s, rfl, held⟩ := firmware.1 h
        exact ⟨_, rfl, (takes_cases _).2 ⟨rfl, held⟩⟩
      · obtain ⟨b, rfl, _⟩ := claimed.1 h
        exact ⟨_, rfl, (takes_cases _).2 rfl⟩
      · obtain ⟨b, rfl, _⟩ := credential.1 h
        exact ⟨_, rfl, (takes_cases _).2 rfl⟩
      · obtain ⟨b, rfl, _⟩ := pairing.1 h
        exact ⟨_, rfl, (takes_cases _).2 rfl⟩
  · rintro ⟨x, rfl, taken⟩
    rw [takes_cases] at taken
    have listed {S : Shape} (mem : (asked, S) ∈ rows L) (h : S (Wire.value x)) :
        reply L asked (Wire.value x) := .inr ⟨S, mem, h⟩
    cases x with
    | operation s =>
      obtain ⟨answers, low, only⟩ := taken
      by_cases query : asked = 5
      · exact listed (by simp [rows, opcode, query]) (operation.2 ⟨s, rfl, low⟩)
      · exact .inl ⟨only.resolve_left query, own.2 ⟨s, rfl, answers.resolve_left query⟩⟩
    | status s => exact listed (by simp [rows, taken.1]) (status.2 ⟨s, rfl, taken.2⟩)
    | info i => exact listed (by simp [rows, taken.1]) (info.2 ⟨i, rfl, taken.2⟩)
    | config c => exact listed (by simp [rows, taken]) (config.2 ⟨c, rfl, trivial⟩)
    | audit p => exact listed (by simp [rows, taken.1]) (audit.2 ⟨p, rfl, taken.2⟩)
    | firmware s => exact listed (by simp [rows, taken.1]) (firmware.2 ⟨s, rfl, taken.2⟩)
    | claimed x y =>
      exact listed (by simp [rows, Grammar.claimed, taken]) (claimed.2 ⟨(x, y, ()), rfl, by simp⟩)
    | credential x y z =>
      exact listed (by simp [rows, Grammar.credential, taken])
        (credential.2 ⟨(x, y, z, ()), rfl, by simp⟩)
    | pairing x y z =>
      exact listed (by simp [rows, Grammar.pairing, taken])
        (pairing.2 ⟨(x, y, z, ()), rfl, by simp⟩)

theorem describes_response (L : Limits) :
    Describes (response L) fun r : Response => Allowed r ∧ r.Restrained L := by
  intro v
  constructor
  · rintro ⟨asked, low, code, record, rfl, ⟨n, rfl, positive, small, rfl⟩ | ⟨rfl, h⟩⟩
    · obtain ⟨k, rfl⟩ : ∃ k : UInt32, k.toNat = n :=
        ⟨UInt32.ofNat n, UInt32.toNat_ofNat_of_lt' small⟩
      refine ⟨⟨asked, .error k⟩, ?_, ⟨validateResponse_eq_ok.2 ⟨low, ?_, ?_⟩, ?_⟩, ?_⟩
      · simp [Wire.value, uint]
      · simp
      · intro zero
        cases zero
        exact absurd positive (by decide)
      · simp
      · intro reply same
        cases same
    · obtain ⟨x, rfl, taken⟩ := (reply_iff record).1 h
      refine ⟨⟨asked, .ok x⟩, ?_, ⟨validateResponse_eq_ok.2 ⟨low, ?_, ?_⟩, ?_⟩, ?_⟩
      · simp only [Wire.value, uint, UInt8.toNat_toUInt64]
        rfl
      · intro reply same
        exact Except.ok.inj same ▸ taken.answers
      · simp
      · intro reply same
        exact Except.ok.inj same ▸ taken.bounded
      · intro reply same
        exact Except.ok.inj same ▸ taken.restrained
  · rintro ⟨⟨asked, result⟩, rfl, ⟨valid, bounded⟩, restrained⟩
    obtain ⟨low, answers, some⟩ := validateResponse_eq_ok.1 valid
    refine ⟨asked, low, ?_⟩
    cases result with
    | ok x =>
      refine ⟨.integer 0, Wire.value x, ?_, .inr ⟨rfl, (reply_iff _).2 ⟨x, rfl, ?_⟩⟩⟩
      · simp only [Wire.value, uint, UInt8.toNat_toUInt64]
        rfl
      · exact ⟨bounded x rfl, answers x rfl, restrained x rfl⟩
    | error k =>
      refine ⟨.integer k.toNat, .null, ?_, .inl ⟨k.toNat, rfl, ?_, k.toNat_lt, rfl⟩⟩
      · simp [Wire.value, uint]
      · refine Nat.pos_of_ne_zero fun zero => some ?_
        rw [show k = 0 from UInt32.toNat_inj.1 zero]

end Replies

section Restrained
variable {r : Response} {i : Nat}

/-- The parser's own limits leave nothing out. -/
theorem restrained_parsed (valid : validateResponse r = .ok ()) : r.Restrained .parsed := by
  have any (n : UInt8) : n ≤ 255 := UInt8.le_iff_toNat_le.2 (Nat.le_of_lt_succ n.toNat_lt)
  have listed : ∀ n < 23, UInt8.ofNat n ∈ Limits.parsed.recorded := by decide
  intro reply same
  cases reply with
  | operation s =>
    refine ⟨any _, .inr ?_⟩
    have known := listed r.opcode.toNat
      (Nat.lt_succ_of_le (UInt8.le_iff_toNat_le.1 (validateResponse_eq_ok.1 valid).1))
    rwa [UInt8.ofNat_toNat] at known
  | status s => exact ⟨fun _ _ => any _, fun _ _ => any _⟩
  | audit p => exact fun e _ => ⟨fun _ _ _ _ => any _, fun _ _ => any _⟩
  | _ => trivial

private theorem field_some {vs : List Value} {w : Value} (at_ : vs[i]? = some w) :
    field i S (.array vs) ↔ S w := by
  refine ⟨fun h => h vs w rfl at_, ?_⟩
  rintro h _ w' ⟨⟩ found
  cases at_.symm.trans found
  exact h

private theorem unsigned_value (max : UInt8) {n : UInt8} :
    unsigned max.toNat (Wire.value n) ↔ n ≤ max := by
  simp [describes_unsigned8 max (Wire.value n)]

/-- The element of a value that may be null. -/
private theorem field_option [Wire α] (each : ∀ a : α, field i S (Wire.value a) ↔ p a)
    {o : Option α} :
    field i S (Wire.value o) ↔ ∀ a, o = some a → p a := by
  cases o with
  | none => simp [field, Wire.value]
  | some a =>
    refine (each a).trans ?_
    simp

private theorem charged {r : Reading UInt8} :
    field 1 (unsigned 100) (Wire.value r) ↔ ∀ n, r = .known n → n ≤ 100 := by
  cases r with
  | unsupported | unknown =>
    refine ⟨fun _ _ known => (by cases known), ?_⟩
    rintro _ _ _ ⟨⟩ found
    cases found
  | known n =>
    refine ((field_some rfl).trans (unsigned_value 100)).trans ?_
    simp

private theorem named {s : OperationStatus} :
    field 2 (unsigned 22) (Wire.value s) ↔ s.opcode ≤ 22 :=
  (field_some rfl).trans (unsigned_value 22)

private theorem restrains_iff {asked : UInt8} {x : Reply} :
    Restrains asked x.tagged.1.toNat x.tagged.2 ↔ x.Restrained .documented asked := by
  cases x with
  | operation s =>
    refine ⟨fun h => ⟨named.1 (h.operation rfl).1, (h.operation rfl).2⟩,
      fun h => ⟨fun _ => ⟨named.2 h.1, h.2⟩, fun tag => ?_, fun tag => ?_⟩⟩ <;> cases tag
  | status s =>
    have battery : field 3 (field 1 (unsigned 100)) (Wire.value s) ↔ _ :=
      (field_some rfl).trans charged
    have active : field 5 (field 2 (unsigned 22)) (Wire.value s) ↔ _ :=
      (field_some rfl).trans (field_option fun _ => named)
    refine ⟨fun h => ⟨battery.1 (h.status rfl).1, active.1 (h.status rfl).2⟩, fun h =>
      ⟨fun tag => ?_, fun _ => ⟨battery.2 h.battery, active.2 h.active⟩, fun tag => ?_⟩⟩ <;>
      cases tag
  | audit p =>
    have event (e : AuditEvent) : field 6 (field 3 (field 1 (unsigned 100))) (Wire.value e) ∧
        field 7 (field 2 (unsigned 22)) (Wire.value e) ↔ e.Restrained .documented := by
      have hardware : field 6 (field 3 (field 1 (unsigned 100))) (Wire.value e) ↔ _ :=
        (field_some rfl).trans (field_option fun _ => (field_some rfl).trans charged)
      have operation : field 7 (field 2 (unsigned 22)) (Wire.value e) ↔ _ :=
        (field_some rfl).trans (field_option fun _ => named)
      exact ⟨fun h => ⟨hardware.1 h.1, operation.1 h.2⟩,
        fun h => ⟨hardware.2 h.hardware, operation.2 h.operation⟩⟩
    have events : field 0 (fun events => ∀ i, field i (fun e =>
        field 6 (field 3 (field 1 (unsigned 100))) e ∧ field 7 (field 2 (unsigned 22)) e) events)
        (Wire.value p) ↔ ∀ e ∈ p.events, e.Restrained .documented := by
      refine (field_some rfl).trans ⟨fun h e mem => ?_, ?_⟩
      · obtain ⟨i, found⟩ := List.mem_iff_getElem?.1 (List.mem_map_of_mem mem)
        exact (event e).1 ((field_some found).1 (h i))
      · rintro h i _ w ⟨⟩ found
        obtain ⟨e, mem, rfl⟩ := List.mem_map.1 (List.mem_of_getElem? found)
        exact (event e).2 (h e mem)
    refine ⟨fun h => events.1 (h.audit rfl),
      fun h => ⟨fun tag => ?_, fun tag => ?_, fun _ => events.2 h⟩⟩ <;> cases tag
  | _ =>
    refine ⟨fun _ => trivial, fun _ => ⟨fun tag => ?_, fun tag => ?_, fun tag => ?_⟩⟩ <;> cases tag

theorem restrained_value : restrained (Wire.value r) ↔ r.Restrained .documented := by
  obtain ⟨asked, result⟩ := r
  cases result with
  | error code =>
    refine ⟨fun _ _ same => (by cases same), fun _ asked' tag record same => ?_⟩
    simp [Wire.value] at same
  | ok x =>
    have written : Wire.value (⟨asked, .ok x⟩ : Response) = .array [.integer asked.toNat, .integer 0,
        .array [.integer x.tagged.1.toNat, x.tagged.2]] := by
      simp only [Wire.value, uint, UInt8.toNat_toUInt64]
      rfl
    rw [written]
    constructor
    · rintro h _ ⟨⟩
      exact restrains_iff.1 (h _ _ _ rfl)
    · intro h asked' tag record same
      simp only [Value.array.injEq, List.cons.injEq, Value.integer.injEq, Int.natCast_inj,
        UInt8.toNat_inj] at same
      obtain ⟨rfl, _, ⟨rfl, rfl, _⟩, _⟩ := same
      exact restrains_iff.2 (h x rfl)

end Restrained

end Grammar
end OpenLock
