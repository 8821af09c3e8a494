import OpenLock.Crypto.Minimal
import OpenLock.Crypto.Wire

/-! Every wire type is written and read without loss: a value is accepted exactly when
it is the value of an allowed member of the type. -/
namespace OpenLock
open Cbor
variable {v : Value} {vs : List Value} {α : Type} {b : Bytes} {n d : Nat} {a : α}

/-! Reading the primitive shapes back. -/

@[simp] theorem number_eq_ok {n : UInt64} : number v = .ok n ↔ uint n = v := by
  cases v with
  | integer k =>
    simp only [number, uint, Value.integer.injEq]
    split
    · rename_i range
      rw [Except.ok.injEq]
      constructor
      · rintro rfl
        rw [UInt64.toNat_ofNat_of_lt' (by change _ < 2 ^ 64; omega), Int.toNat_of_nonneg range.1]
      · rintro rfl
        simp
    · rename_i range
      have bound := n.toNat_lt
      constructor
      · intro h
        cases h
      · rintro rfl
        exact absurd ⟨by omega, by omega⟩ range
  | _ => simp [number, uint]

theorem uint_injective : Function.Injective uint := by
  intro a b h
  exact UInt64.toNat_inj.1 (by simpa [uint] using h)

@[simp] theorem data_eq_ok : data v = .ok b ↔ .bytes b = v := by
  cases v <;> simp [data, eq_comm]

@[simp] theorem fixed_eq_ok {b : Vector UInt8 n} : fixed n v = .ok b ↔ .bytes b.toList = v := by
  simp only [fixed, bind_eq_ok, data_eq_ok]
  constructor
  · rintro ⟨c, rfl, h⟩
    split at h
    · cases h
      rfl
    · cases h
  · rintro rfl
    refine ⟨b.toList, rfl, ?_⟩
    rw [dif_pos b.length_toList]
    rfl

theorem fields_eq_ok : fields v n = .ok vs ↔ v = .array vs ∧ vs.length = n := by
  cases v with
  | array ws =>
    simp only [fields, Value.array.injEq]
    split
    · rename_i len
      rw [Except.ok.injEq]
      exact ⟨fun h => ⟨h, h ▸ len⟩, And.left⟩
    · rename_i len
      exact ⟨fun h => (by cases h), fun h => absurd (h.1 ▸ h.2) len⟩
  | _ => simp [fields]

/-- The two directions of a wire type agree. `Allowed` are the type's own constraints, and
no member needs more than `depth` nested containers. -/
class LawfulWire (α : Type) [Wire α] where
  Allowed : α → Prop
  depth : Nat
  parse_eq_ok {v : Value} {a : α} : Wire.parse v = .ok a ↔ Wire.value a = v ∧ Allowed a
  value_injective : Function.Injective (Wire.value : α → Value)
  within (a : α) : (Wire.value a).Within depth

open LawfulWire (Allowed depth value_injective within)
attribute [simp] LawfulWire.parse_eq_ok

/-- A type with no constraints of its own. What was written is known from how it is read. -/
@[reducible] def LawfulWire.plain {α : Type} [Wire α] (d : Nat)
    (parse : ∀ {v : Value} {a : α}, Wire.parse v = .ok a ↔ Wire.value a = v ∧ True)
    (within : ∀ a : α, (Wire.value a).Within d) : LawfulWire α where
  Allowed _ := True
  depth := d
  parse_eq_ok := parse
  value_injective _ _ h := Except.ok.inj
    ((parse.2 ⟨rfl, trivial⟩).symm.trans (parse.2 ⟨h.symm, trivial⟩))
  within := within

@[simp] theorem LawfulWire.value_inj [Wire α] [LawfulWire α] {a b : α} :
    Wire.value a = Wire.value b ↔ a = b := value_injective.eq_iff

theorem Value.Within.mono {d e : Nat} (h : v.Within d) (le : d ≤ e) : v.Within e := by
  induction d generalizing v e with
  | zero => cases v <;> simp_all [Value.Within]
  | succ d ih =>
    obtain ⟨e, rfl⟩ := Nat.exists_eq_add_of_le' (Nat.zero_lt_of_lt le)
    cases v with
    | tag n v => exact ih (v := v) h (by omega)
    | array vs => exact fun v mem => ih (h v mem) (by omega)
    | map kvs => exact fun kv mem => ⟨ih (h kv mem).1 (by omega), ih (h kv mem).2 (by omega)⟩
    | _ => simp_all [Value.Within]

section Scalars

theorem within_bytes (b : Bytes) (d : Nat) : (Value.bytes b).Within d := by
  simp [Value.Within]

theorem within_uint (n : UInt64) (d : Nat) : (uint n).Within d := by
  have bound := n.toNat_lt
  simp only [uint, Value.Within]
  omega

instance : LawfulWire UInt64 :=
  .plain 0 (by simp [Wire.parse, Wire.value]) fun n => within_uint n 0

@[simp] theorem u32Value_eq_ok {n : UInt32} : u32Value v = .ok n ↔ uint n.toUInt64 = v := by
  simp only [u32Value, bind_eq_ok, number_eq_ok]
  constructor
  · rintro ⟨k, rfl, h⟩
    split at h
    · rename_i bound
      cases h
      congr 1
      apply UInt64.toNat_inj.1
      rw [UInt32.toNat_toUInt64, UInt64.toNat_toUInt32, Nat.mod_eq_of_lt bound]
    · cases h
  · rintro rfl
    refine ⟨_, rfl, ?_⟩
    rw [if_pos (by simpa using n.toNat_lt)]
    simp

instance : LawfulWire UInt32 :=
  .plain 0 (by simp [Wire.parse, Wire.value]) fun _ => within_uint _ 0

instance : LawfulWire UInt8 := by
  refine .plain 0 (fun {v n} => ?_) fun _ => within_uint _ 0
  simp only [Wire.parse, Wire.value, bind_eq_ok, number_eq_ok, and_true]
  constructor
  · rintro ⟨k, rfl, h⟩
    split at h
    · rename_i bound
      cases h
      congr 1
      apply UInt64.toNat_inj.1
      rw [UInt8.toNat_toUInt64, UInt64.toNat_toUInt8, Nat.mod_eq_of_lt bound]
    · cases h
  · rintro rfl
    refine ⟨_, rfl, ?_⟩
    rw [if_pos (by simpa using n.toNat_lt)]
    simp

instance : LawfulWire Bool := by
  refine .plain 0 (fun {v b} => ?_) fun _ => within_uint _ 0
  simp only [Wire.parse, Wire.value, bind_eq_ok, number_eq_ok, and_true]
  constructor
  · rintro ⟨n, rfl, h⟩
    split_ifs at h <;> cases h <;> simp_all
  · rintro rfl
    refine ⟨_, rfl, ?_⟩
    cases b <;> rfl

instance : LawfulWire String where
  Allowed s := s.utf8ByteSize ≤ 64
  depth := 0
  parse_eq_ok {v s} := by
    cases v with
    | text t =>
      simp only [Wire.parse, Wire.value, Value.text.injEq]
      split
      · simp_all [eq_comm]
      · rename_i long
        exact ⟨fun h => (by cases h), fun h => absurd (h.1 ▸ h.2) long⟩
    | _ => simp [Wire.parse, Wire.value]
  value_injective a b h := Value.text.inj h
  within s := by simp [Wire.value, Value.Within]

instance (n : Nat) : LawfulWire (Vector UInt8 n) :=
  .plain 0 (by simp [Wire.parse, Wire.value]) fun s => within_bytes _ 0

instance : LawfulWire Bytes :=
  .plain 0 (by simp [Wire.parse, Wire.value]) fun s => within_bytes s 0

instance : LawfulWire LockId :=
  .plain 0 (fun {v id} => by cases id; simp [Wire.parse, Wire.value]) fun id => within id.bytes

instance : LawfulWire CredentialId :=
  .plain 0 (fun {v id} => by cases id; simp [Wire.parse, Wire.value]) fun id => within id.bytes

instance : LawfulWire SubjectKey :=
  .plain 0 (fun {v id} => by cases id; simp [Wire.parse, Wire.value]) fun id => within id.bytes

end Scalars

section Enumerations

/-- An enumeration is lawful when its table names every variant once. -/
@[reducible] def LawfulWire.enumeration {α : Type} [DecidableEq α] (variants : List α)
    (once : variants.Nodup) (every : ∀ a, a ∈ variants) (few : variants.length < 2 ^ 64) :
    @LawfulWire α (Wire.enumeration variants) :=
  let _ : Wire α := .enumeration variants
  have position (a : α) : (UInt64.ofNat (variants.idxOf a)).toNat = variants.idxOf a :=
    UInt64.toNat_ofNat_of_lt' ((List.idxOf_lt_length_of_mem (every a)).trans few)
  .plain 0 (fun {v a} => by
      simp only [Wire.parse, Wire.value, bind_eq_ok, number_eq_ok, okOr_eq_ok, and_true]
      constructor
      · rintro ⟨n, rfl, h⟩
        obtain ⟨bound, rfl⟩ := List.getElem?_eq_some_iff.1 h
        congr 1
        apply UInt64.toNat_inj.1
        rw [position, once.idxOf_getElem]
      · rintro rfl
        refine ⟨_, rfl, ?_⟩
        rw [position, List.getElem?_eq_getElem (List.idxOf_lt_length_of_mem (every a)),
          List.getElem_idxOf]) fun _ => within_uint _ 0

instance : LawfulWire BoltState :=
  .enumeration _ (by decide) (fun a => by cases a <;> decide) (by decide)
instance : LawfulWire DoorState :=
  .enumeration _ (by decide) (fun a => by cases a <;> decide) (by decide)
instance : LawfulWire ActuatorKind :=
  .enumeration _ (by decide) (fun a => by cases a <;> decide) (by decide)
instance : LawfulWire Fault :=
  .enumeration _ (by decide) (fun a => by cases a <;> decide) (by decide)
instance : LawfulWire CompletionEvidence :=
  .enumeration _ (by decide) (fun a => by cases a <;> decide) (by decide)
instance : LawfulWire OperationPhase :=
  .enumeration _ (by decide) (fun a => by cases a <;> decide) (by decide)
instance : LawfulWire AuditKind :=
  .enumeration _ (by decide) (fun a => by cases a <;> decide) (by decide)
instance : LawfulWire FirmwarePhase :=
  .enumeration _ (by decide) (fun a => by cases a <;> decide) (by decide)

end Enumerations

theorem record_eq_ok {k : List Value → Except Error α} {p : Prop} (len : vs.length = n)
    (body : ∀ ws, ws.length = n → (k ws = .ok a ↔ vs = ws ∧ p)) :
    (fields v n >>= k) = .ok a ↔ .array vs = v ∧ p := by
  simp only [bind_eq_ok, fields_eq_ok]
  constructor
  · rintro ⟨ws, ⟨rfl, len'⟩, h⟩
    obtain ⟨rfl, allowed⟩ := (body ws len').1 h
    exact ⟨rfl, allowed⟩
  · rintro ⟨rfl, h⟩
    exact ⟨vs, ⟨rfl, len⟩, (body vs len).2 ⟨rfl, h⟩⟩

theorem within_nil : (Value.array []).Within (d + 1) := by
  intro v mem
  cases mem

theorem within_head (first : v.Within d) (rest : (Value.array vs).Within (d + 1)) :
    (Value.array (v :: vs)).Within (d + 1) := by
  intro w mem
  rcases List.mem_cons.1 mem with rfl | mem
  · exact first
  · exact rest w mem

theorem within_cons [Wire α] [LawfulWire α] (le : depth α ≤ d)
    (rest : (Value.array vs).Within (d + 1)) :
    (Value.array (Wire.value a :: vs)).Within (d + 1) :=
  within_head ((within a).mono le) rest

section Containers

/-- A type none of whose values is written as null, so that `Option` can tell them apart. -/
class NonNull (α : Type) [Wire α] : Prop where
  value_ne_null (a : α) : Wire.value a ≠ .null

instance : NonNull UInt64 := ⟨fun _ h => by cases h⟩
instance : NonNull UInt32 := ⟨fun _ h => by cases h⟩
instance : NonNull CredentialId := ⟨fun _ h => by cases h⟩
instance : NonNull HardwareSample := ⟨fun _ h => by cases h⟩
instance : NonNull OperationStatus := ⟨fun _ h => by cases h⟩
instance : NonNull FirmwareManifest := ⟨fun _ h => by cases h⟩

instance {α : Type} [Wire α] [LawfulWire α] [NonNull α] : LawfulWire (Option α) where
  Allowed o := ∀ a, o = some a → Allowed a
  depth := depth α
  parse_eq_ok {v o} := by
    simp only [Wire.parse]
    split
    · rename_i null
      subst null
      cases o with
      | none => simp [Wire.value]
      | some a => simp [Wire.value, NonNull.value_ne_null]
    · rename_i some
      simp only [map_eq_ok, LawfulWire.parse_eq_ok]
      cases o with
      | none => simp [Wire.value, Ne.symm some]
      | some a => simp [Wire.value]
  value_injective o o' h := by
    cases o with
    | none =>
      cases o' with
      | none => rfl
      | some a => exact absurd h.symm (NonNull.value_ne_null a)
    | some a =>
      cases o' with
      | none => exact absurd h (NonNull.value_ne_null a)
      | some b => exact congrArg some (value_injective h)
  within o := by
    cases o with
    | none => simp [Wire.value, Value.Within]
    | some a => exact within a

instance {α : Type} [Wire α] [LawfulWire α] : LawfulWire (Reading α) where
  Allowed r := ∀ a, r = .known a → Allowed a
  depth := depth α + 1
  parse_eq_ok {v r} := by
    constructor
    · intro h
      simp only [Wire.parse] at h
      split at h
      · simp only [bind_eq_ok, number_eq_ok] at h
        obtain ⟨n, rfl, h⟩ := h
        split_ifs at h with zero one
        · cases h
          exact ⟨zero ▸ rfl, fun a known => (by cases known)⟩
        · cases h
          exact ⟨one ▸ rfl, fun a known => (by cases known)⟩
      · simp only [bind_eq_ok, number_eq_ok] at h
        obtain ⟨n, rfl, h⟩ := h
        split_ifs at h with two
        simp only [map_eq_ok, LawfulWire.parse_eq_ok] at h
        obtain ⟨a, ⟨rfl, allowed⟩, rfl⟩ := h
        refine ⟨two ▸ rfl, fun b known => ?_⟩
        cases known
        exact allowed
      · simp at h
      · cases h
    · rintro ⟨rfl, allowed⟩
      cases r with
      | unsupported => simp [Wire.parse, Wire.value, uint_injective.eq_iff]
      | unknown => simp [Wire.parse, Wire.value, uint_injective.eq_iff]
      | known a => simp [Wire.parse, Wire.value, uint_injective.eq_iff, allowed]
  value_injective r r' h := by
    cases r <;> cases r' <;> simp_all [Wire.value, uint_injective.eq_iff]
  within r := by
    cases r with
    | unsupported | unknown => exact within_cons (α := UInt64) (Nat.zero_le _) within_nil
    | known a =>
      exact within_cons (α := UInt64) (Nat.zero_le _) (within_cons (Nat.le_refl _) within_nil)

instance : LawfulWire AutoRelock := by
  refine .plain 1 (fun {v r} => ⟨fun h => ?_, ?_⟩) fun r => ?_
  · simp only [Wire.parse] at h
    split at h
    · simp only [bind_eq_ok, number_eq_ok] at h
      obtain ⟨n, rfl, h⟩ := h
      split_ifs at h with zero
      cases h
      exact ⟨zero ▸ rfl, trivial⟩
    · simp only [bind_eq_ok, number_eq_ok] at h
      obtain ⟨n, rfl, h⟩ := h
      split_ifs at h with one two
      · simp only [map_eq_ok, u32Value_eq_ok] at h
        obtain ⟨ms, rfl, rfl⟩ := h
        exact ⟨one ▸ rfl, trivial⟩
      · simp only [map_eq_ok, u32Value_eq_ok] at h
        obtain ⟨ms, rfl, rfl⟩ := h
        exact ⟨two ▸ rfl, trivial⟩
    · simp at h
    · cases h
  · rintro ⟨rfl, _⟩
    cases r <;> simp [Wire.parse, Wire.value, uint_injective.eq_iff]
  · cases r with
    | disabled => exact within_cons (α := UInt64) (by decide) within_nil
    | delay ms | afterClose ms =>
      exact within_cons (α := UInt64) (by decide) (within_cons (by decide) within_nil)

end Containers

section Records

instance : LawfulWire OperationStatus := by
  refine .plain 1 (fun {v s} => record_eq_ok rfl fun ws len => ?_) fun s => ?_
  · match ws, len with
    | [x0, x1, x2, x3, x4, x5], _ =>
      cases s
      simp [Allowed, -Bool.exists_bool]
  · repeat' first | exact within_nil | refine within_cons (by decide) ?_

instance : LawfulWire LockStatus := by
  refine .plain 2 (fun {v s} => record_eq_ok rfl fun ws len => ?_) fun s => ?_
  · match ws, len with
    | [x0, x1, x2, x3, x4, x5, x6, x7, x8, x9, x10], _ =>
      cases s
      simp [Allowed, -Bool.exists_bool]
  · repeat' first | exact within_nil | refine within_cons (by decide) ?_

instance : LawfulWire DeviceInfo where
  Allowed i := i.model.utf8ByteSize ≤ 64 ∧ i.hardware.utf8ByteSize ≤ 64
    ∧ i.firmware.utf8ByteSize ≤ 64
  depth := 1
  parse_eq_ok {v i} := by
    refine record_eq_ok rfl fun ws len => ?_
    match ws, len with
    | [x0, x1, x2, x3, x4, x5, x6, x7, x8, x9, x10, x11, x12, x13, x14, x15, x16, x17, x18, x19], _ =>
      cases i
      simp [Allowed, -Bool.exists_bool]
      tauto
  value_injective a b h := by
    have same : Value.array _ = Value.array _ := h
    cases a
    cases b
    simpa using same
  within i := by
    repeat' first | exact within_nil | refine within_cons (by decide) ?_

instance : LawfulWire DeviceConfig := by
  refine .plain 2 (fun {v c} => record_eq_ok rfl fun ws len => ?_) fun c => ?_
  · match ws, len with
    | [x0, x1, x2, x3, x4, x5], _ =>
      cases c
      simp [Allowed, -Bool.exists_bool]
  · repeat' first | exact within_nil | refine within_cons (by decide) ?_

instance : LawfulWire HardwareSample := by
  refine .plain 2 (fun {v s} => record_eq_ok rfl fun ws len => ?_) fun s => ?_
  · match ws, len with
    | [x0, x1, x2, x3], _ =>
      cases s
      simp [Allowed, -Bool.exists_bool]
  · repeat' first | exact within_nil | refine within_cons (by decide) ?_

instance : LawfulWire AuditEvent := by
  refine .plain 3 (fun {v e} => record_eq_ok rfl fun ws len => ?_) fun e => ?_
  · match ws, len with
    | [x0, x1, x2, x3, x4, x5, x6, x7], _ =>
      cases e
      simp [Allowed, -Bool.exists_bool]
  · repeat' first | exact within_nil | refine within_cons (by decide) ?_

instance : LawfulWire FirmwareManifest where
  Allowed m := m.model.utf8ByteSize ≤ 64 ∧ m.hardware.utf8ByteSize ≤ 64
    ∧ m.version.utf8ByteSize ≤ 64
  depth := 1
  parse_eq_ok {v m} := by
    refine record_eq_ok rfl fun ws len => ?_
    match ws, len with
    | [x0, x1, x2, x3, x4, x5], _ =>
      cases m
      simp [Allowed, -Bool.exists_bool]
      tauto
  value_injective a b h := by
    have same : Value.array _ = Value.array _ := h
    cases a
    cases b
    simpa using same
  within m := by
    repeat' first | exact within_nil | refine within_cons (by decide) ?_

instance : LawfulWire FirmwareStatus where
  Allowed s := ∀ m, s.manifest = some m → Allowed m
  depth := 2
  parse_eq_ok {v s} := by
    refine record_eq_ok rfl fun ws len => ?_
    match ws, len with
    | [x0, x1, x2, x3], _ =>
      cases s
      simp [Allowed, -Bool.exists_bool]
      tauto
  value_injective a b h := by
    have same : Value.array _ = Value.array _ := h
    cases a
    cases b
    simpa using same
  within s := by
    repeat' first | exact within_nil | refine within_cons (by decide) ?_

theorem mapM_parse_eq_ok [Wire α] [LawfulWire α] {as : List α} :
    vs.mapM Wire.parse = .ok as ↔ as.map Wire.value = vs ∧ ∀ a ∈ as, Allowed a := by
  induction vs generalizing as with
  | nil => cases as <;> simp
  | cons v vs ih =>
    simp only [List.mapM_cons, bind_eq_ok, LawfulWire.parse_eq_ok, pure_eq_ok, ih]
    constructor
    · rintro ⟨a, ⟨rfl, allowed⟩, as, ⟨rfl, rest⟩, rfl⟩
      exact ⟨rfl, List.forall_mem_cons.2 ⟨allowed, rest⟩⟩
    · cases as with
      | nil => simp
      | cons a as =>
        rintro ⟨same, allowed⟩
        obtain ⟨rfl, rfl⟩ := List.cons.inj same
        obtain ⟨first, rest⟩ := List.forall_mem_cons.1 allowed
        exact ⟨a, ⟨rfl, first⟩, as, ⟨rfl, rest⟩, rfl⟩

theorem within_map [Wire α] [LawfulWire α] (as : List α) :
    (Value.array (as.map Wire.value)).Within (depth α + 1) := by
  intro v mem
  obtain ⟨a, _, rfl⟩ := List.mem_map.1 mem
  exact within a

instance : LawfulWire AuditPage where
  Allowed p := p.events.length ≤ 16
  depth := 5
  parse_eq_ok {v p} := by
    refine record_eq_ok rfl fun ws len => ?_
    match ws, len with
    | [x, y, z], _ =>
      cases p
      cases x with
      | array vs =>
        simp only [bind_eq_ok, failIf_eq_ok, LawfulWire.parse_eq_ok, mapM_parse_eq_ok, pure_eq_ok]
        constructor
        · rintro ⟨_, few, es, ⟨rfl, _⟩, n, ⟨rfl, _⟩, g, ⟨rfl, _⟩, same⟩
          cases same
          exact ⟨rfl, by simpa using few⟩
        · rintro ⟨same, few⟩
          cases same
          exact ⟨(), by simpa using few, _, ⟨rfl, fun _ _ => trivial⟩, _, ⟨rfl, trivial⟩, _,
            ⟨rfl, trivial⟩, rfl⟩
      | _ => simp
  value_injective a b h := by
    have same : Value.array _ = Value.array _ := h
    cases a
    cases b
    simpa [(List.map_injective_iff.2 value_injective).eq_iff] using same
  within p := by
    intro v mem
    rcases List.mem_cons.1 mem with rfl | mem
    · exact within_map p.events
    · exact (within_cons (by decide) (within_cons (by decide) within_nil) :
        (Value.array [Wire.value p.nextCursor, Wire.value p.gap]).Within 5) v mem

end Records

section Commands
variable {a : Action}

/-- The bounds that `Action::parse` puts on its operands. -/
def Action.Bounded : Action → Prop
  | .readLog _ limit => limit ≠ 0 ∧ limit ≤ 16
  | .firmwareChunk _ data => data ≠ [] ∧ data.length ≤ 1024
  | _ => True

theorem Action.parseLog_eq_ok {after limit : Value} : parseLog after limit = .ok a ↔
      ∃ n k, a = .readLog n k ∧ Wire.value n = after ∧ Wire.value k = limit ∧ a.Bounded := by
  simp only [parseLog, bind_eq_ok, u32Value_eq_ok, failIf_eq_ok, LawfulWire.parse_eq_ok,
    pure_eq_ok, not_or]
  constructor
  · rintro ⟨k, rfl, _, ⟨pos, few⟩, n, ⟨rfl, _⟩, rfl⟩
    exact ⟨n, k, rfl, rfl, rfl, pos, UInt32.not_lt.1 few⟩
  · rintro ⟨n, k, rfl, rfl, rfl, pos, few⟩
    exact ⟨k, rfl, (), ⟨pos, UInt32.not_lt.2 few⟩, n, ⟨rfl, trivial⟩, rfl⟩

theorem Action.parseChunk_eq_ok {offset data : Value} : parseChunk offset data = .ok a ↔
      ∃ n b, a = .firmwareChunk n b ∧ Wire.value n = offset ∧ Wire.value b = data ∧ a.Bounded := by
  simp only [parseChunk, bind_eq_ok, failIf_eq_ok, LawfulWire.parse_eq_ok, pure_eq_ok, not_or]
  constructor
  · rintro ⟨b, ⟨rfl, _⟩, _, ⟨some, few⟩, n, ⟨rfl, _⟩, rfl⟩
    exact ⟨n, b, rfl, rfl, rfl, by simpa using some, by omega⟩
  · rintro ⟨n, b, rfl, rfl, rfl, some, few⟩
    exact ⟨b, ⟨rfl, trivial⟩, (), ⟨by simpa using some, by omega⟩, n, ⟨rfl, trivial⟩, rfl⟩

theorem Action.parseOperands_eq_ok {op : UInt64} {f : List Value} :
    parseOperands op f = .ok a ↔ a.opcode.toUInt64 = op ∧ a.operands = f ∧ a.Bounded := by
  constructor
  · intro h
    rw [← UInt64.toNat_inj]
    unfold parseOperands at h
    split at h
    all_goals
      simp only [Except.ok.injEq, map_eq_ok, bind_eq_ok, LawfulWire.parse_eq_ok, pure_eq_ok,
        parseLog_eq_ok, parseChunk_eq_ok, reduceCtorEq] at h
    all_goals
      rename_i code
      rw [code]
    -- The rows of the table: no operand, one, two with a bound, three.
    all_goals first
      | (subst h; exact ⟨rfl, rfl, trivial⟩)
      | (obtain ⟨x, ⟨rfl, _⟩, rfl⟩ := h; exact ⟨rfl, rfl, trivial⟩)
      | (obtain ⟨x, y, rfl, rfl, rfl, bounded⟩ := h; exact ⟨rfl, rfl, bounded⟩)
      | (obtain ⟨x, ⟨rfl, _⟩, y, ⟨rfl, _⟩, z, ⟨rfl, _⟩, rfl⟩ := h; exact ⟨rfl, rfl, trivial⟩)
  · rintro ⟨rfl, rfl, bounded⟩
    cases a <;> simp [parseOperands, opcode, operands, Allowed, parseLog_eq_ok, parseChunk_eq_ok, bounded]

private theorem Action.within_operands (a : Action) : (Value.array a.operands).Within 3 := by
  cases a
  all_goals repeat' first | exact within_nil | refine within_cons (by decide) ?_

instance : LawfulWire Action where
  Allowed := Action.Bounded
  depth := 3
  parse_eq_ok {v a} := by
    constructor
    · intro h
      simp only [Wire.parse, Action.parse] at h
      split at h
      · simp only [bind_eq_ok, number_eq_ok, Action.parseOperands_eq_ok] at h
        obtain ⟨op, rfl, rfl, rfl, bounded⟩ := h
        exact ⟨rfl, bounded⟩
      · cases h
    · rintro ⟨rfl, bounded⟩
      change (number (uint a.opcode.toUInt64) >>= fun op => Action.parseOperands op a.operands) = _
      rw [bind_eq_ok]
      exact ⟨a.opcode.toUInt64, number_eq_ok.2 rfl,
        Action.parseOperands_eq_ok.2 ⟨rfl, rfl, bounded⟩⟩
  value_injective a b h := by
    have same : Value.array (_ :: _) = Value.array (_ :: _) := h
    simp only [Value.array.injEq, List.cons.injEq, LawfulWire.value_inj] at same
    obtain ⟨opcode, operands⟩ := same
    cases a <;> cases b <;> simp_all [Action.opcode, Action.operands]
  within a := within_cons (by decide) a.within_operands

instance : LawfulWire Command where
  Allowed c := c.validate = .ok () ∧ c.action.Bounded
  depth := 4
  parse_eq_ok {v c} := by
    refine record_eq_ok rfl fun ws len => ?_
    match ws, len with
    | [x, y, z], _ =>
      simp only [bind_eq_ok, LawfulWire.parse_eq_ok, pure_eq_ok, List.cons.injEq]
      constructor
      · rintro ⟨b, ⟨rfl, _⟩, n, ⟨rfl, _⟩, a, ⟨rfl, bounded⟩, _, valid, rfl⟩
        exact ⟨⟨rfl, rfl, rfl, trivial⟩, valid, bounded⟩
      · rintro ⟨⟨rfl, rfl, rfl, _⟩, valid, bounded⟩
        exact ⟨_, ⟨rfl, trivial⟩, _, ⟨rfl, fun _ _ => trivial⟩, _, ⟨rfl, bounded⟩, (), valid, rfl⟩
  value_injective a b h := by
    have same : Value.array _ = Value.array _ := h
    cases a
    cases b
    simpa using same
  within c := by
    repeat' first | exact within_nil | refine within_cons (by decide) ?_

end Commands

section Replies
variable {r : Reply}

/-- The bounds that `Reply::parse` puts on strings and pages. -/
def Reply.Bounded : Reply → Prop
  | .info i => Allowed i
  | .audit p => Allowed p
  | .firmware s => Allowed s
  | _ => True

/-- A reader of three fields without constraints. -/
private theorem three_eq_ok {α β γ δ : Type} [Wire α] [Wire β] [Wire γ] [LawfulWire α]
    [LawfulWire β] [LawfulWire γ] (any : ∀ (a : α) (b : β) (c : γ), Allowed a ∧ Allowed b ∧ Allowed c)
    {f : α → β → γ → δ} {d : δ} :
    (do match ← fields v 3 with
        | [x, y, z] => pure (f (← Wire.parse x) (← Wire.parse y) (← Wire.parse z))
        | _ => .error .invalidPayload) = Except.ok d ↔
      ∃ a b c, d = f a b c ∧ .array [Wire.value a, Wire.value b, Wire.value c] = v := by
  simp only [bind_eq_ok, fields_eq_ok]
  constructor
  · rintro ⟨ws, ⟨rfl, len⟩, h⟩
    obtain ⟨x, y, z, rfl⟩ := List.length_eq_three.1 len
    simp only [bind_eq_ok, LawfulWire.parse_eq_ok, pure_eq_ok] at h
    obtain ⟨a, ⟨rfl, _⟩, b, ⟨rfl, _⟩, c, ⟨rfl, _⟩, rfl⟩ := h
    exact ⟨a, b, c, rfl, rfl⟩
  · rintro ⟨a, b, c, rfl, rfl⟩
    refine ⟨_, ⟨rfl, rfl⟩, ?_⟩
    simp [any a b c]

theorem Reply.parsePairing_eq_ok : parsePairing v = .ok r ↔
    ∃ epoch generation windowOpen, r = .pairing epoch generation windowOpen ∧
      .array [Wire.value epoch, Wire.value generation, Wire.value windowOpen] = v :=
  three_eq_ok fun _ _ _ => ⟨trivial, trivial, trivial⟩

theorem Reply.parseCredential_eq_ok : parseCredential v = .ok r ↔
    ∃ uses maxUses nextSequence, r = .credential uses maxUses nextSequence ∧
      .array [Wire.value uses, Wire.value maxUses, Wire.value nextSequence] = v :=
  three_eq_ok fun _ _ _ => ⟨trivial, fun _ _ => trivial, trivial⟩

theorem Reply.parseClaimed_eq_ok : parseClaimed v = .ok r ↔
    ∃ epoch generation, r = .claimed epoch generation ∧
      .array [Wire.value epoch, Wire.value generation] = v := by
  simp only [parseClaimed, bind_eq_ok, fields_eq_ok]
  constructor
  · rintro ⟨ws, ⟨rfl, len⟩, h⟩
    obtain ⟨x, y, rfl⟩ := List.length_eq_two.1 len
    simp only [bind_eq_ok, LawfulWire.parse_eq_ok, pure_eq_ok] at h
    obtain ⟨epoch, ⟨rfl, _⟩, generation, ⟨rfl, _⟩, rfl⟩ := h
    exact ⟨epoch, generation, rfl, rfl⟩
  · rintro ⟨epoch, generation, rfl, rfl⟩
    refine ⟨_, ⟨rfl, rfl⟩, ?_⟩
    simp [Allowed]

theorem Reply.parseTagged_eq_ok {tag : UInt64} :
    parseTagged tag v = .ok r ↔ r.tagged.1 = tag ∧ r.tagged.2 = v ∧ r.Bounded := by
  constructor
  · intro h
    rw [← UInt64.toNat_inj]
    unfold parseTagged at h
    split at h
    all_goals
      simp only [map_eq_ok, LawfulWire.parse_eq_ok, parsePairing_eq_ok, parseClaimed_eq_ok,
        parseCredential_eq_ok, reduceCtorEq] at h
    all_goals
      rename_i code
      rw [code]
    all_goals first
      | (obtain ⟨x, ⟨rfl, _⟩, rfl⟩ := h; exact ⟨rfl, rfl, trivial⟩)
      | (obtain ⟨x, ⟨rfl, bounded⟩, rfl⟩ := h; exact ⟨rfl, rfl, bounded⟩)
      | (obtain ⟨x, y, rfl, rfl⟩ := h; exact ⟨rfl, rfl, trivial⟩)
      | (obtain ⟨x, y, z, rfl, rfl⟩ := h; exact ⟨rfl, rfl, trivial⟩)
  · rintro ⟨rfl, rfl, bounded⟩
    cases r with
    | info i => exact map_eq_ok.2 ⟨i, LawfulWire.parse_eq_ok.2 ⟨rfl, bounded⟩, rfl⟩
    | audit p => exact map_eq_ok.2 ⟨p, LawfulWire.parse_eq_ok.2 ⟨rfl, bounded⟩, rfl⟩
    | firmware s => exact map_eq_ok.2 ⟨s, LawfulWire.parse_eq_ok.2 ⟨rfl, bounded⟩, rfl⟩
    | pairing x y z => exact parsePairing_eq_ok.2 ⟨x, y, z, rfl, rfl⟩
    | claimed x y => exact parseClaimed_eq_ok.2 ⟨x, y, rfl, rfl⟩
    | credential x y z => exact parseCredential_eq_ok.2 ⟨x, y, z, rfl, rfl⟩
    | operation x => exact map_eq_ok.2 ⟨x, LawfulWire.parse_eq_ok.2 ⟨rfl, trivial⟩, rfl⟩
    | status x => exact map_eq_ok.2 ⟨x, LawfulWire.parse_eq_ok.2 ⟨rfl, trivial⟩, rfl⟩
    | config x => exact map_eq_ok.2 ⟨x, LawfulWire.parse_eq_ok.2 ⟨rfl, trivial⟩, rfl⟩

instance : LawfulWire Reply where
  Allowed := Reply.Bounded
  depth := 6
  parse_eq_ok {v r} := by
    refine record_eq_ok rfl fun ws len => ?_
    match ws, len with
    | [x, y], _ =>
      simp only [bind_eq_ok, number_eq_ok, Reply.parseTagged_eq_ok, List.cons.injEq]
      constructor
      · rintro ⟨n, rfl, rfl, rfl, bounded⟩
        exact ⟨⟨rfl, rfl, trivial⟩, bounded⟩
      · rintro ⟨⟨rfl, rfl, _⟩, bounded⟩
        exact ⟨_, rfl, rfl, rfl, bounded⟩
  value_injective a b h := by
    have same : Value.array [_, _] = Value.array [_, _] := h
    simp only [Value.array.injEq, List.cons.injEq, uint_injective.eq_iff] at same
    obtain ⟨tag, data, _⟩ := same
    cases a <;> cases b <;> simp_all [Reply.tagged]
  within r := by
    refine within_cons (α := UInt64) (by decide) ?_
    intro v mem
    rw [List.mem_singleton.1 mem]
    cases r with
    | operation x | status x | info x | config x | audit x | firmware x =>
      exact (within x).mono (by decide)
    | _ => repeat' first | exact within_nil | refine within_cons (by decide) ?_

theorem validateResponse_eq_ok {r : Response} :
    validateResponse r = .ok () ↔ r.opcode ≤ 22 ∧
      (∀ reply, r.result = .ok reply → reply.answers r.opcode = true) ∧ r.result ≠ .error 0 := by
  obtain ⟨opcode, result⟩ := r
  cases result with
  | ok reply => simp [validateResponse, UInt8.not_lt]
  | error code => simp [validateResponse, UInt8.not_lt]

instance : LawfulWire Response where
  Allowed r := validateResponse r = .ok () ∧ ∀ reply, r.result = .ok reply → reply.Bounded
  depth := 7
  parse_eq_ok {v r} := by
    obtain ⟨opcode, result⟩ := r
    cases result with
    | ok reply =>
      refine record_eq_ok rfl fun ws len => ?_
      match ws, len with
      | [x, y, z], _ =>
        simp only [bind_eq_ok, LawfulWire.parse_eq_ok, u32Value_eq_ok, failIf_eq_ok]
        constructor
        · rintro ⟨op, ⟨rfl, _⟩, _, _, code, rfl, h⟩
          split_ifs at h with zero
          · simp only [bind_eq_ok, map_eq_ok, LawfulWire.parse_eq_ok, pure_eq_ok] at h
            obtain ⟨_, ⟨reply, ⟨rfl, bounded⟩, rfl⟩, _, valid, same⟩ := h
            cases same
            exact ⟨zero ▸ rfl, valid, fun _ same => Except.ok.inj same ▸ bounded⟩
          · simp at h
        · rintro ⟨same, valid, bounded⟩
          cases same
          obtain ⟨low, _, _⟩ := validateResponse_eq_ok.1 valid
          refine ⟨opcode, ⟨rfl, trivial⟩, (), UInt8.not_lt.2 low, 0, rfl, ?_⟩
          simp [bounded reply rfl, Allowed, valid]
    | error code =>
      refine record_eq_ok rfl fun ws len => ?_
      match ws, len with
      | [x, y, z], _ =>
        simp only [bind_eq_ok, LawfulWire.parse_eq_ok, u32Value_eq_ok, failIf_eq_ok]
        constructor
        · rintro ⟨op, ⟨rfl, _⟩, _, _, code, rfl, h⟩
          split_ifs at h with zero
          · simp at h
          · simp only [bind_eq_ok, failIf_eq_ok, not_not, pure_eq_ok] at h
            obtain ⟨_, rfl, _, rfl, _, valid, same⟩ := h
            cases same
            exact ⟨rfl, valid, fun _ same => (by cases same)⟩
        · rintro ⟨same, valid, _⟩
          cases same
          obtain ⟨low, _, some⟩ := validateResponse_eq_ok.1 valid
          refine ⟨opcode, ⟨rfl, trivial⟩, (), UInt8.not_lt.2 low, code, rfl, ?_⟩
          rw [if_neg fun zero => some (by rw [zero])]
          simp [valid]
  value_injective a b h := by
    obtain ⟨opcode, result⟩ := a
    obtain ⟨opcode', result'⟩ := b
    cases result <;> cases result'
    all_goals
      have same : Value.array [_, _, _] = Value.array [_, _, _] := h
      simp only [Value.array.injEq, List.cons.injEq, LawfulWire.value_inj] at same
    · rw [same.1, same.2.1]
    · cases same.2.2.1
    · cases same.2.2.1
    · rw [same.1, same.2.2.1]
  within r := by
    obtain ⟨opcode, result⟩ := r
    cases result with
    | ok reply =>
      exact within_cons (by decide) (within_cons (α := UInt64) (by decide)
        (within_cons (by decide) within_nil))
    | error code =>
      exact within_cons (by decide) (within_cons (by decide)
        (within_cons (α := Option UInt64) (a := none) (by decide) within_nil))

end Replies

section Encodings
variable {P : Primitives} {limit : Nat}

/-- Whatever the reader accepts is the encoding of what it returns: both limits and the
comparison with the re-encoded value are in `decode_limit`. -/
theorem encodeLimit_of_decodeLimit (h : decodeLimit P b limit = .ok v) :
    encodeLimit P v limit = .ok b := by
  simp only [decodeLimit, bind_eq_ok, okOr_eq_ok, failIf_eq_ok, pure_eq_ok, not_not] at h
  obtain ⟨_, _, _, _, _, _, again, encoded, _, rfl, rfl⟩ := h
  exact encoded

theorem encodeLimit_eq_ok (codec : P.Ciborium) (shallow : v.Within 16) :
    encodeLimit P v limit = .ok b ↔ v.write = b ∧ b.length ≤ limit := by
  simp only [encodeLimit, codec.writes v shallow, bind_eq_ok, okOr_eq_ok, Option.some.injEq,
    failIf_eq_ok, pure_eq_ok]
  constructor
  · rintro ⟨_, rfl, _, fits, rfl⟩
    exact ⟨rfl, by omega⟩
  · rintro ⟨rfl, fits⟩
    exact ⟨_, rfl, (), by omega, rfl⟩

theorem decodeLimit_write (codec : P.Ciborium) (shallow : v.Within 16)
    (fits : v.write.length ≤ limit) (small : limit < 2 ^ 64) :
    decodeLimit P v.write limit = .ok v := by
  have read := codec.reads v shallow (by omega)
  have again := (encodeLimit_eq_ok codec shallow).2 ⟨rfl, fits⟩
  simp [decodeLimit, read, again, okOr, fits]

/-- Two shallow values are never written alike. -/
theorem encodeLimit_injective (codec : P.Ciborium) {v w : Value} (hv : v.Within 16)
    (hw : w.Within 16) (small : limit < 2 ^ 64) (first : encodeLimit P v limit = .ok b)
    (second : encodeLimit P w limit = .ok b) : v = w := by
  obtain ⟨rfl, fits⟩ := (encodeLimit_eq_ok codec hv).1 first
  obtain ⟨same, _⟩ := (encodeLimit_eq_ok codec hw).1 second
  exact Value.write_injective hv hw (by omega) same.symm

end Encodings
end OpenLock
