import OpenLock.Crypto.Cose
import OpenLock.Crypto.Wire
import OpenLock.Effects.Raises

/-! The errors of the codec. Every wire type rejects what it cannot read in one of two ways, and
a signed object adds those of its envelope. -/
namespace OpenLock
open Cbor Effects
variable {α : Type} {e : Error}

/-- The errors of the wire codec. -/
def Malformed (e : Error) : Prop := e = .invalidPayload ∨ e = .objectTooLarge

section Pure
variable {F : Error → Prop} {α : Type}

theorem raises_failIf {p : Prop} [Decidable p] (h : F e) :
    Raises F (failIf p e : Except Error Unit) := by
  unfold failIf
  exact .ite (.error h) (.pure ())

theorem raises_okOr {o : Option α} (h : F e) : Raises F (okOr o e) := by
  cases o with
  | none => exact .error h
  | some a => exact .ok a

end Pure

section Wire
variable {v : Value} {n : Nat}

theorem invalid : Raises Malformed (.error .invalidPayload : Except Error α) :=
  .error (.inl rfl)

theorem raises_number : Raises Malformed (number v) := by
  cases v with
  | integer n => exact .ite (.ok _) invalid
  | _ => exact invalid

theorem raises_u32Value : Raises Malformed (u32Value v) :=
  raises_number.bind fun _ => .ite (.ok _) invalid

theorem raises_data : Raises Malformed (data v) := by
  cases v with
  | bytes b => exact .ok b
  | _ => exact invalid

theorem raises_fixed : Raises Malformed (fixed n v) := by
  refine raises_data.bind fun b => ?_
  split
  · exact .ok _
  · exact invalid

theorem raises_fields : Raises Malformed (fields v n) := by
  cases v with
  | array vs => exact .ite (.ok vs) invalid
  | _ => exact invalid

/-- A wire type that fails with the codec's errors only. -/
class ParseErrors (α : Type) [Wire α] : Prop where
  malformed (v : Value) : Raises Malformed (Wire.parse v : Except Error α)

open ParseErrors (malformed)

instance : ParseErrors UInt64 := ⟨fun _ => raises_number⟩
instance : ParseErrors UInt32 := ⟨fun _ => raises_u32Value⟩
instance : ParseErrors UInt8 := ⟨fun _ => raises_number.bind fun _ => .ite (.ok _) invalid⟩
instance : ParseErrors Bool :=
  ⟨fun _ => raises_number.bind fun _ => .ite (.ok _) (.ite (.ok _) invalid)⟩
instance (n : Nat) : ParseErrors (Vector UInt8 n) := ⟨fun _ => raises_fixed⟩
instance : ParseErrors Bytes := ⟨fun _ => raises_data⟩
instance : ParseErrors LockId := ⟨fun _ => raises_fixed.map⟩
instance : ParseErrors CredentialId := ⟨fun _ => raises_fixed.map⟩
instance : ParseErrors SubjectKey := ⟨fun _ => raises_fixed.map⟩

instance : ParseErrors String where
  malformed v := by
    cases v with
    | text s => exact .ite (.ok s) invalid
    | _ => exact invalid

instance {α : Type} [Wire α] [ParseErrors α] : ParseErrors (Option α) :=
  ⟨fun v => .ite (.ok none) (malformed v).map⟩

theorem ParseErrors.enumeration [DecidableEq α] (variants : List α) :
    @ParseErrors α (Wire.enumeration variants) :=
  let _ : Wire α := .enumeration variants
  ⟨fun _ => raises_number.bind fun _ => raises_okOr (.inl rfl)⟩

instance : ParseErrors BoltState := .enumeration _
instance : ParseErrors DoorState := .enumeration _
instance : ParseErrors ActuatorKind := .enumeration _
instance : ParseErrors Fault := .enumeration _
instance : ParseErrors CompletionEvidence := .enumeration _
instance : ParseErrors OperationPhase := .enumeration _
instance : ParseErrors AuditKind := .enumeration _
instance : ParseErrors FirmwarePhase := .enumeration _

instance {α : Type} [Wire α] [ParseErrors α] : ParseErrors (Reading α) where
  malformed v := by
    simp only [Wire.parse]
    split
    · exact raises_number.bind fun _ => .ite (.ok _) (.ite (.ok _) invalid)
    · exact raises_number.bind fun _ => .ite (malformed _).map invalid
    · exact raises_number.bind fun _ => invalid
    · exact invalid

instance : ParseErrors AutoRelock where
  malformed v := by
    simp only [Wire.parse]
    split
    · exact raises_number.bind fun _ => .ite (.ok _) invalid
    · exact raises_number.bind fun _ => .ite raises_u32Value.map (.ite raises_u32Value.map invalid)
    · exact raises_number.bind fun _ => invalid
    · exact invalid

/-- A record: its fields, one after the other, or an array of another length. -/
private theorem raises_record {k : List Value → Except Error α}
    (body : ∀ ws, Raises Malformed (k ws)) : Raises Malformed (fields v n >>= k) :=
  raises_fields.bind body

instance : ParseErrors OperationStatus where
  malformed v := raises_record fun ws => by
    split
    · repeat' first | exact .pure _ | refine .bind (malformed _) fun _ => ?_
    · exact invalid

instance : ParseErrors LockStatus where
  malformed v := raises_record fun ws => by
    split
    · repeat' first | exact .pure _ | refine .bind (malformed _) fun _ => ?_
    · exact invalid

instance : ParseErrors DeviceInfo where
  malformed v := raises_record fun ws => by
    split
    · repeat' first | exact .pure _ | refine .bind (malformed _) fun _ => ?_
    · exact invalid

instance : ParseErrors DeviceConfig where
  malformed v := raises_record fun ws => by
    split
    · repeat' first | exact .pure _ | refine .bind (malformed _) fun _ => ?_
    · exact invalid

instance : ParseErrors HardwareSample where
  malformed v := raises_record fun ws => by
    split
    · repeat' first | exact .pure _ | refine .bind (malformed _) fun _ => ?_
    · exact invalid

instance : ParseErrors AuditEvent where
  malformed v := raises_record fun ws => by
    split
    · repeat' first | exact .pure _ | refine .bind (malformed _) fun _ => ?_
    · exact invalid

instance : ParseErrors FirmwareManifest where
  malformed v := raises_record fun ws => by
    split
    · repeat' first | exact .pure _ | refine .bind (malformed _) fun _ => ?_
    · exact invalid

instance : ParseErrors FirmwareStatus where
  malformed v := raises_record fun ws => by
    split
    · repeat' first | exact .pure _ | refine .bind (malformed _) fun _ => ?_
    · exact invalid

instance : ParseErrors AuditPage where
  malformed v := raises_record fun ws => by
    split
    · exact .bind (raises_failIf (.inr rfl)) fun _ => .bind (.mapM malformed _) fun _ =>
        .bind (malformed _) fun _ => .bind (malformed _) fun _ => .pure _
    · exact invalid

instance : ParseErrors Action where
  malformed v := by
    simp only [Wire.parse, Action.parse]
    split
    · refine raises_number.bind fun op => ?_
      unfold Action.parseOperands
      split
      all_goals first
        | exact .ok _
        | exact (malformed _).map
        | exact invalid
        | exact raises_u32Value.bind fun _ => .bind (raises_failIf (.inl rfl)) fun _ =>
            .bind (malformed _) fun _ => .pure _
        | exact .bind (malformed _) fun _ => .bind (raises_failIf (.inl rfl)) fun _ =>
            .bind (malformed _) fun _ => .pure _
        | exact .bind (malformed _) fun _ => .bind (malformed _) fun _ =>
            .bind (malformed _) fun _ => .pure _
    · exact invalid

instance : ParseErrors Command where
  malformed v := raises_record fun ws => by
    split
    · exact .bind (malformed _) fun _ => .bind (malformed _) fun _ => .bind (malformed _) fun _ =>
        .bind (raises_failIf (.inl rfl)) fun _ => .pure _
    · exact invalid

private theorem raises_parseTagged (tag : UInt64) (v : Value) :
    Raises Malformed (Reply.parseTagged tag v) := by
  unfold Reply.parseTagged
  split
  all_goals first
    | exact (malformed _).map
    | exact invalid
    | exact raises_record fun ws => by
        split
        · repeat' first | exact .pure _ | refine .bind (malformed _) fun _ => ?_
        · exact invalid

instance : ParseErrors Reply where
  malformed v := raises_record fun ws => by
    split
    · exact raises_number.bind fun _ => raises_parseTagged _ _
    · exact invalid

theorem raises_validateResponse {r : Response} : Raises Malformed (validateResponse r) := by
  refine .bind (raises_failIf (.inl rfl)) fun _ => ?_
  split
  · exact raises_failIf (.inl rfl)
  · exact raises_failIf (.inl rfl)

instance : ParseErrors Response where
  malformed v := raises_record fun ws => by
    split
    · refine .bind (malformed _) fun _ => .bind (raises_failIf (.inl rfl)) fun _ =>
        raises_u32Value.bind fun _ => .ite (.bind (malformed _).map fun _ => ?_)
          (.bind (raises_failIf (.inl rfl)) fun _ => .bind (.pure _) fun _ => ?_)
      all_goals exact raises_validateResponse.bind fun _ => .pure _
    · exact invalid

end Wire

section Objects
variable (P : Primitives)

theorem raises_encodeLimit (v : Value) (limit : Nat) : Raises Malformed (encodeLimit P v limit) :=
  .bind (raises_okOr (.inl rfl)) fun _ => .bind (raises_failIf (.inr rfl)) fun _ => .pure _

theorem raises_decodeLimit (b : Bytes) (limit : Nat) : Raises Malformed (decodeLimit P b limit) :=
  .bind (raises_failIf (.inr rfl)) fun _ => .bind (raises_okOr (.inl rfl)) fun _ =>
    .bind (raises_failIf (.inl rfl)) fun _ => .bind (raises_encodeLimit P _ _) fun _ =>
    .bind (raises_failIf (.inl rfl)) fun _ => .pure _

theorem raises_fromBytes (b : Bytes32) :
    Raises (· = e) (VerifyingKey.fromBytes P b e) := .ite (.ok _) (.error rfl)

/-- The errors of a signed object: the codec's, the envelope's and the signature's. -/
def OfObject (e : Error) : Prop :=
  Malformed e ∨ e = .invalidCose ∨ e = .badSignature ∨ e = .unsupportedVersion

private theorem raises_object {x : Except Error α} (h : Raises Malformed x) :
    Raises OfObject x := fun e failed => .inl (h e failed)

private theorem raises_openObject (kind cose : Bytes) : Raises OfObject (openObject P kind cose) := by
  refine (raises_object (raises_decodeLimit P _ _)).bind fun object => ?_
  split
  · refine (raises_object raises_data).bind fun _ => (raises_object (raises_encodeLimit P _ _)).bind
      fun _ => (raises_failIf (.inr (.inl rfl))).bind fun _ => (raises_object raises_data).bind
      fun _ => (raises_object raises_data).bind fun _ => Raises.bind ?_ fun _ =>
      (raises_object (raises_encodeLimit P _ _)).bind fun _ => .pure _
    unfold signatureFromSlice
    split
    · exact .ok _
    · exact .error (.inr (.inl rfl))
  · exact .error (.inr (.inl rfl))

private theorem raises_parseValidity (v : Value) : Raises Malformed (parseValidity v) := by
  refine .ite (.pure _) (raises_fields.bind fun ws => ?_)
  split
  · exact raises_number.bind fun _ => raises_number.bind fun _ => .pure _
  · exact invalid

private theorem raises_parseGrant (v : Value) : Raises OfObject (parseGrant v) := by
  refine (raises_object raises_fields).bind fun ws => ?_
  split
  · refine (raises_object raises_number).bind fun _ => (raises_failIf (.inr (.inr (.inr rfl)))).bind
      fun _ => (raises_object (raises_parseValidity _)).bind fun _ =>
      (raises_object raises_fixed).bind fun _ => (raises_object raises_fixed).bind fun _ =>
      (raises_object raises_fixed).bind fun _ => (raises_object raises_u32Value).bind fun _ =>
      (raises_object raises_number).bind fun _ => (raises_object ?_).bind fun _ =>
      (raises_failIf (.inl (.inl rfl))).bind fun _ => .pure _
    exact .ite (.ok _) raises_u32Value.map
  · exact raises_object invalid

theorem raises_readGrant (key : VerifyingKey) (cose : Bytes) :
    Raises OfObject (readGrant P key cose) := by
  refine Raises.bind ?_ fun v => raises_parseGrant v
  refine (raises_openObject P _ _).bind fun _ => (raises_failIf (.inr (.inr (.inl rfl)))).bind
    fun _ => raises_object (raises_decodeLimit P _ _)

end Objects
end OpenLock
