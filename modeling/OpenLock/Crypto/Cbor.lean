import OpenLock.Types.Device

/-! The CBOR profile of `openlock-crypto` and the primitives it takes from other
packages. Those primitives are a parameter: only their interface is fixed here. -/
namespace OpenLock

/-- `ciborium::value::Value`. A float is kept as its bit pattern. -/
inductive Value where
  | integer (n : Int)
  | bytes (b : Bytes)
  | float (bits : UInt64)
  | text (s : String)
  | bool (b : Bool)
  | null
  | tag (n : UInt64) (v : Value)
  | array (vs : List Value)
  | map (kvs : List (Value × Value))

mutual
def Value.decEq : (a b : Value) → Decidable (a = b)
  | .integer m, .integer n => decidable_of_iff (m = n) (by simp)
  | .bytes a, .bytes b => decidable_of_iff (a = b) (by simp)
  | .float a, .float b => decidable_of_iff (a = b) (by simp)
  | .text a, .text b => decidable_of_iff (a = b) (by simp)
  | .bool a, .bool b => decidable_of_iff (a = b) (by simp)
  | .null, .null => isTrue rfl
  | .tag m a, .tag n b =>
    match Value.decEq a b with
    | isTrue h => decidable_of_iff (m = n) (by simp [h])
    | isFalse h => isFalse (by simp [h])
  | .array as, .array bs =>
    match Value.decEqList as bs with
    | isTrue h => isTrue (by rw [h])
    | isFalse h => isFalse (by simpa using h)
  | .map as, .map bs =>
    match Value.decEqPairs as bs with
    | isTrue h => isTrue (by rw [h])
    | isFalse h => isFalse (by simpa using h)
  | .integer _, .bytes _ | .integer _, .float _ | .integer _, .text _ | .integer _, .bool _
  | .integer _, .null | .integer _, .tag _ _ | .integer _, .array _ | .integer _, .map _
  | .bytes _, .integer _ | .bytes _, .float _ | .bytes _, .text _ | .bytes _, .bool _
  | .bytes _, .null | .bytes _, .tag _ _ | .bytes _, .array _ | .bytes _, .map _
  | .float _, .integer _ | .float _, .bytes _ | .float _, .text _ | .float _, .bool _
  | .float _, .null | .float _, .tag _ _ | .float _, .array _ | .float _, .map _
  | .text _, .integer _ | .text _, .bytes _ | .text _, .float _ | .text _, .bool _
  | .text _, .null | .text _, .tag _ _ | .text _, .array _ | .text _, .map _
  | .bool _, .integer _ | .bool _, .bytes _ | .bool _, .float _ | .bool _, .text _
  | .bool _, .null | .bool _, .tag _ _ | .bool _, .array _ | .bool _, .map _
  | .null, .integer _ | .null, .bytes _ | .null, .float _ | .null, .text _
  | .null, .bool _ | .null, .tag _ _ | .null, .array _ | .null, .map _
  | .tag _ _, .integer _ | .tag _ _, .bytes _ | .tag _ _, .float _ | .tag _ _, .text _
  | .tag _ _, .bool _ | .tag _ _, .null | .tag _ _, .array _ | .tag _ _, .map _
  | .array _, .integer _ | .array _, .bytes _ | .array _, .float _ | .array _, .text _
  | .array _, .bool _ | .array _, .null | .array _, .tag _ _ | .array _, .map _
  | .map _, .integer _ | .map _, .bytes _ | .map _, .float _ | .map _, .text _
  | .map _, .bool _ | .map _, .null | .map _, .tag _ _ | .map _, .array _ =>
    isFalse (by simp)

def Value.decEqList : (as bs : List Value) → Decidable (as = bs)
  | [], [] => isTrue rfl
  | [], _ :: _ | _ :: _, [] => isFalse (by simp)
  | a :: as, b :: bs =>
    match Value.decEq a b, Value.decEqList as bs with
    | isTrue h, isTrue hs => isTrue (by rw [h, hs])
    | isFalse h, _ => isFalse (by simp [h])
    | _, isFalse h => isFalse (by simp [h])

def Value.decEqPairs : (as bs : List (Value × Value)) → Decidable (as = bs)
  | [], [] => isTrue rfl
  | [], _ :: _ | _ :: _, [] => isFalse (by simp)
  | (k, v) :: as, (l, w) :: bs =>
    match Value.decEq k l, Value.decEq v w, Value.decEqPairs as bs with
    | isTrue h, isTrue h', isTrue hs => isTrue (by rw [h, h', hs])
    | isFalse h, _, _ => isFalse (by simp [h])
    | _, isFalse h, _ => isFalse (by simp [h])
    | _, _, isFalse h => isFalse (by simp [h])
end

instance : DecidableEq Value := Value.decEq

structure VerifyingKey where
  bytes : Bytes32
  deriving DecidableEq

/-- What the crate takes from `ciborium`, `sha2`, `ed25519-dalek` and `x25519-dalek`. -/
structure Primitives where
  /-- `ciborium::ser::into_writer`; `none` is its error. -/
  intoWriter : Value → Option Bytes
  /-- `from_reader_with_recursion_limit`, with the bytes left in the reader. -/
  fromReader : Nat → Bytes → Option (Value × Bytes)
  sha256 : Bytes → Bytes32
  /-- Whether 32 bytes decompress to an Ed25519 point, as `VerifyingKey::from_bytes` needs. -/
  isPoint : Bytes32 → Bool
  verifyStrict : VerifyingKey → Bytes → Vector UInt8 64 → Bool
  /-- Whether the exchange of the fixed secret `[0x42; 32]` with this key is contributory. -/
  contributory : Bytes32 → Bool

namespace Cbor
variable (P : Primitives)

def uint (n : UInt64) : Value := .integer n.toNat

def number : Value → Except Error UInt64
  | .integer n => if 0 ≤ n ∧ n < 2^64 then .ok (UInt64.ofNat n.toNat) else .error .invalidPayload
  | _ => .error .invalidPayload

def u32Value (v : Value) : Except Error UInt32 := do
  let n ← number v
  if n.toNat < 2^32 then .ok n.toUInt32 else .error .invalidPayload

def data : Value → Except Error Bytes
  | .bytes b => .ok b
  | _ => .error .invalidPayload

def fixed (n : Nat) (v : Value) : Except Error (Vector UInt8 n) := do
  let b ← data v
  if h : b.length = n then .ok ⟨b.toArray, by simpa using h⟩ else .error .invalidPayload

def fields (v : Value) (count : Nat) : Except Error (List Value) :=
  match v with
  | .array a => if a.length = count then .ok a else .error .invalidPayload
  | _ => .error .invalidPayload

def optionalU32 (v : Value) : Except Error (Option UInt32) :=
  if v = .null then .ok none else some <$> u32Value v

def encodeLimit (v : Value) (limit : Nat) : Except Error Bytes := do
  let out ← okOr (P.intoWriter v) .invalidPayload
  failIf (out.length > limit) .objectTooLarge
  pure out

def encode (v : Value) : Except Error Bytes := encodeLimit P v maxObjectSize

def decodeLimit (bytes : Bytes) (limit : Nat) : Except Error Value := do
  failIf (bytes.length > limit) .objectTooLarge
  let (value, rest) ← okOr (P.fromReader 16 bytes) .invalidPayload
  failIf (rest ≠ []) .invalidPayload
  let again ← encodeLimit P value limit
  failIf (again ≠ bytes) .invalidPayload
  pure value

def decode (bytes : Bytes) : Except Error Value := decodeLimit P bytes maxObjectSize

end Cbor
end OpenLock
