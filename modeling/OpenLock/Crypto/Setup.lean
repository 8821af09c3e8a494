import OpenLock.Crypto.Cose

/-! The setup text of `commissioning.rs`, the content of the QR code. -/
namespace OpenLock

structure SetupPayload where
  lockId : LockId
  publicKey : Bytes32
  setupKey : Bytes32
  deriving DecidableEq

/-- `str::as_bytes`. -/
def utf8 (s : String) : Bytes := s.toByteArray.data.toList

/-- `format!("{b:02x}")`. -/
def hexPair (b : UInt8) : List Char := [Nat.digitChar (b.toNat / 16), Nat.digitChar (b.toNat % 16)]

def hex (bytes : Bytes) : String := String.ofList (bytes.flatMap hexPair)

/-- `char::to_digit(16)` of an ASCII byte. -/
def digitValue (b : UInt8) : Option Nat :=
  if 0x30 ≤ b ∧ b ≤ 0x39 then some (b.toNat - 0x30)
  else if 0x61 ≤ b ∧ b ≤ 0x66 then some (b.toNat - 0x61 + 10)
  else if 0x41 ≤ b ∧ b ≤ 0x46 then some (b.toNat - 0x41 + 10)
  else none

/-- `u8::from_str_radix(_, 16)`: a sign is allowed, an overflow is not. -/
def fromStrRadix (s : Bytes) : Option UInt8 :=
  let digits := match s with
    | 0x2b :: d :: ds => d :: ds
    | _ => s
  if digits = [] then none
  else
    UInt8.ofNat <$> digits.foldlM (fun n b => do
      let n := n * 16 + (← digitValue b)
      if n < 256 then some n else none) 0

/-- A lower-case hexadecimal digit. -/
def isLowerHex (b : UInt8) : Bool := (0x30 ≤ b && b ≤ 0x39) || (0x61 ≤ b && b ≤ 0x66)

def unhex (n : Nat) (s : String) : Except Error (Vector UInt8 n) := do
  failIf ((utf8 s).length ≠ n * 2 ∨ ¬ (utf8 s).all isLowerHex) .invalidPayload
  Vector.ofFnM fun i : Fin n =>
    okOr (fromStrRadix (((utf8 s).drop (2 * i)).take 2)) .invalidPayload

namespace SetupPayload
variable (P : Primitives)

def encode (p : SetupPayload) : Except Error String := do
  validatePublic P p.publicKey
  failIf (p.setupKey = Vector.replicate 32 0) .invalidPayload
  pure ("OPENLOCK4:" ++ hex p.lockId.bytes.toList ++ ":" ++ hex p.publicKey.toList ++ ":"
    ++ hex p.setupKey.toList)

/-- `Iterator::next` on the fields that are left. -/
def next (fields : List String) : Except Error (String × List String) :=
  match fields with
  | field :: rest => .ok (field, rest)
  | [] => .error .invalidPayload

def decode (text : String) : Except Error SetupPayload := do
  let fields := (text.toList.splitOn ':').map String.ofList
  failIf (fields.head? ≠ some "OPENLOCK4") .unsupportedVersion
  let (lockId, fields) ← next fields.tail
  let lockId ← unhex 16 lockId
  let (publicKey, fields) ← next fields
  let publicKey ← unhex 32 publicKey
  let (setupKey, fields) ← next fields
  let setupKey ← unhex 32 setupKey
  failIf (fields ≠ []) .invalidPayload
  let out : SetupPayload := ⟨⟨lockId⟩, publicKey, setupKey⟩
  let _ ← out.encode P
  pure out

end SetupPayload
end OpenLock
