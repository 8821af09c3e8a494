import OpenLock.Codec.Cursor
import OpenLock.Types.Basic

/-! The codec of the Kotlin binding, `Wire.kt`. An array of bytes is a list; a Kotlin string
is a Lean string, which cannot hold an unpaired surrogate. -/
namespace OpenLock.Kotlin
open Codec Cursor

/-- `Wire`. -/
inductive Wire where
  | uInt (value : UInt64)
  | bytes (value : Bytes)
  | text (value : String)
  | items (value : List Wire)
  | null

/-- The initial byte and the argument of a data item. -/
def head (major : UInt8) (n : UInt64) : Bytes :=
  if n < 24 then [major <<< 5 ||| n.toUInt8]
  else
    let size := if n ≤ 255 then 1 else if n ≤ 65535 then 2 else if n ≤ 0xffffffff then 4 else 8
    let ai : UInt8 := if size = 1 then 24 else if size = 2 then 25 else if size = 4 then 26 else 27
    (major <<< 5 ||| ai)
      :: (List.range size).map fun it => (n >>> UInt64.ofNat ((size - 1 - it) * 8)).toUInt8

/-- `toByteArray(Charsets.UTF_8)`. -/
def toByteArray (s : String) : Bytes := s.toByteArray.data.toList

namespace Wire

mutual
def encode : Wire → Bytes
  | .uInt value => head 0 value
  | .bytes value => head 2 (UInt64.ofNat value.length) ++ value
  | .text value =>
    let it := toByteArray value
    head 3 (UInt64.ofNat it.length) ++ it
  | .items value => encodeItems (head 4 (UInt64.ofNat value.length)) value
  | .null => [0xf6]

/-- The fold over the items of an array, from the bytes so far. -/
def encodeItems (data : Bytes) : List Wire → Bytes
  | [] => data
  | item :: rest => encodeItems (data ++ item.encode) rest
end

end Wire

/-- The exceptions of the parser: a failed `require`, an `error`, malformed text. -/
inductive Failure where
  | require | error | malformed
  deriving DecidableEq

def byte : Cursor Failure UInt8 := do
  require (fun data offset => offset < data.length) .require
  next

/-- `repeat(count) { n = (n shl 8) or byte().toULong() }`. -/
def number : Nat → UInt64 → Cursor Failure UInt64
  | 0, n => pure n
  | count + 1, n => do
    let b ← byte
    number count (n <<< 8 ||| b.toUInt64)

/-- The argument of an initial byte with additional information `ai`. -/
def argument (ai : Nat) : Cursor Failure UInt64 :=
  if ai ≥ 24 then
    if ai = 24 then number 1 0
    else if ai = 25 then number 2 0
    else if ai = 26 then number 4 0
    else if ai = 27 then number 8 0
    else refuse .error
  else pure (UInt64.ofNat ai)

/-- The bytes of a byte or text string. A length that passes the check is one of an array, so
`toInt` keeps it. -/
def content (n : UInt64) : Cursor Failure Bytes := do
  require (fun data offset => n ≤ UInt64.ofInt (data.length - offset)) .require
  slice n.toNat

/-- `decodeToString(throwOnInvalidSequence = true)`. -/
def decodeToString (value : Bytes) : Cursor Failure String :=
  if valid : (ByteArray.mk value.toArray).IsValidUTF8 then pure (.ofByteArray _ valid)
  else refuse .malformed

/-- What follows the argument, by the major type; `inner` parses an item one level down. -/
def item (inner : Cursor Failure Wire) (major : Nat) (n : UInt64) : Cursor Failure Wire :=
  if major = 0 then pure (.uInt n)
  else if major = 2 then .bytes <$> content n
  else if major = 3 then do
    let value ← content n
    .text <$> decodeToString value
  else if major = 4 then do
    require (fun _ _ => n ≤ 4096) .require
    .items <$> many inner n.toNat
  else refuse .error

/-- `parse(depth)`, by the number `32 - depth` of levels that are left. -/
def parse : Nat → Cursor Failure Wire
  | 0 => refuse .require
  | left + 1 => do
    let h := (← byte).toNat
    if h = 0xf6 then pure .null
    else
      let n ← argument (h &&& 31)
      item (parse left) (h >>> 5) n

def decode (data : Bytes) (maxSize : Int32) : Except (Stop Failure) Wire := do
  if (data.length : Int) ≤ maxSize.toInt then
    let (result, offset) ← parse 32 data 0
    if offset = data.length ∧ result.encode = data then .ok result
    else .error (.refused .require)
  else .error (.refused .require)

end OpenLock.Kotlin
