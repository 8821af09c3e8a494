import OpenLock.Transport.IsoDep
import OpenLock.Protocol.Packet
import OpenLock.Crypto.Signing

/-! The NDEF bootstrap record of `openlock-transport-nfc`. An index or a slice outside the
bytes, on which the code would panic, is the result `none`. -/
namespace OpenLock
open Cbor

/-- The bits of a `usize`. -/
inductive PointerWidth where
  | bits32
  | bits64

/-- `usize::MAX` and one more. -/
def PointerWidth.limit : PointerWidth → Nat
  | .bits32 => 2 ^ 32
  | .bits64 => 2 ^ 64

/-- `usize::checked_add`. -/
def PointerWidth.checkedAdd (w : PointerWidth) (a b : Nat) : Option Nat :=
  if a + b < w.limit then some (a + b) else none

/-- `&bytes[low..high]`. -/
def slice (bytes : Bytes) (low high : Nat) : Option Bytes :=
  if low ≤ high ∧ high ≤ bytes.length then some ((bytes.take high).drop low) else none

/-- `u32::to_be_bytes`. -/
def toBeBytes32 (x : UInt32) : Bytes :=
  [UInt8.ofNat (x.toNat / 2 ^ 24), UInt8.ofNat (x.toNat / 2 ^ 16 % 256),
    UInt8.ofNat (x.toNat / 2 ^ 8 % 256), UInt8.ofNat (x.toNat % 256)]

/-- `u32::from_be_bytes`. -/
def fromBeBytes32 (b₀ b₁ b₂ b₃ : UInt8) : UInt32 :=
  UInt32.ofNat (2 ^ 24 * b₀.toNat + 2 ^ 16 * b₁.toNat + 2 ^ 8 * b₂.toNat + b₃.toNat)

theorem fromBeBytes32_toBeBytes32 (x : UInt32) :
    fromBeBytes32 (UInt8.ofNat (x.toNat / 2 ^ 24)) (UInt8.ofNat (x.toNat / 2 ^ 16 % 256))
      (UInt8.ofNat (x.toNat / 2 ^ 8 % 256)) (UInt8.ofNat (x.toNat % 256)) = x := by
  have bound := x.toNat_lt
  apply UInt32.toNat_inj.1
  rw [fromBeBytes32, UInt32.toNat_ofNat', UInt8.toNat_ofNat', UInt8.toNat_ofNat', UInt8.toNat_ofNat',
    UInt8.toNat_ofNat']
  omega

theorem toBeBytes32_fromBeBytes32 (b₀ b₁ b₂ b₃ : UInt8) :
    toBeBytes32 (fromBeBytes32 b₀ b₁ b₂ b₃) = [b₀, b₁, b₂, b₃] := by
  have bound₀ := b₀.toNat_lt
  have bound₁ := b₁.toNat_lt
  have bound₂ := b₂.toNat_lt
  have bound₃ := b₃.toNat_lt
  have value : (fromBeBytes32 b₀ b₁ b₂ b₃).toNat
      = 2 ^ 24 * b₀.toNat + 2 ^ 16 * b₁.toNat + 2 ^ 8 * b₂.toNat + b₃.toNat := by
    rw [fromBeBytes32, UInt32.toNat_ofNat']
    omega
  rw [toBeBytes32, value]
  congr 1
  · apply UInt8.toNat_inj.1
    rw [UInt8.toNat_ofNat']
    omega
  · congr 1
    · apply UInt8.toNat_inj.1
      rw [UInt8.toNat_ofNat']
      omega
    · congr 1
      · apply UInt8.toNat_inj.1
        rw [UInt8.toNat_ofNat']
        omega
      · congr 1
        apply UInt8.toNat_inj.1
        rw [UInt8.toNat_ofNat']
        omega

def ndefMime : Bytes := "application/vnd.openlock.bootstrap+cbor".toByteArray.data.toList

section Bootstrap
variable (P : Primitives)

/-- The array that `encode_bootstrap` writes. -/
def bootstrapValue (record : DeviceKeyRecord) : Value :=
  .array [uint protocolVersion, .bytes record.key.deviceId.bytes.toList, uint record.key.keyId.toUInt64,
    uint record.key.keyVersion.toUInt64, .bytes record.key.x25519PublicKey.toList,
    .bytes record.key.rotationPublicKey.toList, uint record.key.capabilities,
    uint record.issuerKeyId.toUInt64, .bytes record.signature]

def encodeBootstrap (record : DeviceKeyRecord) : Except Error Bytes :=
  encodeLimit P (bootstrapValue record) maxNdefRecord

/-- The fields of `decode_bootstrap`. -/
def parseBootstrap (value : Value) (issuer : VerifyingKey) : Except Error DeviceKeyRecord := do
  match ← fields value 9 with
  | [version, device, keyId, keyVersion, x25519, rotation, capabilities, issuerKeyId, signature] => do
    failIf ((← number version) ≠ protocolVersion) .unsupportedVersion
    let key : DeviceKey := ⟨⟨← fixed 16 device⟩, ← u32Value keyId, ← u32Value keyVersion,
      ← fixed 32 x25519, ← fixed 32 rotation, ← number capabilities⟩
    let record : DeviceKeyRecord := ⟨key, ← u32Value issuerKeyId, ← data signature⟩
    verifyDeviceKey P issuer record
    pure record
  | _ => .error .invalidPayload

def decodeBootstrap (bytes : Bytes) (issuer : VerifyingKey) : Except Error DeviceKeyRecord := do
  parseBootstrap P (← decodeLimit P bytes maxNdefRecord) issuer

def encodeNdef (record : DeviceKeyRecord) : Except Error Bytes := do
  let payload ← encodeBootstrap P record
  failIf (ndefMime.length > 255 ∨ payload.length > 2 ^ 32 - 1) .objectTooLarge
  pure ([0xc2, UInt8.ofNat ndefMime.length] ++ toBeBytes32 (UInt32.ofNat payload.length) ++ ndefMime
    ++ payload)

def decodeNdef (w : PointerWidth) (bytes : Bytes) (issuer : VerifyingKey) :
    Option (Except Error DeviceKeyRecord) :=
  if bytes.length < 6 then some (.error .invalidNfc)
  else do
    if (← bytes[0]?) ≠ 0xc2 then some (.error .invalidNfc)
    else
      let typeLen := (← bytes[1]?).toNat
      let payloadLen :=
        (fromBeBytes32 (← bytes[2]?) (← bytes[3]?) (← bytes[4]?) (← bytes[5]?)).toNat
      match w.checkedAdd 6 typeLen with
      | none => some (.error .invalidNfc)
      | some payloadStart =>
        match w.checkedAdd payloadStart payloadLen with
        | none => some (.error .invalidNfc)
        | some payloadEnd =>
          if bytes.length ≠ payloadEnd then some (.error .invalidNfc)
          else if (← slice bytes 6 payloadStart) ≠ ndefMime then some (.error .invalidNfc)
          else some (decodeBootstrap P (← slice bytes payloadStart bytes.length) issuer)

end Bootstrap
end OpenLock
