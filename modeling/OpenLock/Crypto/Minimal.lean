import OpenLock.Codec.Reading
import OpenLock.Crypto.Cbor

/-! The minimal CBOR encoding and a reader for it, up to a number of nested
containers: what the crate relies on `ciborium` for. -/
namespace OpenLock
open Codec
variable {major n : Nat} {out : Bytes}

namespace Cbor

/-- The initial byte of a data item and its argument, as short as possible. -/
def head (major n : Nat) : Bytes :=
  if n < 24 then [UInt8.ofNat (major * 32 + n)]
  else if n < 2 ^ 8 then UInt8.ofNat (major * 32 + 24) :: bigEndian 1 n
  else if n < 2 ^ 16 then UInt8.ofNat (major * 32 + 25) :: bigEndian 2 n
  else if n < 2 ^ 32 then UInt8.ofNat (major * 32 + 26) :: bigEndian 4 n
  else UInt8.ofNat (major * 32 + 27) :: bigEndian 8 n

def headLength (n : Nat) : Nat :=
  if n < 24 then 1 else if n < 2 ^ 8 then 2 else if n < 2 ^ 16 then 3
  else if n < 2 ^ 32 then 5 else 9

@[simp] theorem length_head (major n : Nat) : (head major n).length = headLength n := by
  unfold head headLength
  split_ifs <;> simp

theorem headLength_pos (n : Nat) : 1 ≤ headLength n := by
  unfold headLength
  split_ifs <;> decide

theorem headLength_le (n : Nat) : headLength n ≤ 9 := by
  unfold headLength
  split_ifs <;> decide

theorem headLength_mono {m n : Nat} (h : m ≤ n) : headLength m ≤ headLength n := by
  unfold headLength
  split_ifs <;> omega

/-- The argument that follows an initial byte with this additional information. -/
def argument (info : Nat) : Reader Nat :=
  if info < 24 then pure info
  else if info = 24 then unsigned 1
  else if info = 25 then unsigned 2
  else if info = 26 then unsigned 4
  else if info = 27 then unsigned 8
  else failure

/-- Major type, additional information and argument. -/
def readHead : Reader (Nat × Nat × Nat) := do
  let b ← byte
  (fun n => (b.toNat / 32, b.toNat % 32, n)) <$> argument (b.toNat % 32)

private theorem inverts_readHead {major info n : Nat} (type : major < 8) (low : info < 32)
    (arg : Inverts (argument info) out n) :
    Inverts readHead (UInt8.ofNat (major * 32 + info) :: out) (major, info, n) := by
  have whole : (UInt8.ofNat (major * 32 + info)).toNat = major * 32 + info :=
    UInt8.toNat_ofNat_of_lt' (by change _ < 256; omega)
  have high : (major * 32 + info) / 32 = major := by omega
  have rest : (major * 32 + info) % 32 = info := by omega
  have read := (inverts_byte (UInt8.ofNat (major * 32 + info))).bind
    (f := fun b => (fun n => (b.toNat / 32, b.toNat % 32, n)) <$> argument (b.toNat % 32))
    (by rw [whole, high, rest]; exact arg.map _)
  exact read

/-- Only an argument below 24 is written in the initial byte itself. -/
theorem inverts_head (type : major < 8) (bound : n < 2 ^ 64) :
    ∃ info, Inverts readHead (head major n) (major, info, n) := by
  unfold head
  split_ifs with h24 h8 h16 h32
  · refine ⟨n, inverts_readHead type (by omega) ?_⟩
    rw [argument, if_pos h24]
    exact .pure n
  · exact ⟨24, inverts_readHead type (by decide) (inverts_unsigned (k := 1) h8)⟩
  · exact ⟨25, inverts_readHead type (by decide) (inverts_unsigned (k := 2) h16)⟩
  · exact ⟨26, inverts_readHead type (by decide) (inverts_unsigned (k := 4) h32)⟩
  · exact ⟨27, inverts_readHead type (by decide) (inverts_unsigned (k := 8) bound)⟩

end Cbor

namespace Value
open Cbor

mutual
/-- The shortest encoding of a value. A float is written in full, which is not always the
shortest: no value of the crate holds one. -/
def write : Value → Bytes
  | .integer n => if 0 ≤ n then head 0 n.toNat else head 1 (-1 - n).toNat
  | .bytes b => head 2 b.length ++ b
  | .text s => head 3 s.toByteArray.data.toList.length ++ s.toByteArray.data.toList
  | .array vs => head 4 vs.length ++ writeList vs
  | .map kvs => head 5 kvs.length ++ writePairs kvs
  | .tag n v => head 6 n.toNat ++ v.write
  | .bool b => [if b then 0xf5 else 0xf4]
  | .null => [0xf6]
  | .float bits => 0xfb :: bigEndian 8 bits.toNat

def writeList : List Value → Bytes
  | [] => []
  | v :: vs => v.write ++ writeList vs

def writePairs : List (Value × Value) → Bytes
  | [] => []
  | (k, v) :: kvs => k.write ++ v.write ++ writePairs kvs
end

theorem writeList_eq (vs : List Value) : writeList vs = vs.flatMap write := by
  induction vs with
  | nil => rfl
  | cons v vs ih => simp [writeList, ih]

theorem writePairs_eq (kvs : List (Value × Value)) :
    writePairs kvs = kvs.flatMap fun kv => kv.1.write ++ kv.2.write := by
  induction kvs with
  | nil => rfl
  | cons kv kvs ih => simp [writePairs, ih]

theorem write_pos (v : Value) : 1 ≤ v.write.length := by
  cases v with
  | integer n =>
    unfold write
    split <;> simp [headLength_pos]
  | bool b | null | float bits => simp [write]
  | _ =>
    simp only [write, List.length_append, length_head]
    exact (headLength_pos _).trans (Nat.le_add_right _ _)

/-- No float, every integer within 64 bits and a sign, and at most `d` nested containers. -/
def Within : Nat → Value → Prop
  | _, .integer n => -2 ^ 64 ≤ n ∧ n < 2 ^ 64
  | _, .bytes _ | _, .text _ | _, .bool _ | _, .null => True
  | d + 1, .tag _ v => Within d v
  | d + 1, .array vs => ∀ v ∈ vs, Within d v
  | d + 1, .map kvs => ∀ kv ∈ kvs, Within d kv.1 ∧ Within d kv.2
  | _, _ => False

/-- The readers of what a container holds, unless the recursion limit is reached. -/
private def nested (inner : Option (Reader Value)) : Reader (Reader Value) :=
  match inner with
  | some r => pure r
  | none => failure

private def readText (n : Nat) : Reader Value := do
  let b ← take n
  if valid : (ByteArray.mk b.toArray).IsValidUTF8 then pure (.text (.ofByteArray _ valid))
  else failure

/-- What follows the initial byte. -/
private def body (inner : Option (Reader Value)) : Nat × Nat × Nat → Reader Value
  | (0, _, n) => pure (.integer n)
  | (1, _, n) => pure (.integer (-1 - n))
  | (2, _, n) => .bytes <$> take n
  | (3, _, n) => readText n
  | (4, _, n) => do
    let r ← nested inner
    .array <$> many r n
  | (5, _, n) => do
    let r ← nested inner
    .map <$> many (do let k ← r; Prod.mk k <$> r) n
  | (6, _, n) => do
    let r ← nested inner
    .tag (UInt64.ofNat n) <$> r
  | (7, 20, _) => pure (.bool false)
  | (7, 21, _) => pure (.bool true)
  | (7, 22, _) => pure .null
  | (7, 27, n) => pure (.float (UInt64.ofNat n))
  | _ => failure

private def item (inner : Option (Reader Value)) : Reader Value := do
  let head ← readHead
  body inner head

/-- Read one value with at most `d` nested containers. -/
def read : Nat → Reader Value
  | 0 => item none
  | d + 1 => item (some (read d))

section Inversion
variable {inner : Option (Reader Value)} {v : Value} {d : Nat}

private theorem inverts_item (type : major < 8) (bound : n < 2 ^ 64)
    (rest : ∀ info, Inverts (body inner (major, info, n)) out v) :
    Inverts (item inner) (head major n ++ out) v := by
  obtain ⟨info, read⟩ := inverts_head type bound
  exact read.bind (rest info)

private theorem inverts_integer {n : Int} (low : -2 ^ 64 ≤ n) (high : n < 2 ^ 64) :
    Inverts (item inner) (Value.integer n).write (.integer n) := by
  unfold write
  split
  · rename_i pos
    have read : Inverts (item inner) (head 0 n.toNat ++ []) (.integer (n.toNat : Nat)) :=
      inverts_item (by decide) (by omega) fun _ => .pure _
    rwa [List.append_nil, Int.toNat_of_nonneg pos] at read
  · have read : Inverts (item inner) (head 1 (-1 - n).toNat ++ [])
        (.integer (-1 - ((-1 - n).toNat : Nat))) :=
      inverts_item (by decide) (by omega) fun _ => .pure _
    rwa [List.append_nil, Int.toNat_of_nonneg (by omega), sub_sub_cancel] at read

private theorem inverts_text {s : String} (short : s.toByteArray.data.toList.length < 2 ^ 64) :
    Inverts (item inner) (Value.text s).write (.text s) := by
  refine inverts_item (by decide) short fun _ => ?_
  have read := (inverts_take s.toByteArray.data.toList).bind
    (f := fun b => if valid : (ByteArray.mk b.toArray).IsValidUTF8
      then pure (Value.text (.ofByteArray _ valid)) else failure)
    (by
      rw [dif_pos (show (ByteArray.mk s.toByteArray.data.toList.toArray).IsValidUTF8 from
        s.isValidUTF8)]
      exact .pure _)
  rwa [List.append_nil] at read

theorem length_le_writeList (vs : List Value) : vs.length ≤ (writeList vs).length := by
  induction vs with
  | nil => exact Nat.le_refl _
  | cons v vs ih =>
    have pos := write_pos v
    simp only [writeList, List.length_append, List.length_cons]
    omega

private theorem length_le_writePairs (kvs : List (Value × Value)) :
    kvs.length ≤ (writePairs kvs).length := by
  induction kvs with
  | nil => exact Nat.le_refl _
  | cons kv kvs ih =>
    have pos := write_pos kv.1
    simp only [writePairs, List.length_append, List.length_cons]
    omega

theorem length_write_le {vs : List Value} (mem : v ∈ vs) :
    v.write.length ≤ (writeList vs).length := by
  induction vs with
  | nil => cases mem
  | cons w vs ih =>
    simp only [writeList, List.length_append]
    rcases List.mem_cons.1 mem with rfl | mem
    · omega
    · have := ih mem
      omega

private theorem length_write_pair_le {kv : Value × Value} {kvs : List (Value × Value)}
    (mem : kv ∈ kvs) : kv.1.write.length + kv.2.write.length ≤ (writePairs kvs).length := by
  induction kvs with
  | nil => cases mem
  | cons w kvs ih =>
    simp only [writePairs, List.length_append]
    rcases List.mem_cons.1 mem with rfl | mem
    · omega
    · have := ih mem
      omega

/-- The reader inverts the writer. The bound on the length holds of every byte vector. -/
theorem inverts_write (within : v.Within d) (short : v.write.length < 2 ^ 64) :
    Inverts (read d) v.write v := by
  -- The reader recurses on the depth, so the induction is on it and not on the value.
  induction d generalizing v with
  | zero =>
    cases v with
    | integer n => exact inverts_integer within.1 within.2
    | bytes b =>
      simp only [write, List.length_append] at short
      exact inverts_item (by decide) (by omega) fun _ => (inverts_take b).map _
    | text s =>
      simp only [write, List.length_append] at short
      exact inverts_text (by omega)
    | bool b => cases b <;> exact fun _ => rfl
    | null => exact fun _ => rfl
    | _ => exact within.elim
  | succ d ih =>
    cases v with
    | integer n => exact inverts_integer within.1 within.2
    | bytes b =>
      simp only [write, List.length_append] at short
      exact inverts_item (by decide) (by omega) fun _ => (inverts_take b).map _
    | text s =>
      simp only [write, List.length_append] at short
      exact inverts_text (by omega)
    | bool b => cases b <;> exact fun _ => rfl
    | null => exact fun _ => rfl
    | float bits => exact within.elim
    | tag n v =>
      simp only [write, List.length_append] at short
      refine inverts_item (by decide) n.toNat_lt fun _ => ?_
      change Inverts (Value.tag (UInt64.ofNat n.toNat) <$> read d) _ _
      rw [UInt64.ofNat_toNat]
      exact (ih within (by omega)).map (Value.tag n)
    | array vs =>
      simp only [write, List.length_append] at short
      have count := length_le_writeList vs
      refine inverts_item (by decide) (by omega) fun _ => ?_
      rw [writeList_eq]
      refine (Inverts.many fun v mem => ih (within v mem) ?_).map Value.array
      have := length_write_le mem
      omega
    | map kvs =>
      simp only [write, List.length_append] at short
      have count := length_le_writePairs kvs
      refine inverts_item (by decide) (by omega) fun _ => ?_
      rw [writePairs_eq]
      refine (Inverts.many fun kv mem => ?_).map Value.map
      have := length_write_pair_le mem
      exact (ih (within kv mem).1 (by omega)).bind ((ih (within kv mem).2 (by omega)).map _)

theorem write_injective {v w : Value} (hv : v.Within d) (hw : w.Within d)
    (short : v.write.length < 2 ^ 64) (same : v.write = w.write) : v = w := by
  have left := inverts_write hv short []
  have right := inverts_write hw (same ▸ short) []
  rw [same, right] at left
  exact (congrArg Prod.fst (Option.some.inj left)).symm

end Inversion
end Value

/-- What the crate relies on `ciborium` for, of values within the recursion limit: the
writer gives the shortest encoding and the reader inverts it. -/
structure Primitives.Ciborium (P : Primitives) : Prop where
  writes : ∀ v : Value, v.Within 16 → P.intoWriter v = some v.write
  reads : ∀ v : Value, v.Within 16 → v.write.length < 2 ^ 64 →
    P.fromReader 16 v.write = some (v, [])

/-- Primitives with the codec of this module and a given verifier; every key is valid. -/
def minimalPrimitives (verifyStrict : VerifyingKey → Bytes → Vector UInt8 64 → Bool) :
    Primitives where
  intoWriter v := some v.write
  fromReader := Value.read
  sha256 _ := Vector.replicate 32 0
  isPoint _ := true
  verifyStrict := verifyStrict
  contributory _ := true

theorem minimalPrimitives_ciborium (verifyStrict : VerifyingKey → Bytes → Vector UInt8 64 → Bool) :
    (minimalPrimitives verifyStrict).Ciborium where
  writes _ _ := rfl
  reads v within short := by
    have read := Value.inverts_write within short []
    rwa [List.append_nil] at read

end OpenLock
