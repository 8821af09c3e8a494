import OpenLock.Kotlin.Wire
import OpenLock.Crypto.Minimal

/-! The Kotlin codec is canonical and total, and agrees with the shortest encoding. -/
namespace OpenLock.Kotlin
open Codec Cursor

section Head
/-! The head as the shortest encoding writes it. -/

private theorem shifted {n : UInt64} {k : Nat} (small : k < 64) :
    (n >>> UInt64.ofNat k).toUInt8 = UInt8.ofNat (n.toNat / 2 ^ k) := by
  refine UInt8.toNat_inj.1 ?_
  have amount : (UInt64.ofNat k).toNat = k := UInt64.toNat_ofNat_of_lt' (by change _ < 2 ^ 64; omega)
  rw [UInt64.toNat_toUInt8, UInt64.toNat_shiftRight, amount, Nat.mod_eq_of_lt small,
    Nat.shiftRight_eq_div_pow, UInt8.toNat_ofNat']

private theorem bytes_eq {size : Nat} (most : size ≤ 8) (n : UInt64) :
    ((List.range size).map fun it => (n >>> UInt64.ofNat ((size - 1 - it) * 8)).toUInt8)
      = bigEndian size n.toNat := by
  rw [bigEndian_eq]
  refine List.map_congr_left fun i mem => ?_
  have below := List.mem_range.1 mem
  rw [shifted (by omega), Nat.mul_comm, Nat.pow_mul]

private theorem initial_byte : ∀ major ∈ List.range 5, ∀ ai ∈ List.range 32,
    (UInt8.ofNat major <<< 5 ||| UInt8.ofNat ai) = UInt8.ofNat (major * 32 + ai) := by
  decide +kernel

private theorem initial_eq {major : Nat} {ai : UInt8} (type : major < 5) (low : ai < 32) :
    (UInt8.ofNat major <<< 5 ||| ai) = UInt8.ofNat (major * 32 + ai.toNat) := by
  have eq := initial_byte major (List.mem_range.2 type) ai.toNat
    (List.mem_range.2 (UInt8.lt_iff_toNat_lt.1 low))
  rwa [UInt8.ofNat_toNat] at eq

theorem head_eq {major : Nat} (type : major < 5) (n : UInt64) :
    head (UInt8.ofNat major) n = Cbor.head major n.toNat := by
  have at24 : n < 24 ↔ n.toNat < 24 := UInt64.lt_iff_toNat_lt
  have at8 : n ≤ 255 ↔ n.toNat < 2 ^ 8 := UInt64.le_iff_toNat_le.trans (Nat.lt_succ_iff (n := 255)).symm
  have at16 : n ≤ 65535 ↔ n.toNat < 2 ^ 16 :=
    UInt64.le_iff_toNat_le.trans (Nat.lt_succ_iff (n := 65535)).symm
  have at32 : n ≤ 0xffffffff ↔ n.toNat < 2 ^ 32 :=
    UInt64.le_iff_toNat_le.trans (Nat.lt_succ_iff (n := 0xffffffff)).symm
  unfold head Cbor.head
  simp only [at24, at8, at16, at32]
  by_cases h24 : n.toNat < 24
  · simp only [h24, reduceIte]
    have value : n.toUInt8.toNat = n.toNat := by
      rw [UInt64.toNat_toUInt8]
      exact Nat.mod_eq_of_lt (by omega)
    rw [initial_eq type (UInt8.lt_iff_toNat_lt.2 (by rw [value]; exact h24.trans (by decide))), value]
  by_cases h8 : n.toNat < 2 ^ 8
  · simp only [h24, h8, reduceIte]
    rw [bytes_eq (by decide), initial_eq type (by decide)]
    rfl
  by_cases h16 : n.toNat < 2 ^ 16
  · simp only [h24, h8, h16, reduceIte]
    rw [bytes_eq (by decide), initial_eq type (by decide)]
    rfl
  by_cases h32 : n.toNat < 2 ^ 32
  · simp only [h24, h8, h16, h32, reduceIte]
    rw [bytes_eq (by decide), initial_eq type (by decide)]
    rfl
  · simp only [h24, h8, h16, h32, reduceIte]
    rw [bytes_eq (by decide), initial_eq type (by decide)]
    rfl

end Head

section Parsing
/-! The parser takes every encoding for the tree that it encodes. -/

variable {limit : Nat}

theorem reads_byte (b : UInt8) : Reads limit byte [b] b := by
  refine Reads.check (fun pre rest _ => ?_) (.next b)
  simp

private theorem push_toNat {a : UInt64} {b : UInt8} (small : a.toNat * 256 + b.toNat < 2 ^ 64) :
    (a <<< 8 ||| b.toUInt64).toNat = a.toNat * 256 + b.toNat := by
  have low : b.toNat < 2 ^ 8 := b.toNat_lt
  have eight : (8 : UInt64).toNat % 64 = 8 := by decide
  have room : a.toNat * 2 ^ 8 < 2 ^ 64 := Nat.lt_of_le_of_lt (Nat.le_add_right _ _) small
  rw [UInt64.toNat_or, UInt64.toNat_shiftLeft, eight, UInt8.toNat_toUInt64, Nat.shiftLeft_eq,
    Nat.mod_eq_of_lt room, ← Nat.shiftLeft_eq, ← Nat.shiftLeft_add_eq_or_of_lt low, Nat.shiftLeft_eq]

theorem reads_number {k m : Nat} {a : UInt64} (digits : m < 256 ^ k)
    (small : a.toNat * 256 ^ k + m < 2 ^ 64) :
    Reads limit (number k a) (bigEndian k m) (UInt64.ofNat (a.toNat * 256 ^ k + m)) := by
  induction k generalizing a m with
  | zero =>
    obtain rfl : m = 0 := by simpa using digits
    rw [Nat.pow_zero, Nat.mul_one, Nat.add_zero, UInt64.ofNat_toNat]
    exact .pure a
  | succ k ih =>
    have pos : 0 < 256 ^ k := Nat.pow_pos (by decide)
    have leading : m / 256 ^ k < 256 := by
      rwa [Nat.div_lt_iff_lt_mul pos, Nat.mul_comm, ← Nat.pow_succ]
    have whole : (a.toNat * 256 + m / 256 ^ k) * 256 ^ k + m % 256 ^ k = a.toNat * 256 ^ (k + 1) + m := by
      rw [Nat.add_mul, Nat.add_assoc, Nat.div_add_mod', Nat.pow_succ, Nat.mul_comm (256 ^ k),
        Nat.mul_assoc]
    have byte : (UInt8.ofNat (m / 256 ^ k)).toNat = m / 256 ^ k := UInt8.toNat_ofNat_of_lt' leading
    have step : (a <<< 8 ||| (UInt8.ofNat (m / 256 ^ k)).toUInt64).toNat
        = a.toNat * 256 + m / 256 ^ k := by
      rw [push_toNat, byte]
      rw [byte]
      have grows := Nat.le_mul_of_pos_right (a.toNat * 256 + m / 256 ^ k) pos
      omega
    have tail := ih (a := a <<< 8 ||| (UInt8.ofNat (m / 256 ^ k)).toUInt64) (Nat.mod_lt m pos)
      (by rw [step, whole]; exact small)
    rw [step, whole] at tail
    exact (reads_byte _).bind tail

/-- An initial byte with its argument, before what the major type asks for. -/
private theorem reads_initial {left major info : Nat} {n : UInt64} {args out : Bytes} {t : Wire}
    (type : major < 5) (low : info < 32) (arg : Reads limit (argument info) args n)
    (body : Reads limit (item (parse left) major n) out t) :
    Reads limit (parse (left + 1)) (UInt8.ofNat (major * 32 + info) :: args ++ out) t := by
  have whole : (UInt8.ofNat (major * 32 + info)).toNat = major * 32 + info :=
    UInt8.toNat_ofNat_of_lt' (by change _ < 256; omega)
  have ai : (major * 32 + info) &&& 31 = info := by
    rw [Nat.and_two_pow_sub_one_eq_mod _ 5]
    omega
  have kind : (major * 32 + info) >>> 5 = major := by
    rw [Nat.shiftRight_eq_div_pow]
    omega
  refine (reads_byte (UInt8.ofNat (major * 32 + info))).bind ?_
  rw [whole, if_neg (by omega), ai, kind]
  exact arg.bind body

theorem reads_item {left major n : Nat} {out : Bytes} {t : Wire} (type : major < 5)
    (bound : n < 2 ^ 64) (body : Reads limit (item (parse left) major (UInt64.ofNat n)) out t) :
    Reads limit (parse (left + 1)) (Cbor.head major n ++ out) t := by
  have wide {k : Nat} (digits : n < 256 ^ k) :
      Reads limit (number k 0) (bigEndian k n) (UInt64.ofNat n) := by
    have read : Reads limit (number k 0) (bigEndian k n) (UInt64.ofNat ((0 : UInt64).toNat * 256 ^ k + n)) :=
      reads_number digits (by simpa using bound)
    simpa using read
  unfold Cbor.head
  split_ifs with h24 h8 h16 h32
  · refine reads_initial type (by omega) ?_ body
    rw [argument, if_neg (by omega)]
    exact .pure _
  · exact reads_initial type (by decide) (wide (k := 1) h8) body
  · exact reads_initial type (by decide) (wide (k := 2) h16) body
  · exact reads_initial type (by decide) (wide (k := 4) h32) body
  · exact reads_initial type (by decide) (wide (k := 8) bound) body

/-- `Int::toULong`. -/
private theorem toNat_ofInt (x : Int) : (UInt64.ofInt x).toNat = (x % 2 ^ 64).toNat := by
  have bound := Int.emod_lt_of_pos x (show (0 : Int) < 2 ^ 64 by decide)
  exact UInt64.toNat_ofNat_of_lt' (show (x % 2 ^ 64).toNat < 2 ^ 64 by omega)

theorem reads_content (out : Bytes) :
    Reads (2 ^ 64) (content (UInt64.ofNat out.length)) out out := by
  refine .of_short fun short => ?_
  have length : (UInt64.ofNat out.length).toNat = out.length := UInt64.toNat_ofNat_of_lt' short
  unfold content
  rw [length]
  refine Reads.check (fun pre rest bound => ?_) (.slice out)
  simp only [List.length_append] at bound ⊢
  rw [UInt64.le_iff_toNat_le, length, toNat_ofInt]
  omega

theorem decodeToString_toByteArray (s : String) : decodeToString (toByteArray s) = pure s := by
  rw [decodeToString, dif_pos (show (ByteArray.mk (toByteArray s).toArray).IsValidUTF8 from s.isValidUTF8)]
  rfl

namespace Wire

theorem encodeItems_eq (data : Bytes) (ts : List Wire) :
    encodeItems data ts = data ++ ts.flatMap encode := by
  induction ts generalizing data with
  | nil => simp [encodeItems]
  | cons t ts ih => simp [encodeItems, ih]

/-- Levels below the tree that the parser needs, and room for its arrays. -/
def Fits : Nat → Wire → Prop
  | 0, _ => False
  | left + 1, .items ts => ts.length ≤ 4096 ∧ ∀ t ∈ ts, Fits left t
  | _ + 1, _ => True

end Wire

theorem reads_parse {left : Nat} {t : Wire} (fits : t.Fits left) :
    Reads (2 ^ 64) (parse left) t.encode t := by
  -- The parser recurses on the levels left, so the induction is on them and not on the tree.
  induction left generalizing t with
  | zero => exact fits.elim
  | succ left ih =>
    refine .of_short fun short => ?_
    cases t with
    | uInt n =>
      have read : Reads (2 ^ 64) (parse (left + 1)) (Cbor.head 0 n.toNat ++ []) (.uInt n) := by
        refine reads_item (by decide) n.toNat_lt ?_
        rw [UInt64.ofNat_toNat]
        exact .pure _
      rwa [List.append_nil, ← head_eq (by decide)] at read
    | bytes value =>
      simp only [Wire.encode, List.length_append] at short ⊢
      rw [show (2 : UInt8) = UInt8.ofNat 2 from rfl, head_eq (by decide),
        UInt64.toNat_ofNat_of_lt' (show value.length < 2 ^ 64 by omega)]
      exact reads_item (by decide) (by omega) ((reads_content value).map _)
    | text value =>
      simp only [Wire.encode, List.length_append] at short ⊢
      rw [show (3 : UInt8) = UInt8.ofNat 3 from rfl, head_eq (by decide),
        UInt64.toNat_ofNat_of_lt' (show (toByteArray value).length < 2 ^ 64 by omega)]
      refine reads_item (by decide) (by omega) ?_
      have text : Reads (2 ^ 64) (Wire.text <$> decodeToString (toByteArray value)) [] (.text value) := by
        rw [decodeToString_toByteArray]
        exact .pure _
      have read := (reads_content (toByteArray value)).bind (f := fun b => Wire.text <$> decodeToString b) text
      rwa [List.append_nil] at read
    | items ts =>
      obtain ⟨few, each⟩ := fits
      have small : ts.length < 2 ^ 64 := Nat.lt_of_le_of_lt few (by decide)
      have count : (UInt64.ofNat ts.length).toNat = ts.length := UInt64.toNat_ofNat_of_lt' small
      simp only [Wire.encode, Wire.encodeItems_eq]
      rw [show (4 : UInt8) = UInt8.ofNat 4 from rfl, head_eq (by decide), count]
      refine reads_item (by decide) small ?_
      refine Reads.check (fun _ _ _ => ?_) ?_
      · rw [UInt64.le_iff_toNat_le, count]
        exact few
      · rw [count]
        exact (Reads.many fun t mem => ih (each t mem)).map _
    | null => exact (reads_byte 0xf6).bind (.pure Wire.null)

end Parsing

section Safety
/-! No access is outside the array. -/

theorem safe_byte : Safe byte := by
  refine Safe.check fun data offset _ before => ?_
  rw [next, List.getElem?_eq_getElem before]
  refine ⟨fun h => (by cases h), ?_⟩
  rintro _ ⟨⟩
  exact before

theorem safe_number (k : Nat) (n : UInt64) : Safe (number k n) := by
  induction k generalizing n with
  | zero => exact .pure n
  | succ k ih => exact safe_byte.bind fun b => ih _

theorem safe_argument (ai : Nat) : Safe (argument ai) := by
  unfold argument
  split_ifs
  · exact safe_number 1 0
  · exact safe_number 2 0
  · exact safe_number 4 0
  · exact safe_number 8 0
  · exact .refuse _
  · exact .pure _

theorem safe_content (n : UInt64) : Safe (content n) := by
  refine Safe.check fun data offset inside enough => ?_
  rw [UInt64.le_iff_toNat_le, toNat_ofInt] at enough
  have room : offset + n.toNat ≤ data.length := by omega
  rw [slice, if_pos room]
  refine ⟨fun h => (by cases h), ?_⟩
  rintro _ ⟨⟩
  exact room

theorem safe_decodeToString (value : Bytes) : Safe (decodeToString value) := by
  unfold decodeToString
  split
  · exact .pure _
  · exact .refuse _

theorem safe_item {inner : Cursor Failure Wire} (h : Safe inner) (major : Nat) (n : UInt64) :
    Safe (item inner major n) := by
  unfold item
  split_ifs
  · exact .pure _
  · exact (safe_content n).map _
  · exact (safe_content n).bind fun value => (safe_decodeToString value).map _
  · exact Safe.check fun data offset inside _ => ((h.many n.toNat).map _) data offset inside
  · exact .refuse _

theorem safe_parse (left : Nat) : Safe (parse left) := by
  induction left with
  | zero => exact .refuse _
  | succ left ih =>
    refine safe_byte.bind fun b => ?_
    dsimp only
    split
    · exact .pure _
    · exact (safe_argument _).bind fun n => safe_item ih _ n

end Safety

namespace Wire

mutual
/-- The level of the deepest item. -/
def depth : Wire → Nat
  | .items ts => depthItems ts
  | _ => 0

def depthItems : List Wire → Nat
  | [] => 0
  | t :: ts => max (t.depth + 1) (depthItems ts)
end

mutual
/-- The most items in one array. -/
def width : Wire → Nat
  | .items ts => max ts.length (widthItems ts)
  | _ => 0

def widthItems : List Wire → Nat
  | [] => 0
  | t :: ts => max t.width (widthItems ts)
end

theorem of_mem_items {t : Wire} {ts : List Wire} (mem : t ∈ ts) :
    t.depth + 1 ≤ depthItems ts ∧ t.width ≤ widthItems ts := by
  induction ts with
  | nil => cases mem
  | cons u ts ih =>
    simp only [depthItems, widthItems]
    rcases List.mem_cons.1 mem with rfl | later
    · exact ⟨Nat.le_max_left _ _, Nat.le_max_left _ _⟩
    · obtain ⟨deep, wide⟩ := ih later
      exact ⟨deep.trans (Nat.le_max_right _ _), wide.trans (Nat.le_max_right _ _)⟩

theorem fits_of_bounds {left : Nat} {t : Wire} (deep : t.depth < left) (wide : t.width ≤ 4096) :
    t.Fits left := by
  induction left generalizing t with
  | zero => exact absurd deep (Nat.not_lt_zero _)
  | succ left ih =>
    cases t with
    | items ts =>
      simp only [depth, width] at deep wide
      refine ⟨(Nat.le_max_left _ _).trans wide, fun t mem => ?_⟩
      obtain ⟨below, within⟩ := of_mem_items mem
      exact ih (by omega) (within.trans ((Nat.le_max_right _ _).trans wide))
    | _ => trivial

end Wire

section Decoding
variable {data : Bytes} {maxSize : Int32} {t : Wire}

theorem decode_encode (fits : t.Fits 32) (short : (t.encode.length : Int) ≤ maxSize.toInt) :
    decode t.encode maxSize = .ok t := by
  have top := maxSize.toInt_lt
  have read := reads_parse fits [] [] (by simp; omega)
  simp only [List.nil_append, List.append_nil, List.length_nil] at read
  rw [decode, if_pos short, read]
  exact if_pos ⟨rfl, rfl⟩

theorem decode_exact (h : decode data maxSize = .ok t) :
    t.encode = data ∧ (data.length : Int) ≤ maxSize.toInt := by
  unfold decode at h
  split at h
  · rename_i short
    cases read : parse 32 data 0 with
    | error e =>
      rw [read] at h
      cases h
    | ok r =>
      rw [read] at h
      change (if r.2 = data.length ∧ r.1.encode = data then _ else _) = _ at h
      split at h
      · rename_i whole
        cases h
        exact ⟨whole.2, short⟩
      · cases h
  · cases h

theorem decode_inBounds : decode data maxSize ≠ .error .outOfBounds := by
  unfold decode
  split
  · cases read : parse 32 data 0 with
    | error e =>
      intro h
      have bounded := (safe_parse 32 data 0 (Nat.zero_le _)).1
      rw [read] at bounded
      exact bounded (by cases h; rfl)
    | ok r =>
      change (if r.2 = data.length ∧ r.1.encode = data then _ else _) ≠ _
      split
      · exact fun h => (by cases h)
      · exact fun h => (by cases h)
  · exact fun h => (by cases h)

end Decoding

namespace Wire
/-! The same tree as a CBOR value of the Rust side. -/

mutual
def value : Wire → Value
  | .uInt n => .integer n.toNat
  | .bytes b => .bytes b
  | .text s => .text s
  | .items ts => .array (values ts)
  | .null => .null

def values : List Wire → List Value
  | [] => []
  | t :: ts => t.value :: values ts
end

theorem values_eq (ts : List Wire) : values ts = ts.map value := by
  induction ts with
  | nil => rfl
  | cons t ts ih => simp [values, ih]

private theorem length_head_le {major : Nat} (type : major < 5) (n : Nat) :
    (head (UInt8.ofNat major) (UInt64.ofNat n)).length ≤ (Cbor.head major n).length := by
  rw [head_eq type, Cbor.length_head, Cbor.length_head, UInt64.toNat_ofNat']
  exact Cbor.headLength_mono (Nat.mod_le n _)

/-- A length that does not fit wraps in the head, so the encoding is never the longer one. -/
theorem length_encode_le {left : Nat} {t : Wire} (deep : t.depth < left) :
    t.encode.length ≤ t.value.write.length := by
  induction left generalizing t with
  | zero => exact absurd deep (Nat.not_lt_zero _)
  | succ left ih =>
    cases t with
    | uInt n =>
      have eq : head 0 n = Cbor.head 0 n.toNat := head_eq (by decide) n
      simp [encode, value, Value.write, eq]
    | bytes b =>
      simp only [encode, value, Value.write, List.length_append]
      exact Nat.add_le_add_right (length_head_le (by decide : 2 < 5) _) _
    | text s =>
      simp only [encode, value, Value.write, List.length_append]
      exact Nat.add_le_add_right (length_head_le (by decide : 3 < 5) _) _
    | items ts =>
      simp only [encode, encodeItems_eq, value, Value.write, List.length_append]
      simp only [depth] at deep
      refine Nat.add_le_add (by simpa [values_eq] using length_head_le (by decide : 4 < 5) ts.length) ?_
      induction ts with
      | nil => exact Nat.le_refl _
      | cons t ts tail =>
        simp only [depthItems, values, Value.writeList, List.flatMap_cons, List.length_append] at deep ⊢
        exact Nat.add_le_add (ih (by omega)) (tail (by omega))
    | null => exact Nat.le_refl _

private theorem head_exact {major n : Nat} (type : major < 5) (small : n < 2 ^ 64) :
    head (UInt8.ofNat major) (UInt64.ofNat n) = Cbor.head major n := by
  rw [head_eq type, UInt64.toNat_ofNat_of_lt' small]

private theorem head_pos {major : Nat} (type : major < 5) (n : UInt64) :
    1 ≤ (head (UInt8.ofNat major) n).length := by
  rw [head_eq type, Cbor.length_head]
  exact Cbor.headLength_pos _

theorem encode_pos (t : Wire) : 1 ≤ t.encode.length := by
  cases t with
  | uInt n => exact head_pos (by decide : 0 < 5) n
  | bytes b =>
    rw [encode, List.length_append]
    exact (head_pos (by decide : 2 < 5) _).trans (Nat.le_add_right _ _)
  | text s =>
    simp only [encode, List.length_append]
    exact (head_pos (by decide : 3 < 5) _).trans (Nat.le_add_right _ _)
  | items ts =>
    rw [encode, encodeItems_eq, List.length_append]
    exact (head_pos (by decide : 4 < 5) _).trans (Nat.le_add_right _ _)
  | null => exact Nat.le_refl _

private theorem length_le_flatMap (ts : List Wire) : ts.length ≤ (ts.flatMap encode).length := by
  induction ts with
  | nil => exact Nat.le_refl _
  | cons t ts ih =>
    have pos := t.encode_pos
    simp only [List.flatMap_cons, List.length_append, List.length_cons]
    omega

/-- Where every length fits, the encoding is the shortest one of the value. -/
theorem encode_eq_write {left : Nat} {t : Wire} (deep : t.depth < left)
    (short : t.encode.length < 2 ^ 64) : t.encode = t.value.write := by
  induction left generalizing t with
  | zero => exact absurd deep (Nat.not_lt_zero _)
  | succ left ih =>
    cases t with
    | uInt n =>
      have eq : head 0 n = Cbor.head 0 n.toNat := head_eq (by decide) n
      simp [encode, value, Value.write, eq]
    | bytes b =>
      simp only [encode, List.length_append] at short
      exact congrArg (· ++ b) (head_exact (by decide : 2 < 5) (by omega))
    | text s =>
      simp only [encode, List.length_append] at short
      exact congrArg (· ++ toByteArray s) (head_exact (by decide : 3 < 5) (by omega))
    | items ts =>
      simp only [encode, encodeItems_eq, value, Value.write, List.length_append] at short ⊢
      have count := length_le_flatMap ts
      have same : head 4 (UInt64.ofNat ts.length) = Cbor.head 4 (values ts).length := by
        rw [values_eq, List.length_map]
        exact head_exact (by decide) (by omega)
      rw [same]
      congr 1
      simp only [depth] at deep
      replace short : (ts.flatMap encode).length < 2 ^ 64 := by omega
      clear count same
      induction ts with
      | nil => rfl
      | cons t ts tail =>
        simp only [depthItems, values, Value.writeList, List.flatMap_cons, List.length_append]
          at deep short ⊢
        rw [ih (by omega) (by omega), tail (by omega) (by omega)]
    | null => rfl

end Wire

/-- Unsigned integers, byte strings, texts, null and arrays of these, with at most `d` nested
arrays of at most `most` items. -/
def Plain (most : Nat) : Nat → Value → Prop
  | _, .integer n => 0 ≤ n ∧ n < 2 ^ 64
  | _, .bytes _ | _, .text _ | _, .null => True
  | d + 1, .array vs => vs.length ≤ most ∧ ∀ v ∈ vs, Plain most d v
  | _, _ => False

/-- A plain value is that of a tree. -/
theorem exists_wire {d : Nat} {v : Value} (plain : Plain 4096 d v) :
    ∃ t : Wire, t.value = v ∧ t.depth ≤ d ∧ t.width ≤ 4096 := by
  have integer {n : Int} (range : 0 ≤ n ∧ n < 2 ^ 64) :
      ∃ t : Wire, t.value = .integer n ∧ t.depth = 0 ∧ t.width = 0 := by
    refine ⟨.uInt (UInt64.ofNat n.toNat), ?_, rfl, rfl⟩
    rw [Wire.value, UInt64.toNat_ofNat_of_lt' (show n.toNat < 2 ^ 64 by omega), Int.toNat_of_nonneg range.1]
  induction d generalizing v with
  | zero =>
    cases v with
    | integer n =>
      obtain ⟨t, same, deep, wide⟩ := integer plain
      exact ⟨t, same, deep.le, by omega⟩
    | bytes b => exact ⟨.bytes b, rfl, Nat.le_refl _, Nat.zero_le _⟩
    | text s => exact ⟨.text s, rfl, Nat.le_refl _, Nat.zero_le _⟩
    | null => exact ⟨.null, rfl, Nat.le_refl _, Nat.zero_le _⟩
    | _ => exact plain.elim
  | succ d ih =>
    cases v with
    | integer n =>
      obtain ⟨t, same, deep, wide⟩ := integer plain
      exact ⟨t, same, by omega, by omega⟩
    | bytes b => exact ⟨.bytes b, rfl, Nat.zero_le _, Nat.zero_le _⟩
    | text s => exact ⟨.text s, rfl, Nat.zero_le _, Nat.zero_le _⟩
    | null => exact ⟨.null, rfl, Nat.zero_le _, Nat.zero_le _⟩
    | array vs =>
      obtain ⟨few, each⟩ := plain
      have trees : ∃ ts, Wire.values ts = vs ∧ Wire.depthItems ts ≤ d + 1 ∧ Wire.widthItems ts ≤ 4096 := by
        clear few
        induction vs with
        | nil => exact ⟨[], rfl, Nat.zero_le _, Nat.zero_le _⟩
        | cons v vs tail =>
          obtain ⟨t, rfl, deep, wide⟩ := ih (each v List.mem_cons_self)
          obtain ⟨ts, rfl, deeper, wider⟩ := tail fun v mem => each v (List.mem_cons_of_mem _ mem)
          exact ⟨t :: ts, rfl, Nat.max_le.2 ⟨by omega, deeper⟩, Nat.max_le.2 ⟨wide, wider⟩⟩
      obtain ⟨ts, rfl, deep, wide⟩ := trees
      refine ⟨.items ts, rfl, deep, Nat.max_le.2 ⟨?_, wide⟩⟩
      rwa [Wire.values_eq, List.length_map] at few
    | _ => exact plain.elim

/-- Trees and their encodings determine each other, nothing outside an array is read, and
what is read is the shortest encoding of its value. -/
structure CanonicalWire : Prop where
  roundTrip : ∀ (t : Wire) (maxSize : Int32), t.depth < 32 → t.width ≤ 4096 →
    (t.encode.length : Int) ≤ maxSize.toInt → decode t.encode maxSize = .ok t
  inBounds : ∀ (data : Bytes) (maxSize : Int32), decode data maxSize ≠ .error .outOfBounds
  exact : ∀ (data : Bytes) (maxSize : Int32) (t : Wire), decode data maxSize = .ok t →
    t.encode = data ∧ t.value.write = data
  accepted : ∀ (v : Value) (maxSize : Int32), Plain 4096 16 v → (v.write.length : Int) ≤ maxSize.toInt →
    ∃ t : Wire, t.value = v ∧ decode v.write maxSize = .ok t

theorem wire_canonical : CanonicalWire where
  roundTrip t maxSize deep wide short := decode_encode (Wire.fits_of_bounds deep wide) short
  inBounds data maxSize := decode_inBounds
  exact data maxSize t h := by
    obtain ⟨rfl, short⟩ := decode_exact h
    have top := maxSize.toInt_lt
    exact ⟨rfl, (Wire.encode_eq_write (Nat.lt_succ_self _) (by omega)).symm⟩
  accepted v maxSize plain short := by
    obtain ⟨t, rfl, deep, wide⟩ := exists_wire plain
    have top := maxSize.toInt_lt
    have most := Wire.length_encode_le (Nat.lt_succ_self t.depth)
    have same := Wire.encode_eq_write (Nat.lt_succ_self t.depth) (by omega)
    rw [← same] at short ⊢
    exact ⟨t, rfl, decode_encode (Wire.fits_of_bounds (by omega) wide) short⟩

/-- An array of nulls. -/
def nulls (n : Nat) : Value := .array (List.replicate n .null)

private theorem write_nulls (n : Nat) : (nulls n).write = Cbor.head 4 n ++ List.replicate n 0xf6 := by
  rw [nulls, Value.write, Value.writeList_eq, List.length_replicate, List.flatMap_replicate,
    Value.write, List.flatten_replicate_singleton]

private theorem plain_nulls (n : Nat) : Plain n 16 (nulls n) := by
  refine ⟨(List.length_replicate ..).le, fun v mem => ?_⟩
  rw [List.eq_of_mem_replicate mem]
  trivial

private theorem parse_long (rest : Bytes) :
    parse 32 (Cbor.head 4 4097 ++ rest) 0 = .error (.refused .require) := rfl

/-- The encoding of 4097 nulls fits an event and is refused. -/
theorem long_array_refused : Plain 4097 16 (nulls 4097) ∧ (nulls 4097).write.length = 4100
    ∧ decode (nulls 4097).write 4160 = .error (.refused .require) := by
  have length : (nulls 4097).write.length = 4100 := by
    rw [write_nulls, List.length_append, List.length_replicate, Cbor.length_head]
    rfl
  refine ⟨plain_nulls 4097, length, ?_⟩
  rw [decode, if_pos (by rw [length]; decide), write_nulls, parse_long]
  rfl

end OpenLock.Kotlin
