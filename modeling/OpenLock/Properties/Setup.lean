import OpenLock.Crypto.Minimal
import OpenLock.Crypto.Setup

/-! The setup text is exact: a text and its payload determine each other. -/
namespace OpenLock

section Hexadecimal
variable {n : Nat} {v : Vector UInt8 n} {bytes : Bytes} {b : UInt8}

/-- The byte of a hexadecimal digit. -/
def digitByte (n : Nat) : UInt8 := UInt8.ofNat (Nat.digitChar n).toNat

def hexBytes (bytes : Bytes) : Bytes :=
  bytes.flatMap fun b => [digitByte (b.toNat / 16), digitByte (b.toNat % 16)]

theorem utf8_ofList (l : List Char) : utf8 (String.ofList l) = l.flatMap String.utf8EncodeChar := by
  rw [utf8, String.toByteArray_ofList, List.utf8Encode, List.data_toByteArray]

theorem utf8_injective {s t : String} (h : utf8 s = utf8 t) : s = t := by
  have data : s.toByteArray.data = t.toByteArray.data := Array.toList_inj.1 h
  exact String.toByteArray_inj.1 (ByteArray.ext data)

private theorem digits : ∀ n ∈ List.range 16, String.utf8EncodeChar (Nat.digitChar n) = [digitByte n]
    ∧ isLowerHex (digitByte n) = true ∧ digitValue (digitByte n) = some n ∧ digitByte n ≠ 0x2b
    ∧ ((Nat.digitChar n).isDigit ∨ 'a' ≤ Nat.digitChar n ∧ Nat.digitChar n ≤ 'f') := by
  decide +kernel

private theorem lower_hex : ∀ k ∈ List.range 256, isLowerHex (UInt8.ofNat k) = true →
    ∃ n ∈ List.range 16, UInt8.ofNat k = digitByte n := by
  decide +kernel

theorem exists_digit (h : isLowerHex b = true) : ∃ n < 16, b = digitByte n := by
  have bound := b.toNat_lt
  obtain ⟨n, small, eq⟩ := lower_hex b.toNat (List.mem_range.2 bound) (by rwa [UInt8.ofNat_toNat])
  exact ⟨n, List.mem_range.1 small, by rwa [UInt8.ofNat_toNat] at eq⟩

theorem utf8_hex (bytes : Bytes) : utf8 (hex bytes) = hexBytes bytes := by
  rw [hex, utf8_ofList]
  induction bytes with
  | nil => rfl
  | cons b bytes ih =>
    have bound := b.toNat_lt
    obtain ⟨high, _⟩ := digits (b.toNat / 16) (List.mem_range.2 (by omega))
    obtain ⟨low, _⟩ := digits (b.toNat % 16) (List.mem_range.2 (by omega))
    rw [List.flatMap_cons, List.flatMap_append, ih, hexPair]
    simp only [List.flatMap_cons, List.flatMap_nil, high, low]
    rfl

private theorem pairs : ∀ k ∈ List.range 256,
    fromStrRadix (hexBytes [UInt8.ofNat k]) = some (UInt8.ofNat k) := by
  decide +kernel

theorem fromStrRadix_pair (b : UInt8) : fromStrRadix (hexBytes [b]) = some b := by
  have read := pairs b.toNat (List.mem_range.2 b.toNat_lt)
  rwa [UInt8.ofNat_toNat] at read

theorem hexBytes_cons (b : UInt8) (bytes : Bytes) : hexBytes (b :: bytes)
    = digitByte (b.toNat / 16) :: digitByte (b.toNat % 16) :: hexBytes bytes := rfl

theorem length_hexBytes (bytes : Bytes) : (hexBytes bytes).length = bytes.length * 2 := by
  simp [hexBytes, List.length_flatMap]

theorem all_hexBytes (bytes : Bytes) : (hexBytes bytes).all isLowerHex = true := by
  rw [List.all_eq_true]
  intro x mem
  obtain ⟨b, _, inside⟩ := List.mem_flatMap.1 mem
  have bound := b.toNat_lt
  obtain ⟨_, high, _⟩ := digits (b.toNat / 16) (List.mem_range.2 (by omega))
  obtain ⟨_, low, _⟩ := digits (b.toNat % 16) (List.mem_range.2 (by omega))
  rcases List.mem_cons.1 inside with rfl | second
  · exact high
  · rw [List.mem_singleton.1 second]
    exact low

/-- The digits of the byte at a place. -/
theorem hexBytes_place {i : Nat} (found : bytes[i]? = some b) :
    ((hexBytes bytes).drop (2 * i)).take 2 = hexBytes [b] := by
  induction bytes generalizing i with
  | nil => cases found
  | cons first bytes ih =>
    cases i with
    | zero =>
      cases found
      rfl
    | succ i => exact ih found

/-- Lower-case digits in even number are the digits of some bytes. -/
theorem exists_hexBytes {digits : Bytes} (length : digits.length = n * 2)
    (lower : digits.all isLowerHex = true) :
    ∃ bytes, bytes.length = n ∧ digits = hexBytes bytes := by
  induction n generalizing digits with
  | zero => exact ⟨[], rfl, List.eq_nil_of_length_eq_zero (by simpa using length)⟩
  | succ n ih =>
    obtain _ | ⟨x, _ | ⟨y, rest⟩⟩ := digits
    · simp at length
    · simp only [List.length_cons, List.length_nil] at length
      omega
    · simp only [List.all_cons, Bool.and_eq_true] at lower
      obtain ⟨a, ha, rfl⟩ := exists_digit lower.1
      obtain ⟨b, hb, rfl⟩ := exists_digit lower.2.1
      simp only [List.length_cons] at length
      obtain ⟨bytes, count, rfl⟩ := ih (by omega) lower.2.2
      have value : (UInt8.ofNat (a * 16 + b)).toNat = a * 16 + b := by
        rw [UInt8.toNat_ofNat']
        omega
      refine ⟨UInt8.ofNat (a * 16 + b) :: bytes, by rw [List.length_cons, count], ?_⟩
      rw [hexBytes_cons, value, show (a * 16 + b) / 16 = a by omega, show (a * 16 + b) % 16 = b by omega]

private theorem ofFnM_eq_ok {f : Fin n → Except Error UInt8} :
    Vector.ofFnM f = .ok v ↔ ∀ i : Fin n, f i = .ok v[i] := by
  induction n with
  | zero =>
    rw [Vector.ofFnM_zero, pure_eq_ok, eq_comm]
    exact ⟨fun _ i => i.elim0, fun _ => Vector.eq_empty⟩
  | succ n ih =>
    rw [Vector.ofFnM_succ]
    simp only [bind_eq_ok, pure_eq_ok, ih]
    constructor
    · rintro ⟨front, each, last, read, rfl⟩ i
      refine Fin.lastCases ?_ (fun j => ?_) i
      · simpa using read
      · simpa [Vector.getElem_push] using each j
    · intro each
      refine ⟨v.pop, fun i => ?_, v.back, ?_, Vector.push_pop_back v⟩
      · simpa using each i.castSucc
      · simpa [Vector.back] using each (Fin.last n)

/-- `unhex` reads exactly what `hex` writes. -/
theorem unhex_eq_ok {s : String} : unhex n s = .ok v ↔ s = hex v.toList := by
  simp only [unhex, bind_eq_ok, failIf_eq_ok, ofFnM_eq_ok, okOr_eq_ok, not_or, not_not]
  constructor
  · rintro ⟨_, ⟨length, lower⟩, read⟩
    obtain ⟨bytes, count, eq⟩ := exists_hexBytes length lower
    refine utf8_injective ?_
    rw [utf8_hex, eq]
    congr 1
    refine List.ext_getElem (by simp [count]) fun i hi hi' => ?_
    have here := read ⟨i, count ▸ hi⟩
    rw [eq, hexBytes_place (List.getElem?_eq_getElem hi), fromStrRadix_pair] at here
    simpa using here
  · rintro rfl
    rw [utf8_hex]
    refine ⟨(), ⟨by rw [length_hexBytes]; simp, all_hexBytes _⟩, fun i => ?_⟩
    have found : v.toList[i.1]? = some v[i] := by simp
    rw [hexBytes_place found, fromStrRadix_pair]

/-- Only lower-case digits are written. -/
theorem of_mem_hex {c : Char} (mem : c ∈ (hex bytes).toList) : c.isDigit ∨ 'a' ≤ c ∧ c ≤ 'f' := by
  rw [hex, String.toList_ofList] at mem
  obtain ⟨b, _, inside⟩ := List.mem_flatMap.1 mem
  have bound := b.toNat_lt
  obtain ⟨_, _, _, _, high⟩ := digits (b.toNat / 16) (List.mem_range.2 (by omega))
  obtain ⟨_, _, _, _, low⟩ := digits (b.toNat % 16) (List.mem_range.2 (by omega))
  rcases List.mem_cons.1 inside with rfl | second
  · exact high
  · rw [List.mem_singleton.1 second]
    exact low

theorem colon_not_mem_hex (bytes : Bytes) : ':' ∉ (hex bytes).toList := by
  intro mem
  exact absurd (of_mem_hex mem) (by decide)

theorem length_hex (bytes : Bytes) : (hex bytes).toList.length = bytes.length * 2 := by
  rw [hex, String.toList_ofList, List.length_flatMap]
  simp [hexPair]

end Hexadecimal

namespace SetupPayload
variable {P : Primitives} {p : SetupPayload} {t : String}

/-- The text of a payload. -/
def text (p : SetupPayload) : String :=
  "OPENLOCK4:" ++ hex p.lockId.bytes.toList ++ ":" ++ hex p.publicKey.toList ++ ":" ++ hex p.setupKey.toList

theorem encode_eq_ok : p.encode P = .ok t ↔
    validatePublic P p.publicKey = .ok () ∧ p.setupKey ≠ Vector.replicate 32 0 ∧ t = p.text := by
  simp only [encode, bind_eq_ok, failIf_eq_ok, pure_eq_ok]
  constructor
  · rintro ⟨_, valid, _, key, rfl⟩
    exact ⟨valid, key, rfl⟩
  · rintro ⟨valid, key, rfl⟩
    exact ⟨(), valid, (), key, rfl⟩

@[simp] private theorem next_eq_ok {fields rest : List String} {field : String} :
    next fields = .ok (field, rest) ↔ fields = field :: rest := by
  cases fields with
  | nil => simp [next]
  | cons first others => simp [next]

/-- The fields of a payload's text. -/
private def parts (p : SetupPayload) : List (List Char) :=
  ["OPENLOCK4".toList, (hex p.lockId.bytes.toList).toList, (hex p.publicKey.toList).toList,
    (hex p.setupKey.toList).toList]

private theorem toList_text (p : SetupPayload) : p.text.toList = [':'].intercalate p.parts := by
  simp [text, parts, List.intercalate, String.toList_append]

/-- The four fields of a text are those of exactly one payload text. -/
theorem fields_eq_iff : (t.toList.splitOn ':').map String.ofList
      = ["OPENLOCK4", hex p.lockId.bytes.toList, hex p.publicKey.toList, hex p.setupKey.toList]
    ↔ t = p.text := by
  constructor
  · intro fields
    have split : t.toList.splitOn ':' = p.parts := by
      have lists := congrArg (List.map String.toList) fields
      rwa [List.map_map, show String.toList ∘ String.ofList = id from funext fun l => String.toList_ofList,
        List.map_id] at lists
    refine String.toList_inj.1 ?_
    rw [toList_text, ← split, List.intercalate_splitOn]
  · rintro rfl
    rw [toList_text, List.splitOn_intercalate]
    · simp [parts]
    · intro part mem
      simp only [parts, List.mem_cons, List.not_mem_nil, or_false] at mem
      rcases mem with rfl | rfl | rfl | rfl
      · decide
      · exact colon_not_mem_hex _
      · exact colon_not_mem_hex _
      · exact colon_not_mem_hex _
    · simp [parts]

theorem decode_eq_ok : decode P t = .ok p ↔ p.encode P = .ok t := by
  have encoded := @encode_eq_ok P p t
  simp only [decode, bind_eq_ok, failIf_eq_ok, pure_eq_ok, unhex_eq_ok, not_not]
  constructor
  · rintro ⟨_, version, ⟨_, rest⟩, first, lockId, rfl, ⟨_, rest'⟩, second, publicKey, rfl, ⟨_, rest''⟩, third,
      setupKey, rfl, _, rfl, t', again, rfl⟩
    rw [next_eq_ok] at first second third
    subst second third
    have fields := List.cons_head?_tail (Option.mem_def.2 version)
    rw [first] at fields
    have same := (fields_eq_iff (p := ⟨⟨lockId⟩, publicKey, setupKey⟩)).1 fields.symm
    obtain ⟨valid, key, _⟩ := encode_eq_ok.1 again
    exact encode_eq_ok.2 ⟨valid, key, same⟩
  · intro h
    obtain ⟨valid, key, same⟩ := encoded.1 h
    have fields := fields_eq_iff.2 same
    rw [fields]
    exact ⟨(), rfl, ⟨_, _⟩, rfl, _, rfl, ⟨_, _⟩, rfl, _, rfl, ⟨_, _⟩, rfl, _, rfl, (), rfl, t, h, rfl⟩

end SetupPayload

/-- A text and its payload determine each other, and a text that is read has the one layout. -/
structure ExactSetup (P : Primitives) : Prop where
  roundTrip : ∀ (p : SetupPayload) (t : String), p.encode P = .ok t → SetupPayload.decode P t = .ok p
  exact : ∀ (t : String) (p : SetupPayload), SetupPayload.decode P t = .ok p → p.encode P = .ok t
  unique : ∀ (t t' : String) (p : SetupPayload), SetupPayload.decode P t = .ok p →
    SetupPayload.decode P t' = .ok p → t = t'
  layout : ∀ (t : String) (p : SetupPayload), SetupPayload.decode P t = .ok p →
    t = "OPENLOCK4:" ++ hex p.lockId.bytes.toList ++ ":" ++ hex p.publicKey.toList ++ ":"
        ++ hex p.setupKey.toList
      ∧ t.length = 172 ∧ (∀ c ∈ t.toList.drop 10, c = ':' ∨ c.isDigit ∨ 'a' ≤ c ∧ c ≤ 'f')
      ∧ p.setupKey ≠ Vector.replicate 32 0

theorem setup_text_exact (P : Primitives) : ExactSetup P where
  roundTrip p t h := SetupPayload.decode_eq_ok.2 h
  exact t p h := SetupPayload.decode_eq_ok.1 h
  unique t t' p h h' :=
    Except.ok.inj ((SetupPayload.decode_eq_ok.1 h).symm.trans (SetupPayload.decode_eq_ok.1 h'))
  layout t p h := by
    obtain ⟨_, key, rfl⟩ := SetupPayload.encode_eq_ok.1 (SetupPayload.decode_eq_ok.1 h)
    refine ⟨rfl, ?_, ?_, key⟩
    · rw [← String.length_toList]
      simp [SetupPayload.text, String.toList_append, length_hex]
    · intro c mem
      simp only [SetupPayload.text, String.toList_append, List.append_assoc] at mem
      rw [List.drop_left' (by decide)] at mem
      simp only [List.mem_append] at mem
      rcases mem with field | colon | field | colon | field
      · exact .inr (of_mem_hex field)
      · exact .inl (List.mem_singleton.1 colon)
      · exact .inr (of_mem_hex field)
      · exact .inl (List.mem_singleton.1 colon)
      · exact .inr (of_mem_hex field)

/-- A card as it is printed. -/
theorem setup_text_exact_printed : SetupPayload.decode (minimalPrimitives fun _ _ _ => false)
    ("OPENLOCK4:01010101010101010101010101010101:"
      ++ "abababababababababababababababababababababababababababababababab:"
      ++ "0707070707070707070707070707070707070707070707070707070707070707")
    = .ok ⟨⟨Vector.replicate 16 1⟩, Vector.replicate 32 0xab, Vector.replicate 32 7⟩ :=
  (setup_text_exact _).roundTrip _ _ (by decide +kernel)

end OpenLock
