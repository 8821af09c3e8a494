import OpenLock.Transport.Ndef
import OpenLock.Properties.Signatures

/-! NDEF discovery records are canonical. -/
namespace OpenLock
open Cbor

variable {P : Primitives} {issuer : VerifyingKey} {record : DeviceKeyRecord} {w : PointerWidth}
  {bytes payload : Bytes} {n : Nat}

theorem within_bootstrapValue (record : DeviceKeyRecord) : (bootstrapValue record).Within 16 := by
  have pair {n : UInt64} {b : Bytes} {vs : List Value} (rest : (Value.array vs).Within 16) :
      (Value.array (uint n :: .bytes b :: vs)).Within 16 :=
    within_head (within_uint n 15) (within_head (within_bytes b 15) rest)
  exact pair (within_head (within_uint _ 15) (pair (within_head (within_bytes _ 15)
    (within_head (within_uint _ 15) (pair within_nil)))))

theorem parseBootstrap_eq_ok {v : Value} : parseBootstrap P v issuer = .ok record ↔
    bootstrapValue record = v ∧ verifyDeviceKey P issuer record = .ok () := by
  refine record_eq_ok rfl fun ws len => ?_
  obtain _ | ⟨x0, _ | ⟨x1, _ | ⟨x2, _ | ⟨x3, _ | ⟨x4, _ | ⟨x5, _ | ⟨x6, _ | ⟨x7, _ | ⟨x8, _ | _⟩⟩⟩⟩⟩⟩⟩⟩⟩ :=
    ws <;> cases len
  simp only [bind_eq_ok, number_eq_ok, u32Value_eq_ok, fixed_eq_ok, data_eq_ok, failIf_eq_ok,
    pure_eq_ok, not_not]
  constructor
  · rintro ⟨_, rfl, _, rfl, _, rfl, _, rfl, _, rfl, _, rfl, _, rfl, _, rfl, _, rfl, _, rfl, _, verified, rfl⟩
    exact ⟨rfl, verified⟩
  · rintro ⟨same, verified⟩
    cases same
    exact ⟨_, rfl, (), rfl, _, rfl, _, rfl, _, rfl, _, rfl, _, rfl, _, rfl, _, rfl, _, rfl, (), verified, rfl⟩

theorem decodeBootstrap_eq_ok : decodeBootstrap P payload issuer = .ok record ↔
    decodeLimit P payload maxNdefRecord = .ok (bootstrapValue record)
      ∧ verifyDeviceKey P issuer record = .ok () := by
  simp only [decodeBootstrap, bind_eq_ok, parseBootstrap_eq_ok]
  constructor
  · rintro ⟨_, decoded, rfl, verified⟩
    exact ⟨decoded, verified⟩
  · rintro ⟨decoded, verified⟩
    exact ⟨_, decoded, rfl, verified⟩

/-- The record around a payload. -/
def ndefBytes (payload : Bytes) : Bytes :=
  [0xc2, UInt8.ofNat ndefMime.length] ++ toBeBytes32 (UInt32.ofNat payload.length) ++ ndefMime ++ payload

theorem length_ndefMime : ndefMime.length = 39 := by decide +kernel

theorem encodeNdef_eq_ok : encodeNdef P record = .ok bytes ↔
    ∃ payload, encodeBootstrap P record = .ok payload ∧ bytes = ndefBytes payload := by
  have fits : ∀ {payload}, encodeBootstrap P record = .ok payload →
      ¬ (ndefMime.length > 255 ∨ payload.length > 2 ^ 32 - 1) := by
    intro payload encoded
    simp only [encodeBootstrap, encodeLimit, bind_eq_ok, failIf_eq_ok, pure_eq_ok] at encoded
    obtain ⟨_, _, _, small, rfl⟩ := encoded
    rw [length_ndefMime]
    unfold maxNdefRecord maxObjectSize at small
    omega
  simp only [encodeNdef, bind_eq_ok, failIf_eq_ok, pure_eq_ok]
  constructor
  · rintro ⟨payload, encoded, _, _, rfl⟩
    exact ⟨payload, encoded, rfl⟩
  · rintro ⟨payload, encoded, rfl⟩
    exact ⟨payload, encoded, (), fits encoded, rfl⟩

private theorem checkedAdd_some {a b : Nat} (small : a + b < 2 ^ 32) : w.checkedAdd a b = some (a + b) := by
  have limit : 2 ^ 32 ≤ w.limit := by
    cases w with
    | bits32 => exact Nat.le_refl _
    | bits64 => exact Nat.pow_le_pow_right (by decide) (by decide)
  exact if_pos (Nat.lt_of_lt_of_le small limit)

private theorem checkedAdd_eq {a b e : Nat} (h : w.checkedAdd a b = some e) : e = a + b := by
  unfold PointerWidth.checkedAdd at h
  split at h
  · exact (Option.some.inj h).symm
  · cases h

private theorem slice_behind (head rest : Bytes) (inside : n ≤ rest.length) :
    slice (head ++ rest) head.length (head.length + n) = some (rest.take n) := by
  unfold slice
  rw [if_pos ⟨Nat.le_add_right _ _, by rw [List.length_append]; omega⟩, List.drop_take, List.drop_left,
    Nat.add_sub_cancel_left]

private theorem slice_end (head rest : Bytes) (inside : n ≤ rest.length) :
    slice (head ++ rest) (head.length + n) (head ++ rest).length = some (rest.drop n) := by
  unfold slice
  rw [if_pos ⟨by rw [List.length_append]; omega, Nat.le_refl _⟩, List.take_length]
  simp

/-- What a record with a header of the right kind is read as. -/
private theorem decodeNdef_header (P : Primitives) (w : PointerWidth) (issuer : VerifyingKey)
    (b₁ p₀ p₁ p₂ p₃ : UInt8) (rest : Bytes) :
    decodeNdef P w (0xc2 :: b₁ :: p₀ :: p₁ :: p₂ :: p₃ :: rest) issuer =
      match (w.checkedAdd 6 b₁.toNat).bind (w.checkedAdd · (fromBeBytes32 p₀ p₁ p₂ p₃).toNat) with
      | none => some (.error .invalidNfc)
      | some payloadEnd =>
        if 6 + rest.length = payloadEnd ∧ rest.take b₁.toNat = ndefMime then
          some (decodeBootstrap P (rest.drop b₁.toNat) issuer)
        else some (.error .invalidNfc) := by
  have length : (0xc2 :: b₁ :: p₀ :: p₁ :: p₂ :: p₃ :: rest).length = 6 + rest.length := by
    simp only [List.length_cons]
    omega
  unfold decodeNdef
  rw [if_neg (by rw [length]; omega)]
  simp only [List.getElem?_cons_zero, List.getElem?_cons_succ, Option.bind_eq_bind, Option.bind_some,
    ne_eq, not_true_eq_false, if_false]
  cases start : w.checkedAdd 6 b₁.toNat with
  | none => rfl
  | some payloadStart =>
    simp only [Option.bind_some]
    cases stop : w.checkedAdd payloadStart (fromBeBytes32 p₀ p₁ p₂ p₃).toNat with
    | none => rfl
    | some payloadEnd =>
      have start' := checkedAdd_eq start
      have stop' := checkedAdd_eq stop
      simp only
      by_cases whole : 6 + rest.length = payloadEnd
      · have type : slice (0xc2 :: b₁ :: p₀ :: p₁ :: p₂ :: p₃ :: rest) 6 payloadStart = _ :=
          start' ▸ slice_behind [0xc2, b₁, p₀, p₁, p₂, p₃] rest (by omega)
        have last : slice (0xc2 :: b₁ :: p₀ :: p₁ :: p₂ :: p₃ :: rest) payloadStart
            (0xc2 :: b₁ :: p₀ :: p₁ :: p₂ :: p₃ :: rest).length = _ :=
          start' ▸ slice_end [0xc2, b₁, p₀, p₁, p₂, p₃] rest (by omega)
        rw [if_neg (not_not_intro (length.trans whole)), type, last]
        simp only [Option.bind_some, whole, true_and]
        by_cases mime : rest.take b₁.toNat = ndefMime
        · rw [if_neg (not_not_intro mime), if_pos mime]
        · rw [if_pos mime, if_neg mime]
      · rw [if_pos fun eq => whole (length.symm.trans eq)]
        simp only [whole, false_and, if_false]

theorem decodeNdef_ndefBytes (small : payload.length ≤ maxNdefRecord) :
    decodeNdef P w (ndefBytes payload) issuer = some (decodeBootstrap P payload issuer) := by
  have bound : payload.length ≤ 4096 := small
  have mime : (UInt8.ofNat ndefMime.length).toNat = ndefMime.length := by
    rw [length_ndefMime]
    rfl
  have size : (UInt32.ofNat payload.length).toNat = payload.length := by
    rw [UInt32.toNat_ofNat']
    omega
  have total : 6 + ndefMime.length + payload.length < 2 ^ 32 := by
    rw [length_ndefMime]
    omega
  have header := decodeNdef_header P w issuer (UInt8.ofNat ndefMime.length)
    (UInt8.ofNat ((UInt32.ofNat payload.length).toNat / 2 ^ 24))
    (UInt8.ofNat ((UInt32.ofNat payload.length).toNat / 2 ^ 16 % 256))
    (UInt8.ofNat ((UInt32.ofNat payload.length).toNat / 2 ^ 8 % 256))
    (UInt8.ofNat ((UInt32.ofNat payload.length).toNat % 256)) (ndefMime ++ payload)
  rw [fromBeBytes32_toBeBytes32, size, mime, checkedAdd_some (by omega), Option.bind_some,
    checkedAdd_some total] at header
  simp only at header
  rw [if_pos ⟨by rw [List.length_append]; omega, List.take_left⟩, List.drop_left] at header
  rw [← header, ndefBytes, toBeBytes32, size]
  simp only [List.cons_append, List.nil_append]

/-- The lengths in the header are those of the type and of the payload. -/
private theorem ndefBytes_of_header {b₁ p₀ p₁ p₂ p₃ : UInt8} {rest : Bytes} {payloadEnd : Nat}
    (stop : (w.checkedAdd 6 b₁.toNat).bind (w.checkedAdd · (fromBeBytes32 p₀ p₁ p₂ p₃).toNat)
      = some payloadEnd) (whole : 6 + rest.length = payloadEnd)
    (mime : rest.take b₁.toNat = ndefMime) :
    0xc2 :: b₁ :: p₀ :: p₁ :: p₂ :: p₃ :: rest = ndefBytes (rest.drop b₁.toNat) := by
  obtain ⟨payloadStart, start, stop⟩ := Option.bind_eq_some_iff.1 stop
  have start' := checkedAdd_eq start
  have stop' := checkedAdd_eq stop
  have typeLen : b₁.toNat = ndefMime.length := by
    rw [← mime, List.length_take]
    omega
  have size : UInt32.ofNat (rest.drop b₁.toNat).length = fromBeBytes32 p₀ p₁ p₂ p₃ := by
    rw [← UInt32.toNat_inj, UInt32.toNat_ofNat', List.length_drop]
    have := (fromBeBytes32 p₀ p₁ p₂ p₃).toNat_lt
    omega
  rw [ndefBytes, size, toBeBytes32_fromBeBytes32, ← typeLen, UInt8.ofNat_toNat, ← mime,
    List.append_assoc, List.take_append_drop]
  rfl

theorem decodeNdef_cases (P : Primitives) (w : PointerWidth) (bytes : Bytes) (issuer : VerifyingKey) :
    decodeNdef P w bytes issuer = some (.error .invalidNfc)
      ∨ ∃ payload, bytes = ndefBytes payload
        ∧ decodeNdef P w bytes issuer = some (decodeBootstrap P payload issuer) := by
  by_cases short : bytes.length < 6
  · exact .inl (if_pos short)
  · obtain _ | ⟨b₀, _ | ⟨b₁, _ | ⟨p₀, _ | ⟨p₁, _ | ⟨p₂, _ | ⟨p₃, rest⟩⟩⟩⟩⟩⟩ := bytes
    case cons.cons.cons.cons.cons.cons =>
      by_cases tag : b₀ = 0xc2
      · subst tag
        have header := decodeNdef_header P w issuer b₁ p₀ p₁ p₂ p₃ rest
        cases stop : (w.checkedAdd 6 b₁.toNat).bind
          (w.checkedAdd · (fromBeBytes32 p₀ p₁ p₂ p₃).toNat) with
        | none =>
          rw [stop] at header
          exact .inl header
        | some payloadEnd =>
          rw [stop] at header
          simp only at header
          split at header
          · rename_i read
            refine .inr ⟨rest.drop b₁.toNat, ?_, header⟩
            exact ndefBytes_of_header stop read.1 read.2
          · exact .inl header
      · left
        unfold decodeNdef
        rw [if_neg short]
        simp [tag]
    all_goals simp at short

/-- Records are read back, and only from the bytes that they are written to. -/
structure CanonicalNdef (P : Primitives) (w : PointerWidth) : Prop where
  roundTrip : ∀ issuer record, verifyDeviceKey P issuer record = .ok () →
    (bootstrapValue record).write.length ≤ 4096 →
    ∃ bytes, encodeNdef P record = .ok bytes ∧ decodeNdef P w bytes issuer = some (.ok record)
  total : ∀ bytes issuer, (decodeNdef P w bytes issuer).isSome
  canonical : ∀ bytes issuer record, decodeNdef P w bytes issuer = some (.ok record) →
    verifyDeviceKey P issuer record = .ok () ∧ encodeNdef P record = .ok bytes

theorem ndef_canonical (codec : P.Ciborium) (w : PointerWidth) : CanonicalNdef P w where
  roundTrip issuer record verified fits := by
    have encoded : encodeBootstrap P record = .ok (bootstrapValue record).write :=
      (encodeLimit_eq_ok codec (within_bootstrapValue record)).2 ⟨rfl, fits⟩
    refine ⟨ndefBytes (bootstrapValue record).write, encodeNdef_eq_ok.2 ⟨_, encoded, rfl⟩, ?_⟩
    rw [decodeNdef_ndefBytes fits]
    congr 1
    refine decodeBootstrap_eq_ok.2 ⟨?_, verified⟩
    exact decodeLimit_write codec (within_bootstrapValue record) fits (by decide)
  total bytes issuer := by
    rcases decodeNdef_cases P w bytes issuer with refused | ⟨payload, _, read⟩
    · rw [refused]
      rfl
    · rw [read]
      rfl
  canonical bytes issuer record h := by
    rcases decodeNdef_cases P w bytes issuer with refused | ⟨payload, rfl, read⟩
    · rw [refused] at h
      cases h
    · rw [read] at h
      obtain ⟨decoded, verified⟩ := decodeBootstrap_eq_ok.1 (Option.some.inj h)
      exact ⟨verified, encodeNdef_eq_ok.2 ⟨payload, encodeLimit_of_decodeLimit decoded, rfl⟩⟩

theorem Stamp.ndef_canonical_record :
    verifyDeviceKey Stamp.primitives Stamp.issuer Stamp.record = .ok ()
      ∧ ∃ bytes, encodeNdef Stamp.primitives Stamp.record = .ok bytes
        ∧ decodeNdef Stamp.primitives .bits32 bytes Stamp.issuer = some (.ok Stamp.record) := by
  have verified : verifyDeviceKey Stamp.primitives Stamp.issuer Stamp.record = .ok () := by
    decide +kernel
  exact ⟨verified, (ndef_canonical (minimalPrimitives_ciborium _) .bits32).roundTrip Stamp.issuer
    Stamp.record verified (by decide +kernel)⟩

end OpenLock
