import OpenLock.Transport.Ble

/-! The ISO-DEP framing of `openlock-transport-nfc`. -/
namespace OpenLock
open Codec

def maxNdefRecord : Nat := maxObjectSize
def maxApduPayload : Nat := 240

structure IsoDepCodec where
  sequence : UInt8
  expectedSequence : Option UInt8
  inner : Bytes
  expected : Option Nat
  deriving DecidableEq

/-- `u16::to_be_bytes`. -/
def toBeBytes (x : UInt16) : Bytes := [UInt8.ofNat (x.toNat / 256), UInt8.ofNat (x.toNat % 256)]

/-- `u16::from_be_bytes`. -/
def fromBeBytes (high low : UInt8) : UInt16 := fromLeBytes low high

theorem fromBeBytes_toBeBytes (x : UInt16) :
    fromBeBytes (UInt8.ofNat (x.toNat / 256)) (UInt8.ofNat (x.toNat % 256)) = x :=
  fromLeBytes_toLeBytes x

namespace IsoDepCodec

/-- `Default::default`. -/
def default : IsoDepCodec := ⟨0, none, [], none⟩

def apdu (sequence : UInt8) (total : UInt16) (chunk : Bytes) : Bytes :=
  sequence :: (toBeBytes total ++ chunk)

/-- The loop of `encode`, with the sequence number it leaves. -/
def encodeChunks (total : UInt16) : UInt8 → List Bytes → List Bytes × UInt8
  | sequence, [] => ([], sequence)
  | sequence, chunk :: rest =>
    let (result, last) := encodeChunks total (sequence + 1) rest
    (apdu sequence total chunk :: result, last)

def encode (c : IsoDepCodec) (message : Bytes) :
    Except TransportError (List Bytes) × IsoDepCodec :=
  if message = [] ∨ message.length > maxNdefRecord then (.error .tooLarge, c)
  else
    let (result, sequence) :=
      encodeChunks (UInt16.ofNat message.length) c.sequence (chunks maxApduPayload message)
    (.ok result, { c with sequence })

def reset (c : IsoDepCodec) : IsoDepCodec :=
  { c with inner := [], expected := none, expectedSequence := none }

/-- The end of `push`, once the announced length is the expected one. -/
def accept (c : IsoDepCodec) (sequence : UInt8) (total : Nat) (payload : Bytes) :
    Except TransportError (Option Bytes) × IsoDepCodec :=
  if c.expectedSequence ≠ some sequence then (.error .conflict, c)
  else if c.inner.length + payload.length > total then (.error .outOfBounds, c)
  else
    let c := { c with
      expectedSequence := c.expectedSequence.map (· + 1)
      inner := c.inner ++ payload }
    if c.inner.length = total then (.ok (some c.inner), c.reset) else (.ok none, c)

/-- Expect a message of this length from this fragment on. -/
def begin (c : IsoDepCodec) (sequence : UInt8) (total : Nat) : IsoDepCodec :=
  { c with expected := some total, expectedSequence := some sequence }

def push (c : IsoDepCodec) (fragment : Bytes) :
    Except TransportError (Option Bytes) × IsoDepCodec :=
  match fragment with
  | sequence :: t₀ :: t₁ :: payload =>
    let total := (fromBeBytes t₀ t₁).toNat
    if total = 0 ∨ total > maxNdefRecord ∨ fragment.length > maxApduPayload + 3 then
      (.error .invalidNfc, c)
    else if c.expected = none then (c.begin sequence total).accept sequence total payload
    else if c.expected ≠ some total then (.error .conflict, c)
    else c.accept sequence total payload
  | _ => (.error .tooShort, c)

/-- Encode messages in turn, each into its fragments. -/
def encodeAll (c : IsoDepCodec) :
    List Bytes → Except TransportError (List (List Bytes)) × IsoDepCodec
  | [] => (.ok [], c)
  | message :: messages =>
    match c.encode message with
    | (.error e, c) => (.error e, c)
    | (.ok group, c) =>
      match c.encodeAll messages with
      | (.error e, c) => (.error e, c)
      | (.ok groups, c) => (.ok (group :: groups), c)

/-- Push fragments one after another. -/
def pushAll (c : IsoDepCodec) :
    List Bytes → List (Except TransportError (Option Bytes)) × IsoDepCodec
  | [] => ([], c)
  | fragment :: fragments =>
    let (r, c) := c.push fragment
    let (rs, c) := c.pushAll fragments
    (r :: rs, c)

/-- The codecs that the interface can produce. -/
inductive Reachable : IsoDepCodec → Prop
  | default : Reachable .default
  | encode {c : IsoDepCodec} (h : Reachable c) (message : Bytes) : Reachable (c.encode message).2
  | push {c : IsoDepCodec} (h : Reachable c) (fragment : Bytes) : Reachable (c.push fragment).2
  | reset {c : IsoDepCodec} (h : Reachable c) : Reachable c.reset

section Stream
/-! The fragments of a stream, numbered through. -/

/-- What a fragment carries beside its number: the announced length and the payload. -/
abbrev Piece := UInt16 × Bytes

def pieces (message : Bytes) : List Piece :=
  (chunks maxApduPayload message).map fun chunk => (UInt16.ofNat message.length, chunk)

def stream (messages : List Bytes) : List Piece := messages.flatMap pieces

/-- Fragments numbered from `sequence` on. -/
def number : UInt8 → List Piece → List Bytes
  | _, [] => []
  | sequence, piece :: rest => apdu sequence piece.1 piece.2 :: number (sequence + 1) rest

/-- A message that `encode` takes. -/
structure Sendable (message : Bytes) : Prop where
  positive : 0 < message.length
  bound : message.length ≤ maxNdefRecord

variable {c : IsoDepCodec} {message : Bytes} {messages : List Bytes} {sequence : UInt8}
  {piece : Piece}

theorem Sendable.total (h : Sendable message) :
    (UInt16.ofNat message.length).toNat = message.length := by
  have bound := h.bound
  unfold maxNdefRecord maxObjectSize at bound
  rw [UInt16.toNat_ofNat']
  omega

theorem length_number (sequence : UInt8) (ps : List Piece) : (number sequence ps).length = ps.length := by
  induction ps generalizing sequence with
  | nil => rfl
  | cons piece rest ih => rw [number, List.length_cons, ih, List.length_cons]

theorem number_append (sequence : UInt8) (ps qs : List Piece) :
    number sequence (ps ++ qs) = number sequence ps ++ number (sequence + UInt8.ofNat ps.length) qs := by
  induction ps generalizing sequence with
  | nil => simp [number]
  | cons piece rest ih =>
    rw [List.cons_append, number, ih, number, List.cons_append, List.length_cons]
    congr 3
    rw [UInt8.ofNat_add, UInt8.add_assoc, UInt8.add_comm 1]
    rfl

private theorem encodeChunks_eq (total sequence) (cs : List Bytes) :
    encodeChunks total sequence cs
      = (number sequence (cs.map fun chunk => (total, chunk)), sequence + UInt8.ofNat cs.length) := by
  induction cs generalizing sequence with
  | nil => simp [encodeChunks, number]
  | cons chunk rest ih =>
    rw [encodeChunks, ih, List.map_cons, number, List.length_cons]
    simp only
    congr 1
    rw [UInt8.ofNat_add, UInt8.add_assoc, UInt8.add_comm 1]
    rfl

theorem encode_eq (h : Sendable message) : c.encode message
    = (.ok (number c.sequence (pieces message)),
      { c with sequence := c.sequence + UInt8.ofNat (pieces message).length }) := by
  have nonempty : message ≠ [] := List.length_pos_iff.1 h.positive
  have small : ¬ message.length > maxNdefRecord := Nat.not_lt.2 h.bound
  unfold encode
  rw [if_neg (by simp [nonempty, small]), encodeChunks_eq, pieces, List.length_map]

theorem sendable_of_encode {group : List Bytes} (h : (c.encode message).1 = .ok group) :
    Sendable message := by
  unfold encode at h
  split at h
  · cases h
  · rename_i fits
    simp only [not_or, Nat.not_lt] at fits
    exact ⟨List.length_pos_iff.2 fits.1, fits.2⟩

/-- The groups of fragments of a stream, the numbers running on from one message to the next. -/
def groups : UInt8 → List Bytes → List (List Bytes)
  | _, [] => []
  | sequence, message :: messages =>
    number sequence (pieces message)
      :: groups (sequence + UInt8.ofNat (pieces message).length) messages

theorem encodeAll_eq (h : ∀ m ∈ messages, Sendable m) : c.encodeAll messages
    = (.ok (groups c.sequence messages),
      { c with sequence := c.sequence + UInt8.ofNat (stream messages).length }) := by
  induction messages generalizing c with
  | nil => simp [encodeAll, groups, stream]
  | cons message messages ih =>
    obtain ⟨first, rest⟩ := List.forall_mem_cons.1 h
    rw [encodeAll, encode_eq first]
    simp only
    rw [ih rest]
    simp only [groups, stream, List.flatMap_cons, List.length_append, UInt8.ofNat_add, UInt8.add_assoc]

theorem sendable_of_encodeAll {gs : List (List Bytes)} (h : (c.encodeAll messages).1 = .ok gs) :
    ∀ m ∈ messages, Sendable m := by
  induction messages generalizing c gs with
  | nil => simp
  | cons message messages ih =>
    unfold encodeAll at h
    split at h
    · cases h
    · rename_i group c₁ encoded
      split at h
      · cases h
      · rename_i groups c₂ rest
        have first : (c.encode message).1 = .ok group := by rw [encoded]
        have later : (c₁.encodeAll messages).1 = .ok groups := by rw [rest]
        exact List.forall_mem_cons.2 ⟨sendable_of_encode first, ih later⟩

theorem flatten_groups (sequence : UInt8) (messages : List Bytes) :
    (groups sequence messages).flatten = number sequence (stream messages) := by
  induction messages generalizing sequence with
  | nil => rfl
  | cons message messages ih =>
    rw [groups, List.flatten_cons, ih, ← number_append]
    rfl

/-- A piece as `encode` makes them. -/
structure Piece.Fits (piece : Piece) : Prop where
  positive : 0 < piece.2.length
  short : piece.2.length ≤ maxApduPayload
  inside : piece.2.length ≤ piece.1.toNat
  bound : piece.1.toNat ≤ maxNdefRecord

theorem fits_of_mem_pieces (h : Sendable message) (mem : piece ∈ pieces message) : piece.Fits := by
  have room : 0 < maxApduPayload := by decide
  obtain ⟨chunk, member, rfl⟩ := List.mem_map.1 mem
  obtain ⟨i, found⟩ := List.mem_iff_getElem?.1 member
  obtain ⟨inside, rfl⟩ := (getElem?_chunks room).1 found
  refine ⟨?_, ?_, ?_, ?_⟩
  · change 0 < ((message.drop (i * maxApduPayload)).take maxApduPayload).length
    rw [length_chunk]
    omega
  · change ((message.drop (i * maxApduPayload)).take maxApduPayload).length ≤ _
    rw [length_chunk]
    omega
  · change ((message.drop (i * maxApduPayload)).take maxApduPayload).length ≤ _
    rw [length_chunk, h.total]
    omega
  · rw [h.total]
    exact h.bound

theorem fits_of_mem_stream (h : ∀ m ∈ messages, Sendable m) (mem : piece ∈ stream messages) :
    piece.Fits := by
  obtain ⟨m, hm, mem⟩ := List.mem_flatMap.1 mem
  exact fits_of_mem_pieces (h m hm) mem

end Stream

section Receiver
variable {c : IsoDepCodec} {sequence : UInt8} {piece : Piece}

/-- No reassembly is in progress. -/
structure Idle (c : IsoDepCodec) : Prop where
  expected : c.expected = none
  inner : c.inner = []
  expectedSequence : c.expectedSequence = none

/-- A reassembly of a message of length `total` is in progress: `got` is received and the
fragment numbered `next` is due. -/
structure Gathering (c : IsoDepCodec) (total : Nat) (next : UInt8) (got : Bytes) : Prop where
  expected : c.expected = some total
  next : c.expectedSequence = some next
  inner : c.inner = got

theorem Idle.reset (c : IsoDepCodec) : c.reset.Idle := ⟨rfl, rfl, rfl⟩

theorem Idle.begin (h : c.Idle) (sequence : UInt8) (total : Nat) :
    (c.begin sequence total).Gathering total sequence [] := ⟨rfl, rfl, h.inner⟩

variable {total : Nat} {next : UInt8} {got payload : Bytes} {ps : List Piece}

theorem Gathering.accept_more (h : c.Gathering total next got) (payload : Bytes)
    (short : got.length + payload.length < total) :
    (c.accept next total payload).1 = .ok none
      ∧ (c.accept next total payload).2.Gathering total (next + 1) (got ++ payload) := by
  unfold accept
  rw [if_neg (by rw [h.next]; simp), h.inner, if_neg (by omega)]
  simp only [List.length_append]
  rw [if_neg (by omega)]
  exact ⟨rfl, h.expected, by rw [h.next]; rfl, rfl⟩

theorem Gathering.accept_last (h : c.Gathering total next got) (payload : Bytes)
    (full : got.length + payload.length = total) :
    (c.accept next total payload).1 = .ok (some (got ++ payload))
      ∧ (c.accept next total payload).2.Idle := by
  unfold accept
  rw [if_neg (by rw [h.next]; simp), h.inner, if_neg (by omega)]
  simp only [List.length_append]
  rw [if_pos full]
  exact ⟨rfl, .reset _⟩

theorem Gathering.accept_stuck (h : c.Gathering total next got) (sequence : UInt8)
    (wrong : next ≠ sequence ∨ total < got.length + payload.length) :
    ∃ e, c.accept sequence total payload = (.error e, c) := by
  unfold accept
  split
  · exact ⟨_, rfl⟩
  · rename_i due
    rw [h.next] at due
    have same : next = sequence := by simpa using due
    rw [h.inner, if_pos (wrong.resolve_left fun other => other same)]
    exact ⟨_, rfl⟩

private theorem push_apdu (fits : piece.Fits) : c.push (apdu sequence piece.1 piece.2) =
    if c.expected = none then
      (c.begin sequence piece.1.toNat).accept sequence piece.1.toNat piece.2
    else if c.expected ≠ some piece.1.toNat then (.error .conflict, c)
    else c.accept sequence piece.1.toNat piece.2 := by
  have header : ¬ (piece.1.toNat = 0 ∨ piece.1.toNat > maxNdefRecord
      ∨ (apdu sequence piece.1 piece.2).length > maxApduPayload + 3) := by
    have := fits.positive
    have := fits.short
    have := fits.inside
    have := fits.bound
    simp only [apdu, toBeBytes, List.length_cons, List.length_append, List.length_nil]
    omega
  unfold push
  change (if (fromBeBytes _ _).toNat = 0 ∨ (fromBeBytes _ _).toNat > maxNdefRecord
    ∨ (apdu sequence piece.1 piece.2).length > maxApduPayload + 3 then _ else _) = _
  simp only [fromBeBytes_toBeBytes]
  rw [if_neg header]
  rfl

theorem Idle.push (h : c.Idle) (fits : piece.Fits) : c.push (apdu sequence piece.1 piece.2)
    = (c.begin sequence piece.1.toNat).accept sequence piece.1.toNat piece.2 := by
  rw [push_apdu fits, if_pos h.expected]

theorem Gathering.push (h : c.Gathering piece.1.toNat next got) (fits : piece.Fits) :
    c.push (apdu sequence piece.1 piece.2) = c.accept sequence piece.1.toNat piece.2 := by
  rw [push_apdu fits, if_neg (by rw [h.expected]; simp), if_neg (by rw [h.expected]; simp)]

theorem Gathering.push_other (h : c.Gathering total next got) (fits : piece.Fits)
    (other : total ≠ piece.1.toNat) : c.push (apdu sequence piece.1 piece.2) = (.error .conflict, c) := by
  rw [push_apdu fits, if_neg (by rw [h.expected]; simp), if_pos (by rw [h.expected]; simpa using other)]

theorem pushAll_append (c : IsoDepCodec) (before after : List Bytes) :
    c.pushAll (before ++ after) = ((c.pushAll before).1 ++ ((c.pushAll before).2.pushAll after).1,
      ((c.pushAll before).2.pushAll after).2) := by
  induction before generalizing c with
  | nil => rfl
  | cons fragment before ih =>
    rw [List.cons_append]
    simp only [pushAll, ih]
    rfl

/-- The pieces that complete a message are taken one after the other, and the last one returns it. -/
theorem Gathering.pushAll (h : c.Gathering total next got) (some : ps ≠ [])
    (fits : ∀ piece ∈ ps, piece.Fits ∧ piece.1.toNat = total)
    (full : (got ++ (ps.map Prod.snd).flatten).length = total) :
    (c.pushAll (number next ps)).1 = List.replicate (ps.length - 1) (.ok none)
        ++ [.ok (.some (got ++ (ps.map Prod.snd).flatten))]
      ∧ (c.pushAll (number next ps)).2.Idle := by
  induction ps generalizing c next got with
  | nil => exact absurd rfl some
  | cons piece rest ih =>
    obtain ⟨⟨fit, rfl⟩, later⟩ := List.forall_mem_cons.1 fits
    rw [number, IsoDepCodec.pushAll, h.push fit]
    simp only [List.map_cons, List.flatten_cons, List.length_append] at full
    cases rest with
    | nil =>
      obtain ⟨answer, idle⟩ := h.accept_last piece.2 (by simpa using full)
      simp only [number, IsoDepCodec.pushAll, answer]
      exact ⟨by simp, idle⟩
    | cons second rest =>
      have positive : 0 < ((second :: rest).map Prod.snd).flatten.length := by
        have := (later second List.mem_cons_self).1.positive
        simp only [List.map_cons, List.flatten_cons, List.length_append]
        omega
      obtain ⟨answer, gathering⟩ := h.accept_more piece.2 (by omega)
      obtain ⟨answers, idle⟩ := ih gathering (by simp) later (by
        simp only [List.length_append]
        omega)
      refine ⟨?_, idle⟩
      simp only [answer, answers]
      simp [List.replicate_succ]

/-- A receiver between messages. -/
theorem Idle.pushAll (h : c.Idle) (some : ps ≠ [])
    (fits : ∀ piece ∈ ps, piece.Fits ∧ piece.1.toNat = total)
    (full : (ps.map Prod.snd).flatten.length = total) (sequence : UInt8) :
    (c.pushAll (number sequence ps)).1 = List.replicate (ps.length - 1) (.ok none)
        ++ [.ok (.some (ps.map Prod.snd).flatten)]
      ∧ (c.pushAll (number sequence ps)).2.Idle := by
  cases ps with
  | nil => exact absurd rfl some
  | cons piece rest =>
    obtain ⟨fit, rfl⟩ := fits piece List.mem_cons_self
    have same : c.pushAll (number sequence (piece :: rest))
        = (c.begin sequence piece.1.toNat).pushAll (number sequence (piece :: rest)) := by
      have begun := h.begin sequence piece.1.toNat
      rw [number, IsoDepCodec.pushAll, IsoDepCodec.pushAll, h.push fit, begun.push fit]
    rw [same]
    exact (h.begin sequence piece.1.toNat).pushAll some fits full

end Receiver
end IsoDepCodec
end OpenLock
