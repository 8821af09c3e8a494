import OpenLock.Codec.Overlay
import OpenLock.Types.Basic

/-! The BLE fragmentation codec of `openlock-transport-ble`. An index outside a vector, on
which the code would panic, is the result `none`. -/
namespace OpenLock
open Codec
variable {attMtu : Nat}

inductive TransportError where
  | tooShort | invalidLength | tooLarge | outOfBounds | conflict | busy | incomplete | invalidNfc
  deriving DecidableEq

def headerSize : Nat := 8
def maxFrameMessage : Nat := 4096
def defaultAttMtu : Nat := 23
def minAttMtu : Nat := defaultAttMtu
def maxAttributeValue : Nat := 512

structure FragmentHeader where
  messageId : UInt16
  offset : UInt16
  total : UInt16
  deriving DecidableEq

structure BleCodec where
  attMtu : Nat
  nextId : UInt16
  messageId : Option UInt16
  total : Nat
  bytes : Bytes
  received : List Bool
  deriving DecidableEq

/-- `u16::to_le_bytes`. -/
def toLeBytes (x : UInt16) : Bytes := [UInt8.ofNat (x.toNat % 256), UInt8.ofNat (x.toNat / 256)]

/-- `u16::from_le_bytes`. -/
def fromLeBytes (low high : UInt8) : UInt16 := UInt16.ofNat (low.toNat + 256 * high.toNat)

theorem fromLeBytes_toLeBytes (x : UInt16) :
    fromLeBytes (UInt8.ofNat (x.toNat % 256)) (UInt8.ofNat (x.toNat / 256)) = x := by
  have bound := x.toNat_lt
  apply UInt16.toNat_inj.1
  rw [fromLeBytes, UInt16.toNat_ofNat', UInt8.toNat_ofNat', UInt8.toNat_ofNat']
  omega

namespace BleCodec

/-- `Default::default`. -/
def default : BleCodec := ⟨defaultAttMtu, 1, none, 0, [], []⟩

def withMtu (attMtu : Nat) : Except TransportError BleCodec :=
  if attMtu < minAttMtu then .error .invalidLength else .ok { default with attMtu }

def setMtu (c : BleCodec) (attMtu : Nat) : Except TransportError Unit × BleCodec :=
  if attMtu < minAttMtu then (.error .invalidLength, c) else (.ok (), { c with attMtu })

/-- The bytes of a message that one frame can carry. -/
def capacity (attMtu : Nat) : Nat := min (attMtu - 3) maxAttributeValue - headerSize

def payloadCapacity (c : BleCodec) : Nat := capacity c.attMtu

def frame (header : FragmentHeader) (payload : Bytes) : Except TransportError Bytes :=
  if header.total = 0 ∨ header.total.toNat > maxFrameMessage
      ∨ header.offset.toNat + payload.length > header.total.toNat ∨ payload.length > 65535 then
    .error .outOfBounds
  else
    .ok (toLeBytes header.messageId ++ toLeBytes header.offset ++ toLeBytes header.total
      ++ toLeBytes (UInt16.ofNat payload.length) ++ payload)

def parse (attMtu : Nat) (frame : Bytes) : Except TransportError (FragmentHeader × Bytes) :=
  match frame with
  | m₀ :: m₁ :: o₀ :: o₁ :: t₀ :: t₁ :: l₀ :: l₁ :: payload =>
    let h : FragmentHeader := ⟨fromLeBytes m₀ m₁, fromLeBytes o₀ o₁, fromLeBytes t₀ t₁⟩
    let declaredLen := (fromLeBytes l₀ l₁).toNat
    if declaredLen = 0 ∨ declaredLen ≠ payload.length ∨ payload.length > capacity attMtu then
      .error .invalidLength
    else if h.total = 0 ∨ h.total.toNat > maxFrameMessage
        ∨ h.offset.toNat + payload.length > h.total.toNat then .error .outOfBounds
    else .ok (h, payload)
  | _ => .error .tooShort

def encode (c : BleCodec) (message : Bytes) : Except TransportError (List Bytes) × BleCodec :=
  if message = [] ∨ message.length > maxFrameMessage then (.error .tooLarge, c)
  else
    let id := c.nextId
    let size := c.payloadCapacity
    let total := UInt16.ofNat message.length
    ((chunks size message).zipIdx.mapM fun (p, i) => frame ⟨id, UInt16.ofNat (i * size), total⟩ p,
      { c with nextId := max (c.nextId + 1) 1 })

def reset (c : BleCodec) : BleCodec :=
  { c with messageId := none, total := 0, bytes := [], received := [] }

/-- The loop of `push` over the payload: whether it ran to its end, and what it wrote. -/
def fill (start : Nat) : Bytes → Bytes → List Bool → Option (Bool × Bytes × List Bool)
  | [], bytes, received => some (true, bytes, received)
  | byte :: rest, bytes, received => do
    let seen ← received[start]?
    let old ← bytes[start]?
    if seen ∧ old ≠ byte then some (false, bytes, received)
    else fill (start + 1) rest (bytes.set start byte) (received.set start true)

/-- The end of `push`, once the frame belongs to the message. -/
def accept (c : BleCodec) (h : FragmentHeader) (payload : Bytes) :
    Option (Except TransportError (Option Bytes) × BleCodec) := do
  let (ran, bytes, received) ← fill h.offset.toNat payload c.bytes c.received
  let c := { c with bytes, received }
  if ¬ ran then some (.error .conflict, c)
  else if received.all id then some (.ok (some bytes), c.reset)
  else some (.ok none, c)

/-- Start to reassemble the message of a header. -/
def begin (c : BleCodec) (h : FragmentHeader) : BleCodec :=
  { c with
    messageId := some h.messageId
    total := h.total.toNat
    bytes := List.replicate h.total.toNat 0
    received := List.replicate h.total.toNat false }

def push (c : BleCodec) (frame : Bytes) :
    Option (Except TransportError (Option Bytes) × BleCodec) :=
  match parse c.attMtu frame with
  | .error e => some (.error e, c)
  | .ok (h, payload) =>
    if c.messageId = none then (c.begin h).accept h payload
    else if c.messageId ≠ some h.messageId then some (.error .busy, c)
    else if c.total ≠ h.total.toNat then some (.error .conflict, c)
    else c.accept h payload

end BleCodec

section Headers
/-! What `frame` writes is what `parse` reads. -/

theorem BleCodec.capacity_pos (h : minAttMtu ≤ attMtu) : 0 < capacity attMtu := by
  unfold minAttMtu defaultAttMtu at h
  unfold capacity maxAttributeValue headerSize
  omega

/-- A frame that a receiver of this MTU can read. -/
structure Fits (attMtu : Nat) (h : FragmentHeader) (payload : Bytes) : Prop where
  filled : payload ≠ []
  room : payload.length ≤ BleCodec.capacity attMtu
  total : 0 < h.total.toNat
  bound : h.total.toNat ≤ maxFrameMessage
  inside : h.offset.toNat + payload.length ≤ h.total.toNat

/-- The bytes of a frame. -/
def frameBytes (h : FragmentHeader) (payload : Bytes) : Bytes :=
  toLeBytes h.messageId ++ toLeBytes h.offset ++ toLeBytes h.total
    ++ toLeBytes (UInt16.ofNat payload.length) ++ payload

variable {attMtu : Nat} {h : FragmentHeader} {payload : Bytes}

theorem length_frameBytes : (frameBytes h payload).length = headerSize + payload.length := by
  simp only [frameBytes, toLeBytes, headerSize, List.length_append, List.length_cons,
    List.length_nil]

theorem Fits.frame (fits : Fits attMtu h payload) :
    BleCodec.frame h payload = .ok (frameBytes h payload) := by
  have bound := fits.bound
  have inside := fits.inside
  have total := fits.total
  unfold maxFrameMessage at bound
  have nonzero : h.total ≠ 0 := by
    intro zero
    rw [zero] at total
    exact Nat.lt_irrefl 0 total
  unfold BleCodec.frame maxFrameMessage
  rw [if_neg]
  · rfl
  · push Not
    exact ⟨nonzero, bound, inside, by omega⟩

theorem parse_frameBytes (fits : Fits attMtu h payload) :
    BleCodec.parse attMtu (frameBytes h payload) = .ok (h, payload) := by
  have room := fits.room
  have declared : (UInt16.ofNat payload.length).toNat = payload.length := by
    unfold BleCodec.capacity maxAttributeValue at room
    rw [UInt16.toNat_ofNat', Nat.mod_eq_of_lt (by omega)]
  have filled : payload.length ≠ 0 := fun empty => fits.filled (List.length_eq_zero_iff.1 empty)
  have nonzero : h.total ≠ 0 := by
    intro zero
    have total := fits.total
    rw [zero] at total
    exact Nat.lt_irrefl 0 total
  simp only [frameBytes, toLeBytes, List.cons_append, List.nil_append, BleCodec.parse,
    fromLeBytes_toLeBytes]
  rw [declared, if_neg, if_neg]
  · push Not
    exact ⟨nonzero, fits.bound, fits.inside⟩
  · push Not
    exact ⟨filled, rfl, room⟩

theorem toLeBytes_fromLeBytes (low high : UInt8) : toLeBytes (fromLeBytes low high) = [low, high] := by
  have hlow := low.toNat_lt
  have hhigh := high.toNat_lt
  have value : (fromLeBytes low high).toNat = low.toNat + 256 * high.toNat := by
    rw [fromLeBytes, UInt16.toNat_ofNat', Nat.mod_eq_of_lt (by omega)]
  rw [toLeBytes, value]
  congr 1
  · rw [show (low.toNat + 256 * high.toNat) % 256 = low.toNat by omega, UInt8.ofNat_toNat]
  · rw [show (low.toNat + 256 * high.toNat) / 256 = high.toNat by omega, UInt8.ofNat_toNat]

/-- `parse` accepts a frame exactly when `frame` wrote it and it fits. -/
theorem parse_ok_iff {frame : Bytes} :
    BleCodec.parse attMtu frame = .ok (h, payload) ↔
      frame = frameBytes h payload ∧ Fits attMtu h payload := by
  constructor
  · intro ok
    unfold BleCodec.parse at ok
    split at ok
    · rename_i m₀ m₁ o₀ o₁ t₀ t₁ l₀ l₁ rest
      dsimp only at ok
      split at ok
      · cases ok
      · rename_i length
        split at ok
        · cases ok
        · rename_i bounds
          cases ok
          push Not at length bounds
          obtain ⟨declared, same, room⟩ := length
          obtain ⟨total, bound, inside⟩ := bounds
          refine ⟨?_, ?_, room, UInt16.lt_iff_toNat_lt.1 (UInt16.pos_iff_ne_zero.2 total), bound, inside⟩
          · rw [frameBytes, toLeBytes_fromLeBytes, toLeBytes_fromLeBytes, toLeBytes_fromLeBytes,
              ← same, UInt16.ofNat_toNat, toLeBytes_fromLeBytes]
            rfl
          · rintro rfl
            exact declared same
    · cases ok
  · rintro ⟨rfl, fits⟩
    exact parse_frameBytes fits

end Headers

namespace BleCodec

/-- What the vectors of a codec know of the message. -/
def known (bytes : Bytes) (received : List Bool) : Known UInt8 := fun k =>
  if received[k]? = some true then bytes[k]? else none

section Fill
variable {start : Nat} {payload bytes : Bytes} {received : List Bool}

theorem known_splice (fits : start + payload.length ≤ bytes.length)
    (same : received.length = bytes.length) :
    known (splice bytes start payload) (splice received start (List.replicate payload.length true))
      = (known bytes received).overlay start payload := by
  funext k
  have room : start + (List.replicate payload.length true).length ≤ received.length := by
    rw [List.length_replicate]
    omega
  unfold known Known.overlay
  rw [getElem?_splice fits, getElem?_splice room, List.length_replicate]
  by_cases inside : start ≤ k ∧ k < start + payload.length
  · have marked : (List.replicate payload.length true)[k - start]? = some true := by
      rw [List.getElem?_replicate, if_pos (by omega)]
    simp only [if_pos inside, marked, if_true]
  · simp only [if_neg inside]

/-- How the loop of `push` ends: at the first byte `i` that contradicts what was received, or
behind the last one. The bytes before `i` are written. -/
structure Filled (start : Nat) (payload bytes : Bytes) (received : List Bool) (ran : Bool)
    (bytes' : Bytes) (received' : List Bool) (i : Nat) : Prop where
  bound : i ≤ payload.length
  before : ∀ j < i, ¬ (known bytes received).Clash start payload j
  stopped : if ran then i = payload.length else (known bytes received).Clash start payload i
  bytes : bytes' = splice bytes start (payload.take i)
  received : received' = splice received start (List.replicate i true)

theorem known_none_of_not_received {k : Nat} (h : received[k]? ≠ some true) :
    known bytes received k = none := if_neg h

theorem known_set {byte : UInt8} (bound : start < bytes.length)
    (same : received.length = bytes.length) (k : Nat) :
    known (bytes.set start byte) (received.set start true) k =
      if k = start then some byte else known bytes received k := by
  unfold known
  rw [List.getElem?_set, List.getElem?_set]
  by_cases here : start = k
  · subst here
    simp [bound, same]
  · rw [if_neg here, if_neg here, if_neg (Ne.symm here)]

/-- The loop never leaves the vectors, and stops at the first contradiction. -/
theorem fill_spec (fits : start + payload.length ≤ bytes.length)
    (same : received.length = bytes.length) :
    ∃ ran bytes' received' i, fill start payload bytes received = some (ran, bytes', received')
      ∧ Filled start payload bytes received ran bytes' received' i := by
  induction payload generalizing start bytes received with
  | nil =>
    refine ⟨true, bytes, received, 0, rfl, ⟨Nat.le_refl 0, fun j low => absurd low (Nat.not_lt_zero j),
      rfl, ?_, ?_⟩⟩
    · simp
    · simp
  | cons byte rest ih =>
    simp only [List.length_cons] at fits
    obtain ⟨old, here⟩ : ∃ old, bytes[start]? = some old :=
      ⟨_, List.getElem?_eq_getElem (by omega)⟩
    obtain ⟨seen, marked⟩ : ∃ seen, received[start]? = some seen :=
      ⟨_, List.getElem?_eq_getElem (by omega)⟩
    unfold fill
    simp only [marked, here, Option.bind_eq_bind, Option.bind_some]
    by_cases clash : seen = true ∧ old ≠ byte
    · rw [if_pos clash]
      refine ⟨false, bytes, received, 0, rfl, ⟨Nat.zero_le _,
        fun j low => absurd low (Nat.not_lt_zero j), ?_, ?_, ?_⟩⟩
      · refine ⟨old, byte, ?_, rfl, clash.2⟩
        rw [Nat.add_zero, known, marked, clash.1, if_pos rfl, here]
      · simp
      · simp
    · rw [if_neg clash]
      obtain ⟨ran, bytes', received', i, result, filled⟩ :=
        @ih (start + 1) (bytes.set start byte) (received.set start true)
          (by rw [List.length_set]; omega) (by rw [List.length_set, List.length_set]; exact same)
      -- Behind `start` the loop sees the same vectors.
      have shifted : ∀ j, (known (bytes.set start byte) (received.set start true)).Clash (start + 1)
          rest j ↔ (known bytes received).Clash start (byte :: rest) (j + 1) := by
        intro j
        unfold Known.Clash
        rw [known_set (by omega) same, if_neg (by omega), Nat.add_right_comm, Nat.add_assoc]
        rfl
      refine ⟨ran, bytes', received', i + 1, result, ?_, ?_, ?_, ?_, ?_⟩
      · exact Nat.succ_le_succ filled.bound
      · intro j low
        cases j with
        | zero =>
          rintro ⟨x, y, known, written, differ⟩
          rw [Nat.add_zero, BleCodec.known, marked] at known
          cases seen with
          | false => cases known
          | true =>
            rw [if_pos rfl, here] at known
            cases known
            cases written
            exact clash ⟨rfl, differ⟩
        | succ j =>
          rw [← shifted]
          exact filled.before j (Nat.lt_of_succ_lt_succ low)
      · have stopped := filled.stopped
        cases ran with
        | true => exact congrArg Nat.succ stopped
        | false => exact (shifted i).1 stopped
      · rw [filled.bytes, List.take_succ_cons, splice_set]
        have bound := filled.bound
        simp only [List.length_cons, List.length_take]
        omega
      · rw [filled.received, List.replicate_succ, splice_set]
        have bound := filled.bound
        simp only [List.length_cons, List.length_replicate]
        omega

theorem known_isSome_iff (same : received.length = bytes.length) (k : Nat) :
    (known bytes received k).isSome ↔ received[k]? = some true := by
  unfold known
  split
  · rename_i seen
    obtain ⟨bound, _⟩ := List.getElem?_eq_some_iff.1 seen
    rw [List.getElem?_eq_getElem (by omega)]
    simp [seen]
  · rename_i unseen
    simp [unseen]

theorem known_of_all (all : received.all id = true) (same : received.length = bytes.length) (k : Nat) : known bytes received k = bytes[k]? := by
  unfold BleCodec.known
  by_cases bound : k < bytes.length
  · rw [if_pos]
    rw [List.getElem?_eq_getElem (by omega)]
    exact congrArg some (List.all_eq_true.1 all _ (List.getElem_mem _))
  · have past : bytes[k]? = none := List.getElem?_eq_none (Nat.not_lt.1 bound)
    rw [past]
    exact ite_self none

end Fill

/-- Between messages. -/
structure Idle (c : BleCodec) : Prop where
  messageId : c.messageId = none
  total : c.total = 0
  bytes : c.bytes = []
  received : c.received = []

/-- In the middle of a message. -/
structure Assembling (c : BleCodec) (id : UInt16) : Prop where
  messageId : c.messageId = some id
  total : 0 < c.total
  bound : c.total ≤ maxFrameMessage
  bytes : c.bytes.length = c.total
  received : c.received.length = c.total

structure Inv (c : BleCodec) : Prop where
  mtu : minAttMtu ≤ c.attMtu
  nextId : c.nextId ≠ 0
  state : c.Idle ∨ ∃ id, c.Assembling id

variable {c c' : BleCodec} {r : Except TransportError (Option Bytes)} {i : Nat}

theorem Idle.reset (c : BleCodec) : c.reset.Idle := ⟨rfl, rfl, rfl, rfl⟩

theorem Idle.reset_eq (h : c.Idle) : c.reset = c := by
  obtain ⟨mtu, next, id, total, bytes, received⟩ := c
  obtain ⟨rfl, rfl, rfl, rfl⟩ := h
  rfl

theorem Inv.reset (h : c.Inv) : c.reset.Inv := ⟨h.mtu, h.nextId, .inl (.reset c)⟩

/-- The codec in which the loop of `push` runs. -/
def joined (c : BleCodec) (h : FragmentHeader) : BleCodec :=
  if c.messageId = none then c.begin h else c

/-- The frame is part of the message being reassembled, or starts one. -/
def Joins (c : BleCodec) (h : FragmentHeader) : Prop :=
  c.messageId = none ∨ (c.messageId = some h.messageId ∧ c.total = h.total.toNat)

/-- The codec after the loop. -/
def written (c : BleCodec) (bytes : Bytes) (received : List Bool) : BleCodec :=
  { c with bytes, received }

/-- What the codec knows of the message. -/
def view (c : BleCodec) : Known UInt8 := known c.bytes c.received

section Joined
variable {h : FragmentHeader} {payload : Bytes} {attMtu : Nat}

theorem Joins.assembling (joins : c.Joins h) (inv : c.Inv) (fits : Fits attMtu h payload) :
    (c.joined h).Assembling h.messageId ∧ (c.joined h).total = h.total.toNat := by
  unfold joined
  split
  · refine ⟨⟨rfl, fits.total, fits.bound, ?_, ?_⟩, rfl⟩
    · exact List.length_replicate
    · exact List.length_replicate
  · rename_i busy
    obtain ⟨same, total⟩ := joins.resolve_left busy
    refine ⟨?_, total⟩
    rcases inv.state with idle | ⟨id, assembling⟩
    · exact absurd idle.messageId busy
    · cases assembling.messageId.symm.trans same
      exact assembling

theorem joined_attMtu : (c.joined h).attMtu = c.attMtu := by
  unfold joined
  split <;> rfl

theorem joined_nextId : (c.joined h).nextId = c.nextId := by
  unfold joined
  split <;> rfl

theorem joined_reset : (c.joined h).reset = c.reset := by
  unfold joined
  split <;> rfl

/-- A message that has just begun is unknown. -/
theorem view_begin (c : BleCodec) (h : FragmentHeader) (k : Nat) : (c.begin h).view k = none := by
  refine known_none_of_not_received ?_
  change (List.replicate _ false)[k]? ≠ some true
  rw [List.getElem?_replicate]
  split <;> simp

end Joined

/-- All that `push` can do. -/
inductive Pushed (c : BleCodec) (frame : Bytes) :
    Except TransportError (Option Bytes) → BleCodec → Prop
  | unreadable (e : TransportError) (bad : parse c.attMtu frame = .error e) :
      Pushed c frame (.error e) c
  | busy (h : FragmentHeader) (payload : Bytes) (read : parse c.attMtu frame = .ok (h, payload))
      (other : ¬ c.Joins h) (differs : c.messageId ≠ some h.messageId) :
      Pushed c frame (.error .busy) c
  | mismatch (h : FragmentHeader) (payload : Bytes) (read : parse c.attMtu frame = .ok (h, payload))
      (other : ¬ c.Joins h) (same : c.messageId = some h.messageId) :
      Pushed c frame (.error .conflict) c
  | clash (h : FragmentHeader) (payload bytes : Bytes) (received : List Bool) (i : Nat)
      (read : parse c.attMtu frame = .ok (h, payload)) (joins : c.Joins h)
      (filled : Filled h.offset.toNat payload (c.joined h).bytes (c.joined h).received false bytes
        received i) : Pushed c frame (.error .conflict) ((c.joined h).written bytes received)
  | more (h : FragmentHeader) (payload bytes : Bytes) (received : List Bool) (i : Nat)
      (read : parse c.attMtu frame = .ok (h, payload)) (joins : c.Joins h)
      (filled : Filled h.offset.toNat payload (c.joined h).bytes (c.joined h).received true bytes
        received i) (missing : received.all id = false) :
      Pushed c frame (.ok none) ((c.joined h).written bytes received)
  | complete (h : FragmentHeader) (payload bytes : Bytes) (received : List Bool) (i : Nat)
      (read : parse c.attMtu frame = .ok (h, payload)) (joins : c.Joins h)
      (filled : Filled h.offset.toNat payload (c.joined h).bytes (c.joined h).received true bytes
        received i) (all : received.all id = true) : Pushed c frame (.ok (some bytes)) c.reset

theorem push_eq (c : BleCodec) {frame payload : Bytes} {h : FragmentHeader}
    (read : parse c.attMtu frame = .ok (h, payload)) (joins : c.Joins h) :
    c.push frame = (c.joined h).accept h payload := by
  unfold push joined
  rw [read]
  dsimp only
  split
  · rfl
  · rename_i busy
    obtain ⟨same, total⟩ := joins.resolve_left busy
    rw [if_neg (not_not.2 same), if_neg (not_not.2 total)]

/-- `push` never leaves the vectors, and does one of these things. -/
theorem push_cases (inv : c.Inv) (frame : Bytes) :
    ∃ r c', c.push frame = some (r, c') ∧ Pushed c frame r c' := by
  cases read : parse c.attMtu frame with
  | error e =>
    refine ⟨.error e, c, ?_, .unreadable e read⟩
    rw [push, read]
  | ok p =>
    obtain ⟨h, payload⟩ := p
    by_cases joins : c.Joins h
    · have fits := (parse_ok_iff.1 read).2
      obtain ⟨assembling, total⟩ := joins.assembling inv fits
      have inside := fits.inside
      obtain ⟨ran, bytes, received, i, result, filled⟩ := @fill_spec h.offset.toNat payload
        (c.joined h).bytes (c.joined h).received
        (by rw [assembling.bytes, total]; exact inside)
        (by rw [assembling.received, assembling.bytes])
      rw [push_eq c read joins, accept, result]
      simp only [Option.bind_eq_bind, Option.bind_some]
      cases ran with
      | false => exact ⟨_, _, rfl, .clash h payload bytes received i read joins filled⟩
      | true =>
        cases all : received.all id with
        | false => exact ⟨_, _, rfl, .more h payload bytes received i read joins filled all⟩
        | true =>
          refine ⟨.ok (some bytes), c.reset, ?_, .complete h payload bytes received i read joins
            filled all⟩
          rw [← joined_reset (c := c) (h := h)]
          rfl
    · unfold push
      rw [read]
      dsimp only
      have busy : c.messageId ≠ none := fun none => joins (.inl none)
      rw [if_neg busy]
      by_cases differs : c.messageId ≠ some h.messageId
      · rw [if_pos differs]
        exact ⟨_, _, rfl, .busy h payload read joins differs⟩
      · rw [if_neg differs]
        rw [not_not] at differs
        have other : c.total ≠ h.total.toNat := fun same => joins (.inr ⟨differs, same⟩)
        rw [if_pos other]
        exact ⟨_, _, rfl, .mismatch h payload read joins differs⟩

section Written
variable {h : FragmentHeader} {frame payload bytes : Bytes} {received : List Bool} {ran : Bool}
  {i attMtu : Nat}

/-- What the loop leaves is still a message of the same size. -/
theorem Filled.assembling (filled : Filled h.offset.toNat payload c.bytes c.received ran bytes
    received i) (assembling : c.Assembling h.messageId) (fits : Fits attMtu h payload)
    (total : c.total = h.total.toNat) : (c.written bytes received).Assembling h.messageId := by
  have bound := filled.bound
  have inside := fits.inside
  refine ⟨assembling.messageId, assembling.total, assembling.bound, ?_, ?_⟩
  · change bytes.length = c.total
    rw [filled.bytes, length_splice, assembling.bytes]
    rw [assembling.bytes, total, List.length_take]
    omega
  · change received.length = c.total
    rw [filled.received, length_splice, assembling.received]
    rw [assembling.received, total, List.length_replicate]
    omega

/-- What is known after the loop. -/
theorem Filled.view (filled : Filled h.offset.toNat payload c.bytes c.received ran bytes received i)
    (assembling : c.Assembling h.messageId) (fits : Fits attMtu h payload)
    (total : c.total = h.total.toNat) :
    known bytes received = c.view.overlay h.offset.toNat (payload.take i) := by
  have bound := filled.bound
  have inside := fits.inside
  have length : (payload.take i).length = i := by
    rw [List.length_take]
    omega
  have whole := @known_splice h.offset.toNat (payload.take i) c.bytes c.received
    (by rw [assembling.bytes, total, length]; omega)
    (by rw [assembling.received, assembling.bytes])
  rw [length] at whole
  rw [filled.bytes, filled.received]
  exact whole

theorem Pushed.inv (pushed : Pushed c frame r c') (inv : c.Inv) : c'.Inv := by
  have joined : ∀ {h : FragmentHeader} {payload bytes : Bytes} {received : List Bool} {ran : Bool}
      {i : Nat}, parse c.attMtu frame = .ok (h, payload) → c.Joins h →
      Filled h.offset.toNat payload (c.joined h).bytes (c.joined h).received ran bytes received i →
      ((c.joined h).written bytes received).Inv := by
    intro h payload bytes received ran i read joins filled
    have fits := (parse_ok_iff.1 read).2
    obtain ⟨assembling, total⟩ := joins.assembling inv fits
    refine ⟨?_, ?_, .inr ⟨_, filled.assembling assembling fits total⟩⟩
    · change minAttMtu ≤ (c.joined h).attMtu
      rw [joined_attMtu]
      exact inv.mtu
    · change (c.joined h).nextId ≠ 0
      rw [joined_nextId]
      exact inv.nextId
  cases pushed with
  | unreadable | busy | mismatch => exact inv
  | clash _ _ _ _ _ read joins filled => exact joined read joins filled
  | more _ _ _ _ _ read joins filled => exact joined read joins filled
  | complete => exact inv.reset

end Written

/-- The codecs that the interface can produce. -/
inductive Reachable : BleCodec → Prop
  | default : Reachable .default
  | withMtu {d : BleCodec} {attMtu : Nat} (ok : withMtu attMtu = .ok d) : Reachable d
  | encode {d : BleCodec} (h : Reachable d) (message : Bytes) : Reachable (d.encode message).2
  | push {d d' : BleCodec} {frame : Bytes} {r : Except TransportError (Option Bytes)}
      (h : Reachable d) (pushed : d.push frame = some (r, d')) : Reachable d'
  | setMtu {d : BleCodec} (h : Reachable d) (attMtu : Nat) : Reachable (d.setMtu attMtu).2
  | reset {d : BleCodec} (h : Reachable d) : Reachable d.reset

theorem nextId_ne_zero (x : UInt16) : max (x + 1) 1 ≠ 0 := by
  change (if x + 1 ≤ 1 then 1 else x + 1) ≠ 0
  split
  · decide
  · rename_i above
    intro zero
    rw [zero] at above
    exact above (by decide)

/-- The reassembly does not depend on the size of the link and on the next id. -/
theorem Inv.renewed (inv : c.Inv) {attMtu : Nat} {nextId : UInt16} (enough : minAttMtu ≤ attMtu)
    (nonzero : nextId ≠ 0) : ({ c with attMtu, nextId } : BleCodec).Inv := by
  refine ⟨enough, nonzero, ?_⟩
  rcases inv.state with idle | ⟨id, assembling⟩
  · exact .inl ⟨idle.messageId, idle.total, idle.bytes, idle.received⟩
  · exact .inr ⟨id, assembling.messageId, assembling.total, assembling.bound, assembling.bytes,
      assembling.received⟩

theorem Inv.encode (inv : c.Inv) (message : Bytes) : (c.encode message).2.Inv := by
  unfold BleCodec.encode
  split
  · exact inv
  · exact inv.renewed inv.mtu (nextId_ne_zero _)

theorem Inv.setMtu (inv : c.Inv) (attMtu : Nat) : (c.setMtu attMtu).2.Inv := by
  unfold BleCodec.setMtu
  split
  · exact inv
  · rename_i enough
    exact inv.renewed (Nat.not_lt.1 enough) inv.nextId

theorem Reachable.inv (h : Reachable c) : c.Inv := by
  induction h with
  | default => exact ⟨Nat.le_refl _, by decide, .inl ⟨rfl, rfl, rfl, rfl⟩⟩
  | withMtu ok =>
    unfold BleCodec.withMtu at ok
    split at ok
    · cases ok
    · rename_i enough
      cases ok
      exact ⟨Nat.not_lt.1 enough, show (1 : UInt16) ≠ 0 by decide, .inl ⟨rfl, rfl, rfl, rfl⟩⟩
  | encode _ message ih => exact ih.encode message
  | push _ pushed ih =>
    obtain ⟨r, c', result, cases⟩ := push_cases ih _
    cases result.symm.trans pushed
    exact cases.inv ih
  | setMtu _ attMtu ih => exact ih.setMtu attMtu
  | reset _ ih => exact ih.reset

section Encoding
variable {message : Bytes}

/-- The `i`-th piece of a message, as this codec cuts it. -/
def piece (c : BleCodec) (message : Bytes) (i : Nat) : Bytes :=
  (message.drop (i * c.payloadCapacity)).take c.payloadCapacity

def pieceHeader (c : BleCodec) (message : Bytes) (i : Nat) : FragmentHeader :=
  ⟨c.nextId, UInt16.ofNat (i * c.payloadCapacity), UInt16.ofNat message.length⟩

/-- The frames of a message. -/
def frames (c : BleCodec) (message : Bytes) : List Bytes :=
  (List.range ((message.length + c.payloadCapacity - 1) / c.payloadCapacity)).map fun i =>
    frameBytes (c.pieceHeader message i) (c.piece message i)

/-- A message that the codec can carry. -/
structure Sendable (message : Bytes) : Prop where
  nonempty : message ≠ []
  bound : message.length ≤ maxFrameMessage

theorem Sendable.length_pos (h : Sendable message) : 0 < message.length :=
  List.length_pos_iff.2 h.nonempty

/-- A readable frame of the message with this id. -/
structure FrameOf (attMtu : Nat) (id : UInt16) (message : Bytes) (h : FragmentHeader)
    (payload : Bytes) : Prop where
  fits : Fits attMtu h payload
  messageId : h.messageId = id
  total : h.total.toNat = message.length
  carries : Known.Carries message h.offset.toNat payload

theorem offset_toNat (sendable : Sendable message)
    (inside : i * c.payloadCapacity < message.length) :
    (c.pieceHeader message i).offset.toNat = i * c.payloadCapacity := by
  have bound := sendable.bound
  unfold maxFrameMessage at bound
  change (UInt16.ofNat _).toNat = _
  rw [UInt16.toNat_ofNat', Nat.mod_eq_of_lt (by omega)]

theorem total_toNat (sendable : Sendable message) (i : Nat) :
    (c.pieceHeader message i).total.toNat = message.length := by
  have bound := sendable.bound
  unfold maxFrameMessage at bound
  change (UInt16.ofNat _).toNat = _
  rw [UInt16.toNat_ofNat', Nat.mod_eq_of_lt (by omega)]

/-- Every piece makes a readable frame. -/
theorem Inv.frameOf (inv : c.Inv) (sendable : Sendable message)
    (inside : i * c.payloadCapacity < message.length) :
    FrameOf c.attMtu c.nextId message (c.pieceHeader message i) (c.piece message i) := by
  have positive : 0 < c.payloadCapacity := capacity_pos inv.mtu
  have length : (c.piece message i).length =
      min c.payloadCapacity (message.length - i * c.payloadCapacity) := length_chunk i
  have offset := offset_toNat sendable inside
  have total := total_toNat (c := c) sendable i
  refine ⟨⟨?_, ?_, ?_, ?_, ?_⟩, rfl, total, ?_⟩
  · intro empty
    rw [empty, List.length_nil] at length
    omega
  · rw [length]
    exact Nat.min_le_left _ _
  · rw [total]
    exact sendable.length_pos
  · rw [total]
    exact sendable.bound
  · rw [total, offset, length]
    omega
  · rw [offset]
    exact carries_chunk i

theorem mapM_ok {α β ε : Type} {f : α → Except ε β} {g : α → β} {l : List α}
    (all : ∀ x ∈ l, f x = .ok (g x)) : l.mapM f = .ok (l.map g) := by
  induction l with
  | nil => rfl
  | cons x l ih =>
    obtain ⟨first, rest⟩ := List.forall_mem_cons.1 all
    rw [List.mapM_cons, first, ih rest]
    rfl

theorem zipIdx_chunks (size : Nat) : (chunks size message).zipIdx =
    (List.range ((message.length + size - 1) / size)).map fun i =>
      ((message.drop (i * size)).take size, i) := by
  apply List.ext_getElem?
  intro i
  rw [List.getElem?_zipIdx, chunks, List.getElem?_map, List.getElem?_map, Option.map_map]
  by_cases bound : i < (message.length + size - 1) / size
  · simp [bound]
  · simp [bound]

theorem Inv.encode_eq (inv : c.Inv) (sendable : Sendable message) :
    c.encode message = (.ok (c.frames message), { c with nextId := max (c.nextId + 1) 1 }) := by
  have positive : 0 < c.payloadCapacity := capacity_pos inv.mtu
  unfold BleCodec.encode
  rw [if_neg]
  · dsimp only
    congr 1
    rw [zipIdx_chunks, frames]
    refine (mapM_ok (g := fun p => frameBytes (c.pieceHeader message p.2) (c.piece message p.2))
      ?_).trans ?_
    · intro p member
      obtain ⟨i, bound, rfl⟩ := List.mem_map.1 member
      exact (inv.frameOf sendable ((chunk_lt positive).1 (List.mem_range.1 bound))).fits.frame
    · rw [List.map_map]
      rfl
  · push Not
    exact ⟨sendable.nonempty, sendable.bound⟩

theorem mem_frames (inv : c.Inv) {frame : Bytes} : frame ∈ c.frames message ↔
    ∃ i, i * c.payloadCapacity < message.length
      ∧ frame = frameBytes (c.pieceHeader message i) (c.piece message i) := by
  have positive : 0 < c.payloadCapacity := capacity_pos inv.mtu
  unfold frames
  simp only [List.mem_map, List.mem_range, chunk_lt positive, eq_comm]

end Encoding

section Gathering
variable {id : UInt16} {message : Bytes} {got : Nat → Prop}

/-- The codec holds exactly the positions `got` of a message. -/
structure Gathering (c : BleCodec) (id : UInt16) (message : Bytes) (got : Nat → Prop) : Prop where
  assembling : c.Assembling id
  total : c.total = message.length
  of : c.view.Of message
  got : ∀ k, (c.view k).isSome ↔ got k

/-- Nothing of the message has arrived, or the codec gathers it. -/
def Holding (c : BleCodec) (id : UInt16) (message : Bytes) (got : Nat → Prop) : Prop :=
  (c.Idle ∧ ∀ k, ¬ got k) ∨ c.Gathering id message got

variable {h : FragmentHeader} {payload : Bytes}

theorem Holding.joins (holding : c.Holding id message got)
    (frame : FrameOf attMtu id message h payload) : c.Joins h := by
  rcases holding with ⟨idle, _⟩ | gathering
  · exact .inl idle.messageId
  · refine .inr ⟨?_, gathering.total.trans frame.total.symm⟩
    rw [frame.messageId]
    exact gathering.assembling.messageId

theorem Holding.joined (holding : c.Holding id message got)
    (frame : FrameOf attMtu id message h payload) : (c.joined h).Gathering id message got := by
  rcases holding with ⟨idle, nothing⟩ | gathering
  · have begins : c.joined h = c.begin h := if_pos idle.messageId
    rw [begins]
    refine ⟨⟨congrArg some frame.messageId, frame.fits.total, frame.fits.bound, ?_, ?_⟩,
      frame.total, fun k x found => ?_, fun k => ?_⟩
    · exact List.length_replicate
    · exact List.length_replicate
    · rw [view_begin] at found
      cases found
    · rw [view_begin]
      simp [nothing k]
  · have busy : c.messageId ≠ none := by
      rw [gathering.assembling.messageId]
      simp
    have same : c.joined h = c := if_neg busy
    rwa [same]

/-- The positions that a frame carries. -/
def Covers (h : FragmentHeader) (payload : Bytes) (k : Nat) : Prop :=
  h.offset.toNat ≤ k ∧ k < h.offset.toNat + payload.length

/-- After the loop of a frame of the message. -/
theorem Gathering.filled {bytes : Bytes} {received : List Bool} {i attMtu : Nat}
    (gathering : c.Gathering id message got) (frame : FrameOf attMtu id message h payload)
    (filled : Filled h.offset.toNat payload c.bytes c.received true bytes received i) :
    (c.written bytes received).Gathering id message fun k => Covers h payload k ∨ got k := by
  have total : c.total = h.total.toNat := gathering.total.trans frame.total.symm
  have assembling := gathering.assembling
  rw [← frame.messageId] at assembling
  have view : (c.written bytes received).view = c.view.overlay h.offset.toNat payload := by
    have whole := filled.view assembling frame.fits total
    rw [show i = payload.length from filled.stopped, List.take_length] at whole
    exact whole
  have after := filled.assembling assembling frame.fits total
  rw [frame.messageId] at after
  refine ⟨after, gathering.total, ?_, fun k => ?_⟩
  · rw [view]
    exact gathering.of.overlay frame.carries
  · rw [view, Known.isSome_overlay, gathering.got]
    rfl

/-- A codec that has received every position knows the message. -/
theorem Gathering.message_eq (gathering : c.Gathering id message got)
    (all : c.received.all (fun b => b) = true) : c.bytes = message := by
  have same : c.received.length = c.bytes.length :=
    gathering.assembling.received.trans gathering.assembling.bytes.symm
  have length : c.bytes.length = message.length :=
    gathering.assembling.bytes.trans gathering.total
  apply List.ext_getElem?
  intro k
  by_cases bound : k < c.bytes.length
  · have here : c.bytes[k]? = some c.bytes[k] := List.getElem?_eq_getElem bound
    have known : c.view k = some c.bytes[k] := by
      rw [BleCodec.view, known_of_all all same, here]
    rw [here, gathering.of k _ known]
  · rw [List.getElem?_eq_none (Nat.not_lt.1 bound), List.getElem?_eq_none (by omega)]

theorem Gathering.all_iff (gathering : c.Gathering id message got) :
    c.received.all (fun b => b) = true ↔ ∀ k < message.length, got k := by
  have length : c.received.length = message.length :=
    gathering.assembling.received.trans gathering.total
  have same : c.received.length = c.bytes.length :=
    gathering.assembling.received.trans gathering.assembling.bytes.symm
  constructor
  · intro all k bound
    rw [← gathering.got, BleCodec.view, known_isSome_iff same,
      List.getElem?_eq_getElem (by omega)]
    exact congrArg some (List.all_eq_true.1 all _ (List.getElem_mem _))
  · intro covered
    refine List.all_eq_true.2 fun b member => ?_
    obtain ⟨k, bound, rfl⟩ := List.getElem_of_mem member
    have here := covered k (by omega)
    rw [← gathering.got, BleCodec.view, known_isSome_iff same, List.getElem?_eq_getElem bound] at here
    exact Option.some.inj here

/-- A frame of the message is always taken in. The message is returned once every position
of it has arrived. -/
theorem Holding.push (holding : c.Holding id message got) (inv : c.Inv)
    (frame : FrameOf c.attMtu id message h payload) :
    ((∀ k < message.length, Covers h payload k ∨ got k) →
      c.push (frameBytes h payload) = some (.ok (some message), c.reset))
    ∧ ((¬ ∀ k < message.length, Covers h payload k ∨ got k) →
      ∃ c', c.push (frameBytes h payload) = some (.ok none, c')
        ∧ c'.Gathering id message (fun k => Covers h payload k ∨ got k)
        ∧ c'.attMtu = c.attMtu ∧ c'.reset = c.reset) := by
  have read := parse_frameBytes frame.fits
  have joins := holding.joins frame
  have joined := holding.joined frame
  obtain ⟨r, c', result, pushed⟩ := push_cases inv (frameBytes h payload)
  rw [result]
  cases pushed with
  | unreadable e bad => cases read.symm.trans bad
  | busy _ _ read' other | mismatch _ _ read' other =>
    cases read.symm.trans read'
    exact absurd joins other
  | clash _ _ bytes received i read' _ filled =>
    cases read.symm.trans read'
    exact absurd filled.stopped (joined.of.no_clash frame.carries i)
  | more _ _ bytes received i read' _ filled missing =>
    cases read.symm.trans read'
    have gathering := joined.filled frame filled
    refine ⟨fun all => ?_, fun _ => ⟨_, rfl, gathering, joined_attMtu, joined_reset⟩⟩
    have whole := gathering.all_iff.2 all
    exact absurd (whole.symm.trans missing) (by decide)
  | complete _ _ bytes received i read' _ filled all =>
    cases read.symm.trans read'
    have gathering := joined.filled frame filled
    refine ⟨fun _ => ?_, fun missing => absurd (gathering.all_iff.1 all) missing⟩
    rw [show bytes = message from gathering.message_eq all]

end Gathering

section Pieces
variable {message : Bytes} {arrived : Nat → Prop} {sender : BleCodec}

/-- The positions that the pieces in `arrived` carry. -/
def Arrived (sender : BleCodec) (message : Bytes) (arrived : Nat → Prop) (k : Nat) : Prop :=
  ∃ i, arrived i ∧ i * sender.payloadCapacity < message.length
    ∧ Covers (sender.pieceHeader message i) (sender.piece message i) k

theorem covers_piece (sendable : Sendable message) {i k : Nat}
    (inside : i * sender.payloadCapacity < message.length) :
    Covers (sender.pieceHeader message i) (sender.piece message i) k ↔
      i * sender.payloadCapacity ≤ k ∧ k < (i + 1) * sender.payloadCapacity
        ∧ k < message.length := by
  have length : (sender.piece message i).length =
      min sender.payloadCapacity (message.length - i * sender.payloadCapacity) := length_chunk i
  unfold Covers
  rw [offset_toNat sendable inside, length, Nat.succ_mul]
  omega

/-- Every position has arrived exactly when every piece has. -/
theorem arrived_all_iff (inv : sender.Inv) (sendable : Sendable message) :
    (∀ k < message.length, Arrived sender message arrived k) ↔
      ∀ i, i * sender.payloadCapacity < message.length → arrived i := by
  have positive : 0 < sender.payloadCapacity := capacity_pos inv.mtu
  constructor
  · intro all i inside
    obtain ⟨j, here, bound, covers⟩ := all _ inside
    obtain ⟨low, high, _⟩ := (covers_piece sendable bound).1 covers
    have le : j ≤ i := Nat.le_of_mul_le_mul_right low positive
    have lt : i < j + 1 := Nat.lt_of_mul_lt_mul_right high
    obtain rfl : i = j := by omega
    exact here
  · intro all k bound
    have low := Nat.div_mul_le_self k sender.payloadCapacity
    have inside : k / sender.payloadCapacity * sender.payloadCapacity < message.length := by omega
    refine ⟨k / sender.payloadCapacity, all _ inside, inside, (covers_piece sendable inside).2 ?_⟩
    exact ⟨low, Nat.lt_mul_of_div_lt (Nat.lt_succ_self _) positive, bound⟩

theorem arrived_insert (inside : i * sender.payloadCapacity < message.length) (k : Nat) :
    Covers (sender.pieceHeader message i) (sender.piece message i) k
        ∨ Arrived sender message arrived k ↔
      Arrived sender message (fun j => j = i ∨ arrived j) k := by
  constructor
  · rintro (covers | ⟨j, here, rest⟩)
    · exact ⟨i, .inl rfl, inside, covers⟩
    · exact ⟨j, .inr here, rest⟩
  · rintro ⟨j, rfl | here, bound, covers⟩
    · exact .inl covers
    · exact .inr ⟨j, here, bound, covers⟩

/-- A piece of the message arrives, for the first time or again. -/
theorem Holding.piece (holding : c.Holding sender.nextId message (Arrived sender message arrived))
    (inv : c.Inv) (mtu : c.attMtu = sender.attMtu) (sends : sender.Inv)
    (sendable : Sendable message) (inside : i * sender.payloadCapacity < message.length) :
    ((∀ j, j * sender.payloadCapacity < message.length → j = i ∨ arrived j) →
      c.push (frameBytes (sender.pieceHeader message i) (sender.piece message i))
        = some (.ok (some message), c.reset))
    ∧ ((¬ ∀ j, j * sender.payloadCapacity < message.length → j = i ∨ arrived j) →
      ∃ c', c.push (frameBytes (sender.pieceHeader message i) (sender.piece message i))
          = some (.ok none, c')
        ∧ c'.Gathering sender.nextId message (Arrived sender message fun j => j = i ∨ arrived j)
        ∧ c'.attMtu = c.attMtu ∧ c'.reset = c.reset) := by
  have frame := sends.frameOf sendable inside
  rw [← mtu] at frame
  have pushed := holding.push inv frame
  simp only [arrived_insert inside] at pushed
  rwa [arrived_all_iff sends sendable] at pushed

/-- Different pieces make different frames. -/
theorem piece_injective (sends : sender.Inv) (sendable : Sendable message) {i j : Nat}
    (inside : i * sender.payloadCapacity < message.length)
    (inside' : j * sender.payloadCapacity < message.length)
    (same : frameBytes (sender.pieceHeader message i) (sender.piece message i)
      = frameBytes (sender.pieceHeader message j) (sender.piece message j)) : i = j := by
  have positive : 0 < sender.payloadCapacity := capacity_pos sends.mtu
  have read := parse_frameBytes (sends.frameOf sendable inside).fits
  rw [same, parse_frameBytes (sends.frameOf sendable inside').fits] at read
  have headers : sender.pieceHeader message j = sender.pieceHeader message i :=
    congrArg Prod.fst (Except.ok.inj read)
  have offsets : (sender.pieceHeader message j).offset.toNat
      = (sender.pieceHeader message i).offset.toNat := by rw [headers]
  rw [offset_toNat sendable inside, offset_toNat sendable inside'] at offsets
  exact (Nat.eq_of_mul_eq_mul_right positive offsets).symm

end Pieces

/-- Push frames one after another. -/
def pushAll (c : BleCodec) :
    List Bytes → Option (List (Except TransportError (Option Bytes)) × BleCodec)
  | [] => some ([], c)
  | frame :: frames => do
    let (r, c) ← c.push frame
    let (rs, c) ← c.pushAll frames
    some (r :: rs, c)

theorem pushAll_snoc {frames : List Bytes} {frame : Bytes} {d : BleCodec}
    {rs : List (Except TransportError (Option Bytes))} (before : c.pushAll frames = some (rs, c'))
    (last : c'.push frame = some (r, d)) :
    c.pushAll (frames ++ [frame]) = some (rs ++ [r], d) := by
  induction frames generalizing c rs with
  | nil =>
    cases before
    simp [pushAll, last]
  | cons first frames ih =>
    simp only [pushAll, Option.bind_eq_bind, Option.bind_eq_some_iff] at before
    obtain ⟨⟨r₁, c₁⟩, pushed, ⟨rs', c₂⟩, rest, result⟩ := before
    cases result
    simp [pushAll, pushed, ih rest]
end BleCodec
end OpenLock
