import OpenLock.Transport.Ble

/-! What the BLE codec does with any frames: those it refuses, and the messages it returns. -/
namespace OpenLock
open Codec BleCodec

variable {c : BleCodec} {h : FragmentHeader} {payload bytes : Bytes} {received : List Bool} {i : Nat}

section Rejections

/-- A frame that `push` refuses. -/
structure Rejection where
  codec : BleCodec
  reachable : codec.Reachable
  frame : Bytes
  error : TransportError
  after : BleCodec
  refused : codec.push frame = some (.error error, after)

/-- A byte that the codec has not seen yet stands before the first byte that contradicts it. -/
structure Smuggles (c : BleCodec) (frame : Bytes) (h : FragmentHeader) (payload : Bytes) (i j : Nat) :
    Prop where
  read : parse c.attMtu frame = .ok (h, payload)
  messageId : c.messageId = some h.messageId
  total : c.total = h.total.toNat
  clash : c.view.Clash h.offset.toNat payload i
  first : ∀ k < i, ¬ c.view.Clash h.offset.toNat payload k
  before : j < i
  unseen : c.received[h.offset.toNat + j]? ≠ some true

/-- A message that has just begun contradicts nothing. -/
theorem BleCodec.Filled.joined_eq (joins : c.Joins h)
    (filled : Filled h.offset.toNat payload (c.joined h).bytes (c.joined h).received false bytes
      received i) :
    c.joined h = c ∧ c.messageId = some h.messageId ∧ c.total = h.total.toNat := by
  rcases joins with none | same
  · have begins : c.joined h = c.begin h := if_pos none
    obtain ⟨x, _, found, _⟩ : (c.joined h).view.Clash h.offset.toNat payload i := filled.stopped
    rw [begins, view_begin] at found
    cases found
  · refine ⟨if_neg fun none => ?_, same⟩
    cases none.symm.trans same.1

/-- The loop leaves the vectors alone exactly when it has written nothing new. -/
theorem BleCodec.Filled.unchanged_iff (filled : Filled h.offset.toNat payload c.bytes c.received false bytes
    received i) (assembling : c.Assembling h.messageId) (inside : h.offset.toNat + i ≤ c.total) :
    c.written bytes received = c ↔ ∀ j < i, c.received[h.offset.toNat + j]? = some true := by
  have marks : splice c.received h.offset.toNat (List.replicate i true) = c.received ↔
      ∀ j < i, c.received[h.offset.toNat + j]? = some true := by
    rw [splice_eq_self (by rw [List.length_replicate, assembling.received]; exact inside)]
    simp only [List.length_replicate]
    refine forall₂_congr fun j low => ?_
    rw [List.getElem?_replicate, if_pos low]
  constructor
  · intro same
    have kept : received = c.received := congrArg BleCodec.received same
    rw [filled.received] at kept
    exact marks.1 kept
  · intro seen
    have length : (payload.take i).length = i := by
      rw [List.length_take]
      exact Nat.min_eq_left filled.bound
    have written : splice c.bytes h.offset.toNat (payload.take i) = c.bytes := by
      rw [splice_eq_self (by rw [length, assembling.bytes]; exact inside), length]
      intro j low
      obtain ⟨old, found⟩ : ∃ old, c.bytes[h.offset.toNat + j]? = some old :=
        ⟨_, List.getElem?_eq_getElem (by rw [assembling.bytes]; omega)⟩
      obtain ⟨new, carried⟩ : ∃ new, payload[j]? = some new :=
        ⟨_, List.getElem?_eq_getElem (by have := filled.bound; omega)⟩
      have known : c.view (h.offset.toNat + j) = some old := by
        rw [BleCodec.view, BleCodec.known, if_pos (seen j low), found]
      have agree : old = new := by
        by_contra differ
        exact filled.before j low ⟨old, new, known, carried, differ⟩
      rw [found, List.getElem?_take_of_lt low, carried, agree]
    unfold BleCodec.written
    rw [filled.bytes, filled.received, written, marks.2 seen]

/-- A refused frame changes the codec exactly when it carries a new byte before the first
byte that contradicts what was received. -/
theorem rejection_unchanged_iff (x : Rejection) :
    x.after = x.codec ↔ ¬ ∃ h payload i j, Smuggles x.codec x.frame h payload i j := by
  obtain ⟨c, reachable, frame, error, after, refused⟩ := x
  obtain ⟨r, c', result, pushed⟩ := push_cases reachable.inv frame
  cases result.symm.trans refused
  change after = c ↔ ¬ ∃ h payload i j, Smuggles c frame h payload i j
  have unread : ∀ {h payload}, parse c.attMtu frame = .ok (h, payload) → ¬ c.Joins h →
      ¬ ∃ h payload i j, Smuggles c frame h payload i j := by
    rintro h payload read other ⟨h', payload', i, j, smuggles⟩
    cases read.symm.trans smuggles.read
    exact other (.inr ⟨smuggles.messageId, smuggles.total⟩)
  cases pushed with
  | unreadable e bad =>
    refine iff_of_true rfl ?_
    rintro ⟨h, payload, i, j, smuggles⟩
    cases bad.symm.trans smuggles.read
  | busy h payload read other => exact iff_of_true rfl (unread read other)
  | mismatch h payload read other => exact iff_of_true rfl (unread read other)
  | clash h payload bytes received i read joins filled =>
    obtain ⟨same, messageId, total⟩ := filled.joined_eq joins
    have fits := (parse_ok_iff.1 read).2
    obtain ⟨assembling, _⟩ := joins.assembling reachable.inv fits
    rw [same] at filled assembling ⊢
    have bound := filled.bound
    have inside := fits.inside
    rw [filled.unchanged_iff assembling (by omega)]
    constructor
    · rintro seen ⟨h', payload', i', j, smuggles⟩
      cases read.symm.trans smuggles.read
      have place : i' = i := by
        rcases Nat.lt_trichotomy i' i with low | eq | high
        · exact absurd smuggles.clash (filled.before i' low)
        · exact eq
        · exact absurd filled.stopped (smuggles.first i high)
      subst place
      exact smuggles.unseen (seen j smuggles.before)
    · intro clean j low
      by_contra unseen
      exact clean ⟨h, payload, i, j, read, messageId, total, filled.stopped, filled.before, low,
        unseen⟩

namespace Overlap
/-! Three frames of one message at the default MTU; the second contradicts the first. -/

def first : Bytes := frameBytes ⟨1, 1, 3⟩ [7]
def forged : Bytes := frameBytes ⟨1, 0, 3⟩ [5, 8]
def genuine : Bytes := frameBytes ⟨1, 0, 3⟩ [6]

def started : BleCodec := ⟨23, 1, some 1, 3, [0, 7, 0], [false, true, false]⟩
def forgedInto : BleCodec := ⟨23, 1, some 1, 3, [5, 7, 0], [true, true, false]⟩

theorem pushes : BleCodec.default.push first = some (.ok none, started)
    ∧ started.push forged = some (.error .conflict, forgedInto) := by decide +kernel

def rejection : Rejection where
  codec := started
  reachable := .push .default pushes.1
  frame := forged
  error := .conflict
  after := forgedInto
  refused := pushes.2

/-- The refused frame has written a byte, on which a genuine frame then conflicts. -/
theorem forged_byte_stays : rejection.after ≠ rejection.codec
    ∧ (rejection.codec.push genuine).map Prod.fst = some (.ok none)
    ∧ (rejection.after.push genuine).map Prod.fst = some (.error .conflict) := by
  decide +kernel

end Overlap
end Rejections

section Monitored
/-! Any calls on one codec, with a log of the frames that reached the bytes of the message. -/

inductive BleOp where
  | push (frame : Bytes)
  | encode (message : Bytes)
  | setMtu (attMtu : Nat)
  | reset

/-- The frame, when its header lets it into the message being reassembled. -/
def BleCodec.processes (c : BleCodec) (frame : Bytes) : Option (FragmentHeader × Bytes) :=
  match parse c.attMtu frame with
  | .ok (h, payload) =>
    if c.messageId = none ∨ (c.messageId = some h.messageId ∧ c.total = h.total.toNat) then
      some (h, payload)
    else none
  | .error _ => none

/-- A codec and the frames processed since the last reset or completion. -/
structure Watch where
  codec : BleCodec
  log : List (FragmentHeader × Bytes)

/-- A message that `push` returned, with the frames processed for it. -/
structure Reassembled where
  message : Bytes
  log : List (FragmentHeader × Bytes)

def Watch.step (w : Watch) : BleOp → Option (List Reassembled × Watch)
  | .push frame => do
    let (r, codec) ← w.codec.push frame
    let log := w.log ++ (w.codec.processes frame).toList
    match r with
    | .ok (some message) => some ([⟨message, log⟩], ⟨codec, []⟩)
    | _ => some ([], ⟨codec, log⟩)
  | .encode message => some ([], { w with codec := (w.codec.encode message).2 })
  | .setMtu attMtu => some ([], { w with codec := (w.codec.setMtu attMtu).2 })
  | .reset => some ([], ⟨w.codec.reset, []⟩)

def Watch.run (w : Watch) : List BleOp → Option (List Reassembled × Watch)
  | [] => some ([], w)
  | op :: ops => do
    let (first, w) ← w.step op
    let (rest, w) ← w.run ops
    some (first ++ rest, w)

/-- A frame of the log has this byte at this position of the message. -/
def CarriedBy (log : List (FragmentHeader × Bytes)) (k : Nat) (x : UInt8) : Prop :=
  ∃ q ∈ log, q.1.offset.toNat ≤ k ∧ q.2[k - q.1.offset.toNat]? = some x

/-- The message has the announced size, and every byte of it was carried at its place. -/
def Reassembled.Explained (r : Reassembled) : Prop :=
  (∃ id, ∀ q ∈ r.log, q.1.messageId = id ∧ q.1.total.toNat = r.message.length)
    ∧ ∀ k x, r.message[k]? = some x → CarriedBy r.log k x

/-- The log explains all that the codec knows. -/
structure Watch.Sound (w : Watch) : Prop where
  inv : w.codec.Inv
  idle : w.codec.messageId = none → w.log = []
  sized : ∀ id, w.codec.messageId = some id →
    ∀ q ∈ w.log, q.1.messageId = id ∧ q.1.total.toNat = w.codec.total
  carried : ∀ k x, w.codec.view k = some x → CarriedBy w.log k x

theorem CarriedBy.later {log more : List (FragmentHeader × Bytes)} {k : Nat} {x : UInt8}
    (h : CarriedBy log k x) : CarriedBy (log ++ more) k x := by
  obtain ⟨q, member, place⟩ := h
  exact ⟨q, List.mem_append_left _ member, place⟩

variable {w : Watch} {frame : Bytes} {ran : Bool}

theorem processes_of_joins (read : parse c.attMtu frame = .ok (h, payload)) (joins : c.Joins h) :
    c.processes frame = some (h, payload) := by
  unfold BleCodec.processes
  rw [read]
  exact if_pos joins

theorem processes_of_not_joins (read : parse c.attMtu frame = .ok (h, payload))
    (other : ¬ c.Joins h) : c.processes frame = none := by
  unfold BleCodec.processes
  rw [read]
  exact if_neg other

/-- What the loop writes is carried by the frame, and what it leaves by an earlier one. -/
theorem Watch.Sound.written (sound : w.Sound) (read : parse w.codec.attMtu frame = .ok (h, payload))
    (joins : w.codec.Joins h)
    (filled : Filled h.offset.toNat payload (w.codec.joined h).bytes (w.codec.joined h).received ran
      bytes received i) (k : Nat) (x : UInt8) (found : BleCodec.known bytes received k = some x) :
    CarriedBy (w.log ++ [(h, payload)]) k x := by
  have fits := (parse_ok_iff.1 read).2
  obtain ⟨assembling, total⟩ := joins.assembling sound.inv fits
  rw [filled.view assembling fits total, Known.overlay] at found
  split at found
  · rename_i inside
    refine ⟨(h, payload), by simp, inside.1, ?_⟩
    have within : k - h.offset.toNat < i := by
      have length := inside.2
      rw [List.length_take] at length
      omega
    rwa [List.getElem?_take_of_lt within] at found
  · rw [BleCodec.joined] at found
    split at found
    · rw [view_begin] at found
      cases found
    · exact (sound.carried k x found).later

theorem Watch.Sound.sizes (sound : w.Sound) (joins : w.codec.Joins h) (payload : Bytes) :
    ∀ q ∈ w.log ++ [(h, payload)], q.1.messageId = h.messageId ∧ q.1.total = h.total := by
  intro q member
  rcases List.mem_append.1 member with old | new
  · rcases joins with none | ⟨same, total⟩
    · rw [sound.idle none] at old
      cases old
    · obtain ⟨id, sized⟩ := sound.sized _ same q old
      exact ⟨id, UInt16.toNat_inj.1 (sized.trans total)⟩
  · cases List.mem_singleton.1 new
    exact ⟨rfl, rfl⟩

/-- After the loop of a frame that did not complete the message. -/
theorem Watch.Sound.unfinished (sound : w.Sound)
    (read : parse w.codec.attMtu frame = .ok (h, payload)) (joins : w.codec.Joins h)
    (filled : Filled h.offset.toNat payload (w.codec.joined h).bytes (w.codec.joined h).received ran
      bytes received i) (inv : ((w.codec.joined h).written bytes received).Inv) :
    Watch.Sound ⟨(w.codec.joined h).written bytes received, w.log ++ [(h, payload)]⟩ := by
  obtain ⟨assembling, total⟩ := joins.assembling sound.inv (parse_ok_iff.1 read).2
  refine ⟨inv, fun none => ?_, fun id same q member => ?_, sound.written read joins filled⟩
  · cases none.symm.trans assembling.messageId
  · cases assembling.messageId.symm.trans same
    obtain ⟨sameId, sameTotal⟩ := sound.sizes joins payload q member
    refine ⟨sameId, ?_⟩
    rw [sameTotal]
    exact total.symm

theorem Watch.Sound.completed (sound : w.Sound)
    (read : parse w.codec.attMtu frame = .ok (h, payload)) (joins : w.codec.Joins h)
    (filled : Filled h.offset.toNat payload (w.codec.joined h).bytes (w.codec.joined h).received true
      bytes received i) (all : received.all id = true) :
    Reassembled.Explained ⟨bytes, w.log ++ [(h, payload)]⟩ := by
  have fits := (parse_ok_iff.1 read).2
  obtain ⟨assembling, total⟩ := joins.assembling sound.inv fits
  have after := filled.assembling assembling fits total
  have size : bytes.length = h.total.toNat := after.bytes.trans total
  constructor
  · refine ⟨h.messageId, fun q member => ?_⟩
    obtain ⟨sameId, sameTotal⟩ := sound.sizes joins payload q member
    refine ⟨sameId, ?_⟩
    rw [sameTotal, size]
  · intro k x found
    have same : received.length = bytes.length := after.received.trans after.bytes.symm
    refine sound.written read joins filled k x ?_
    rw [known_of_all all same]
    exact found

theorem Watch.Sound.reset (inv : w.codec.Inv) : Watch.Sound ⟨w.codec.reset, []⟩ := by
  refine ⟨inv.reset, fun _ => rfl, fun id same => (by cases same), fun k x found => ?_⟩
  rw [BleCodec.view, known_none_of_not_received] at found
  · cases found
  · simp [BleCodec.reset]

/-- The sender's side of a codec does not matter. -/
theorem Watch.Sound.same {d : BleCodec} (sound : w.Sound) (inv : d.Inv)
    (same : d.messageId = w.codec.messageId ∧ d.total = w.codec.total ∧ d.view = w.codec.view) :
    Watch.Sound ⟨d, w.log⟩ := by
  obtain ⟨id, total, view⟩ := same
  refine ⟨inv, ?_, ?_, ?_⟩
  · rw [id]
    exact sound.idle
  · rw [id, total]
    exact sound.sized
  · rw [view]
    exact sound.carried

/-- One call: it stays inside the vectors, and the log keeps explaining the codec. -/
theorem Watch.Sound.step (sound : w.Sound) (op : BleOp) :
    ∃ out w', w.step op = some (out, w') ∧ w'.Sound ∧ ∀ r ∈ out, r.Explained := by
  have quiet : ∀ r ∈ ([] : List Reassembled), r.Explained := fun r member => by cases member
  cases op with
  | encode message =>
    refine ⟨[], _, rfl, sound.same (sound.inv.encode message) ?_, quiet⟩
    unfold BleCodec.encode
    split <;> exact ⟨rfl, rfl, rfl⟩
  | setMtu attMtu =>
    refine ⟨[], _, rfl, sound.same (sound.inv.setMtu attMtu) ?_, quiet⟩
    unfold BleCodec.setMtu
    split <;> exact ⟨rfl, rfl, rfl⟩
  | reset => exact ⟨[], _, rfl, .reset sound.inv, quiet⟩
  | push frame =>
    obtain ⟨r, c', result, pushed⟩ := push_cases sound.inv frame
    have inv := pushed.inv sound.inv
    unfold Watch.step
    simp only [result, Option.bind_eq_bind, Option.bind_some]
    cases pushed with
    | unreadable e bad =>
      have none : w.codec.processes frame = none := by
        unfold BleCodec.processes
        rw [bad]
      rw [none]
      refine ⟨[], _, rfl, ?_, quiet⟩
      simpa using sound
    | busy _ _ read other =>
      rw [processes_of_not_joins read other]
      refine ⟨[], _, rfl, ?_, quiet⟩
      simpa using sound
    | mismatch _ _ read other =>
      rw [processes_of_not_joins read other]
      refine ⟨[], _, rfl, ?_, quiet⟩
      simpa using sound
    | clash h payload bytes received i read joins filled =>
      rw [processes_of_joins read joins]
      exact ⟨[], _, rfl, sound.unfinished read joins filled inv, quiet⟩
    | more h payload bytes received i read joins filled =>
      rw [processes_of_joins read joins]
      exact ⟨[], _, rfl, sound.unfinished read joins filled inv, quiet⟩
    | complete h payload bytes received i read joins filled all =>
      rw [processes_of_joins read joins]
      refine ⟨_, _, rfl, .reset sound.inv, fun r member => ?_⟩
      cases List.mem_singleton.1 member
      exact sound.completed read joins filled all

theorem Watch.Sound.run (sound : w.Sound) (ops : List BleOp) :
    ∃ out w', w.run ops = some (out, w') ∧ w'.Sound ∧ ∀ r ∈ out, r.Explained := by
  induction ops generalizing w with
  | nil => exact ⟨[], w, rfl, sound, fun r member => by cases member⟩
  | cons op ops ih =>
    obtain ⟨first, w₁, stepped, sound₁, explained⟩ := sound.step op
    obtain ⟨rest, w₂, ran, sound₂, more⟩ := ih sound₁
    refine ⟨first ++ rest, w₂, ?_, sound₂, fun r member => ?_⟩
    · rw [Watch.run, stepped]
      simp only [Option.bind_eq_bind, Option.bind_some, ran]
    · exact (List.mem_append.1 member).elim (explained r) (more r)

/-- A codec as its constructors make it. -/
inductive BleCodec.Fresh : BleCodec → Prop
  | default : Fresh .default
  | withMtu {d : BleCodec} {attMtu : Nat} (ok : BleCodec.withMtu attMtu = .ok d) : Fresh d

theorem BleCodec.Fresh.sound (fresh : c.Fresh) : Watch.Sound ⟨c, []⟩ := by
  have idle : c.reset = c := by
    cases fresh with
    | default => rfl
    | withMtu ok =>
      unfold BleCodec.withMtu at ok
      split at ok
      · cases ok
      · cases ok
        rfl
  have inv : c.Inv := by
    cases fresh with
    | default => exact Reachable.default.inv
    | withMtu ok => exact (Reachable.withMtu ok).inv
  have sound : Watch.Sound ⟨c.reset, []⟩ := .reset (w := ⟨c, []⟩) inv
  rwa [idle] at sound

/-- A codec that has been through any calls. -/
structure BleCalls where
  start : BleCodec
  fresh : start.Fresh
  ops : List BleOp

/-- Whatever is pushed, the codec stays inside its vectors, a message in progress has its
announced size, and a message is returned only with bytes that its frames carried. -/
theorem reassembly_invents_nothing (x : BleCalls) :
    ∃ out w, Watch.run ⟨x.start, []⟩ x.ops = some (out, w)
      ∧ (∀ id, w.codec.messageId = some id → w.codec.bytes.length = w.codec.total
        ∧ w.codec.received.length = w.codec.total ∧ 1 ≤ w.codec.total ∧ w.codec.total ≤ 4096)
      ∧ ∀ r ∈ out, r.Explained := by
  obtain ⟨out, w, ran, sound, explained⟩ := x.fresh.sound.run x.ops
  refine ⟨out, w, ran, fun id busy => ?_, explained⟩
  rcases sound.inv.state with idle | ⟨id', assembling⟩
  · cases idle.messageId.symm.trans busy
  · exact ⟨assembling.bytes, assembling.received, assembling.total, assembling.bound⟩

end Monitored

end OpenLock
