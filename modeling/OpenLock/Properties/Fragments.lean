import OpenLock.Transport.Ble

/-! Messages over BLE: one message in any order of its frames, and several messages with
repeated frames. -/
namespace OpenLock
open Codec BleCodec

section Crossings

/-- One message on its way between two codecs of the same MTU, the receiver idle. -/
structure Crossing where
  sender : BleCodec
  receiver : BleCodec
  sends : sender.Reachable
  receives : receiver.Reachable
  idle : receiver.Idle
  mtu : receiver.attMtu = sender.attMtu
  message : Bytes
  sendable : Sendable message

/-- The receiver after some of the frames, while one is missing. -/
theorem Crossing.gathers (x : Crossing) (pushes : List Bytes)
    (sent : ∀ frame ∈ pushes, frame ∈ x.sender.frames x.message)
    (missing : ∃ frame ∈ x.sender.frames x.message, frame ∉ pushes) :
    ∃ c, x.receiver.pushAll pushes = some (List.replicate pushes.length (.ok none), c)
      ∧ c.Holding x.sender.nextId x.message (Arrived x.sender x.message fun i =>
        frameBytes (x.sender.pieceHeader x.message i) (x.sender.piece x.message i) ∈ pushes)
      ∧ c.Inv ∧ c.attMtu = x.sender.attMtu ∧ c.reset = x.receiver := by
  have sends := x.sends.inv
  induction pushes using List.reverseRecOn with
  | nil =>
    refine ⟨x.receiver, rfl, .inl ⟨x.idle, ?_⟩, x.receives.inv, x.mtu, x.idle.reset_eq⟩
    rintro k ⟨i, here, _⟩
    cases here
  | append_singleton pushes last ih =>
    obtain ⟨c, before, holding, inv, mtu, reset⟩ := ih
      (fun frame member => sent frame (List.mem_append_left _ member))
      (missing.imp fun frame h => ⟨h.1, fun member => h.2 (List.mem_append_left _ member)⟩)
    obtain ⟨i, inside, rfl⟩ := (mem_frames sends).1 (sent last (by simp))
    have still : ¬ ∀ j, j * x.sender.payloadCapacity < x.message.length → j = i ∨
        frameBytes (x.sender.pieceHeader x.message j) (x.sender.piece x.message j) ∈ pushes := by
      intro all
      obtain ⟨frame, member, absent⟩ := missing
      obtain ⟨j, inside', rfl⟩ := (mem_frames sends).1 member
      rcases all j inside' with rfl | old
      · exact absent (by simp)
      · exact absent (List.mem_append_left _ old)
    obtain ⟨c', pushed, gathering, mtu', reset'⟩ :=
      (holding.piece inv mtu sends x.sendable inside).2 still
    have same : (Arrived x.sender x.message fun j => j = i ∨ frameBytes
          (x.sender.pieceHeader x.message j) (x.sender.piece x.message j) ∈ pushes)
        = Arrived x.sender x.message fun j => frameBytes (x.sender.pieceHeader x.message j)
          (x.sender.piece x.message j) ∈ pushes
            ++ [frameBytes (x.sender.pieceHeader x.message i) (x.sender.piece x.message i)] := by
      funext k
      refine propext (exists_congr fun j => ?_)
      constructor
      · rintro ⟨rfl | old, bound, covers⟩
        · exact ⟨by simp, bound, covers⟩
        · exact ⟨List.mem_append_left _ old, bound, covers⟩
      · rintro ⟨member, bound, covers⟩
        refine ⟨?_, bound, covers⟩
        rcases List.mem_append.1 member with old | new
        · exact .inr old
        · exact .inl (piece_injective sends x.sendable bound inside (List.mem_singleton.1 new))
    rw [same] at gathering
    obtain ⟨r, d, result, outcome⟩ := push_cases inv
      (frameBytes (x.sender.pieceHeader x.message i) (x.sender.piece x.message i))
    cases result.symm.trans pushed
    refine ⟨c', ?_, .inr gathering, outcome.inv inv, mtu'.trans mtu, reset'.trans reset⟩
    rw [pushAll_snoc before pushed, List.length_append, List.replicate_append_replicate.symm]
    rfl

/-- A message arrives with the last of its frames, whatever their order and however often
each is repeated, and leaves the receiver as it was. -/
theorem reassembly_order_independent (x : Crossing) :
    ∃ frames sender' id, x.sender.encode x.message = (.ok frames, sender') ∧ frames ≠ [] ∧ id ≠ 0
      ∧ (∀ frame ∈ frames, frame.length ≤ min (x.sender.attMtu - 3) 512
        ∧ frame.take 2 = toLeBytes id)
      ∧ ∀ pushes last, (∀ frame ∈ pushes ++ [last], frame ∈ frames) →
        (∀ frame ∈ frames, frame ∈ pushes ++ [last]) → (∃ frame ∈ frames, frame ∉ pushes) →
        x.receiver.pushAll (pushes ++ [last]) =
          some (List.replicate pushes.length (.ok none) ++ [.ok (some x.message)], x.receiver) := by
  have sends := x.sends.inv
  refine ⟨_, _, x.sender.nextId, sends.encode_eq x.sendable, ?_, sends.nextId, ?_, ?_⟩
  · have first : 0 * x.sender.payloadCapacity < x.message.length := by
      rw [Nat.zero_mul]
      exact x.sendable.length_pos
    exact List.ne_nil_of_mem ((mem_frames sends).2 ⟨0, first, rfl⟩)
  · intro frame member
    obtain ⟨i, inside, rfl⟩ := (mem_frames sends).1 member
    refine ⟨?_, rfl⟩
    have room := (sends.frameOf x.sendable inside).fits.room
    have mtu := sends.mtu
    unfold minAttMtu defaultAttMtu at mtu
    rw [length_frameBytes]
    unfold capacity maxAttributeValue at room
    unfold headerSize at room ⊢
    omega
  · intro pushes last sent every missing
    obtain ⟨c, before, holding, inv, mtu, reset⟩ := x.gathers pushes
      (fun frame member => sent frame (List.mem_append_left _ member)) missing
    obtain ⟨i, inside, rfl⟩ := (mem_frames sends).1 (sent last (by simp))
    have pushed := (holding.piece inv mtu sends x.sendable inside).1 fun j bound => by
      rcases List.mem_append.1 (every _ ((mem_frames sends).2 ⟨j, bound, rfl⟩)) with old | new
      · exact .inr old
      · exact .inl (piece_injective sends x.sendable bound inside (List.mem_singleton.1 new))
    rw [pushAll_snoc before pushed, reset]

/-- Fifteen bytes take two frames of the smallest MTU. -/
def Crossing.fifteen : Crossing :=
  ⟨.default, .default, .default, .default, ⟨rfl, rfl, rfl, rfl⟩, rfl, List.replicate 15 7,
    ⟨by decide, by decide⟩⟩

/-- The second frame twice, then the first. -/
theorem fifteen_reordered : ∃ first second, first ≠ second
    ∧ (Crossing.fifteen.sender.encode Crossing.fifteen.message).1 = .ok [first, second]
    ∧ Crossing.fifteen.receiver.pushAll [second, second, first]
      = some ([.ok none, .ok none, .ok (some (List.replicate 15 7))], .default) := by
  obtain ⟨frames, _, _, encoded, _, _, _, arrives⟩ := reassembly_order_independent .fifteen
  have cut : (Crossing.fifteen.sender.encode Crossing.fifteen.message).1
      = .ok [[1, 0, 0, 0, 15, 0, 12, 0] ++ List.replicate 12 7, [1, 0, 12, 0, 15, 0, 3, 0, 7, 7, 7]] := by
    decide +kernel
  have same := cut
  rw [encoded] at same
  cases same
  exact ⟨_, _, by decide, cut, arrives [_, _] _ (by decide) (by decide) (by decide)⟩

end Crossings

section Shipments

/-- Encode messages one after another. -/
def BleCodec.encodeAll (c : BleCodec) :
    List Bytes → List (Except TransportError (List Bytes)) × BleCodec
  | [] => ([], c)
  | message :: messages =>
    let (r, c) := c.encode message
    let (rs, c) := c.encodeAll messages
    (r :: rs, c)

/-- Several messages on their way between two codecs of the same MTU. -/
structure Shipment where
  sender : BleCodec
  receiver : BleCodec
  sends : sender.Reachable
  receives : receiver.Reachable
  idle : receiver.Idle
  mtu : receiver.attMtu = sender.attMtu
  messages : List Bytes
  sendable : ∀ message ∈ messages, Sendable message

/-- A frame of the shipment, by its message and its place in it. -/
def Shipment.frame (x : Shipment) (p : Nat × Nat) : Option Bytes :=
  match (x.sender.encodeAll x.messages).1[p.1]? with
  | some (.ok frames) => frames[p.2]?
  | _ => none

/-- A delivery of the shipment: every frame arrives, the first copies of a message before
those of the next, and further copies of a frame at any later point. -/
structure Delivery (x : Shipment) where
  order : List (Nat × Nat)
  sent : ∀ p ∈ order, (x.frame p).isSome
  complete : ∀ p, (x.frame p).isSome → p ∈ order
  inOrder : ∀ pre p post, order = pre ++ p :: post → p ∉ pre →
    ∀ q, (x.frame q).isSome → q.1 < p.1 → q ∈ pre

/-- The message that a push returned. -/
def returnedMessage : Except TransportError (Option Bytes) → Option Bytes
  | .ok message => message
  | .error _ => none

/-- The messages come out in order and once each, and no first copy is refused. -/
def Delivery.Exact {x : Shipment} (d : Delivery x) : Prop :=
  ∃ results c, x.receiver.pushAll (d.order.filterMap x.frame) = some (results, c)
    ∧ results.filterMap returnedMessage = x.messages
    ∧ ∀ k p, d.order[k]? = some p → p ∉ d.order.take k → ∃ y, results[k]? = some (.ok y)

/-- The sender when it encodes the message `j`. -/
def Shipment.senderAt (x : Shipment) (j : Nat) : BleCodec :=
  { x.sender with nextId := (fun id => max (id + 1) 1)^[j] x.sender.nextId }

/-- What the header of a message's frames says: its id and its length. -/
def Shipment.label (x : Shipment) (j : Nat) : UInt16 × Option Nat :=
  ((x.senderAt j).nextId, (x.messages[j]?).map List.length)

/-- A further copy arrives while its message is incomplete, or in the middle of another
message whose frames have other headers; neither between two messages nor after the last. -/
def Delivery.Timely {x : Shipment} (d : Delivery x) : Prop :=
  ∀ pre p post, d.order = pre ++ p :: post → p ∈ pre →
    ∃ j, (∃ q ∈ pre, q.1 = j) ∧ (∃ q, (x.frame q).isSome ∧ q.1 = j ∧ q ∉ pre)
      ∧ (j = p.1 ∨ x.label j ≠ x.label p.1)

variable {x : Shipment} {frame : Bytes}

theorem Shipment.senderAt_inv (x : Shipment) (j : Nat) : (x.senderAt j).Inv := by
  have inv := x.sends.inv
  have nonzero : (x.senderAt j).nextId ≠ 0 := by
    cases j with
    | zero => exact inv.nextId
    | succ j =>
      change (fun id => max (id + 1) 1)^[j + 1] x.sender.nextId ≠ 0
      rw [Function.iterate_succ_apply']
      exact nextId_ne_zero _
  exact inv.renewed inv.mtu nonzero

theorem encodeAll_getElem? {c : BleCodec} {messages : List Bytes} (inv : c.Inv)
    (sendable : ∀ message ∈ messages, Sendable message) (j : Nat) :
    (c.encodeAll messages).1[j]? = (messages[j]?).map fun message =>
      .ok (BleCodec.frames { c with nextId := (fun id => max (id + 1) 1)^[j] c.nextId } message) := by
  induction messages generalizing c j with
  | nil => simp [BleCodec.encodeAll]
  | cons message messages ih =>
    obtain ⟨first, rest⟩ := List.forall_mem_cons.1 sendable
    have after := inv.encode message
    have encoded := inv.encode_eq first
    rw [encoded] at after
    simp only [BleCodec.encodeAll, encoded]
    cases j with
    | zero => rfl
    | succ j =>
      have tail := ih after rest j
      simp only [List.getElem?_cons_succ]
      rw [tail]
      rfl

/-- The frames of a shipment are those of its messages. -/
theorem Shipment.frame_eq_some (x : Shipment) {p : Nat × Nat} :
    x.frame p = some frame ↔ ∃ message, x.messages[p.1]? = some message
      ∧ p.2 * x.sender.payloadCapacity < message.length
      ∧ frame = frameBytes ((x.senderAt p.1).pieceHeader message p.2)
        ((x.senderAt p.1).piece message p.2) := by
  have positive : 0 < x.sender.payloadCapacity := capacity_pos x.sends.inv.mtu
  unfold Shipment.frame
  rw [encodeAll_getElem? x.sends.inv x.sendable]
  cases x.messages[p.1]? with
  | none => simp
  | some message =>
    simp only [Option.map_some, Option.some.injEq, exists_eq_left']
    change ((x.senderAt p.1).frames message)[p.2]? = some frame ↔ _
    unfold BleCodec.frames
    rw [List.getElem?_map]
    change Option.map _ (List.range ((message.length + x.sender.payloadCapacity - 1) /
      x.sender.payloadCapacity))[p.2]? = some frame ↔ _
    rw [← chunk_lt positive]
    by_cases bound : p.2 < (message.length + x.sender.payloadCapacity - 1) / x.sender.payloadCapacity
    · simp [bound, eq_comm]
    · simp [bound]

theorem Shipment.frame_isSome (x : Shipment) (p : Nat × Nat) :
    (x.frame p).isSome ↔ ∃ message, x.messages[p.1]? = some message
      ∧ p.2 * x.sender.payloadCapacity < message.length := by
  rw [Option.isSome_iff_exists]
  constructor
  · rintro ⟨frame, found⟩
    obtain ⟨message, known, inside, _⟩ := x.frame_eq_some.1 found
    exact ⟨message, known, inside⟩
  · rintro ⟨message, known, inside⟩
    exact ⟨_, x.frame_eq_some.2 ⟨message, known, inside, rfl⟩⟩

/-- The receiver after part of a timely delivery: the first `n` messages are through, and it
holds what has arrived of the next one. -/
structure Gathered (x : Shipment) (pre : List (Nat × Nat)) (n : Nat)
    (results : List (Except TransportError (Option Bytes))) (c : BleCodec) : Prop where
  ran : x.receiver.pushAll (pre.filterMap x.frame) = some (results, c)
  inv : c.Inv
  mtu : c.attMtu = x.sender.attMtu
  reset : c.reset = x.receiver
  length : results.length = pre.length
  bound : n ≤ x.messages.length
  returned : results.filterMap returnedMessage = x.messages.take n
  accepted : ∀ k p, pre[k]? = some p → p ∉ pre.take k → ∃ y, results[k]? = some (.ok y)
  done : ∀ q, (x.frame q).isSome → q.1 < n → q ∈ pre
  ahead : ∀ q ∈ pre, q.1 ≤ n
  missing : n < x.messages.length → ∃ q, (x.frame q).isSome ∧ q.1 = n ∧ q ∉ pre
  holding : ∀ message, x.messages[n]? = some message →
    c.Holding (x.senderAt n).nextId message (Arrived (x.senderAt n) message fun i => (n, i) ∈ pre)

theorem Shipment.first_frame (x : Shipment) {n : Nat} (bound : n < x.messages.length) :
    (x.frame (n, 0)).isSome := by
  rw [Shipment.frame_isSome]
  have here : x.messages[n]? = some x.messages[n] := List.getElem?_eq_getElem bound
  refine ⟨_, here, ?_⟩
  rw [Nat.zero_mul]
  exact (x.sendable _ (List.getElem_mem bound)).length_pos

theorem Gathered.start (x : Shipment) : Gathered x [] 0 [] x.receiver where
  ran := rfl
  inv := x.receives.inv
  mtu := x.mtu
  reset := x.idle.reset_eq
  length := rfl
  bound := Nat.zero_le _
  returned := rfl
  accepted := fun k p here => by cases here
  done := fun q _ below => absurd below (Nat.not_lt_zero _)
  ahead := fun q member => by cases member
  missing := fun bound => ⟨(0, 0), x.first_frame bound, rfl, fun member => by cases member⟩
  holding := by
    refine fun message _ => .inl ⟨x.idle, ?_⟩
    rintro k ⟨i, here, _⟩
    cases here

section Step
variable {pre : List (Nat × Nat)} {n : Nat} {results : List (Except TransportError (Option Bytes))}
  {c : BleCodec} {p q : Nat × Nat} {message : Bytes}

theorem Gathered.accepts (h : Gathered x pre n results c) {r : Except TransportError (Option Bytes)}
    (ok : p ∉ pre → ∃ y, r = .ok y) : ∀ k q, (pre ++ [p])[k]? = some q → q ∉ (pre ++ [p]).take k →
      ∃ y, (results ++ [r])[k]? = some (.ok y) := by
  intro k q here first
  have bound : k < (pre ++ [p]).length := (List.getElem?_eq_some_iff.1 here).1
  rw [List.length_append, List.length_singleton] at bound
  by_cases old : k < pre.length
  · rw [List.getElem?_append_left old] at here
    rw [List.take_append_of_le_length (Nat.le_of_lt old)] at first
    obtain ⟨y, result⟩ := h.accepted k q here first
    refine ⟨y, ?_⟩
    rw [List.getElem?_append_left (by rw [h.length]; exact old)]
    exact result
  · obtain rfl : k = pre.length := by omega
    simp only [List.getElem?_append_right (Nat.le_refl _), Nat.sub_self, List.getElem?_cons_zero,
      Option.some.injEq] at here
    subst here
    rw [List.take_append_of_le_length (Nat.le_refl _), List.take_length] at first
    obtain ⟨y, rfl⟩ := ok first
    refine ⟨y, ?_⟩
    rw [List.getElem?_append_right (by rw [h.length]), h.length, Nat.sub_self]
    rfl

/-- A copy that the codec ignores. -/
theorem Gathered.ignored (h : Gathered x pre n results c) {e : TransportError}
    (found : x.frame p = some frame) (again : p ∈ pre) (pushed : c.push frame = some (.error e, c)) :
    Gathered x (pre ++ [p]) n (results ++ [.error e]) c where
  ran := by
    rw [List.filterMap_append, List.filterMap_cons_some found, List.filterMap_nil]
    exact pushAll_snoc h.ran pushed
  inv := h.inv
  mtu := h.mtu
  reset := h.reset
  length := by simp [h.length]
  bound := h.bound
  returned := by simp [h.returned, returnedMessage]
  accepted := h.accepts fun absent => absurd again absent
  done := fun q sent below => List.mem_append_left _ (h.done q sent below)
  ahead := fun q member => (List.mem_append.1 member).elim (h.ahead q) fun same => by
    cases List.mem_singleton.1 same
    exact h.ahead p again
  missing := fun bound => by
    obtain ⟨q, sent, same, absent⟩ := h.missing bound
    refine ⟨q, sent, same, fun member => ?_⟩
    rcases List.mem_append.1 member with old | new
    · exact absent old
    · cases List.mem_singleton.1 new
      exact absent again
  holding := fun message known => by
    have same : (fun i => (n, i) ∈ pre ++ [p]) = fun i => (n, i) ∈ pre := by
      funext i
      refine propext ⟨fun member => ?_, List.mem_append_left _⟩
      rcases List.mem_append.1 member with old | new
      · exact old
      · rwa [List.mem_singleton.1 new]
    rw [same]
    exact h.holding message known

/-- A frame of the message that is due. -/
theorem Gathered.taken (h : Gathered x pre n results c) {i : Nat}
    (known : x.messages[n]? = some message)
    (inside : i * x.sender.payloadCapacity < message.length) :
    ∃ n' r c', Gathered x (pre ++ [(n, i)]) n' (results ++ [r]) c' := by
  have sendable := x.sendable message (List.mem_of_getElem? known)
  have sends := x.senderAt_inv n
  have bound : n < x.messages.length := (List.getElem?_eq_some_iff.1 known).1
  have found := x.frame_eq_some (p := (n, i)) |>.2 ⟨message, known, inside, rfl⟩
  have ran : ∀ {r d}, c.push (frameBytes ((x.senderAt n).pieceHeader message i)
      ((x.senderAt n).piece message i)) = some (r, d) →
      x.receiver.pushAll ((pre ++ [(n, i)]).filterMap x.frame) = some (results ++ [r], d) := by
    intro r d pushed
    rw [List.filterMap_append, List.filterMap_cons_some found, List.filterMap_nil]
    exact pushAll_snoc h.ran pushed
  have arrived : ∀ j, (n, j) ∈ pre ++ [(n, i)] ↔ j = i ∨ (n, j) ∈ pre := by
    intro j
    rw [List.mem_append, List.mem_singleton, Prod.mk.injEq, or_comm]
    simp
  have ahead : ∀ q ∈ pre ++ [(n, i)], q.1 ≤ n := by
    intro q member
    rcases List.mem_append.1 member with old | new
    · exact h.ahead q old
    · rw [List.mem_singleton.1 new]
  obtain ⟨whole, part⟩ := (h.holding message known).piece h.inv h.mtu sends sendable inside
  by_cases all : ∀ j, j * x.sender.payloadCapacity < message.length → j = i ∨ (n, j) ∈ pre
  · have pushed := whole all
    rw [h.reset] at pushed
    refine ⟨n + 1, .ok (some message), x.receiver, ?_⟩
    exact
      { ran := ran pushed
        inv := x.receives.inv
        mtu := x.mtu
        reset := x.idle.reset_eq
        length := by simp [h.length]
        bound := bound
        returned := by
          rw [List.filterMap_append, h.returned, List.take_add_one, known]
          rfl
        accepted := h.accepts fun _ => ⟨_, rfl⟩
        done := by
          intro q sent below
          rcases Nat.lt_succ_iff_lt_or_eq.1 below with low | same
          · exact List.mem_append_left _ (h.done q sent low)
          · obtain ⟨message', known', inside'⟩ := (x.frame_isSome q).1 sent
            rw [same] at known'
            cases known.symm.trans known'
            obtain ⟨j, k⟩ := q
            cases same
            exact (arrived k).2 (all k inside')
        ahead := fun q member => Nat.le_succ_of_le (ahead q member)
        missing := fun more => by
          refine ⟨(n + 1, 0), x.first_frame more, rfl, fun member => ?_⟩
          exact absurd (ahead _ member) (Nat.not_succ_le_self n)
        holding := by
          refine fun _ _ => .inl ⟨x.idle, ?_⟩
          rintro k ⟨j, member, _⟩
          exact absurd (ahead _ member) (Nat.not_succ_le_self n) }
  · obtain ⟨d, pushed, gathering, mtu, reset⟩ := part all
    obtain ⟨r, d', result, outcome⟩ := push_cases h.inv
      (frameBytes ((x.senderAt n).pieceHeader message i) ((x.senderAt n).piece message i))
    cases result.symm.trans pushed
    refine ⟨n, .ok none, d, ?_⟩
    exact
      { ran := ran pushed
        inv := outcome.inv h.inv
        mtu := mtu.trans h.mtu
        reset := reset.trans h.reset
        length := by simp [h.length]
        bound := h.bound
        returned := by
          rw [List.filterMap_append, h.returned]
          exact List.append_nil _
        accepted := h.accepts fun _ => ⟨_, rfl⟩
        done := fun q sent below => List.mem_append_left _ (h.done q sent below)
        ahead := ahead
        missing := fun _ => by
          push Not at all
          obtain ⟨j, inside', other, absent⟩ := all
          refine ⟨(n, j), (x.frame_isSome _).2 ⟨message, known, inside'⟩, rfl, fun member => ?_⟩
          exact ((arrived j).1 member).elim other absent
        holding := fun message' known' => by
          cases known.symm.trans known'
          rw [show (fun j => (n, j) ∈ pre ++ [(n, i)]) = fun j => j = i ∨ (n, j) ∈ pre from
            funext fun j => propext (arrived j)]
          exact .inr gathering }

/-- In the middle of a message the codec is not idle. -/
theorem Gathered.gathering (h : Gathered x pre n results c) (begun : q ∈ pre)
    (sent : (x.frame q).isSome) (due : q.1 = n) (known : x.messages[n]? = some message) :
    c.Gathering (x.senderAt n).nextId message
      (Arrived (x.senderAt n) message fun i => (n, i) ∈ pre) := by
  rcases h.holding message known with ⟨_, nothing⟩ | gathering
  · obtain ⟨j, i⟩ := q
    cases due
    obtain ⟨message', known', inside⟩ := (x.frame_isSome _).1 sent
    cases known.symm.trans known'
    have sendable := x.sendable message (List.mem_of_getElem? known)
    have covers : Covers ((x.senderAt j).pieceHeader message i) ((x.senderAt j).piece message i)
        (i * x.sender.payloadCapacity) := by
      refine (covers_piece sendable inside).2 ⟨Nat.le_refl _, ?_, inside⟩
      exact Nat.mul_lt_mul_of_pos_right (Nat.lt_succ_self i) (capacity_pos x.sends.inv.mtu)
    exact absurd ⟨i, begun, inside, covers⟩ (nothing _)
  · exact gathering

/-- A copy from another message is refused while a message is in progress. -/
theorem Gathered.other (h : Gathered x pre n results c) (again : p ∈ pre)
    (sent : (x.frame p).isSome) (begun : q ∈ pre) (found : (x.frame q).isSome) (due : q.1 = n)
    (differs : x.label n ≠ x.label p.1) :
    ∃ r, Gathered x (pre ++ [p]) n (results ++ [r]) c := by
  obtain ⟨frame, here⟩ := Option.isSome_iff_exists.1 sent
  obtain ⟨message', known', inside', rfl⟩ := x.frame_eq_some.1 here
  obtain ⟨message, known, _⟩ := (x.frame_isSome q).1 found
  rw [due] at known
  have gathering := h.gathering begun found due known
  have sendable := x.sendable message' (List.mem_of_getElem? known')
  have fits := ((x.senderAt_inv p.1).frameOf sendable inside').fits
  rw [show (x.senderAt p.1).attMtu = c.attMtu from h.mtu.symm] at fits
  have read := parse_frameBytes fits
  have foreign : ¬ c.Joins ((x.senderAt p.1).pieceHeader message' p.2) := by
    rintro (none | ⟨sameId, sameTotal⟩)
    · cases none.symm.trans gathering.assembling.messageId
    · apply differs
      have ids : (x.senderAt n).nextId = (x.senderAt p.1).nextId :=
        Option.some.inj (gathering.assembling.messageId.symm.trans sameId)
      rw [gathering.total, total_toNat sendable] at sameTotal
      unfold Shipment.label
      rw [known, known', ids]
      simp [sameTotal]
  obtain ⟨r, d, result, pushed⟩ := push_cases h.inv
    (frameBytes ((x.senderAt p.1).pieceHeader message' p.2) ((x.senderAt p.1).piece message' p.2))
  cases pushed with
  | unreadable e bad => cases read.symm.trans bad
  | busy => exact ⟨_, h.ignored here again result⟩
  | mismatch => exact ⟨_, h.ignored here again result⟩
  | clash _ _ _ _ _ read' joins | more _ _ _ _ _ read' joins | complete _ _ _ _ _ read' joins =>
    cases read.symm.trans read'
    exact absurd joins foreign

/-- One more frame of a timely delivery. -/
theorem Gathered.step {d : Delivery x} {post : List (Nat × Nat)} (timely : d.Timely)
    (split : d.order = pre ++ p :: post) (h : Gathered x pre n results c) :
    ∃ n' r c', Gathered x (pre ++ [p]) n' (results ++ [r]) c' := by
  have sent : ∀ q ∈ pre ++ [p], (x.frame q).isSome := by
    intro q member
    refine d.sent q ?_
    rw [split]
    rcases List.mem_append.1 member with old | new
    · exact List.mem_append_left _ old
    · rw [List.mem_singleton.1 new]
      simp
  have here := sent p (by simp)
  obtain ⟨message, known, inside⟩ := (x.frame_isSome p).1 here
  -- A frame of the message that is due is taken in, whether or not it is a copy.
  have due : p.1 = n → ∃ n' r c', Gathered x (pre ++ [p]) n' (results ++ [r]) c' := by
    intro same
    obtain ⟨j, i⟩ := p
    cases same
    exact h.taken known inside
  by_cases again : p ∈ pre
  · obtain ⟨j, ⟨q, begun, same⟩, ⟨q', sent', same', absent⟩, other⟩ := timely pre p post split again
    obtain rfl : j = n := by
      have low := h.ahead q begun
      rw [same] at low
      rcases Nat.lt_or_eq_of_le low with below | eq
      · exact absurd (h.done q' sent' (by rw [same']; exact below)) absent
      · exact eq
    rcases other with own | differs
    · exact due own.symm
    · obtain ⟨r, received⟩ := h.other again here begun
        (sent q (List.mem_append_left _ begun)) same differs
      exact ⟨_, r, c, received⟩
  · apply due
    rcases Nat.lt_trichotomy p.1 n with low | same | high
    · exact absurd (h.done p here low) again
    · exact same
    · have bound : p.1 < x.messages.length := (List.getElem?_eq_some_iff.1 known).1
      obtain ⟨q, sent', same, absent⟩ := h.missing (Nat.lt_trans high bound)
      exact absurd (d.inOrder pre p post split again q sent' (by rw [same]; exact high)) absent

end Step

theorem Delivery.runs (d : Delivery x) (timely : d.Timely) (pre post : List (Nat × Nat))
    (split : d.order = pre ++ post) : ∃ n results c, Gathered x pre n results c := by
  induction pre using List.reverseRecOn generalizing post with
  | nil => exact ⟨0, [], x.receiver, .start x⟩
  | append_singleton pre p ih =>
    rw [List.append_assoc] at split
    obtain ⟨n, results, c, received⟩ := ih _ split
    obtain ⟨n', r, c', next⟩ := received.step timely split
    exact ⟨n', _, c', next⟩

/-- Further copies of frames do no harm, as long as none arrives between two messages or
looks like a frame of the message in progress. -/
theorem timely_duplicates_harmless (x : Shipment) (d : Delivery x) (timely : d.Timely) :
    d.Exact := by
  obtain ⟨n, results, c, received⟩ := d.runs timely d.order [] (List.append_nil _).symm
  have all : n = x.messages.length := by
    rcases Nat.lt_or_eq_of_le received.bound with below | same
    · obtain ⟨q, sent, _, absent⟩ := received.missing below
      exact absurd (d.complete q sent) absent
    · exact same
  refine ⟨results, c, received.ran, ?_, received.accepted⟩
  rw [received.returned, all, List.take_length]

/-- All frames of a shipment, by their places. -/
def Shipment.places (x : Shipment) : List (Nat × Nat) :=
  x.messages.zipIdx.flatMap fun (message, j) =>
    (List.range ((message.length + x.sender.payloadCapacity - 1) / x.sender.payloadCapacity)).map
      fun i => (j, i)

theorem Shipment.mem_places (x : Shipment) (p : Nat × Nat) :
    p ∈ x.places ↔ (x.frame p).isSome := by
  have positive : 0 < x.sender.payloadCapacity := capacity_pos x.sends.inv.mtu
  obtain ⟨j, i⟩ := p
  rw [x.frame_isSome]
  unfold Shipment.places
  simp only [List.mem_flatMap, List.mem_map, List.mem_range, Prod.exists, Prod.mk.injEq,
    chunk_lt positive]
  constructor
  · rintro ⟨message, _, member, _, inside, rfl, rfl⟩
    exact ⟨message, List.mem_zipIdx_iff_getElem?.1 member, inside⟩
  · rintro ⟨message, known, inside⟩
    exact ⟨message, j, List.mem_zipIdx_iff_getElem?.2 known, i, inside, rfl, rfl⟩

theorem take_split {α : Type} {l pre post : List α} {p : α} (split : l = pre ++ p :: post) :
    l[pre.length]? = some p ∧ l.take pre.length = pre := by
  rw [split]
  simp

theorem inOrder_of_places {x : Shipment} {order : List (Nat × Nat)}
    (checked : ∀ k < order.length, ∀ p ∈ order[k]?, p ∉ order.take k →
      ∀ q ∈ x.places, q.1 < p.1 → q ∈ order.take k) (pre : List (Nat × Nat)) (p : Nat × Nat)
    (post : List (Nat × Nat)) (split : order = pre ++ p :: post) (first : p ∉ pre) (q : Nat × Nat)
    (known : (x.frame q).isSome) (low : q.1 < p.1) : q ∈ pre := by
  obtain ⟨here, before⟩ := take_split split
  have bound := (List.getElem?_eq_some_iff.1 here).1
  have place := checked pre.length bound p here
  rw [before] at place
  exact place first q ((x.mem_places q).2 known) low

/-- An order of places that delivers the shipment. -/
def Delivery.of (x : Shipment) (order : List (Nat × Nat)) (sent : ∀ p ∈ order, p ∈ x.places)
    (complete : ∀ p ∈ x.places, p ∈ order)
    (inOrder : ∀ k < order.length, ∀ p ∈ order[k]?, p ∉ order.take k →
      ∀ q ∈ x.places, q.1 < p.1 → q ∈ order.take k) : Delivery x where
  order := order
  sent := fun p member => (x.mem_places p).1 (sent p member)
  complete := fun p known => complete p ((x.mem_places p).2 known)
  inOrder := inOrder_of_places inOrder

namespace Retransmission
/-! A message of two frames and then one of two frames, at the default MTU. -/

theorem sendable (message : Bytes)
    (member : message ∈ [List.replicate 13 1, List.replicate 13 2]) : Sendable message := by
  obtain rfl | rfl : message = List.replicate 13 1 ∨ message = List.replicate 13 2 := by
    simpa using member
  · exact ⟨by decide, by decide⟩
  · exact ⟨by decide, by decide⟩

def shipment : Shipment where
  sender := .default
  receiver := .default
  sends := .default
  receives := .default
  idle := ⟨rfl, rfl, rfl, rfl⟩
  mtu := rfl
  messages := [List.replicate 13 1, List.replicate 13 2]
  sendable := sendable

/-- A copy of the first frame arrives when its message is through. -/
def late : List (Nat × Nat) := [(0, 0), (0, 1), (0, 0), (1, 0), (1, 1)]

/-- Copies arrive before the message is through, and in the middle of the next one. -/
def timely : List (Nat × Nat) := [(0, 0), (0, 0), (0, 1), (1, 0), (0, 1), (1, 1)]

theorem late_delivers : (∀ p ∈ late, p ∈ shipment.places) ∧ (∀ p ∈ shipment.places, p ∈ late) ∧
    ∀ k < late.length, ∀ p ∈ late[k]?, p ∉ late.take k →
      ∀ q ∈ shipment.places, q.1 < p.1 → q ∈ late.take k := by decide +kernel

def lateDelivery : Delivery shipment :=
  .of shipment late late_delivers.1 late_delivers.2.1 late_delivers.2.2

/-- The late copy starts its message again, and the first frame of the next one is refused. -/
theorem late_copy_blocks : ¬ lateDelivery.Exact := by
  rintro ⟨results, c, ran, _, accepted⟩
  have pushed : (BleCodec.default.pushAll (late.filterMap shipment.frame)).map
      (fun r => r.1[3]?) = some (some (.error .busy)) := by decide +kernel
  have ran' : BleCodec.default.pushAll (late.filterMap shipment.frame) = some (results, c) := ran
  rw [ran'] at pushed
  obtain ⟨y, result⟩ := accepted 3 (1, 0) rfl (by decide)
  cases (Option.some.inj pushed).symm.trans result

theorem timely_delivers : (∀ p ∈ timely, p ∈ shipment.places) ∧
    (∀ p ∈ shipment.places, p ∈ timely) ∧
    ∀ k < timely.length, ∀ p ∈ timely[k]?, p ∉ timely.take k →
      ∀ q ∈ shipment.places, q.1 < p.1 → q ∈ timely.take k := by decide +kernel

def timelyDelivery : Delivery shipment :=
  .of shipment timely timely_delivers.1 timely_delivers.2.1 timely_delivers.2.2

/-- The message `j` is under way, and the frame at `p` cannot be taken for one of its frames
unless it is one. -/
def Interrupts (pre : List (Nat × Nat)) (p : Nat × Nat) (j : Nat) : Prop :=
  (∃ q ∈ pre, q.1 = j) ∧ (∃ q ∈ shipment.places, q.1 = j ∧ q ∉ pre)
    ∧ (j = p.1 ∨ shipment.label j ≠ shipment.label p.1)

instance (pre : List (Nat × Nat)) (p : Nat × Nat) (j : Nat) : Decidable (Interrupts pre p j) :=
  inferInstanceAs (Decidable (_ ∧ _ ∧ _))

/-- The delivery without the late copy is exact. -/
theorem timelyDelivery_exact : timelyDelivery.Timely ∧ timelyDelivery.Exact := by
  have check : ∀ k < timely.length, ∀ p ∈ timely[k]?, p ∈ timely.take k →
      ∃ j ∈ [0, 1], Interrupts (timely.take k) p j := by decide +kernel
  have holds : timelyDelivery.Timely := by
    intro pre p post split again
    obtain ⟨here, before⟩ := take_split split
    have bound := (List.getElem?_eq_some_iff.1 here).1
    have place := check pre.length bound p here
    rw [show timely.take pre.length = pre from before] at place
    obtain ⟨j, _, begun, ⟨q, member, same, absent⟩, other⟩ := place again
    exact ⟨j, begun, ⟨q, (shipment.mem_places q).1 member, same, absent⟩, other⟩
  exact ⟨holds, timely_duplicates_harmless shipment timelyDelivery holds⟩

-- a copy after the last message is not timely, and harms nothing as long as no message follows
example : (BleCodec.default.pushAll ([(0, 0), (0, 1), (1, 0), (1, 1), (0, 0)].filterMap
      shipment.frame)).map (·.1) = some [.ok none, .ok (some (List.replicate 13 1)), .ok none,
        .ok (some (List.replicate 13 2)), .ok none] := by decide +kernel

end Retransmission
end Shipments
end OpenLock
