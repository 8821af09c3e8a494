import OpenLock.Protocol.Correlation
import OpenLock.Protocol.Ledger

/-! Two sessions after their handshake, over a network that delivers every packet once and in
order. -/
namespace OpenLock
open Effects NoiseChannel Session

variable {P : Primitives} {packet : Bytes} {c : Command} {peer : SubjectKey} {tr : List NoiseEvent}
  {r : Response} {role : Role}

/-- Noise between two honest sides: a ciphertext is sixteen bytes longer than its payload, and
the peer's key is known. -/
def Faithful (P : Primitives) : NoiseEvent → Prop
  | ⟨.writeTransport payload, answer⟩ =>
    ∃ out : Bytes, answer = some out ∧ out.length = payload.length + 16
  | ⟨.remoteStatic, answer⟩ => ∃ key peer, answer = some key ∧ subjectKey P key = .ok peer
  | _ => True

namespace Exchange

/-- The request whose packet `send` returned. -/
def sent (x : Exchange P) : Option (UInt32 × Command) :=
  match x.method, x.output with
  | .send c, .sent (.ok (id, _)) => some (id, c)
  | _, _ => none

/-- The response whose packet `respond` returned. -/
def responded (x : Exchange P) : Option (UInt32 × Response) :=
  match x.method, x.output with
  | .respond id r, .packet (.ok _) => some (id, r)
  | _, _ => none

end Exchange

def returnedRequests (xs : List (Exchange P)) : List (UInt32 × Command) :=
  xs.filterMap Exchange.sent

def returnedResponses (xs : List (Exchange P)) : List (UInt32 × Response) :=
  xs.filterMap Exchange.responded

/-- Calls of `send` and `respond`, and deliveries, in any order. The last two arguments are the
packets under way to the responder and to the initiator, oldest first. -/
inductive Delivers (P : Primitives) (start : Parties) :
    List (Exchange P) → Parties → List Bytes → List Bytes → Prop
  | nil : Delivers P start [] start [] []
  | send {xs : List (Exchange P)} {toResponder toInitiator : List Bytes} {c : Command}
      (x : Exchange P) (earlier : Delivers P start xs x.before toResponder toInitiator)
      (role : x.role = .initiator) (method : x.method = .send c)
      (faithful : ∀ ev ∈ x.trace, Faithful P ev) :
      Delivers P start (xs ++ [x]) x.after (toResponder ++ x.output.made.toList) toInitiator
  | respond {xs : List (Exchange P)} {toResponder toInitiator : List Bytes} {id : UInt32}
      {r : Response} (x : Exchange P)
      (earlier : Delivers P start xs x.before toResponder toInitiator)
      (role : x.role = .responder) (method : x.method = .respond id r)
      (faithful : ∀ ev ∈ x.trace, Faithful P ev) :
      Delivers P start (xs ++ [x]) x.after toResponder (toInitiator ++ x.output.made.toList)
  | request {xs : List (Exchange P)} {packet : Bytes} {toResponder toInitiator : List Bytes}
      (x : Exchange P) (earlier : Delivers P start xs x.before (packet :: toResponder) toInitiator)
      (role : x.role = .responder) (method : x.method = .receive packet)
      (faithful : ∀ ev ∈ x.trace, Faithful P ev) :
      Delivers P start (xs ++ [x]) x.after toResponder toInitiator
  | response {xs : List (Exchange P)} {packet : Bytes} {toResponder toInitiator : List Bytes}
      (x : Exchange P) (earlier : Delivers P start xs x.before toResponder (packet :: toInitiator))
      (role : x.role = .initiator) (method : x.method = .receive packet)
      (faithful : ∀ ev ∈ x.trace, Faithful P ev) :
      Delivers P start (xs ++ [x]) x.after toResponder toInitiator

/-- A session whose handshake is over. -/
structure Established (role : Role) (s : Session) : Prop where
  role : s.role = role
  started : s.started = true
  channel : s.channel = .transport

section Accepts
variable {s s' : Session} {l : Link} {role : Role} {tr : List NoiseEvent} {packet : Packet}
  {clear : Bytes} {value : Value} {e : Error}

/-- A message that is the next one on the transport is decrypted. -/
private theorem receiveMessage_opens {r : Except Error (List SessionEvent × Option Bytes)}
    (channel : s.channel = .transport) (short : packet.payload.length ≤ maxMessageSize)
    (next : (l.incoming role).next packet.payload = some clear)
    (opened : openEnvelope P packet clear = .ok value)
    (permits : (noise role).Permits l tr) (faithful : ∀ ev ∈ tr, Faithful P ev)
    (h : TakesE (receiveMessage P packet) s tr r s') :
    ∃ peer rest, TakesE (if packet.kind = kindRequest then receiveRequest packet value peer
      else if packet.kind = kindResponse then receiveResponse packet value
      else throw .invalidPayload) s rest r s' := by
  have same : { s with channel := .transport } = s := by rw [← channel]
  unfold receiveMessage at h
  rw [takesE_get_bind, takesE_failIf_bind, takesE_bind] at h
  obtain ⟨_, ⟨out, _, tr₁, tr₂, read, h, rfl⟩ | ⟨_, failed, _⟩⟩ | ⟨left, _⟩ := h
  · obtain ⟨_, reads, rfl⟩ := takes_onChannel.1 read
    rw [channel] at reads
    obtain ⟨_, ⟨opening, _⟩ | ⟨_, rfl, rfl⟩⟩ := read_ok.1 reads
    · cases opening
    have answer : some out = (l.incoming role).next packet.payload := permits.1
    rw [next] at answer
    cases answer
    rw [same] at h
    obtain ⟨_, reopened, h⟩ | ⟨_, failed, _⟩ := takesE_ofExcept_bind.1 h
    · cases opened.symm.trans reopened
      rw [takesE_bind] at h
      obtain ⟨peer, _, tr₃, rest, named, h, rfl⟩ | ⟨_, failed, _⟩ := h
      · obtain ⟨_, names, rfl⟩ := takes_onChannel.1 named
        obtain ⟨_, _, _, rfl, _⟩ := peerStatic_ok.1 names
        rw [channel, same] at h
        exact ⟨peer, rest, h⟩
      · obtain ⟨_, unread, _⟩ := takes_onChannel.1 failed
        rw [channel] at unread
        obtain ⟨answer, rfl, unnamed⟩ := peerStatic_error unread
        obtain ⟨key, peer, known, named⟩ := faithful ⟨.remoteStatic, answer⟩ (by simp)
        obtain ⟨_, failed⟩ := unnamed key known
        cases named.symm.trans failed
    · cases opened.symm.trans failed
  · obtain ⟨_, unread, _⟩ := takes_onChannel.1 failed
    rw [channel] at unread
    obtain ⟨rfl, long⟩ | rfl := read_transport_error unread
    · omega
    · have answer : none = (l.incoming role).next packet.payload := permits.1
      rw [next] at answer
      cases answer
  · exact absurd channel left

private theorem receiveRequest_accepts (allowed : LawfulWire.Allowed c)
    (offered : c.capability &&& packet.capabilities = c.capability)
    (supported : c.capability &&& s.capabilities = c.capability)
    (room : s.pendingRequests.size < maxPendingRequests) :
    ¬ TakesE (receiveRequest packet (Wire.value c) peer) s tr (.error e) s' := by
  intro h
  unfold receiveRequest at h
  obtain ⟨_, parsed, h⟩ | ⟨_, failed, _⟩ := takesE_ofExcept_bind.1 h
  · obtain ⟨same, _⟩ := LawfulWire.parse_eq_ok.1 parsed
    cases LawfulWire.value_injective same
    rw [takesE_get_bind, takesE_failIf_bind, takesE_failIf_bind] at h
    obtain ⟨_, ⟨_, h⟩ | ⟨full, _⟩⟩ | ⟨wrong, _⟩ := h
    · rw [takesE_modify_bind, takesE_pure] at h
      cases h.2.1
    · omega
    · rcases wrong with wrong | wrong
      · exact wrong offered
      · exact wrong supported
  · have parsed := LawfulWire.parse_eq_ok.2 ⟨rfl, allowed⟩
    cases parsed.symm.trans failed

private theorem receiveResponse_accepts (allowed : LawfulWire.Allowed r)
    (expected : s.pendingRequests[packet.requestId]? = some r.capability)
    (offered : r.capability &&& packet.capabilities = r.capability) :
    ¬ TakesE (receiveResponse packet (Wire.value r)) s tr (.error e) s' := by
  intro h
  unfold receiveResponse at h
  obtain ⟨_, parsed, h⟩ | ⟨_, failed, _⟩ := takesE_ofExcept_bind.1 h
  · obtain ⟨same, _⟩ := LawfulWire.parse_eq_ok.1 parsed
    cases LawfulWire.value_injective same
    rw [takesE_get_bind, expected] at h
    change TakesE (failIf _ _ >>= _) s tr _ s' at h
    rw [takesE_failIf_bind] at h
    obtain ⟨_, h⟩ | ⟨wrong, _⟩ := h
    · rw [takesE_modify_bind, takesE_pure] at h
      cases h.2.1
    · rcases wrong with wrong | wrong
      · exact wrong rfl
      · exact wrong offered
  · have parsed := LawfulWire.parse_eq_ok.2 ⟨rfl, allowed⟩
    cases parsed.symm.trans failed

end Accepts

section Flights
variable {α : Type} [Wire α]

/-- A message under way. -/
structure Message (α : Type) where
  id : UInt32
  content : α
  body : Bytes
  ciphertext : Bytes
  packet : Bytes

/-- The message was made by this code. -/
structure Message.Made (P : Primitives) (kind : UInt8) (capabilities : UInt64) (m : Message α) :
    Prop where
  encoded : Session.body P kind m.id capabilities (Wire.value m.content) = .ok m.body
  packed : encodePacket P ⟨kind, m.id, capabilities, m.ciphertext⟩ = .ok m.packet
  short : m.ciphertext.length ≤ maxMessageSize

/-- The packets under way in one direction are the ciphertexts that the peer has not read. -/
structure Flight (P : Primitives) (kind : UInt8) (capabilities : UInt64) (d : Direction)
    (packets : List Bytes) (ms : List (Message α)) : Prop where
  packets : packets = ms.map Message.packet
  within : d.taken ≤ d.written.length
  unread : d.written.drop d.taken = ms.map fun m => (m.body, m.ciphertext)
  made : ∀ m ∈ ms, m.Made P kind capabilities

variable {kind : UInt8} {capabilities : UInt64} {d : Direction} {packets : List Bytes}
  {ms : List (Message α)} {m : Message α}

theorem Flight.push (h : Flight P kind capabilities d packets ms) (made : m.Made P kind capabilities) :
    Flight P kind capabilities { d with written := d.written ++ [(m.body, m.ciphertext)] }
      (packets ++ [m.packet]) (ms ++ [m]) where
  packets := by simp [h.packets]
  within := by
    rw [List.length_append]
    exact Nat.le_add_right_of_le h.within
  unread := by
    rw [List.drop_append_of_le_length h.within, h.unread, List.map_append, List.map_singleton]
  made m' mem := by
    rcases List.mem_append.1 mem with earlier | last
    · exact h.made m' earlier
    · cases List.mem_singleton.1 last
      exact made

theorem Flight.pop (h : Flight P kind capabilities d (packet :: packets) ms) :
    ∃ m ms', ms = m :: ms' ∧ m.packet = packet ∧ m.Made P kind capabilities ∧
      d.next m.ciphertext = some m.body ∧
      Flight P kind capabilities { d with taken := d.taken + 1 } packets ms' := by
  cases ms with
  | nil => cases h.packets
  | cons m ms =>
    obtain ⟨rfl, rfl⟩ := List.cons.inj h.packets
    have unread := h.unread
    rw [List.map_cons] at unread
    have bound : d.taken < d.written.length := by
      by_contra beyond
      rw [List.drop_eq_nil_of_le (by omega)] at unread
      cases unread
    rw [List.drop_eq_getElem_cons bound] at unread
    obtain ⟨first, rest⟩ := List.cons.inj unread
    refine ⟨m, ms, rfl, rfl, h.made m List.mem_cons_self, ?_, rfl, bound, rest,
      fun m' mem => h.made m' (List.mem_cons_of_mem _ mem)⟩
    simp [Direction.next, List.getElem?_eq_getElem bound, first]

theorem Message.Made.opened (codec : P.Ciborium) (made : m.Made P kind capabilities)
    (shallow : (Wire.value m.content).Within 15) :
    openEnvelope P ⟨kind, m.id, capabilities, m.ciphertext⟩ m.body = .ok (Wire.value m.content) :=
  openEnvelope_body codec shallow made.encoded

/-- The next message is accepted unless its content is refused. -/
private theorem Exchange.accepts (codec : P.Ciborium) {x : Exchange P}
    (side : x.role = role) (method : x.method = .receive m.packet)
    (own : Established role (x.before.session role)) (made : m.Made P kind capabilities)
    (shallow : (Wire.value m.content).Within 15)
    (next : (x.before.link.incoming role).next m.ciphertext = some m.body)
    (faithful : ∀ ev ∈ x.trace, Faithful P ev)
    (message : kind ≠ kindHandshake)
    (admitted : (x.before.session role).checkPacket ⟨kind, m.id, capabilities, m.ciphertext⟩ = .ok ())
    (accepts : ∀ peer tr e s, ¬ TakesE (if kind = kindRequest then
        receiveRequest ⟨kind, m.id, capabilities, m.ciphertext⟩ (Wire.value m.content) peer
      else if kind = kindResponse then
        receiveResponse ⟨kind, m.id, capabilities, m.ciphertext⟩ (Wire.value m.content)
      else throw .invalidPayload) (x.before.session role) tr (.error e) s) :
    ∃ answer s, x.output = .received (.ok answer)
      ∧ x.after = x.before.after s ((noise role).afterAll x.before.link x.trace) role
      ∧ Received P (x.before.session role) ⟨kind, m.id, capabilities, m.ciphertext⟩ x.trace answer s
      ∧ (noise role).Permits x.before.link x.trace := by
  have decoded := decodePacket_encodePacket codec made.packed
  obtain ⟨s, after, takes, permits⟩ := x.performed.takes
  rw [side] at after permits
  rw [side, method] at takes
  obtain ⟨r, output, takes⟩ := takes_receive.1 takes
  cases r with
  | ok answer =>
    obtain ⟨_, same, received⟩ := receive_ok takes
    cases decoded.symm.trans same
    exact ⟨answer, s, output, after, received, permits⟩
  | error e =>
    unfold receive at takes
    obtain ⟨_, _, h⟩ | ⟨_, _, h, _⟩ := takesE_onError.1 takes
    · cases h
    unfold receiveInner at h
    obtain ⟨_, same, h⟩ | ⟨_, failed, _⟩ := takesE_ofExcept_bind.1 h
    · cases decoded.symm.trans same
      obtain ⟨_, _, h⟩ | ⟨_, refused, _⟩ := takesE_ofExcept_bind.1 (takesE_get_bind.1 h)
      · rw [if_neg message] at h
        obtain ⟨_, _, h⟩ := receiveMessage_opens own.channel made.short next
          (made.opened codec shallow) permits faithful h
        exact absurd h (accepts _ _ _ _)
      · cases admitted.symm.trans refused
    · cases decoded.symm.trans failed

end Flights

/-- The two sessions and the messages under way between them. -/
structure Underway (P : Primitives) (p : Parties) (toResponder toInitiator : List Bytes)
    (requests : List (Message Command)) (responses : List (Message Response)) : Prop where
  established : ∀ role, Established role (p.session role)
  offered : p.initiator.capabilities &&& p.responder.capabilities = p.initiator.capabilities
  ledger : Ledger p.initiator.capabilities p.initiator.nextRequest p.responder.lastRequestId
    p.initiator.pendingRequests p.responder.pendingRequests
    (requests.map fun m => (m.id, m.content.capability))
    (responses.map fun m => (m.id, m.content.capability))
  outward : Flight P kindRequest p.initiator.capabilities p.link.toResponder toResponder requests
  back : Flight P kindResponse p.responder.capabilities p.link.toInitiator toInitiator responses
  allowed : ∀ m ∈ requests, LawfulWire.Allowed m.content

/-- The responder has received the request and no longer waits to answer it. -/
def Retired (s : Session) (id : UInt32) : Prop :=
  id ≤ s.lastRequestId ∧ s.pendingRequests[id]? = none

/-- What holds between any two calls, given the messages under way. -/
structure Flowing (xs : List (Exchange P)) (p : Parties) (toResponder toInitiator : List Bytes)
    (requests : List (Message Command)) (responses : List (Message Response)) : Prop
    extends Underway P p toResponder toInitiator requests responses where
  requested : returnedRequests xs = requestEvents xs ++ requests.map fun m => (m.id, m.content)
  answered : returnedResponses xs = responseEvents xs ++ responses.map fun m => (m.id, m.content)
  accepted : ∀ x ∈ xs, ¬ x.refused
  tracked : ∀ x ∈ xs, ∀ id ∈ x.after.responder.pendingRequests,
    id ∈ x.after.initiator.pendingRequests
  increasing : (returnedRequests xs).Pairwise fun q q' => q.1 < q'.1
  below : ∀ q ∈ returnedRequests xs, q.1 < p.initiator.nextRequest
  once : ((returnedResponses xs).map Prod.fst).Nodup
  gone : ∀ q ∈ returnedResponses xs, Retired p.responder q.1

section Steps
variable {xs : List (Exchange P)} {x : Exchange P} {toResponder toInitiator : List Bytes}
  {requests : List (Message Command)} {responses : List (Message Response)}
  {body payload packet b : Bytes} {id next : UInt32} {m : Message Response}

theorem returnedRequests_snoc :
    returnedRequests (xs ++ [x]) = returnedRequests xs ++ x.sent.toList := by
  cases h : x.sent <;> simp [returnedRequests, h]

theorem returnedResponses_snoc :
    returnedResponses (xs ++ [x]) = returnedResponses xs ++ x.responded.toList := by
  cases h : x.responded <;> simp [returnedResponses, h]

private theorem forall_snoc {p : Exchange P → Prop} (earlier : ∀ y ∈ xs, p y) (last : p x) :
    ∀ y ∈ xs ++ [x], p y := by
  intro y mem
  rcases List.mem_append.1 mem with known | new
  · exact earlier y known
  · cases List.mem_singleton.1 new
    exact last

/-- One more call: what it returns and reports fits the messages under way before and after it. -/
private theorem Flowing.snoc {p : Parties} {toResponder' toInitiator' : List Bytes}
    {requests' : List (Message Command)} {responses' : List (Message Response)}
    (h : Flowing xs x.before toResponder toInitiator requests responses) (after : x.after = p)
    (now : Underway P p toResponder' toInitiator' requests' responses')
    (requested : (requests.map fun m => (m.id, m.content)) ++ x.sent.toList
      = x.output.events.filterMap SessionEvent.asRequest ++ requests'.map fun m => (m.id, m.content))
    (answered : (responses.map fun m => (m.id, m.content)) ++ x.responded.toList
      = x.output.events.filterMap SessionEvent.asResponse
        ++ responses'.map fun m => (m.id, m.content))
    (accepted : ∀ e, x.output ≠ .received (.error e))
    (next : x.before.initiator.nextRequest ≤ p.initiator.nextRequest)
    (sent : ∀ q ∈ x.sent, q.1 = x.before.initiator.nextRequest ∧ q.1 < p.initiator.nextRequest)
    (responded : ∀ q ∈ x.responded, ¬ Retired x.before.responder q.1 ∧ Retired p.responder q.1)
    (settled : ∀ id, Retired x.before.responder id → Retired p.responder id) :
    Flowing (xs ++ [x]) x.after toResponder' toInitiator' requests' responses' := by
  have tracked : ∀ id ∈ x.after.responder.pendingRequests,
      id ∈ x.after.initiator.pendingRequests := by
    rw [after]
    exact fun _ => now.ledger.pending_subset
  rw [after]
  refine { now with requested := ?_, answered := ?_,
                    accepted := forall_snoc h.accepted fun ⟨e, failed⟩ => accepted e failed,
                    tracked := forall_snoc h.tracked tracked, increasing := ?_, below := ?_,
                    once := ?_, gone := ?_ }
  · rw [returnedRequests_snoc, requestEvents_snoc, h.requested, List.append_assoc, requested,
      List.append_assoc]
  · rw [returnedResponses_snoc, responseEvents_snoc, h.answered, List.append_assoc, answered,
      List.append_assoc]
  · rw [returnedRequests_snoc]
    refine List.pairwise_append.2 ⟨h.increasing, ?_, fun q mem q' last => ?_⟩
    · cases x.sent <;> simp
    · rw [(sent q' (Option.mem_toList.1 last)).1]
      exact h.below q mem
  · rw [returnedRequests_snoc]
    intro q mem
    rcases List.mem_append.1 mem with earlier | last
    · exact UInt32.lt_of_lt_of_le (h.below q earlier) next
    · exact (sent q (Option.mem_toList.1 last)).2
  · rw [returnedResponses_snoc, List.map_append]
    refine List.nodup_append.2 ⟨h.once, ?_, fun id mem id' last same => ?_⟩
    · cases x.responded <;> simp
    · obtain ⟨q, earlier, rfl⟩ := List.mem_map.1 mem
      obtain ⟨q', new, rfl⟩ := List.mem_map.1 last
      refine (responded q' (Option.mem_toList.1 new)).1 ?_
      rw [← same]
      exact h.gone q earlier
  · rw [returnedResponses_snoc]
    intro q mem
    rcases List.mem_append.1 mem with earlier | last
    · exact settled _ (h.gone q earlier)
    · exact (responded q (Option.mem_toList.1 last)).2

/-- A call that makes no packet and reports nothing, and at most uses up an id. -/
private theorem Flowing.idle (h : Flowing xs x.before toResponder toInitiator requests responses)
    (le : x.before.initiator.nextRequest ≤ next)
    (after : x.after = { x.before with initiator.nextRequest := next }) (sent : x.sent = none)
    (responded : x.responded = none) (events : x.output.events = [])
    (accepted : ∀ e, x.output ≠ .received (.error e)) :
    Flowing (xs ++ [x]) x.after toResponder toInitiator requests responses := by
  have own := h.established .initiator
  refine h.snoc after { h.toUnderway with
    established := Parties.forall_after (r := .initiator) ⟨own.role, own.started, own.channel⟩
      h.established
    ledger := h.ledger.skip le } ?_ ?_ accepted le ?_ ?_ fun _ => id
  · simp [sent, events]
  · simp [responded, events]
  · simp [sent]
  · simp [responded]

private theorem not_broken (faithful : ∀ ev ∈ tr, Faithful P ev) : ¬ Broken tr := by
  rintro ⟨payload, mem⟩
  obtain ⟨_, answer, _⟩ := faithful _ mem
  cases answer

private theorem validateCommand_allowed (h : validateCommand c = .ok ()) :
    LawfulWire.Allowed c := by
  simp only [validateCommand, bind_eq_ok, LawfulWire.parse_eq_ok] at h
  obtain ⟨_, _, c', ⟨same, allowed⟩, _⟩ := h
  cases LawfulWire.value_injective same
  exact allowed

/-- A request that was sent is under way. -/
private theorem Flowing.sends (h : Flowing xs x.before toResponder toInitiator requests responses)
    (checked : Requestable P x.before.initiator c body next)
    (encoded : encodePacket P ⟨kindRequest, x.before.initiator.nextRequest,
      x.before.initiator.capabilities, payload⟩ = .ok packet)
    (tagged : payload.length = body.length + 16) (method : x.method = .send c)
    (output : x.output = .sent (.ok (x.before.initiator.nextRequest, packet)))
    (after : x.after = ⟨{ x.before.initiator with
      nextRequest := next
      pendingRequests := x.before.initiator.pendingRequests.insert x.before.initiator.nextRequest
        c.capability }, x.before.responder, x.before.link.write body payload .initiator⟩) :
    Flowing (xs ++ [x]) x.after (toResponder ++ [packet]) toInitiator
      (requests ++ [⟨x.before.initiator.nextRequest, c, body, payload, packet⟩]) responses := by
  obtain ⟨_, _, offered, room⟩ := checked.sendable
  have lt : x.before.initiator.nextRequest < next := by
    have step := (checkedAdd32_eq_some checked.advanced).2
    rw [UInt32.toNat_one] at step
    exact UInt32.lt_iff_toNat_lt.2 (by omega)
  have short : payload.length ≤ maxMessageSize := by
    have fits := packetSize_short checked.sized
    unfold maxMessageSize at fits ⊢
    omega
  have sent : x.sent = some (x.before.initiator.nextRequest, c) := by
    simp [Exchange.sent, method, output]
  have responded : x.responded = none := by simp [Exchange.responded, method]
  have events : x.output.events = [] := by rw [output]; rfl
  have own := h.established .initiator
  refine h.snoc after { h.toUnderway with
    established := Parties.forall_after (r := .initiator) ⟨own.role, own.started, own.channel⟩
      h.established
    ledger := ?ledger
    outward := h.outward.push (m := ⟨_, c, body, payload, packet⟩)
      ⟨checked.encoded, encoded, short⟩
    allowed := ?allowed } ?_ ?_ (by simp [output]) (UInt32.le_of_lt lt) ?_ ?_ fun _ => id
  case ledger =>
    rw [List.map_append, List.map_singleton]
    exact h.ledger.send lt room offered
  case allowed =>
    intro m mem
    rcases List.mem_append.1 mem with earlier | last
    · exact h.allowed m earlier
    · cases List.mem_singleton.1 last
      exact validateCommand_allowed checked.valid
  · simp [sent, events]
  · simp [responded, events]
  · simpa [sent] using lt
  · simp [responded]

theorem Flowing.send (codec : P.Ciborium)
    (h : Flowing xs x.before toResponder toInitiator requests responses)
    (role : x.role = .initiator) (method : x.method = .send c)
    (faithful : ∀ ev ∈ x.trace, Faithful P ev) :
    ∃ requests', Flowing (xs ++ [x]) x.after (toResponder ++ x.output.made.toList) toInitiator
      requests' responses := by
  obtain ⟨s, after, takes, _⟩ := x.performed.takes
  rw [role] at after
  rw [role, method] at takes
  obtain ⟨r, output, takes⟩ := takes_send.1 takes
  change TakesE _ x.before.initiator _ _ _ at takes
  generalize x.trace = tr at takes after faithful
  cases send_takes takes with
  | @refused _ next ch e unsent advanced channel broken =>
    have stays : ch = x.before.initiator.channel := by
      by_contra left
      exact not_broken faithful (broken left)
    subst stays
    rw [afterAll_unsent unsent] at after
    refine ⟨requests, ?_⟩
    rw [output]
    change Flowing _ _ (toResponder ++ []) _ _ _
    rw [List.append_nil]
    exact h.idle advanced after (by simp [Exchange.sent, method, output])
      (by simp [Exchange.responded, method]) (by rw [output]; rfl) (by simp [output])
  | lost checked failed =>
    obtain ⟨_, same, tagged⟩ := faithful _ List.mem_cons_self
    cases same
    obtain ⟨packet, encoded⟩ := encodePacket_sized codec checked.sized tagged
    cases encoded.symm.trans failed
  | sent checked encoded =>
    obtain ⟨_, same, tagged⟩ := faithful _ List.mem_cons_self
    cases same
    have flowing := h.sends checked encoded tagged method output after
    exact ⟨_, by rw [output]; exact flowing⟩

/-- A response that was made is under way. -/
private theorem Flowing.responds
    (h : Flowing xs x.before toResponder toInitiator requests responses)
    (checked : Respondable P x.before.responder id r body)
    (encoded : encodePacket P ⟨kindResponse, id, x.before.responder.capabilities, payload⟩
      = .ok packet)
    (tagged : payload.length = body.length + 16) (method : x.method = .respond id r)
    (output : x.output = .packet (.ok packet))
    (after : x.after = ⟨x.before.initiator, { x.before.responder with
      pendingRequests := x.before.responder.pendingRequests.erase id },
      x.before.link.write body payload .responder⟩) :
    Flowing (xs ++ [x]) x.after toResponder (toInitiator ++ [packet])
      requests (responses ++ [⟨id, r, body, payload, packet⟩]) := by
  have short : payload.length ≤ maxMessageSize := by
    have fits := packetSize_short checked.sized
    unfold maxMessageSize at fits ⊢
    omega
  have sent : x.sent = none := by simp [Exchange.sent, method]
  have responded : x.responded = some (id, r) := by simp [Exchange.responded, method, output]
  have events : x.output.events = [] := by rw [output]; rfl
  have own := h.established .responder
  refine h.snoc after { h.toUnderway with
    established := Parties.forall_after (r := .responder) ⟨own.role, own.started, own.channel⟩
      h.established
    ledger := ?ledger
    back := h.back.push (m := ⟨id, r, body, payload, packet⟩) ⟨checked.encoded, encoded, short⟩ }
    ?_ ?_ (by simp [output]) UInt32.le_rfl ?_ ?_ ?_
  case ledger =>
    rw [List.map_append, List.map_singleton]
    exact h.ledger.respond checked.expected
  · simp [sent, events]
  · simp [responded, events]
  · simp [sent]
  · intro q mem
    rw [responded] at mem
    cases mem
    refine ⟨fun settled => ?_, (h.ledger.pending checked.expected).1,
      Std.ExtTreeMap.getElem?_erase_self⟩
    cases checked.expected.symm.trans settled.2
  · rintro q ⟨old, gone⟩
    refine ⟨old, ?_⟩
    change (Std.ExtTreeMap.erase _ _)[q]? = none
    rw [Std.ExtTreeMap.getElem?_erase, gone, ite_self]

theorem Flowing.respond (codec : P.Ciborium) {response : Response}
    (h : Flowing xs x.before toResponder toInitiator requests responses)
    (role : x.role = .responder) (method : x.method = .respond id response)
    (faithful : ∀ ev ∈ x.trace, Faithful P ev) :
    ∃ responses', Flowing (xs ++ [x]) x.after toResponder (toInitiator ++ x.output.made.toList)
      requests responses' := by
  obtain ⟨s, after, takes, _⟩ := x.performed.takes
  rw [role] at after
  rw [role, method] at takes
  obtain ⟨r, output, takes⟩ := takes_respond.1 takes
  change TakesE _ x.before.responder _ _ _ at takes
  generalize x.trace = tr at takes after faithful
  cases respond_takes takes with
  | @refused _ ch e unsent channel broken =>
    have stays : ch = x.before.responder.channel := by
      by_contra left
      exact not_broken faithful (broken left)
    subst stays
    rw [afterAll_unsent unsent] at after
    refine ⟨responses, ?_⟩
    rw [output]
    change Flowing _ _ _ (toInitiator ++ []) _ _
    rw [List.append_nil]
    exact h.idle UInt32.le_rfl after (by simp [Exchange.sent, method])
      (by simp [Exchange.responded, method, output]) (by rw [output]; rfl) (by simp [output])
  | lost checked failed =>
    obtain ⟨_, same, tagged⟩ := faithful _ List.mem_cons_self
    cases same
    obtain ⟨packet, encoded⟩ := encodePacket_sized codec checked.sized tagged
    cases encoded.symm.trans failed
  | sent checked encoded =>
    obtain ⟨_, same, tagged⟩ := faithful _ List.mem_cons_self
    cases same
    have flowing := h.responds checked encoded tagged method output after
    exact ⟨_, by rw [output]; exact flowing⟩

/-- The next request is received. -/
private theorem Flowing.receives_request {m : Message Command}
    (h : Flowing xs x.before (m.packet :: toResponder) toInitiator (m :: requests) responses)
    (flight : Flight P kindRequest x.before.initiator.capabilities
      (x.before.link.take .responder).toResponder toResponder requests)
    (method : x.method = .receive b)
    (output : x.output = .received (.ok ([.request m.id m.content peer], none)))
    (after : x.after = ⟨x.before.initiator, { x.before.responder with
      lastRequestId := m.id
      pendingRequests := x.before.responder.pendingRequests.insert m.id m.content.capability },
      x.before.link.take .responder⟩) :
    Flowing (xs ++ [x]) x.after toResponder toInitiator requests responses := by
  have newer := h.ledger.receivable.1
  have sent : x.sent = none := by simp [Exchange.sent, method]
  have responded : x.responded = none := by simp [Exchange.responded, method]
  have own := h.established .responder
  refine h.snoc after { h.toUnderway with
    established := Parties.forall_after (r := .responder) ⟨own.role, own.started, own.channel⟩
      h.established
    ledger := h.ledger.request
    outward := flight
    allowed := fun m' mem => h.allowed m' (List.mem_cons_of_mem _ mem) }
    ?_ ?_ (by simp [output]) UInt32.le_rfl ?_ ?_ ?_
  · simp [sent, output, SessionOutput.events, SessionEvent.asRequest]
  · simp [responded, output, SessionOutput.events, SessionEvent.asResponse]
  · simp [sent]
  · simp [responded]
  · rintro q ⟨old, gone⟩
    refine ⟨UInt32.le_trans old (UInt32.le_of_lt newer), ?_⟩
    change (Std.ExtTreeMap.insert _ _ _)[q]? = none
    rw [Std.ExtTreeMap.getElem?_insert, if_neg]
    · exact gone
    · intro same
      rw [← Std.LawfulEqCmp.eq_of_compare same] at old
      exact UInt32.lt_irrefl _ (UInt32.lt_of_lt_of_le newer old)

theorem Flowing.request (codec : P.Ciborium)
    (h : Flowing xs x.before (packet :: toResponder) toInitiator requests responses)
    (role : x.role = .responder) (method : x.method = .receive packet)
    (faithful : ∀ ev ∈ x.trace, Faithful P ev) :
    ∃ requests', Flowing (xs ++ [x]) x.after toResponder toInitiator requests' responses := by
  obtain ⟨m, ms, rfl, rfl, made, next, flight⟩ := h.outward.pop
  obtain ⟨newer, offered, room⟩ := h.ledger.receivable
  have supported : m.content.capability &&& x.before.responder.capabilities
      = m.content.capability := by
    rw [← offered, UInt64.and_assoc, h.offered]
  have own : Established .responder x.before.responder := h.established .responder
  have admitted : x.before.responder.checkPacket
      ⟨kindRequest, m.id, x.before.initiator.capabilities, m.ciphertext⟩ = .ok () := by
    have differs : kindRequest ≠ kindHandshake ∧ kindRequest ≠ kindResponse := by decide
    rw [checkPacket_eq_ok, own.role, own.started]
    simp [differs, newer]
  obtain ⟨answer, s, output, after, received, permits⟩ := x.accepts codec role method own made
    (within_command _) next faithful (by decide) admitted fun peer tr e s failed =>
      receiveRequest_accepts (h.allowed m List.mem_cons_self) offered supported room
        (by rwa [if_pos rfl] at failed)
  generalize x.trace = tr at after received permits
  cases received with
  | handshake kind => cases kind
  | response kind => cases kind
  | @request clear key command peer _ _ _ _ _ _ reopened _ _ _ _ _ =>
    have answer : some clear = x.before.link.toResponder.next m.ciphertext := permits.1
    rw [next] at answer
    cases answer
    rw [made.opened codec (within_command _)] at reopened
    cases LawfulWire.value_injective (Except.ok.inj reopened)
    exact ⟨ms, h.receives_request flight method output after⟩

/-- The next response is received. -/
private theorem Flowing.receives_response
    (h : Flowing xs x.before toResponder (m.packet :: toInitiator) requests (m :: responses))
    (flight : Flight P kindResponse x.before.responder.capabilities
      (x.before.link.take .initiator).toInitiator toInitiator responses)
    (method : x.method = .receive b)
    (output : x.output = .received (.ok ([.response m.id m.content], none)))
    (after : x.after = ⟨{ x.before.initiator with
      pendingRequests := x.before.initiator.pendingRequests.erase m.id }, x.before.responder,
      x.before.link.take .initiator⟩) :
    Flowing (xs ++ [x]) x.after toResponder toInitiator requests responses := by
  have sent : x.sent = none := by simp [Exchange.sent, method]
  have responded : x.responded = none := by simp [Exchange.responded, method]
  have own := h.established .initiator
  refine h.snoc after { h.toUnderway with
    established := Parties.forall_after (r := .initiator) ⟨own.role, own.started, own.channel⟩
      h.established
    ledger := h.ledger.response
    back := flight } ?_ ?_ (by simp [output]) UInt32.le_rfl ?_ ?_ fun _ => id
  · simp [sent, output, SessionOutput.events, SessionEvent.asRequest]
  · simp [responded, output, SessionOutput.events, SessionEvent.asResponse]
  · simp [sent]
  · simp [responded]

/-- The next response is received if its content is one that `parse` accepts. -/
theorem Flowing.response (codec : P.Ciborium)
    (h : Flowing xs x.before toResponder (packet :: toInitiator) requests responses)
    (readable : ∀ m ∈ responses.head?, LawfulWire.Allowed m.content) (role : x.role = .initiator)
    (method : x.method = .receive packet) (faithful : ∀ ev ∈ x.trace, Faithful P ev) :
    ∃ responses', Flowing (xs ++ [x]) x.after toResponder toInitiator requests responses' := by
  obtain ⟨m, ms, rfl, rfl, made, next, flight⟩ := h.back.pop
  obtain ⟨expected, offered⟩ := h.ledger.answerable
  have supported : m.content.capability &&& x.before.responder.capabilities
      = m.content.capability := by
    rw [← offered, UInt64.and_assoc, h.offered]
  have own : Established .initiator x.before.initiator := h.established .initiator
  have admitted : x.before.initiator.checkPacket
      ⟨kindResponse, m.id, x.before.responder.capabilities, m.ciphertext⟩ = .ok () := by
    have differs : kindResponse ≠ kindHandshake ∧ kindResponse ≠ kindRequest := by decide
    have pending : m.id ∈ x.before.initiator.pendingRequests := by
      rw [Std.ExtTreeMap.mem_iff_isSome_getElem?, expected, Option.isSome_some]
    rw [checkPacket_eq_ok, own.role, own.started]
    simp [differs, pending]
  obtain ⟨answer, s, output, after, received, permits⟩ := x.accepts codec role method own made
    (within_response _) next faithful (by decide) admitted fun peer tr e s failed =>
      receiveResponse_accepts (readable m rfl) expected supported
        (by rwa [if_neg (by decide), if_pos rfl] at failed)
  generalize x.trace = tr at after received permits
  cases received with
  | handshake kind => cases kind
  | request kind => cases kind
  | @response clear key response peer _ _ _ _ _ reopened _ _ _ _ =>
    have answer : some clear = x.before.link.toInitiator.next m.ciphertext := permits.1
    rw [next] at answer
    cases answer
    rw [made.opened codec (within_response _)] at reopened
    cases LawfulWire.value_injective (Except.ok.inj reopened)
    exact ⟨ms, h.receives_response flight method output after⟩

/-- The responses that are no longer under way. -/
def arrivedResponses (xs : List (Exchange P)) (toInitiator : List Bytes) :
    List (UInt32 × Response) :=
  (returnedResponses xs).take ((returnedResponses xs).length - toInitiator.length)

theorem arrivedResponses_eq {waiting : List (UInt32 × Response)}
    (split : returnedResponses xs = responseEvents xs ++ waiting)
    (length : waiting.length = toInitiator.length) :
    arrivedResponses xs toInitiator = responseEvents xs := by
  rw [arrivedResponses, split, List.length_append, length, Nat.add_sub_cancel, List.take_left]

/-- What has arrived stays so. -/
private theorem arrived_subset {toInitiator' : List Bytes}
    (grows : toInitiator'.length ≤ toInitiator.length + x.responded.toList.length) :
    arrivedResponses xs toInitiator ⊆ arrivedResponses (xs ++ [x]) toInitiator' := by
  unfold arrivedResponses
  rw [returnedResponses_snoc, List.length_append]
  have within : (returnedResponses xs).length - toInitiator.length ≤ (returnedResponses xs).length :=
    Nat.sub_le _ _
  rw [← List.take_append_of_le_length within]
  exact List.Sublist.subset (List.take_sublist_take_left (by omega))

private theorem made_responded {response : Response} (method : x.method = .respond id response) :
    x.output.made.toList.length = x.responded.toList.length := by
  obtain ⟨s, _, takes, _⟩ := x.performed.takes
  rw [method] at takes
  obtain ⟨r, output, _⟩ := takes_respond.1 takes
  cases r <;> simp [SessionOutput.made, Exchange.responded, method, output]

/-- The oldest response under way arrives next. -/
private theorem Flowing.arrives
    (h : Flowing xs x.before toResponder (packet :: toInitiator) requests (m :: responses))
    (unanswering : x.responded = none) :
    (m.id, m.content) ∈ arrivedResponses (xs ++ [x]) toInitiator := by
  have length : toInitiator.length = responses.length := by
    have same := congrArg List.length h.back.packets
    simpa using same
  unfold arrivedResponses
  rw [returnedResponses_snoc, unanswering, Option.toList_none, List.append_nil, h.answered, length]
  have count : (responseEvents xs ++ (m :: responses).map fun m => (m.id, m.content)).length
      - responses.length = (responseEvents xs).length + 1 := by
    simp only [List.length_append, List.length_map, List.length_cons]
    omega
  rw [count, List.map_cons, List.take_length_add_append]
  simp

end Steps

section Runs
variable {start p : Parties} {xs : List (Exchange P)} {toResponder toInitiator : List Bytes}

/-- As long as every response that arrives can be read, no call is refused. -/
theorem Delivers.flowing (codec : P.Ciborium)
    (fresh : Flowing ([] : List (Exchange P)) start [] [] [] [])
    (run : Delivers P start xs p toResponder toInitiator)
    (readable : ∀ q ∈ arrivedResponses xs toInitiator, LawfulWire.Allowed q.2) :
    ∃ requests responses, Flowing xs p toResponder toInitiator requests responses := by
  induction run with
  | nil => exact ⟨[], [], fresh⟩
  | send x _ role method faithful ih =>
    obtain ⟨requests, responses, flowing⟩ := ih fun q mem =>
      readable q (arrived_subset (Nat.le_add_right _ _) mem)
    obtain ⟨requests, flowing⟩ := flowing.send codec role method faithful
    exact ⟨requests, responses, flowing⟩
  | respond x _ role method faithful ih =>
    obtain ⟨requests, responses, flowing⟩ := ih fun q mem => by
      refine readable q (arrived_subset ?_ mem)
      rw [List.length_append, made_responded method]
    obtain ⟨responses, flowing⟩ := flowing.respond codec role method faithful
    exact ⟨requests, responses, flowing⟩
  | request x _ role method faithful ih =>
    obtain ⟨requests, responses, flowing⟩ := ih fun q mem =>
      readable q (arrived_subset (Nat.le_add_right _ _) mem)
    obtain ⟨requests, flowing⟩ := flowing.request codec role method faithful
    exact ⟨requests, responses, flowing⟩
  | response x _ role method faithful ih =>
    obtain ⟨requests, responses, flowing⟩ := ih fun q mem => by
      refine readable q (arrived_subset ?_ mem)
      rw [List.length_cons]
      omega
    have next : ∀ m ∈ responses.head?, LawfulWire.Allowed m.content := by
      intro m head
      cases responses with
      | nil => cases head
      | cons m' responses =>
        cases head
        exact readable _ (flowing.arrives (by simp [Exchange.responded, method]))
    obtain ⟨responses, flowing⟩ := flowing.response codec next role method faithful
    exact ⟨requests, responses, flowing⟩

end Runs

section Handshakes

/-- A handshake that both sides complete. Its two messages are handshake messages of Noise. -/
inductive Shakes (P : Primitives) (before : Parties) : Parties → Prop
  | complete {hello reply : Bytes} {peer peer' : SubjectKey} (x y z : Exchange P)
      (first : x.before = before) (second : y.before = x.after) (third : z.before = y.after)
      (x_role : x.role = .initiator) (x_method : x.method = .start)
      (x_output : x.output = .packet (.ok hello))
      (y_role : y.role = .responder) (y_method : y.method = .receive hello)
      (y_output : y.output = .received (.ok ([.handshakeComplete peer], some reply)))
      (z_role : z.role = .initiator) (z_method : z.method = .receive reply)
      (z_output : z.output = .received (.ok ([.handshakeComplete peer'], none)))
      (untagged : ∀ ev ∈ x.trace ++ (y.trace ++ z.trace), ∀ message,
        ev.effect ≠ .writeTransport message ∧ ev.effect ≠ .readTransport message) :
      Shakes P before z.after

variable {x : Exchange P}

private theorem link_quiet {l : Link} (untagged : ∀ ev ∈ tr, ∀ message,
      ev.effect ≠ .writeTransport message ∧ ev.effect ≠ .readTransport message) :
    (noise role).afterAll l tr = l := by
  refine World.afterAll_still fun ev mem => ?_
  have other := untagged ev mem
  obtain ⟨call, answer⟩ := ev
  cases call with
  | writeTransport message => exact absurd rfl (other message).1
  | readTransport message => exact absurd rfl (other message).2
  | _ => rfl

private theorem started_of_hello {hello : Bytes} (role : x.role = .initiator)
    (method : x.method = .start) (output : x.output = .packet (.ok hello))
    (quiet : (noise .initiator).afterAll x.before.link x.trace = x.before.link) :
    ∃ ch, x.after = ⟨{ x.before.initiator with started := true, channel := ch },
      x.before.responder, x.before.link⟩ := by
  obtain ⟨s, after, takes, _⟩ := x.performed.takes
  rw [role, quiet] at after
  rw [role, method, output] at takes
  obtain ⟨_, same, takes⟩ := takes_start.1 takes
  cases same
  obtain ⟨_, _, failed⟩ | ⟨_, _, _, ch, _, rfl, _⟩ := start_takes takes
  · cases failed
  · exact ⟨ch, after⟩

/-- The session that reports the end of the handshake is in transport mode. -/
private theorem opened_of_complete {input : Bytes} {reply : Option Bytes}
    (method : x.method = .receive input)
    (output : x.output = .received (.ok ([.handshakeComplete peer], reply)))
    (quiet : (noise x.role).afterAll x.before.link x.trace = x.before.link) :
    x.after = x.before.after { x.before.session x.role with started := true, channel := .transport }
      x.before.link x.role := by
  obtain ⟨s, after, takes, _⟩ := x.performed.takes
  rw [quiet] at after
  rw [method, output] at takes
  obtain ⟨_, same, takes⟩ := takes_receive.1 takes
  cases same
  obtain ⟨packet, _, received⟩ := receive_ok takes
  generalize x.trace = tr at received
  cases received with
  | handshake _ _ _ _ completed =>
    cases completed with
    | transport _ => exact after

theorem Shakes.eq {before start : Parties} (h : Shakes P before start) :
    start = ⟨{ before.initiator with started := true, channel := .transport },
      { before.responder with started := true, channel := .transport }, before.link⟩ := by
  obtain ⟨x, y, z, rfl, second, third, xr, xm, xo, yr, ym, yo, zr, zm, zo, untagged⟩ := h
  simp only [List.mem_append] at untagged
  obtain ⟨ch, after⟩ := started_of_hello xr xm xo (link_quiet fun ev mem => untagged ev (.inl mem))
  rw [opened_of_complete zm zo (link_quiet fun ev mem => untagged ev (.inr (.inr mem))), third,
    opened_of_complete ym yo (link_quiet fun ev mem => untagged ev (.inr (.inl mem))), second, after,
    yr, zr]
  rfl

/-- Nothing is under way after the handshake. -/
theorem Flowing.fresh {initiator responder : Session} {start : Parties}
    (first : Opened P .initiator initiator) (second : Opened P .responder responder)
    (offered : initiator.capabilities &&& responder.capabilities = initiator.capabilities)
    (shakes : Shakes P ⟨initiator, responder, .quiet⟩ start) :
    Flowing ([] : List (Exchange P)) start [] [] [] [] := by
  obtain ⟨_, rfl, _⟩ := first.eq_fresh
  obtain ⟨_, rfl, _⟩ := second.eq_fresh
  rw [shakes.eq]
  exact {
    established := fun role => by cases role <;> exact ⟨rfl, rfl, rfl⟩
    offered
    ledger := .fresh
    outward := ⟨rfl, Nat.le_refl 0, rfl, fun _ mem => by cases mem⟩
    back := ⟨rfl, Nat.le_refl 0, rfl, fun _ mem => by cases mem⟩
    allowed := fun _ mem => by cases mem
    requested := rfl
    answered := rfl
    accepted := fun _ mem => by cases mem
    tracked := fun _ mem => by cases mem
    increasing := .nil
    below := fun _ mem => by cases mem
    once := .nil
    gone := fun _ mem => by cases mem }

end Handshakes

end OpenLock
