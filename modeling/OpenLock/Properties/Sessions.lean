import OpenLock.Protocol.Correlation
import OpenLock.Protocol.Scripted

/-! Requests and responses of two sessions correlate whatever the network does. -/
namespace OpenLock
open Effects NoiseChannel Session

variable {P : Primitives} {xs : List (Exchange P)} {x : Exchange P}

private theorem action_opcode_le (a : Action) : a.opcode ≤ 22 := by
  cases a <;>
    simp only [Action.opcode] <;> decide

private theorem opcode_eq {a b : UInt8} (ha : a ≤ 22) (hb : b ≤ 22)
    (h : (1 : UInt64) <<< a.toUInt64 = 1 <<< b.toUInt64) : a = b := by
  have power {k : UInt8} (small : k ≤ 22) : ((1 : UInt64) <<< k.toUInt64).toNat = 2 ^ k.toNat := by
    have bound : k.toNat ≤ 22 := UInt8.le_iff_toNat_le.1 small
    have shift : k.toNat % 64 = k.toNat := Nat.mod_eq_of_lt (by omega)
    have fits : 2 ^ k.toNat < 2 ^ 64 := Nat.pow_lt_pow_right (by decide) (by omega)
    rw [UInt64.toNat_shiftLeft, UInt8.toNat_toUInt64, shift, Nat.shiftLeft_eq, UInt64.toNat_one,
      Nat.one_mul, Nat.mod_eq_of_lt fits]
  have powers := congrArg UInt64.toNat h
  rw [power ha, power hb] at powers
  exact UInt8.toNat_inj.1 (Nat.pow_right_injective le_rfl powers)

/-- Every ciphertext is the sixteen bytes of a tag longer than its payload. -/
def Tagged (tr : List NoiseEvent) : Prop :=
  ∀ payload out, ⟨.writeTransport payload, some out⟩ ∈ tr → out.length = payload.length + 16

/-- How the requests, responses and errors of a conversation hang together. A request counts
as sent, and a response as made, from when it was encrypted; the last two fields say when that
is a call that returned its packet. -/
structure Correlated (c : Conversation P) : Prop where
  requests_in_order : requestEvents c.exchanges <+: sentRequests c.exchanges
  ids_increase : (sentRequests c.exchanges).Pairwise fun q q' => q.1 < q'.1
  requests_at_responder : ∀ x ∈ c.exchanges, ∀ id command peer,
    .request id command peer ∈ x.output.events → x.role = .responder
  responses_matched : ∀ pre x post, c.exchanges = pre ++ x :: post →
    ∀ id r, .response id r ∈ x.output.events →
      x.role = .initiator ∧ id ∉ (responseEvents pre).map Prod.fst ∧
      (∃ y ∈ pre, y.response = some (id, r)) ∧
      ∃ command, (id, command) ∈ sentRequests pre ∧ command.action.opcode = r.opcode
  answered_once : ((responseEvents c.exchanges).map Prod.fst).Nodup
  pending_bounded : ∀ x ∈ c.exchanges, ∀ role,
    (x.after.session role).pendingRequests.size ≤ maxPendingRequests
  silent_after_error : ∀ pre x post, c.exchanges = pre ++ x :: post →
    (∃ y ∈ pre, y.role = x.role ∧ y.refused) →
    x.output.events = [] ∧ x.output.succeeded = false
  sent_returns : ∀ x ∈ c.exchanges, ∀ command r, x.role = .initiator →
    x.method = .send command → x.output = .sent r →
    (∀ id packet, r = .ok (id, packet) → x.request = some (id, command)) ∧
    (Tagged x.trace → ∀ id, x.request = some (id, command) → ∃ packet, r = .ok (id, packet))
  response_returns : ∀ x ∈ c.exchanges, ∀ id response r, x.role = .responder →
    x.method = .respond id response → x.output = .packet r →
    (∀ packet, r = .ok packet → x.response = some (id, response)) ∧
    (Tagged x.trace → x.response = some (id, response) → ∃ packet, r = .ok packet)

section Conversations
variable {pre post : List (Exchange P)} {id : UInt32} {command : Command}

private theorem Conversation.linked (codec : P.Ciborium) (c : Conversation P) :
    Tied P (traffic c.exchanges) c.final :=
  c.talk.linked codec (.fresh c.initiator_opened c.responder_opened)

private theorem Conversation.before (c : Conversation P) (split : c.exchanges = pre ++ x :: post) :
    Talk P ⟨c.initiator, c.responder, .quiet⟩ pre x.before := by
  have talk := c.talk
  rw [split] at talk
  exact talk.split

private theorem Conversation.linked_before (codec : P.Ciborium) (c : Conversation P)
    (split : c.exchanges = pre ++ x :: post) :
    Tied P (traffic pre) x.before :=
  (c.before split).linked codec (.fresh c.initiator_opened c.responder_opened)

private theorem Completes.only {ch : NoiseState} {tr : List NoiseEvent} {events : List SessionEvent}
    {e : SessionEvent} (h : Completes P ch tr events) (mem : e ∈ events) :
    ∃ peer, e = .handshakeComplete peer := by
  cases h with
  | transport _ => exact ⟨_, List.mem_singleton.1 mem⟩
  | handshake => cases mem

private theorem Tied.request_at_responder {peer : SubjectKey} (h : Tied P (traffic xs) x.before)
    (event : .request id command peer ∈ x.output.events) :
    x.role = .responder := by
  obtain ⟨packet, events, reply, s, mem, received, _⟩ := Exchange.event_received event
  generalize x.trace = tr at received
  cases received with
  | handshake _ _ _ _ completed =>
    obtain ⟨_, same⟩ := Completes.only completed mem
    cases same
  | request _ role => exact (h.sides _).role.symm.trans role
  | response => cases List.mem_singleton.1 mem

private theorem Tied.response_matched (codec : P.Ciborium) {r : Response}
    (h : Tied P (traffic xs) x.before) (event : .response id r ∈ x.output.events) :
    x.role = .initiator ∧ id ∉ (responseEvents xs).map Prod.fst ∧
      (∃ y ∈ xs, y.response = some (id, r)) ∧
      ∃ command, (id, command) ∈ sentRequests xs ∧ command.action.opcode = r.opcode := by
  obtain ⟨packet, events, reply, s, mem, received, permits⟩ := Exchange.event_received event
  generalize x.trace = tr at received permits
  cases received with
  | handshake _ _ _ _ completed =>
    obtain ⟨_, same⟩ := Completes.only completed mem
    cases same
  | request => cases List.mem_singleton.1 mem
  | response kind role _ _ _ opened allowed _ expected =>
    cases List.mem_singleton.1 mem
    have side : x.role = .initiator := (h.sides _).role.symm.trans role
    rw [side] at expected permits
    obtain ⟨⟨command, known, capability⟩, unanswered⟩ := h.awaiting _ _ expected
    have low := (validateResponse_eq_ok.1 allowed.1).1
    exact ⟨side, unanswered, List.mem_filterMap.1 (h.genuine codec opened kind permits.1), command, known,
      opcode_eq (action_opcode_le _) low capability⟩

private theorem encrypted_write {body payload : Bytes}
    (trace : x.trace = [⟨.writeTransport body, some payload⟩]) : x.encrypted = true := by
  rw [Exchange.encrypted, trace]
  rfl

private theorem Exchange.sent_returns (codec : P.Ciborium) {r : Except Error (UInt32 × Bytes)}
    (side : x.role = .initiator) (method : x.method = .send command) (output : x.output = .sent r) :
    (∀ id packet, r = .ok (id, packet) → x.request = some (id, command)) ∧
    (Tagged x.trace → ∀ id, x.request = some (id, command) → ∃ packet, r = .ok (id, packet)) := by
  obtain ⟨s, _, takes, _⟩ := x.performed.takes
  rw [side, method, output] at takes
  obtain ⟨_, same, takes⟩ := takes_send.1 takes
  cases same
  generalize trace : x.trace = tr at takes
  cases send_takes takes with
  | refused e unsent =>
    rw [← trace] at unsent
    rw [request_of_unsent unsent]
    exact ⟨fun _ _ h => (by cases h), fun _ _ h => (by cases h)⟩
  | lost checked failed =>
    refine ⟨fun _ _ h => (by cases h), fun tagged => ?_⟩
    obtain ⟨packet, encoded⟩ := encodePacket_sized codec checked.sized
      (tagged _ _ List.mem_cons_self)
    rw [failed] at encoded
    cases encoded
  | sent checked encoded =>
    have request : x.request = some (x.before.initiator.nextRequest, command) := by
      simp [Exchange.request, side, method, encrypted_write trace]
    rw [request]
    refine ⟨fun _ _ same => ?_, fun _ _ same => ?_⟩
    · cases same
      rfl
    · cases same
      exact ⟨_, rfl⟩

private theorem Exchange.response_returns (codec : P.Ciborium) {response : Response}
    {r : Except Error Bytes} (side : x.role = .responder) (method : x.method = .respond id response)
    (output : x.output = .packet r) :
    (∀ packet, r = .ok packet → x.response = some (id, response)) ∧
    (Tagged x.trace → x.response = some (id, response) → ∃ packet, r = .ok packet) := by
  obtain ⟨s, _, takes, _⟩ := x.performed.takes
  rw [side, method, output] at takes
  obtain ⟨_, same, takes⟩ := takes_respond.1 takes
  cases same
  generalize trace : x.trace = tr at takes
  cases respond_takes takes with
  | refused e unsent =>
    rw [← trace] at unsent
    rw [response_of_unsent unsent]
    exact ⟨fun _ h => (by cases h), fun _ h => (by cases h)⟩
  | lost checked failed =>
    refine ⟨fun _ h => (by cases h), fun tagged _ => ?_⟩
    obtain ⟨packet, encoded⟩ := encodePacket_sized codec checked.sized
      (tagged _ _ List.mem_cons_self)
    rw [failed] at encoded
    cases encoded
  | sent checked encoded =>
    have response : x.response = some (id, response) := by
      simp [Exchange.response, side, method, encrypted_write trace]
    exact ⟨fun _ _ => response, fun _ _ => ⟨_, rfl⟩⟩

/-- Whatever the network does, and whatever Noise answers in its handshake: requests arrive in
order, responses answer the requests they were made for, and an error ends a session. -/
theorem sessions_correlated (codec : P.Ciborium) (c : Conversation P) : Correlated c := by
  have linked := c.linked codec
  exact {
    requests_in_order := linked.requests
    ids_increase := linked.increasing
    requests_at_responder := fun x mem id command peer event => by
      obtain ⟨pre, post, split⟩ := List.append_of_mem mem
      exact (c.linked_before codec split).request_at_responder event
    responses_matched := fun pre x post split id r event =>
      (c.linked_before codec split).response_matched codec event
    answered_once := linked.once
    pending_bounded := fun x mem role => by
      obtain ⟨pre, post, split⟩ := List.append_of_mem mem
      have after := (c.linked_before codec split).step codec
      exact (after.sides role).bounded
    silent_after_error := fun pre x post split refused => by
      obtain ⟨y, mem, side, failed⟩ := refused
      have closed := (c.before split).closed y mem failed
      rw [side] at closed
      obtain ⟨_, _, takes, _⟩ := x.performed.takes
      exact (program_closed closed takes).2
    sent_returns := fun x _ command r side method output => x.sent_returns codec side method output
    response_returns := fun x _ id response r side method output =>
      x.response_returns codec side method output }

end Conversations

namespace Duplex

def statusFailed : Response := ⟨1, .error 5⟩

/-- The status is requested and its failure reported. -/
def statusExchange : Conversation primitives :=
  conversation (handshake ++ [.call .initiator (.send statusRequest), .deliver .responder,
    .call .responder (.respond 1 statusFailed), .deliver .initiator])

theorem sessions_correlated_status :
    Correlated statusExchange ∧
    requestEvents statusExchange.exchanges = [(1, statusRequest)] ∧
    responseEvents statusExchange.exchanges = [(1, statusFailed)] :=
  ⟨sessions_correlated (minimalPrimitives_ciborium _) statusExchange, by decide +kernel⟩

end Duplex
end OpenLock
