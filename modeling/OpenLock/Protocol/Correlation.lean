import OpenLock.Protocol.Link

/-! The invariant that links two sessions, whatever the network does: which requests were sent,
received and answered, and what each direction of the transport holds. -/
namespace OpenLock
open Effects NoiseChannel Session

variable {P : Primitives} {ch : NoiseState} {next : UInt32}

/-- A payload was encrypted for the peer. -/
def NoiseEvent.encrypts : NoiseEvent → Bool
  | ⟨.writeTransport _, some _⟩ => true
  | _ => false

namespace SessionEvent

def asRequest : SessionEvent → Option (UInt32 × Command)
  | .request id c _ => some (id, c)
  | _ => none

def asResponse : SessionEvent → Option (UInt32 × Response)
  | .response id r => some (id, r)
  | _ => none

end SessionEvent

namespace Exchange

def encrypted (x : Exchange P) : Bool := x.trace.any NoiseEvent.encrypts

/-- The request that a call of `send` encrypted, under the id it took for it. -/
def request (x : Exchange P) : Option (UInt32 × Command) :=
  match x.role, x.method with
  | .initiator, .send c => if x.encrypted then some (x.before.initiator.nextRequest, c) else none
  | _, _ => none

/-- The response that a call of `respond` encrypted. -/
def response (x : Exchange P) : Option (UInt32 × Response) :=
  match x.role, x.method with
  | .responder, .respond id r => if x.encrypted then some (id, r) else none
  | _, _ => none

def refused (x : Exchange P) : Prop := ∃ e, x.output = .received (.error e)

end Exchange

def sentRequests (xs : List (Exchange P)) : List (UInt32 × Command) := xs.filterMap Exchange.request

def requestEvents (xs : List (Exchange P)) : List (UInt32 × Command) :=
  xs.flatMap fun x => x.output.events.filterMap SessionEvent.asRequest

def responseEvents (xs : List (Exchange P)) : List (UInt32 × Response) :=
  xs.flatMap fun x => x.output.events.filterMap SessionEvent.asResponse

section Snoc
variable (xs : List (Exchange P)) (x : Exchange P)

theorem sentRequests_snoc : sentRequests (xs ++ [x]) = sentRequests xs ++ x.request.toList := by
  cases h : x.request <;> simp [sentRequests, h]

theorem requestEvents_snoc : requestEvents (xs ++ [x])
    = requestEvents xs ++ x.output.events.filterMap SessionEvent.asRequest := by
  simp [requestEvents]

theorem responseEvents_snoc : responseEvents (xs ++ [x])
    = responseEvents xs ++ x.output.events.filterMap SessionEvent.asResponse := by
  simp [responseEvents]

end Snoc

/-- What the calls so far have sent and reported. -/
structure Traffic where
  sent : List (UInt32 × Command)
  received : List (UInt32 × Command)
  made : List (UInt32 × Response)
  answers : List (UInt32 × Response)

def traffic (xs : List (Exchange P)) : Traffic :=
  ⟨sentRequests xs, requestEvents xs, xs.filterMap Exchange.response, responseEvents xs⟩

def Traffic.add (t : Traffic) (x : Exchange P) : Traffic where
  sent := t.sent ++ x.request.toList
  received := t.received ++ x.output.events.filterMap SessionEvent.asRequest
  made := t.made ++ x.response.toList
  answers := t.answers ++ x.output.events.filterMap SessionEvent.asResponse

theorem traffic_snoc (xs : List (Exchange P)) (x : Exchange P) :
    traffic (xs ++ [x]) = (traffic xs).add x := by
  cases h : x.response <;>
    simp [traffic, Traffic.add, sentRequests_snoc, requestEvents_snoc, responseEvents_snoc, h]

/-- What holds of one session between any two calls. -/
structure Side (role : Role) (s : Session) : Prop where
  role : s.role = role
  started : s.channel = .transport → s.started = true
  bounded : s.pendingRequests.size ≤ maxPendingRequests

/-- What holds between any two calls, given what was sent and reported so far. -/
structure Tied (P : Primitives) (t : Traffic) (p : Parties) : Prop where
  sides : ∀ role, Side role (p.session role)
  increasing : t.sent.Pairwise fun q q' => q.1 < q'.1
  below : ∀ q ∈ t.sent, q.1 < p.initiator.nextRequest
  bodies : List.Forall₂
    (fun q w => body P kindRequest q.1 p.initiator.capabilities (Wire.value q.2) = .ok w.1)
    t.sent p.link.toResponder.written
  taken : p.responder.channel ≠ .closed → p.link.toResponder.taken ≤ t.sent.length ∧
    t.received = t.sent.take p.link.toResponder.taken
  requests : t.received <+: t.sent
  replies : ∀ w ∈ p.link.toInitiator.written, w.1 = [] ∨ ∃ q ∈ t.made,
    body P kindResponse q.1 p.responder.capabilities (Wire.value q.2) = .ok w.1
  awaiting : ∀ id cap, p.initiator.pendingRequests[id]? = some cap →
    (∃ c, (id, c) ∈ t.sent ∧ c.capability = cap) ∧ id ∉ t.answers.map Prod.fst
  answered : ∀ q ∈ t.answers, q.1 ∈ t.sent.map Prod.fst
  once : (t.answers.map Prod.fst).Nodup

/-- A session that neither carries nor reports a message. -/
structure Rests (s s' : Session) : Prop where
  role : s'.role = s.role
  capabilities : s'.capabilities = s.capabilities
  next : s.nextRequest ≤ s'.nextRequest
  started : (s.channel = .transport → s.started = true) →
    s'.channel = .transport → s'.started = true
  pending : s'.pendingRequests = s.pendingRequests ∨ s'.pendingRequests = ∅
  closed : s.channel = .closed → s'.channel = .closed

theorem Rests.refl (s : Session) : Rests s s := ⟨rfl, rfl, UInt32.le_rfl, id, .inl rfl, id⟩

theorem Rests.channel {s : Session} (le : s.nextRequest ≤ next)
    (channel : ch = s.channel ∨ ch = .closed) :
    Rests s { s with nextRequest := next, channel := ch } := by
  refine ⟨rfl, rfl, le, fun kept inside => ?_, .inl rfl, fun shut => channel.elim (·.trans shut) id⟩
  rcases channel with same | closed
  · exact kept (same.symm.trans inside)
  · cases closed.symm.trans inside

theorem Rests.side {role : Role} {s s' : Session} (rests : Rests s s') (h : Side role s) :
    Side role s' := by
  refine ⟨rests.role.trans h.role, rests.started h.started, ?_⟩
  rcases rests.pending with same | cleared
  · rw [same]
    exact h.bounded
  · rw [cleared]
    simp

section Steps
variable {t : Traffic} {p : Parties} {x : Exchange P} {s : Session} {l : Link} {role : Role}
  {tr : List NoiseEvent} {r : Except Error (List SessionEvent × Option Bytes)} {packet : Packet}
  {events : List SessionEvent} {body payload clear : Bytes} {m : PendingRequests} {c : Command}

/-- A call that neither carries a request or a response nor reports one. -/
theorem Tied.idle (h : Tied P t p) (rests : Rests (p.session role) s)
    (written : l.toResponder.written = p.link.toResponder.written)
    (taken : (role = .responder → s.channel ≠ .closed) →
      l.toResponder.taken = p.link.toResponder.taken)
    (replies : ∀ w ∈ l.toInitiator.written, w ∈ p.link.toInitiator.written ∨ w.1 = []) :
    Tied P t (p.after s l role) := by
  have link : (p.after s l role).link = l := by cases role <;> rfl
  have all := Parties.forall_after (C := fun r s' => Rests (p.session r) s') (l := l) rests
    fun r => Rests.refl (p.session r)
  have initiator : Rests p.initiator (p.after s l role).initiator := all .initiator
  have responder : Rests p.responder (p.after s l role).responder := all .responder
  refine { h with sides := fun r => (all r).side (h.sides r), below := ?_, bodies := ?_,
                  taken := ?_, replies := ?_, awaiting := ?_ }
  · exact fun q mem => UInt32.lt_of_lt_of_le (h.below q mem) initiator.next
  · rw [link, written, initiator.capabilities]
    exact h.bodies
  · intro opened
    rw [link, taken (by rintro rfl; exact opened)]
    exact h.taken fun shut => opened (responder.closed shut)
  · intro w mem
    rw [link] at mem
    rw [responder.capabilities]
    rcases replies w mem with earlier | empty
    · exact h.replies w earlier
    · exact .inl empty
  · intro id cap pending
    rcases initiator.pending with same | cleared
    · rw [same] at pending
      exact h.awaiting id cap pending
    · rw [cleared] at pending
      simp at pending

theorem encrypted_of_unsent (h : Unsent tr) : tr.any NoiseEvent.encrypts = false := by
  rw [List.any_eq_false]
  rintro ⟨call, answer⟩ mem
  cases call with
  | writeTransport message =>
    cases answer with
    | none => simp [NoiseEvent.encrypts]
    | some out => exact absurd ⟨message, out, .inl rfl⟩ (h _ mem)
  | _ => simp [NoiseEvent.encrypts]

theorem request_of_unsent (h : Unsent x.trace) : x.request = none := by
  unfold Exchange.request Exchange.encrypted
  rw [encrypted_of_unsent h]
  split <;> rfl

theorem response_of_unsent (h : Unsent x.trace) : x.response = none := by
  unfold Exchange.response Exchange.encrypted
  rw [encrypted_of_unsent h]
  split <;> rfl

private theorem Traffic.add_idle (request : x.request = none) (response : x.response = none)
    (requests : x.output.events.filterMap SessionEvent.asRequest = [])
    (responses : x.output.events.filterMap SessionEvent.asResponse = []) : t.add x = t := by
  simp [Traffic.add, request, response, requests, responses]

/-- A call that passes nothing over the transport and reports nothing. -/
private theorem Tied.rests (h : Tied P t x.before)
    (after : x.after = x.before.after s ((noise x.role).afterAll x.before.link x.trace) x.role)
    (unsent : Unsent x.trace) (events : x.output.events = [])
    (rests : Rests (x.before.session x.role) s) : Tied P (t.add x) x.after := by
  rw [after, afterAll_unsent unsent, t.add_idle (request_of_unsent unsent)
    (response_of_unsent unsent) (by rw [events]; rfl) (by rw [events]; rfl)]
  exact h.idle rests rfl (fun _ => rfl) fun _ => .inl

/-- A request is encrypted under a new id. -/
private theorem Tied.sends (h : Tied P t x.before) (side : x.role = .initiator)
    (method : x.method = .send c) (checked : Requestable P x.before.initiator c body next)
    (trace : x.trace = [⟨.writeTransport body, some payload⟩]) (events : x.output.events = [])
    (after : x.after = ⟨{ x.before.initiator with nextRequest := next, pendingRequests := m },
      x.before.responder, x.before.link.write body payload .initiator⟩)
    (pending : m = x.before.initiator.pendingRequests ∨
      m = x.before.initiator.pendingRequests.insert x.before.initiator.nextRequest c.capability) :
    Tied P (t.add x) x.after := by
  have added : t.add x
      = { t with sent := t.sent ++ [(x.before.initiator.nextRequest, c)] } := by
    simp [Traffic.add, Exchange.request, Exchange.response, Exchange.encrypted, side, method, trace,
      events, NoiseEvent.encrypts]
  have own := h.sides .initiator
  have advanced : x.before.initiator.nextRequest < next := by
    have step := (checkedAdd32_eq_some checked.advanced).2
    exact UInt32.lt_iff_toNat_lt.2 (by rw [step]; exact Nat.lt_succ_self _)
  have room : m.size ≤ maxPendingRequests := by
    rcases pending with rfl | rfl
    · exact own.bounded
    · exact Std.ExtTreeMap.size_insert_le.trans checked.sendable.2.2.2
  -- The new id is above every id sent, so it has not been answered.
  have unanswered : x.before.initiator.nextRequest ∉ t.answers.map Prod.fst := by
    intro mem
    obtain ⟨q, answer, same⟩ := List.mem_map.1 mem
    obtain ⟨q', known, first⟩ := List.mem_map.1 (h.answered q answer)
    have below := h.below q' known
    rw [first, same] at below
    exact absurd below (UInt32.lt_irrefl _)
  rw [after, added]
  refine { h with sides := Parties.forall_after (r := .initiator) ⟨own.role, own.started, room⟩ h.sides,
                  increasing := ?_, below := ?_, taken := ?_, awaiting := ?_,
                  bodies := List.rel_append h.bodies (.cons checked.encoded .nil),
                  requests := h.requests.trans (List.prefix_append _ _),
                  answered := fun q mem => ?_ }
  · refine List.pairwise_append.2 ⟨h.increasing, List.pairwise_singleton _ _, ?_⟩
    intro q mem q' last
    cases List.mem_singleton.1 last
    exact h.below q mem
  · intro q mem
    rcases List.mem_append.1 mem with earlier | last
    · exact UInt32.lt_trans (h.below q earlier) advanced
    · cases List.mem_singleton.1 last
      exact advanced
  · intro opened
    obtain ⟨within, taken⟩ := h.taken opened
    rw [List.length_append]
    exact ⟨within.trans (Nat.le_add_right _ _),
      taken.trans (List.take_append_of_le_length within).symm⟩
  · intro id cap found
    have old (found : x.before.initiator.pendingRequests[id]? = some cap) :
        (∃ c', (id, c') ∈ t.sent ++ [(x.before.initiator.nextRequest, c)] ∧
          c'.capability = cap) ∧ id ∉ t.answers.map Prod.fst := by
      obtain ⟨⟨c', known, capability⟩, unanswered⟩ := h.awaiting id cap found
      exact ⟨⟨c', List.mem_append_left _ known, capability⟩, unanswered⟩
    rcases pending with rfl | rfl
    · exact old found
    · change (Std.ExtTreeMap.insert _ _ _)[id]? = some cap at found
      rw [Std.ExtTreeMap.getElem?_insert] at found
      split_ifs at found with same
      · cases found
        rw [← Std.LawfulEqCmp.eq_of_compare same]
        exact ⟨⟨c, List.mem_append_right _ (List.mem_singleton_self _), rfl⟩, unanswered⟩
      · exact old found
  · rw [List.map_append]
    exact List.mem_append_left _ (h.answered q mem)

/-- A response is encrypted. -/
private theorem Tied.responds {id : UInt32} {response : Response}
    (h : Tied P t x.before) (side : x.role = .responder)
    (method : x.method = .respond id response)
    (checked : Respondable P x.before.responder id response body)
    (trace : x.trace = [⟨.writeTransport body, some payload⟩]) (events : x.output.events = [])
    (after : x.after = ⟨x.before.initiator, { x.before.responder with pendingRequests := m },
      x.before.link.write body payload .responder⟩)
    (pending : m.size ≤ x.before.responder.pendingRequests.size) :
    Tied P (t.add x) x.after := by
  have added : t.add x = { t with made := t.made ++ [(id, response)] } := by
    simp [Traffic.add, Exchange.request, Exchange.response, Exchange.encrypted, side, method, trace,
      events, NoiseEvent.encrypts]
  have own := h.sides .responder
  rw [after, added]
  refine { h with sides := Parties.forall_after (r := .responder)
                    ⟨own.role, own.started, pending.trans own.bounded⟩ h.sides,
                  replies := fun w mem => ?_ }
  rcases List.mem_append.1 mem with earlier | last
  · rcases h.replies w earlier with empty | ⟨q, known, encoded⟩
    · exact .inl empty
    · exact .inr ⟨q, List.mem_append_left _ known, encoded⟩
  · cases List.mem_singleton.1 last
    exact .inr ⟨_, List.mem_append_right _ (List.mem_singleton_self _), checked.encoded⟩

/-- Only `receive` returns what was received. -/
theorem Exchange.received_takes (output : x.output = .received r) :
    ∃ input s, x.method = .receive input ∧
      x.after = x.before.after s ((noise x.role).afterAll x.before.link x.trace) x.role ∧
      TakesE (receive P input) (x.before.session x.role) x.trace r s := by
  obtain ⟨s, after, takes, _⟩ := x.performed.takes
  rw [output] at takes
  cases method : x.method with
  | receive input =>
    rw [method] at takes
    obtain ⟨_, same, takes⟩ := takes_receive.1 takes
    cases same
    exact ⟨input, s, rfl, after, takes⟩
  | start =>
    rw [method] at takes
    obtain ⟨_, same, _⟩ := takes_start.1 takes
    cases same
  | send c =>
    rw [method] at takes
    obtain ⟨_, same, _⟩ := takes_send.1 takes
    cases same
  | respond requestId response =>
    rw [method] at takes
    obtain ⟨_, same, _⟩ := takes_respond.1 takes
    cases same
  | close =>
    rw [method] at takes
    obtain ⟨_, same, _⟩ := takes_close.1 takes
    cases same

/-- An event comes out of an accepted packet. -/
theorem Exchange.event_received {e : SessionEvent} (event : e ∈ x.output.events) :
    ∃ packet events reply s, e ∈ events ∧
      Received P (x.before.session x.role) packet x.trace (events, reply) s ∧
      (noise x.role).Permits x.before.link x.trace := by
  obtain ⟨_, _, _, permits⟩ := x.performed.takes
  cases output : x.output with
  | received r =>
    rw [output] at event
    cases r with
    | ok r =>
      obtain ⟨_, s, _, _, takes⟩ := Exchange.received_takes output
      obtain ⟨packet, _, received⟩ := receive_ok takes
      exact ⟨packet, r.1, r.2, s, event, received, permits⟩
    | error e => cases event
  | packet r | sent r | closed =>
    rw [output] at event
    cases event

theorem within_command (c : Command) : (Wire.value c).Within 15 :=
  (LawfulWire.within c).mono (by decide)

theorem within_response (r : Response) : (Wire.value r).Within 15 :=
  (LawfulWire.within r).mono (by decide)

/-- What a successful read of the transport returned was written by the peer. -/
theorem next_eq_some {d : Direction} {message payload : Bytes}
    (h : some payload = d.next message) : d.written[d.taken]? = some (payload, message) := by
  unfold Direction.next at h
  cases found : d.written[d.taken]? with
  | none => simp [found] at h
  | some w =>
    obtain ⟨p, out⟩ := w
    simp only [found] at h
    split_ifs at h with same
    cases h
    rw [same]

/-- A request reaches the responder. -/
private theorem Tied.requested (codec : P.Ciborium)
    {peer : SubjectKey} (h : Tied P t x.before) (side : x.role = .responder)
    (opened : openEnvelope P packet clear = .ok (Wire.value c))
    (kind : packet.kind = kindRequest)
    (room : x.before.responder.pendingRequests.size < maxPendingRequests)
    (channel : x.before.responder.channel = .transport)
    (permits : some clear = x.before.link.toResponder.next packet.payload)
    (method : ∃ b, x.method = .receive b)
    (output : x.output = .received (.ok ([.request packet.requestId c peer], none)))
    (after : x.after = ⟨x.before.initiator, { x.before.responder with
      lastRequestId := packet.requestId
      pendingRequests := x.before.responder.pendingRequests.insert packet.requestId c.capability },
      x.before.link.take .responder⟩) : Tied P (t.add x) x.after := by
  obtain ⟨b, method⟩ := method
  have added : t.add x = { t with received := t.received ++ [(packet.requestId, c)] } := by
    simp [Traffic.add, Exchange.request, Exchange.response, side, method, output,
      SessionOutput.events, SessionEvent.asRequest, SessionEvent.asResponse]
  have own := h.sides .responder
  obtain ⟨within, taken⟩ := h.taken (by rw [channel]; decide)
  -- The ciphertext is the next one, so the request is the next one sent.
  have next : t.sent[x.before.link.toResponder.taken]? = some (packet.requestId, c) := by
    obtain ⟨bound, written⟩ := List.getElem?_eq_some_iff.1 (next_eq_some permits)
    obtain ⟨same, each⟩ := List.forall₂_iff_get.1 h.bodies
    have encoded := each _ (same ▸ bound) bound
    rw [List.get_eq_getElem, List.get_eq_getElem, written] at encoded
    have read := body_openEnvelope opened
    rw [kind] at read
    obtain ⟨_, id, _, value⟩ :=
      body_injective codec (within_command _) (within_command _) encoded read
    rw [List.getElem?_eq_getElem (same ▸ bound)]
    exact congrArg some (Prod.ext id (LawfulWire.value_injective value))
  have more : t.received ++ [(packet.requestId, c)]
      = t.sent.take (x.before.link.toResponder.taken + 1) := by
    rw [taken, List.take_add_one, next, Option.toList_some]
  rw [after, added, more]
  exact { h with
    sides := Parties.forall_after (r := .responder)
      ⟨own.role, own.started, Std.ExtTreeMap.size_insert_le.trans room⟩ h.sides
    taken := fun _ => ⟨(List.getElem?_eq_some_iff.1 next).1, rfl⟩
    requests := List.take_prefix _ _ }

/-- What the initiator reads as a response is one that the responder made. -/
theorem Tied.genuine (codec : P.Ciborium) {r : Response} (h : Tied P t p)
    (opened : openEnvelope P packet clear = .ok (Wire.value r)) (kind : packet.kind = kindResponse)
    (permits : some clear = p.link.toInitiator.next packet.payload) :
    (packet.requestId, r) ∈ t.made := by
  have read := body_openEnvelope opened
  rcases h.replies _ (List.mem_of_getElem? (next_eq_some permits)) with
    empty | ⟨⟨id, r'⟩, known, encoded⟩
  · obtain ⟨written, _⟩ := (body_eq_ok codec (within_response r)).1 read
    have pos := Value.write_pos (authenticatedValue packet.kind packet.requestId packet.capabilities
      (Wire.value r))
    cases (show clear = [] from empty)
    rw [written] at pos
    cases pos
  · rw [kind] at read
    obtain ⟨_, rfl, _, value⟩ :=
      body_injective codec (within_response _) (within_response _) encoded read
    cases LawfulWire.value_injective value
    exact known

/-- A response reaches the initiator. -/
private theorem Tied.answers {r : Response} (h : Tied P t x.before)
    (side : x.role = .initiator) (method : ∃ b, x.method = .receive b)
    (expected : x.before.initiator.pendingRequests[packet.requestId]? = some r.capability)
    (output : x.output = .received (.ok ([.response packet.requestId r], none)))
    (after : x.after = ⟨{ x.before.initiator with
      pendingRequests := x.before.initiator.pendingRequests.erase packet.requestId },
      x.before.responder, x.before.link.take .initiator⟩) : Tied P (t.add x) x.after := by
  obtain ⟨b, method⟩ := method
  have added : t.add x = { t with answers := t.answers ++ [(packet.requestId, r)] } := by
    simp [Traffic.add, Exchange.request, Exchange.response, side, method, output,
      SessionOutput.events, SessionEvent.asRequest, SessionEvent.asResponse]
  have own := h.sides .initiator
  obtain ⟨⟨c, known, _⟩, unanswered⟩ := h.awaiting _ _ expected
  rw [after, added]
  refine { h with sides := Parties.forall_after (r := .initiator)
                    ⟨own.role, own.started, Std.ExtTreeMap.size_erase_le.trans own.bounded⟩ h.sides,
                  awaiting := ?_, answered := ?_, once := ?_ }
  · rw [List.map_append]
    intro id cap found
    change (Std.ExtTreeMap.erase _ _)[id]? = some cap at found
    rw [Std.ExtTreeMap.getElem?_erase] at found
    split_ifs at found with same
    obtain ⟨request, waiting⟩ := h.awaiting id cap found
    refine ⟨request, fun mem => ?_⟩
    rcases List.mem_append.1 mem with earlier | last
    · exact waiting earlier
    · rw [List.mem_singleton.1 last] at same
      exact same Std.ReflCmp.compare_self
  · intro q mem
    rcases List.mem_append.1 mem with earlier | last
    · exact h.answered q earlier
    · cases List.mem_singleton.1 last
      exact List.mem_map.2 ⟨_, known, rfl⟩
  · rw [List.map_append]
    refine List.nodup_append.2 ⟨h.once, List.nodup_singleton _, ?_⟩
    intro id mem id' last same
    rw [same, List.mem_singleton.1 last] at mem
    exact unanswered mem

private theorem Completes.silent (h : Completes P ch tr events) :
    events.filterMap SessionEvent.asRequest = [] ∧ events.filterMap SessionEvent.asResponse = [] := by
  cases h <;> exact ⟨rfl, rfl⟩

theorem read_open {input out : Bytes} {ch ch' : NoiseState}
    (h : TakesE (NoiseChannel.read input) ch tr (.ok out) ch') : ch ≠ .closed := by
  rintro rfl
  obtain ⟨_, ⟨inside, _⟩ | ⟨inside, _⟩⟩ := read_ok.1 h <;> cases inside

/-- The responder's first handshake message is read before the transport exists. -/
private theorem handshake_unread {ch₁ ch₂ : NoiseState} {tr₁ tr₂ tr₃ : List NoiseEvent}
    {reply : Option Bytes}
    (read : TakesE (NoiseChannel.read packet.payload) .handshake tr₁ (.ok []) ch₁)
    (answered : Answers P .responder ch₁ tr₂ reply ch₂) (completed : Completes P ch₂ tr₃ events) :
    ∀ ev ∈ tr₁ ++ (tr₂ ++ tr₃), ∀ message, ev.effect ≠ .readTransport message := by
  have finishes {tr : List NoiseEvent} {ch : NoiseState} (h : Finishes tr ch) :
      ∀ ev ∈ tr, ∀ message, ev.effect ≠ .readTransport message := by
    cases h <;> simp
  intro ev mem
  rcases List.mem_append.1 mem with first | later
  · obtain ⟨_, ⟨_, rest, done, rfl⟩ | ⟨inside, _⟩⟩ := read_ok.1 read
    · rcases List.mem_cons.1 first with rfl | later
      · simp
      · exact finishes done ev later
    · cases inside
  rcases List.mem_append.1 later with second | third
  · cases answered with
    | responder wrote _ =>
      obtain ⟨_, ⟨_, rest, done, rfl⟩ | ⟨_, _, rfl⟩⟩ := write_ok.1 wrote
      · rcases List.mem_cons.1 second with rfl | later
        · simp
        · exact finishes done ev later
      · cases List.mem_singleton.1 second
        simp
  · cases completed with
    | transport _ =>
      cases List.mem_singleton.1 third
      simp
    | handshake => cases third

private theorem Tied.receives (codec : P.Ciborium) {input : Bytes} (h : Tied P t x.before)
    (method : x.method = .receive input)
    (takes : TakesE (receive P input) (x.before.session x.role) tr r s)
    (permits : (noise x.role).Permits x.before.link tr)
    (after : x.after = x.before.after s ((noise x.role).afterAll x.before.link tr) x.role)
    (output : x.output = .received r) : Tied P (t.add x) x.after := by
  have own := h.sides x.role
  obtain ⟨same, effects⟩ := receive_frame takes
  rw [own.role] at effects
  obtain ⟨written, replies⟩ := afterAll_receiving (l := x.before.link) effects
  have request : x.request = none := by
    cases side : x.role <;> simp [Exchange.request, side, method]
  have response : x.response = none := by
    cases side : x.role <;> simp [Exchange.response, side, method]
  cases r with
  | error e =>
    obtain ⟨closed, cleared⟩ := receive_error takes
    have silent : x.output.events = [] := by rw [output]; rfl
    rw [after, t.add_idle request response (by rw [silent]; rfl) (by rw [silent]; rfl)]
    refine h.idle ⟨same.role, same.capabilities, by rw [same.nextRequest]; exact UInt32.le_rfl,
      fun _ opened => ?_, .inr cleared, fun _ => closed⟩ written (fun opened => ?_) replies
    · cases closed.symm.trans opened
    · exact afterAll_untaken fun side => absurd closed (opened side)
  | ok r =>
    obtain ⟨packet, _, received⟩ := receive_ok takes
    cases received with
    | @handshake ch₁ ch₂ tr₁ tr₂ tr₃ events reply _ turn read answered completed =>
      obtain ⟨requests, responses⟩ := Completes.silent completed
      rw [after, t.add_idle request response (by rw [output]; exact requests)
        (by rw [output]; exact responses)]
      refine h.idle ⟨rfl, rfl, UInt32.le_rfl, fun _ _ => rfl, .inl rfl,
        fun closed => absurd closed (read_open read)⟩ written (fun _ => afterAll_untaken ?_) replies
      intro side
      have channel : (x.before.session x.role).channel = .handshake := by
        cases held : (x.before.session x.role).channel with
        | handshake => rfl
        | transport => cases side.symm.trans (own.role.symm.trans (turn.1 (own.started held)))
        | closed => exact absurd held (read_open read)
      rw [own.role, side] at answered
      exact handshake_unread (channel ▸ read) answered completed
    | request kind role _ _ channel _ opened _ _ _ _ room =>
      have side := own.role.symm.trans role
      rw [side] at after room channel permits
      exact h.requested codec side opened kind room channel permits.1 ⟨input, method⟩ output after
    | response _ role _ _ _ _ _ _ expected =>
      have side := own.role.symm.trans role
      rw [side] at after expected
      exact h.answers side ⟨input, method⟩ expected output after

/-- Every call of either side keeps the two sessions linked. -/
theorem Tied.step (codec : P.Ciborium) (h : Tied P t x.before) : Tied P (t.add x) x.after := by
  obtain ⟨s, after, takes, permits⟩ := x.performed.takes
  have own := h.sides x.role
  have stays (closed : (x.before.session x.role).channel = .closed) : s.channel = .closed :=
    (program_closed closed takes).1
  cases method : x.method with
  | start =>
    rw [method] at takes
    obtain ⟨r, output, takes⟩ := takes_start.1 takes
    have events : x.output.events = [] := by rw [output]; rfl
    obtain ⟨rfl, trace, _⟩ | ⟨_, unstarted, _, ch, wrote, rfl, _⟩ := start_takes takes
    · exact h.rests after (by rw [trace]; exact unsent_nil) events (.refl _)
    · have outside : (x.before.session x.role).channel ≠ .transport := fun inside => by
        cases (own.started inside).symm.trans unstarted
      exact h.rests after (write_unsent wrote outside) events
        ⟨rfl, rfl, UInt32.le_rfl, fun _ _ => rfl, .inl rfl, stays⟩
  | send c =>
    rw [method] at takes
    obtain ⟨r, output, takes⟩ := takes_send.1 takes
    have events : x.output.events = [] := by rw [output]; rfl
    generalize trace : x.trace = tr at takes
    cases send_takes takes with
    | refused e unsent advanced channel =>
      exact h.rests after (trace ▸ unsent) events (.channel advanced channel)
    | lost checked _ =>
      have side := own.role.symm.trans checked.sendable.1
      rw [side, trace] at after
      rw [side] at checked
      exact h.sends side method checked trace events after (.inl rfl)
    | sent checked _ =>
      have side := own.role.symm.trans checked.sendable.1
      rw [side, trace] at after
      rw [side] at checked
      exact h.sends side method checked trace events after (.inr rfl)
  | respond requestId response =>
    rw [method] at takes
    obtain ⟨r, output, takes⟩ := takes_respond.1 takes
    have events : x.output.events = [] := by rw [output]; rfl
    generalize trace : x.trace = tr at takes
    cases respond_takes takes with
    | refused e unsent channel =>
      exact h.rests after (trace ▸ unsent) events (.channel UInt32.le_rfl channel)
    | lost checked _ =>
      have side := own.role.symm.trans checked.role
      rw [side, trace] at after
      rw [side] at checked
      exact h.responds side method checked trace events after le_rfl
    | sent checked _ =>
      have side := own.role.symm.trans checked.role
      rw [side, trace] at after
      rw [side] at checked
      exact h.responds side method checked trace events after Std.ExtTreeMap.size_erase_le
  | receive input =>
    rw [method] at takes
    obtain ⟨r, output, takes⟩ := takes_receive.1 takes
    exact h.receives codec method takes permits after output
  | close =>
    rw [method] at takes
    obtain ⟨trace, output, rfl⟩ := takes_close.1 takes
    exact h.rests after (by rw [trace]; exact unsent_nil) (by rw [output]; rfl)
      ⟨rfl, rfl, UInt32.le_rfl, fun _ opened => (by cases opened), .inr rfl, fun _ => rfl⟩

theorem Tied.fresh {initiator responder : Session} (first : Opened P .initiator initiator)
    (second : Opened P .responder responder) :
    Tied P (traffic ([] : List (Exchange P))) ⟨initiator, responder, .quiet⟩ := by
  obtain ⟨_, rfl, _⟩ := first.eq_fresh
  obtain ⟨_, rfl, _⟩ := second.eq_fresh
  exact {
    sides := fun role => by
      cases role <;> exact ⟨rfl, fun h => (by cases h), by simp [Parties.session, Session.fresh]⟩
    increasing := .nil
    below := fun _ h => by cases h
    bodies := .nil
    taken := fun _ => ⟨le_rfl, rfl⟩
    requests := List.prefix_rfl
    replies := fun _ h => by cases h
    awaiting := fun _ _ h => by simp [Session.fresh] at h
    answered := fun _ h => by cases h
    once := .nil }

end Steps

section Talks
variable {xs : List (Exchange P)} {x : Exchange P} {start p : Parties}

theorem Talk.linked (codec : P.Ciborium) (h : Tied P (traffic ([] : List (Exchange P))) start)
    (talk : Talk P start xs p) : Tied P (traffic xs) p := by
  induction talk with
  | nil => exact h
  | snoc x _ ih =>
    rw [traffic_snoc]
    exact ih.step codec

/-- Who has refused a packet is closed. -/
theorem Talk.closed (talk : Talk P start xs p) :
    ∀ x ∈ xs, x.refused → (p.session x.role).channel = .closed := by
  induction talk with
  | nil => exact fun _ h => by cases h
  | snoc x _ ih =>
    intro y mem refused
    rcases List.mem_append.1 mem with earlier | last
    · obtain ⟨s, after, takes, _⟩ := x.performed.takes
      rw [after]
      exact Parties.forall_after
        (C := fun r s' => (x.before.session r).channel = .closed → s'.channel = .closed)
        (fun closed => (program_closed closed takes).1) (fun _ => id) _ (ih y earlier refused)
    · cases List.mem_singleton.1 last
      obtain ⟨e, output⟩ := refused
      obtain ⟨_, s, _, after, takes⟩ := Exchange.received_takes output
      have closed := (receive_error takes).1
      rw [after]
      cases x.role <;> exact closed

theorem Talk.split {pre post : List (Exchange P)}
    (talk : Talk P start (pre ++ x :: post) p) : Talk P start pre x.before := by
  generalize whole : pre ++ x :: post = xs at talk
  induction talk generalizing post with
  | nil => cases pre <;> cases whole
  | snoc y earlier ih =>
    rcases List.eq_nil_or_concat post with rfl | ⟨post, z, rfl⟩
    · obtain ⟨rfl, last⟩ := List.append_inj' whole rfl
      cases last
      exact earlier
    · rw [List.concat_eq_append, ← List.cons_append, ← List.append_assoc] at whole
      obtain ⟨rfl, _⟩ := List.append_inj' whole rfl
      exact ih rfl

end Talks

end OpenLock
