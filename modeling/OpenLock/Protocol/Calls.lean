import OpenLock.Protocol.Session

/-! What each call of a session can do: its effects, its result and the state it leaves. -/
namespace OpenLock
open Cbor Effects NoiseChannel

namespace Session
variable {P : Primitives} {s s' : Session} {tr : List NoiseEvent} {packet : Packet}
  {r : List SessionEvent × Option Bytes} {input : Bytes} {α : Type} {reply : Option Bytes}
  {value : Value} {x : Chan α} {e : Error}

@[simp] theorem takes_onChannel {r : Except Error α} : TakesE (onChannel x) s tr r s' ↔
      ∃ ch, TakesE x s.channel tr r ch ∧ s' = { s with channel := ch } := takesE_focus

theorem checkPacket_eq_ok : s.checkPacket packet = .ok () ↔
    (packet.kind = kindHandshake → (s.started = true ↔ s.role = .initiator)) ∧
    (packet.kind ≠ kindHandshake → s.started = true) ∧
    (packet.kind = kindRequest → s.role = .responder ∧ s.lastRequestId < packet.requestId) ∧
    (packet.kind = kindResponse → s.role = .initiator ∧ packet.requestId ∈ s.pendingRequests) := by
  unfold checkPacket
  rcases eq_or_ne packet.kind kindHandshake with handshake | message
  · have differs : kindHandshake ≠ kindRequest ∧ kindHandshake ≠ kindResponse := by decide
    cases s.role <;> simp [handshake, differs]
  · simp [message, Decidable.imp_iff_not_or]

/-- The second half of the handshake at the side that received a message. -/
inductive Answers (P : Primitives) :
    Role → NoiseState → List NoiseEvent → Option Bytes → NoiseState → Prop
  | initiator (ch : NoiseState) : Answers P .initiator ch [] none ch
  | responder {ch ch' : NoiseState} {tr : List NoiseEvent} {payload reply : Bytes}
      (written : TakesE (write []) ch tr (.ok payload) ch')
      (encoded : encodePacket P ⟨kindHandshake, 0, 0, payload⟩ = .ok reply) :
      Answers P .responder ch tr (some reply) ch'

/-- The event that reports a channel in transport mode. -/
inductive Completes (P : Primitives) : NoiseState → List NoiseEvent → List SessionEvent → Prop
  | transport {key : Bytes} {peer : SubjectKey} (identified : subjectKey P key = .ok peer) :
      Completes P .transport [⟨.remoteStatic, some key⟩] [.handshakeComplete peer]
  | handshake : Completes P .handshake [] []

/-- A packet that is accepted, with the calls into the channel, the events it causes and the
reply it calls for. -/
inductive Received (P : Primitives) (s : Session) (packet : Packet) :
    List NoiseEvent → List SessionEvent × Option Bytes → Session → Prop
  | handshake {ch₁ ch₂ : NoiseState} {tr₁ tr₂ tr₃ : List NoiseEvent} {events : List SessionEvent}
      {reply : Option Bytes}
      (kind : packet.kind = kindHandshake)
      (turn : s.started = true ↔ s.role = .initiator)
      (read : TakesE (NoiseChannel.read packet.payload) s.channel tr₁ (.ok []) ch₁)
      (answered : Answers P s.role ch₁ tr₂ reply ch₂)
      (completed : Completes P ch₂ tr₃ events) :
      Received P s packet (tr₁ ++ (tr₂ ++ tr₃)) (events, reply)
        { s with started := true, channel := ch₂ }
  | request {clear key : Bytes} {command : Command} {peer : SubjectKey}
      (kind : packet.kind = kindRequest)
      (role : s.role = .responder)
      (started : s.started = true)
      (newer : s.lastRequestId < packet.requestId)
      (channel : s.channel = .transport)
      (short : packet.payload.length ≤ maxMessageSize)
      (opened : openEnvelope P packet clear = .ok (Wire.value command))
      (allowed : LawfulWire.Allowed command)
      (identified : subjectKey P key = .ok peer)
      (offered : command.capability &&& packet.capabilities = command.capability)
      (supported : command.capability &&& s.capabilities = command.capability)
      (room : s.pendingRequests.size < maxPendingRequests) :
      Received P s packet [⟨.readTransport packet.payload, some clear⟩, ⟨.remoteStatic, some key⟩]
        ([.request packet.requestId command peer], none)
        { s with
          lastRequestId := packet.requestId
          pendingRequests := s.pendingRequests.insert packet.requestId command.capability }
  | response {clear key : Bytes} {response : Response} {peer : SubjectKey}
      (kind : packet.kind = kindResponse)
      (role : s.role = .initiator)
      (started : s.started = true)
      (channel : s.channel = .transport)
      (short : packet.payload.length ≤ maxMessageSize)
      (opened : openEnvelope P packet clear = .ok (Wire.value response))
      (allowed : LawfulWire.Allowed response)
      (identified : subjectKey P key = .ok peer)
      (expected : s.pendingRequests[packet.requestId]? = some response.capability)
      (offered : response.capability &&& packet.capabilities = response.capability) :
      Received P s packet [⟨.readTransport packet.payload, some clear⟩, ⟨.remoteStatic, some key⟩]
        ([.response packet.requestId response], none)
        { s with pendingRequests := s.pendingRequests.erase packet.requestId }

theorem handshakePacket_ok {reply : Bytes} :
    TakesE (handshakePacket P) s tr (.ok reply) s' ↔
      ∃ payload ch, TakesE (write []) s.channel tr (.ok payload) ch ∧
        encodePacket P ⟨kindHandshake, 0, 0, payload⟩ = .ok reply ∧
        s' = { s with channel := ch } := by
  simp only [handshakePacket, takesE_bind_ok, takes_onChannel, takesE_ofExcept]
  constructor
  · rintro ⟨payload, _, tr₁, _, ⟨ch, written, rfl⟩, ⟨rfl, encoded, rfl⟩, rfl⟩
    rw [List.append_nil]
    exact ⟨payload, ch, written, encoded, rfl⟩
  · rintro ⟨payload, ch, written, encoded, rfl⟩
    exact ⟨payload, _, tr, [], ⟨ch, written, rfl⟩, ⟨rfl, encoded, rfl⟩, (List.append_nil tr).symm⟩

private theorem handshakeReply_ok (h : TakesE (handshakeReply P) s tr (.ok reply) s') :
    ∃ ch, Answers P s.role s.channel tr reply ch ∧ s' = { s with channel := ch } := by
  unfold handshakeReply at h
  rw [takesE_get_bind] at h
  split_ifs at h with role
  · simp only [takesE_map_ok, handshakePacket_ok] at h
    obtain ⟨_, ⟨payload, ch, written, encoded, rfl⟩, rfl⟩ := h
    rw [role]
    exact ⟨ch, .responder written encoded, rfl⟩
  · simp only [takesE_pure, Except.ok.injEq] at h
    obtain ⟨rfl, rfl, rfl⟩ := h
    refine ⟨s'.channel, ?_, rfl⟩
    cases held : s'.role with
    | initiator => exact .initiator _
    | responder => exact absurd held role

private theorem handshakeEvents_ok {events : List SessionEvent} (opened : s.channel ≠ .closed)
    (h : TakesE (handshakeEvents P) s tr (.ok events) s') :
    Completes P s.channel tr events ∧ s' = s := by
  unfold handshakeEvents at h
  rw [takesE_get_bind] at h
  split_ifs at h with transport
  · simp only [takesE_bind_ok, takes_onChannel, peerStatic_ok, takesE_pure, Except.ok.injEq] at h
    obtain ⟨peer, _, _, _, ⟨_, ⟨_, key, rfl, rfl, identified⟩, rfl⟩, ⟨rfl, rfl, rfl⟩, rfl⟩ := h
    refine ⟨?_, rfl⟩
    rw [transport]
    exact .transport identified
  · simp only [takesE_pure, Except.ok.injEq] at h
    obtain ⟨rfl, rfl, rfl⟩ := h
    cases held : s'.channel with
    | handshake => exact ⟨.handshake, rfl⟩
    | transport => exact absurd held transport
    | closed => exact absurd held opened

private theorem Answers.open {role : Role} {ch ch' : NoiseState}
    (h : Answers P role ch tr reply ch') (opened : ch ≠ .closed) : ch' ≠ .closed := by
  cases h with
  | initiator => exact opened
  | responder written _ =>
    obtain ⟨_, ⟨_, _, finishes, _⟩ | ⟨_, rfl, _⟩⟩ := write_ok.1 written
    · exact finishes.open
    · decide

theorem receiveHandshake_ok (kind : packet.kind = kindHandshake)
    (turn : s.started = true ↔ s.role = .initiator)
    (h : TakesE (receiveHandshake P packet) s tr (.ok r) s') : Received P s packet tr r s' := by
  simp only [receiveHandshake, takesE_bind_ok, takes_onChannel, takesE_failIf, takesE_modify,
    takesE_pure, Except.ok.injEq] at h
  obtain ⟨clear, _, tr₁, _, ⟨ch₁, read, rfl⟩, ⟨_, _, _, _, ⟨rfl, empty, rfl⟩,
    ⟨_, _, _, _, ⟨rfl, _, rfl⟩, ⟨reply, s₂, tr₂, _, replied, ⟨events, s₃, tr₃, _, reported,
    ⟨rfl, rfl, rfl⟩, rfl⟩, rfl⟩, rfl⟩, rfl⟩, rfl⟩ := h
  obtain rfl : clear = [] := by
    by_contra some
    rw [if_pos some] at empty
    cases empty
  have opened : ch₁ ≠ .closed := by
    obtain ⟨_, ⟨_, _, finishes, _⟩ | ⟨_, rfl, _⟩⟩ := read_ok.1 read
    · exact finishes.open
    · decide
  obtain ⟨ch₂, answered, rfl⟩ := handshakeReply_ok replied
  obtain ⟨completed, rfl⟩ := handshakeEvents_ok (answered.open opened) reported
  simp only [List.nil_append, List.append_nil]
  exact .handshake kind turn read answered completed

private theorem receiveRequest_ok {peer : SubjectKey}
    (h : TakesE (receiveRequest packet value peer) s tr (.ok r) s') :
    ∃ command : Command, Wire.value command = value ∧ LawfulWire.Allowed command ∧
      command.capability &&& packet.capabilities = command.capability ∧
      command.capability &&& s.capabilities = command.capability ∧
      s.pendingRequests.size < maxPendingRequests ∧ tr = [] ∧
      r = ([.request packet.requestId command peer], none) ∧
      s' = { s with
        lastRequestId := packet.requestId
        pendingRequests := s.pendingRequests.insert packet.requestId command.capability } := by
  unfold receiveRequest at h
  rw [takesE_ofExcept_bind] at h
  obtain ⟨command, parsed, h⟩ | ⟨_, _, _, h, _⟩ := h
  · obtain ⟨valued, allowed⟩ := LawfulWire.parse_eq_ok.1 parsed
    rw [takesE_get_bind, takesE_failIf_bind] at h
    obtain ⟨capable, h⟩ | ⟨_, _, h, _⟩ := h
    · rw [takesE_failIf_bind, takesE_modify_bind, takesE_pure] at h
      obtain ⟨room, rfl, result, rfl⟩ | ⟨_, _, h, _⟩ := h
      · rw [not_or, not_not, not_not] at capable
        exact ⟨command, valued, allowed, capable.1, capable.2, Nat.not_le.1 room, rfl,
          Except.ok.inj result, rfl⟩
      · cases h
    · cases h
  · cases h

private theorem receiveResponse_ok (h : TakesE (receiveResponse packet value) s tr (.ok r) s') :
    ∃ response : Response, Wire.value response = value ∧ LawfulWire.Allowed response ∧
      s.pendingRequests[packet.requestId]? = some response.capability ∧
      response.capability &&& packet.capabilities = response.capability ∧ tr = [] ∧
      r = ([.response packet.requestId response], none) ∧
      s' = { s with pendingRequests := s.pendingRequests.erase packet.requestId } := by
  unfold receiveResponse at h
  rw [takesE_ofExcept_bind] at h
  obtain ⟨response, parsed, h⟩ | ⟨_, _, _, h, _⟩ := h
  · obtain ⟨valued, allowed⟩ := LawfulWire.parse_eq_ok.1 parsed
    rw [takesE_get_bind] at h
    cases found : s.pendingRequests[packet.requestId]? with
    | none =>
      rw [found] at h
      simp at h
    | some expected =>
      rw [found] at h
      change TakesE (failIf _ _ >>= _) s tr _ s' at h
      rw [takesE_failIf_bind, takesE_modify_bind, takesE_pure] at h
      obtain ⟨capable, rfl, result, rfl⟩ | ⟨_, _, h, _⟩ := h
      · rw [not_or, not_not, not_not] at capable
        obtain ⟨rfl, offered⟩ := capable
        exact ⟨response, valued, allowed, rfl, offered, rfl, Except.ok.inj result, rfl⟩
      · cases h
  · cases h

theorem receiveMessage_ok (admitted : s.checkPacket packet = .ok ())
    (kind : packet.kind ≠ kindHandshake) (h : TakesE (receiveMessage P packet) s tr (.ok r) s') :
    Received P s packet tr r s' := by
  obtain ⟨_, started, request, response⟩ := checkPacket_eq_ok.1 admitted
  unfold receiveMessage at h
  rw [takesE_get_bind, takesE_failIf_bind] at h
  obtain ⟨transport, h⟩ | ⟨_, _, h, _⟩ := h
  · rw [not_not] at transport
    have same : { s with channel := .transport } = s := by rw [← transport]
    simp only [takesE_bind_ok, takes_onChannel, takesE_ofExcept, read_ok, peerStatic_ok, transport,
      reduceCtorEq, false_and, true_and, false_or] at h
    obtain ⟨clear, _, _, _, ⟨_, ⟨short, rfl, rfl⟩, rfl⟩, ⟨value, _, _, _, ⟨rfl, opened, rfl⟩,
      ⟨peer, _, _, tr, ⟨_, ⟨_, key, rfl, rfl, identified⟩, rfl⟩, h, rfl⟩, rfl⟩, rfl⟩ := h
    change TakesE _ { s with channel := .transport } tr _ s' at h
    rw [same] at h
    split_ifs at h with isRequest isResponse
    · obtain ⟨command, rfl, allowed, offered, supported, room, rfl, rfl, rfl⟩ :=
        receiveRequest_ok h
      exact .request isRequest (request isRequest).1 (started kind) (request isRequest).2 transport
        short opened allowed identified offered supported room
    · obtain ⟨answer, rfl, allowed, expected, offered, rfl, rfl, rfl⟩ := receiveResponse_ok h
      exact .response isResponse (response isResponse).1 (started kind) transport short opened
        allowed identified expected offered
    · simp at h
  · cases h

/-- Everything an accepted input can do. -/
theorem receive_ok (h : TakesE (receive P input) s tr (.ok r) s') :
    ∃ packet, decodePacket P input = .ok packet ∧ Received P s packet tr r s' := by
  unfold receive at h
  rw [takesE_onError] at h
  obtain ⟨_, h, same⟩ | ⟨_, _, _, h, _⟩ := h
  · cases same
    unfold receiveInner at h
    rw [takesE_ofExcept_bind] at h
    obtain ⟨packet, decoded, h⟩ | ⟨_, _, _, h, _⟩ := h
    · rw [takesE_get_bind, takesE_ofExcept_bind] at h
      obtain ⟨_, admitted, h⟩ | ⟨_, _, _, h, _⟩ := h
      · refine ⟨packet, decoded, ?_⟩
        split_ifs at h with kind
        · exact receiveHandshake_ok kind ((checkPacket_eq_ok.1 admitted).1 kind) h
        · exact receiveMessage_ok admitted kind h
      · cases h
    · cases h
  · cases h

/-- What no call but `send` changes. -/
structure SameParty (s s' : Session) : Prop where
  role : s'.role = s.role
  capabilities : s'.capabilities = s.capabilities
  nextRequest : s'.nextRequest = s.nextRequest

instance : Std.Refl SameParty := ⟨fun _ => ⟨rfl, rfl, rfl⟩⟩

instance : IsTrans Session SameParty :=
  ⟨fun _ _ _ h h' => ⟨h'.role.trans h.role, h'.capabilities.trans h.capabilities,
    h'.nextRequest.trans h.nextRequest⟩⟩

/-- The calls of a session that receives: only a responder encrypts anything, and that is an
empty handshake payload. -/
def Receiving (role : Role) : NoiseCall → Prop
  | .writeTransport payload => role = .responder ∧ payload = []
  | _ => True

private theorem stays_failIf {C : Type} {K : NoiseCall → Prop} {R : C → C → Prop} [Std.Refl R]
    {p : Prop} [Decidable p] :
    StaysE K R (failIf p e : ExceptT Error (StateT C (Prog NoiseAnswer)) Unit) := by
  unfold failIf
  exact .ite (.throw e) (.pure ())

private def AnyState (_ _ : NoiseState) : Prop := True

private instance : Std.Refl AnyState := ⟨fun _ => trivial⟩

private instance : IsTrans NoiseState AnyState := ⟨fun _ _ _ _ _ => trivial⟩

variable {role : Role} {id : UInt32} {r : Except Error Bytes} {caps : UInt64} {kind : UInt8}
  {response : Response} {n : Nat} {c : Command}

private theorem stays_settle (out : Option Bytes) :
    StaysE (Receiving role) AnyState (settle out) := by
  cases out with
  | none => exact .bind (.set fun _ => trivial) fun _ => .throw _
  | some out =>
    refine .bind ?_ fun _ => .pure out
    refine .bind .get fun _ => .ite (.bind (.ask trivial) fun _ => .ite ?_ (.pure _)) (.pure _)
    exact .bind (.set fun _ => trivial) fun _ => .bind (.ask trivial) fun _ =>
      .ite (.set fun _ => trivial) (.throw _)

private theorem stays_write : StaysE (Receiving .responder) AnyState (write []) := by
  refine .bind stays_failIf fun _ => .bind .get fun ch => ?_
  cases ch with
  | handshake => exact .bind (.ask trivial) stays_settle
  | transport => exact .bind (.ask ⟨rfl, rfl⟩) stays_settle
  | closed => exact .throw _

private theorem stays_read (input : Bytes) :
    StaysE (Receiving role) AnyState (NoiseChannel.read input) := by
  refine .ite (.bind (.set fun _ => trivial) fun _ => .throw _) (.bind .get fun ch => ?_)
  cases ch with
  | handshake => exact .bind (.ask trivial) stays_settle
  | transport => exact .bind (.ask trivial) stays_settle
  | closed => exact .throw _

private theorem stays_peerStatic : StaysE (Receiving role) AnyState (peerStatic P) := by
  refine .bind .get fun ch => ?_
  cases ch with
  | handshake | transport =>
    exact .bind (.ask trivial) fun _ => .bind (.ofExcept _) fun _ => .ofExcept _
  | closed => exact .throw _

private theorem stays_onChannel (h : StaysE (Receiving role) AnyState x) :
    StaysE (Receiving role) SameParty (onChannel x) :=
  .focus h fun _ _ _ => ⟨rfl, rfl, rfl⟩

private theorem stays_handshakeReply : StaysAt (Receiving s.role) SameParty (handshakeReply P) s := by
  change StaysAt _ _ (if s.role = .responder then some <$> handshakePacket P else pure none) s
  split_ifs with responder
  · rw [responder]
    exact StaysE.map _ (.bind (stays_onChannel stays_write) fun _ => .ofExcept _) s
  · exact StaysE.pure none s

private theorem stays_receiveHandshake :
    StaysAt (Receiving s.role) SameParty (receiveHandshake P packet) s := by
  have events (role) : StaysE (Receiving role) SameParty (handshakeEvents P) :=
    .bind .get fun _ => .ite
      (.bind (stays_onChannel stays_peerStatic) fun _ => .pure _) (.pure _)
  refine StaysAt.bind (stays_onChannel (stays_read _) s) fun _ d₁ h₁ =>
    StaysAt.bind (stays_failIf d₁) fun _ d₂ h₂ =>
    StaysAt.bind (StaysE.modify (fun _ => ⟨rfl, rfl, rfl⟩) d₂) fun _ d₃ h₃ =>
    StaysAt.bind ?_ fun _ d₄ _ =>
    StaysAt.bind (events _ d₄) fun _ d₅ _ => StaysE.pure _ d₅
  have role : d₃.role = s.role := h₃.role.trans (h₂.role.trans h₁.role)
  rw [← role]
  exact stays_handshakeReply

private theorem stays_receiveMessage :
    StaysE (Receiving role) SameParty (receiveMessage P packet) := by
  have request (value peer) : StaysE (Receiving role) SameParty (receiveRequest packet value peer) :=
    .bind (.ofExcept _) fun _ => .bind .get fun _ => .bind stays_failIf fun _ =>
      .bind stays_failIf fun _ => .bind (.modify fun _ => ⟨rfl, rfl, rfl⟩) fun _ => .pure _
  have response (value) : StaysE (Receiving role) SameParty (receiveResponse packet value) := by
    refine .bind (.ofExcept _) fun _ => .bind .get fun _ => ?_
    split
    · exact .bind stays_failIf fun _ => .bind (.modify fun _ => ⟨rfl, rfl, rfl⟩) fun _ => .pure _
    · exact .throw _
  exact .bind .get fun _ => .bind stays_failIf fun _ =>
    .bind (stays_onChannel (stays_read _)) fun _ => .bind (.ofExcept _) fun value =>
      .bind (stays_onChannel stays_peerStatic) fun peer =>
        .ite (request value peer) (.ite (response value) (.throw _))

private theorem stays_receiveInner (input : Bytes) :
    StaysAt (Receiving s.role) SameParty (receiveInner P input) s := by
  refine StaysAt.bind (StaysE.ofExcept _ s) fun _ d₁ h₁ =>
    StaysAt.bind (StaysE.get d₁) fun _ d₂ h₂ =>
    StaysAt.bind (StaysE.ofExcept _ d₂) fun _ d₃ h₃ => ?_
  have role : d₃.role = s.role := h₃.role.trans (h₂.role.trans h₁.role)
  rw [← role]
  split_ifs
  · exact stays_receiveHandshake
  · exact stays_receiveMessage d₃

/-- What every input leaves as it was, and the calls it may cause. -/
theorem receive_frame {r : Except Error (List SessionEvent × Option Bytes)}
    (h : TakesE (receive P input) s tr r s') :
    SameParty s s' ∧ ∀ ev ∈ tr, Receiving s.role ev.effect := by
  unfold receive at h
  rw [takesE_onError] at h
  obtain ⟨_, takes, _⟩ | ⟨_, d, takes, _, rfl⟩ := h
  · obtain ⟨effects, same⟩ := (stays_receiveInner input).takes takes
    exact ⟨same, effects⟩
  · obtain ⟨effects, same⟩ := (stays_receiveInner input).takes takes
    exact ⟨⟨same.role, same.capabilities, same.nextRequest⟩, effects⟩

/-- A refused input closes the session. -/
theorem receive_error (h : TakesE (receive P input) s tr (.error e) s') :
    s'.channel = .closed ∧ s'.pendingRequests = ∅ := by
  unfold receive at h
  rw [takesE_onError] at h
  obtain ⟨_, _, h⟩ | ⟨_, d, _, _, rfl⟩ := h
  · cases h
  · exact ⟨rfl, rfl⟩

/-- A packet has the announced size if the ciphertext has the expected length. -/
theorem encodePacket_size (codec : P.Ciborium) {body payload : Bytes}
    (sized : packetSize P kind id caps body = .ok n) (tagged : payload.length = body.length + 16) :
    ∃ packet, encodePacket P ⟨kind, id, caps, payload⟩ = .ok packet ∧ packet.length = n := by
  simp only [packetSize, bind_eq_ok, map_eq_ok] at sized
  obtain ⟨_, _, b, encoded, rfl⟩ := sized
  exact encodePacket_length codec encoded (by simpa using tagged)

/-- A packet whose size was checked is made if the ciphertext has the expected length. -/
theorem encodePacket_sized (codec : P.Ciborium) {body payload : Bytes}
    (sized : ∃ n, packetSize P kind id caps body = .ok n)
    (tagged : payload.length = body.length + 16) :
    ∃ packet, encodePacket P ⟨kind, id, caps, payload⟩ = .ok packet := by
  obtain ⟨n, sized⟩ := sized
  obtain ⟨packet, encoded, _⟩ := encodePacket_size codec sized tagged
  exact ⟨packet, encoded⟩

theorem packetSize_short {body : Bytes} (sized : ∃ n, packetSize P kind id caps body = .ok n) :
    body.length ≤ maxMessageSize - 128 := by
  obtain ⟨n, sized⟩ := sized
  simp only [packetSize, bind_eq_ok, failIf_eq_ok] at sized
  obtain ⟨_, short, _⟩ := sized
  exact Nat.not_lt.1 short

/-- What `send` has checked of a request before it is encrypted. -/
structure Requestable (P : Primitives) (s : Session) (c : Command) (body : Bytes) (next : UInt32) :
    Prop where
  valid : validateCommand c = .ok ()
  sendable : s.Sendable c
  encoded : Session.body P kindRequest s.nextRequest s.capabilities (Wire.value c) = .ok body
  sized : ∃ n, packetSize P kindRequest s.nextRequest s.capabilities body = .ok n
  advanced : checkedAdd32 s.nextRequest 1 = some next

/-- Everything `send` can do: refuse before anything is encrypted, or encrypt the request under
the next id, which is used up even if no packet can be made of it. -/
inductive Sends (P : Primitives) (s : Session) (c : Command) :
    List NoiseEvent → Except Error (UInt32 × Bytes) → Session → Prop
  | refused {tr : List NoiseEvent} {next : UInt32} {ch : NoiseState} (e : Error)
      (unsent : Unsent tr)
      (advanced : s.nextRequest ≤ next)
      (channel : ch = s.channel ∨ ch = .closed)
      (broken : ch ≠ s.channel → Broken tr)
      (untouched : ¬ Broken tr → tr = [] ∧ next = s.nextRequest ∧ ch = s.channel)
      (reason : tr = [] → (∀ n, s.requestSize P c ≠ .ok n) ∨ checkedAdd32 s.nextRequest 1 = none) :
      Sends P s c tr (.error e) { s with nextRequest := next, channel := ch }
  | lost {next : UInt32} {body payload : Bytes} {e : Error}
      (checked : Requestable P s c body next)
      (failed : encodePacket P ⟨kindRequest, s.nextRequest, s.capabilities, payload⟩ = .error e) :
      Sends P s c [⟨.writeTransport body, some payload⟩] (.error e) { s with nextRequest := next }
  | sent {next : UInt32} {body payload packet : Bytes}
      (checked : Requestable P s c body next)
      (encoded : encodePacket P ⟨kindRequest, s.nextRequest, s.capabilities, payload⟩ = .ok packet) :
      Sends P s c [⟨.writeTransport body, some payload⟩] (.ok (s.nextRequest, packet))
        { s with
          nextRequest := next
          pendingRequests := s.pendingRequests.insert s.nextRequest c.capability }

theorem requestSize_eq_ok : s.requestSize P c = .ok n ↔
    validateCommand c = .ok () ∧ s.Sendable c ∧
      ∃ body, Session.body P kindRequest s.nextRequest s.capabilities (Wire.value c) = .ok body ∧
        packetSize P kindRequest s.nextRequest s.capabilities body = .ok n := by
  have any : (∃ u, validateCommand c = .ok u) ↔ validateCommand c = .ok () :=
    ⟨fun h => h.choose_spec, fun h => ⟨_, h⟩⟩
  simp [requestSize, any]

private theorem write_transport {body : Bytes} {ch : NoiseState}
    (short : body.length ≤ maxMessageSize - 128) (h : TakesE (write body) .transport tr r ch) :
    (∃ payload, r = .ok payload ∧ tr = [⟨.writeTransport body, some payload⟩] ∧ ch = .transport) ∨
    ∃ e, r = .error e ∧ Unsent tr ∧ (ch = .transport ∨ ch = .closed) ∧ Broken tr := by
  cases r with
  | ok payload =>
    obtain ⟨_, ⟨h, _⟩ | ⟨_, rfl, rfl⟩⟩ := write_ok.1 h
    · cases h
    · exact .inl ⟨payload, rfl, rfl, rfl⟩
  | error e =>
    have broken := (write_refused h).resolve_left fun long => absurd short (Nat.not_le.2 long.1)
    exact .inr ⟨e, rfl, (write_error h).1, (write_error h).2, broken⟩

/-- Encrypting a message in transport mode, and then `f`. -/
private theorem takes_write_bind {f : Bytes → Ses α} {body : Bytes} {r : Except Error α}
    (transport : s.channel = .transport) (short : body.length ≤ maxMessageSize - 128)
    (h : TakesE (onChannel (write body) >>= f) s tr r s') :
    (∃ payload rest, tr = ⟨.writeTransport body, some payload⟩ :: rest ∧
      TakesE (f payload) s rest r s') ∨
    ∃ e ch, r = .error e ∧ Unsent tr ∧ (ch = s.channel ∨ ch = .closed) ∧
      Broken tr ∧ s' = { s with channel := ch } := by
  have same : { s with channel := .transport } = s := by rw [← transport]
  rw [takesE_bind] at h
  simp only [takes_onChannel, transport] at h
  obtain ⟨payload, _, _, rest, ⟨ch, written, rfl⟩, h, rfl⟩ | ⟨e, ⟨ch, failed, rfl⟩, rfl⟩ := h
  · obtain ⟨_, ok, rfl, rfl⟩ | ⟨_, error, _⟩ := write_transport short written
    · cases ok
      rw [same] at h
      exact .inl ⟨payload, rest, rfl, h⟩
    · cases error
  · obtain ⟨_, ok, _⟩ | ⟨_, _, unsent, ch, broken⟩ := write_transport short failed
    · cases ok
    · rw [transport]
      exact .inr ⟨e, _, rfl, unsent, ch, broken, rfl⟩

theorem send_takes {r : Except Error (UInt32 × Bytes)} (h : TakesE (send P c) s tr r s') :
    Sends P s c tr r s' := by
  have still (e : Error) (reason : (∀ n, s.requestSize P c ≠ .ok n)
      ∨ checkedAdd32 s.nextRequest 1 = none) : Sends P s c [] (.error e) s :=
    .refused e unsent_nil UInt32.le_rfl (.inl rfl) (absurd rfl) (fun _ => ⟨rfl, rfl, rfl⟩)
      fun _ => reason
  unfold send at h
  rw [takesE_get_bind, takesE_ofExcept_bind] at h
  obtain ⟨n, sized, h⟩ | ⟨e, refused, rfl, rfl, rfl⟩ := h
  · obtain ⟨valid, sendable, body, encoded, fits⟩ := requestSize_eq_ok.1 sized
    rw [takesE_failIf_bind] at h
    obtain ⟨_, h⟩ | ⟨_, rfl, rfl, rfl⟩ := h
    · rw [takesE_ofExcept_bind] at h
      obtain ⟨next, advanced, h⟩ | ⟨e, exhausted, rfl, rfl, rfl⟩ := h
      · rw [okOr_eq_ok] at advanced
        have checked : Requestable P s c body next := ⟨valid, sendable, encoded, ⟨n, fits⟩, advanced⟩
        have grows : s.nextRequest ≤ next := by
          have step := (checkedAdd32_eq_some advanced).2
          exact UInt32.le_iff_toNat_le.2 (by omega)
        rw [takesE_modify_bind, takesE_ofExcept_bind] at h
        obtain ⟨_, again, h⟩ | ⟨e, failed, _⟩ := h
        · rw [encoded] at again
          cases again
          obtain ⟨payload, rest, rfl, more⟩ | ⟨e, ch, rfl, unsent, channel, broken, rfl⟩ :=
            takes_write_bind (s := { s with nextRequest := next }) sendable.2.1
              (packetSize_short ⟨n, fits⟩) h
          · rw [takesE_ofExcept_bind] at more
            obtain ⟨packet, encoded, more⟩ | ⟨e, failed, rfl, rfl, rfl⟩ := more
            · rw [takesE_modify_bind, takesE_pure] at more
              obtain ⟨rfl, rfl, rfl⟩ := more
              exact .sent checked encoded
            · exact .lost checked failed
          · refine .refused e unsent grows channel (fun _ => broken) (absurd broken) ?_
            rintro rfl
            exact absurd broken not_broken_nil
        · rw [encoded] at failed
          cases failed
      · refine still e (.inr ?_)
        cases added : checkedAdd32 s'.nextRequest 1 with
        | none => rfl
        | some next =>
          rw [added] at exhausted
          cases exhausted
    · rename_i refused
      exact absurd sendable refused
  · refine still e (.inl fun n sized => ?_)
    rw [sized] at refused
    cases refused

/-- What `respond` has checked of a response before it is encrypted. -/
structure Respondable (P : Primitives) (s : Session) (requestId : UInt32) (response : Response)
    (body : Bytes) : Prop where
  valid : validateResponse response = .ok ()
  role : s.role = .responder
  channel : s.channel = .transport
  expected : s.pendingRequests[requestId]? = some response.capability
  supported : response.capability &&& s.capabilities ≠ 0
  encoded : Session.body P kindResponse requestId s.capabilities (Wire.value response) = .ok body
  sized : ∃ n, packetSize P kindResponse requestId s.capabilities body = .ok n

/-- Everything `respond` can do. The request stays pending unless a packet was made. -/
inductive Responds (P : Primitives) (s : Session) (requestId : UInt32) (response : Response) :
    List NoiseEvent → Except Error Bytes → Session → Prop
  | refused {tr : List NoiseEvent} {ch : NoiseState} (e : Error)
      (unsent : Unsent tr)
      (channel : ch = s.channel ∨ ch = .closed)
      (broken : ch ≠ s.channel → Broken tr)
      (untouched : ¬ Broken tr → tr = [] ∧ ch = s.channel)
      (reason : tr = [] → (∀ n, s.responseSize P requestId response ≠ .ok n)
        ∨ s.channel ≠ .transport ∨ response.capability &&& s.capabilities = 0) :
      Responds P s requestId response tr (.error e) { s with channel := ch }
  | lost {body payload : Bytes} {e : Error}
      (checked : Respondable P s requestId response body)
      (failed : encodePacket P ⟨kindResponse, requestId, s.capabilities, payload⟩ = .error e) :
      Responds P s requestId response [⟨.writeTransport body, some payload⟩] (.error e) s
  | sent {body payload packet : Bytes}
      (checked : Respondable P s requestId response body)
      (encoded : encodePacket P ⟨kindResponse, requestId, s.capabilities, payload⟩ = .ok packet) :
      Responds P s requestId response [⟨.writeTransport body, some payload⟩] (.ok packet)
        { s with pendingRequests := s.pendingRequests.erase requestId }

theorem responseSize_eq_ok : s.responseSize P id response = .ok n ↔
      validateResponse response = .ok () ∧ s.role = .responder ∧
      s.pendingRequests[id]? = some response.capability ∧
      ∃ body, Session.body P kindResponse id s.capabilities (Wire.value response) = .ok body ∧
        packetSize P kindResponse id s.capabilities body = .ok n := by
  have any : (∃ u, validateResponse response = .ok u) ↔ validateResponse response = .ok () :=
    ⟨fun h => h.choose_spec, fun h => ⟨_, h⟩⟩
  simp [responseSize, any, and_assoc]

theorem respond_takes (h : TakesE (respond P id response) s tr r s') :
    Responds P s id response tr r s' := by
  have still (e : Error) (reason : (∀ n, s.responseSize P id response ≠ .ok n)
      ∨ s.channel ≠ .transport ∨ response.capability &&& s.capabilities = 0) :
      Responds P s id response [] (.error e) s :=
    .refused e unsent_nil (.inl rfl) (absurd rfl) (fun _ => ⟨rfl, rfl⟩) fun _ => reason
  unfold respond at h
  rw [takesE_get_bind, takesE_ofExcept_bind] at h
  obtain ⟨n, sized, h⟩ | ⟨e, refused, rfl, rfl, rfl⟩ := h
  · obtain ⟨valid, role, pending, body, encoded, fits⟩ := responseSize_eq_ok.1 sized
    rw [pending] at h
    change TakesE (failIf _ _ >>= _) s tr r s' at h
    rw [takesE_failIf_bind] at h
    obtain ⟨ready, h⟩ | ⟨outside, rfl, rfl, rfl⟩ := h
    · rw [takesE_failIf_bind] at h
      obtain ⟨_, h⟩ | ⟨other, _⟩ := h
      · rw [takesE_failIf_bind] at h
        obtain ⟨supported, h⟩ | ⟨unsupported, rfl, rfl, rfl⟩ := h
        · rw [takesE_ofExcept_bind] at h
          obtain ⟨_, again, h⟩ | ⟨e, failed, _⟩ := h
          · rw [encoded] at again
            cases again
            rw [not_or, not_not, not_not] at ready
            have checked : Respondable P s id response body :=
              ⟨valid, role, ready.2, pending, supported, encoded, n, fits⟩
            obtain ⟨payload, rest, rfl, more⟩ | ⟨e, ch, rfl, unsent, channel, broken, rfl⟩ :=
              takes_write_bind ready.2 (packetSize_short ⟨n, fits⟩) h
            · rw [takesE_ofExcept_bind] at more
              obtain ⟨packet, encoded, more⟩ | ⟨e, failed, rfl, rfl, rfl⟩ := more
              · rw [takesE_modify_bind, takesE_pure] at more
                obtain ⟨rfl, rfl, rfl⟩ := more
                exact .sent checked encoded
              · exact .lost checked failed
            · refine .refused e unsent channel (fun _ => broken) (absurd broken) ?_
              rintro rfl
              exact absurd broken not_broken_nil
          · rw [encoded] at failed
            cases failed
        · exact still _ (.inr (.inr unsupported))
      · exact absurd rfl other
    · exact still _ (.inr (.inl (outside.resolve_left (not_not.2 role))))
  · refine still e (.inl fun n sized => ?_)
    rw [sized] at refused
    cases refused

/-- Everything `start` can do: nothing, or its one handshake message. -/
theorem start_takes (h : TakesE (start P) s tr r s') :
    (s' = s ∧ tr = [] ∧ r = .error .invalidState) ∨
    s.role = .initiator ∧ s.started = false ∧ ∃ written ch, TakesE (write []) s.channel tr written ch ∧
      s' = { s with started := true, channel := ch } ∧
      r = written >>= fun payload => encodePacket P ⟨kindHandshake, 0, 0, payload⟩ := by
  unfold start at h
  rw [takesE_get_bind, takesE_failIf_bind] at h
  obtain ⟨ready, h⟩ | ⟨_, rfl, rfl, rfl⟩ := h
  · rw [not_or, not_not, Bool.not_eq_true] at ready
    rw [takesE_modify_bind, handshakePacket, takesE_bind] at h
    simp only [takes_onChannel, takesE_ofExcept] at h
    obtain ⟨payload, _, tr, _, ⟨ch, written, rfl⟩, ⟨rfl, rfl, rfl⟩, rfl⟩ |
      ⟨e, ⟨ch, failed, rfl⟩, rfl⟩ := h
    · rw [List.append_nil]
      exact .inr ⟨ready.1, ready.2, _, ch, written, rfl, rfl⟩
    · exact .inr ⟨ready.1, ready.2, _, ch, failed, rfl, rfl⟩
  · exact .inl ⟨rfl, rfl, rfl⟩

section Envelopes
variable {kind : UInt8} {id : UInt32} {caps : UInt64} {v w : Value} {b : Bytes}

theorem within_authenticatedValue (shallow : v.Within 15) :
    (authenticatedValue kind id caps v).Within 16 :=
  within_head (within_uint _ 15) (within_head (within_uint _ 15) (within_head (within_uint _ 15)
    (within_head shallow within_nil)))

theorem body_eq_ok (codec : P.Ciborium) (shallow : v.Within 15) :
    body P kind id caps v = .ok b ↔
      (authenticatedValue kind id caps v).write = b ∧ b.length ≤ maxObjectSize :=
  encodeLimit_eq_ok codec (within_authenticatedValue shallow)

/-- An envelope opens for the packet that repeats its fields. -/
theorem openEnvelope_eq_ok : openEnvelope P packet b = .ok v ↔
    decode P b = .ok (authenticatedValue packet.kind packet.requestId packet.capabilities v) := by
  simp only [openEnvelope, bind_eq_ok, fields_eq_ok]
  constructor
  · rintro ⟨_, decoded, ws, ⟨rfl, len⟩, h⟩
    obtain _ | ⟨x0, _ | ⟨x1, _ | ⟨x2, _ | ⟨x3, _ | _⟩⟩⟩⟩ := ws <;> cases len
    simp only [bind_eq_ok, u32Value_eq_ok, number_eq_ok, failIf_eq_ok, not_not, pure_eq_ok] at h
    obtain ⟨_, rfl, _, rfl, _, rfl, _, rfl, _, rfl, _, rfl, rfl⟩ := h
    rw [decoded, authenticatedValue, UInt8.toUInt64_toUInt32]
  · intro decoded
    refine ⟨_, decoded, _, ⟨rfl, rfl⟩, ?_⟩
    simp

theorem body_openEnvelope (h : openEnvelope P packet b = .ok v) :
    body P packet.kind packet.requestId packet.capabilities v = .ok b :=
  encodeLimit_of_decodeLimit (openEnvelope_eq_ok.1 h)

theorem openEnvelope_body (codec : P.Ciborium) (shallow : v.Within 15)
    (h : body P packet.kind packet.requestId packet.capabilities v = .ok b) :
    openEnvelope P packet b = .ok v := by
  obtain ⟨rfl, fits⟩ := (body_eq_ok codec shallow).1 h
  exact openEnvelope_eq_ok.2
    (decodeLimit_write codec (within_authenticatedValue shallow) fits (by decide))

/-- A body has one reading. -/
theorem body_injective (codec : P.Ciborium) {kind' : UInt8} {id' : UInt32} {caps' : UInt64}
    (hv : v.Within 15) (hw : w.Within 15) (first : body P kind id caps v = .ok b)
    (second : body P kind' id' caps' w = .ok b) :
    kind = kind' ∧ id = id' ∧ caps = caps' ∧ v = w := by
  have same := encodeLimit_injective codec (within_authenticatedValue hv)
    (within_authenticatedValue hw) (by decide) first second
  simp only [authenticatedValue, Value.array.injEq, List.cons.injEq, uint_injective.eq_iff] at same
  exact ⟨UInt8.toUInt64_inj.1 same.1, UInt32.toUInt64_inj.1 same.2.1, same.2.2.1, same.2.2.2.1⟩

end Envelopes
end Session
end OpenLock
