import OpenLock.Protocol.Link

/-! One session over a transport that encrypts every payload, sixteen bytes longer: what is
announced is what is sent, and a call that fails changes nothing. -/
namespace OpenLock
open Cbor Effects NoiseChannel
variable {tr : List NoiseEvent} {P : Primitives}

/-- Noise in transport mode never fails to encrypt, and adds a tag of sixteen bytes. -/
def Reliable (tr : List NoiseEvent) : Prop :=
  ∀ payload answer, ⟨.writeTransport payload, answer⟩ ∈ tr →
    ∃ out, answer = some out ∧ out.length = payload.length + 16

/-- Whether one event may occur on such a transport. -/
def NoiseEvent.reliable : NoiseEvent → Bool
  | ⟨.writeTransport payload, some out⟩ => out.length == payload.length + 16
  | ⟨.writeTransport _, none⟩ => false
  | _ => true

theorem Reliable.of_events (h : ∀ ev ∈ tr, NoiseEvent.reliable ev = true) : Reliable tr := by
  intro payload answer mem
  have fine := h _ mem
  cases answer with
  | none => cases fine
  | some out => exact ⟨out, rfl, by simpa [NoiseEvent.reliable] using fine⟩

theorem Reliable.unbroken (h : Reliable tr) : ¬ Broken tr := by
  rintro ⟨payload, mem⟩
  obtain ⟨out, failed, _⟩ := h payload none mem
  cases failed

theorem Reliable.tagged {payload out : Bytes}
    (h : Reliable (⟨.writeTransport payload, some out⟩ :: tr)) :
    out.length = payload.length + 16 := by
  obtain ⟨_, same, tagged⟩ := h payload (some out) List.mem_cons_self
  cases same
  exact tagged

/-- A session some time after it was opened, whatever was called and whatever came in. -/
inductive Reached (P : Primitives) : Session → Prop
  | opened {role : Role} {s : Session} (h : Opened P role s) : Reached P s
  | call {s s' : Session} {m : SessionMethod} {tr : List NoiseEvent} {output : SessionOutput}
      (earlier : Reached P s) (takes : (m.program P s).Takes tr (output, s'))
      (reliable : Reliable tr) : Reached P s'

namespace Session
variable {P : Primitives} {s s' : Session} {tr : List NoiseEvent} {r : Except Error Bytes}
  {ch : NoiseState}

section Calls

/-- Over a reliable transport `send` changes nothing or makes the packet it announced. -/
theorem send_reliable (codec : P.Ciborium) {c : Command} {r : Except Error (UInt32 × Bytes)}
    (reliable : Reliable tr) (h : TakesE (send P c) s tr r s') :
    (∃ e, r = .error e ∧ tr = [] ∧ s' = s ∧
      ((∀ n, s.requestSize P c ≠ .ok n) ∨ checkedAdd32 s.nextRequest 1 = none)) ∨
    ∃ body payload packet next, r = .ok (s.nextRequest, packet) ∧
      tr = [⟨.writeTransport body, some payload⟩] ∧ Requestable P s c body next ∧
      encodePacket P ⟨kindRequest, s.nextRequest, s.capabilities, payload⟩ = .ok packet ∧
      s.requestSize P c = .ok packet.length ∧
      s' = { s with
        nextRequest := next
        pendingRequests := s.pendingRequests.insert s.nextRequest c.capability } := by
  cases send_takes h with
  | refused e _ _ _ _ untouched reason =>
    obtain ⟨rfl, rfl, rfl⟩ := untouched reliable.unbroken
    exact .inl ⟨e, rfl, rfl, rfl, reason rfl⟩
  | lost checked failed =>
    obtain ⟨packet, encoded⟩ := encodePacket_sized codec checked.sized reliable.tagged
    cases failed.symm.trans encoded
  | sent checked encoded =>
    refine .inr ⟨_, _, _, _, rfl, rfl, checked, encoded, ?_, rfl⟩
    obtain ⟨n, sized⟩ := checked.sized
    obtain ⟨packet, again, rfl⟩ := encodePacket_size codec sized reliable.tagged
    cases encoded.symm.trans again
    exact requestSize_eq_ok.2 ⟨checked.valid, checked.sendable, _, checked.encoded, sized⟩

/-- The same for `respond`. -/
theorem respond_reliable (codec : P.Ciborium) {id : UInt32} {response : Response}
    (reliable : Reliable tr) (h : TakesE (respond P id response) s tr r s') :
    (∃ e, r = .error e ∧ tr = [] ∧ s' = s ∧ ((∀ n, s.responseSize P id response ≠ .ok n)
      ∨ s.channel ≠ .transport ∨ response.capability &&& s.capabilities = 0)) ∨
    ∃ body payload packet, r = .ok packet ∧
      tr = [⟨.writeTransport body, some payload⟩] ∧ Respondable P s id response body ∧
      encodePacket P ⟨kindResponse, id, s.capabilities, payload⟩ = .ok packet ∧
      s.responseSize P id response = .ok packet.length ∧
      s' = { s with pendingRequests := s.pendingRequests.erase id } := by
  cases respond_takes h with
  | refused e _ _ _ untouched reason =>
    obtain ⟨rfl, rfl⟩ := untouched reliable.unbroken
    exact .inl ⟨e, rfl, rfl, rfl, reason rfl⟩
  | lost checked failed =>
    obtain ⟨packet, encoded⟩ := encodePacket_sized codec checked.sized reliable.tagged
    cases failed.symm.trans encoded
  | sent checked encoded =>
    refine .inr ⟨_, _, _, rfl, rfl, checked, encoded, ?_, rfl⟩
    obtain ⟨n, sized⟩ := checked.sized
    obtain ⟨packet, again, rfl⟩ := encodePacket_size codec sized reliable.tagged
    cases encoded.symm.trans again
    exact responseSize_eq_ok.2 ⟨checked.valid, checked.role, checked.expected, _, checked.encoded,
      sized⟩

end Calls

/-- What holds of a session between its calls. -/
structure Orderly (s : Session) : Prop where
  transport : ∀ id ∈ s.pendingRequests, s.channel = .transport
  supported : ∀ (id : UInt32) (cap : UInt64), s.pendingRequests[id]? = some cap →
    cap &&& s.capabilities = cap
  below : s.role = .initiator → ∀ id ∈ s.pendingRequests, id < s.nextRequest
  unstarted : s.role = .initiator → s.started = false → s.channel ≠ .transport

theorem Orderly.empty (none : s.pendingRequests = ∅) (outside : s.channel ≠ .transport) :
    s.Orderly where
  transport id mem := by
    rw [none] at mem
    exact absurd mem Std.ExtTreeMap.not_mem_empty
  supported id cap found := by
    rw [none] at found
    simp at found
  below _ id mem := by
    rw [none] at mem
    exact absurd mem Std.ExtTreeMap.not_mem_empty
  unstarted _ _ := outside

theorem Orderly.erase (h : s.Orderly) (id : UInt32) :
    { s with pendingRequests := s.pendingRequests.erase id }.Orderly where
  transport k mem := h.transport k (Std.ExtTreeMap.mem_of_mem_erase mem)
  supported k cap found := by
    refine h.supported k cap ?_
    change (s.pendingRequests.erase id)[k]? = some cap at found
    rw [Std.ExtTreeMap.getElem?_erase] at found
    split_ifs at found
    exact found
  below role k mem := h.below role k (Std.ExtTreeMap.mem_of_mem_erase mem)
  unstarted := h.unstarted

/-- A new request of a party in transport mode. -/
theorem Orderly.insert (h : s.Orderly) {id next last : UInt32} {cap : UInt64}
    (transport : s.channel = .transport) (supported : cap &&& s.capabilities = cap)
    (grows : s.nextRequest ≤ next) (below : s.role = .initiator → id < next) :
    { s with
      nextRequest := next
      lastRequestId := last
      pendingRequests := s.pendingRequests.insert id cap }.Orderly where
  transport _ _ := transport
  supported k cap' found := by
    change (s.pendingRequests.insert id cap)[k]? = some cap' at found
    rw [Std.ExtTreeMap.getElem?_insert] at found
    split_ifs at found
    · cases found
      exact supported
    · exact h.supported k cap' found
  below role k mem := by
    rcases Std.ExtTreeMap.mem_insert.1 mem with same | old
    · rw [← Std.LawfulEqCmp.eq_of_compare same]
      exact below role
    · exact UInt32.lt_of_lt_of_le (h.below role k old) grows
  unstarted := h.unstarted

/-- The session is started and its channel moved, but not out of transport mode. -/
theorem Orderly.channel (h : s.Orderly) (kept : s.channel = .transport → ch = .transport) :
    { s with started := true, channel := ch }.Orderly where
  transport id mem := kept (h.transport id mem)
  supported := h.supported
  below := h.below
  unstarted _ unstarted := by cases unstarted

private theorem write_keeps {payload : Bytes} (reliable : Reliable tr)
    (short : payload.length ≤ maxMessageSize - 128) (h : TakesE (write payload) s.channel tr r ch)
    (inside : s.channel = .transport) :
    ch = .transport := by
  rw [inside] at h
  cases r with
  | ok out =>
    obtain ⟨_, ⟨other, _⟩ | ⟨_, kept, _⟩⟩ := write_ok.1 h
    · cases other
    · exact kept
  | error e =>
    obtain ⟨long, _⟩ | broken := write_refused h
    · exact absurd short (Nat.not_le.2 long)
    · exact absurd broken reliable.unbroken

private theorem Received.orderly {packet : Packet} {r : List SessionEvent × Option Bytes}
    (h : s.Orderly) (received : Received P s packet tr r s') : s'.Orderly := by
  cases received with
  | handshake _ _ read answered _ =>
    refine h.channel fun inside => ?_
    rw [inside] at read
    obtain ⟨_, ⟨other, _⟩ | ⟨_, rfl, _⟩⟩ := read_ok.1 read
    · cases other
    · generalize s.role = role at answered
      cases answered with
      | initiator => rfl
      | responder written _ =>
        obtain ⟨_, ⟨other, _⟩ | ⟨_, kept, _⟩⟩ := write_ok.1 written
        · cases other
        · exact kept
  | request _ role _ _ channel _ _ _ _ _ supported _ =>
    refine h.insert channel supported UInt32.le_rfl fun initiator => ?_
    rw [role] at initiator
    cases initiator
  | response => exact h.erase packet.requestId

/-- Every call over a reliable transport keeps it. -/
theorem Orderly.call (codec : P.Ciborium) {m : SessionMethod} {output : SessionOutput}
    (h : s.Orderly) (takes : (m.program P s).Takes tr (output, s')) (reliable : Reliable tr) :
    s'.Orderly := by
  cases m with
  | start =>
    obtain ⟨r, rfl, run⟩ := takes_start.1 takes
    obtain ⟨rfl, _, _⟩ | ⟨_, _, written, ch, wrote, rfl, _⟩ := start_takes run
    · exact h
    · exact h.channel (write_keeps reliable (Nat.zero_le _) wrote)
  | send c =>
    obtain ⟨r, rfl, run⟩ := takes_send.1 takes
    obtain ⟨_, _, _, rfl, _⟩ | ⟨_, _, _, next, _, _, checked, _, _, rfl⟩ :=
      send_reliable codec reliable run
    · exact h
    · have step : next.toNat = s.nextRequest.toNat + 1 :=
        (checkedAdd32_eq_some checked.advanced).2
      obtain ⟨_, transport, supported, _⟩ := checked.sendable
      refine h.insert transport supported (UInt32.le_iff_toNat_le.2 (by omega)) fun _ => ?_
      exact UInt32.lt_iff_toNat_lt.2 (by omega)
  | respond id response =>
    obtain ⟨r, rfl, run⟩ := takes_respond.1 takes
    obtain ⟨_, _, _, rfl, _⟩ | ⟨_, _, _, _, _, _, _, _, rfl⟩ :=
      respond_reliable codec reliable run
    · exact h
    · exact h.erase id
  | receive input =>
    obtain ⟨r, rfl, run⟩ := takes_receive.1 takes
    cases r with
    | error e =>
      obtain ⟨closed, none⟩ := receive_error run
      exact .empty none (by rw [closed]; decide)
    | ok r =>
      obtain ⟨packet, _, received⟩ := receive_ok run
      exact received.orderly h
  | close =>
    obtain ⟨_, _, rfl⟩ := takes_close.1 takes
    exact .empty rfl nofun

end Session

theorem Reached.orderly (codec : P.Ciborium) {s : Session} (h : Reached P s) : s.Orderly := by
  induction h with
  | opened h =>
    obtain ⟨capabilities, rfl, _⟩ := h.eq_fresh
    exact .empty rfl nofun
  | call _ takes reliable ih => exact ih.call codec takes reliable

/-- Each side of a conversation is such a session. -/
theorem Talk.reached {start p : Parties} {xs : List (Exchange P)} (talk : Talk P start xs p)
    (opened : ∀ role, Reached P (start.session role)) (reliable : ∀ x ∈ xs, Reliable x.trace) :
    ∀ role, Reached P (p.session role) := by
  induction talk with
  | nil => exact opened
  | snoc x _ ih =>
    have before := ih fun y mem => reliable y (List.mem_append_left _ mem)
    have now := reliable x (List.mem_append_right _ List.mem_cons_self)
    obtain ⟨s, after, takes, _⟩ := x.performed.takes
    have moved := Reached.call (before x.role) takes now
    intro role
    rw [after]
    cases x.role <;> cases role
    · exact moved
    · exact before .responder
    · exact before .initiator
    · exact moved

end OpenLock
