import OpenLock.Ffi.Session
import OpenLock.Protocol.Failures

/-! What each call of the C interface does: nothing, or what the inner session did. -/
namespace OpenLock
open Cbor Effects NoiseChannel
variable {events : List SessionEvent} {required : Nat} {reply : Option Bytes} {input : Bytes}

section Errors

theorem OfSession.status {e : Error} (h : OfSession e) :
    e.status ≠ -2 ∧ e.status ≠ Error.busy.status := by
  revert e
  decide

end Errors

section Buffers
variable {b : CBuffer} {bytes : Bytes} {required : Nat}

theorem capacity_error {refused : CAnswer} (h : capacity b required = .error refused) :
    refused.status = -1 ∨ refused.status = -2 := by
  unfold capacity at h
  split_ifs at h <;> cases h
  · exact .inl rfl
  · exact .inr rfl

/-- A buffer with room for the announced size takes bytes of that size. -/
theorem copy_fits (room : capacity b required = .ok ()) (size : bytes.length = required) :
    copy bytes b = { status := 0, len := some bytes.length, out := some bytes } := by
  unfold copy
  rw [size, room]

theorem copy_cases (bytes : Bytes) (b : CBuffer) : copy bytes b = { status := 0, len := some bytes.length, out := some bytes } ∨
    (copy bytes b).status = -1 ∨ (copy bytes b).status = -2 := by
  unfold copy
  cases held : capacity b bytes.length with
  | ok => exact .inl rfl
  | error refused => exact .inr (capacity_error held)

end Buffers

section Events
variable {P : Primitives}

private theorem length_number (n : UInt64) : (uint n).write.length = headLength n.toNat := by
  simp [uint, Value.write]

private theorem length_key (peer : SubjectKey) : (Wire.value peer).write.length = 34 := by
  change (Value.bytes peer.bytes.toList).write.length = 34
  simp [Value.write, headLength]

/-- An envelope leaves room for the opcode, the peer's key and the event's own head. -/
private theorem length_opened (codec : P.Ciborium) {packet : Packet} {clear : Bytes} {v : Value}
    (shallow : v.Within 15) (opened : Session.openEnvelope P packet clear = .ok v) :
    headLength packet.requestId.toNat + v.write.length + 3 ≤ maxObjectSize := by
  obtain ⟨rfl, fits⟩ := (Session.body_eq_ok codec shallow).1 (Session.body_openEnvelope opened)
  simp only [authenticatedValue, Value.write, Value.writeList, List.length_append, length_head,
    length_number, List.length_nil, List.length_cons, UInt8.toNat_toUInt64, UInt32.toNat_toUInt64]
    at fits
  have kind := headLength_pos packet.kind.toNat
  have caps := headLength_pos packet.capabilities.toNat
  have count := headLength_pos (0 + 1 + 1 + 1 + 1)
  omega

private theorem eventBytes_fits (codec : P.Ciborium) {event : SessionEvent}
    (shallow : (eventValue event).Within 16) (fits : (eventValue event).write.length ≤ maxEventSize) :
    ∃ b, eventBytes P event = .ok b ∧ b ≠ [] ∧ b.length ≤ maxEventSize := by
  refine ⟨_, (encodeLimit_eq_ok codec shallow).2 ⟨rfl, fits⟩, ?_, fits⟩
  have some := (eventValue event).write_pos
  rintro empty
  rw [empty] at some
  exact absurd some (by decide)

/-- Every event of the inner session can be handed out. -/
theorem eventBytes_received (codec : P.Ciborium) {s s' : Session} {tr : List NoiseEvent}
    (h : TakesE (Session.receive P input) s tr (.ok (events, reply)) s') :
    ∀ event ∈ events, ∃ b, eventBytes P event = .ok b ∧ b ≠ [] ∧ b.length ≤ maxEventSize := by
  have peers (peer : SubjectKey) : (Wire.value peer).Within 15 :=
    (LawfulWire.within peer).mono (by decide)
  obtain ⟨packet, _, received⟩ := Session.receive_ok h
  cases received with
  | handshake _ _ _ _ completed =>
    cases completed with
    | handshake => simp
    | @transport key peer _ =>
      intro event mem
      cases List.mem_singleton.1 mem
      refine eventBytes_fits codec ?_ ?_
      · exact within_head (within_uint _ 15) (within_head (within_uint _ 15)
          (within_head (peers peer) (within_head (by simp [Value.Within]) within_nil)))
      · simp only [eventValue, Value.write, Value.writeList, List.length_append, length_head,
          length_number, length_key, List.length_nil, List.length_cons]
        decide
  | @request clear key command peer _ _ _ _ _ _ opened =>
    intro event mem
    cases List.mem_singleton.1 mem
    have body : (Wire.value command).Within 15 := (LawfulWire.within command).mono (by decide)
    have room := length_opened codec body opened
    refine eventBytes_fits codec ?_ ?_
    · exact within_head (within_uint _ 15) (within_head (within_uint _ 15)
        (within_head (peers peer) (within_head body within_nil)))
    · simp only [eventValue, Value.write, Value.writeList, List.length_append, length_head,
        length_number, length_key, List.length_nil, List.length_cons, UInt32.toNat_toUInt64]
      simp only [maxEventSize, maxMessageSize, maxObjectSize] at room ⊢
      change 1 + (1 + (_ + _)) ≤ _
      omega
  | @response clear key response peer _ _ _ _ _ opened =>
    intro event mem
    cases List.mem_singleton.1 mem
    have body : (Wire.value response).Within 15 := (LawfulWire.within response).mono (by decide)
    have room := length_opened codec body opened
    refine eventBytes_fits codec ?_ ?_
    · exact within_head (within_uint _ 15) (within_head (within_uint _ 15)
        (within_head (by simp [Value.Within]) (within_head body within_nil)))
    · simp only [eventValue, Value.write, Value.writeList, List.length_append, length_head,
        length_number, List.length_nil, List.length_cons, UInt32.toNat_toUInt64]
      simp only [maxEventSize, maxMessageSize, maxObjectSize] at room ⊢
      change 1 + (1 + (_ + _)) ≤ _
      omega

end Events

namespace Session
variable {P : Primitives} {s s' : Session} {tr : List NoiseEvent}

/-- The first handshake packet has the announced size. -/
theorem start_sized (codec : P.Ciborium) (orderly : s.Orderly) (expected : Expected s.role tr)
    {packet : Bytes} (sized : s.startSize P = .ok required)
    (h : TakesE (start P) s tr (.ok packet) s') : packet.length = required := by
  obtain ⟨_, _, other⟩ | ⟨role, unstarted, written, ch, wrote, _, result⟩ := start_takes h
  · cases other
  · cases written with
    | error e => cases result
    | ok payload =>
      have encoded : encodePacket P ⟨kindHandshake, 0, 0, payload⟩ = .ok packet := result.symm
      have first : payload.length = 96 := by
        obtain ⟨_, ⟨_, rest, _, rfl⟩ | ⟨inside, _⟩⟩ := write_ok.1 wrote
        · exact expected.first role [] payload List.mem_cons_self
        · exact absurd inside (orderly.unstarted role unstarted)
      simp only [startSize, bind_eq_ok, map_eq_ok] at sized
      obtain ⟨_, _, dummy, announced, rfl⟩ := sized
      obtain ⟨again, same, size⟩ := encodePacket_length codec announced
        (by simpa using first : payload.length = (List.replicate 96 (0 : UInt8)).length)
      cases encoded.symm.trans same
      exact size

end Session

namespace NativeSession
variable {P : Primitives} {s s' : NativeSession} {tr : List NoiseEvent} {o : NativeOutcome}
  {b : CBuffer} {m : NativeMethod} {data : CInput} {a : CAnswer} {α : Type}

theorem refuse_takes {answer : CAnswer} (h : (s.refuse answer).Takes tr (o, s')) :
    o = ⟨answer, none⟩ ∧ s' = s ∧ tr = [] := by
  obtain ⟨rfl, same⟩ := Prog.takes_pure.1 h
  cases same
  exact ⟨rfl, rfl, rfl⟩

/-- The answer of a call that reached the inner session. -/
def answer {α : Type} (b : CBuffer) (required : Nat) (packet : α → Bytes) (id : α → Option UInt32) :
    Except Error α → CAnswer
  | .ok made => { copy (packet made) b with id := id made }
  | .error e => { status := e.status, len := some required }

theorem deliver_takes {call : Ses α} {report : Except Error α → SessionOutput} {packet : α → Bytes}
    {id : α → Option UInt32} (h : (s.deliver b required call report packet id).Takes tr (o, s')) :
    (∃ refused, capacity b required = .error refused ∧ o = ⟨refused, none⟩ ∧ s' = s ∧ tr = []) ∨
    ∃ r inner, capacity b required = .ok () ∧ TakesE call s.inner tr r inner ∧
      s' = { s with inner } ∧ o = ⟨answer b required packet id r, some (report r)⟩ := by
  unfold deliver at h
  cases room : capacity b required with
  | error refused =>
    rw [room] at h
    exact .inl ⟨refused, rfl, refuse_takes h⟩
  | ok =>
    rw [room] at h
    obtain ⟨⟨r, inner⟩, tr₁, tr₂, run, last, rfl⟩ := Prog.takes_bind.1 h
    obtain ⟨rfl, same⟩ := Prog.takes_pure.1 last
    rw [List.append_nil]
    cases r <;> cases same <;> exact .inr ⟨_, inner, rfl, run, rfl, rfl⟩

/-- What holds of a handle between its calls. What is queued is never empty, so that an empty
answer tells the caller that nothing is. -/
structure Coherent (s : NativeSession) : Prop where
  inner : s.inner.Orderly
  events : ∀ b ∈ s.events, b ≠ []
  output : ∀ b ∈ s.output, b ≠ []

/-- What one call does to the inner session, the queues and the caller. -/
structure Exact (P : Primitives) (s : NativeSession) (m : NativeMethod) (tr : List NoiseEvent)
    (o : NativeOutcome) (s' : NativeSession) : Prop where
  coherent : s'.Coherent
  unchanged : o.answer.status = -2 ∨ o.answer.status = Error.busy.status → s' = s ∧ tr = []
  delivered : ∀ packet, o.packet = some packet → o.answer.status = 0
    ∧ o.answer.len = some packet.length ∧ o.answer.out = some packet
  encrypted : (∃ payload out, ⟨.writeTransport payload, some out⟩ ∈ tr) →
    o.packet.isSome ∨ ∃ r, o.inner = some (.received r)
  empty : (∃ r, o.inner = some (.received r)) → s.events = [] ∧ s.output = none
  events : ∃ new, List.Forall₂ (fun e b => eventBytes P e = .ok b) o.produced.1 new
    ∧ s.events ++ new = (m.drained o.answer).1 ++ s'.events
  replies : s.output.toList ++ o.produced.2 = (m.drained o.answer).2 ++ s'.output.toList

/-- A call that ended before the inner session was touched. -/
theorem Exact.refused (h : s.Coherent) (a : CAnswer) (kept : m.drained a = ([], [])) :
    Exact P s m [] ⟨a, none⟩ s where
  coherent := h
  unchanged _ := ⟨rfl, rfl⟩
  delivered _ made := by cases made
  encrypted := by
    rintro ⟨_, _, mem⟩
    cases mem
  empty := by
    rintro ⟨_, other⟩
    cases other
  events := ⟨[], .nil, by simp [kept]⟩
  replies := by simp [kept, NativeOutcome.produced]

private theorem Exact.stopped (h : s.Coherent) (kept : ∀ a, m.drained a = ([], []))
    (refused : (s.refuse a).Takes tr (o, s')) : Exact P s m tr o s' := by
  obtain ⟨rfl, rfl, rfl⟩ := refuse_takes refused
  exact .refused h _ (kept _)

/-- A sending call that reached the inner session: the packet fits if one was made, and a failure
is one of the session's own or left it as it was. -/
private theorem Exact.sent (h : s.Coherent)
    {packet : α → Bytes} {id : α → Option UInt32}
    {report : Except Error α → SessionOutput} {r : Except Error α} {inner : Session}
    (kept : ∀ a, m.drained a = ([], [])) (room : capacity b required = .ok ())
    (orderly : inner.Orderly)
    (reported : ∀ made, (⟨answer b required packet id (.ok made), some (report (.ok made))⟩ :
      NativeOutcome).packet = some (packet made))
    (silent : (⟨answer b required packet id r, some (report r)⟩ : NativeOutcome).produced = ([], [])
      ∧ ∀ r', report r ≠ .received r')
    (sized : ∀ made, r = .ok made → (packet made).length = required)
    (failed : ∀ e, r = .error e →
      (⟨answer b required packet id r, some (report r)⟩ : NativeOutcome).packet = none
      ∧ (OfSession e ∨ inner = s.inner ∧ tr = [])
      ∧ ∀ payload out, ⟨.writeTransport payload, some out⟩ ∉ tr) :
    Exact P s m tr ⟨answer b required packet id r, some (report r)⟩ { s with inner } where
  coherent := ⟨orderly, h.events, h.output⟩
  unchanged refused := by
    cases r with
    | ok made =>
      have fits := copy_fits room (sized made rfl)
      simp only [answer, fits] at refused
      exact absurd refused (by decide)
    | error e =>
      obtain ⟨_, own | ⟨rfl, rfl⟩, _⟩ := failed e rfl
      · rcases refused with short | busy
        · exact absurd short own.status.1
        · exact absurd busy own.status.2
      · exact ⟨rfl, rfl⟩
  delivered made same := by
    cases r with
    | ok made' =>
      have fits := copy_fits room (sized made' rfl)
      cases (reported made').symm.trans same
      simp [answer, fits]
    | error e =>
      rw [(failed e rfl).1] at same
      cases same
  encrypted := by
    rintro ⟨payload, out, mem⟩
    cases r with
    | ok made => exact .inl (by rw [reported made]; rfl)
    | error e => exact absurd mem ((failed e rfl).2.2 payload out)
  empty := by
    rintro ⟨r', other⟩
    exact absurd (Option.some.inj other) (silent.2 r')
  events := ⟨[], by rw [silent.1]; exact .nil, by simp [kept]⟩
  replies := by simp [kept, silent.1]

private theorem unwritten_of_unsent (h : Unsent tr) (payload out : Bytes) :
    ⟨.writeTransport payload, some out⟩ ∉ tr :=
  fun mem => h _ mem ⟨payload, out, .inl rfl⟩

theorem start_exact (codec : P.Ciborium) (h : s.Coherent) (expected : Expected s.inner.role tr)
    (takes : (s.start P b).Takes tr (o, s')) : Exact P s (.start b) tr o s' := by
  unfold start at takes
  split at takes
  · exact .stopped h (fun _ => rfl) takes
  · rename_i required sized
    obtain ⟨refused, _, rfl, rfl, rfl⟩ | ⟨r, inner, room, run, rfl, rfl⟩ := deliver_takes takes
    · exact .refused h _ rfl
    · have orderly := h.inner.call codec (m := .start) (takes_start.2 ⟨r, rfl, run⟩)
        expected.reliable
      refine .sent h (fun _ => rfl) room orderly (fun _ => rfl) ?_ ?_ ?_
      · cases r <;> exact ⟨rfl, nofun⟩
      · rintro made rfl
        exact Session.start_sized codec h.inner expected sized run
      · rintro e rfl
        refine ⟨rfl, .inl ((Session.raises_start P).takes run), ?_⟩
        obtain ⟨_, rfl, _⟩ | ⟨role, unstarted, _, _, wrote, _⟩ := Session.start_takes run
        · exact unwritten_of_unsent unsent_nil
        · exact unwritten_of_unsent (write_unsent wrote (h.inner.unstarted role unstarted))

theorem send_exact (codec : P.Ciborium) (h : s.Coherent) (reliable : Reliable tr) {id : Bool}
    (takes : (s.send P data id b).Takes tr (o, s')) :
    Exact P s (.send data id b) tr o s' := by
  unfold send at takes
  split_ifs at takes
  swap
  · exact .stopped h (fun _ => rfl) takes
  split at takes
  · exact .stopped h (fun _ => rfl) takes
  split at takes
  · exact .stopped h (fun _ => rfl) takes
  split at takes
  · exact .stopped h (fun _ => rfl) takes
  rename_i required sized
  obtain ⟨refused, _, rfl, rfl, rfl⟩ | ⟨r, inner, room, run, rfl, rfl⟩ := deliver_takes takes
  · exact .refused h _ rfl
  · have orderly := h.inner.call codec (m := .send _) (takes_send.2 ⟨r, rfl, run⟩) reliable
    refine .sent h (fun _ => rfl) room orderly (fun _ => rfl) ?_ ?_ ?_
    · cases r <;> exact ⟨rfl, nofun⟩
    · rintro made rfl
      obtain ⟨_, other, _⟩ | ⟨_, _, _, _, same, _, _, _, announced, _⟩ :=
        Session.send_reliable codec reliable run
      · cases other
      · cases same
        exact Except.ok.inj (announced.symm.trans sized)
    · rintro e rfl
      obtain ⟨_, _, rfl, rfl, _⟩ | ⟨_, _, _, _, other, _⟩ :=
        Session.send_reliable codec reliable run
      · exact ⟨rfl, .inr ⟨rfl, rfl⟩, unwritten_of_unsent unsent_nil⟩
      · cases other

theorem respond_exact (codec : P.Ciborium) (h : s.Coherent) (reliable : Reliable tr)
    {requestId : UInt32} (takes : (s.respond P requestId data b).Takes tr (o, s')) :
    Exact P s (.respond requestId data b) tr o s' := by
  unfold respond at takes
  split at takes
  · exact .stopped h (fun _ => rfl) takes
  split at takes
  · exact .stopped h (fun _ => rfl) takes
  split at takes
  · exact .stopped h (fun _ => rfl) takes
  rename_i required sized
  obtain ⟨refused, _, rfl, rfl, rfl⟩ | ⟨r, inner, room, run, rfl, rfl⟩ := deliver_takes takes
  · exact .refused h _ rfl
  · have orderly := h.inner.call codec (m := .respond _ _) (takes_respond.2 ⟨r, rfl, run⟩)
      reliable
    refine .sent h (fun _ => rfl) room orderly (fun _ => rfl) ?_ ?_ ?_
    · cases r <;> exact ⟨rfl, nofun⟩
    · rintro made rfl
      obtain ⟨_, other, _⟩ | ⟨_, _, _, same, _, _, _, announced, _⟩ :=
        Session.respond_reliable codec reliable run
      · cases other
      · cases same
        exact Except.ok.inj (announced.symm.trans sized)
    · rintro e rfl
      obtain ⟨_, _, rfl, rfl, _⟩ | ⟨_, _, _, other, _⟩ :=
        Session.respond_reliable codec reliable run
      · exact ⟨rfl, .inr ⟨rfl, rfl⟩, unwritten_of_unsent unsent_nil⟩
      · cases other

/-- The loop over the events queues each of them in order. -/
private theorem enqueue_all (encodes : ∀ e ∈ events, ∃ b, eventBytes P e = .ok b ∧ b ≠ [])
    (s : NativeSession) :
    ∃ new, List.Forall₂ (fun e b => eventBytes P e = .ok b) events new ∧ (∀ b ∈ new, b ≠ [])
      ∧ s.enqueue P events = (none, { s with events := s.events ++ new }) := by
  induction events generalizing s with
  | nil => exact ⟨[], .nil, by simp, by simp [enqueue]⟩
  | cons e events ih =>
    obtain ⟨⟨b, encoded, some⟩, rest⟩ := List.forall_mem_cons.1 encodes
    obtain ⟨new, listed, each, queued⟩ := ih rest { s with events := s.events ++ [b] }
    refine ⟨b :: new, .cons encoded listed, List.forall_mem_cons.2 ⟨some, each⟩, ?_⟩
    rw [enqueue, encoded]
    simpa using queued

theorem encodePacket_ne_nil (codec : P.Ciborium) {p : Packet} {b : Bytes}
    (h : encodePacket P p = .ok b) : b ≠ [] := by
  obtain ⟨_, rfl, _⟩ := (encodePacket_eq_ok codec).1 h
  have some := (packetValue p).write_pos
  intro empty
  rw [empty] at some
  exact absurd some (by decide)

private theorem reply_ne_nil (codec : P.Ciborium) {inner inner' : Session}
    (h : TakesE (Session.receive P input) inner tr (.ok (events, reply)) inner') :
    ∀ b ∈ reply, b ≠ [] := by
  obtain ⟨packet, _, received⟩ := Session.receive_ok h
  cases received with
  | handshake _ _ _ answered _ =>
    generalize inner.role = role at answered
    cases answered with
    | initiator => exact nofun
    | responder _ encoded =>
      rintro _ ⟨⟩
      exact encodePacket_ne_nil codec encoded
  | request | response => exact nofun

/-- `receive` does nothing, or hands the input to the inner session when nothing is queued. -/
private theorem receive_takes (h : (s.receive P data).Takes tr (o, s')) :
    (∃ answer, o = ⟨answer, none⟩ ∧ s' = s ∧ tr = []) ∨
    ∃ bytes r inner, s.events = [] ∧ s.output = none ∧
      TakesE (Session.receive P bytes) s.inner tr r inner ∧
      o = ⟨(settle P ⟨inner, [], none⟩ r).1, some (.received r)⟩ ∧
      s' = (settle P ⟨inner, [], none⟩ r).2 := by
  unfold receive at h
  split_ifs at h with queued
  · exact .inl ⟨_, refuse_takes h⟩
  split at h
  · exact .inl ⟨_, refuse_takes h⟩
  rename_i bytes _
  rw [not_or, not_not, Bool.not_eq_true, Option.isSome_eq_false_iff, Option.isNone_iff_eq_none]
    at queued
  obtain ⟨⟨r, inner⟩, tr₁, tr₂, run, last, rfl⟩ := Prog.takes_bind.1 h
  dsimp only at last
  rw [queued.1, queued.2] at last
  generalize held : settle P ⟨inner, [], none⟩ r = settled at last
  obtain ⟨rfl, same⟩ := Prog.takes_pure.1 last
  cases same
  rw [List.append_nil]
  exact .inr ⟨bytes, r, inner, queued.2, queued.1, run, by rw [held], by rw [held]⟩

theorem receive_exact (codec : P.Ciborium) (h : s.Coherent) (reliable : Reliable tr)
    (takes : (s.receive P data).Takes tr (o, s')) : Exact P s (.receive data) tr o s' := by
  obtain ⟨answer, rfl, rfl, rfl⟩ | ⟨bytes, r, inner, events, output, run, rfl, rfl⟩ :=
    receive_takes takes
  · exact .refused h _ rfl
  have orderly := h.inner.call codec (m := .receive _) (takes_receive.2 ⟨r, rfl, run⟩) reliable
  cases r with
  | error e =>
    have own := (Session.raises_receive P bytes).takes run
    exact
      { coherent := ⟨.empty rfl nofun, nofun, nofun⟩
        unchanged := fun refused => absurd refused (not_or.2 own.status)
        delivered := nofun
        encrypted := fun _ => .inr ⟨_, rfl⟩
        empty := fun _ => ⟨events, output⟩
        events := ⟨[], .nil, by rw [events]; rfl⟩
        replies := by rw [output]; rfl }
  | ok r =>
    obtain ⟨new, reply⟩ := r
    have encodes := eventBytes_received codec run
    obtain ⟨queued, listed, each, all⟩ := enqueue_all
      (fun e mem => (encodes e mem).imp fun _ h => ⟨h.1, h.2.1⟩) ⟨inner, [], none⟩
    have settled : settle P ⟨inner, [], none⟩ (.ok (new, reply)) =
        ({ status := 0 }, ⟨inner, queued, reply⟩) := by
      simp only [settle, all, List.nil_append]
    rw [settled]
    exact
      { coherent := ⟨orderly, each, reply_ne_nil codec run⟩
        unchanged := fun refused => absurd (a := (0 : Int) = -2 ∨ (0 : Int) = Error.busy.status)
          refused (by decide)
        delivered := nofun
        encrypted := fun _ => .inr ⟨_, rfl⟩
        empty := fun _ => ⟨events, output⟩
        events := ⟨queued, listed, by rw [events]; rfl⟩
        replies := by rw [output]; rfl }

/-- Taking from a queue: what was at its front comes out whole, or it stays. -/
private theorem taken_cases {front : Option Bytes} (some : ∀ x ∈ front, x ≠ []) :
    ((copy (front.getD []) b).status = 0 ∧ (copy (front.getD []) b).taken = front.toList) ∨
    (copy (front.getD []) b).status ≠ 0 ∧ (copy (front.getD []) b).taken = [] := by
  rcases copy_cases (front.getD []) b with fits | refused
  · refine .inl ⟨by rw [fits], ?_⟩
    rw [fits]
    cases front with
    | none => rfl
    | some x => simp [CAnswer.taken, some x rfl]
  · have fails : (copy (front.getD []) b).status ≠ 0 := by
      rcases refused with refused | refused <;> rw [refused] <;> decide
    exact .inr ⟨fails, by simp [CAnswer.taken, fails]⟩

private theorem Exact.took (zero : a.status = 0) (coherent : s'.Coherent)
    (events : s.events = (m.drained a).1 ++ s'.events)
    (replies : s.output.toList = (m.drained a).2 ++ s'.output.toList) :
    Exact P s m [] ⟨a, none⟩ s' where
  coherent := coherent
  unchanged refused := by
    rw [zero] at refused
    exact absurd refused (by decide)
  delivered := nofun
  encrypted := by
    rintro ⟨_, _, mem⟩
    cases mem
  empty := by
    rintro ⟨_, other⟩
    cases other
  events := ⟨[], .nil, by rw [List.append_nil]; exact events⟩
  replies := by
    change s.output.toList ++ [] = _
    rw [List.append_nil]
    exact replies

theorem takeOutput_exact (h : s.Coherent) (b : CBuffer) :
    Exact P s (.takeOutput b) [] ⟨(s.takeOutput b).1, none⟩ (s.takeOutput b).2 := by
  rcases taken_cases (b := b) h.output with ⟨zero, taken⟩ | ⟨fails, taken⟩
  · have after : s.takeOutput b = (copy (s.output.getD []) b, { s with output := none }) := by
      simp [takeOutput, zero]
    rw [after]
    exact .took zero ⟨h.inner, h.events, nofun⟩ rfl (by simp [NativeMethod.drained, taken])
  · have after : s.takeOutput b = (copy (s.output.getD []) b, s) := by
      simp [takeOutput, fails]
    rw [after]
    exact .refused h _ (by simp [NativeMethod.drained, taken])

theorem takeEvent_exact (h : s.Coherent) (b : CBuffer) :
    Exact P s (.takeEvent b) [] ⟨(s.takeEvent b).1, none⟩ (s.takeEvent b).2 := by
  have front : ∀ x ∈ s.events.head?, x ≠ [] := fun x mem => h.events x (List.mem_of_mem_head? mem)
  rcases taken_cases (b := b) front with ⟨zero, taken⟩ | ⟨fails, taken⟩
  · have after : s.takeEvent b =
        (copy (s.events.head?.getD []) b, { s with events := s.events.tail }) := by
      simp [takeEvent, zero]
    have rest : s.events = s.events.head?.toList ++ s.events.tail := by
      cases s.events <;> rfl
    rw [after]
    refine .took zero ⟨h.inner, fun x mem => h.events x (List.mem_of_mem_tail mem), h.output⟩ ?_ rfl
    change s.events = (copy (s.events.head?.getD []) b).taken ++ s.events.tail
    rw [taken]
    exact rest
  · have after : s.takeEvent b = (copy (s.events.head?.getD []) b, s) := by
      simp [takeEvent, fails]
    rw [after]
    exact .refused h _ (by simp [NativeMethod.drained, taken])

/-- Every call, from every coherent handle. -/
theorem call_exact (codec : P.Ciborium) (h : s.Coherent) (expected : Expected s.inner.role tr)
    (takes : (m.program P s).Takes tr (o, s')) :
    Exact P s m tr o s' := by
  cases m with
  | start b => exact start_exact codec h expected takes
  | send data id b => exact send_exact codec h expected.reliable takes
  | respond requestId data b => exact respond_exact codec h expected.reliable takes
  | receive data => exact receive_exact codec h expected.reliable takes
  | takeOutput b =>
    obtain ⟨rfl, same⟩ := Prog.takes_pure.1 takes
    cases same
    exact takeOutput_exact h b
  | takeEvent b =>
    obtain ⟨rfl, same⟩ := Prog.takes_pure.1 takes
    cases same
    exact takeEvent_exact h b

end NativeSession
end OpenLock
