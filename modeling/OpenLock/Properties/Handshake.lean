import OpenLock.Protocol.Correlation
import OpenLock.Protocol.Scripted

/-! One session, alone with a peer that may encrypt anything: when its handshake completes. -/
namespace OpenLock
open Effects NoiseChannel Session

/-- Noise IK with an arbitrary peer. Its handshake has two messages, so neither side is
finished before it has read one; the answers are otherwise free. -/
def stranger : World NoiseAnswer Bool where
  permits heard
    | ⟨.handshakeFinished, true⟩ => heard = true
    | _ => True
  after heard
    | ⟨.readHandshake _, some _⟩ => true
    | _ => heard

variable (P : Primitives)

/-- One call of the session and everything observable about it. -/
structure Turn where
  before : Session
  heard : Bool
  method : SessionMethod
  trace : List NoiseEvent
  output : SessionOutput
  after : Session
  heardAfter : Bool
  performed : Exec stranger heard (method.program P before) trace heardAfter (some (output, after))

/-- Calls of a session in any order, with any inputs. -/
inductive Life (start : Session) : List (Turn P) → Session → Bool → Prop
  | nil : Life start [] start false
  | snoc {xs : List (Turn P)} (x : Turn P) (earlier : Life start xs x.before x.heard) :
      Life start (xs ++ [x]) x.after x.heardAfter

variable {P} {xs : List (Turn P)} {x : Turn P} {s s' start : Session} {heard : Bool}
  {tr : List NoiseEvent} {packet : Packet} {role : Role} {peer : SubjectKey}
  {events : List SessionEvent} {e : Error} {input key : Bytes}

def SessionEvent.completes : SessionEvent → Bool
  | .handshakeComplete _ => true
  | _ => false

def turnEvents (xs : List (Turn P)) : List SessionEvent := xs.flatMap fun x => x.output.events

/-- A handshake packet is received in transport mode. -/
def Turn.rehandshakes (x : Turn P) (packet : Packet) : Prop :=
  x.before.channel = .transport ∧ packet.kind = kindHandshake ∧
    ∃ input, x.method = .receive input ∧ decodePacket P input = .ok packet

structure CompletesOnce (xs : List (Turn P)) : Prop where
  once : (turnEvents xs).countP SessionEvent.completes ≤ 1
  first : ∀ pre e post, turnEvents xs = pre ++ e :: post → e.completes = false →
    ∃ e' ∈ pre, e'.completes = true
  rejected : ∀ x ∈ xs, ∀ packet, x.rehandshakes packet →
    x.after.channel = .closed ∧ ∃ e, x.output = .received (.error e)

/-- An initiator in transport mode reads a handshake packet whose payload the peer encrypted
as an empty transport message. -/
def Turn.reopens (x : Turn P) : Prop :=
  x.before.role = .initiator ∧ ∃ packet key peer, x.rehandshakes packet ∧
    subjectKey P key = .ok peer ∧
    x.trace = [⟨.readTransport packet.payload, some []⟩, ⟨.remoteStatic, some key⟩]

/-- What holds between any two calls as long as no transport message was taken for a
handshake. -/
structure Completing (xs : List (Turn P)) (s : Session) (heard : Bool) : Prop where
  unstarted : s.started = false → s.channel ≠ .transport ∧ (s.channel = .handshake → heard = false)
  transport : s.channel = .transport → ∃ e ∈ turnEvents xs, e.completes = true
  handshake : s.channel = .handshake → turnEvents xs = []
  once : (turnEvents xs).countP SessionEvent.completes ≤ 1
  first : ∀ pre e post, turnEvents xs = pre ++ e :: post → e.completes = false →
    ∃ e' ∈ pre, e'.completes = true

theorem turnEvents_snoc : turnEvents (xs ++ [x]) = turnEvents xs ++ x.output.events := by
  simp [turnEvents]

/-- A call that reports nothing. -/
private theorem Completing.silent (h : Completing xs x.before x.heard)
    (events : x.output.events = [])
    (unstarted : x.after.started = false → x.after.channel ≠ .transport ∧
      (x.after.channel = .handshake → x.heardAfter = false))
    (transport : x.after.channel = .transport → x.before.channel = .transport)
    (handshake : x.after.channel = .handshake → x.before.channel = .handshake) :
    Completing (xs ++ [x]) x.after x.heardAfter := by
  have same : turnEvents (xs ++ [x]) = turnEvents xs := by
    rw [turnEvents_snoc, events, List.append_nil]
  exact {
    unstarted
    transport := fun opened => by rw [same]; exact h.transport (transport opened)
    handshake := fun opening => by rw [same]; exact h.handshake (handshake opening)
    once := by rw [same]; exact h.once
    first := by rw [same]; exact h.first }

private theorem afterAll_stranger (unsent : Unsent tr) : stranger.afterAll heard tr = heard := by
  refine World.afterAll_still fun ev mem => ?_
  obtain ⟨call, answer⟩ := ev
  cases call with
  | readHandshake message =>
    cases answer with
    | none => rfl
    | some out => exact absurd ⟨message, out, .inr (.inr rfl)⟩ (unsent _ mem)
  | _ => rfl

/-- A call that reports nothing and closes the session. -/
private theorem Completing.closes (h : Completing xs x.before x.heard)
    (events : x.output.events = []) (closed : x.after.channel = .closed) :
    Completing (xs ++ [x]) x.after x.heardAfter := by
  refine h.silent events ?_ (fun opened => ?_) (fun opening => ?_)
  · rw [closed]
    exact fun _ => ⟨by decide, fun opening => by cases opening⟩
  · rw [closed] at opened
    cases opened
  · rw [closed] at opening
    cases opening

/-- A call that receives nothing, and leaves the channel or closes it. -/
private theorem Completing.rests (h : Completing xs x.before x.heard)
    (events : x.output.events = []) (started : x.after.started = x.before.started)
    (channel : x.after.channel = x.before.channel ∨ x.after.channel = .closed)
    (heard : x.heardAfter = x.heard) : Completing (xs ++ [x]) x.after x.heardAfter := by
  rcases channel with same | closed
  · refine h.silent events ?_ (fun opened => same ▸ opened) (fun opening => same ▸ opening)
    rw [started, same, heard]
    exact h.unstarted
  · exact h.closes events closed

/-- An initiator is not finished by its first message. -/
private theorem write_unfinished {ch ch' : NoiseState} {r : Except Error Bytes}
    (wrote : TakesE (write []) ch tr r ch') (outside : ch ≠ .transport)
    (permits : stranger.Permits heard tr) (unheard : ch = .handshake → heard = false) :
    ch' = ch ∨ ch' = .closed := by
  cases r with
  | ok out =>
    obtain ⟨_, ⟨opening, rest, done, rfl⟩ | ⟨inside, _⟩⟩ := write_ok.1 wrote
    · cases done with
      | unfinished => exact .inl opening.symm
      | finished =>
        have early : heard = true := permits.2.1
        rw [unheard opening] at early
        cases early
    · exact absurd inside outside
  | error e => exact (write_error wrote).2

/-- An accepted handshake packet that found a transport was a transport message. -/
private theorem reopens_of_received {reply : Option Bytes} (method : x.method = .receive input)
    (decoded : decodePacket P input = .ok packet) (kind : packet.kind = kindHandshake)
    (started : x.before.started = true) (channel : x.before.channel = .transport)
    (received : Received P x.before packet x.trace (events, reply) s') : x.reopens := by
  generalize trace : x.trace = tr at received
  cases received with
  | handshake _ turn read answered completed =>
    have role := turn.1 started
    rw [channel] at read
    rw [role] at answered
    obtain ⟨_, ⟨opening, _⟩ | ⟨_, rfl, rfl⟩⟩ := read_ok.1 read
    · cases opening
    cases answered
    cases completed with
    | transport identified =>
      exact ⟨role, packet, _, _, ⟨channel, kind, input, method, decoded⟩, identified, trace⟩
  | request other | response other =>
    rw [kind] at other
    cases other

private theorem Completing.started (h : Completing xs s heard) (channel : s.channel = .transport) :
    s.started = true := by
  by_contra unstarted
  exact (h.unstarted (Bool.eq_false_iff.2 unstarted)).1 channel

/-- The first handshake message that is read completes the handshake or leaves it open. -/
private theorem Completing.handshakes {ch : NoiseState} (h : Completing xs x.before x.heard)
    (channel : x.before.channel = .handshake) (output : x.output.events = events)
    (completed : Completes P ch tr events)
    (after : x.after = { x.before with started := true, channel := ch }) :
    Completing (xs ++ [x]) x.after x.heardAfter := by
  have all : turnEvents (xs ++ [x]) = events := by
    rw [turnEvents_snoc, h.handshake channel, output, List.nil_append]
  cases completed with
  | @transport key peer _ =>
    rw [after]
    exact {
      unstarted := fun never => by cases never
      transport := fun _ => ⟨_, by rw [all]; exact List.mem_singleton_self _, rfl⟩
      handshake := fun opening => by cases opening
      once := by rw [all]; exact le_rfl
      first := by
        intro pre e post split other
        rw [all] at split
        cases pre with
        | nil =>
          cases split
          cases other
        | cons _ pre => cases pre <;> cases split }
  | handshake =>
    refine h.silent output ?_ ?_ ?_
    · rw [after]
      exact fun never => by cases never
    · rw [after]
      exact fun opened => by cases opened
    · exact fun _ => channel

/-- A request or a response comes after the handshake. -/
private theorem Completing.reports {e : SessionEvent} (h : Completing xs x.before x.heard)
    (channel : x.before.channel = .transport) (output : x.output.events = [e])
    (other : e.completes = false) (started : x.after.started = x.before.started)
    (same : x.after.channel = x.before.channel) : Completing (xs ++ [x]) x.after x.heardAfter := by
  have all : turnEvents (xs ++ [x]) = turnEvents xs ++ [e] := by rw [turnEvents_snoc, output]
  obtain ⟨done, known, completes⟩ := h.transport channel
  refine { unstarted := ?_, transport := ?_, handshake := ?_, once := ?_, first := ?_ }
  · rw [started, h.started channel]
    exact fun never => by cases never
  · rw [all]
    exact fun _ => ⟨done, List.mem_append_left _ known, completes⟩
  · rw [same, channel]
    exact fun opening => by cases opening
  · rw [all, List.countP_append, List.countP_singleton, other]
    exact h.once
  · intro pre e' post split other'
    rw [all] at split
    rcases List.eq_nil_or_concat post with rfl | ⟨post, z, rfl⟩
    · obtain ⟨rfl, _⟩ := List.append_inj' split rfl
      exact ⟨done, known, completes⟩
    · rw [List.concat_eq_append, ← List.cons_append, ← List.append_assoc] at split
      obtain ⟨split, _⟩ := List.append_inj' split rfl
      exact h.first pre e' post split other'

private theorem Completing.receives
    {r : Except Error (List SessionEvent × Option Bytes)} (h : Completing xs x.before x.heard)
    (fair : ¬ x.reopens) (method : x.method = .receive input) (output : x.output = .received r)
    (takes : TakesE (receive P input) x.before x.trace r x.after) :
    Completing (xs ++ [x]) x.after x.heardAfter := by
  cases r with
  | error e =>
    exact h.closes (by rw [output]; rfl) (receive_error takes).1
  | ok r =>
    obtain ⟨events, reply⟩ := r
    obtain ⟨packet, decoded, received⟩ := receive_ok takes
    have reported : x.output.events = events := by rw [output]; rfl
    have stranded (kind : packet.kind = kindHandshake) : x.before.channel ≠ .transport :=
      fun channel => fair (reopens_of_received method decoded kind (h.started channel) channel received)
    generalize x.trace = tr at received
    generalize after : x.after = s' at received
    rw [← after]
    cases received with
    | handshake kind _ read _ completed =>
      refine h.handshakes ?_ reported completed after
      cases held : x.before.channel with
      | handshake => rfl
      | transport => exact absurd held (stranded kind)
      | closed => exact absurd held (read_open read)
    | request _ _ _ _ channel => exact h.reports channel reported rfl (by rw [after]) (by rw [after])
    | response _ _ _ channel => exact h.reports channel reported rfl (by rw [after]) (by rw [after])

theorem Completing.step (h : Completing xs x.before x.heard) (fair : ¬ x.reopens) :
    Completing (xs ++ [x]) x.after x.heardAfter := by
  obtain ⟨takes, permits, heard⟩ := exec_some_iff.1 x.performed
  cases method : x.method with
  | start =>
    rw [method] at takes
    obtain ⟨r, output, takes⟩ := takes_start.1 takes
    have events : x.output.events = [] := by rw [output]; rfl
    obtain ⟨same, trace, _⟩ | ⟨_, unstarted, _, ch, wrote, after, _⟩ := start_takes takes
    · exact h.rests events (by rw [same]) (.inl (by rw [same])) (by rw [heard, trace]; rfl)
    · obtain ⟨outside, unheard⟩ := h.unstarted unstarted
      have channel := write_unfinished wrote outside permits unheard
      refine h.silent events ?_ ?_ ?_
      · rw [after]
        exact fun never => by cases never
      · rw [after]
        intro opened
        rcases channel with same | closed
        · exact same.symm.trans opened
        · rw [closed] at opened
          cases opened
      · rw [after]
        intro opening
        rcases channel with same | closed
        · exact same.symm.trans opening
        · rw [closed] at opening
          cases opening
  | send c =>
    rw [method] at takes
    obtain ⟨r, output, takes⟩ := takes_send.1 takes
    have events : x.output.events = [] := by rw [output]; rfl
    generalize trace : x.trace = tr at takes heard
    generalize after : x.after = s' at takes
    rw [← after]
    cases send_takes takes with
    | refused _ unsent _ channel =>
      exact h.rests events (by rw [after]) (by rw [after]; exact channel)
        (heard.trans (afterAll_stranger unsent))
    | lost _ _ => exact h.rests events (by rw [after]) (.inl (by rw [after])) heard
    | sent _ _ => exact h.rests events (by rw [after]) (.inl (by rw [after])) heard
  | respond requestId response =>
    rw [method] at takes
    obtain ⟨r, output, takes⟩ := takes_respond.1 takes
    have events : x.output.events = [] := by rw [output]; rfl
    generalize trace : x.trace = tr at takes heard
    generalize after : x.after = s' at takes
    rw [← after]
    cases respond_takes takes with
    | refused _ unsent channel =>
      exact h.rests events (by rw [after]) (by rw [after]; exact channel)
        (heard.trans (afterAll_stranger unsent))
    | lost _ _ => exact h.rests events (by rw [after]) (.inl (by rw [after])) heard
    | sent _ _ => exact h.rests events (by rw [after]) (.inl (by rw [after])) heard
  | receive input =>
    rw [method] at takes
    obtain ⟨r, output, takes⟩ := takes_receive.1 takes
    exact h.receives fair method output takes
  | close =>
    rw [method] at takes
    obtain ⟨_, output, after⟩ := takes_close.1 takes
    exact h.closes (by rw [output]; rfl) (by rw [after]; rfl)

private theorem handshakeReply_initiator {r : Except Error (Option Bytes)}
    (role : s.role = .initiator) (h : TakesE (handshakeReply P) s tr r s') :
    tr = [] ∧ r = .ok none ∧ s' = s := by
  unfold handshakeReply at h
  rw [takesE_get_bind, role, if_neg (by decide)] at h
  exact takesE_pure.1 h

private theorem handshakeEvents_accepted (channel : s.channel = .transport)
    (identified : subjectKey P key = .ok peer) :
    ¬ TakesE (handshakeEvents P) s [⟨.remoteStatic, some key⟩] (.error e) s' := by
  intro h
  unfold handshakeEvents at h
  rw [takesE_get_bind, if_pos channel, takesE_bind] at h
  obtain ⟨_, _, _, _, _, last, _⟩ | ⟨_, failed, _⟩ := h
  · cases (takesE_pure.1 last).2.1
  · obtain ⟨_, unread, _⟩ := takes_onChannel.1 failed
    rw [channel] at unread
    obtain ⟨answer, same, unnamed⟩ := peerStatic_error unread
    cases same
    obtain ⟨_, named⟩ := unnamed key rfl
    rw [identified] at named
    cases named

/-- A transport message that is empty is accepted as a handshake. -/
private theorem receiveHandshake_accepted (role : s.role = .initiator)
    (channel : s.channel = .transport) (identified : subjectKey P key = .ok peer) :
    ¬ TakesE (receiveHandshake P packet) s
      [⟨.readTransport packet.payload, some []⟩, ⟨.remoteStatic, some key⟩] (.error e) s' := by
  intro h
  unfold receiveHandshake at h
  rw [takesE_bind] at h
  obtain ⟨clear, _, tr₁, tr₂, read, rest, split⟩ | ⟨_, failed, _⟩ := h
  · obtain ⟨_, reads, rfl⟩ := takes_onChannel.1 read
    rw [channel] at reads
    obtain ⟨_, ⟨opening, _⟩ | ⟨_, rfl, rfl⟩⟩ := read_ok.1 reads
    · cases opening
    cases split
    rw [takesE_failIf_bind, takesE_modify_bind, takesE_bind] at rest
    obtain ⟨_, ⟨_, _, _, _, reply, rest, split⟩ | ⟨_, reply, _⟩⟩ | ⟨some, _⟩ := rest
    · obtain ⟨rfl, _, rfl⟩ := handshakeReply_initiator (by exact role) reply
      cases split
      rw [takesE_bind] at rest
      obtain ⟨_, _, _, _, _, last, _⟩ | ⟨_, failed, _⟩ := rest
      · cases (takesE_pure.1 last).2.1
      · exact handshakeEvents_accepted rfl identified failed
    · cases (handshakeReply_initiator (by exact role) reply).2.1
    · exact some rfl
  · obtain ⟨_, unread, _⟩ := takes_onChannel.1 failed
    rw [channel] at unread
    obtain ⟨h, _⟩ | h := read_transport_error unread <;> cases h

private theorem reopening_accepted {input key : Bytes} (decoded : decodePacket P input = .ok packet)
    (kind : packet.kind = kindHandshake) (role : s.role = .initiator) (started : s.started = true)
    (channel : s.channel = .transport) (identified : subjectKey P key = .ok peer) :
    ¬ TakesE (receive P input) s
      [⟨.readTransport packet.payload, some []⟩, ⟨.remoteStatic, some key⟩] (.error e) s' := by
  intro h
  unfold receive at h
  obtain ⟨_, _, h⟩ | ⟨_, d, h, _⟩ := takesE_onError.1 h
  · cases h
  unfold receiveInner at h
  obtain ⟨_, same, h⟩ | ⟨_, failed, _⟩ := takesE_ofExcept_bind.1 h
  · cases decoded.symm.trans same
    obtain ⟨_, _, h⟩ | ⟨_, refused, _⟩ := takesE_ofExcept_bind.1 (takesE_get_bind.1 h)
    · rw [if_pos kind] at h
      exact receiveHandshake_accepted role channel identified h
    · have admitted : s.checkPacket packet = .ok () := by
        have differs : kindHandshake ≠ kindRequest ∧ kindHandshake ≠ kindResponse := by decide
        rw [checkPacket_eq_ok, kind, started, role]
        simp [differs]
      cases admitted.symm.trans refused
  · cases decoded.symm.trans failed

theorem Completing.fresh (h : Opened P role s) : Completing ([] : List (Turn P)) s false := by
  obtain ⟨_, rfl, _⟩ := h.eq_fresh
  exact {
    unstarted := fun _ => ⟨fun opened => (by cases opened), fun _ => rfl⟩
    transport := fun opened => by cases opened
    handshake := fun _ => rfl
    once := Nat.zero_le 1
    first := fun pre _ _ split => by cases pre <;> cases split }

theorem Life.completing (opened : Opened P role start) (life : Life P start xs s heard)
    (fair : ∀ x ∈ xs, ¬ x.reopens) : Completing xs s heard := by
  induction life with
  | nil => exact .fresh opened
  | snoc x _ ih =>
    exact (ih fun y mem => fair y (List.mem_append_left _ mem)).step
      (fair x (List.mem_append_right _ (List.mem_singleton_self x)))

private theorem rejected_of_fair (h : Completing xs x.before x.heard) (fair : ¬ x.reopens)
    (again : x.rehandshakes packet) :
    x.after.channel = .closed ∧ ∃ e, x.output = .received (.error e) := by
  obtain ⟨channel, kind, input, method, decoded⟩ := again
  obtain ⟨takes, _, _⟩ := exec_some_iff.1 x.performed
  rw [method] at takes
  obtain ⟨r, output, takes⟩ := takes_receive.1 takes
  cases r with
  | error e => exact ⟨(receive_error takes).1, e, output⟩
  | ok r =>
    obtain ⟨_, same, received⟩ := receive_ok takes
    cases decoded.symm.trans same
    exact absurd (reopens_of_received method decoded kind (h.started channel) channel received) fair

private theorem fair_of_rejected (h : Completing xs x.before x.heard)
    (rejected : ∀ packet, x.rehandshakes packet → ∃ e, x.output = .received (.error e)) :
    ¬ x.reopens := by
  rintro ⟨role, packet, key, peer, again, identified, trace⟩
  obtain ⟨e, failed⟩ := rejected packet again
  obtain ⟨channel, kind, input, method, decoded⟩ := again
  obtain ⟨takes, _, _⟩ := exec_some_iff.1 x.performed
  rw [method, failed, trace] at takes
  obtain ⟨_, same, takes⟩ := takes_receive.1 takes
  cases same
  exact reopening_accepted decoded kind role (h.started channel) channel identified takes

private theorem Life.fair (opened : Opened P role start)
    (life : Life P start xs s heard) (rejected : ∀ x ∈ xs, ∀ packet, x.rehandshakes packet →
      x.after.channel = .closed ∧ ∃ e, x.output = .received (.error e)) :
    ∀ x ∈ xs, ¬ x.reopens := by
  induction life with
  | nil => exact fun _ mem => by cases mem
  | snoc x earlier ih =>
    have before := ih fun y mem => rejected y (List.mem_append_left _ mem)
    intro y mem
    rcases List.mem_append.1 mem with known | last
    · exact before y known
    · cases List.mem_singleton.1 last
      exact fair_of_rejected (earlier.completing opened before) fun packet again =>
        (rejected x mem packet again).2

private theorem Life.rejected (opened : Opened P role start) (life : Life P start xs s heard)
    (fair : ∀ x ∈ xs, ¬ x.reopens) :
    ∀ x ∈ xs, ∀ packet, x.rehandshakes packet →
      x.after.channel = .closed ∧ ∃ e, x.output = .received (.error e) := by
  induction life with
  | nil => exact fun _ mem => by cases mem
  | @snoc xs x earlier ih =>
    have before : ∀ y ∈ xs, ¬ y.reopens := fun y mem => fair y (List.mem_append_left _ mem)
    intro y mem packet again
    rcases List.mem_append.1 mem with known | last
    · exact ih before y known packet again
    · cases List.mem_singleton.1 last
      exact rejected_of_fair (earlier.completing opened before) (fair x mem) again

variable (P) in
/-- A session from its construction on. -/
structure Lifetime where
  role : Role
  start : Session
  opened : Opened P role start
  turns : List (Turn P)
  last : Session
  heard : Bool
  life : Life P start turns last heard

/-- The handshake of a session completes once, before any request or response, and a later
handshake packet closes the session, exactly if no transport message of an initiator is taken
for a handshake message. -/
theorem handshake_once_iff (l : Lifetime P) :
    CompletesOnce l.turns ↔ ∀ x ∈ l.turns, ¬ x.reopens := by
  constructor
  · intro once
    exact l.life.fair l.opened once.rejected
  · intro fair
    have whole := l.life.completing l.opened fair
    exact ⟨whole.once, whole.first, l.life.rejected l.opened fair⟩

section Samples
/-! A peer that, once the handshake is over, sends an empty transport message as one more
handshake packet. -/
namespace Intruder

def answer (heard : Bool) (_ : List NoiseEvent) : (e : NoiseCall) → NoiseAnswer e
  | .build _ _ => true
  | .writeHandshake _ => some (List.replicate 48 1)
  | .readHandshake _ => some []
  | .handshakeFinished => heard
  | .intoTransport => true
  | .writeTransport payload => some (payload ++ List.replicate 16 0)
  | .readTransport message => some (message.drop 16)
  | .remoteStatic => some (List.replicate 32 9)

theorem answer_permitted (heard : Bool) (past : List NoiseEvent) (e : NoiseCall) :
    stranger.permits heard ⟨e, answer heard past e⟩ := by
  cases e with
  | handshakeFinished => cases heard <;> trivial
  | _ => trivial

def turn (s : Session) (heard : Bool) (m : SessionMethod) : Turn Duplex.primitives :=
  let run := (m.program Duplex.primitives s).play stranger answer heard []
  { before := s
    heard
    method := m
    trace := run.1
    output := run.2.2.1
    after := run.2.2.2
    heardAfter := run.2.1
    performed := Exec.play answer_permitted _ _ _ }

def turns : List SessionMethod → Session → Bool → List (Turn Duplex.primitives)
  | [], _, _ => []
  | m :: ms, s, heard =>
    let x := turn s heard m
    x :: turns ms x.after x.heardAfter

def outcome : List SessionMethod → Session → Bool → Session × Bool
  | [], s, heard => (s, heard)
  | m :: ms, s, heard =>
    let x := turn s heard m
    outcome ms x.after x.heardAfter

theorem life_turns {xs : List (Turn Duplex.primitives)}
    (life : Life Duplex.primitives start xs s heard) (ms : List SessionMethod) :
    Life Duplex.primitives start (xs ++ turns ms s heard) (outcome ms s heard).1
      (outcome ms s heard).2 := by
  induction ms generalizing xs s heard with
  | nil => simpa [turns, outcome] using life
  | cons m ms ih =>
    have more := ih (.snoc (turn s heard m) life)
    simpa [turns, outcome] using more

def lifetime (ms : List SessionMethod) : Lifetime Duplex.primitives where
  role := .initiator
  start := Duplex.fresh.initiator
  opened := Duplex.fresh_initiator
  turns := turns ms Duplex.fresh.initiator false
  last := (outcome ms Duplex.fresh.initiator false).1
  heard := (outcome ms Duplex.fresh.initiator false).2
  life := life_turns .nil ms

def handshakePacket (payload : Bytes) : Bytes :=
  match encodePacket Duplex.primitives ⟨kindHandshake, 0, 0, payload⟩ with
  | .ok packet => packet
  | .error _ => []

/-- The handshake, then the reply again with a payload that is a transport message. -/
def reopening : List SessionMethod :=
  [.start, .receive (handshakePacket (List.replicate 48 1)),
    .receive (handshakePacket (List.replicate 16 0))]

/-- The initiator completes the handshake twice and stays open. -/
theorem handshake_twice :
    (turnEvents (lifetime reopening).turns).countP SessionEvent.completes = 2 ∧
    (lifetime reopening).last.channel = .transport ∧
    ¬ CompletesOnce (lifetime reopening).turns := by
  have twice :
      (turnEvents (lifetime reopening).turns).countP SessionEvent.completes = 2 := by
    decide +kernel
  refine ⟨twice, by decide +kernel, fun once => ?_⟩
  have atMost := once.once
  omega

end Intruder
end Samples

end OpenLock
