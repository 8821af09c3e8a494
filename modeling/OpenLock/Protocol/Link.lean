import OpenLock.Protocol.Calls

/-! Two sessions over a network that may do anything to their packets, joined by Noise: in
transport mode a message is read exactly if it is the peer's next unread ciphertext. -/
namespace OpenLock
open Effects
variable {m : SessionMethod} {P : Primitives} {s : Session} {role : Role}

/-- One direction of a transport: the payloads encrypted so far with their ciphertexts, oldest
first, and how many of them the peer has read. -/
structure Direction where
  written : List (Bytes × Bytes)
  taken : Nat

def Direction.next (d : Direction) (message : Bytes) : Option Bytes :=
  match d.written[d.taken]? with
  | some (payload, out) => if out = message then some payload else none
  | none => none

structure Link where
  toResponder : Direction
  toInitiator : Direction

namespace Link

def quiet : Link := ⟨⟨[], 0⟩, ⟨[], 0⟩⟩

def incoming (l : Link) : Role → Direction
  | .initiator => l.toInitiator
  | .responder => l.toResponder

def write (l : Link) (payload out : Bytes) : Role → Link
  | .initiator => { l with toResponder.written := l.toResponder.written ++ [(payload, out)] }
  | .responder => { l with toInitiator.written := l.toInitiator.written ++ [(payload, out)] }

def take (l : Link) : Role → Link
  | .initiator => { l with toInitiator.taken := l.toInitiator.taken + 1 }
  | .responder => { l with toResponder.taken := l.toResponder.taken + 1 }

end Link

/-- Noise as one side meets it. Nothing is assumed of the handshake, nor of ciphertexts. -/
def noise (role : Role) : World NoiseAnswer Link where
  permits l
    | ⟨.readTransport message, answer⟩ => answer = (l.incoming role).next message
    | _ => True
  after l
    | ⟨.writeTransport payload, some out⟩ => l.write payload out role
    | ⟨.readTransport _, some _⟩ => l.take role
    | _ => l

section Frames
variable {l : Link} {role : Role} {tr : List NoiseEvent}

/-- Only messages that pass the transport are seen on it. -/
theorem noise_after {ev : NoiseEvent} (idle : ¬ NoiseChannel.Passes ev) :
    (noise role).after l ev = l := by
  obtain ⟨call, answer⟩ := ev
  cases call with
  | writeTransport message =>
    cases answer with
    | none => rfl
    | some out => exact absurd ⟨message, out, .inl rfl⟩ idle
  | readTransport message =>
    cases answer with
    | none => rfl
    | some out => exact absurd ⟨message, out, .inr (.inl rfl)⟩ idle
  | _ => rfl

theorem afterAll_unsent (h : NoiseChannel.Unsent tr) : (noise role).afterAll l tr = l :=
  World.afterAll_still fun ev mem => noise_after (h ev mem)

/-- Who receives writes at most empty payloads, and only as the responder. -/
theorem afterAll_receiving (h : ∀ ev ∈ tr, Session.Receiving role ev.effect) :
    ((noise role).afterAll l tr).toResponder.written = l.toResponder.written ∧
    ∀ w ∈ ((noise role).afterAll l tr).toInitiator.written,
      w ∈ l.toInitiator.written ∨ w.1 = [] := by
  induction tr generalizing l with
  | nil => exact ⟨rfl, fun _ => .inl⟩
  | cons ev tr ih =>
    obtain ⟨first, rest⟩ := List.forall_mem_cons.1 h
    obtain ⟨written, replies⟩ := ih (l := (noise role).after l ev) rest
    rw [World.afterAll_cons, written]
    obtain ⟨call, answer⟩ := ev
    cases call with
    | writeTransport message =>
      obtain ⟨rfl, blank⟩ := first
      cases answer with
      | none => exact ⟨rfl, replies⟩
      | some out =>
        refine ⟨rfl, fun w mem => ?_⟩
        rcases replies w mem with earlier | empty
        · rcases List.mem_append.1 earlier with old | new
          · exact .inl old
          · cases List.mem_singleton.1 new
            exact .inr blank
        · exact .inr empty
    | readTransport message => cases answer <;> cases role <;> exact ⟨rfl, replies⟩
    | _ => exact ⟨rfl, replies⟩

/-- Nothing is taken from the responder's direction unless it reads in transport mode. -/
theorem afterAll_untaken
    (h : role = .responder → ∀ ev ∈ tr, ∀ message, ev.effect ≠ .readTransport message) :
    ((noise role).afterAll l tr).toResponder.taken = l.toResponder.taken := by
  induction tr generalizing l with
  | nil => rfl
  | cons ev tr ih =>
    rw [World.afterAll_cons, ih fun side => (List.forall_mem_cons.1 (h side)).2]
    obtain ⟨call, answer⟩ := ev
    cases call with
    | writeTransport message => cases answer <;> cases role <;> rfl
    | readTransport message =>
      cases role with
      | initiator => cases answer <;> rfl
      | responder => exact absurd rfl (h rfl _ List.mem_cons_self message)
    | _ => rfl

end Frames

/-- The public methods of a session. -/
inductive SessionMethod where
  | start
  | send (c : Command)
  | respond (requestId : UInt32) (response : Response)
  | receive (input : Bytes)
  | close

inductive SessionOutput where
  | packet (r : Except Error Bytes)
  | sent (r : Except Error (UInt32 × Bytes))
  | received (r : Except Error (List SessionEvent × Option Bytes))
  | closed
  deriving DecidableEq

def SessionOutput.events : SessionOutput → List SessionEvent
  | .received (.ok (events, _)) => events
  | _ => []

/-- A packet came out. -/
def SessionOutput.succeeded : SessionOutput → Bool
  | .packet (.ok _) | .sent (.ok _) | .received (.ok _) => true
  | _ => false

/-- The packet that a call returned. -/
def SessionOutput.made : SessionOutput → Option Bytes
  | .packet (.ok b) | .sent (.ok (_, b)) | .received (.ok (_, some b)) => some b
  | _ => none

def SessionMethod.program (P : Primitives) :
    SessionMethod → Session → Prog NoiseAnswer (SessionOutput × Session)
  | .start, s => do
    let (r, s') ← (Session.start P).run s
    pure (.packet r, s')
  | .send c, s => do
    let (r, s') ← (Session.send P c).run s
    pure (.sent r, s')
  | .respond id response, s => do
    let (r, s') ← (Session.respond P id response).run s
    pure (.packet r, s')
  | .receive input, s => do
    let (r, s') ← (Session.receive P input).run s
    pure (.received r, s')
  | .close, s => pure (.closed, s.close)

/-- Two sessions and the transport between them. -/
structure Parties where
  initiator : Session
  responder : Session
  link : Link

def Parties.session (p : Parties) : Role → Session
  | .initiator => p.initiator
  | .responder => p.responder

def Parties.after (p : Parties) (s : Session) (l : Link) : Role → Parties
  | .initiator => ⟨s, p.responder, l⟩
  | .responder => ⟨p.initiator, s, l⟩

/-- What holds of each side still does if one side's session is replaced by one it holds of. -/
theorem Parties.forall_after {C : Role → Session → Prop} {p : Parties} {l : Link} {r : Role}
    (own : C r s) (other : ∀ role, C role (p.session role)) :
    ∀ role, C role ((p.after s l r).session role) := by
  intro role
  cases r <;> cases role <;> first | exact own | exact other _

/-- One call of one side. The network chooses the inputs of `receive`. -/
inductive SessionStep (P : Primitives) :
    Parties → Role → SessionMethod → List NoiseEvent → SessionOutput → Parties → Prop
  | call {p : Parties} {role : Role} {m : SessionMethod} {tr : List NoiseEvent}
      {output : SessionOutput} {s : Session} {l : Link}
      (exec : Exec (noise role) p.link (m.program P (p.session role)) tr l (some (output, s))) :
      SessionStep P p role m tr output (p.after s l role)

section Programs
variable {P : Primitives} {s s' : Session} {tr : List NoiseEvent} {output : SessionOutput}

private theorem takes_output {α : Type} {x : Ses α} {f : Except Error α → SessionOutput} :
    (do let (r, t) ← x.run s; pure (f r, t) : Prog NoiseAnswer _).Takes tr (output, s') ↔
      ∃ r, output = f r ∧ TakesE x s tr r s' := by
  change (Prog.bind (x.run s) fun r => .pure (f r.1, r.2)).Takes tr (output, s') ↔ _
  rw [Prog.takes_bind]
  constructor
  · rintro ⟨⟨r, t⟩, tr₁, _, first, last, rfl⟩
    obtain ⟨rfl, same⟩ := Prog.takes_pure.1 last
    cases same
    rw [List.append_nil]
    exact ⟨r, rfl, first⟩
  · rintro ⟨r, rfl, takes⟩
    exact ⟨(r, s'), tr, [], takes, .pure _, (List.append_nil tr).symm⟩

theorem takes_start : (SessionMethod.start.program P s).Takes tr (output, s') ↔
    ∃ r, output = .packet r ∧ TakesE (Session.start P) s tr r s' := takes_output

theorem takes_send {c : Command} :
    ((SessionMethod.send c).program P s).Takes tr (output, s') ↔
      ∃ r, output = .sent r ∧ TakesE (Session.send P c) s tr r s' := takes_output

theorem takes_respond {id : UInt32} {response : Response} :
    ((SessionMethod.respond id response).program P s).Takes tr (output, s') ↔
      ∃ r, output = .packet r ∧ TakesE (Session.respond P id response) s tr r s' := takes_output

theorem takes_receive {input : Bytes} :
    ((SessionMethod.receive input).program P s).Takes tr (output, s') ↔
      ∃ r, output = .received r ∧ TakesE (Session.receive P input) s tr r s' := takes_output

theorem takes_close : (SessionMethod.close.program P s).Takes tr (output, s') ↔
    tr = [] ∧ output = .closed ∧ s' = s.close := by
  change (Prog.pure (SessionOutput.closed, s.close)).Takes tr (output, s') ↔ _
  rw [Prog.takes_pure, Prod.mk.injEq]

/-- A closed session stays closed and nothing comes out of it. -/
theorem program_closed (closed : s.channel = .closed) (h : (m.program P s).Takes tr (output, s')) :
    s'.channel = .closed ∧ output.events = [] ∧ output.succeeded = false := by
  cases m with
  | start =>
    obtain ⟨r, rfl, takes⟩ := takes_start.1 h
    obtain ⟨rfl, _, rfl⟩ | ⟨_, _, written, ch, wrote, rfl, rfl⟩ := Session.start_takes takes
    · exact ⟨closed, rfl, rfl⟩
    · rw [closed] at wrote
      obtain ⟨⟨e, rfl⟩, rfl⟩ := NoiseChannel.write_closed wrote
      exact ⟨rfl, rfl, rfl⟩
  | send c =>
    obtain ⟨r, rfl, takes⟩ := takes_send.1 h
    cases Session.send_takes takes with
    | refused e _ _ channel => exact ⟨channel.elim (fun h => h.trans closed) id, rfl, rfl⟩
    | lost checked _ | sent checked _ =>
      rw [checked.sendable.2.1] at closed
      cases closed
  | respond requestId response =>
    obtain ⟨r, rfl, takes⟩ := takes_respond.1 h
    cases Session.respond_takes takes with
    | refused e _ channel => exact ⟨channel.elim (fun h => h.trans closed) id, rfl, rfl⟩
    | lost checked _ | sent checked _ =>
      rw [checked.channel] at closed
      cases closed
  | receive input =>
    obtain ⟨r, rfl, takes⟩ := takes_receive.1 h
    cases r with
    | error e => exact ⟨(Session.receive_error takes).1, rfl, rfl⟩
    | ok r =>
      obtain ⟨packet, _, received⟩ := Session.receive_ok takes
      cases received with
      | handshake _ _ read _ _ =>
        rw [closed] at read
        obtain ⟨_, ⟨inside, _⟩ | ⟨inside, _⟩⟩ := NoiseChannel.read_ok.1 read <;> cases inside
      | request _ _ _ _ channel | response _ _ _ channel =>
        rw [channel] at closed
        cases closed
  | close =>
    obtain ⟨_, rfl, rfl⟩ := takes_close.1 h
    exact ⟨rfl, rfl, rfl⟩

end Programs

theorem SessionStep.takes {p p' : Parties} {tr : List NoiseEvent} {output : SessionOutput}
    (h : SessionStep P p role m tr output p') :
    ∃ s, p' = p.after s ((noise role).afterAll p.link tr) role ∧
      (m.program P (p.session role)).Takes tr (output, s) ∧ (noise role).Permits p.link tr := by
  obtain ⟨exec⟩ := h
  obtain ⟨takes, permits, rfl⟩ := exec_some_iff.1 exec
  exact ⟨_, rfl, takes, permits⟩

structure Exchange (P : Primitives) where
  before : Parties
  role : Role
  method : SessionMethod
  trace : List NoiseEvent
  output : SessionOutput
  after : Parties
  performed : SessionStep P before role method trace output after

inductive Talk (P : Primitives) (start : Parties) : List (Exchange P) → Parties → Prop
  | nil : Talk P start [] start
  | snoc {xs : List (Exchange P)} (x : Exchange P) (earlier : Talk P start xs x.before) :
      Talk P start (xs ++ [x]) x.after

/-- A session as its constructor returns it. -/
inductive Opened (P : Primitives) : Role → Session → Prop
  | initiator {privateKey lockPublic : Bytes32} {capabilities : UInt64} {tr : List NoiseEvent}
      {s : Session}
      (built : (Session.initiator P privateKey lockPublic capabilities).run.Takes tr (.ok s)) :
      Opened P .initiator s
  | responder {privateKey : Bytes32} {capabilities : UInt64} {tr : List NoiseEvent} {s : Session}
      (built : (Session.responder privateKey capabilities).run.Takes tr (.ok s)) :
      Opened P .responder s

theorem Opened.eq_fresh (h : Opened P role s) :
    ∃ capabilities, s = Session.fresh role capabilities .handshake ∧
      Session.checkCapabilities capabilities = .ok () := by
  cases h with
  | @initiator _ _ capabilities _ _ built =>
    simp only [Session.initiator, takes_run_bind_ok, takes_run_ofExcept] at built
    obtain ⟨_, _, _, ⟨_, known⟩, ⟨ch, _, _, channel, last, _⟩, _⟩ := built
    cases (Prog.takes_pure.1 last).2
    simp only [NoiseChannel.initiator, takes_run_bind_ok] at channel
    obtain ⟨_, _, _, _, channel, _⟩ := channel
    cases NoiseChannel.new_ok channel
    exact ⟨capabilities, rfl, known⟩
  | @responder _ capabilities _ _ built =>
    simp only [Session.responder, takes_run_bind_ok, takes_run_ofExcept] at built
    obtain ⟨_, _, _, ⟨_, known⟩, ⟨ch, _, _, channel, last, _⟩, _⟩ := built
    cases (Prog.takes_pure.1 last).2
    cases NoiseChannel.new_ok channel
    exact ⟨capabilities, rfl, known⟩

/-- Any schedule of calls from two new sessions. -/
structure Conversation (P : Primitives) where
  initiator : Session
  responder : Session
  initiator_opened : Opened P .initiator initiator
  responder_opened : Opened P .responder responder
  exchanges : List (Exchange P)
  final : Parties
  talk : Talk P ⟨initiator, responder, .quiet⟩ exchanges final

end OpenLock
