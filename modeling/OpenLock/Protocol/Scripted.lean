import OpenLock.Protocol.Link

/-! Conversations that follow a script, with a transport that only appends a tag. -/
namespace OpenLock
open Effects

namespace Duplex

/-- Two messages finish the handshake: the responder is done when it has written, the
initiator when it has read. -/
def finishes (role : Role) (past : List NoiseEvent) : Bool :=
  match past.getLast? with
  | some ⟨.readHandshake _, _⟩ => role = .initiator
  | some ⟨.writeHandshake _, _⟩ => role = .responder
  | _ => false

def answer (role : Role) (l : Link) (past : List NoiseEvent) : (e : NoiseCall) → NoiseAnswer e
  | .build _ _ => true
  | .writeHandshake _ => some (List.replicate 48 1)
  | .readHandshake _ => some []
  | .handshakeFinished => finishes role past
  | .intoTransport => true
  | .writeTransport payload => some (payload ++ List.replicate 16 0)
  | .readTransport message => (l.incoming role).next message
  | .remoteStatic => some (List.replicate 32 9)

theorem answer_permitted (role : Role) (l : Link) (past : List NoiseEvent) (e : NoiseCall) :
    (noise role).permits l ⟨e, answer role l past e⟩ := by
  cases e <;> trivial

/-- One line of a script: a call, or the delivery of the last packet made. -/
inductive Cue where
  | call (role : Role) (m : SessionMethod)
  | deliver (role : Role)

def Cue.role : Cue → Role
  | .call role _ | .deliver role => role

def Cue.method (last : Bytes) : Cue → SessionMethod
  | .call _ m => m
  | .deliver _ => .receive last

variable (P : Primitives)

def exchange (p : Parties) (role : Role) (m : SessionMethod) : Exchange P :=
  let run := (m.program P (p.session role)).play (noise role) (answer role) p.link []
  { before := p
    role := role
    method := m
    trace := run.1
    output := run.2.2.1
    after := p.after run.2.2.2 run.2.1 role
    performed := .call (Exec.play (answer_permitted role) _ _ _) }

def perform : List Cue → Parties → Bytes → List (Exchange P)
  | [], _, _ => []
  | cue :: cues, p, last =>
    let x := exchange P p cue.role (cue.method last)
    x :: perform cues x.after (x.output.made.getD last)

def outcome : List Cue → Parties → Bytes → Parties
  | [], p, _ => p
  | cue :: cues, p, last =>
    let x := exchange P p cue.role (cue.method last)
    outcome cues x.after (x.output.made.getD last)

theorem talk_perform {start p : Parties} {xs : List (Exchange P)} (talk : Talk P start xs p)
    (cues : List Cue) (last : Bytes) :
    Talk P start (xs ++ perform P cues p last) (outcome P cues p last) := by
  induction cues generalizing xs p last with
  | nil => simpa [perform, outcome] using talk
  | cons cue cues ih =>
    have more := ih (.snoc (exchange P p cue.role (cue.method last)) talk)
      ((exchange P p cue.role (cue.method last)).output.made.getD last)
    simpa [perform, outcome] using more

theorem opened_initiator {P : Primitives} (privateKey lockPublic : Bytes32) {capabilities : UInt64}
    (key : privateKey ≠ Vector.replicate 32 0) (peer : validatePublic P lockPublic = .ok ())
    (known : Session.checkCapabilities capabilities = .ok ()) :
    Opened P .initiator (Session.fresh .initiator capabilities .handshake) := by
  refine @Opened.initiator P privateKey lockPublic capabilities
    [⟨.build privateKey (some lockPublic), true⟩] _ ?_
  simp only [Session.initiator, NoiseChannel.initiator, known, peer]
  unfold NoiseChannel.new failIf
  rw [if_neg key]
  exact @Prog.Takes.op _ NoiseAnswer _ (.build privateKey (some lockPublic)) _ [] _ true (.pure _)

theorem opened_responder {P : Primitives} (privateKey : Bytes32) {capabilities : UInt64}
    (key : privateKey ≠ Vector.replicate 32 0)
    (known : Session.checkCapabilities capabilities = .ok ()) :
    Opened P .responder (Session.fresh .responder capabilities .handshake) := by
  refine @Opened.responder P privateKey capabilities [⟨.build privateKey none, true⟩] _ ?_
  simp only [Session.responder, NoiseChannel.responder, known]
  unfold NoiseChannel.new failIf
  rw [if_neg key]
  exact @Prog.Takes.op _ NoiseAnswer _ (.build privateKey none) _ [] _ true (.pure _)

section Samples
/-! Two sessions with the capabilities `Unlock`, `Status` and `Info`. -/

def primitives : Primitives := minimalPrimitives fun _ _ _ => false

def capabilities : UInt64 := 19

def fresh : Parties :=
  ⟨.fresh .initiator capabilities .handshake, .fresh .responder capabilities .handshake, .quiet⟩

theorem fresh_initiator : Opened primitives .initiator fresh.initiator :=
  opened_initiator (Vector.replicate 32 1) (Vector.replicate 32 9) (by decide) (by decide) (by decide)

theorem fresh_responder : Opened primitives .responder fresh.responder :=
  opened_responder (Vector.replicate 32 2) (by decide) (by decide)

/-- The handshake, over a network that delivers it. -/
def handshake : List Cue :=
  [.call .initiator .start, .deliver .responder, .deliver .initiator]

def conversation (cues : List Cue) : Conversation primitives where
  initiator := fresh.initiator
  responder := fresh.responder
  initiator_opened := fresh_initiator
  responder_opened := fresh_responder
  exchanges := perform primitives cues fresh []
  final := outcome primitives cues fresh []
  talk := by
    have talk := talk_perform primitives (.nil : Talk primitives fresh [] fresh) cues []
    rwa [List.nil_append] at talk

/-- A request of the lock's status, under a credential that stays unread here. -/
def statusRequest : Command := ⟨[1], none, .status⟩

end Samples

end Duplex
end OpenLock
