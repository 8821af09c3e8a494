import OpenLock.Crypto.Failures
import OpenLock.Protocol.Session

/-! The errors of a session: those of the codec, its own states and the channel's. -/
namespace OpenLock
open Cbor Effects
open ParseErrors (malformed)
variable {e : Error}

/-- The errors of a session's calls. -/
def sessionErrors : List Error :=
  [.invalidPayload, .objectTooLarge, .unsupportedVersion, .invalidState, .unsupportedCapability,
    .noise, .untrustedKey]

abbrev OfSession (e : Error) : Prop := e ∈ sessionErrors

theorem Malformed.ofSession (h : Malformed e) : OfSession e := by
  rcases h with rfl | rfl <;> decide

section Sessions
variable (P : Primitives) {α : Type}

private theorem raises_malformed {x : Except Error α} (h : Raises Malformed x) :
    Raises OfSession x := fun e failed => (h e failed).ofSession

private theorem raises_checked {C : Type} {p : Prop} [Decidable p] (h : OfSession e) :
    RaisesE OfSession (failIf p e : ExceptT Error (StateT C (Prog NoiseAnswer)) Unit) := by
  unfold failIf
  exact .ite (.throw h) (.pure ())

private theorem raises_validate (p : Packet) : Raises OfSession p.validate :=
  .bind (raises_failIf (by decide)) fun _ =>
    .ite (raises_failIf (by decide)) (raises_failIf (by decide))

private theorem raises_encodePacket (p : Packet) : Raises OfSession (encodePacket P p) :=
  (raises_validate p).bind fun _ => raises_malformed (raises_encodeLimit P _ _)

private theorem raises_decodePacket (b : Bytes) : Raises OfSession (decodePacket P b) := by
  refine (raises_malformed (raises_decodeLimit P b _)).bind fun v =>
    (raises_malformed raises_fields).bind fun ws => ?_
  split
  · exact .bind (raises_malformed raises_number) fun _ => .bind (raises_failIf (by decide)) fun _ =>
      .bind (raises_malformed raises_number) fun _ => .bind (raises_failIf (by decide)) fun _ =>
      .bind (raises_malformed raises_u32Value) fun _ => .bind (raises_failIf (by decide)) fun _ =>
      .bind (raises_malformed raises_u32Value) fun _ =>
      .bind (raises_malformed raises_number) fun _ => .bind (raises_malformed raises_data) fun _ =>
      .bind (raises_validate _) fun _ => .pure _
  · exact raises_malformed invalid

namespace NoiseChannel

private theorem raises_settle (out : Option Bytes) : RaisesE OfSession (settle out) := by
  cases out with
  | none => exact .bind (.set _) fun _ => .throw (by decide)
  | some out =>
    refine .bind ?_ fun _ => .pure out
    exact .bind .get fun _ => .ite (.bind (.ask _) fun _ => .ite (.bind (.set _) fun _ =>
      .bind (.ask _) fun _ => .ite (.set _) (.throw (by decide))) (.pure _)) (.pure _)

private theorem raises_write (payload : Bytes) : RaisesE OfSession (write payload) := by
  refine .bind (raises_checked (by decide)) fun _ => .bind .get fun ch => ?_
  cases ch with
  | handshake | transport => exact .bind (.ask _) raises_settle
  | closed => exact .throw (by decide)

private theorem raises_read (input : Bytes) : RaisesE OfSession (read input) := by
  refine .ite (.bind (.set _) fun _ => .throw (by decide)) (.bind .get fun ch => ?_)
  cases ch with
  | handshake | transport => exact .bind (.ask _) raises_settle
  | closed => exact .throw (by decide)

private theorem raises_subjectKey (peer : Bytes) : Raises OfSession (subjectKey P peer) := by
  unfold subjectKey
  split
  · exact .bind (raises_failIf (by decide)) fun _ => .pure _
  · exact .error (by decide)

private theorem raises_peerStatic : RaisesE OfSession (peerStatic P) := by
  refine .bind .get fun ch => ?_
  cases ch with
  | handshake | transport =>
    exact .bind (.ask _) fun _ => .bind (.ofExcept (raises_okOr (by decide))) fun _ =>
      .ofExcept (raises_subjectKey P _)
  | closed => exact .throw (by decide)

end NoiseChannel

namespace Session
open NoiseChannel

private theorem raises_onChannel {x : Chan α} (h : RaisesE OfSession x) :
    RaisesE OfSession (onChannel x) := .focus h

private theorem raises_handshakePacket : RaisesE OfSession (handshakePacket P) :=
  .bind (raises_onChannel (raises_write [])) fun _ => .ofExcept (raises_encodePacket P _)

theorem raises_start : RaisesE OfSession (start P) :=
  .bind .get fun _ => .bind (raises_checked (by decide)) fun _ => .bind (.modify _) fun _ =>
    raises_handshakePacket P

private theorem raises_checkPacket (s : Session) (packet : Packet) :
    Raises OfSession (s.checkPacket packet) := by
  have ends : Raises OfSession (do
      failIf (packet.kind = kindRequest ∧
        (s.role ≠ .responder ∨ packet.requestId ≤ s.lastRequestId)) .invalidState
      failIf (packet.kind = kindResponse ∧
        (s.role ≠ .initiator ∨ ¬ s.pendingRequests.contains packet.requestId)) .invalidState) :=
    .bind (raises_failIf (by decide)) fun _ => raises_failIf (by decide)
  exact .ite (.ite (.bind (raises_failIf (by decide)) fun _ => ends)
    (.bind (raises_failIf (by decide)) fun _ => ends)) (.bind (raises_failIf (by decide)) fun _ => ends)

private theorem raises_receiveHandshake (packet : Packet) :
    RaisesE OfSession (receiveHandshake P packet) := by
  refine .bind (raises_onChannel (raises_read _)) fun _ => .bind (raises_checked (by decide)) fun _ =>
    .bind (.modify _) fun _ => .bind ?_ fun _ => .bind ?_ fun _ => .pure _
  · exact .bind .get fun _ => .ite (raises_handshakePacket P).map (.pure _)
  · exact .bind .get fun _ =>
      .ite (.bind (raises_onChannel (raises_peerStatic P)) fun _ => .pure _) (.pure _)

private theorem raises_openEnvelope (packet : Packet) (clear : Bytes) :
    Raises OfSession (openEnvelope P packet clear) := by
  refine (raises_malformed (raises_decodeLimit P clear _)).bind fun v =>
    (raises_malformed raises_fields).bind fun ws => ?_
  split
  · exact .bind (raises_malformed raises_u32Value) fun _ => .bind (raises_failIf (by decide)) fun _ =>
      .bind (raises_malformed raises_u32Value) fun _ => .bind (raises_failIf (by decide)) fun _ =>
      .bind (raises_malformed raises_number) fun _ => .bind (raises_failIf (by decide)) fun _ =>
      .pure _
  · exact raises_malformed invalid

private theorem raises_receiveRequest (packet : Packet) (value : Value) (peer : SubjectKey) :
    RaisesE OfSession (receiveRequest packet value peer) :=
  .bind (.ofExcept (raises_malformed (ParseErrors.malformed value))) fun _ => .bind .get fun _ =>
    .bind (raises_checked (by decide)) fun _ => .bind (raises_checked (by decide)) fun _ =>
    .bind (.modify _) fun _ => .pure _

private theorem raises_receiveResponse (packet : Packet) (value : Value) :
    RaisesE OfSession (receiveResponse packet value) := by
  refine .bind (.ofExcept (raises_malformed (ParseErrors.malformed value))) fun _ =>
    .bind .get fun _ => ?_
  split
  · exact .bind (raises_checked (by decide)) fun _ => .bind (.modify _) fun _ => .pure _
  · exact .throw (by decide)

private theorem raises_receiveMessage (packet : Packet) :
    RaisesE OfSession (receiveMessage P packet) :=
  .bind .get fun _ => .bind (raises_checked (by decide)) fun _ =>
    .bind (raises_onChannel (raises_read _)) fun clear =>
    .bind (.ofExcept (raises_openEnvelope P packet clear)) fun value =>
    .bind (raises_onChannel (raises_peerStatic P)) fun peer =>
    .ite (raises_receiveRequest packet value peer)
      (.ite (raises_receiveResponse packet value) (.throw (by decide)))

theorem raises_receive (input : Bytes) : RaisesE OfSession (receive P input) :=
  .onError (.bind (.ofExcept (raises_decodePacket P input)) fun packet => .bind .get fun s =>
    .bind (.ofExcept (raises_checkPacket s packet)) fun _ =>
    .ite (raises_receiveHandshake P packet) (raises_receiveMessage P packet))

end Session
end Sessions
end OpenLock
