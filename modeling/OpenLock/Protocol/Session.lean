import OpenLock.Crypto.Noise
import OpenLock.Protocol.Packet

/-! The session state machine of `openlock-protocol`. -/
namespace OpenLock
open Cbor Effects

def maxPendingRequests : Nat := 1024

inductive Role where
  | initiator | responder
  deriving DecidableEq

inductive SessionEvent where
  | handshakeComplete (peer : SubjectKey)
  | request (requestId : UInt32) (command : Command) (peer : SubjectKey)
  | response (requestId : UInt32) (response : Response)
  deriving DecidableEq

/-- The order of request ids, under which `pending_requests` is a B-tree map. -/
abbrev PendingRequests := Std.ExtTreeMap UInt32 UInt64

structure Session where
  role : Role
  capabilities : UInt64
  nextRequest : UInt32
  started : Bool
  pendingRequests : PendingRequests
  lastRequestId : UInt32
  channel : NoiseState

/-- A method with `&mut self` of a session. -/
abbrev Ses := ExceptT Error (StateT Session (Prog NoiseAnswer))

def authenticatedValue (kind : UInt8) (requestId : UInt32) (capabilities : UInt64) (body : Value) :
    Value :=
  .array [uint kind.toUInt64, uint requestId.toUInt64, uint capabilities, body]

def validateCommand (c : Command) : Except Error Unit := do
  c.validate
  let _ : Command ← Wire.parse (Wire.value c)

def Response.capability (r : Response) : UInt64 := 1 <<< r.opcode.toUInt64

namespace Session
variable (P : Primitives)

/-- A call of the session's channel. -/
def onChannel {α : Type} (x : Chan α) : Ses α :=
  focus Session.channel (fun ch s => { s with channel := ch }) x

def fresh (role : Role) (capabilities : UInt64) (channel : NoiseState) : Session :=
  ⟨role, capabilities, 1, false, ∅, 0, channel⟩

def checkCapabilities (capabilities : UInt64) : Except Error Unit :=
  failIf (capabilities = 0 ∨ capabilities &&& ~~~knownCapabilities ≠ 0) .unsupportedCapability

def initiator (privateKey lockPublic : Bytes32) (capabilities : UInt64) :
    ExceptT Error (Prog NoiseAnswer) Session := do
  ofExcept (checkCapabilities capabilities)
  pure (fresh .initiator capabilities (← NoiseChannel.initiator P privateKey lockPublic))

def responder (privateKey : Bytes32) (capabilities : UInt64) :
    ExceptT Error (Prog NoiseAnswer) Session := do
  ofExcept (checkCapabilities capabilities)
  pure (fresh .responder capabilities (← NoiseChannel.responder privateKey))

/-- The packet around the next handshake message, which carries no payload. -/
def handshakePacket : Ses Bytes := do
  let payload ← onChannel (NoiseChannel.write [])
  ofExcept (encodePacket P ⟨kindHandshake, 0, 0, payload⟩)

def start : Ses Bytes := do
  let s ← get
  failIf (s.role ≠ .initiator ∨ s.started) .invalidState
  modify fun s => { s with started := true }
  handshakePacket P

/-- The size of the packet that `start` makes: the first message of the handshake has 96 bytes. -/
def startSize (s : Session) : Except Error Nat := do
  failIf (s.role ≠ .initiator ∨ s.started) .invalidState
  List.length <$> encodePacket P ⟨kindHandshake, 0, 0, List.replicate 96 0⟩

def close (s : Session) : Session := { s with channel := .closed, pendingRequests := ∅ }

/-- The checks of a packet before its payload is decrypted. -/
def checkPacket (s : Session) (packet : Packet) : Except Error Unit := do
  if packet.kind = kindHandshake then
    if s.role = .initiator then failIf (¬ s.started) .invalidState
    else failIf s.started .invalidState
  else failIf (¬ s.started) .invalidState
  failIf (packet.kind = kindRequest ∧
    (s.role ≠ .responder ∨ packet.requestId ≤ s.lastRequestId)) .invalidState
  failIf (packet.kind = kindResponse ∧
    (s.role ≠ .initiator ∨ ¬ s.pendingRequests.contains packet.requestId)) .invalidState

/-- The responder answers the first handshake message. -/
def handshakeReply : Ses (Option Bytes) := do
  if (← get).role = .responder then some <$> handshakePacket P else pure none

def handshakeEvents : Ses (List SessionEvent) := do
  if (← get).channel = .transport then
    let peer ← onChannel (NoiseChannel.peerStatic P)
    pure [.handshakeComplete peer]
  else pure []

def receiveHandshake (packet : Packet) : Ses (List SessionEvent × Option Bytes) := do
  let clear ← onChannel (NoiseChannel.read packet.payload)
  failIf (clear ≠ []) .invalidPayload
  modify fun s => { s with started := true }
  let reply ← handshakeReply P
  let events ← handshakeEvents P
  pure (events, reply)

/-- The value inside an authenticated envelope that repeats the packet's own fields. -/
def openEnvelope (packet : Packet) (clear : Bytes) : Except Error Value := do
  match ← fields (← decode P clear) 4 with
  | [kind, requestId, capabilities, value] => do
    failIf ((← u32Value kind) ≠ packet.kind.toUInt32) .invalidPayload
    failIf ((← u32Value requestId) ≠ packet.requestId) .invalidPayload
    failIf ((← number capabilities) ≠ packet.capabilities) .invalidPayload
    pure value
  | _ => .error .invalidPayload

def receiveRequest (packet : Packet) (value : Value) (peer : SubjectKey) :
    Ses (List SessionEvent × Option Bytes) := do
  let command : Command ← ofExcept (Wire.parse value)
  let s ← get
  failIf (command.capability &&& packet.capabilities ≠ command.capability
    ∨ command.capability &&& s.capabilities ≠ command.capability) .unsupportedCapability
  failIf (s.pendingRequests.size ≥ maxPendingRequests) .invalidState
  modify fun s => { s with
    lastRequestId := packet.requestId
    pendingRequests := s.pendingRequests.insert packet.requestId command.capability }
  pure ([.request packet.requestId command peer], none)

def receiveResponse (packet : Packet) (value : Value) :
    Ses (List SessionEvent × Option Bytes) := do
  let response : Response ← ofExcept (Wire.parse value)
  match (← get).pendingRequests[packet.requestId]? with
  | some expected => do
    failIf (response.capability ≠ expected
      ∨ response.capability &&& packet.capabilities ≠ response.capability) .invalidPayload
    modify fun s => { s with pendingRequests := s.pendingRequests.erase packet.requestId }
    pure ([.response packet.requestId response], none)
  -- `checkPacket` has found the id, so the source's index never panics.
  | none => throw .invalidState

def receiveMessage (packet : Packet) : Ses (List SessionEvent × Option Bytes) := do
  failIf ((← get).channel ≠ .transport) .invalidState
  let clear ← onChannel (NoiseChannel.read packet.payload)
  let value ← ofExcept (openEnvelope P packet clear)
  let peer ← onChannel (NoiseChannel.peerStatic P)
  if packet.kind = kindRequest then receiveRequest packet value peer
  else if packet.kind = kindResponse then receiveResponse packet value
  else throw .invalidPayload

def receiveInner (input : Bytes) : Ses (List SessionEvent × Option Bytes) := do
  let packet ← ofExcept (decodePacket P input)
  ofExcept ((← get).checkPacket packet)
  if packet.kind = kindHandshake then receiveHandshake P packet else receiveMessage P packet

def receive (input : Bytes) : Ses (List SessionEvent × Option Bytes) :=
  onError (receiveInner P input) close

/-- The body of a message, encrypted as a whole. -/
def body (kind : UInt8) (requestId : UInt32) (capabilities : UInt64) (value : Value) :
    Except Error Bytes :=
  encode P (authenticatedValue kind requestId capabilities value)

/-- The size of the packet for a body that Noise has made sixteen bytes longer. -/
def packetSize (kind : UInt8) (requestId : UInt32) (capabilities : UInt64) (body : Bytes) :
    Except Error Nat := do
  failIf (body.length > maxMessageSize - 128) .objectTooLarge
  List.length <$> encodePacket P
    ⟨kind, requestId, capabilities, List.replicate (body.length + 16) 0⟩

/-- Whether a request of this command may be sent now. -/
def Sendable (s : Session) (c : Command) : Prop :=
  s.role = .initiator ∧ s.channel = .transport ∧ c.capability &&& s.capabilities = c.capability ∧
    s.pendingRequests.size < maxPendingRequests

instance (s : Session) (c : Command) : Decidable (s.Sendable c) := by
  unfold Sendable
  infer_instance

def requestSize (s : Session) (c : Command) : Except Error Nat := do
  validateCommand c
  failIf (¬ s.Sendable c) .invalidState
  packetSize P kindRequest s.nextRequest s.capabilities
    (← body P kindRequest s.nextRequest s.capabilities (Wire.value c))

def send (c : Command) : Ses (UInt32 × Bytes) := do
  let s ← get
  let _ ← ofExcept (s.requestSize P c)
  failIf (¬ s.Sendable c) .invalidState
  let requestId := s.nextRequest
  let next ← ofExcept (okOr (checkedAdd32 s.nextRequest 1) .invalidState)
  modify fun s => { s with nextRequest := next }
  let body ← ofExcept (body P kindRequest requestId s.capabilities (Wire.value c))
  let payload ← onChannel (NoiseChannel.write body)
  let packet ← ofExcept (encodePacket P ⟨kindRequest, requestId, s.capabilities, payload⟩)
  modify fun s => { s with pendingRequests := s.pendingRequests.insert requestId c.capability }
  pure (requestId, packet)

def responseSize (s : Session) (requestId : UInt32) (r : Response) : Except Error Nat := do
  validateResponse r
  failIf (s.role ≠ .responder ∨ s.pendingRequests[requestId]? ≠ some r.capability) .invalidState
  packetSize P kindResponse requestId s.capabilities
    (← body P kindResponse requestId s.capabilities (Wire.value r))

def respond (requestId : UInt32) (r : Response) : Ses Bytes := do
  let s ← get
  let _ ← ofExcept (s.responseSize P requestId r)
  match s.pendingRequests[requestId]? with
  | some expected => do
    failIf (s.role ≠ .responder ∨ s.channel ≠ .transport) .invalidState
    failIf (r.capability ≠ expected) .invalidPayload
    failIf (r.capability &&& s.capabilities = 0) .unsupportedCapability
    let body ← ofExcept (body P kindResponse requestId s.capabilities (Wire.value r))
    let payload ← onChannel (NoiseChannel.write body)
    let packet ← ofExcept (encodePacket P ⟨kindResponse, requestId, s.capabilities, payload⟩)
    modify fun s => { s with pendingRequests := s.pendingRequests.erase requestId }
    pure packet
  | none => throw .invalidState

end Session
end OpenLock
