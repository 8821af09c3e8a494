import OpenLock.Protocol.Reliable

/-! The C session interface of `openlock-ffi`. A pointer is modelled by whether it is null, and
a call's answer is its status with what it stored through `len`, `out` and `id`. -/
namespace OpenLock
open Cbor Effects

def maxEventSize : Nat := maxMessageSize + 64

/-- `e.code() as i32`. -/
def Error.status (e : Error) : Int := e.code.toNat

/-- `data` and `data_len`. -/
inductive CInput where
  | null (len : Nat)
  | bytes (data : Bytes)

/-- `input`. -/
def CInput.read : CInput → Except Int Bytes
  | .null len =>
    if len > maxMessageSize then .error Error.objectTooLarge.status
    else if len = 0 then .ok []
    else .error (-1)
  | .bytes data =>
    if data.length > maxMessageSize then .error Error.objectTooLarge.status else .ok data

/-- `out`, `cap` and `len`; the two pointers may be null. -/
structure CBuffer where
  out : Bool
  cap : Nat
  len : Bool

structure CAnswer where
  status : Int
  len : Option Nat := none
  out : Option Bytes := none
  id : Option UInt32 := none
  deriving DecidableEq

/-- `capacity`, which stores the required length before it compares. -/
def capacity (b : CBuffer) (required : Nat) : Except CAnswer Unit :=
  if ¬ b.len ∨ (0 < b.cap ∧ ¬ b.out) then .error { status := -1 }
  else if b.cap < required then .error { status := -2, len := some required }
  else .ok ()

def copy (bytes : Bytes) (b : CBuffer) : CAnswer :=
  match capacity b bytes.length with
  | .error refused => refused
  | .ok () => { status := 0, len := some bytes.length, out := some bytes }

def eventValue : SessionEvent → Value
  | .handshakeComplete peer => .array [uint 1, uint 0, Wire.value peer, .null]
  | .request requestId command peer =>
    .array [uint 2, uint requestId.toUInt64, Wire.value peer, Wire.value command]
  | .response requestId response =>
    .array [uint 3, uint requestId.toUInt64, .null, Wire.value response]

def eventBytes (P : Primitives) (event : SessionEvent) : Except Error Bytes :=
  encodeLimit P (eventValue event) maxEventSize

/-- `OpenLockSession`. -/
structure NativeSession where
  inner : Session
  events : List Bytes
  output : Option Bytes

/-- What a call returns, and what the inner session returned in it if it was called. -/
structure NativeOutcome where
  answer : CAnswer
  inner : Option SessionOutput

namespace NativeSession
variable (P : Primitives)

def new (inner : Session) : NativeSession := ⟨inner, [], none⟩

/-- A call that ends before the inner session is touched. -/
def refuse (s : NativeSession) (answer : CAnswer) : Prog NoiseAnswer (NativeOutcome × NativeSession) :=
  .pure (⟨answer, none⟩, s)

/-- The end of `start`, `send` and `respond`: the announced size must fit before anything is
encrypted, and the packet is copied out. -/
def deliver {α : Type} (s : NativeSession) (b : CBuffer) (required : Nat) (call : Ses α)
    (report : Except Error α → SessionOutput) (packet : α → Bytes) (id : α → Option UInt32) :
    Prog NoiseAnswer (NativeOutcome × NativeSession) :=
  match capacity b required with
  | .error refused => s.refuse refused
  | .ok () => do
    let (r, inner) ← call.run s.inner
    let answer := match r with
      | .ok made => { copy (packet made) b with id := id made }
      | .error e => { status := e.status, len := some required }
    pure (⟨answer, some (report r)⟩, { s with inner })

def start (s : NativeSession) (b : CBuffer) : Prog NoiseAnswer (NativeOutcome × NativeSession) :=
  match s.inner.startSize P with
  | .error e => s.refuse { status := e.status }
  | .ok required => s.deliver b required (Session.start P) .packet id fun _ => none

def send (s : NativeSession) (data : CInput) (id : Bool) (b : CBuffer) :
    Prog NoiseAnswer (NativeOutcome × NativeSession) :=
  if ¬ id then s.refuse { status := -1 }
  else match data.read with
    | .error status => s.refuse { status }
    | .ok bytes =>
      match decodeWire P bytes with
      | .error e => s.refuse { status := e.status }
      | .ok command =>
        match s.inner.requestSize P command with
        | .error e => s.refuse { status := e.status }
        | .ok required =>
          s.deliver b required (Session.send P command) .sent Prod.snd fun made => some made.1

def respond (s : NativeSession) (requestId : UInt32) (data : CInput) (b : CBuffer) :
    Prog NoiseAnswer (NativeOutcome × NativeSession) :=
  match data.read with
  | .error status => s.refuse { status }
  | .ok bytes =>
    match decodeWire P bytes with
    | .error e => s.refuse { status := e.status }
    | .ok response =>
      match s.inner.responseSize P requestId response with
      | .error e => s.refuse { status := e.status }
      | .ok required =>
        s.deliver b required (Session.respond P requestId response) .packet id fun _ => none

/-- The loop of `receive` over the events: one that cannot be encoded closes the session. -/
def enqueue (s : NativeSession) : List SessionEvent → Option Error × NativeSession
  | [] => (none, s)
  | event :: rest =>
    match eventBytes P event with
    | .ok bytes => enqueue { s with events := s.events ++ [bytes] } rest
    | .error e => (some e, { s with inner := s.inner.close })

/-- What `receive` makes of the inner session's result. -/
def settle (s : NativeSession) : Except Error (List SessionEvent × Option Bytes) → CAnswer × NativeSession
  | .ok (events, reply) =>
    match s.enqueue P events with
    | (none, s) => ({ status := 0 }, { s with output := reply })
    | (some e, s) => ({ status := e.status }, s)
  | .error e => ({ status := e.status }, { s with inner := s.inner.close })

def receive (s : NativeSession) (data : CInput) : Prog NoiseAnswer (NativeOutcome × NativeSession) :=
  if s.output.isSome ∨ s.events ≠ [] then s.refuse { status := Error.busy.status }
  else match data.read with
    | .error status => s.refuse { status }
    | .ok bytes => do
      let (r, inner) ← (Session.receive P bytes).run s.inner
      let (answer, s) := settle P { s with inner } r
      pure (⟨answer, some (.received r)⟩, s)

def takeOutput (s : NativeSession) (b : CBuffer) : CAnswer × NativeSession :=
  let answer := copy (s.output.getD []) b
  (answer, if answer.status = 0 then { s with output := none } else s)

def takeEvent (s : NativeSession) (b : CBuffer) : CAnswer × NativeSession :=
  let answer := copy (s.events.head?.getD []) b
  (answer, if answer.status = 0 then { s with events := s.events.tail } else s)

end NativeSession

inductive NativeMethod where
  | start (b : CBuffer)
  | send (data : CInput) (id : Bool) (b : CBuffer)
  | respond (requestId : UInt32) (data : CInput) (b : CBuffer)
  | receive (data : CInput)
  | takeOutput (b : CBuffer)
  | takeEvent (b : CBuffer)

def NativeMethod.program (P : Primitives) (s : NativeSession) :
    NativeMethod → Prog NoiseAnswer (NativeOutcome × NativeSession)
  | .start b => s.start P b
  | .send data id b => s.send P data id b
  | .respond requestId data b => s.respond P requestId data b
  | .receive data => s.receive P data
  | .takeOutput b => .pure (⟨(s.takeOutput b).1, none⟩, (s.takeOutput b).2)
  | .takeEvent b => .pure (⟨(s.takeEvent b).1, none⟩, (s.takeEvent b).2)

structure NativeCall (P : Primitives) where
  before : NativeSession
  method : NativeMethod
  trace : List NoiseEvent
  outcome : NativeOutcome
  after : NativeSession
  performed : (method.program P before).Takes trace (outcome, after)

/-- Any sequence of calls on one handle. -/
inductive NativeHistory (P : Primitives) (start : NativeSession) :
    List (NativeCall P) → NativeSession → Prop
  | nil : NativeHistory P start [] start
  | snoc {xs : List (NativeCall P)} (x : NativeCall P) (earlier : NativeHistory P start xs x.before) :
      NativeHistory P start (xs ++ [x]) x.after

/-- The packet that the inner session made for the caller. -/
def NativeOutcome.packet (o : NativeOutcome) : Option Bytes :=
  match o.inner with
  | some (.packet (.ok b)) | some (.sent (.ok (_, b))) => some b
  | _ => none

/-- The events and the handshake reply that the inner session returned. -/
def NativeOutcome.produced (o : NativeOutcome) : List SessionEvent × List Bytes :=
  match o.inner with
  | some (.received (.ok (events, reply))) => (events, reply.toList)
  | _ => ([], [])

/-- The bytes that a successful call handed out, if there were any. -/
def CAnswer.taken (a : CAnswer) : List Bytes :=
  if a.status = 0 then a.out.toList.filter (· ≠ []) else []

/-- The events and the replies that the caller drained by a call. -/
def NativeMethod.drained (m : NativeMethod) (a : CAnswer) : List Bytes × List Bytes :=
  match m with
  | .takeEvent _ => (a.taken, [])
  | .takeOutput _ => ([], a.taken)
  | _ => ([], [])

/-- Noise as the interface assumes it: a reliable transport, and a first handshake message of 96
bytes. -/
structure Expected (role : Role) (tr : List NoiseEvent) : Prop where
  reliable : Reliable tr
  first : role = .initiator →
    ∀ payload out, ⟨.writeHandshake payload, some out⟩ ∈ tr → out.length = 96

end OpenLock
