import OpenLock.Ffi.Calls
import OpenLock.Protocol.Scripted

/-! The C session interface loses and duplicates nothing, whatever is called with whatever
buffers. -/
namespace OpenLock
open Effects

variable {P : Primitives} {start s : NativeSession}

/-- Calls on one handle from when it was created, with Noise as the interface assumes it. -/
structure NativeRun (P : Primitives) where
  role : Role
  session : Session
  opened : Opened P role session
  calls : List (NativeCall P)
  final : NativeSession
  history : NativeHistory P (.new session) calls final
  noise : ∀ x ∈ calls, Expected x.before.inner.role x.trace

section Totals

def producedEvents (xs : List (NativeCall P)) : List SessionEvent :=
  xs.flatMap fun x => x.outcome.produced.1

def producedReplies (xs : List (NativeCall P)) : List Bytes :=
  xs.flatMap fun x => x.outcome.produced.2

def drainedEvents (xs : List (NativeCall P)) : List Bytes :=
  xs.flatMap fun x => (x.method.drained x.outcome.answer).1

def drainedReplies (xs : List (NativeCall P)) : List Bytes :=
  xs.flatMap fun x => (x.method.drained x.outcome.answer).2

end Totals

/-- What a run guarantees. What the inner session produced is what was drained followed by what
is still queued, and since every beginning of a run is a run, this holds at every moment. -/
structure Lossless (r : NativeRun P) : Prop where
  refused_unchanged : ∀ x ∈ r.calls,
    x.outcome.answer.status = -2 ∨ x.outcome.answer.status = Error.busy.status →
    x.after = x.before ∧ x.trace = []
  packets_delivered : ∀ x ∈ r.calls, ∀ packet, x.outcome.packet = some packet →
    x.outcome.answer.status = 0 ∧ x.outcome.answer.len = some packet.length
      ∧ x.outcome.answer.out = some packet
  encrypted_delivered : ∀ x ∈ r.calls,
    (∃ payload out, ⟨.writeTransport payload, some out⟩ ∈ x.trace) →
    x.outcome.packet.isSome ∨ ∃ received, x.outcome.inner = some (.received received)
  consumed_when_drained : ∀ x ∈ r.calls,
    (∃ received, x.outcome.inner = some (.received received)) →
    x.before.events = [] ∧ x.before.output = none
  events_exact : List.Forall₂ (fun e b => eventBytes P e = .ok b) (producedEvents r.calls)
    (drainedEvents r.calls ++ r.final.events)
  replies_exact : producedReplies r.calls = drainedReplies r.calls ++ r.final.output.toList
  events_encode : ∀ (s s' : Session) (input : Bytes) tr events reply,
    input.length ≤ maxMessageSize →
    TakesE (Session.receive P input) s tr (.ok (events, reply)) s' →
    ∀ e ∈ events, ∃ b, eventBytes P e = .ok b ∧ b.length ≤ maxEventSize

/-- What holds after any calls from a coherent handle. -/
private structure Accounted (start : NativeSession) (xs : List (NativeCall P))
    (s : NativeSession) : Prop where
  coherent : s.Coherent
  each : ∀ x ∈ xs, NativeSession.Exact P x.before x.method x.trace x.outcome x.after
  events : ∃ new, List.Forall₂ (fun e b => eventBytes P e = .ok b) (producedEvents xs) new
    ∧ start.events ++ new = drainedEvents xs ++ s.events
  replies : start.output.toList ++ producedReplies xs = drainedReplies xs ++ s.output.toList

private theorem NativeHistory.accounted (codec : P.Ciborium) {xs : List (NativeCall P)}
    (h : NativeHistory P start xs s) (coherent : start.Coherent)
    (noise : ∀ x ∈ xs, Expected x.before.inner.role x.trace) : Accounted start xs s := by
  induction h with
  | nil =>
    refine ⟨coherent, fun _ mem => ?_, ⟨[], .nil, ?_⟩, ?_⟩
    · cases mem
    · simp [drainedEvents]
    · simp [producedReplies, drainedReplies]
  | @snoc xs x _ ih =>
    have before := ih fun y mem => noise y (List.mem_append_left _ mem)
    have now := noise x (List.mem_append_right _ List.mem_cons_self)
    have did := NativeSession.call_exact codec before.coherent now x.performed
    obtain ⟨new, listed, queued⟩ := before.events
    obtain ⟨more, encoded, moved⟩ := did.events
    refine ⟨did.coherent, ?_, ⟨new ++ more, ?_, ?_⟩, ?_⟩
    · intro y mem
      rcases List.mem_append.1 mem with old | last
      · exact before.each y old
      · cases List.mem_singleton.1 last
        exact did
    · simp only [producedEvents, List.flatMap_append, List.flatMap_singleton]
      exact List.rel_append listed encoded
    · simp only [drainedEvents, List.flatMap_append, List.flatMap_singleton, List.append_assoc]
      rw [← moved, ← List.append_assoc, queued, List.append_assoc]
      rfl
    · simp only [producedReplies, drainedReplies, List.flatMap_append, List.flatMap_singleton,
        List.append_assoc]
      rw [← did.replies, ← List.append_assoc, ← List.append_assoc]
      exact congrArg (· ++ _) before.replies

theorem native_session_lossless (codec : P.Ciborium) (r : NativeRun P) : Lossless r := by
  obtain ⟨capabilities, fresh, _⟩ := r.opened.eq_fresh
  have coherent : (NativeSession.new r.session).Coherent := by
    rw [fresh]
    exact ⟨.empty rfl nofun, nofun, nofun⟩
  have all := r.history.accounted codec coherent r.noise
  obtain ⟨new, listed, queued⟩ := all.events
  exact
    { refused_unchanged := fun x mem => (all.each x mem).unchanged
      packets_delivered := fun x mem => (all.each x mem).delivered
      encrypted_delivered := fun x mem => (all.each x mem).encrypted
      consumed_when_drained := fun x mem => (all.each x mem).empty
      events_exact := by
        rw [← queued]
        exact listed
      replies_exact := all.replies
      events_encode := fun s s' input tr events reply _ h e mem =>
        (eventBytes_received codec h e mem).imp fun _ h => ⟨h.1, h.2.2⟩ }

namespace Duplex

def nativeCall (s : NativeSession) (m : NativeMethod) : NativeCall primitives :=
  let run := (m.program primitives s).play (noise .responder) (answer .responder) .quiet []
  { before := s
    method := m
    trace := run.1
    outcome := run.2.2.1
    after := run.2.2.2
    performed := (exec_some_iff.1 (Exec.play (answer_permitted .responder) _ _ _)).1 }

def nativeCalls : List NativeMethod → NativeSession → List (NativeCall primitives)
  | [], _ => []
  | m :: ms, s => nativeCall s m :: nativeCalls ms (nativeCall s m).after

def nativeOutcome : List NativeMethod → NativeSession → NativeSession
  | [], s => s
  | m :: ms, s => nativeOutcome ms (nativeCall s m).after

theorem native_history {xs : List (NativeCall primitives)} (h : NativeHistory primitives start xs s)
    (ms : List NativeMethod) :
    NativeHistory primitives start (xs ++ nativeCalls ms s) (nativeOutcome ms s) := by
  induction ms generalizing xs s with
  | nil => simpa [nativeCalls, nativeOutcome] using h
  | cons m ms ih =>
    have more := ih (.snoc (nativeCall s m) h)
    simpa [nativeCalls, nativeOutcome] using more

/-- A responder's handle gets the first handshake packet twice, and its queues are drained with
buffers that are at first too small. -/
def nativeScript : List NativeMethod :=
  let first := ((exchange primitives fresh .initiator .start).output.made).getD []
  [.receive (.bytes first), .receive (.bytes first), .takeEvent ⟨true, 37, true⟩,
    .takeEvent ⟨true, 38, true⟩, .takeOutput ⟨false, 0, true⟩, .takeOutput ⟨true, 4096, true⟩,
    .takeEvent ⟨true, 64, true⟩]

def handedOver (x : NativeCall primitives) : Int × Option Nat :=
  (x.outcome.answer.status, x.outcome.answer.len)

private theorem native_script_expected :
    ∀ x ∈ nativeCalls nativeScript (.new fresh.responder), x.before.inner.role = .responder
      ∧ ∀ ev ∈ x.trace, NoiseEvent.reliable ev = true := by
  decide +kernel

def nativeRun : NativeRun primitives where
  role := .responder
  session := fresh.responder
  opened := fresh_responder
  calls := nativeCalls nativeScript (.new fresh.responder)
  final := nativeOutcome nativeScript (.new fresh.responder)
  history := native_history .nil nativeScript
  noise := fun x mem =>
    have expected := native_script_expected x mem
    ⟨.of_events expected.2, fun role => absurd (expected.1.symm.trans role) nofun⟩

theorem native_session_lossless_handshake :
    Lossless nativeRun ∧ nativeRun.calls.map handedOver =
      [(0, none), (32, none), (-2, some 38), (0, some 38), (-2, some 56), (0, some 56),
        (0, some 0)] :=
  ⟨native_session_lossless (minimalPrimitives_ciborium _) nativeRun, by decide +kernel⟩

end Duplex
end OpenLock
