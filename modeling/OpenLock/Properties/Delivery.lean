import OpenLock.Protocol.Delivery
import OpenLock.Protocol.Scripted

/-! Two honest sessions over a network that delivers do not close each other, as far as the
responses can be read. -/
namespace OpenLock
open Effects Session

/-- Two sessions of this code that have completed their handshake, and any calls since. -/
structure HonestPair (P : Primitives) where
  initiator : Session
  responder : Session
  initiator_opened : Opened P .initiator initiator
  responder_opened : Opened P .responder responder
  offered : initiator.capabilities &&& responder.capabilities = initiator.capabilities
  start : Parties
  shakes : Shakes P ⟨initiator, responder, .quiet⟩ start
  exchanges : List (Exchange P)
  final : Parties
  toResponder : List Bytes
  toInitiator : List Bytes
  delivers : Delivers P start exchanges final toResponder toInitiator

variable {P : Primitives}

/-- No packet is refused. The requests sent are those received and those under way, in this
order and each under its own id, and so are the responses. -/
structure Undisturbed (h : HonestPair P) : Prop where
  accepted : ∀ x ∈ h.exchanges, ¬ x.refused
  requests : ∃ waiting, returnedRequests h.exchanges = requestEvents h.exchanges ++ waiting ∧
    waiting.length = h.toResponder.length
  responses : ∃ waiting, returnedResponses h.exchanges = responseEvents h.exchanges ++ waiting ∧
    waiting.length = h.toInitiator.length
  requests_distinct : ((returnedRequests h.exchanges).map Prod.fst).Nodup
  responses_distinct : ((returnedResponses h.exchanges).map Prod.fst).Nodup
  pending : ∀ x ∈ h.exchanges, ∀ id ∈ x.after.responder.pendingRequests,
    id ∈ x.after.initiator.pendingRequests

private theorem response_allowed {xs : List (Exchange P)} {q : UInt32 × Response}
    (mem : q ∈ responseEvents xs) : LawfulWire.Allowed q.2 := by
  obtain ⟨x, _, mem⟩ := List.mem_flatMap.1 mem
  obtain ⟨e, event, found⟩ := List.mem_filterMap.1 mem
  obtain ⟨packet, events, reply, s, mem, received, _⟩ := Exchange.event_received event
  generalize x.trace = tr at received
  cases received with
  | handshake _ _ _ _ completed =>
    cases completed with
    | transport _ =>
      cases List.mem_singleton.1 mem
      cases found
    | handshake => cases mem
  | request =>
    cases List.mem_singleton.1 mem
    cases found
  | response _ _ _ _ _ _ allowed =>
    cases List.mem_singleton.1 mem
    cases found
    exact allowed

/-- Nothing disturbs two honest sessions exactly if every response that has arrived is one that
`Response::parse` accepts, which `respond` does not check. -/
theorem undisturbed_iff (codec : P.Ciborium) (h : HonestPair P) :
    Undisturbed h ↔ ∀ q ∈ arrivedResponses h.exchanges h.toInitiator,
      Wire.parse (Wire.value q.2) = .ok q.2 := by
  constructor
  · intro undisturbed q mem
    obtain ⟨waiting, split, length⟩ := undisturbed.responses
    rw [arrivedResponses_eq split length] at mem
    exact LawfulWire.parse_eq_ok.2 ⟨rfl, response_allowed mem⟩
  · intro readable
    have fresh := Flowing.fresh h.initiator_opened h.responder_opened h.offered h.shakes
    obtain ⟨requests, responses, flowing⟩ := h.delivers.flowing codec fresh fun q mem =>
      (LawfulWire.parse_eq_ok.1 (readable q mem)).2
    have distinct : ((returnedRequests h.exchanges).map Prod.fst).Nodup := by
      refine List.Pairwise.map Prod.fst (fun q q' lt => ?_) flowing.increasing
      exact UInt32.ne_of_lt lt
    exact {
      accepted := flowing.accepted
      requests := ⟨_, flowing.requested, by simp [flowing.outward.packets]⟩
      responses := ⟨_, flowing.answered, by simp [flowing.back.packets]⟩
      requests_distinct := distinct
      responses_distinct := flowing.once
      pending := flowing.tracked }

namespace Duplex
variable {start : Parties}

/-- One line of a script for two sessions after their handshake. -/
inductive Post where
  | send (c : Command)
  | respond (id : UInt32) (r : Response)
  | request
  | response

/-- The parties and the packets under way. -/
structure Mail where
  parties : Parties
  toResponder : List Bytes
  toInitiator : List Bytes

def step (m : Mail) : Post → Option (Exchange primitives × Mail)
  | .send c =>
    let x := exchange primitives m.parties .initiator (.send c)
    some (x, ⟨x.after, m.toResponder ++ x.output.made.toList, m.toInitiator⟩)
  | .respond id r =>
    let x := exchange primitives m.parties .responder (.respond id r)
    some (x, ⟨x.after, m.toResponder, m.toInitiator ++ x.output.made.toList⟩)
  | .request =>
    match m.toResponder with
    | [] => none
    | packet :: rest =>
      let x := exchange primitives m.parties .responder (.receive packet)
      some (x, ⟨x.after, rest, m.toInitiator⟩)
  | .response =>
    match m.toInitiator with
    | [] => none
    | packet :: rest =>
      let x := exchange primitives m.parties .initiator (.receive packet)
      some (x, ⟨x.after, m.toResponder, rest⟩)

/-- A script up to its first delivery of nothing. -/
def run : List Post → Mail → List (Exchange primitives) × Mail
  | [], m => ([], m)
  | post :: posts, m =>
    match step m post with
    | none => ([], m)
    | some (x, m) => (x :: (run posts m).1, (run posts m).2)

theorem answer_faithful (role : Role) (l : Link) (past : List NoiseEvent) (e : NoiseCall) :
    Faithful primitives ⟨e, answer role l past e⟩ := by
  cases e with
  | writeTransport payload => exact ⟨_, rfl, by simp⟩
  | remoteStatic => exact ⟨_, ⟨Vector.replicate 32 9⟩, rfl, by decide⟩
  | _ => trivial

theorem exchange_faithful (p : Parties) (role : Role) (m : SessionMethod) :
    ∀ ev ∈ (exchange primitives p role m).trace, Faithful primitives ev :=
  Prog.play_forall (answer_faithful role) _ _ _

theorem delivers_step {xs : List (Exchange primitives)} {m m' : Mail} {post : Post}
    {x : Exchange primitives} (stepped : step m post = some (x, m'))
    (earlier : Delivers primitives start xs m.parties m.toResponder m.toInitiator) :
    Delivers primitives start (xs ++ [x]) m'.parties m'.toResponder m'.toInitiator := by
  cases post with
  | send c =>
    cases stepped
    exact .send _ earlier rfl rfl (exchange_faithful _ _ _)
  | respond id r =>
    cases stepped
    exact .respond _ earlier rfl rfl (exchange_faithful _ _ _)
  | request =>
    obtain ⟨parties, toResponder, toInitiator⟩ := m
    cases toResponder with
    | nil => cases stepped
    | cons packet rest =>
      cases stepped
      exact .request _ earlier rfl rfl (exchange_faithful _ _ _)
  | response =>
    obtain ⟨parties, toResponder, toInitiator⟩ := m
    cases toInitiator with
    | nil => cases stepped
    | cons packet rest =>
      cases stepped
      exact .response _ earlier rfl rfl (exchange_faithful _ _ _)

theorem delivers_run {xs : List (Exchange primitives)} {m : Mail}
    (earlier : Delivers primitives start xs m.parties m.toResponder m.toInitiator)
    (posts : List Post) :
    Delivers primitives start (xs ++ (run posts m).1) (run posts m).2.parties
      (run posts m).2.toResponder (run posts m).2.toInitiator := by
  induction posts generalizing xs m with
  | nil => simpa [run] using earlier
  | cons post posts ih =>
    unfold run
    cases stepped : step m post with
    | none => simpa using earlier
    | some next =>
      obtain ⟨x, m'⟩ := next
      have later := ih (delivers_step stepped earlier)
      simpa using later

def hello : Exchange primitives := exchange primitives fresh .initiator .start

def reply : Exchange primitives :=
  exchange primitives hello.after .responder (.receive (hello.output.made.getD []))

def completion : Exchange primitives :=
  exchange primitives reply.after .initiator (.receive (reply.output.made.getD []))

private def untagged : NoiseCall → Bool
  | .writeTransport _ | .readTransport _ => false
  | _ => true

theorem shakes : Shakes primitives fresh completion.after := by
  have clear : ∀ ev ∈ hello.trace ++ (reply.trace ++ completion.trace), untagged ev.effect = true := by
    rw [← List.all_eq_true]
    decide +kernel
  have first : hello.output = .packet (.ok (hello.output.made.getD [])) := by decide +kernel
  have second : reply.output = .received (.ok ([.handshakeComplete ⟨Vector.replicate 32 9⟩],
      some (reply.output.made.getD []))) := by
    decide +kernel
  have third : completion.output
      = .received (.ok ([.handshakeComplete ⟨Vector.replicate 32 9⟩], none)) := by
    decide +kernel
  refine .complete hello reply completion rfl rfl rfl rfl rfl first rfl rfl second rfl rfl third ?_
  intro ev mem message
  have other := clear ev mem
  constructor
  · intro same
    rw [same] at other
    cases other
  · intro same
    rw [same] at other
    cases other

theorem fresh_offered : fresh.initiator.capabilities &&& fresh.responder.capabilities
    = fresh.initiator.capabilities := rfl

def pair (posts : List Post) : HonestPair primitives where
  initiator := fresh.initiator
  responder := fresh.responder
  initiator_opened := fresh_initiator
  responder_opened := fresh_responder
  offered := fresh_offered
  start := completion.after
  shakes := shakes
  exchanges := (run posts ⟨completion.after, [], []⟩).1
  final := (run posts ⟨completion.after, [], []⟩).2.parties
  toResponder := (run posts ⟨completion.after, [], []⟩).2.toResponder
  toInitiator := (run posts ⟨completion.after, [], []⟩).2.toInitiator
  delivers := @delivers_run completion.after [] ⟨completion.after, [], []⟩ .nil posts

def infoRequest : Command := ⟨[1], none, .info⟩

def info (model : String) : Response :=
  ⟨4, .ok (.info {
    lockId := ⟨Vector.replicate 16 1⟩
    model
    hardware := "h"
    firmware := "f"
    capabilities
    actuator := .motor
    boltSensor := true
    doorSensor := true
    privacySensor := true
    batterySensor := true
    safeLockWithoutDoor := false
    holdOpen := false
    maxReleaseMs := 1
    maxActionMs := 1
    maxDelayMs := 1
    logCapacity := 1
    operationCapacity := 1
    credentialCapacity := 1
    maxImageSize := 1
    maxChunkSize := 1 })⟩

/-- One request, its response, and a second request on its way. -/
def described (model : String) : List Post :=
  [.send infoRequest, .request, .respond 1 (info model), .response, .send infoRequest]

theorem undisturbed_info : Undisturbed (pair (described "m")) ∧
    responseEvents (pair (described "m")).exchanges = [(1, info "m")] ∧
    (pair (described "m")).toResponder.length = 1 :=
  ⟨(undisturbed_iff (P := primitives) (minimalPrimitives_ciborium _) (pair (described "m"))).2
    (by decide +kernel), by decide +kernel⟩

/-- A model name of 65 bytes. -/
def longName : String := String.ofList (List.replicate 65 'm')

/-- `respond` accepts the long name; the initiator refuses it and closes the session. -/
theorem disturbed_info :
    (pair ((described longName).take 4)).exchanges.map Exchange.responded
      = [none, none, some (1, info longName), none] ∧
    ((pair ((described longName).take 4)).exchanges.getLast?.map fun x => x.output)
      = some (.received (.error .invalidPayload)) ∧
    (pair ((described longName).take 4)).final.initiator.channel = .closed ∧
    ¬ Undisturbed (pair ((described longName).take 4)) := by
  have last : ((pair ((described longName).take 4)).exchanges.getLast?.map fun x => x.output)
      = some (.received (.error .invalidPayload)) := by
    decide +kernel
  refine ⟨by decide +kernel, last, by decide +kernel, fun undisturbed => ?_⟩
  obtain ⟨x, found, output⟩ := Option.map_eq_some_iff.1 last
  exact undisturbed.accepted x (List.mem_of_getLast? found) ⟨_, output⟩

end Duplex
end OpenLock
