import OpenLock.Properties.Authorization
import OpenLock.Properties.Poison

/-! Calls that are refused: a request or a physical confirmation that nothing entitles
fails and changes nothing. -/
namespace OpenLock
open Controller Effects

variable {P : Primitives} {f : FactoryIdentity} {context : SessionContext} {c : Controller}
  {cmd : Command} {s : Abs} {r : Record P f}

/-- What a call has read gets it through: it is entitled to act, or let in. -/
def Admits (P : Primitives) (f : FactoryIdentity) (c : Controller) (context : SessionContext)
    (cmd : Command) (s : Abs) : Prop :=
  Entitled P f c context cmd s ∨ LetIn P c.state s.clocks context cmd

theorem Admits.current (h : Admits P f c context cmd s) :
    context.generation = c.state.generation := by
  rcases h with entitled | letIn
  · cases entitled with
    | granted m g seq auth h =>
      obtain ⟨_, granted⟩ := checkGrant_ok.1 h.grant
      exact granted.generation.trans (congrArg AuthState.generation auth)
    | claiming m n now key issuer admin g auth read h =>
      exact h.generation.trans (congrArg AuthState.generation auth)
  · exact letIn.current

/-- On an owned device it takes a grant, in its window. -/
theorem Admits.granted {o : Owner} (h : Admits P f c context cmd s)
    (owner : c.state.owner = some o) :
    ∃ g, Granted P c.state context cmd o g ∧ InWindow g.validity s.clocks := by
  rcases h with entitled | letIn
  · cases entitled with
    | granted m g seq auth h =>
      have grant := h.grant
      rw [checkGrant_congr auth] at grant
      obtain ⟨o', granted⟩ := checkGrant_ok.1 grant
      cases owner.symm.trans granted.owner
      exact ⟨g, granted, h.window⟩
    | claiming m n now key issuer admin g auth _ h =>
      have same : m.owner = c.state.owner := congrArg AuthState.owner auth
      rw [h.ownerless, owner] at same
      cases same
  · obtain ⟨g, vetted⟩ := letIn.vetted (by rw [owner]; rfl)
    obtain ⟨o', granted⟩ := checkGrant_ok.1 vetted.grant
    cases owner.symm.trans granted.owner
    exact ⟨g, granted, vetted.window⟩

/-- A call that fails and at no point changes the authorization state or does anything
privileged. -/
structure Refused (r : Record P f) (c : Controller) : Prop where
  failed : ∀ out, r.output = some out → out.failed = true
  memory : ∀ c', r.after.controller = some c' → c'.state.auth = c.state.auth
  store : ∀ pre post, r.trace = pre ++ post → (storage.afterAll r.before.disk pre).map
    DeviceSnapshot.auth = r.before.disk.map DeviceSnapshot.auth
  calm : ∀ ev ∈ r.trace, ev.effect.privileged = false

theorem FailsClosed.refused {m : Method} (h : FailsClosed r m c) : Refused r c := by
  have still : ∀ ev ∈ r.trace, ∃ x, ev = ⟨.stopAction, x⟩ := by
    intro ev hev
    obtain ⟨e, x⟩ := ev
    obtain rfl : e = .stopAction := h.effects _ hev
    exact ⟨x, rfl⟩
  refine ⟨h.failed, fun c' hc' => by rw [(h.kept c' hc').2.1], fun pre post split => ?_,
    fun ev hev => ?_⟩
  · rw [World.afterAll_still]
    intro ev hev
    obtain ⟨x, rfl⟩ := still ev (by rw [split]; exact List.mem_append_left _ hev)
    rfl
  · obtain ⟨x, rfl⟩ := still ev hev
    rfl

/-- What a physical confirmation submits is housekeeping. -/
private theorem confirm_change {m n : DeviceSnapshot} {pr : Progress} {ow : Option Active}
    (call : s.call = .method (.confirmPhysical context cmd)) (fresh : s.progress = .fresh)
    (change : Change P f s m n pr ow) :
    pr = .fresh ∧ n.auth = m.auth := by
  have silent : ∀ x, s.request ≠ some x := by
    intro x request
    rw [Abs.request, call] at request
    cases request
  have called : ¬ (s.call = .method .poll ∨ s.call.constructs = true) := by
    rw [call]
    rintro (polls | constructs)
    · cases polls
    · cases constructs
  cases change with
  | upkeep h => exact ⟨(h.steady called).trans fresh, h.auth⟩
  | accept _ _ _ request => exact absurd request (silent _)
  | claim _ _ _ _ _ _ _ _ _ _ request => exact absurd request (silent _)
  | domain _ _ _ _ _ _ _ _ request => exact absurd request (silent _)
  | effect _ _ accepted => cases fresh.symm.trans accepted
  | clock _ _ _ accepted => cases fresh.symm.trans accepted
  | trialEnded _ _ call => exact absurd call called

/-- The call asks for the command: as a request, or to have it confirmed physically. -/
def Call.Asks (call : Call) (c : Controller) (context : SessionContext) (cmd : Command) : Prop :=
  call.request (some c) = some (context, cmd) ∨ call = .method (.confirmPhysical context cmd)

theorem Call.Asks.method {call : Call} (h : call.Asks c context cmd) : ∃ m, call = .method m := by
  rcases h with request | confirms
  · cases call with
    | construct => cases request
    | method m => exact ⟨m, rfl⟩
  · exact ⟨_, confirms⟩

namespace Follows
variable {r : Record P f} {s s' : Lock P f} {c : Controller} {context : SessionContext}
  {cmd : Command}

/-- A call that stays untouched and fails is refused. -/
private theorem refused (follows : Follows r s s')
    (untouched : ∀ pre post (t : Lock P f), r.trace = pre ++ post →
      Path (lockSpec P f) (s.enter r.call r.before.controller) pre t →
      Untouched c r.before.disk pre t.1)
    (failed : ∀ out, r.output = some out → out.failed = true) : Refused r c := by
  have whole := untouched r.trace [] s' (List.append_nil _).symm follows.path
  refine ⟨failed, fun c' hc' => ?_, fun pre post split => ?_, whole.calm⟩
  · obtain ⟨m, hm, auth⟩ := whole.mem
    cases hm.symm.trans (follows.after.controller c' hc').mem
    exact auth
  · have path := follows.path
    rw [split] at path
    obtain ⟨t, before, _⟩ := path.split
    have disk : t.1.disk = storage.afterAll r.before.disk pre := by
      rw [← follows.before.disk]
      exact before.view
    rw [← disk]
    exact (untouched pre post t split before).disk

/-- A physical confirmation touches nothing that needs authority. -/
private theorem confirming (follows : Follows r s s')
    (call : r.call = .method (.confirmPhysical context cmd)) (found : r.before.controller = some c)
    {pre : List (Event Answer)} {t : Lock P f}
    (path : Path (lockSpec P f) (s.enter r.call r.before.controller) pre t) :
    Untouched c r.before.disk pre t.1 := by
  have entered : (s.enter r.call r.before.controller).1.call
      = .method (.confirmPhysical context cmd) ∧ Untouched c r.before.disk []
      (s.enter r.call r.before.controller).1 :=
    ⟨call, follows.untouched found (by rw [call]; rfl)⟩
  refine (Follows.along (I := fun tr u => u.1.call = .method (.confirmPhysical context cmd)
    ∧ Untouched c r.before.disk tr u.1) ?_ entered path).2
  rintro tr u ev u' ⟨confirms, untouched⟩ hs
  refine ⟨(Frame.step hs).call.trans confirms, ?_⟩
  have next := untouched.step (Q := False) hs (by rw [confirms]; rfl) ?_
  · exact next.resolve_right id
  · intro s₀ m n pr ow _ _ submitted _ fresh _ auth change
    have confirms₀ : s₀.call = .method (.confirmPhysical context cmd) := by
      rw [← confirms, submitted]
      rfl
    exact .inl (confirm_change confirms₀ fresh change)

/-- What an answered request or a recorded confirmation has been checked for. -/
theorem letIn (follows : Follows r s s') (asks : r.call.Asks c context cmd)
    (found : r.before.controller = some c) {out : Output} (returned : r.output = some out)
    (ok : out.failed = false) : LetIn P c.state s'.1.clocks context cmd := by
  obtain ⟨m, call⟩ := asks.method
  obtain ⟨c', left⟩ := r.left (by rw [call]; rfl) returned
  have how := follows.returned m c out c' call found returned left
  rw [call] at asks
  rcases asks with request | confirms
  · obtain ⟨⟨opcode, y⟩, rfl, responded⟩ := how.answered context cmd request
    cases y with
    | ok y => exact responded.letIn y rfl
    | error e => cases ok
  · exact (how.confirmed context cmd (Call.method.inj confirms) ok).1

/-- A call that nothing it has read gets through at any point is refused. -/
theorem shut (follows : Follows r s s') (asks : r.call.Asks c context cmd)
    (found : r.before.controller = some c)
    (never : ∀ pre post (t : Lock P f), r.trace = pre ++ post →
      Path (lockSpec P f) (s.enter r.call r.before.controller) pre t →
      ¬ Admits P f c context cmd t.1) : Refused r c := by
  refine follows.refused (fun pre post t split path => ?_) fun out returned => ?_
  · rcases asks with request | confirms
    · exact (follows.guarded found request path).guarded.resolve_right
        fun engaged => never pre post t split path (.inl engaged.entitled)
    · exact follows.confirming confirms found path
  · by_contra answered
    exact never _ [] s' (List.append_nil _).symm follows.path
      (.inr (follows.letIn asks found returned (by simpa using answered)))

end Follows

/-- A call on a poisoned controller is refused. -/
theorem Record.poisoned_refused (r : Record P f) (asks : r.call.Asks c context cmd)
    (found : r.before.controller = some c) (poisoned : c.poisoned = true) : Refused r c := by
  obtain ⟨m, call⟩ := asks.method
  exact (r.failsClosed call found poisoned).refused

/-- A call is refused if on a controller that holds what is stored nothing gets it through. -/
theorem Run.shut (run : Run P f) (hr : r ∈ run.records)
    (asks : r.call.Asks c context cmd) (found : r.before.controller = some c)
    (never : ∀ s s' : Lock P f, Follows r s s' → r.before.disk = some c.state →
      ∀ pre post (t : Lock P f), r.trace = pre ++ post →
        Path (lockSpec P f) (s.enter r.call r.before.controller) pre t →
        ¬ Admits P f c context cmd t.1) : Refused r c := by
  cases poisoned : c.poisoned with
  | true => exact r.poisoned_refused asks found poisoned
  | false =>
    obtain ⟨s, s', follows⟩ := run.follows hr
    exact follows.shut asks found (never s s' follows (follows.before.synced found poisoned))

end OpenLock
