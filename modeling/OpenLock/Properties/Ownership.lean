import OpenLock.Properties.Refusal
import OpenLock.Properties.Store

/-! The ownership domain only moves forward, and a session opened before it moved is
refused from then on. -/
namespace OpenLock
open Controller Effects

variable {P : Primitives} {f : FactoryIdentity} {pre post : List Moment} {q : Moment}

section Owner
variable {s : Abs} {m n : DeviceSnapshot} {pr : Progress} {ow : Option Active}

/-- How a change may treat the owner. -/
inductive Change.Owner (s : Abs) (m n : DeviceSnapshot) : Prop
  | kept (same : n.owner = m.owner)
  | claimed (context : SessionContext) (cmd : Command) (key issuer : Bytes32) (admin : Bytes)
      (request : s.request = some (context, cmd)) (action : cmd.action = .claim key issuer admin)
      (ownerless : m.owner = none)
  | reset (context : SessionContext) (cmd : Command) (request : s.request = some (context, cmd))
      (action : cmd.action = .factoryReset) (owner : n.owner = none) (epoch : m.epoch < n.epoch)
  | replaced (context : SessionContext) (cmd : Command) (issuer : Bytes32)
      (request : s.request = some (context, cmd)) (action : cmd.action = .replaceIssuer issuer)
      (owned : m.owner.isSome) (owner : n.owner = some ⟨issuer, context.peer⟩)
      (epoch : m.epoch < n.epoch)

theorem Change.owner (h : Change P f s m n pr ow) : Change.Owner s m n := by
  cases h with
  | upkeep h => exact .kept (congrArg AuthState.owner h.auth)
  | accept _ _ _ _ h => exact .kept (congrArg AuthState.owner h.auth)
  | trialEnded _ _ _ _ _ auth => exact .kept (congrArg AuthState.owner auth)
  | clock _ _ _ _ _ _ h => exact .kept (congrArg AuthState.owner h.auth)
  | effect _ _ _ auth => exact .kept auth.keeps.1
  | claim _ _ context cmd key issuer admin _ _ _ request _ _ h =>
    exact .claimed context cmd key issuer admin request h.action h.ownerless
  | domain _ _ context cmd _ _ _ _ request _ _ _ authorized h =>
    have epoch := h.advances.1
    obtain ⟨o, granted⟩ := checkGrant_ok.1 authorized.grant
    cases h with
    | reset action _ _ _ _ result => exact .reset context cmd request action (by rw [result]; rfl) epoch
    | replace issuer action _ _ _ _ _ auth =>
      exact .replaced context cmd issuer request action (by rw [granted.owner]; rfl)
        (congrArg AuthState.owner auth) epoch
    | epoch _ _ _ _ _ _ _ _ _ _ auth => exact .kept (congrArg AuthState.owner auth)

end Owner

/-- Only an imported record gives a device its first snapshot with an owner. -/
theorem Run.installs_owner (run : Run P f) {n : DeviceSnapshot}
    (split : run.moments = pre ++ q :: post) (disk : q.disk = none) (stores : q.Stores n)
    (owner : n.owner ≠ none) : q.call.migrates = true := by
  obtain ⟨s, s', _, hs, hq⟩ := run.moment Forward.inductively split
  obtain ⟨x, event, _⟩ := stores
  rw [event] at hs hq
  have empty : s.1.disk = none := by rw [← disk, hq]
  have moves := s.2.moves hs
  generalize s'.1 = t at moves
  cases moves with
  | commit _ _ _ _ _ _ _ _ full =>
    rw [empty] at full
    cases full
  | install _ _ _ installs =>
    rw [hq]
    simp only
    match s.1.call, installs with
    | .construct .provision, rfl => exact absurd rfl owner
    | .construct (.migrateLegacy _ _ _), rfl => rfl
  | other _ _ _ durable => exact absurd rfl (durable n)

/-- The commit moves the device to another domain. -/
def Rekeys (a n : DeviceSnapshot) : Prop :=
  n.owner ≠ a.owner ∨ n.epoch ≠ a.epoch ∨ n.deviceKey ≠ a.deviceKey

/-- A session opened before the domain moved is refused by every later call. -/
theorem Run.stale_refused (run : Run P f) {rs rest : List (Record P f)} {r : Record P f}
    (split : run.records = rs ++ r :: rest)
    {a n : DeviceSnapshot} (earlier : rs.flatMap Record.moments = pre ++ q :: post)
    (disk : q.disk = some a) (stores : q.Stores n) (rekeys : Rekeys a n) {c : Controller}
    (found : r.before.controller = some c) {context : SessionContext}
    (old : context.generation ≤ a.generation) {cmd : Command}
    (call : r.call = .method (.handle context cmd)
      ∨ r.call = .method (.confirmPhysical context cmd)) : Refused r c := by
  obtain ⟨s, s', forward, follows⟩ := run.call Forward.inductively split
  have whole : run.moments = pre ++ q :: (post ++ (r :: rest).flatMap Record.moments) := by
    rw [Run.moments, split, List.flatMap_append, earlier]
    simp
  have asks : r.call.Asks c context cmd := call.imp_left fun h => by rw [h]; rfl
  cases poisoned : c.poisoned with
  | true =>
    exact r.poisoned_refused asks found poisoned
  | false =>
    -- A live controller agrees with the store, which has moved past the session.
    have stale : context.generation ≠ c.state.generation := by
      have coupled := follows.before.controller c found
      have stored : storeAfter (pre ++ q :: post) = some c.state := by
        rw [← earlier, ← forward.disk]
        exact s.2.synced (coupled.poisoned.trans poisoned) _ coupled.mem
      have now : storeAfter (pre ++ [q]) = some n := stores.storeAfter pre
      have order : run.moments = (pre ++ [q]) ++ post ++ (r :: rest).flatMap Record.moments := by
        simpa using whole
      obtain ⟨b, hb, advances⟩ := run.advances order now
      have last : storeAfter (pre ++ q :: post) = some b := by simpa using hb
      cases stored.symm.trans last
      obtain ⟨_, _, _, durable⟩ := run.stored whole disk stores
      have moved : a.generation < n.generation := durable.advances.rekeyed rekeys
      exact UInt64.ne_of_lt (UInt64.lt_of_le_of_lt old
        (UInt64.lt_of_lt_of_le moved advances.generation))
    exact follows.shut asks found fun _ _ _ _ _ admits => stale admits.current

/-- The ownership domain moves forward only: counters never fall, every move is a new
generation, each kind of move has its own request, an ownerless device remembers nothing,
and sessions from before a move are refused. -/
theorem ownership_monotone (run : Run P f) :
    (∀ pre mid post, run.moments = pre ++ mid ++ post → ∀ a, storeAfter pre = some a →
      ∃ b, storeAfter (pre ++ mid) = some b ∧ a.epoch ≤ b.epoch ∧ a.generation ≤ b.generation)
    ∧ (∀ pre q post, run.moments = pre ++ q :: post → ∀ n, q.Stores n →
      (∀ a, q.disk = some a → (Rekeys a n → a.generation < n.generation)
        ∧ (a.owner = none → n.owner ≠ none →
          q.Requests fun action => ∃ key issuer admin, action = .claim key issuer admin)
        ∧ (a.owner ≠ none → n.owner = none →
          q.Requests (· = .factoryReset) ∧ a.epoch < n.epoch)
        ∧ ∀ o o', a.owner = some o → n.owner = some o' → o ≠ o' →
          q.Requests (· = .replaceIssuer o'.issuer) ∧ a.epoch < n.epoch)
      ∧ (q.disk = none → n.owner ≠ none → q.call.migrates = true))
    ∧ (∀ pre post, run.moments = pre ++ post → ∀ d, storeAfter pre = some d → d.owner = none →
      Unowned d)
    ∧ ∀ rs r rest, run.records = rs ++ r :: rest → ∀ pre q post a n,
      rs.flatMap Record.moments = pre ++ q :: post → q.disk = some a → q.Stores n →
      Rekeys a n → ∀ c, r.before.controller = some c → ∀ context cmd,
      context.generation ≤ a.generation →
      r.call = .method (.handle context cmd) ∨ r.call = .method (.confirmPhysical context cmd) →
      Refused r c := by
  refine ⟨?_, ?_, ?_, ?_⟩
  · intro pre mid post split a ha
    obtain ⟨b, hb, advances⟩ := run.advances split ha
    exact ⟨b, hb, advances.epoch, advances.generation⟩
  · intro pre q post split n stores
    refine ⟨fun a disk => ?_, fun empty owner => run.installs_owner split empty stores owner⟩
    obtain ⟨s, pr, ow, durable⟩ := run.stored split disk stores
    have request := durable.request
    refine ⟨durable.advances.rekeyed, ?_⟩
    cases durable.change.owner with
    | kept same =>
      rw [same]
      exact ⟨fun none some => absurd none some, fun some none => absurd none some,
        fun o o' ho ho' differ => absurd (Option.some.inj (ho.symm.trans ho')) differ⟩
    | claimed context cmd key issuer admin asked action ownerless =>
      refine ⟨fun _ _ => ⟨context, cmd, request ▸ asked, key, issuer, admin, action⟩,
        fun owned => absurd ownerless owned, fun o _ ho => ?_⟩
      rw [ownerless] at ho
      cases ho
    | reset context cmd asked action owner epoch =>
      refine ⟨fun _ some => absurd owner some,
        fun _ _ => ⟨⟨context, cmd, request ▸ asked, action⟩, epoch⟩, fun _ o' _ ho' => ?_⟩
      rw [owner] at ho'
      cases ho'
    | replaced context cmd issuer asked action owned owner epoch =>
      refine ⟨fun none => ?_, fun _ none => ?_, fun _ o' _ ho' _ => ?_⟩
      · rw [none] at owned
        cases owned
      · rw [owner] at none
        cases none
      · cases owner.symm.trans ho'
        exact ⟨⟨context, cmd, request ▸ asked, action⟩, epoch⟩
  · intro pre post split d hd ownerless
    obtain ⟨s, forward⟩ := run.along Forward.inductively split
    exact (s.2.disk d (forward.disk.trans hd)).unowned ownerless
  · intro rs r rest split pre q post a n earlier disk stores rekeys c found context cmd old call
    exact run.stale_refused split earlier disk stores rekeys found old call

end OpenLock
