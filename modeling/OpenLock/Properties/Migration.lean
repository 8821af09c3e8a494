import OpenLock.Legacy.Steps
import OpenLock.Properties.Policy

/-! Migration keeps the legacy authorization domain: the device starts from the legacy
record, unlocks only where the legacy lock would, and applies policies as it would. -/
namespace OpenLock
open Controller Effects

variable {P : Primitives} {f : FactoryIdentity} {a b m n : DeviceSnapshot} {ev : Event Answer}

/-- The snapshots an effect may leave in the store: the one before it, the one a
constructor installs, or one that a change led to. -/
theorem Lock.stored_cases {s s' : Lock P f} (hs : s.1.Step P f ev s'.1) : s'.1.disk = s.1.disk
    ∨ (∃ n, s.1.disk = none ∧ s.1.call.installs f = some n ∧ s'.1.disk = some n)
    ∨ ∃ m n, s.1.disk = some m ∧ s'.1.disk = some n ∧ Change.Policy P s.1.request m n := by
  have moves := s.2.moves hs
  generalize s'.1 = t at moves
  cases moves with
  | start => exact .inl rfl
  | other _ _ _ _ same => exact .inl same
  | install n r empty installs =>
    cases r with
    | ok | written => exact .inr (.inl ⟨n, empty, installs, rfl⟩)
    | lost => exact .inl rfl
  | commit n r s₀ m pr ow _ _ disk _ change submitted =>
    have asked := s.2.asked
    rw [submitted] at asked
    have policy : Change.Policy P s.1.request m n := by
      rw [submitted]
      refine change.policy fun x working => ?_
      change Asked s₀.call s₀.entry s₀.progress at asked
      rw [working] at asked
      exact asked
    cases r with
    | ok | written => exact .inr (.inr ⟨m, n, disk, rfl, policy⟩)
    | lost => exact .inl rfl

section Importing
variable {r : Record P f} {s s' : Lock P f} {legacy : LockSnapshot} {issuer : VerifyingKey}
  {admin : SubjectKey}

/-- What the store and the controller hold while a legacy record is taken over. -/
structure Importing (call : Call) (legacy : LockSnapshot) (s : Lock P f) : Prop where
  call : s.1.call = call
  disk : ∀ d, s.1.disk = some d → d.legacy = legacy
  mem : ∀ m, s.1.mem = some m → m.legacy = legacy

theorem Importing.step (h : Importing (.construct (.migrateLegacy legacy issuer admin)) legacy s)
    (hs : s.1.Step P f ev s'.1) :
    Importing (.construct (.migrateLegacy legacy issuer admin)) legacy s' := by
  have disk : ∀ d, s'.1.disk = some d → d.legacy = legacy := by
    intro d hd
    rcases Lock.stored_cases hs with same | ⟨n, _, installs, stored⟩ | ⟨m, n, before, stored, change⟩
    · exact h.disk d (same.symm.trans hd)
    · cases hd.symm.trans stored
      rw [h.call] at installs
      cases installs
      rfl
    · cases hd.symm.trans stored
      -- A constructor answers no request, so its changes keep the domain.
      have silent : s.1.request = none := by
        rw [Abs.request, h.call]
        rfl
      cases change with
      | kept alike => exact alike.legacy.trans (h.disk m before)
      | applied _ _ _ _ request => cases silent.symm.trans request
      | cleared _ _ request => cases silent.symm.trans request
      | other _ _ request => cases silent.symm.trans request
  refine ⟨(Frame.step hs).call.trans h.call, disk, fun m hm => ?_⟩
  rcases hs.mem_cases with same | loaded
  · exact h.mem m (same.symm.trans hm)
  · exact disk m (loaded.symm.trans hm)

/-- A device taken over from a legacy record has its domain. -/
theorem Follows.imported (follows : Follows r s s') {c : Controller}
    (call : r.call = .construct (.migrateLegacy legacy issuer admin))
    (built : r.after.controller = some c) : c.state.legacy = legacy := by
  have absent : r.before.disk = none := by
    refine follows.absent (migratedSnapshot f legacy issuer admin) c ?_ built
    rw [call]
    rfl
  have entered : Importing (.construct (.migrateLegacy legacy issuer admin)) legacy
      (s.enter r.call r.before.controller) := by
    refine ⟨call, fun d hd => ?_, fun m hm => ?_⟩
    · cases (follows.before.disk.trans absent).symm.trans hd
    · rw [call] at hm
      cases hm
  have whole : Importing _ legacy s' := Follows.along
    (I := fun _ t => Importing (.construct (.migrateLegacy legacy issuer admin)) legacy t)
    (fun _ _ _ _ h hs => h.step hs) entered follows.path
  exact whole.mem _ (follows.after.controller c built).mem

end Importing

namespace LockState
variable {lock : LockState} {signed : Bytes} {p : PolicyUpdate}

/-- A legacy lock with the device's lock id and issuer agrees with it on the epoch, the policy
version, the revoked credentials and the uses of counted grants. -/
structure Agrees (P : Primitives) (lock : LockState) (s : DeviceSnapshot) : Prop where
  lockId : lock.lockId = s.lockId
  issuer : s.owner.map Owner.issuer = some lock.issuer.bytes
  epoch : lock.snapshot.epoch = s.epoch
  policyVersion : lock.snapshot.policyVersion = s.policyVersion
  revoked : lock.snapshot.revoked = s.revoked
  used : ∀ bytes g, readGrant P lock.issuer bytes = .ok g → g.maxUses.isSome = true →
    lock.snapshot.used g.credentialId = s.usesOf g.credentialId

theorem Agrees.key (h : lock.Agrees P a) {o : Owner} (owner : a.owner = some o) :
    lock.issuer = ⟨o.issuer⟩ := by
  have issuer := h.issuer
  rw [owner] at issuer
  have same : o.issuer = lock.issuer.bytes := Option.some.inj issuer
  rw [same]

/-- The same policy on both sides leaves them in agreement. -/
theorem Agrees.superseded (h : lock.Agrees P a) (sup : Superseded P signed p a b) :
    ({ lock with snapshot := lock.snapshot.apply p } : LockState).Agrees P b := by
  have epoch : b.epoch = (a.legacy.apply p).epoch := congrArg LockSnapshot.epoch sup.legacy
  have version : b.policyVersion = (a.legacy.apply p).policyVersion :=
    congrArg LockSnapshot.policyVersion sup.legacy
  have revoked : b.revoked = (a.legacy.apply p).revoked := congrArg LockSnapshot.revoked sup.legacy
  have same : a.legacy.epoch = lock.snapshot.epoch := h.epoch.symm
  refine ⟨h.lockId.trans sup.lockId.symm, by rw [sup.owner]; exact h.issuer, ?_, version.symm, ?_,
    fun bytes g read counted => ?_⟩
  · rw [epoch, LockSnapshot.apply, LockSnapshot.apply, same]
    split
    · rfl
    · exact same.symm
  · rw [revoked, LockSnapshot.apply, LockSnapshot.apply, same]
    split
    · rfl
    · change lock.snapshot.revoked ∪ p.revoked = a.revoked ∪ p.revoked
      rw [h.revoked]
  · change (lock.snapshot.apply p).used g.credentialId = b.legacy.used g.credentialId
    rw [sup.legacy, LockSnapshot.used_apply, LockSnapshot.used_apply, same]
    split
    · rfl
    · exact h.used bytes g read counted

theorem Agrees.checkPolicy (h : lock.Agrees P a) (healthy : lock.poisoned = false)
    (sup : Supersedes P signed p a) : lock.checkPolicy P p signed = .ok () := by
  obtain ⟨key, issuer, read⟩ := sup.read
  obtain ⟨o, owner, _, rfl⟩ := issuerKey_owner issuer
  refine checkPolicy_eq_ok.2 ⟨healthy, sup.lock.trans h.lockId.symm, ?_, ?_, ?_⟩
  · rw [h.epoch]
    rcases sup.newer with later | ⟨same, _⟩
    · exact UInt64.not_lt.2 (UInt64.le_of_lt later)
    · rw [same]
      exact UInt64.lt_irrefl _
  · rintro ⟨same, old⟩
    rw [h.epoch] at same
    rw [h.policyVersion] at old
    rcases sup.newer with later | ⟨_, newer⟩
    · exact UInt64.ne_of_lt later same.symm
    · exact UInt64.not_lt.2 old newer
  · rw [h.key owner]
    exact read

/-- A policy that passes its checks is applied where the store takes it. -/
theorem applyPolicy_takes (checked : lock.checkPolicy P p signed = .ok ()) :
    TakesE (applyPolicy P p signed) lock [⟨.commit (lock.snapshot.apply p), .ok ()⟩] (.ok ())
      { lock with snapshot := lock.snapshot.apply p } := by
  rw [applyPolicy, takesE_get_bind, takesE_ofExcept_bind]
  refine .inl ⟨(), checked, ?_⟩
  rw [commit, takesE_ask_bind]
  exact ⟨.ok (), [], rfl, takesE_modify.2 ⟨rfl, rfl, rfl⟩⟩

end LockState

section Policies
variable {r : Record P f} {s s' : Lock P f} {c : Controller} {context : SessionContext}
  {cmd : Command} {signed : Bytes} {p : PolicyUpdate} {d : DeviceSnapshot}

theorem Superseded.alike (h : Superseded P signed p a b) (alike : Alike b d) :
    Superseded P signed p a d :=
  ⟨h.supersedes, alike.lockId.trans h.lockId, alike.owner.trans h.owner,
    alike.legacy.trans h.legacy⟩

theorem Alike.superseded (alike : Alike a b) (h : Superseded P signed p b d) :
    Superseded P signed p a d :=
  ⟨h.supersedes.congr alike.lockId.symm alike.owner.symm
    (congrArg LockSnapshot.epoch alike.legacy).symm
    (congrArg LockSnapshot.policyVersion alike.legacy).symm, h.lockId.trans alike.lockId,
    h.owner.trans alike.owner, by rw [h.legacy, alike.legacy]⟩

/-- A policy that has taken effect is not newer than itself. -/
theorem Superseded.once {p' : PolicyUpdate} (h : Superseded P signed p a b)
    (again : Supersedes P signed p' b) : False := by
  obtain ⟨key, issuer, read⟩ := h.supersedes.read
  obtain ⟨key', issuer', read'⟩ := again.read
  rw [issuerKey_congr h.owner] at issuer'
  cases issuer.symm.trans issuer'
  cases read.symm.trans read'
  rcases again.newer with later | ⟨_, newer⟩
  · rw [h.inForce.epoch] at later
    exact UInt64.lt_irrefl _ later
  · rw [h.inForce.version] at newer
    exact UInt64.lt_irrefl _ newer

/-- During a request to apply a policy the store holds the domain the call began with, or
the one the policy leads to. -/
structure Applying (P : Primitives) (f : FactoryIdentity) (c : Controller) (signed : Bytes)
    (s : Abs) : Prop where
  request : ∃ context cmd, s.request = some (context, cmd) ∧ cmd.action = .applyPolicy signed
  disk : ∃ d, s.disk = some d
    ∧ (Alike c.state d ∨ ∃ p, Superseded P signed p c.state d)

theorem Applying.step (h : Applying P f c signed s.1) (hs : s.1.Step P f ev s'.1) :
    Applying P f c signed s'.1 := by
  obtain ⟨context, cmd, request, action⟩ := h.request
  obtain ⟨d, found, domain⟩ := h.disk
  refine ⟨⟨context, cmd, (Frame.step hs).request.trans request, action⟩, ?_⟩
  rcases Lock.stored_cases hs with same | ⟨n, empty, _, _⟩ | ⟨m, n, before, stored, change⟩
  · exact ⟨d, same.trans found, domain⟩
  · cases found.symm.trans empty
  · cases found.symm.trans before
    refine ⟨n, stored, ?_⟩
    cases change with
    | kept alike =>
      rcases domain with earlier | ⟨p, sup⟩
      · exact .inl (earlier.trans alike)
      · exact .inr ⟨p, sup.alike alike⟩
    | applied context' cmd' signed' p request' action' sup =>
      cases request.symm.trans request'
      cases action.symm.trans action'
      rcases domain with alike | ⟨p', earlier⟩
      · exact .inr ⟨p, alike.superseded sup⟩
      · exact (earlier.once sup.supersedes).elim
    | cleared context' cmd' request' action' =>
      cases request.symm.trans request'
      rcases action' with action' | ⟨_, action'⟩
      · cases action.symm.trans action'
      · cases action.symm.trans action'
    | other context' cmd' request' action' =>
      cases request.symm.trans request'
      exact absurd action (action' signed)

/-- A request that has changed the policy state of the store has applied its policy. -/
theorem Follows.superseded (follows : Follows r s s') (found : r.before.controller = some c)
    (live : c.poisoned = false) (request : r.call.request (some c) = some (context, cmd))
    (action : cmd.action = .applyPolicy signed) (left : r.after.disk = some d)
    (enacts : Enacts c.state d) : ∃ p, Superseded P signed p c.state d := by
  have entered : Applying P f c signed (s.enter r.call r.before.controller).1 := by
    refine ⟨⟨context, cmd, ?_, action⟩, c.state, ?_, .inl (.refl _)⟩
    · change r.call.request r.before.controller = _
      rw [found]
      exact request
    · exact follows.before.disk.trans (follows.before.synced found live)
  have whole : Applying P f c signed s'.1 := Follows.along
    (I := fun _ t => Applying P f c signed t.1) (fun _ _ _ _ h hs => h.step hs) entered follows.path
  obtain ⟨e, he, domain⟩ := whole.disk
  cases (follows.after.disk.symm.trans he).symm.trans left
  exact domain.resolve_left fun alike => alike.not_enacts enacts

end Policies

section Unlocking
variable {r : Record P f} {s s' : Lock P f} {c : Controller} {context : SessionContext}
  {cmd : Command}

/-- The clock a call could use: none, or an interval in order that it has read. -/
def Usable (tr : List (Event Answer)) (now : Option ClockSample) : Prop :=
  ∀ r, now = some r → (⟨.wallClock, some r⟩ : Event Answer) ∈ tr ∧ r.lower ≤ r.upper

/-- The legacy lock, asked for its next use, authorizes an unlock at every clock with which
the device's own check of the window passes, and there is one. -/
def LockState.Concurs (P : Primitives) (lock : LockState) (context : SessionContext)
    (cmd : Command) (tr : List (Event Answer)) : Prop :=
  ∃ g, readGrant P lock.issuer cmd.credential = .ok g
    ∧ (∃ now, Usable tr now ∧ checkValidity g.validity now = .ok ())
    ∧ ∀ now, Usable tr now → checkValidity g.validity now = .ok () →
      ∃ authorization, lock.authorize P g cmd.credential context.peer now
        (g.maxUses.map fun _ => lock.snapshot.used g.credentialId) = .ok (.authorized authorization)

/-- The device's check of a window implies the legacy one. -/
private theorem checkWindow_of_validity {validity : Option Validity} {now : Option ClockSample}
    (ordered : ∀ r, now = some r → r.lower ≤ r.upper)
    (passes : checkValidity validity now = .ok ()) :
    LockState.checkWindow validity now = .ok () := by
  cases validity with
  | none => rfl
  | some v =>
    simp only [checkValidity, bind_eq_ok, okOr_eq_ok, failIf_eq_ok] at passes
    obtain ⟨clock, rfl, inside⟩ := passes
    have valid : clock.validate = .ok clock := if_neg (UInt64.not_lt.2 (ordered clock rfl))
    simp only [LockState.checkWindow, bind_eq_ok, okOr_eq_ok, failIf_eq_ok]
    exact ⟨clock, rfl, clock, valid, inside⟩

/-- A vouched unlock is one the agreeing legacy lock authorizes. -/
theorem LockState.Agrees.concurs {lock : LockState} (agrees : lock.Agrees P c.state)
    (healthy : lock.poisoned = false) {x : Accepted} {t : Abs} {tr : List (Event Answer)}
    (heeds : Heeds tr t) (vouched : Vouched P f c t.clocks x) (action : x.command.action = .unlock)
    (reserved : x.reserved = true) :
    lock.Concurs P x.context x.command tr := by
  obtain ⟨m, auth, authorized, use⟩ := vouched
  have grant := authorized.grant
  rw [checkGrant_congr auth, checkGrant_ok] at grant
  obtain ⟨o, granted⟩ := grant
  have read : readGrant P lock.issuer x.command.credential = .ok x.grant := by
    rw [agrees.key granted.owner]
    exact granted.read
  refine ⟨x.grant, read, ?_, fun now usable passes => ?_⟩
  · cases window : x.grant.validity with
    | none => exact ⟨none, fun _ h => (by cases h), rfl⟩
    | some v =>
      obtain ⟨r, hr, lower, upper⟩ := authorized.window v window
      refine ⟨some r, ?_, ?_⟩
      · rintro _ ⟨⟩
        exact heeds.clocks r hr
      · simp only [checkValidity, bind_eq_ok, okOr_eq_ok, failIf_eq_ok]
        exact ⟨r, rfl, by simp [lower, upper]⟩
  · have right := granted.right
    rw [action] at right
    have checked : lock.checkGrant P x.grant x.command.credential x.context.peer now rightsUnlock
        = .ok () := by
      refine LockState.checkGrant_eq_ok.2 ⟨healthy, granted.lock.trans agrees.lockId.symm,
        granted.epoch.trans agrees.epoch.symm, read, granted.subject, right, ?_,
        checkWindow_of_validity (fun r hr => (usable r hr).2) passes⟩
      rw [agrees.revoked]
      exact granted.current
    cases counted : x.grant.maxUses with
    | none =>
      refine ⟨if x.grant.validity.isSome then .timed else .longLived, ?_⟩
      simp only [LockState.authorize, LockState.authorizeWithRights, bind_eq_ok]
      refine ⟨(), checked, ?_⟩
      rw [if_neg (by decide), counted]
      rfl
    | some max =>
      have uses : m.usesOf x.grant.credentialId = c.state.usesOf x.grant.credentialId := by
        have uses : m.uses = c.state.uses := congrArg AuthState.uses auth
        rw [DeviceSnapshot.usesOf, DeviceSnapshot.usesOf, uses]
      have left : lock.snapshot.used x.grant.credentialId < max := by
        rw [agrees.used _ _ read (by rw [counted]; rfl), ← uses]
        exact (use reserved).limit max counted
      refine ⟨.counted (lock.snapshot.used x.grant.credentialId) max, ?_⟩
      exact LockState.authorizeWithRights_eq_counted.2
        ⟨checked, by decide, counted, rfl, left, rfl⟩

/-- An unlock drive is started for a vouched request to unlock. -/
theorem Follows.unlocked (follows : Follows r s s') (found : r.before.controller = some c)
    {pre post : List (Event Answer)} {id : ActuationId} {releaseMs : UInt32} {hold : Bool}
    {answer : Except Error Unit}
    (split : r.trace = pre ++ ⟨.startAction id .unlock releaseMs hold, answer⟩ :: post) :
    ∃ x t, r.call.request (some c) = some (x.context, x.command) ∧ x.command.action = .unlock
      ∧ x.reserved = true ∧ Heeds pre t ∧ Vouched P f c t.clocks x := by
  obtain ⟨t, t', path, hs, _, call, entry, _⟩ := follows.effect split
  have asked := t.2.asked
  have moves := t.2.moves hs
  generalize t'.1 = u at moves
  cases moves with
  | other _ _ driveless => cases driveless
  | start _ _ _ _ _ drive _ _ _ _ _ _ _ _ armed _ toward =>
    generalize accepted : t.1.progress = progress at armed asked
    cases armed with
    | relock _ _ target => cases target.symm.trans toward
    | manual x _ _ _ action =>
      have request : r.call.request (some c) = some (x.context, x.command) := by
        rw [← found, ← call, ← entry]
        exact asked
      have unlocks : x.command.action = .unlock ∧ x.reserved = true := by
        rcases action with ⟨unlock, reserved, _⟩ | ⟨_, target⟩
        · exact ⟨unlock, reserved⟩
        · cases target.symm.trans toward
      have guarded := follows.guarded found request path
      exact ⟨x, t.1, request, unlocks.1, unlocks.2, guarded.heeds, guarded.vouched accepted⟩

end Unlocking

/-- A migrated device has the legacy domain, and wherever a device and a healthy legacy lock
of the same issuer agree, the lock authorizes what the device unlocks for, takes the policies
the device applies, among them those it reports as completed, and agrees with the device again. -/
theorem migration_preserves_domain (run : Run P f) :
    (∀ r ∈ run.records, ∀ legacy issuer admin c,
      r.call = .construct (.migrateLegacy legacy issuer admin) → r.after.controller = some c →
      c.state.epoch = legacy.epoch ∧ c.state.policyVersion = legacy.policyVersion
        ∧ c.state.revoked = legacy.revoked ∧ c.state.uses = legacy.usage)
    ∧ ∀ r ∈ run.records, ∀ c lock, r.before.controller = some c → c.poisoned = false →
      lock.poisoned = false → lock.Agrees P c.state →
      (∀ pre post id releaseMs hold answer,
        r.trace = pre ++ ⟨.startAction id .unlock releaseMs hold, answer⟩ :: post →
        ∃ context cmd, r.call.request (some c) = some (context, cmd)
          ∧ cmd.action = .unlock ∧ lock.Concurs P context cmd pre)
      ∧ (∀ signed, r.Completes c signed → ∃ d, r.after.disk = some d ∧ Enacts c.state d)
      ∧ ∀ context cmd signed d, r.call.request (some c) = some (context, cmd) →
        cmd.action = .applyPolicy signed → r.after.disk = some d → Enacts c.state d →
        ∃ p lock', readPolicy P lock.issuer signed = .ok p
          ∧ TakesE (LockState.applyPolicy P p signed) lock
            [⟨.commit (lock.snapshot.apply p), .ok ()⟩] (.ok ()) lock'
          ∧ lock'.poisoned = false ∧ lock'.Agrees P d
          ∧ ∀ c', r.after.controller = some c' → c'.poisoned = false → lock'.Agrees P c'.state := by
  refine ⟨?_, ?_⟩
  · intro r hr legacy issuer admin c call built
    obtain ⟨s, s', follows⟩ := run.follows hr
    have same := follows.imported call built
    subst same
    exact ⟨rfl, rfl, rfl, rfl⟩
  · intro r hr c lock found live healthy agrees
    obtain ⟨s, s', follows⟩ := run.follows hr
    refine ⟨?_, ?_, ?_⟩
    · intro pre post id releaseMs hold answer split
      obtain ⟨x, t, request, action, reserved, heeds, vouched⟩ := follows.unlocked found split
      exact ⟨x.context, x.command, request, action,
        agrees.concurs healthy heeds vouched action reserved⟩
    · intro signed completes
      obtain ⟨p, d, left, force⟩ := follows.inForce found completes
      exact ⟨d, left, force.enacts⟩
    · intro context cmd signed d request action left enacts
      obtain ⟨p, superseded⟩ := follows.superseded found live request action left enacts
      have checked := agrees.checkPolicy healthy superseded.supersedes
      have again := agrees.superseded superseded
      refine ⟨p, { lock with snapshot := lock.snapshot.apply p },
        (LockState.checkPolicy_eq_ok.1 checked).2.2.2.2, LockState.applyPolicy_takes checked,
        healthy, again, fun c' left' live' => ?_⟩
      cases (follows.after.synced left' live').symm.trans left
      exact again

namespace Enforcing

/-- The calls that took the device over and unlocked it, and the legacy lock it replaced. -/
def importing : Record primitives Bench.factory := life.records.get ⟨0, by rw [life_three]; decide⟩

def unlocking : Record primitives Bench.factory := life.records.get ⟨2, by rw [life_three]; decide⟩

def replaced : LockState := .new Bench.lockId ⟨Bench.key⟩

/-- The replaced lock takes the policy that the device applies, and would then authorize the
unlock of the device. -/
theorem replaced_keeps_up : ∃ p lock' context cmd,
    TakesE (LockState.applyPolicy primitives p [2, 9]) replaced
      [⟨.commit (replaced.snapshot.apply p), .ok ()⟩] (.ok ()) lock'
    ∧ lock'.Concurs primitives context cmd (unlocking.trace.take 11) := by
  have started : unlocking.trace[11]? = some ⟨.startAction ⟨1, 4⟩ .unlock 500 false, .ok ()⟩ := by
    decide +kernel
  have identity : (applying.before.controller.map fun c =>
      (c.poisoned, c.state.lockId, c.state.owner.map Owner.issuer))
      = some (false, Bench.lockId, some Bench.key) := by decide +kernel
  have alive : (unlocking.before.controller.map Controller.poisoned) = some false := by
    decide +kernel
  obtain ⟨c, found, completes⟩ := applying_completes
  obtain ⟨c', left, live'⟩ := Option.map_eq_some_iff.1 alive
  rw [found] at identity
  obtain ⟨live, lockId, owner⟩ : c.poisoned = false ∧ c.state.lockId = Bench.lockId
      ∧ c.state.owner.map Owner.issuer = some Bench.key := by simpa using identity
  have preserved := migration_preserves_domain life
  obtain ⟨epoch, version, revoked, uses⟩ :=
    preserved.1 importing (List.get_mem _ _) .new ⟨Bench.key⟩ Bench.peer c rfl found
  have agrees : replaced.Agrees primitives c.state := by
    refine ⟨lockId.symm, owner, epoch.symm, version.symm, revoked.symm, fun _ g _ _ => ?_⟩
    rw [DeviceSnapshot.usesOf, uses]
    rfl
  obtain ⟨_, enacts, applies⟩ :=
    preserved.2 applying (List.get_mem _ _) c replaced found live rfl agrees
  obtain ⟨d, stored, changed⟩ := enacts _ completes
  obtain ⟨p, lock', _, takes, healthy, _, again⟩ := applies _ _ _ d rfl rfl stored changed
  obtain ⟨context, cmd, _, _, concurs⟩ := (preserved.2 unlocking (List.get_mem _ _) c' lock' left
    live' healthy (again c' left live')).1 _ _ _ _ _ _ (trace_split started)
  exact ⟨p, lock', context, cmd, takes, concurs⟩

end Enforcing
end OpenLock
