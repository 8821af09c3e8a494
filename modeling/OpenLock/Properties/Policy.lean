import OpenLock.Device.Scripted
import OpenLock.Legacy.Steps
import OpenLock.Properties.Refusal
import OpenLock.Properties.Store
import OpenLock.Refinement.Policy

/-! Revocation is permanent within an epoch: policies only replace older ones, a completed
request has put its policy in force, the revoked set keeps every id such a policy lists, and a
revoked grant is refused. -/
namespace OpenLock
open Controller Effects

variable {P : Primitives} {f : FactoryIdentity} {a b m n : DeviceSnapshot} {signed : Bytes}
  {p : PolicyUpdate} {context : SessionContext} {w : AuthState} {cmd : Command}

/-- The pairs of epoch and policy version, in lexicographic order. -/
def PolicyLe (a b : DeviceSnapshot) : Prop :=
  a.epoch < b.epoch ∨ (a.epoch = b.epoch ∧ a.policyVersion ≤ b.policyVersion)

def PolicyLt (a b : DeviceSnapshot) : Prop :=
  a.epoch < b.epoch ∨ (a.epoch = b.epoch ∧ a.policyVersion < b.policyVersion)

/-- The policy state changes. -/
def Enacts (a n : DeviceSnapshot) : Prop :=
  n.epoch ≠ a.epoch ∨ n.policyVersion ≠ a.policyVersion ∨ n.revoked ≠ a.revoked

/-- The effect makes durable what a request to apply this signed policy changes. -/
def Applies (P : Primitives) (q : Moment) (a n : DeviceSnapshot) (p : PolicyUpdate) : Prop :=
  ∃ signed key, q.Requests (· = .applyPolicy signed) ∧ issuerKey P a = .ok key
    ∧ readPolicy P key signed = .ok p ∧ Enacts a n

theorem Advances.policyLe (h : Advances a b) : PolicyLe a b := by
  by_cases same : b.epoch = a.epoch
  · exact .inr ⟨same.symm, h.policy same⟩
  · exact .inl (UInt64.lt_of_le_of_ne h.epoch (Ne.symm same))

theorem InForce.policyLt (h : InForce P signed p m n) : PolicyLt m n := by
  rw [PolicyLt, h.epoch, h.version]
  exact h.newer.imp_right fun ⟨same, newer⟩ => ⟨same.symm, newer⟩

theorem InForce.enacts (h : InForce P signed p m n) : Enacts m n := by
  rw [Enacts, h.epoch, h.version]
  rcases h.newer with later | ⟨_, newer⟩
  · exact .inl (UInt64.ne_of_lt later).symm
  · exact .inr (.inl (UInt64.ne_of_lt newer).symm)

/-- The part of a snapshot that a legacy lock keeps. -/
def DeviceSnapshot.legacy (s : DeviceSnapshot) : LockSnapshot :=
  ⟨s.epoch, s.policyVersion, s.revoked, s.uses⟩

/-- The lock, its owner and its legacy domain are the same. -/
structure Alike (a b : DeviceSnapshot) : Prop where
  lockId : b.lockId = a.lockId
  owner : b.owner = a.owner
  legacy : b.legacy = a.legacy

/-- A policy has replaced the one in force, in the way of the legacy lock. -/
structure Superseded (P : Primitives) (signed : Bytes) (p : PolicyUpdate) (a b : DeviceSnapshot) :
    Prop where
  supersedes : Supersedes P signed p a
  lockId : b.lockId = a.lockId
  owner : b.owner = a.owner
  legacy : b.legacy = a.legacy.apply p

namespace Alike

theorem refl (a : DeviceSnapshot) : Alike a a := ⟨rfl, rfl, rfl⟩

theorem trans {c : DeviceSnapshot} (h : Alike a b) (h' : Alike b c) : Alike a c :=
  ⟨h'.lockId.trans h.lockId, h'.owner.trans h.owner, h'.legacy.trans h.legacy⟩

/-- Authorization states that differ elsewhere only. -/
theorem of_auth (auth : b.auth = w) (lockId : w.lockId = a.lockId) (owner : w.owner = a.owner)
    (epoch : w.epoch = a.epoch) (version : w.policyVersion = a.policyVersion)
    (revoked : w.revoked = a.revoked) (uses : w.uses = a.uses) : Alike a b := by
  subst auth
  refine ⟨lockId, owner, ?_⟩
  change LockSnapshot.mk b.auth.epoch b.auth.policyVersion b.auth.revoked b.auth.uses = _
  rw [epoch, version, revoked, uses]
  rfl

theorem not_enacts (h : Alike a b) : ¬ Enacts a b := by
  rintro (epoch | version | revoked)
  · exact epoch (congrArg LockSnapshot.epoch h.legacy)
  · exact version (congrArg LockSnapshot.policyVersion h.legacy)
  · exact revoked (congrArg LockSnapshot.revoked h.legacy)

end Alike

theorem Superseded.inForce (h : Superseded P signed p a b) : InForce P signed p a b := by
  refine ⟨h.supersedes, ?_, congrArg LockSnapshot.policyVersion h.legacy, fun id listed => ?_⟩
  · refine (congrArg LockSnapshot.epoch h.legacy).trans (LockSnapshot.epoch_apply ?_)
    rcases h.supersedes.newer with later | ⟨same, _⟩
    · exact UInt64.not_lt.2 (UInt64.le_of_lt later)
    · rw [same]
      exact UInt64.lt_irrefl _
  · have revoked : b.revoked = (a.legacy.apply p).revoked := congrArg LockSnapshot.revoked h.legacy
    rw [revoked]
    exact LockSnapshot.mem_revoked_apply.2 (.inr listed)

/-- How a change may treat the domain, by the request it is made for. A claim or a counted
unlock leaves the policy alone, but not the rest of the domain. -/
inductive Change.Policy (P : Primitives) (request : Option (SessionContext × Command))
    (m n : DeviceSnapshot) : Prop
  | kept (alike : Alike m n)
  | applied (context : SessionContext) (cmd : Command) (signed : Bytes) (p : PolicyUpdate)
      (asked : request = some (context, cmd)) (action : cmd.action = .applyPolicy signed)
      (superseded : Superseded P signed p m n)
  | cleared (context : SessionContext) (cmd : Command) (asked : request = some (context, cmd))
      (action : cmd.action = .factoryReset ∨ ∃ issuer, cmd.action = .replaceIssuer issuer)
      (epoch : m.epoch < n.epoch)
  | other (context : SessionContext) (cmd : Command) (asked : request = some (context, cmd))
      (action : ∀ signed, cmd.action ≠ .applyPolicy signed) (same : ¬ Enacts m n)

section Cases
variable {s : Abs} {pr : Progress} {ow : Option Active} {x : Accepted}

private theorem not_enacts_of_auth (auth : n.auth = w) (epoch : w.epoch = m.epoch)
    (version : w.policyVersion = m.policyVersion) (revoked : w.revoked = m.revoked) :
    ¬ Enacts m n := by
  subst auth
  rintro (changed | changed | changed)
  · exact changed epoch
  · exact changed version
  · exact changed revoked

private theorem Acceptance.policy {clocks : List ClockSample} {owned : Option Active}
    (asked : s.request = some (x.context, x.command)) (h : Acceptance P f clocks owned x m n) :
    Change.Policy P s.request m n := by
  cases reserved : x.reserved with
  | true =>
    refine .other x.context x.command asked (fun signed => ?_) (not_enacts_of_auth h.auth rfl rfl rfl)
    rw [(h.reserved reserved).1]
    simp
  | false =>
    refine .kept (.of_auth h.auth rfl rfl rfl rfl rfl ?_)
    rw [Accepted.auth, reserved]
    rfl

private theorem Effected.policy_cases (h : Effected P f m x n.auth)
    (asked : s.request = some (x.context, x.command)) : Change.Policy P s.request m n := by
  generalize hn : n.auth = w at h
  cases h with
  | config | firmware | rotate => exact .kept (.of_auth hn rfl rfl rfl rfl rfl rfl)
  | policy signed p key action issuer read lock same newer fits =>
    refine .applied x.context x.command signed p asked action
      ⟨⟨⟨key, issuer, read⟩, lock, .inr ⟨same, newer⟩⟩, congrArg AuthState.lockId hn,
        congrArg AuthState.owner hn, ?_⟩
    have current : ¬ p.epoch > m.legacy.epoch := by
      rw [same]
      exact UInt64.lt_irrefl _
    rw [LockSnapshot.apply, if_neg current]
    change LockSnapshot.mk n.auth.epoch n.auth.policyVersion n.auth.revoked n.auth.uses = _
    rw [hn]
    rfl

private theorem DomainChange.policy {entry : Controller} {now : UInt64}
    (h : DomainChange P f entry now context cmd m n) (asked : s.request = some (context, cmd)) :
    Change.Policy P s.request m n := by
  have grows := h.advances.1
  cases h with
  | reset action => exact .cleared context cmd asked (.inl action) grows
  | replace issuer action => exact .cleared context cmd asked (.inr ⟨issuer, action⟩) grows
  | epoch signed p key action issuer read lock newer _ _ auth =>
    refine .applied context cmd signed p asked action
      ⟨⟨⟨key, issuer, read⟩, lock, .inl newer⟩, congrArg AuthState.lockId auth,
        congrArg AuthState.owner auth, ?_⟩
    have later : p.epoch > m.legacy.epoch := newer
    rw [LockSnapshot.apply, if_pos later]
    change LockSnapshot.mk n.auth.epoch n.auth.policyVersion n.auth.revoked n.auth.uses = _
    rw [auth]
    rfl

theorem Change.policy (h : Change P f s m n pr ow)
    (accepted : ∀ x, s.progress = .accepted x → s.request = some (x.context, x.command)) :
    Change.Policy P s.request m n := by
  cases h with
  | upkeep h => exact .kept (.of_auth h.auth rfl rfl rfl rfl rfl rfl)
  | clock _ _ _ _ _ _ h => exact .kept (.of_auth h.auth rfl rfl rfl rfl rfl rfl)
  | trialEnded _ _ _ _ _ auth => exact .kept (.of_auth auth rfl rfl rfl rfl rfl rfl)
  | accept _ _ _ asked h => exact h.policy asked
  | effect x _ working auth => exact auth.policy_cases (accepted x working)
  | domain _ _ _ _ _ _ _ _ asked _ _ _ _ h => exact h.policy asked
  | claim _ _ context cmd _ _ _ _ _ _ asked _ _ h =>
    refine .other context cmd asked (fun signed => ?_) (not_enacts_of_auth h.auth rfl rfl rfl)
    rw [h.action]
    simp

end Cases

section Runs
variable {pre post : List Moment} {q : Moment} {r : Record P f} {c : Controller}

theorem Run.policy (run : Run P f) (split : run.moments = pre ++ q :: post)
    (disk : q.disk = some a) (stores : q.Stores n) : Change.Policy P q.request a n := by
  obtain ⟨s, pr, ow, durable⟩ := run.stored split disk stores
  rw [← durable.request]
  exact durable.change.policy durable.accepted

/-- Whatever changes the policy state applies a policy or opens a new domain. -/
theorem Run.enacts (run : Run P f) (split : run.moments = pre ++ q :: post)
    (disk : q.disk = some a) (stores : q.Stores n) (enacts : Enacts a n) :
    (∃ p, Applies P q a n p) ∨ (a.epoch < n.epoch ∧ q.Requests fun action =>
      action = .factoryReset ∨ ∃ issuer, action = .replaceIssuer issuer) := by
  cases run.policy split disk stores with
  | kept alike => exact absurd enacts alike.not_enacts
  | other _ _ _ _ same => exact absurd enacts same
  | cleared context cmd asked action epoch => exact .inr ⟨epoch, context, cmd, asked, action⟩
  | applied context cmd signed p asked action superseded =>
    obtain ⟨key, issuer, read⟩ := superseded.supersedes.read
    exact .inl ⟨p, signed, key, ⟨context, cmd, asked, action⟩, issuer, read, enacts⟩

/-- An applied policy is in force. -/
theorem Run.applied (run : Run P f) (split : run.moments = pre ++ q :: post)
    (disk : q.disk = some a) (stores : q.Stores n) (applies : Applies P q a n p) :
    ∃ signed, InForce P signed p a n := by
  obtain ⟨signed, key, ⟨context, cmd, asked, wanted⟩, issuer, read, enacts⟩ := applies
  cases run.policy split disk stores with
  | kept alike => exact absurd enacts alike.not_enacts
  | other _ _ _ _ same => exact absurd enacts same
  | cleared _ _ asked' action =>
    cases asked.symm.trans asked'
    rcases action with action | ⟨_, action⟩
    · cases action.symm.trans wanted
    · cases action.symm.trans wanted
  | applied _ _ _ p' asked' action superseded =>
    cases asked.symm.trans asked'
    cases action.symm.trans wanted
    obtain ⟨key', issuer', read'⟩ := superseded.supersedes.read
    cases issuer'.symm.trans issuer
    cases read'.symm.trans read
    exact ⟨signed, superseded.inForce⟩

/-- What a policy in force lists stays revoked for its epoch. -/
theorem Run.stays_revoked (run : Run P f) {later : List Moment}
    (split : run.moments = pre ++ later ++ post) (stored : storeAfter pre = some n)
    (force : InForce P signed p m n) : ∃ b, storeAfter (pre ++ later) = some b
      ∧ (b.epoch = p.epoch → ∀ id ∈ p.revoked, id ∈ b.revoked) := by
  obtain ⟨b, hb, advances⟩ := run.advances split stored
  exact ⟨b, hb, fun same id listed =>
    advances.revoked (same.trans force.epoch.symm) id (force.listed id listed)⟩

/-- A completed request found what its controller held in the store, and left its policy there. -/
theorem Run.completed (run : Run P f) (hr : r ∈ run.records) (found : r.before.controller = some c)
    (completes : r.Completes c signed) :
    c.poisoned = false ∧ r.before.disk = some c.state
      ∧ ∃ p d, r.after.disk = some d ∧ InForce P signed p c.state d := by
  obtain ⟨s, s', follows⟩ := run.follows hr
  have live : c.poisoned = false := by
    obtain ⟨context, cmd, _, _, request, _, _, output, _⟩ := completes
    by_contra poisoned
    have failed := (r.poisoned_refused (.inl request) found (by simpa using poisoned)).failed _ output
    cases failed
  exact ⟨live, follows.before.synced found live, follows.inForce found completes⟩

/-- A revoked grant is refused, and so is every call on a poisoned controller. -/
theorem Run.revoked_refused (run : Run P f) (hr : r ∈ run.records) {d : DeviceSnapshot}
    (found : r.before.controller = some c) (disk : r.before.disk = some d)
    (asks : r.call.Asks c context cmd) {o : Owner} {g : Grant} (owner : d.owner = some o)
    (read : readGrant P ⟨o.issuer⟩ cmd.credential = .ok g) (revoked : g.credentialId ∈ d.revoked) :
    Refused r c := by
  refine run.shut hr asks found ?_
  intro s s' _ synced pre post t _ _ admits
  cases disk.symm.trans synced
  obtain ⟨g', granted, _⟩ := admits.granted owner
  cases read.symm.trans granted.read
  exact granted.current revoked

end Runs

/-- Revocation is permanent within an epoch. -/
structure RevocationPermanent (run : Run P f) : Prop where
  /-- The pair of epoch and version never falls, and the revoked set of an epoch only grows. -/
  monotone : ∀ pre mid post, run.moments = pre ++ mid ++ post → ∀ a, storeAfter pre = some a →
    ∃ b, storeAfter (pre ++ mid) = some b ∧ PolicyLe a b
      ∧ (b.epoch = a.epoch → ∀ id ∈ a.revoked, id ∈ b.revoked)
  /-- Only a policy, a reset or a new issuer changes the policy state. -/
  enacted : ∀ pre q post, run.moments = pre ++ q :: post → ∀ a n, q.disk = some a → q.Stores n →
    Enacts a n → (∃ p, Applies P q a n p) ∨ (a.epoch < n.epoch ∧ q.Requests fun action =>
      action = .factoryReset ∨ ∃ issuer, action = .replaceIssuer issuer)
  /-- A policy that takes effect raises the pair, and what it lists stays revoked. -/
  applied : ∀ pre q post, run.moments = pre ++ q :: post → ∀ a n, q.disk = some a → q.Stores n →
    ∀ p, Applies P q a n p → PolicyLt a n ∧ n.epoch = p.epoch ∧ n.policyVersion = p.version
      ∧ ∀ later rest, post = later ++ rest → ∃ b, storeAfter (pre ++ q :: later) = some b
        ∧ (b.epoch = p.epoch → ∀ id ∈ p.revoked, id ∈ b.revoked)
  /-- A request answered as completed has put its policy in force, and it stays so. -/
  completed : ∀ rs r rest, run.records = rs ++ r :: rest → ∀ c signed,
    r.before.controller = some c → r.Completes c signed → ∃ a p d, r.before.disk = some a
      ∧ r.after.disk = some d ∧ InForce P signed p a d ∧ PolicyLt a d
      ∧ ∀ later more, rest.flatMap Record.moments = later ++ more →
        ∃ b, storeAfter ((rs ++ [r]).flatMap Record.moments ++ later) = some b
          ∧ (b.epoch = p.epoch → ∀ id ∈ p.revoked, id ∈ b.revoked)
  /-- Nothing is done or answered under a revoked grant. -/
  refused : ∀ r ∈ run.records, ∀ c d, r.before.controller = some c → r.before.disk = some d →
    ∀ context cmd, r.call.Asks c context cmd → ∀ o g, d.owner = some o →
    readGrant P ⟨o.issuer⟩ cmd.credential = .ok g → g.credentialId ∈ d.revoked → Refused r c

theorem revocation_permanent (run : Run P f) : RevocationPermanent run where
  monotone pre mid post split a ha := by
    obtain ⟨b, hb, advances⟩ := run.advances split ha
    exact ⟨b, hb, advances.policyLe, advances.revoked⟩
  enacted pre q post split a n disk stores := run.enacts split disk stores
  applied pre q post split a n disk stores p applies := by
    obtain ⟨signed, force⟩ := run.applied split disk stores applies
    refine ⟨force.policyLt, force.epoch, force.version, fun later rest tail => ?_⟩
    have order : run.moments = (pre ++ [q]) ++ later ++ rest := by
      rw [split, tail]
      simp
    simpa using run.stays_revoked order (stores.storeAfter pre) force
  completed rs r rest split c signed found completes := by
    have hr : r ∈ run.records := by
      rw [split]
      exact List.mem_append_right _ List.mem_cons_self
    obtain ⟨_, before, p, d, after, force⟩ := run.completed hr found completes
    refine ⟨c.state, p, d, before, after, force, force.policyLt, fun later more tail => ?_⟩
    obtain ⟨order, stored⟩ := run.after_disk split
    rw [tail, ← List.append_assoc] at order
    exact run.stays_revoked order (stored.trans after) force
  refused r hr c d found disk context cmd asks o g owner read revoked :=
    run.revoked_refused hr found disk asks owner read revoked

namespace Enforcing
/-! The bench lock, whose codec also knows a policy that revokes credential 1. -/

def policy : PolicyUpdate := ⟨Bench.lockId, 0, 1, Std.ExtTreeSet.ofList [Bench.credentialId 1]⟩

def primitives : Primitives := Bench.signing (policyValue policy)

/-- A device that applies the policy and then unlocks. -/
def life : Run primitives Bench.factory :=
  (Bench.imported.then (Bench.steady 1) (Bench.send 1 (some 1) (.applyPolicy [2, 9]))).then
    (Bench.steady 1) (Bench.send 1 (some 2) .unlock)

theorem life_three : life.records.length = 3 := by decide +kernel

/-- The call that applied the policy. -/
def applying : Record primitives Bench.factory := life.records.get ⟨1, by rw [life_three]; decide⟩

theorem life_split : life.records = life.records.take 1 ++ applying :: life.records.drop 2 :=
  trace_split (List.getElem?_eq_getElem _)

theorem applying_completes : ∃ c, applying.before.controller = some c
    ∧ applying.Completes c [2, 9] := by
  have answered : applying.output = some (.response ⟨2, .ok (.operation
      ⟨Bench.credentialId 0, 1, 2, .completed, .none, 0⟩)⟩) := by decide +kernel
  have unused : (applying.before.controller.any fun c => c.state.owner.any fun o =>
      (readGrant primitives ⟨o.issuer⟩ [2, 0]).toOption.any fun g =>
        c.state.watermark g.credentialId < 1) = true := by decide +kernel
  obtain ⟨c, found, unused⟩ := (Option.any_eq_true _ _).1 unused
  obtain ⟨o, owner, unused⟩ := (Option.any_eq_true _ _).1 unused
  obtain ⟨g, read, above⟩ := (Option.any_eq_true _ _).1 unused
  refine ⟨c, found, _, _, _, _, rfl, rfl, ⟨o, g, 1, owner, ?_, rfl, of_decide_eq_true above⟩,
    answered, rfl⟩
  generalize readGrant primitives ⟨o.issuer⟩ [2, 0] = result at read
  cases result with
  | ok _ => cases read; rfl
  | error => cases read

end Enforcing

/-- The policy of the enforcing device is in force after its request. -/
theorem revocation_permanent_enforcing : ∃ a p d, Enforcing.applying.before.disk = some a
    ∧ Enforcing.applying.after.disk = some d ∧ InForce Enforcing.primitives [2, 9] p a d
    ∧ PolicyLt a d := by
  obtain ⟨c, found, completes⟩ := Enforcing.applying_completes
  obtain ⟨a, p, d, before, after, force, newer, _⟩ :=
    (revocation_permanent Enforcing.life).completed _ _ _ Enforcing.life_split c _ found completes
  exact ⟨a, p, d, before, after, force, newer⟩

end OpenLock
