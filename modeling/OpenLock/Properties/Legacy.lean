import OpenLock.Legacy.Steps
import OpenLock.Properties.Signatures

/-! The legacy lock over whole runs: counted grants and the actuator, retried uses, and
decisions that are consumed after the policy has changed. -/
namespace OpenLock
open Effects LockState
variable {r : LockRecord} {lock' : LockState} {useNumber : Option UInt32} {update : PolicyUpdate}
  {P : Primitives}

def LockEffect.isActuator : LockEffect → Bool
  | .actuator => true
  | .commit _ => false

/-- A call that leaves no decision to its caller. -/
def LockCall.whole : LockCall → Bool
  | .applyPolicy _ _ | .authorizeAndConsume _ _ _ _ _ => true
  | .authorize _ _ _ _ _ _ | .consume _ _ => false

namespace LockRecord

/-- The use number under which a call invoked the actuator for a grant. -/
def invocation (g : Grant) (r : LockRecord) : Option (Option UInt32) :=
  match r.call with
  | .authorizeAndConsume grant _ _ _ useNumber =>
    if grant = g ∧ r.trace.any (·.effect.isActuator) then some useNumber else none
  | _ => none

end LockRecord

/-- The use numbers under which the actuator was invoked for a grant, in order. -/
def invocations (g : Grant) (records : List LockRecord) : List (Option UInt32) :=
  records.filterMap (·.invocation g)

/-- The use numbers 0, 1, 2, … below a bound. -/
def useNumbers (k : Nat) : List (Option UInt32) := (List.range k).map fun n => some (UInt32.ofNat n)

section Counting
variable {P : Primitives} {g : Grant} {m : UInt32} {records : List LockRecord} {lock : LockState}
  {authorization : Authorization} {now : Option ClockSample} {signature : Bytes} {peer : SubjectKey}

theorem invocations_snoc (r : LockRecord) :
    invocations g (records ++ [r]) = invocations g records ++ (r.invocation g).toList := by
  rw [invocations, List.filterMap_append]
  cases found : r.invocation g <;> simp [invocations, found]

/-- The recorded uses are the invocations so far, while the epoch is the grant's. -/
def InStep (g : Grant) (m : UInt32) (records : List LockRecord) (lock : LockState) : Prop :=
  ∃ k ≤ m.toNat, invocations g records = useNumbers k
    ∧ (lock.snapshot.epoch < g.epoch → k = 0)
    ∧ (lock.snapshot.epoch = g.epoch → (lock.snapshot.used g.credentialId).toNat = k)

theorem inStep_new (lockId : LockId) (issuer : VerifyingKey) : InStep g m [] (.new lockId issuer) := by
  refine ⟨0, Nat.zero_le _, rfl, fun _ => rfl, fun _ => ?_⟩
  simp [new, LockSnapshot.new, LockSnapshot.used]

/-- A call that does not invoke the actuator for the grant and keeps epoch and uses. -/
private theorem InStep.still (h : InStep g m records lock) (silent : r.invocation g = none)
    (epoch : lock'.snapshot.epoch = lock.snapshot.epoch)
    (used : lock'.snapshot.used g.credentialId = lock.snapshot.used g.credentialId) :
    InStep g m (records ++ [r]) lock' := by
  obtain ⟨k, bound, sequence, before, within⟩ := h
  refine ⟨k, bound, by rw [invocations_snoc, silent]; simpa using sequence, ?_, ?_⟩
  · rwa [epoch]
  · rwa [epoch, used]

/-- A policy starts the count afresh or leaves it alone. -/
private theorem InStep.policy (h : InStep g m records lock) (silent : r.invocation g = none)
    (forward : ¬ update.epoch < lock.snapshot.epoch)
    (applied : lock'.snapshot = lock.snapshot.apply update) :
    InStep g m (records ++ [r]) lock' := by
  obtain ⟨k, bound, sequence, before, within⟩ := h
  refine ⟨k, bound, by rw [invocations_snoc, silent]; simpa using sequence, ?_, ?_⟩
  · rw [applied, LockSnapshot.epoch_apply forward]
    intro early
    exact before (UInt64.lt_of_le_of_lt (UInt64.not_lt.1 forward) early)
  · rw [applied, LockSnapshot.epoch_apply forward, LockSnapshot.used_apply]
    intro current
    split
    · rename_i later
      rw [before (current ▸ later)]
      rfl
    · rename_i same
      exact within (current ▸ UInt64.le_antisymm (UInt64.not_lt.1 forward) (UInt64.not_lt.1 same))

/-- A counted invocation is for the recorded use. -/
private theorem InStep.counts (h : InStep g m records lock)
    (epoch : g.epoch = lock.snapshot.epoch) (left : lock.snapshot.used g.credentialId < m)
    (invoked : r.invocation g = some (some (lock.snapshot.used g.credentialId)))
    (counted : lock'.snapshot
      = lock.snapshot.count g.credentialId (lock.snapshot.used g.credentialId)) :
    InStep g m (records ++ [r]) lock' := by
  obtain ⟨k, bound, sequence, _, within⟩ := h
  have current := within epoch.symm
  have below : k < m.toNat := by
    rw [← current]
    exact UInt32.lt_iff_toNat_lt.1 left
  refine ⟨k + 1, below, ?_, ?_, fun _ => ?_⟩
  · rw [invocations_snoc, invoked, sequence, useNumbers, useNumbers, List.range_succ, List.map_append]
    simp [← current]
  · rw [counted]
    intro early
    exact absurd early (by rw [epoch]; exact UInt64.lt_irrefl _)
  · rw [counted, LockSnapshot.used_count_self, UInt32.toNat_add, current]
    have := m.toNat_lt
    exact Nat.mod_eq_of_lt (by simp; omega)

/-- What a counted invocation rests on. -/
private theorem counted_facts {grant : Grant} {next : LockSnapshot}
    (made : lock.authorize P grant signature peer now useNumber = .ok (.authorized authorization))
    (checked : lock.nextUse grant (.authorized authorization) = .ok (some next)) :
    grant.epoch = lock.snapshot.epoch
      ∧ useNumber = some (lock.snapshot.used grant.credentialId)
      ∧ (∃ max, grant.maxUses = some max ∧ lock.snapshot.used grant.credentialId < max)
      ∧ next = lock.snapshot.count grant.credentialId (lock.snapshot.used grant.credentialId) := by
  rcases (nextUse_eq_ok.1 checked).2 with ⟨used, max, same, limit, rfl, left, answer⟩ | ⟨_, answer⟩
  · cases same
    cases answer
    obtain ⟨passed, _, _, _, _, asked⟩ := authorizeWithRights_eq_counted.1 made
    obtain ⟨_, _, epoch, _⟩ := checkGrant_eq_ok.1 passed
    exact ⟨epoch, asked, ⟨max, limit, left⟩, rfl⟩
  · cases answer

/-- An authorized counted grant is never spared. -/
private theorem counted_not_spared (limit : g.maxUses = some m)
    (made : lock.authorize P g signature peer now useNumber = .ok (.authorized authorization))
    (checked : lock.nextUse g (.authorized authorization) = .ok none) : False := by
  obtain ⟨_, _, sequence, _, ⟨_, same⟩ | ⟨_, same⟩⟩ :=
    (authorizeWithRights_counting (by decide) limit).1 made
  · cases same
  · rcases (nextUse_eq_ok.1 checked).2 with ⟨_, _, _, _, _, _, answer⟩ | ⟨other, _⟩
    · cases answer
    · exact other _ _ same

private theorem inStep_step (limit : g.maxUses = some m)
    (unshared : ∀ g', r.call.grant = some g' → g'.credentialId = g.credentialId → g' = g)
    (whole : r.call.whole = true) (h : InStep g m records r.before)
    (moves : Moves P r.before r.call r.trace r.result r.after) :
    InStep g m (records ++ [r]) r.after := by
  obtain ⟨before, call, trace, result, after⟩ := r
  change Moves P before call trace result after at moves
  cases moves with
  | refused =>
    refine h.still ?_ rfl rfl
    cases call <;> simp [LockRecord.invocation]
  | failed =>
    refine h.still ?_ rfl rfl
    cases call <;> simp [LockRecord.invocation, LockEffect.isActuator]
  | policy checked =>
    obtain ⟨_, _, forward, _⟩ := checkPolicy_eq_ok.1 checked
    exact h.policy rfl forward rfl
  | decided => exact h.still rfl rfl rfl
  | spared => exact h.still rfl rfl rfl
  | consumed => cases whole
  | @actuated grant _ _ _ _ _ made checked =>
    refine h.still ?_ rfl rfl
    by_cases same : grant = g
    · subst same
      exact (counted_not_spared limit made checked).elim
    · simp [LockRecord.invocation, same]
  | @counted grant _ _ _ _ _ _ made checked =>
    obtain ⟨epoch, asked, ⟨max, most, left⟩, rfl⟩ := counted_facts made checked
    by_cases same : grant = g
    · subst same
      cases limit.symm.trans most
      exact h.counts epoch left (by simp [LockRecord.invocation, LockEffect.isActuator, asked]) rfl
    · refine h.still (by simp [LockRecord.invocation, same]) rfl ?_
      exact LockSnapshot.used_count_of_ne fun shared => same (unshared grant rfl shared.symm)

end Counting

/-- The actuator is invoked for the uses of a grant in order and at most to its limit, each
time right after a commit that counts the use. -/
structure BoundedUse (g : Grant) (m : UInt32) (records : List LockRecord) : Prop where
  sequence : ∃ k ≤ m.toNat, invocations g records = useNumbers k
  committed : ∀ r ∈ records, ∀ useNumber, r.invocation g = some useNumber →
    r.before.snapshot.epoch = g.epoch ∧ ∃ n next answer, useNumber = some n
      ∧ r.trace = [⟨.commit next, .ok ()⟩, ⟨.actuator, answer⟩]
      ∧ (next.used g.credentialId).toNat = n.toNat + 1

/-- A failed commit ends its call, and no later call has an effect or a decision. -/
structure Disabled (P : Primitives) (r : LockRecord) (post : List LockRecord) (lock : LockState) :
    Prop where
  unactuated : ∀ ev ∈ r.trace, ev.effect.isActuator = false
  later : ∀ q ∈ post, q.trace = [] ∧ q.result = .error .storageUnavailable
  undecided : ∀ grant signature subjectKey now requestedUse requiredRights,
    lock.authorizeWithRights P grant signature subjectKey now requestedUse requiredRights
      = .error .storageUnavailable

private theorem committed_of_moves {g : Grant} {m : UInt32} (limit : g.maxUses = some m)
    (moves : Moves P r.before r.call r.trace r.result r.after)
    (invoked : r.invocation g = some useNumber) :
    r.before.snapshot.epoch = g.epoch ∧ ∃ n next answer, useNumber = some n
      ∧ r.trace = [⟨.commit next, .ok ()⟩, ⟨.actuator, answer⟩]
      ∧ (next.used g.credentialId).toNat = n.toNat + 1 := by
  obtain ⟨before, call, trace, result, after⟩ := r
  change Moves P before call trace result after at moves
  cases moves with
  | refused => cases call <;> simp [LockRecord.invocation] at invoked
  | failed => cases call <;> simp [LockRecord.invocation, LockEffect.isActuator] at invoked
  | policy | decided | spared | consumed => cases invoked
  | @actuated grant _ _ _ _ _ made checked =>
    simp only [LockRecord.invocation, Option.ite_none_right_eq_some] at invoked
    obtain ⟨⟨rfl, _⟩, _⟩ := invoked
    exact (counted_not_spared limit made checked).elim
  | @counted grant _ _ _ _ _ _ made checked answer =>
    simp only [LockRecord.invocation, Option.ite_none_right_eq_some] at invoked
    obtain ⟨⟨rfl, _⟩, same⟩ := invoked
    obtain ⟨epoch, asked, ⟨max, most, left⟩, rfl⟩ := counted_facts made checked
    cases same
    refine ⟨epoch.symm, _, _, answer, asked, rfl, ?_⟩
    rw [LockSnapshot.used_count_self, UInt32.toNat_add]
    have bound := UInt32.lt_iff_toNat_lt.1 left
    have := max.toNat_lt
    exact Nat.mod_eq_of_lt (by simp; omega)

private theorem disabled_of_failed {lock : LockState} {post : List LockRecord}
    (moves : Moves P r.before r.call r.trace r.result r.after) (rest : LockRun P r.after post lock)
    (failed : ∃ next e, (⟨.commit next, .error e⟩ : Event LockAnswer) ∈ r.trace) :
    Disabled P r post lock := by
  obtain ⟨before, call, trace, result, after⟩ := r
  change Moves P before call trace result after at moves
  obtain ⟨next, e, mem⟩ := failed
  have ends : after.poisoned = true ∧ trace = [⟨.commit next, .error e⟩] := by
    cases moves with
    | refused | decided | spared => cases mem
    | failed _ _ _ healthy => exact ⟨rfl, by rw [List.mem_singleton.1 mem]⟩
    | policy | consumed | actuated => cases List.mem_singleton.1 mem
    | counted =>
      rcases List.mem_cons.1 mem with same | later
      · cases same
      · cases List.mem_singleton.1 later
  obtain ⟨poisoned, rfl⟩ := ends
  obtain ⟨final, later⟩ := rest.poisoned poisoned
  refine ⟨fun ev mem => ?_, later, fun _ _ _ _ _ _ => authorizeWithRights_poisoned final⟩
  rw [List.mem_singleton.1 mem]
  rfl

theorem legacy_uses_bounded {P : Primitives} {lockId : LockId} {issuer : VerifyingKey}
    {records : List LockRecord} {lock : LockState}
    (run : LockRun P (.new lockId issuer) records lock)
    (whole : ∀ r ∈ records, r.call.whole = true) :
    (∀ g m, g.maxUses = some m →
      (∀ r ∈ records, ∀ g', r.call.grant = some g' → g'.credentialId = g.credentialId → g' = g) →
      BoundedUse g m records)
    ∧ ∀ pre r post, records = pre ++ r :: post →
      (∃ next e, (⟨.commit next, .error e⟩ : Event LockAnswer) ∈ r.trace) → Disabled P r post lock := by
  constructor
  · intro g m limit unshared
    have counted : InStep g m records lock := by
      refine run.history (fun past r mem held moves => ?_) (inStep_new lockId issuer)
      exact inStep_step limit (unshared r mem) (whole r mem) held moves
    obtain ⟨k, bound, sequence, _⟩ := counted
    exact ⟨⟨k, bound, sequence⟩, fun r mem _ invoked => committed_of_moves limit (run.moves mem) invoked⟩
  · rintro pre r post rfl failed
    obtain ⟨_, moves, rest⟩ := run.split
    exact disabled_of_failed moves rest failed

section Retries
variable {P : Primitives} {lock : LockState} {grant : Grant} {signature : Bytes}
  {subjectKey : SubjectKey} {now : Option ClockSample} {max sequence : UInt32}

/-- The limit is checked before the retry, so a retry of the last use is not recognised. -/
theorem retried_use_iff
    (passed : lock.checkGrant P grant signature subjectKey now rightsUnlock = .ok ())
    (counted : grant.maxUses = some max)
    (stale : sequence < lock.snapshot.used grant.credentialId)
    (_within : lock.snapshot.used grant.credentialId ≤ max) :
    lock.authorize P grant signature subjectKey now (some sequence)
        = .ok (.alreadyConsumed (lock.snapshot.used grant.credentialId)) ↔
      lock.snapshot.used grant.credentialId < max := by
  rw [authorize, authorizeWithRights_counting (by decide) counted]
  constructor
  · rintro ⟨_, left, _⟩
    exact left
  · intro left
    exact ⟨passed, left, sequence, rfl, .inl ⟨stale, rfl⟩⟩

end Retries

section Authority
variable {P : Primitives} {grant : Grant} {start lock : LockState} {signature : Bytes}
  {subjectKey : SubjectKey} {requiredRights : UInt32} {decision : Decision} {past : List LockRecord}

/-- The grant is current and unrevoked, and asking again for the recorded use, at any clock
inside its window, returns the same decision. -/
structure LockState.Backed (P : Primitives) (lock : LockState) (grant : Grant) (signature : Bytes)
    (subjectKey : SubjectKey) (requiredRights : UInt32) (decision : Decision) : Prop where
  epoch : grant.epoch = lock.snapshot.epoch
  unrevoked : grant.credentialId ∉ lock.snapshot.revoked
  again : ∀ now, checkWindow grant.validity now = .ok () →
    lock.authorizeWithRights P grant signature subjectKey now
      (some (lock.snapshot.used grant.credentialId)) requiredRights = .ok decision

/-- The call applies no policy that ends the authority of a grant. -/
def LockRecord.Spares (grant : Grant) (r : LockRecord) : Prop :=
  ∀ update signature, r.call = .applyPolicy update signature → r.result = .ok none →
    ¬ grant.epoch < update.epoch ∧ grant.credentialId ∉ update.revoked

/-- Since `start`, when the grant was current and unrevoked. -/
structure LockState.Since (grant : Grant) (start : LockState) (past : List LockRecord) (lock : LockState) :
    Prop where
  lockId : lock.lockId = start.lockId
  issuer : lock.issuer = start.issuer
  forward : ¬ lock.snapshot.epoch < grant.epoch
  spared : (∀ q ∈ past, q.Spares grant) ↔
    grant.epoch = lock.snapshot.epoch ∧ grant.credentialId ∉ lock.snapshot.revoked

private theorem spares_snoc :
    (∀ q ∈ past ++ [r], q.Spares grant) ↔ (∀ q ∈ past, q.Spares grant) ∧ r.Spares grant := by
  simp only [List.mem_append, List.mem_singleton, or_imp, forall_and, forall_eq]

/-- A call that applies no policy keeps epoch and revocations. -/
private theorem LockState.Since.still (h : Since grant start past lock) (spares : r.Spares grant)
    (lockId : lock'.lockId = lock.lockId) (issuer : lock'.issuer = lock.issuer)
    (epoch : lock'.snapshot.epoch = lock.snapshot.epoch)
    (revoked : lock'.snapshot.revoked = lock.snapshot.revoked) :
    Since grant start (past ++ [r]) lock' := by
  refine ⟨lockId.trans h.lockId, issuer.trans h.issuer, by rw [epoch]; exact h.forward, ?_⟩
  rw [spares_snoc, epoch, revoked, ← h.spared]
  exact and_iff_left spares

private theorem LockState.Since.policy (h : Since grant start past lock)
    (called : r.call = .applyPolicy update signature) (applied : r.result = .ok none)
    (notBack : ¬ update.epoch < lock.snapshot.epoch) (lockId : lock'.lockId = lock.lockId)
    (issuer : lock'.issuer = lock.issuer) (next : lock'.snapshot = lock.snapshot.apply update) :
    Since grant start (past ++ [r]) lock' := by
  have spares : r.Spares grant ↔
      ¬ grant.epoch < update.epoch ∧ grant.credentialId ∉ update.revoked := by
    constructor
    · intro h
      exact h update signature called applied
    · rintro h _ _ same _
      cases called.symm.trans same
      exact h
  have notEarly := UInt64.le_trans (UInt64.not_lt.1 h.forward) (UInt64.not_lt.1 notBack)
  refine ⟨lockId.trans h.lockId, issuer.trans h.issuer, ?_, ?_⟩
  · rw [next, LockSnapshot.epoch_apply notBack]
    exact UInt64.not_lt.2 notEarly
  · rw [spares_snoc, spares, h.spared, next, LockSnapshot.epoch_apply notBack,
      LockSnapshot.mem_revoked_apply]
    constructor
    · rintro ⟨⟨current, unrevoked⟩, notLater, unlisted⟩
      refine ⟨UInt64.le_antisymm notEarly (UInt64.not_lt.1 notLater), ?_⟩
      rintro (⟨_, mem⟩ | mem)
      · exact unrevoked mem
      · exact unlisted mem
    · rintro ⟨same, unrevoked⟩
      rw [not_or, not_and] at unrevoked
      have current : grant.epoch = lock.snapshot.epoch :=
        UInt64.le_antisymm (UInt64.not_lt.1 h.forward) (same ▸ UInt64.not_lt.1 notBack)
      refine ⟨⟨current, unrevoked.1 ?_⟩, ?_, unrevoked.2⟩
      · rw [← same, current]
        exact UInt64.lt_irrefl _
      · rw [← same]
        exact UInt64.lt_irrefl _

private theorem LockState.Since.step (h : Since grant start past r.before)
    (moves : Moves P r.before r.call r.trace r.result r.after) :
    Since grant start (past ++ [r]) r.after := by
  obtain ⟨before, call, trace, result, after⟩ := r
  change Moves P before call trace result after at moves
  cases moves with
  | refused | failed => exact h.still (fun _ _ _ ok => by cases ok) rfl rfl rfl rfl
  | decided | spared | actuated => exact h.still (fun _ _ called => by cases called) rfl rfl rfl rfl
  | consumed checked | counted _ checked =>
    refine h.still (fun _ _ called => by cases called) rfl rfl ?_ ?_
    all_goals
      rcases (nextUse_eq_ok.1 checked).2 with ⟨_, _, _, _, _, _, answer⟩ | ⟨_, answer⟩
      · cases answer
        rfl
      · cases answer
  | policy checked =>
    obtain ⟨_, _, notBack, _⟩ := checkPolicy_eq_ok.1 checked
    exact h.policy rfl rfl notBack rfl rfl rfl

/-- The property of a consumed decision turns on the policies applied since it was made. -/
theorem consumed_decision_backed_iff (pre mid post : List LockRecord) {made spent : LockRecord}
    {now : Option ClockSample} {requestedUse : Option UInt32} {used max : UInt32}
    (run : LockRun P start (pre ++ made :: (mid ++ spent :: post)) lock)
    (authorized : made.call = .authorize grant signature subjectKey now requestedUse requiredRights)
    (issued : made.result = .ok (some (.authorized (.counted used max))))
    (consumed : spent.call = .consume grant (.authorized (.counted used max)))
    (accepted : spent.result = .ok none) :
    Backed P spent.before grant signature subjectKey requiredRights (.authorized (.counted used max))
      ↔ ∀ q ∈ mid, q.Spares grant := by
  obtain ⟨_, first, rest⟩ := run.split
  obtain ⟨between, last, _⟩ := rest.split
  obtain ⟨same, decided⟩ := first.decided_inv authorized issued
  obtain ⟨checked, unlock, limit, _, _, _⟩ := authorizeWithRights_eq_counted.1 decided
  obtain ⟨_, lockId, epoch, read, subject, rights, live, _⟩ := checkGrant_eq_ok.1 checked
  obtain ⟨next, counted⟩ := last.consumed_inv consumed accepted
  obtain ⟨healthy, uses⟩ := nextUse_eq_ok.1 counted
  have current : spent.before.snapshot.used grant.credentialId = used ∧ used < max := by
    rcases uses with ⟨_, _, same, _, current, left, _⟩ | ⟨other, _⟩
    · cases same
      exact ⟨current, left⟩
    · exact absurd rfl (other _ _)
  rw [same] at between
  have since : Since grant made.before mid spent.before := by
    refine between.history (fun past q _ held moves => held.step moves) ⟨rfl, rfl, ?_, ?_⟩
    · rw [epoch]
      exact UInt64.lt_irrefl _
    · exact iff_of_true (fun _ mem => by cases mem) ⟨epoch, live⟩
  rw [since.spared]
  constructor
  · intro backed
    exact ⟨backed.epoch, backed.unrevoked⟩
  · rintro ⟨still, unrevoked⟩
    refine ⟨still, unrevoked, fun now window => authorizeWithRights_eq_counted.2 ⟨?_, unlock, limit,
      current.1.symm, current.2, by rw [current.1]⟩⟩
    exact checkGrant_eq_ok.2 ⟨healthy, lockId.trans since.lockId.symm, still, by rw [since.issuer, read],
      subject, rights, unrevoked, window⟩

end Authority

namespace Fob
/-! A lock of one issuer, a grant of two uses, and calls on it whose commits end as told. -/

open Stamp

def lockId : LockId := ⟨Vector.replicate 16 2⟩

def grant : Grant where
  credentialId := ⟨Vector.replicate 16 1⟩
  lockId := lockId
  subjectKey := ⟨Vector.replicate 32 3⟩
  rights := rightsUnlock
  epoch := 0
  validity := none
  maxUses := some 2

def signature : Bytes := (coseValue (grantValue grant) (stamp issuer)).write

def answers (stored : Bool) : (e : LockEffect) → LockAnswer e
  | .commit _ => if stored then .ok () else .error .storageUnavailable
  | .actuator => .ok ()

def serve (lock : LockState) (call : LockCall) (stored : Bool) : LockRecord :=
  let made := ((call.run primitives).run lock).play
    (⟨fun _ _ => True, fun _ _ => ()⟩ : World LockAnswer Unit) (fun _ _ => answers stored) () []
  ⟨lock, call, made.1, made.2.2.1, made.2.2.2⟩

theorem serve_takes (lock : LockState) (call : LockCall) (stored : Bool) :
    TakesE (call.run primitives) lock (serve lock call stored).trace (serve lock call stored).result
      (serve lock call stored).after :=
  (exec_some_iff.1 (Exec.play (fun _ _ _ => trivial) ((call.run primitives).run lock) () [])).1

def serveAll (lock : LockState) : List (LockCall × Bool) → List LockRecord
  | [] => []
  | (call, stored) :: calls =>
    serve lock call stored :: serveAll (serve lock call stored).after calls

theorem serveAll_run (lock : LockState) (calls : List (LockCall × Bool)) :
    ∃ lock', LockRun primitives lock (serveAll lock calls) lock' := by
  induction calls generalizing lock with
  | nil => exact ⟨lock, .nil lock⟩
  | cons call calls ih =>
    obtain ⟨lock', rest⟩ := ih (serve lock call.1 call.2).after
    exact ⟨lock', .cons (serve_takes lock call.1 call.2) rest⟩

def unlock (useNumber : UInt32) : LockCall :=
  .authorizeAndConsume grant signature grant.subjectKey none (some useNumber)

/-- Both uses, each tried twice, and a third. -/
def spent : List LockRecord :=
  serveAll (.new lockId issuer) ([0, 0, 1, 1, 2].map fun n => (unlock n, true))

theorem legacy_uses_spent : ∃ lock, LockRun primitives (.new lockId issuer) spent lock
    ∧ invocations grant spent = useNumbers 2 ∧ BoundedUse grant 2 spent := by
  obtain ⟨lock, run⟩ := serveAll_run (.new lockId issuer) ([0, 0, 1, 1, 2].map fun n => (unlock n, true))
  refine ⟨lock, run, by decide +kernel, (legacy_uses_bounded run (by decide +kernel)).1 grant 2 rfl ?_⟩
  intro r mem g' presented _
  have same : ∀ r ∈ spent, r.call.grant = some grant := by decide +kernel
  exact Option.some.inj (presented.symm.trans (same r mem))

/-- The lock after its first use. -/
def once : LockState := (serve (.new lockId issuer) (unlock 0) true).after

theorem retried_first_use : once.snapshot.used grant.credentialId = 1
    ∧ once.authorize primitives grant signature grant.subjectKey none (some 0)
      = .ok (.alreadyConsumed 1) := by
  have passed : once.checkGrant primitives grant signature grant.subjectKey none rightsUnlock
      = .ok () := by decide +kernel
  have used : once.snapshot.used grant.credentialId = 1 := by decide +kernel
  have stale : 0 < once.snapshot.used grant.credentialId := by rw [used]; decide
  have within : once.snapshot.used grant.credentialId ≤ 2 := by rw [used]; decide
  have retried := (retried_use_iff passed rfl stale within).2 (by rw [used]; decide)
  rw [used] at retried
  exact ⟨used, retried⟩

/-- After both uses a retry of either is refused as exhausted. -/
theorem retried_last_use : ∃ r ∈ spent,
    r.before.checkGrant primitives grant signature grant.subjectKey none rightsUnlock = .ok ()
      ∧ r.before.snapshot.used grant.credentialId = 2 ∧ grant.maxUses = some 2
      ∧ r.before.authorize primitives grant signature grant.subjectKey none (some 0)
        = .error .usageExhausted := by
  decide +kernel

def policy (revoked : CredentialId) : PolicyUpdate := ⟨lockId, 0, 1, Std.ExtTreeSet.ofList [revoked]⟩

def decision : Decision := .authorized (.counted 0 2)

def authorizing : LockCall := .authorize grant signature grant.subjectKey none (some 0) rightsUnlock

def revoking (id : CredentialId) : LockCall :=
  .applyPolicy (policy id) (coseValue (policyValue (policy id)) (stamp issuer)).write

/-- A use authorized before a policy and consumed after it. -/
def overtaken (revoked : CredentialId) : List (LockCall × Bool) :=
  [(authorizing, true), (revoking revoked, true), (.consume grant decision, true)]

theorem overtaken_decision_backed : ∃ made policy spent lock,
    LockRun primitives (.new lockId issuer) [made, policy, spent] lock
      ∧ spent.call = .consume grant decision ∧ spent.result = .ok none
      ∧ Backed primitives spent.before grant signature grant.subjectKey rightsUnlock decision := by
  obtain ⟨lock, run⟩ := serveAll_run (.new lockId issuer) (overtaken ⟨Vector.replicate 16 4⟩)
  refine ⟨_, _, _, lock, run, rfl, by decide +kernel, ?_⟩
  refine (consumed_decision_backed_iff [] [_] [] run rfl (by decide +kernel) rfl
    (by decide +kernel)).2 ?_
  rintro q mem update signature called _
  rw [List.mem_singleton.1 mem] at called
  obtain ⟨rfl, _⟩ := LockCall.applyPolicy.inj called
  decide +kernel

/-- A revoked grant is consumed under a decision that was made before. -/
theorem revoked_decision_consumed : ∃ made policy spent lock,
    LockRun primitives (.new lockId issuer) [made, policy, spent] lock
      ∧ made.call = authorizing ∧ made.result = .ok (some decision)
      ∧ spent.call = .consume grant decision ∧ spent.result = .ok none
      ∧ grant.credentialId ∈ spent.before.snapshot.revoked := by
  obtain ⟨lock, run⟩ := serveAll_run (.new lockId issuer) (overtaken grant.credentialId)
  exact ⟨_, _, _, lock, run, rfl, by decide +kernel, rfl, by decide +kernel, by decide +kernel⟩

end Fob
end OpenLock
