import OpenLock.Legacy.LockState

/-! What a call of the legacy lock can do, said once, and the rules of its runs. -/
namespace OpenLock
open Effects
variable {update : PolicyUpdate}

namespace LockSnapshot
variable {s : LockSnapshot} {id other : CredentialId} {n : UInt32}

theorem used_count_self : (s.count id n).used id = n + 1 := by
  simp [used, count]

theorem used_count_of_ne (h : other ≠ id) : (s.count id n).used other = s.used other := by
  simp [used, count, Std.ExtTreeMap.getElem?_insert, Ne.symm h]

/-- Where the epoch does not decrease, a policy sets it. -/
theorem epoch_apply (h : ¬ update.epoch < s.epoch) : (s.apply update).epoch = update.epoch := by
  unfold apply
  split
  · rfl
  · rename_i same
    exact UInt64.le_antisymm (UInt64.not_lt.1 h) (UInt64.not_lt.1 same)

theorem used_apply :
    (s.apply update).used id = if update.epoch > s.epoch then 0 else s.used id := by
  unfold apply used
  split
  · simp
  · rfl

theorem mem_revoked_apply : id ∈ (s.apply update).revoked ↔
      (¬ update.epoch > s.epoch ∧ id ∈ s.revoked) ∨ id ∈ update.revoked := by
  unfold apply
  split
  · rename_i later
    simp [later]
  · rename_i same
    simp [same]

end LockSnapshot

namespace LockState
variable {P : Primitives} {lock lock' : LockState} {grant : Grant} {signature : Bytes}
  {subjectKey : SubjectKey} {now : Option ClockSample} {requestedUse : Option UInt32}
  {requiredRights : UInt32} {decision : Decision} {used max : UInt32} {next : LockSnapshot}
  {tr : List (Event LockAnswer)} {u : Unit} {key : VerifyingKey}

theorem ensureHealthy_eq_ok : lock.ensureHealthy = .ok u ↔ lock.poisoned = false := by
  rw [ensureHealthy, failIf_eq_ok, Bool.not_eq_true]

theorem verifyGrant_eq_ok :
    verifyGrant P key grant signature = .ok u ↔ readGrant P key signature = .ok grant := by
  simp only [verifyGrant, bind_eq_ok, failIf_eq_ok, not_not]
  constructor
  · rintro ⟨_, read, rfl⟩
    exact read
  · intro read
    exact ⟨grant, read, rfl⟩

theorem verifyPolicy_eq_ok :
    verifyPolicy P key update signature = .ok u ↔ readPolicy P key signature = .ok update := by
  simp only [verifyPolicy, bind_eq_ok, failIf_eq_ok, not_not]
  constructor
  · rintro ⟨_, read, rfl⟩
    exact read
  · intro read
    exact ⟨update, read, rfl⟩

theorem checkPolicy_eq_ok : lock.checkPolicy P update signature = .ok u ↔ lock.poisoned = false
      ∧ update.lockId = lock.lockId ∧ ¬ update.epoch < lock.snapshot.epoch
      ∧ ¬ (update.epoch = lock.snapshot.epoch ∧ update.version ≤ lock.snapshot.policyVersion)
      ∧ readPolicy P lock.issuer signature = .ok update := by
  simp only [checkPolicy, bind_eq_ok, failIf_eq_ok, ensureHealthy_eq_ok, verifyPolicy_eq_ok, not_or,
    not_not]
  constructor
  · rintro ⟨_, healthy, _, ⟨lockId, epoch, version⟩, read⟩
    exact ⟨healthy, lockId, epoch, version, read⟩
  · rintro ⟨healthy, lockId, epoch, version, read⟩
    exact ⟨(), healthy, (), ⟨lockId, epoch, version⟩, read⟩

theorem checkGrant_eq_ok : lock.checkGrant P grant signature subjectKey now requiredRights = .ok u ↔
      lock.poisoned = false ∧ grant.lockId = lock.lockId ∧ grant.epoch = lock.snapshot.epoch
      ∧ readGrant P lock.issuer signature = .ok grant ∧ grant.subjectKey = subjectKey
      ∧ grant.rights &&& requiredRights = requiredRights
      ∧ grant.credentialId ∉ lock.snapshot.revoked ∧ checkWindow grant.validity now = .ok () := by
  simp only [checkGrant, bind_eq_ok, failIf_eq_ok, ensureHealthy_eq_ok, verifyGrant_eq_ok, not_not]
  constructor
  · rintro ⟨_, healthy, _, lockId, _, epoch, _, read, _, subject, _, rights, _, live, window⟩
    exact ⟨healthy, lockId, epoch, read, subject, rights, live, window⟩
  · rintro ⟨healthy, lockId, epoch, read, subject, rights, live, window⟩
    exact ⟨(), healthy, (), lockId, (), epoch, (), read, (), subject, (), rights, (), live, window⟩

theorem ensureHealthy_poisoned (h : lock.poisoned = true) :
    lock.ensureHealthy = .error .storageUnavailable := if_pos h

/-- A poisoned lock decides nothing. -/
theorem authorizeWithRights_poisoned (h : lock.poisoned = true) :
    lock.authorizeWithRights P grant signature subjectKey now requestedUse requiredRights
      = .error .storageUnavailable := by
  rw [authorizeWithRights, checkGrant, ensureHealthy_poisoned h]
  rfl

theorem checkPolicy_poisoned (h : lock.poisoned = true) :
    lock.checkPolicy P update signature = .error .storageUnavailable := by
  rw [checkPolicy, ensureHealthy_poisoned h]
  rfl

theorem nextUse_poisoned (h : lock.poisoned = true) :
    lock.nextUse grant decision = .error .storageUnavailable := by
  unfold nextUse
  rw [ensureHealthy_poisoned h]
  rfl

theorem unlimited_ne_counted : unlimited grant requestedUse ≠ .ok (.authorized (.counted used max)) := by
  simp only [unlimited, ne_eq, bind_eq_ok, pure_eq_ok, not_exists, not_and]
  intro _ _ same
  split at same <;> cases same

/-- The decisions on a counted grant that asks for an unlock. -/
theorem authorizeWithRights_counting (unlock : requiredRights &&& rightsUnlock ≠ 0)
    (counted : grant.maxUses = some max) :
    lock.authorizeWithRights P grant signature subjectKey now requestedUse requiredRights
        = .ok decision ↔
      lock.checkGrant P grant signature subjectKey now requiredRights = .ok ()
      ∧ lock.snapshot.used grant.credentialId < max ∧ ∃ sequence, requestedUse = some sequence ∧
        ((sequence < lock.snapshot.used grant.credentialId
            ∧ decision = .alreadyConsumed (lock.snapshot.used grant.credentialId))
          ∨ (sequence = lock.snapshot.used grant.credentialId
            ∧ decision = .authorized (.counted (lock.snapshot.used grant.credentialId) max))) := by
  simp only [authorizeWithRights, if_neg unlock, counted, bind_eq_ok, failIf_eq_ok, okOr_eq_ok,
    ge_iff_le, UInt32.not_le]
  constructor
  · rintro ⟨_, checked, _, left, sequence, asked, rest⟩
    refine ⟨checked, left, sequence, asked, ?_⟩
    split at rest
    · rename_i stale
      exact .inl ⟨stale, (pure_eq_ok.1 rest).symm⟩
    · simp only [bind_eq_ok, failIf_eq_ok, pure_eq_ok, not_not] at rest
      obtain ⟨_, current, same⟩ := rest
      exact .inr ⟨current, same.symm⟩
  · rintro ⟨checked, left, sequence, asked, choice⟩
    refine ⟨(), checked, (), left, sequence, asked, ?_⟩
    rcases choice with ⟨stale, rfl⟩ | ⟨current, rfl⟩
    · rw [if_pos stale]
      rfl
    · rw [if_neg (by rw [current]; exact UInt32.lt_irrefl _)]
      simp [current]

/-- A counted decision is for the next use of a counted grant. -/
theorem authorizeWithRights_eq_counted :
    lock.authorizeWithRights P grant signature subjectKey now requestedUse requiredRights
        = .ok (.authorized (.counted used max)) ↔
      lock.checkGrant P grant signature subjectKey now requiredRights = .ok ()
      ∧ requiredRights &&& rightsUnlock ≠ 0 ∧ grant.maxUses = some max
      ∧ used = lock.snapshot.used grant.credentialId ∧ used < max ∧ requestedUse = some used := by
  by_cases unlock : requiredRights &&& rightsUnlock = 0
  · simp [authorizeWithRights, unlock, unlimited_ne_counted]
  · cases counted : grant.maxUses with
    | none => simp [authorizeWithRights, unlock, counted, unlimited_ne_counted]
    | some limit =>
      rw [authorizeWithRights_counting unlock counted]
      constructor
      · rintro ⟨checked, left, sequence, rfl, ⟨_, same⟩ | ⟨rfl, same⟩⟩
        · cases same
        · cases same
          exact ⟨checked, unlock, rfl, rfl, left, rfl⟩
      · rintro ⟨checked, _, same, rfl, left, rfl⟩
        cases same
        exact ⟨checked, left, _, rfl, .inr ⟨rfl, rfl⟩⟩

/-- Only a counted decision is consumed, and only where it is for the next use. -/
theorem nextUse_eq_ok {answer : Option LockSnapshot} :
    lock.nextUse grant decision = .ok answer ↔ lock.poisoned = false ∧
      ((∃ used max, decision = .authorized (.counted used max) ∧ grant.maxUses = some max
          ∧ lock.snapshot.used grant.credentialId = used ∧ used < max
          ∧ answer = some (lock.snapshot.count grant.credentialId used))
        ∨ (∀ used max, decision ≠ .authorized (.counted used max)) ∧ answer = none) := by
  simp only [nextUse, bind_eq_ok, ensureHealthy_eq_ok, exists_const]
  refine and_congr_right fun _ => ?_
  split
  · simp only [bind_eq_ok, failIf_eq_ok, pure_eq_ok, not_not, ge_iff_le, UInt32.not_le]
    constructor
    · rintro ⟨_, limit, _, current, _, left, rfl⟩
      exact .inl ⟨_, _, rfl, limit, current, left, rfl⟩
    · rintro (⟨_, _, same, limit, current, left, rfl⟩ | ⟨other, _⟩)
      · cases same
        exact ⟨(), limit, (), current, (), left, rfl⟩
      · exact absurd rfl (other _ _)
  · rename_i other
    rw [pure_eq_ok, eq_comm]
    constructor
    · intro same
      exact .inr ⟨other, same⟩
    · rintro (⟨_, _, same, _⟩ | ⟨_, same⟩)
      · exact absurd same (other _ _)
      · exact same

/-- How a commit ends. -/
inductive Commits (next : LockSnapshot) (lock : LockState) :
    List (Event LockAnswer) → Except Error Unit → LockState → Prop
  | stored : Commits next lock [⟨.commit next, .ok ()⟩] (.ok ()) { lock with snapshot := next }
  | failed (e : Error) : Commits next lock [⟨.commit next, .error e⟩] (.error .storageUnavailable)
      { lock with poisoned := true }

theorem commit_takes {r : Except Error Unit} (h : TakesE (commit next) lock tr r lock') :
    Commits next lock tr r lock' := by
  rw [commit, takesE_ask_bind] at h
  obtain ⟨answer, rest, rfl, h⟩ := h
  cases answer with
  | ok u =>
    obtain ⟨rfl, rfl, rfl⟩ := takesE_modify.1 h
    exact .stored
  | error e =>
    rw [takesE_modify_bind] at h
    obtain ⟨rfl, rfl, rfl⟩ := takesE_throw.1 h
    exact .failed e

/-- How a consumption ends. -/
inductive Consumes (grant : Grant) (decision : Decision) (lock : LockState) :
    List (Event LockAnswer) → Except Error Unit → LockState → Prop
  | refused {e : Error} (checked : lock.nextUse grant decision = .error e) :
      Consumes grant decision lock [] (.error e) lock
  | spared (checked : lock.nextUse grant decision = .ok none) :
      Consumes grant decision lock [] (.ok ()) lock
  | commits {next : LockSnapshot} {tr : List (Event LockAnswer)} {r : Except Error Unit}
      {lock' : LockState} (checked : lock.nextUse grant decision = .ok (some next))
      (ends : Commits next lock tr r lock') : Consumes grant decision lock tr r lock'

theorem consume_takes {r : Except Error Unit} (h : TakesE (consume grant decision) lock tr r lock') :
    Consumes grant decision lock tr r lock' := by
  rw [consume, takesE_get_bind, takesE_ofExcept_bind] at h
  rcases h with ⟨answer, checked, h⟩ | ⟨e, checked, rfl, rfl, rfl⟩
  · cases answer with
    | none =>
      obtain ⟨rfl, rfl, rfl⟩ := takesE_pure.1 h
      exact .spared checked
    | some next => exact .commits checked (commit_takes h)
  · exact .refused checked

end LockState

open LockState

/-- What a call returns once the actuator has answered. -/
def actuation (answer : Except ActuationError Unit) : Except Error (Option Decision) :=
  (answer.mapError fun _ => .actuatorFailed).map fun _ => none

/-- Everything a call can do from a state. -/
inductive Moves (P : Primitives) (lock : LockState) :
    LockCall → List (Event LockAnswer) → Except Error (Option Decision) → LockState → Prop
  | refused (call : LockCall) (e : Error) (poisoned : lock.poisoned = true → e = .storageUnavailable) :
      Moves P lock call [] (.error e) lock
  | failed (call : LockCall) (next : LockSnapshot) (e : Error) (healthy : lock.poisoned = false) :
      Moves P lock call [⟨.commit next, .error e⟩] (.error .storageUnavailable)
        { lock with poisoned := true }
  | policy {update : PolicyUpdate} {signature : Bytes}
      (checked : lock.checkPolicy P update signature = .ok ()) :
      Moves P lock (.applyPolicy update signature)
        [⟨.commit (lock.snapshot.apply update), .ok ()⟩] (.ok none)
        { lock with snapshot := lock.snapshot.apply update }
  | decided {grant : Grant} {signature : Bytes} {subjectKey : SubjectKey}
      {now : Option ClockSample} {requestedUse : Option UInt32} {requiredRights : UInt32}
      {decision : Decision}
      (made : lock.authorizeWithRights P grant signature subjectKey now requestedUse requiredRights
        = .ok decision) :
      Moves P lock (.authorize grant signature subjectKey now requestedUse requiredRights) []
        (.ok (some decision)) lock
  | spared {grant : Grant} {decision : Decision} (checked : lock.nextUse grant decision = .ok none) :
      Moves P lock (.consume grant decision) [] (.ok none) lock
  | consumed {grant : Grant} {decision : Decision} {next : LockSnapshot}
      (checked : lock.nextUse grant decision = .ok (some next)) :
      Moves P lock (.consume grant decision) [⟨.commit next, .ok ()⟩] (.ok none)
        { lock with snapshot := next }
  | actuated {grant : Grant} {signature : Bytes} {peer : SubjectKey} {now : Option ClockSample}
      {useNumber : Option UInt32} {authorization : Authorization}
      (made : lock.authorize P grant signature peer now useNumber = .ok (.authorized authorization))
      (checked : lock.nextUse grant (.authorized authorization) = .ok none)
      (answer : Except ActuationError Unit) :
      Moves P lock (.authorizeAndConsume grant signature peer now useNumber)
        [⟨.actuator, answer⟩] (actuation answer) lock
  | counted {grant : Grant} {signature : Bytes} {peer : SubjectKey} {now : Option ClockSample}
      {useNumber : Option UInt32} {authorization : Authorization} {next : LockSnapshot}
      (made : lock.authorize P grant signature peer now useNumber = .ok (.authorized authorization))
      (checked : lock.nextUse grant (.authorized authorization) = .ok (some next))
      (answer : Except ActuationError Unit) :
      Moves P lock (.authorizeAndConsume grant signature peer now useNumber)
        [⟨.commit next, .ok ()⟩, ⟨.actuator, answer⟩] (actuation answer) { lock with snapshot := next }

section Classification
variable {P : Primitives} {lock lock' : LockState} {tr : List (Event LockAnswer)}
  {r : Except Error (Option Decision)} {call : LockCall} {grant : Grant} {decision : Decision}
  {signature : Bytes} {now : Option ClockSample} {α : Type}

/-- A call ends as its last method does. -/
private theorem takes_none {x : LockM Unit}
    (h : TakesE (x >>= fun _ => pure none) lock tr r lock') :
    ∃ r', TakesE x lock tr r' lock' ∧ r = r'.map fun _ => none := by
  rcases takesE_bind.1 h with ⟨u, _, _, _, first, last, rfl⟩ | ⟨e, first, rfl⟩
  · obtain ⟨rfl, rfl, rfl⟩ := takesE_pure.1 last
    rw [List.append_nil]
    exact ⟨.ok u, first, rfl⟩
  · exact ⟨.error e, first, rfl⟩

private theorem healthy_of_ok {x : Except Error α} {a : α} (ok : x = .ok a)
    (h : lock.poisoned = true → x = .error .storageUnavailable) : lock.poisoned = false := by
  cases poisoned : lock.poisoned with
  | false => rfl
  | true =>
    rw [ok] at h
    cases h poisoned

private theorem error_of_poisoned {x : Except Error α} {e : Error} (failed : x = .error e)
    (h : lock.poisoned = true → x = .error .storageUnavailable) :
    lock.poisoned = true → e = .storageUnavailable := by
  intro poisoned
  rw [failed] at h
  exact Except.error.inj (h poisoned)

private theorem moves_applyPolicy {r : Except Error Unit}
    (h : TakesE (applyPolicy P update signature) lock tr r lock') :
    Moves P lock (.applyPolicy update signature) tr (r.map fun _ => none) lock' := by
  rw [applyPolicy, takesE_get_bind, takesE_ofExcept_bind] at h
  rcases h with ⟨_, checked, h⟩ | ⟨e, checked, rfl, rfl, rfl⟩
  · cases commit_takes h with
    | stored => exact .policy checked
    | failed e => exact .failed _ _ e (healthy_of_ok checked checkPolicy_poisoned)
  · exact .refused _ e (error_of_poisoned checked checkPolicy_poisoned)

private theorem moves_consume {r : Except Error Unit}
    (h : TakesE (consume grant decision) lock tr r lock') :
    Moves P lock (.consume grant decision) tr (r.map fun _ => none) lock' := by
  cases consume_takes h with
  | refused checked => exact .refused _ _ (error_of_poisoned checked nextUse_poisoned)
  | spared checked => exact .spared checked
  | commits checked ends =>
    cases ends with
    | stored => exact .consumed checked
    | failed e => exact .failed _ _ e (healthy_of_ok checked nextUse_poisoned)

private theorem moves_authorizeAndConsume {peer : SubjectKey} {useNumber : Option UInt32}
    {r : Except Error Unit}
    (h : TakesE (authorizeAndConsume P grant signature peer now useNumber) lock tr r lock') :
    Moves P lock (.authorizeAndConsume grant signature peer now useNumber) tr
      (r.map fun _ => none) lock' := by
  rw [authorizeAndConsume, takesE_get_bind, takesE_ofExcept_bind] at h
  rcases h with ⟨decision, made, h⟩ | ⟨e, made, rfl, rfl, rfl⟩
  · have healthy := healthy_of_ok made authorizeWithRights_poisoned
    have unpoisoned : ∀ e : Error, lock.poisoned = true → e = .storageUnavailable := fun _ poisoned =>
      absurd poisoned (by rw [healthy]; exact Bool.false_ne_true)
    cases decision with
    | alreadyConsumed n =>
      obtain ⟨rfl, rfl, rfl⟩ := takesE_throw.1 h
      exact .refused _ _ (unpoisoned _)
    | authorized a =>
      rcases takesE_bind.1 h with ⟨_, consumed, _, _, first, last, rfl⟩ | ⟨e, first, rfl⟩
      · rw [takesE_ask_bind] at last
        obtain ⟨answer, rest, rfl, last⟩ := last
        have ends : rest = [] ∧ lock' = consumed ∧ (r.map fun _ => none) = actuation answer := by
          cases answer with
          | ok u =>
            obtain ⟨rfl, rfl, same⟩ := takesE_pure.1 last
            exact ⟨rfl, same, rfl⟩
          | error e =>
            obtain ⟨rfl, rfl, same⟩ := takesE_throw.1 last
            exact ⟨rfl, same, rfl⟩
        obtain ⟨rfl, rfl, result⟩ := ends
        rw [result]
        cases consume_takes first with
        | spared checked => exact .actuated made checked answer
        | commits checked ends =>
          cases ends with
          | stored => exact .counted made checked answer
      · cases consume_takes first with
        | refused checked => exact .refused _ e (unpoisoned e)
        | commits checked ends =>
          cases ends with
          | failed e => exact .failed _ _ e healthy
  · exact .refused _ e (error_of_poisoned made authorizeWithRights_poisoned)

/-- A poisoned lock refuses every call. -/
theorem Moves.poisoned (moves : Moves P lock call tr r lock') (h : lock.poisoned = true) :
    tr = [] ∧ r = .error .storageUnavailable ∧ lock' = lock := by
  have never {α : Type} {x : Except Error α} {a : α} (ok : x = .ok a)
      (fails : lock.poisoned = true → x = .error .storageUnavailable) : False :=
    absurd h (by rw [healthy_of_ok ok fails]; exact Bool.false_ne_true)
  cases moves with
  | refused _ e same => exact ⟨rfl, by rw [same h], rfl⟩
  | failed _ _ _ healthy => exact absurd h (by rw [healthy]; exact Bool.false_ne_true)
  | policy checked => exact (never checked checkPolicy_poisoned).elim
  | decided made => exact (never made authorizeWithRights_poisoned).elim
  | spared checked => exact (never checked nextUse_poisoned).elim
  | consumed checked => exact (never checked nextUse_poisoned).elim
  | actuated _ checked => exact (never checked nextUse_poisoned).elim
  | counted _ checked => exact (never checked nextUse_poisoned).elim

theorem Moves.decided_inv {subjectKey : SubjectKey} {requestedUse : Option UInt32}
    {requiredRights : UInt32} (moves : Moves P lock call tr r lock')
    (called : call = .authorize grant signature subjectKey now requestedUse requiredRights)
    (ok : r = .ok (some decision)) : lock' = lock ∧
      lock.authorizeWithRights P grant signature subjectKey now requestedUse requiredRights
        = .ok decision := by
  cases moves with
  | refused | failed => cases ok
  | policy | spared | consumed | actuated | counted => cases called
  | decided made =>
    cases called
    cases ok
    exact ⟨rfl, made⟩

theorem Moves.consumed_inv (moves : Moves P lock call tr r lock')
    (called : call = .consume grant decision) (ok : r = .ok none) :
    ∃ next, lock.nextUse grant decision = .ok next := by
  cases moves with
  | refused | failed => cases ok
  | policy | decided | actuated | counted => cases called
  | spared checked =>
    cases called
    exact ⟨_, checked⟩
  | consumed checked =>
    cases called
    exact ⟨_, checked⟩

theorem moves_of_takes (h : TakesE (call.run P) lock tr r lock') :
    Moves P lock call tr r lock' := by
  cases call with
  | applyPolicy update signature =>
    obtain ⟨_, made, rfl⟩ := takes_none h
    exact moves_applyPolicy made
  | authorize grant signature subjectKey now requestedUse requiredRights =>
    rw [LockCall.run, takesE_get_bind, takesE_ofExcept_bind] at h
    rcases h with ⟨decision, made, h⟩ | ⟨e, made, rfl, rfl, rfl⟩
    · obtain ⟨rfl, rfl, rfl⟩ := takesE_pure.1 h
      exact .decided made
    · exact .refused _ e (error_of_poisoned made authorizeWithRights_poisoned)
  | consume grant decision =>
    obtain ⟨_, made, rfl⟩ := takes_none h
    exact moves_consume made
  | authorizeAndConsume grant signature peer now useNumber =>
    obtain ⟨_, made, rfl⟩ := takes_none h
    exact moves_authorizeAndConsume made

end Classification

namespace LockRun
variable {P : Primitives} {start lock : LockState} {records : List LockRecord}
  {I : List LockRecord → LockState → Prop} {r : LockRecord}

private theorem history_from {past : List LockRecord}
    (run : LockRun P start records lock)
    (step : ∀ past (r : LockRecord), r ∈ records → I past r.before →
      Moves P r.before r.call r.trace r.result r.after → I (past ++ [r]) r.after)
    (first : I past start) : I (past ++ records) lock := by
  induction run generalizing past with
  | nil => rwa [List.append_nil]
  | @cons r records lock made rest ih =>
    have here := step past r List.mem_cons_self first (moves_of_takes made)
    have later := ih (fun past q mem => step past q (List.mem_cons_of_mem _ mem)) here
    rwa [List.append_assoc] at later

/-- What every call keeps, with the calls so far in view, holds along every run. -/
theorem history (run : LockRun P start records lock)
    (step : ∀ past (r : LockRecord), r ∈ records → I past r.before →
      Moves P r.before r.call r.trace r.result r.after → I (past ++ [r]) r.after)
    (first : I [] start) : I records lock := history_from run step first

/-- A run splits at each of its calls. -/
theorem split {pre post : List LockRecord} (run : LockRun P start (pre ++ r :: post) lock) :
    LockRun P start pre r.before
      ∧ Moves P r.before r.call r.trace r.result r.after ∧ LockRun P r.after post lock := by
  induction pre generalizing start with
  | nil =>
    cases run with
    | cons made rest => exact ⟨.nil _, moves_of_takes made, rest⟩
  | cons q pre ih =>
    cases run with
    | cons made rest =>
      obtain ⟨before, here, after⟩ := ih rest
      exact ⟨.cons made before, here, after⟩

/-- A call of a run does what calls can do. -/
theorem moves (run : LockRun P start records lock) (mem : r ∈ records) :
    Moves P r.before r.call r.trace r.result r.after := by
  obtain ⟨pre, post, rfl⟩ := List.append_of_mem mem
  exact run.split.2.1

/-- A poisoned lock stays poisoned and has no further effect. -/
theorem poisoned (run : LockRun P start records lock) (h : start.poisoned = true) :
    lock.poisoned = true ∧ ∀ r ∈ records, r.trace = [] ∧ r.result = .error .storageUnavailable := by
  refine run.history (I := fun past lock => lock.poisoned = true ∧
    ∀ r ∈ past, r.trace = [] ∧ r.result = .error .storageUnavailable) ?_ ?_
  · rintro past r _ ⟨held, earlier⟩ moves
    obtain ⟨trace, result, same⟩ := moves.poisoned held
    refine ⟨by rw [same]; exact held, fun q mem => ?_⟩
    rcases List.mem_append.1 mem with before | here
    · exact earlier q before
    · rw [List.mem_singleton.1 here]
      exact ⟨trace, result⟩
  · exact ⟨h, fun _ mem => by cases mem⟩

end LockRun

end OpenLock
