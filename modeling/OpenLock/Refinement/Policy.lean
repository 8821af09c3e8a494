import OpenLock.Effects.Complete
import OpenLock.Refinement.Commissioning

/-! Applying a policy: a request that is answered as completed has put its policy in force. -/
namespace OpenLock
open Controller Effects

variable {P : Primitives} {f : FactoryIdentity} {c c' : Controller} {m n : DeviceSnapshot}
  {signed : Bytes} {p : PolicyUpdate} {status : OperationStatus} {tr : List (Event Answer)}

/-- The policy a snapshot would accept as newer than its own. -/
structure Supersedes (P : Primitives) (signed : Bytes) (p : PolicyUpdate) (a : DeviceSnapshot) :
    Prop where
  read : ∃ key, issuerKey P a = .ok key ∧ readPolicy P key signed = .ok p
  lock : p.lockId = a.lockId
  newer : a.epoch < p.epoch ∨ (p.epoch = a.epoch ∧ a.policyVersion < p.version)

/-- A policy newer than that of `m` is in force in `n`. -/
structure InForce (P : Primitives) (signed : Bytes) (p : PolicyUpdate) (m n : DeviceSnapshot) :
    Prop extends Supersedes P signed p m where
  epoch : n.epoch = p.epoch
  version : n.policyVersion = p.version
  listed : ∀ id ∈ p.revoked, id ∈ n.revoked

theorem issuerKey_congr (owner : n.owner = m.owner) : issuerKey P n = issuerKey P m := by
  rw [issuerKey, issuerKey, owner]

theorem Supersedes.congr {m' : DeviceSnapshot} (h : Supersedes P signed p m)
    (lock : m'.lockId = m.lockId) (owner : m'.owner = m.owner) (epoch : m'.epoch = m.epoch)
    (version : m'.policyVersion = m.policyVersion) : Supersedes P signed p m' := by
  obtain ⟨key, issuer, read⟩ := h.read
  exact ⟨⟨key, (issuerKey_congr owner).trans issuer, read⟩, lock ▸ h.lock,
    by rw [epoch, version]; exact h.newer⟩

theorem InForce.kept {n' : DeviceSnapshot} (h : InForce P signed p m n) (auth : n'.auth = n.auth) :
    InForce P signed p m n' := by
  have revoked : n'.revoked = n.revoked := congrArg AuthState.revoked auth
  exact ⟨h.toSupersedes, (congrArg AuthState.epoch auth).trans h.epoch,
    (congrArg AuthState.policyVersion auth).trans h.version, revoked ▸ h.listed⟩

theorem Allowed.supersedes {active : Option Active} (h : Allowed P f m active (.applyPolicy signed)) :
    ∃ p, Supersedes P signed p m := by
  obtain ⟨key, p, issuer, read, lock, ⟨newer, _⟩ | ⟨same, newer, _⟩⟩ := h
  · exact ⟨p, ⟨key, issuer, read⟩, lock, .inl newer⟩
  · exact ⟨p, ⟨key, issuer, read⟩, lock, .inr ⟨same, newer⟩⟩

section Runs
/-! What successful runs of the methods involved leave. -/
variable {evidence : CompletionEvidence} {phase : OperationPhase} {error : UInt32} {α β : Type}
  {b : β}

theorem takesE_orFail_bind {x : Except Error α} {g : α → Ctl β} :
    TakesE (orFail x >>= g) c tr (.ok b) c' ↔ ∃ a, x = .ok a ∧ TakesE (g a) c tr (.ok b) c' := by
  cases x with
  | ok a =>
    change TakesE (g a) c tr (.ok b) c' ↔ _
    simp
  | error e =>
    change (Prog.pure (Except.error e, c)).Takes tr (.ok b, c') ↔ _
    simp

/-- Whatever comes first, the rest of a successful run is one. -/
theorem takesE_rest {x : Ctl α} {g : α → Ctl β} (h : TakesE (x >>= g) c tr (.ok b) c') :
    ∃ a c₁ tr₁, TakesE (g a) c₁ tr₁ (.ok b) c' := by
  obtain ⟨a, c₁, _, tr₂, _, rest, _⟩ := takesE_bind_ok.1 h
  exact ⟨a, c₁, tr₂, rest⟩

theorem wall_ok {x : Option ClockSample} (h : TakesE wall c tr (.ok x) c') : c' = c := by
  simp only [wall, takesE_get_bind] at h
  split at h
  · obtain ⟨_, _, _, _, asked, rest, _⟩ := takesE_bind_ok.1 h
    exact (takesE_pure.1 rest).2.2.trans (takesE_ask_ok.1 asked).2
  · exact (takesE_pure.1 h).2.2

theorem audit_ok {kind : AuditKind} {id : Option CredentialId} {seq : Option UInt64} {code : UInt32}
    (h : TakesE (audit m kind id seq code) c tr (.ok n) c') : n.auth = m.auth ∧ c' = c := by
  unfold audit at h
  obtain ⟨s, _, _, _, records, h, _⟩ := takesE_bind_ok.1 h
  obtain ⟨_, _, h⟩ := takesE_orFail_bind.1 h
  obtain ⟨_, _, _, _, walled, h, _⟩ := takesE_bind_ok.1 h
  obtain ⟨_, same, rfl⟩ := takesE_pure.1 h
  cases same
  cases wall_ok walled
  unfold recordWall at records
  obtain ⟨x, _, _, _, walled, records, _⟩ := takesE_bind_ok.1 records
  cases wall_ok walled
  cases x <;> obtain ⟨_, same, rfl⟩ := takesE_pure.1 records <;> cases same <;> exact ⟨rfl, rfl⟩

theorem commit_ok (h : TakesE (commit P n) c tr (.ok ()) c') : c'.state = n := by
  simp only [commit, takesE_get_bind] at h
  obtain ⟨_, _, _, h⟩ := takesE_rest h
  obtain ⟨_, _, _, h⟩ := takesE_rest h
  obtain ⟨_, _, _, h⟩ := takesE_rest h
  obtain ⟨_, _, _, h⟩ := takesE_rest h
  obtain ⟨answer, _, _, h⟩ := takesE_rest h
  cases answer with
  | ok => rw [(takesE_modify.1 h).2.2]
  | lost | written =>
    obtain ⟨_, _, _, failed⟩ := takesE_rest h
    cases (takesE_throw.1 failed).2.1

theorem policySnapshot_inForce (h : Supersedes P signed p m)
    (ok : Execute.policySnapshot m p = .ok n) : InForce P signed p m n := by
  have union : ∀ (s : DeviceSnapshot) id, id ∈ p.revoked → id ∈ s.revoked ∪ p.revoked :=
    fun s id listed => Std.ExtTreeSet.mem_union_iff.2 (.inr listed)
  unfold Execute.policySnapshot at ok
  split at ok
  · simp only [bind_eq_ok, pure_eq_ok] at ok
    obtain ⟨_, _, _, rfl, rfl⟩ := ok
    exact ⟨h, rfl, rfl, union (Execute.newEpoch m p.epoch _)⟩
  · rename_i current
    simp only [bind_eq_ok, pure_eq_ok] at ok
    obtain ⟨_, rfl, rfl⟩ := ok
    exact ⟨h, (h.newer.resolve_left current).1.symm, rfl, union m⟩

theorem execute_inForce {context : SessionContext} {cmd : Command} {now : UInt64} {y : Option Reply}
    (action : cmd.action = .applyPolicy signed) (sup : Supersedes P signed p c.state)
    (h : TakesE (execute P context cmd status now) c tr (.ok y) c') :
    InForce P signed p c.state c'.state := by
  obtain ⟨key, issuer, read⟩ := sup.read
  simp only [execute, executeAction, action] at h
  obtain ⟨outcome, c₁, _, _, acts, ends, _⟩ := takesE_bind_ok.1 h
  simp only [Execute.applyPolicy, takesE_get_bind, takesE_orFail_bind] at acts
  obtain ⟨_, issuer', _, read', next, made, acts⟩ := acts
  cases issuer.symm.trans issuer'
  cases read.symm.trans read'
  obtain ⟨n, _, _, _, logged, acts, _⟩ := takesE_bind_ok.1 acts
  obtain ⟨auth, rfl⟩ := audit_ok logged
  have force := (policySnapshot_inForce sup made).kept auth
  split at acts
  · obtain ⟨_, _, _, _, stored, acts, _⟩ := takesE_bind_ok.1 acts
    rw [takesE_modify_bind] at acts
    obtain ⟨_, done, rfl⟩ := takesE_pure.1 acts
    cases done
    obtain ⟨_, _, rfl⟩ := takesE_pure.1 ends
    rw [← commit_ok stored] at force
    exact force
  · obtain ⟨_, done, rfl⟩ := takesE_pure.1 acts
    cases done
    obtain ⟨_, _, _, _, stored, rest, _⟩ := takesE_bind_ok.1 ends
    obtain ⟨_, _, rfl⟩ := takesE_pure.1 rest
    rw [← commit_ok stored] at force
    exact force

theorem findOperation_setStatus {id : CredentialId} {seq : UInt64} {ops ops' : List OperationRecord}
    {r : OperationRecord} (set : setStatus id seq phase evidence error ops = some ops')
    (found : findOperation ops' id seq = some r) : r.status.phase = phase := by
  induction ops generalizing ops' with
  | nil => cases set
  | cons x ops ih =>
    unfold setStatus at set
    split at set
    · rename_i same
      cases set
      unfold findOperation at found
      rw [List.find?_cons_of_pos (by simpa using same)] at found
      cases found
      rfl
    · rename_i other
      obtain ⟨rest, later, rfl⟩ := Option.map_eq_some_iff.1 set
      refine ih later ?_
      unfold findOperation at found ⊢
      rwa [List.find?_cons_of_neg (by simpa using other)] at found

theorem finish_ok {y : Reply} (h : TakesE (finish P status phase evidence error) c tr (.ok y) c') :
    ∃ status', y = .operation status' ∧ status'.phase = phase := by
  simp only [finish, takesE_get_bind, takesE_orFail_bind, okOr_eq_ok] at h
  obtain ⟨ops, set, r, found, h⟩ := h
  obtain ⟨_, _, _, h⟩ := takesE_rest h
  obtain ⟨_, _, _, h⟩ := takesE_rest h
  obtain ⟨_, same, _⟩ := takesE_pure.1 h
  cases same
  exact ⟨r.status, rfl, findOperation_setStatus set found⟩

end Runs

section Requests
variable {s : Lock P f} {entry : Controller} {context : SessionContext} {cmd : Command} {g : Grant}
  {seq now : UInt64}

/-- How a request to apply a policy ends: an answer that it is completed is true. -/
def Enforced (P : Primitives) (f : FactoryIdentity) (signed : Bytes) (m : DeviceSnapshot)
    (r : Except Error Reply) (c' : Controller) (s' : Lock P f) : Prop :=
  Verdict f r c' s'.1 ∧ ∀ status, r = .ok (.operation status) → status.phase = .completed →
    ∃ p, InForce P signed p m c'.state

theorem Enforced.failed {e : Error} (verdict : Verdict f (.error e : Except Error Reply) c' s.1) :
    Enforced P f signed m (.error e) c' s :=
  ⟨verdict, fun _ h => by cases h⟩

/-- What was enforced is so with the same authorization state before. -/
theorem Enforced.back {r : Except Error Reply} (h : Enforced P f signed m r c' s)
    (auth : m.auth = n.auth) : Enforced P f signed n r c' s := by
  refine ⟨h.1, fun status answer completed => ?_⟩
  obtain ⟨p, force⟩ := h.2 status answer completed
  have sup := force.toSupersedes.congr (congrArg AuthState.lockId auth.symm)
    (congrArg AuthState.owner auth.symm) (congrArg AuthState.epoch auth.symm)
    (congrArg AuthState.policyVersion auth.symm)
  exact ⟨p, sup, force.epoch, force.version, force.listed⟩

theorem acceptAndExecute_enforced (h : Acceptable P f entry context cmd now g seq c s.1)
    (action : cmd.action = .applyPolicy signed)
    (keeps : clearsDomain P c.state cmd.action = .ok false) (sup : Supersedes P signed p c.state)
    (digest : Bytes32) :
    SimE (lockSpec P f) (acceptAndExecute P context cmd g seq now digest) c s
      (Enforced P f signed c.state) := by
  unfold acceptAndExecute
  refine (accept_spec h keeps digest).bind ?_ fun e c₁ s₁ failed => .failed failed.1
  rintro same c₁ s₁ ⟨rfl, taken⟩
  have sup₁ : Supersedes P signed p c₁.state := sup.congr (congrArg AuthState.lockId taken.auth)
    (congrArg AuthState.owner taken.auth) (congrArg AuthState.epoch taken.auth)
    (congrArg AuthState.policyVersion taken.auth)
  rw [if_neg (by rw [action]; exact Bool.false_ne_true), simE_bind, simE_attempt]
  refine (execute_spec taken.toCarrying (taken.allowed h.allowed) (taken.keeps keeps)
    (fun unlock => by cases action.symm.trans unlock) context now).with_run.mono ?_
  rintro r c₂ s₂ ⟨executed, tr, run⟩
  have done : ∀ y, r = .ok y → InForce P signed p c.state c₂.state := by
    rintro y rfl
    have force := execute_inForce action sup₁ run
    exact ⟨sup, force.epoch, force.version, force.listed⟩
  rw [andThen_ok]
  cases r with
  | ok y =>
    have force := done y rfl
    cases y with
    | some reply => exact ⟨executed.verdict, fun _ _ _ => ⟨p, force⟩⟩
    | none =>
      refine (finish_accepted (Ready.tame executed.verdict) executed.progress _ _ _).mono ?_
      intro r c₃ s₃ finished
      exact ⟨finished.verdict, fun _ _ _ => ⟨p, force.kept finished.auth⟩⟩
  | error e =>
    simp only [simE_bind, simE_get, andThen_ok]
    split
    · exact .failed executed.verdict
    · rename_i live
      refine (finish_accepted (executed.verdict.tame (by simpa using live)) executed.progress _ _
        _).with_run.mono ?_
      rintro r c₃ s₃ ⟨finished, tr, run⟩
      refine ⟨finished.verdict, fun status answer completed => ?_⟩
      rw [answer] at run
      obtain ⟨_, same, failed⟩ := finish_ok run
      cases same
      cases completed.symm.trans failed

theorem mutate_enforced (h : Handling f entry context cmd now c s.1) (gates : c.gates = entry.gates)
    (vetted : Vetted P c.state s.1.clocks context cmd g) (action : cmd.action = .applyPolicy signed)
    (fresh : ∀ seq, cmd.sequence = some seq → c.state.watermark g.credentialId < seq) :
    SimE (lockSpec P f) (mutate P context cmd g now) c s (Enforced P f signed c.state) := by
  refine mutate_rule h gates vetted (by rw [action]; rfl) (fun _ _ _ verdict _ => .failed verdict)
    (fun seq _ sequence used => absurd used (UInt64.not_le.2 (fresh seq sequence))) ?_
  intro seq digest b c₁ s₁ may auth _ confirmed clears
  have allowed := may.allowed
  rw [action] at allowed
  obtain ⟨p, sup⟩ := allowed.supersedes
  cases b with
  | true =>
    rw [if_pos rfl]
    refine (replaceDomain_spec may clears confirmed).with_run.bind ?_ ?_
    · rintro reply c₂ s₂ ⟨⟨verdict, _, replied, _⟩, tr, run⟩
      obtain ⟨status, rfl⟩ := replied reply rfl
      exact Enforced.back ⟨verdict, fun _ _ _ => ⟨p, execute_inForce action sup run⟩⟩ auth
    · rintro e c₂ s₂ ⟨⟨verdict, _⟩, _⟩
      exact .failed verdict
  | false =>
    rw [if_neg Bool.false_ne_true]
    exact (acceptAndExecute_enforced may action clears sup digest).mono
      fun _ _ _ enforced => enforced.back auth

/-- The request has a sequence its credential has not used. -/
def Unused (P : Primitives) (m : DeviceSnapshot) (cmd : Command) : Prop :=
  ∃ o g seq, m.owner = some o ∧ readGrant P ⟨o.issuer⟩ cmd.credential = .ok g
    ∧ cmd.sequence = some seq ∧ m.watermark g.credentialId < seq

theorem handle_enforced (h : Coupled f c s.1) (recorded : s.1.failing = none)
    (fresh : s.1.progress = .fresh) (request : s.1.request = some (context, cmd))
    (entered : s.1.entry = some c) (action : cmd.action = .applyPolicy signed)
    (unused : Unused P c.state cmd) :
    SimS (lockSpec P f) (handle P context cmd) c s fun r c' _ => ∀ status,
      r.result = .ok (.operation status) → status.phase = .completed →
        c'.poisoned = false ∧ ∃ p, InForce P signed p c.state c'.state := by
  have dispatched : SimE (lockSpec P f) (dispatch P context cmd) c s
      (Enforced P f signed c.state) := by
    refine dispatch_rule h recorded fresh request entered
      (fun e c' s' verdict _ _ => .failed verdict) ?_
    intro now c₁ s₁ passed _
    simp only [action]
    refine (framed (authorize_spec passed.toReady context cmd)).bind ?_
      fun e c' s' post => .failed post.1.1.1
    rintro g c₂ s₂ ⟨⟨⟨ready, kept⟩, vetted⟩, frame⟩
    have auth : c₂.state.auth = c.state.auth := kept.auth.trans passed.kept.auth
    have named : ∀ seq, cmd.sequence = some seq → c₂.state.watermark g.credentialId < seq := by
      obtain ⟨o, g', seq, owner, read, sequence, above⟩ := unused
      obtain ⟨o', granted⟩ := checkGrant_ok.1 (vetted g rfl).grant
      cases (granted.owner.symm.trans (congrArg AuthState.owner auth)).trans owner
      cases granted.read.symm.trans read
      intro seq' sequence'
      cases sequence.symm.trans sequence'
      rw [watermark_congr auth]
      exact above
    refine (mutate_enforced (passed.toHandling.after ready frame kept.progress)
      (kept.gates.trans passed.kept.gates) (vetted g rfl) action named).mono ?_
    intro r c₃ s₃ enforced
    exact enforced.back auth
  refine handle_rule dispatched (fun _ _ _ post => post.1) ?_ (fun _ _ _ _ _ h => by cases h)
    (fun _ _ _ _ _ _ _ _ _ _ _ _ _ _ h => by cases h)
  rintro y c' s' ⟨ready, enforced⟩ status ⟨⟩ completed
  exact ⟨Ready.live ready, enforced status rfl completed⟩

end Requests

/-- The call was a request to apply the policy, with an unused sequence, and was answered as
completed. -/
def Record.Completes (r : Record P f) (c : Controller) (signed : Bytes) : Prop :=
  ∃ context cmd opcode status, r.call.request (some c) = some (context, cmd)
    ∧ cmd.action = .applyPolicy signed ∧ Unused P c.state cmd
    ∧ r.output = some (.response ⟨opcode, .ok (.operation status)⟩) ∧ status.phase = .completed

/-- A completed request has put its policy in force, in the store and in the controller. -/
theorem Follows.inForce {r : Record P f} {s s' : Lock P f} (follows : Follows r s s')
    (found : r.before.controller = some c) (completes : r.Completes c signed) :
    ∃ p d, r.after.disk = some d ∧ InForce P signed p c.state d := by
  obtain ⟨context, cmd, opcode, status, request, action, unused, output, completed⟩ := completes
  obtain ⟨y, c', response, left, enforced⟩ := follows.before.responds found request
    (Q := fun y c' => ∀ status, y.result = .ok (.operation status) → status.phase = .completed →
      c'.poisoned = false ∧ ∃ p, InForce P signed p c.state c'.state)
    (fun _ h recorded fresh request entered =>
      handle_enforced h recorded fresh request entered action unused) output
  cases response
  obtain ⟨live, p, force⟩ := enforced status rfl completed
  exact ⟨p, c'.state, follows.after.synced left live, force⟩

end OpenLock
