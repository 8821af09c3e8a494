import Mathlib.Data.List.Perm.Subperm
import OpenLock.Device.Scripted
import OpenLock.Properties.Store

/-! The controller's own check against the snapshots it builds: which ones it refuses, and
what a failed commit does. -/
namespace OpenLock
open Controller Effects

variable {P : Primitives} {f : FactoryIdentity} {n : DeviceSnapshot}

section Uses
variable {s : Abs} {m n : DeviceSnapshot} {pr : Progress} {ow : Option Active} {id : CredentialId}
  {bindings : CredentialMap γ} {table : CredentialMap β} {β γ : Type}

/-- The request is an unlock under a credential with no counted use, and the table of uses is
full. -/
def OverfillsUses (P : Primitives) (f : FactoryIdentity) (m : DeviceSnapshot) (id : CredentialId)
    (request : Option (SessionContext × Command)) : Prop :=
  f.info.credentialCapacity.toNat ≤ m.uses.size ∧ id ∉ m.uses
  ∧ ∃ context cmd o g, request = some (context, cmd) ∧ cmd.action = .unlock ∧ m.owner = some o
    ∧ readGrant P ⟨o.issuer⟩ cmd.credential = .ok g ∧ g.credentialId = id

/-- Only an acceptance that reserves an unlock counts a first use. -/
theorem Change.first_use (h : Change P f s m n pr ow) (counted : id ∈ n.uses) (first : id ∉ m.uses) :
    ∃ x, s.request = some (x.context, x.command) ∧ x.reserved = true
      ∧ Acceptance P f s.clocks s.owned x m n ∧ x.grant.credentialId = id
      ∧ n.uses = m.uses.insert id (m.usesOf id + 1) := by
  have unchanged : n.uses = m.uses → False := fun same => first (same ▸ counted)
  rcases h.ledger_cases with ⟨ledger, _⟩ | ⟨x, _, _, request, acceptance⟩ | ⟨_, _, _, uses, _⟩ |
    ⟨_, _, _, _, uses⟩
  · simp only [AuthState.ledger, Prod.mk.injEq] at ledger
    exact (unchanged ledger.2.2.1).elim
  · have uses : n.uses = (x.auth P m).uses := congrArg AuthState.uses acceptance.auth
    simp only [Accepted.auth] at uses
    split at uses
    · rename_i reserved
      rw [uses, Std.ExtTreeMap.mem_insert, Std.LawfulEqCmp.compare_eq_iff_eq] at counted
      obtain rfl : x.grant.credentialId = id := counted.resolve_right first
      exact ⟨x, request, reserved, acceptance, rfl, uses⟩
    · exact (unchanged uses).elim
  · exact (unchanged uses).elim
  · simp [uses] at counted

theorem Change.overfills (h : Change P f s m n pr ow) (counted : id ∈ n.uses) (first : id ∉ m.uses)
    (full : f.info.credentialCapacity.toNat ≤ m.uses.size) : OverfillsUses P f m id s.request := by
  obtain ⟨x, request, reserved, acceptance, rfl, _⟩ := h.first_use counted first
  obtain ⟨o, granted⟩ := checkGrant_ok.1 acceptance.authorized.grant
  exact ⟨full, first, x.context, x.command, o, x.grant, request, (acceptance.reserved reserved).1,
    granted.owner, granted.read, rfl⟩

/-- The controller's check accepts exactly the snapshots that do not overfill the uses. -/
theorem Change.valid_iff (h : Change P f s m n pr ow) (sound : Sound P f m) :
    (Valid P f n ∧ FloorLe m.clockFloor n.clockFloor)
      ↔ ¬ ∃ id ∈ n.uses, OverfillsUses P f m id s.request := by
  refine ⟨fun ⟨valid, _⟩ ⟨id, counted, full, first, _⟩ => ?_, fun fits => h.valid sound ?_⟩
  · obtain ⟨x, _, _, _, _, uses⟩ := h.first_use counted first
    have size := valid.auth.usesFit
    have grown : n.uses.size = m.uses.size + 1 := by
      rw [uses, Std.ExtTreeMap.size_insert, if_neg]
      rwa [Std.ExtTreeMap.contains_iff_mem]
    have size' : n.uses.size ≤ f.info.credentialCapacity.toNat := size
    omega
  · rintro x fresh rfl ⟨reserved, first, full⟩
    have counted : x.grant.credentialId ∈ n.uses := by
      rcases h.ledger_cases with ⟨_, same | ⟨relock, _⟩⟩ | ⟨y, same, _, _, accepted⟩ | ⟨settled, _⟩ |
        ⟨settled, _⟩
      · cases same.trans fresh
      · cases relock
      · cases same
        have uses : n.uses = (x.auth P m).uses := congrArg AuthState.uses accepted.auth
        rw [uses]
        simp [Accepted.auth, reserved]
      · cases settled
      · cases settled
    exact fits ⟨_, counted, h.overfills counted first full⟩

/-- Every credential with a counted use is bound. -/
def UsesBound (m : DeviceSnapshot) : Prop := ∀ id ∈ m.uses, id ∈ m.bindings

/-- A table whose credentials are all bound, and another bound credential besides them. -/
private theorem size_lt_of_bound (covered : ∀ id ∈ table, id ∈ bindings) (bound : id ∈ bindings)
    (unlisted : id ∉ table) :
    table.size < bindings.size := by
  have subset : id :: table.keys ⊆ bindings.keys := by
    intro id' hid
    rw [Std.ExtTreeMap.mem_keys]
    rcases List.mem_cons.1 hid with rfl | old
    · exact bound
    · exact covered id' (Std.ExtTreeMap.mem_keys.1 old)
  have distinct : (id :: table.keys).Nodup :=
    List.nodup_cons.2 ⟨fun old => unlisted (Std.ExtTreeMap.mem_keys.1 old),
      Std.ExtTreeMap.nodup_keys⟩
  have size := (List.subperm_of_subset distinct subset).length_le
  rwa [List.length_cons, Std.ExtTreeMap.length_keys, Std.ExtTreeMap.length_keys] at size

/-- With every credential of a table bound, one that is bound, or for which the bindings have
room, is listed or has room. -/
theorem room_of_bound {k : Nat} (covered : ∀ id ∈ table, id ∈ bindings) (fits : bindings.size ≤ k)
    (room : id ∈ bindings ∨ bindings.size < k) :
    id ∈ table ∨ table.size < k := by
  by_cases listed : id ∈ table
  · exact .inl listed
  · right
    rcases room with bound | room
    · exact Nat.lt_of_lt_of_le (size_lt_of_bound covered bound listed) fits
    · have subset : table.keys ⊆ bindings.keys := fun id old =>
        Std.ExtTreeMap.mem_keys.2 (covered id (Std.ExtTreeMap.mem_keys.1 old))
      have size := (List.subperm_of_subset Std.ExtTreeMap.nodup_keys subset).length_le
      rw [Std.ExtTreeMap.length_keys, Std.ExtTreeMap.length_keys] at size
      omega

/-- With every use bound, the check for room among the bindings makes room for the use. -/
theorem Change.fits_of_bound (h : Change P f s m n pr ow) (sound : Sound P f m)
    (bound : UsesBound m) : ¬ ∃ id ∈ n.uses, OverfillsUses P f m id s.request := by
  rintro ⟨id, counted, full, first, _⟩
  obtain ⟨x, _, _, accepted, rfl, _⟩ := h.first_use counted first
  rcases room_of_bound bound sound.valid.auth.bindingsFit accepted.bindingRoom with used | room
  · exact first used
  · exact absurd full (Nat.not_le.2 room)

theorem Change.uses_bound (h : Change P f s m n pr ow) (sound : Sound P f m) (bound : UsesBound m) :
    UsesBound n := by
  intro id counted
  by_cases first : id ∈ m.uses
  · have known := bound id first
    rcases h.ledger_cases with ⟨ledger, _⟩ | ⟨x, _, _, _, acceptance⟩ | ⟨_, _, _, _, _, ownerless⟩ |
      ⟨_, _, _, _, uses⟩
    · simp only [AuthState.ledger, Prod.mk.injEq] at ledger
      have bindings : n.bindings = m.bindings := ledger.2.2.2.2
      rwa [bindings]
    · have bindings : n.bindings = (x.auth P m).bindings := congrArg AuthState.bindings acceptance.auth
      rw [bindings]
      simp [Accepted.auth, known]
    · simp [(sound.unowned ownerless).uses] at first
    · simp [uses] at counted
  · obtain ⟨x, _, _, accepted, rfl, _⟩ := h.first_use counted first
    have bindings : n.bindings = (x.auth P m).bindings := congrArg AuthState.bindings accepted.auth
    rw [bindings]
    simp [Accepted.auth]

end Uses

section Runs
variable {s s' : Lock P f} {ev : Event Answer}

/-- Without a migration every effect keeps the durable uses bound. -/
private theorem usesBound_step (hs : s.1.Step P f ev s'.1) (call : s.1.call.migrates = false)
    (bound : ∀ d, s.1.disk = some d → UsesBound d) : ∀ d, s'.1.disk = some d → UsesBound d := by
  have moves := s.2.moves hs
  generalize s'.1 = t at moves
  cases moves with
  | start => exact bound
  | commit n r s₀ m _ _ _ _ disk sound change =>
    have stored := change.uses_bound sound (bound m disk)
    cases r with
    | lost => exact bound
    | ok | written => rintro _ ⟨⟩; exact stored
  | install n r disk installs =>
    have stored : UsesBound n := by
      generalize s.1.call = k at call installs
      match k, installs with
      | .construct .provision, rfl => exact fun _ counted => by simp [DeviceSnapshot.factory] at counted
      | .construct (.migrateLegacy _ _ _), _ => cases call
    cases r with
    | lost => exact bound
    | ok | written => rintro _ ⟨⟩; exact stored
  | other _ _ _ _ disk => rw [disk]; exact bound

/-- Unless a legacy record was imported, the durable uses are bound. -/
def BoundStore (ms : List Moment) (s : Lock P f) : Prop :=
  (∀ m ∈ ms, m.call.migrates = false) → ∀ d, s.1.disk = some d → UsesBound d

theorem BoundStore.inductively : Run.Inductive (BoundStore : List Moment → Lock P f → Prop) := by
  refine ⟨fun _ _ h => (by cases h), fun _ _ _ _ h => h, fun ms s ev s' h hs unmigrated => ?_⟩
  exact usesBound_step hs (unmigrated _ (List.mem_append_right _ List.mem_cons_self))
    (h fun m hm => unmigrated m (List.mem_append_left _ hm))

end Runs

section Commit
variable {c : Controller} {g : Grant} {e : Error}

/-- The end of `commit` once its own check has passed: storage alone decides, and a failure
poisons the controller and stops its drive. -/
def storeResult (c : Controller) (n : DeviceSnapshot) :
    CommitAnswer → Prog Answer (Except Error Unit × Controller)
  | .ok => .pure (.ok (), { c with state := n })
  | .lost _ | .written _ => retryStop { c with poisoned := true } (.error .storageUnavailable)

private theorem failIf_run {p : Prop} [Decidable p] (h : ¬ p) :
    (failIf p e : Ctl Unit).run c = .pure (.ok (), c) := by
  rw [failIf, if_neg h]
  rfl

theorem commit_run (live : c.poisoned = false) (valid : n.validate P c.factory = .ok ())
    (floor : floorBelow n.clockFloor c.state.clockFloor = false) :
    (commit P n).run c = .op (.submit n) fun _ => .op (.commit n) (storeResult c n) := by
  change ((failIf c.poisoned .storageUnavailable : Ctl Unit).run c).bind _ = _
  rw [failIf_run (by simp [live])]
  refine congrArg (Prog.op (Effect.submit n)) (funext fun _ => ?_)
  change ((failIf (floorBelow n.clockFloor c.state.clockFloor) .clockRollback : Ctl Unit).run c).bind _ = _
  rw [failIf_run (by simp [floor])]
  change (orFail (n.validate P c.factory) >>= _ : Ctl Unit).run c = _
  rw [valid]
  refine congrArg (Prog.op (Effect.commit n)) (funext fun x => ?_)
  have poisons : ((poison : Ctl Unit) >>= fun _ => throw .storageUnavailable : Ctl Unit).run c =
      retryStop { c with poisoned := true } (.error .storageUnavailable) := by
    change (stopPoisonedAction.run { c with poisoned := true }).bind _ = _
    rw [stopPoisonedAction_run]
    exact retryStop_bind _ _ _ fun _ => rfl
  cases x with
  | ok => rfl
  | lost => exact poisons
  | written => exact poisons

/-- One of the tables that acceptance checks is full: the watermarks, the bindings, or the
operation records with none that may be evicted. -/
def TableFull (c : Controller) (g : Grant) : Prop :=
  capacityExhausted c g.credentialId = true
  ∨ (c.factory.info.operationCapacity.toNat ≤ c.state.operations.length
    ∧ (∀ r ∈ c.state.operations, evictable c r = false) ∧ UseAllowed c.state g)

private theorem reserveUseIf_allowed (p : Prop) [Decidable p] {m n : DeviceSnapshot}
    (h : UseAllowed m g) (uses : n.uses = m.uses) :
    ∃ n', reserveUseIf p n g = .ok n' ∧ n'.operations = n.operations := by
  unfold reserveUseIf
  split
  · have same : n.usesOf g.credentialId = m.usesOf g.credentialId := by
      rw [DeviceSnapshot.usesOf, DeviceSnapshot.usesOf, uses]
    have limit : ¬ (g.maxUses.any fun max => m.usesOf g.credentialId ≥ max) = true := by
      cases hm : g.maxUses with
      | none => simp
      | some k => simpa [UInt32.not_le] using h.limit k hm
    have range : checkedAdd32 (m.usesOf g.credentialId) 1 = some (m.usesOf g.credentialId + 1) :=
      if_pos h.range
    simp [reserveUse, failIf, same, limit, range, okOr]
  · exact ⟨n, rfl, rfl⟩

private theorem evict_exhausted {ops : List OperationRecord}
    (full : c.factory.info.operationCapacity.toNat ≤ ops.length)
    (pending : ∀ r ∈ ops, evictable c r = false) : evict c ops = .error .resourceExhausted := by
  have none : ops.findIdx? (evictable c) = none := List.findIdx?_eq_none_iff.2 pending
  rw [evict, if_pos full, none]
  rfl

private theorem run_get_bind {α : Type} (c : Controller) (g : Controller → Ctl α) :
    (get >>= g : Ctl α).run c = (g c).run c := rfl

private theorem run_orFail_error {α β : Type} {x : Except Error α} (h : x = .error e)
    (g : α → Ctl β) : (orFail x >>= g : Ctl β).run c = .pure (.error e, c) := by
  subst h
  rfl

/-- A full table is reported before anything happens. -/
theorem accept_exhausted (full : TableFull c g) (cmd : Command) (seq now : UInt64)
    (digest : Bytes32) (status : OperationStatus) :
    (accept P cmd g seq now digest status).run c = .pure (.error .resourceExhausted, c) := by
  have draft : acceptedSnapshot P c cmd g seq ⟨digest, status⟩ = .error .resourceExhausted := by
    unfold acceptedSnapshot
    rw [failIf]
    split
    · rfl
    · rename_i room
      obtain ⟨full, pending, allowed⟩ := full.resolve_left room
      have none := evict_exhausted full pending
      obtain ⟨next, reserved, operations⟩ := reserveUseIf_allowed
        (cmd.action = .unlock ∧ ¬ noChange c cmd.action) (n := { c.state with
          watermarks := c.state.watermarks.insert g.credentialId seq
          bindings := c.state.bindings.insert g.credentialId (P.sha256 cmd.credential) }) allowed rfl
      change (reserveUseIf (cmd.action = .unlock ∧ ¬ noChange c cmd.action) { c.state with
          watermarks := c.state.watermarks.insert g.credentialId seq
          bindings := c.state.bindings.insert g.credentialId (P.sha256 cmd.credential) } g >>= _) = _
      rw [reserved]
      change (evict c next.operations >>= _) = _
      rw [operations, none]
      rfl
  rw [accept, run_get_bind, run_orFail_error draft]

/-- A policy that is otherwise acceptable lists more revocations than there is room for. -/
def RevocationsFull (P : Primitives) (c : Controller) (bytes : Bytes) : Prop :=
  ∃ key p, issuerKey P c.state = .ok key ∧ readPolicy P key bytes = .ok p
    ∧ p.lockId = c.state.lockId ∧ ¬ (c.active.isSome ∧ p.epoch > c.state.epoch)
    ∧ ¬ (p.epoch < c.state.epoch
      ∨ (p.epoch = c.state.epoch ∧ p.version ≤ c.state.policyVersion))
    ∧ (p.revoked.size > c.factory.info.credentialCapacity.toNat
      ∨ (p.epoch = c.state.epoch
        ∧ (c.state.revoked ∪ p.revoked).size > c.factory.info.credentialCapacity.toNat))

theorem policy_exhausted {bytes : Bytes} (h : RevocationsFull P c bytes) :
    Preflight.policy P c bytes = .error .resourceExhausted := by
  obtain ⟨key, p, issuer, read, lock, idle, newer, full⟩ := h
  have checks : ∀ (q : Prop) [Decidable q] (e : Error), ¬ q →
      (failIf q e : Except Error Unit) = .ok () := by
    intro q _ e h
    exact failIf_eq_ok.2 h
  unfold Preflight.policy
  rw [issuer]
  change (do let p ← readPolicy P key bytes; _ : Except Error Unit) = _
  rw [read]
  change (do failIf (p.lockId ≠ c.state.lockId) Error.wrongLock; _ : Except Error Unit) = _
  rw [checks _ _ (by simp [lock])]
  change (do failIf (c.active.isSome ∧ p.epoch > c.state.epoch) Error.busy; _ : Except Error Unit) = _
  rw [checks _ _ idle]
  change (do failIf (p.epoch < c.state.epoch
      ∨ (p.epoch = c.state.epoch ∧ p.version ≤ c.state.policyVersion)) Error.stalePolicy; _ : Except Error Unit) = _
  rw [checks _ _ newer]
  exact if_pos full

end Commit

/-- A submission as a step of the abstract lock, from the durable snapshot it replaces. -/
private theorem submission {r : Record P f} {s s' : Lock P f} (follows : Follows r s s')
    {pre post : List (Event Answer)} {u : Unit} (split : r.trace = pre ++ ⟨.submit n, u⟩ :: post) :
    ∃ (t t' : Lock P f) (m : DeviceSnapshot) (pr : Progress) (ow : Option Active),
      Path (lockSpec P f) (s.enter r.call r.before.controller) pre t
      ∧ Path (lockSpec P f) t' post s' ∧ t.1.request = r.call.request r.before.controller
      ∧ storage.afterAll r.before.disk pre = some m ∧ t.1.disk = some m ∧ t'.1.mem = some m
      ∧ Sound P f m ∧ Change P f t.1 m n pr ow := by
  obtain ⟨t, t', before, hs, rest, call, entry, view⟩ := follows.effect split
  obtain ⟨live, _, m, pr, ow, mem, change, submitted⟩ := hs
  have disk := t.2.synced live m mem
  exact ⟨t, t', m, pr, ow, before, rest, by rw [Abs.request, call, entry], view ▸ disk, disk,
    by rw [submitted]; exact mem, t.2.mem m mem, change⟩

/-- What becomes of the snapshots that a live controller hands to `commit`. -/
structure SubmissionsAccepted (run : Run P f) : Prop where
  /-- The controller's own check accepts a snapshot it builds, and its clock floor is not below
  the durable one, exactly when the snapshot does not overfill the uses. -/
  checked : ∀ r ∈ run.records, ∀ pre n u post, r.trace = pre ++ ⟨.submit n, u⟩ :: post →
    ∃ m, storage.afterAll r.before.disk pre = some m
      ∧ ((n.validate P f = .ok () ∧ floorBelow n.clockFloor m.clockFloor = false)
        ↔ ¬ ∃ id ∈ n.uses, OverfillsUses P f m id (r.call.request r.before.controller))
  /-- A store that fails poisons the controller. -/
  poisoned : ∀ r ∈ run.records, ∀ pre n u x rest,
    r.trace = pre ++ ⟨.submit n, u⟩ :: ⟨.commit n, x⟩ :: rest → x ≠ .ok →
      (∀ ev ∈ rest, ev.effect = .stopAction)
      ∧ ∀ c, r.after.controller = some c → c.poisoned = true
  /-- What the check accepts is decided by storage alone. -/
  stored : ∀ (c : Controller) (n : DeviceSnapshot), c.poisoned = false →
    n.validate P c.factory = .ok () → floorBelow n.clockFloor c.state.clockFloor = false →
    (commit P n).run c = .op (.submit n) fun _ => .op (.commit n) (storeResult c n)
  /-- Full watermarks, bindings, operations and revocations are reported before any commit. -/
  tables : ∀ (c : Controller) (g : Grant), TableFull c g → ∀ cmd seq now digest status,
    (accept P cmd g seq now digest status).run c = .pure (.error .resourceExhausted, c)
  revocations : ∀ (c : Controller) (bytes : Bytes), RevocationsFull P c bytes →
    Preflight.policy P c bytes = .error .resourceExhausted
  /-- Without a migration no snapshot overfills the uses. -/
  unmigrated : (∀ r ∈ run.records, r.call.migrates = false) →
    ∀ r ∈ run.records, ∀ pre n u post, r.trace = pre ++ ⟨.submit n, u⟩ :: post →
      ∀ m, storage.afterAll r.before.disk pre = some m →
        ¬ ∃ id ∈ n.uses, OverfillsUses P f m id (r.call.request r.before.controller)

theorem submissions_accepted_iff (run : Run P f) : SubmissionsAccepted run where
  checked r hr pre n u post split := by
    obtain ⟨s, s', follows⟩ := run.follows hr
    obtain ⟨t, t', m, pr, ow, _, _, request, view, _, _, sound, change⟩ := submission follows split
    refine ⟨m, view, ?_⟩
    rw [validate_ok, ← request]
    exact change.valid_iff sound
  poisoned r hr pre n u x after split failed := by
    obtain ⟨s, s', follows⟩ := run.follows hr
    obtain ⟨_, t', m, _, _, _, rest, _, _, _, mem, _⟩ := submission follows split
    cases rest with
    | @cons _ v _ _ _ head tail =>
      have dead : v.1.poisoned = true := by
        have step : t'.1.Step P f ⟨.commit n, x⟩ v.1 := head
        rcases step with ⟨_, _, _, _, _, _, _, _, _, _, hv⟩ | ⟨_, _, unloaded, _⟩
        · rw [hv]
          cases x with
          | ok => exact absurd rfl failed
          | lost | written => rfl
        · cases mem.symm.trans unloaded
      refine ⟨Abs.poisoned_trace tail dead, fun c left => ?_⟩
      rw [← (follows.after.controller c left).poisoned]
      exact Abs.poisoned_path tail dead
  stored c n live valid floor := commit_run live valid floor
  tables c g full cmd seq now digest status := accept_exhausted full cmd seq now digest status
  revocations c bytes full := policy_exhausted full
  unmigrated unmigrated r hr pre n u post split m view := by
    obtain ⟨rs, rest, records⟩ := List.append_of_mem hr
    obtain ⟨s, s', stored, follows⟩ := run.call BoundStore.inductively records
    obtain ⟨t, _, m', pr, ow, before, _, request, view', disk, _, sound, change⟩ :=
      submission follows split
    cases view.symm.trans view'
    have earlier : ∀ d, s.1.disk = some d → UsesBound d := by
      refine stored fun moment hm => ?_
      obtain ⟨q, hq, inside⟩ := List.mem_flatMap.1 hm
      rw [momentsFrom_call inside]
      exact unmigrated q (by rw [records]; exact List.mem_append_left _ hq)
    have within : t.1.call.migrates = false ∧ ∀ d, t.1.disk = some d → UsesBound d := by
      refine Follows.along (I := fun _ u => u.1.call.migrates = false ∧
        ∀ d, u.1.disk = some d → UsesBound d) (fun _ _ _ _ h hs => ⟨?_, usesBound_step hs h.1 h.2⟩)
        ⟨unmigrated r hr, earlier⟩ before
      rw [(Frame.step hs).call]
      exact h.1
    rw [← request]
    exact change.fits_of_bound sound (within.2 m disk)

/-- The first unlock under a new credential on a device whose imported uses fill the table. -/
def Bench.overfull : Run Bench.primitives Bench.factory :=
  (Bench.migrated [1, 2]).then (Bench.steady 1)
    (Bench.send 1 (some 1) .unlock)

/-- It submits a snapshot that its own check refuses, and answers with a storage error from
a controller that is still live. -/
theorem overfull_migration_refused : ∃ r ∈ Bench.overfull.records,
    (∃ n u, (⟨.submit n, u⟩ : Event Answer) ∈ r.trace
      ∧ n.validate Bench.primitives Bench.factory = .error .storageUnavailable)
    ∧ r.output = some (.response ⟨0, .error Error.storageUnavailable.code⟩)
    ∧ ∃ c, r.after.controller = some c ∧ c.poisoned = false := by
  have found : (Bench.overfull.records.any fun r =>
      (r.trace.any fun ev => match ev.effect with
        | .submit n => n.validate Bench.primitives Bench.factory = .error .storageUnavailable
        | _ => false)
      && decide (r.output = some (.response ⟨0, .error Error.storageUnavailable.code⟩))
      && r.after.controller.any fun c => !c.poisoned) = true := by decide +kernel
  obtain ⟨r, hr, checks⟩ := List.any_eq_true.1 found
  simp only [Bool.and_eq_true, List.any_eq_true, decide_eq_true_eq, Option.any_eq_true,
    Bool.not_eq_true'] at checks
  obtain ⟨⟨⟨⟨e, u⟩, hev, refused⟩, output⟩, live⟩ := checks
  refine ⟨r, hr, ?_, output, live⟩
  cases e with
  | submit n => exact ⟨n, u, hev, of_decide_eq_true refused⟩
  | _ => cases refused

end OpenLock
