import OpenLock.Properties.Snapshots

/-! Room in the credential tables. On a device that was not imported every credential with
an accepted sequence or a counted use is bound, so a bound credential always finds room. -/
namespace OpenLock
open Controller Effects

variable {P : Primitives} {f : FactoryIdentity} {id : CredentialId} {q : Moment}

/-- Every credential with an accepted sequence or a counted use is bound. -/
structure Covered (m : DeviceSnapshot) : Prop where
  uses : UsesBound m
  watermarks : ∀ id ∈ m.watermarks, id ∈ m.bindings

section Tables
variable {s : Abs} {m n : DeviceSnapshot} {pr : Progress} {ow : Option Active}

theorem Change.covered (h : Change P f s m n pr ow) (sound : Sound P f m) (covered : Covered m) :
    Covered n := by
  refine ⟨h.uses_bound sound covered.uses, fun id listed => ?_⟩
  rcases h.ledger_cases with ⟨ledger, _⟩ | ⟨x, _, _, _, acceptance⟩ |
    ⟨_, _, _, _, watermarks, ownerless⟩ | ⟨_, _, _, watermarks, _⟩
  · simp only [AuthState.ledger, Prod.mk.injEq] at ledger
    have watermarks : n.watermarks = m.watermarks := ledger.2.2.2.1
    have bindings : n.bindings = m.bindings := ledger.2.2.2.2
    rw [bindings]
    exact covered.watermarks id (watermarks ▸ listed)
  · have watermarks : n.watermarks = (x.auth P m).watermarks :=
      congrArg AuthState.watermarks acceptance.auth
    have bindings : n.bindings = (x.auth P m).bindings := congrArg AuthState.bindings acceptance.auth
    rw [watermarks] at listed
    rw [bindings]
    simp only [Accepted.auth, Std.ExtTreeMap.mem_insert] at listed ⊢
    exact listed.imp_right (covered.watermarks id)
  · rw [watermarks, (sound.unowned ownerless).watermarks] at listed
    simp at listed
  · rw [watermarks] at listed
    simp at listed

/-- A mutation under this credential is not refused for lack of room: the check before
acceptance passes, and a snapshot that accepts it keeps every table within the capacity. -/
def Roomy (P : Primitives) (f : FactoryIdentity) (d : DeviceSnapshot) (id : CredentialId) : Prop :=
  ∀ c : Controller, c.state = d → SameFactory f c.factory → capacityExhausted c id = false
    ∧ ∀ cmd g seq record n, g.credentialId = id → acceptedSnapshot P c cmd g seq record = .ok n →
      n.watermarks.size ≤ f.info.credentialCapacity.toNat
      ∧ n.bindings.size ≤ f.info.credentialCapacity.toNat
      ∧ n.uses.size ≤ f.info.credentialCapacity.toNat

/-- The tables of an accepted snapshot. -/
private theorem acceptedSnapshot_tables {c : Controller} {cmd : Command} {g : Grant} {seq : UInt64}
    {record : OperationRecord} {n : DeviceSnapshot}
    (h : acceptedSnapshot P c cmd g seq record = .ok n) :
    n.watermarks = c.state.watermarks.insert g.credentialId seq
      ∧ n.bindings = c.state.bindings.insert g.credentialId (P.sha256 cmd.credential)
      ∧ (n.uses = c.state.uses ∨ ∃ k, n.uses = c.state.uses.insert g.credentialId k) := by
  simp only [acceptedSnapshot, bind_eq_ok, failIf_eq_ok, pure_eq_ok, reserveUseIf] at h
  obtain ⟨_, _, next, reserved, ops, _, rfl⟩ := h
  split at reserved
  · simp only [reserveUse, bind_eq_ok, failIf_eq_ok, okOr_eq_ok, pure_eq_ok] at reserved
    obtain ⟨_, _, k, _, rfl⟩ := reserved
    exact ⟨rfl, rfl, .inr ⟨k, rfl⟩⟩
  · cases reserved
    exact ⟨rfl, rfl, .inl rfl⟩

theorem Covered.roomy {d : DeviceSnapshot} (h : Covered d) (valid : Valid P f d)
    (bound : id ∈ d.bindings) : Roomy P f d id := by
  rintro c rfl factory
  have capacity : c.factory.info.credentialCapacity = f.info.credentialCapacity := by rw [factory]
  have fits : c.state.bindings.size ≤ f.info.credentialCapacity.toNat := valid.auth.bindingsFit
  have watermarks := room_of_bound h.watermarks fits (.inl bound)
  have uses := room_of_bound h.uses fits (.inl bound)
  refine ⟨?_, ?_⟩
  · simp only [capacityExhausted, capacity, Bool.or_eq_false_iff, Bool.and_eq_false_iff,
      Bool.not_eq_false', Std.ExtTreeMap.contains_iff_mem, decide_eq_false_iff_not, ge_iff_le,
      Nat.not_le]
    exact ⟨watermarks, .inl bound⟩
  · rintro cmd g seq record n rfl accepted
    obtain ⟨hw, hb, hu⟩ := acceptedSnapshot_tables accepted
    refine ⟨?_, ?_, ?_⟩
    · rw [hw]
      exact size_insert_le valid.auth.watermarksFit watermarks
    · rw [hb]
      exact size_insert_le fits (.inl bound)
    · rcases hu with same | ⟨k, counted⟩
      · rw [same]
        exact valid.auth.usesFit
      · rw [counted]
        exact size_insert_le valid.auth.usesFit uses

end Tables

/-- No imported record was ever installed. -/
def Unimported (ms : List Moment) : Prop :=
  ∀ q ∈ ms, q.disk = none → ∀ n, q.Stores n → q.call.migrates = false

/-- Unless a legacy record was installed, the store and the controller are covered. -/
def CoveredStore (ms : List Moment) (s : Lock P f) : Prop :=
  Unimported ms → (∀ d, s.1.disk = some d → Covered d) ∧ ∀ m, s.1.mem = some m → Covered m

namespace CoveredStore
variable {ms : List Moment} {s s' : Lock P f} {ev : Event Answer}

private theorem disk_step (hs : s.1.Step P f ev s'.1)
    (first : s.1.disk = none → ∀ n,
      (Moment.mk s.1.call s.1.entry s.1.disk ev).Stores n → s.1.call.migrates = false)
    (covered : ∀ d, s.1.disk = some d → Covered d) : ∀ d, s'.1.disk = some d → Covered d := by
  have moves := s.2.moves hs
  generalize s'.1 = t at moves
  cases moves with
  | start => exact covered
  | commit n r s₀ m _ _ _ _ disk sound change =>
    have stored := change.covered sound (covered m disk)
    cases r with
    | lost => exact covered
    | ok | written =>
      rintro _ ⟨⟩
      exact stored
  | install n r disk installs =>
    have stored : (∀ e, r ≠ .lost e) → Covered n := by
      intro kept
      have provisioned := first disk n ⟨r, rfl, kept⟩
      generalize s.1.call = k at provisioned installs
      cases k with
      | method => cases installs
      | construct k =>
        cases k with
        | provision =>
          cases installs
          exact ⟨fun _ counted => by simp [DeviceSnapshot.factory] at counted,
            fun _ listed => by simp [DeviceSnapshot.factory] at listed⟩
        | migrateLegacy => cases provisioned
        | «open» => cases installs
    cases r with
    | lost => exact covered
    | ok | written =>
      rintro _ ⟨⟩
      exact stored fun _ h => by cases h
  | other _ _ _ _ disk =>
    rw [disk]
    exact covered

theorem inductively : Run.Inductive (CoveredStore : List Moment → Lock P f → Prop) := by
  refine ⟨fun _ => ⟨fun _ h => (by cases h), fun _ h => (by cases h)⟩, ?_, ?_⟩
  · intro ms s call entry h unimported
    obtain ⟨disk, mem⟩ := h unimported
    refine ⟨disk, fun m hm => ?_⟩
    change (if call.constructs then none else s.1.mem) = some m at hm
    split at hm
    · cases hm
    · exact mem m hm
  · intro ms s ev s' h hs unimported
    obtain ⟨disk, mem⟩ := h fun q hq => unimported q (List.mem_append_left _ hq)
    have disk' := disk_step hs
      (unimported _ (List.mem_append_right _ List.mem_cons_self)) disk
    refine ⟨disk', fun m hm => ?_⟩
    rcases hs.mem_cases with same | stored
    · exact mem m (same.symm.trans hm)
    · exact disk' m (stored.symm.trans hm)

end CoveredStore

/-- What a credential has once it is bound, as long as the epoch lasts. -/
structure KeepsSlots (P : Primitives) (f : FactoryIdentity) (n d : DeviceSnapshot)
    (id : CredentialId) : Prop where
  binding : ∀ digest, n.bindings[id]? = some digest → d.bindings[id]? = some digest
  watermark : n.watermark id ≤ d.watermark id
  room : Roomy P f d id

theorem Run.keepsSlots (run : Run P f) {pre mid post : List Moment} {n d : DeviceSnapshot}
    {digest : Bytes32} (split : run.moments = pre ++ q :: mid ++ post)
    (unimported : Unimported (pre ++ q :: mid)) (stores : q.Stores n)
    (bound : n.bindings[id]? = some digest) (later : storeAfter (pre ++ q :: mid) = some d)
    (epoch : d.epoch = n.epoch) :
    KeepsSlots P f n d id := by
  have order : run.moments = (pre ++ [q]) ++ mid ++ post := by simpa using split
  obtain ⟨b, hb, advances⟩ := run.advances order (stores.storeAfter pre)
  have same : b = d := by
    rw [List.append_assoc, List.singleton_append, later] at hb
    exact (Option.some.inj hb).symm
  subst same
  obtain ⟨s, covered, forward⟩ := run.along (CoveredStore.inductively.and Forward.inductively) split
  have disk : s.1.disk = some b := forward.disk.trans later
  refine ⟨advances.binding epoch id, advances.watermark epoch id, ?_⟩
  refine ((covered unimported).1 b disk).roomy (s.2.disk b disk).valid ?_
  have kept := advances.binding epoch id digest bound
  rw [Std.ExtTreeMap.mem_iff_isSome_getElem?, kept]
  rfl

/-- An effect that raises the watermark of a credential accepts a mutation under it. -/
theorem Run.accepts_bound (run : Run P f) {pre post : List Moment} {a n : DeviceSnapshot}
    (split : run.moments = pre ++ q :: post) (disk : q.disk = some a) (stores : q.Stores n)
    (raised : a.watermark id < n.watermark id) :
    ∃ digest, n.bindings[id]? = some digest := by
  obtain ⟨s, pr, ow, durable⟩ := run.stored split disk stores
  have unchanged : n.watermarks = a.watermarks → False := by
    intro same
    rw [DeviceSnapshot.watermark, DeviceSnapshot.watermark, same] at raised
    exact absurd raised (UInt64.lt_irrefl _)
  rcases durable.change.ledger_cases with ⟨ledger, _⟩ | ⟨x, _, _, _, accepted⟩ |
    ⟨_, _, _, _, watermarks, _⟩ | ⟨_, _, _, watermarks, _⟩
  · simp only [AuthState.ledger, Prod.mk.injEq] at ledger
    exact (unchanged ledger.2.2.2.1).elim
  · have watermarks : n.watermarks = a.watermarks.insert x.grant.credentialId x.sequence :=
      congrArg AuthState.watermarks accepted.auth
    have bindings : n.bindings = a.bindings.insert x.grant.credentialId
        (P.sha256 x.command.credential) := congrArg AuthState.bindings accepted.auth
    obtain rfl : x.grant.credentialId = id := by
      by_contra other
      rw [DeviceSnapshot.watermark, DeviceSnapshot.watermark, watermarks,
        getElem?_insert_credential, if_neg other] at raised
      exact absurd raised (UInt64.lt_irrefl _)
    exact ⟨P.sha256 x.command.credential, by rw [bindings, getElem?_insert_credential, if_pos rfl]⟩
  · exact (unchanged watermarks).elim
  · rw [DeviceSnapshot.watermark, DeviceSnapshot.watermark, watermarks] at raised
    simp at raised

/-- The claiming administrator cannot be crowded out: on a device that was provisioned every
credential with a watermark or a use is bound, in the store and in memory; so while the epoch
of a claim lasts, its administrator credential keeps its binding and finds room in every table,
and so does every credential that has had a mutation accepted in the epoch. -/
theorem administrator_keeps_room (run : Run P f) :
    (∀ pre post, run.moments = pre ++ post → Unimported pre → ∀ d, storeAfter pre = some d →
      Covered d)
    ∧ (Unimported run.moments → ∀ c, run.final.controller = some c → Covered c.state)
    ∧ (∀ pre q mid post, run.moments = pre ++ q :: mid ++ post → Unimported (pre ++ q :: mid) →
      ∀ a n d, q.disk = some a → q.Stores n → storeAfter (pre ++ q :: mid) = some d →
        d.epoch = n.epoch →
        (a.owner = none → n.owner ≠ none → ∃ context cmd key issuer admin g,
          q.request = some (context, cmd) ∧ cmd.action = .claim key issuer admin
          ∧ readGrant P ⟨issuer⟩ admin = .ok g
          ∧ n.bindings[g.credentialId]? = some (P.sha256 admin)
          ∧ KeepsSlots P f n d g.credentialId)
        ∧ ∀ id, a.watermark id < n.watermark id →
          (∃ digest, n.bindings[id]? = some digest) ∧ KeepsSlots P f n d id) := by
  refine ⟨?_, ?_, ?_⟩
  · intro pre post split unimported d hd
    obtain ⟨s, covered, forward⟩ :=
      run.along (CoveredStore.inductively.and Forward.inductively) split
    exact (covered unimported).1 d (forward.disk.trans hd)
  · intro unimported c found
    obtain ⟨s, tracks, covered⟩ := run.history CoveredStore.inductively
    exact (covered unimported).2 _ (tracks.controller c found).mem
  · intro pre q mid post split unimported a n d disk stores later epoch
    have here : run.moments = pre ++ q :: (mid ++ post) := by simpa using split
    refine ⟨fun ownerless owned => ?_, fun id raised => ?_⟩
    · obtain ⟨s, pr, ow, durable⟩ := run.stored here disk stores
      obtain ⟨_, _, entry, now, context, cmd, key, issuer, admin, g, request, _, _, claiming⟩ :=
        durable.change.claims ownerless (.inl (by rw [ownerless]; exact owned))
      have bindings : n.bindings = a.bindings.insert g.credentialId (P.sha256 admin) :=
        congrArg AuthState.bindings claiming.auth
      have bound : n.bindings[g.credentialId]? = some (P.sha256 admin) := by
        rw [bindings, getElem?_insert_credential, if_pos rfl]
      exact ⟨context, cmd, key, issuer, admin, g, durable.request ▸ request, claiming.action,
        claiming.grant, bound, run.keepsSlots split unimported stores bound later epoch⟩
    · obtain ⟨digest, bound⟩ := run.accepts_bound here disk stores raised
      exact ⟨⟨digest, bound⟩, run.keepsSlots split unimported stores bound later epoch⟩

end OpenLock
