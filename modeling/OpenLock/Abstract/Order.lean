import OpenLock.Abstract.Invariant

/-! What durable changes never take back: epochs, generations, the clock watermark and the
firmware security version only grow, and within an epoch so do watermarks, use counters,
bindings, the policy version and the revoked set. -/
namespace OpenLock
open Controller Effects DeviceSnapshot

variable {P : Primitives} {f : FactoryIdentity} {s s' : Abs} {a b m n : DeviceSnapshot}
  {pr : Progress} {ow : Option Active} {ev : Event Answer} {context : SessionContext}
  {entry : Controller} {x : Accepted} {now : UInt64} {c : Command} {tr : List (Event Answer)}

/-- The durable record moved forward from `a` to `b`. -/
structure Advances (a b : DeviceSnapshot) : Prop where
  epoch : a.epoch ≤ b.epoch
  generation : a.generation ≤ b.generation
  cursor : b.generation = a.generation → a.nextCursor.toNat ≤ b.nextCursor.toNat
  watermark : b.epoch = a.epoch → ∀ id, a.watermark id ≤ b.watermark id
  uses : b.epoch = a.epoch → ∀ id, a.usesOf id ≤ b.usesOf id
  binding : b.epoch = a.epoch → ∀ (id : CredentialId) (h : Bytes32), a.bindings[id]? = some h →
    b.bindings[id]? = some h
  rekeyed : b.owner ≠ a.owner ∨ b.epoch ≠ a.epoch ∨ b.deviceKey ≠ a.deviceKey →
    a.generation < b.generation
  floor : FloorLe a.clockFloor b.clockFloor
  security : a.firmware.securityVersion ≤ b.firmware.securityVersion
  policy : b.epoch = a.epoch → a.policyVersion ≤ b.policyVersion
  revoked : b.epoch = a.epoch → ∀ id ∈ a.revoked, id ∈ b.revoked

namespace Advances

theorem refl (a : DeviceSnapshot) : Advances a a :=
  ⟨UInt64.le_refl _, UInt64.le_refl _, fun _ => Nat.le_refl _, fun _ _ => UInt64.le_refl _,
    fun _ _ => UInt32.le_refl _, fun _ _ _ h => h, by simp, .refl _, UInt64.le_refl _,
    fun _ => UInt64.le_refl _, fun _ _ h => h⟩

theorem trans {c : DeviceSnapshot} (h : Advances a b) (h' : Advances b c) : Advances a c := by
  -- The same epoch at both ends was never left, and likewise for the generation.
  have epoch : c.epoch = a.epoch → b.epoch = a.epoch ∧ c.epoch = b.epoch := by
    intro same
    have back : b.epoch = a.epoch := UInt64.le_antisymm (same ▸ h'.epoch) h.epoch
    exact ⟨back, same.trans back.symm⟩
  have generation : c.generation = a.generation →
      b.generation = a.generation ∧ c.generation = b.generation := by
    intro same
    have back : b.generation = a.generation :=
      UInt64.le_antisymm (same ▸ h'.generation) h.generation
    exact ⟨back, same.trans back.symm⟩
  refine ⟨UInt64.le_trans h.epoch h'.epoch, UInt64.le_trans h.generation h'.generation, ?_, ?_, ?_,
    ?_, ?_, h.floor.trans h'.floor, UInt64.le_trans h.security h'.security, ?_, ?_⟩
  · intro same
    exact Nat.le_trans (h.cursor (generation same).1) (h'.cursor (generation same).2)
  · intro same id
    exact UInt64.le_trans (h.watermark (epoch same).1 id) (h'.watermark (epoch same).2 id)
  · intro same id
    exact UInt32.le_trans (h.uses (epoch same).1 id) (h'.uses (epoch same).2 id)
  · intro same id hash bound
    exact h'.binding (epoch same).2 id hash (h.binding (epoch same).1 id hash bound)
  · intro moved
    by_contra stays
    have same : c.generation = a.generation :=
      UInt64.le_antisymm (UInt64.not_lt.1 stays) (UInt64.le_trans h.generation h'.generation)
    obtain ⟨first, second⟩ := generation same
    have still : b.owner = a.owner ∧ b.epoch = a.epoch ∧ b.deviceKey = a.deviceKey := by
      by_contra away
      exact UInt64.ne_of_lt (h.rekeyed (by tauto)) first.symm
    have still' : c.owner = b.owner ∧ c.epoch = b.epoch ∧ c.deviceKey = b.deviceKey := by
      by_contra away
      exact UInt64.ne_of_lt (h'.rekeyed (by tauto)) second.symm
    rcases moved with h | h | h
    · exact h (still'.1.trans still.1)
    · exact h (still'.2.1.trans still.2.1)
    · exact h (still'.2.2.trans still.2.2)
  · intro same
    exact UInt64.le_trans (h.policy (epoch same).1) (h'.policy (epoch same).2)
  · intro same id listed
    exact h'.revoked (epoch same).2 id (h.revoked (epoch same).1 id listed)

/-- A change inside an epoch that leaves the three tables alone. -/
theorem within (epoch : b.epoch = a.epoch) (generation : a.generation ≤ b.generation)
    (cursor : a.nextCursor.toNat ≤ b.nextCursor.toNat) (watermarks : b.watermarks = a.watermarks)
    (uses : b.uses = a.uses) (bindings : b.bindings = a.bindings)
    (rekeyed : b.owner ≠ a.owner ∨ b.deviceKey ≠ a.deviceKey → a.generation < b.generation)
    (floor : FloorLe a.clockFloor b.clockFloor)
    (security : a.firmware.securityVersion ≤ b.firmware.securityVersion)
    (policy : a.policyVersion ≤ b.policyVersion) (revoked : ∀ id ∈ a.revoked, id ∈ b.revoked) :
    Advances a b := by
  refine ⟨by rw [epoch]; exact UInt64.le_refl _, generation, fun _ => cursor, ?_, ?_, ?_, ?_, floor,
    security, fun _ => policy, fun _ => revoked⟩
  · intro _ id
    rw [DeviceSnapshot.watermark, DeviceSnapshot.watermark, watermarks]
    exact UInt64.le_refl _
  · intro _ id
    rw [usesOf, usesOf, uses]
    exact UInt32.le_refl _
  · intro _ id h hb
    rw [bindings]
    exact hb
  · rintro (h | h | h)
    · exact rekeyed (.inl h)
    · exact absurd epoch h
    · exact rekeyed (.inr h)

/-- A change that opens a new epoch and generation. -/
theorem renewed (epoch : a.epoch < b.epoch) (generation : a.generation < b.generation)
    (floor : FloorLe a.clockFloor b.clockFloor)
    (security : b.firmware.securityVersion = a.firmware.securityVersion) : Advances a b := by
  have other : b.epoch ≠ a.epoch := (UInt64.ne_of_lt epoch).symm
  exact ⟨UInt64.le_of_lt epoch, UInt64.le_of_lt generation,
    fun h => absurd h (UInt64.ne_of_lt generation).symm, fun h => absurd h other,
    fun h => absurd h other, fun h => absurd h other, fun _ => generation, floor,
    UInt64.le_of_eq security.symm, fun h => absurd h other, fun h => absurd h other⟩

/-- A change of the log and the flags. -/
theorem steady (auth : b.auth = a.auth) (cursor : a.nextCursor.toNat ≤ b.nextCursor.toNat)
    (floor : FloorLe a.clockFloor b.clockFloor) : Advances a b := by
  have generation : b.generation = a.generation := congrArg AuthState.generation auth
  have firmware : b.firmware = a.firmware := congrArg AuthState.firmware auth
  have policy : b.policyVersion = a.policyVersion := congrArg AuthState.policyVersion auth
  have revoked : b.revoked = a.revoked := congrArg AuthState.revoked auth
  refine .within (congrArg AuthState.epoch auth) ?_ cursor
    (congrArg AuthState.watermarks auth) (congrArg AuthState.uses auth)
    (congrArg AuthState.bindings auth) ?_ floor (by rw [firmware]; exact UInt64.le_refl _)
    (UInt64.le_of_eq policy.symm) fun id listed => revoked ▸ listed
  · rw [generation]
    exact UInt64.le_refl _
  · rintro (h | h)
    · exact absurd (congrArg AuthState.owner auth) h
    · exact absurd (congrArg AuthState.deviceKey auth) h

end Advances

theorem getElem?_insert_credential {β : Type} (t : CredentialMap β) (k id : CredentialId) (v : β) :
    (t.insert k v)[id]? = if k = id then some v else t[id]? := by
  rw [Std.ExtTreeMap.getElem?_insert]
  simp only [Std.LawfulEqCmp.compare_eq_iff_eq]

/-- Acceptance raises one watermark, keeps or sets one binding and counts at most one use. -/
theorem Acceptance.advances {clocks : List ClockSample} (h : Acceptance P f clocks ow x m n) :
    Advances m n := by
  have epoch : n.epoch = m.epoch := congrArg AuthState.epoch h.auth
  have generation : n.generation = m.generation := congrArg AuthState.generation h.auth
  have watermarks : n.watermarks = m.watermarks.insert x.grant.credentialId x.sequence :=
    congrArg AuthState.watermarks h.auth
  have uses := congrArg AuthState.uses h.auth
  have bindings : n.bindings = m.bindings.insert x.grant.credentialId (P.sha256 x.command.credential)
    := congrArg AuthState.bindings h.auth
  have firmware : n.firmware = m.firmware := congrArg AuthState.firmware h.auth
  have policy : n.policyVersion = m.policyVersion := congrArg AuthState.policyVersion h.auth
  have revoked : n.revoked = m.revoked := congrArg AuthState.revoked h.auth
  refine ⟨by rw [epoch]; exact UInt64.le_refl _, by rw [generation]; exact UInt64.le_refl _,
    fun _ => h.logged.events.cursor_le, ?_, ?_, ?_, ?_, h.logged.floor,
    by rw [firmware]; exact UInt64.le_refl _, fun _ => UInt64.le_of_eq policy.symm,
    fun _ id listed => revoked ▸ listed⟩
  · intro _ id
    rw [watermark, watermark, watermarks, getElem?_insert_credential]
    split
    · rename_i same
      rw [← same]
      exact UInt64.le_of_lt h.authorized.fresh
    · exact UInt64.le_refl _
  · intro _ id
    simp only [usesOf, auth_uses, Accepted.auth] at uses ⊢
    rw [uses]
    split
    · rename_i paid
      have range := (h.reserved paid).2.range
      rw [getElem?_insert_credential]
      split
      · rename_i same
        rw [← same, UInt32.le_iff_toNat_le]
        simp only [usesOf] at range ⊢
        rw [Option.getD_some, UInt32.toNat_add]
        have one : (1 : UInt32).toNat = 1 := rfl
        omega
      · exact UInt32.le_refl _
    · exact UInt32.le_refl _
  · intro _ id hash bound
    rw [bindings, getElem?_insert_credential]
    split
    · rename_i same
      have check := h.authorized.binding
      rw [checkBinding, same, bound, failIf_eq_ok, not_not] at check
      rw [check]
    · exact bound
  · rintro (h' | h' | h')
    · exact absurd (congrArg AuthState.owner h.auth) h'
    · exact absurd epoch h'
    · exact absurd (congrArg AuthState.deviceKey h.auth) h'

theorem Claiming.advances {key issuer : Bytes32} {admin : Bytes} {g : Grant}
    (h : Claiming P f entry now context c key issuer admin g m n) (unowned : Unowned m) :
    Advances m n := by
  have generation : n.generation = m.generation + 1 := congrArg AuthState.generation h.auth
  have grows : m.generation < n.generation := by
    rw [generation]
    exact lt_succ h.range
  have watermarks : n.watermarks = m.watermarks := congrArg AuthState.watermarks h.auth
  have uses : n.uses = m.uses := congrArg AuthState.uses h.auth
  have epoch : n.epoch = m.epoch := congrArg AuthState.epoch h.auth
  have firmware : n.firmware = m.firmware := congrArg AuthState.firmware h.auth
  have policy : n.policyVersion = m.policyVersion := congrArg AuthState.policyVersion h.auth
  have revoked : n.revoked = m.revoked := congrArg AuthState.revoked h.auth
  refine ⟨by rw [epoch]; exact UInt64.le_refl _, UInt64.le_of_lt grows,
    fun _ => h.logged.events.cursor_le, ?_, ?_, ?_, fun _ => grows, h.logged.floor,
    by rw [firmware]; exact UInt64.le_refl _, fun _ => UInt64.le_of_eq policy.symm,
    fun _ id listed => revoked ▸ listed⟩
  · intro _ id
    rw [watermark, watermark, watermarks]
    exact UInt64.le_refl _
  · intro _ id
    rw [usesOf, usesOf, uses]
    exact UInt32.le_refl _
  · intro _ id hash bound
    rw [unowned.bindings] at bound
    simp at bound

theorem DomainChange.advances (h : DomainChange P f entry now context c m n) :
    m.epoch < n.epoch ∧ m.generation < n.generation := by
  cases h with
  | reset _ _ _ epoch generation result =>
    subst result
    exact ⟨lt_succ epoch, lt_succ generation⟩
  | replace _ _ _ _ _ epoch generation auth =>
    have hepoch : n.epoch = m.epoch + 1 := congrArg AuthState.epoch auth
    have hgeneration : n.generation = m.generation + 1 := congrArg AuthState.generation auth
    rw [hepoch, hgeneration]
    exact ⟨lt_succ epoch, lt_succ generation⟩
  | epoch _ p _ _ _ _ _ newer _ generation auth =>
    have hepoch : n.epoch = p.epoch := congrArg AuthState.epoch auth
    have hgeneration : n.generation = m.generation + 1 := congrArg AuthState.generation auth
    rw [hepoch, hgeneration]
    exact ⟨newer, lt_succ generation⟩

/-- A change of domain keeps the clock watermark and the firmware floor. -/
theorem DomainChange.keeps (h : DomainChange P f entry now context c m n) :
    FloorLe m.clockFloor n.clockFloor
      ∧ n.firmware.securityVersion = m.firmware.securityVersion := by
  cases h with
  | reset _ _ _ _ _ result =>
    subst result
    exact ⟨.refl _, rfl⟩
  | replace _ _ _ _ _ _ _ auth _ logged =>
    have firmware : n.firmware = m.firmware := congrArg AuthState.firmware auth
    exact ⟨logged.floor, by rw [firmware]⟩
  | epoch _ _ _ _ _ _ _ _ _ _ auth _ logged =>
    have firmware : n.firmware = m.firmware := congrArg AuthState.firmware auth
    exact ⟨logged.floor, by rw [firmware]⟩

/-- No accepted action lowers the firmware floor. -/
theorem Effected.security {b : AuthState} (h : Effected P f m x b) :
    b.firmware.securityVersion = m.firmware.securityVersion := by
  cases h with
  | firmware _ _ step =>
    generalize x.command.action = action at step
    cases step <;> rfl
  | config | policy | rotate => rfl

/-- The end of a trial does not lower the firmware floor. -/
theorem TrialEnded.security {w : FirmwareStatus} (h : TrialEnded m w) (trial : m.firmware.phase = .trial)
    (valid : FirmwareValid P f m.firmware m.signedManifest) :
    m.firmware.securityVersion ≤ w.securityVersion := by
  cases h with
  | confirmed stored manifest =>
    rw [FirmwareValid, if_neg (by rw [trial]; exact FirmwarePhase.noConfusion)] at valid
    obtain ⟨read, valid⟩ := valid
    have newer := valid.newer (by rw [trial]; exact FirmwarePhase.noConfusion)
    cases valid.manifest.symm.trans manifest
    exact UInt64.le_of_lt newer
  | rolledBack => exact UInt64.le_refl _

/-- Every change moves the durable record forward. -/
theorem Change.advances (h : Change P f s m n pr ow) (sound : Sound P f m) : Advances m n := by
  cases h with
  | upkeep h =>
    obtain ⟨_, h⟩ := h.keeps
    exact .steady h.auth h.logged.events.cursor_le h.logged.floor
  | accept _ _ _ _ h => exact h.advances
  | claim _ _ _ _ _ _ _ _ _ _ _ _ _ h => exact h.advances (sound.unowned h.ownerless)
  | domain _ _ _ _ _ _ _ _ _ _ _ _ _ h =>
    obtain ⟨epoch, generation⟩ := h.advances
    obtain ⟨floor, security⟩ := h.keeps
    exact .renewed epoch generation floor security
  | effect x _ _ auth _ logged =>
    have cursor := logged.events.cursor_le
    have security : m.firmware.securityVersion ≤ n.firmware.securityVersion :=
      UInt64.le_of_eq auth.security.symm
    have steady : ∀ b : AuthState, n.auth = b → b.generation = m.generation →
        b.epoch = m.epoch → b.owner = m.owner → b.deviceKey = m.deviceKey →
        b.watermarks = m.watermarks → b.uses = m.uses → b.bindings = m.bindings →
        m.policyVersion ≤ b.policyVersion → (∀ id ∈ m.revoked, id ∈ b.revoked) →
        Advances m n := by
      rintro _ rfl hg he ho hd hw hu hb hp hr
      refine .within he ?_ cursor hw hu hb ?_ logged.floor security hp hr
      · rw [← hg]
        exact UInt64.le_refl _
      · rintro (h | h)
        · exact absurd ho h
        · exact absurd hd h
    have same := UInt64.le_refl m.policyVersion
    generalize ha : n.auth = b at auth
    cases auth with
    | config => exact steady _ ha rfl rfl rfl rfl rfl rfl rfl same fun _ h => h
    | policy _ p _ _ _ _ _ _ newer =>
      refine steady _ ha rfl rfl rfl rfl rfl rfl rfl (UInt64.le_of_lt newer) fun id listed => ?_
      exact Std.ExtTreeSet.mem_union_iff.2 (.inl listed)
    | firmware => exact steady _ ha rfl rfl rfl rfl rfl rfl rfl same fun _ h => h
    | rotate signed key action valid device range =>
      have generation : n.generation = m.generation + 1 := congrArg AuthState.generation ha
      have grows : m.generation < n.generation := by
        rw [generation]
        exact lt_succ range
      have revoked : n.revoked = m.revoked := congrArg AuthState.revoked ha
      exact .within (congrArg AuthState.epoch ha) (UInt64.le_of_lt grows) cursor
        (congrArg AuthState.watermarks ha) (congrArg AuthState.uses ha)
        (congrArg AuthState.bindings ha) (fun _ => grows) logged.floor security
        (UInt64.le_of_eq (congrArg AuthState.policyVersion ha).symm)
        fun id listed => revoked ▸ listed
  | clock _ _ _ _ _ _ h => exact .steady h.auth h.logged.events.cursor_le h.logged.floor
  | trialEnded firmware _ _ trial ended auth _ logged =>
    have generation : n.generation = m.generation := congrArg AuthState.generation auth
    have same : n.firmware = firmware := congrArg AuthState.firmware auth
    have policy : n.policyVersion = m.policyVersion := congrArg AuthState.policyVersion auth
    have revoked : n.revoked = m.revoked := congrArg AuthState.revoked auth
    refine .within (congrArg AuthState.epoch auth) ?_ logged.events.cursor_le
      (congrArg AuthState.watermarks auth) (congrArg AuthState.uses auth)
      (congrArg AuthState.bindings auth) ?_ logged.floor ?_ (UInt64.le_of_eq policy.symm)
      fun id listed => revoked ▸ listed
    · rw [generation]
      exact UInt64.le_refl _
    · rintro (h | h)
      · exact absurd (congrArg AuthState.owner auth) h
      · exact absurd (congrArg AuthState.deviceKey auth) h
    · rw [same]
      exact ended.security trial sound.valid.auth.firmware

/-- The owner, the epoch and the tables of the credentials in it. -/
def AuthState.ledger (a : AuthState) : Option Owner × UInt64 × CredentialMap UInt32
    × CredentialMap UInt64 × CredentialMap Bytes32 :=
  (a.owner, a.epoch, a.uses, a.watermarks, a.bindings)

theorem Effected.ledger {b : AuthState} (h : Effected P f m x b) : b.ledger = m.auth.ledger := by
  cases h <;> rfl

/-- Apart from an acceptance, a claim and a change of domain, no change touches the ledger. -/
theorem Change.ledger_cases (h : Change P f s m n pr ow) :
    (n.auth.ledger = m.auth.ledger
      ∧ (pr = s.progress ∨ (pr = .relocking ∧ s.progress = .fresh ∧ s.call = .method .poll)))
    ∨ (∃ x, pr = .accepted x ∧ s.progress = .fresh ∧ s.request = some (x.context, x.command)
      ∧ Acceptance P f s.clocks s.owned x m n)
    ∨ (pr = .settled ∧ s.progress = .fresh ∧ n.epoch = m.epoch ∧ n.uses = m.uses
      ∧ n.watermarks = m.watermarks ∧ m.owner = none)
    ∨ (pr = .settled ∧ s.progress = .fresh ∧ m.epoch < n.epoch ∧ n.watermarks = ∅
      ∧ n.uses = ∅) := by
  cases h with
  | upkeep h => exact .inl ⟨congrArg AuthState.ledger h.auth, h.progress⟩
  | accept x _ fresh request h => exact .inr (.inl ⟨x, rfl, fresh, request, h⟩)
  | claim _ _ _ _ _ _ _ _ _ fresh _ _ _ h =>
    exact .inr (.inr (.inl ⟨rfl, fresh, congrArg AuthState.epoch h.auth,
      congrArg AuthState.uses h.auth, congrArg AuthState.watermarks h.auth, h.ownerless⟩))
  | domain _ _ _ _ _ _ _ fresh _ _ _ _ _ h =>
    refine .inr (.inr (.inr ⟨rfl, fresh, h.advances.1, ?_⟩))
    cases h with
    | reset _ _ _ _ _ result => rw [result]; exact ⟨rfl, rfl⟩
    | replace _ _ _ _ _ _ _ auth =>
      exact ⟨congrArg AuthState.watermarks auth, congrArg AuthState.uses auth⟩
    | epoch _ _ _ _ _ _ _ _ _ _ auth =>
      exact ⟨congrArg AuthState.watermarks auth, congrArg AuthState.uses auth⟩
  | effect _ _ _ auth => exact .inl ⟨auth.ledger, .inl rfl⟩
  | clock _ _ _ _ _ _ h => exact .inl ⟨congrArg AuthState.ledger h.auth, .inl rfl⟩
  | trialEnded _ _ _ _ _ auth => exact .inl ⟨by rw [auth]; rfl, .inl rfl⟩

/-- Only a claim gives an ownerless device an owner or another epoch. -/
theorem Change.claims (h : Change P f s m n pr ow) (ownerless : m.owner = none)
    (renewed : n.owner ≠ m.owner ∨ n.epoch ≠ m.epoch) : pr = .settled ∧ s.progress = .fresh
      ∧ ∃ entry now context c key issuer admin g, s.request = some (context, c)
        ∧ s.entry = some entry ∧ now ∈ s.times
        ∧ Claiming P f entry now context c key issuer admin g m n := by
  have moved : n.auth.ledger = m.auth.ledger → False := fun same =>
    renewed.elim (fun owner => owner (congrArg Prod.fst same))
      fun epoch => epoch (congrArg (·.2.1) same)
  cases h with
  | claim entry now context c key issuer admin g _ fresh request entered read h =>
    exact ⟨rfl, fresh, entry, now, context, c, key, issuer, admin, g, request, entered, read, h⟩
  | upkeep h => exact (moved (congrArg AuthState.ledger h.auth)).elim
  | accept _ _ _ _ h =>
    rcases renewed with owner | epoch
    · exact absurd (congrArg AuthState.owner h.auth) owner
    · exact absurd (congrArg AuthState.epoch h.auth) epoch
  | effect _ _ _ auth => exact (moved auth.ledger).elim
  | clock _ _ _ _ _ _ h => exact (moved (congrArg AuthState.ledger h.auth)).elim
  | trialEnded _ _ _ _ _ auth => exact (moved (by rw [auth]; rfl)).elim
  | domain _ _ _ _ _ _ _ _ _ _ _ _ authorized =>
    obtain ⟨_, granted⟩ := checkGrant_ok.1 authorized.grant
    cases granted.owner.symm.trans ownerless

/-- What an effect can do to the store and to how far the call has come. -/
inductive Abs.Moves (P : Primitives) (f : FactoryIdentity) (s : Abs) : Event Answer → Abs → Prop
  | start (id : ActuationId) (target : ActionTarget) (releaseMs : UInt32) (hold : Bool)
      (r : Except Error Unit) (a : Active) (m : DeviceSnapshot) (reading : HardwareSample)
      (quiet : s.Quiet) (idle : s.owned = none) (disk : s.disk = some m) (mem : s.mem = some m)
      (read : s.reading = some reading) (safe : StartSafe f s.lastMono m reading a)
      (armed : Armed s.progress a) (same : a.id = id) (toward : a.target = target) :
      s.Moves P f ⟨.startAction id target releaseMs hold, r⟩ (s.drive a)
  | commit (n : DeviceSnapshot) (r : CommitAnswer) (s₀ : Abs) (m : DeviceSnapshot)
      (progress : Progress) (owned : Option Active) (live : s₀.poisoned = false)
      (mem : s₀.mem = some m) (disk : s.disk = some m) (sound : Sound P f m)
      (change : Change P f s₀ m n progress owned) (submitted : s = s₀.submitted n progress owned) :
      s.Moves P f ⟨.commit n, r⟩ (s.committed n progress r)
  | install (n : DeviceSnapshot) (r : CommitAnswer) (disk : s.disk = none)
      (installs : s.call.installs f = some n) : s.Moves P f ⟨.commit n, r⟩ (s.installed n r)
  | other (ev : Event Answer) (s' : Abs) (drive : ev.effect.drive = none)
      (durable : ∀ n, ev.effect ≠ .commit n) (disk : s'.disk = s.disk)
      (progress : s'.progress = s.progress) (mem : s.call.constructs = false → s'.mem = s.mem)
      (acts : ev.effect.privileged = true → ∃ x, s.progress = .accepted x) : s.Moves P f ev s'

theorem Abs.Inv.moves (h : s.Inv P f) (hs : s.Step P f ev s') : s.Moves P f ev s' := by
  have disk := Abs.step_disk hs
  cases hs.shape with
  | start id target ms hold r a m reading quiet idle mem read safe armed same toward =>
    exact .start id target ms hold r a m reading quiet idle (h.synced quiet.live m mem) mem read
      safe armed same toward
  | commit n r s₀ m progress owned live hm change submitted =>
    have mem : s.mem = some m := by rw [submitted]; exact hm
    have poisoned : s.poisoned = false := by rw [submitted]; exact live
    exact .commit n r s₀ m progress owned live hm (h.synced poisoned m mem) (h.mem m mem) change
      submitted
  | install n r _ _ blank installs => exact .install n r blank installs
  | note e x noted _ acts =>
    have drive : e.drive = none := by cases e <;> first | rfl | cases noted
    refine .other _ _ drive ?_ rfl rfl (fun _ => rfl) fun privileged =>
      (acts privileged).2.imp fun _ accepted => accepted.1
    rintro n rfl
    cases noted
  | load r _ constructs =>
    refine .other _ _ rfl (fun _ h => (by cases h)) disk (by cases r <;> rfl) (fun method => ?_)
      fun h => by cases h
    cases method.symm.trans constructs
  | stop r =>
    exact .other _ _ rfl (fun _ h => (by cases h)) disk (by cases r <;> rfl)
      (fun _ => by cases r <;> rfl) fun h => by cases h
  | late | tick | hear | sense | submit =>
    exact .other _ _ rfl (fun _ h => (by cases h)) disk rfl (fun _ => rfl) fun h => by cases h

/-- What an effect can do to the running drive. -/
inductive Abs.Handover (s : Abs) : Event Answer → Abs → Prop
  | start (id : ActuationId) (target : ActionTarget) (releaseMs : UInt32) (hold : Bool)
      (r : Except Error Unit) (a : Active) (idle : s.owned = none) (same : a.id = id) :
      s.Handover ⟨.startAction id target releaseMs hold, r⟩ (s.drive a)
  | stopped (u : Unit) (s' : Abs) (idle : s'.owned = none) : s.Handover ⟨.stopAction, .ok u⟩ s'
  | release (n : DeviceSnapshot) (u : Unit) (s' : Abs) (entry : Controller) (a : Active)
      (result : ActuatorResult) (owned : s.owned = some a)
      (call : s.call = .method (.actuatorFinished a.id result)) (entered : s.entry = some entry)
      (active : entry.active = some a) (idle : s'.owned = none) : s.Handover ⟨.submit n, u⟩ s'
  | kept (ev : Event Answer) (s' : Abs) (drive : ev.effect.drive = none)
      (owned : s'.owned = s.owned) : s.Handover ev s'

theorem Abs.Step.handover (hs : s.Step P f ev s') : s.Handover ev s' := by
  cases hs.shape with
  | start id target ms hold r a _ _ _ idle _ _ _ _ same => exact .start id target ms hold r a idle same
  | stop r =>
    cases r with
    | ok u => exact .stopped u _ rfl
    | error => exact .kept _ _ rfl rfl
  | submit n u _ _ _ _ _ _ change =>
    cases change with
    | upkeep h =>
      cases h with
      | release entry a result _ owned call entered active =>
        exact .release n u _ entry a result owned call entered active rfl
      | _ => exact .kept _ _ rfl rfl
    | _ => exact .kept _ _ rfl rfl
  | load r => exact .kept _ _ rfl (by cases r <;> rfl)
  | commit _ r => exact .kept _ _ rfl (by cases r <;> rfl)
  | install _ r => exact .kept _ _ rfl (by cases r <;> rfl)
  | note e _ noted => exact .kept _ _ (by cases e <;> first | rfl | cases noted) rfl
  | late | tick | hear | sense => exact .kept _ _ rfl rfl

/-- What an effect can add to the readings and answers of the call. -/
inductive Abs.Reads (s : Abs) : Event Answer → Abs → Prop
  | tick (t : UInt64) : s.Reads ⟨.monotonicMs, t⟩ (s.tick t)
  | hear (r : Option ClockSample) (live : s.poisoned = false) : s.Reads ⟨.wallClock, r⟩ (s.hear r)
  | note (ev : Event Answer) : s.Reads ev (s.note ev)
  | other (ev : Event Answer) (s' : Abs) (times : s'.times = s.times)
      (clocks : s'.clocks = s.clocks) (notes : s'.notes = s.notes)
      (staging : ev.effect.stages = false) : s.Reads ev s'

theorem Abs.Step.reads (hs : s.Step P f ev s') : s.Reads ev s' := by
  cases hs.shape with
  | late t _ back => exact (if_pos back : s.tick t = _) ▸ .tick t
  | tick t _ forth => exact (if_neg forth : s.tick t = _) ▸ .tick t
  | hear r live => exact .hear r live
  | note => exact .note _
  | stop r => cases r <;> exact .other _ _ rfl rfl rfl rfl
  | load r => cases r <;> exact .other _ _ rfl rfl rfl rfl
  | commit _ r => cases r <;> exact .other _ _ rfl rfl rfl rfl
  | install _ r => cases r <;> exact .other _ _ rfl rfl rfl rfl
  | sense | start | submit => exact .other _ _ rfl rfl rfl rfl

/-- What the controller holds is kept, or taken from the store. -/
theorem Abs.Step.mem_cases (hs : s.Step P f ev s') : s'.mem = s.mem ∨ s'.mem = s'.disk := by
  cases hs.shape with
  | load r _ _ _ _ found =>
    cases r with
    | ok d => exact .inr (found d rfl)
    | error => exact .inl rfl
  | commit _ r =>
    cases r with
    | ok => exact .inr rfl
    | lost | written => exact .inl rfl
  | stop r => cases r <;> exact .inl rfl
  | install _ r => cases r <;> exact .inl rfl
  | _ => exact .inl rfl

/-- Apart from drives, what acts on the world outside carries out an accepted request. -/
theorem Abs.Step.acts (hs : s.Step P f ev s') (privileged : ev.effect.privileged = true)
    (driveless : ev.effect.drive = none) :
    s.Acts ev.effect := by
  obtain ⟨e, x⟩ := ev
  cases e with
  | startAction => cases driveless
  | setWallClock | requestReboot | bootBegin | bootWrite | bootActivate | bootAbort => exact hs.1
  | _ => cases privileged

/-- The staging area is changed only to carry out an accepted request. -/
theorem Abs.Step.stages (hs : s.Step P f ev s') (stages : ev.effect.stages = true) :
    s.Acts ev.effect ∧ s' = s.note ev := by
  obtain ⟨e, x⟩ := ev
  cases e with
  | bootBegin | bootWrite | bootAbort => exact hs
  | _ => cases stages

/-- Only a call that has accepted nothing moves on by a change. -/
theorem Change.advanced (h : Change P f s m n pr ow) : pr = s.progress ∨ s.progress = .fresh := by
  cases h with
  | upkeep h => exact h.progress.imp_right fun claim => claim.2.1
  | accept _ _ fresh => exact .inr fresh
  | claim _ _ _ _ _ _ _ _ _ fresh => exact .inr fresh
  | domain _ _ _ _ _ _ _ fresh => exact .inr fresh
  | effect | clock | trialEnded => exact .inl rfl

/-- Nothing else is accepted once ownership or the domain has changed. -/
theorem Abs.Inv.settled (h : s.Inv P f) (hs : s.Step P f ev s') (settled : s.progress = .settled) :
    s'.progress = .settled := by
  cases h.moves hs with
  | start _ _ _ _ _ _ _ _ _ _ _ _ _ _ armed =>
    rw [settled] at armed
    cases armed
  | commit n r s₀ m pr ow _ _ _ _ change submitted =>
    have before : s₀.progress = .settled := by rw [← settled, submitted]; rfl
    have after : pr = .settled := by
      rcases change.advanced with same | fresh
      · exact same.trans before
      · cases before.symm.trans fresh
    cases r with
    | ok => exact after
    | lost | written => exact settled
  | install _ r => cases r <;> exact settled
  | other _ _ _ _ _ progress => exact progress.trans settled

/-- A poisoned lock only stops a drive it owns, or the actuator before anything is known. -/
theorem Abs.Step.of_poisoned (hs : s.Step P f ev s') (dead : s.poisoned = true) :
    ∃ r, ev = ⟨.stopAction, r⟩ ∧ s' = s.stop r := by
  have live : s.poisoned ≠ false := by
    rw [dead]
    decide
  cases hs.shape with
  | stop r => exact ⟨r, rfl, rfl⟩
  | commit _ _ s₀ _ _ _ alive _ _ submitted => exact absurd (submitted ▸ alive) live
  | hear _ alive | submit _ _ _ _ _ alive => exact absurd alive live
  | late _ quiet | tick _ quiet | sense _ quiet | note _ _ _ quiet | load _ quiet
  | start _ _ _ _ _ _ _ _ quiet | install _ _ quiet => exact absurd quiet.live live

theorem Abs.poisoned_stop (s : Abs) (r : Except Error Unit) (dead : s.poisoned = true) :
    (s.stop r).poisoned = true := by
  cases r with
  | ok => exact dead
  | error => rfl

theorem Abs.Step.alive (hs : s.Step P f ev s') (live : s'.poisoned = false) :
    s.poisoned = false := by
  by_contra dead
  obtain ⟨r, _, stopped⟩ := hs.of_poisoned (by simpa using dead)
  rw [stopped, Abs.poisoned_stop _ r (by simpa using dead)] at live
  cases live

/-- Poison is never lost within a call. -/
theorem Abs.poisoned_path {s s' : Lock P f} (h : Path (lockSpec P f) s tr s')
    (dead : s.1.poisoned = true) : s'.1.poisoned = true := by
  induction h with
  | nil => exact dead
  | cons head _ ih =>
    obtain ⟨r, _, stopped⟩ := Abs.Step.of_poisoned head dead
    refine ih ?_
    rw [stopped]
    exact Abs.poisoned_stop _ r dead

/-- From then on the call only stops the actuator. -/
theorem Abs.poisoned_trace {s s' : Lock P f} (h : Path (lockSpec P f) s tr s')
    (dead : s.1.poisoned = true) :
    ∀ ev ∈ tr, ev.effect = .stopAction := by
  induction h with
  | nil => exact fun _ h => by cases h
  | cons head _ ih =>
    obtain ⟨r, rfl, stopped⟩ := Abs.Step.of_poisoned head dead
    intro ev hev
    rcases List.mem_cons.1 hev with rfl | later
    · rfl
    · refine ih ?_ ev later
      rw [stopped]
      exact Abs.poisoned_stop _ r dead

/-- Along every effect the store moves forward. -/
theorem Abs.Inv.step_advances (h : s.Inv P f) (hs : s.Step P f ev s') {d : DeviceSnapshot}
    (hd : s.disk = some d) : ∃ d', s'.disk = some d' ∧ Advances d d' := by
  cases h.moves hs with
  | start _ _ _ _ _ _ _ _ _ _ disk => exact ⟨d, hd, .refl d⟩
  | commit n r s₀ m progress owned _ _ disk sound change =>
    cases hd.symm.trans disk
    cases r with
    | ok | written => exact ⟨n, rfl, change.advances sound⟩
    | lost => exact ⟨d, hd, .refl d⟩
  | install _ _ disk =>
    rw [disk] at hd
    cases hd
  | other _ _ _ _ disk => exact ⟨d, disk.trans hd, .refl d⟩

end OpenLock
