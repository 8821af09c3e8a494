import OpenLock.Crypto.Failures
import OpenLock.Refinement.Requests

/-! Changes of ownership and of the authorization domain refine the abstract lock: a claim,
a reset, a new issuer and a new epoch are each one commit. -/
namespace OpenLock
open Controller Effects

variable {P : Primitives} {f : FactoryIdentity} {c c' : Controller} {s s' : Lock P f}
  {n : DeviceSnapshot} {entry : Controller} {context : SessionContext} {cmd : Command} {g : Grant}
  {seq now : UInt64} {a : Abs}

section Domain
variable {status : OperationStatus}

/-- How a replacement of the domain ends: with its reply, or with nothing changed. -/
structure Replaced (f : FactoryIdentity) (r : Except Error Outcome) (c' : Controller) (s' : Abs) :
    Prop where
  verdict : Verdict f r c' s'
  rejected : ∀ e, r = .error e → c'.poisoned = false → s'.progress = .fresh
  replied : ∀ o, r = .ok o → ∃ status, o = .done (some (.operation status))
  settled : s'.progress = .settled → (∃ o, r = .ok o) ∧ c'.confirmation = none

theorem Acceptable.refused (h : Acceptable P f entry context cmd now g seq c a) (e : Error) :
    Replaced f (.error e) c a :=
  ⟨h.calm, fun _ _ _ => h.fresh, fun _ h => (by cases h),
    fun settled => by cases h.fresh.symm.trans settled⟩

theorem DomainChange.announced (h : DomainChange P f entry now context cmd c.state n) :
    Announced c n := by
  cases h with
  | reset _ _ _ _ _ result =>
    intro _ confirmed
    rw [result] at confirmed
    cases confirmed
  | replace _ _ _ _ _ _ _ auth => exact .same (congrArg AuthState.firmware auth)
  | epoch _ _ _ _ _ _ _ _ _ _ auth => exact .same (congrArg AuthState.firmware auth)

/-- The one commit of a replacement, after which the confirmation is spent. -/
theorem domain_store (h : Acceptable P f entry context cmd now g seq c s.1) (idle : c.active = none)
    (change : DomainChange P f entry now context cmd c.state n) {clear : Controller → Controller}
    (volatile : ∀ c, Volatile c (clear c)) (spent : ∀ c, (clear c).confirmation = none) :
    SimE (lockSpec P f) (do commit P n; modify clear; pure (completedReply status)) c s
      fun r c' s' => Replaced f r c' s'.1 := by
  have all : Change P f s.1 c.state n .settled s.1.owned :=
    .domain entry now context cmd g seq h.recorded h.fresh h.request h.entered h.read
      (h.owned.trans idle) h.authorized change
  rw [h.owned] at all
  refine (store_spec h.toLinked h.live all change.announced fun _ _ h => (by cases h)).bind ?_ ?_
  · rintro _ c' s' (⟨_, _, _, ready⟩ | ⟨⟨⟩, _⟩)
    refine ⟨ready.volatile (volatile c'), fun _ h => (by cases h), ?_, fun _ => ⟨⟨_, rfl⟩, spent c'⟩⟩
    rintro _ ⟨⟩
    exact ⟨_, rfl⟩
  · rintro e c' s' (⟨⟨⟩, _⟩ | ⟨_, died⟩)
    refine ⟨died.verdict _, fun _ _ live => ?_, fun _ h => (by cases h), fun settled => ?_⟩
    · rw [died.poisoned] at live
      cases live
    · cases (died.progress.trans h.fresh).symm.trans settled

/-- A replacement whose snapshot is logged before it is committed. -/
theorem domain_audited (h : Acceptable P f entry context cmd now g seq c s.1)
    (idle : c.active = none) {next : DeviceSnapshot} {kind : AuditKind}
    (change : ∀ n, Audited f next n → DomainChange P f entry now context cmd c.state n) :
    SimE (lockSpec P f) (do
        let n ← audit next kind (some status.credentialId) (some status.sequence) 0
        commit P n
        modify fun c => { c with confirmation := none }
        pure (completedReply status)) c s fun r c' s' => Replaced f r c' s'.1 := by
  refine (framed (audit_spec (h.hears h.live) _ _ _ _ _)).bind ?_ ?_
  · rintro n c₁ s₁ ⟨⟨audited, rfl, heard⟩, frame⟩
    exact domain_store (h.heard heard frame) idle (change n audited)
      (fun _ => ⟨rfl, rfl, rfl, rfl, rfl⟩) fun _ => rfl
  · rintro e c₁ s₁ ⟨⟨_, rfl, heard⟩, frame⟩
    exact (h.heard heard frame).refused e

theorem factoryReset_spec (h : Acceptable P f entry context cmd now g seq c s.1)
    (action : cmd.action = .factoryReset) (confirmed : Confirmed P entry now context cmd) :
    SimE (lockSpec P f) (Execute.factoryReset P status) c s fun r c' s' =>
      Replaced f r c' s'.1 := by
  have allowed := h.allowed
  rw [action] at allowed
  unfold Execute.factoryReset
  rw [simE_bind, simE_get, andThen_ok, simE_bind, simE_orFail]
  cases nextEpoch : checkedAdd c.state.epoch 1 with
  | none => exact h.refused _
  | some epoch =>
    obtain ⟨rfl, epochFits⟩ := checkedAdd_one nextEpoch
    simp only [okOr, andThen_ok]
    rw [simE_bind, simE_orFail]
    cases nextGeneration : checkedAdd c.state.generation 1 with
    | none => exact h.refused _
    | some generation =>
      obtain ⟨rfl, generationFits⟩ := checkedAdd_one nextGeneration
      have same : Execute.resetSnapshot c.factory c.state (c.state.epoch + 1)
          (c.state.generation + 1) = Execute.resetSnapshot f c.state (c.state.epoch + 1)
          (c.state.generation + 1) := by
        rw [h.factory.same]
        rfl
      exact domain_store h allowed.1 (.reset action confirmed allowed.2 epochFits generationFits same)
        (fun _ => ⟨rfl, rfl, rfl, rfl, rfl⟩) fun _ => rfl

theorem replaceIssuer_spec {issuer : Bytes32} (h : Acceptable P f entry context cmd now g seq c s.1)
    (action : cmd.action = .replaceIssuer issuer) (confirmed : Confirmed P entry now context cmd) :
    SimE (lockSpec P f) (Execute.replaceIssuer P context status issuer) c s fun r c' s' =>
      Replaced f r c' s'.1 := by
  have allowed := h.allowed
  rw [action] at allowed
  unfold Execute.replaceIssuer
  rw [simE_bind, simE_get, andThen_ok, simE_bind, simE_orFail]
  cases nextEpoch : checkedAdd c.state.epoch 1 with
  | none => exact h.refused _
  | some epoch =>
    obtain ⟨rfl, epochFits⟩ := checkedAdd_one nextEpoch
    simp only [okOr, andThen_ok]
    rw [simE_bind, simE_orFail]
    cases nextGeneration : checkedAdd c.state.generation 1 with
    | none => exact h.refused _
    | some generation =>
      obtain ⟨rfl, generationFits⟩ := checkedAdd_one nextGeneration
      exact domain_audited h allowed.1 fun n audited => .replace issuer action confirmed allowed.2.1
        allowed.2.2 epochFits generationFits audited.auth audited.operations
        (audited.logged.congr rfl rfl)

theorem newEpoch_spec {signed : Bytes} {key : VerifyingKey} {p : PolicyUpdate}
    (h : Acceptable P f entry context cmd now g seq c s.1) (idle : c.active = none)
    (action : cmd.action = .applyPolicy signed) (issuer : issuerKey P c.state = .ok key)
    (read : readPolicy P key signed = .ok p) (lock : p.lockId = c.state.lockId)
    (newer : c.state.epoch < p.epoch) (fits : p.revoked.size ≤ f.info.credentialCapacity.toNat) :
    SimE (lockSpec P f) (Execute.applyPolicy P status signed) c s fun r c' s' =>
      Replaced f r c' s'.1 := by
  have opens : p.epoch > c.state.epoch := newer
  unfold Execute.applyPolicy
  rw [simE_bind, simE_get, andThen_ok, simE_bind, simE_orFail, issuer, andThen_ok, simE_bind,
    simE_orFail, read, andThen_ok, simE_bind, simE_orFail, Execute.policySnapshot, if_pos opens]
  cases nextGeneration : checkedAdd c.state.generation 1 with
  | none => exact h.refused _
  | some generation =>
    obtain ⟨rfl, generationFits⟩ := checkedAdd_one nextGeneration
    simp only [okOr, if_pos opens]
    exact domain_audited h idle fun n audited => .epoch signed p key action issuer read lock newer
      fits generationFits audited.auth audited.operations (audited.logged.congr rfl rfl)

/-- Replacing the domain: only a reset, a new issuer or a new epoch does it. -/
theorem replaceDomain_spec (h : Acceptable P f entry context cmd now g seq c s.1)
    (clears : clearsDomain P c.state cmd.action = .ok true)
    (confirmed : Confirms cmd.action → Confirmed P entry now context cmd) :
    SimE (lockSpec P f) (execute P context cmd status now) c s fun r c' s' =>
      Verdict f r c' s'.1 ∧ (∀ e, r = .error e → c'.poisoned = false → s'.1.progress = .fresh)
        ∧ (∀ y, r = .ok y → ∃ status, y = some (.operation status))
        ∧ (s'.1.progress = .settled → (∃ y, r = .ok y) ∧ c'.confirmation = none) := by
  have replaced : SimE (lockSpec P f) (executeAction P context cmd status now) c s
      fun r c' s' => Replaced f r c' s'.1 := by
    unfold executeAction
    cases action : cmd.action with
    | factoryReset => exact factoryReset_spec h action (confirmed (by rw [action]; trivial))
    | replaceIssuer issuer =>
      exact replaceIssuer_spec h action (confirmed (by rw [action]; trivial))
    | applyPolicy signed =>
      have allowed := h.allowed
      rw [action] at allowed clears
      obtain ⟨key, p, issuer, read, lock, ⟨newer, idle, fits⟩ | ⟨same, _⟩⟩ := allowed
      · exact newEpoch_spec h idle action issuer read lock newer fits
      · rw [clearsDomain_policy issuer read, same] at clears
        simp at clears
    | _ => rw [action] at clears; cases clears
  unfold execute
  refine replaced.bind ?_ ?_
  · rintro o c₁ s₁ replaced
    obtain ⟨status', rfl⟩ := replaced.replied o rfl
    refine ⟨replaced.verdict, fun _ h => (by cases h), ?_,
      fun settled => ⟨⟨_, rfl⟩, (replaced.settled settled).2⟩⟩
    rintro _ ⟨⟩
    exact ⟨status', rfl⟩
  · rintro e c₁ s₁ replaced
    refine ⟨replaced.verdict, fun _ _ => replaced.rejected e rfl, fun _ h => (by cases h),
      fun settled => ?_⟩
    obtain ⟨⟨_, ⟨⟩⟩, _⟩ := replaced.settled settled

end Domain
section Claim
variable {room : Prop}

theorem windowClosed_congr (gates : c.gates = c'.gates) (now : UInt64) :
    windowClosed c now = windowClosed c' now := by
  have opened : c.pairingUntil = c'.pairingUntil := congrArg (·.1) gates
  have failures : c.pairingFailures = c'.pairingFailures := congrArg (·.2.1) gates
  simp only [windowClosed, opened, failures]

theorem Handling.refused (h : Handling f entry context cmd now c a) (e : Error) :
    Answered f room (.error e) c a :=
  ⟨h.calm, fun _ _ _ _ => h.fresh, fun _ h => (by cases h),
    fun settled => by cases h.fresh.symm.trans settled⟩

/-- An answer that changes nothing. -/
theorem Handling.answered (h : Handling f entry context cmd now c a) (r : Except Error Reply) :
    Answered f room r c a := by
  refine ⟨h.verdict r, fun _ _ _ _ => h.fresh, fun _ _ some => ?_,
    fun settled => by cases h.fresh.symm.trans settled⟩
  rw [h.fresh] at some
  cases some

/-- What a claimant has to present: the setup key, and an administrator grant signed by the
issuer it names. -/
structure Presents (P : Primitives) (f : FactoryIdentity) (m : DeviceSnapshot)
    (context : SessionContext) (key issuer : Bytes32) (admin : Bytes) : Prop where
  setupKey : P.sha256 key.toList = f.setupKeyHash
  point : P.isPoint issuer = true
  grant : ∃ g, readGrant P ⟨issuer⟩ admin = .ok g ∧ adminRejected m context g = false

section Outcome
variable (P f) (k : Nat) (context : SessionContext) (cmd : Command) (key issuer : Bytes32)
  (admin : Bytes) (c : Controller)

/-- Why a claim is declined, by a controller whose log may need room for `k` events. -/
inductive Declines (c' : Controller) : Prop
  | malformed (h : cmd.validate = .ok () → ∀ a, Action.parse cmd.action.value ≠ .ok a)
  | unsupported (h : cmd.capability &&& f.info.capabilities = 0)
  | stale (h : context.generation ≠ c.state.generation)
  | owned (h : c.state.owner.isSome)
  | closed (h : windowClosed c c'.lastMono = true)
  | unfounded (h : ¬ Presents P f c.state context key issuer admin)
  | generations (h : 2^64 ≤ c.state.generation.toNat + 1)
  | exhausted (h : 2^64 ≤ c.state.nextCursor.toNat + k)
  | poisoned (h : c'.poisoned = true)

/-- How a claim ends, and what it does to the pairing window. -/
inductive Tried : Except UInt32 Reply → Controller → Prop
  | wrong {c' : Controller} (ownerless : c.state.owner = none)
      (window : windowClosed c c'.lastMono = false)
      (setupKey : P.sha256 key.toList ≠ f.setupKeyHash)
      (failures : c'.pairingFailures = c.pairingFailures + 1)
      (shuts : c'.pairingUntil = if c'.pairingFailures ≥ 5 then none else c.pairingUntil)
      (owner : c'.state.owner = c.state.owner) : Tried (.error Error.invalidSetupKey.code) c'
  | claimed {c' : Controller} (ownerless : c.state.owner = none)
      (window : windowClosed c c'.lastMono = false)
      (presents : Presents P f c.state context key issuer admin)
      (shuts : c'.pairingUntil = none) (owned : c'.state.owner ≠ none) (epoch generation : UInt64) :
      Tried (.ok (.claimed epoch generation)) c'
  | declined {c' : Controller} {code : UInt32} (other : code ≠ Error.invalidSetupKey.code)
      (gates : c'.gates = c.gates) (owner : c'.state.owner = c.state.owner)
      (why : Declines P f k context cmd key issuer admin c c') : Tried (.error code) c'

end Outcome

section Since
variable {k j : Nat} {key issuer : Bytes32} {admin : Bytes} {c'' : Controller}
  {r : Except UInt32 Reply}

theorem Presents.congr {m : DeviceSnapshot} (h : Presents P f m context key issuer admin)
    (auth : m.auth = n.auth) : Presents P f n context key issuer admin := by
  obtain ⟨g, read, administrator⟩ := h.grant
  have lockId : n.lockId = m.lockId := congrArg AuthState.lockId auth.symm
  have epoch : n.epoch = m.epoch := congrArg AuthState.epoch auth.symm
  refine ⟨h.setupKey, h.point, g, read, ?_⟩
  rw [← administrator, adminRejected, adminRejected, lockId, epoch]

/-- The reasons of a controller are those of the one the call found. -/
theorem Declines.since (h : Declines P f k context cmd key issuer admin c c'')
    (auth : c.state.auth = c'.state.auth) (gates : c.gates = c'.gates)
    (cursor : c.state.nextCursor.toNat ≤ c'.state.nextCursor.toNat + j) :
    Declines P f (j + k) context cmd key issuer admin c' c'' := by
  have owner : c.state.owner = c'.state.owner := congrArg AuthState.owner auth
  have generation : c.state.generation = c'.state.generation := congrArg AuthState.generation auth
  cases h with
  | malformed h => exact .malformed h
  | unsupported h => exact .unsupported h
  | stale h => exact .stale (generation ▸ h)
  | owned h => exact .owned (owner ▸ h)
  | closed h => exact .closed ((windowClosed_congr gates _).symm.trans h)
  | unfounded h => exact .unfounded fun presents => h (presents.congr auth.symm)
  | generations h => exact .generations (generation ▸ h)
  | exhausted h => exact .exhausted (by omega)
  | poisoned h => exact .poisoned h

theorem Tried.since (h : Tried P f k context cmd key issuer admin c r c'')
    (auth : c.state.auth = c'.state.auth) (gates : c.gates = c'.gates)
    (cursor : c.state.nextCursor.toNat ≤ c'.state.nextCursor.toNat + j) :
    Tried P f (j + k) context cmd key issuer admin c' r c'' := by
  have owner : c.state.owner = c'.state.owner := congrArg AuthState.owner auth
  have opened : c.pairingUntil = c'.pairingUntil := congrArg (·.1) gates
  have failed : c.pairingFailures = c'.pairingFailures := congrArg (·.2.1) gates
  have closed := windowClosed_congr gates c''.lastMono
  cases h with
  | wrong ownerless window setupKey failures shuts same =>
    exact .wrong (owner.symm.trans ownerless) (closed.symm.trans window) setupKey
      (failed ▸ failures) (opened ▸ shuts) (same.trans owner)
  | claimed ownerless window presents shuts owned epoch generation =>
    exact .claimed (owner.symm.trans ownerless) (closed.symm.trans window) (presents.congr auth)
      shuts owned epoch generation
  | declined other same owner' why =>
    exact .declined other (same.trans gates) (owner'.trans owner) (why.since auth gates cursor)

end Since

theorem claim_spec {key issuer : Bytes32} {admin : Bytes} (room : Prop)
    (h : Handling f entry context cmd now c s.1) (action : cmd.action = .claim key issuer admin)
    (generation : context.generation = c.state.generation) (gates : c.gates = entry.gates)
    (time : c.lastMono = now) :
    SimE (lockSpec P f) (claim P context key issuer admin now) c s fun r c' s' =>
      Answered f room r c' s'.1
        ∧ Tried P f 1 context cmd key issuer admin c (r.mapError Error.code) c' := by
  have declined : ∀ {a : Abs} {e : Error}, Handling f entry context cmd now c a →
      e.code ≠ Error.invalidSetupKey.code → Declines P f 1 context cmd key issuer admin c c →
      Answered f room (.error e) c a
        ∧ Tried P f 1 context cmd key issuer admin c (.error e.code) c :=
    fun h other why => ⟨h.refused _, .declined other rfl rfl why⟩
  unfold claim
  simp only [simE_bind, simE_get, andThen_ok]
  rw [simE_failIf]
  refine ⟨fun owned => declined h (by decide) (.owned owned), fun ownerless => ?_⟩
  simp only [andThen_ok, simE_bind]
  rw [simE_failIf]
  refine ⟨fun closed => declined h (by decide) (.closed (by rw [time]; exact closed)),
    fun window => ?_⟩
  rw [Option.not_isSome_iff_eq_none] at ownerless
  have window : windowClosed c now = false := by simpa using window
  have current : windowClosed c c.lastMono = false := by rw [time]; exact window
  have setupHash : c.factory.setupKeyHash = f.setupKeyHash := by rw [h.factory.same]
  rw [andThen_ok]
  split
  · -- a wrong setup key only counts against the pairing window
    rename_i setupKey
    unfold wrongSetupKey
    simp only [simE_bind, simE_modify, andThen_ok, simE_throw]
    refine ⟨Handling.refused (h.after (h.toReady.volatile ?_) (.refl _) rfl) _,
      .wrong ownerless current (setupHash ▸ setupKey) rfl rfl rfl⟩
    exact ⟨rfl, rfl, rfl, rfl, rfl⟩
  rename_i setupKey
  rw [not_not, setupHash] at setupKey
  simp only [simE_bind, simE_orFail]
  cases parsed : VerifyingKey.fromBytes P issuer .untrustedKey with
  | error e =>
    have untrusted : e = .untrustedKey := raises_fromBytes P issuer e parsed
    refine declined h (by rw [untrusted]; decide) (.unfounded fun presents => ?_)
    rw [(VerifyingKey.fromBytes_eq_ok P).2 ⟨presents.point, rfl⟩] at parsed
    cases parsed
  | ok verifying =>
    obtain ⟨point, rfl⟩ := (VerifyingKey.fromBytes_eq_ok P).1 parsed
    simp only [andThen_ok, simE_bind, simE_orFail]
    cases read : readGrant P ⟨issuer⟩ admin with
    | error e =>
      have other : e.code ≠ Error.invalidSetupKey.code := by
        rcases raises_readGrant P _ _ e read with (rfl | rfl) | rfl | rfl | rfl <;> decide
      refine declined h other (.unfounded fun presents => ?_)
      obtain ⟨_, good, _⟩ := presents.grant
      cases read.symm.trans good
    | ok g =>
      simp only [andThen_ok, simE_bind]
      rw [simE_failIf]
      refine ⟨fun rejected => declined h (by decide) (.unfounded fun presents => ?_),
        fun administrator => ?_⟩
      · obtain ⟨_, good, admitted⟩ := presents.grant
        cases read.symm.trans good
        cases admitted.symm.trans rejected
      have administrator : adminRejected c.state context g = false := by simpa using administrator
      simp only [andThen_ok, simE_bind, simE_orFail]
      cases next : checkedAdd c.state.generation 1 with
      | none =>
        refine declined h (by decide) (.generations (Nat.not_lt.1 fun room => ?_))
        rw [checkedAdd_isSome (b := 1) room] at next
        cases next
      | some generation' =>
        obtain ⟨rfl, range⟩ := checkedAdd_one next
        simp only [okOr, andThen_ok]
        refine (framed (recordWall_spec (h.hears h.live) _)).bind ?_
          (by rintro e c' s' ⟨⟨⟨_, ⟨⟩, _⟩, _⟩, _⟩)
        rintro n₁ c₁ s₁ ⟨⟨⟨floor, ⟨⟩, raised⟩, rfl, heard₁⟩, frame₁⟩
        have h₁ := h.after (h.toReady.heard heard₁) frame₁ heard₁.progress
        refine (framed (audit_spec (h₁.hears h₁.live) _ _ _ _ _)).bind ?_ ?_
        · rintro n c₂ s₂ ⟨⟨audited, rfl, heard₂⟩, frame₂⟩
          have h₂ := h₁.after (h₁.toReady.heard heard₂) frame₂ heard₂.progress
          have dated : Logged f.info.logCapacity.toNat c₂.state
              { claimedSnapshot P c₂.state context issuer admin g (c₂.state.generation + 1) with
                clockFloor := floor } := ⟨.refl, raised, id⟩
          have cursor : n.nextCursor.toNat = c₂.state.nextCursor.toNat + 1 := audited.cursor
          have claiming : Claiming P f entry now context cmd key issuer admin g c₂.state n :=
            ⟨h.wellFormed, h.capability, generation, action, ownerless,
              by rw [← windowClosed_congr gates]; exact window, setupKey, point, read,
              administrator, range, audited.auth, audited.operations, dated.trans audited.logged,
              by rw [Grew, cursor]; exact Nat.lt_succ_self _⟩
          have change : Change P f s₂.1 c₂.state n .settled s₂.1.owned :=
            .claim entry now context cmd key issuer admin g h₂.recorded h₂.fresh h₂.request
              h₂.entered h₂.read claiming
          rw [h₂.owned] at change
          refine (store_spec h₂.toLinked h₂.live change
            (.same (congrArg AuthState.firmware claiming.auth)) fun _ _ h => (by cases h)).bind ?_ ?_
          · rintro _ c₃ s₃ (⟨_, rfl, hs, ready⟩ | ⟨⟨⟩, _⟩)
            refine ⟨⟨ready.volatile ⟨rfl, rfl, rfl, rfl, rfl⟩, fun _ h => (by cases h), ?_,
              fun _ => ⟨⟨_, rfl⟩, rfl⟩⟩, .claimed ownerless ?_
                ⟨setupKey, point, g, read, administrator⟩ rfl ?_ _ _⟩
            · intro y _ some
              rw [hs] at some
              cases some
            · exact current
            · have owner : n.owner = some ⟨issuer, context.peer⟩ :=
                congrArg AuthState.owner claiming.auth
              rw [owner]
              exact Option.some_ne_none _
          · rintro e c₃ s₃ (⟨⟨⟩, _⟩ | ⟨⟨⟩, died⟩)
            refine ⟨⟨died.verdict _, fun _ _ live => ?_, fun _ h => (by cases h),
              fun settled => ?_⟩, .declined (by decide) died.gates (by rw [died.state])
                (.poisoned died.poisoned)⟩
            · rw [died.poisoned] at live
              cases live
            · cases (died.progress.trans h₂.fresh).symm.trans settled
        · rintro e c₂ s₂ ⟨⟨⟨rfl, full⟩, rfl, heard₂⟩, frame₂⟩
          exact declined (h₁.after (h₁.toReady.heard heard₂) frame₂ heard₂.progress) (by decide)
            (.exhausted full)

end Claim
end OpenLock
