import OpenLock.Refinement.Authorization

/-! What the checks before acceptance establish for each action, and that they change
nothing but the one-shot confirmation. -/
namespace OpenLock
open Controller Effects

variable {P : Primitives} {f : FactoryIdentity} {c c' : Controller} {s s' : Lock P f}
  {m n : DeviceSnapshot} {cmd : Command} {action : Action}

/-- What an action needs of the snapshot and of the running drive to be carried out. -/
def Allowed (P : Primitives) (f : FactoryIdentity) (m : DeviceSnapshot) (active : Option Active) :
    Action → Prop
  | .unlock | .lock | .factoryReset => active = none ∧ m.firmware.phase ≠ .trial
  | .replaceIssuer key => active = none ∧ m.firmware.phase ≠ .trial ∧ P.isPoint key = true
  | .setConfig config => config.validate f.info = .ok ()
  | .firmwareBegin signed => (m.firmware.phase ≠ .receiving ∧ m.firmware.phase ≠ .verified
      ∧ m.firmware.phase ≠ .trial)
    ∧ ∀ x, readManifest P ⟨f.firmwareRoot⟩ signed = .ok x → x.size ≤ f.info.maxImageSize
  | .firmwareChunk offset data => m.firmware.phase = .receiving
    ∧ ∃ x, m.firmware.manifest = some x ∧ offset.toNat + data.length ≤ x.size.toNat
  | .firmwareFinish => m.firmware.phase = .receiving
    ∧ ∃ x, m.firmware.manifest = some x ∧ m.firmware.received = x.size
  | .firmwareActivate => m.firmware.phase = .verified
  | .firmwareAbort => m.firmware.phase ≠ .trial
  | .applyPolicy signed => ∃ key p, issuerKey P m = .ok key ∧ readPolicy P key signed = .ok p
    ∧ p.lockId = m.lockId
    ∧ ((m.epoch < p.epoch ∧ active = none ∧ p.revoked.size ≤ f.info.credentialCapacity.toNat)
      ∨ (p.epoch = m.epoch ∧ m.policyVersion < p.version
        ∧ (m.revoked ∪ p.revoked).size ≤ f.info.credentialCapacity.toNat))
  | _ => True

/-- The needs of an action do not look at watermarks, bindings and uses. -/
theorem Allowed.congr {active : Option Active} (h : Allowed P f m active action)
    (owner : n.owner = m.owner) (lockId : n.lockId = m.lockId) (epoch : n.epoch = m.epoch)
    (version : n.policyVersion = m.policyVersion) (revoked : n.revoked = m.revoked)
    (firmware : n.firmware = m.firmware) : Allowed P f n active action := by
  have issuer : issuerKey P n = issuerKey P m := by simp only [issuerKey, owner]
  unfold Allowed at h ⊢
  simp only [issuer, lockId, epoch, version, revoked, firmware]
  exact h

/-- The current confirmation is for this peer and command. -/
def ConfirmedBy (c : Controller) (peer : SubjectKey) (digest : Bytes32) (now : UInt64) : Prop :=
  ∃ k, c.confirmation = some k ∧ k.peer = peer ∧ k.digest = digest ∧ now < k.expires

/-- The actions that need a physical confirmation. -/
def Confirms : Action → Prop
  | .factoryReset | .replaceIssuer _ => True
  | _ => False

namespace Preflighted
variable {signed : Bytes}

theorem drive (ok : Preflight.drive c action = .ok ()) :
    c.active = none ∧ c.state.firmware.phase ≠ .trial := by
  simp only [Preflight.drive, bind_eq_ok, failIf_eq_ok, exists_const] at ok
  exact ⟨Option.not_isSome_iff_eq_none.1 ok.1, ok.2.1⟩

theorem setConfig {config : DeviceConfig} (factory : SameFactory f c.factory)
    (ok : Preflight.setConfig c config = .ok ()) : config.validate f.info = .ok () := by
  simp only [Preflight.setConfig, bind_eq_ok, failIf_eq_ok, exists_const] at ok
  obtain ⟨_, _, valid, _⟩ := ok
  rw [factory] at valid
  exact valid

theorem begin (factory : SameFactory f c.factory) (ok : Preflight.begin P c signed = .ok ()) :
    Allowed P f c.state c.active (.firmwareBegin signed) := by
  simp only [Preflight.begin, manifest, bind_eq_ok, failIf_eq_ok, exists_const, pure_eq_ok,
    VerifyingKey.fromBytes_eq_ok, not_or] at ok
  obtain ⟨free, x, ⟨_, ⟨_, rfl⟩, y, read, _, _, rfl⟩, size⟩ := ok
  rw [factory] at read size
  refine ⟨free, fun z hz => ?_⟩
  have same : z = y := by
    have h := hz.symm.trans read
    exact Except.ok.inj h
  rw [same]
  exact UInt64.not_lt.1 size

theorem chunkBounds {offset : UInt64} {data : Bytes}
    (ok : Preflight.chunkBounds c offset data = .ok ()) :
    Allowed P f c.state c.active (.firmwareChunk offset data) := by
  simp only [Preflight.chunkBounds, bind_eq_ok, failIf_eq_ok, exists_const, okOr_eq_ok, not_not,
    not_or] at ok
  obtain ⟨phase, x, manifest, short, stop, _⟩ := ok
  refine ⟨phase, x, manifest, ?_⟩
  have length : (UInt64.ofNat data.length).toNat = data.length := by
    have fits := c.factory.info.maxChunkSize.toNat_lt
    exact UInt64.toNat_ofNat_of_lt' (by simp only [UInt64.size]; omega)
  cases add : checkedAdd offset (UInt64.ofNat data.length) with
  | none => simp [add] at stop
  | some y =>
    have bound : y ≤ x.size := by simpa [add, UInt64.not_lt] using stop
    rw [UInt64.le_iff_toNat_le, (checkedAdd_eq_some add).2, length] at bound
    exact bound

theorem finish (ok : Preflight.finish c = .ok ()) :
    Allowed P f c.state c.active .firmwareFinish := by
  simp only [Preflight.finish, failIf_eq_ok, not_or, not_not] at ok
  refine ⟨ok.1, ?_⟩
  cases manifest : c.state.firmware.manifest with
  | none => simp [manifest] at ok
  | some x =>
    have complete : x.size = c.state.firmware.received := by simpa [manifest] using ok.2
    exact ⟨x, rfl, complete.symm⟩

theorem policy (factory : SameFactory f c.factory) (ok : Preflight.policy P c signed = .ok ()) :
    Allowed P f c.state c.active (.applyPolicy signed) := by
  simp only [Preflight.policy, bind_eq_ok, failIf_eq_ok, exists_const, not_or, not_not,
    not_and] at ok
  obtain ⟨key, issuer, p, read, lockId, busy, ⟨stale, older⟩, fits, joint⟩ := ok
  have capacity : c.factory.info.credentialCapacity = f.info.credentialCapacity := by rw [factory]
  rw [capacity] at fits joint
  refine ⟨key, p, issuer, read, lockId, ?_⟩
  by_cases same : p.epoch = c.state.epoch
  · exact .inr ⟨same, UInt64.not_le.1 (older same), Nat.not_lt.1 (joint same)⟩
  · have newer : c.state.epoch < p.epoch :=
      UInt64.lt_of_le_of_ne (UInt64.not_lt.1 stale) (Ne.symm same)
    refine .inl ⟨newer, ?_, Nat.not_lt.1 fits⟩
    cases active : c.active with
    | none => rfl
    | some a => exact absurd newer (busy (by rw [active]; rfl))

end Preflighted

/-- A check of the action: it leaves the controller ready, and what it passed is allowed. -/
def Checked (P : Primitives) (f : FactoryIdentity) (c : Controller) (s : Abs) (peer : SubjectKey)
    (digest : Bytes32) (now : UInt64) (action : Action) (r : Except Error Unit) (c' : Controller)
    (s' : Abs) : Prop :=
  Volatile c c' ∧ Noted s s' ∧ (r = .ok () → Allowed P f c.state c.active action
    ∧ (Confirms action → ConfirmedBy c peer digest now))

theorem Volatile.refl (c : Controller) : Volatile c c := ⟨rfl, rfl, rfl, rfl, rfl⟩

theorem boot_spec (h : Ready f c s.1) :
    SimE (lockSpec P f) boot c s fun _ c' s' => c' = c ∧ Noted s.1 s'.1 := by
  unfold boot
  refine SimE.bind (ask_spec fun _ => ⟨h.quiet, rfl⟩) ?_ (by rintro e c' s' ⟨⟨⟨_, ⟨⟩⟩, _⟩, _⟩)
  rintro present c' s' ⟨_, rfl, noted⟩
  rw [simE_failIf]
  exact ⟨fun _ => ⟨rfl, noted⟩, fun _ => ⟨rfl, noted⟩⟩

section Checks
variable {peer : SubjectKey} {digest : Bytes32} {now : UInt64} {a : Abs}

theorem Checked.failed (e : Error) : Checked P f c a peer digest now action (.error e) c a :=
  ⟨.refl c, .refl a, fun h => by cases h⟩

/-- A check that decides from the controller alone. -/
theorem Checked.pure {r : Except Error Unit} (ok : r = .ok () → Allowed P f c.state c.active action)
    (free : ¬ Confirms action) :
    Checked P f c a peer digest now action r c a :=
  ⟨.refl c, .refl a, fun h => ⟨ok h, fun hc => absurd hc free⟩⟩

theorem confirmation_spec :
    SimE (lockSpec P f) (Preflight.confirmation peer digest now) c s fun r c' s' =>
      Volatile c c' ∧ s' = s ∧ (r = .ok () →
        c.state.firmware.phase ≠ .trial ∧ ConfirmedBy c peer digest now) := by
  have taken : Volatile c { c with confirmation := none } := ⟨rfl, rfl, rfl, rfl, rfl⟩
  unfold Preflight.confirmation
  simp only [simE_bind, simE_get, simE_modify, andThen_ok, simE_orFail]
  cases present : c.confirmation with
  | none => exact ⟨taken, rfl, fun h => by cases h⟩
  | some k =>
    simp only [okOr, andThen_ok, simE_bind]
    rw [simE_failIf]
    refine ⟨fun _ => ⟨taken, rfl, fun h => (by cases h)⟩, fun matching => ?_⟩
    simp only [not_or, not_not] at matching
    rw [andThen_ok, simE_failIf]
    refine ⟨fun _ => ⟨taken, rfl, fun h => (by cases h)⟩, fun settled => ⟨taken, rfl, fun _ => ?_⟩⟩
    exact ⟨settled, k, present, matching.1, matching.2.1, UInt64.not_le.1 matching.2.2⟩

theorem chunk_spec (h : Ready f c s.1) (offset : UInt64) (data : Bytes) :
    SimE (lockSpec P f) (Preflight.chunk offset data) c s fun r c' s' =>
      Checked P f c s.1 peer digest now (.firmwareChunk offset data) r c' s'.1 := by
  unfold Preflight.chunk
  simp only [simE_bind, simE_get, andThen_ok, simE_orFail]
  cases ok : Preflight.chunkBounds c offset data with
  | error e => exact .failed e
  | ok =>
    have allowed : Allowed P f c.state c.active (.firmwareChunk offset data) :=
      Preflighted.chunkBounds ok
    rw [andThen_ok]
    split
    · rw [simE_bind, simE_failIf]
      refine ⟨fun _ => .failed _, fun _ => ?_⟩
      rw [andThen_ok]
      refine (boot_spec h).bind ?_ ?_
      · rintro _ c₁ s₁ ⟨rfl, noted⟩
        refine SimE.bind (ask_spec fun _ => ⟨(h.noted noted).quiet, rfl⟩) ?_
          (by rintro e c' s' ⟨⟨⟨_, ⟨⟩⟩, _⟩, _⟩)
        rintro old c₂ s₂ ⟨_, rfl, noted₂⟩
        have all := noted.trans noted₂
        simp only [simE_bind, simE_orFail]
        cases old with
        | error e => exact ⟨.refl _, all, fun h => by cases h⟩
        | ok staged =>
          rw [andThen_ok, simE_failIf]
          exact ⟨fun _ => ⟨.refl _, all, fun h => (by cases h)⟩,
            fun _ => ⟨.refl _, all, fun _ => ⟨allowed, fun hc => hc.elim⟩⟩⟩
      · rintro e c₁ s₁ ⟨rfl, noted⟩
        exact ⟨.refl _, noted, fun h => by cases h⟩
    · exact .pure (fun _ => allowed) fun hc => hc

theorem activate_spec (h : Ready f c s.1) :
    SimE (lockSpec P f) Preflight.activate c s fun r c' s' =>
      Checked P f c s.1 peer digest now .firmwareActivate r c' s'.1 := by
  unfold Preflight.activate
  simp only [simE_bind, simE_get, andThen_ok]
  rw [simE_failIf]
  refine ⟨fun _ => .failed _, fun verified => ?_⟩
  rw [andThen_ok]
  refine (boot_spec h).bind ?_ ?_
  · rintro _ c₁ s₁ ⟨rfl, noted⟩
    refine SimE.bind (ask_spec fun _ => ⟨(h.noted noted).quiet, rfl⟩) ?_
      (by rintro e c' s' ⟨⟨⟨_, ⟨⟩⟩, _⟩, _⟩)
    rintro answer c₂ s₂ ⟨_, rfl, noted₂⟩
    rw [simE_orFail]
    exact ⟨.refl _, noted.trans noted₂, fun _ => ⟨not_not.1 verified, fun hc => hc.elim⟩⟩
  · rintro e c₁ s₁ ⟨rfl, noted⟩
    exact ⟨.refl _, noted, fun h => by cases h⟩

/-- The check of each action. -/
theorem preflightAction_spec (h : Ready f c s.1) (clock : Option ClockSample) :
    SimE (lockSpec P f) (preflightAction P cmd clock now digest peer) c s fun r c' s' =>
      Checked P f c s.1 peer digest now cmd.action r c' s'.1 := by
  have free : ¬ c.active.isSome = true → c.active = none := Option.not_isSome_iff_eq_none.1
  unfold preflightAction
  rw [simE_bind, simE_get, andThen_ok]
  cases action : cmd.action with
  | unlock => exact .pure Preflighted.drive fun hc => hc
  | lock => exact .pure Preflighted.drive fun hc => hc
  | setConfig config => exact .pure (Preflighted.setConfig h.factory.same) fun hc => hc
  | setClock t => exact .pure (fun _ => trivial) fun hc => hc
  | reboot | rotateDeviceKey signed =>
    simp only [simE_failIf]
    exact ⟨fun _ => .failed _, fun _ => .pure (fun _ => trivial) fun hc => hc⟩
  | factoryReset =>
    simp only [simE_bind, simE_failIf]
    refine ⟨fun _ => .failed _, fun idle => ?_⟩
    refine confirmation_spec.mono ?_
    rintro r c' s' ⟨volatile, rfl, ok⟩
    exact ⟨volatile, .refl _, fun hr => ⟨⟨free idle, (ok hr).1⟩, fun _ => (ok hr).2⟩⟩
  | replaceIssuer key =>
    simp only [simE_bind, simE_failIf]
    refine ⟨fun _ => .failed _, fun idle => ?_⟩
    rw [andThen_ok]
    refine confirmation_spec.bind ?_ ?_
    · rintro _ c' s' ⟨volatile, rfl, ok⟩
      simp only [simE_bind, simE_orFail]
      cases point : VerifyingKey.fromBytes P key .untrustedKey with
      | error e => exact ⟨volatile, .refl _, fun h => by cases h⟩
      | ok v =>
        rw [VerifyingKey.fromBytes_eq_ok] at point
        exact ⟨volatile, .refl _, fun _ => ⟨⟨free idle, (ok rfl).1, point.1⟩, fun _ => (ok rfl).2⟩⟩
    · rintro e c' s' ⟨volatile, rfl, _⟩
      exact ⟨volatile, .refl _, fun h => by cases h⟩
  | firmwareActivate =>
    simp only [simE_bind, simE_failIf]
    exact ⟨fun _ => .failed _, fun _ => activate_spec h⟩
  | firmwareBegin signed => exact .pure (Preflighted.begin h.factory.same) fun hc => hc
  | firmwareChunk offset data => exact chunk_spec h offset data
  | firmwareFinish => exact .pure Preflighted.finish fun hc => hc
  | firmwareAbort =>
    simp only [simE_failIf]
    exact ⟨fun _ => .failed _, fun settled => .pure (fun _ => settled) fun hc => hc⟩
  | applyPolicy signed => exact .pure (Preflighted.policy h.factory.same) fun hc => hc
  | _ => exact .pure (fun _ => trivial) fun hc => hc

theorem ConfirmedBy.congr (h : ConfirmedBy c peer digest now) (gates : c.gates = c'.gates) :
    ConfirmedBy c' peer digest now := by
  have same : c.confirmation = c'.confirmation := congrArg (·.2.2) gates
  rwa [ConfirmedBy, ← same]

/-- The checks before acceptance, after a fresh observation. -/
theorem preflight_spec (h : Ready f c s.1) (g : Grant) :
    SimE (lockSpec P f) (preflight P g cmd now digest peer) c s fun r c' s' =>
      Verdict f r c' s'.1 ∧ (∃ c₁, Kept 2 c s.1 c₁ s'.1 ∧ Volatile c₁ c')
        ∧ (r = .ok () → Allowed P f c'.state c'.active cmd.action
          ∧ (Confirms cmd.action → ConfirmedBy c peer digest now)) := by
  unfold preflight
  refine (observeHardware_spec h.toCoupled h.recorded false).bind ?_ ?_
  · rintro clock c₁ s₁ ⟨⟨⟨ready, kept⟩, _⟩, _⟩
    simp only [simE_bind, simE_orFail]
    cases checkValidity g.validity clock with
    | error e => exact ⟨Ready.verdict ready _, ⟨c₁, kept, .refl c₁⟩, fun h => by cases h⟩
    | ok =>
      rw [andThen_ok]
      refine (preflightAction_spec ready clock).mono ?_
      rintro r c' s' ⟨volatile, noted, ok⟩
      have ready' : Ready f c' s'.1 := (Ready.noted ready noted).volatile volatile
      refine ⟨ready'.verdict r, ⟨c₁, ?_, volatile⟩, fun hr => ?_⟩
      · exact ⟨kept.auth, kept.gates, kept.cursor, kept.active, noted.progress.trans kept.progress⟩
      · rw [volatile.state, volatile.active]
        exact ⟨(ok hr).1, fun hc => ((ok hr).2 hc).congr kept.gates⟩
  · rintro e c₁ s₁ ⟨⟨⟨verdict, kept⟩, _⟩, _⟩
    exact ⟨verdict, ⟨c₁, kept, .refl c₁⟩, fun h => by cases h⟩

end Checks
end OpenLock
