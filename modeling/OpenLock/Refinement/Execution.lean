import OpenLock.Refinement.Drive
import OpenLock.Refinement.Preflight

/-! Carrying out an accepted action refines the abstract lock: every snapshot it persists
is housekeeping or the effect that was accepted, and every platform call is that action. -/
namespace OpenLock
open Controller Effects

variable {P : Primitives} {f : FactoryIdentity} {c c' : Controller} {s s' : Lock P f} {x : Accepted}
  {m n n' : DeviceSnapshot} {a a' : Abs} {e : Effect}

/-- The controller carries out what it has accepted over the snapshot `m`. -/
structure Carrying (f : FactoryIdentity) (x : Accepted) (m : DeviceSnapshot) (c : Controller)
    (s : Abs) : Prop extends Ready f c s where
  accepted : s.progress = .accepted x
  near : c.state.nextCursor.toNat ≤ m.nextCursor.toNat + 2

theorem Carrying.key (h : Carrying f x m c a) : a.progress.key = some x.key := by
  rw [h.accepted]
  rfl

theorem Carrying.noted (h : Carrying f x m c a) (hn : Noted a a') : Carrying f x m c a' :=
  ⟨h.toReady.noted hn, hn.progress.trans h.accepted, h.near⟩

theorem Carrying.heard (h : Carrying f x m c a) (hh : Heard a a') : Carrying f x m c a' :=
  h.noted hh.noted

/-- The platform call that the accepted action stands for. -/
theorem Carrying.acts (h : Carrying f x m c a) (action : CarriesOut x.command.action e)
    (custody : Custody c.state e) : a.Acts e :=
  ⟨h.quiet, x, h.accepted, action, c.state, h.mem, custody⟩

theorem Witnessed.congr {notes : List (Event Answer)} {action : Action}
    (h : Witnessed notes m n action) (firmware : n'.firmware = n.firmware) :
    Witnessed notes m n' action := by
  unfold Witnessed at h ⊢
  rwa [firmware]

/-- A snapshot that carries out `x`: its effect, or housekeeping on the way to it. -/
structure Outcomes (P : Primitives) (f : FactoryIdentity) (notes : List (Event Answer))
    (x : Accepted) (m n : DeviceSnapshot) : Prop where
  auth : n.auth = m.auth ∨ Effected P f m x n.auth ∧ Witnessed notes m n x.command.action
  operations : n.operations = m.operations
  logged : Logged f.info.logCapacity.toNat m n

section Outcomes
variable {notes : List (Event Answer)}

theorem Outcomes.unlogged
    (auth : n.auth = m.auth ∨ Effected P f m x n.auth ∧ Witnessed notes m n x.command.action)
    (operations : n.operations = m.operations) (log : n.log = m.log) : Outcomes P f notes x m n :=
  ⟨auth, operations, (Logged.refl m).congr rfl log⟩

theorem Outcomes.audited (h : Outcomes P f notes x m n) (a : Audited f n n') :
    Outcomes P f notes x m n' := by
  refine ⟨?_, a.operations.trans h.operations, h.logged.trans a.logged⟩
  have firmware : n'.firmware = n.firmware := congrArg AuthState.firmware a.auth
  rw [a.auth]
  exact h.auth.imp_right fun effect => ⟨effect.1, effect.2.congr firmware⟩

theorem Outcomes.change (o : Outcomes P f notes x c.state n) (h : Carrying f x m c a)
    (seen : a.notes = notes) : Change P f a c.state n a.progress a.owned := by
  rcases o.auth with auth | ⟨auth, witnessed⟩
  · exact .upkeep (.background (.inl h.recorded) (.flags auth o.operations o.logged))
  · refine .effect x h.recorded h.accepted auth (by rw [o.operations]; exact .refl _ _) o.logged ?_
    rwa [seen]

theorem Outcomes.announced (o : Outcomes P f notes x c.state n) : Announced c n := by
  rcases o.auth with auth | ⟨effected, _⟩
  · exact .kept auth
  · rcases effected.firmware_cases with same | step
    · exact .same same
    · exact fun _ confirmed => absurd confirmed step.unconfirmed

end Outcomes

/-- How carrying out an action goes on: through the final commit or done. -/
structure Performed (P : Primitives) (f : FactoryIdentity) (x : Accepted) (m : DeviceSnapshot)
    (r : Except Error Outcome) (c' : Controller) (s' : Abs) : Prop where
  verdict : Verdict f r c' s'
  near : c'.state.nextCursor.toNat ≤ m.nextCursor.toNat + 2
  key : s'.progress.key = some x.key
  done : ∀ y, r = .ok (.done (some y)) → ∃ status, y = .operation status
  commit : ∀ n, r = .ok (.commit n) → Change P f s' c'.state n s'.progress s'.owned
    ∧ Announced c' n ∧ n.nextCursor.toNat ≤ c'.state.nextCursor.toNat + 1

theorem Carrying.failed (h : Carrying f x m c a) (e : Error) : Performed P f x m (.error e) c a :=
  ⟨h.verdict _, h.near, h.key, fun _ h => (by cases h), fun _ h => (by cases h)⟩

/-- Every action's last step but one: its audit entry. -/
theorem Carrying.audit (h : Carrying f x m c s.1)
    (change : ∀ n' a', Audited f n n' → Heard s.1 a' → Carrying f x m c a' →
      Change P f a' c.state n' a'.progress a'.owned)
    (announced : Announced c n) (cursor : n.nextCursor = c.state.nextCursor) (kind : AuditKind) (id : Option CredentialId)
    (seq : Option UInt64) (code : UInt32) :
    SimE (lockSpec P f) (Outcome.commit <$> Controller.audit n kind id seq code) c s
      fun r c' s' => Performed P f x m r c' s'.1 := by
  rw [simE_map]
  refine (audit_spec (h.hears h.live) n kind id seq code).mono ?_
  rintro r c' s' ⟨post, rfl, heard⟩
  have carrying := h.heard heard
  cases r with
  | error e => exact carrying.failed e
  | ok n' =>
    refine ⟨carrying.toReady, carrying.near, carrying.key, fun _ h => (by cases h), ?_⟩
    rintro _ ⟨⟩
    refine ⟨change n' s'.1 post heard carrying, announced.congr ?_, ?_⟩
    · exact congrArg AuthState.firmware post.auth
    · exact Nat.le_of_eq (by rw [post.cursor, cursor])

theorem Outcomes.audit (o : Outcomes P f s.1.notes x c.state n) (h : Carrying f x m c s.1)
    (cursor : n.nextCursor = c.state.nextCursor) (kind : AuditKind) (id : Option CredentialId)
    (seq : Option UInt64) (code : UInt32) :
    SimE (lockSpec P f) (Outcome.commit <$> Controller.audit n kind id seq code) c s
      fun r c' s' => Performed P f x m r c' s'.1 :=
  h.audit (fun _ _ audited heard carrying => (o.audited audited).change carrying heard.notes)
    o.announced cursor kind id seq code

/-- An intermediate commit. -/
theorem Outcomes.store (o : Outcomes P f s.1.notes x c.state n) (h : Carrying f x m c s.1)
    (near : n.nextCursor.toNat ≤ m.nextCursor.toNat + 2) :
    SimE (lockSpec P f) (commit P n) c s fun r c' s' =>
      (r = .ok () ∧ c'.state = n ∧ Carrying f x m c' s'.1)
        ∨ (r = .error .storageUnavailable ∧ ∀ e, Performed P f x m (.error e) c' s'.1) := by
  have change := o.change h rfl
  rw [h.owned] at change
  refine (store_spec h.toLinked h.live change o.announced fun y => background_room y).mono ?_
  rintro r c' s' (⟨rfl, rfl, hs, ready⟩ | ⟨rfl, died⟩)
  · refine .inl ⟨rfl, rfl, ready, ?_, near⟩
    rw [hs]
    exact h.accepted
  · refine .inr ⟨rfl, fun e => ⟨died.verdict _, ?_, ?_, fun _ h => (by cases h),
      fun _ h => (by cases h)⟩⟩
    · rw [died.state]
      exact h.near
    · rw [died.progress]
      exact h.key

/-- The platform call of the accepted action. -/
theorem act_spec (h : Carrying f x m c s.1) (step : ∀ a, s.1.Step P f ⟨e, a⟩ (s.1.note ⟨e, a⟩)) :
    SimE (lockSpec P f) (request e) c s fun r c' s' =>
      ((∃ a, r = .ok a) ∧ ∀ a, r = .ok a → s'.1.notes.head? = some ⟨e, a⟩) ∧ c' = c
        ∧ Carrying f x m c' s'.1 := by
  refine (ask_spec step).mono ?_
  rintro r c' s' ⟨answered, rfl, noted⟩
  exact ⟨answered, rfl, h.noted noted⟩

/-- A fresh observation while carrying out an action. -/
theorem Carrying.observe (h : Carrying f x c.state c s.1) :
    SimE (lockSpec P f) (observeHardware P false) c s fun r c' s' =>
      match r with
      | .ok _ => Carrying f x c.state c' s'.1
      | .error e => Performed P f x c.state (.error e) c' s'.1 := by
  refine (observeHardware_spec h.toCoupled h.recorded false).mono ?_
  rintro r c' s' ⟨⟨⟨verdict, kept⟩, _⟩, _⟩
  cases r with
  | ok _ => exact ⟨verdict, kept.progress.trans h.accepted, kept.cursor⟩
  | error e =>
    refine ⟨verdict, kept.cursor, ?_, fun _ h => (by cases h), fun _ h => (by cases h)⟩
    rw [kept.progress]
    exact h.key

/-- The bootloader must be there. -/
theorem Carrying.boot (h : Carrying f x m c s.1) :
    SimE (lockSpec P f) boot c s fun _ c' s' => c' = c ∧ Carrying f x m c' s'.1 := by
  refine (boot_spec h.toReady).mono ?_
  rintro r c' s' ⟨rfl, noted⟩
  exact ⟨rfl, h.noted noted⟩

section Actions
variable {status : OperationStatus} {signed : Bytes} {y : FirmwareManifest}

theorem setConfig_spec {config : DeviceConfig} (h : Carrying f x c.state c s.1)
    (action : x.command.action = .setConfig config) (valid : config.validate f.info = .ok ())
    (now : UInt64) :
    SimE (lockSpec P f) (Execute.setConfig status config now) c s fun r c' s' =>
      Performed P f x c.state r c' s'.1 := by
  unfold Execute.setConfig
  simp only [simE_bind, simE_get, andThen_ok]
  rw [← simE_bind]
  refine (dropRelockIf_spec _).bind ?_ (by rintro e c' s' ⟨_, ⟨⟩, _⟩)
  rintro n c₁ _ ⟨_, ⟨⟩, rfl, hc₁, flags₁, _⟩
  refine (scheduleRelockIf_spec _ _).bind ?_ (by rintro e c' s' ⟨_, ⟨⟩, _⟩)
  rintro n' c₂ s₂ ⟨_, ⟨⟩, rfl, hc₂, flags₂, _⟩
  have cosmetic := hc₁.trans hc₂
  have flags := flags₁.trans flags₂
  have carrying : Carrying f x c.state c₂ s₂.1 :=
    ⟨h.toReady.cosmetic cosmetic, h.accepted, by rw [cosmetic.state]; exact h.near⟩
  have auth : n'.auth = { c.state.auth with config := config } := flags.auth
  have outcome : Outcomes P f s₂.1.notes x c₂.state n' := by
    rw [cosmetic.state]
    refine .unlogged (.inr ⟨?_, by rw [action]; trivial⟩) flags.operations flags.log
    rw [auth]
    exact .config config action valid
  exact outcome.audit carrying (by rw [cosmetic.state]; exact flags.cursor) _ _ _ _

theorem applyPolicy_spec {p : PolicyUpdate} {key : VerifyingKey} (h : Carrying f x c.state c s.1)
    (action : x.command.action = .applyPolicy signed) (issuer : issuerKey P c.state = .ok key)
    (read : readPolicy P key signed = .ok p) (lock : p.lockId = c.state.lockId)
    (same : p.epoch = c.state.epoch) (newer : c.state.policyVersion < p.version)
    (fits : (c.state.revoked ∪ p.revoked).size ≤ f.info.credentialCapacity.toNat) :
    SimE (lockSpec P f) (Execute.applyPolicy P status signed) c s fun r c' s' =>
      Performed P f x c.state r c' s'.1 := by
  have stays : ¬ p.epoch > c.state.epoch := by
    rw [same]
    exact UInt64.lt_irrefl _
  have outcome : Outcomes P f s.1.notes x c.state
      { c.state with policyVersion := p.version, revoked := c.state.revoked ∪ p.revoked } :=
    .unlogged (.inr ⟨.policy signed p key action issuer read lock same newer fits,
      by rw [action]; trivial⟩) rfl rfl
  unfold Execute.applyPolicy
  simp only [simE_bind, simE_get, andThen_ok, simE_orFail, issuer, read, Execute.policySnapshot,
    if_neg stays, pure_bind]
  exact outcome.audit h rfl _ _ _ _

theorem setClock_spec {time : UInt64} (h : Carrying f x c.state c s.1)
    (action : x.command.action = .setClock time) :
    SimE (lockSpec P f) (Execute.setClock P status time) c s fun r c' s' =>
      Performed P f x c.state r c' s'.1 := by
  unfold Execute.setClock
  refine h.observe.bind ?_ fun e c' s' post => post
  rintro clock c₁ s₁ carrying
  simp only [simE_bind, simE_get, andThen_ok]
  rw [simE_failIf]
  refine ⟨fun _ => Carrying.failed carrying _, fun forward => ?_⟩
  rw [not_or] at forward
  have later : FloorLe c₁.state.clockFloor (some time) := by
    cases hf : c₁.state.clockFloor with
    | none => exact .none _
    | some floor =>
      have le : ¬ time < floor := by simpa [hf] using forward.1
      exact floorLe_some.2 (UInt64.not_lt.1 le)
  have outcome : Outcomes P f s₁.1.notes x c₁.state
      { c₁.state with clockFloor := some time, clockValid := false } :=
    ⟨.inl rfl, rfl, .refl, later, fun valid => (by cases valid)⟩
  rw [andThen_ok]
  refine (outcome.store carrying carrying.near).bind ?_ ?_
  · rintro _ c₂ s₂ (⟨_, _, carrying₂⟩ | ⟨⟨⟩, _⟩)
    refine SimE.bind (act_spec carrying₂ fun _ => ⟨carrying₂.acts action trivial, rfl⟩) ?_
      (by rintro e c' s' ⟨⟨⟨_, ⟨⟩⟩, _⟩, _⟩)
    rintro answer c₃ s₃ ⟨⟨_, noted⟩, rfl, carrying₃⟩
    simp only [simE_bind, simE_orFail]
    cases answer with
    | error e => exact carrying₃.failed e
    | ok =>
      simp only [andThen_ok, simE_bind, simE_get]
      refine carrying₃.audit ?_ ?_ ?_ _ _ _ _
      · intro n' a' audited heard carrying'
        refine .clock x time carrying'.recorded carrying'.accepted action ?_ ?_
        · rw [heard.notes]
          exact noted _ rfl
        · exact .flags audited.auth audited.operations audited.logged
      · exact .same rfl
      · rfl
  · rintro e c₂ s₂ (⟨⟨⟩, _⟩ | ⟨_, failed⟩)
    exact failed e

theorem reboot_spec (h : Carrying f x c.state c s.1) (action : x.command.action = .reboot) :
    SimE (lockSpec P f) (Execute.reboot status) c s fun r c' s' =>
      Performed P f x c.state r c' s'.1 := by
  unfold Execute.reboot
  simp only [simE_bind, simE_get, andThen_ok]
  rw [← simE_bind]
  refine SimE.bind (act_spec h fun _ => ⟨h.acts action trivial, rfl⟩) ?_
    (by rintro e c' s' ⟨⟨⟨_, ⟨⟩⟩, _⟩, _⟩)
  rintro answer c₁ s₁ ⟨_, rfl, carrying⟩
  simp only [simE_bind, simE_orFail]
  cases answer with
  | error e => exact carrying.failed e
  | ok =>
    have kept : Outcomes P f s₁.1.notes x c₁.state c₁.state := .unlogged (.inl rfl) rfl rfl
    exact kept.audit carrying rfl _ _ _ _

theorem manifest_ok {x : FirmwareManifest} (factory : SameFactory f c.factory)
    (ok : manifest P c signed = .ok x) :
    P.isPoint f.firmwareRoot = true ∧ readManifest P ⟨f.firmwareRoot⟩ signed = .ok x
      ∧ x.model = f.info.model ∧ x.hardware = f.info.hardware
      ∧ c.state.firmware.securityVersion < x.securityVersion := by
  simp only [manifest, bind_eq_ok, failIf_eq_ok, exists_const, pure_eq_ok,
    VerifyingKey.fromBytes_eq_ok, not_or, not_not] at ok
  obtain ⟨_, ⟨point, rfl⟩, y, read, ⟨model, hardware⟩, newer, rfl⟩ := ok
  rw [factory] at point read model hardware
  exact ⟨point, read, model, hardware, UInt64.not_le.1 newer⟩

/-- The audit entry after a change of the firmware record. -/
theorem auditFirmware_spec (h : Carrying f x m c s.1) {firmware : FirmwareStatus}
    {signedManifest : Bytes}
    (step : FirmwareStep P f c.state x.command.action firmware signedManifest)
    (witnessed : Witnessed s.1.notes c.state { c.state with firmware, signedManifest }
      x.command.action) :
    SimE (lockSpec P f) (Execute.auditFirmware status { c.state with firmware, signedManifest }) c s
      fun r c' s' => Performed P f x m r c' s'.1 := by
  have outcome : Outcomes P f s.1.notes x c.state { c.state with firmware, signedManifest } :=
    .unlogged (.inr ⟨.firmware firmware signedManifest step, witnessed⟩) rfl rfl
  exact outcome.audit h rfl _ _ _ _

theorem firmwareBegin_spec (h : Carrying f x c.state c s.1)
    (action : x.command.action = .firmwareBegin signed)
    (allowed : Allowed P f c.state c.active (.firmwareBegin signed)) :
    SimE (lockSpec P f) (Execute.firmwareBegin P status signed) c s fun r c' s' =>
      Performed P f x c.state r c' s'.1 := by
  unfold Execute.firmwareBegin
  simp only [simE_bind, simE_get, andThen_ok, simE_orFail]
  cases ok : manifest P c signed with
  | error e => exact h.failed e
  | ok y =>
    obtain ⟨root, read, model, hardware, newer⟩ := manifest_ok h.factory.same ok
    rw [andThen_ok]
    refine h.boot.bind ?_ fun e c' s' post => post.2.failed e
    rintro _ c₁ s₁ ⟨rfl, carrying⟩
    refine SimE.bind (act_spec carrying fun _ => ⟨carrying.acts action allowed.1, rfl⟩) ?_
      (by rintro e c' s' ⟨⟨⟨_, ⟨⟩⟩, _⟩, _⟩)
    rintro answer c₂ s₂ ⟨⟨_, noted⟩, rfl, carrying₂⟩
    simp only [simE_bind, simE_orFail]
    cases answer with
    | error e => exact carrying₂.failed e
    | ok =>
      refine auditFirmware_spec carrying₂ ?_ ?_
      · rw [action]
        exact .begin signed y root read model hardware (allowed.2 y read) newer allowed.1.1
      · rw [action]
        exact ⟨y, rfl, noted _ rfl⟩

theorem firmwareChunk_spec {offset : UInt64} {data : Bytes} (h : Carrying f x c.state c s.1)
    (action : x.command.action = .firmwareChunk offset data)
    (phase : c.state.firmware.phase = .receiving) (known : c.state.firmware.manifest = some y)
    (bound : offset.toNat + data.length ≤ y.size.toNat) :
    SimE (lockSpec P f) (Execute.firmwareChunk status offset data) c s fun r c' s' =>
      Performed P f x c.state r c' s'.1 := by
  have reached : (offset + UInt64.ofNat data.length).toNat = offset.toNat + data.length := by
    have fits := y.size.toNat_lt
    rw [UInt64.toNat_add, UInt64.toNat_ofNat', Nat.add_mod_mod, Nat.mod_eq_of_lt (by omega)]
  unfold Execute.firmwareChunk
  simp only [simE_bind, simE_get, andThen_ok]
  split
  · rename_i next
    refine h.boot.bind ?_ fun e c' s' post => post.2.failed e
    rintro _ c₁ s₁ ⟨rfl, carrying⟩
    have custody : Custody c₁.state (.bootWrite offset data) := ⟨phase, next, y, known, bound⟩
    refine SimE.bind (act_spec carrying fun _ => ⟨carrying.acts action custody, rfl⟩) ?_
      (by rintro e c' s' ⟨⟨⟨_, ⟨⟩⟩, _⟩, _⟩)
    rintro answer c₂ s₂ ⟨⟨_, noted⟩, rfl, carrying₂⟩
    simp only [simE_bind, simE_orFail]
    cases answer with
    | error e => exact carrying₂.failed e
    | ok =>
      refine auditFirmware_spec carrying₂ ?_ ?_
      · rw [action]
        refine .chunk offset data y _ phase known ?_
        rw [UInt64.le_iff_toNat_le, reached]
        exact bound
      · rw [action]
        exact ⟨next, reached, noted _ rfl⟩
  · have kept : Outcomes P f s.1.notes x c.state c.state := .unlogged (.inl rfl) rfl rfl
    exact kept.audit h rfl _ _ _ _

theorem firmwareFinish_spec (h : Carrying f x c.state c s.1)
    (action : x.command.action = .firmwareFinish) (phase : c.state.firmware.phase = .receiving)
    (known : c.state.firmware.manifest = some y) (complete : c.state.firmware.received = y.size) :
    SimE (lockSpec P f) (Execute.firmwareFinish status) c s fun r c' s' =>
      Performed P f x c.state r c' s'.1 := by
  unfold Execute.firmwareFinish
  have present : okOr c.state.firmware.manifest .firmwareInvalid = .ok y := okOr_eq_ok.2 known
  simp only [simE_bind, simE_get, andThen_ok, simE_orFail, present]
  rw [← simE_bind]
  refine h.boot.bind ?_ fun e c' s' post => post.2.failed e
  rintro _ c₁ s₁ ⟨rfl, carrying⟩
  refine SimE.bind (act_spec carrying fun _ => ⟨carrying.quiet, rfl⟩) ?_
    (by rintro e c' s' ⟨⟨⟨_, ⟨⟩⟩, _⟩, _⟩)
  rintro answer c₂ s₂ ⟨⟨_, noted⟩, rfl, carrying₂⟩
  simp only [simE_bind, simE_orFail]
  cases answer with
  | error e => exact carrying₂.failed e
  | ok hash =>
    rw [andThen_ok, simE_bind, simE_failIf]
    refine ⟨fun _ => carrying₂.failed _, fun matching => ?_⟩
    refine auditFirmware_spec carrying₂ ?_ ?_
    · rw [action]
      exact .verify y phase known complete
    · rw [action]
      refine ⟨y, known, ?_⟩
      rw [← not_not.1 matching]
      exact noted _ rfl

theorem firmwareActivate_spec (h : Carrying f x c.state c s.1)
    (action : x.command.action = .firmwareActivate) (phase : c.state.firmware.phase = .verified) :
    SimE (lockSpec P f) (Execute.firmwareActivate P status) c s fun r c' s' =>
      Performed P f x c.state r c' s'.1 := by
  have trial : Outcomes P f s.1.notes x c.state
      { c.state with firmware := { c.state.firmware with phase := .trial } } :=
    .unlogged (.inr ⟨.firmware _ c.state.signedManifest (by rw [action]; exact .trial phase),
      by rw [action]; trivial⟩) rfl rfl
  unfold Execute.firmwareActivate
  simp only [simE_bind, simE_get, andThen_ok, simE_orFail]
  cases known : okOr c.state.firmware.manifest .firmwareInvalid with
  | error e => exact h.failed e
  | ok y =>
    rw [andThen_ok]
    refine (trial.store h h.near).bind ?_ ?_
    · rintro _ c₁ s₁ (⟨_, stored, carrying⟩ | ⟨⟨⟩, _⟩)
      have custody : Custody c₁.state (.bootActivate y c₁.state.signedManifest) := by
        refine ⟨?_, ?_, rfl⟩
        · rw [stored]
        · rw [stored]
          exact okOr_eq_ok.1 known
      simp only [simE_bind, simE_get, andThen_ok]
      rw [← simE_bind]
      refine carrying.boot.bind ?_ fun e c' s' post => post.2.failed e
      rintro _ c₂ s₂ ⟨rfl, carrying₂⟩
      refine SimE.bind (act_spec carrying₂ fun _ => ⟨carrying₂.acts action custody, rfl⟩) ?_
        (by rintro e c' s' ⟨⟨⟨_, ⟨⟩⟩, _⟩, _⟩)
      rintro answer c₃ s₃ ⟨_, rfl, carrying₃⟩
      simp only [simE_bind, simE_orFail]
      cases answer with
      | error e => exact carrying₃.failed e
      | ok =>
        simp only [andThen_ok, simE_bind, simE_get]
        have kept : Outcomes P f s₃.1.notes x c₃.state c₃.state := .unlogged (.inl rfl) rfl rfl
        exact kept.audit carrying₃ rfl _ _ _ _
    · rintro e c₁ s₁ (⟨⟨⟩, _⟩ | ⟨_, failed⟩)
      exact failed e

theorem firmwareAbort_spec (h : Carrying f x c.state c s.1)
    (action : x.command.action = .firmwareAbort) (phase : c.state.firmware.phase ≠ .trial) :
    SimE (lockSpec P f) (Execute.firmwareAbort P status) c s fun r c' s' =>
      Performed P f x c.state r c' s'.1 := by
  have outcome : Outcomes P f s.1.notes x c.state (Execute.abortedSnapshot c.state) :=
    .unlogged (.inr ⟨.firmware _ [] (by rw [action]; exact .abort phase), by rw [action]; trivial⟩)
      rfl rfl
  unfold Execute.firmwareAbort
  simp only [simE_bind, simE_get, andThen_ok]
  rw [← simE_bind]
  refine (audit_spec (h.hears h.live) _ _ _ _ _).bind ?_ ?_
  · rintro n c₁ s₁ ⟨audited, rfl, heard⟩
    have near : n.nextCursor.toNat ≤ c₁.state.nextCursor.toNat + 2 := by
      have cursor : n.nextCursor.toNat = c₁.state.nextCursor.toNat + 1 := audited.cursor
      omega
    have stored := outcome.audited audited
    rw [← heard.notes] at stored
    refine (stored.store (h.heard heard) near).bind ?_ ?_
    · rintro _ c₂ s₂ (⟨_, rfl, carrying⟩ | ⟨⟨⟩, _⟩)
      have custody : Custody c₂.state .bootAbort := by
        have firmware := congrArg AuthState.firmware audited.auth
        exact congrArg FirmwareStatus.phase firmware
      refine carrying.boot.bind ?_ fun e c' s' post => post.2.failed e
      rintro _ c₃ s₃ ⟨rfl, carrying₃⟩
      refine SimE.bind (act_spec carrying₃ fun _ => ⟨carrying₃.acts action custody, rfl⟩) ?_
        (by rintro e c' s' ⟨⟨⟨_, ⟨⟩⟩, _⟩, _⟩)
      rintro answer c₄ s₄ ⟨_, rfl, carrying₄⟩
      simp only [simE_bind, simE_orFail]
      cases answer with
      | error e => exact carrying₄.failed e
      | ok =>
        exact ⟨carrying₄.toReady, carrying₄.near, carrying₄.key, fun _ h => (by cases h),
          fun _ h => (by cases h)⟩
    · rintro e c₂ s₂ (⟨⟨⟩, _⟩ | ⟨_, failed⟩)
      exact failed e
  · rintro e c₁ s₁ ⟨_, rfl, heard⟩
    exact (h.heard heard).failed e

theorem rotateDeviceKey_spec (h : Carrying f x c.state c s.1)
    (action : x.command.action = .rotateDeviceKey signed) :
    SimE (lockSpec P f) (Execute.rotateDeviceKey P signed) c s fun r c' s' =>
      Performed P f x c.state r c' s'.1 := by
  unfold Execute.rotateDeviceKey
  refine h.observe.bind ?_ fun e c' s' post => post
  rintro clock c₁ s₁ (carrying : Carrying f x c.state c₁ s₁.1)
  simp only [simE_bind, simE_orFail]
  cases clock with
  | none => exact carrying.failed _
  | some now =>
    simp only [okOr, andThen_ok, simE_bind, simE_get, simE_orFail]
    cases issuerKey P c₁.state with
    | error e => exact carrying.failed e
    | ok issuer =>
      simp only [andThen_ok, simE_bind, simE_orFail]
      cases read : readKeyUpdate P issuer c₁.state.deviceKey signed now with
      | error e => exact carrying.failed e
      | ok update =>
        obtain ⟨valid, device⟩ := readKeyUpdate_ok read
        rw [andThen_ok]
        refine SimE.bind (act_spec carrying fun _ => ⟨carrying.quiet, rfl⟩) ?_
          (by rintro e c' s' ⟨⟨⟨_, ⟨⟩⟩, _⟩, _⟩)
        rintro present c₂ s₂ ⟨_, rfl, carrying₂⟩
        rw [simE_bind, simE_failIf]
        refine ⟨fun _ => carrying₂.failed _, fun _ => ?_⟩
        simp only [andThen_ok, simE_bind, simE_orFail]
        cases next : checkedAdd c₂.state.generation 1 with
        | none => exact carrying₂.failed _
        | some generation =>
          obtain ⟨rfl, fits⟩ := checkedAdd_one next
          refine ⟨carrying₂.toReady, carrying₂.near, carrying₂.key, fun _ h => (by cases h), ?_⟩
          rintro _ ⟨⟩
          refine ⟨Outcomes.change ?_ carrying₂ rfl, .same rfl, Nat.le_succ _⟩
          exact .unlogged (.inr ⟨.rotate signed _ action valid device fits, by rw [action]; trivial⟩)
            rfl rfl

end Actions
end OpenLock
