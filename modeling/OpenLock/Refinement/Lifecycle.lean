import OpenLock.Refinement.Dispatch

/-! Completion callbacks and background polling refine the abstract lock. -/
namespace OpenLock
open Controller Effects

variable {P : Primitives} {f : FactoryIdentity} {c c' : Controller} {s s' : Lock P f}
  {n : DeviceSnapshot}

/-- How a step of a background call ends. -/
def Settles (f : FactoryIdentity) (s : Abs) {α : Type} (r : Except Error α) (c' : Controller)
    (s' : Abs) : Prop :=
  Verdict f r c' s' ∧ s'.progress = s.progress

theorem Ready.settles {α : Type} {a : Abs} (h : Ready f c a) (r : Except Error α) :
    Settles f a r c a := ⟨h.verdict r, rfl⟩

theorem Stored.settles {a a' : Abs} {pr : Progress} {r : Except Error Unit}
    (h : Stored f c a n pr r c' a') (same : pr = a.progress) : Settles f a r c' a' := by
  rcases h with ⟨rfl, rfl, rfl, ready⟩ | ⟨rfl, died⟩
  · exact ⟨ready, same⟩
  · exact ⟨died.verdict _, died.progress⟩

/-- Housekeeping that ends a background call: audit and commit. -/
theorem auditAndStore {kind : AuditKind} {id : Option CredentialId} {seq : Option UInt64}
    {code : UInt32} (h : Ready f c s.1) (auth : n.auth = c.state.auth)
    (operations : n.operations = c.state.operations)
    (log : n.log = c.state.log) :
    SimE (lockSpec P f) (do commit P (← audit n kind id seq code)) c s fun r c' s' =>
      Settles f s.1 r c' s'.1 := by
  refine (audit_spec (h.hears h.live) n kind id seq code).bind ?_ ?_
  · rintro n' c₁ s₁ ⟨audited, rfl, heard⟩
    refine (store_background (h.heard heard).tame (.flags (audited.auth.trans auth)
      (audited.operations.trans operations) (audited.logged.congr log.symm rfl))).mono ?_
    intro r c₂ s₂ stored
    obtain ⟨verdict, progress⟩ := stored.settles rfl
    exact ⟨verdict, progress.trans heard.progress⟩
  · rintro e c₁ s₁ ⟨_, rfl, heard⟩
    exact ⟨(h.heard heard).calm, heard.progress⟩

section Boot

theorem TrialEnded.manifest {m : DeviceSnapshot} {w : FirmwareStatus} (h : TrialEnded m w) :
    w.manifest = m.firmware.manifest := by
  cases h <;> rfl

theorem bootResult_ended {m : FirmwareManifest} {o : BootOutcome} {m' : DeviceSnapshot}
    (known : m'.firmware.manifest = some m) (result : bootResult m' m o = some n) :
    ∃ firmware, TrialEnded m' firmware ∧ n = { m' with firmware }
      ∧ (firmware.phase = .confirmed → o = .confirmed) := by
  cases o with
  | pending => cases result
  | confirmed =>
    cases result
    exact ⟨_, .confirmed m known, rfl, fun _ => rfl⟩
  | rolledBack =>
    cases result
    exact ⟨_, .rolledBack, rfl, fun h => (by cases h)⟩

/-- A new version may be reported while the trial runs. -/
theorem Identified.report (h : Identified f c.factory c.state.firmware)
    (trial : c.state.firmware.phase = .trial) (version : String) :
    Identified f { c.factory with info := { c.factory.info with firmware := version } }
      c.state.firmware := by
  refine ⟨h.same.report version, fun confirmed => ?_⟩
  rw [trial] at confirmed
  cases confirmed

theorem reportVersionIf_spec (h : Ready f c s.1) (trial : c.state.firmware.phase = .trial)
    (p : Prop) [Decidable p] (version : String) :
    SimE (lockSpec P f) (reportVersionIf p version) c s fun r c' s' =>
      r = .ok () ∧ s' = s ∧ Ready f c' s'.1 ∧ c'.state = c.state
        ∧ (p → c'.factory.info.firmware = version) := by
  unfold reportVersionIf
  split
  · exact ⟨rfl, rfl, ⟨⟨⟨h.factory.report trial version, h.mem, h.poisoned, h.mono, h.safe⟩, h.owned⟩,
      h.live, h.recorded⟩, rfl, fun _ => rfl⟩
  · rename_i unmet
    exact ⟨rfl, rfl, h, rfl, fun met => absurd met unmet⟩

/-- A durable trial outcome is recorded once. -/
theorem reconcileBoot_spec (h : Ready f c s.1)
    (call : s.1.call = .method .poll ∨ s.1.call.constructs = true) :
    SimE (lockSpec P f) (reconcileBoot P) c s fun r c' s' => Settles f s.1 r c' s'.1 := by
  unfold reconcileBoot
  simp only [simE_bind, simE_get, andThen_ok]
  split
  · exact h.settles _
  rename_i trial
  rw [not_not] at trial
  rw [simE_bind, simE_orFail]
  cases known : okOr c.state.firmware.manifest .firmwareInvalid with
  | error e => exact h.settles _
  | ok candidate =>
    rw [okOr_eq_ok] at known
    rw [andThen_ok]
    refine (boot_spec h).bind ?_ ?_
    · rintro _ c₁ s₁ ⟨rfl, noted₁⟩
      have h₁ := h.noted noted₁
      refine SimE.bind (ask_spec fun _ => ⟨h₁.quiet, rfl⟩) ?_
        (by rintro e c' s' ⟨⟨⟨_, ⟨⟩⟩, _⟩, _⟩)
      rintro answer c₂ s₂ ⟨⟨_, answered⟩, rfl, noted₂⟩
      have noted := noted₁.trans noted₂
      have h₂ := h.noted noted
      have quiet : ∀ r : Except Error Unit, Settles f s.1 r c₂ s₂.1 :=
        fun r => ⟨h₂.verdict r, noted.progress⟩
      rw [simE_bind, simE_orFail]
      cases answer with
      | error e => exact quiet _
      | ok outcome =>
        rw [andThen_ok]
        cases result : bootResult c₂.state candidate outcome with
        | none => exact quiet _
        | some n =>
          obtain ⟨firmware, ended, rfl, confirmed⟩ := bootResult_ended known result
          refine (reportVersionIf_spec h₂ trial _ _).bind ?_ (by rintro e c' s' ⟨⟨⟩, _⟩)
          rintro _ c₃ s₃ ⟨_, rfl, h₃, state, reported⟩
          refine (framed (audit_spec (h₃.hears h₃.live) _ _ _ _ _)).bind ?_ ?_
          · rintro n' c₄ s₄ ⟨⟨audited, rfl, heard₄⟩, frame₄⟩
            have h₄ := h₃.heard heard₄
            have call₄ : s₄.1.call = .method .poll ∨ s₄.1.call.constructs = true := by
              rwa [(noted.trans heard₄.noted).call]
            have seen : firmware.phase = .confirmed → ∃ w, c₂.state.firmware.manifest = some w
                ∧ s₄.1.notes.head? = some ⟨.bootOutcome w, .ok .confirmed⟩ := by
              intro phase
              refine ⟨candidate, known, ?_⟩
              rw [heard₄.notes, ← confirmed phase]
              exact answered _ rfl
            have change : Change P f s₄.1 c₄.state n' s₄.1.progress s₄.1.owned := by
              rw [state]
              exact .trialEnded firmware h₄.recorded call₄ trial ended audited.auth
                (by rw [audited.operations]; exact .refl _ _) (audited.logged.congr rfl rfl) seen
            rw [h₄.owned] at change
            have announced : Announced c₄ n' := by
              intro _ phase
              rw [show n'.firmware = firmware from congrArg AuthState.firmware audited.auth] at phase ⊢
              exact ⟨candidate, ended.manifest.trans known, reported (confirmed phase)⟩
            refine (store_spec h₄.toLinked h₄.live change announced fun y =>
              background_room y).mono ?_
            intro r c₅ s₅ stored
            obtain ⟨verdict, progress⟩ := stored.settles rfl
            exact ⟨verdict, progress.trans (noted.trans heard₄.noted).progress⟩
          · rintro e c₄ s₄ ⟨⟨_, rfl, heard₄⟩, _⟩
            exact ⟨(h₃.heard heard₄).calm, (noted.trans heard₄.noted).progress⟩
    · rintro e c₁ s₁ ⟨rfl, noted⟩
      exact ⟨(h.noted noted).calm, noted.progress⟩

end Boot

theorem remindDoorAjar_spec (h : Ready f c s.1) (now : UInt64) :
    SimE (lockSpec P f) (remindDoorAjar P now) c s fun r c' s' => Settles f s.1 r c' s'.1 := by
  unfold remindDoorAjar
  simp only [simE_bind, simE_get, andThen_ok]
  split
  · simp only [simE_bind, simE_modify, andThen_ok]
    rw [← simE_bind]
    exact auditAndStore (h.volatile ⟨rfl, rfl, rfl, rfl, rfl⟩) rfl rfl rfl
  · exact h.settles _

section Relock

/-- Ending an automatic attempt without a drive. -/
theorem endAutomatic_spec (h : Tame f c s.1) (phase : OperationPhase)
    (evidence : CompletionEvidence) (error : UInt32) :
    SimE (lockSpec P f) (endAutomatic P phase evidence error) c s fun r c' s' =>
      Verdict f r c' s'.1 := by
  unfold endAutomatic
  simp only [simE_bind, simE_get, andThen_ok]
  rw [← simE_bind]
  refine (auditAutomatic_spec (h.hears h.live) _ _ _ _).bind ?_ ?_
  · rintro n' c₁ s₁ ⟨audited, rfl, heard⟩
    refine (store_background (h.heard heard) (.flags audited.auth audited.operations
      (audited.logged.congr rfl rfl))).mono ?_
    exact fun r c₂ s₂ stored => (stored.settles rfl).1
  · rintro e c₁ s₁ ⟨⟨spent, _⟩, rfl, heard⟩
    have tame := h.heard heard
    exact ⟨tame.toCoupled, fun _ => tame.recorded.imp_right fun h => ⟨spent, h⟩⟩

theorem startAutomatic_spec {deadline : UInt64} (h : Cleared f c s.1 .lock deadline)
    (idle : c.active = none) (settled : c.state.firmware.phase ≠ .trial)
    (relocking : s.1.progress = .relocking) :
    SimE (lockSpec P f) (startAutomatic deadline) c s fun r c' s' => Verdict f r c' s'.1 := by
  obtain ⟨r, reading, permits⟩ := h.reading
  have safe : StartSafe f s.1.lastMono c.state r (automaticDrive c deadline) :=
    ⟨permits.valid, permits.moves, settled, permits.lock, permits.unlock, rfl, h.deadline⟩
  unfold startAutomatic
  simp only [simE_bind, simE_modify, simE_get, andThen_ok]
  apply simE_request
  intro x _
  refine ⟨s.1.drive (automaticDrive c deadline),
    ⟨h.quiet, h.owned.trans idle, _, _, _, h.mem, reading, safe,
      by rw [relocking]; exact .relock _ rfl rfl, rfl, rfl, rfl, rfl, rfl⟩, fun inv => ?_⟩
  have ready : ∀ fault, Ready f { c with
      active := some (automaticDrive c deadline), lastIdleBolt := none, fault := fault }
      (s.1.drive (automaticDrive c deadline)) := fun fault =>
    ⟨⟨⟨h.factory, h.mem, h.poisoned, h.mono, h.safe⟩, rfl⟩, h.live, h.recorded⟩
  cases x with
  | ok => exact ready _
  | error e =>
    simp only [andThen_ok, simE_bind, simE_modify, simE_throw]
    exact (ready _).calm

/-- The relock obligation is claimed durably and driven at most once. -/
theorem automaticRelock_spec (h : Ready f c s.1) (fresh : s.1.progress = .fresh)
    (call : s.1.call = .method .poll) (idle : c.active = none)
    (settled : c.state.firmware.phase ≠ .trial) :
    SimE (lockSpec P f) (automaticRelock P) c s fun r c' s' => Verdict f r c' s'.1 := by
  unfold automaticRelock
  simp only [simE_bind, simE_get, andThen_ok]
  rw [← simE_bind]
  refine (framed (auditAutomatic_spec (h.hears h.live) _ _ _ _)).bind ?_ ?_
  · rintro n c₁ s₁ ⟨⟨audited, rfl, heard⟩, frame⟩
    have h₁ := h.heard heard
    have grew : n.nextCursor.toNat = c₁.state.nextCursor.toNat + 1 := audited.cursor
    have change : Change P f s₁.1 c₁.state n .relocking s₁.1.owned :=
      .upkeep (.relock h₁.recorded (heard.progress.trans fresh) (frame.call.trans call)
        (h₁.owned.trans idle) settled
        (.flags audited.auth audited.operations (audited.logged.congr rfl rfl))
        (by rw [Grew, grew]; omega))
    rw [h₁.owned] at change
    refine (store_spec h₁.toLinked h₁.live change (.same (congrArg AuthState.firmware audited.auth))
      fun _ _ h => (by cases h)).bind ?_ ?_
    · rintro _ c₂ s₂ (⟨_, rfl, hs, ready⟩ | ⟨⟨⟩, _⟩)
      have relocking : s₂.1.progress = .relocking := by rw [hs]; rfl
      have settled₂ : n.firmware.phase ≠ .trial := by
        have same : n.firmware = c₁.state.firmware := congrArg AuthState.firmware audited.auth
        rw [same]
        exact settled
      simp only [simE_bind, simE_modify, andThen_ok, simE_attempt]
      have ready₂ : Ready f { c₁ with state := n, relockDeadline := none } s₂.1 :=
        ready.volatile ⟨rfl, rfl, rfl, rfl, rfl⟩
      refine (prepareActuation_spec ready₂ idle .lock).mono ?_
      rintro r c₃ s₃ ⟨post, kept, state, idle₃⟩
      rcases r with e | _ | deadline
      case ok.some =>
        exact startAutomatic_spec post idle₃ (by rw [state]; exact settled₂)
          (kept.progress.trans relocking)
      case ok.none => exact endAutomatic_spec (Ready.tame post) _ _ _
      case error =>
        simp only [simE_bind, simE_get, andThen_ok]
        split
        · exact post
        · rename_i live
          have live : c₃.poisoned = false := by simpa using live
          refine (endAutomatic_spec (Verdict.tame post live) _ _ _).bind ?_ ?_
          · exact fun _ c₄ s₄ ready => Ready.calm ready
          · exact fun _ c₄ s₄ verdict => verdict
    · rintro e c₂ s₂ (⟨⟨⟩, _⟩ | ⟨_, died⟩)
      exact died.verdict e
  · rintro e c₁ s₁ ⟨⟨_, rfl, heard⟩, _⟩
    exact (h.heard heard).calm

end Relock
theorem relockDue_idle {now : UInt64} (due : relockDue c now = true) :
    c.active = none ∧ c.state.firmware.phase ≠ .trial := by
  simp only [relockDue, Bool.and_eq_true, Option.isNone_iff_eq_none, bne_iff_ne] at due
  exact ⟨due.1.1.1.1, due.1.1.1.2⟩

theorem poll_spec (h : Coupled f c s.1) (recorded : s.1.failing = none)
    (fresh : s.1.progress = .fresh) (call : s.1.call = .method .poll) :
    SimE (lockSpec P f) (poll P) c s fun r c' s' => Verdict f r c' s'.1 := by
  unfold poll
  refine (framed (now_spec h fun _ => recorded)).bind ?_ fun e c' s' died => died.1.2.verdict e
  rintro now c₁ s₁ ⟨⟨ready₁, _, _, hs₁⟩, frame₁⟩
  have fresh₁ : s₁.1.progress = .fresh := by rw [hs₁]; exact fresh
  refine (framed (hardwareChanged_spec ready₁.toCoupled ready₁.recorded)).bind ?_
    fun e c' s' post => post.1.1.1
  rintro _ c₂ s₂ ⟨⟨⟨ready₂, kept₂⟩, _⟩, frame₂⟩
  have call₂ : s₂.1.call = .method .poll := (frame₁.trans frame₂).call.trans call
  refine (framed (reconcileBoot_spec ready₂ (.inl call₂))).bind ?_ fun e c' s' post => post.1.1
  rintro _ c₃ s₃ ⟨⟨ready₃, progress₃⟩, frame₃⟩
  refine (framed (remindDoorAjar_spec ready₃ now)).bind ?_ fun e c' s' post => post.1.1
  rintro _ c₄ s₄ ⟨⟨ready₄, progress₄⟩, frame₄⟩
  have fresh₄ : s₄.1.progress = .fresh := by rw [progress₄, progress₃, kept₂.progress, fresh₁]
  simp only [simE_bind, simE_get, andThen_ok]
  split
  · rename_i due
    obtain ⟨idle, settled⟩ := relockDue_idle due
    exact automaticRelock_spec ready₄ fresh₄ ((frame₃.trans frame₄).call.trans call₂) idle settled
  · exact ready₄

section Completion
variable {result : ActuatorResult} {a : Active}

theorem releaseRelock_spec (a : Active) (bolt : Reading BoltState) :
    SimE (lockSpec P f) (releaseRelock a bolt n) c s fun r c' s' =>
      ∃ n', r = .ok n' ∧ s' = s ∧ Cosmetic c c' ∧ FlagsOnly n n' := by
  unfold releaseRelock
  split
  · exact ⟨_, rfl, rfl, ⟨⟨rfl, rfl, rfl, rfl, rfl⟩, rfl⟩, ⟨rfl, rfl, rfl⟩⟩
  · exact ⟨n, rfl, rfl, .refl c, ⟨rfl, rfl, rfl⟩⟩

theorem findOperation_key {ops : List OperationRecord} {id : CredentialId} {seq : UInt64}
    {r : OperationRecord} (found : findOperation ops id seq = some r) :
    r ∈ ops ∧ r.key = (id, seq) := by
  have key := List.find?_some found
  simp only [Bool.and_eq_true, beq_iff_eq] at key
  exact ⟨List.mem_of_find?_eq_some found, Prod.ext key.1 key.2⟩

/-- The result of a released drive: its record, or an audit entry for an automatic one. -/
theorem recordCompletion_spec (h : Ready f c s.1) (released : a ∈ s.1.released)
    (phase : OperationPhase) (evidence : CompletionEvidence) (error : UInt32) :
    SimE (lockSpec P f) (recordCompletion P a phase evidence error) c s fun r c' s' =>
      Verdict f r c' s'.1 := by
  unfold recordCompletion
  simp only [simE_bind, simE_get, andThen_ok]
  split
  · refine (auditAutomatic_spec (h.hears h.live) _ _ _ _).bind ?_ ?_
    · rintro n c₁ s₁ ⟨audited, rfl, heard⟩
      refine (store_background (h.heard heard).tame (.flags audited.auth audited.operations
        audited.logged)).mono ?_
      exact fun r c₂ s₂ stored => (stored.settles rfl).1
    · rintro e c₁ s₁ ⟨_, rfl, heard⟩
      exact (h.heard heard).calm
  · rename_i manual
    rw [simE_bind, simE_orFail]
    cases found : okOr (findOperation c.state.operations a.credentialId a.sequence)
        .resultUnavailable with
    | error e => exact h.calm
    | ok record =>
      rw [okOr_eq_ok] at found
      obtain ⟨listed, key⟩ := findOperation_key found
      have touched : s.1.touches record.key :=
        .inl ⟨a, released, by simpa using manual, key.symm⟩
      rw [andThen_ok]
      refine (finish_spec h.tame ⟨record, listed, rfl⟩ touched phase evidence error).bind ?_ ?_
      · exact fun _ c' s' post => post.1.1
      · exact fun e c' s' post => post.1.1

theorem completeDrive_spec {entry : Controller} (h : Ready f c s.1) (active : c.active = some a)
    (call : s.1.call = .method (.actuatorFinished a.id result)) (entered : s.1.entry = some entry)
    (found : entry.active = some a) (now : UInt64) :
    SimE (lockSpec P f) (completeDrive P a result now) c s fun r c' s' =>
      Verdict f r c' s'.1 := by
  unfold completeDrive
  simp only [simE_bind, simE_get, simE_modify, andThen_ok]
  generalize completion c.sample.bolt a.target result = report
  obtain ⟨fault, phase, evidence, error⟩ := report
  simp only
  rw [← simE_bind]
  refine (scheduleRelockIf_spec _ _).bind ?_ (by rintro e c' s' ⟨_, ⟨⟩, _⟩)
  rintro n₁ c₁ _ ⟨_, ⟨⟩, rfl, hc₁, flags₁, _⟩
  refine (releaseRelock_spec a _).bind ?_ (by rintro e c' s' ⟨_, ⟨⟩, _⟩)
  rintro n₂ c₂ s₂ ⟨_, ⟨⟩, rfl, hc₂, flags₂⟩
  have cosmetic := hc₁.trans hc₂
  have flags := flags₁.trans flags₂
  have linked : Linked f c₂ s₂.1 := by
    refine Linked.volatile ?_ cosmetic.toVolatile
    exact ⟨h.factory, h.mem, h.poisoned, h.mono, h.safe⟩
  have live : c₂.poisoned = false := cosmetic.poisoned.trans h.live
  have idle : c₂.active = none := cosmetic.active
  have change : Change P f s₂.1 c₂.state n₂ s₂.1.progress c₂.active := by
    rw [idle, cosmetic.state]
    exact .upkeep (.release entry a result h.recorded (h.owned.trans active) call entered found
      (.flags flags.auth flags.operations flags.logged))
  have kept : n₂.auth = c₂.state.auth := by
    rw [cosmetic.state]
    exact flags.auth
  refine (store_spec linked live change (.kept kept) fun y => background_room y).bind ?_ ?_
  · rintro _ c₃ s₃ (⟨_, _, hs, ready⟩ | ⟨⟨⟩, _⟩)
    refine recordCompletion_spec ready ?_ phase evidence error
    rw [hs, idle]
    simp [Abs.stored, Abs.submitted, Abs.committed, h.owned, active]
  · rintro e c₃ s₃ (⟨⟨⟩, _⟩ | ⟨_, died⟩)
    exact died.verdict e

theorem actuatorFinished_spec {id : ActuationId} (h : Coupled f c s.1)
    (recorded : s.1.failing = none) (call : s.1.call = .method (.actuatorFinished id result))
    (entered : s.1.entry = some c) :
    SimE (lockSpec P f) (actuatorFinished P id result) c s fun r c' s' => Verdict f r c' s'.1 := by
  unfold actuatorFinished
  refine (framed (now_spec h fun _ => recorded)).bind ?_ fun e c' s' died => died.1.2.verdict e
  rintro now c₁ s₁ ⟨⟨ready₁, hc₁, _⟩, frame₁⟩
  simp only [simE_bind, simE_get, andThen_ok]
  rw [simE_failIf]
  refine ⟨fun _ => Ready.calm ready₁, fun matched => ?_⟩
  rw [andThen_ok]
  refine (framed (hardwareChanged_spec ready₁.toCoupled ready₁.recorded)).bind ?_
    fun e c' s' post => post.1.1.1
  rintro _ c₂ s₂ ⟨⟨⟨ready₂, kept₂⟩, _⟩, frame₂⟩
  simp only [simE_bind, simE_get, andThen_ok]
  cases active : c₂.active with
  | none => exact ready₂
  | some a =>
    have same : c₁.active = some a := by
      rcases kept₂.active with h | h
      · rw [← h, active]
      · rw [active] at h
        cases h
    have own : a.id = id := by simpa [same] using matched
    have frame := frame₁.trans frame₂
    refine completeDrive_spec ready₂ active ?_ (frame.entry.trans entered) ?_ now
    · rw [own]
      exact frame.call.trans call
    · rw [← same, hc₁]

end Completion
end OpenLock
