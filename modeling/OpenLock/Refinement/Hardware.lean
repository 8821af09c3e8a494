import OpenLock.Refinement.Hazards

/-! Observing the hardware refines the abstract lock. -/
namespace OpenLock
open Controller Effects

variable {P : Primitives} {f g : FactoryIdentity} {c c' c₀ c'' : Controller} {s s' : Lock P f}
  {n : DeviceSnapshot} {r : Except Error α} {α : Type} {k : Nat} {now : UInt64} {a₀ a a' : Abs}

/-- The clock reading a service returns was taken during it. -/
def Clocked (r : Except Error (Option ClockSample)) (s : Abs) : Prop :=
  ∀ x, r = .ok (some x) → x ∈ s.clocks

theorem reportFault_spec (h : Prepared f 1 c s.1 n) (kept : Kept 0 c₀ a₀ c s.1) :
    SimE (lockSpec P f) (reportFault n) c s fun r c' s' =>
      (match r with
        | .ok n' => Prepared f 2 c' s'.1 n'
        | .error e => Verdict f r c' s'.1 ∧ Unfit 2 c₀ c' e) ∧ Kept 0 c₀ a₀ c' s'.1 := by
  unfold reportFault
  split
  · refine ⟨?_, kept⟩
    rcases h with ⟨ready, bg, cursor⟩ | ⟨a, e, stopped, failed⟩
    · exact .inl ⟨ready, bg, Nat.le_succ_of_le cursor⟩
    · exact .inr ⟨a, e, stopped, failed.background, failed.inflight, failed.record,
        Nat.le_succ_of_le failed.cursor, failed.grew⟩
  · refine (h.audit (Nat.le_refl 1) _ _ _ _).mono ?_
    rintro r c' s' ⟨post, rfl, heard⟩
    refine ⟨?_, kept.auth, kept.gates, kept.cursor, kept.active,
      heard.progress.trans kept.progress⟩
    cases r with
    | ok => exact post
    | error e => exact ⟨post.1, by simpa using post.2.since kept.cursor⟩

theorem commitIfChanged_spec (h : Prepared f k c s.1 n) (kept : Kept 0 c₀ a₀ c s.1) :
    SimE (lockSpec P f) (commitIfChanged P n) c s
      fun r c' s' => Observed f k c₀ a₀ r c' s'.1 := by
  unfold commitIfChanged
  simp only [simE_bind, simE_get, andThen_ok]
  split
  · refine (h.serviced kept).mono ?_
    intro r c' s' serviced
    rwa [Nat.zero_add] at serviced
  · rename_i same
    rw [not_not] at same
    subst same
    exact .ok ⟨h.unchanged, kept.mono (Nat.zero_le k)⟩

/-- A part of a service may start from a controller that differs in volatile fields. -/
theorem Observed.cosmetic (hc : Cosmetic c c') (h : Observed f k c' a r c'' a') :
    Observed f k c a r c'' a' := by
  refine ⟨⟨h.1.1, h.1.2.cosmetic hc⟩, fun e he => ?_⟩
  have why := (h.2 e he).since (c := c) (j := 0) (by rw [hc.state]; exact Nat.le_refl _)
  simpa using why

/-- What follows an earlier part of the service. -/
theorem Observed.since {j k : Nat} {a a' a'' : Abs} (kept : Kept j c a c' a')
    (h : Observed f k c' a' r c'' a'') :
    Observed f (j + k) c a r c'' a'' :=
  ⟨⟨h.1.1, kept.trans h.1.2⟩, fun e he => (h.2 e he).since kept.cursor⟩

theorem Observed.mono {k l : Nat} (h : Observed f k c a r c' a') (hk : k ≤ l) :
    Observed f l c a r c' a' :=
  ⟨⟨h.1.1, h.1.2.mono hk⟩, fun e he => (h.2 e he).mono hk⟩

theorem sensorFault_spec (h : Sensed f c s.1 .sensorConflict) (allow : Bool) :
    SimE (lockSpec P f) (sensorFault P allow) c s fun r c' s' =>
      Observed f 2 c s.1 r c' s'.1 ∧ Clocked r s'.1 := by
  unfold sensorFault
  simp only [simE_bind, simE_modify, andThen_ok]
  have cosmetic : Cosmetic c
      { c with fault := .sensorConflict, sample := unavailableSample c.factory.info } :=
    ⟨⟨rfl, rfl, rfl, rfl, rfl⟩, rfl⟩
  rw [← simE_bind]
  refine (stopFaultyDrive_spec (h.cosmetic cosmetic)).bind ?_ ?_
  · rintro n c₁ s₁ ⟨prepared, kept⟩
    refine (reportFault_spec prepared kept).bind ?_ ?_
    · rintro n c₂ s₂ ⟨prepared, kept⟩
      refine (commitIfChanged_spec prepared kept).bind ?_ ?_
      · rintro _ c₃ s₃ ⟨⟨ready, kept⟩, _⟩
        refine (refreshClock_spec ready).bind ?_ ?_
        · rintro clock c₄ s₄ ⟨⟨⟨ready', kept'⟩, _⟩, clocked⟩
          have kept₄ := (kept.trans kept').cosmetic cosmetic
          split
          · exact ⟨.ok ⟨ready', kept₄⟩, clocked⟩
          · exact ⟨.error ⟨⟨ready'.toCoupled, fun _ => .inl ready'.recorded⟩, kept₄⟩ .sensors,
              fun _ h => by cases h⟩
        · rintro e c₄ s₄ ⟨observed, _⟩
          exact ⟨(observed.since kept).cosmetic cosmetic, fun _ h => by cases h⟩
      · rintro e c₃ s₃ observed
        have whole := observed.cosmetic cosmetic
        exact ⟨.error whole.1 (whole.2 e rfl), fun _ h => by cases h⟩
    · rintro e c₂ s₂ ⟨⟨verdict, why⟩, kept⟩
      exact ⟨Observed.cosmetic cosmetic (.error ⟨verdict, kept.mono (Nat.zero_le 2)⟩ why),
        fun _ h => by cases h⟩
  · rintro e c₁ s₁ ⟨⟨verdict, why⟩, kept⟩
    exact ⟨Observed.cosmetic cosmetic (.error ⟨verdict, kept.mono (Nat.zero_le 2)⟩
      (why.mono (Nat.le_succ 1))), fun _ h => by cases h⟩

/-- The state right after a reading `r` was taken at time `now`. -/
structure Sampled (f : FactoryIdentity) (c : Controller) (s : Abs) (now : UInt64)
    (r : HardwareSample) : Prop where
  factory : Identified f c.factory c.state.firmware
  mem : s.mem = some c.state
  live : c.poisoned = false
  poisoned : s.poisoned = false
  mono : s.lastMono = c.lastMono
  owned : s.owned = c.active
  recorded : s.failing = none
  hazard : s.hazard = c.active.bind (hazardOf f.info now r)

namespace Sampled
variable {a : Abs} {now : UInt64} {r : HardwareSample}

theorem ready (h : Sampled f c a now r) (safe : c.active.bind (hazardOf f.info now r) = none) :
    Ready f c a :=
  ⟨⟨⟨h.factory, h.mem, h.poisoned.trans h.live.symm, h.mono, fun _ => h.hazard.trans safe⟩, h.owned⟩,
    h.live, h.recorded⟩

theorem hazardous {d : Active} {e : Error} (h : Sampled f c a now r) (active : c.active = some d)
    (hz : hazardOf f.info now r d = some e) : Hazard f c a d e :=
  ⟨h.factory, h.mem, h.live, h.poisoned, h.mono, h.owned.trans active, active,
    h.hazard.trans (by rw [active]; exact hz)⟩

/-- An invalid reading is a hazard to any running drive. -/
theorem invalid (h : Sampled f c a now r) (bad : sampleValid f.info r = false) :
    Sensed f c a .sensorConflict := by
  cases active : c.active with
  | none => exact .inl ⟨active, h.ready (by rw [active]; rfl)⟩
  | some d => exact .inr ⟨d, h.hazardous active (by simp [hazardOf, bad])⟩

theorem cosmetic (h : Sampled f c a now r) (hc : Cosmetic c c') : Sampled f c' a now r :=
  ⟨by rw [hc.factory, hc.state]; exact h.factory, by rw [hc.state]; exact h.mem, hc.poisoned.trans h.live,
    h.poisoned, by rw [hc.mono]; exact h.mono, by rw [hc.active]; exact h.owned, h.recorded,
    by rw [hc.active]; exact h.hazard⟩

end Sampled

/-- No interlock looks at the reported firmware version. -/
theorem SameFactory.driveHazard (h : SameFactory f g) (r : HardwareSample) (a : Active)
    (now : UInt64) :
    Controller.driveHazard g.info r a now = Controller.driveHazard f.info r a now := by
  rw [h]
  rfl

theorem SameFactory.sampleValid (h : SameFactory f g) (r : HardwareSample) :
    Controller.sampleValid g.info r = Controller.sampleValid f.info r := by
  rw [h]
  rfl

theorem stopUnsafeAction_spec {r : HardwareSample} (h : Sampled f c s.1 now r)
    (valid : sampleValid f.info r = true) (sample : c.sample = r) :
    SimE (lockSpec P f) (stopUnsafeAction P now) c s
      fun r c' s' => Observed f 1 c s.1 r c' s'.1 := by
  have hz : ∀ a, hazardOf f.info now r a = driveHazard f.info r a now := fun a => by
    rw [hazardOf, if_pos valid]
  unfold stopUnsafeAction
  simp only [simE_bind, simE_get, andThen_ok]
  cases active : c.active with
  | none => exact .ok ⟨h.ready (by rw [active]; rfl), (Kept.refl _ _).mono (Nat.zero_le 1)⟩
  | some a =>
    simp only [h.factory.same.driveHazard, sample]
    cases drive : driveHazard f.info r a now with
    | none =>
      refine .ok ⟨h.ready ?_, (Kept.refl _ _).mono (Nat.zero_le 1)⟩
      rw [active, Option.bind_some, hz, drive]
    | some e =>
      have hazard := h.hazardous active ((hz a).trans drive)
      refine (requireStop_spec hazard).bind ?_
        fun x c' s' died => .error ⟨died.2.verdict x, died.2.kept.mono (Nat.zero_le 1)⟩
          (died.2.unfit (.inr (.inr died.1)))
      rintro _ c₁ s₁ ⟨stopped, rfl, progress⟩
      simp only [simE_bind, simE_modify, andThen_ok]
      rw [← simE_bind]
      refine (dropRelockIf_spec _).bind ?_ (by rintro e c' s' ⟨_, ⟨⟩, _⟩)
      rintro n c₂ _ ⟨_, ⟨⟩, rfl, hc, flags, inflight⟩
      have noted : Cosmetic { c with active := none } { c with
          active := none, lastIdleBolt := idleBolt c.sample.bolt, fault := hazardFault e } :=
        ⟨⟨rfl, rfl, rfl, rfl, rfl⟩, rfl⟩
      have stopped₂ := (stopped.cosmetic noted).cosmetic hc
      have flags₂ : FlagsOnly c₂.state n := by
        rw [hc.state]
        exact FlagsOnly.trans (n := { c.state with automaticInflight := false }) ⟨rfl, rfl, rfl⟩
          flags
      refine (failDrive_prepared stopped₂ flags₂ inflight).bind ?_ ?_
      · rintro n' c₃ s₃ ⟨prepared, rfl, heard⟩
        have kept : Kept 0 c s.1 c₃ s₃.1 :=
          (stopped₂.heard heard).kept hc.state hc.gates (heard.progress.trans progress)
        exact prepared.serviced kept
      · rintro x c₃ s₃ ⟨⟨verdict, why⟩, rfl, heard⟩
        have kept : Kept 0 c s.1 c₃ s₃.1 :=
          (stopped₂.heard heard).kept hc.state hc.gates (heard.progress.trans progress)
        exact .error ⟨verdict, kept.mono (Nat.zero_le 1)⟩ (by simpa using why.since kept.cursor)

/-- Flags and volatile fields may still change before a prepared snapshot is committed. -/
theorem Prepared.flagged {n' : DeviceSnapshot} (h : Prepared f k c a n) (hc : Cosmetic c c')
    (flags : FlagsOnly n n') (inflight : n'.automaticInflight = n.automaticInflight) :
    Prepared f k c' a n' := by
  rcases h with ⟨ready, bg, cursor⟩ | ⟨d, e, stopped, failed⟩
  · refine .inl ⟨ready.cosmetic hc, ?_, ?_⟩
    · rw [hc.state]
      exact ⟨flags.auth.trans bg.auth, by rw [flags.operations]; exact bg.operations,
        bg.logged.trans flags.logged⟩
    · rw [hc.state, flags.cursor]
      exact cursor
  · refine .inr ⟨d, e, stopped.cosmetic hc, ?_⟩
    rw [hc.state]
    have bg := failed.background
    refine ⟨⟨flags.auth.trans bg.auth, by rw [flags.operations]; exact bg.operations,
      bg.logged.trans flags.logged⟩, inflight.trans failed.inflight, ?_, ?_, ?_⟩
    · rw [flags.operations]
      exact failed.record
    · rw [flags.cursor]
      exact failed.cursor
    · rw [Grew, flags.cursor]
      exact failed.grew

theorem auditSample_spec (h : Ready f c s.1) (old sample : HardwareSample) :
    SimE (lockSpec P f) (auditSample c.state old sample) c s fun r c' s' =>
      (match r with
        | .ok n => Prepared f 1 c s'.1 n
        | .error e => Verdict f r c s'.1 ∧ Unfit 1 c c e) ∧ c' = c ∧ Heard s.1 s'.1 := by
  have start : Prepared f 0 c s.1 c.state :=
    .inl ⟨h, .flags rfl rfl (.refl _), Nat.le_refl _⟩
  unfold auditSample
  split
  · exact ⟨.inl ⟨h, .flags rfl rfl (.refl _), Nat.le_succ _⟩, rfl, .refl _⟩
  · refine (audit_spec (h.hears h.live) c.state _ _ _ _).bind ?_ ?_
    · rintro n c' s' ⟨audited, rfl, heard⟩
      exact ⟨(start.heard heard).audited (audited.describe fun _ => rfl), rfl, heard⟩
    · rintro e c' s' ⟨⟨rfl, full⟩, rfl, heard⟩
      exact ⟨⟨(h.heard heard).calm, .exhausted full⟩, rfl, heard⟩

theorem doorChanged_spec (old sample : HardwareSample) (now : UInt64) :
    SimE (lockSpec P f) (doorChanged n old sample now) c s
      fun r c' s' => r = .ok () ∧ s' = s ∧ Cosmetic c c' := by
  unfold doorChanged
  split
  · exact ⟨rfl, rfl, ⟨rfl, rfl, rfl, rfl, rfl⟩, rfl⟩
  · exact ⟨rfl, rfl, .refl c⟩

theorem recordSample_spec (h : Ready f c s.1) (old sample : HardwareSample) (now : UInt64)
    (wasIdle confirmedLocked : Bool) (previous : Option BoltState) :
    SimE (lockSpec P f) (recordSample P old sample now wasIdle confirmedLocked previous) c s
      fun r c' s' => Observed f 1 c s.1 r c' s'.1 := by
  unfold recordSample
  simp only [simE_bind, simE_get, andThen_ok]
  rw [← simE_bind]
  refine (auditSample_spec h old sample).bind ?_ ?_
  · rintro n c₁ s₁ ⟨prepared, rfl, heard⟩
    refine (dropRelockIf_spec _).bind ?_ (by rintro e c' s' ⟨_, ⟨⟩, _⟩)
    rintro n₁ c₂ _ ⟨_, ⟨⟩, rfl, hc₂, flags₁, inflight₁⟩
    refine (doorChanged_spec old sample now).bind ?_ (by rintro e c' s' ⟨⟨⟩, _⟩)
    rintro _ c₃ _ ⟨_, rfl, hc₃⟩
    refine (scheduleRelockIf_spec _ now).bind ?_ (by rintro e c' s' ⟨_, ⟨⟩, _⟩)
    rintro n₂ c₄ s₄ ⟨_, ⟨⟩, rfl, hc₄, flags₂, inflight₂⟩
    have cosmetic : Cosmetic c₁ c₄ := (hc₂.trans hc₃).trans hc₄
    have prepared₄ := prepared.flagged cosmetic (flags₁.trans flags₂) (inflight₂.trans inflight₁)
    have kept : Kept 0 c₁ s.1 c₄ s₄.1 :=
      ⟨by rw [cosmetic.state], cosmetic.gates, by rw [cosmetic.state]; exact Nat.le_refl _,
        .inl cosmetic.active, heard.progress⟩
    refine (prepared₄.serviced kept).mono ?_
    intro r c' s' serviced
    rwa [Nat.zero_add] at serviced
  · rintro e c' s' ⟨⟨verdict, why⟩, rfl, heard⟩
    exact .error ⟨verdict, rfl, rfl, Nat.le_succ _, .inl rfl, heard.progress⟩ why

theorem noteIdleBolt_spec (idle : Bool) (bolt : Reading BoltState) :
    SimE (lockSpec P f) (noteIdleBolt idle bolt) c s
      fun r c' s' => r = .ok () ∧ s' = s ∧ Cosmetic c c' :=
  ⟨rfl, rfl, ⟨rfl, rfl, rfl, rfl, rfl⟩, rfl⟩

theorem validSample_spec {r : HardwareSample} (h : Sampled f c s.1 now r)
    (valid : sampleValid f.info r = true) :
    SimE (lockSpec P f) (validSample P now r) c s fun r c' s' =>
      Observed f 2 c s.1 r c' s'.1 ∧ Clocked r s'.1 := by
  have cosmetic : Cosmetic c { c with sample := r } := ⟨⟨rfl, rfl, rfl, rfl, rfl⟩, rfl⟩
  unfold validSample
  simp only [simE_bind, simE_get, simE_modify, andThen_ok]
  rw [← simE_bind]
  refine (stopUnsafeAction_spec (h.cosmetic cosmetic) valid rfl).bind ?_ ?_
  · rintro _ c₁ s₁ ⟨⟨ready₁, kept₁⟩, _⟩
    refine (refreshClock_spec ready₁).bind ?_ ?_
    · rintro clock c₂ s₂ ⟨⟨⟨ready₂, kept₂⟩, _⟩, clocked⟩
      refine (noteIdleBolt_spec _ _).bind ?_ (by rintro e c' s' ⟨⟨⟩, _⟩)
      rintro _ c₃ _ ⟨_, rfl, hc₃⟩
      have ready₃ := ready₂.cosmetic hc₃
      have kept₃ : Kept 1 c s.1 c₃ _ := ((kept₁.trans kept₂).cosmetic cosmetic).after hc₃
      simp only [simE_bind, simE_get, andThen_ok]
      split
      · exact ⟨.ok ⟨ready₃, kept₃.mono (Nat.le_succ 1)⟩, clocked⟩
      · refine (framed (recordSample_spec ready₃ _ _ _ _ _ _)).bind ?_ ?_
        · rintro _ c₄ s₄ ⟨⟨⟨ready₄, kept₄⟩, _⟩, frame⟩
          simp only [simE_bind, simE_get, andThen_ok, simE_pure]
          refine ⟨.ok ⟨ready₄, kept₃.trans kept₄⟩, ?_⟩
          intro x hx
          have hx : clock = some x := (Option.filter_eq_some_iff.1 (Except.ok.inj hx)).1
          exact frame.clocks (clocked x (by rw [hx]))
        · rintro e c₄ s₄ ⟨observed, _⟩
          have whole : Observed f 2 c s.1 (.error e : Except Error Unit) c₄ s₄.1 :=
            observed.since kept₃
          exact ⟨.error whole.1 (whole.2 e rfl), fun _ h => by cases h⟩
    · rintro e c₂ s₂ ⟨observed, _⟩
      exact ⟨((observed.since kept₁).cosmetic cosmetic).mono (Nat.le_succ 1), fun _ h => by cases h⟩
  · rintro e c₁ s₁ observed
    have whole := (observed.cosmetic cosmetic).mono (Nat.le_succ 1)
    exact ⟨.error whole.1 (whole.2 e rfl), fun _ h => by cases h⟩

/-- The state a fresh reading leaves. -/
theorem Sampled.sense (h : Ready f c a) (r : HardwareSample) :
    Sampled f c (a.sense f.info r) c.lastMono r :=
  ⟨h.factory, h.mem, h.live, h.poisoned.trans h.live, h.mono, h.owned, h.recorded,
    by rw [← h.owned, ← h.mono]; rfl⟩

theorem observeHardware_spec (h : Coupled f c s.1) (recorded : s.1.failing = none)
    (allow : Bool) :
    SimE (lockSpec P f) (observeHardware P allow) c s fun r c' s' =>
      Observed f 2 c s.1 r c' s'.1 ∧ Clocked r s'.1 := by
  unfold observeHardware
  refine (now_spec h fun _ => recorded).bind ?_ ?_
  · rintro now c₁ s₁ ⟨ready, rfl, _, hs₁⟩
    rw [simE_bind]
    apply simE_request
    intro sample _
    refine ⟨s₁.1.sense f.info sample, ⟨ready.quiet, rfl⟩, fun inv => ?_⟩
    have sampled := Sampled.sense ready sample
    have start : Kept 0 c s.1 { c with lastMono := now } (s₁.1.sense f.info sample) :=
      ⟨rfl, rfl, Nat.le_refl _, .inl rfl, by rw [hs₁]; rfl⟩
    have finish : ∀ r c' (s' : Lock P f),
        Observed f 2 { c with lastMono := now } (s₁.1.sense f.info sample) r c' s'.1
          ∧ Clocked r s'.1 → Observed f 2 c s.1 r c' s'.1 ∧ Clocked r s'.1 := by
      rintro r c' s' ⟨observed, clocked⟩
      exact ⟨by simpa using observed.since start, clocked⟩
    simp only [andThen_ok, simE_bind, simE_get, validateSample]
    rw [ready.factory.same.sampleValid]
    cases valid : sampleValid f.info sample with
    | true => exact (validSample_spec (s := ⟨_, inv⟩) sampled valid).mono finish
    | false => exact (sensorFault_spec (s := ⟨_, inv⟩) (sampled.invalid valid) allow).mono finish
  · rintro e c' s' ⟨cause, died⟩
    refine ⟨.error ⟨died.verdict e, died.kept.mono (Nat.zero_le 2)⟩ (died.unfit ?_),
      fun _ h => by cases h⟩
    exact cause.imp_right .inl

theorem hardwareChanged_spec (h : Coupled f c s.1) (recorded : s.1.failing = none) :
    SimE (lockSpec P f) (hardwareChanged P) c s fun r c' s' => Observed f 2 c s.1 r c' s'.1 := by
  unfold hardwareChanged
  refine (observeHardware_spec h recorded false).bind ?_ ?_
  · rintro _ c' s' ⟨observed, _⟩
    exact .ok observed.1
  · rintro e c' s' ⟨observed, _⟩
    exact .error observed.1 (observed.2 e rfl)

end OpenLock
