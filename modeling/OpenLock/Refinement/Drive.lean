import OpenLock.Refinement.Hardware

/-! Starting a drive and finishing an operation refine the abstract lock. -/
namespace OpenLock
open Controller Effects

variable {P : Primitives} {f : FactoryIdentity} {c c' : Controller} {s s' : Lock P f}
  {status : OperationStatus} {target : ActionTarget}

/-- What the last reading must allow for a drive to `target`. -/
structure Permits (f : FactoryIdentity) (target : ActionTarget) (r : HardwareSample) : Prop where
  valid : sampleValid f.info r = true
  moves : r.bolt ≠ .known (expectedBolt target)
  lock : target = .lock → canLockSample f.info r = .ok ()
  unlock : target = .unlock → r.privacy ≠ .known true ∧ r.privacy ≠ .unknown

/-- The gate before a drive is open: nothing was persisted since a permitting reading. -/
structure Cleared (f : FactoryIdentity) (c : Controller) (s : Abs) (target : ActionTarget)
    (deadline : UInt64) : Prop extends Ready f c s where
  reading : ∃ r, s.reading = some r ∧ Permits f target r
  deadline : checkedAdd s.lastMono c.state.config.actionTimeoutMs.toUInt64 = some deadline

theorem startInterlock_permits {r : HardwareSample} (factory : SameFactory f c.factory)
    (ok : startInterlock c target r = .ok ()) (moves : r.bolt ≠ .known (expectedBolt target)) :
    Permits f target r := by
  simp only [startInterlock, validateSample, bind_eq_ok, failIf_eq_ok, not_not, exists_const,
    factory.sampleValid] at ok
  obtain ⟨valid, ok⟩ := ok
  have canLock : canLockSample c.factory.info r = canLockSample f.info r := by
    rw [factory]
    rfl
  refine ⟨valid, moves, ?_, ?_⟩
  · rintro rfl
    simp only [expectedBolt] at moves
    simpa only [if_neg moves, canLock] using ok
  · rintro rfl
    refine ⟨fun hp => ?_, fun hp => ?_⟩
    · simp [hp] at ok
    · simp [hp] at ok

/-- The gate reads the clock and the sensors once more and persists nothing. -/
theorem prepareActuation_spec (h : Ready f c s.1) (idle : c.active = none)
    (target : ActionTarget) :
    SimE (lockSpec P f) (prepareActuation target) c s fun r c' s' =>
      (match r with
        | .ok (some deadline) => Cleared f c' s'.1 target deadline
        | .ok none => Ready f c' s'.1
        | .error _ => Verdict f r c' s'.1)
      ∧ Kept 0 c s.1 c' s'.1 ∧ c'.state = c.state ∧ c'.active = none := by
  unfold prepareActuation
  refine (now_spec h.toCoupled fun _ => h.recorded).bind ?_ ?_
  · rintro now c₁ s₁ ⟨ready, rfl, _, hs₁⟩
    rw [simE_bind]
    apply simE_request
    intro sample _
    refine ⟨s₁.1.sense f.info sample, ⟨ready.quiet, rfl⟩, fun inv => ?_⟩
    have free : ({ c with lastMono := now } : Controller).active = none := idle
    have ready₂ : Ready f { c with lastMono := now } (s₁.1.sense f.info sample) :=
      (Sampled.sense ready sample).ready (by rw [free]; rfl)
    have kept : Kept 0 c s.1 { c with lastMono := now } (s₁.1.sense f.info sample) :=
      ⟨rfl, rfl, Nat.le_refl _, .inl rfl, by rw [hs₁]; rfl⟩
    simp only [andThen_ok, simE_bind, simE_get, simE_orFail]
    cases ok : startInterlock { c with lastMono := now } target sample with
    | error e => exact ⟨ready₂.calm, kept, rfl, idle⟩
    | ok =>
      rw [andThen_ok]
      split
      · simp only [simE_bind, simE_modify, andThen_ok, simE_pure]
        exact ⟨ready₂.cosmetic ⟨⟨rfl, rfl, rfl, rfl, rfl⟩, rfl⟩,
          kept.after ⟨⟨rfl, rfl, rfl, rfl, rfl⟩, rfl⟩, trivial, idle⟩
      · rename_i moves
        simp only [simE_map, simE_orFail]
        cases time : checkedAdd now c.state.config.actionTimeoutMs.toUInt64 with
        | none => exact ⟨ready₂.calm, kept, trivial, idle⟩
        | some deadline =>
          refine ⟨⟨ready₂, ⟨sample, rfl, startInterlock_permits ready.factory.same ok moves⟩, ?_⟩, kept,
            trivial, idle⟩
          rw [ready₂.mono]
          exact time
  · rintro e c' s' ⟨_, died⟩
    refine ⟨died.verdict e, died.kept, died.state, ?_⟩
    rcases died.active with active | active
    · exact active.trans idle
    · exact active

theorem findOperation_isSome {ops : List OperationRecord} {id : CredentialId} {seq : UInt64}
    (h : ∃ r ∈ ops, r.key = (id, seq)) : ∃ r, findOperation ops id seq = some r := by
  obtain ⟨r, hr, hk⟩ := h
  refine Option.isSome_iff_exists.1 (List.find?_isSome.2 ⟨r, hr, ?_⟩)
  simp only [OperationRecord.key, Prod.mk.injEq] at hk
  simp [hk.1, hk.2]

/-- How an operation ends: with its reply, poisoned, or at an exhausted log. -/
structure Finished (f : FactoryIdentity) (k : OpKey) (m : DeviceSnapshot)
    (r : Except Error Reply) (c' : Controller) (s' : Abs) : Prop where
  verdict : Verdict f r c' s'
  reply : ∀ x, r = .ok x → ∃ status, x = .operation status
  failed : ∀ e, r = .error e → c'.poisoned = true ∨ Exhausted m
  auth : c'.state.auth = m.auth
  cursor : c'.state.nextCursor.toNat ≤ m.nextCursor.toNat + 1
  progress : s'.progress.key = some k

theorem finish_spec (h : Tame f c s.1)
    (listed : ∃ r ∈ c.state.operations, r.key = (status.credentialId, status.sequence))
    (touched : s.1.touches (status.credentialId, status.sequence)) (phase : OperationPhase)
    (evidence : CompletionEvidence) (error : UInt32) :
    SimE (lockSpec P f) (finish P status phase evidence error) c s fun r c' s' =>
      Serviced f 1 c s.1 r c' s'.1 ∧ (∀ x, r = .ok x → ∃ status, x = .operation status)
        ∧ (∀ e, r = .error e → c'.poisoned = true ∨ Exhausted c.state) := by
  obtain ⟨ops, hops, r, hr, hk, _⟩ := setStatus_isSome phase evidence error listed
  obtain ⟨found, hfound⟩ := findOperation_isSome ⟨r, hr, hk⟩
  unfold finish
  simp only [simE_bind, simE_get, andThen_ok, simE_orFail, hops, okOr, hfound]
  rw [← simE_bind]
  refine (audit_spec (h.hears h.live) { c.state with operations := ops } _ _ _ _).bind ?_ ?_
  · rintro n c₁ s₁ ⟨audited, rfl, heard⟩
    have bg : Background f s₁.1.touches c₁.state n := by
      rw [heard.touches]
      refine ⟨audited.auth, ?_, audited.logged.congr rfl rfl⟩
      rw [audited.operations]
      exact (setStatus_retouched hops).mono fun k hk => hk ▸ touched
    have cursor : n.nextCursor.toNat = c₁.state.nextCursor.toNat + 1 := audited.cursor
    refine (store_background (h.heard heard) bg).bind ?_ ?_
    · rintro _ c₂ s₂ stored
      obtain ⟨verdict, kept⟩ := stored.serviced audited.auth (Nat.le_of_eq cursor)
      refine ⟨⟨verdict, kept.auth, kept.gates, kept.cursor, kept.active,
        kept.progress.trans heard.progress⟩, ?_, fun _ h => by cases h⟩
      rintro x ⟨⟩
      exact ⟨_, rfl⟩
    · rintro e c₂ s₂ stored
      obtain ⟨verdict, kept⟩ := stored.serviced audited.auth (Nat.le_of_eq cursor)
      refine ⟨⟨verdict, kept.auth, kept.gates, kept.cursor, kept.active,
        kept.progress.trans heard.progress⟩, fun _ h => (by cases h), fun _ _ => ?_⟩
      rcases stored with ⟨⟨⟩, _⟩ | ⟨_, died⟩
      exact .inl died.poisoned
  · rintro e c₁ s₁ ⟨⟨spent, full⟩, rfl, heard⟩
    have tame := h.heard heard
    exact ⟨⟨⟨tame.toCoupled, fun _ => tame.recorded.imp_right fun h => ⟨spent, h⟩⟩, rfl, rfl, Nat.le_succ _, .inl rfl,
      heard.progress⟩, fun _ h => (by cases h), fun _ _ => .inr full⟩

/-- `finish` for the operation this call has accepted. -/
theorem finish_accepted (h : Tame f c s.1)
    (key : s.1.progress.key = some (status.credentialId, status.sequence)) (phase : OperationPhase)
    (evidence : CompletionEvidence) (error : UInt32) :
    SimE (lockSpec P f) (finish P status phase evidence error) c s fun r c' s' =>
      Finished f (status.credentialId, status.sequence) c.state r c' s'.1 := by
  refine (finish_spec h (s.2.progress _ _ key h.mem) (.inr key) phase evidence error).mono ?_
  rintro r c' s' ⟨⟨verdict, kept⟩, reply, failed⟩
  exact ⟨verdict, reply, failed, kept.auth, kept.cursor, by rw [kept.progress, key]⟩

/-- An accepted drive may start: its target is what was accepted and paid for. -/
structure MayStart (f : FactoryIdentity) (c : Controller) (s : Abs) (status : OperationStatus)
    (target : ActionTarget) : Prop where
  idle : c.active = none
  settled : c.state.firmware.phase ≠ .trial
  armed : ∀ deadline, Armed s.progress (Execute.manualDrive c status target deadline)

theorem MayStart.key {a : Abs} (h : MayStart f c a status target) :
    a.progress.key = some (status.credentialId, status.sequence) := by
  have armed := h.armed 0
  generalize a.progress = pr at armed
  cases armed with
  | manual x _ _ key => exact congrArg some key.symm
  | relock _ automatic => cases automatic

theorem startManual_spec {deadline : UInt64} (h : Cleared f c s.1 target deadline)
    (may : MayStart f c s.1 status target) :
    SimE (lockSpec P f) (Execute.startManual P status target deadline) c s fun r c' s' =>
      Finished f (status.credentialId, status.sequence) c.state r c' s'.1 := by
  obtain ⟨r, reading, permits⟩ := h.reading
  have safe : StartSafe f s.1.lastMono c.state r (Execute.manualDrive c status target deadline) :=
    ⟨permits.valid, permits.moves, may.settled, permits.lock, permits.unlock, rfl, h.deadline⟩
  unfold Execute.startManual
  simp only [simE_bind, simE_modify, simE_get, andThen_ok]
  apply simE_request
  intro x _
  refine ⟨s.1.drive (Execute.manualDrive c status target deadline),
    ⟨h.quiet, h.owned.trans may.idle, _, _, _, h.mem, reading, safe, may.armed deadline, rfl, rfl,
      rfl, rfl, rfl⟩, fun inv => ?_⟩
  cases x with
  | ok =>
    rw [andThen_ok]
    refine finish_accepted (s := ⟨_, inv⟩) ?_ rfl _ _ _
    exact ⟨⟨⟨h.factory, h.mem, h.poisoned, h.mono, h.safe⟩, rfl⟩, h.live, .inl h.recorded⟩
  | error =>
    simp only [andThen_ok, simE_bind, simE_modify]
    refine finish_accepted (s := ⟨_, inv⟩) ?_ rfl _ _ _
    exact ⟨⟨⟨h.factory, h.mem, h.poisoned, h.mono, h.safe⟩, rfl⟩, h.live, .inl h.recorded⟩

/-- How carrying out an accepted operation ends, after at most `j` events. -/
structure Executed (f : FactoryIdentity) (k : OpKey) (j : Nat) (m : DeviceSnapshot)
    (r : Except Error (Option Reply)) (c' : Controller) (s' : Abs) : Prop where
  verdict : Verdict f r c' s'
  reply : ∀ x, r = .ok (some x) → ∃ status, x = .operation status
  cursor : c'.state.nextCursor.toNat ≤ m.nextCursor.toNat + j
  progress : s'.progress.key = some k

/-- The gate changes neither the snapshot nor what may be started. -/
theorem MayStart.kept {a a' : Abs} (h : MayStart f c a status target) (state : c'.state = c.state)
    (idle : c'.active = none) (progress : a'.progress = a.progress) :
    MayStart f c' a' status target := by
  refine ⟨idle, by rw [state]; exact h.settled, fun deadline => ?_⟩
  have same : Execute.manualDrive c' status target deadline =
      Execute.manualDrive c status target deadline := by
    simp only [Execute.manualDrive, nextActuationId, state]
  rw [same, progress]
  exact h.armed deadline

theorem drive_spec {action : Action} (h : Ready f c s.1)
    (may : MayStart f c s.1 status (Execute.target action)) :
    SimE (lockSpec P f) (Execute.drive P status action) c s fun r c' s' =>
      ∃ q, Executed f (status.credentialId, status.sequence) 1 c.state q c' s'.1
        ∧ r = q.map Outcome.done := by
  unfold Execute.drive
  refine (prepareActuation_spec h may.idle _).bind ?_ ?_
  · rintro (_ | deadline) c₁ s₁ ⟨gate, kept, state, idle⟩
    · have key : s₁.1.progress.key = some (status.credentialId, status.sequence) := by
        rw [kept.progress]
        exact may.key
      refine (finish_accepted gate.tame key _ _ _).bind ?_ ?_
      · rintro reply c₂ s₂ done
        refine ⟨.ok (some reply), ⟨done.verdict, ?_, state ▸ done.cursor, done.progress⟩, rfl⟩
        rintro x ⟨⟩
        exact done.reply _ rfl
      · rintro e c₂ s₂ done
        exact ⟨.error e, ⟨done.verdict, fun _ h => (by cases h), state ▸ done.cursor, done.progress⟩, rfl⟩
    · have may₁ := may.kept state idle kept.progress
      refine (startManual_spec gate may₁).bind ?_ ?_
      · rintro reply c₂ s₂ done
        refine ⟨.ok (some reply), ⟨done.verdict, ?_, state ▸ done.cursor, done.progress⟩, rfl⟩
        rintro x ⟨⟩
        exact done.reply _ rfl
      · rintro e c₂ s₂ done
        exact ⟨.error e, ⟨done.verdict, fun _ h => (by cases h), state ▸ done.cursor, done.progress⟩, rfl⟩
  · rintro e c₁ s₁ ⟨verdict, kept, state, _⟩
    refine ⟨.error e, ⟨verdict, fun _ h => (by cases h), ?_, ?_⟩, rfl⟩
    · rw [state]
      exact Nat.le_succ _
    · rw [kept.progress]
      exact may.key

end OpenLock
