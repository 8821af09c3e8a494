import OpenLock.Properties.Records

/-! What a device does when nobody asks: polling, sensor and actuator interrupts, gestures and
restarts leave the authorization state alone and never open the lock. -/
namespace OpenLock
open Controller Effects

variable {P : Primitives} {f : FactoryIdentity}

section Authority

/-- The same authorization state, but for the end of a firmware trial. -/
structure KeepsAuthority (a b : DeviceSnapshot) : Prop where
  auth : b.auth = { a.auth with firmware := b.firmware }
  firmware : b.firmware = a.firmware ∨ a.firmware.phase = .trial ∧ TrialEnded a b.firmware
  operations : b.operations.map OperationRecord.key = a.operations.map OperationRecord.key
  clock : b.clockValid = true → a.clockValid = true

theorem TrialEnded.settled {a : DeviceSnapshot} {w : FirmwareStatus} (h : TrialEnded a w) :
    w.phase ≠ .trial := by
  cases h <;> exact fun same => by cases same

instance : Std.Refl KeepsAuthority := ⟨fun _ => ⟨rfl, .inl rfl, rfl, id⟩⟩

instance : IsTrans DeviceSnapshot KeepsAuthority where
  trans a b c h h' := by
    refine ⟨by rw [h'.auth, h.auth], ?_, h'.operations.trans h.operations,
      fun valid => h.clock (h'.clock valid)⟩
    rcases h.firmware with same | ⟨trial, ended⟩
    · rcases h'.firmware with same' | ⟨trial, ended⟩
      · exact .inl (same'.trans same)
      · rw [same] at trial
        refine .inr ⟨trial, ?_⟩
        generalize c.firmware = w at ended
        cases ended with
        | confirmed m manifest => exact same ▸ .confirmed m (same ▸ manifest)
        | rolledBack => exact same ▸ .rolledBack
    · rcases h'.firmware with same | ⟨again, _⟩
      · exact .inr ⟨trial, same ▸ ended⟩
      · exact absurd again ended.settled

theorem Durably.keepsAuthority {q : Moment} {a n : DeviceSnapshot} {s : Abs} {pr : Progress}
    {ow : Option Active} (durable : Durably P f q a n s pr ow) (unasked : q.request = none) :
    KeepsAuthority a n := by
  have silent : ∀ x, s.request ≠ some x := by
    intro x asked
    rw [durable.request, unasked] at asked
    cases asked
  cases durable.change with
  | upkeep h =>
    obtain ⟨_, h⟩ := h.keeps
    have firmware : n.firmware = a.firmware := congrArg AuthState.firmware h.auth
    exact ⟨by rw [h.auth, firmware]; rfl, .inl firmware, h.operations.keys, h.logged.clock⟩
  | trialEnded firmware _ _ trial ended auth operations logged =>
    have same : n.firmware = firmware := congrArg AuthState.firmware auth
    exact ⟨same ▸ auth, .inr ⟨trial, same ▸ ended⟩, operations.keys, logged.clock⟩
  | accept _ _ _ request => exact absurd request (silent _)
  | claim _ _ _ _ _ _ _ _ _ _ request => exact absurd request (silent _)
  | domain _ _ _ _ _ _ _ _ request => exact absurd request (silent _)
  | effect x _ accepted => exact absurd (durable.accepted x accepted) (silent _)
  | clock x _ _ accepted => exact absurd (durable.accepted x accepted) (silent _)

end Authority

/-- Without a request the authorization state stays as it is, over any number of calls and
restarts, and the only act on the outside world is the automatic relock of `poll`. -/
theorem unattended_device_stays (run : Run P f) :
    (∀ pre mid post a b, run.moments = pre ++ mid ++ post → storeAfter pre = some a →
      storeAfter (pre ++ mid) = some b → (∀ q ∈ mid, q.request = none) → KeepsAuthority a b)
    ∧ ∀ pre q post, run.moments = pre ++ q :: post → q.request = none →
      q.event.effect.privileged = true → q.call = .method .poll
        ∧ ∃ id releaseMs, q.event.effect = .startAction id .lock releaseMs false := by
  refine ⟨?_, ?_⟩
  · intro pre mid post a b split first last unasked
    exact run.continues split first last fun q hq _ _ _ _ _ _ durable =>
      durable.keepsAuthority (unasked q hq)
  · intro pre q post split unasked privileged
    obtain ⟨s, s', _, hs, hq⟩ := run.moment Forward.inductively split
    have silent : ∀ x, s.1.progress ≠ .accepted x := by
      intro x accepted
      rw [hq] at unasked
      cases (s.2.request accepted).symm.trans unasked
    generalize q.event = ev at hs privileged hq
    cases drive : ev.effect.drive with
    | none =>
      obtain ⟨_, x, accepted, _⟩ := hs.acts privileged drive
      exact absurd accepted (silent x)
    | some =>
      obtain ⟨e, y⟩ := ev
      cases e with
      | startAction id target releaseMs hold =>
        obtain ⟨_, _, a, m, _, _, _, _, armed, _, toward, _, holds, _⟩ := hs
        generalize progress : s.1.progress = pr at armed
        cases armed with
        | manual x => exact absurd progress (silent x)
        | relock _ automatic target' =>
          refine ⟨by rw [hq]; exact s.2.polls progress, id, releaseMs, ?_⟩
          rw [holds, automatic, ← toward, target']
          rfl
      | _ => cases drive

/-- The stored configuration always suits the hardware profile, and every drive is started
with its numbers and a new identity; only a requested drive may hold the bolt open. -/
theorem drives_follow_configuration (run : Run P f) :
    (∀ pre post d, run.moments = pre ++ post → storeAfter pre = some d →
      d.config.validate f.info = .ok ())
    ∧ ∀ pre q post id target releaseMs hold, run.moments = pre ++ q :: post →
      q.event.effect = .startAction id target releaseMs hold →
      ∃ d, storeAfter pre = some d ∧ id = ⟨d.generation, d.nextCursor - 1⟩
        ∧ releaseMs = d.config.releaseMs ∧ 0 < releaseMs ∧ releaseMs ≤ f.info.maxReleaseMs
        ∧ hold = (q.request.isSome && d.config.holdOpen)
        ∧ (hold = true → f.info.holdOpen = true) := by
  refine ⟨fun _ _ _ split found => (run.sound split found).valid.auth.config, ?_⟩
  intro pre q post id target releaseMs hold split start
  obtain ⟨s, s', forward, hs, hq⟩ := run.moment Forward.inductively split
  generalize q.event = ev at hs hq start
  obtain ⟨e, y⟩ := ev
  cases start
  obtain ⟨quiet, _, a, m, _, mem, _, safe, armed, same, _, released, holds, _⟩ := hs
  have found : storeAfter pre = some m := forward.disk.symm.trans (s.2.synced quiet.live m mem)
  have suits := (run.sound split found).valid.auth.config
  simp only [DeviceConfig.validate, bind_eq_ok, failIf_eq_ok, not_or, not_and, not_not,
    UInt32.not_lt, exists_const] at suits
  obtain ⟨⟨positive, bounded, _, _, supported, _⟩, _⟩ := suits
  have asked : (!a.automatic) = q.request.isSome := by
    rw [hq]
    generalize progress : s.1.progress = pr at armed
    cases armed with
    | manual x _ manual =>
      rw [manual]
      exact (Option.isSome_of_eq_some (s.2.request progress)).symm
    | relock _ automatic =>
      have call := s.2.polls progress
      rw [automatic, Moment.request, call]
      rfl
  refine ⟨m, found, same.symm.trans safe.id, released, ?_, released ▸ bounded, asked ▸ holds, ?_⟩
  · rw [released]
    exact UInt32.pos_iff_ne_zero.2 positive
  · intro open_
    rw [holds, Bool.and_eq_true] at open_
    exact supported open_.2

end OpenLock
