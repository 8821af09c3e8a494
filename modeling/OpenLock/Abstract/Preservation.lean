import OpenLock.Abstract.Invariant

/-! The snapshot check accepts every change of the abstract lock, except that an
acceptance may overfill the table of uses. -/
namespace OpenLock
open Controller DeviceSnapshot

variable {P : Primitives} {f : FactoryIdentity} {s : Abs} {m n : DeviceSnapshot} {pr : Progress}
  {ow : Option Active} {x : Accepted} {w : FirmwareStatus} {clocks : List ClockSample}
  {context : SessionContext} {entry : Controller} {action : Action} {signed : Bytes} {b : AuthState}
  {now : UInt64} {c : Command}

private theorem empty_union (t : CredentialSet) : (∅ ∪ t : CredentialSet) = t := by
  apply Std.ExtTreeSet.ext_mem
  intro k
  simp [Std.ExtTreeSet.mem_union_iff]

theorem size_insert_le {β : Type} {t : CredentialMap β} {k : CredentialId} {v : β} {c : Nat}
    (fits : t.size ≤ c) (room : k ∈ t ∨ t.size < c) : (t.insert k v).size ≤ c := by
  rw [Std.ExtTreeMap.size_insert]
  rcases room with h | h
  · rw [if_pos (Std.ExtTreeMap.contains_iff_mem.2 h)]
    exact fits
  · split <;> omega

private theorem opcode_le (a : Action) : ¬ a.opcode > 22 := by
  cases a <;> simp [Action.opcode]

/-- The device has room for at least one credential. -/
private theorem capacity_pos (info : f.info.validate = .ok ()) :
    0 < f.info.credentialCapacity.toNat := by
  simp only [DeviceInfo.validate, failIf_eq_ok, not_or] at info
  obtain ⟨_, _, _, _, _, _, _, _, _, _, _, _, _, hc, _⟩ := info
  refine Nat.pos_of_ne_zero fun h => hc ?_
  exact UInt32.toNat_inj.1 h

theorem Background.valid {K : OpKey → Prop} (h : Background f K m n) (hm : Valid P f m) :
    Valid P f n :=
  hm.retouch (h.auth ▸ hm.auth) (congrArg AuthState.watermarks h.auth) h.operations h.logged

/-- The watermark after acceptance: raised for this credential, untouched for others. -/
theorem Accepted.watermark (auth : n.auth = x.auth P m) (id : CredentialId) :
    n.watermark id = if id = x.grant.credentialId then x.sequence else m.watermark id := by
  have hw : n.watermarks = m.watermarks.insert x.grant.credentialId x.sequence :=
    congrArg AuthState.watermarks auth
  rw [DeviceSnapshot.watermark, hw, Std.ExtTreeMap.getElem?_insert]
  simp only [Std.LawfulEqOrd.compare_eq_iff_eq]
  by_cases h : id = x.grant.credentialId
  · rw [if_pos h, if_pos h.symm]; rfl
  · rw [if_neg h, if_neg (Ne.symm h)]; rfl

theorem Acceptance.valid (h : Acceptance P f clocks ow x m n) (hm : Valid P f m)
    (fits : n.uses.size ≤ f.info.credentialCapacity.toNat) : Valid P f n := by
  have ha := hm.auth
  have auth : AuthValid P f n.auth := by
    have huses : n.auth.uses = (x.auth P m).uses := congrArg AuthState.uses h.auth
    rw [h.auth]
    exact ⟨ha.format, ha.lockId, ha.deviceId, size_insert_le ha.watermarksFit h.watermarkRoom,
      size_insert_le ha.bindingsFit h.bindingRoom, huses ▸ fits, ha.revokedFit, ha.config,
      ha.deviceKey, ha.owner, ha.firmware⟩
  obtain ⟨kept, digest, admitted, hops⟩ := h.operations
  refine ⟨auth, hm.log.logs h.logged.events, ?_, ?_⟩
  · rw [hops, List.length_append, List.length_singleton]
    exact admitted.fits
  · intro r hr
    have fresh := h.authorized.fresh
    rw [hops, List.mem_append, List.mem_singleton] at hr
    simp only [operationRejected, Accepted.watermark h.auth, Bool.or_eq_false_iff, beq_eq_false_iff_ne,
      decide_eq_false_iff_not]
    rcases hr with hr | rfl
    · -- an old record: its watermark did not fall
      have old := hm.operations r (admitted.sublist.subset hr)
      simp only [operationRejected, Bool.or_eq_false_iff, beq_eq_false_iff_ne,
        decide_eq_false_iff_not] at old
      refine ⟨⟨old.1.1, ?_⟩, old.2⟩
      split
      · rename_i hid
        have le := hm.sequence_le (admitted.sublist.subset hr)
        rw [hid] at le
        exact UInt64.not_lt.2 (UInt64.le_of_lt (UInt64.lt_of_le_of_lt le fresh))
      · exact old.1.2
    · -- the new record sits exactly at its watermark
      refine ⟨⟨?_, ?_⟩, opcode_le _⟩
      · intro h0
        have hz : x.sequence = 0 := h0
        rw [hz] at fresh
        exact UInt64.not_lt_zero fresh
      · simp [Accepted.record, acceptedStatus]

theorem Claiming.valid {key issuer : Bytes32} {admin : Bytes} {g : Grant}
    (h : Claiming P f entry now context c key issuer admin g m n) (hm : Sound P f m) :
    Valid P f n := by
  have ha := hm.valid.auth
  have empty := (hm.unowned h.ownerless).bindings
  have room : m.bindings.size < f.info.credentialCapacity.toNat := by
    rw [empty, Std.ExtTreeMap.size_empty]
    exact capacity_pos hm.info
  have auth : AuthValid P f n.auth := by
    rw [h.auth]
    refine ⟨ha.format, ha.lockId, ha.deviceId, ha.watermarksFit,
      size_insert_le ha.bindingsFit (.inr room), ha.usesFit, ha.revokedFit, ha.config, ha.deviceKey,
      ?_, ha.firmware⟩
    rintro o ⟨⟩
    exact h.issuerPoint
  refine hm.valid.retouch (K := fun _ => False) auth (congrArg AuthState.watermarks h.auth) ?_
    h.logged
  rw [h.operations]
  exact .refl _ _

theorem DomainChange.valid (h : DomainChange P f entry now context c m n) (hm : Sound P f m) :
    Valid P f n := by
  have ha := hm.valid.auth
  cases h with
  | reset _ _ _ _ _ result =>
    subst result
    have hf := hm.factory
    refine ⟨⟨hf.format, hf.lockId, hf.deviceId, hf.watermarksFit, hf.bindingsFit, hf.usesFit,
      hf.revokedFit, hf.config, hf.deviceKey, hf.owner, .empty m.firmware.securityVersion⟩,
      ⟨?_, Nat.zero_le _, rfl⟩, Nat.zero_le _,
      by simp [Execute.resetSnapshot, DeviceSnapshot.factory]⟩
    exact (by decide : (1 : UInt64) ≠ 0)
  | replace issuer _ _ _ point _ _ auth operations logged =>
    refine hm.valid.cleared ?_ operations logged
    rw [auth]
    refine ⟨ha.format, ha.lockId, ha.deviceId, Nat.zero_le _, Nat.zero_le _, Nat.zero_le _,
      Nat.zero_le _, ha.config, ha.deviceKey, ?_, ha.firmware⟩
    rintro o ⟨⟩
    exact point
  | epoch _ p _ _ _ _ _ _ fits _ auth operations logged =>
    refine hm.valid.cleared ?_ operations logged
    rw [auth]
    refine ⟨ha.format, ha.lockId, ha.deviceId, Nat.zero_le _, Nat.zero_le _, Nat.zero_le _, ?_,
      ha.config, ha.deviceKey, ha.owner, ha.firmware⟩
    rw [empty_union]
    exact fits

theorem FirmwareStep.valid (h : FirmwareStep P f m action w signed)
    (hm : FirmwareValid P f m.firmware m.signedManifest) :
    FirmwareValid P f w signed := by
  -- in every phase but the empty one the stored manifest is the one that was read
  have stored : m.firmware.phase ≠ .empty →
      ∃ k, StoredManifest P f m.firmware m.signedManifest k := by
    intro hp
    rwa [FirmwareValid, if_neg hp] at hm
  cases h with
  | begin signed k root read model hardware size newer =>
    rw [FirmwareValid, if_neg (by simp)]
    exact ⟨k, root, read, rfl, model, hardware, size, UInt64.zero_le, by simp, by simp,
      fun _ => newer⟩
  | chunk _ _ k received phase manifest bound =>
    obtain ⟨k', hk⟩ := stored (by simp [phase])
    cases manifest.symm.trans hk.manifest
    rw [FirmwareValid, if_neg (by simp [phase])]
    exact ⟨k, hk.root, hk.read, hk.manifest, hk.model, hk.hardware, hk.size, bound,
      by simp [phase], hk.confirmed, hk.newer⟩
  | verify k phase manifest complete =>
    obtain ⟨k', hk⟩ := stored (by simp [phase])
    cases manifest.symm.trans hk.manifest
    rw [FirmwareValid, if_neg (by simp)]
    exact ⟨k, hk.root, hk.read, hk.manifest, hk.model, hk.hardware, hk.size, hk.received,
      fun _ => complete, by simp, fun _ => hk.newer (by simp [phase])⟩
  | trial phase =>
    obtain ⟨k, hk⟩ := stored (by simp [phase])
    rw [FirmwareValid, if_neg (by simp)]
    exact ⟨k, hk.root, hk.read, hk.manifest, hk.model, hk.hardware, hk.size, hk.received,
      fun _ => hk.complete (.inl phase), by simp, fun _ => hk.newer (by simp [phase])⟩
  | abort => exact .empty _

theorem TrialEnded.valid (h : TrialEnded m w) (trial : m.firmware.phase = .trial)
    (hm : FirmwareValid P f m.firmware m.signedManifest) :
    FirmwareValid P f w m.signedManifest := by
  rw [FirmwareValid, if_neg (by simp [trial])] at hm
  obtain ⟨k, hk⟩ := hm
  have complete := hk.complete (.inr (.inl trial))
  cases h with
  | confirmed k' manifest =>
    cases manifest.symm.trans hk.manifest
    rw [FirmwareValid, if_neg (by simp)]
    exact ⟨k, hk.root, hk.read, hk.manifest, hk.model, hk.hardware, hk.size, hk.received,
      fun _ => complete, fun _ => rfl, by simp⟩
  | rolledBack =>
    rw [FirmwareValid, if_neg (by simp)]
    exact ⟨k, hk.root, hk.read, hk.manifest, hk.model, hk.hardware, hk.size, hk.received,
      by simp, by simp, fun _ => hk.newer (by simp [trial])⟩

theorem Effected.valid (h : Effected P f m x b) (hm : AuthValid P f m.auth) :
    AuthValid P f b ∧ b.watermarks = m.watermarks := by
  cases h with
  | config _ _ valid =>
    exact ⟨⟨hm.format, hm.lockId, hm.deviceId, hm.watermarksFit, hm.bindingsFit, hm.usesFit,
      hm.revokedFit, valid, hm.deviceKey, hm.owner, hm.firmware⟩, rfl⟩
  | policy _ _ _ _ _ _ _ _ _ fits =>
    exact ⟨⟨hm.format, hm.lockId, hm.deviceId, hm.watermarksFit, hm.bindingsFit, hm.usesFit,
      fits, hm.config, hm.deviceKey, hm.owner, hm.firmware⟩, rfl⟩
  | firmware _ _ step =>
    exact ⟨⟨hm.format, hm.lockId, hm.deviceId, hm.watermarksFit, hm.bindingsFit, hm.usesFit,
      hm.revokedFit, hm.config, hm.deviceKey, hm.owner, step.valid hm.firmware⟩, rfl⟩
  | rotate _ _ _ valid device =>
    exact ⟨⟨hm.format, hm.lockId, device.trans hm.deviceId, hm.watermarksFit, hm.bindingsFit,
      hm.usesFit, hm.revokedFit, hm.config, valid, hm.owner, hm.firmware⟩, rfl⟩

/-- An acceptance that would overfill the table of uses. -/
def Overfills (f : FactoryIdentity) (x : Accepted) (m : DeviceSnapshot) : Prop :=
  x.reserved = true ∧ x.grant.credentialId ∉ m.uses
    ∧ f.info.credentialCapacity.toNat ≤ m.uses.size

theorem Acceptance.uses_fit (h : Acceptance P f clocks ow x m n) (hm : Valid P f m)
    (room : ¬ Overfills f x m) :
    n.uses.size ≤ f.info.credentialCapacity.toNat := by
  have uses : n.uses = (x.auth P m).uses := congrArg AuthState.uses h.auth
  rw [uses]
  simp only [Accepted.auth]
  split
  · rename_i reserved
    refine size_insert_le hm.auth.usesFit ?_
    by_contra hn
    rw [not_or, Nat.not_lt] at hn
    exact room ⟨reserved, hn.1, hn.2⟩
  · exact hm.auth.usesFit

/-- The snapshot check accepts every change, unless an acceptance overfills the uses. -/
theorem Change.valid (h : Change P f s m n pr ow) (hm : Sound P f m)
    (room : ∀ x, s.progress = .fresh → pr = .accepted x → ¬ Overfills f x m) :
    Valid P f n ∧ FloorLe m.clockFloor n.clockFloor := by
  have hv := hm.valid
  cases h with
  | upkeep h =>
    obtain ⟨_, h⟩ := h.keeps
    exact ⟨h.valid hv, h.logged.floor⟩
  | accept x _ fresh _ h => exact ⟨h.valid hv (h.uses_fit hv (room x fresh rfl)), h.logged.floor⟩
  | claim _ _ _ _ _ _ _ _ _ _ _ _ _ h => exact ⟨h.valid hm, h.logged.floor⟩
  | domain _ _ _ _ _ _ _ _ _ _ _ _ _ h =>
    refine ⟨h.valid hm, ?_⟩
    cases h with
    | reset _ _ _ _ _ result => rw [result]; exact .refl _
    | replace _ _ _ _ _ _ _ _ _ logged => exact logged.floor
    | epoch _ _ _ _ _ _ _ _ _ _ _ _ logged => exact logged.floor
  | effect _ _ _ auth operations logged =>
    obtain ⟨valid, watermarks⟩ := auth.valid hv.auth
    exact ⟨hv.retouch valid watermarks operations logged, logged.floor⟩
  | clock _ _ _ _ _ _ h =>
    have timed : Valid P f { m with clockValid := true } :=
      ⟨hv.auth, hv.log, hv.operationsFit, hv.operations⟩
    exact ⟨h.valid timed, h.logged.floor⟩
  | trialEnded w _ _ trial ended auth operations logged =>
    have ha := hv.auth
    refine ⟨hv.retouch ?_ (congrArg AuthState.watermarks auth) operations logged, logged.floor⟩
    rw [auth]
    exact ⟨ha.format, ha.lockId, ha.deviceId, ha.watermarksFit, ha.bindingsFit, ha.usesFit,
      ha.revokedFit, ha.config, ha.deviceKey, ha.owner, ended.valid trial ha.firmware⟩

section Firmware

/-- How a change may treat the firmware record. -/
inductive Change.Firmware (P : Primitives) (f : FactoryIdentity) (s : Abs) (m n : DeviceSnapshot) :
    Prop
  | kept (same : n.firmware = m.firmware)
  | cleared (empty : n.firmware.phase = .empty)
      (version : n.firmware.securityVersion = m.firmware.securityVersion)
  | carried (x : Accepted) (accepted : s.progress = .accepted x)
      (step : FirmwareStep P f m x.command.action n.firmware n.signedManifest)
      (witnessed : Witnessed s.notes m n x.command.action)
  | ended (call : s.call = .method .poll ∨ s.call.constructs = true)
      (trial : m.firmware.phase = .trial) (ended : TrialEnded m n.firmware)
      (seen : n.firmware.phase = .confirmed → ∃ w, m.firmware.manifest = some w
        ∧ s.notes.head? = some ⟨.bootOutcome w, .ok .confirmed⟩)

theorem Effected.firmware_cases (h : Effected P f m x b) :
    b.firmware = m.firmware ∨ FirmwareStep P f m x.command.action b.firmware b.signedManifest := by
  cases h with
  | firmware _ _ step => exact .inr step
  | config | policy | rotate => exact .inl rfl

theorem Change.firmware (h : Change P f s m n pr ow) : Change.Firmware P f s m n := by
  cases h with
  | upkeep h => exact .kept (congrArg AuthState.firmware h.auth)
  | accept _ _ _ _ h => exact .kept (congrArg AuthState.firmware h.auth)
  | claim _ _ _ _ _ _ _ _ _ _ _ _ _ h => exact .kept (congrArg AuthState.firmware h.auth)
  | clock _ _ _ _ _ _ h => exact .kept (congrArg AuthState.firmware h.auth)
  | domain _ _ _ _ _ _ _ _ _ _ _ _ _ h =>
    cases h with
    | reset _ _ _ _ _ result =>
      rw [result]
      exact .cleared rfl rfl
    | replace _ _ _ _ _ _ _ auth => exact .kept (congrArg AuthState.firmware auth)
    | epoch _ _ _ _ _ _ _ _ _ _ auth => exact .kept (congrArg AuthState.firmware auth)
  | effect x _ accepted auth _ _ witnessed =>
    rcases auth.firmware_cases with same | step
    · exact .kept same
    · exact .carried x accepted step witnessed
  | trialEnded firmware _ call trial ended auth _ _ seen =>
    obtain rfl : n.firmware = firmware := congrArg AuthState.firmware auth
    exact .ended call trial ended seen

/-- No command confirms an image. -/
theorem FirmwareStep.unconfirmed (h : FirmwareStep P f m action w signed) :
    w.phase ≠ .confirmed := by
  intro confirmed
  cases h with
  | begin | abort | verify | trial => cases confirmed
  | chunk _ _ _ _ phase =>
    change m.firmware.phase = .confirmed at confirmed
    rw [phase] at confirmed
    cases confirmed

/-- An image is confirmed from its trial alone. -/
theorem Change.confirmed (h : Change P f s m n pr ow) (confirmed : n.firmware.phase = .confirmed) :
    m.firmware.phase = .trial ∨ n.firmware = m.firmware := by
  cases h.firmware with
  | kept same => exact .inr same
  | cleared empty =>
    rw [empty] at confirmed
    cases confirmed
  | carried x _ step => exact absurd confirmed step.unconfirmed
  | ended _ trial => exact .inl trial

end Firmware

end OpenLock
