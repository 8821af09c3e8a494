import OpenLock.Abstract.Snapshot

/-! What the snapshot check accepts, field by field, and which changes keep it. -/
namespace OpenLock
open Controller DeviceSnapshot

variable {P : Primitives} {f : FactoryIdentity} {s t : DeviceSnapshot}

/-- A firmware record that is not empty agrees with the manifest stored beside it. -/
structure StoredManifest (P : Primitives) (f : FactoryIdentity) (w : FirmwareStatus)
    (signed : Bytes) (m : FirmwareManifest) : Prop where
  root : P.isPoint f.firmwareRoot = true
  read : readManifest P ⟨f.firmwareRoot⟩ signed = .ok m
  manifest : w.manifest = some m
  model : m.model = f.info.model
  hardware : m.hardware = f.info.hardware
  size : m.size ≤ f.info.maxImageSize
  received : w.received ≤ m.size
  complete : w.phase = .verified ∨ w.phase = .trial ∨ w.phase = .confirmed → w.received = m.size
  confirmed : w.phase = .confirmed → w.securityVersion = m.securityVersion
  newer : w.phase ≠ .confirmed → w.securityVersion < m.securityVersion

/-- An empty firmware record holds nothing but the security version. -/
structure NoFirmware (w : FirmwareStatus) (signed : Bytes) : Prop where
  manifest : w.manifest = none
  signed : signed = []
  received : w.received = 0

def FirmwareValid (P : Primitives) (f : FactoryIdentity) (w : FirmwareStatus) (signed : Bytes) :
    Prop :=
  if w.phase = .empty then NoFirmware w signed else ∃ m, StoredManifest P f w signed m

private theorem manifestRejected_eq_false {m : FirmwareManifest} :
    s.manifestRejected f m = false ↔
      s.firmware.manifest = some m ∧ m.model = f.info.model ∧ m.hardware = f.info.hardware
        ∧ m.size ≤ f.info.maxImageSize
        ∧ (s.firmware.phase = .verified ∨ s.firmware.phase = .trial
            ∨ s.firmware.phase = .confirmed → s.firmware.received = m.size)
        ∧ (s.firmware.phase = .confirmed → s.firmware.securityVersion = m.securityVersion)
        ∧ (s.firmware.phase ≠ .confirmed → s.firmware.securityVersion < m.securityVersion) := by
  unfold manifestRejected
  simp only [Bool.or_eq_false_iff, Bool.and_eq_false_imp, bne_eq_false_iff_eq,
    decide_eq_false_iff_not, UInt64.not_lt, UInt64.not_le, Bool.or_eq_true, beq_iff_eq,
    bne_iff_ne, ne_eq, and_assoc, or_assoc, gt_iff_lt]

theorem validateFirmware_ok :
    s.validateFirmware P f = .ok () ↔ FirmwareValid P f s.firmware s.signedManifest := by
  unfold validateFirmware FirmwareValid
  split
  · simp only [bind_eq_ok, failIf_eq_ok, exists_const, not_or, Bool.not_eq_true,
      Option.isSome_eq_false_iff, Option.isNone_iff_eq_none, not_not, List.isEmpty_iff]
    constructor
    · rintro ⟨⟨hm, hs⟩, hr⟩
      refine ⟨hm, hs, ?_⟩
      simpa [hm] using hr
    · rintro ⟨hm, hs, hr⟩
      exact ⟨⟨hm, hs⟩, by simp [hm, hr]⟩
  · simp only [bind_eq_ok, failIf_eq_ok, exists_const, VerifyingKey.fromBytes_eq_ok,
      asStorage_eq_ok, Bool.not_eq_true, manifestRejected_eq_false]
    constructor
    · rintro ⟨_, ⟨root, rfl⟩, m, read, ⟨hm, model, hw, size, complete, conf, newer⟩, hr⟩
      refine ⟨m, root, read, hm, model, hw, size, ?_, complete, conf, newer⟩
      simpa [hm] using hr
    · rintro ⟨m, h⟩
      refine ⟨_, ⟨h.root, rfl⟩, m, h.read, ⟨h.manifest, h.model, h.hardware, h.size, h.complete,
        h.confirmed, h.newer⟩, ?_⟩
      simpa [h.manifest] using h.received

/-- Authorization state the device accepts. -/
structure AuthValid (P : Primitives) (f : FactoryIdentity) (s : AuthState) : Prop where
  format : s.format = 1
  lockId : s.lockId = f.info.lockId
  deviceId : s.deviceKey.deviceId = s.lockId
  watermarksFit : s.watermarks.size ≤ f.info.credentialCapacity.toNat
  bindingsFit : s.bindings.size ≤ f.info.credentialCapacity.toNat
  usesFit : s.uses.size ≤ f.info.credentialCapacity.toNat
  revokedFit : s.revoked.size ≤ f.info.credentialCapacity.toNat
  config : s.config.validate f.info = .ok ()
  deviceKey : validateDeviceKey P s.deviceKey = .ok ()
  owner : ∀ o, s.owner = some o → P.isPoint o.issuer = true
  firmware : FirmwareValid P f s.firmware s.signedManifest

/-- A log the device accepts: bounded, numbered upwards and below its next cursor. -/
structure LogValid (f : FactoryIdentity) (es : List AuditEvent) (next : UInt64) : Prop where
  cursor : next ≠ 0
  fits : es.length ≤ f.info.logCapacity.toNat
  ordered : cursorsOrdered next 0 es = true

/-- A snapshot the device accepts. -/
structure Valid (P : Primitives) (f : FactoryIdentity) (s : DeviceSnapshot) : Prop where
  auth : AuthValid P f s.auth
  log : LogValid f s.events s.nextCursor
  operationsFit : s.operations.length ≤ f.info.operationCapacity.toNat
  operations : ∀ r ∈ s.operations, s.operationRejected r = false

theorem validate_ok : s.validate P f = .ok () ↔ Valid P f s := by
  unfold validate
  simp only [bind_eq_ok, failIf_eq_ok, asStorage_eq_ok, exists_const, not_or, not_not,
    Nat.not_lt, gt_iff_lt, ne_eq, Bool.not_eq_true]
  constructor
  · rintro ⟨⟨hf, hl, hd, hc, h1, h2, h3, h4, h5, h6⟩, ⟨⟩, hcfg, ⟨⟩, hk, rest⟩
    have tail : (∀ o, s.owner = some o → P.isPoint o.issuer = true)
        ∧ s.operations.any s.operationRejected = false
        ∧ cursorsOrdered s.nextCursor 0 s.events = true
        ∧ s.validateFirmware P f = .ok () := by
      cases ho : s.owner <;> simp_all
    obtain ⟨ho, hops, hev, hfw⟩ := tail
    exact ⟨⟨hf, hl, hd, h3, h4, h5, h6, hcfg, hk, ho, validateFirmware_ok.1 hfw⟩, ⟨hc, h2, hev⟩, h1,
      fun r hr => by simpa using List.any_eq_false.1 hops r hr⟩
  · intro h
    refine ⟨⟨h.auth.format, h.auth.lockId, h.auth.deviceId, h.log.cursor, h.operationsFit,
      h.log.fits, h.auth.watermarksFit, h.auth.bindingsFit, h.auth.usesFit, h.auth.revokedFit⟩,
      (), h.auth.config, (), h.auth.deviceKey, ?_⟩
    have hops : s.operations.any s.operationRejected = false :=
      List.any_eq_false.2 fun r hr => by simp [h.operations r hr]
    have hfw := validateFirmware_ok.2 h.auth.firmware
    cases ho : s.owner with
    | none => simp [hops, h.log.ordered, hfw]
    | some o => simp [hops, h.log.ordered, hfw, h.auth.owner o ho]

section Log
variable {es : List AuditEvent}

private theorem ordered_append {n n' last : UInt64} {e : AuditEvent}
    (h : cursorsOrdered n last es = true) (hlast : last < n) (he : e.cursor = n) (hn : n < n') :
    cursorsOrdered n' last (es ++ [e]) = true := by
  induction es generalizing last with
  | nil => simp [cursorsOrdered, he, hlast, hn]
  | cons x xs ih =>
    simp only [cursorsOrdered, Bool.and_eq_true, decide_eq_true_eq] at h
    simp only [List.cons_append, cursorsOrdered, Bool.and_eq_true, decide_eq_true_eq]
    exact ⟨⟨h.1.1, UInt64.lt_trans h.1.2 hn⟩, ih h.2 h.1.2⟩

private theorem ordered_tail {n last : UInt64} (h : cursorsOrdered n last es = true) :
    cursorsOrdered n last (es.drop 1) = true := by
  cases es with
  | nil => rfl
  | cons x xs =>
    cases xs with
    | nil => rfl
    | cons y ys =>
      simp only [cursorsOrdered, Bool.and_eq_true, decide_eq_true_eq] at h
      simp only [List.drop_succ_cons, List.drop_zero, cursorsOrdered, Bool.and_eq_true,
        decide_eq_true_eq]
      exact ⟨⟨UInt64.lt_trans h.1.1 h.2.1.1, h.2.1.2⟩, h.2.2⟩

/-- Appending with consecutive cursors keeps the log acceptable. -/
theorem LogValid.logs {es es' : List AuditEvent} {n n' : UInt64} (h : LogValid f es n)
    (l : Logs f.info.logCapacity.toNat es n es' n') : LogValid f es' n' := by
  induction l with
  | refl => exact h
  | @push es' n' _ e numbered room ih =>
    have lt := lt_succ room
    have pos : 0 < n' := UInt64.pos_iff_ne_zero.2 ih.cursor
    have ord := ordered_append ih.ordered pos numbered lt
    have fits := ih.fits
    refine ⟨(UInt64.ne_of_lt (UInt64.lt_trans pos lt)).symm, ?_, ?_⟩
    · unfold pushBounded
      simp only
      split
      · simp only [List.length_drop, List.length_append, List.length_singleton]
        omega
      · omega
    · unfold pushBounded
      simp only
      split
      · exact ordered_tail ord
      · exact ord

end Log

/-- A record is judged by its key, its opcode and the watermark of its credential. -/
theorem operationRejected_congr {r r' : OperationRecord} (w : t.watermarks = s.watermarks)
    (key : r'.key = r.key) (opcode : r'.status.opcode = r.status.opcode) :
    t.operationRejected r' = s.operationRejected r := by
  have hid : r'.status.credentialId = r.status.credentialId := congrArg Prod.fst key
  have hseq : r'.status.sequence = r.status.sequence := congrArg Prod.snd key
  have hw : t.watermark r'.status.credentialId = s.watermark r.status.credentialId := by
    simp only [watermark, w, hid]
  rw [operationRejected, operationRejected, hseq, hw, opcode]

/-- A change that keeps the watermarks and only retouches records keeps a snapshot valid
once its authorization state is. -/
theorem Valid.retouch {K : OpKey → Prop} (h : Valid P f s) (auth : AuthValid P f t.auth)
    (watermarks : t.watermarks = s.watermarks) (ops : Retouched K s.operations t.operations)
    (logged : Logged f.info.logCapacity.toNat s t) : Valid P f t := by
  refine ⟨auth, h.log.logs logged.events, ?_, ?_⟩
  · rw [ops.length]
    exact h.operationsFit
  · intro r hr
    obtain ⟨x, hx, same⟩ := ops.origin hr
    rw [operationRejected_congr watermarks same.key same.opcode]
    exact h.operations x hx

/-- A change that drops every record. -/
theorem Valid.cleared (h : Valid P f s) (auth : AuthValid P f t.auth) (ops : t.operations = [])
    (logged : Logged f.info.logCapacity.toNat s t) : Valid P f t := by
  refine ⟨auth, h.log.logs logged.events, ?_, ?_⟩
  · simp [ops]
  · simp [ops]

end OpenLock
