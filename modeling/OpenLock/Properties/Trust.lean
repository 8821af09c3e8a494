import OpenLock.Crypto.Trust
import OpenLock.Properties.Signatures

/-! Client trust never goes backwards, over any sequence of calls, commit outcomes and
restarts, and client and device agree on which key rotations to accept. -/
namespace OpenLock
open Cbor
variable {key key' : VerifyingKey}

inductive TrustMutation where
  | importRecord (record : DeviceKeyRecord)
  | pin (key : DeviceKey)
  | applyUpdate (u : KeyUpdate) (now : ClockSample)

/-- A call on the store, or a restart from the durable snapshot. -/
inductive TrustCall where
  | mutation (m : TrustMutation) (answer : CommitAnswer)
  | restart

section Runs
variable (P : Primitives)

def TrustMutation.perform (s : TrustStore) (answer : CommitAnswer) :
    TrustMutation → Except Error Unit × TrustStore
  | .importRecord record => s.importRecord P record answer
  | .pin key => s.pin P key answer
  | .applyUpdate u now => s.applyUpdate P u now answer

def TrustMutation.check (s : TrustStore) : TrustMutation → Except Error DeviceKeyRecord
  | .importRecord record => s.checkImport P record
  | .pin key => s.checkPin P key
  | .applyUpdate u now => s.checkUpdate P u now

def TrustCall.perform (s : TrustStore) : TrustCall → Except Error Unit × TrustStore
  | .mutation m answer => m.perform P s answer
  | .restart =>
    match TrustStore.fromSnapshot P s.issuer s.storage with
    | .ok restored => (.ok (), restored)
    | .error e => (.error e, s)

/-- The store that these calls leave of a new one. -/
def trustAfter (issuer : VerifyingKey) (calls : List TrustCall) : TrustStore :=
  calls.foldl (fun s c => (c.perform P s).2) (.new issuer)

end Runs

section Steps
variable {P : Primitives} {s : TrustStore} {r : DeviceKeyRecord} {d : LockId}

theorem TrustMutation.perform_eq (m : TrustMutation) (answer : CommitAnswer) :
    m.perform P s answer = s.mutate (m.check P s) answer := by
  cases m <;> rfl

/-- What is accepted, whichever of the three calls accepts it. -/
structure AdmittedRecord (P : Primitives) (s : TrustStore) (m : TrustMutation)
    (r : DeviceKeyRecord) : Prop where
  healthy : s.poisoned = false
  valid : validateDeviceKey P r.key = .ok ()
  source : verifyDeviceKey P s.issuer r = .ok () ∨ ∃ key, m = .pin key ∧ r = ⟨key, 0, []⟩
  newer : ∀ old, s.snapshot.devices[r.key.deviceId]? = some old →
    old.key.keyVersion < r.key.keyVersion
  rotated : ∀ old, s.snapshot.devices[r.key.deviceId]? = some old → r.key.keyId ≠ old.key.keyId →
    ∃ u now, m = .applyUpdate u now ∧ r = u.newRecord ∧
      (verifyObject P s.issuer updateDomain u.signature = .ok (keyUpdateValue u) ∨
        verifyObject P ⟨old.key.rotationPublicKey⟩ updateDomain u.signature
          = .ok (keyUpdateValue u))

theorem TrustMutation.admitted {m : TrustMutation} (h : m.check P s = .ok r) :
    AdmittedRecord P s m r := by
  cases m with
  | importRecord record =>
    obtain ⟨healthy, verified, successor, rfl⟩ := TrustStore.checkImport_eq_ok.1 h
    exact {
      healthy
      valid := (verifyDeviceKey_eq_ok.1 verified).1
      source := .inl verified
      newer := fun old found => (successor old found).2
      rotated := fun old found changed => absurd (successor old found).1.symm changed }
  | pin key =>
    obtain ⟨healthy, valid, successor, rfl⟩ := TrustStore.checkPin_eq_ok.1 h
    exact {
      healthy
      valid
      source := .inr ⟨key, rfl, rfl⟩
      newer := fun old found => (successor old found).2
      rotated := fun old found changed => absurd (successor old found).1.symm changed }
  | applyUpdate u now =>
    obtain ⟨healthy, ⟨held, here, update⟩, rfl⟩ := TrustStore.checkUpdate_eq_ok.1 h
    refine {
      healthy
      valid := (verifyDeviceKey_eq_ok.1 update.record).1
      source := .inl update.record
      newer := fun old found => ?_
      rotated := fun old found _ => ⟨u, now, rfl, rfl, ?_⟩ }
    · cases here.symm.trans found
      exact update.version
    · cases here.symm.trans found
      have signed := update.signed
      split_ifs at signed
      · exact .inl signed
      · exact .inr signed

/-- A record that the store may hold for a device, given which keys were pinned. -/
structure KeptRecord (P : Primitives) (issuer : VerifyingKey) (pinned : DeviceKey → Prop)
    (d : LockId) (r : DeviceKeyRecord) : Prop where
  filed : r.key.deviceId = d
  valid : validateDeviceKey P r.key = .ok ()
  source : verifyDeviceKey P issuer r = .ok () ∨ ∃ key, pinned key ∧ r = ⟨key, 0, []⟩

theorem KeptRecord.checked {issuer : VerifyingKey} {pinned : DeviceKey → Prop}
    (h : KeptRecord P issuer pinned d r) :
    TrustStore.checkRecord P issuer d r = .ok () := by
  simp only [TrustStore.checkRecord, bind_eq_ok, failIf_eq_ok, not_not]
  refine ⟨(), h.filed.symm, (), h.valid, ?_⟩
  split
  · rfl
  · rename_i signed
    rcases h.source with verified | ⟨key, _, rfl⟩
    · exact verified
    · exact absurd rfl signed

/-- The store between calls: memory and storage agree until a commit fails. -/
structure Settled (P : Primitives) (issuer : VerifyingKey) (pinned : DeviceKey → Prop)
    (s : TrustStore) : Prop where
  issuer_eq : s.issuer = issuer
  kept : ∀ d r, s.storage.devices[d]? = some r → KeptRecord P issuer pinned d r
  agrees : s.poisoned = false → s.snapshot = s.storage

variable {issuer : VerifyingKey} {pinned pinned' : DeviceKey → Prop}

theorem Settled.restored (h : Settled P issuer pinned s) :
    TrustStore.fromSnapshot P issuer s.storage = .ok ⟨issuer, s.storage, s.storage, false⟩ :=
  TrustStore.fromSnapshot_eq_ok.2 ⟨fun d r found => (h.kept d r found).checked, rfl⟩

theorem Settled.restart_eq (h : Settled P issuer pinned s) :
    TrustCall.restart.perform P s = (.ok (), ⟨issuer, s.storage, s.storage, false⟩) := by
  simp only [TrustCall.perform, h.issuer_eq, h.restored]

/-- What one call leaves durable: nothing new, or one more admitted record. -/
inductive Durable (P : Primitives) (s : TrustStore) (c : TrustCall) (s' : TrustStore) : Prop
  | same (storage : s'.storage = s.storage)
  | wrote (m : TrustMutation) (answer : CommitAnswer) (r : DeviceKeyRecord)
      (call : c = .mutation m answer) (admitted : AdmittedRecord P s m r)
      (storage : s'.storage = ⟨s.snapshot.devices.insert r.key.deviceId r⟩)

theorem TrustMutation.durable (m : TrustMutation) (answer : CommitAnswer) :
    Durable P s (.mutation m answer) (m.perform P s answer).2 := by
  rw [m.perform_eq]
  cases checked : m.check P s with
  | error e => exact .same rfl
  | ok r =>
    have admitted := m.admitted checked
    cases answer with
    | ok => exact .wrote m _ r rfl admitted rfl
    | lost e => exact .same rfl
    | written e => exact .wrote m _ r rfl admitted rfl

theorem Settled.durable (h : Settled P issuer pinned s) (c : TrustCall) :
    Durable P s c (c.perform P s).2 := by
  cases c with
  | mutation m answer => exact m.durable answer
  | restart => exact .same (by rw [h.restart_eq])

private theorem insert_lookup {m : Std.ExtTreeMap LockId DeviceKeyRecord} {r r' : DeviceKeyRecord}
    (h : (m.insert r.key.deviceId r)[d]? = some r') :
    (d = r.key.deviceId ∧ r' = r) ∨ (d ≠ r.key.deviceId ∧ m[d]? = some r') := by
  rw [Std.ExtTreeMap.getElem?_insert] at h
  split_ifs at h with same
  · exact .inl ⟨(Std.LawfulEqCmp.eq_of_compare same).symm, (Option.some.inj h).symm⟩
  · exact .inr ⟨fun eq => same (by rw [eq]; exact Std.ReflCmp.compare_self), h⟩

private theorem KeptRecord.mono (h : KeptRecord P issuer pinned d r)
    (more : ∀ key, pinned key → pinned' key) :
    KeptRecord P issuer pinned' d r where
  filed := h.filed
  valid := h.valid
  source := h.source.imp_right fun ⟨key, was, same⟩ => ⟨key, more key was, same⟩

/-- One call keeps the store settled. -/
theorem Settled.step (h : Settled P issuer pinned s) (c : TrustCall)
    (more : ∀ key, pinned key → pinned' key)
    (pins : ∀ key answer, c = .mutation (.pin key) answer → pinned' key) :
    Settled P issuer pinned' (c.perform P s).2 where
  issuer_eq := by
    cases c with
    | mutation m answer =>
      simp only [TrustCall.perform, m.perform_eq, TrustStore.mutate]
      split
      · exact h.issuer_eq
      · cases answer <;> exact h.issuer_eq
    | restart => rw [h.restart_eq]
  kept d r found := by
    cases h.durable c with
    | same storage =>
      rw [storage] at found
      exact (h.kept d r found).mono more
    | wrote m answer record call admitted storage =>
      rw [storage, h.agrees admitted.healthy] at found
      rcases insert_lookup found with ⟨rfl, rfl⟩ | ⟨_, found⟩
      · refine ⟨rfl, admitted.valid, ?_⟩
        rw [← h.issuer_eq]
        refine admitted.source.imp_right fun ⟨key, pin, same⟩ => ⟨key, pins key answer ?_, same⟩
        rw [call, pin]
      · exact (h.kept d r found).mono more
  agrees healthy := by
    cases c with
    | mutation m answer =>
      simp only [TrustCall.perform, m.perform_eq, TrustStore.mutate] at healthy ⊢
      split
      · rename_i refused
        rw [refused] at healthy
        exact h.agrees healthy
      · rename_i accepted
        rw [accepted] at healthy
        cases answer with
        | ok => rfl
        | lost e | written e => cases healthy
    | restart => rw [h.restart_eq]

/-- What a call makes of a stored record: it stays, or a newer one takes its place. -/
theorem Settled.advances (h : Settled P issuer pinned s) (c : TrustCall)
    (found : s.storage.devices[d]? = some r) :
    ∃ r', (c.perform P s).2.storage.devices[d]? = some r' ∧
      (r' = r ∨ r.key.keyVersion < r'.key.keyVersion ∧ (r'.key.keyId ≠ r.key.keyId →
        ∃ u now answer, c = .mutation (.applyUpdate u now) answer ∧ r' = u.newRecord ∧
          (verifyObject P issuer updateDomain u.signature = .ok (keyUpdateValue u) ∨
            verifyObject P ⟨r.key.rotationPublicKey⟩ updateDomain u.signature
              = .ok (keyUpdateValue u)))) := by
  cases h.durable c with
  | same storage => exact ⟨r, by rw [storage]; exact found, .inl rfl⟩
  | wrote m answer record call admitted storage =>
    have held := h.agrees admitted.healthy
    by_cases same : record.key.deviceId = d
    · subst same
      rw [← held] at found
      refine ⟨record, by rw [storage]; exact Std.ExtTreeMap.getElem?_insert_self,
        .inr ⟨admitted.newer r found, fun changed => ?_⟩⟩
      obtain ⟨u, now, rfl, rfl, signed⟩ := admitted.rotated r found changed
      rw [h.issuer_eq] at signed
      exact ⟨u, now, answer, call, rfl, signed⟩
    · refine ⟨r, ?_, .inl rfl⟩
      rw [storage, held, Std.ExtTreeMap.getElem?_insert,
        if_neg fun eq => same (Std.LawfulEqCmp.eq_of_compare eq)]
      exact found

end Steps

section Histories
variable (P : Primitives) (issuer : VerifyingKey)

theorem trustAfter_snoc (calls : List TrustCall) (c : TrustCall) :
    trustAfter P issuer (calls ++ [c]) = (c.perform P (trustAfter P issuer calls)).2 := by
  simp [trustAfter]

theorem trustAfter_settled (calls : List TrustCall) :
    Settled P issuer (fun key => ∃ answer, .mutation (.pin key) answer ∈ calls)
      (trustAfter P issuer calls) := by
  induction calls using List.reverseRecOn with
  | nil =>
    refine ⟨rfl, fun d r found => ?_, fun _ => rfl⟩
    simp [trustAfter, TrustStore.new] at found
  | append_singleton calls c ih =>
    rw [trustAfter_snoc]
    refine ih.step c (fun key ⟨answer, mem⟩ => ⟨answer, List.mem_append_left _ mem⟩) ?_
    rintro key answer rfl
    exact ⟨answer, List.mem_append_right _ List.mem_cons_self⟩

/-- What the store guarantees over every sequence of calls on it. -/
structure TrustAdvances : Prop where
  version : ∀ (earlier later : List TrustCall) (d : LockId) (r : DeviceKeyRecord),
    (trustAfter P issuer earlier).storage.devices[d]? = some r →
    ∃ r', (trustAfter P issuer (earlier ++ later)).storage.devices[d]? = some r' ∧
      (r' = r ∨ r.key.keyVersion < r'.key.keyVersion)
  key_id : ∀ (earlier : List TrustCall) (c : TrustCall) (d : LockId) (r r' : DeviceKeyRecord),
    (trustAfter P issuer earlier).storage.devices[d]? = some r →
    (trustAfter P issuer (earlier ++ [c])).storage.devices[d]? = some r' →
    r'.key.keyId ≠ r.key.keyId →
    ∃ u now answer, c = .mutation (.applyUpdate u now) answer ∧ r' = u.newRecord ∧
      (verifyObject P issuer updateDomain u.signature = .ok (keyUpdateValue u) ∨
        verifyObject P ⟨r.key.rotationPublicKey⟩ updateDomain u.signature = .ok (keyUpdateValue u))
  records : ∀ (calls : List TrustCall) (d : LockId) (r : DeviceKeyRecord),
    (trustAfter P issuer calls).storage.devices[d]? = some r →
    r.key.deviceId = d ∧ validateDeviceKey P r.key = .ok () ∧
      (verifyDeviceKey P issuer r = .ok () ∨
        ∃ key answer, .mutation (.pin key) answer ∈ calls ∧ r = ⟨key, 0, []⟩)
  get_last : ∀ calls : List TrustCall, (trustAfter P issuer calls).poisoned = false →
    ∀ d : LockId,
      (trustAfter P issuer calls).get d = (trustAfter P issuer calls).storage.devices[d]?
  get_committed : ∀ (calls : List TrustCall) (m : TrustMutation) (r : DeviceKeyRecord),
    m.check P (trustAfter P issuer calls) = .ok r →
    (trustAfter P issuer (calls ++ [.mutation m .ok])).get r.key.deviceId = some r
  failed_commit : ∀ (calls : List TrustCall) (m : TrustMutation) (answer : CommitAnswer)
    (r : DeviceKeyRecord), m.check P (trustAfter P issuer calls) = .ok r → answer ≠ .ok →
    (trustAfter P issuer (calls ++ [.mutation m answer])).poisoned = true
  refuses : ∀ calls : List TrustCall, (trustAfter P issuer calls).poisoned = true →
    (∀ d, (trustAfter P issuer calls).get d = none) ∧
    (trustAfter P issuer calls).exportSnapshot = .error .storageUnavailable ∧
    ∀ (m : TrustMutation) (answer : CommitAnswer), m.perform P (trustAfter P issuer calls) answer
      = (.error .storageUnavailable, trustAfter P issuer calls)
  restores : ∀ calls : List TrustCall,
    ∃ s, TrustStore.fromSnapshot P issuer (trustAfter P issuer calls).storage = .ok s

/-- Versions only grow, key ids change only by signed updates, and a failed commit closes
the store until it is restored. -/
theorem client_trust_advances : TrustAdvances P issuer where
  version earlier later d r found := by
    induction later using List.reverseRecOn with
    | nil => exact ⟨r, by simpa using found, .inl rfl⟩
    | append_singleton later c ih =>
      obtain ⟨r', found', newer⟩ := ih
      rw [← List.append_assoc, trustAfter_snoc]
      obtain ⟨r'', found'', changed⟩ := (trustAfter_settled P issuer _).advances c found'
      refine ⟨r'', found'', ?_⟩
      rcases changed with rfl | ⟨newest, _⟩
      · exact newer
      · rcases newer with rfl | newer
        · exact .inr newest
        · exact .inr (UInt32.lt_trans newer newest)
  key_id earlier c d r r' found found' changed := by
    rw [trustAfter_snoc] at found'
    obtain ⟨r'', found'', step⟩ := (trustAfter_settled P issuer earlier).advances c found
    cases found'.symm.trans found''
    rcases step with rfl | ⟨_, step⟩
    · exact absurd rfl changed
    · exact step changed
  records calls d r found := by
    obtain ⟨filed, valid, source⟩ := (trustAfter_settled P issuer calls).kept d r found
    exact ⟨filed, valid, source.imp_right fun ⟨key, ⟨answer, mem⟩, same⟩ =>
      ⟨key, answer, mem, same⟩⟩
  get_last calls healthy d := by
    rw [TrustStore.get, healthy, (trustAfter_settled P issuer calls).agrees healthy]
    rfl
  get_committed calls m r checked := by
    have healthy := (m.admitted checked).healthy
    rw [trustAfter_snoc]
    simp only [TrustCall.perform, m.perform_eq, checked, TrustStore.mutate, TrustStore.commit,
      TrustStore.get, healthy]
    exact Std.ExtTreeMap.getElem?_insert_self
  failed_commit calls m answer r checked failed := by
    rw [trustAfter_snoc]
    simp only [TrustCall.perform, m.perform_eq, checked, TrustStore.mutate]
    cases answer with
    | ok => exact absurd rfl failed
    | lost e | written e => rfl
  refuses calls poisoned := by
    refine ⟨fun d => by rw [TrustStore.get, poisoned]; rfl, ?_, fun m answer => ?_⟩
    · simp only [TrustStore.exportSnapshot, TrustStore.ensureHealthy, poisoned]
      rfl
    · have refused : m.check P (trustAfter P issuer calls) = .error .storageUnavailable := by
        cases m <;> simp only [TrustMutation.check, TrustStore.checkImport, TrustStore.checkPin,
          TrustStore.checkUpdate, TrustStore.ensureHealthy, poisoned] <;> rfl
      rw [m.perform_eq, refused]
      rfl
  restores calls := ⟨_, (trustAfter_settled P issuer calls).restored⟩

end Histories

section Agreement
variable {P : Primitives} {s : TrustStore} {r : DeviceKeyRecord} {u : KeyUpdate}
  {now : ClockSample} {b : Bytes}

/-- With one key for a signature, two keys that accept an object are the same. -/
private theorem verifyObject_key
    (ideal : ∀ key key' m s, P.verifyStrict key m s = true → P.verifyStrict key' m s = true →
      key = key') {kind cose : Bytes} {v v' : Value}
    (h : verifyObject P key kind cose = .ok v) (h' : verifyObject P key' kind cose = .ok v') :
    key = key' := by
  simp only [verifyObject, bind_eq_ok, failIf_eq_ok, not_not] at h h'
  obtain ⟨⟨payload, message, signature⟩, opened, _, verified, _⟩ := h
  obtain ⟨_, opened', _, verified', _⟩ := h'
  cases opened.symm.trans opened'
  exact ideal _ _ _ _ verified verified'

private theorem applyUpdate_accepts :
    (s.applyUpdate P u now .ok).1 = .ok () ↔ s.poisoned = false ∧
      ∃ old, s.snapshot.devices[u.newRecord.key.deviceId]? = some old ∧
        TrustStore.Updates P s.issuer old.key u now := by
  unfold TrustStore.applyUpdate TrustStore.mutate
  cases checked : s.checkUpdate P u now with
  | error e =>
    refine ⟨fun h => (by cases h), fun ⟨healthy, accepted⟩ => ?_⟩
    rw [TrustStore.checkUpdate_eq_ok.2 ⟨healthy, accepted, rfl⟩] at checked
    cases checked
  | ok record =>
    obtain ⟨healthy, accepted, _⟩ := TrustStore.checkUpdate_eq_ok.1 checked
    exact ⟨fun _ => ⟨healthy, accepted⟩, fun _ => rfl⟩

/-- What the device accepts, the store accepts. -/
private theorem updates_of_read (h : readKeyUpdate P s.issuer r.key b now = .ok u) :
    TrustStore.Updates P s.issuer r.key u now := by
  obtain ⟨ordered, _, point, verified, valid, record, oldKey, _, version, opened, unretired⟩ :=
    readKeyUpdate_eq_ok.1 h
  simp only [validateKeyUpdate, bind_eq_ok, failIf_eq_ok, ge_iff_le, UInt64.not_le] at valid
  obtain ⟨_, _, window⟩ := valid
  exact {
    ordered
    oldKey := oldKey.symm
    version
    opened
    unretired
    window
    record
    point := fun _ => point
    signed := verifyUpdate_signer verified }

/-- What the store accepts, the device accepts, unless it takes the issuer for the signer of
an update that does not name the issuer. -/
private theorem read_of_updates (codec : P.Ciborium) (valid : validateDeviceKey P r.key = .ok ())
    (encoded : encodeKeyUpdate P u = .ok b)
    (device : u.newRecord.key.deviceId = r.key.deviceId)
    (h : TrustStore.Updates P s.issuer r.key u now)
    (apart : u.issuerKeyId = none →
      ∀ v, verifyObject P s.issuer updateDomain u.signature ≠ .ok v) :
    readKeyUpdate P s.issuer r.key b now = .ok u := by
  have shallow : (Value.array [.bytes u.signature, .bytes u.newRecord.signature]).Within 16 :=
    within_cons (α := Bytes) (by decide) (within_cons (α := Bytes) (by decide) within_nil)
  obtain ⟨rfl, fits⟩ := (encodeLimit_eq_ok codec shallow).1 encoded
  have record := (verifyDeviceKey_eq_ok.1 h.record).1
  have verified : verifyUpdate P s.issuer ⟨r.key.rotationPublicKey⟩ u.signature
      = .ok (keyUpdateValue u, u.issuerKeyId.isSome) := by
    have signed := h.signed
    unfold verifyUpdate
    cases id : u.issuerKeyId with
    | some n =>
      rw [id] at signed
      rw [show verifyObject P s.issuer updateDomain u.signature = _ from signed]
      rfl
    | none =>
      rw [id] at signed
      cases tried : verifyObject P s.issuer updateDomain u.signature with
      | ok v => exact absurd tried (apart id v)
      | error e =>
        rw [show verifyObject P ⟨r.key.rotationPublicKey⟩ updateDomain u.signature = _ from signed]
        rfl
  refine readKeyUpdate_eq_ok.2 ⟨h.ordered, decodeLimit_write codec shallow fits (by decide), ?_,
    verified, ?_, h.record, h.oldKey.symm, device, h.version, h.opened, h.unretired⟩
  · simp only [validateDeviceKey, bind_eq_ok, VerifyingKey.fromBytes_eq_ok] at valid
    obtain ⟨_, _, _, _, _, ⟨point, _⟩, _⟩ := valid
    exact point
  · simp only [validateKeyUpdate, bind_eq_ok, failIf_eq_ok, ge_iff_le, UInt64.not_le]
    exact ⟨(), record, h.window⟩

/-- Every record is filed under its own device and valid, as every run leaves it. -/
def TrustStore.Sound (P : Primitives) (s : TrustStore) : Prop :=
  ∀ (d : LockId) (r : DeviceKeyRecord), s.snapshot.devices[d]? = some r →
    r.key.deviceId = d ∧ validateDeviceKey P r.key = .ok ()

theorem TrustStore.sound_trustAfter (issuer : VerifyingKey) (calls : List TrustCall)
    (healthy : (trustAfter P issuer calls).poisoned = false) :
    (trustAfter P issuer calls).Sound P := by
  intro d r found
  have settled := trustAfter_settled P issuer calls
  rw [settled.agrees healthy] at found
  exact ⟨(settled.kept d r found).filed, (settled.kept d r found).valid⟩

/-- A healthy store that holds `r`, and nothing else for the device of an update, accepts the
update exactly when the device with key `r` does, except for a genuine update that names no
issuer key while the rotation key is the issuer's own. -/
theorem rotation_agreement_iff (codec : P.Ciborium)
    (ideal : ∀ key key' m s, P.verifyStrict key m s = true → P.verifyStrict key' m s = true →
      key = key')
    (healthy : s.poisoned = false) (sound : s.Sound P)
    (held : s.snapshot.devices[r.key.deviceId]? = some r)
    (only : ∀ r', s.snapshot.devices[u.newRecord.key.deviceId]? = some r' → r' = r)
    (encoded : encodeKeyUpdate P u = .ok b) :
    ((s.applyUpdate P u now .ok).1 = .ok () ↔ readKeyUpdate P s.issuer r.key b now = .ok u) ↔
      ¬ (u.newRecord.key.deviceId = r.key.deviceId ∧ TrustStore.Updates P s.issuer r.key u now ∧
        u.issuerKeyId = none ∧ r.key.rotationPublicKey = s.issuer.bytes) := by
  have accepts : (s.applyUpdate P u now .ok).1 = .ok () ↔
      u.newRecord.key.deviceId = r.key.deviceId ∧ TrustStore.Updates P s.issuer r.key u now := by
    rw [applyUpdate_accepts]
    constructor
    · rintro ⟨_, old, found, updates⟩
      obtain rfl := only old found
      exact ⟨(sound _ _ found).1.symm, updates⟩
    · rintro ⟨device, updates⟩
      exact ⟨healthy, r, by rw [device]; exact held, updates⟩
  rw [accepts]
  constructor
  · rintro agree ⟨device, updates, none, same⟩
    -- The update verifies under the issuer, so the device takes it for root-signed.
    obtain ⟨_, _, _, verified, _⟩ := readKeyUpdate_eq_ok.1 (agree.1 ⟨device, updates⟩)
    have signed := updates.signed
    rw [none, show (⟨r.key.rotationPublicKey⟩ : VerifyingKey) = s.issuer by rw [same]] at signed
    unfold verifyUpdate at verified
    rw [show verifyObject P s.issuer updateDomain u.signature = _ from signed] at verified
    simp [none] at verified
  · intro apart
    constructor
    · rintro ⟨device, updates⟩
      refine read_of_updates codec (sound _ _ held).2 encoded device updates fun none v tried => ?_
      refine apart ⟨device, updates, none, ?_⟩
      have signed := updates.signed
      rw [none] at signed
      exact congrArg VerifyingKey.bytes (verifyObject_key ideal signed tried)
    · intro read
      obtain ⟨_, _, _, _, _, _, _, device, _⟩ := readKeyUpdate_eq_ok.1 read
      exact ⟨device, updates_of_read read⟩

end Agreement

namespace Stamp

def held : DeviceKeyRecord := ⟨deviceKey 1, 0, []⟩

/-- A store of that issuer with the first key pinned. -/
def store : TrustStore := trustAfter primitives issuer [.mutation (.pin (deviceKey 1)) .ok]

/-- The store applies an update that the device refuses. -/
theorem rotation_disagreement :
    store.poisoned = false ∧ store.issuer = issuer ∧
    store.snapshot.devices[(deviceKey 1).deviceId]? = some held ∧
    encodeKeyUpdate primitives (signedUpdate none record)
      = .ok (transport (signedUpdate none record)) ∧
    (store.applyUpdate primitives (signedUpdate none record) now .ok).1 = .ok () ∧
    readKeyUpdate primitives issuer held.key (transport (signedUpdate none record)) now
      = .error .invalidPayload := by
  decide +kernel

private theorem stamp_injective (h : stamp key = stamp key') : key = key' := by
  obtain ⟨bytes⟩ := key
  obtain ⟨bytes'⟩ := key'
  rw [VerifyingKey.mk.injEq]
  exact (Vector.append_inj h).1

private theorem store_held : store.snapshot.devices[(deviceKey 1).deviceId]? = some held := by
  decide +kernel

theorem rotation_agreement_root :
    (store.applyUpdate primitives (signedUpdate (some 1) record) now .ok).1 = .ok () ∧
    readKeyUpdate primitives issuer held.key (transport (signedUpdate (some 1) record)) now
      = .ok (signedUpdate (some 1) record) := by
  have accepts : (store.applyUpdate primitives (signedUpdate (some 1) record) now .ok).1
      = .ok () := by decide +kernel
  have agree := @rotation_agreement_iff primitives store held (signedUpdate (some 1) record) now
    (transport (signedUpdate (some 1) record)) (minimalPrimitives_ciborium _)
    (fun key key' m s h h' => stamp_injective
      ((of_decide_eq_true h).symm.trans (of_decide_eq_true h')))
    (by decide +kernel)
    (TrustStore.sound_trustAfter issuer _ (by decide +kernel)) store_held
    (fun r' found => Option.some.inj (found.symm.trans store_held)) (by decide +kernel)
  exact ⟨accepts, (agree.2 fun h => (by cases h.2.2.1)).1 accepts⟩

end Stamp
end OpenLock
