import OpenLock.Abstract.Machine

/-! What holds in every state of the abstract lock. -/
namespace OpenLock
open Controller Effects DeviceSnapshot

variable {P : Primitives} {f : FactoryIdentity} {s : Abs} {m n : DeviceSnapshot} {pr : Progress}
  {ow : Option Active} {clocks : List ClockSample} {x : Accepted} {K : OpKey → Prop}
  {r : OperationRecord} {a : Active}

/-- A device without an owner has no authorization history. -/
structure Unowned (m : DeviceSnapshot) : Prop where
  revoked : m.revoked = ∅
  uses : m.uses = ∅
  watermarks : m.watermarks = ∅
  bindings : m.bindings = ∅
  operations : m.operations = []

/-- A snapshot a device may hold. -/
structure Sound (P : Primitives) (f : FactoryIdentity) (m : DeviceSnapshot) : Prop where
  valid : Valid P f m
  unowned : m.owner = none → Unowned m
  nodup : (m.operations.map OperationRecord.key).Nodup
  factory : AuthValid P f (DeviceSnapshot.factory f).auth
  info : f.info.validate = .ok ()

/-- The tables that an unowned device keeps empty. -/
def AuthState.tables (a : AuthState) :
    CredentialSet × CredentialMap UInt32 × CredentialMap UInt64 × CredentialMap Bytes32 :=
  (a.revoked, a.uses, a.watermarks, a.bindings)

theorem Retouched.nil {ops : List OperationRecord} (h : Retouched K [] ops) : ops = [] := by
  cases h
  rfl

/-- Keeping the owner, the operations and, without an owner, the tables. -/
theorem Sound.retouch (h : Sound P f m) (valid : Valid P f n)
    (operations : Retouched K m.operations n.operations) (owner : n.owner = m.owner)
    (tables : m.owner = none → n.auth.tables = m.auth.tables) : Sound P f n := by
  refine ⟨valid, fun ho => ?_, ?_, h.factory, h.info⟩
  · have hm := h.unowned (owner ▸ ho)
    have ht := tables (owner ▸ ho)
    simp only [AuthState.tables, Prod.mk.injEq, auth_revoked, auth_uses, auth_watermarks,
      auth_bindings] at ht
    obtain ⟨hr, hu, hw, hb⟩ := ht
    rw [hm.operations] at operations
    exact ⟨hr.trans hm.revoked, hu.trans hm.uses, hw.trans hm.watermarks, hb.trans hm.bindings,
      operations.nil⟩
  · rw [operations.keys]
    exact h.nodup

theorem Sound.background (h : Sound P f m) (b : Background f K m n) (valid : Valid P f n) :
    Sound P f n :=
  h.retouch valid b.operations (congrArg AuthState.owner b.auth)
    fun _ => congrArg AuthState.tables b.auth

theorem issuerKey_owner {key : VerifyingKey} (h : issuerKey P m = .ok key) :
    ∃ o, m.owner = some o ∧ P.isPoint o.issuer = true ∧ key = ⟨o.issuer⟩ := by
  simp only [issuerKey, bind_eq_ok, okOr_eq_ok, VerifyingKey.fromBytes_eq_ok] at h
  obtain ⟨o, ho, hp, hk⟩ := h
  exact ⟨o, ho, hp, hk⟩

/-- A listed record's sequence is within the watermark of its credential. -/
theorem Valid.sequence_le (h : Valid P f m) (hr : r ∈ m.operations) :
    r.status.sequence ≤ m.watermark r.status.credentialId := by
  have hrej := h.operations r hr
  simp only [operationRejected, Bool.or_eq_false_iff, decide_eq_false_iff_not, UInt64.not_lt] at hrej
  exact hrej.1.2

/-- An accepted operation is new. -/
theorem Acceptance.new_key (h : Acceptance P f clocks ow x m n) (valid : Valid P f m)
    (hr : r ∈ m.operations) : r.key ≠ x.key := by
  intro hk
  have hid : r.status.credentialId = x.grant.credentialId := congrArg Prod.fst hk
  have hseq : r.status.sequence = x.sequence := congrArg Prod.snd hk
  have le := valid.sequence_le hr
  rw [hid, hseq] at le
  exact absurd h.authorized.fresh (UInt64.not_lt.2 le)

theorem Sound.acceptance (hm : Sound P f m) (h : Acceptance P f clocks ow x m n)
    (valid : Valid P f n) : Sound P f n := by
  obtain ⟨o, granted⟩ := checkGrant_ok.1 h.authorized.grant
  have ho := granted.owner
  have owner : n.owner = m.owner := congrArg AuthState.owner h.auth
  refine ⟨valid, fun hn => by simp [owner, ho] at hn, ?_, hm.factory, hm.info⟩
  obtain ⟨kept, digest, admitted, hops⟩ := h.operations
  rw [hops, List.map_append, List.nodup_append]
  refine ⟨hm.nodup.sublist (admitted.sublist.map _), by simp, ?_⟩
  intro k hk k' hk'
  obtain ⟨r, hr, rfl⟩ := List.mem_map.1 hk
  have hx : k' = x.key := by simpa [Accepted.record, OperationRecord.key, Accepted.key,
    acceptedStatus] using hk'
  rw [hx]
  exact h.new_key hm.valid (admitted.sublist.subset hr)

theorem Sound.domain {entry : Controller} {now : UInt64} {context : SessionContext} {c : Command}
    {g : Grant} {seq : UInt64} (hm : Sound P f m)
    (authorized : Authorized P f m clocks context c g seq)
    (h : DomainChange P f entry now context c m n) (valid : Valid P f n) : Sound P f n := by
  obtain ⟨o, granted⟩ := checkGrant_ok.1 authorized.grant
  have ho := granted.owner
  cases h with
  | reset _ _ _ _ _ result =>
    subst result
    exact ⟨valid, fun _ => ⟨rfl, rfl, rfl, rfl, rfl⟩, by simp [Execute.resetSnapshot,
      DeviceSnapshot.factory], hm.factory, hm.info⟩
  | replace issuer _ _ _ _ _ _ auth operations _ =>
    have owner : n.owner = some ⟨issuer, context.peer⟩ := congrArg AuthState.owner auth
    exact ⟨valid, fun hn => by simp [owner] at hn, by simp [operations], hm.factory, hm.info⟩
  | epoch _ _ _ _ _ _ _ _ _ _ auth operations _ =>
    have owner : n.owner = m.owner := congrArg AuthState.owner auth
    exact ⟨valid, fun hn => by simp [owner, ho] at hn, by simp [operations], hm.factory, hm.info⟩

/-- Carrying out an accepted action keeps the owner, and the tables of a device without one. -/
theorem Effected.keeps {b : AuthState} (h : Effected P f m x b) :
    b.owner = m.owner ∧ (m.owner = none → b.tables = m.auth.tables) := by
  cases h with
  | config => exact ⟨rfl, fun _ => rfl⟩
  | policy _ _ _ _ issuer =>
    obtain ⟨o, ho, _⟩ := issuerKey_owner issuer
    exact ⟨rfl, fun hn => by simp [ho] at hn⟩
  | firmware => exact ⟨rfl, fun _ => rfl⟩
  | rotate => exact ⟨rfl, fun _ => rfl⟩

theorem FirmwareValid.empty (version : UInt64) :
    FirmwareValid P f ⟨.empty, 0, none, version⟩ [] := by
  rw [FirmwareValid, if_pos rfl]
  exact ⟨rfl, rfl, rfl⟩

/-- A constructor installs a sound snapshot, if its check accepts it. -/
theorem Sound.installed {call : Call} (h : call.installs f = some n)
    (info : f.info.validate = .ok ()) (valid : Valid P f n) : Sound P f n := by
  have factory : AuthValid P f (DeviceSnapshot.factory f).auth ∧ n.operations = []
      ∧ (n.owner = none → Unowned n) := by
    have auth := valid.auth
    match call, h with
    | .construct .provision, rfl => exact ⟨auth, rfl, fun _ => ⟨rfl, rfl, rfl, rfl, rfl⟩⟩
    | .construct (.migrateLegacy _ _ _), rfl =>
      refine ⟨⟨auth.format, auth.lockId, auth.deviceId, Nat.zero_le _, Nat.zero_le _,
        Nat.zero_le _, Nat.zero_le _, auth.config, auth.deviceKey, nofun, .empty 0⟩, rfl, nofun⟩
  obtain ⟨hf, hops, hu⟩ := factory
  exact ⟨valid, hu, by simp [hops], hf, info⟩

namespace Upkeep

theorem keeps (h : Upkeep f s m n pr ow) : ∃ K, Background f K m n := by
  cases h with
  | background _ h => exact ⟨_, h⟩
  | failure _ _ _ h => exact ⟨_, h⟩
  | release _ _ _ _ _ _ _ _ h => exact ⟨_, h⟩
  | relock _ _ _ _ _ h => exact ⟨_, h⟩
  | recover _ _ h => exact ⟨_, h⟩

theorem auth (h : Upkeep f s m n pr ow) : n.auth = m.auth := by
  obtain ⟨_, background⟩ := h.keeps
  exact background.auth

/-- Upkeep does not move a call on, unless `poll` claims the relock. -/
theorem progress (h : Upkeep f s m n pr ow) :
    pr = s.progress ∨ (pr = .relocking ∧ s.progress = .fresh ∧ s.call = .method .poll) := by
  cases h with
  | relock _ fresh call => exact .inr ⟨rfl, fresh, call⟩
  | _ => exact .inl rfl

/-- Elsewhere it never does. -/
theorem steady (h : Upkeep f s m n pr ow)
    (called : ¬ (s.call = .method .poll ∨ s.call.constructs = true)) : pr = s.progress :=
  h.progress.resolve_right fun claim => called (.inl claim.2.2)

end Upkeep

/-- A request is neither a poll nor a constructor. -/
theorem Abs.serves (s : Abs) {y : SessionContext × Command} (request : s.request = some y) :
    ¬ (s.call = .method .poll ∨ s.call.constructs = true) := by
  rintro (polls | constructs)
  · rw [Abs.request, polls] at request
    cases request
  · cases (Call.request_method request).symm.trans constructs

/-- Every change leads from a sound snapshot to a sound one, if storage accepts it. -/
theorem Change.sound (h : Change P f s m n pr ow) (hm : Sound P f m) (valid : Valid P f n) :
    Sound P f n := by
  cases h with
  | upkeep h =>
    obtain ⟨_, h⟩ := h.keeps
    exact hm.background h valid
  | accept _ _ _ _ h => exact hm.acceptance h valid
  | claim entry now context c key issuer admin g _ _ _ _ _ h =>
    have owner : n.owner = some ⟨issuer, context.peer⟩ := congrArg AuthState.owner h.auth
    refine ⟨valid, fun hn => by simp [owner] at hn, ?_, hm.factory, hm.info⟩
    rw [h.operations]
    exact hm.nodup
  | domain _ _ _ _ _ _ _ _ _ _ _ _ authorized h => exact hm.domain authorized h valid
  | effect _ _ _ auth operations _ =>
    obtain ⟨owner, tables⟩ := auth.keeps
    exact hm.retouch valid operations owner tables
  | clock _ _ _ _ _ _ h =>
    exact hm.retouch valid h.operations (congrArg AuthState.owner h.auth) fun _ =>
      congrArg AuthState.tables h.auth
  | trialEnded _ _ _ _ _ auth operations _ =>
    exact hm.retouch valid operations (congrArg AuthState.owner auth) fun _ => by rw [auth]; rfl

/-- A change keeps the running drive or releases it. -/
theorem Change.owned (h : Change P f s m n pr ow) : ow = s.owned ∨ ow = none := by
  cases h with
  | upkeep h => cases h <;> first | exact .inl rfl | exact .inr rfl
  | _ => exact .inl rfl

/-- The record of a drive that stays owned stays listed. -/
theorem Change.keeps_drive (h : Change P f s m n pr ow) (ha : ow = some a)
    (listed : ∃ r ∈ m.operations, r.key = a.key) : ∃ r ∈ n.operations, r.key = a.key := by
  cases h with
  | upkeep h =>
    obtain ⟨_, h⟩ := h.keeps
    exact h.operations.has_key.2 listed
  | accept _ _ _ _ h =>
    obtain ⟨kept, digest, admitted, hops⟩ := h.operations
    obtain ⟨r, hr, hk⟩ := listed
    refine ⟨r, ?_, hk⟩
    rw [hops]
    exact List.mem_append_left _ (admitted.drive a ha r hr hk)
  | claim _ _ _ _ _ _ _ _ _ _ _ _ _ h => rw [h.operations]; exact listed
  | domain _ _ _ _ _ _ _ _ _ _ _ idle => rw [idle] at ha; cases ha
  | effect _ _ _ _ operations => exact operations.has_key.2 listed
  | clock _ _ _ _ _ _ h => exact h.operations.has_key.2 listed
  | trialEnded _ _ _ _ _ _ operations => exact operations.has_key.2 listed

/-- The operation a call has accepted stays listed while the call goes on. -/
theorem Change.keeps_progress (h : Change P f s m n pr ow) {k : OpKey} (hk : pr.key = some k)
    (listed : s.progress.key = some k → ∃ r ∈ m.operations, r.key = k) :
    ∃ r ∈ n.operations, r.key = k := by
  cases h with
  | upkeep h =>
    obtain ⟨_, kept⟩ := h.keeps
    rcases h.progress with rfl | ⟨rfl, _⟩
    · exact kept.operations.has_key.2 (listed hk)
    · cases hk
  | accept x _ _ _ h =>
    obtain ⟨kept, digest, admitted, hops⟩ := h.operations
    refine ⟨x.record digest, by simp [hops], ?_⟩
    exact Option.some.inj hk
  | claim => cases hk
  | domain => cases hk
  | effect _ _ _ _ operations => exact operations.has_key.2 (listed hk)
  | clock _ _ _ _ _ _ h => exact h.operations.has_key.2 (listed hk)
  | trialEnded _ _ _ _ _ _ operations => exact operations.has_key.2 (listed hk)

/-- How far a call may have come: an acceptance is of its own request, only `poll` claims
the relock obligation and only a request replaces the domain. -/
def Asked (call : Call) (entry : Option Controller) : Progress → Prop
  | .accepted x => call.request entry = some (x.context, x.command)
  | .relocking => call = .method .poll
  | .settled => (call.request entry).isSome
  | _ => True

theorem Change.asked (h : Change P f s m n pr ow) (asked : Asked s.call s.entry s.progress) :
    Asked s.call s.entry pr := by
  cases h with
  | accept _ _ _ request => exact request
  | upkeep h =>
    rcases h.progress with rfl | ⟨rfl, _, call⟩
    · exact asked
    · exact call
  | claim _ _ _ _ _ _ _ _ _ _ request => exact Option.isSome_of_eq_some request
  | domain _ _ _ _ _ _ _ _ request => exact Option.isSome_of_eq_some request
  | effect | clock | trialEnded => exact asked

namespace Abs
variable {ev : Event Answer} {s' : Abs}

/-- The invariant of the abstract lock. -/
structure Inv (P : Primitives) (f : FactoryIdentity) (s : Abs) : Prop where
  disk : ∀ d, s.disk = some d → Sound P f d
  mem : ∀ m, s.mem = some m → Sound P f m
  /-- A controller that is not poisoned agrees with its store. -/
  synced : s.poisoned = false → ∀ m, s.mem = some m → s.disk = some m
  owned : ∀ a m, s.owned = some a → a.automatic = false → s.mem = some m →
    ∃ r ∈ m.operations, r.key = a.key
  motor : ∀ a, s.owned = some a → a.target = .lock → f.info.actuator = .motor
  asked : Asked s.call s.entry s.progress
  progress : ∀ k m, s.progress.key = some k → s.mem = some m → ∃ r ∈ m.operations, r.key = k
  hazard : s.hazard.isSome → s.owned.isSome

namespace Inv

theorem tick (h : Inv P f s) (t : UInt64) : Inv P f (s.tick t) := by
  unfold Abs.tick
  split
  · exact ⟨h.disk, h.mem, nofun, h.owned, h.motor, h.asked, h.progress, h.hazard⟩
  · exact ⟨h.disk, h.mem, h.synced, h.owned, h.motor, h.asked, h.progress, h.hazard⟩

theorem hear (h : Inv P f s) (r : Option ClockSample) : Inv P f (s.hear r) :=
  ⟨h.disk, h.mem, h.synced, h.owned, h.motor, h.asked, h.progress, h.hazard⟩

theorem sense (h : Inv P f s) (i : DeviceInfo) (r : HardwareSample) : Inv P f (s.sense i r) := by
  refine ⟨h.disk, h.mem, h.synced, h.owned, h.motor, h.asked, h.progress, fun hz => ?_⟩
  cases ho : s.owned with
  | none => simp [Abs.sense, ho] at hz
  | some a => simp [Abs.sense, ho]

theorem note (h : Inv P f s) (ev : Event Answer) : Inv P f (s.note ev) :=
  ⟨h.disk, h.mem, h.synced, h.owned, h.motor, h.asked, h.progress, h.hazard⟩

theorem drive (h : Inv P f s) {r : HardwareSample} (hm : s.mem = some m)
    (safe : StartSafe f s.lastMono m r a) (armed : Armed s.progress a) : Inv P f (s.drive a) := by
  have listed : a.automatic = false → ∃ r ∈ m.operations, r.key = a.key := by
    intro manual
    generalize hp : s.progress = pr at armed
    cases armed with
    | manual x a _ key _ =>
      rw [key]
      exact h.progress x.key m (by rw [hp]; rfl) hm
    | relock a automatic => rw [automatic] at manual; cases manual
  refine ⟨h.disk, h.mem, h.synced, ?_, ?_, trivial, ?_, fun _ => rfl⟩
  · rintro b m' ⟨⟩ manual hm'
    cases hm.symm.trans hm'
    exact listed manual
  · rintro b ⟨⟩ target
    have ok := safe.lock target
    by_contra hne
    simp [canLockSample, hne] at ok
  · intro k m' hk hm'
    cases hm.symm.trans hm'
    cases automatic : a.automatic with
    | true => simp [Abs.drive, Progress.key, automatic] at hk
    | false =>
      have hk' : a.key = k := by simpa [Abs.drive, Progress.key, automatic] using hk
      exact hk' ▸ listed automatic

theorem stop (h : Inv P f s) (r : Except Error Unit) : Inv P f (s.stop r) := by
  cases r with
  | ok =>
    refine ⟨h.disk, h.mem, h.synced, ?_, ?_, h.asked, h.progress, ?_⟩
    · intro a m ha
      cases ha
    · intro a ha
      cases ha
    · intro hz
      cases hz
  | error =>
    refine ⟨h.disk, h.mem, ?_, h.owned, h.motor, h.asked, h.progress, h.hazard⟩
    intro live
    cases live

theorem loaded (h : Inv P f s) {r : Except Error (Option DeviceSnapshot)} (idle : s.owned = none)
    (fresh : s.progress = .fresh) (stored : ∀ d, r = .ok d → d = s.disk) :
    Inv P f (s.loaded r) := by
  cases r with
  | error => exact ⟨h.disk, h.mem, h.synced, h.owned, h.motor, h.asked, h.progress, h.hazard⟩
  | ok d =>
    cases stored d rfl
    refine ⟨h.disk, h.disk, fun _ _ hm => hm, ?_, h.motor, h.asked, ?_, h.hazard⟩
    · intro a m ha
      exact absurd (ha.symm.trans idle) (by simp)
    · intro k m hk
      rw [show (s.loaded (.ok s.disk)).progress = .fresh from fresh] at hk
      cases hk

theorem submitted (h : Inv P f s) (safe : s.hazard = none) (change : Change P f s m n pr ow) :
    Inv P f (s.submitted n pr ow) := by
  have kept : ∀ a, ow = some a → s.owned = some a := by
    intro a ha
    rcases change.owned with ho | ho
    · exact ho ▸ ha
    · rw [ho] at ha; cases ha
  refine ⟨h.disk, h.mem, h.synced, fun a m ha => h.owned a m (kept a ha),
    fun a ha => h.motor a (kept a ha), h.asked, h.progress, fun hz => ?_⟩
  have none : (s.submitted n pr ow).hazard = none := safe
  rw [none] at hz
  cases hz

/-- A commit that storage answers, in the state its submission left. -/
theorem committed {s₀ : Abs} (h : Inv P f s) (hm : s₀.mem = some m)
    (change : Change P f s₀ m n pr ow) (hs : s = s₀.submitted n pr ow) (valid : Valid P f n)
    (r : CommitAnswer) : Inv P f (s.committed n pr r) := by
  subst hs
  have sound := change.sound (h.mem m hm) valid
  cases r with
  | lost =>
    refine ⟨h.disk, h.mem, ?_, h.owned, h.motor, h.asked, h.progress, h.hazard⟩
    intro live
    cases live
  | written =>
    refine ⟨fun d hd => by cases hd; exact sound, h.mem, ?_, h.owned, h.motor, h.asked, h.progress, h.hazard⟩
    intro live
    cases live
  | ok =>
    refine ⟨fun d hd => by cases hd; exact sound, fun d hd => by cases hd; exact sound,
      fun _ _ hd => hd, ?_, h.motor, change.asked h.asked, ?_, h.hazard⟩
    · rintro a _ ha manual ⟨⟩
      exact change.keeps_drive ha (h.owned a m ha manual hm)
    · rintro k _ hk ⟨⟩
      exact change.keeps_progress hk fun hk' => h.progress k m hk' hm

theorem installed (h : Inv P f s) (hm : s.mem = none) (installs : s.call.installs f = some n)
    (info : f.info.validate = .ok ()) (valid : Valid P f n) (r : CommitAnswer) :
    Inv P f (s.installed n r) := by
  have sound := Sound.installed installs info valid
  have synced : (s.installed n r).poisoned = false →
      ∀ m, s.mem = some m → (s.installed n r).disk = some m := by
    intro _ m found
    cases hm.symm.trans found
  cases r with
  | lost => exact ⟨h.disk, h.mem, synced, h.owned, h.motor, h.asked, h.progress, h.hazard⟩
  | ok | written =>
    refine ⟨fun d hd => ?_, h.mem, synced, h.owned, h.motor, h.asked, h.progress, h.hazard⟩
    cases hd
    exact sound

/-- A call may begin in any state; a constructor forgets the controller. -/
theorem enter (h : Inv P f s) (call : Call) (entry : Option Controller) :
    Inv P f (s.enter call entry) := by
  cases call with
  | method =>
    refine ⟨h.disk, h.mem, h.synced, h.owned, h.motor, trivial, ?_, h.hazard⟩
    intro k m hk
    cases hk
  | construct =>
    refine ⟨h.disk, ?_, ?_, ?_, h.motor, trivial, ?_, ?_⟩
    · intro m hm
      cases hm
    · intro _ m hm
      cases hm
    · intro a m _ _ hm
      cases hm
    · intro k m hk
      cases hk
    · intro hz
      cases hz

theorem step (h : Inv P f s) (hs : s.Step P f ev s') : Inv P f s' := by
  have shape := hs.shape
  cases shape with
  | late t => exact (if_pos ‹_› : s.tick t = _) ▸ h.tick t
  | tick t => exact (if_neg ‹_› : s.tick t = _) ▸ h.tick t
  | hear r => exact h.hear r
  | sense r => exact h.sense f.info r
  | note => exact h.note _
  | start _ _ _ _ _ a m _ _ _ mem _ safe armed => exact h.drive mem safe armed
  | stop r => exact h.stop r
  | load _ _ _ idle fresh found => exact h.loaded idle fresh found
  | submit _ _ _ _ _ _ safe _ change => exact h.submitted safe change
  | commit _ r s₀ _ _ _ _ mem change submitted valid =>
    exact h.committed mem change submitted valid r
  | install _ r _ mem _ installs info valid => exact h.installed mem installs info valid r

/-- The request of a call that has accepted it. -/
theorem request (h : Inv P f s) (accepted : s.progress = .accepted x) :
    s.request = some (x.context, x.command) := by
  have asked := h.asked
  rw [accepted] at asked
  exact asked

theorem asks (h : Inv P f s) (settled : s.progress = .settled) :
    ∃ context cmd, s.request = some (context, cmd) := by
  have asked := h.asked
  rw [settled] at asked
  obtain ⟨⟨context, cmd⟩, request⟩ := Option.isSome_iff_exists.1 asked
  exact ⟨context, cmd, request⟩

theorem polls (h : Inv P f s) (relocking : s.progress = .relocking) : s.call = .method .poll := by
  have asked := h.asked
  rw [relocking] at asked
  exact asked

end Inv

theorem step_disk (hs : s.Step P f ev s') : s'.disk = storage.after s.disk ev := by
  cases hs.shape with
  | note e _ noted => cases e <;> first | rfl | cases noted
  | stop r => cases r <;> rfl
  | load r => cases r <;> rfl
  | commit _ r => cases r <;> rfl
  | install _ r => cases r <;> rfl
  | _ => rfl

end Abs

/-- A state of the abstract lock, with its invariant. -/
structure Lock (P : Primitives) (f : FactoryIdentity) where
  abs : Abs
  inv : abs.Inv P f

/-- The abstract lock as a specification of programs over the store. -/
def lockSpec (P : Primitives) (f : FactoryIdentity) : Spec storage (Lock P f) where
  view s := s.1.disk
  step s ev s' := s.1.Step P f ev s'.1
  step_view := Abs.step_disk

end OpenLock
