import OpenLock.Refinement.Lifecycle

/-! The constructors refine the abstract lock: they stop the actuator, load the store or
install the first snapshot, and recover what the last controller left unfinished. A restart
fails for a reason only, and reports the version that the store implies. -/
namespace OpenLock
open Controller Effects

variable {P : Primitives} {f : FactoryIdentity} {c c' : Controller} {s s' : Lock P f}
  {m n : DeviceSnapshot} {K : Event Answer → Prop} {sample : HardwareSample}
  {disk : Option DeviceSnapshot} {a : Abs} {w : FirmwareStatus} {e : Error}

section Rules
variable {α : Type}

section Checks
variable {S W : Type} {world : World Answer W} {spec : Spec world S} {l : S}
  {Q : Except Error α → S → Prop}

/-- A check of a constructor. -/
theorem simI_check {β : Type} {x : Except Error β} {g : β → Init α}
    (ok : ∀ b, x = .ok b → SimI spec (g b) l Q) (error : ∀ e, x = .error e → Q (.error e) l) :
    SimI spec (Init.orFail x >>= g) l Q := by
  cases x with
  | ok b => exact ok b rfl
  | error e => exact error e rfl

theorem simI_guard {p : Prop} [Decidable p] {g : Unit → Init α} (ok : ¬ p → SimI spec (g ()) l Q)
    (error : Q (.error e) l) :
    SimI spec ((failIf p e : Init Unit) >>= g) l Q := by
  unfold failIf
  split
  · exact error
  · rename_i h
    exact ok h

theorem simI_onController {x : Ctl Unit} {Q : Except Error Controller → S → Prop}
    (h : SimE spec x c l fun r c' l' => Q (r.map fun _ => c') l') :
    SimI spec (Init.onController x c) l Q := by
  change Sim spec ((x.run c).bind _) l _
  rw [sim_bind]
  refine Sim.mono h ?_
  rintro ⟨r, c'⟩ l' post
  cases r with
  | ok => exact post
  | error e => exact post

end Checks

variable {Q : Except Error α → Lock P f → Prop}

/-- A constructor issues a request and goes on with the answer. -/
theorem simI_request {e : Effect} {g : Answer e → Init α}
    (h : ∀ x, storage.permits s.1.disk ⟨e, x⟩ → K ⟨e, x⟩ → ∃ t, s.1.Step P f ⟨e, x⟩ t ∧
      ∀ s' : Lock P f, s'.1 = t → SimI ((lockSpec P f).assuming K) (g x) s' Q) :
    SimI ((lockSpec P f).assuming K) (Init.request e >>= g) s Q := by
  intro x hx
  obtain ⟨t, step, hQ⟩ := h x hx.1 hx.2
  exact ⟨⟨t, s.2.step step⟩, step, hQ _ rfl⟩

end Rules

/-- A constructor that has stopped the actuator. -/
structure Starting (s : Abs) : Prop where
  constructs : s.call.constructs = true
  quiet : s.Quiet
  fresh : s.progress = .fresh
  idle : s.owned = none
  mono : s.lastMono = 0

/-- A controller just built over the snapshot `m`, whose interrupted work it will report. -/
structure Recovering (f : FactoryIdentity) (m : DeviceSnapshot) (sample : HardwareSample)
    (c : Controller) (s : Abs) : Prop where
  factory : SameFactory f c.factory
  state : c.state = recoveredSnapshot m sample
  live : c.poisoned = false
  idle : c.active = none
  mem : s.mem = some m
  constructs : s.call.constructs = true
  quiet : s.Quiet
  owned : s.owned = none
  mono : s.lastMono = c.lastMono

theorem Recovering.heard {a a' : Abs} (h : Recovering f m sample c a) (hh : Heard a a') :
    Recovering f m sample c a' := by
  obtain ⟨l, p, rfl⟩ := hh
  exact ⟨h.factory, h.state, h.live, h.idle, h.mem, h.constructs,
    ⟨h.quiet.live, h.quiet.safe, h.quiet.recorded⟩, h.owned, h.mono⟩

theorem interrupt_retouched (ops : List OperationRecord) :
    Retouched (fun _ => True) ops (ops.map interruptOperation) := by
  refine List.forall₂_map_right_iff.2 (List.forall₂_same.2 fun r _ => ?_)
  unfold interruptOperation
  split <;> exact ⟨rfl, rfl, rfl, fun h => absurd trivial h⟩

/-- What recovery persists, before its audit entry. -/
theorem recoveredSnapshot_background (sample : HardwareSample) :
    Background f (fun _ => True) m (recoveredSnapshot m sample) :=
  ⟨rfl, interrupt_retouched m.operations, ⟨.refl, .refl _, id⟩⟩

/-- An interrupted automatic drive cannot be recorded any more. -/
def Stuck (m : DeviceSnapshot) : Prop := m.automaticInflight = true ∧ Exhausted m

theorem auditInterrupted_spec (h : Recovering f m sample c s.1) :
    SimE (lockSpec P f) (auditInterrupted m.automaticInflight c.state) c s fun r c' s' =>
      match r with
      | .ok n => Background f (fun _ => True) m n ∧ Recovering f m sample c' s'.1
          ∧ c'.factory = c.factory ∧ ¬ Stuck m
      | .error _ => Stuck m := by
  have base := recoveredSnapshot_background (f := f) (m := m) sample
  rw [← h.state] at base
  have cursor : c.state.nextCursor = m.nextCursor := by
    rw [h.state]
    rfl
  unfold auditInterrupted
  split
  · rename_i interrupted
    simp only [simE_bind, simE_modify, andThen_ok]
    have hears : Hears f { c with fault := .driver } s.1 := ⟨h.factory, h.quiet.live, h.quiet.safe⟩
    refine (auditAutomatic_spec hears _ _ _ _).mono ?_
    rintro r c' s' ⟨post, rfl, heard⟩
    cases r with
    | error e =>
      refine ⟨interrupted, ?_⟩
      rw [Exhausted, ← cursor]
      exact post.2
    | ok n =>
      refine ⟨base.trans_audited post, Recovering.heard ?_ heard, rfl, fun stuck => ?_⟩
      · exact ⟨h.factory, h.state, h.live, h.idle, h.mem, h.constructs, h.quiet, h.owned, h.mono⟩
      · obtain ⟨_, _, _, room, _⟩ := post
        rw [cursor] at room
        exact Nat.not_lt.2 stuck.2 room
  · rename_i uninterrupted
    exact ⟨base, h, rfl, fun stuck => uninterrupted stuck.1⟩

/-- A recovered controller, ready once it reports the version of its image. -/
structure Restored (f : FactoryIdentity) (c : Controller) (a : Abs) : Prop where
  factory : SameFactory f c.factory
  ready : ∀ g, Identified f g c.state.firmware → Ready f { c with factory := g } a

/-- An answer of a platform in working order. -/
def Works (f : FactoryIdentity) : Event Answer → Prop
  | ⟨.stopAction, r⟩ => r = .ok ()
  | ⟨.load, r⟩ => ∃ stored, r = .ok stored
  | ⟨.bootloader, present⟩ => present = true
  | ⟨.sensors, sample⟩ => sampleValid f.info sample = true
  | ⟨.commit _, r⟩ => r = .ok
  | _ => True

/-- The commit of recovery fails with the store alone, and then leaves no controller. -/
theorem recover_store (h : Recovering f m sample c s.1) (bg : Background f (fun _ => True) m n) :
    SimE ((lockSpec P f).assuming K) (commit P n) c s fun r c' s' =>
      match r with
      | .ok _ => Restored f c' s'.1 ∧ s'.1.call.constructs = true ∧ c' = { c with state := n }
      | .error _ => ∃ ev, K ev ∧ ¬ Works f ev := by
  have change : Change P f s.1 m n s.1.progress s.1.owned :=
    .upkeep (.recover h.quiet.recorded h.constructs bg)
  have floor : m.clockFloor = c.state.clockFloor := by rw [h.state]; rfl
  refine commit_rule h.factory h.live h.quiet.live h.quiet.safe h.mem floor change ?_ ?_ ?_
  · intro _ s' hs
    rw [hs]
    refine ⟨⟨h.factory, fun g identified => ?_⟩, h.constructs, rfl⟩
    refine ⟨⟨⟨identified, rfl, h.quiet.live.trans h.live.symm, h.mono, fun _ => h.quiet.safe⟩, ?_⟩,
      h.live, rfl⟩
    exact h.owned.trans h.idle.symm
  · intro e bad
    exact absurd (change.valid (s.2.mem _ h.mem) fun x => background_room x) bad
  · intro x failed given s' _
    unfold poison
    simp only [simE_bind, simE_modify, andThen_ok]
    unfold stopPoisonedAction
    simp only [simE_bind, simE_get, andThen_ok, h.idle, Option.isSome_none, Bool.false_eq_true,
      if_false, simE_pure]
    exact ⟨trivial, _, given, failed⟩

/-- The version that a restart reports: that of a confirmed image, or else the built-in one. -/
def bootVersion (f : FactoryIdentity) (w : FirmwareStatus) : String :=
  if w.phase = .confirmed then (w.manifest.map (·.version)).getD f.info.firmware
  else f.info.firmware

theorem bootVersion_confirmed {y : FirmwareManifest} (confirmed : w.phase = .confirmed)
    (known : w.manifest = some y) :
    bootVersion f w = y.version := by
  rw [bootVersion, if_pos confirmed, known]
  rfl

theorem bootVersion_unconfirmed (h : w.phase ≠ .confirmed) : bootVersion f w = f.info.firmware :=
  if_neg h

theorem reportConfirmed_spec (h : Restored f c s.1) :
    SimE (lockSpec P f) (reportConfirmed c.state.firmware) c s fun r c' s' =>
      match r with
      | .ok _ => Ready f c' s'.1 ∧ s' = s ∧ c'.state = c.state
          ∧ c'.factory.info.firmware = bootVersion c.factory c.state.firmware
      | .error _ => c.state.firmware.phase = .confirmed ∧ c.state.firmware.manifest = none := by
  unfold reportConfirmed
  split
  · rename_i confirmed
    rw [simE_bind, simE_orFail]
    cases known : c.state.firmware.manifest with
    | none => exact ⟨confirmed, rfl⟩
    | some y =>
      refine ⟨h.ready _ ⟨h.factory.report y.version, fun _ => ⟨y, known, rfl⟩⟩, rfl, rfl, ?_⟩
      exact (bootVersion_confirmed confirmed known).symm
  · rename_i unconfirmed
    refine ⟨h.ready c.factory ⟨h.factory, fun confirmed => absurd confirmed unconfirmed⟩, rfl, rfl, ?_⟩
    exact (bootVersion_unconfirmed unconfirmed).symm

theorem reconcileBoot_settled (settled : c.state.firmware.phase ≠ .trial)
    {Q : Except Error Unit → Controller → Lock P f → Prop} (h : Q (.ok ()) c s) :
    SimE (lockSpec P f) (reconcileBoot P) c s Q := by
  unfold reconcileBoot
  simp only [simE_bind, simE_get, andThen_ok]
  rw [if_pos settled]
  exact h

/-- How a restart from the snapshot `m` ends, once no image is on trial: with the version
that `m` implies, or for a reason. -/
def Restarted (f : FactoryIdentity) (K : Event Answer → Prop) (m : DeviceSnapshot) :
    Except Error String → Prop
  | .ok version => version = bootVersion f m.firmware ∧ ¬ Stuck m
  | .error _ => (∃ ev, K ev ∧ ¬ Works f ev) ∨ Stuck m

theorem recover_spec (h : Recovering f m sample c s.1) (built : c.factory = f)
    (sensed : K ⟨.sensors, sample⟩) :
    SimE ((lockSpec P f).assuming K) (recover P sample m.automaticInflight) c s fun r c' s' =>
      (r = .ok () → Ready f c' s'.1) ∧ (m.firmware.phase ≠ .trial →
        Restarted f K m (r.map fun _ => c'.factory.info.firmware)) := by
  have failed : ∀ e c' (s' : Lock P f), (∃ ev, K ev ∧ ¬ Works f ev) ∨ Stuck m →
      (Except.error e = .ok () → Ready f c' s'.1) ∧ (m.firmware.phase ≠ .trial →
        Restarted f K m ((Except.error e : Except Error Unit).map
          fun _ => c'.factory.info.firmware)) :=
    fun e c' s' reason => ⟨fun ok => (by cases ok), fun _ => reason⟩
  unfold recover
  simp only [simE_bind, simE_get, andThen_ok, simE_orFail]
  cases checked : validateSample c sample with
  | error e =>
    refine failed e c s (.inl ⟨_, sensed, fun valid => ?_⟩)
    have passes : validateSample c sample = .ok () := by
      rw [validateSample, built]
      exact failIf_eq_ok.2 (not_not.2 valid)
    cases passes.symm.trans checked
  | ok =>
    simp only [andThen_ok, simE_bind, simE_get]
    rw [← simE_bind]
    refine (auditInterrupted_spec h).assuming.bind ?_ fun e c' s' stuck => failed e c' s' (.inr stuck)
    rintro n c₁ s₁ ⟨bg, recovering, factory, unstuck⟩
    refine (recover_store recovering bg).bind ?_ fun e c' s' broken => failed e c' s' (.inl broken)
    rintro _ c₂ s₂ ⟨restored, constructs, rfl⟩
    have firmware : n.firmware = m.firmware := congrArg AuthState.firmware bg.auth
    simp only [simE_bind, simE_get, andThen_ok]
    rw [← simE_bind]
    refine (reportConfirmed_spec restored).assuming.bind ?_ ?_
    · rintro _ c₃ s₃ ⟨ready, rfl, state, reported⟩
      by_cases trial : m.firmware.phase = .trial
      · refine ((reconcileBoot_spec ready (.inr constructs)).mono ?_).assuming
        rintro r c₄ s₄ ⟨verdict, _⟩
        refine ⟨?_, fun settled => absurd trial settled⟩
        rintro rfl
        exact verdict
      · refine (reconcileBoot_settled ?_ ⟨fun _ => ready, fun _ => ⟨?_, unstuck⟩⟩).assuming
        · rw [state]
          exact firmware ▸ trial
        · rw [reported]
          change bootVersion c₁.factory n.firmware = _
          rw [factory, built, firmware]
    · rintro e c₃ s₃ ⟨confirmed, unknown⟩
      change n.firmware.phase = .confirmed at confirmed
      change n.firmware.manifest = none at unknown
      rw [firmware] at confirmed unknown
      have valid : FirmwareValid P f m.firmware m.signedManifest :=
        (s.2.mem _ h.mem).valid.auth.firmware
      rw [FirmwareValid, if_neg (by rw [confirmed]; simp)] at valid
      obtain ⟨y, stored⟩ := valid
      cases unknown.symm.trans stored.manifest

theorem requireBootloader_spec (h : s.1.Quiet) :
    SimI ((lockSpec P f).assuming K) (requireBootloader f) s fun r s' => Noted s.1 s'.1
      ∧ (r = .ok () ∨ ∃ ev, K ev ∧ ¬ Works f ev) := by
  unfold requireBootloader
  split
  · refine simI_request fun x _ given => ⟨s.1.note ⟨.bootloader, x⟩, ⟨h, rfl⟩, fun s' hs => ?_⟩
    have noted : Noted s.1 s'.1 := hs ▸ .note _ _
    unfold failIf
    split
    · rename_i absent
      exact ⟨noted, .inr ⟨_, given, absent⟩⟩
    · exact ⟨noted, .inl rfl⟩
  · exact ⟨.refl _, .inl rfl⟩

/-- A constructor's postcondition: the controller it returns is ready. -/
def Built (f : FactoryIdentity) (r : Except Error Controller) (s' : Abs) : Prop :=
  ∀ c, r = .ok c → Ready f c s'

theorem Built.failed (e : Error) : Built f (.error e) a := fun _ h => by cases h

/-- A restart's postcondition, for the snapshot it finds in the store. -/
def Reopened (f : FactoryIdentity) (K : Event Answer → Prop) (disk : Option DeviceSnapshot)
    (r : Except Error Controller) (s' : Abs) : Prop :=
  Built f r s' ∧ ∀ m, disk = some m → m.firmware.phase ≠ .trial →
    Restarted f K m (r.map (·.factory.info.firmware))

theorem Reopened.failed (h : ∀ m, disk = some m → ∃ ev, K ev ∧ ¬ Works f ev) :
    Reopened f K disk (.error e) a :=
  ⟨.failed e, fun m found _ => .inl (h m found)⟩

theorem openStopped_spec (h : Starting s.1) :
    SimI ((lockSpec P f).assuming K) (openStopped P f) s fun r s' =>
      Reopened f K s.1.disk r s'.1 := by
  unfold openStopped
  refine simI_check (fun _ _ => ?_) fun e bad => .failed fun m found => ?_
  swap
  · cases (s.2.disk m found).info.symm.trans bad
  refine simI_request fun answer permitted given => ⟨s.1.loaded answer,
    ⟨h.quiet, h.constructs, h.idle, h.fresh, ?_, rfl⟩, fun s₁ hs₁ => ?_⟩
  · rintro d rfl
    exact permitted
  refine simI_check ?_ fun e bad => .failed fun m found => ⟨_, given, ?_⟩
  swap
  · rintro ⟨stored, rfl⟩
    cases bad
  rintro stored rfl
  have same : stored = s.1.disk := permitted
  refine simI_check (fun m hm => ?_) fun e bad => .failed fun m found => ?_
  swap
  · rw [same, found] at bad
    cases bad
  rw [okOr_eq_ok] at hm
  subst hm
  refine simI_check (fun _ _ => ?_) fun e bad => .failed fun _ _ => ?_
  swap
  · rw [validate_ok.2 (s.2.disk m same.symm).valid] at bad
    cases bad
  have quiet₁ : s₁.1.Quiet := by rw [hs₁]; exact ⟨h.quiet.live, h.quiet.safe, h.quiet.recorded⟩
  refine (requireBootloader_spec quiet₁).bind ?_ ?_
  swap
  · rintro e s' ⟨_, ⟨⟨⟩⟩ | broken⟩
    exact .failed fun _ _ => broken
  rintro _ s₂ ⟨⟨l, k, p, hs₂⟩, _⟩
  have quiet₂ : s₂.1.Quiet := by rw [hs₂]; exact ⟨quiet₁.live, quiet₁.safe, quiet₁.recorded⟩
  refine simI_request fun sample _ sensed =>
    ⟨s₂.1.sense f.info sample, ⟨quiet₂, rfl⟩, fun s₃ hs₃ => ?_⟩
  have idle : s₂.1.owned = none := by rw [hs₂, hs₁]; exact h.idle
  have quiet₃ : s₃.1.Quiet := by
    rw [hs₃]
    exact ⟨quiet₂.live, by rw [Abs.sense, idle]; rfl, quiet₂.recorded⟩
  refine simI_request fun t _ _ => ⟨s₃.1.tick t, ⟨quiet₃, rfl⟩, fun s₄ hs₄ => ?_⟩
  have start : s₃.1.lastMono = 0 := by rw [hs₃, hs₂, hs₁]; exact h.mono
  have ticked : s₄.1 = { s₃.1 with lastMono := t, times := t :: s₃.1.times, pending := none } := by
    rw [hs₄, Abs.tick, if_neg]
    rw [start]
    exact UInt64.not_lt_zero
  refine simI_onController ?_
  have recovering : Recovering f m sample (bootController f (recoveredSnapshot m sample) sample t)
      s₄.1 := by
    rw [ticked]
    refine ⟨.refl f, rfl, rfl, rfl, ?_, ?_, ⟨quiet₃.live, quiet₃.safe, quiet₃.recorded⟩, ?_, rfl⟩
    · simp only [hs₃, Abs.sense, hs₂, hs₁, Abs.loaded]
    · simp only [hs₃, Abs.sense, hs₂, hs₁, Abs.loaded]
      exact h.constructs
    · simp only [hs₃, Abs.sense]
      exact idle
  refine (recover_spec recovering rfl sensed).mono ?_
  rintro r c' s' ⟨ready, restarted⟩
  rw [← same]
  cases r with
  | error e =>
    refine ⟨.failed e, ?_⟩
    rintro _ ⟨⟩ settled
    exact restarted settled
  | ok =>
    refine ⟨?_, ?_⟩
    · rintro _ ⟨⟩
      exact ready rfl
    · rintro _ ⟨⟩ settled
      exact restarted settled

/-- A constructor that begins: nothing is known of the actuator yet. -/
structure Entering (s : Abs) : Prop where
  constructs : s.call.constructs = true
  quiet : s.Quiet
  fresh : s.progress = .fresh
  mem : s.mem = none
  mono : s.lastMono = 0

theorem Entering.stopped (h : Entering a) :
    Starting (a.stop (.ok ())) ∧ (a.stop (.ok ())).mem = none := by
  refine ⟨⟨h.constructs, ⟨h.quiet.live, rfl, ?_⟩, h.fresh, rfl, h.mono⟩, h.mem⟩
  simp [Abs.stop, Abs.toRecord, h.quiet.live, h.quiet.safe]

theorem open_spec (h : Entering s.1) :
    SimI ((lockSpec P f).assuming K) (Controller.open P f) s fun r s' =>
      Reopened f K s.1.disk r s'.1 := by
  unfold Controller.open
  refine simI_request fun answer _ given => ⟨s.1.stop answer, ⟨.inl ⟨h.constructs, h.mem⟩, rfl⟩,
    fun s₁ hs₁ => ?_⟩
  refine simI_check ?_ fun e bad => .failed fun m found => ⟨_, given, ?_⟩
  swap
  · rintro rfl
    cases bad
  rintro _ rfl
  have disk : s₁.1.disk = s.1.disk := by
    rw [hs₁]
    rfl
  rw [← disk]
  exact openStopped_spec (hs₁ ▸ h.stopped.1)

/-- An installation's postcondition: a controller is only built where nothing was stored. -/
def Installed (f : FactoryIdentity) (disk : Option DeviceSnapshot) (r : Except Error Controller)
    (s' : Abs) : Prop :=
  Built f r s' ∧ ∀ c, r = .ok c → disk = none

theorem Installed.failed (e : Error) : Installed f disk (.error e) a :=
  ⟨Built.failed e, fun _ h => by cases h⟩

theorem install_spec (h : Entering s.1) (installs : s.1.call.installs f = some n) :
    SimI ((lockSpec P f).assuming K) (install P f n) s fun r s' =>
      Installed f s.1.disk r s'.1 := by
  unfold install
  refine simI_request fun answer _ _ => ⟨s.1.stop answer, ⟨.inl ⟨h.constructs, h.mem⟩, rfl⟩,
    fun s₁ hs₁ => ?_⟩
  refine simI_check ?_ fun e _ => .failed e
  rintro _ rfl
  have starting : Starting s₁.1 := hs₁ ▸ h.stopped.1
  refine simI_check (fun _ info => ?_) fun e _ => .failed e
  refine simI_request fun answer permitted _ => ⟨s₁.1.loaded answer,
    ⟨starting.quiet, starting.constructs, starting.idle, starting.fresh, ?_, rfl⟩,
    fun s₂ hs₂ => ?_⟩
  · rintro d rfl
    exact permitted
  refine simI_check ?_ fun e _ => .failed e
  rintro stored rfl
  refine simI_guard (fun absent => ?_) (.failed _)
  rw [Option.not_isSome_iff_eq_none] at absent
  subst absent
  refine simI_check (fun _ valid => ?_) fun e _ => .failed e
  have blank : s₁.1.disk = none := permitted.symm
  have quiet₂ : s₂.1.Quiet := by
    rw [hs₂]
    exact ⟨starting.quiet.live, starting.quiet.safe, starting.quiet.recorded⟩
  have stores : SimI ((lockSpec P f).assuming K) (Init.store n) s₂ fun r s' =>
      r = .ok () → s'.1 = s₂.1.installed n .ok := by
    unfold Init.store
    refine simI_request fun answer _ _ => ⟨s₂.1.installed n answer, .inr ⟨quiet₂, ?_, ?_, ?_, ?_, info,
      validate_ok.1 valid, rfl⟩, fun s₃ hs₃ => ?_⟩
    · rw [hs₂]; exact starting.idle
    · rw [hs₂]; rfl
    · rw [hs₂]; exact blank
    · rw [hs₂, hs₁]; exact installs
    · cases answer with
      | ok => exact fun _ => hs₃
      | lost | written => exact fun ok => by cases ok
  refine stores.bind (fun _ s₃ post => ?_) fun e s' _ => .failed e
  have absent : s.1.disk = none := by
    rw [← blank, hs₁]
    rfl
  refine (openStopped_spec ?_).mono fun _ _ reopened => ⟨reopened.1, fun _ _ => absent⟩
  rw [post rfl, hs₂]
  exact ⟨starting.constructs, ⟨starting.quiet.live, starting.quiet.safe, starting.quiet.recorded⟩,
    starting.fresh, starting.idle, starting.mono⟩

/-- Every constructor ends with a ready controller or none, and one that installs a
snapshot only where nothing was stored. -/
theorem construct_spec {k : Constructor} (h : Entering s.1) (call : s.1.call = .construct k) :
    SimI (lockSpec P f) (k.program P f) s fun r s' => Built f r s'.1
      ∧ ∀ n c, Call.installs f (.construct k) = some n → r = .ok c → s.1.disk = none := by
  have installed : ∀ n, s.1.call.installs f = some n →
      SimI (lockSpec P f) (install P f n) s fun r s' => Built f r s'.1
        ∧ ∀ n c, Call.installs f (.construct k) = some n → r = .ok c → s.1.disk = none := by
    intro n installs
    refine (install_spec h installs).unconditional.mono ?_
    rintro r s' ⟨built, absent⟩
    exact ⟨built, fun _ c _ => absent c⟩
  cases k with
  | provision => exact installed _ (by rw [call]; rfl)
  | migrateLegacy legacy issuer firstAdmin => exact installed _ (by rw [call]; rfl)
  | «open» =>
    refine (open_spec h).unconditional.mono ?_
    rintro r s' ⟨built, _⟩
    exact ⟨built, fun _ _ h => by cases h⟩

end OpenLock
