import OpenLock.Refinement.Basic

/-! The controller's innermost operations refine the abstract lock. -/
namespace OpenLock
open Controller Effects

variable {P : Primitives} {f : FactoryIdentity} {c c' : Controller} {s s' : Lock P f}
  {n n' : DeviceSnapshot} {a a' : Abs} {pr : Progress} {ow : Option Active} {r : Except Error Unit}
  {k : Nat}

/-- The controller has become poisoned, or was, and kept its snapshot. -/
structure Died (f : FactoryIdentity) (c : Controller) (s : Abs) (c' : Controller) (s' : Abs) :
    Prop where
  coupled : Coupled f c' s'
  poisoned : c'.poisoned = true
  state : c'.state = c.state
  gates : c'.gates = c.gates
  active : c'.active = c.active ∨ c'.active = none
  progress : s'.progress = s.progress

theorem Died.kept (h : Died f c a c' a') : Kept 0 c a c' a' :=
  ⟨by rw [h.state], h.gates, by rw [h.state]; exact Nat.le_refl _, h.active, h.progress⟩

theorem Died.verdict {α : Type} (h : Died f c a c' a') (e : Error) :
    Verdict f (.error e : Except Error α) c' a' :=
  ⟨h.coupled, fun live => by rw [h.poisoned] at live; cases live⟩

theorem stopPoisonedAction_spec (h : Coupled f c s.1) (poisoned : c.poisoned = true) :
    SimE (lockSpec P f) stopPoisonedAction c s
      fun r c' s' => r = .ok () ∧ Died f c s.1 c' s'.1 := by
  have dead : s.1.poisoned = true := h.poisoned.trans poisoned
  unfold stopPoisonedAction
  simp only [simE_bind, simE_get, andThen_ok]
  split
  · rename_i owned
    rw [simE_bind]
    apply simE_request
    intro x _
    have may : s.1.owned.isSome ∧ (s.1.poisoned = true ∨ s.1.hazard.isSome) :=
      ⟨by rw [h.owned]; exact owned, .inl dead⟩
    refine ⟨s.1.stop x, ⟨.inr may, rfl⟩, fun inv => ?_⟩
    cases x with
    | ok =>
      exact ⟨rfl, ⟨⟨h.factory, h.mem, h.poisoned, h.mono, fun _ => rfl⟩, rfl⟩, poisoned, rfl, rfl,
        .inr rfl, rfl⟩
    | error =>
      exact ⟨rfl, ⟨⟨h.factory, h.mem, poisoned.symm, h.mono, h.safe⟩, h.owned⟩, poisoned, rfl, rfl,
        .inl rfl, rfl⟩
  · exact ⟨rfl, h, poisoned, rfl, rfl, .inl rfl, rfl⟩

theorem poison_spec (h : Coupled f { c with poisoned := true } s.1) :
    SimE (lockSpec P f) poison c s fun r c' s' => r = .ok () ∧ Died f c s.1 c' s'.1 := by
  unfold poison
  simp only [simE_bind, simE_modify, andThen_ok]
  refine (stopPoisonedAction_spec h rfl).mono ?_
  rintro r c' s' ⟨rfl, d⟩
  exact ⟨rfl, d.coupled, d.poisoned, d.state, d.gates, d.active, d.progress⟩

/-- The three ways a commit ends. -/
inductive Committed (P : Primitives) (f : FactoryIdentity) (c : Controller) (s : Abs)
    (n : DeviceSnapshot) (pr : Progress) (ow : Option Active) :
    Except Error Unit → Controller → Abs → Prop
  | stored (valid : Valid P f n) :
      Committed P f c s n pr ow (.ok ()) { c with state := n }
        ((s.submitted n pr ow).committed n pr .ok)
  | failed {c' : Controller} {s' : Abs} (died : Died f c s c' s') :
      Committed P f c s n pr ow (.error .storageUnavailable) c' s'
  | refused (e : Error) (bad : ¬ (Valid P f n ∧ FloorLe c.state.clockFloor n.clockFloor)) :
      Committed P f c s n pr ow (.error e) c (s.submitted n pr ow)

/-- The check of a snapshot does not look at the reported firmware version. -/
theorem SameFactory.validate {g : FactoryIdentity} (h : SameFactory f g) (n : DeviceSnapshot) :
    n.validate P g = n.validate P f := by
  rw [h]
  rfl

/-- The rule of `commit`: the snapshot is submitted, checked and stored, and a store that
fails poisons the controller. -/
theorem commit_rule {K : Event Answer → Prop} {m n : DeviceSnapshot}
    {Q : Except Error Unit → Controller → Lock P f → Prop} (factory : SameFactory f c.factory)
    (live : c.poisoned = false) (slive : s.1.poisoned = false) (safe : s.1.hazard = none)
    (mem : s.1.mem = some m) (floor : m.clockFloor = c.state.clockFloor)
    (change : Change P f s.1 m n pr ow)
    (stored : Valid P f n → ∀ s' : Lock P f, s'.1 = (s.1.submitted n pr ow).committed n pr .ok →
      Q (.ok ()) { c with state := n } s')
    (refused : ∀ e, ¬ (Valid P f n ∧ FloorLe m.clockFloor n.clockFloor) →
      ∀ s' : Lock P f, s'.1 = s.1.submitted n pr ow → Q (.error e) c s')
    (failed : ∀ x, x ≠ .ok → K ⟨.commit n, x⟩ →
      ∀ s' : Lock P f, s'.1 = (s.1.submitted n pr ow).committed n pr x →
      SimE (lockSpec P f) poison c s' fun r c' s'' =>
        r = .ok () ∧ Q (.error .storageUnavailable) c' s'') :
    SimE ((lockSpec P f).assuming K) (commit P n) c s Q := by
  unfold commit
  simp only [simE_bind, simE_get, andThen_ok]
  rw [simE_failIf]
  refine ⟨fun hp => (by rw [live] at hp; cases hp), fun _ => ?_⟩
  simp only [andThen_ok, simE_bind]
  apply simE_request_assuming
  intro _ _ _
  refine ⟨s.1.submitted n pr ow, ⟨slive, safe, m, pr, ow, mem, change, rfl⟩, fun inv => ?_⟩
  simp only [andThen_ok, simE_bind]
  rw [simE_failIf, ← floor]
  refine ⟨fun low => refused _ (fun ok => ?_) _ rfl, fun high => ?_⟩
  · rw [ok.2] at low
    cases low
  have hfloor : FloorLe m.clockFloor n.clockFloor := by simpa [FloorLe] using high
  simp only [andThen_ok, simE_bind, simE_orFail]
  cases hv : n.validate P c.factory with
  | error e =>
    refine refused _ (fun ok => ?_) _ rfl
    rw [factory.validate, validate_ok.2 ok.1] at hv
    cases hv
  | ok =>
    have valid : Valid P f n := validate_ok.1 (by rw [← factory.validate]; exact hv)
    simp only [andThen_ok, simE_bind]
    apply simE_request_assuming
    intro x _ given
    refine ⟨(s.1.submitted n pr ow).committed n pr x,
      .inl ⟨s.1, m, pr, ow, slive, mem, change, rfl, valid, hfloor, rfl⟩, fun inv => ?_⟩
    cases x with
    | ok => exact stored valid _ rfl
    | lost e =>
      exact (failed (.lost e) (fun h => by cases h) given ⟨_, inv⟩ rfl).assuming.bind
        (fun _ _ _ q => q.2) fun _ _ _ q => by cases q.1
    | written e =>
      exact (failed (.written e) (fun h => by cases h) given ⟨_, inv⟩ rfl).assuming.bind
        (fun _ _ _ q => q.2) fun _ _ _ q => by cases q.1

theorem commit_spec (h : Linked f c s.1) (live : c.poisoned = false)
    (change : Change P f s.1 c.state n pr ow) (owns : c.active = ow) :
    SimE (lockSpec P f) (commit P n) c s fun r c' s' => Committed P f c s.1 n pr ow r c' s'.1 := by
  refine (commit_rule h.factory.same live (h.poisoned.trans live) (h.safe live) h.mem rfl change
    ?_ ?_ ?_).unconditional
  · intro valid s' hs
    rw [hs]
    exact .stored valid
  · intro e bad s' hs
    rw [hs]
    exact .refused e bad
  · intro x hx _ s' hs
    have coupled : Coupled f { c with poisoned := true } s'.1 := by
      rw [hs]
      cases x with
      | ok => exact absurd rfl hx
      | lost | written => exact ⟨⟨h.factory, h.mem, rfl, h.mono, fun live => by cases live⟩, owns.symm⟩
    refine (poison_spec coupled).mono ?_
    rintro r c' s'' ⟨rfl, d⟩
    refine ⟨rfl, .failed ⟨d.coupled, d.poisoned, d.state, d.gates, d.active, ?_⟩⟩
    rw [d.progress, hs]
    cases x <;> first | exact absurd rfl hx | rfl

/-- The abstract lock after a successful commit. -/
def Abs.stored (s : Abs) (n : DeviceSnapshot) (pr : Progress) (ow : Option Active) : Abs :=
  (s.submitted n pr ow).committed n pr .ok

/-- A trial is not confirmed by this snapshot before its version is reported. -/
def Announced (c : Controller) (n : DeviceSnapshot) : Prop :=
  c.state.firmware.phase = .trial → n.firmware.phase = .confirmed →
    ∃ w, n.firmware.manifest = some w ∧ c.factory.info.firmware = w.version

theorem Announced.same (h : n.firmware = c.state.firmware) : Announced c n := by
  intro trial confirmed
  rw [h, trial] at confirmed
  cases confirmed

theorem Announced.congr (h : Announced c n) (firmware : n'.firmware = n.firmware) :
    Announced c n' := by
  unfold Announced
  rwa [firmware]

theorem Announced.kept (h : n.auth = c.state.auth) : Announced c n :=
  .same (congrArg AuthState.firmware h)

theorem Identified.stored (h : Identified f c.factory c.state.firmware)
    (change : Change P f a c.state n pr ow) (announced : Announced c n) :
    Identified f c.factory n.firmware := by
  refine ⟨h.same, fun confirmed => ?_⟩
  rcases change.confirmed confirmed with trial | same
  · exact announced trial confirmed
  · rw [same] at confirmed ⊢
    exact h.version confirmed

theorem Ready.stored (h : Linked f c a) (live : c.poisoned = false)
    (change : Change P f a c.state n pr ow) (announced : Announced c n) :
    Ready f { c with state := n } (a.stored n pr c.active) :=
  ⟨⟨⟨h.factory.stored change announced, rfl, h.poisoned, h.mono, h.safe⟩, rfl⟩, live, rfl⟩

/-- A refused snapshot leaves everything in place. -/
theorem Ready.submitted (h : Ready f c a) (n : DeviceSnapshot) (pr : Progress) :
    Ready f c (a.submitted n pr c.active) :=
  ⟨⟨⟨h.factory, h.mem, h.poisoned, h.mono, h.safe⟩, rfl⟩, h.live, h.recorded⟩

/-- How a commit ends that the snapshot check cannot refuse. -/
def Stored (f : FactoryIdentity) (c : Controller) (s : Abs) (n : DeviceSnapshot) (pr : Progress)
    (r : Except Error Unit) (c' : Controller) (s' : Abs) : Prop :=
  (r = .ok () ∧ c' = { c with state := n } ∧ s' = s.stored n pr c.active ∧ Ready f c' s')
    ∨ (r = .error .storageUnavailable ∧ Died f c s c' s')

/-- A change other than an overfilling acceptance is never refused. -/
theorem store_spec (h : Linked f c s.1) (live : c.poisoned = false)
    (change : Change P f s.1 c.state n pr c.active) (announced : Announced c n)
    (room : ∀ x, s.1.progress = .fresh → pr = .accepted x → ¬ Overfills f x c.state) :
    SimE (lockSpec P f) (commit P n) c s fun r c' s' => Stored f c s.1 n pr r c' s'.1 := by
  refine (commit_spec h live change rfl).mono ?_
  intro r c' s' committed
  generalize s'.1 = a at committed ⊢
  cases committed with
  | stored valid => exact .inl ⟨rfl, rfl, rfl, .stored h live change announced⟩
  | failed died => exact .inr ⟨rfl, died⟩
  | refused e bad => exact absurd (change.valid (s.2.mem _ h.mem) room) bad

theorem background_room (x : Accepted) (fresh : s.1.progress = .fresh)
    (same : s.1.progress = .accepted x) : ¬ Overfills f x n := by
  rw [fresh] at same
  cases same

/-- Housekeeping commits. -/
theorem store_background (h : Tame f c s.1) (bg : Background f s.1.touches c.state n) :
    SimE (lockSpec P f) (commit P n) c s fun r c' s' =>
      Stored f c s.1 n s.1.progress r c' s'.1 := by
  refine store_spec h.toLinked h.live ?_ (.kept bg.auth)
    fun x => background_room x
  have change : Change P f s.1 c.state n s.1.progress s.1.owned :=
    .upkeep (.background h.recorded bg)
  rwa [h.owned] at change

theorem Stored.serviced (h : Stored f c a n a.progress r c' a') (auth : n.auth = c.state.auth)
    (cursor : n.nextCursor.toNat ≤ c.state.nextCursor.toNat + k) :
    Serviced f k c a r c' a' := by
  rcases h with ⟨rfl, rfl, rfl, ready⟩ | ⟨rfl, died⟩
  · exact ⟨ready, auth, rfl, cursor, .inl rfl, rfl⟩
  · exact ⟨died.verdict _, died.kept.mono (Nat.zero_le k)⟩

theorem Died.unfit {e : Error} (h : Died f c a c' a')
    (cause : e = .storageUnavailable ∨ e = .clockUntrusted ∨ e = .actuatorFailed) :
    Unfit k c c' e := .poisoned e h.poisoned cause

theorem Stored.observed (h : Stored f c a n a.progress r c' a') (auth : n.auth = c.state.auth)
    (cursor : n.nextCursor.toNat ≤ c.state.nextCursor.toNat + k) :
    Observed f k c a r c' a' := by
  refine ⟨h.serviced auth cursor, ?_⟩
  rintro e rfl
  rcases h with ⟨⟨⟩, _⟩ | ⟨⟨⟩, died⟩
  exact died.unfit (.inl rfl)

theorem now_spec (h : Coupled f c s.1) (recorded : c.poisoned = false → s.1.failing = none) :
    SimE (lockSpec P f) now c s fun r c' s' =>
      match r with
      | .ok t => Ready f c' s'.1 ∧ c' = { c with lastMono := t } ∧ t ∈ s'.1.times
          ∧ s'.1 = { s.1 with lastMono := t, times := t :: s.1.times, pending := none }
      | .error e => (e = .storageUnavailable ∨ e = .clockUntrusted) ∧ Died f c s.1 c' s'.1 := by
  unfold now
  simp only [simE_bind, simE_get, andThen_ok]
  split
  · rename_i poisoned
    rw [simE_bind]
    refine (stopPoisonedAction_spec h poisoned).mono ?_
    rintro r c' s' ⟨rfl, d⟩
    exact ⟨.inl rfl, d⟩
  · rename_i live
    have live : c.poisoned = false := by simpa using live
    have recorded := recorded live
    have ready : Ready f c s.1 := ⟨h, live, recorded⟩
    rw [simE_bind]
    apply simE_request
    intro t _
    refine ⟨s.1.tick t, ⟨ready.quiet, rfl⟩, fun inv => ?_⟩
    simp only [andThen_ok]
    by_cases back : t < c.lastMono
    · rw [if_pos back, simE_bind]
      have ticked : s.1.tick t = { s.1 with poisoned := true, pending := none } := by
        rw [Abs.tick, if_pos (by rw [h.mono]; exact back)]
      refine (poison_spec ?_).mono ?_
      · simp only [ticked]
        exact ⟨⟨h.factory, h.mem, rfl, h.mono, fun live => by cases live⟩, h.owned⟩
      · rintro r c' s' ⟨rfl, d⟩
        refine ⟨.inr rfl, d.coupled, d.poisoned, d.state, d.gates, d.active, ?_⟩
        rw [d.progress]
        simp only [ticked]
    · rw [if_neg back]
      have ticked : s.1.tick t =
          { s.1 with lastMono := t, times := t :: s.1.times, pending := none } := by
        rw [Abs.tick, if_neg (by rw [h.mono]; exact back)]
      simp only [simE_bind, simE_modify, andThen_ok, simE_pure]
      simp only [ticked]
      exact ⟨⟨⟨⟨h.factory, h.mem, h.poisoned, rfl, h.safe⟩, h.owned⟩, live, recorded⟩, trivial,
        List.mem_cons_self, trivial⟩

section Log
variable {g : AuditEvent → AuditEvent}

/-- The wall clock may be read: nothing needs to be stopped first. -/
structure Hears (f : FactoryIdentity) (c : Controller) (s : Abs) : Prop where
  factory : SameFactory f c.factory
  live : s.poisoned = false
  safe : s.hazard = none

theorem Linked.hears (h : Linked f c a) (live : c.poisoned = false) : Hears f c a :=
  ⟨h.factory.same, h.poisoned.trans live, h.safe live⟩

theorem Hears.heard (h : Hears f c a) (hh : Heard a a') : Hears f c a' := by
  obtain ⟨l, p, rfl⟩ := hh
  exact ⟨h.factory, h.live, h.safe⟩

theorem Hears.logCapacity (h : Hears f c a) : c.factory.info.logCapacity = f.info.logCapacity := by
  rw [h.factory]

/-- One more event, numbered by the cursor, and perhaps a later watermark. -/
def Audited (f : FactoryIdentity) (n n' : DeviceSnapshot) : Prop :=
  ∃ e floor, e.cursor = n.nextCursor ∧ n.nextCursor.toNat + 1 < 2^64
    ∧ FloorLe n.clockFloor floor
    ∧ n' = { n with
        clockFloor := floor
        nextCursor := n.nextCursor + 1
        events := pushBounded f.info.logCapacity.toNat n.events e }

namespace Audited
variable {n n' : DeviceSnapshot}

theorem auth (h : Audited f n n') : n'.auth = n.auth := by
  obtain ⟨e, floor, _, _, _, rfl⟩ := h
  rfl

theorem operations (h : Audited f n n') : n'.operations = n.operations := by
  obtain ⟨e, floor, _, _, _, rfl⟩ := h
  rfl

theorem inflight (h : Audited f n n') : n'.automaticInflight = n.automaticInflight := by
  obtain ⟨e, floor, _, _, _, rfl⟩ := h
  rfl

theorem cursor (h : Audited f n n') : n'.nextCursor.toNat = n.nextCursor.toNat + 1 := by
  obtain ⟨e, floor, _, room, _, rfl⟩ := h
  have one : (1 : UInt64).toNat = 1 := rfl
  rw [UInt64.toNat_add, one, Nat.mod_eq_of_lt room]

theorem logged (h : Audited f n n') : Logged f.info.logCapacity.toNat n n' := by
  obtain ⟨e, floor, numbered, room, hfloor, rfl⟩ := h
  exact ⟨.push .refl e numbered room, hfloor, id⟩

end Audited

theorem modifyLast_pushBounded (k : Nat) (es : List AuditEvent) (e : AuditEvent) :
    modifyLast g (pushBounded k es e) = pushBounded k es (g e) := by
  have last : ∀ xs : List AuditEvent, modifyLast g (xs ++ [e]) = xs ++ [g e] := by
    intro xs
    induction xs with
    | nil => rfl
    | cons x xs ih =>
      cases xs with
      | nil => rfl
      | cons y ys => exact congrArg (x :: ·) ih
  unfold pushBounded
  simp only [List.length_append, List.length_singleton]
  split
  · cases es with
    | nil => rfl
    | cons x xs => simpa using last xs
  · exact last es

/-- Describing the event just appended keeps its number. -/
theorem Audited.describe (h : Audited f n n') (hg : ∀ e, (g e).cursor = e.cursor) :
    Audited f n { n' with events := modifyLast g n'.events } := by
  obtain ⟨e, floor, numbered, room, hfloor, rfl⟩ := h
  refine ⟨g e, floor, (hg e).trans numbered, room, hfloor, ?_⟩
  simp only [modifyLast_pushBounded]

theorem wall_spec (h : Hears f c s.1) :
    SimE (lockSpec P f) wall c s fun r c' s' => (∃ o, r = .ok o) ∧ c' = c ∧ Heard s.1 s'.1 := by
  unfold wall
  simp only [simE_bind, simE_get, andThen_ok]
  split
  · rw [simE_bind]
    apply simE_request
    intro x _
    exact ⟨s.1.hear x, ⟨h.live, h.safe, rfl⟩,
      fun _ => ⟨⟨_, rfl⟩, rfl, .hear _ x⟩⟩
  · exact ⟨⟨_, rfl⟩, rfl, .refl _⟩

theorem le_max_raised (a b : UInt64) : a ≤ max a b := by
  change a ≤ if a ≤ b then b else a
  split
  · assumption
  · exact UInt64.le_refl a

theorem recordWall_spec (h : Hears f c s.1) (n : DeviceSnapshot) :
    SimE (lockSpec P f) (recordWall n) c s fun r c' s' =>
      (∃ floor, r = .ok { n with clockFloor := floor } ∧ FloorLe n.clockFloor floor) ∧ c' = c
        ∧ Heard s.1 s'.1 := by
  unfold recordWall
  refine (wall_spec h).bind ?_ (by rintro e c' s' ⟨⟨_, ⟨⟩⟩, _⟩)
  rintro o c' s' ⟨_, rfl, heard⟩
  cases o with
  | none => exact ⟨⟨n.clockFloor, rfl, .refl _⟩, rfl, heard⟩
  | some now =>
    refine ⟨⟨_, rfl, ?_⟩, rfl, heard⟩
    cases n.clockFloor with
    | none => exact .none _
    | some floor => exact floorLe_some.2 (le_max_raised _ _)

theorem audit_spec (h : Hears f c s.1) (n : DeviceSnapshot)
    (kind : AuditKind) (id : Option CredentialId) (seq : Option UInt64) (code : UInt32) :
    SimE (lockSpec P f) (audit n kind id seq code) c s fun r c' s' =>
      (match r with
        | .ok n' => Audited f n n'
        | .error e => e = .resourceExhausted ∧ Exhausted n) ∧ c' = c ∧ Heard s.1 s'.1 := by
  unfold audit
  refine (recordWall_spec h n).bind ?_ (by rintro e c' s' ⟨⟨_, ⟨⟩, _⟩, _⟩)
  rintro _ c' s' ⟨⟨floor, ⟨⟩, hfloor⟩, rfl, heard⟩
  simp only [simE_bind, simE_orFail]
  by_cases room : n.nextCursor.toNat + 1 < 2^64
  · rw [checkedAdd_isSome (b := 1) room]
    simp only [okOr, andThen_ok, simE_bind]
    refine (wall_spec (h.heard heard)).mono ?_
    rintro r c' s'' ⟨⟨o, rfl⟩, rfl, heard'⟩
    simp only [andThen_ok, simE_bind, simE_get, simE_pure]
    rw [h.logCapacity]
    refine ⟨⟨_, floor, ?_, room, hfloor, rfl⟩, trivial, heard.trans heard'⟩
    rfl
  · have none : checkedAdd n.nextCursor 1 = .none := if_neg room
    rw [none]
    exact ⟨⟨rfl, Nat.not_lt.1 room⟩, rfl, heard⟩

theorem auditAutomatic_spec (h : Hears f c s.1) (n : DeviceSnapshot)
    (phase : OperationPhase) (evidence : CompletionEvidence) (error : UInt32) :
    SimE (lockSpec P f) (auditAutomatic n phase evidence error) c s fun r c' s' =>
      (match r with
        | .ok n' => Audited f n n'
        | .error e => e = .resourceExhausted ∧ Exhausted n) ∧ c' = c ∧ Heard s.1 s'.1 := by
  unfold auditAutomatic
  refine (audit_spec h n _ _ _ _).bind ?_ ?_
  · rintro n' c' s' ⟨audited, rfl, heard⟩
    exact ⟨audited.describe fun _ => rfl, rfl, heard⟩
  · rintro e c' s' post
    exact post

end Log
end OpenLock
