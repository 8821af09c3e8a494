import OpenLock.Refinement.Clock

/-! Stopping a drive for a hazard: the stop comes first, then its record, then the
commit, and only a spent log can keep the record from being made. -/
namespace OpenLock
open Controller Effects

variable {P : Primitives} {f : FactoryIdentity} {c c' c'' : Controller} {s s' : Lock P f}
  {n m n' : DeviceSnapshot} {a a' : Abs} {e : Error} {k : Nat} {d : Active}

/-- A fresh reading shows that the running drive must be stopped. -/
structure Hazard (f : FactoryIdentity) (c : Controller) (s : Abs) (a : Active) (e : Error) :
    Prop where
  factory : Identified f c.factory c.state.firmware
  mem : s.mem = some c.state
  live : c.poisoned = false
  poisoned : s.poisoned = false
  mono : s.lastMono = c.lastMono
  owned : s.owned = some a
  active : c.active = some a
  hazard : s.hazard = some e

/-- The drive has been stopped and must now be recorded as failed. -/
structure Stopped (f : FactoryIdentity) (c : Controller) (s : Abs) (a : Active) (e : Error) :
    Prop extends Coupled f c s where
  live : c.poisoned = false
  idle : c.active = none
  failing : s.failing = some (a, e)
  listed : a.automatic = false → ∃ r ∈ c.state.operations, r.key = a.key

theorem requireStop_spec {a : Active} (h : Hazard f c s.1 a e) :
    SimE (lockSpec P f) requireStop c s fun r c' s' =>
      match r with
      | .ok () => Stopped f c' s'.1 a e ∧ c' = { c with active := none }
          ∧ s'.1.progress = s.1.progress
      | .error e => e = .actuatorFailed ∧ Died f c s.1 c' s'.1 := by
  unfold requireStop
  rw [simE_bind]
  apply simE_request
  intro x _
  have may : s.1.owned.isSome ∧ (s.1.poisoned = true ∨ s.1.hazard.isSome) := by
    simp [h.owned, h.hazard]
  refine ⟨s.1.stop x, ⟨.inr may, rfl⟩, fun inv => ?_⟩
  cases x with
  | ok =>
    refine ⟨⟨⟨⟨h.factory, h.mem, h.poisoned.trans h.live.symm, h.mono, fun _ => rfl⟩, rfl⟩, h.live,
      rfl, ?_, fun manual => s.2.owned a c.state h.owned manual h.mem⟩, rfl, rfl⟩
    simp [Abs.stop, Abs.toRecord, h.poisoned, h.owned, h.hazard]
  | error =>
    exact ⟨rfl, ⟨⟨h.factory, h.mem, rfl, h.mono, nofun⟩, h.owned.trans h.active.symm⟩, rfl, rfl,
      rfl, .inl rfl, rfl⟩

/-- A snapshot that records a stopped drive, after at most `k` events. -/
structure DriveFailed (f : FactoryIdentity) (k : Nat) (a : Active) (e : Error)
    (m n : DeviceSnapshot) : Prop where
  background : Background f (fun key => a.automatic = false ∧ a.key = key) m n
  inflight : n.automaticInflight = false
  record : a.automatic = false →
    ∃ r ∈ n.operations, r.key = a.key ∧ r.status.phase = .failed ∧ r.status.error = e.code
  cursor : n.nextCursor.toNat ≤ m.nextCursor.toNat + k
  grew : Grew m n

theorem DriveFailed.audited {a : Active} (h : DriveFailed f k a e m n) (audited : Audited f n n') :
    DriveFailed f (k + 1) a e m n' := by
  have cursor := audited.cursor
  have hc := h.cursor
  have grew := h.grew
  unfold Grew at grew
  refine ⟨h.background.trans_audited audited, audited.inflight.trans h.inflight, ?_, by omega, ?_⟩
  · rw [audited.operations]
    exact h.record
  · unfold Grew
    omega

/-- `next` differs from the controller's snapshot in the relock flags only. -/
structure FlagsOnly (m n : DeviceSnapshot) : Prop where
  auth : n.auth = m.auth
  operations : n.operations = m.operations
  log : n.log = m.log

theorem FlagsOnly.logged (h : FlagsOnly m n) : Logged k m n :=
  (Logged.refl m).congr rfl h.log

theorem FlagsOnly.cursor (h : FlagsOnly m n) : n.nextCursor = m.nextCursor := by
  have log := h.log
  simp only [DeviceSnapshot.log, Prod.mk.injEq] at log
  exact log.2.1

theorem failDrive_spec {a : Active} (h : Stopped f c s.1 a e) (flags : FlagsOnly c.state n)
    (inflight : n.automaticInflight = false) :
    SimE (lockSpec P f) (failDrive n a e) c s fun r c' s' =>
      (match r with
        | .ok n' => DriveFailed f 1 a e c.state n'
        | .error x => x = .resourceExhausted ∧ Exhausted c.state) ∧ c' = c ∧ Heard s.1 s'.1 := by
  have cursor := flags.cursor
  have exhausted : Exhausted n → Exhausted c.state := fun hx => by rwa [Exhausted, ← cursor]
  unfold failDrive
  cases automatic : a.automatic with
  | true =>
    simp only [if_true]
    refine (auditAutomatic_spec (h.hears h.live) n _ _ _).mono ?_
    rintro r c' s' ⟨post, rfl, heard⟩
    refine ⟨?_, rfl, heard⟩
    cases r with
    | error x => exact ⟨post.1, exhausted post.2⟩
    | ok n' =>
      have grew := post.cursor
      refine ⟨Background.trans_audited (.flags flags.auth flags.operations flags.logged) post,
        post.inflight.trans inflight, fun manual => (by rw [automatic] at manual; cases manual), ?_, ?_⟩
      · exact Nat.le_of_eq (by rw [grew, cursor])
      · rw [Grew, grew, cursor]
        omega
  | false =>
    simp only [Bool.false_eq_true, if_false, simE_bind, simE_orFail]
    have listed := h.listed automatic
    rw [← flags.operations] at listed
    obtain ⟨ops, hops, r, hr, hk, phase, error⟩ := setStatus_isSome .failed .none e.code listed
    rw [hops]
    simp only [okOr, andThen_ok]
    refine (audit_spec (h.hears h.live) { n with operations := ops } _ _ _ _).mono ?_
    rintro r' c' s' ⟨post, rfl, heard⟩
    refine ⟨?_, rfl, heard⟩
    cases r' with
    | error x => exact ⟨post.1, exhausted post.2⟩
    | ok n' =>
      have grew : n'.nextCursor.toNat = n.nextCursor.toNat + 1 := post.cursor
      have touched : Retouched (fun key => a.automatic = false ∧ a.key = key) c'.state.operations
          n'.operations := by
        rw [post.operations, ← flags.operations]
        exact (setStatus_retouched hops).mono fun k hk => ⟨automatic, hk.symm⟩
      refine ⟨⟨post.auth.trans flags.auth, touched, flags.logged.trans ?_⟩,
        post.inflight.trans inflight, fun _ => ?_, ?_, ?_⟩
      · exact post.logged.congr rfl rfl
      · rw [post.operations]
        exact ⟨r, hr, hk, phase, error⟩
      · exact Nat.le_of_eq (by rw [grew, cursor])
      · rw [Grew, grew, cursor]
        omega

/-- Recording a stopped drive is never refused. -/
theorem store_failed {a : Active} (h : Stopped f c s.1 a e)
    (failed : DriveFailed f k a e c.state n) :
    SimE (lockSpec P f) (commit P n) c s fun r c' s' =>
      Stored f c s.1 n s.1.progress r c' s'.1 := by
  refine store_spec h.toLinked h.live ?_ (.kept failed.background.auth) fun x => background_room x
  have change : Change P f s.1 c.state n s.1.progress s.1.owned :=
    .upkeep (.failure a e h.failing failed.background failed.inflight failed.record)
  rwa [h.owned] at change

theorem Stopped.heard (h : Stopped f c a d e) (hh : Heard a a') : Stopped f c a' d e := by
  refine ⟨h.toCoupled.heard hh, h.live, h.idle, ?_, h.listed⟩
  obtain ⟨l, p, rfl⟩ := hh
  exact h.failing

/-- A snapshot ready to be committed after servicing the hardware: housekeeping, or the
record of a drive that was stopped first. -/
def Prepared (f : FactoryIdentity) (k : Nat) (c : Controller) (s : Abs) (n : DeviceSnapshot) :
    Prop :=
  (Ready f c s ∧ Background f s.touches c.state n
      ∧ n.nextCursor.toNat ≤ c.state.nextCursor.toNat + k)
    ∨ ∃ a e, Stopped f c s a e ∧ DriveFailed f k a e c.state n

namespace Prepared
variable {k : Nat}

theorem coupled (h : Prepared f k c a n) : Coupled f c a ∧ c.poisoned = false := by
  rcases h with ⟨ready, _⟩ | ⟨_, _, stopped, _⟩
  · exact ⟨ready.toCoupled, ready.live⟩
  · exact ⟨stopped.toCoupled, stopped.live⟩

theorem cursor (h : Prepared f k c a n) : n.nextCursor.toNat ≤ c.state.nextCursor.toNat + k := by
  rcases h with ⟨_, _, cursor⟩ | ⟨_, _, _, failed⟩
  · exact cursor
  · exact failed.cursor

theorem auth (h : Prepared f k c a n) : n.auth = c.state.auth := by
  rcases h with ⟨_, bg, _⟩ | ⟨_, _, _, failed⟩
  · exact bg.auth
  · exact failed.background.auth

/-- A log too full for one more event is spent. -/
theorem spent (h : Prepared f k c a n) (small : k ≤ 1) (full : Exhausted n) : Spent c.state := by
  have cursor := h.cursor
  unfold Exhausted at full
  unfold Spent
  omega

theorem heard (h : Prepared f k c a n) (hh : Heard a a') : Prepared f k c a' n := by
  rcases h with ⟨ready, bg, cursor⟩ | ⟨d, e, stopped, failed⟩
  · exact .inl ⟨ready.heard hh, by rw [hh.touches]; exact bg, cursor⟩
  · exact .inr ⟨d, e, stopped.heard hh, failed⟩

theorem audited {n' : DeviceSnapshot} (h : Prepared f k c a n) (audited : Audited f n n') :
    Prepared f (k + 1) c a n' := by
  rcases h with ⟨ready, bg, cursor⟩ | ⟨d, e, stopped, failed⟩
  · refine .inl ⟨ready, bg.trans_audited audited, ?_⟩
    rw [audited.cursor]
    omega
  · exact .inr ⟨d, e, stopped, failed.audited audited⟩

theorem audit (h : Prepared f k c s.1 n) (small : k ≤ 1) (kind : AuditKind)
    (id : Option CredentialId) (seq : Option UInt64) (code : UInt32) :
    SimE (lockSpec P f) (audit n kind id seq code) c s fun r c' s' =>
      (match r with
        | .ok n' => Prepared f (k + 1) c s'.1 n'
        | .error e => Verdict f r c s'.1 ∧ Unfit (k + 1) c c e) ∧ c' = c ∧ Heard s.1 s'.1 := by
  refine (audit_spec (h.coupled.1.hears h.coupled.2) n kind id seq code).mono ?_
  rintro r c' s' ⟨post, rfl, heard⟩
  refine ⟨?_, rfl, heard⟩
  cases r with
  | ok n' => exact (h.heard heard).audited post
  | error e =>
    obtain ⟨rfl, full⟩ := post
    refine ⟨⟨h.coupled.1.heard heard, fun _ => .inr ⟨rfl, h.spent small full⟩⟩, .exhausted ?_⟩
    have cursor := h.cursor
    unfold Exhausted at full
    omega

theorem store (h : Prepared f k c s.1 n) :
    SimE (lockSpec P f) (commit P n) c s fun r c' s' =>
      Stored f c s.1 n s.1.progress r c' s'.1 := by
  rcases h with ⟨ready, bg, cursor⟩ | ⟨d, e, stopped, failed⟩
  · exact store_background ready.tame bg
  · exact store_failed stopped failed

/-- A snapshot equal to the controller's own records no stopped drive. -/
theorem unchanged (h : Prepared f k c a c.state) : Ready f c a := by
  rcases h with ⟨ready, _⟩ | ⟨_, _, _, failed⟩
  · exact ready
  · exact absurd failed.grew (Nat.lt_irrefl _)

end Prepared

/-- Updates of volatile fields that the abstract lock does not see. -/
structure Volatile (c c' : Controller) : Prop where
  factory : c'.factory = c.factory
  state : c'.state = c.state
  poisoned : c'.poisoned = c.poisoned
  active : c'.active = c.active
  mono : c'.lastMono = c.lastMono

theorem Linked.volatile (h : Linked f c a) (hc : Volatile c c') : Linked f c' a :=
  ⟨by rw [hc.factory, hc.state]; exact h.factory, by rw [hc.state]; exact h.mem,
    by rw [hc.poisoned]; exact h.poisoned, by rw [hc.mono]; exact h.mono,
    by rw [hc.poisoned]; exact h.safe⟩

theorem Coupled.volatile (h : Coupled f c a) (hc : Volatile c c') : Coupled f c' a :=
  ⟨h.toLinked.volatile hc, by rw [hc.active]; exact h.owned⟩

theorem Ready.volatile (h : Ready f c a) (hc : Volatile c c') : Ready f c' a :=
  ⟨h.toCoupled.volatile hc, by rw [hc.poisoned]; exact h.live, h.recorded⟩

/-- Updates of volatile fields that no specification mentions. -/
structure Cosmetic (c c' : Controller) : Prop extends Volatile c c' where
  gates : c'.gates = c.gates

theorem Cosmetic.refl (c : Controller) : Cosmetic c c := ⟨⟨rfl, rfl, rfl, rfl, rfl⟩, rfl⟩

theorem Cosmetic.trans (h : Cosmetic c c') (h' : Cosmetic c' c'') : Cosmetic c c'' :=
  ⟨⟨h'.factory.trans h.factory, h'.state.trans h.state, h'.poisoned.trans h.poisoned,
    h'.active.trans h.active, h'.mono.trans h.mono⟩, h'.gates.trans h.gates⟩

theorem Coupled.cosmetic (h : Coupled f c a) (hc : Cosmetic c c') : Coupled f c' a :=
  h.volatile hc.toVolatile

theorem Ready.cosmetic (h : Ready f c a) (hc : Cosmetic c c') : Ready f c' a :=
  h.volatile hc.toVolatile

theorem Stopped.cosmetic (h : Stopped f c a d e) (hc : Cosmetic c c') : Stopped f c' a d e :=
  ⟨h.toCoupled.cosmetic hc, by rw [hc.poisoned]; exact h.live, by rw [hc.active]; exact h.idle,
    h.failing, by rw [hc.state]; exact h.listed⟩

theorem Kept.cosmetic (hc : Cosmetic c c') (h : Kept k c' a c'' a') : Kept k c a c'' a' :=
  ⟨by rw [h.auth, hc.state], by rw [h.gates, hc.gates], by rw [← hc.state]; exact h.cursor,
    by rw [← hc.active]; exact h.active, h.progress⟩

theorem Kept.after (h : Kept k c a c' a') (hc : Cosmetic c' c'') : Kept k c a c'' a' :=
  ⟨by rw [hc.state]; exact h.auth, hc.gates.trans h.gates, by rw [hc.state]; exact h.cursor,
    by rw [hc.active]; exact h.active, h.progress⟩

/-- A step that may set a relock flag and volatile fields, and does nothing else. -/
def Flagged (n : DeviceSnapshot) (c : Controller) (s : Lock P f) (r : Except Error DeviceSnapshot)
    (c' : Controller) (s' : Lock P f) : Prop :=
  ∃ n', r = .ok n' ∧ s' = s ∧ Cosmetic c c' ∧ FlagsOnly n n'
    ∧ n'.automaticInflight = n.automaticInflight

theorem Flagged.refl : Flagged n c s (.ok n) c s := ⟨n, rfl, rfl, .refl c, ⟨rfl, rfl, rfl⟩, rfl⟩

theorem dropRelockIf_spec (p : Prop) [Decidable p] :
    SimE (lockSpec P f) (dropRelockIf p n) c s (Flagged n c s) := by
  unfold dropRelockIf
  split
  · exact ⟨_, rfl, rfl, ⟨⟨rfl, rfl, rfl, rfl, rfl⟩, rfl⟩, ⟨rfl, rfl, rfl⟩, rfl⟩
  · exact Flagged.refl

theorem scheduleRelockIf_spec (p : Prop) [Decidable p] (now : UInt64) :
    SimE (lockSpec P f) (scheduleRelockIf p n now) c s (Flagged n c s) := by
  unfold scheduleRelockIf
  split
  · unfold scheduleRelock
    split
    · exact Flagged.refl
    · split
      · exact Flagged.refl
      · exact ⟨_, rfl, rfl, ⟨⟨rfl, rfl, rfl, rfl, rfl⟩, rfl⟩, ⟨rfl, rfl, rfl⟩, rfl⟩
      · exact ⟨_, rfl, rfl, ⟨⟨rfl, rfl, rfl, rfl, rfl⟩, rfl⟩, ⟨rfl, rfl, rfl⟩, rfl⟩
  · exact Flagged.refl

theorem FlagsOnly.trans (h : FlagsOnly m n) (h' : FlagsOnly n n') : FlagsOnly m n' :=
  ⟨h'.auth.trans h.auth, h'.operations.trans h.operations, h'.log.trans h.log⟩

/-- After a reading, either nothing runs or the running drive has the hazard `e`. -/
def Sensed (f : FactoryIdentity) (c : Controller) (s : Abs) (e : Error) : Prop :=
  (c.active = none ∧ Ready f c s) ∨ ∃ a, Hazard f c s a e

theorem Sensed.cosmetic (h : Sensed f c a e) (hc : Cosmetic c c') : Sensed f c' a e := by
  rcases h with ⟨idle, ready⟩ | ⟨d, hz⟩
  · exact .inl ⟨hc.active.trans idle, ready.cosmetic hc⟩
  · exact .inr ⟨d, by rw [hc.factory, hc.state]; exact hz.factory, by rw [hc.state]; exact hz.mem,
      hc.poisoned.trans hz.live, hz.poisoned, by rw [hc.mono]; exact hz.mono, hz.owned,
      hc.active.trans hz.active, hz.hazard⟩

/-- The record of a stopped drive, prepared unless the log is spent. -/
theorem failDrive_prepared {a : Active} (h : Stopped f c s.1 a e) (flags : FlagsOnly c.state n)
    (inflight : n.automaticInflight = false) :
    SimE (lockSpec P f) (failDrive n a e) c s fun r c' s' =>
      (match r with
        | .ok n' => Prepared f 1 c s'.1 n'
        | .error x => Verdict f r c s'.1 ∧ Unfit 1 c c x) ∧ c' = c ∧ Heard s.1 s'.1 := by
  refine (failDrive_spec h flags inflight).mono ?_
  rintro r c' s' ⟨post, rfl, heard⟩
  refine ⟨?_, rfl, heard⟩
  cases r with
  | ok n' => exact .inr ⟨a, e, h.heard heard, post⟩
  | error x =>
    obtain ⟨rfl, full⟩ := post
    refine ⟨⟨h.toCoupled.heard heard, fun _ => .inr ⟨rfl, ?_⟩⟩, .exhausted full⟩
    unfold Exhausted at full
    unfold Spent
    omega

/-- Once a drive is stopped and nothing else has changed. -/
theorem Stopped.kept (h : Stopped f c' a' d e) (state : c'.state = c.state)
    (gates : c'.gates = c.gates) (progress : a'.progress = a.progress) :
    Kept 0 c a c' a' :=
  ⟨by rw [state], gates, by rw [state]; exact Nat.le_refl _, .inr h.idle, progress⟩

theorem stopFaultyDrive_spec (h : Sensed f c s.1 .sensorConflict) :
    SimE (lockSpec P f) stopFaultyDrive c s fun r c' s' =>
      (match r with
        | .ok n => Prepared f 1 c' s'.1 n
        | .error e => Verdict f r c' s'.1 ∧ Unfit 1 c c' e) ∧ Kept 0 c s.1 c' s'.1 := by
  unfold stopFaultyDrive
  simp only [simE_bind, simE_get, andThen_ok]
  rcases h with ⟨idle, ready⟩ | ⟨a, hazard⟩
  · simp only [idle]
    exact ⟨.inl ⟨ready, .flags rfl rfl (.refl _), Nat.le_succ _⟩, .refl _ _⟩
  · simp only [hazard.active]
    refine (requireStop_spec hazard).bind ?_
      fun x c' s' died => ⟨⟨died.2.verdict x, died.2.unfit (.inr (.inr died.1))⟩, died.2.kept⟩
    rintro _ c₁ s₁ ⟨stopped, rfl, progress⟩
    refine (dropRelockIf_spec _).bind ?_ (by rintro e c' s' ⟨_, ⟨⟩, _⟩)
    rintro n c₂ _ ⟨_, ⟨⟩, rfl, hc, flags, inflight⟩
    have stopped₂ := stopped.cosmetic hc
    have flags₂ : FlagsOnly c₂.state n := by
      rw [hc.state]
      exact FlagsOnly.trans (n := { c.state with automaticInflight := false }) ⟨rfl, rfl, rfl⟩ flags
    refine (failDrive_prepared stopped₂ flags₂ inflight).mono ?_
    rintro r c₃ s₃ ⟨post, rfl, heard⟩
    have kept : Kept 0 c s.1 c₃ s₃.1 :=
      (stopped₂.heard heard).kept hc.state hc.gates (heard.progress.trans progress)
    refine ⟨?_, kept⟩
    cases r with
    | ok => exact post
    | error x => exact ⟨post.1, by simpa using post.2.since kept.cursor⟩

/-- Committing what was prepared completes the service. -/
theorem Prepared.serviced {k l : Nat} {c₀ : Controller} {a₀ : Abs} (h : Prepared f k c s.1 n)
    (kept : Kept l c₀ a₀ c s.1) :
    SimE (lockSpec P f) (commit P n) c s fun r c' s' => Observed f (l + k) c₀ a₀ r c' s'.1 := by
  refine h.store.mono ?_
  intro r c' s' stored
  obtain ⟨⟨verdict, kept'⟩, why⟩ := stored.observed h.auth h.cursor
  exact ⟨⟨verdict, kept.trans kept'⟩, fun e he => (why e he).since kept.cursor⟩

end OpenLock
