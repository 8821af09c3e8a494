import OpenLock.Refinement.Core

/-! Clock service refines the abstract lock: every clock commit is housekeeping. -/
namespace OpenLock
open Controller Effects

variable {P : Primitives} {f : FactoryIdentity} {c c' : Controller} {s s' : Lock P f}
  {n : DeviceSnapshot} {K : OpKey → Prop}

/-- Changing only the clock and relock fields is housekeeping. -/
theorem Background.flags {m : DeviceSnapshot} (auth : n.auth = m.auth)
    (operations : n.operations = m.operations) (logged : Logged f.info.logCapacity.toNat m n) :
    Background f K m n :=
  ⟨auth, by rw [operations]; exact .refl _ _, logged⟩

theorem Background.trans_audited {m n' : DeviceSnapshot} (h : Background f K m n)
    (a : Audited f n n') : Background f K m n' :=
  ⟨a.auth.trans h.auth, by rw [a.operations]; exact h.operations, h.logged.trans a.logged⟩

theorem recordClock_spec (h : Ready f c s.1) (observed : Option ClockSample) :
    SimE (lockSpec P f) (recordClock P observed) c s fun r c' s' =>
      Observed f 0 c s.1 r c' s'.1 ∧ (r = .ok () → c'.state.clockValid = true →
        ∀ x, observed = some x → c.state.trusts x = true) := by
  have distrust : SimE (lockSpec P f) (commit P { c.state with clockValid := false }) c s
      fun r c' s' => Observed f 0 c s.1 r c' s'.1 ∧ (r = .ok () → c'.state.clockValid = true →
        ∀ x, observed = some x → c.state.trusts x = true) := by
    refine (store_background h.tame ?_).mono ?_
    · refine .flags rfl rfl ⟨.refl, .refl _, ?_⟩
      intro valid
      cases valid
    · intro r c' s' stored
      refine ⟨stored.observed rfl (Nat.le_refl _), fun ok valid => ?_⟩
      rcases stored with ⟨_, rfl, _⟩ | ⟨rfl, _⟩
      · cases valid
      · cases ok
  have unchanged : Observed f 0 c s.1 (.ok () : Except Error Unit) c s.1 := .ok ⟨h, .refl _ _⟩
  unfold recordClock
  simp only [simE_bind, simE_get, andThen_ok]
  cases observed with
  | none =>
    simp only
    split
    · exact distrust
    · exact ⟨unchanged, fun _ _ x hx => by cases hx⟩
  | some sample =>
    simp only
    split
    · split
      · exact distrust
      · rename_i invalid
        exact ⟨unchanged, fun _ valid => absurd valid invalid⟩
    · rename_i ordered
      rw [not_or] at ordered
      have reached : ∀ floor, c.state.clockFloor = some floor → floor ≤ sample.lower := by
        intro floor hf
        have le : ¬ sample.lower < floor := by simpa [hf] using ordered.2
        exact UInt64.not_lt.1 le
      have trusted : c.state.clockValid = true → ∀ x, some sample = some x →
          c.state.trusts x = true := by
        intro valid x hx
        obtain rfl : sample = x := Option.some.inj hx
        have inner : c.state.clockFloor.all (fun floor => decide (floor ≤ sample.lower)) = true := by
          rw [Option.all_eq_true]
          exact fun floor hf => decide_eq_true (reached floor hf)
        simp only [DeviceSnapshot.trusts, valid, inner, Bool.true_and, Bool.and_true,
          decide_eq_true_eq]
        exact UInt64.not_lt.1 ordered.1
      split
      · rename_i raise
        refine (store_background h.tame ?_).mono ?_
        · refine .flags rfl rfl ⟨.refl, ?_, id⟩
          cases hf : c.state.clockFloor with
          | none => exact .none _
          | some floor => exact floorLe_some.2 (reached floor hf)
        · intro r c' s' stored
          exact ⟨stored.observed rfl (Nat.le_refl _), fun _ _ => trusted raise.1⟩
      · exact ⟨unchanged, fun _ valid => trusted valid⟩

theorem refreshClock_spec (h : Ready f c s.1) :
    SimE (lockSpec P f) (refreshClock P) c s fun r c' s' =>
      Observed f 0 c s.1 r c' s'.1 ∧ ∀ x, r = .ok (some x) → x ∈ s'.1.clocks := by
  unfold refreshClock
  rw [simE_bind]
  apply simE_request
  intro observed _
  refine ⟨s.1.hear observed, ⟨h.quiet.live, h.quiet.safe, rfl⟩, fun inv => ?_⟩
  have ready : Ready f c (s.1.hear observed) := h.heard (.hear _ _)
  rw [andThen_ok]
  refine (framed (recordClock_spec (s := ⟨_, inv⟩) ready observed)).bind ?_ ?_
  · rintro _ c' s' ⟨⟨⟨⟨verdict, kept⟩, _⟩, trusted⟩, frame⟩
    simp only [simE_bind, simE_get, andThen_ok, simE_pure]
    refine ⟨.ok ⟨verdict, kept.auth, kept.gates, kept.cursor, kept.active, kept.progress⟩, ?_⟩
    intro x hx
    obtain ⟨seen, valid⟩ := Option.filter_eq_some_iff.1 (Except.ok.inj hx)
    refine frame.clocks ?_
    simp [Abs.hear, seen, h.mem, trusted rfl valid x seen]
  · rintro e c' s' ⟨⟨⟨⟨verdict, kept⟩, why⟩, _⟩, _⟩
    exact ⟨.error ⟨verdict, kept.auth, kept.gates, kept.cursor, kept.active, kept.progress⟩
      (why e rfl), fun _ h => by cases h⟩

end OpenLock
