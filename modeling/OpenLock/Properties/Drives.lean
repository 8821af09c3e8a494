import OpenLock.Abstract.Order
import OpenLock.Effects.Traced
import OpenLock.Refinement.Run

/-! The actuator has one owner at a time, and no drive identity is used twice. -/
namespace OpenLock
open Controller Effects

variable {P : Primitives} {f : FactoryIdentity} {id : ActuationId}

section Identity

/-- The identity was drawn before this snapshot: from an older generation, or from a
cursor below the next one. -/
def ActuationId.Older (id : ActuationId) (d : DeviceSnapshot) : Prop :=
  id.generation < d.generation
  ∨ (id.generation = d.generation ∧ id.auditCursor.toNat + 1 ≤ d.nextCursor.toNat)

/-- The next identity this snapshot gives is another one. -/
def ActuationId.Retired (id : ActuationId) (d : DeviceSnapshot) : Prop :=
  id.generation < d.generation
  ∨ (id.generation = d.generation ∧ id.auditCursor.toNat + 1 < d.nextCursor.toNat)

variable {id : ActuationId} {m n : DeviceSnapshot}

theorem ActuationId.Older.advance (h : id.Older m) (advances : Advances m n) : id.Older n := by
  rcases h with older | ⟨same, cursor⟩
  · exact .inl (UInt64.lt_of_lt_of_le older advances.generation)
  · by_cases kept : n.generation = m.generation
    · exact .inr ⟨same.trans kept.symm, Nat.le_trans cursor (advances.cursor kept)⟩
    · exact .inl (same ▸ UInt64.lt_of_le_of_ne advances.generation (Ne.symm kept))

theorem ActuationId.Retired.advance (h : id.Retired m) (advances : Advances m n) :
    id.Retired n := by
  rcases h with older | ⟨same, cursor⟩
  · exact .inl (UInt64.lt_of_lt_of_le older advances.generation)
  · by_cases kept : n.generation = m.generation
    · exact .inr ⟨same.trans kept.symm, Nat.lt_of_lt_of_le cursor (advances.cursor kept)⟩
    · exact .inl (same ▸ UInt64.lt_of_le_of_ne advances.generation (Ne.symm kept))

theorem ActuationId.Older.retire (h : id.Older m) (advances : Advances m n) (grew : Grew m n) :
    id.Retired n := by
  rcases h with older | ⟨same, cursor⟩
  · exact .inl (UInt64.lt_of_lt_of_le older advances.generation)
  · by_cases kept : n.generation = m.generation
    · exact .inr ⟨same.trans kept.symm, Nat.lt_of_le_of_lt cursor grew⟩
    · exact .inl (same ▸ UInt64.lt_of_le_of_ne advances.generation (Ne.symm kept))

/-- A retired identity is not the next drive's. -/
theorem ActuationId.retired_ne (h : id.Retired m) (valid : m.nextCursor ≠ 0) :
    id ≠ ⟨m.generation, m.nextCursor - 1⟩ := by
  rintro rfl
  rcases h with older | ⟨_, cursor⟩
  · exact UInt64.lt_irrefl _ older
  · have positive : 1 ≤ m.nextCursor.toNat := by
      refine Nat.pos_of_ne_zero fun zero => valid ?_
      exact UInt64.toNat_inj.1 zero
    have below : (1 : UInt64) ≤ m.nextCursor := UInt64.le_iff_toNat_le.2 positive
    rw [UInt64.toNat_sub_of_le _ _ below] at cursor
    have one : (1 : UInt64).toNat = 1 := rfl
    omega

theorem ActuationId.older_next (valid : m.nextCursor ≠ 0) :
    (⟨m.generation, m.nextCursor - 1⟩ : ActuationId).Older m := by
  have positive : 1 ≤ m.nextCursor.toNat := by
    refine Nat.pos_of_ne_zero fun zero => valid ?_
    exact UInt64.toNat_inj.1 zero
  have below : (1 : UInt64) ≤ m.nextCursor := UInt64.le_iff_toNat_le.2 positive
  refine .inr ⟨rfl, ?_⟩
  rw [UInt64.toNat_sub_of_le _ _ below]
  have one : (1 : UInt64).toNat = 1 := rfl
  omega

end Identity

/-- A call that may still start a drive. -/
def Progress.primed : Progress → Bool
  | .accepted _ | .relocking => true
  | _ => false

/-- Becoming primed moves the durable cursor. -/
theorem Change.primed {s : Abs} {m n : DeviceSnapshot} {pr : Progress} {ow : Option Active}
    (h : Change P f s m n pr ow) (primed : pr.primed = true) :
    s.progress.primed = true ∨ Grew m n := by
  cases h with
  | accept _ _ _ _ h => exact .inr h.grew
  | upkeep h =>
    cases h with
    | relock _ _ _ _ _ _ grew => exact .inr grew
    | _ => exact .inl primed
  | claim | domain => cases primed
  | effect | clock | trialEnded => exact .inl primed

/-- Every identity used so far is older than the store, and retired once the current call
may start a drive. -/
structure Dated (ms : List Moment) (s : Lock P f) : Prop where
  older : ∀ m ∈ ms, ∀ id target, m.drive = some (id, target) →
    ∃ d, s.1.disk = some d ∧ id.Older d ∧ (s.1.progress.primed = true → id.Retired d)
  distinct : ms.Pairwise fun m m' => ∀ id target id' target', m.drive = some (id, target) →
    m'.drive = some (id', target') → id ≠ id'

namespace Dated
variable {ms : List Moment} {s s' : Lock P f} {ev : Event Answer}

/-- An effect that starts no drive. -/
private theorem extend (h : Dated ms s)
    (quiet : (⟨s.1.call, s.1.entry, s.1.disk, ev⟩ : Moment).drive = none)
    (older : ∀ d, s.1.disk = some d → ∀ id : ActuationId, id.Older d →
      (s.1.progress.primed = true → id.Retired d) →
      ∃ d', s'.1.disk = some d' ∧ id.Older d' ∧ (s'.1.progress.primed = true → id.Retired d')) :
    Dated (ms ++ [⟨s.1.call, s.1.entry, s.1.disk, ev⟩]) s' := by
  refine ⟨fun m hm id target drive => ?_, ?_⟩
  · rcases List.mem_append.1 hm with hm | hm
    · obtain ⟨d, hd, old, retired⟩ := h.older m hm id target drive
      exact older d hd id old retired
    · cases List.mem_singleton.1 hm
      rw [quiet] at drive
      cases drive
  · refine List.pairwise_append.2 ⟨h.distinct, List.pairwise_singleton _ _, ?_⟩
    intro m _ m' hm' id target id' target' _ drive'
    cases List.mem_singleton.1 hm'
    rw [quiet] at drive'
    cases drive'

theorem step (h : Dated ms s) (hs : s.1.Step P f ev s'.1) :
    Dated (ms ++ [⟨s.1.call, s.1.entry, s.1.disk, ev⟩]) s' := by
  have moves := s.2.moves hs
  generalize ht : s'.1 = t at moves
  cases moves with
  | start id target releaseMs hold r a m sample quiet idle disk mem read safe armed same toward =>
    have valid : m.nextCursor ≠ 0 := (s.2.disk m disk).valid.log.cursor
    have primed : s.1.progress.primed = true := by
      generalize s.1.progress = pr at armed
      cases armed <;> rfl
    have drawn : id = ⟨m.generation, m.nextCursor - 1⟩ := same.symm.trans safe.id
    refine ⟨fun q hq id' target' drive => ?_, ?_⟩
    · rw [ht]
      rcases List.mem_append.1 hq with hq | hq
      · obtain ⟨d, hd, old, _⟩ := h.older q hq id' target' drive
        exact ⟨d, hd, old, fun p => by cases p⟩
      · cases List.mem_singleton.1 hq
        cases drive
        exact ⟨m, disk, drawn ▸ ActuationId.older_next valid, fun p => by cases p⟩
    · refine List.pairwise_append.2 ⟨h.distinct, List.pairwise_singleton _ _, ?_⟩
      intro q hq q' hq' id₁ target₁ id₂ target₂ drive drive'
      cases List.mem_singleton.1 hq'
      cases drive'
      obtain ⟨d, hd, _, retired⟩ := h.older q hq id₁ target₁ drive
      cases disk.symm.trans hd
      rw [drawn]
      exact ActuationId.retired_ne (retired primed) valid
  | commit n r s₀ m progress owned live mem disk sound change submitted =>
    have before : s.1.progress = s₀.progress := by rw [submitted]; rfl
    have advances := change.advances sound
    refine h.extend rfl fun d hd id old retired => ?_
    cases disk.symm.trans hd
    rw [ht]
    cases r with
    | lost => exact ⟨m, disk, old, retired⟩
    | written =>
      exact ⟨n, rfl, old.advance advances, fun primed => (retired primed).advance advances⟩
    | ok =>
      refine ⟨n, rfl, old.advance advances, fun primed => ?_⟩
      rcases change.primed primed with earlier | grew
      · exact (retired (before ▸ earlier)).advance advances
      · exact old.retire advances grew
  | install n r disk =>
    refine h.extend rfl fun d hd => ?_
    rw [disk] at hd
    cases hd
  | other _ _ drive _ disk progress =>
    refine h.extend drive fun d hd id old retired => ?_
    rw [ht, disk, progress]
    exact ⟨d, hd, old, retired⟩

theorem inductively : Run.Inductive (Dated : List Moment → Lock P f → Prop) := by
  refine ⟨⟨fun _ h => (by cases h), .nil⟩, fun ms s call entry h => ⟨?_, h.distinct⟩,
    fun _ _ _ _ h hs => h.step hs⟩
  intro m hm id target drive
  obtain ⟨d, hd, old, _⟩ := h.older m hm id target drive
  exact ⟨d, hd, old, fun p => by cases p⟩

end Dated

/-- The effect ends the drive of this identity: the actuator was stopped, or a completion
with exactly this identity got past its check and reached storage. -/
inductive Moment.Releases (id : ActuationId) : Moment → Prop
  | stopped (call : Call) (entry : Option Controller) (disk : Option DeviceSnapshot) (u : Unit) :
      Releases id ⟨call, entry, disk, ⟨.stopAction, .ok u⟩⟩
  | completed (result : ActuatorResult) (c : Controller) (a : Active) (active : c.active = some a)
      (same : a.id = id) (disk : Option DeviceSnapshot) (n : DeviceSnapshot) (u : Unit) :
      Releases id ⟨.method (.actuatorFinished id result), some c, disk, ⟨.submit n, u⟩⟩

/-- The last drive started is still owned, or has been released since. -/
def Held (ms : List Moment) (s : Lock P f) : Prop :=
  ∀ pre m post id target, ms = pre ++ m :: post → m.drive = some (id, target) →
    (∀ q ∈ post, q.drive = none) →
    (∃ a, s.1.owned = some a ∧ a.id = id) ∨ ∃ q ∈ post, q.Releases id

namespace Held
variable {ms : List Moment} {s s' : Lock P f} {ev : Event Answer}

theorem step (h : Held ms s) (hs : s.1.Step P f ev s'.1) :
    Held (ms ++ [⟨s.1.call, s.1.entry, s.1.disk, ev⟩]) s' := by
  have handover := Abs.Step.handover hs
  generalize ht : s'.1 = t at handover
  intro pre m post id target split drive none
  rw [ht]
  rcases List.eq_nil_or_concat post with rfl | ⟨post, x, rfl⟩
  · -- The new effect is the drive itself.
    obtain ⟨_, last⟩ := List.append_inj' split rfl
    cases last
    cases handover with
    | start _ _ _ _ _ a _ same =>
      cases drive
      exact .inl ⟨a, rfl, same⟩
    | stopped | release => cases drive
    | kept _ _ quiet => exact absurd drive (by rw [Moment.drive, quiet]; nofun)
  · have inner : ms ++ [⟨s.1.call, s.1.entry, s.1.disk, ev⟩] = (pre ++ m :: post) ++ [x] := by
      simpa using split
    obtain ⟨before, last⟩ := List.append_inj' inner rfl
    cases last
    have earlier := h pre m post id target before drive fun q hq =>
      none q (by simp [hq])
    have new : (⟨s.1.call, s.1.entry, s.1.disk, ev⟩ : Moment) ∈ post.concat
        ⟨s.1.call, s.1.entry, s.1.disk, ev⟩ := by simp
    rcases earlier with ⟨a, owned, same⟩ | ⟨q, hq, releases⟩
    · cases handover with
      | start =>
        have silent := none _ new
        cases silent
      | stopped u => exact .inr ⟨_, new, .stopped _ _ _ u⟩
      | release n u _ entry b result owned' call entered active =>
        cases owned.symm.trans owned'
        refine .inr ⟨_, new, ?_⟩
        rw [call, entered, same]
        exact .completed result entry a active same _ n u
      | kept _ _ _ kept => exact .inl ⟨a, kept.trans owned, same⟩
    · exact .inr ⟨q, by simp [hq], releases⟩

theorem inductively : Run.Inductive (Held : List Moment → Lock P f → Prop) := by
  refine ⟨?_, fun _ _ _ _ h => h, fun _ _ _ _ h hs => h.step hs⟩
  intro pre m post id target split
  cases pre <;> cases split

end Held

/-- The monotonic clock went backwards in this call. -/
def ClockBack (c : Controller) (tr : List (Event Answer)) : Prop :=
  ∃ t, (⟨.monotonicMs, t⟩ : Event Answer) ∈ tr ∧ t < c.lastMono

section OtherDrive
variable {c : Controller} {disk : Option DeviceSnapshot}

/-- Nothing but the monotonic clock is asked until it has gone backwards. -/
private abbrev clockOnly (c : Controller) : Spec storage (Option DeviceSnapshot × List (Event Answer)) :=
  traced storage fun tr ev => ev.effect = .monotonicMs ∨ ClockBack c tr

private theorem now_clockOnly (live : c.poisoned = false) :
    SimE (clockOnly c) now c (disk, []) fun r c' s =>
      match r with
      | .ok t => c' = { c with lastMono := t }
      | .error _ => ClockBack c s.2 := by
  unfold now
  simp only [simE_bind, simE_get, andThen_ok]
  rw [if_neg (by rw [live]; exact Bool.false_ne_true)]
  rw [simE_bind]
  refine simE_perform.2 fun t _ => ⟨_, ⟨.inl rfl, rfl⟩, ?_⟩
  rw [andThen_ok]
  by_cases back : t < c.lastMono
  · rw [if_pos back]
    have gone : ClockBack c [⟨.monotonicMs, t⟩] := ⟨t, List.mem_singleton.2 rfl, back⟩
    have keeps : ∀ tr (ev : Event Answer), ClockBack c tr →
        (ev.effect = .monotonicMs ∨ ClockBack c tr) ∧ ClockBack c (tr ++ [ev]) := by
      rintro tr ev ⟨t, ht, low⟩
      exact ⟨.inr ⟨t, ht, low⟩, t, List.mem_append_left _ ht, low⟩
    have ever : SimE (clockOnly c) poison c (disk, [⟨.monotonicMs, t⟩]) fun _ _ s' =>
        ClockBack c s'.2 := Sim.always keeps _ gone
    exact ever.bind (fun _ _ _ h => h) fun _ _ _ h => h
  · rw [if_neg back]
    exact rfl

/-- A completion for another drive, on a controller that is not poisoned, reads the
monotonic clock and returns, unless that clock went backwards. -/
theorem actuatorFinished_other (result : ActuatorResult) (live : c.poisoned = false)
    (other : ∀ a, c.active = some a → a.id ≠ id) :
    SimS (clockOnly c) ((Method.actuatorFinished id result).program P) c (disk, []) fun out c' s =>
      ClockBack c s.2
        ∨ (out = .result (.error .invalidState) ∧ ∃ t, c' = { c with lastMono := t }) := by
  have refused : c.active.all (fun a => a.id ≠ id) = true := by
    cases active : c.active with
    | none => rfl
    | some a => simpa using other a active
  have spec : SimE (clockOnly c) (actuatorFinished P id result) c (disk, []) fun r c' s =>
      ClockBack c s.2 ∨ (r = .error .invalidState ∧ ∃ t, c' = { c with lastMono := t }) := by
    unfold actuatorFinished
    refine SimE.bind (now_clockOnly live) ?_ fun _ _ _ gone => .inl gone
    rintro t _ s rfl
    rw [simE_bind, simE_get, andThen_ok, simE_bind, simE_failIf]
    exact ⟨fun _ => .inr ⟨rfl, t, rfl⟩, fun matched => absurd refused matched⟩
  change Sim _ (((actuatorFinished P id result).run c).bind _) _ _
  rw [sim_bind]
  refine Sim.mono spec ?_
  rintro ⟨r, c'⟩ s (gone | ⟨rfl, t, rfl⟩)
  · exact .inl gone
  · exact .inr ⟨rfl, t, rfl⟩

end OtherDrive

/-- A completion for another drive changed nothing but the time last seen. -/
theorem Record.otherDrive (r : Record P f) {result : ActuatorResult} {c : Controller}
    (call : r.call = .method (.actuatorFinished id result)) (found : r.before.controller = some c)
    (live : c.poisoned = false) (other : ∀ a, c.active = some a → a.id ≠ id)
    (forward : ¬ ClockBack c r.trace) :
    r.after.disk = r.before.disk
    ∧ (∀ out, r.output = some out → out = .result (.error .invalidState))
    ∧ ∀ c', r.after.controller = some c' → ∃ t, c' = { c with lastMono := t } := by
  obtain ⟨before, k, trace, output, after, performed⟩ := r
  cases call
  cases performed with
  | @method _ c₀ _ disk' y controller exec =>
    cases controller.symm.trans found
    obtain ⟨every, ended⟩ := Sim.exec (actuatorFinished_other result live other) exec
    have stays : disk' = before.disk := by
      rw [exec.afterAll]
      refine World.afterAll_still fun ev hev => ?_
      obtain ⟨pre, post, rfl⟩ := List.append_of_mem hev
      rcases every pre ev post rfl with clock | ⟨t, ht, low⟩
      · obtain ⟨e, x⟩ := ev
        cases clock
        rfl
      · exact absurd ⟨t, List.mem_append_left _ ht, low⟩ forward
    refine ⟨stays, fun out ho => ?_, fun c' hc' => ?_⟩
    · obtain ⟨a, ha, rfl⟩ := Option.map_eq_some_iff.1 ho
      rcases ended a ha with gone | ⟨refused, _⟩
      · exact absurd gone forward
      · exact refused
    · obtain ⟨a, ha, rfl⟩ := Option.map_eq_some_iff.1 hc'
      rcases ended a ha with gone | ⟨_, same⟩
      · exact absurd gone forward
      · exact same

/-- One drive owns the actuator at a time, under an identity that is never used again, and a
completion for any other identity is refused without effect. -/
theorem drives_exclusive (run : Run P f) :
    (∀ pre m mid m' post id target, run.moments = pre ++ m :: (mid ++ m' :: post) →
      m.drive = some (id, target) → (∀ q ∈ mid, q.drive = none) → m'.drive.isSome →
      ∃ q ∈ mid, q.Releases id)
    ∧ (run.moments.Pairwise fun m m' => ∀ id target id' target', m.drive = some (id, target) →
      m'.drive = some (id', target') → id ≠ id')
    ∧ ∀ r ∈ run.records, ∀ id result c, r.call = .method (.actuatorFinished id result) →
      r.before.controller = some c → c.poisoned = false →
      (∀ a, c.active = some a → a.id ≠ id) → ¬ ClockBack c r.trace →
      r.after.disk = r.before.disk
      ∧ (∀ out, r.output = some out → out = .result (.error .invalidState))
      ∧ ∀ c', r.after.controller = some c' → ∃ t, c' = { c with lastMono := t } := by
  refine ⟨?_, ?_, fun r _ id result c call found live other forward =>
    r.otherDrive call found live other forward⟩
  · intro pre m mid m' post id target split drive between starts
    have again : run.moments = (pre ++ m :: mid) ++ m' :: post := by simpa using split
    obtain ⟨s, s', held, hs, hm⟩ := run.moment Held.inductively again
    rcases held pre m mid id target rfl drive between with ⟨a, owned, _⟩ | released
    · -- A drive starts only when none is owned.
      have handover := Abs.Step.handover hs
      obtain ⟨call, entry, disk, ev⟩ := m'
      simp only at hs handover
      generalize s'.1 = t at handover
      cases handover with
      | start _ _ _ _ _ _ idle =>
        rw [idle] at owned
        cases owned
      | stopped | release => cases starts
      | kept _ _ quiet =>
        rw [Moment.drive, quiet] at starts
        cases starts
    · exact released
  · obtain ⟨_, _, dated⟩ := run.history Dated.inductively
    exact dated.distinct

end OpenLock
