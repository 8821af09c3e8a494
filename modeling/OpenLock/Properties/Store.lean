import OpenLock.Abstract.Order
import OpenLock.Refinement.Run

/-! The durable store along a whole run: what each effect finds there, and that it only
ever moves forward. -/
namespace OpenLock
open Effects

variable {P : Primitives} {f : FactoryIdentity} {a n : DeviceSnapshot} {q : Moment}
  {pre mid post : List Moment} {r : Record P f}

theorem storeAfter_append (ms : List Moment) (m : Moment) :
    storeAfter (ms ++ [m]) = storage.after (storeAfter ms) m.event := by
  simp [storeAfter, World.afterAll]

/-- The abstract lock agrees with the store, which has only moved forward. -/
structure Forward (ms : List Moment) (s : Lock P f) : Prop where
  disk : s.1.disk = storeAfter ms
  advances : ∀ pre post, ms = pre ++ post → ∀ a, storeAfter pre = some a →
    ∃ b, storeAfter ms = some b ∧ Advances a b

namespace Forward
variable {ms : List Moment} {s s' : Lock P f} {ev : Event Answer}

theorem blank : Forward [] (Lock.blank : Lock P f) := by
  refine ⟨rfl, fun pre post h a ha => ?_⟩
  cases pre with
  | nil => cases ha
  | cons => cases h

theorem enter (h : Forward ms s) (call : Call) (entry : Option Controller) :
    Forward ms (s.enter call entry) := ⟨h.disk, h.advances⟩

theorem step (h : Forward ms s) (hs : s.1.Step P f ev s'.1) :
    Forward (ms ++ [⟨s.1.call, s.1.entry, s.1.disk, ev⟩]) s' := by
  have disk : s'.1.disk = storeAfter (ms ++ [⟨s.1.call, s.1.entry, s.1.disk, ev⟩]) := by
    rw [storeAfter_append, ← h.disk]
    exact Abs.step_disk hs
  refine ⟨disk, fun pre post split a ha => ?_⟩
  rcases List.eq_nil_or_concat post with rfl | ⟨post, x, rfl⟩
  · rw [split]
    rw [List.append_nil]
    exact ⟨a, ha, .refl a⟩
  · have inner : ms = pre ++ post := by
      have : ms ++ [⟨s.1.call, s.1.entry, s.1.disk, ev⟩] = (pre ++ post) ++ [x] := by
        simpa using split
      exact (List.append_inj' this rfl).1
    obtain ⟨b, hb, forward⟩ := h.advances pre post inner a ha
    obtain ⟨d, hd, next⟩ := s.2.step_advances hs (h.disk.trans hb)
    exact ⟨d, disk ▸ hd, forward.trans next⟩

theorem inductively : Run.Inductive (Forward : List Moment → Lock P f → Prop) :=
  ⟨.blank, fun _ _ call entry h => h.enter call entry, fun _ _ _ _ h hs => h.step hs⟩

end Forward

/-- The store and the controller's own snapshot have a property. -/
def Throughout (D : DeviceSnapshot → Prop) (_ : List Moment) (s : Lock P f) : Prop :=
  (∀ d, s.1.disk = some d → D d) ∧ ∀ m, s.1.mem = some m → D m

/-- What installed snapshots have and every durable change keeps holds of the store and of the
controller's own snapshot. -/
theorem Throughout.inductively {D : DeviceSnapshot → Prop}
    (installed : ∀ (call : Call) n, call.installs f = some n → D n)
    (changed : ∀ s m n pr ow, Change P f s m n pr ow → Sound P f m → D m → D n) :
    Run.Inductive (Throughout D : List Moment → Lock P f → Prop) := by
  refine ⟨⟨fun _ h => (by cases h), fun _ h => (by cases h)⟩, ?_, ?_⟩
  · rintro ms s call entry ⟨disk, mem⟩
    refine ⟨disk, fun m hm => ?_⟩
    change (if call.constructs then none else s.1.mem) = some m at hm
    split at hm
    · cases hm
    · exact mem m hm
  · rintro ms s ev s' ⟨disk, mem⟩ hs
    have stored : ∀ d, s'.1.disk = some d → D d := by
      have moves := s.2.moves hs
      generalize s'.1 = t at moves
      cases moves with
      | start => exact disk
      | commit n r _ m _ _ _ _ found sound change =>
        have kept := changed _ _ _ _ _ change sound (disk m found)
        cases r with
        | lost => exact disk
        | ok | written =>
          rintro _ ⟨⟩
          exact kept
      | install n r _ installs =>
        have fresh := installed _ n installs
        cases r with
        | lost => exact disk
        | ok | written =>
          rintro _ ⟨⟩
          exact fresh
      | other _ _ _ _ same =>
        rw [same]
        exact disk
    refine ⟨stored, fun m hm => ?_⟩
    rcases hs.mem_cases with same | loaded
    · exact mem m (same.symm.trans hm)
    · exact stored m (loaded.symm.trans hm)

/-- Every effect of a run finds the store that the effects before it left. -/
theorem Run.disk_eq (run : Run P f) {m : Moment} (h : run.moments = pre ++ m :: post) :
    m.disk = storeAfter pre := by
  obtain ⟨s, _, stored, _, hm⟩ := run.moment Forward.inductively h
  rw [hm]
  exact stored.disk

/-- At the end of a run its effects account for the store. -/
theorem Run.final_disk (run : Run P f) : run.final.disk = storeAfter run.moments := by
  obtain ⟨s, tracks, stored⟩ := run.history Forward.inductively
  rw [← tracks.disk, stored.disk]

/-- The store a call leaves is accounted for by the effects up to its end. -/
theorem Run.after_disk (run : Run P f) {rs rest : List (Record P f)}
    (split : run.records = rs ++ r :: rest) :
    run.moments = (rs ++ [r]).flatMap Record.moments ++ rest.flatMap Record.moments
      ∧ storeAfter ((rs ++ [r]).flatMap Record.moments) = r.after.disk := by
  obtain ⟨earlier, records, final⟩ := run.upTo split
  have chain := earlier.chain
  rw [records, final] at chain
  refine ⟨?_, (Run.final_disk ⟨rs ++ [r], r.after, .snoc r chain rfl⟩).symm⟩
  rw [Run.moments, split, ← List.flatMap_append, List.append_assoc, List.singleton_append]

/-- Between any two points of a run the store moves forward. -/
theorem Run.advances (run : Run P f) (h : run.moments = pre ++ mid ++ post) {a : DeviceSnapshot}
    (ha : storeAfter pre = some a) :
    ∃ b, storeAfter (pre ++ mid) = some b ∧ Advances a b := by
  obtain ⟨s, stored⟩ := run.along Forward.inductively h
  exact stored.advances pre mid rfl a ha

/-- Within a call the store moves forward. -/
theorem Follows.advances {s s' t : Lock P f} (follows : Follows r s s') {pre : List (Event Answer)}
    (path : Path (lockSpec P f) (s.enter r.call r.before.controller) pre t) {d : DeviceSnapshot}
    (disk : r.before.disk = some d) :
    ∃ e, storage.afterAll r.before.disk pre = some e ∧ Advances d e := by
  have stored : t.1.disk = storage.afterAll r.before.disk pre := by
    rw [← follows.before.disk]
    exact path.view
  rw [← stored]
  refine Follows.along (I := fun _ u => ∃ e, u.1.disk = some e ∧ Advances d e) ?_ ?_ path
  · rintro tr u ev u' ⟨e, he, forward⟩ hs
    obtain ⟨e', he', next⟩ := u.2.step_advances hs he
    exact ⟨e', he', forward.trans next⟩
  · exact ⟨d, follows.before.disk.trans disk, .refl d⟩

/-- The effect puts the snapshot into the store. -/
def Moment.Stores (q : Moment) (n : DeviceSnapshot) : Prop :=
  ∃ x, q.event = ⟨.commit n, x⟩ ∧ ∀ e, x ≠ .lost e

theorem Moment.Stores.storeAfter {n : DeviceSnapshot} (h : q.Stores n) (pre : List Moment) :
    storeAfter (pre ++ [q]) = some n := by
  obtain ⟨x, event, kept⟩ := h
  rw [storeAfter_append, event]
  cases x with
  | lost e => exact absurd rfl (kept e)
  | ok | written => rfl

theorem Moment.stores_of_after (after : storage.after (some a) q.event = some n) (moved : n ≠ a) :
    q.Stores n := by
  obtain ⟨call, entry, disk, e, x⟩ := q
  cases e with
  | commit m =>
    cases x with
    | lost => cases after; exact absurd rfl moved
    | ok => cases after; exact ⟨.ok, rfl, fun _ h => by cases h⟩
    | written e => cases after; exact ⟨.written e, rfl, fun _ h => by cases h⟩
  | _ => cases after; exact absurd rfl moved

/-- The effect is part of a request for this action. -/
def Moment.Requests (q : Moment) (wanted : Action → Prop) : Prop :=
  ∃ context cmd, q.request = some (context, cmd) ∧ wanted cmd.action

/-- The change behind an effect that replaces the stored snapshot. -/
structure Durably (P : Primitives) (f : FactoryIdentity) (q : Moment) (a n : DeviceSnapshot)
    (s : Abs) (pr : Progress) (ow : Option Active) : Prop where
  advances : Advances a n
  change : Change P f s a n pr ow
  call : s.call = q.call
  entry : s.entry = q.entry
  accepted : ∀ x, s.progress = .accepted x → s.request = some (x.context, x.command)

theorem Durably.request {s : Abs} {pr : Progress} {ow : Option Active}
    (h : Durably P f q a n s pr ow) : s.request = q.request := by
  rw [Abs.request, Moment.request, h.call, h.entry]

theorem Run.stored (run : Run P f) (split : run.moments = pre ++ q :: post) (disk : q.disk = some a)
    (stores : q.Stores n) :
    ∃ s pr ow, Durably P f q a n s pr ow := by
  obtain ⟨s, s', _, hs, hq⟩ := run.moment Forward.inductively split
  obtain ⟨x, event, _⟩ := stores
  rw [event] at hs hq
  have found : s.1.disk = some a := by rw [← disk, hq]
  have moves := s.2.moves hs
  generalize s'.1 = t at moves
  cases moves with
  | commit _ _ s₀ m pr ow _ _ disk' sound change submitted =>
    cases found.symm.trans disk'
    refine ⟨s₀, pr, ow, change.advances sound, change, ?_, ?_, fun x accepted => ?_⟩
    · rw [hq, submitted]
      rfl
    · rw [hq, submitted]
      rfl
    · have same : s.1.progress = .accepted x := by rw [submitted]; exact accepted
      have request := s.2.request same
      rw [submitted] at request
      exact request
  | install _ _ empty =>
    rw [empty] at found
    cases found
  | other _ _ _ durable => exact absurd rfl (durable n)

/-- Between two points of a run the stored snapshots are in any order that each durable change
in between is in. -/
theorem Run.continues {R : DeviceSnapshot → DeviceSnapshot → Prop} [Std.Refl R]
    [IsTrans DeviceSnapshot R] (run : Run P f) (split : run.moments = pre ++ mid ++ post)
    {a b : DeviceSnapshot} (first : storeAfter pre = some a)
    (last : storeAfter (pre ++ mid) = some b)
    (changed : ∀ q ∈ mid, ∀ m n s pr ow, q.Stores n → Durably P f q m n s pr ow → R m n) :
    R a b := by
  induction mid generalizing pre a with
  | nil =>
    rw [List.append_nil] at last
    cases first.symm.trans last
    exact Std.Refl.refl _
  | cons q mid ih =>
    have here : run.moments = pre ++ q :: (mid ++ post) := by simpa using split
    have next : run.moments = (pre ++ [q]) ++ mid ++ post := by simpa using split
    have later : run.moments = pre ++ [q] ++ (mid ++ post) := by simpa using split
    obtain ⟨d, hd, _⟩ := run.advances later first
    have rest : R d b := ih next hd (by simpa using last)
      fun q' hq' => changed q' (List.mem_cons_of_mem _ hq')
    by_cases same : d = a
    · rwa [same] at rest
    · have after := hd
      rw [storeAfter_append, first] at after
      have stores : q.Stores d := Moment.stores_of_after after same
      obtain ⟨s, pr, ow, durable⟩ := run.stored here ((run.disk_eq here).trans first) stores
      exact IsTrans.trans _ _ _ (changed q List.mem_cons_self a d s pr ow stores durable) rest

end OpenLock
