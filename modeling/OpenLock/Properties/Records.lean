import OpenLock.Properties.Authorization
import OpenLock.Properties.Store

/-! Operation records along a run: only the request itself, a call that finds its drive running
or a restart records the outcome of an operation. -/
namespace OpenLock
open Controller Effects

variable {P : Primitives} {f : FactoryIdentity}

section Changes
variable {s : Abs} {m n : DeviceSnapshot} {pr : Progress} {ow : Option Active}

/-- What a durable change does to the operation records. -/
inductive Change.Records (P : Primitives) (f : FactoryIdentity) (s : Abs) (m n : DeviceSnapshot) :
    Prop
  | touched (K : OpKey → Prop) (operations : Retouched K m.operations n.operations)
      (may : ∀ k, K k → s.touches k ∨ s.call.constructs = true
        ∨ ∃ a e, s.failing = some (a, e) ∧ a.automatic = false ∧ a.key = k)
  | accepted (x : Accepted) (request : s.request = some (x.context, x.command))
      (acceptance : Acceptance P f s.clocks s.owned x m n)
  | renewed (context : SessionContext) (cmd : Command) (request : s.request = some (context, cmd))
      (mutates : cmd.action.mutates = true) (epoch : m.epoch < n.epoch) (cleared : n.operations = [])

theorem Change.records (h : Change P f s m n pr ow) : Change.Records P f s m n := by
  have kept : Retouched (fun _ => False) m.operations n.operations → Change.Records P f s m n :=
    fun same => .touched _ same fun _ h => h.elim
  cases h with
  | upkeep h =>
    cases h with
    | background _ h => exact .touched _ h.operations fun _ hk => .inl hk
    | failure a e failing h =>
      exact .touched _ h.operations fun _ hk => .inr (.inr ⟨a, e, failing, hk⟩)
    | release _ _ _ _ _ _ _ _ h => exact kept h.operations
    | relock _ _ _ _ _ h => exact kept h.operations
    | recover _ call h => exact .touched _ h.operations fun _ _ => .inr (.inl call)
  | accept x _ _ request h => exact .accepted x request h
  | claim _ _ _ _ _ _ _ _ _ _ _ _ _ h => exact kept (h.operations ▸ Retouched.refl _ _)
  | domain _ _ context cmd _ _ _ _ request _ _ _ _ h =>
    have epoch := h.advances.1
    cases h with
    | reset action _ _ _ _ result =>
      exact .renewed context cmd request (by rw [action]; rfl) epoch (by rw [result]; rfl)
    | replace _ action _ _ _ _ _ _ cleared =>
      exact .renewed context cmd request (by rw [action]; rfl) epoch cleared
    | epoch _ _ _ action _ _ _ _ _ _ _ cleared =>
      exact .renewed context cmd request (by rw [action]; rfl) epoch cleared
  | effect _ _ _ _ operations => exact kept operations
  | clock _ _ _ _ _ _ h => exact .touched _ h.operations fun _ hk => .inl hk
  | trialEnded _ _ _ _ _ _ operations => exact kept operations

end Changes

theorem Run.sound (run : Run P f) {pre post : List Moment} {d : DeviceSnapshot}
    (split : run.moments = pre ++ post) (found : storeAfter pre = some d) : Sound P f d := by
  obtain ⟨s, forward⟩ := run.along Forward.inductively split
  exact s.2.disk d (forward.disk.trans found)

section Outcomes
variable {x : Accepted}

/-- The records after an acceptance: old ones, and one with an unused sequence. -/
private theorem Acceptance.recorded {clocks : List ClockSample} {owned : Option Active}
    {a b : DeviceSnapshot} (h : Acceptance P f clocks owned x a b) {r : OperationRecord}
    (hr : r ∈ b.operations) :
    r ∈ a.operations ∨ a.watermark r.key.1 < r.key.2 := by
  obtain ⟨left, digest, admitted, operations⟩ := h.operations
  rw [operations, List.mem_append, List.mem_singleton] at hr
  rcases hr with old | rfl
  · exact .inl (admitted.sublist.subset old)
  · exact .inr h.authorized.fresh

/-- The call stands for the operation: the controller it found was running its drive, or it is
the request under a grant of that controller's owner. -/
def StandsFor (P : Primitives) (call : Call) (entry : Option Controller) (k : OpKey) : Prop :=
  ∃ c, entry = some c ∧ ((∃ a, c.active = some a ∧ a.automatic = false ∧ a.key = k)
    ∨ ∃ context cmd o g, call.request entry = some (context, cmd) ∧ c.state.owner = some o
      ∧ readGrant P ⟨o.issuer⟩ cmd.credential = .ok g ∧ g.credentialId = k.1
      ∧ cmd.sequence = some k.2)

theorem Guarded.standsFor {c : Controller} {context : SessionContext} {cmd : Command}
    {disk : Option DeviceSnapshot} {tr : List (Event Answer)} {s : Lock P f}
    (h : Guarded c context cmd disk tr s) (working : s.1.progress = .accepted x) :
    StandsFor P s.1.call s.1.entry x.key := by
  obtain ⟨m, auth, authorized, _⟩ := h.vouched working
  have grant := authorized.grant
  rw [checkGrant_congr auth, checkGrant_ok] at grant
  obtain ⟨o, granted⟩ := grant
  exact ⟨c, h.entered, .inr ⟨x.context, x.command, o, x.grant, s.2.request working, granted.owner,
    granted.read, rfl, authorized.sequence⟩⟩

/-- The drives the call owns, has released or has to record. -/
def Abs.Handles (s : Abs) (a : Active) : Prop :=
  s.owned = some a ∨ a ∈ s.released ∨ ∃ e, s.failing = some (a, e)

/-- Every operation whose outcome the call may record is one it stands for. -/
structure Attributed (P : Primitives) (s : Abs) : Prop where
  progress : ∀ k, s.progress.key = some k → StandsFor P s.call s.entry k
  drives : ∀ a, s.Handles a → a.automatic = false → StandsFor P s.call s.entry a.key

namespace Attributed
variable {s s' : Abs} {ev : Event Answer}

/-- An effect that neither moves the call on nor gives it a drive. -/
private theorem kept (h : Attributed P s) (frame : s'.call = s.call ∧ s'.entry = s.entry)
    (progress : s'.progress = s.progress) (drives : ∀ a, s'.Handles a → s.Handles a) :
    Attributed P s' := by
  refine ⟨fun k hk => ?_, fun a ha manual => ?_⟩ <;> rw [frame.1, frame.2]
  · exact h.progress k (progress ▸ hk)
  · exact h.drives a (drives a ha) manual

theorem step (h : Attributed P s) (hs : s.Step P f ev s')
    (accepts : ∀ x, s'.progress = .accepted x → StandsFor P s'.call s'.entry x.key) :
    Attributed P s' := by
  cases hs.shape with
  | start _ _ _ _ _ a _ _ _ _ _ _ _ armed =>
    have own : a.automatic = false → StandsFor P s.call s.entry a.key := by
      intro manual
      generalize accepted : s.progress = pr at armed
      cases armed with
      | manual y _ _ key => exact key ▸ h.progress y.key (by rw [accepted]; rfl)
      | relock _ automatic => cases manual.symm.trans automatic
    refine ⟨fun k hk => ?_, fun b hb manual => ?_⟩
    · change (Progress.driven _).key = some k at hk
      cases automatic : a.automatic with
      | true => simp [automatic, Progress.key] at hk
      | false =>
        have same : a.key = k := by simpa [automatic, Progress.key] using hk
        exact same ▸ own automatic
    · rcases hb with ⟨⟨⟩⟩ | earlier
      · exact own manual
      · exact h.drives b (.inr earlier) manual
  | stop r =>
    cases r with
    | error => exact h.kept ⟨rfl, rfl⟩ rfl fun _ ha => ha
    | ok =>
      refine h.kept ⟨rfl, rfl⟩ rfl ?_
      rintro a (⟨⟨⟩⟩ | released | ⟨e, recorded⟩)
      · rcases List.mem_append.1 released with now | before
        · exact .inl (by simpa using now)
        · exact .inr (.inl before)
      · change s.toRecord = some (a, e) at recorded
        unfold Abs.toRecord at recorded
        split at recorded
        · cases recorded
        · obtain ⟨b, owned, rest⟩ := Option.bind_eq_some_iff.1 recorded
          obtain ⟨_, _, pair⟩ := Option.map_eq_some_iff.1 rest
          cases pair
          exact .inl owned
  | submit _ _ _ _ _ _ _ _ change =>
    refine h.kept ⟨rfl, rfl⟩ rfl ?_
    rintro a (owned | released | failing)
    · rcases change.owned with same | none
      · exact .inl (same.symm.trans owned)
      · cases none.symm.trans owned
    · rcases List.mem_append.1 released with now | before
      · split at now
        · exact .inl (by simpa using now)
        · cases now
      · exact .inr (.inl before)
    · exact .inr (.inr failing)
  | commit _ r s₀ m pr ow _ _ change submitted =>
    cases r with
    | lost | written => exact h.kept ⟨rfl, rfl⟩ rfl fun _ ha => ha
    | ok =>
      refine ⟨fun k hk => ?_, fun a ha => h.drives a ?_⟩
      · have same : s.progress = s₀.progress := by rw [submitted]; rfl
        cases change with
        | accept y =>
          cases hk
          exact accepts y rfl
        | upkeep upkeep =>
          rcases upkeep.progress with rfl | ⟨rfl, _⟩
          · exact h.progress k (same ▸ hk)
          · cases hk
        | claim | domain => cases hk
        | _ => exact h.progress k (same ▸ hk)
      · rcases ha with owned | released | ⟨_, ⟨⟩⟩
        · exact .inl owned
        · exact .inr (.inl released)
  | load r => cases r <;> exact h.kept ⟨rfl, rfl⟩ rfl fun _ ha => ha
  | install _ r => cases r <;> exact h.kept ⟨rfl, rfl⟩ rfl fun _ ha => ha
  | late | tick | hear | sense | note => exact h.kept ⟨rfl, rfl⟩ rfl fun _ ha => ha

end Attributed

/-- A call that does not construct the controller stands for what it records. -/
theorem Follows.attributed {r : Record P f} {s s' t : Lock P f} (h : Follows r s s')
    (method : r.call.constructs = false) {pre : List (Event Answer)}
    (path : Path (lockSpec P f) (s.enter r.call r.before.controller) pre t) : Attributed P t.1 := by
  obtain ⟨c, found⟩ := r.controller method
  -- What is accepted is accepted for the request of the call, which is guarded throughout.
  have whole : Attributed P t.1 ∧ ∀ context cmd, t.1.request = some (context, cmd) →
      Guarded c context cmd r.before.disk pre t := by
    refine Follows.along (I := fun tr u => Attributed P u.1 ∧ ∀ context cmd,
      u.1.request = some (context, cmd) → Guarded c context cmd r.before.disk tr u) ?_
      ⟨⟨fun _ hk => (by cases hk), fun a ha manual => ?_⟩, fun context cmd asked => ?_⟩ path
    · rintro tr u ev u' ⟨before, guarded⟩ hs
      have next : ∀ context cmd, u'.1.request = some (context, cmd) →
          Guarded c context cmd r.before.disk (tr ++ [ev]) u' := fun context cmd asked =>
        (guarded context cmd ((Frame.step hs).request.symm.trans asked)).step hs
      exact ⟨before.step hs fun x working =>
        (next x.context x.command (u'.2.request working)).standsFor working, next⟩
    · rcases ha with owned | released | ⟨_, failing⟩
      · exact ⟨c, found, .inl ⟨a, (h.coupled found method).owned.symm.trans owned, manual, rfl⟩⟩
      · cases released
      · cases failing
    · exact h.guarded found (found ▸ asked) (.nil _)
  exact whole.1

/-- The change behind a commit of a run, which stands for the outcomes it records. -/
private theorem Run.recorded (run : Run P f) {q : Moment} (hq : q ∈ run.moments)
    {a n : DeviceSnapshot} (disk : q.disk = some a) (stores : q.Stores n) :
    ∃ s : Abs, Change.Records P f s a n ∧ Sound P f a ∧ s.call = q.call ∧ s.entry = q.entry
      ∧ (q.call.constructs = false → ∀ k, (s.touches k
        ∨ ∃ b e, s.failing = some (b, e) ∧ b.automatic = false ∧ b.key = k) →
        StandsFor P q.call q.entry k) := by
  obtain ⟨r, hr, moment⟩ := List.mem_flatMap.1 hq
  obtain ⟨pre, ev, post, split, rfl⟩ := mem_momentsFrom.1 moment
  obtain ⟨s, s', follows⟩ := run.follows hr
  obtain ⟨t, t', before, step, _, call, entry, store⟩ := follows.effect split
  obtain ⟨x, rfl, _⟩ := stores
  have moves := t.2.moves step
  generalize t'.1 = u at moves
  cases moves with
  | commit _ _ s₀ m pr ow _ _ found sound change submitted =>
    cases (store.symm.trans found).symm.trans disk
    rw [submitted] at call entry
    refine ⟨s₀, change.records, sound, call, entry, fun method k records => ?_⟩
    have attributed := follows.attributed method before
    have same : StandsFor P t.1.call t.1.entry k := by
      rcases records with (⟨b, released, manual, rfl⟩ | accepted) | ⟨b, e, failing, manual, rfl⟩
      · refine attributed.drives b (.inr (.inl ?_)) manual
        rw [submitted]
        exact List.mem_append_right _ released
      · exact attributed.progress k (by rw [submitted]; exact accepted)
      · exact attributed.drives b (.inr (.inr ⟨e, by rw [submitted]; exact failing⟩)) manual
    rw [submitted] at same
    exact call ▸ entry ▸ same
  | install _ _ empty =>
    cases (store.symm.trans empty).symm.trans disk
  | other _ _ _ durable => exact absurd rfl (durable n)

/-- A record is rewritten only by a restart, by the request it belongs to or by a call that
found its drive running, and removed only by a mutating request. -/
theorem outcomes_attributed (run : Run P f) :
    (∀ q ∈ run.moments, ∀ a n, q.disk = some a → q.Stores n → ∀ x ∈ a.operations,
      ∀ y ∈ n.operations, y.key = x.key → y = x ∨ q.call.constructs = true
        ∨ StandsFor P q.call q.entry x.key)
    ∧ ∀ q ∈ run.moments, ∀ a n, q.disk = some a → q.Stores n → ∀ x ∈ a.operations,
      (∀ y ∈ n.operations, y.key ≠ x.key) → q.Requests (·.mutates = true) := by
  refine ⟨?_, ?_⟩
  · intro q hq a n disk stores x hx y hy key
    obtain ⟨s, records, sound, call, _, stands⟩ := run.recorded hq disk stores
    have one : ∀ z ∈ a.operations, z.key = x.key → z = x :=
      fun z hz same => List.inj_on_of_nodup_map sound.nodup hz hx same
    cases records with
    | renewed _ _ _ _ _ cleared =>
      rw [cleared] at hy
      cases hy
    | accepted z _ acceptance =>
      rcases acceptance.recorded hy with old | unused
      · exact .inl (one y old key)
      · rw [key] at unused
        exact absurd (sound.valid.sequence_le hx) (UInt64.not_le.2 unused)
    | touched K operations may =>
      obtain ⟨z, hz, same⟩ := operations.origin hy
      cases one z hz (same.key.symm.trans key)
      by_cases allowed : K x.key
      · refine .inr ?_
        cases constructs : q.call.constructs with
        | true => exact .inl rfl
        | false =>
          rcases may x.key allowed with touches | built | failing
          · exact .inr (stands constructs _ (.inl touches))
          · rw [call, constructs] at built
            cases built
          · exact .inr (stands constructs _ (.inr failing))
      · exact .inl (same.kept allowed)
  · intro q hq a n disk stores x hx gone
    obtain ⟨s, records, _, call, entry, _⟩ := run.recorded hq disk stores
    have request : s.request = q.request := by rw [Abs.request, Moment.request, call, entry]
    cases records with
    | renewed context cmd asked mutates => exact ⟨context, cmd, request ▸ asked, mutates⟩
    | accepted z asked acceptance =>
      exact ⟨z.context, z.command, request ▸ asked, acceptance.mutates⟩
    | touched K operations =>
      obtain ⟨y, hy, key⟩ := operations.has_key.2 ⟨x, hx, rfl⟩
      exact absurd key (gone y hy)

end Outcomes
end OpenLock
