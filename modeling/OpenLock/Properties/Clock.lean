import OpenLock.Properties.Refusal
import OpenLock.Properties.Store

/-! An expired grant is never revived: the clock watermark only rises, trust in the clock
comes back with `SetClock` alone, and a grant with a window is used only on a clock reading
inside it that the store trusted when it was taken. -/
namespace OpenLock
open Controller Effects

variable {P : Primitives} {f : FactoryIdentity} {m n a : DeviceSnapshot} {v : Validity} {o : Owner}
  {g : Grant} {x : CommitAnswer}

/-- Trust in the clock comes back only after the platform's clock was set. -/
theorem Change.clockValid {s : Abs} {pr : Progress} {ow : Option Active}
    (h : Change P f s m n pr ow) (valid : n.clockValid = true) :
    m.clockValid = true ∨ ∃ x t, s.progress = .accepted x ∧ x.command.action = .setClock t
      ∧ s.notes.head? = some ⟨.setWallClock t, .ok ()⟩ := by
  cases h with
  | upkeep h =>
    obtain ⟨_, h⟩ := h.keeps
    exact .inl (h.logged.clock valid)
  | accept _ _ _ _ h => exact .inl (h.logged.clock valid)
  | claim _ _ _ _ _ _ _ _ _ _ _ _ _ h => exact .inl (h.logged.clock valid)
  | trialEnded _ _ _ _ _ _ _ logged => exact .inl (logged.clock valid)
  | effect _ _ _ _ _ logged => exact .inl (logged.clock valid)
  | clock x t _ accepted action set => exact .inr ⟨x, t, accepted, action, set⟩
  | domain _ _ _ _ _ _ _ _ _ _ _ _ _ h =>
    cases h with
    | reset _ _ _ _ _ result =>
      rw [result] at valid
      exact .inl valid
    | replace _ _ _ _ _ _ _ _ _ logged => exact .inl (logged.clock valid)
    | epoch _ _ _ _ _ _ _ _ _ _ _ _ logged => exact .inl (logged.clock valid)

/-- A clock reading of the call that the store it then found trusted. -/
def TrustedIn (disk : Option DeviceSnapshot) (tr : List (Event Answer)) (x : ClockSample) : Prop :=
  ∃ pre post d, tr = pre ++ ⟨.wallClock, some x⟩ :: post ∧ storage.afterAll disk pre = some d
    ∧ d.trusts x = true

theorem TrustedIn.append {disk : Option DeviceSnapshot} {tr : List (Event Answer)}
    {x : ClockSample} (h : TrustedIn disk tr x) (more : List (Event Answer)) :
    TrustedIn disk (tr ++ more) x := by
  obtain ⟨pre, post, d, rfl, stored, trusted⟩ := h
  exact ⟨pre, post ++ more, d, by simp, stored, trusted⟩

theorem trusts_iff {x : ClockSample} : m.trusts x = true ↔
    m.clockValid = true ∧ x.lower ≤ x.upper ∧ FloorLe m.clockFloor (some x.lower) := by
  unfold DeviceSnapshot.trusts
  cases hf : m.clockFloor with
  | none => simp [FloorLe.none]
  | some floor => simp [floorLe_some, and_assoc]

namespace Follows
variable {r : Record P f} {s s' t : Lock P f} {c : Controller} {context : SessionContext}
  {cmd : Command} {pre post : List (Event Answer)}

/-- Every reading a call may rely on was trusted by the store. -/
theorem trusted (follows : Follows r s s')
    (path : Path (lockSpec P f) (s.enter r.call r.before.controller) pre t) :
    ∀ x ∈ t.1.clocks, TrustedIn r.before.disk pre x := by
  have disk : ∀ {tr} {u : Lock P f},
      Path (lockSpec P f) (s.enter r.call r.before.controller) tr u →
      u.1.disk = storage.afterAll r.before.disk tr := by
    intro tr u path
    rw [← follows.before.disk]
    exact path.view
  refine (Follows.along (I := fun tr u => u.1.disk = storage.afterAll r.before.disk tr
    ∧ ∀ x ∈ u.1.clocks, TrustedIn r.before.disk tr x) ?_ ⟨disk (.nil _), fun _ h => by cases h⟩
    path).2
  rintro tr u ev u' ⟨stored, trusted⟩ hs
  refine ⟨?_, fun x hx => ?_⟩
  · rw [Abs.step_disk hs, stored]
    simp [World.afterAll]
  · have reads := hs.reads
    generalize u'.1 = v at hx reads
    cases reads with
    | hear o live =>
      rcases List.mem_append.1 hx with heard | before
      · obtain ⟨rfl, relied⟩ := Option.filter_eq_some_iff.1 (Option.mem_toList.1 heard)
        obtain ⟨d, mem, trusts⟩ := (Option.any_eq_true (fun d => d.trusts x) u.1.mem).1 relied
        exact ⟨tr, [], d, rfl, by rw [← stored]; exact u.2.synced live d mem, trusts⟩
      · exact (trusted x before).append _
    | tick now =>
      unfold Abs.tick at hx
      split at hx
      · exact (trusted x hx).append _
      · exact (trusted x hx).append _
    | note => exact (trusted x hx).append _
    | other _ _ _ clocks =>
      rw [clocks] at hx
      exact (trusted x hx).append _

/-- A request that acts, or is answered, met the window of its grant. -/
theorem windowed (follows : Follows r s s') (owner : c.state.owner = some o)
    (read : readGrant P ⟨o.issuer⟩ cmd.credential = .ok g) (limited : g.validity = some v)
    (path : Path (lockSpec P f) (s.enter r.call r.before.controller) pre t)
    (admits : Admits P f c context cmd t.1) :
    ∃ x, TrustedIn r.before.disk pre x ∧ v.notBefore ≤ x.lower ∧ x.upper < v.notAfter := by
  obtain ⟨g', granted, window⟩ := admits.granted owner
  cases read.symm.trans granted.read
  obtain ⟨x, hx, within⟩ := window v limited
  exact ⟨x, follows.trusted path x hx, within⟩

/-- What a commit in the middle of a call changes. -/
theorem committing (follows : Follows r s s') (split : r.trace = pre ++ ⟨.commit n, x⟩ :: post)
    (disk : storage.afterAll r.before.disk pre = some a) :
    ∃ (t : Lock P f) (s₀ : Abs) (pr : Progress) (ow : Option Active),
      Path (lockSpec P f) (s.enter r.call r.before.controller) pre t
      ∧ t.1 = s₀.submitted n pr ow ∧ Change P f s₀ a n pr ow := by
  obtain ⟨t, t', path, hs, _, _, _, stored⟩ := follows.effect split
  have moves := t.2.moves hs
  generalize t'.1 = u at moves
  cases moves with
  | commit _ _ s₀ m pr ow _ _ disk' _ change submitted =>
    cases (disk ▸ stored).symm.trans disk'
    exact ⟨t, s₀, pr, ow, path, submitted, change⟩
  | install _ _ empty =>
    rw [stored, disk] at empty
    cases empty
  | other _ _ _ durable => exact absurd rfl (durable n)

end Follows

/-- A request or confirmation gets through: it is answered, recorded or acted upon. -/
def GetsThrough (r : Record P f) (c : Controller) : Prop :=
  (∃ out, r.output = some out ∧ out.failed = false) ∨ Acted r c

section Runs
variable {r : Record P f} {c : Controller} {context : SessionContext} {cmd : Command}

theorem Refused.stopped (h : Refused r c) : ¬ GetsThrough r c := by
  rintro (⟨out, returned, ok⟩ | ⟨pre, post, split, changed⟩ | ⟨c', left, changed⟩ |
    ⟨ev, hev, privileged⟩)
  · rw [h.failed out returned] at ok
    cases ok
  · exact changed (h.store pre post split)
  · exact changed (h.memory c' left)
  · rw [h.calm ev hev] at privileged
    cases privileged

/-- Trust in the clock comes back only in a request that has set it. -/
theorem Run.clock_trusted (run : Run P f) (hr : r ∈ run.records) {pre post : List (Event Answer)}
    (split : r.trace = pre ++ ⟨.commit n, x⟩ :: post)
    (disk : storage.afterAll r.before.disk pre = some a) (untrusted : a.clockValid = false)
    (trusted : n.clockValid = true) :
    ∃ c context cmd t, r.before.controller = some c
      ∧ r.call.request (some c) = some (context, cmd) ∧ cmd.action = .setClock t
      ∧ (⟨.setWallClock t, .ok ()⟩ : Event Answer) ∈ pre := by
  obtain ⟨s, s', follows⟩ := run.follows hr
  obtain ⟨t, s₀, pr, ow, path, submitted, change⟩ := follows.committing split disk
  rcases change.clockValid trusted with valid | ⟨y, time, accepted, action, set⟩
  · rw [untrusted] at valid
    cases valid
  · have progress : t.1.progress = .accepted y := by rw [submitted]; exact accepted
    have request := t.2.request progress
    have frame := Frame.path path
    rw [Abs.request, frame.call, frame.entry] at request
    have asked : r.call.request r.before.controller = some (y.context, y.command) := request
    obtain ⟨c, found⟩ := r.controller (Call.request_method asked)
    rw [found] at asked
    refine ⟨c, y.context, y.command, time, found, asked, action, ?_⟩
    have noted : (⟨.setWallClock time, .ok ()⟩ : Event Answer) ∈ t.1.notes := by
      rw [submitted]
      exact List.mem_of_mem_head? set
    exact (follows.guarded found asked path).heeds.notes _ noted

/-- Whoever gets through under a grant with a window met it on a trusted reading. -/
theorem Run.windowed (run : Run P f) (hr : r ∈ run.records) (found : r.before.controller = some c)
    (asks : r.call.Asks c context cmd) (owner : c.state.owner = some o)
    (read : readGrant P ⟨o.issuer⟩ cmd.credential = .ok g) (limited : g.validity = some v)
    (through : GetsThrough r c) :
    ∃ x, TrustedIn r.before.disk r.trace x ∧ v.notBefore ≤ x.lower ∧ x.upper < v.notAfter := by
  by_contra never
  refine (run.shut hr asks found ?_).stopped through
  intro s s' follows _ pre post t split path admits
  obtain ⟨x, trusted, within⟩ := follows.windowed owner read limited path admits
  exact never ⟨x, split ▸ trusted.append post, within⟩

/-- Below a watermark past its end, a grant is refused. -/
theorem Run.expired_refused (run : Run P f) (hr : r ∈ run.records)
    (found : r.before.controller = some c) (asks : r.call.Asks c context cmd) {d : DeviceSnapshot}
    (disk : r.before.disk = some d) (owner : d.owner = some o)
    (read : readGrant P ⟨o.issuer⟩ cmd.credential = .ok g) (limited : g.validity = some v)
    (expired : FloorLe (some v.notAfter) d.clockFloor) :
    Refused r c := by
  refine run.shut hr asks found ?_
  intro s s' follows synced pre post t split path admits
  cases disk.symm.trans synced
  obtain ⟨x, ⟨first, later, e, rfl, stored, trusts⟩, _, before⟩ :=
    follows.windowed owner read limited path admits
  obtain ⟨u, reached, _⟩ := path.split
  obtain ⟨e', he', forward⟩ := follows.advances reached disk
  cases stored.symm.trans he'
  obtain ⟨_, ordered, floor⟩ := trusts_iff.1 trusts
  have past := floorLe_some.1 ((expired.trans forward.floor).trans floor)
  exact UInt64.not_lt.2 (UInt64.le_trans past ordered) before

end Runs

/-- An expired grant is never revived. The watermark never falls; trust in the clock comes
back only in a `SetClock` request that has set it; whatever is answered, confirmed or
accepted under a grant with a window was read inside it on a clock the store trusted; and a
watermark past the window's end shuts the grant out for good. -/
theorem expired_never_revived (run : Run P f) :
    (∀ pre mid post, run.moments = pre ++ mid ++ post → ∀ a, storeAfter pre = some a →
      ∃ b, storeAfter (pre ++ mid) = some b ∧ FloorLe a.clockFloor b.clockFloor)
    ∧ (∀ r ∈ run.records, ∀ pre n x post a, r.trace = pre ++ ⟨.commit n, x⟩ :: post →
      storage.afterAll r.before.disk pre = some a → a.clockValid = false → n.clockValid = true →
      ∃ c context cmd t, r.before.controller = some c
        ∧ r.call.request (some c) = some (context, cmd) ∧ cmd.action = .setClock t
        ∧ (⟨.setWallClock t, .ok ()⟩ : Event Answer) ∈ pre)
    ∧ (∀ r ∈ run.records, ∀ c context cmd, r.before.controller = some c →
      r.call.Asks c context cmd → ∀ o g v, c.state.owner = some o →
      readGrant P ⟨o.issuer⟩ cmd.credential = .ok g → g.validity = some v → GetsThrough r c →
      ∃ pre x post d, r.trace = pre ++ ⟨.wallClock, some x⟩ :: post
        ∧ storage.afterAll r.before.disk pre = some d ∧ d.clockValid = true
        ∧ x.lower ≤ x.upper ∧ FloorLe d.clockFloor (some x.lower) ∧ v.notBefore ≤ x.lower
        ∧ x.upper < v.notAfter)
    ∧ ∀ rs r rest, run.records = rs ++ r :: rest → ∀ pre post a,
      rs.flatMap Record.moments = pre ++ post → storeAfter pre = some a →
      ∀ c context cmd, r.before.controller = some c → r.call.Asks c context cmd →
      ∀ d o g v, r.before.disk = some d → d.owner = some o →
      readGrant P ⟨o.issuer⟩ cmd.credential = .ok g → g.validity = some v →
      FloorLe (some v.notAfter) a.clockFloor → ¬ GetsThrough r c := by
  refine ⟨?_, ?_, ?_, ?_⟩
  · intro pre mid post split a ha
    obtain ⟨b, hb, advances⟩ := run.advances split ha
    exact ⟨b, hb, advances.floor⟩
  · intro r hr pre n x post a split disk untrusted trusted
    exact run.clock_trusted hr split disk untrusted trusted
  · intro r hr c context cmd found asks o g v owner read limited through
    obtain ⟨x, ⟨pre, post, d, split, stored, trusts⟩, within⟩ :=
      run.windowed hr found asks owner read limited through
    obtain ⟨valid, ordered, floor⟩ := trusts_iff.1 trusts
    exact ⟨pre, x, post, d, split, stored, valid, ordered, floor, within⟩
  · intro rs r rest split pre post a earlier ha c context cmd found asks d o g v disk owner read
      limited expired
    have order : run.moments = pre ++ post ++ (r :: rest).flatMap Record.moments := by
      rw [Run.moments, split, List.flatMap_append, earlier]
    obtain ⟨b, hb, advances⟩ := run.advances order ha
    have stored : r.before.disk = some b := by
      obtain ⟨s, s', forward, follows⟩ := run.call Forward.inductively split
      rw [← follows.before.disk, forward.disk, earlier, hb]
    cases disk.symm.trans stored
    have hr : r ∈ run.records := by
      rw [split]
      exact List.mem_append_right _ List.mem_cons_self
    exact (run.expired_refused hr found asks disk owner read limited
      (expired.trans advances.floor)).stopped

end OpenLock
