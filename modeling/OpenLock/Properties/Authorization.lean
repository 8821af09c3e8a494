import OpenLock.Abstract.Order
import OpenLock.Device.Scripted
import OpenLock.Refinement.Run

/-! Authorization soundness: whatever a request changes or does, its session was current
and it came as a claim of an ownerless device or under a grant of the current issuer. -/
namespace OpenLock
open Controller Effects DeviceSnapshot

variable {P : Primitives} {f : FactoryIdentity} {s s' : Lock P f} {c : Controller} {r : Record P f}
  {context : SessionContext} {ev : Event Answer} {cmd : Command} {x : Accepted}

/-- The readings and answers the lock remembers are those of this call. -/
structure Heeds (tr : List (Event Answer)) (s : Abs) : Prop where
  clocks : ∀ r ∈ s.clocks, (⟨.wallClock, some r⟩ : Event Answer) ∈ tr ∧ r.lower ≤ r.upper
  times : ∀ t ∈ s.times, (⟨.monotonicMs, t⟩ : Event Answer) ∈ tr
  notes : ∀ ev ∈ s.notes, ev ∈ tr

namespace Heeds
variable {tr : List (Event Answer)} {s s' : Abs} {ev : Event Answer}

theorem entered (s : Lock P f) (call : Call) (entry : Option Controller) :
    Heeds [] (s.enter call entry).1 :=
  ⟨fun _ h => (by cases h), fun _ h => (by cases h), fun _ h => (by cases h)⟩

private theorem later (h : Heeds tr s) : Heeds (tr ++ [ev]) s :=
  ⟨fun r hr => (h.clocks r hr).imp_left (List.mem_append_left _),
    fun t ht => List.mem_append_left _ (h.times t ht),
    fun n hn => List.mem_append_left _ (h.notes n hn)⟩

theorem step (h : Heeds tr s) (hs : s.Step P f ev s') : Heeds (tr ++ [ev]) s' := by
  have old : Heeds (tr ++ [ev]) s := h.later
  have new : ev ∈ tr ++ [ev] := List.mem_append_right _ List.mem_cons_self
  cases hs.reads with
  | tick t =>
    unfold Abs.tick
    split
    · exact ⟨old.clocks, old.times, old.notes⟩
    · exact ⟨old.clocks, List.forall_mem_cons.2 ⟨new, old.times⟩, old.notes⟩
  | hear x =>
    refine ⟨fun r hr => ?_, old.times, old.notes⟩
    rcases List.mem_append.1 hr with heard | before
    · obtain ⟨rfl, trusted⟩ := Option.filter_eq_some_iff.1 (Option.mem_toList.1 heard)
      obtain ⟨m, _, trusts⟩ := (Option.any_eq_true _ _).1 trusted
      simp only [DeviceSnapshot.trusts, Bool.and_eq_true, decide_eq_true_eq] at trusts
      exact ⟨new, trusts.1.2⟩
    · exact old.clocks r before
  | note => exact ⟨old.clocks, old.times, List.forall_mem_cons.2 ⟨new, old.notes⟩⟩
  | other _ _ times clocks notes =>
    exact ⟨clocks ▸ old.clocks, times ▸ old.times, notes ▸ old.notes⟩

end Heeds

/-- A claim of an ownerless device: the pairing window was open when the call read the
clock, the setup key is the device's, and the proposed issuer signed an unlimited grant
with every right for this lock, epoch and peer. -/
def ClaimAuthority (P : Primitives) (f : FactoryIdentity) (c : Controller)
    (context : SessionContext) (cmd : Command) (tr : List (Event Answer)) : Prop :=
  ∃ key issuer admin g, cmd.action = .claim key issuer admin ∧ c.state.owner = none
    ∧ (∃ now deadline, (⟨.monotonicMs, now⟩ : Event Answer) ∈ tr
      ∧ c.pairingUntil = some deadline ∧ now < deadline ∧ c.pairingFailures < 5)
    ∧ P.sha256 key.toList = f.setupKeyHash ∧ readGrant P ⟨issuer⟩ admin = .ok g
    ∧ g.rights = knownRights ∧ g.validity = none ∧ g.maxUses = none
    ∧ g.lockId = c.state.lockId ∧ g.epoch = c.state.epoch ∧ g.subjectKey = context.peer

/-- A grant of the current issuer for this request, not bound to other bytes, within its
window on a clock this call has read, and with a new sequence. -/
def GrantAuthority (P : Primitives) (c : Controller) (context : SessionContext) (cmd : Command)
    (tr : List (Event Answer)) : Prop :=
  ∃ o g seq, Granted P c.state context cmd o g
    ∧ (c.state.bindings[g.credentialId]? = none
      ∨ c.state.bindings[g.credentialId]? = some (P.sha256 cmd.credential))
    ∧ (∀ v, g.validity = some v → ∃ r : ClockSample, (⟨.wallClock, some r⟩ : Event Answer) ∈ tr
      ∧ v.notBefore ≤ r.lower ∧ r.upper < v.notAfter)
    ∧ cmd.sequence = some seq ∧ c.state.watermark g.credentialId < seq

/-- What entitles a request to change or do something. -/
structure Permitted (P : Primitives) (f : FactoryIdentity) (c : Controller)
    (context : SessionContext) (cmd : Command) (tr : List (Event Answer)) : Prop where
  generation : context.generation = c.state.generation
  capability : cmd.capability &&& f.info.capabilities ≠ 0
  authority : ClaimAuthority P f c context cmd tr ∨ GrantAuthority P c context cmd tr

section Permission
variable {c : Controller} {context : SessionContext} {cmd : Command} {tr : List (Event Answer)}
  {m n : DeviceSnapshot} {now : UInt64} {g : Grant}

theorem Authorized.permitted {s : Abs} {seq : UInt64} (heeds : Heeds tr s)
    (h : Authorized P f m s.clocks context cmd g seq) (auth : m.auth = c.state.auth) :
    Permitted P f c context cmd tr := by
  have grant := h.grant
  rw [checkGrant_congr auth, checkGrant_ok] at grant
  obtain ⟨o, granted⟩ := grant
  have binding := h.binding
  rw [checkBinding_congr auth, checkBinding] at binding
  refine ⟨granted.generation, h.capability, .inr ⟨o, g, seq, granted, ?_, fun v hv => ?_,
    h.sequence, ?_⟩⟩
  · cases bound : c.state.bindings[g.credentialId]? with
    | none => exact .inl rfl
    | some hash =>
      rw [bound, failIf_eq_ok, not_not] at binding
      exact .inr (by rw [binding])
  · obtain ⟨r, hr, within⟩ := h.window v hv
    exact ⟨r, (heeds.clocks r hr).1, within⟩
  · rw [← watermark_congr auth]
    exact h.fresh

theorem windowClosed_eq_false (h : windowClosed c now = false) :
    ∃ deadline, c.pairingUntil = some deadline ∧ now < deadline ∧ c.pairingFailures < 5 := by
  unfold windowClosed at h
  rw [Bool.or_eq_false_iff] at h
  obtain ⟨window, failures⟩ := h
  cases until_ : c.pairingUntil with
  | none => simp [until_] at window
  | some deadline =>
    refine ⟨deadline, rfl, ?_, ?_⟩
    · simpa [until_] using window
    · simpa using failures

theorem Claiming.permitted {s : Abs} {key issuer : Bytes32} {admin : Bytes} (heeds : Heeds tr s)
    (read : now ∈ s.times) (h : Claiming P f c now context cmd key issuer admin g m n)
    (auth : m.auth = c.state.auth) :
    Permitted P f c context cmd tr := by
  have generation : m.generation = c.state.generation := congrArg AuthState.generation auth
  have owner : m.owner = c.state.owner := congrArg AuthState.owner auth
  have lockId : m.lockId = c.state.lockId := congrArg AuthState.lockId auth
  have epoch : m.epoch = c.state.epoch := congrArg AuthState.epoch auth
  obtain ⟨deadline, until_, before, failures⟩ := windowClosed_eq_false h.window
  have admin' := h.administrator
  simp only [adminRejected, Bool.or_eq_false_iff, bne_eq_false_iff_eq, Option.isSome_eq_false_iff,
    Option.isNone_iff_eq_none, and_assoc] at admin'
  obtain ⟨lock, subject, era, rights, uses, validity⟩ := admin'
  exact ⟨h.generation.trans generation, h.capability, .inl ⟨key, issuer, admin, g, h.action,
    owner.symm.trans h.ownerless, ⟨now, deadline, heeds.times now read, until_, before, failures⟩,
    h.setupKey, h.grant, rights, validity, uses, lock.trans lockId, era.trans epoch, subject⟩⟩

/-- What entitles a request, in terms of the snapshot it was checked against. -/
inductive Entitled (P : Primitives) (f : FactoryIdentity) (c : Controller)
    (context : SessionContext) (cmd : Command) (s : Abs) : Prop
  | granted (m : DeviceSnapshot) (g : Grant) (seq : UInt64) (auth : m.auth = c.state.auth)
      (authorized : Authorized P f m s.clocks context cmd g seq)
  | claiming (m n : DeviceSnapshot) (now : UInt64) (key issuer : Bytes32) (admin : Bytes)
      (g : Grant) (auth : m.auth = c.state.auth) (read : now ∈ s.times)
      (claiming : Claiming P f c now context cmd key issuer admin g m n)

/-- An entitlement outlives the effect it was found before. -/
theorem Entitled.mono {s s' : Abs} (h : Entitled P f c context cmd s)
    (clocks : s.clocks ⊆ s'.clocks) (times : s.times ⊆ s'.times) :
    Entitled P f c context cmd s' := by
  cases h with
  | granted m g seq auth h =>
    refine .granted m g seq auth { h with window := fun v hv => ?_ }
    obtain ⟨r, hr, within⟩ := h.window v hv
    exact ⟨r, clocks hr, within⟩
  | claiming m n now key issuer admin g auth read h =>
    exact .claiming m n now key issuer admin g auth (times read) h

theorem Entitled.permitted {s : Abs} (h : Entitled P f c context cmd s) (heeds : Heeds tr s) :
    Permitted P f c context cmd tr := by
  cases h with
  | granted m g seq auth h => exact h.permitted heeds auth
  | claiming m n now key issuer admin g auth read h => exact h.permitted heeds read auth

/-- What an accepted request was checked against: the authorization state its call began
with, on clock readings of the call, with a use left where one was reserved. -/
def Vouched (P : Primitives) (f : FactoryIdentity) (c : Controller) (clocks : List ClockSample)
    (x : Accepted) : Prop :=
  ∃ m, m.auth = c.state.auth ∧ Authorized P f m clocks x.context x.command x.grant x.sequence
    ∧ (x.reserved = true → UseAllowed m x.grant)

theorem Vouched.mono {clocks clocks' : List ClockSample} (h : Vouched P f c clocks x)
    (more : clocks ⊆ clocks') : Vouched P f c clocks' x := by
  obtain ⟨m, auth, authorized, use⟩ := h
  refine ⟨m, auth, { authorized with window := fun v hv => ?_ }, use⟩
  obtain ⟨r, hr, within⟩ := authorized.window v hv
  exact ⟨r, more hr, within⟩

/-- The request is entitled to what it does, and has moved on if it is live. -/
structure Engaged (P : Primitives) (f : FactoryIdentity) (c : Controller)
    (context : SessionContext) (cmd : Command) (s : Abs) : Prop where
  entitled : Entitled P f c context cmd s
  started : s.poisoned = false → s.progress ≠ .fresh
  vouched : ∀ x, s.progress = .accepted x → Vouched P f c s.clocks x

theorem Engaged.step (h : Engaged P f c context cmd s.1) (hs : s.1.Step P f ev s'.1) :
    Engaged P f c context cmd s'.1 := by
  have frame := Frame.step hs
  have kept : s'.1.progress = s.1.progress ∨ ∃ k, s'.1.progress = .driven k := by
    have moves := s.2.moves hs
    generalize s'.1 = t at moves
    cases moves with
    | start => exact .inr ⟨_, rfl⟩
    | install _ r => cases r <;> exact .inl rfl
    | other _ _ _ _ _ progress => exact .inl progress
    | commit n r s₀ m pr ow live _ _ _ change submitted =>
      have same : s.1.progress = s₀.progress := by rw [submitted]; rfl
      have stays : pr = s₀.progress := change.advanced.resolve_right fun fresh =>
        h.started (by rw [submitted]; exact live) (same.trans fresh)
      cases r with
      | ok => exact .inl (stays.trans same.symm)
      | lost | written => exact .inl rfl
  refine ⟨h.entitled.mono frame.clocks frame.times, fun live fresh => ?_, fun x working => ?_⟩
  · rcases kept with same | ⟨k, driven⟩
    · exact h.started (hs.alive live) (same.symm.trans fresh)
    · cases fresh.symm.trans driven
  · rcases kept with same | ⟨k, driven⟩
    · exact (h.vouched x (same.symm.trans working)).mono frame.clocks
    · cases working.symm.trans driven

end Permission

/-- Nothing authorized has happened yet in this call. -/
structure Untouched (c : Controller) (disk : Option DeviceSnapshot) (tr : List (Event Answer))
    (s : Abs) : Prop where
  progress : s.progress = .fresh
  disk : s.disk.map DeviceSnapshot.auth = disk.map DeviceSnapshot.auth
  mem : ∃ m, s.mem = some m ∧ m.auth = c.state.auth
  calm : ∀ ev ∈ tr, ev.effect.privileged = false

/-- One more effect of an untouched call: its changes are housekeeping, or `Q` holds. -/
theorem Untouched.step {disk : Option DeviceSnapshot} {tr : List (Event Answer)}
    {Q : Prop} (u : Untouched c disk tr s.1)
    (hs : s.1.Step P f ev s'.1) (method : s.1.call.constructs = false)
    (change : ∀ s₀ m n pr ow x, ev = ⟨.commit n, x⟩ → s.1 = s₀.submitted n pr ow →
      s'.1 = s.1.committed n pr x → s₀.progress = .fresh → s.1.disk = some m →
      m.auth = c.state.auth → Change P f s₀ m n pr ow → (pr = .fresh ∧ n.auth = m.auth) ∨ Q) :
    Untouched c disk (tr ++ [ev]) s'.1 ∨ Q := by
  obtain ⟨m, hm, auth⟩ := u.mem
  have calm : ev.effect.privileged = false →
      ∀ ev' ∈ tr ++ [ev], ev'.effect.privileged = false := by
    intro quiet ev' hev'
    rcases List.mem_append.1 hev' with old | new
    · exact u.calm ev' old
    · cases List.mem_singleton.1 new
      exact quiet
  have moves := s.2.moves hs
  generalize ht : s'.1 = t at moves
  cases moves with
  | start _ _ _ _ _ a _ _ _ _ _ _ _ _ armed =>
    rw [u.progress] at armed
    cases armed
  | install _ _ _ installs =>
    rw [Call.installs_constructs installs] at method
    cases method
  | other _ _ _ _ same progress mem acts =>
    refine .inl ⟨progress.trans u.progress, by rw [same]; exact u.disk,
      ⟨m, (mem method).trans hm, auth⟩, calm ?_⟩
    by_contra privileged
    obtain ⟨x, accepted⟩ := acts (by simpa using privileged)
    rw [u.progress] at accepted
    cases accepted
  | commit n r s₀ m' pr ow _ hm' stored _ changed submitted =>
    have mem : s.1.mem = some m' := by rw [submitted]; exact hm'
    cases hm.symm.trans mem
    have fresh : s₀.progress = .fresh := by rw [← u.progress, submitted]; rfl
    rcases change s₀ m n pr ow r rfl submitted ht fresh stored auth changed with ⟨same, kept⟩ | q
    · refine .inl ?_
      have quiet := calm rfl
      have disk' : (some n).map DeviceSnapshot.auth = disk.map DeviceSnapshot.auth := by
        rw [← u.disk, stored, Option.map_some, Option.map_some, kept]
      cases r with
      | ok => exact ⟨same, disk', ⟨n, rfl, kept.trans auth⟩, quiet⟩
      | lost => exact ⟨u.progress, u.disk, ⟨m, mem, auth⟩, quiet⟩
      | written => exact ⟨u.progress, disk', ⟨m, mem, auth⟩, quiet⟩
    · exact .inr q

/-- During a request nothing authorized happens, or the request is entitled to it. -/
structure Guarded (c : Controller) (context : SessionContext) (cmd : Command)
    (disk : Option DeviceSnapshot) (tr : List (Event Answer)) (s : Lock P f) : Prop where
  heeds : Heeds tr s.1
  request : s.1.request = some (context, cmd)
  entered : s.1.entry = some c
  guarded : Untouched c disk tr s.1 ∨ Engaged P f c context cmd s.1

namespace Guarded
variable {c : Controller} {context : SessionContext} {cmd : Command}
  {disk : Option DeviceSnapshot} {tr : List (Event Answer)} {s s' : Lock P f} {ev : Event Answer}

/-- A change made by an untouched call is housekeeping, or the request is entitled to it. -/
private theorem change {s₀ : Abs} {m n : DeviceSnapshot} {pr : Progress} {ow : Option Active}
    (request : s₀.request = some (context, cmd)) (entered : s₀.entry = some c)
    (fresh : s₀.progress = .fresh) (auth : m.auth = c.state.auth)
    (change : Change P f s₀ m n pr ow) :
    (pr = .fresh ∧ n.auth = m.auth) ∨ (Entitled P f c context cmd s₀ ∧ pr ≠ .fresh
      ∧ ∀ x, pr = .accepted x → Vouched P f c s₀.clocks x) := by
  cases change with
  | upkeep h => exact .inl ⟨(h.steady (s₀.serves request)).trans fresh, h.auth⟩
  | accept x _ _ asked h =>
    cases request.symm.trans asked
    refine .inr ⟨.granted m x.grant x.sequence auth h.authorized, fun h => (by cases h), ?_⟩
    rintro _ ⟨⟩
    exact ⟨m, auth, h.authorized, fun reserved => (h.reserved reserved).2⟩
  | claim entry now _ _ key issuer admin g _ _ asked entry' read h =>
    cases request.symm.trans asked
    cases entered.symm.trans entry'
    exact .inr ⟨.claiming m n now key issuer admin g auth read h, fun h => (by cases h),
      fun _ h => (by cases h)⟩
  | domain _ _ _ _ g seq _ _ asked _ _ _ authorized _ =>
    cases request.symm.trans asked
    exact .inr ⟨.granted m g seq auth authorized, fun h => (by cases h), fun _ h => (by cases h)⟩
  | effect x _ accepted => cases fresh.symm.trans accepted
  | clock _ _ _ accepted => cases fresh.symm.trans accepted
  | trialEnded _ _ call => exact absurd call (s₀.serves request)

private theorem untouched (h : Guarded c context cmd disk tr s) (u : Untouched c disk tr s.1)
    (hs : s.1.Step P f ev s'.1) :
    Untouched c disk (tr ++ [ev]) s'.1 ∨ Engaged P f c context cmd s'.1 := by
  refine u.step hs (Call.request_method h.request) ?_
  intro s₀ m n pr ow x _ submitted after fresh _ auth change
  have entered : s₀.entry = some c := by rw [← h.entered, submitted]; rfl
  have request : s₀.request = some (context, cmd) := by rw [← h.request, submitted]; rfl
  refine (Guarded.change request entered fresh auth change).imp_right ?_
  rintro ⟨entitled, moved, vouched⟩
  have frame := Frame.step hs
  have clocks : s₀.clocks = s.1.clocks := by rw [submitted]; rfl
  have times : s₀.times = s.1.times := by rw [submitted]; rfl
  refine ⟨entitled.mono (clocks ▸ frame.clocks) (times ▸ frame.times), ?_, ?_⟩ <;> rw [after]
  · cases x with
    | ok => exact fun _ => moved
    | lost | written => exact fun live => (by cases live)
  · have waits : ∀ y, s.1.progress ≠ .accepted y := fun y h => by cases u.progress.symm.trans h
    intro y working
    cases x with
    | ok => exact (vouched y working).mono (clocks ▸ List.Subset.refl _)
    | lost | written => exact absurd working (waits y)

theorem step (h : Guarded c context cmd disk tr s) (hs : s.1.Step P f ev s'.1) :
    Guarded c context cmd disk (tr ++ [ev]) s' := by
  have frame := Frame.step hs
  refine ⟨h.heeds.step hs, frame.request.trans h.request, frame.entry.trans h.entered, ?_⟩
  rcases h.guarded with u | engaged
  · exact h.untouched u hs
  · exact .inr (engaged.step hs)

/-- An accepted request was vouched for. -/
theorem vouched (h : Guarded c context cmd disk tr s) (working : s.1.progress = .accepted x) :
    Vouched P f c s.1.clocks x := by
  rcases h.guarded with u | engaged
  · cases u.progress.symm.trans working
  · exact engaged.vouched x working

end Guarded

/-- A call that at some point changes authorization state, in memory or in the store, or
calls a privileged effect. -/
def Acted (r : Record P f) (c : Controller) : Prop :=
  (∃ pre post, r.trace = pre ++ post
    ∧ (storage.afterAll r.before.disk pre).map DeviceSnapshot.auth
      ≠ r.before.disk.map DeviceSnapshot.auth)
  ∨ (∃ c', r.after.controller = some c' ∧ c'.state.auth ≠ c.state.auth)
  ∨ ∃ ev ∈ r.trace, ev.effect.privileged = true

/-- A method begins untouched. -/
theorem Follows.untouched (follows : Follows r s s') (found : r.before.controller = some c)
    (method : r.call.constructs = false) :
    Untouched c r.before.disk [] (s.enter r.call r.before.controller).1 := by
  refine ⟨rfl, ?_, ⟨c.state, (follows.coupled found method).mem, rfl⟩, fun _ h => (by cases h)⟩
  rw [← follows.before.disk]
  rfl

/-- Throughout a request, nothing authorized has happened or the request is entitled to it. -/
theorem Follows.guarded (follows : Follows r s s') (found : r.before.controller = some c)
    (request : r.call.request (some c) = some (context, cmd)) {pre : List (Event Answer)}
    {t : Lock P f} (path : Path (lockSpec P f) (s.enter r.call r.before.controller) pre t) :
    Guarded c context cmd r.before.disk pre t := by
  have entered : Guarded c context cmd r.before.disk [] (s.enter r.call r.before.controller) := by
    refine ⟨.entered _ _ _, ?_, found, .inl (follows.untouched found (Call.request_method request))⟩
    change r.call.request r.before.controller = _
    rw [found]
    exact request
  exact Follows.along (fun _ _ _ _ h hs => h.step hs) entered path

/-- A request that changes or does anything was entitled to it when it returned. -/
theorem Follows.entitled (follows : Follows r s s') (found : r.before.controller = some c)
    (request : r.call.request (some c) = some (context, cmd)) (acted : Acted r c) :
    Entitled P f c context cmd s'.1 := by
  have whole := follows.guarded found request follows.path
  rcases acted with ⟨pre, post, split, changed⟩ | ⟨c', returned, changed⟩ | ⟨ev, hev, privileged⟩
  · have path := follows.path
    rw [split] at path
    obtain ⟨t, before, rest⟩ := path.split
    rcases (follows.guarded found request before).guarded with u | engaged
    · have disk : t.1.disk = storage.afterAll r.before.disk pre := by
        rw [← follows.before.disk]
        exact before.view
      exact absurd (disk ▸ u.disk) changed
    · have frame := Frame.path rest
      exact engaged.entitled.mono frame.clocks frame.times
  · rcases whole.guarded with u | engaged
    · obtain ⟨m, hm, auth⟩ := u.mem
      cases hm.symm.trans (follows.after.controller c' returned).mem
      exact absurd auth changed
    · exact engaged.entitled
  · rcases whole.guarded with u | engaged
    · rw [u.calm ev hev] at privileged
      cases privileged
    · exact engaged.entitled

/-- Whatever a request does in any reachable state, it was entitled to. -/
theorem requests_authorized (run : Run P f) (r : Record P f) (hr : r ∈ run.records)
    (c : Controller) (found : r.before.controller = some c) (context : SessionContext)
    (cmd : Command) (request : r.call.request (some c) = some (context, cmd)) (acted : Acted r c) :
    Permitted P f c context cmd r.trace := by
  obtain ⟨s, s', follows⟩ := run.follows hr
  have heeds := (follows.guarded found request follows.path).heeds
  exact (follows.entitled found request acted).permitted heeds

/-- The first unlock of a device taken over from a legacy record. -/
theorem requests_authorized_unlocking : ∃ c, Bench.unlocking.before.controller = some c
    ∧ Permitted Bench.primitives Bench.factory c ⟨Bench.peer, 1⟩ ⟨[2, 0], some 1, .unlock⟩
      Bench.unlocking.trace := by
  have started : Bench.unlocking.trace[13]? =
      some ⟨.startAction ⟨1, 1⟩ .unlock 500 false, .ok ()⟩ := by decide +kernel
  obtain ⟨c, found⟩ := Bench.unlocking.controller rfl
  exact ⟨c, found, requests_authorized Bench.driven Bench.unlocking Bench.unlocking_mem c found _ _ rfl
    (.inr (.inr ⟨_, List.mem_of_getElem? started, rfl⟩))⟩

end OpenLock
