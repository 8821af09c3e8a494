import OpenLock.Device.Frames
import OpenLock.Properties.Interlock
import OpenLock.Properties.Refusal

/-! Physical confirmation is one-shot and exact: every reset and every replacement of the
issuer spends a confirmation of its own, recorded for it within the minute before. -/
namespace OpenLock
open Controller Effects

variable {P : Primitives} {f : FactoryIdentity} {tr : List (Event Answer)} {m n : DeviceSnapshot}
  {c c' : Controller} {disk : Option DeviceSnapshot} {context : SessionContext} {ev : Event Answer}
  {cmd : Command}

/-- The monotonic readings among some effects. -/
def readings (tr : List (Event Answer)) : List UInt64 :=
  tr.filterMap fun ev => match ev with
    | ⟨.monotonicMs, t⟩ => some t
    | _ => none

theorem mem_readings {t : UInt64} : t ∈ readings tr ↔ (⟨.monotonicMs, t⟩ : Event Answer) ∈ tr := by
  rw [readings, List.mem_filterMap]
  constructor
  · rintro ⟨⟨e, x⟩, hev, tick⟩
    cases e with
    | monotonicMs =>
      cases tick
      exact hev
    | _ => cases tick
  · exact fun h => ⟨_, h, rfl⟩

/-- The readings of a method call on this controller never went back, while it is live. -/
structure Timed (c : Controller) (tr : List (Event Answer)) (s : Lock P f) : Prop where
  recalls : Recalls c tr s.1
  ordered : s.1.poisoned = false → (c.lastMono :: readings tr).Pairwise (· ≤ ·)
    ∧ ∀ t ∈ c.lastMono :: readings tr, t ≤ lastTick c.lastMono tr

theorem Timed.step {s s' : Lock P f} (h : Timed c tr s) (hs : s.1.Step P f ev s'.1) :
    Timed c (tr ++ [ev]) s' := by
  refine ⟨h.recalls.step hs, fun live' => ?_⟩
  have live := hs.alive live'
  obtain ⟨ordered, upTo⟩ := h.ordered live
  obtain ⟨e, x⟩ := ev
  by_cases tick : e = .monotonicMs
  · subst tick
    have later : lastTick c.lastMono tr ≤ x := by
      rw [← h.recalls.mono live]
      by_contra back
      have dead : s'.1.poisoned = true := by
        rw [hs.2, Abs.tick, if_pos (UInt64.not_le.1 back)]
      rw [dead] at live'
      cases live'
    have last : lastTick c.lastMono (tr ++ [⟨.monotonicMs, x⟩]) = x := by
      rw [lastTick, List.foldl_append]
      rfl
    have more : readings (tr ++ [⟨.monotonicMs, x⟩]) = readings tr ++ [x] := by
      rw [readings, List.filterMap_append]
      rfl
    have below : ∀ t ∈ c.lastMono :: readings tr, t ≤ x := fun t ht =>
      UInt64.le_trans (upTo t ht) later
    rw [last, more, ← List.cons_append]
    refine ⟨List.pairwise_append.2 ⟨ordered, List.pairwise_singleton _ _, ?_⟩, ?_⟩
    · intro t ht u hu
      cases List.mem_singleton.1 hu
      exact below t ht
    · intro t ht
      rcases List.mem_append.1 ht with old | new
      · exact below t old
      · cases List.mem_singleton.1 new
        exact UInt64.le_refl _
  · have last : lastTick c.lastMono (tr ++ [⟨e, x⟩]) = lastTick c.lastMono tr := by
      rw [lastTick, List.foldl_append]
      cases e with
      | monotonicMs => exact absurd rfl tick
      | _ => rfl
    have same : readings (tr ++ [⟨e, x⟩]) = readings tr := by
      rw [readings, List.filterMap_append]
      cases e with
      | monotonicMs => exact absurd rfl tick
      | _ => exact List.append_nil _
    rw [last, same]
    exact ⟨ordered, upTo⟩

theorem clearsDomain_confirms {m : DeviceSnapshot} {action : Action}
    (h : Confirms action) : clearsDomain P m action = .ok true := by
  cases action with
  | factoryReset | replaceIssuer => rfl
  | _ => exact h.elim

theorem DomainChange.confirmed {entry : Controller} {now : UInt64}
    (h : DomainChange P f entry now context cmd m n) (confirmable : Confirms cmd.action) :
    Confirmed P entry now context cmd ∧ m.firmware.phase ≠ .trial := by
  cases h with
  | reset _ confirmed settled => exact ⟨confirmed, settled⟩
  | replace _ _ confirmed settled => exact ⟨confirmed, settled⟩
  | epoch _ _ _ action =>
    rw [action] at confirmable
    exact confirmable.elim

/-- After these effects of the call, the request replaces the authorization domain of `m`
by that of `n`. -/
structure Executes (P : Primitives) (f : FactoryIdentity) (c : Controller)
    (context : SessionContext) (cmd : Command) (disk : Option DeviceSnapshot)
    (pre : List (Event Answer)) (m n : DeviceSnapshot) (now : UInt64) : Prop where
  stored : storage.afterAll disk pre = some m
  auth : m.auth = c.state.auth
  read : now ∈ readings pre
  ordered : (c.lastMono :: readings pre).Pairwise (· ≤ ·)
  idle : pre.foldl owns c.active.isSome = false
  change : DomainChange P f c now context cmd m n

/-- The call has handed such a replacement to the store. -/
def TookEffect (P : Primitives) (f : FactoryIdentity) (c : Controller) (context : SessionContext)
    (cmd : Command) (disk : Option DeviceSnapshot) (tr : List (Event Answer)) : Prop :=
  ∃ pre post n x m now, tr = pre ++ ⟨.commit n, x⟩ :: post
    ∧ Executes P f c context cmd disk pre m n now

theorem TookEffect.append (h : TookEffect P f c context cmd disk tr) (more : List (Event Answer)) :
    TookEffect P f c context cmd disk (tr ++ more) := by
  obtain ⟨pre, post, n, x, m, now, rfl, executes⟩ := h
  exact ⟨pre, post ++ more, n, x, m, now, by simp, executes⟩

/-- Nothing more can be accepted in this call. -/
def Concluded (s : Abs) : Prop := s.poisoned = true ∨ s.progress = .settled

theorem Concluded.step {s s' : Lock P f} (h : Concluded s.1) (hs : s.1.Step P f ev s'.1) :
    Concluded s'.1 := by
  rcases h with dead | settled
  · obtain ⟨r, _, stopped⟩ := hs.of_poisoned dead
    rw [stopped]
    exact .inl (Abs.poisoned_stop _ r dead)
  · exact .inr (s.2.settled hs settled)

theorem Concluded.path {s s' : Lock P f} (h : Concluded s.1) (path : Path (lockSpec P f) s tr s') :
    Concluded s'.1 :=
  path.invariant (I := fun u => Concluded u.1) (fun hs h => h.step hs) h

/-- How far a request that needs a confirmation has come. -/
structure Attempt (c : Controller) (context : SessionContext) (cmd : Command)
    (disk : Option DeviceSnapshot) (tr : List (Event Answer)) (s : Lock P f) : Prop where
  timed : Timed c tr s
  heeds : Heeds tr s.1
  watched : Watched c.active.isSome tr s.1
  request : s.1.request = some (context, cmd)
  entered : s.1.entry = some c
  stored : s.1.disk = storage.afterAll disk tr
  outcome : Untouched c disk tr s.1 ∨ (TookEffect P f c context cmd disk tr ∧ Concluded s.1)

namespace Attempt
variable {c : Controller} {context : SessionContext} {cmd : Command}
  {disk : Option DeviceSnapshot} {tr : List (Event Answer)} {s s' : Lock P f} {ev : Event Answer}

/-- What an untouched attempt commits is housekeeping or the replacement itself. -/
private theorem commits (h : Attempt c context cmd disk tr s) (confirmable : Confirms cmd.action)
    {s₀ : Abs} {pr : Progress} {ow : Option Active} (submitted : s.1 = s₀.submitted n pr ow)
    (live : s.1.poisoned = false) (fresh : s₀.progress = .fresh) (stored : s.1.disk = some m)
    (auth : m.auth = c.state.auth) (change : Change P f s₀ m n pr ow) :
    (pr = .fresh ∧ n.auth = m.auth)
      ∨ (pr = .settled ∧ ∃ now, Executes P f c context cmd disk tr m n now) := by
  have request : s₀.request = some (context, cmd) := by rw [← h.request, submitted]; rfl
  have entered : s₀.entry = some c := by rw [← h.entered, submitted]; rfl
  cases change with
  | upkeep h => exact .inl ⟨(h.steady (s₀.serves request)).trans fresh, h.auth⟩
  | accept x _ _ asked accepted =>
    cases request.symm.trans asked
    cases accepted.keepsDomain.symm.trans (clearsDomain_confirms confirmable)
  | claim _ _ _ _ _ _ _ _ _ _ asked _ _ claiming =>
    cases request.symm.trans asked
    rw [claiming.action] at confirmable
    exact confirmable.elim
  | domain _ now _ _ _ _ _ _ asked entry read idle _ change =>
    cases request.symm.trans asked
    cases entered.symm.trans entry
    have owned : s.1.owned = none := by rw [submitted]; exact idle
    have times : s₀.times = s.1.times := by rw [submitted]; rfl
    refine .inr ⟨rfl, now, h.stored.symm.trans stored, auth,
      mem_readings.2 (h.heeds.times now (times ▸ read)), (h.timed.ordered live).1, ?_, change⟩
    rcases h.watched.owned with ⟨_, _, completion⟩ | same
    · have asked := h.request
      rw [Abs.request, completion] at asked
      cases asked
    · rw [← same, owned]
      rfl
  | effect _ _ accepted => cases fresh.symm.trans accepted
  | clock _ _ _ accepted => cases fresh.symm.trans accepted
  | trialEnded _ _ call => exact absurd call (s₀.serves request)

theorem step (h : Attempt c context cmd disk tr s) (confirmable : Confirms cmd.action)
    (hs : s.1.Step P f ev s'.1) : Attempt c context cmd disk (tr ++ [ev]) s' := by
  have frame := Frame.step hs
  refine ⟨h.timed.step hs, h.heeds.step hs, h.watched.step hs, frame.request.trans h.request,
    frame.entry.trans h.entered, ?_, ?_⟩
  · rw [World.afterAll, List.foldl_append]
    exact (Abs.step_disk hs).trans (congrArg (storage.after · ev) h.stored)
  · rcases h.outcome with untouched | ⟨tookEffect, concluded⟩
    · refine untouched.step hs (Call.request_method h.request) ?_
      intro s₀ m n pr ow x event submitted after fresh stored auth change
      have live : s.1.poisoned = false := by
        rw [event] at hs
        rcases hs with ⟨s₁, _, _, _, live, _, _, same, _⟩ | ⟨quiet, _⟩
        · rw [same]
          exact live
        · exact quiet.live
      rcases h.commits confirmable submitted live fresh stored auth change with
        same | ⟨settled, now, executes⟩
      · exact .inl same
      · refine .inr ⟨⟨tr, [], n, x, m, now, by rw [event], executes⟩, ?_⟩
        rw [after]
        cases x with
        | ok => exact .inr settled
        | lost | written => exact .inl rfl
    · exact .inr ⟨tookEffect.append [ev], concluded.step hs⟩

end Attempt

section Calls
variable {r : Record P f} {s s' t : Lock P f} {c : Controller} {context : SessionContext}
  {cmd : Command} {pre : List (Event Answer)}

theorem Follows.timed (follows : Follows r s s') (found : r.before.controller = some c)
    (method : r.call.constructs = false)
    (path : Path (lockSpec P f) (s.enter r.call r.before.controller) pre t) : Timed c pre t := by
  have coupled := follows.coupled found method
  refine Follows.along (fun _ _ _ _ h hs => h.step hs) ?_ path
  refine ⟨⟨method, coupled.mem, fun _ => coupled.mono⟩, fun _ => ⟨List.pairwise_singleton _ _, ?_⟩⟩
  intro t ht
  cases List.mem_singleton.1 ht
  exact UInt64.le_refl _

theorem Follows.heeds (_ : Follows r s s')
    (path : Path (lockSpec P f) (s.enter r.call r.before.controller) pre t) : Heeds pre t.1 :=
  Follows.along (I := fun tr u => Heeds tr u.1) (fun _ _ _ _ h hs => h.step hs) (.entered _ _ _) path

theorem Follows.attempt (follows : Follows r s s') (found : r.before.controller = some c)
    (request : r.call.request (some c) = some (context, cmd)) (confirmable : Confirms cmd.action)
    (path : Path (lockSpec P f) (s.enter r.call r.before.controller) pre t) :
    Attempt c context cmd r.before.disk pre t := by
  have method := Call.request_method request
  have coupled := follows.coupled found method
  have asked := request
  rw [← found] at asked
  refine Follows.along (fun _ _ _ _ h hs => h.step confirmable hs) ?_ path
  exact ⟨follows.timed found method (.nil _), follows.heeds (.nil _),
    ⟨method, fun _ h => (by cases h), .inr (congrArg Option.isSome coupled.owned)⟩, asked, found,
    follows.before.disk, .inl (follows.untouched found method)⟩

/-- A request that changed the owner or the domain has given up the confirmation. -/
theorem Follows.unconfirmed (follows : Follows r s s') (found : r.before.controller = some c)
    (request : r.call.request (some c) = some (context, cmd)) (settled : s'.1.progress = .settled)
    (left : r.after.controller = some c') : c'.confirmation = none := by
  obtain ⟨out, returned⟩ := r.output_isSome left
  generalize hk : r.call = k at request
  cases k with
  | construct => cases request
  | method m =>
    obtain ⟨_, _, responded⟩ :=
      (follows.returned m c out c' hk found returned left).answered context cmd request
    exact responded.settled settled

/-- A reset or replacement that does anything at all does it by one commit, and leaves the
controller without a confirmation or poisoned. -/
theorem Follows.tookEffect (follows : Follows r s s') (found : r.before.controller = some c)
    (request : r.call.request (some c) = some (context, cmd))
    (confirmable : Confirms cmd.action) (acted : Acted r c) :
    TookEffect P f c context cmd r.before.disk r.trace ∧ ∀ c', r.after.controller = some c' →
      c'.poisoned = true ∨ c'.confirmation = none := by
  have whole := follows.attempt found request confirmable follows.path
  have done : TookEffect P f c context cmd r.before.disk r.trace ∧ Concluded s'.1 := by
    rcases acted with ⟨pre, post, split, changed⟩ | ⟨c', left, changed⟩ | ⟨ev, hev, privileged⟩
    · have path := follows.path
      rw [split] at path
      obtain ⟨t, before, rest⟩ := path.split
      have here := follows.attempt found request confirmable before
      rcases here.outcome with untouched | ⟨tookEffect, concluded⟩
      · exact absurd (here.stored ▸ untouched.disk) changed
      · rw [split]
        exact ⟨tookEffect.append post, concluded.path rest⟩
    · refine whole.outcome.resolve_left fun untouched => ?_
      obtain ⟨m, hm, auth⟩ := untouched.mem
      cases hm.symm.trans (follows.after.controller c' left).mem
      exact changed auth
    · refine whole.outcome.resolve_left fun untouched => ?_
      rw [untouched.calm ev hev] at privileged
      cases privileged
  refine ⟨done.1, fun c' left => done.2.imp (fun dead => ?_) fun settled => ?_⟩
  · exact (follows.after.controller c' left).poisoned.symm.trans dead
  · exact follows.unconfirmed found request settled left

end Calls

section Renewal
variable {s : Abs} {m n : DeviceSnapshot} {pr : Progress} {ow : Option Active}

/-- The device has another owner or another epoch. -/
def Renewed (a b : DeviceSnapshot) : Prop := b.owner ≠ a.owner ∨ b.epoch ≠ a.epoch

theorem Renewed.of_ledger {a b : DeviceSnapshot} (h : Renewed a b) :
    b.auth.ledger ≠ a.auth.ledger := by
  intro same
  rcases h with owner | epoch
  · exact owner (congrArg Prod.fst same)
  · exact epoch (congrArg (·.2.1) same)

/-- Only a claim and a change of domain renew the device, and they settle the request. -/
theorem Change.renewed (h : Change P f s m n pr ow) (renewed : Renewed m n) : pr = .settled := by
  rcases h.ledger_cases with ⟨same, _⟩ | ⟨x, _, _, _, accepted⟩ | ⟨settled, _⟩ | ⟨settled, _⟩
  · exact absurd same renewed.of_ledger
  · rcases renewed with owner | epoch
    · exact absurd (congrArg AuthState.owner accepted.auth) owner
    · exact absurd (congrArg AuthState.epoch accepted.auth) epoch
  · exact settled
  · exact settled

/-- Within a method the controller's device is renewed only by a settled request. -/
theorem Follows.renewed {r : Record P f} {s s' : Lock P f} {c c' : Controller}
    (follows : Follows r s s') (found : r.before.controller = some c)
    (method : r.call.constructs = false) (left : r.after.controller = some c')
    (renewed : Renewed c.state c'.state) : s'.1.progress = .settled := by
  have entered := (follows.coupled found method).mem
  have always : s'.1.call.constructs = false ∧ (s'.1.progress = .settled
      ∨ ∃ m, s'.1.mem = some m ∧ ¬ Renewed c.state m) := by
    refine Follows.along (I := fun _ u => u.1.call.constructs = false ∧ (u.1.progress = .settled
      ∨ ∃ m, u.1.mem = some m ∧ ¬ Renewed c.state m)) ?_
      ⟨method, .inr ⟨c.state, entered, by rintro (h | h) <;> exact h rfl⟩⟩ follows.path
    rintro tr u ev u' ⟨method, h⟩ hs
    refine ⟨by rw [(Frame.step hs).call]; exact method, ?_⟩
    rcases h with settled | ⟨m, hm, same⟩
    · exact .inl (u.2.settled hs settled)
    · have moves := u.2.moves hs
      generalize u'.1 = t at moves
      cases moves with
      | start => exact .inr ⟨m, hm, same⟩
      | install _ _ _ installs =>
        rw [Call.installs_constructs installs] at method
        cases method
      | other _ _ _ _ _ _ mem => exact .inr ⟨m, (mem method).trans hm, same⟩
      | commit n x s₀ m' pr ow _ hm' _ _ change submitted =>
        have mem : u.1.mem = some m' := by rw [submitted]; exact hm'
        cases hm.symm.trans mem
        cases x with
        | lost | written => exact .inr ⟨m, mem, same⟩
        | ok =>
          by_cases again : Renewed m n
          · exact .inl (change.renewed again)
          · refine .inr ⟨n, rfl, ?_⟩
            simp only [Renewed, not_or, not_not] at again same ⊢
            exact ⟨again.1.trans same.1, again.2.trans same.2⟩
  obtain ⟨_, settled | ⟨m, hm, same⟩⟩ := always
  · exact settled
  · cases hm.symm.trans (follows.after.controller c' left).mem
    exact absurd renewed same

end Renewal

/-- A physical confirmation that succeeded at time `t`, and what it recorded. -/
structure Presses (q : Record P f) (k : Confirmation) (context : SessionContext) (cmd : Command)
    (encoded : Bytes) (t : UInt64) : Prop where
  call : q.call = .method (.confirmPhysical context cmd)
  ok : ∃ out, q.output = some out ∧ out.failed = false
  encodes : encodeWire P cmd = .ok encoded
  read : (⟨.monotonicMs, t⟩ : Event Answer) ∈ q.trace
  range : t.toNat + 60000 < 2^64
  recorded : k = ⟨context.peer, P.sha256 encoded, t + 60000⟩

/-- A call of the same boot that leaves the confirmation unused on a live controller. -/
structure Keeps (k : Confirmation) (r : Record P f) : Prop where
  method : r.call.constructs = false
  kept : ∃ c', r.after.controller = some c' ∧ c'.poisoned = false ∧ c'.confirmation = some k

/-- The confirmation was recorded by one of these calls, and every call since has kept it. -/
def Holding (rs : List (Record P f)) (c : Controller) (k : Confirmation) : Prop :=
  ∃ before q since context cmd encoded t, rs = before ++ q :: since
    ∧ Presses q k context cmd encoded t ∧ t ≤ c.lastMono ∧ ∀ r ∈ since, Keeps k r

section History
variable {r : Record P f} {c c' : Controller} {k : Confirmation} {m : Method}

theorem Record.unconfirmed (r : Record P f) (constructs : r.call.constructs = true)
    (left : r.after.controller = some c') : c'.confirmation = none := by
  obtain ⟨before, call, trace, output, after, performed⟩ := r
  cases performed with
  | construct exec =>
    obtain ⟨x, hx, same⟩ := Option.bind_eq_some_iff.1 left
    cases x with
    | error => cases same
    | ok y =>
      cases same
      exact (((constructor_rebooted _ _).exec exec).2 _ hx _ rfl).1
  | method => cases constructs

theorem Record.keepsOrDrops (r : Record P f) (call : r.call = .method m)
    (other : ∀ context cmd, m ≠ .confirmPhysical context cmd) (found : r.before.controller = some c)
    (left : r.after.controller = some c') :
    KeepsOrDrops c c' := by
  obtain ⟨before, k, trace, output, after, performed⟩ := r
  cases call
  cases performed with
  | method controller exec =>
    cases controller.symm.trans found
    obtain ⟨y, hy, rfl⟩ := Option.map_eq_some_iff.1 left
    exact ((method_keepsOrDrops m other c).exec exec).2 y hy

/-- The clock of a controller that a method leaves live has not gone back. -/
theorem Follows.later {s s' : Lock P f} (follows : Follows r s s')
    (method : r.call.constructs = false) (found : r.before.controller = some c)
    (left : r.after.controller = some c') (live : c'.poisoned = false) :
    c.lastMono ≤ c'.lastMono ∧ ∀ t ∈ readings r.trace, t ≤ c'.lastMono := by
  have coupled := follows.after.controller c' left
  have timed := follows.timed found method follows.path
  have alive : s'.1.poisoned = false := coupled.poisoned.trans live
  rw [← coupled.mono, timed.recalls.mono alive]
  exact List.forall_mem_cons.1 (timed.ordered alive).2

/-- What a live controller holds after a method, it held before or has just recorded. -/
private theorem Follows.holding {s s' : Lock P f} (follows : Follows r s s')
    (call : r.call = .method m) (found : r.before.controller = some c) (live : c.poisoned = false)
    (left : r.after.controller = some c') (held : c'.confirmation = some k) :
    c.confirmation = some k ∨ ∃ context cmd encoded, Presses r k context cmd encoded c'.lastMono := by
  by_cases confirms : ∃ context cmd, m = .confirmPhysical context cmd
  · obtain ⟨context, cmd, rfl⟩ := confirms
    obtain ⟨out, returned⟩ := r.output_isSome left
    have how := follows.returned _ c out c' call found returned left
    cases failed : out.failed with
    | true => exact .inl ((how.held context cmd rfl live failed).symm.trans held)
    | false =>
      obtain ⟨_, pressed⟩ := how.confirmed context cmd rfl failed
      obtain ⟨encoded, encodes, recorded⟩ := pressed.held
      exact .inr ⟨context, cmd, encoded, call, ⟨out, returned, failed⟩, encodes,
        (follows.heeds follows.path).times _ pressed.read, pressed.range,
        Option.some.inj (held.symm.trans recorded)⟩
  · have moved := r.keepsOrDrops call (fun context cmd h => confirms ⟨context, cmd, h⟩) found left
    rcases moved with same | none
    · exact .inl (same.symm.trans held)
    · cases none.symm.trans held

/-- Between calls, what a live controller holds goes back to a call of this boot. -/
theorem Run.holding (run : Run P f) (found : run.final.controller = some c)
    (live : c.poisoned = false) (held : c.confirmation = some k) : Holding run.records c k := by
  refine run.calls (motive := fun rs d => ∀ c k, d.controller = some c → c.poisoned = false →
    c.confirmation = some k → Holding rs c k) (fun _ _ h => (by cases h)) ?_ c k found live held
  intro rs r s s' follows earlier c' k left live' held'
  cases constructs : r.call.constructs with
  | true => cases (r.unconfirmed constructs left).symm.trans held'
  | false =>
    obtain ⟨c, found⟩ := r.controller constructs
    obtain ⟨m, call⟩ := Call.exists_method constructs
    have live := r.live constructs found left live'
    have later := (follows.later constructs found left live').1
    rcases follows.holding call found live left held' with old | ⟨context, cmd, encoded, presses⟩
    · obtain ⟨before, q, since, context, cmd, encoded, t, rfl, presses, upTo, kept⟩ :=
        earlier c k found live old
      refine ⟨before, q, since ++ [r], context, cmd, encoded, t, by simp, presses,
        UInt64.le_trans upTo later, fun r' hr' => ?_⟩
      rcases List.mem_append.1 hr' with old | new
      · exact kept r' old
      · cases List.mem_singleton.1 new
        exact ⟨constructs, c', left, live', held'⟩
    · exact ⟨rs, r, [], context, cmd, encoded, _, rfl, presses, UInt64.le_refl _,
        fun _ h => by cases h⟩

end History

/-- Two texts with one digest. -/
def Collide (P : Primitives) (a b : Bytes) : Prop := a ≠ b ∧ P.sha256 a = P.sha256 b

/-- The earlier call is a successful confirmation, by the same peer, of a command with the
same encoding, less than a minute before the times the request reads. -/
def Vouches (q r : Record P f) (context : SessionContext) (cmd : Command) : Prop :=
  ∃ context' cmd' encoded encoded' t start now,
    q.call = .method (.confirmPhysical context' cmd')
    ∧ (∃ out, q.output = some out ∧ out.failed = false) ∧ context'.peer = context.peer
    ∧ encodeWire P cmd' = .ok encoded' ∧ encodeWire P cmd = .ok encoded
    ∧ (encoded' = encoded ∨ Collide P encoded' encoded)
    ∧ (⟨.monotonicMs, t⟩ : Event Answer) ∈ q.trace
    ∧ (readings r.trace).head? = some start ∧ now ∈ readings r.trace
    ∧ t ≤ start ∧ start ≤ now ∧ now.toNat < t.toNat + 60000

/-- The first of some ordered readings is no later than any of them. -/
theorem exists_start {m now : UInt64} {times : List UInt64}
    (ordered : (m :: times).Pairwise (· ≤ ·)) (read : now ∈ times) :
    ∃ start, times.head? = some start ∧ m ≤ start ∧ start ≤ now := by
  cases times with
  | nil => cases read
  | cons start rest =>
    rw [List.pairwise_cons, List.pairwise_cons] at ordered
    refine ⟨start, rfl, ordered.1 start List.mem_cons_self, ?_⟩
    rcases List.mem_cons.1 read with rfl | later
    · exact UInt64.le_refl _
    · exact ordered.2.1 now later

theorem Presses.vouches {q r : Record P f} {k : Confirmation} {context context' : SessionContext}
    {cmd cmd' : Command} {encoded' : Bytes} {t now : UInt64} {pre post : List (Event Answer)}
    (h : Presses q k context' cmd' encoded' t) (upTo : t ≤ c.lastMono)
    (held : c.confirmation = some k) (split : r.trace = pre ++ post)
    (executes : Executes P f c context cmd disk pre m n now) (confirmable : Confirms cmd.action) :
    Vouches q r context cmd := by
  obtain ⟨⟨k', encoded, held', encodes, peer, digest, before⟩, _⟩ :=
    executes.change.confirmed confirmable
  cases held.symm.trans held'
  obtain ⟨start, first, after, order⟩ := exists_start executes.ordered executes.read
  have grows : readings r.trace = readings pre ++ readings post := by
    rw [split, readings, List.filterMap_append]
    rfl
  rw [h.recorded] at peer digest before
  refine ⟨context', cmd', encoded, encoded', t, start, now, h.call, h.ok, peer, h.encodes, encodes,
    ?_, h.read, ?_, ?_, UInt64.le_trans upTo after, order, ?_⟩
  · by_cases same : encoded' = encoded
    · exact .inl same
    · exact .inr ⟨same, digest⟩
  · rw [grows, List.head?_append, first]
    rfl
  · rw [grows]
    exact List.mem_append_left _ executes.read
  · have bound := UInt64.lt_iff_toNat_lt.1 before
    rw [UInt64.toNat_add] at bound
    have range := h.range
    have minute : (60000 : UInt64).toNat = 60000 := rfl
    omega

/-- Call `j` of the run is a reset or a replacement of the issuer that does anything. -/
structure TakesEffect (run : Run P f) (j : Nat) (r : Record P f) (c : Controller)
    (context : SessionContext) (cmd : Command) : Prop where
  record : run.records[j]? = some r
  found : r.before.controller = some c
  request : r.call.request (some c) = some (context, cmd)
  confirmable : Confirms cmd.action
  acted : Acted r c

/-- Call `p` of the run confirmed what call `j` does, and nothing in between used it up. -/
structure Matches (run : Run P f) (p j : Nat) (r : Record P f) (c : Controller)
    (context : SessionContext) (cmd : Command) : Prop where
  earlier : p < j
  confirms : ∃ q, run.records[p]? = some q ∧ Vouches q r context cmd
  unused : ∃ k, c.confirmation = some k ∧
    ∀ i r', p < i → i < j → run.records[i]? = some r' → Keeps k r'

section Whole
variable {run : Run P f} {j : Nat} {r : Record P f} {c : Controller} {context : SessionContext}
  {cmd : Command}

theorem TakesEffect.live (h : TakesEffect run j r c context cmd) : c.poisoned = false := by
  by_contra dead
  have refused := r.poisoned_refused (.inl h.request) h.found (by simpa using dead)
  rcases h.acted with ⟨pre, post, split, changed⟩ | ⟨c', left, changed⟩ | ⟨ev, hev, privileged⟩
  · exact changed (refused.store pre post split)
  · exact changed (refused.memory c' left)
  · rw [refused.calm ev hev] at privileged
    cases privileged

theorem TakesEffect.follows (h : TakesEffect run j r c context cmd) :
    TookEffect P f c context cmd r.before.disk r.trace ∧ ∀ c', r.after.controller = some c' →
      c'.poisoned = true ∨ c'.confirmation = none := by
  obtain ⟨s, s', follows⟩ := run.follows (List.mem_of_getElem? h.record)
  exact follows.tookEffect h.found h.request h.confirmable h.acted

theorem TakesEffect.matched (h : TakesEffect run j r c context cmd) :
    ∃ p, Matches run p j r c context cmd := by
  obtain ⟨⟨pre, post, n, x, m, now, split, executes⟩, _⟩ := h.follows
  obtain ⟨⟨k, _, held, _⟩, _⟩ := executes.change.confirmed h.confirmable
  have records := trace_split h.record
  obtain ⟨earlier, before, final⟩ := run.upTo records
  obtain ⟨rs, q, since, context', cmd', encoded, t, past, presses, upTo, kept⟩ :=
    earlier.holding (final ▸ h.found) h.live held
  rw [before] at past
  have length : j = rs.length + (since.length + 1) := by
    have bound := (List.getElem?_eq_some_iff.1 h.record).1
    have counted := congrArg List.length past
    rw [List.length_take, List.length_append, List.length_cons] at counted
    omega
  rw [past, List.append_assoc] at records
  refine ⟨rs.length, by omega, ⟨q, ?_, presses.vouches upTo held split executes h.confirmable⟩,
    k, held, fun i r' after until_ hr' => kept r' ?_⟩
  · rw [records, List.getElem?_append_right (Nat.le_refl _), Nat.sub_self]
    rfl
  · obtain ⟨d, rfl⟩ : ∃ d, i = rs.length + (d + 1) := ⟨i - rs.length - 1, by omega⟩
    rw [records, List.getElem?_append_right (by omega), Nat.add_sub_cancel_left, List.cons_append,
      List.getElem?_cons_succ, List.getElem?_append_left (by omega)] at hr'
    exact List.mem_of_getElem? hr'

/-- A used confirmation is not there for a later call. -/
theorem TakesEffect.spends {i : Nat} {r' : Record P f} {context' : SessionContext} {cmd' : Command}
    {p : Nat} (h : TakesEffect run i r' c' context' cmd') (earlier : p < i)
    (later : Matches run p j r c context cmd) : ¬ i < j := by
  intro before
  obtain ⟨k, _, kept⟩ := later.unused
  obtain ⟨_, after, left, live, held⟩ := kept i r' earlier before h.record
  rcases h.follows.2 after left with dead | none
  · cases dead.symm.trans live
  · cases none.symm.trans held

end Whole

end OpenLock
