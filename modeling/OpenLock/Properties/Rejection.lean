import OpenLock.Abstract.Order
import OpenLock.Device.Scripted
import OpenLock.Refinement.Run

/-! A rejected request leaves the authorization state as it was, in memory and in the
store; an accepted one is answered with an operation. -/
namespace OpenLock
open Controller Effects DeviceSnapshot

variable {P : Primitives} {f : FactoryIdentity} {tr : List (Event Answer)} {ev : Event Answer}
  {c : Controller} {s : Lock P f} {s' : Abs}

/-- The operation of the drive that was running when the call began and was stopped in it. -/
def StoppedKey (c : Controller) (tr : List (Event Answer)) (k : OpKey) : Prop :=
  ActuatorStopped tr ∧ ∃ a, c.active = some a ∧ a.automatic = false ∧ a.key = k

/-- What an unaccepted request may have done so far: stop the running drive and record it. -/
structure Pristine (c : Controller) (tr : List (Event Answer)) (s : Abs) : Prop where
  mem : ∃ m, s.mem = some m ∧ m.auth = c.state.auth
    ∧ Retouched (StoppedKey c tr) c.state.operations m.operations
  owned : s.owned = c.active ∨ s.owned = none
  released : ∀ a ∈ s.released, c.active = some a ∧ ActuatorStopped tr
  failing : ∀ a e, s.failing = some (a, e) → c.active = some a ∧ ActuatorStopped tr
  calm : ∀ ev ∈ tr, ev.effect.privileged = false

namespace Pristine
variable {c : Controller} {tr : List (Event Answer)} {s s' s₀ : Abs} {ev : Event Answer}
  {m n : DeviceSnapshot} {pr : Progress} {ow : Option Active}

/-- One more effect that is not privileged. -/
private theorem extend (h : Pristine c tr s) (quiet : ev.effect.privileged = false)
    (mem : ∃ m, s'.mem = some m ∧ m.auth = c.state.auth
      ∧ Retouched (StoppedKey c tr) c.state.operations m.operations)
    (owned : s'.owned = c.active ∨ s'.owned = none)
    (released : ∀ a ∈ s'.released, a ∈ s.released ∨ (c.active = some a ∧ ActuatorStopped (tr ++ [ev])))
    (failing : ∀ a e, s'.failing = some (a, e) →
      s.failing = some (a, e) ∨ (c.active = some a ∧ ActuatorStopped (tr ++ [ev]))) :
    Pristine c (tr ++ [ev]) s' := by
  have still : ActuatorStopped tr → ActuatorStopped (tr ++ [ev]) := by
    rintro ⟨u, hu⟩
    exact ⟨u, List.mem_append_left _ hu⟩
  refine ⟨?_, owned, fun a ha => ?_, fun a e he => ?_, fun ev' hev' => ?_⟩
  · obtain ⟨m, hm, auth, operations⟩ := mem
    exact ⟨m, hm, auth, operations.mono fun _ hk => ⟨still hk.1, hk.2⟩⟩
  · rcases released a ha with old | new
    · exact ⟨(h.released a old).1, still (h.released a old).2⟩
    · exact new
  · rcases failing a e he with old | new
    · exact ⟨(h.failing a e old).1, still (h.failing a e old).2⟩
    · exact new
  · rcases List.mem_append.1 hev' with old | new
    · exact h.calm ev' old
    · cases List.mem_singleton.1 new
      exact quiet

/-- An effect that leaves the snapshot and the actuator alone. -/
private theorem other (h : Pristine c tr s) (quiet : ev.effect.privileged = false)
    (mem : s'.mem = s.mem) (owned : s'.owned = s.owned) (released : s'.released = s.released)
    (failing : s'.failing = s.failing) : Pristine c (tr ++ [ev]) s' :=
  h.extend quiet (mem ▸ h.mem) (owned ▸ h.owned) (fun _ ha => .inl (released ▸ ha))
    fun _ _ he => .inl (failing ▸ he)

private theorem stop (h : Pristine c tr s) (u : Unit) :
    Pristine c (tr ++ [⟨.stopAction, .ok u⟩]) (s.stop (.ok u)) := by
  have stopped : ActuatorStopped (tr ++ [⟨.stopAction, .ok u⟩]) :=
    ⟨u, List.mem_append_right _ List.mem_cons_self⟩
  have running : ∀ a, s.owned = some a → c.active = some a := by
    intro a ha
    rcases h.owned with same | none
    · rw [← same, ha]
    · rw [none] at ha
      cases ha
  refine h.extend rfl h.mem (.inr rfl) (fun a ha => ?_) fun a e he => .inr ⟨running a ?_, stopped⟩
  · rcases List.mem_append.1 ha with now | before
    · exact .inr ⟨running a (by simpa using now), stopped⟩
    · exact .inl before
  · have record : s.toRecord = some (a, e) := he
    unfold Abs.toRecord at record
    split at record
    · cases record
    · obtain ⟨b, hb, rest⟩ := Option.bind_eq_some_iff.1 record
      obtain ⟨_, _, pair⟩ := Option.map_eq_some_iff.1 rest
      cases pair
      exact hb

/-- A change submitted by an unaccepted request. -/
private theorem change (h : Pristine c tr s) (mem : s.mem = some m)
    (released : s₀.released ⊆ s.released) (failing : s₀.failing = s.failing)
    (fresh : s₀.progress = .fresh) {x : SessionContext × Command} (request : s₀.request = some x)
    (change : Change P f s₀ m n pr ow) :
    ow = s₀.owned ∧ (pr = .fresh → n.auth = c.state.auth
      ∧ Retouched (StoppedKey c tr) c.state.operations n.operations) := by
  obtain ⟨_, hm', auth, operations⟩ := h.mem
  cases mem.symm.trans hm'
  cases change with
  | upkeep upkeep =>
    cases upkeep with
    | background _ h' =>
      refine ⟨rfl, fun _ => ⟨h'.auth.trans auth, operations.trans (h'.operations.mono ?_)⟩⟩
      rintro k (⟨a, ha, manual, key⟩ | accepted)
      · exact ⟨(h.released a (released ha)).2, a, (h.released a (released ha)).1, manual, key⟩
      · rw [fresh] at accepted
        cases accepted
    | failure a e failed h' =>
      have failed : s.failing = some (a, e) := failing ▸ failed
      refine ⟨rfl, fun _ => ⟨h'.auth.trans auth, operations.trans (h'.operations.mono ?_)⟩⟩
      rintro k ⟨manual, key⟩
      exact ⟨(h.failing a e failed).2, a, (h.failing a e failed).1, manual, key⟩
    | release _ _ _ _ _ call =>
      rw [Abs.request, call] at request
      cases request
    | relock => exact ⟨rfl, fun h => by cases h⟩
    | recover _ call => exact absurd (.inr call) (s₀.serves request)
  | effect _ _ accepted => cases fresh.symm.trans accepted
  | clock _ _ _ accepted => cases fresh.symm.trans accepted
  | trialEnded _ _ call => exact absurd call (s₀.serves request)
  | accept | claim | domain => exact ⟨rfl, fun h => by cases h⟩

end Pristine

/-- A request that is live and not accepted is still pristine. -/
structure Unaccepted (c : Controller) (tr : List (Event Answer)) (s : Abs) : Prop where
  request : ∃ x, s.request = some x
  pristine : s.poisoned = false → s.progress = .fresh → Pristine c tr s

theorem Unaccepted.step (h : Unaccepted c tr s.1) (hs : s.1.Step P f ev s') :
    Unaccepted c (tr ++ [ev]) s' := by
  obtain ⟨x, request⟩ := h.request
  have method : s.1.call.constructs = false := Call.request_method request
  have frame := Frame.step hs
  refine ⟨⟨x, frame.request.trans request⟩, fun live fresh => ?_⟩
  cases hs.shape with
  | late => cases live
  | start => cases fresh
  | stop r =>
    cases r with
    | ok u => exact (h.pristine live fresh).stop u
    | error => cases live
  | load _ _ built => cases method.symm.trans built
  | install _ _ _ _ _ installs => cases method.symm.trans (Call.installs_constructs installs)
  | submit n _ m pr ow _ _ hm change =>
    have before := h.pristine live fresh
    obtain ⟨same, _⟩ := before.change hm (fun _ h => h) rfl fresh request change
    refine before.extend rfl before.mem (same ▸ before.owned) (fun a ha => .inl ?_) fun _ _ he => .inl he
    rcases List.mem_append.1 ha with dropped | kept
    · -- The running drive is only given up by a completion.
      subst same
      cases owned : s.1.owned with
      | none => simp [owned] at dropped
      | some b => simp [owned] at dropped
    · exact kept
  | commit n r s₀ m pr ow _ hm change submitted =>
    cases r with
    | lost | written => cases live
    | ok =>
      have fresh₀ : s₀.progress = .fresh := change.advanced.elim (fun same => same.symm.trans fresh) id
      have before : Pristine c tr s.1 := h.pristine live (by rw [submitted]; exact fresh₀)
      have request₀ : s₀.request = some x := by rw [← request, submitted]; rfl
      have mem : s.1.mem = some m := by rw [submitted]; exact hm
      have released : s₀.released ⊆ s.1.released := by
        rw [submitted]
        exact List.subset_append_right _ _
      have failing : s₀.failing = s.1.failing := by rw [submitted]; rfl
      obtain ⟨auth, operations⟩ :=
        (before.change mem released failing fresh₀ request₀ change).2 fresh
      exact before.extend rfl ⟨n, rfl, auth, operations⟩ before.owned (fun _ ha => .inl ha)
        fun _ _ he => by cases he
  | note e _ _ _ acts =>
    refine (h.pristine live fresh).other ?_ rfl rfl rfl rfl
    by_contra privileged
    obtain ⟨_, a, accepted, _⟩ := acts (by simpa using privileged)
    cases fresh.symm.trans accepted
  | tick | hear | sense => exact (h.pristine live fresh).other rfl rfl rfl rfl rfl

/-- A request without an operation of its own has raised no watermark. -/
structure Unraised (c : Controller) (tr : List (Event Answer)) (s : Abs) : Prop where
  request : ∃ x, s.request = some x
  unraised : s.progress.key.isSome ∨
    ((∀ n, (⟨.commit n, .ok⟩ : Event Answer) ∈ tr → ∀ id, n.watermark id ≤ c.state.watermark id)
      ∧ ∃ m, s.mem = some m ∧ ∀ id, m.watermark id ≤ c.state.watermark id)

theorem Unraised.step (h : Unraised c tr s.1) (hs : s.1.Step P f ev s') :
    Unraised c (tr ++ [ev]) s' := by
  obtain ⟨x, request⟩ := h.request
  have method : s.1.call.constructs = false := Call.request_method request
  refine ⟨⟨x, (Frame.step hs).request.trans request⟩, ?_⟩
  have uncommitted : (∀ n, ev ≠ ⟨.commit n, .ok⟩) →
      (∀ n, (⟨.commit n, .ok⟩ : Event Answer) ∈ tr → ∀ id, n.watermark id ≤ c.state.watermark id) →
      ∀ n, (⟨.commit n, .ok⟩ : Event Answer) ∈ tr ++ [ev] →
        ∀ id, n.watermark id ≤ c.state.watermark id := by
    intro other old n hn
    rcases List.mem_append.1 hn with before | now
    · exact old n before
    · exact absurd (List.mem_singleton.1 now).symm (other n)
  cases s.2.moves hs with
  | start _ _ _ _ _ a _ _ _ _ _ _ _ _ armed =>
    left
    generalize hp : s.1.progress = pr at armed
    cases armed with
    | manual _ _ manual => simp [Abs.drive, Progress.key, manual]
    | relock =>
      rw [Abs.request, s.2.polls hp] at request
      cases request
  | install _ _ _ installs =>
    rw [Call.installs_constructs installs] at method
    cases method
  | other _ _ _ durable _ progress mem =>
    rw [progress, mem method]
    refine h.unraised.imp_right ?_
    rintro ⟨old, m, hm, le⟩
    exact ⟨uncommitted (fun n he => durable n (by rw [he])) old, m, hm, le⟩
  | commit n r s₀ m pr ow _ hm _ _ change submitted =>
    have progress : s.1.progress = s₀.progress := by rw [submitted]; rfl
    have mem : s.1.mem = some m := by rw [submitted]; exact hm
    have failed : (∀ n', (⟨.commit n, r⟩ : Event Answer) ≠ ⟨.commit n', .ok⟩) →
        s.1.progress.key.isSome ∨ ((∀ n', (⟨.commit n', .ok⟩ : Event Answer) ∈ tr ++ [⟨.commit n, r⟩] →
          ∀ id, n'.watermark id ≤ c.state.watermark id)
        ∧ ∃ m, s.1.mem = some m ∧ ∀ id, m.watermark id ≤ c.state.watermark id) := fun other =>
      h.unraised.imp_right fun unraised => ⟨uncommitted other unraised.1, unraised.2⟩
    cases r with
    | lost => exact failed fun _ he => by cases he
    | written => exact failed fun _ he => by cases he
    | ok =>
      have stored : (∀ id, n.watermark id ≤ c.state.watermark id) →
          (∀ n, (⟨.commit n, .ok⟩ : Event Answer) ∈ tr → ∀ id, n.watermark id ≤ c.state.watermark id) →
          ∀ n', (⟨.commit n', .ok⟩ : Event Answer) ∈ tr ++ [⟨.commit n, .ok⟩] →
            ∀ id, n'.watermark id ≤ c.state.watermark id := by
        intro le old n' hn'
        rcases List.mem_append.1 hn' with before | now
        · exact old n' before
        · cases List.mem_singleton.1 now
          exact le
      rcases h.unraised with listed | ⟨old, m', hm', le⟩
      · -- An accepted request stays accepted.
        left
        rw [progress] at listed
        rcases change.ledger_cases with ⟨_, kept | ⟨_, fresh, _⟩⟩ | ⟨_, _, fresh, _⟩ | ⟨_, fresh, _⟩ |
          ⟨_, fresh, _⟩
        · exact kept ▸ listed
        all_goals
          rw [fresh] at listed
          cases listed
      · cases mem.symm.trans hm'
        have unchanged : n.watermarks = m.watermarks → ∀ id, n.watermark id ≤ c.state.watermark id := by
          intro same id
          rw [DeviceSnapshot.watermark, same]
          exact le id
        rcases change.ledger_cases with ⟨ledger, _⟩ | ⟨x, rfl, _⟩ | ⟨_, _, _, _, watermarks, _⟩ |
          ⟨_, _, _, watermarks, _⟩
        · simp only [AuthState.ledger, Prod.mk.injEq, auth_watermarks] at ledger
          have below := unchanged ledger.2.2.2.1
          exact .inr ⟨stored below old, n, rfl, below⟩
        · exact .inl rfl
        · have below := unchanged watermarks
          exact .inr ⟨stored below old, n, rfl, below⟩
        · have below : ∀ id, n.watermark id ≤ c.state.watermark id := by
            intro id
            rw [DeviceSnapshot.watermark, watermarks]
            simp
          exact .inr ⟨stored below old, n, rfl, below⟩

/-- While the log has room, a request that is answered with an error on a live controller
has changed no authorization state and no operation but that of a drive stopped in the
call, in memory or in the store, and has called nothing privileged. One that was accepted,
so that a commit raised a watermark, is answered with an operation. -/
theorem rejections_change_nothing (run : Run P f) (r : Record P f) (hr : r ∈ run.records)
    (c c' : Controller) (found : r.before.controller = some c)
    (left : r.after.controller = some c') (context : SessionContext) (cmd : Command)
    (request : r.call.request (some c) = some (context, cmd)) (live : c'.poisoned = false)
    (room : c.state.nextCursor.toNat + 32 ≤ 2^64 - 1) :
    (∀ opcode e, r.output = some (.response ⟨opcode, .error e⟩) →
      r.before.disk = some c.state ∧ r.after.disk = some c'.state
      ∧ c'.state.auth = c.state.auth
      ∧ Retouched (StoppedKey c r.trace) c.state.operations c'.state.operations
      ∧ ∀ ev ∈ r.trace, ev.effect.privileged = false)
    ∧ ((∃ n id, (⟨.commit n, .ok⟩ : Event Answer) ∈ r.trace
        ∧ c.state.watermark id < n.watermark id) →
      ∃ opcode status, r.output = some (.response ⟨opcode, .ok (.operation status)⟩)) := by
  obtain ⟨s, s', follows⟩ := run.follows hr
  have method := Call.request_method request
  have coupled := follows.coupled found method
  have coupled' := follows.after.controller c' left
  obtain ⟨m, call⟩ : ∃ m, r.call = .method m := by
    generalize r.call = k at method
    cases k with
    | construct => cases method
    | method m => exact ⟨m, rfl⟩
  obtain ⟨out, output⟩ := r.output_isSome left
  have asked : (s.enter r.call r.before.controller).1.request = some (context, cmd) := by
    change r.call.request r.before.controller = _
    rw [found]
    exact request
  have unaccepted : Unaccepted c r.trace s'.1 := by
    refine Follows.along (I := fun tr u => Unaccepted c tr u.1) (fun _ _ _ _ h hs => h.step hs)
      ⟨⟨_, asked⟩, fun _ _ => ⟨⟨c.state, coupled.mem, rfl, .refl _ _⟩, .inl coupled.owned, ?_, ?_,
        ?_⟩⟩ follows.path
    · exact fun _ h => by cases h
    · exact fun _ _ h => by cases h
    · exact fun _ h => by cases h
  have unraised : Unraised c r.trace s'.1 :=
    Follows.along (I := fun tr u => Unraised c tr u.1) (fun _ _ _ _ h hs => h.step hs)
      ⟨⟨_, asked⟩, .inr ⟨fun _ h => (by cases h), c.state, coupled.mem, fun _ => UInt64.le_refl _⟩⟩
      follows.path
  obtain ⟨response, rfl, responded⟩ :=
    (follows.returned m c out c' call found output left).answered context cmd (call ▸ request)
  refine ⟨?_, ?_⟩
  · rintro opcode e he
    cases output.symm.trans he
    have fresh := responded.rejected e rfl live (by omega)
    have alive' : s'.1.poisoned = false := coupled'.poisoned.trans live
    have pristine := unaccepted.pristine alive' fresh
    obtain ⟨n, hn, auth, operations⟩ := pristine.mem
    cases hn.symm.trans coupled'.mem
    have alive : (s.enter r.call r.before.controller).1.poisoned = false := by
      by_contra dead
      rw [Abs.poisoned_path follows.path (by simpa using dead)] at alive'
      cases alive'
    refine ⟨?_, ?_, auth, operations, pristine.calm⟩
    · rw [← follows.before.disk]
      exact (s.enter r.call r.before.controller).2.synced alive _ coupled.mem
    · rw [← follows.after.disk]
      exact s'.2.synced alive' _ coupled'.mem
  · rintro ⟨n, id, committed, raised⟩
    rcases unraised.unraised with listed | ⟨below, _⟩
    · obtain ⟨opcode, result⟩ := response
      cases result with
      | error e =>
        rw [responded.rejected e rfl live (by omega)] at listed
        cases listed
      | ok y =>
        obtain ⟨status, rfl⟩ := responded.replied y rfl listed
        exact ⟨opcode, status, output⟩
    · exact absurd raised (UInt64.not_lt.2 (below n committed id))

/-- A request of an old session, on a device that goes on. -/
def Bench.stale : Run Bench.primitives Bench.factory :=
  (Bench.migrated []).then (Bench.steady 1) (Bench.send 0 (some 1) .unlock)

theorem Bench.stale_two : 1 < Bench.stale.records.length := by decide +kernel

def Bench.refusing : Record Bench.primitives Bench.factory :=
  Bench.stale.records.get ⟨1, Bench.stale_two⟩

/-- It is refused without a trace. -/
theorem rejections_change_nothing_stale : ∃ c c',
    Bench.refusing.before.controller = some c
    ∧ Bench.refusing.after.controller = some c'
    ∧ c'.state.auth = c.state.auth := by
  have output : Bench.refusing.output =
      some (.response ⟨0, .error Error.invalidState.code⟩) := by decide +kernel
  have before : (Bench.refusing.before.controller.any fun c =>
      c.state.nextCursor.toNat + 32 ≤ 2^64 - 1) = true := by decide +kernel
  have after : (Bench.refusing.after.controller.any fun c =>
      !c.poisoned) = true := by decide +kernel
  obtain ⟨c, found, room⟩ := (Option.any_eq_true _ _).1 before
  obtain ⟨c', left, live⟩ := (Option.any_eq_true _ _).1 after
  have unchanged := rejections_change_nothing Bench.stale _ (List.get_mem _ _) c c' found left
    ⟨Bench.peer, 0⟩ ⟨[2, 0], some 1, .unlock⟩ rfl (by simpa using live) (of_decide_eq_true room)
  exact ⟨c, c', found, left, (unchanged.1 _ _ output).2.2.1⟩

end OpenLock
