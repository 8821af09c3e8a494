import OpenLock.Refinement.Execution

/-! Acceptance refines the abstract lock: one commit makes the sequence, the binding, the
use and the operation record durable, and only then is the action carried out. -/
namespace OpenLock
open Controller Effects

variable {P : Primitives} {f : FactoryIdentity} {c c' : Controller} {s s' : Lock P f}
  {n n' : DeviceSnapshot} {entry : Controller} {context : SessionContext} {cmd : Command}
  {g : Grant} {seq now : UInt64} {x : Accepted} {a a' : Abs}

/-- A request of the current call, checked for form and not yet decided. -/
structure Handling (f : FactoryIdentity) (entry : Controller) (context : SessionContext)
    (cmd : Command) (now : UInt64) (c : Controller) (s : Abs) : Prop extends Ready f c s where
  fresh : s.progress = .fresh
  request : s.request = some (context, cmd)
  entered : s.entry = some entry
  read : now ∈ s.times
  wellFormed : cmd.validate = .ok ()
  capability : cmd.capability &&& f.info.capabilities ≠ 0

theorem Handling.after (h : Handling f entry context cmd now c a) (ready : Ready f c' a')
    (frame : Frame a a') (progress : a'.progress = a.progress) :
    Handling f entry context cmd now c' a' :=
  ⟨ready, progress.trans h.fresh, frame.request.trans h.request, frame.entry.trans h.entered,
    frame.times h.read, h.wellFormed, h.capability⟩

section Draft

/-- What a request leaves behind when it is accepted by this controller. -/
def Accepted.of (c : Controller) (context : SessionContext) (cmd : Command) (g : Grant)
    (seq : UInt64) : Accepted :=
  ⟨context, cmd, g, seq, cmd.action = .unlock ∧ ¬ noChange c cmd.action⟩

theorem evict_admitted {ops kept : List OperationRecord} (factory : SameFactory f c.factory)
    (fits : ops.length ≤ f.info.operationCapacity.toNat) (ok : evict c ops = .ok kept) :
    Admitted f c.active ops kept := by
  have capacity : c.factory.info.operationCapacity = f.info.operationCapacity := by rw [factory]
  unfold evict at ok
  rw [capacity] at ok
  split at ok
  · rename_i full
    simp only [bind_eq_ok, okOr_eq_ok, pure_eq_ok] at ok
    obtain ⟨i, found, rfl⟩ := ok
    obtain ⟨bound, other, _⟩ := List.findIdx?_eq_some_iff_getElem.1 found
    refine ⟨List.eraseIdx_sublist _ _, ?_, ?_⟩
    · rw [List.length_eraseIdx_of_lt bound]
      omega
    · intro d owned r hr key
      obtain ⟨j, hj, rfl⟩ := List.getElem_of_mem hr
      refine List.mem_eraseIdx_iff_getElem.2 ⟨j, hj, ?_, rfl⟩
      -- the evicted record is not the running drive's
      rintro rfl
      simp only [evictable, owned, Option.all_some, Bool.and_eq_true, Bool.or_eq_true,
        bne_iff_ne] at other
      simp only [OperationRecord.key, Active.key, Prod.mk.injEq] at key
      rcases other.1.1 with id | sequence
      · exact id key.1.symm
      · exact sequence key.2.symm
  · rename_i room
    rw [pure_eq_ok] at ok
    subst ok
    exact ⟨List.Sublist.refl _, Nat.not_le.1 room, fun _ _ _ hr _ => hr⟩

/-- The snapshot of an acceptance before its clock, relock and audit entries. -/
structure Drafted (P : Primitives) (f : FactoryIdentity) (c : Controller) (x : Accepted)
    (n : DeviceSnapshot) : Prop where
  watermarkRoom : x.grant.credentialId ∈ c.state.watermarks
    ∨ c.state.watermarks.size < f.info.credentialCapacity.toNat
  bindingRoom : x.grant.credentialId ∈ c.state.bindings
    ∨ c.state.bindings.size < f.info.credentialCapacity.toNat
  reserved : x.reserved = true → x.command.action = .unlock ∧ UseAllowed c.state x.grant
  auth : n.auth = x.auth P c.state
  operations : ∃ kept digest, Admitted f c.active c.state.operations kept
    ∧ n.operations = kept ++ [x.record digest]
  log : n.log = c.state.log

theorem reserveUse_ok (ok : reserveUse n g = .ok n') : UseAllowed n g ∧ n' = { n with
      uses := n.uses.insert g.credentialId (n.usesOf g.credentialId + 1) } := by
  simp only [reserveUse, bind_eq_ok, failIf_eq_ok, exists_const, okOr_eq_ok, pure_eq_ok] at ok
  obtain ⟨below, next, add, rfl⟩ := ok
  unfold checkedAdd32 at add
  split at add
  · rename_i range
    cases add
    refine ⟨⟨fun max hmax => ?_, range⟩, rfl⟩
    simpa [hmax, UInt32.not_le] using below
  · cases add

theorem capacityExhausted_room {id : CredentialId} (factory : SameFactory f c.factory)
    (room : capacityExhausted c id = false) :
    (id ∈ c.state.watermarks ∨ c.state.watermarks.size < f.info.credentialCapacity.toNat)
      ∧ (id ∈ c.state.bindings ∨ c.state.bindings.size < f.info.credentialCapacity.toNat) := by
  have capacity : c.factory.info.credentialCapacity = f.info.credentialCapacity := by rw [factory]
  simp only [capacityExhausted, capacity, Bool.or_eq_false_iff, Bool.and_eq_false_imp,
    Bool.not_eq_true', decide_eq_false_iff_not, Nat.not_le, ge_iff_le] at room
  refine ⟨?_, ?_⟩
  · by_cases known : id ∈ c.state.watermarks
    · exact .inl known
    · exact .inr (room.1 (by rw [← Bool.not_eq_true, Std.ExtTreeMap.contains_iff_mem]; exact known))
  · by_cases known : id ∈ c.state.bindings
    · exact .inl known
    · exact .inr (room.2 (by rw [← Bool.not_eq_true, Std.ExtTreeMap.contains_iff_mem]; exact known))

theorem acceptedSnapshot_drafted {digest : Bytes32} (factory : SameFactory f c.factory)
    (fits : c.state.operations.length ≤ f.info.operationCapacity.toNat)
    (ok : acceptedSnapshot P c cmd g seq ⟨digest, acceptedStatus g seq cmd.action⟩ = .ok n) :
    Drafted P f c (.of c context cmd g seq) n := by
  simp only [acceptedSnapshot, bind_eq_ok, failIf_eq_ok, exists_const, pure_eq_ok] at ok
  obtain ⟨room, paid, use, kept, evicted, rfl⟩ := ok
  obtain ⟨watermarkRoom, bindingRoom⟩ := capacityExhausted_room factory (by simpa using room)
  unfold reserveUseIf at use
  split at use
  · rename_i pays
    obtain ⟨allowed, rfl⟩ := reserveUse_ok use
    have reserved : (Accepted.of c context cmd g seq).reserved = true := decide_eq_true pays
    refine ⟨watermarkRoom, bindingRoom, fun _ => ⟨pays.1, allowed.limit, allowed.range⟩, ?_,
      ⟨kept, digest, evict_admitted factory fits evicted, rfl⟩, rfl⟩
    simp only [Accepted.auth, reserved, if_true]
    rfl
  · rename_i free
    rw [pure_eq_ok] at use
    subst use
    have reserved : (Accepted.of c context cmd g seq).reserved = false := decide_eq_false free
    refine ⟨watermarkRoom, bindingRoom, fun h => ?_, ?_,
      ⟨kept, digest, evict_admitted factory fits evicted, rfl⟩, rfl⟩
    · rw [reserved] at h
      cases h
    · simp only [Accepted.auth, reserved]
      rfl

end Draft

/-- The request may be accepted: it is authorized, new, keeps its domain and is allowed. -/
structure Acceptable (P : Primitives) (f : FactoryIdentity) (entry : Controller)
    (context : SessionContext) (cmd : Command) (now : UInt64) (g : Grant) (seq : UInt64)
    (c : Controller) (s : Abs) : Prop extends Handling f entry context cmd now c s where
  vetted : Vetted P c.state s.clocks context cmd g
  mutates : cmd.action.mutates = true
  sequence : cmd.sequence = some seq
  new : c.state.watermark g.credentialId < seq
  allowed : Allowed P f c.state c.active cmd.action

theorem Acceptable.authorized (h : Acceptable P f entry context cmd now g seq c a) :
    Authorized P f c.state a.clocks context cmd g seq :=
  ⟨h.wellFormed, h.capability, h.vetted.grant, h.vetted.binding, h.vetted.window, h.sequence, h.new⟩

theorem Acceptable.heard (h : Acceptable P f entry context cmd now g seq c a) (hh : Heard a a')
    (frame : Frame a a') : Acceptable P f entry context cmd now g seq c a' :=
  ⟨h.toHandling.after (h.toReady.heard hh) frame hh.progress, h.vetted.congr rfl frame.clocks,
    h.mutates, h.sequence, h.new, h.allowed⟩

theorem Acceptable.cosmetic (h : Acceptable P f entry context cmd now g seq c a)
    (hc : Cosmetic c c') : Acceptable P f entry context cmd now g seq c' a :=
  ⟨h.toHandling.after (h.toReady.cosmetic hc) (.refl a) rfl, by rw [hc.state]; exact h.vetted,
    h.mutates, h.sequence, by rw [hc.state]; exact h.new,
    by rw [hc.state, hc.active]; exact h.allowed⟩

theorem Drafted.cosmetic (h : Drafted P f c x n) (hc : Cosmetic c c') : Drafted P f c' x n := by
  obtain ⟨hw, hb, hr, ha, ho, hl⟩ := h
  refine ⟨?_, ?_, ?_, ?_, ?_, ?_⟩
  all_goals simp only [hc.state, hc.active]; assumption

theorem Drafted.cursor (h : Drafted P f c x n) : n.nextCursor = c.state.nextCursor := by
  have log := h.log
  simp only [DeviceSnapshot.log, Prod.mk.injEq] at log
  exact log.2.1

/-- The finished draft is an acceptance. -/
theorem Drafted.acceptance (h : Drafted P f c x n)
    (may : Acceptable P f entry context cmd now g seq c a)
    (keeps : clearsDomain P c.state cmd.action = .ok false)
    (hx : x = ⟨context, cmd, g, seq, x.reserved⟩) (auth : n'.auth = n.auth)
    (operations : n'.operations = n.operations) (logged : Logged f.info.logCapacity.toNat n n')
    (grew : Grew n n') :
    Acceptance P f a.clocks a.owned x c.state n' := by
  refine ⟨by rw [hx]; exact may.authorized, by rw [hx]; exact may.mutates,
    by rw [hx]; exact keeps, h.watermarkRoom, h.bindingRoom, h.reserved, ?_, auth.trans h.auth, ?_,
    logged.congr h.log.symm rfl, ?_⟩
  · have allowed := may.allowed
    rw [may.owned, hx]
    rintro (action | action)
    · rwa [show cmd.action = .unlock from action] at allowed
    · rwa [show cmd.action = .lock from action] at allowed
  · obtain ⟨kept, digest, admitted, same⟩ := h.operations
    exact ⟨kept, digest, by rw [may.owned]; exact admitted, operations.trans same⟩
  · unfold Grew at grew ⊢
    rw [← h.cursor]
    exact grew

/-- The state an acceptance leaves. -/
structure Taken (P : Primitives) (f : FactoryIdentity) (x : Accepted) (c : Controller)
    (c' : Controller) (s' : Abs) : Prop extends Carrying f x c'.state c' s' where
  auth : c'.state.auth = x.auth P c.state
  active : c'.active = c.active
  cursor : c'.state.nextCursor.toNat = c.state.nextCursor.toNat + 1

theorem accept_spec (h : Acceptable P f entry context cmd now g seq c s.1)
    (keeps : clearsDomain P c.state cmd.action = .ok false) (digest : Bytes32) :
    SimE (lockSpec P f) (accept P cmd g seq now digest (acceptedStatus g seq cmd.action)) c s
      fun r c' s' => match r with
        | .ok same => same = noChange c cmd.action
            ∧ Taken P f (.of c context cmd g seq) c c' s'.1
        | .error _ => Verdict f r c' s'.1 ∧ s'.1.progress = .fresh := by
  have fits := (s.2.mem _ h.mem).valid.operationsFit
  unfold accept
  simp only [simE_bind, simE_get, andThen_ok, simE_orFail]
  cases ok : acceptedSnapshot P c cmd g seq ⟨digest, acceptedStatus g seq cmd.action⟩ with
  | error e => exact ⟨h.calm, h.fresh⟩
  | ok n =>
    have draft : Drafted P f c (.of c context cmd g seq) n :=
      acceptedSnapshot_drafted h.factory.same fits ok
    rw [andThen_ok]
    refine (framed (recordWall_spec (h.hears h.live) n)).bind ?_
      (by rintro e c' s' ⟨⟨⟨_, ⟨⟩, _⟩, _⟩, _⟩)
    rintro n₁ c₁ s₁ ⟨⟨⟨floor, ⟨⟩, raised⟩, rfl, heard₁⟩, frame₁⟩
    refine (scheduleRelockIf_spec _ _).bind ?_ (by rintro e c' s' ⟨_, ⟨⟩, _⟩)
    rintro n₂ c₂ _ ⟨_, ⟨⟩, rfl, hc₂, flags₂, _⟩
    refine (dropRelockIf_spec _).bind ?_ (by rintro e c' s' ⟨_, ⟨⟩, _⟩)
    rintro n₃ c₃ s₃ ⟨_, ⟨⟩, rfl, hc₃, flags₃, _⟩
    have cosmetic := hc₂.trans hc₃
    have flags := flags₂.trans flags₃
    have may₃ := (h.heard heard₁ frame₁).cosmetic cosmetic
    refine (framed (audit_spec (may₃.hears may₃.live) n₃ _ _ _ _)).bind ?_ ?_
    · rintro n₄ c₄ s₄ ⟨⟨audited, rfl, heard₄⟩, frame₄⟩
      have may₄ := may₃.heard heard₄ frame₄
      have cursor : n₃.nextCursor = n.nextCursor := flags.cursor
      have dated : Logged f.info.logCapacity.toNat n { n with clockFloor := floor } :=
        ⟨.refl, raised, id⟩
      have logged : Logged f.info.logCapacity.toNat n n₄ :=
        (dated.trans flags.logged).trans audited.logged
      have grew : n₄.nextCursor.toNat = n.nextCursor.toNat + 1 := by rw [audited.cursor, cursor]
      have auth : n₄.auth = n.auth := audited.auth.trans flags.auth
      have acceptance : Acceptance P f s₄.1.clocks s₄.1.owned (.of c₁ context cmd g seq) c₄.state
          n₄ :=
        (draft.cosmetic cosmetic).acceptance may₄ (by rw [cosmetic.state]; exact keeps) rfl auth
          (audited.operations.trans flags.operations) logged (by rw [Grew, grew]; omega)
      have change := Change.accept (P := P) (f := f) _ may₄.recorded may₄.fresh may₄.request
        acceptance
      refine (commit_spec may₄.toLinked may₄.live change may₄.owned.symm).bind ?_ ?_
      · intro _ c₅ s₅ committed
        refine ⟨rfl, ?_⟩
        generalize s₅.1 = a at committed ⊢
        cases committed with
        | stored _ =>
          rw [may₄.owned]
          refine ⟨⟨.stored may₄.toLinked may₄.live change
            (.same (congrArg AuthState.firmware acceptance.auth)), rfl, Nat.le_add_right _ _⟩, ?_,
            cosmetic.active, ?_⟩
          · rw [← cosmetic.state]
            exact acceptance.auth
          · rw [grew, draft.cursor]
      · intro e c₅ s₅ committed
        generalize s₅.1 = a at committed ⊢
        cases committed with
        | failed died => exact ⟨died.verdict _, died.progress.trans may₄.fresh⟩
        | refused _ _ =>
          rw [may₄.owned]
          exact ⟨(may₄.toReady.submitted n₄ _).calm, may₄.fresh⟩
    · rintro e c₄ s₄ ⟨⟨_, rfl, heard₄⟩, frame₄⟩
      have may₄ := may₃.heard heard₄ frame₄
      exact ⟨may₄.calm, may₄.fresh⟩

end OpenLock
