import OpenLock.Refinement.Acceptance

/-! Whole requests refine the abstract lock: dispatch, the replacement of a domain, the
claim of an ownerless device and the entry points of a session. -/
namespace OpenLock
open Controller Effects

variable {P : Primitives} {f : FactoryIdentity} {c c' : Controller} {s s' : Lock P f}
  {m n : DeviceSnapshot} {entry : Controller} {context : SessionContext} {cmd : Command}
  {g : Grant} {seq now : UInt64} {x : Accepted}

section Accepted
variable {a : Abs} {action : Action}

theorem Executed.performed {q : Except Error (Option Reply)} (h : Executed f x.key 1 m q c a) :
    Performed P f x m (q.map Outcome.done) c a := by
  cases q with
  | error e =>
    exact ⟨h.verdict, Nat.le_succ_of_le h.cursor, h.progress, fun _ h => (by cases h),
      fun _ h => (by cases h)⟩
  | ok reply =>
    refine ⟨h.verdict, Nat.le_succ_of_le h.cursor, h.progress, ?_, fun _ h => (by cases h)⟩
    rintro y ⟨⟩
    exact h.reply y rfl

/-- Unlocking and locking: the drive is exactly what was accepted and paid for. -/
theorem drive_performed (h : Carrying f x c.state c s.1) (same : x.command.action = action)
    (idle : c.active = none) (settled : c.state.firmware.phase ≠ .trial)
    (moves : (action = .unlock ∧ x.reserved = true) ∨ action = .lock) :
    SimE (lockSpec P f) (Execute.drive P (acceptedStatus x.grant x.sequence action) action) c s
      fun r c' s' => Performed P f x c.state r c' s'.1 := by
  have may : MayStart f c s.1 (acceptedStatus x.grant x.sequence action) (Execute.target action) := by
    refine ⟨idle, settled, fun deadline => ?_⟩
    rw [h.accepted]
    refine .manual x _ rfl rfl ?_
    rcases moves with ⟨rfl, paid⟩ | rfl
    · exact .inl ⟨same, paid, rfl⟩
    · exact .inr ⟨same, rfl⟩
  refine (drive_spec h.toReady may).mono ?_
  rintro r c' s' ⟨q, executed, rfl⟩
  exact Executed.performed executed

theorem clearsDomain_policy {signed : Bytes} {key : VerifyingKey} {p : PolicyUpdate}
    (issuer : issuerKey P m = .ok key) (read : readPolicy P key signed = .ok p) :
    clearsDomain P m (.applyPolicy signed) = .ok (p.epoch > m.epoch) := by
  simp only [clearsDomain, bind_eq_ok, pure_eq_ok]
  exact ⟨key, issuer, p, read, rfl⟩

/-- Carrying out whatever was accepted. -/
theorem executeAction_spec (h : Carrying f x c.state c s.1)
    (allowed : Allowed P f c.state c.active x.command.action)
    (keeps : clearsDomain P c.state x.command.action = .ok false)
    (paid : x.command.action = .unlock → x.reserved = true) (context : SessionContext)
    (now : UInt64) :
    SimE (lockSpec P f) (executeAction P context x.command
        (acceptedStatus x.grant x.sequence x.command.action) now) c s
      fun r c' s' => Performed P f x c.state r c' s'.1 := by
  unfold executeAction
  cases action : x.command.action with
  | unlock =>
    rw [action] at allowed
    exact drive_performed h action allowed.1 allowed.2 (.inl ⟨rfl, paid action⟩)
  | lock =>
    rw [action] at allowed
    exact drive_performed h action allowed.1 allowed.2 (.inr rfl)
  | setConfig config =>
    rw [action] at allowed
    exact setConfig_spec h action allowed now
  | applyPolicy signed =>
    rw [action] at allowed keeps
    obtain ⟨key, p, issuer, read, lock, ⟨newer, _⟩ | ⟨same, newer, fits⟩⟩ := allowed
    · rw [clearsDomain_policy issuer read] at keeps
      simp only [Except.ok.injEq, decide_eq_false_iff_not] at keeps
      exact absurd newer keeps
    · exact applyPolicy_spec h action issuer read lock same newer fits
  | setClock t => exact setClock_spec h action
  | reboot => exact reboot_spec h action
  | firmwareBegin signed =>
    rw [action] at allowed
    exact firmwareBegin_spec h action allowed
  | firmwareChunk offset data =>
    rw [action] at allowed
    obtain ⟨phase, y, known, bound⟩ := allowed
    exact firmwareChunk_spec h action phase known bound
  | firmwareFinish =>
    rw [action] at allowed
    obtain ⟨phase, y, known, complete⟩ := allowed
    exact firmwareFinish_spec h action phase known complete
  | firmwareActivate =>
    rw [action] at allowed
    exact firmwareActivate_spec h action allowed
  | firmwareAbort =>
    rw [action] at allowed
    exact firmwareAbort_spec h action allowed
  | rotateDeviceKey signed => exact rotateDeviceKey_spec h action
  | factoryReset | replaceIssuer key =>
    rw [action] at keeps
    cases keeps
  | _ => exact h.failed _

theorem execute_spec (h : Carrying f x c.state c s.1)
    (allowed : Allowed P f c.state c.active x.command.action)
    (keeps : clearsDomain P c.state x.command.action = .ok false)
    (paid : x.command.action = .unlock → x.reserved = true) (context : SessionContext)
    (now : UInt64) :
    SimE (lockSpec P f) (execute P context x.command
        (acceptedStatus x.grant x.sequence x.command.action) now) c s
      fun r c' s' => Executed f x.key 3 c.state r c' s'.1 := by
  unfold execute
  refine (executeAction_spec h allowed keeps paid context now).bind ?_ ?_
  · rintro (n | reply) c₁ s₁ performed
    · obtain ⟨change, announced, cursor⟩ := performed.commit n rfl
      have ready : Ready f c₁ s₁.1 := performed.verdict
      have near := performed.near
      rw [ready.owned] at change
      refine (store_spec ready.toLinked ready.live change announced fun y =>
        background_room y).bind ?_ ?_
      · rintro _ c₂ s₂ (⟨_, rfl, hs, ready₂⟩ | ⟨⟨⟩, _⟩)
        refine ⟨ready₂, fun _ h => (by cases h), ?_, ?_⟩
        · change n.nextCursor.toNat ≤ _
          omega
        · rw [hs]
          exact performed.key
      · rintro e c₂ s₂ (⟨⟨⟩, _⟩ | ⟨_, died⟩)
        refine ⟨died.verdict e, fun _ h => (by cases h), ?_, ?_⟩
        · rw [died.state]
          exact Nat.le_succ_of_le near
        · rw [died.progress]
          exact performed.key
    · refine ⟨performed.verdict, ?_, Nat.le_succ_of_le performed.near, performed.key⟩
      rintro y ⟨⟩
      exact performed.done y rfl
  · rintro e c₁ s₁ performed
    exact ⟨performed.verdict, fun _ h => (by cases h), Nat.le_succ_of_le performed.near,
      performed.key⟩

/-- How a request ends. With room in the log, an error on a live controller means that
nothing was accepted, and an accepted operation answers with its status. -/
structure Answered (f : FactoryIdentity) (room : Prop) (r : Except Error Reply) (c' : Controller)
    (s' : Abs) : Prop where
  verdict : Verdict f r c' s'
  rejected : ∀ e, r = .error e → c'.poisoned = false → room → s'.progress = .fresh
  replied : ∀ y, r = .ok y → s'.progress.key.isSome → ∃ status, y = .operation status
  /-- A change of domain is answered and gives up any confirmation. -/
  settled : s'.progress = .settled → (∃ y, r = .ok y) ∧ c'.confirmation = none

/-- A request that has not changed the domain has nothing to give up. -/
theorem unsettled {p : Prop} {pr : Progress} (key : pr.key.isSome) : pr = .settled → p := by
  rintro rfl
  cases key

theorem Finished.answered {k : OpKey} {room : Prop} {r : Except Error Reply}
    (h : Finished f k m r c a) (enough : room → ¬ Exhausted m) : Answered f room r c a := by
  refine ⟨h.verdict, fun e he live hroom => ?_, fun y hy _ => h.reply y hy,
    unsettled (by rw [h.progress]; rfl)⟩
  rcases h.failed e he with poisoned | full
  · rw [live] at poisoned
    cases poisoned
  · exact absurd full (enough hroom)

/-- What acceptance leaves of the needs of an action. -/
theorem Taken.allowed (h : Taken P f x c c' a)
    (allowed : Allowed P f c.state c.active x.command.action) :
    Allowed P f c'.state c'.active x.command.action := by
  rw [h.active]
  exact allowed.congr (congrArg AuthState.owner h.auth) (congrArg AuthState.lockId h.auth)
    (congrArg AuthState.epoch h.auth) (congrArg AuthState.policyVersion h.auth)
    (congrArg AuthState.revoked h.auth) (congrArg AuthState.firmware h.auth)

theorem Taken.keeps (h : Taken P f x c c' a) (keeps : clearsDomain P c.state action = .ok false) :
    clearsDomain P c'.state action = .ok false := by
  have owner : c'.state.owner = c.state.owner := congrArg AuthState.owner h.auth
  have epoch : c'.state.epoch = c.state.epoch := congrArg AuthState.epoch h.auth
  unfold clearsDomain issuerKey at keeps ⊢
  simp only [owner, epoch]
  exact keeps

theorem acceptAndExecute_spec (h : Acceptable P f entry context cmd now g seq c s.1)
    (keeps : clearsDomain P c.state cmd.action = .ok false) (digest : Bytes32) :
    SimE (lockSpec P f) (acceptAndExecute P context cmd g seq now digest) c s fun r c' s' =>
      Answered f (c.state.nextCursor.toNat + 6 ≤ 2^64) r c' s'.1 := by
  unfold acceptAndExecute
  refine (accept_spec h keeps digest).bind ?_ ?_
  · rintro same c₁ s₁ ⟨hsame, taken⟩
    have cursor := taken.cursor
    split
    · refine (finish_accepted taken.toReady.tame taken.key _ _ _).mono ?_
      intro r c₂ s₂ finished
      refine finished.answered fun room full => ?_
      unfold Exhausted at full
      omega
    · rename_i moves
      have paid : cmd.action = .unlock → (Accepted.of c context cmd g seq).reserved = true := by
        intro unlock
        exact decide_eq_true ⟨unlock, by rw [← hsame]; exact moves⟩
      rw [simE_bind, simE_attempt]
      refine (execute_spec taken.toCarrying (taken.allowed h.allowed) (taken.keeps keeps) paid
        context now).mono ?_
      intro r c₂ s₂ executed
      have near := executed.cursor
      rw [andThen_ok]
      have ends : ∀ phase evidence code, Tame f c₂ s₂.1 → SimE (lockSpec P f)
          (finish P (acceptedStatus g seq cmd.action) phase evidence code) c₂ s₂ fun r c' s' =>
            Answered f (c.state.nextCursor.toNat + 6 ≤ 2^64) r c' s'.1 := by
        intro phase evidence code tame
        refine (finish_accepted tame executed.progress phase evidence code).mono ?_
        intro r' c₃ s₃ finished
        refine finished.answered fun room full => ?_
        unfold Exhausted at full
        omega
      match r with
      | .ok (some reply) =>
        refine ⟨executed.verdict, fun _ h => (by cases h), ?_,
          unsettled (by rw [executed.progress]; rfl)⟩
        rintro _ ⟨⟩ _
        exact executed.reply reply rfl
      | .ok none => exact ends _ _ _ (Ready.tame executed.verdict)
      | .error e =>
        simp only [simE_bind, simE_get, andThen_ok]
        split
        · rename_i poisoned
          refine ⟨executed.verdict, fun _ _ live => ?_, fun _ h => (by cases h),
            unsettled (by rw [executed.progress]; rfl)⟩
          rw [poisoned] at live
          cases live
        · rename_i live
          exact ends _ _ _ (executed.verdict.tame (by simpa using live))
  · rintro e c₁ s₁ ⟨verdict, fresh⟩
    exact ⟨verdict, fun _ _ _ _ => fresh, fun _ h => (by cases h),
      fun settled => by cases fresh.symm.trans settled⟩

end Accepted
end OpenLock
