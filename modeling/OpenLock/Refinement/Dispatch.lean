import OpenLock.Refinement.Ownership

/-! Dispatching a request refines the abstract lock, from the hazards serviced first to the
audit entry of a rejection. -/
namespace OpenLock
open Controller Effects

variable {P : Primitives} {f : FactoryIdentity} {c c' : Controller} {s s' : Lock P f}
  {entry : Controller} {context : SessionContext} {cmd : Command} {g : Grant} {now : UInt64}
  {Q : Except Error Reply → Controller → Lock P f → Prop}

theorem query_spec (room : Prop) (h : Handling f entry context cmd now c s.1) (action : Action) :
    SimE (lockSpec P f) (query g action) c s fun r c' s' => Answered f room r c' s'.1 := by
  unfold query
  rw [simE_bind, simE_get, andThen_ok]
  cases action with
  | status =>
    rw [simE_map]
    unfold status
    refine (framed (wall_spec (h.hears h.live))).bind ?_ (by rintro e c' s' ⟨⟨⟨_, ⟨⟩⟩, _⟩, _⟩)
    rintro trusted c₁ s₁ ⟨⟨_, rfl, heard⟩, frame⟩
    exact (h.after (h.toReady.heard heard) frame heard.progress).answered _
  | operation seq =>
    rw [simE_bind, simE_orFail]
    cases okOr (findOperation c.state.operations g.credentialId seq) .resultUnavailable with
    | error e => exact h.answered _
    | ok record => exact h.answered _
  | credentialStatus =>
    rw [simE_bind, simE_orFail]
    cases okOr (checkedAdd (c.state.watermark g.credentialId) 1) .resourceExhausted with
    | error e => exact h.answered _
    | ok next => exact h.answered _
  | _ => exact h.answered _

/-- A confirmation of the current controller is one of the controller the call found. -/
theorem ConfirmedBy.confirmed {encoded : Bytes} (encodes : encodeWire P cmd = .ok encoded)
    (h : ConfirmedBy c context.peer (P.sha256 encoded) now) (gates : c.gates = entry.gates) :
    Confirmed P entry now context cmd := by
  obtain ⟨k, present, peer, digest, current⟩ := h.congr gates
  exact ⟨k, encoded, present, encodes, peer, digest, current⟩

/-- The rule of `mutate`: a request is refused with nothing accepted, answered from its record,
or carried out once it may be accepted. -/
theorem mutate_rule (h : Handling f entry context cmd now c s.1) (gates : c.gates = entry.gates)
    (vetted : Vetted P c.state s.1.clocks context cmd g) (mutates : cmd.action.mutates = true)
    (refused : ∀ (e : Error) (c' : Controller) (s' : Lock P f),
      Verdict f (.error e : Except Error Reply) c' s'.1 → s'.1.progress = .fresh → Q (.error e) c' s')
    (replayed : ∀ (seq : UInt64) (digest : Bytes32), cmd.sequence = some seq →
      seq ≤ c.state.watermark g.credentialId → Q (replay c.state g.credentialId seq digest) c s)
    (accepted : ∀ (seq : UInt64) (digest : Bytes32) (b : Bool) (c' : Controller) (s' : Lock P f),
      Acceptable P f entry context cmd now g seq c' s'.1 → c'.state.auth = c.state.auth →
      c'.state.nextCursor.toNat ≤ c.state.nextCursor.toNat + 2 →
      (Confirms cmd.action → Confirmed P entry now context cmd) →
      clearsDomain P c'.state cmd.action = .ok b → SimE (lockSpec P f) (if b then do
          let reply ← execute P context cmd (acceptedStatus g seq cmd.action) now
          orFail (okOr reply .invalidState)
        else acceptAndExecute P context cmd g seq now digest) c' s' Q) :
    SimE (lockSpec P f) (mutate P context cmd g now) c s Q := by
  unfold mutate
  simp only [simE_bind, simE_orFail]
  cases sequence : okOr cmd.sequence .invalidPayload with
  | error e => exact refused e c s h.calm h.fresh
  | ok seq =>
    rw [okOr_eq_ok] at sequence
    simp only [andThen_ok, simE_bind, simE_orFail]
    cases encodes : encodeWire P cmd with
    | error e => exact refused e c s h.calm h.fresh
    | ok encoded =>
      simp only [andThen_ok, simE_bind, simE_get]
      split
      · rename_i used
        exact replayed seq _ sequence used
      · rename_i new
        refine (framed (preflight_spec h.toReady g)).bind ?_ ?_
        · rintro _ c₁ s₁ ⟨⟨ready, ⟨c₀, kept, volatile⟩, allowed⟩, frame⟩
          have auth : c₁.state.auth = c.state.auth := by rw [volatile.state, kept.auth]
          have near : c₁.state.nextCursor.toNat ≤ c.state.nextCursor.toNat + 2 := by
            rw [volatile.state]
            exact kept.cursor
          have may : Acceptable P f entry context cmd now g seq c₁ s₁.1 :=
            ⟨h.after ready frame kept.progress, vetted.congr auth frame.clocks, mutates, sequence,
              by rw [watermark_congr auth]; exact UInt64.not_le.1 new, (allowed rfl).1⟩
          simp only [simE_bind, simE_get, andThen_ok, simE_orFail]
          cases clears : clearsDomain P c₁.state cmd.action with
          | error e => exact refused e c₁ s₁ may.calm may.fresh
          | ok b =>
            exact accepted seq _ b c₁ s₁ may auth near
              (fun hc => ((allowed rfl).2 hc).confirmed encodes gates) clears
        · rintro e c₁ s₁ ⟨⟨verdict, ⟨c₀, kept, _⟩, _⟩, _⟩
          exact refused e c₁ s₁ verdict (kept.progress.trans h.fresh)

theorem mutate_spec (h : Handling f entry context cmd now c s.1) (gates : c.gates = entry.gates)
    (vetted : Vetted P c.state s.1.clocks context cmd g) (mutates : cmd.action.mutates = true) :
    SimE (lockSpec P f) (mutate P context cmd g now) c s fun r c' s' =>
      Answered f (c.state.nextCursor.toNat + 8 ≤ 2^64) r c' s'.1 := by
  refine mutate_rule h gates vetted mutates ?_ (fun _ _ _ _ => h.answered _) ?_
  · intro e c₁ s₁ verdict fresh
    exact ⟨verdict, fun _ _ _ _ => fresh, fun _ h => (by cases h),
      fun settled => by cases fresh.symm.trans settled⟩
  · intro seq digest b c₁ s₁ may _ near confirmed clears
    cases b with
    | true =>
      rw [if_pos rfl]
      refine (replaceDomain_spec may clears confirmed).bind ?_ ?_
      · rintro reply c₂ s₂ ⟨verdict, _, replied, settled⟩
        obtain ⟨status, rfl⟩ := replied reply rfl
        refine ⟨verdict, fun _ h => (by cases h), ?_, fun h => ⟨⟨_, rfl⟩, (settled h).2⟩⟩
        rintro _ ⟨⟩ _
        exact ⟨status, rfl⟩
      · rintro e c₂ s₂ ⟨verdict, rejected, _, settled⟩
        refine ⟨verdict, fun _ _ live _ => rejected e rfl live, fun _ h => (by cases h),
          fun h => ?_⟩
        obtain ⟨⟨_, ⟨⟩⟩, _⟩ := settled h
    | false =>
      rw [if_neg Bool.false_ne_true]
      refine (acceptAndExecute_spec may clears _).mono ?_
      intro r c₂ s₂ answered
      refine ⟨answered.verdict, fun e he live room => ?_, answered.replied, answered.settled⟩
      exact answered.rejected e he live (by omega)

/-- Hazards are serviced first; a sensor fault alone lets the request go on. -/
theorem serviceHazards_spec (h : Coupled f c s.1) (recorded : s.1.failing = none) :
    SimE (lockSpec P f) (serviceHazards P) c s fun r c' s' =>
      (match r with
        | .ok _ => Coupled f c' s'.1 ∧ (c'.poisoned = false → s'.1.failing = none)
        | .error e => Verdict f r c' s'.1 ∧ e ≠ .sensorConflict ∧ Unfit 2 c c' e)
        ∧ Kept 2 c s.1 c' s'.1 := by
  unfold serviceHazards
  rw [simE_bind, simE_attempt]
  refine (hardwareChanged_spec h recorded).mono ?_
  rintro r c' s' ⟨⟨verdict, kept⟩, why⟩
  rw [andThen_ok]
  cases r with
  | ok => exact ⟨⟨verdict.toCoupled, fun _ => verdict.recorded⟩, kept⟩
  | error e =>
    rw [simE_failIf]
    refine ⟨fun other => ⟨⟨verdict, other, why e rfl⟩, kept⟩,
      fun conflict => ⟨⟨verdict.1, fun live => ?_⟩, kept⟩⟩
    rw [not_not] at conflict
    subst conflict
    rcases verdict.2 live with recorded | ⟨⟨⟩, _⟩
    exact recorded

/-- A request that has passed the checks every request has to pass. -/
structure Passed (f : FactoryIdentity) (context : SessionContext) (cmd : Command) (now : UInt64)
    (c : Controller) (s : Abs) (c' : Controller) (s' : Abs) : Prop extends
    Handling f c context cmd now c' s' where
  kept : Kept 2 c s c' s'
  time : c'.lastMono = now
  generation : context.generation = c'.state.generation

/-- Why a request fails those checks. -/
inductive Barred (f : FactoryIdentity) (context : SessionContext) (cmd : Command)
    (c c' : Controller) : Error → Prop
  | unfit {e : Error} (other : e ≠ .sensorConflict) (why : Unfit 2 c c' e) : Barred f context cmd c c' e
  | malformed {e : Error} (codec : Malformed e)
      (h : cmd.validate = .ok () → ∀ a, Action.parse cmd.action.value ≠ .ok a) :
      Barred f context cmd c c' e
  | unsupported (h : cmd.capability &&& f.info.capabilities = 0) :
      Barred f context cmd c c' .unsupportedCapability
  | stale (h : context.generation ≠ c.state.generation) : Barred f context cmd c c' .invalidState

/-- The rule of `dispatch`: a request is barred with nothing changed but what servicing the
hardware changes, or answered after it has passed. -/
theorem dispatch_rule (h : Coupled f c s.1)
    (recorded : s.1.failing = none) (fresh : s.1.progress = .fresh)
    (request : s.1.request = some (context, cmd)) (entered : s.1.entry = some c)
    (barred : ∀ (e : Error) (c' : Controller) (s' : Lock P f),
      Verdict f (.error e : Except Error Reply) c' s'.1 → Kept 2 c s.1 c' s'.1 →
      Barred f context cmd c c' e → Q (.error e) c' s')
    (passed : ∀ (now : UInt64) (c' : Controller) (s' : Lock P f),
      Passed f context cmd now c s.1 c' s'.1 → Frame s.1 s'.1 →
      SimE (lockSpec P f) (match cmd.action with
        | .pairingStatus => pairingStatus now
        | .claim setupKey issuer admin => claim P context setupKey issuer admin now
        | action => do
          let grant ← authorize P context cmd
          if action.mutates then mutate P context cmd grant now else query grant action) c' s' Q) :
    SimE (lockSpec P f) (dispatch P context cmd) c s Q := by
  unfold dispatch
  refine (framed (serviceHazards_spec h recorded)).bind ?_ ?_
  · rintro _ c₁ s₁ ⟨⟨⟨coupled, recorded₁⟩, kept₁⟩, frame₁⟩
    refine (framed (now_spec coupled recorded₁)).bind ?_ ?_
    · rintro now c₂ s₂ ⟨⟨ready, rfl, read, hs₂⟩, frame₂⟩
      have frame := frame₁.trans frame₂
      have progress : s₂.1.progress = s.1.progress := by
        rw [hs₂]
        exact kept₁.progress
      have kept : Kept 2 c s.1 { c₁ with lastMono := now } s₂.1 :=
        ⟨kept₁.auth, kept₁.gates, kept₁.cursor, kept₁.active, progress⟩
      have stops : ∀ e, Barred f context cmd c { c₁ with lastMono := now } e →
          Q (.error e) { c₁ with lastMono := now } s₂ :=
        fun e why => barred e _ _ ready.calm kept why
      simp only [simE_bind, simE_orFail]
      cases wellFormed : cmd.validate with
      | error e =>
        have invalid : e = .invalidPayload := (raises_failIf rfl e wellFormed).symm
        exact stops e (.malformed (.inl invalid) fun ok => by cases wellFormed.symm.trans ok)
      | ok =>
        simp only [andThen_ok, simE_bind, simE_orFail]
        cases parsed : Action.parse cmd.action.value with
        | error e =>
          have codec : Raises Malformed (Action.parse cmd.action.value) :=
            ParseErrors.malformed (α := Action) _
          exact stops e (.malformed (codec e parsed) fun _ a ok => by cases parsed.symm.trans ok)
        | ok _ =>
          simp only [andThen_ok, simE_bind, simE_get]
          have capabilities : c₁.factory.info.capabilities = f.info.capabilities := by
            rw [ready.factory.same]
          have generation : c₁.state.generation = c.state.generation :=
            congrArg AuthState.generation kept₁.auth
          rw [simE_failIf, capabilities]
          refine ⟨fun unsupported => stops _ (.unsupported unsupported), fun capability => ?_⟩
          simp only [andThen_ok, simE_bind]
          rw [simE_failIf]
          refine ⟨fun stale => stops _ (.stale (generation ▸ stale)), fun current => ?_⟩
          rw [not_not] at current
          exact passed now _ s₂ ⟨⟨ready, progress.trans fresh, frame.request.trans request,
            frame.entry.trans entered, read, wellFormed, capability⟩, kept, rfl, current⟩ frame
    · rintro e c₂ s₂ ⟨⟨cause, died⟩, _⟩
      refine barred e c₂ s₂ (died.verdict e) (kept₁.trans died.kept)
        (.unfit ?_ (.poisoned e died.poisoned (cause.imp_right .inl)))
      rcases cause with rfl | rfl <;> decide
  · rintro e c₁ s₁ ⟨⟨⟨verdict, other, why⟩, kept₁⟩, _⟩
    exact barred e c₁ s₁ verdict kept₁ (.unfit other why)

theorem dispatch_spec (h : Coupled f c s.1) (recorded : s.1.failing = none)
    (fresh : s.1.progress = .fresh) (request : s.1.request = some (context, cmd))
    (entered : s.1.entry = some c) :
    SimE (lockSpec P f) (dispatch P context cmd) c s fun r c' s' =>
      Answered f (c.state.nextCursor.toNat + 12 ≤ 2^64) r c' s'.1
        ∧ ∀ y, r = .ok y → LetIn P c.state s'.1.clocks context cmd := by
  refine dispatch_rule h recorded fresh request entered ?_ ?_
  · intro e c' s' verdict kept _
    have fresh' := kept.progress.trans fresh
    exact ⟨⟨verdict, fun _ _ _ _ => fresh', fun _ h => (by cases h),
      fun settled => (by cases fresh'.symm.trans settled)⟩, fun _ h => by cases h⟩
  · intro now c₂ s₂ passed frame
    have handling := passed.toHandling
    have kept₂ := passed.kept
    have ownerless : ¬ c₂.state.owner.isSome → ∀ clocks, LetIn P c.state clocks context cmd := by
      intro free clocks
      have owner : c₂.state.owner = c.state.owner := congrArg AuthState.owner kept₂.auth
      exact ⟨passed.generation.trans (congrArg AuthState.generation kept₂.auth),
        fun owned => absurd (by rw [owner]; exact owned) free⟩
    split
    · unfold pairingStatus
      simp only [simE_bind, simE_get, andThen_ok]
      rw [simE_failIf]
      exact ⟨fun _ => ⟨handling.refused _, fun _ h => (by cases h)⟩,
        fun free => ⟨handling.answered _, fun _ _ => ownerless free _⟩⟩
    · rename_i action
      by_cases owned : c₂.state.owner.isSome
      · unfold claim
        simp only [simE_bind, simE_get, andThen_ok]
        rw [simE_failIf]
        exact ⟨fun _ => ⟨handling.refused _, fun _ h => (by cases h)⟩, fun free => absurd owned free⟩
      · exact (claim_spec _ handling action passed.generation kept₂.gates passed.time).mono
          fun r c' s' answered => ⟨answered.1, fun _ _ => ownerless owned _⟩
    · refine (framed (authorize_spec handling.toReady context cmd)).bind ?_ ?_
      · rintro g c₃ s₃ ⟨⟨⟨ready₃, kept₃⟩, vetted⟩, frame₃⟩
        have handling₃ := handling.after ready₃ frame₃ kept₃.progress
        have auth₃ : c₃.state.auth = c.state.auth := kept₃.auth.trans kept₂.auth
        have cursor₂ := kept₂.cursor
        have cursor₃ : c₃.state.nextCursor.toNat ≤ c₂.state.nextCursor.toNat + 2 := kept₃.cursor
        split
        · rename_i mutates
          refine (framed (mutate_spec handling₃ (kept₃.gates.trans kept₂.gates) (vetted g rfl)
            mutates)).mono ?_
          rintro r c₄ s₄ ⟨answered, frame₄⟩
          refine ⟨⟨answered.verdict, fun e he live room => ?_, answered.replied,
            answered.settled⟩, fun _ _ => (vetted g rfl).letIn auth₃ frame₄.clocks⟩
          exact answered.rejected e he live (by omega)
        · refine (framed (query_spec (c.state.nextCursor.toNat + 12 ≤ 2^64) handling₃ _)).mono ?_
          rintro r c₄ s₄ ⟨answered, frame₄⟩
          exact ⟨answered, fun _ _ => (vetted g rfl).letIn auth₃ frame₄.clocks⟩
      · rintro e c₃ s₃ ⟨⟨⟨verdict, kept₃⟩, _⟩, _⟩
        have fresh₃ := kept₃.progress.trans handling.fresh
        exact ⟨⟨verdict, fun _ _ _ _ => fresh₃, fun _ h => (by cases h),
          fun settled => (by cases fresh₃.symm.trans settled)⟩, fun _ h => by cases h⟩

theorem auditRejection_spec (h : Tame f c s.1) (code : UInt32) :
    SimE (lockSpec P f) (auditRejection P code) c s fun _ c' s' =>
      Coupled f c' s'.1 ∧ Kept 1 c s.1 c' s'.1
        ∧ (c'.poisoned = false → s'.1.failing = none ∨ Spent c'.state) := by
  unfold auditRejection
  simp only [simE_bind, simE_get, andThen_ok]
  rw [← simE_bind]
  refine (audit_spec (h.hears h.live) _ _ _ _ _).bind ?_ ?_
  · rintro n c₁ s₁ ⟨audited, rfl, heard⟩
    refine (store_background (h.heard heard) (.flags audited.auth audited.operations
      audited.logged)).mono ?_
    rintro r c₂ s₂ stored
    have kept := (stored.serviced audited.auth audited.cursor.le).2
    have kept : Kept 1 c₁ s.1 c₂ s₂.1 :=
      ⟨kept.auth, kept.gates, kept.cursor, kept.active, kept.progress.trans heard.progress⟩
    rcases stored with ⟨_, _, _, ready⟩ | ⟨_, died⟩
    · exact ⟨ready.toCoupled, kept, fun _ => .inl ready.recorded⟩
    · refine ⟨died.coupled, kept, fun live => ?_⟩
      rw [died.poisoned] at live
      cases live
  · rintro e c₁ s₁ ⟨_, rfl, heard⟩
    exact ⟨h.toCoupled.heard heard, ⟨rfl, rfl, Nat.le_succ _, .inl rfl, heard.progress⟩,
      fun _ => (h.heard heard).recorded⟩

/-- How `handle` ends. -/
structure Responded (P : Primitives) (f : FactoryIdentity) (context : SessionContext)
    (cmd : Command) (c : Controller) (r : Response) (c' : Controller) (s' : Abs) : Prop where
  coupled : Coupled f c' s'
  ready : ∀ y, r.result = .ok y → Ready f c' s'
  letIn : ∀ y, r.result = .ok y → LetIn P c.state s'.clocks context cmd
  rejected : ∀ e, r.result = .error e → c'.poisoned = false →
    c.state.nextCursor.toNat + 12 ≤ 2^64 → s'.progress = .fresh
  replied : ∀ y, r.result = .ok y → s'.progress.key.isSome → ∃ status, y = .operation status
  recorded : c'.poisoned = false → s'.failing = none ∨ Spent c'.state
  settled : s'.progress = .settled → c'.confirmation = none

/-- The rule of `handle`: an answer is passed on, and a refusal by a live owned device is
entered in the log first. -/
theorem handle_rule {D : Except Error Reply → Controller → Lock P f → Prop}
    {Q : Response → Controller → Lock P f → Prop}
    (dispatched : SimE (lockSpec P f) (dispatch P context cmd) c s D)
    (verdict : ∀ e c' s', D (.error e) c' s' → Verdict f (.error e : Except Error Reply) c' s'.1)
    (answered : ∀ y c' s', D (.ok y) c' s' → Q ⟨cmd.action.opcode, .ok y⟩ c' s')
    (refused : ∀ e c' s', D (.error e) c' s' → Q ⟨cmd.action.opcode, .error e.code⟩ c' s')
    (audited : ∀ e c' s', D (.error e) c' s' → c'.poisoned = false → c'.state.owner.isSome →
      ∀ code c'' (s'' : Lock P f), code = e.code ∨ code = Error.storageUnavailable.code →
      Coupled f c'' s''.1 → Kept 1 c' s'.1 c'' s''.1 →
      (c''.poisoned = false → s''.1.failing = none ∨ Spent c''.state) →
      Q ⟨cmd.action.opcode, .error code⟩ c'' s'') :
    SimS (lockSpec P f) (handle P context cmd) c s Q := by
  unfold handle
  rw [simS_bind, simS_run]
  refine dispatched.mono ?_
  intro r c₁ s₁ post
  cases r with
  | ok reply => exact answered reply c₁ s₁ post
  | error e =>
    simp only [simS_bind, simS_get]
    split
    · rename_i logs
      have live : c₁.poisoned = false := by simpa using logs.1
      rw [simS_bind, simS_run]
      refine (auditRejection_spec ((verdict e c₁ s₁ post).tame live) e.code).mono ?_
      rintro r c₂ s₂ ⟨coupled, kept, recorded⟩
      cases r with
      | ok => exact audited e c₁ s₁ post live logs.2 _ c₂ s₂ (.inl rfl) coupled kept recorded
      | error => exact audited e c₁ s₁ post live logs.2 _ c₂ s₂ (.inr rfl) coupled kept recorded
    · exact refused e c₁ s₁ post

theorem handle_spec (h : Coupled f c s.1) (recorded : s.1.failing = none)
    (fresh : s.1.progress = .fresh) (request : s.1.request = some (context, cmd))
    (entered : s.1.entry = some c) :
    SimS (lockSpec P f) (handle P context cmd) c s fun r c' s' =>
      Responded P f context cmd c r c' s'.1 := by
  refine handle_rule (dispatch_spec h recorded fresh request entered) ?_ ?_ ?_ ?_
  · exact fun e c' s' post => post.1.verdict
  · rintro y c₁ s₁ ⟨answered, letIn⟩
    refine ⟨Ready.toCoupled answered.verdict, fun _ _ => answered.verdict,
      fun _ _ => letIn y rfl, fun _ h => (by cases h), ?_,
      fun _ => .inl (Ready.recorded answered.verdict), fun settled => (answered.settled settled).2⟩
    rintro _ ⟨⟩
    exact answered.replied y rfl
  · rintro e c₁ s₁ ⟨answered, _⟩
    refine ⟨answered.verdict.1, fun _ h => (by cases h), fun _ h => (by cases h),
      fun _ _ live room => answered.rejected e rfl live room, fun _ h => (by cases h),
      fun live => (answered.verdict.2 live).imp_right And.right, fun settled => ?_⟩
    obtain ⟨⟨_, ⟨⟩⟩, _⟩ := answered.settled settled
  · rintro e c₁ s₁ ⟨answered, _⟩ live _ code c₂ s₂ _ coupled kept recorded
    refine ⟨coupled, fun _ h => (by cases h), fun _ h => (by cases h),
      fun _ _ _ room => kept.progress.trans (answered.rejected e rfl live room),
      fun _ h => (by cases h), recorded, fun settled => ?_⟩
    obtain ⟨⟨_, ⟨⟩⟩, _⟩ := answered.settled (kept.progress.symm.trans settled)

end OpenLock
