import OpenLock.Refinement.Run

/-! Commissioning: how a claim, a question about the pairing window and the pairing gesture
end, and what each of them leaves of the window. -/
namespace OpenLock
open Controller Effects

variable {P : Primitives} {f : FactoryIdentity} {c c' : Controller} {s : Lock P f}
  {context : SessionContext} {cmd : Command} {key issuer : Bytes32} {admin : Bytes}

/-- What bars any request declines a claim. -/
theorem Barred.declines {e : Error} (h : Barred f context cmd c c' e) :
    e.code ≠ Error.invalidSetupKey.code ∧ Declines P f 3 context cmd key issuer admin c c' := by
  cases h with
  | unfit other why =>
    cases why with
    | sensors => exact absurd rfl other
    | exhausted full => exact ⟨by decide, .exhausted (by omega)⟩
    | poisoned _ dead cause =>
      refine ⟨?_, .poisoned dead⟩
      rcases cause with rfl | rfl | rfl <;> decide
  | malformed codec h =>
    refine ⟨?_, .malformed h⟩
    rcases codec with rfl | rfl <;> decide
  | unsupported h => exact ⟨by decide, .unsupported h⟩
  | stale h => exact ⟨by decide, .stale h⟩

section Requests
variable (h : Coupled f c s.1) (recorded : s.1.failing = none) (fresh : s.1.progress = .fresh)
  (request : s.1.request = some (context, cmd)) (entered : s.1.entry = some c)
include h recorded fresh request entered

/-- How a claim is answered. -/
theorem handle_tried (action : cmd.action = .claim key issuer admin) :
    SimS (lockSpec P f) (handle P context cmd) c s fun r c' _ =>
      Tried P f 3 context cmd key issuer admin c r.result c' := by
  have dispatched : SimE (lockSpec P f) (dispatch P context cmd) c s fun r c' s' =>
      Verdict f r c' s'.1
        ∧ Tried P f 3 context cmd key issuer admin c (r.mapError Error.code) c' := by
    refine dispatch_rule h recorded fresh request entered ?_ ?_
    · intro e c' s' verdict kept barred
      obtain ⟨other, why⟩ := barred.declines
      exact ⟨verdict, .declined other kept.gates (congrArg AuthState.owner kept.auth) why⟩
    · intro now c' s' passed _
      simp only [action]
      refine (claim_spec True passed.toHandling action passed.generation passed.kept.gates
        passed.time).mono ?_
      rintro r c'' s'' ⟨answered, tried⟩
      exact ⟨answered.verdict, tried.since passed.kept.auth passed.kept.gates passed.kept.cursor⟩
  refine handle_rule dispatched ?_ ?_ ?_ ?_
  · exact fun _ _ _ post => post.1
  · exact fun _ _ _ post => post.2
  · exact fun _ _ _ post => post.2
  · -- the refusal is entered in the log: it was not about the setup key
    rintro e c₁ s₁ ⟨_, tried⟩ _ owned code c₂ s₂ same _ kept _
    generalize result : (Except.error e : Except Error Reply).mapError Error.code = r at tried
    cases tried with
    | wrong ownerless _ _ _ _ owner =>
      rw [owner, ownerless] at owned
      cases owned
    | claimed => cases result
    | declined other gates owner _ =>
      cases result
      refine .declined ?_ (kept.gates.trans gates)
        ((congrArg AuthState.owner kept.auth).trans owner) (.owned (owner ▸ owned))
      rcases same with rfl | rfl
      · exact other
      · decide

/-- How the question about the pairing window is answered. -/
theorem handle_surveyed (action : cmd.action = .pairingStatus) :
    SimS (lockSpec P f) (handle P context cmd) c s fun r c' _ => ∀ y, r.result = .ok y →
      c.state.owner = none ∧ ∃ epoch generation,
        y = .pairing epoch generation (c.pairingUntil.any fun until_ => c'.lastMono < until_) := by
  have dispatched : SimE (lockSpec P f) (dispatch P context cmd) c s fun r c' s' =>
      Verdict f r c' s'.1 ∧ ∀ y, r = .ok y → c.state.owner = none ∧ ∃ epoch generation,
        y = .pairing epoch generation (c.pairingUntil.any fun until_ => c'.lastMono < until_) := by
    refine dispatch_rule h recorded fresh request entered
      (fun e c' s' verdict _ _ => ⟨verdict, fun _ h => by cases h⟩) ?_
    intro now c' s' passed _
    have owner : c'.state.owner = c.state.owner := congrArg AuthState.owner passed.kept.auth
    have opened : c'.pairingUntil = c.pairingUntil := congrArg (·.1) passed.kept.gates
    simp only [action]
    unfold pairingStatus
    simp only [simE_bind, simE_get, andThen_ok]
    rw [simE_failIf]
    refine ⟨fun _ => ⟨passed.calm, fun _ h => by cases h⟩, fun ownerless => ⟨passed.toReady, ?_⟩⟩
    rintro _ ⟨⟩
    refine ⟨owner.symm.trans (Option.not_isSome_iff_eq_none.1 ownerless), c'.state.epoch,
      c'.state.generation, ?_⟩
    change _ = Reply.pairing _ _ (c.pairingUntil.any fun until_ => c'.lastMono < until_)
    rw [opened, passed.time]
  refine handle_rule dispatched ?_ ?_ ?_ ?_
  · exact fun _ _ _ post => post.1
  · rintro y c' s' ⟨_, answered⟩ _ ⟨⟩
    exact answered y rfl
  · exact fun _ _ _ _ _ h => by cases h
  · exact fun _ _ _ _ _ _ _ _ _ _ _ _ _ _ h => by cases h

end Requests

section Records
variable {r : Record P f} {out : Output}

/-- A method that has returned did what any specification of it says. -/
theorem Tracks.returns {m : Method} {Q : Output → Controller → Lock P f → Prop}
    (tracks : Tracks r.before s) (call : r.call = .method m)
    (found : r.before.controller = some c)
    (spec : SimS (lockSpec P f) (m.program P) c (s.enter (.method m) (some c)) Q)
    (returned : r.output = some out) :
    ∃ c' s', r.after.controller = some c' ∧
      Path (lockSpec P f) (s.enter r.call r.before.controller) r.trace s' ∧ Q out c' s' := by
  obtain ⟨before, k, trace, output, after, performed⟩ := r
  cases call
  cases performed with
  | method controller exec =>
    cases controller.symm.trans found
    obtain ⟨⟨_, c'⟩, rfl, rfl⟩ := Option.map_eq_some_iff.1 returned
    rw [← found] at spec
    obtain ⟨s', path, _, post⟩ := Sim.sound spec tracks.disk exec
    exact ⟨c', s', rfl, path, post _ rfl⟩

/-- A request that was answered did what any specification of `handle` says. -/
theorem Tracks.responds {Q : Response → Controller → Prop} (tracks : Tracks r.before s)
    (found : r.before.controller = some c)
    (asked : r.call.request (some c) = some (context, cmd))
    (spec : ∀ s : Lock P f, Coupled f c s.1 → s.1.failing = none → s.1.progress = .fresh →
      s.1.request = some (context, cmd) → s.1.entry = some c →
      SimS (lockSpec P f) (handle P context cmd) c s fun y c' _ => Q y c')
    (returned : r.output = some out) :
    ∃ y c', out = .response y ∧ r.after.controller = some c' ∧ Q y c' := by
  generalize call : r.call = k at asked
  cases k with
  | construct => cases asked
  | method m =>
    have coupled := (tracks.controller c found).enter m (some c)
    have handled := spec (s.enter (.method m) (some c)) coupled rfl rfl asked rfl
    have spec : SimS (lockSpec P f) (m.program P) c (s.enter (.method m) (some c))
        fun out c' _ => ∃ y, out = .response y ∧ Q y c' := by
      cases m with
      | handle | handleLocal =>
        cases asked
        change Sim _ (Prog.bind _ _) _ _
        rw [sim_bind]
        exact Sim.mono handled fun y _ post => ⟨y.1, rfl, post⟩
      | _ => cases asked
    obtain ⟨c', _, left, _, y, response, post⟩ := tracks.returns call found spec returned
    exact ⟨y, c', response, left, post⟩

/-- How a completed claim ended. -/
theorem Tracks.tried (tracks : Tracks r.before s) (found : r.before.controller = some c)
    (asked : r.call.request (some c) = some (context, cmd))
    (action : cmd.action = .claim key issuer admin) (returned : r.output = some out) :
    ∃ y c', out = .response y ∧ r.after.controller = some c'
      ∧ Tried P f 3 context cmd key issuer admin c y.result c' :=
  tracks.responds found asked (fun _ h recorded fresh request entered =>
    handle_tried h recorded fresh request entered action) returned

/-- What a completed question about the pairing window was answered. -/
theorem Tracks.surveyed (tracks : Tracks r.before s) (found : r.before.controller = some c)
    (asked : r.call.request (some c) = some (context, cmd)) (action : cmd.action = .pairingStatus)
    (returned : r.output = some out) :
    ∃ y c', out = .response y ∧ r.after.controller = some c' ∧ ∀ reply, y.result = .ok reply →
      c.state.owner = none ∧ ∃ epoch generation,
        reply = .pairing epoch generation (c.pairingUntil.any fun until_ => c'.lastMono < until_) :=
  tracks.responds found asked (fun _ h recorded fresh request entered =>
    handle_surveyed h recorded fresh request entered action) returned

/-- How a completed pairing gesture ended. -/
theorem Tracks.gestured (tracks : Tracks r.before s) (call : r.call = .method .openPairingWindow)
    (found : r.before.controller = some c) (returned : r.output = some out) :
    ∃ c' s', r.after.controller = some c' ∧
      Path (lockSpec P f) (s.enter r.call r.before.controller) r.trace s' ∧
      (out.failed = false ∧ WindowOpened c' s'.1.times
        ∨ out.failed = true ∧ c'.gates = c.gates ∧ c'.state = c.state) := by
  have spec : SimS (lockSpec P f) (Method.openPairingWindow.program P) c
      (s.enter (.method .openPairingWindow) (some c)) fun out c' s' =>
        out.failed = false ∧ WindowOpened c' s'.1.times
          ∨ out.failed = true ∧ c'.gates = c.gates ∧ c'.state = c.state := by
    change Sim _ (Prog.bind _ _) _ _
    rw [sim_bind]
    refine Sim.mono (openPairingWindow_spec ((tracks.controller c found).enter _ _) rfl) ?_
    rintro ⟨result, c'⟩ s' ⟨_, opened⟩
    cases result with
    | ok => exact .inl ⟨rfl, opened⟩
    | error => exact .inr ⟨rfl, opened⟩
  exact tracks.returns call found spec returned

end Records
end OpenLock
