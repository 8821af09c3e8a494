import OpenLock.Effects.Program

/-! Programs running against an environment that may cut them off, and their
simulation by an abstract transition system over the same events. -/
namespace OpenLock.Effects
variable {E : Type} {A : E → Type} {W S C ε α β : Type} {tr : List (Event A)} {p : Prog A α}
  {env : W → List (Event A) → (e : E) → A e} {r : Option α} {w w' : W}

/-- What the environment remembers between effects: which answers it may give in a
state, and the state an answered effect leaves. -/
structure World (A : E → Type) (W : Type) where
  permits : W → Event A → Prop
  after : W → Event A → W

/-- A run of a program, complete or cut off before its next effect (`none`). -/
inductive Exec (world : World A W) : W → Prog A α → List (Event A) → W → Option α → Prop
  | done (w : W) (a : α) : Exec world w (.pure a) [] w (some a)
  | cut (w : W) (p : Prog A α) : Exec world w p [] w none
  | step {w w' : W} {e : E} {next : A e → Prog A α} {x : A e} {tr : List (Event A)} {r : Option α}
      (permitted : world.permits w ⟨e, x⟩)
      (rest : Exec world (world.after w ⟨e, x⟩) (next x) tr w' r) :
      Exec world w (.op e next) (⟨e, x⟩ :: tr) w' r

/-- The world after some events. -/
def World.afterAll (world : World A W) (w : W) (tr : List (Event A)) : W := tr.foldl world.after w

theorem Exec.afterAll {world : World A W} (run : Exec world w p tr w' r) :
    w' = world.afterAll w tr := by
  induction run with
  | done | cut => rfl
  | step _ _ ih => exact ih

/-- Events that leave the world alone one by one leave it alone together. -/
theorem World.afterAll_still {world : World A W} {w : W} (still : ∀ ev ∈ tr, world.after w ev = w) :
    world.afterAll w tr = w := by
  induction tr with
  | nil => rfl
  | cons ev tr ih =>
    change world.afterAll (world.after w ev) tr = w
    rw [still ev List.mem_cons_self]
    exact ih fun ev' later => still ev' (List.mem_cons_of_mem _ later)

/-- A program run to its end with every effect answered by `env`, which sees the world and
the effects so far: the effects, the world they leave and the result. -/
def Prog.play (world : World A W) (env : W → List (Event A) → (e : E) → A e) :
    Prog A α → W → List (Event A) → List (Event A) × W × α
  | .pure a, w, _ => ([], w, a)
  | .op e next, w, past =>
    let ev : Event A := ⟨e, env w past e⟩
    let (tr, w', a) := (next (env w past e)).play world env (world.after w ev) (past ++ [ev])
    (ev :: tr, w', a)

/-- Playing a program against permitted answers is one of its runs. -/
theorem Exec.play {world : World A W} (permitted : ∀ w past e, world.permits w ⟨e, env w past e⟩)
    (p : Prog A α) (w : W) (past : List (Event A)) :
    Exec world w p (p.play world env w past).1 (p.play world env w past).2.1
      (some (p.play world env w past).2.2) := by
  induction p generalizing w past with
  | pure a => exact .done w a
  | op e next ih => exact .step (permitted w past e) (ih _ _ _)

/-- What holds of every answer holds of every event of a run played with them. -/
theorem Prog.play_forall {world : World A W} {Q : Event A → Prop}
    (answers : ∀ w past e, Q ⟨e, env w past e⟩) (p : Prog A α) (w : W) (past : List (Event A)) :
    ∀ ev ∈ (p.play world env w past).1, Q ev := by
  induction p generalizing w past with
  | pure a => exact fun _ mem => by cases mem
  | op e next ih => exact List.forall_mem_cons.2 ⟨answers w past e, ih _ _ _⟩

/-- An abstract system whose steps carry the same events and keep the same world. -/
structure Spec (world : World A W) (S : Type) where
  view : S → W
  step : S → Event A → S → Prop
  step_view : ∀ {s ev s'}, step s ev s' → view s' = world.after (view s) ev

/-- A finite path of the abstract system. -/
inductive Path {world : World A W} (spec : Spec world S) : S → List (Event A) → S → Prop
  | nil (s : S) : Path spec s [] s
  | cons {s s' t : S} {ev : Event A} {tr : List (Event A)}
      (head : spec.step s ev s') (tail : Path spec s' tr t) : Path spec s (ev :: tr) t

variable {world : World A W} (spec : Spec world S)

/-- Every permitted answer of every effect is matched by an abstract step, and each
result satisfies the postcondition in the abstract state reached. -/
def Sim : Prog A α → S → (α → S → Prop) → Prop
  | .pure a, s, Q => Q a s
  | .op e next, s, Q => ∀ x, world.permits (spec.view s) ⟨e, x⟩ →
      ∃ s', spec.step s ⟨e, x⟩ s' ∧ Sim (next x) s' Q

variable {spec} {tr tr' : List (Event A)} {s t u : S} {Q : α → S → Prop}

theorem Sim.mono {Q R : α → S → Prop} (h : Sim spec p s Q) (hQ : ∀ a s', Q a s' → R a s') :
    Sim spec p s R := by
  induction p generalizing s with
  | pure a => exact hQ a s h
  | op e next ih =>
    intro x hx
    obtain ⟨s', hs, hn⟩ := h x hx
    exact ⟨s', hs, ih x hn⟩

theorem sim_bind {f : α → Prog A β} {Q : β → S → Prop} :
    Sim spec (p.bind f) s Q ↔ Sim spec p s fun a s' => Sim spec (f a) s' Q := by
  induction p generalizing s with
  | pure a => rfl
  | op e next ih => simp only [Prog.bind_op, Sim, ih]

/-- Soundness: a simulated run is a path of the abstract system over the same trace,
however early it is cut off. -/
theorem Sim.sound (h : Sim spec p s Q) (hw : spec.view s = w) (run : Exec world w p tr w' r) :
    ∃ s', Path spec s tr s' ∧ spec.view s' = w' ∧ ∀ a, r = some a → Q a s' := by
  induction run generalizing s with
  | done w a => exact ⟨s, .nil s, hw, by rintro _ ⟨⟩; exact h⟩
  | cut w p => exact ⟨s, .nil s, hw, by simp⟩
  | @step w w' e next x tr r permitted rest ih =>
    obtain ⟨s', hs, hn⟩ := h x (hw ▸ permitted)
    obtain ⟨t, path, hv, hr⟩ := ih hn (by rw [spec.step_view hs, hw])
    exact ⟨t, .cons hs path, hv, hr⟩

/-- A path splits wherever its trace does. -/
theorem Path.split (h : Path spec s (tr ++ tr') u) : ∃ t, Path spec s tr t ∧ Path spec t tr' u := by
  induction tr generalizing s with
  | nil => exact ⟨s, .nil s, h⟩
  | cons ev tr ih =>
    cases h with
    | cons head tail =>
      obtain ⟨t, h1, h2⟩ := ih tail
      exact ⟨t, .cons head h1, h2⟩

theorem Path.view (h : Path spec s tr t) : spec.view t = world.afterAll (spec.view s) tr := by
  induction h with
  | nil s => rfl
  | cons head _ ih => rw [ih, spec.step_view head]; rfl

/-- A path takes a step at each of its events. -/
theorem Path.at {ev : Event A} (h : Path spec s (tr ++ ev :: tr') u) :
    ∃ t t', Path spec s tr t ∧ spec.step t ev t' ∧ Path spec t' tr' u := by
  obtain ⟨t, before, rest⟩ := h.split
  cases rest with
  | cons head tail => exact ⟨t, _, before, head, tail⟩

/-- What every step keeps, with the events so far in view, holds along every path. -/
theorem Path.history {I : List (Event A) → S → Prop}
    (step : ∀ tr s ev s', I tr s → spec.step s ev s' → I (tr ++ [ev]) s') (start : I tr s)
    (h : Path spec s tr' t) :
    I (tr ++ tr') t := by
  induction h generalizing tr with
  | nil s => simpa using start
  | cons head _ ih => simpa using ih (step tr _ _ _ start head)

/-- A property that every abstract step keeps holds along every path. -/
theorem Path.invariant {I : S → Prop} (step : ∀ {s ev s'}, spec.step s ev s' → I s → I s')
    (h : Path spec s tr t) (hs : I s) : I t := by
  induction h with
  | nil s => exact hs
  | cons head _ ih => exact ih (step head hs)

/-- A simulated program moves the abstract system along a path. -/
theorem Sim.with_path (h : Sim spec p s Q) :
    Sim spec p s fun a s' => Q a s' ∧ ∃ tr, Path spec s tr s' := by
  induction p generalizing s with
  | pure a => exact ⟨h, [], .nil s⟩
  | op e next ih =>
    intro x hx
    obtain ⟨t, ht, hn⟩ := h x hx
    refine ⟨t, ht, (ih x hn).mono ?_⟩
    rintro a s' ⟨hQ, tr, path⟩
    exact ⟨hQ, _, .cons ht path⟩

section Methods
/-! Methods over a state `C` that may fail with an `ε`. -/

variable (spec)

/-- Simulation of a method from controller state `c` and abstract state `s`. -/
def SimS (x : StateT C (Prog A) α) (c : C) (s : S) (Q : α → C → S → Prop) : Prop :=
  Sim spec (x c) s fun r s' => Q r.1 r.2 s'

/-- Simulation of a fallible method; the postcondition sees the result or the error. -/
def SimE (x : ExceptT ε (StateT C (Prog A)) α) (c : C) (s : S)
    (Q : Except ε α → C → S → Prop) : Prop :=
  SimS spec x.run c s Q

/-- Continue with `f` after success; an error goes straight to the postcondition. -/
def andThen (f : α → ExceptT ε (StateT C (Prog A)) β) (Q : Except ε β → C → S → Prop) :
    Except ε α → C → S → Prop
  | .ok a, c, s => SimE spec (f a) c s Q
  | .error e, c, s => Q (.error e) c s

variable {spec} {c : C} {s : S} {x : ExceptT ε (StateT C (Prog A)) α}
  {Q : Except ε β → C → S → Prop} {f : α → ExceptT ε (StateT C (Prog A)) β} {a : α}

theorem SimS.mono {x : StateT C (Prog A) α} {Q R : α → C → S → Prop} (h : SimS spec x c s Q)
    (hQ : ∀ a c' s', Q a c' s' → R a c' s') : SimS spec x c s R :=
  Sim.mono h fun r s' => hQ r.1 r.2 s'

theorem SimE.mono {Q R : Except ε α → C → S → Prop} (h : SimE spec x c s Q)
    (hQ : ∀ r c' s', Q r c' s' → R r c' s') : SimE spec x c s R :=
  SimS.mono h hQ

theorem SimE.with_path {Q : Except ε α → C → S → Prop} (h : SimE spec x c s Q) :
    SimE spec x c s fun r c' s' => Q r c' s' ∧ ∃ tr, Path spec s tr s' :=
  Sim.with_path h

@[simp] theorem andThen_ok : andThen spec f Q (.ok a) c s ↔ SimE spec (f a) c s Q := .rfl

@[simp] theorem simS_bind {x : StateT C (Prog A) α} {f : α → StateT C (Prog A) β}
    {Q : β → C → S → Prop} :
    SimS spec (x >>= f) c s Q ↔ SimS spec x c s fun a c' s' => SimS spec (f a) c' s' Q := by
  change Sim spec ((x c).bind fun r => f r.1 r.2) s _ ↔ _
  rw [sim_bind]
  rfl

@[simp] theorem simS_get {Q : C → C → S → Prop} :
    SimS spec (get : StateT C (Prog A) C) c s Q ↔ Q c c s := .rfl

@[simp] theorem simS_run {Q : Except ε α → C → S → Prop} :
    SimS spec x.run c s Q ↔ SimE spec x c s Q := .rfl

@[simp] theorem simE_pure {Q : Except ε α → C → S → Prop} :
    SimE spec (pure a) c s Q ↔ Q (.ok a) c s := .rfl

@[simp] theorem simE_throw {e : ε} {Q : Except ε α → C → S → Prop} :
    SimE spec (throw e) c s Q ↔ Q (.error e) c s := .rfl

@[simp] theorem simE_get {Q : Except ε C → C → S → Prop} :
    SimE spec (get : ExceptT ε (StateT C (Prog A)) C) c s Q ↔ Q (.ok c) c s := .rfl

@[simp] theorem simE_modify {f : C → C} {Q : Except ε PUnit → C → S → Prop} :
    SimE spec (modify f : ExceptT ε (StateT C (Prog A)) PUnit) c s Q ↔ Q (.ok ⟨⟩) (f c) s := .rfl

@[simp] theorem simE_bind : SimE spec (x >>= f) c s Q ↔ SimE spec x c s (andThen spec f Q) := by
  change SimS spec (x.run >>= fun r => ExceptT.bindCont f r) c s Q ↔ _
  rw [simS_bind]
  refine ⟨fun h => SimS.mono h ?_, fun h => SimS.mono h ?_⟩
  all_goals
    intro r c' s' hr
    cases r with
    | ok a => exact hr
    | error e => exact hr

/-- Sequencing by a specification of the first part. -/
theorem SimE.bind {g : α → ExceptT ε (StateT C (Prog A)) β} {R : Except ε α → C → S → Prop}
    (hx : SimE spec x c s R) (ok : ∀ a c' s', R (.ok a) c' s' → SimE spec (g a) c' s' Q)
    (error : ∀ e c' s', R (.error e) c' s' → Q (.error e) c' s') : SimE spec (x >>= g) c s Q := by
  rw [simE_bind]
  refine hx.mono ?_
  intro r c' s' hr
  cases r with
  | ok a => exact ok a c' s' hr
  | error e => exact error e c' s' hr

@[simp] theorem simE_map {f : α → β} :
    SimE spec (f <$> x) c s Q ↔ SimE spec x c s fun r => Q (r.map f) := by
  rw [map_eq_pure_bind, simE_bind]
  refine ⟨fun h => h.mono ?_, fun h => h.mono ?_⟩
  all_goals
    intro r c' s' hr
    cases r with
    | ok a => exact hr
    | error e => exact hr

end Methods

section Builders
/-! Fallible programs without a state, such as those that build one. -/

variable (spec)

def SimI (x : ExceptT ε (Prog A) α) (s : S) (Q : Except ε α → S → Prop) : Prop :=
  Sim spec x.run s Q

variable {spec} {s : S} {x : ExceptT ε (Prog A) α}

theorem SimI.mono {Q R : Except ε α → S → Prop} (h : SimI spec x s Q) (hQ : ∀ r s', Q r s' → R r s') :
    SimI spec x s R :=
  Sim.mono h hQ

theorem SimI.bind {g : α → ExceptT ε (Prog A) β} {R : Except ε α → S → Prop}
    {Q : Except ε β → S → Prop} (hx : SimI spec x s R)
    (ok : ∀ a s', R (.ok a) s' → SimI spec (g a) s' Q)
    (error : ∀ e s', R (.error e) s' → Q (.error e) s') : SimI spec (x >>= g) s Q := by
  change Sim spec (x.run.bind fun r => ExceptT.bindCont g r) s Q
  rw [sim_bind]
  refine Sim.mono hx ?_
  intro r s' hr
  cases r with
  | ok a => exact ok a s' hr
  | error e => exact error e s' hr

end Builders
end OpenLock.Effects
