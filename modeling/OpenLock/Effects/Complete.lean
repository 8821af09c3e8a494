import OpenLock.Effects.Stays

/-! Complete runs of fallible methods, read back step by step: which answers a method
received, what it returned and the state it left. -/
namespace OpenLock.Effects
variable {E S : Type} {A : E → Type} {W C D ε α β : Type} {x : ExceptT ε (StateT C (Prog A)) α}
  {tr : List (Event A)} {world : World A W} {p : Prog A α} {e : E} {b : β} {a : α}

/-- A run to the end, whatever the environment. -/
inductive Prog.Takes : Prog A α → List (Event A) → α → Prop
  | pure (a : α) : Takes (.pure a) [] a
  | op {e : E} {next : A e → Prog A α} {tr : List (Event A)} {a : α} (x : A e)
      (rest : Takes (next x) tr a) : Takes (.op e next) (⟨e, x⟩ :: tr) a

/-- The world permits each event of a trace where it occurs. -/
def World.Permits (world : World A W) : W → List (Event A) → Prop
  | _, [] => True
  | w, ev :: tr => world.permits w ev ∧ world.Permits (world.after w ev) tr

@[simp] theorem World.afterAll_cons {w : W} {ev : Event A} :
    world.afterAll w (ev :: tr) = world.afterAll (world.after w ev) tr := rfl

/-- A complete run in a world is a complete run that the world permits. -/
theorem exec_some_iff {w w' : W} : Exec world w p tr w' (some a) ↔
      p.Takes tr a ∧ world.Permits w tr ∧ w' = world.afterAll w tr := by
  constructor
  · intro run
    generalize result : some a = r at run
    induction run with
    | done => cases result; exact ⟨.pure _, trivial, rfl⟩
    | cut => cases result
    | step permitted _ ih =>
      obtain ⟨takes, permits, rfl⟩ := ih result
      exact ⟨.op _ takes, ⟨permitted, permits⟩, rfl⟩
  · rintro ⟨takes, permits, rfl⟩
    induction takes generalizing w with
    | pure a => exact .done w a
    | op x _ ih => exact .step permits.1 (ih permits.2)

namespace Prog

@[simp] theorem takes_pure {a b : α} : (Prog.pure a : Prog A α).Takes tr b ↔ tr = [] ∧ b = a := by
  constructor
  · intro h
    cases h
    exact ⟨rfl, rfl⟩
  · rintro ⟨rfl, rfl⟩
    exact .pure b

@[simp] theorem takes_op {next : A e → Prog A α} :
    (Prog.op e next).Takes tr a ↔ ∃ x rest, tr = ⟨e, x⟩ :: rest ∧ (next x).Takes rest a := by
  constructor
  · intro h
    cases h with
    | op x rest => exact ⟨x, _, rfl, rest⟩
  · rintro ⟨x, rest, rfl, h⟩
    exact .op x h

theorem takes_bind {f : α → Prog A β} :
    (p.bind f).Takes tr b ↔ ∃ a tr₁ tr₂, p.Takes tr₁ a ∧ (f a).Takes tr₂ b ∧ tr = tr₁ ++ tr₂ := by
  induction p generalizing tr with
  | pure a => simp
  | op e next ih =>
    simp only [bind_op, takes_op, ih]
    constructor
    · rintro ⟨x, _, rfl, a, tr₁, tr₂, first, second, rfl⟩
      exact ⟨a, _, tr₂, ⟨x, tr₁, rfl, first⟩, second, rfl⟩
    · rintro ⟨a, _, tr₂, ⟨x, tr₁, rfl, first⟩, second, rfl⟩
      exact ⟨x, _, rfl, a, tr₁, tr₂, first, second, rfl⟩

end Prog

/-- A simulated result is that of a run. -/
theorem Sim.with_run {spec : Spec world S} {s : S} {Q : α → S → Prop} (h : Sim spec p s Q) :
    Sim spec p s fun a s' => Q a s' ∧ ∃ tr, p.Takes tr a := by
  induction p generalizing s with
  | pure a => exact ⟨h, [], .pure a⟩
  | op e next ih =>
    intro x permitted
    obtain ⟨s', step, rest⟩ := h x permitted
    refine ⟨s', step, (ih x rest).mono ?_⟩
    rintro a _ ⟨post, tr, takes⟩
    exact ⟨post, _, .op x takes⟩

/-- A method of `C` that takes `tr` from `c` to `c'` and returns `r`. -/
def TakesE (x : ExceptT ε (StateT C (Prog A)) α) (c : C) (tr : List (Event A)) (r : Except ε α)
    (c' : C) : Prop :=
  (x.run c).Takes tr (r, c')

theorem SimE.with_run {spec : Spec world S} {c : C} {s : S} {Q : Except ε α → C → S → Prop}
    (h : SimE spec x c s Q) :
    SimE spec x c s fun r c' s' => Q r c' s' ∧ ∃ tr, TakesE x c tr r c' :=
  Sim.with_run h

section Operations
/-! The operations that methods are made of. -/

/-- Issue one effect. -/
def ask (e : E) : ExceptT ε (StateT C (Prog A)) (A e) :=
  ExceptT.mk fun c => .op e fun a => .pure (.ok a, c)

/-- Run a method of a component; an error keeps what it changed. -/
def focus (part : C → D) (put : D → C → C) (x : ExceptT ε (StateT D (Prog A)) α) :
    ExceptT ε (StateT C (Prog A)) α :=
  ExceptT.mk fun c => (x.run (part c)).bind fun r => .pure (r.1, put r.2 c)

/-- Run a method and, if it fails, change the state before failing with the same error. -/
def onError (x : ExceptT ε (StateT C (Prog A)) α) (cleanup : C → C) :
    ExceptT ε (StateT C (Prog A)) α :=
  ExceptT.mk fun c => (x.run c).bind fun r =>
    .pure (match r.1 with
      | .ok a => (.ok a, r.2)
      | .error e => (.error e, cleanup r.2))

variable {c c' : C} {tr : List (Event A)} {f : α → ExceptT ε (StateT C (Prog A)) β} {r : Except ε β}
  {put : D → C → C} {part : C → D}

@[simp] theorem takesE_pure {r : Except ε α} :
    TakesE (pure a : ExceptT ε (StateT C (Prog A)) α) c tr r c' ↔ tr = [] ∧ r = .ok a ∧ c' = c := by
  change (Prog.pure (Except.ok a, c)).Takes tr (r, c') ↔ _
  rw [Prog.takes_pure, Prod.mk.injEq]

@[simp] theorem takesE_throw {e : ε} {r : Except ε α} :
    TakesE (throw e : ExceptT ε (StateT C (Prog A)) α) c tr r c' ↔
      tr = [] ∧ r = .error e ∧ c' = c := by
  change (Prog.pure (Except.error e, c)).Takes tr (r, c') ↔ _
  rw [Prog.takes_pure, Prod.mk.injEq]

@[simp] theorem takesE_get {r : Except ε C} :
    TakesE (get : ExceptT ε (StateT C (Prog A)) C) c tr r c' ↔ tr = [] ∧ r = .ok c ∧ c' = c := by
  change (Prog.pure (Except.ok c, c)).Takes tr (r, c') ↔ _
  rw [Prog.takes_pure, Prod.mk.injEq]

@[simp] theorem takesE_modify {f : C → C} {r : Except ε PUnit} :
    TakesE (modify f : ExceptT ε (StateT C (Prog A)) PUnit) c tr r c' ↔
      tr = [] ∧ r = .ok ⟨⟩ ∧ c' = f c := by
  change (Prog.pure (Except.ok PUnit.unit, f c)).Takes tr (r, c') ↔ _
  rw [Prog.takes_pure, Prod.mk.injEq]

@[simp] theorem takesE_set {d : C} {r : Except ε PUnit} :
    TakesE (set d : ExceptT ε (StateT C (Prog A)) PUnit) c tr r c' ↔
      tr = [] ∧ r = .ok ⟨⟩ ∧ c' = d := by
  change (Prog.pure (Except.ok PUnit.unit, d)).Takes tr (r, c') ↔ _
  rw [Prog.takes_pure, Prod.mk.injEq]

@[simp] theorem takesE_ask {r : Except ε (A e)} :
    TakesE (ask e : ExceptT ε (StateT C (Prog A)) (A e)) c tr r c' ↔
      ∃ x, tr = [⟨e, x⟩] ∧ r = .ok x ∧ c' = c := by
  change (Prog.op e fun a => .pure (Except.ok a, c)).Takes tr (r, c') ↔ _
  simp only [Prog.takes_op, Prog.takes_pure, Prod.mk.injEq]
  constructor
  · rintro ⟨x, _, rfl, rfl, result⟩
    exact ⟨x, rfl, result⟩
  · rintro ⟨x, rfl, result⟩
    exact ⟨x, [], rfl, rfl, result⟩

@[simp] theorem takesE_ask_ok {x : A e} :
    TakesE (ask e : ExceptT ε (StateT C (Prog A)) (A e)) c tr (.ok x) c' ↔
      tr = [⟨e, x⟩] ∧ c' = c := by
  rw [takesE_ask]
  constructor
  · rintro ⟨y, rfl, same, rfl⟩
    cases same
    exact ⟨rfl, rfl⟩
  · rintro ⟨rfl, rfl⟩
    exact ⟨x, rfl, rfl, rfl⟩

@[simp] theorem takesE_ofExcept {x r : Except ε α} :
    TakesE (ofExcept x : ExceptT ε (StateT C (Prog A)) α) c tr r c' ↔
      tr = [] ∧ x = r ∧ c' = c := by
  rw [eq_comm (a := x)]
  cases x with
  | ok a => exact takesE_pure
  | error e => exact takesE_throw

theorem takesE_bind : TakesE (x >>= f) c tr r c' ↔
      (∃ a c₁ tr₁ tr₂, TakesE x c tr₁ (.ok a) c₁ ∧ TakesE (f a) c₁ tr₂ r c' ∧ tr = tr₁ ++ tr₂) ∨
      ∃ e, TakesE x c tr (.error e) c' ∧ r = .error e := by
  change ((x.run c).bind fun p => (ExceptT.bindCont f p.1 : StateT C (Prog A) _) p.2).Takes tr
    (r, c') ↔ _
  rw [Prog.takes_bind]
  constructor
  · rintro ⟨⟨r₁, c₁⟩, tr₁, tr₂, first, second, rfl⟩
    cases r₁ with
    | ok a => exact .inl ⟨a, c₁, tr₁, tr₂, first, second, rfl⟩
    | error e =>
      have ends : (Prog.pure (Except.error e, c₁)).Takes tr₂ (r, c') := second
      rw [Prog.takes_pure, Prod.mk.injEq] at ends
      obtain ⟨rfl, rfl, rfl⟩ := ends
      rw [List.append_nil]
      exact .inr ⟨e, first, rfl⟩
  · rintro (⟨a, c₁, tr₁, tr₂, first, second, rfl⟩ | ⟨e, first, rfl⟩)
    · exact ⟨(.ok a, c₁), tr₁, tr₂, first, second, rfl⟩
    · exact ⟨(.error e, c'), tr, [], first, .pure _, (List.append_nil tr).symm⟩

/-- A sequence that succeeds: each part did. -/
@[simp] theorem takesE_bind_ok : TakesE (x >>= f) c tr (.ok b) c' ↔
      ∃ a c₁ tr₁ tr₂, TakesE x c tr₁ (.ok a) c₁ ∧ TakesE (f a) c₁ tr₂ (.ok b) c' ∧
        tr = tr₁ ++ tr₂ := by
  rw [takesE_bind]
  constructor
  · rintro (h | ⟨_, _, h⟩)
    · exact h
    · cases h
  · exact .inl

theorem takesE_get_bind {f : C → ExceptT ε (StateT C (Prog A)) β} :
    TakesE (get >>= f) c tr r c' ↔ TakesE (f c) c tr r c' := .rfl

theorem takesE_modify_bind {g : C → C} {f : PUnit → ExceptT ε (StateT C (Prog A)) β} :
    TakesE (modify g >>= f) c tr r c' ↔ TakesE (f ⟨⟩) (g c) tr r c' := .rfl

theorem takesE_ask_bind {f : A e → ExceptT ε (StateT C (Prog A)) β} :
    TakesE (ask e >>= f) c tr r c' ↔
      ∃ x rest, tr = ⟨e, x⟩ :: rest ∧ TakesE (f x) c rest r c' := by
  change (Prog.op e fun a => (f a).run c).Takes tr (r, c') ↔ _
  rw [Prog.takes_op]
  rfl

theorem takesE_ofExcept_bind {x : Except ε α} : TakesE (ofExcept x >>= f) c tr r c' ↔
      (∃ a, x = .ok a ∧ TakesE (f a) c tr r c') ∨
      ∃ e, x = .error e ∧ tr = [] ∧ r = .error e ∧ c' = c := by
  cases x with
  | ok a =>
    change TakesE (f a) c tr r c' ↔ _
    simp
  | error e =>
    change TakesE (throw e : ExceptT ε (StateT C (Prog A)) β) c tr r c' ↔ _
    rw [takesE_throw]
    simp

@[simp] theorem takesE_map_ok {g : α → β} :
    TakesE (g <$> x) c tr (.ok b) c' ↔ ∃ a, TakesE x c tr (.ok a) c' ∧ g a = b := by
  rw [map_eq_pure_bind, takesE_bind_ok]
  constructor
  · rintro ⟨a, c₁, tr₁, tr₂, first, second, rfl⟩
    obtain ⟨rfl, same, rfl⟩ := takesE_pure.1 second
    cases same
    rw [List.append_nil]
    exact ⟨a, first, rfl⟩
  · rintro ⟨a, first, rfl⟩
    exact ⟨a, c', tr, [], first, takesE_pure.2 ⟨rfl, rfl, rfl⟩, (List.append_nil tr).symm⟩

theorem takesE_focus {x : ExceptT ε (StateT D (Prog A)) α} {r : Except ε α} :
    TakesE (focus part put x) c tr r c' ↔ ∃ d, TakesE x (part c) tr r d ∧ c' = put d c := by
  change ((x.run (part c)).bind _).Takes tr (r, c') ↔ _
  rw [Prog.takes_bind]
  constructor
  · rintro ⟨⟨r₁, d⟩, tr₁, tr₂, first, second, rfl⟩
    rw [Prog.takes_pure, Prod.mk.injEq] at second
    obtain ⟨rfl, rfl, rfl⟩ := second
    rw [List.append_nil]
    exact ⟨d, first, rfl⟩
  · rintro ⟨d, first, rfl⟩
    exact ⟨(r, d), tr, [], first, .pure _, (List.append_nil tr).symm⟩

theorem takesE_onError {cleanup : C → C} {r : Except ε α} : TakesE (onError x cleanup) c tr r c' ↔
      (∃ a, TakesE x c tr (.ok a) c' ∧ r = .ok a) ∨
      ∃ e d, TakesE x c tr (.error e) d ∧ r = .error e ∧ c' = cleanup d := by
  change ((x.run c).bind _).Takes tr (r, c') ↔ _
  rw [Prog.takes_bind]
  constructor
  · rintro ⟨⟨r₁, d⟩, tr₁, tr₂, first, second, rfl⟩
    rw [Prog.takes_pure] at second
    obtain ⟨rfl, same⟩ := second
    rw [List.append_nil]
    cases r₁ with
    | ok a =>
      cases same
      exact .inl ⟨a, first, rfl⟩
    | error e =>
      cases same
      exact .inr ⟨e, d, first, rfl, rfl⟩
  · rintro (⟨a, first, rfl⟩ | ⟨e, d, first, rfl, rfl⟩)
    · exact ⟨(.ok a, c'), tr, [], first, .pure _, (List.append_nil tr).symm⟩
    · exact ⟨(.error e, d), tr, [], first, .pure _, (List.append_nil tr).symm⟩

/-- The same for a program that builds a state: each part of a successful one succeeded. -/
theorem takes_run_bind_ok {x : ExceptT ε (Prog A) α} {f : α → ExceptT ε (Prog A) β} :
    (x >>= f).run.Takes tr (.ok b) ↔
      ∃ a tr₁ tr₂, x.run.Takes tr₁ (.ok a) ∧ (f a).run.Takes tr₂ (.ok b) ∧ tr = tr₁ ++ tr₂ := by
  change (x.run.bind fun r => ExceptT.bindCont f r).Takes tr (.ok b) ↔ _
  rw [Prog.takes_bind]
  constructor
  · rintro ⟨r, tr₁, tr₂, first, second, rfl⟩
    cases r with
    | ok a => exact ⟨a, tr₁, tr₂, first, second, rfl⟩
    | error e =>
      have ends : (Prog.pure (Except.error e)).Takes tr₂ (Except.ok b) := second
      cases (Prog.takes_pure.1 ends).2
  · rintro ⟨a, tr₁, tr₂, first, second, rfl⟩
    exact ⟨.ok a, tr₁, tr₂, first, second, rfl⟩

theorem takes_run_ofExcept {x : Except ε α} :
    (ofExcept x : ExceptT ε (Prog A) α).run.Takes tr (.ok a) ↔ tr = [] ∧ x = .ok a := by
  cases x with
  | ok b =>
    change (Prog.pure (Except.ok b)).Takes tr (Except.ok a) ↔ _
    rw [Prog.takes_pure, eq_comm (a := Except.ok a)]
  | error e =>
    change (Prog.pure (Except.error e)).Takes tr (Except.ok a) ↔ _
    rw [Prog.takes_pure, eq_comm (a := Except.ok a)]

variable {K : E → Prop} {R : C → C → Prop}

theorem StaysE.ask [Std.Refl R] (known : K e) :
    StaysE K R (ask e : ExceptT ε (StateT C (Prog A)) (A e)) :=
  fun c => ⟨known, fun _ => Std.Refl.refl c⟩

theorem StaysE.set {d : C} (moves : ∀ c, R c d) :
    StaysE K R (set d : ExceptT ε (StateT C (Prog A)) PUnit) := moves

theorem StaysE.ofExcept [Std.Refl R] (x : Except ε α) :
    StaysE K R (MonadExcept.ofExcept x : ExceptT ε (StateT C (Prog A)) α) := by
  cases x with
  | ok a => exact .pure a
  | error e => exact .throw e

theorem StaysE.focus {x : ExceptT ε (StateT D (Prog A)) α} {S : D → D → Prop} (h : StaysE K S x)
    (moves : ∀ c d, S (part c) d → R c (put d c)) :
    StaysE K R (focus part put x) := by
  intro c
  change Prog.Stays K _ ((x.run (part c)).bind _)
  exact (h (part c)).bind fun r moved => moves c r.2 moved

/-- The frame of a method from one state, where the state decides what it may do. -/
def StaysAt (K : E → Prop) (R : C → C → Prop) (x : ExceptT ε (StateT C (Prog A)) α) (c : C) : Prop :=
  (x.run c).Stays K fun r => R c r.2

theorem StaysAt.bind [IsTrans C R] {g : α → ExceptT ε (StateT C (Prog A)) β} (h : StaysAt K R x c)
    (next : ∀ a d, R c d → StaysAt K R (g a) d) : StaysAt K R (x >>= g) c := by
  change Prog.Stays K _ ((x.run c).bind _)
  refine Prog.Stays.bind h ?_
  rintro ⟨r, d⟩ moved
  cases r with
  | ok a =>
    exact (next a d moved).mono (fun _ h => h) fun _ more => IsTrans.trans _ _ _ moved more
  | error e => exact moved

/-- The frame of a complete run. -/
theorem StaysAt.takes {r : Except ε α} (h : StaysAt K R x c) (takes : TakesE x c tr r c') :
    (∀ ev ∈ tr, K ev.effect) ∧ R c c' := by
  have run : Exec (⟨fun _ _ => True, fun _ _ => ()⟩ : World A Unit) () (x.run c) tr ()
      (some (r, c')) := by
    refine exec_some_iff.2 ⟨takes, ?_, rfl⟩
    clear takes
    induction tr with
    | nil => trivial
    | cons ev tr ih => exact ⟨trivial, ih⟩
  obtain ⟨effects, result⟩ := h.exec run
  exact ⟨effects, result _ rfl⟩

end Operations
end OpenLock.Effects
