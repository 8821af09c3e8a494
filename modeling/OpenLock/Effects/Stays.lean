import OpenLock.Effects.Traced

/-! Frame conditions: the effects a method may perform and what it does to its state,
without regard to the answers it receives. -/
namespace OpenLock.Effects
variable {E : Type} {A : E → Type} {W C ε α β : Type} {g : α → ExceptT ε (StateT C (Prog A)) β}
  {y : ExceptT ε (StateT C (Prog A)) α} {world : World A W} {tr : List (Event A)} {r : Option α}
  {w w' : W} {p : Prop}

/-- Every effect is in `K` and every result satisfies `Q`, whatever the answers. -/
def Prog.Stays (K : E → Prop) (Q : α → Prop) : Prog A α → Prop
  | .pure a => Q a
  | .op e next => K e ∧ ∀ x, (next x).Stays K Q

namespace Prog.Stays
variable {K L : E → Prop} {Q R : α → Prop} {p : Prog A α}

theorem any (p : Prog A α) : p.Stays (fun _ => True) fun _ => True := by
  induction p with
  | pure a => trivial
  | op e next ih => exact ⟨trivial, ih⟩

theorem mono (h : p.Stays K Q) (effects : ∀ e, K e → L e) (results : ∀ a, Q a → R a) :
    p.Stays L R := by
  induction p with
  | pure a => exact results a h
  | op e next ih => exact ⟨effects e h.1, fun x => ih x (h.2 x)⟩

theorem bind {g : α → Prog A β} {S : β → Prop} (h : p.Stays K Q)
    (next : ∀ a, Q a → (g a).Stays K S) : (p.bind g).Stays K S := by
  induction p with
  | pure a => exact next a h
  | op e _ ih => exact ⟨h.1, fun x => ih x (h.2 x)⟩

/-- The frame of a program in any run of it. -/
theorem exec (h : p.Stays K Q) (run : Exec world w p tr w' r) :
    (∀ ev ∈ tr, K ev.effect) ∧ ∀ a, r = some a → Q a := by
  induction run with
  | done => exact ⟨fun _ h => (by cases h), by rintro _ ⟨⟩; exact h⟩
  | cut => exact ⟨fun _ h => (by cases h), fun _ h => by cases h⟩
  | step _ _ ih =>
    obtain ⟨rest, result⟩ := ih (h.2 _)
    exact ⟨List.forall_mem_cons.2 ⟨h.1, rest⟩, result⟩

/-- The frame of a program as a specification, for an invariant of the events so far that
the effects in `K` keep. -/
theorem sim {allowed : List (Event A) → Event A → Prop} {J : List (Event A) → Prop}
    {s : W × List (Event A)} (h : p.Stays K Q)
    (keeps : ∀ tr ev, J tr → K ev.effect → allowed tr ev ∧ J (tr ++ [ev])) (start : J s.2) :
    Sim (traced world allowed) p s fun a s' => Q a ∧ J s'.2 := by
  induction p generalizing s with
  | pure a => exact ⟨h, start⟩
  | op e next ih =>
    intro x _
    obtain ⟨ok, kept⟩ := keeps s.2 ⟨e, x⟩ start h.1
    exact ⟨_, ⟨ok, rfl⟩, ih x (h.2 x) kept⟩

end Prog.Stays

/-- A method whose effects are in `K` and that moves its state along `R`. -/
def StaysE (K : E → Prop) (R : C → C → Prop) (x : ExceptT ε (StateT C (Prog A)) α) : Prop :=
  ∀ c, (x.run c).Stays K fun r => R c r.2

namespace StaysE
variable {K : E → Prop} {R : C → C → Prop} {x : ExceptT ε (StateT C (Prog A)) α}

theorem pure [Std.Refl R] (a : α) : StaysE K R (pure a : ExceptT ε (StateT C (Prog A)) α) :=
  fun c => Std.Refl.refl c

theorem throw [Std.Refl R] (e : ε) : StaysE K R (throw e : ExceptT ε (StateT C (Prog A)) α) :=
  fun c => Std.Refl.refl c

theorem get [Std.Refl R] : StaysE K R (get : ExceptT ε (StateT C (Prog A)) C) :=
  fun c => Std.Refl.refl c

theorem modify {g : C → C} (h : ∀ c, R c (g c)) :
    StaysE K R (modify g : ExceptT ε (StateT C (Prog A)) PUnit) := h

theorem bind [IsTrans C R] (h : StaysE K R x) (next : ∀ a, StaysE K R (g a)) :
    StaysE K R (x >>= g) := by
  intro c
  change Prog.Stays K _ ((x.run c).bind _)
  refine (h c).bind ?_
  rintro ⟨r, c'⟩ moved
  cases r with
  | ok a => exact (next a c').mono (fun _ h => h) fun _ more => IsTrans.trans _ _ _ moved more
  | error e => exact moved

theorem map [IsTrans C R] [Std.Refl R] (g : α → β) (h : StaysE K R x) : StaysE K R (g <$> x) := by
  rw [map_eq_pure_bind]
  exact h.bind fun a => .pure (g a)

theorem ite [Decidable p] (h : StaysE K R x) (h' : StaysE K R y) :
    StaysE K R (if p then x else y) := by
  split
  · exact h
  · exact h'

end StaysE

/-- After a fatal event the program performs nothing more and its result satisfies `D`. -/
def Prog.Ends (fatal : Event A → Prop) (D : α → Prop) : Prog A α → Prop
  | .pure _ => True
  | .op e next => ∀ x, (fatal ⟨e, x⟩ → ∃ a, next x = .pure a ∧ D a) ∧ (next x).Ends fatal D

namespace Prog.Ends
variable {fatal : Event A → Prop} {D : α → Prop} {p : Prog A α}

theorem bind {g : α → Prog A β} {D' : β → Prop} (h : p.Ends fatal D)
    (last : ∀ a, D a → ∃ b, g a = .pure b ∧ D' b) (next : ∀ a, (g a).Ends fatal D') :
    (p.bind g).Ends fatal D' := by
  induction p with
  | pure a => exact next a
  | op e more ih =>
    refine fun x => ⟨fun dead => ?_, ih x (h x).2⟩
    obtain ⟨a, ends, died⟩ := (h x).1 dead
    obtain ⟨b, finished, done⟩ := last a died
    refine ⟨b, ?_, done⟩
    change (more x).bind g = _
    rw [ends]
    exact finished

/-- In any run nothing follows a fatal event. -/
theorem exec (h : p.Ends fatal D) (run : Exec world w p tr w' r) {pre post : List (Event A)}
    {ev : Event A} (split : tr = pre ++ ev :: post) (dead : fatal ev) :
    post = [] ∧ ∀ a, r = some a → D a := by
  induction run generalizing pre with
  | done | cut => cases pre <;> cases split
  | @step w w' e next x tr r _ rest ih =>
    cases pre with
    | nil =>
      cases split
      obtain ⟨a, ends, died⟩ := (h x).1 dead
      rw [ends] at rest
      cases rest with
      | done => exact ⟨rfl, by rintro _ ⟨⟩; exact died⟩
      | cut => exact ⟨rfl, fun _ h => by cases h⟩
    | cons first pre =>
      cases split
      exact ih (h x).2 rfl

end Prog.Ends

/-- A method that fails with a `D` error as soon as a fatal event occurs. -/
def EndsE (fatal : Event A → Prop) (D : ε → C → Prop) (x : ExceptT ε (StateT C (Prog A)) α) : Prop :=
  ∀ c, (x.run c).Ends fatal fun r => ∃ e, r.1 = .error e ∧ D e r.2

namespace EndsE
variable {fatal : Event A → Prop} {D : ε → C → Prop} {x : ExceptT ε (StateT C (Prog A)) α}

theorem pure (a : α) : EndsE fatal D (pure a : ExceptT ε (StateT C (Prog A)) α) := fun _ => trivial

theorem throw (e : ε) : EndsE fatal D (throw e : ExceptT ε (StateT C (Prog A)) α) := fun _ => trivial

theorem get : EndsE fatal D (get : ExceptT ε (StateT C (Prog A)) C) := fun _ => trivial

theorem modify (g : C → C) : EndsE fatal D (modify g : ExceptT ε (StateT C (Prog A)) PUnit) :=
  fun _ => trivial

theorem bind (h : EndsE fatal D x) (next : ∀ a, EndsE fatal D (g a)) : EndsE fatal D (x >>= g) := by
  intro c
  change Prog.Ends fatal _ ((x.run c).bind _)
  refine (h c).bind ?_ ?_
  · rintro ⟨_, c'⟩ ⟨e, rfl, died⟩
    exact ⟨(.error e, c'), rfl, e, rfl, died⟩
  · rintro ⟨r, c'⟩
    cases r with
    | ok a => exact next a c'
    | error => exact trivial

theorem ite [Decidable p] (h : EndsE fatal D x) (h' : EndsE fatal D y) :
    EndsE fatal D (if p then x else y) := by
  split
  · exact h
  · exact h'

end EndsE
end OpenLock.Effects
