import OpenLock.Effects.Complete

/-! The errors that a computation can fail with. -/
namespace OpenLock.Effects
variable {E : Type} {A : E → Type} {C D ε α β : Type} {F : ε → Prop} {y : Except ε α} {e : ε}
  {g : α → β} {p : Prop}

/-- Every error satisfies `F`. -/
def Raises (F : ε → Prop) (x : Except ε α) : Prop := ∀ e, x = .error e → F e

namespace Raises
variable {x : Except ε α} {f : α → Except ε β}

theorem ok (a : α) : Raises F (.ok a : Except ε α) := fun _ h => by cases h

theorem pure (a : α) : Raises F (Pure.pure a : Except ε α) := fun _ h => by cases h

theorem error (h : F e) : Raises F (.error e : Except ε α) := by
  rintro _ ⟨⟩
  exact h

theorem bind (h : Raises F x) (next : ∀ a, Raises F (f a)) : Raises F (x >>= f) := by
  cases x with
  | ok a => exact next a
  | error e => exact fun e' same => h e' (by cases same; rfl)

theorem map (h : Raises F x) : Raises F (g <$> x) := by
  rw [map_eq_pure_bind]
  exact h.bind fun a => .pure (g a)

theorem ite [Decidable p] (h : Raises F x) (h' : Raises F y) : Raises F (if p then x else y) := by
  split
  · exact h
  · exact h'

theorem mapM (h : ∀ a, Raises F (f a)) (as : List α) : Raises F (as.mapM f) := by
  induction as with
  | nil => exact .pure []
  | cons a as ih =>
    rw [List.mapM_cons]
    exact (h a).bind fun b => ih.bind fun bs => .pure (b :: bs)

end Raises

/-- The same of a method, whatever the answers it receives. -/
def RaisesE (F : ε → Prop) (x : ExceptT ε (StateT C (Prog A)) α) : Prop :=
  ∀ c, (x.run c).Stays (fun _ => True) fun r => Raises F r.1

namespace RaisesE
variable {x : ExceptT ε (StateT C (Prog A)) α}

theorem pure (a : α) : RaisesE F (pure a : ExceptT ε (StateT C (Prog A)) α) := fun _ => .ok a

theorem throw (h : F e) : RaisesE F (throw e : ExceptT ε (StateT C (Prog A)) α) :=
  fun _ => .error h

theorem get : RaisesE F (get : ExceptT ε (StateT C (Prog A)) C) := fun c => .ok c

theorem set (c : C) : RaisesE F (set c : ExceptT ε (StateT C (Prog A)) PUnit) := fun _ => .ok _

theorem modify (g : C → C) : RaisesE F (modify g : ExceptT ε (StateT C (Prog A)) PUnit) :=
  fun _ => .ok _

theorem ask (e : E) : RaisesE F (ask e : ExceptT ε (StateT C (Prog A)) (A e)) :=
  fun _ => ⟨trivial, fun a => .ok a⟩

theorem ofExcept (h : Raises F y) :
    RaisesE F (MonadExcept.ofExcept y : ExceptT ε (StateT C (Prog A)) α) := by
  cases y with
  | ok a => exact .pure a
  | error e => exact .throw (h e rfl)

theorem bind {f : α → ExceptT ε (StateT C (Prog A)) β} (h : RaisesE F x)
    (next : ∀ a, RaisesE F (f a)) : RaisesE F (x >>= f) := by
  intro c
  change Prog.Stays _ _ ((x.run c).bind _)
  refine (h c).bind ?_
  rintro ⟨r, c'⟩ raised
  cases r with
  | ok a => exact next a c'
  | error e => exact .error (raised e rfl)

theorem map (h : RaisesE F x) : RaisesE F (g <$> x) := by
  rw [map_eq_pure_bind]
  exact h.bind fun a => .pure (g a)

theorem ite [Decidable p] {y : ExceptT ε (StateT C (Prog A)) α} (h : RaisesE F x) (h' : RaisesE F y) :
    RaisesE F (if p then x else y) := by
  split
  · exact h
  · exact h'

theorem focus {part : C → D} {put : D → C → C} {y : ExceptT ε (StateT D (Prog A)) α}
    (h : RaisesE F y) : RaisesE F (focus part put y) := by
  intro c
  change Prog.Stays _ _ ((y.run (part c)).bind _)
  exact (h (part c)).bind fun _ raised => raised

theorem onError {cleanup : C → C} (h : RaisesE F x) : RaisesE F (onError x cleanup) := by
  intro c
  change Prog.Stays _ _ ((x.run c).bind _)
  refine (h c).bind ?_
  rintro ⟨r, c'⟩ raised
  cases r with
  | ok a => exact raised
  | error e => exact raised

/-- The errors of a complete run. -/
theorem takes {c c' : C} {tr : List (Event A)} (h : RaisesE F x) (run : TakesE x c tr (.error e) c') :
    F e := by
  have stays : ∀ {p : Prog A (Except ε α × C)} {tr : List (Event A)} {r : Except ε α × C},
      p.Takes tr r → p.Stays (fun _ => True) (fun r => Raises F r.1) → Raises F r.1 := by
    intro p tr r taken
    induction taken with
    | pure a => exact id
    | op x _ ih => exact fun held => ih (held.2 x)
  exact stays run (h c) e rfl

end RaisesE
end OpenLock.Effects
