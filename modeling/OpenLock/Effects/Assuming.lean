import OpenLock.Effects.Simulation

/-! Runs in which every answer of the environment meets an assumption. -/
namespace OpenLock.Effects
variable {E : Type} {A : E → Type} {W S C ε α : Type} {K : Event A → Prop} {world : World A W}
  {p : Prog A α}

/-- The environment gives no answer outside `K`. -/
def World.assuming (world : World A W) (K : Event A → Prop) : World A W where
  permits w ev := world.permits w ev ∧ K ev
  after := world.after

theorem Exec.assuming {w w' : W} {tr : List (Event A)} {r : Option α} (run : Exec world w p tr w' r)
    (answers : ∀ ev ∈ tr, K ev) :
    Exec (world.assuming K) w p tr w' r := by
  induction run with
  | done w a => exact .done w a
  | cut w p => exact .cut w p
  | step permitted _ ih =>
    obtain ⟨first, rest⟩ := List.forall_mem_cons.1 answers
    exact .step ⟨permitted, first⟩ (ih rest)

/-- The same abstract system, for runs that meet the assumption only. -/
def Spec.assuming (spec : Spec world S) (K : Event A → Prop) : Spec (world.assuming K) S where
  view := spec.view
  step := spec.step
  step_view := spec.step_view

variable {spec : Spec world S} {x : ExceptT ε (StateT C (Prog A)) α} {Q : Except ε α → C → S → Prop}
  {s : S}

theorem Sim.assuming {Q : α → S → Prop} (h : Sim spec p s Q) : Sim (spec.assuming K) p s Q := by
  induction p generalizing s with
  | pure a => exact h
  | op e next ih =>
    intro x permitted
    obtain ⟨s', step, rest⟩ := h x permitted.1
    exact ⟨s', step, ih x rest⟩

/-- What holds under every assumption holds under none. -/
theorem Sim.unconditional {Q : α → S → Prop} (h : Sim (spec.assuming fun _ => True) p s Q) :
    Sim spec p s Q := by
  induction p generalizing s with
  | pure a => exact h
  | op e next ih =>
    intro x permitted
    obtain ⟨s', step, rest⟩ := h x ⟨permitted, trivial⟩
    exact ⟨s', step, ih x rest⟩

theorem SimE.assuming {c : C} (h : SimE spec x c s Q) : SimE (spec.assuming K) x c s Q :=
  Sim.assuming h

theorem SimE.unconditional {c : C} (h : SimE (spec.assuming fun _ => True) x c s Q) :
    SimE spec x c s Q :=
  Sim.unconditional h

theorem SimI.unconditional {x : ExceptT ε (Prog A) α} {Q : Except ε α → S → Prop}
    (h : SimI (spec.assuming fun _ => True) x s Q) : SimI spec x s Q :=
  Sim.unconditional h

end OpenLock.Effects
