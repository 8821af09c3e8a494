import OpenLock.Effects.Simulation

/-! Plain preconditions and postconditions: the abstract system that only remembers the
world and the events so far. -/
namespace OpenLock.Effects
variable {E : Type} {A : E → Type} {W C ε α : Type}

/-- The world and the events so far. An event must be allowed after the earlier ones. -/
def traced (world : World A W) (allowed : List (Event A) → Event A → Prop) :
    Spec world (W × List (Event A)) where
  view := Prod.fst
  step s ev s' := allowed s.2 ev ∧ s' = (world.after s.1 ev, s.2 ++ [ev])
  step_view := by
    rintro _ _ _ ⟨_, rfl⟩
    rfl

variable {world : World A W} {allowed : List (Event A) → Event A → Prop} {tr : List (Event A)}

theorem Path.traced {s s' : W × List (Event A)} (h : Path (traced world allowed) s tr s') :
    s'.2 = s.2 ++ tr ∧ ∀ pre ev post, tr = pre ++ ev :: post → allowed (s.2 ++ pre) ev := by
  induction h with
  | nil s => exact ⟨(List.append_nil _).symm, fun pre _ _ split => by cases pre <;> cases split⟩
  | @cons s s' t ev tr head _ ih =>
    obtain ⟨ok, rfl⟩ := head
    obtain ⟨whole, rest⟩ := ih
    refine ⟨by simpa using whole, fun pre ev' post split => ?_⟩
    cases pre with
    | nil =>
      cases split
      simpa using ok
    | cons first pre =>
      cases split
      simpa using rest pre ev' post rfl

/-- What every event keeps, and under which every event is allowed, holds to the end. -/
theorem Sim.always {J : List (Event A) → Prop}
    (keeps : ∀ tr ev, J tr → allowed tr ev ∧ J (tr ++ [ev])) (p : Prog A α)
    {s : W × List (Event A)} (h : J s.2) :
    Sim (Effects.traced world allowed) p s fun _ s' => J s'.2 := by
  induction p generalizing s with
  | pure a => exact h
  | op e next ih =>
    intro x _
    obtain ⟨ok, kept⟩ := keeps s.2 ⟨e, x⟩ h
    exact ⟨_, ⟨ok, rfl⟩, ih x kept⟩

/-- What is proved of a program holds of each of its runs, cut off or not. -/
theorem Sim.exec {p : Prog A α} {w w' : W} {r : Option α} {Q : α → W × List (Event A) → Prop}
    (h : Sim (Effects.traced world allowed) p (w, []) Q) (run : Exec world w p tr w' r) :
    (∀ pre ev post, tr = pre ++ ev :: post → allowed pre ev) ∧ ∀ a, r = some a → Q a (w', tr) := by
  obtain ⟨s', path, view, result⟩ := h.sound rfl run
  obtain ⟨whole, every⟩ := path.traced
  have reached : s' = (w', tr) := Prod.ext view (by simpa using whole)
  exact ⟨by simpa using every, fun a ha => reached ▸ result a ha⟩

end OpenLock.Effects
