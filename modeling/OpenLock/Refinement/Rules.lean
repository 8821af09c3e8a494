import OpenLock.Device.Run

/-! The rules that step through a method of the controller, for any specification. -/
namespace OpenLock
open Controller Effects

variable {S W α : Type} {world : World Answer W} {spec : Spec world S} {c : Controller} {s : S}

theorem simE_perform {e : Effect} {Q : Except Error (Answer e) → Controller → S → Prop} :
    SimE spec (request e) c s Q ↔ ∀ x, world.permits (spec.view s) ⟨e, x⟩ →
      ∃ t, spec.step s ⟨e, x⟩ t ∧ Q (.ok x) c t := .rfl

@[simp] theorem simE_orFail {x : Except Error α} {Q : Except Error α → Controller → S → Prop} :
    SimE spec (orFail x) c s Q ↔ Q x c s := .rfl

@[simp] theorem simE_attempt {x : Ctl α}
    {Q : Except Error (Except Error α) → Controller → S → Prop} :
    SimE spec (attempt x) c s Q ↔ SimE spec x c s fun r c' s' => Q (.ok r) c' s' := by
  change Sim spec ((x.run c).bind _) s _ ↔ _
  rw [sim_bind]
  rfl

theorem simE_failIf {p : Prop} [Decidable p] {e : Error}
    {Q : Except Error Unit → Controller → S → Prop} :
    SimE spec (failIf p e) c s Q ↔ (p → Q (.error e) c s) ∧ (¬ p → Q (.ok ()) c s) := by
  unfold failIf
  split
  · rename_i h
    exact ⟨fun hq => ⟨fun _ => hq, fun hn => absurd h hn⟩, fun hq => hq.1 h⟩
  · rename_i h
    exact ⟨fun hq => ⟨fun hp => absurd hp h, fun _ => hq⟩, fun hq => hq.2 h⟩

end OpenLock
