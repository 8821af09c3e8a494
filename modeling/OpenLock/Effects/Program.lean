import Mathlib.Data.List.Basic

/-! Programs as trees of typed requests to an environment. Nothing here fixes
the requests: a program performs an effect, receives any answer of its type and
continues. A run may stop between any two effects, as at a power cut. -/
namespace OpenLock.Effects

/-- A finite interaction tree. `A e` is the type of answers to the effect `e`. -/
inductive Prog {E : Type} (A : E → Type) (α : Type) where
  | pure : α → Prog A α
  | op (e : E) (next : A e → Prog A α) : Prog A α

/-- One effect together with the answer it received. -/
structure Event {E : Type} (A : E → Type) where
  effect : E
  answer : A effect

instance {E : Type} {A : E → Type} [DecidableEq E] [∀ e, DecidableEq (A e)] :
    DecidableEq (Event A)
  | ⟨e, x⟩, ⟨e', y⟩ =>
    if h : e = e' then
      decidable_of_iff (h ▸ x = y) (by subst h; simp)
    else isFalse fun same => h (congrArg Event.effect same)

namespace Prog
variable {E : Type} {A : E → Type} {α β γ : Type}

def bind : Prog A α → (α → Prog A β) → Prog A β
  | .pure a, f => f a
  | .op e next, f => .op e fun x => (next x).bind f

/-- Issue one effect and return its answer. -/
def perform (e : E) : Prog A (A e) := .op e .pure

instance : Monad (Prog A) where
  pure := Prog.pure
  bind := Prog.bind

@[simp] theorem bind_pure_left (a : α) (f : α → Prog A β) : (Prog.pure a).bind f = f a := rfl

@[simp] theorem bind_op (e : E) (next : A e → Prog A α) (f : α → Prog A β) :
    (Prog.op e next).bind f = .op e fun x => (next x).bind f := rfl

theorem bind_pure_right (p : Prog A α) : p.bind .pure = p := by
  induction p with
  | pure a => rfl
  | op e next ih => simp only [bind_op, ih]

theorem bind_assoc (p : Prog A α) (f : α → Prog A β) (g : β → Prog A γ) :
    (p.bind f).bind g = p.bind fun a => (f a).bind g := by
  induction p with
  | pure a => rfl
  | op e next ih => simp only [bind_op, ih]

instance : LawfulMonad (Prog A) :=
  LawfulMonad.mk' (Prog A) bind_pure_right (fun _ _ => rfl) bind_assoc

end Prog
end OpenLock.Effects
