import Mathlib.Data.List.Basic
import Mathlib.Logic.Function.Basic

/-! Messages put together from pieces: lists overwritten from a position on, sequences some
positions of which are known, and messages cut into chunks. -/
namespace OpenLock.Codec
variable {α : Type}

section Splice

/-- The list with `xs` written over it from `start` on. -/
def splice (l : List α) (start : Nat) (xs : List α) : List α :=
  l.take start ++ xs ++ l.drop (start + xs.length)

variable {l xs : List α} {start : Nat}

theorem length_splice (fits : start + xs.length ≤ l.length) :
    (splice l start xs).length = l.length := by
  simp only [splice, List.length_append, List.length_take, List.length_drop]
  omega

theorem getElem?_splice (fits : start + xs.length ≤ l.length) (k : Nat) :
    (splice l start xs)[k]? =
      if start ≤ k ∧ k < start + xs.length then xs[k - start]? else l[k]? := by
  have taken : (l.take start).length = start := by
    rw [List.length_take]
    omega
  unfold splice
  rw [List.append_assoc]
  by_cases low : k < start
  · rw [List.getElem?_append_left (by omega), List.getElem?_take_of_lt low,
      if_neg (by omega)]
  · rw [List.getElem?_append_right (by omega), taken]
    by_cases high : k < start + xs.length
    · rw [List.getElem?_append_left (by omega), if_pos ⟨Nat.not_lt.1 low, high⟩]
    · rw [List.getElem?_append_right (by omega), List.getElem?_drop, if_neg (by omega)]
      congr 1
      omega

@[simp] theorem splice_nil (l : List α) (start : Nat) : splice l start [] = l := by
  simp [splice]

/-- Writing one symbol and then the rest behind it. -/
theorem splice_set {x : α} (fits : start + (x :: xs).length ≤ l.length) :
    splice (l.set start x) (start + 1) xs = splice l start (x :: xs) := by
  simp only [List.length_cons] at fits
  apply List.ext_getElem?
  intro k
  rw [getElem?_splice (by rw [List.length_set]; omega),
    getElem?_splice (by simp only [List.length_cons]; omega), List.getElem?_set]
  by_cases here : start = k
  · subst here
    rw [if_neg (by omega), if_pos rfl, if_pos (by omega), if_pos ⟨Nat.le_refl _, by simp⟩]
    simp
  · by_cases inside : start + 1 ≤ k ∧ k < start + 1 + xs.length
    · rw [if_pos inside, if_pos ⟨by omega, by simp only [List.length_cons]; omega⟩]
      obtain ⟨j, rfl⟩ := Nat.exists_eq_add_of_le inside.1
      rw [show start + 1 + j - start = j + 1 by omega, show start + 1 + j - (start + 1) = j by omega]
      rfl
    · rw [if_neg inside, if_neg here, if_neg (by simp only [List.length_cons]; omega)]

/-- A list stays as it is exactly when it already holds what is written. -/
theorem splice_eq_self (fits : start + xs.length ≤ l.length) :
    splice l start xs = l ↔ ∀ i < xs.length, l[start + i]? = xs[i]? := by
  constructor
  · intro same i bound
    have here := getElem?_splice fits (start + i)
    rw [same, if_pos ⟨by omega, by omega⟩, Nat.add_sub_cancel_left] at here
    exact here
  · intro holds
    apply List.ext_getElem?
    intro k
    rw [getElem?_splice fits]
    split
    · rename_i inside
      have here := holds (k - start) (by omega)
      rw [Nat.add_sub_cancel' inside.1] at here
      exact here.symm
    · rfl

end Splice

/-- A sequence some positions of which are known. -/
abbrev Known (α : Type) := Nat → Option α

namespace Known

/-- What is known once `xs` was written from `start` on. -/
def overlay (v : Known α) (start : Nat) (xs : List α) : Known α := fun k =>
  if start ≤ k ∧ k < start + xs.length then xs[k - start]? else v k

/-- `xs`, placed at `start`, contradicts what is known at its position `i`. -/
def Clash (v : Known α) (start : Nat) (xs : List α) (i : Nat) : Prop :=
  ∃ x y, v (start + i) = some x ∧ xs[i]? = some y ∧ x ≠ y

/-- All that is known is part of the message. -/
def Of (message : List α) (v : Known α) : Prop := ∀ k x, v k = some x → message[k]? = some x

/-- The piece `xs` of a message, from `start` on. -/
def Carries (message : List α) (start : Nat) (xs : List α) : Prop :=
  ∀ i y, xs[i]? = some y → message[start + i]? = some y

variable {v : Known α} {start k : Nat} {xs message : List α}

theorem overlay_inside (low : start ≤ k) (high : k < start + xs.length) :
    v.overlay start xs k = xs[k - start]? := if_pos ⟨low, high⟩

theorem overlay_outside (h : ¬ (start ≤ k ∧ k < start + xs.length)) :
    v.overlay start xs k = v k := if_neg h

theorem Of.overlay (h : v.Of message) (carries : Carries message start xs) :
    (v.overlay start xs).Of message := by
  intro k x found
  unfold Known.overlay at found
  split at found
  · rename_i inside
    have here := carries (k - start) x found
    rwa [Nat.add_sub_cancel' inside.1] at here
  · exact h k x found

/-- Pieces of one message never contradict each other. -/
theorem Of.no_clash (h : v.Of message) (carries : Carries message start xs) (i : Nat) :
    ¬ v.Clash start xs i := by
  rintro ⟨x, y, known, written, differ⟩
  have same := (h _ x known).symm.trans (carries i y written)
  exact differ (Option.some.inj same)

theorem isSome_overlay (v : Known α) (start : Nat) (xs : List α) (k : Nat) :
    (v.overlay start xs k).isSome ↔ (start ≤ k ∧ k < start + xs.length) ∨ (v k).isSome := by
  by_cases inside : start ≤ k ∧ k < start + xs.length
  · rw [overlay_inside inside.1 inside.2, List.getElem?_eq_getElem (by omega)]
    simp [inside]
  · rw [overlay_outside inside]
    simp [inside]

end Known

section Chunks

/-- The consecutive pieces of `size` symbols; the last one may be shorter. -/
def chunks (size : Nat) (xs : List α) : List (List α) :=
  (List.range ((xs.length + size - 1) / size)).map fun i => (xs.drop (i * size)).take size

variable {size i : Nat} {xs : List α}

theorem length_chunks : (chunks size xs).length = (xs.length + size - 1) / size := by
  simp [chunks]

theorem chunk_lt (positive : 0 < size) :
    i < (xs.length + size - 1) / size ↔ i * size < xs.length := by
  rw [← Nat.succ_le_iff, Nat.le_div_iff_mul_le positive, Nat.succ_mul]
  omega

theorem getElem?_chunks (positive : 0 < size) {piece : List α} : (chunks size xs)[i]? = some piece ↔
      i * size < xs.length ∧ piece = (xs.drop (i * size)).take size := by
  rw [chunks, List.getElem?_map, ← chunk_lt positive]
  by_cases bound : i < (xs.length + size - 1) / size
  · simp [bound, eq_comm]
  · simp [bound]

/-- A chunk is the piece of the list at its place. -/
theorem carries_chunk (i : Nat) :
    Known.Carries xs (i * size) ((xs.drop (i * size)).take size) := by
  intro j y found
  rw [List.getElem?_take, List.getElem?_drop] at found
  split at found
  · exact found
  · cases found

theorem length_chunk (i : Nat) :
    ((xs.drop (i * size)).take size).length = min size (xs.length - i * size) := by
  rw [List.length_take, List.length_drop]

theorem flatten_take_chunks (positive : 0 < size) (k : Nat) :
    ((chunks size xs).take k).flatten = xs.take (k * size) := by
  induction k with
  | zero => simp
  | succ k ih =>
    rw [List.take_add_one, List.flatten_append, ih, Nat.succ_mul, List.take_add]
    congr 1
    cases here : (chunks size xs)[k]? with
    | some piece =>
      obtain ⟨_, rfl⟩ := (getElem?_chunks positive).1 here
      simp
    | none =>
      have beyond : xs.length ≤ k * size := by
        rw [List.getElem?_eq_none_iff, length_chunks] at here
        exact Nat.not_lt.1 fun inside => Nat.not_lt.2 here ((chunk_lt positive).2 inside)
      simp [List.drop_eq_nil_of_le beyond]

theorem flatten_chunks (positive : 0 < size) : (chunks size xs).flatten = xs := by
  have bound : xs.length ≤ (chunks size xs).length * size := by
    rw [length_chunks]
    exact Nat.not_lt.1 fun inside => Nat.lt_irrefl _ ((chunk_lt positive).2 inside)
  have whole : ((chunks size xs).take (chunks size xs).length).flatten = _ :=
    flatten_take_chunks positive _
  rwa [List.take_length, List.take_of_length_le bound] at whole

theorem flatten_drop_chunks (positive : 0 < size) (k : Nat) :
    ((chunks size xs).drop k).flatten = xs.drop (k * size) := by
  have whole : ((chunks size xs).take k).flatten ++ ((chunks size xs).drop k).flatten = xs := by
    rw [← List.flatten_append, List.take_append_drop, flatten_chunks positive]
  rw [flatten_take_chunks positive] at whole
  have cut : xs.take (k * size) ++ xs.drop (k * size) = xs := List.take_append_drop _ _
  exact List.append_cancel_left (whole.trans cut.symm)

end Chunks
end OpenLock.Codec
