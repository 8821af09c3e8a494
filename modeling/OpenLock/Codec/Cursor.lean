import OpenLock.Codec.Reading

/-! Parsers of a fixed byte array that keep an offset into it. An access outside the array
is a fault of its own, so that its absence can be stated. -/
namespace OpenLock.Codec

/-- Why a parser stops without a result. -/
inductive Stop (ε : Type) where
  | refused (e : ε)
  | outOfBounds
  deriving DecidableEq

/-- A parser: the array is read, the offset is its state. -/
abbrev Cursor (ε α : Type) := ReaderT (List UInt8) (StateT Nat (Except (Stop ε))) α

namespace Cursor
variable {ε α β : Type} {p : Cursor ε α} {q : List UInt8 → Nat → Prop} {f : α → Cursor ε β} {e : ε}

def refuse (e : ε) : Cursor ε α := fun _ _ => .error (.refused e)

/-- Refuse unless the condition holds of the array and the offset. -/
def require (q : List UInt8 → Nat → Prop) [∀ data offset, Decidable (q data offset)] (e : ε) :
    Cursor ε Unit := fun data offset =>
  if q data offset then .ok ((), offset) else .error (.refused e)

/-- The byte at the offset, which moves behind it. -/
def next : Cursor ε UInt8 := fun data offset =>
  match data[offset]? with
  | some b => .ok (b, offset + 1)
  | none => .error .outOfBounds

/-- The `n` bytes from the offset, which moves behind them. -/
def slice (n : Nat) : Cursor ε (List UInt8) := fun data offset =>
  if offset + n ≤ data.length then .ok ((data.drop offset).take n, offset + n)
  else .error .outOfBounds

/-- The same parser, `n` times. -/
def many (p : Cursor ε α) : Nat → Cursor ε (List α)
  | 0 => pure []
  | n + 1 => do
    let a ← p
    List.cons a <$> many p n

/-- A bind, run. -/
theorem bind_run (p : Cursor ε α) (f : α → Cursor ε β) (data : List UInt8) (offset : Nat) :
    (p >>= f) data offset = p data offset >>= fun r => f r.1 data r.2 := rfl

theorem map_run (p : Cursor ε α) (f : α → β) (data : List UInt8) (offset : Nat) :
    (f <$> p) data offset = p data offset >>= fun r => pure (f r.1, r.2) := rfl

section Reading
/-! What a parser makes of the encoding it was written for. -/

/-- In every array shorter than `limit`, the parser takes `out` for `a` wherever it stands. -/
def Reads (limit : Nat) (p : Cursor ε α) (out : List UInt8) (a : α) : Prop :=
  ∀ pre rest : List UInt8, (pre ++ (out ++ rest)).length < limit →
    p (pre ++ (out ++ rest)) pre.length = .ok (a, (pre ++ out).length)

variable {limit : Nat} {out : List UInt8} {a : α}

theorem Reads.pure (a : α) : Reads limit (pure a : Cursor ε α) [] a := by
  intro pre rest _
  rw [List.append_nil]
  rfl

/-- Only encodings below the limit matter. -/
theorem Reads.of_short (h : out.length < limit → Reads limit p out a) : Reads limit p out a := by
  intro pre rest short
  refine h ?_ pre rest short
  simp only [List.length_append] at short
  omega

theorem Reads.bind {out out' : List UInt8} {b : β} (first : Reads limit p out a)
    (second : Reads limit (f a) out' b) :
    Reads limit (p >>= f) (out ++ out') b := by
  intro pre rest short
  have here := first pre (out' ++ rest) (by rwa [List.append_assoc] at short)
  have later := second (pre ++ out) rest (by simpa [List.append_assoc] using short)
  rw [bind_run, List.append_assoc, here]
  change f a _ _ = _
  simp only [List.append_assoc] at later ⊢
  exact later

theorem Reads.map (f : α → β) (h : Reads limit p out a) : Reads limit (f <$> p) out (f a) := by
  intro pre rest short
  rw [map_run, h pre rest short]
  rfl

/-- A check that holds wherever `out` stands. -/
theorem Reads.check [∀ data offset, Decidable (q data offset)]
    (holds : ∀ pre rest : List UInt8, (pre ++ (out ++ rest)).length < limit →
      q (pre ++ (out ++ rest)) pre.length) (h : Reads limit p out a) :
    Reads limit (require q e >>= fun _ => p) out a := by
  intro pre rest short
  rw [bind_run, require, if_pos (holds pre rest short)]
  exact h pre rest short

theorem Reads.next (b : UInt8) : Reads limit (next : Cursor ε UInt8) [b] b := by
  intro pre rest _
  simp [Cursor.next]

theorem Reads.slice (out : List UInt8) : Reads limit (slice out.length : Cursor ε (List UInt8)) out out := by
  intro pre rest _
  simp [Cursor.slice]

theorem Reads.many {write : α → List UInt8} {as : List α}
    (each : ∀ a ∈ as, Reads limit p (write a) a) :
    Reads limit (many p as.length) (as.flatMap write) as := by
  induction as with
  | nil => exact .pure []
  | cons a as ih =>
    have tail := ih fun b mem => each b (List.mem_cons_of_mem a mem)
    exact (each a List.mem_cons_self).bind (tail.map (List.cons a))

end Reading

section Safety
/-! Parsers that never leave the array. -/

/-- From an offset inside the array the parser accesses nothing outside and stops inside. -/
def Safe (p : Cursor ε α) : Prop :=
  ∀ data offset, offset ≤ data.length →
    p data offset ≠ .error .outOfBounds ∧ ∀ r, p data offset = .ok r → r.2 ≤ data.length

theorem Safe.pure (a : α) : Safe (pure a : Cursor ε α) := by
  rintro data offset inside
  refine ⟨fun h => (by cases h), ?_⟩
  rintro _ ⟨⟩
  exact inside

theorem Safe.refuse (e : ε) : Safe (refuse e : Cursor ε α) := by
  rintro data offset _
  exact ⟨fun h => (by cases h), fun _ h => (by cases h)⟩

theorem Safe.bind (first : Safe p) (second : ∀ a, Safe (f a)) : Safe (p >>= f) := by
  intro data offset inside
  obtain ⟨bounded, stops⟩ := first data offset inside
  rw [bind_run]
  cases read : p data offset with
  | error e =>
    rw [read] at bounded
    exact ⟨fun h => bounded (by cases h; rfl), fun _ h => (by cases h)⟩
  | ok r => exact second r.1 data r.2 (stops r read)

theorem Safe.map (f : α → β) (h : Safe p) : Safe (f <$> p) := by
  rw [map_eq_pure_bind]
  exact h.bind fun a => .pure (f a)

/-- A parser that is safe where a check has passed. -/
theorem Safe.check [∀ data offset, Decidable (q data offset)]
    (h : ∀ data offset, offset ≤ data.length → q data offset →
      p data offset ≠ .error .outOfBounds ∧ ∀ r, p data offset = .ok r → r.2 ≤ data.length) :
    Safe (require q e >>= fun _ => p) := by
  intro data offset inside
  rw [bind_run, require]
  split
  · rename_i holds
    exact h data offset inside holds
  · exact ⟨fun h => (by cases h), fun _ h => (by cases h)⟩

theorem Safe.many (h : Safe p) (n : Nat) : Safe (many p n) := by
  induction n with
  | zero => exact .pure []
  | succ n ih => exact h.bind fun a => ih.map (List.cons a)

end Safety
end Cursor
end OpenLock.Codec
