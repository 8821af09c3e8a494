import Mathlib.Data.Nat.Basic
import Mathlib.Data.UInt

/-! Readers of byte strings, and when a reader inverts a writer. The law allows
trailing bytes, so it composes along a sequence of reads. -/
namespace OpenLock.Codec

abbrev Reader (α : Type) := StateT (List UInt8) Option α

/-- The reader recognises `out` as an encoding of `a` and stops behind it. -/
def Inverts {α : Type} (r : Reader α) (out : List UInt8) (a : α) : Prop :=
  ∀ rest, r (out ++ rest) = some (a, rest)

section Combinators
variable {α β : Type} {r : Reader α} {a : α}

theorem Inverts.pure (a : α) : Inverts (Pure.pure a) [] a := fun _ => rfl

theorem Inverts.bind {f : α → Reader β} {out out' : List UInt8} {b : β} (first : Inverts r out a)
    (second : Inverts (f a) out' b) :
    Inverts (r >>= f) (out ++ out') b := by
  intro rest
  have read := first (out' ++ rest)
  rw [← List.append_assoc] at read
  change (r _ >>= fun p => f p.1 p.2) = _
  rw [read]
  exact second rest

theorem Inverts.map {out : List UInt8} (f : α → β) (h : Inverts r out a) :
    Inverts (f <$> r) out (f a) := by
  intro rest
  change (r _ >>= fun p => Pure.pure (f p.1, p.2)) = _
  rw [h rest]
  rfl

/-- The same reader, `n` times. -/
def many (r : Reader α) : Nat → Reader (List α)
  | 0 => Pure.pure []
  | n + 1 => do
    let a ← r
    List.cons a <$> many r n

theorem Inverts.many {write : α → List UInt8} {as : List α}
    (each : ∀ a ∈ as, Inverts r (write a) a) :
    Inverts (many r as.length) (as.flatMap write) as := by
  induction as with
  | nil => exact .pure []
  | cons a as ih =>
    have tail := ih fun b mem => each b (List.mem_cons_of_mem a mem)
    exact (each a List.mem_cons_self).bind (tail.map (List.cons a))

end Combinators

section Bytes

def byte : Reader UInt8
  | [] => none
  | b :: rest => some (b, rest)

theorem inverts_byte (b : UInt8) : Inverts byte [b] b := fun _ => rfl

/-- Exactly `n` bytes. -/
def take (n : Nat) : Reader (List UInt8) := fun input =>
  if input.length < n then none else some (input.splitAt n)

theorem inverts_take (out : List UInt8) : Inverts (take out.length) out out := by
  intro rest
  simp [take]

/-- The `k` low bytes of a number, the most significant first. -/
def bigEndian : Nat → Nat → List UInt8
  | 0, _ => []
  | k + 1, n => UInt8.ofNat (n / 256 ^ k) :: bigEndian k (n % 256 ^ k)

@[simp] theorem length_bigEndian (k n : Nat) : (bigEndian k n).length = k := by
  induction k generalizing n with
  | zero => rfl
  | succ k ih => simp [bigEndian, ih]

/-- The bytes of a number by their places. -/
theorem bigEndian_eq (k n : Nat) :
    bigEndian k n = (List.range k).map fun i => UInt8.ofNat (n / 256 ^ (k - 1 - i)) := by
  induction k generalizing n with
  | zero => rfl
  | succ k ih =>
    rw [bigEndian, ih, List.range_succ_eq_map, List.map_cons, List.map_map]
    refine congrArg₂ List.cons (by simp) (List.map_congr_left fun i mem => ?_)
    have below := List.mem_range.1 mem
    -- Both have the same low byte: the place is below the ones that the remainder drops.
    refine UInt8.toNat_inj.1 ?_
    obtain ⟨j, rfl⟩ : ∃ j, k = j + (i + 1) := ⟨k - (i + 1), by omega⟩
    have place : j + (i + 1) - 1 - i = j := by omega
    have place' : j + (i + 1) + 1 - 1 - (i + 1) = j := by omega
    simp only [Function.comp_apply, UInt8.toNat_ofNat', Nat.succ_eq_add_one, place, place',
      Nat.pow_add, Nat.mod_mul_right_div_self]
    exact Nat.mod_mod_of_dvd _ (Dvd.intro_left (256 ^ i) (Nat.pow_succ ..).symm)

def unsigned : Nat → Reader Nat
  | 0 => pure 0
  | k + 1 => do
    let b ← byte
    (b.toNat * 256 ^ k + ·) <$> unsigned k

theorem inverts_unsigned {k n : Nat} (bound : n < 256 ^ k) :
    Inverts (unsigned k) (bigEndian k n) n := by
  induction k generalizing n with
  | zero =>
    obtain rfl : n = 0 := by simpa using bound
    exact .pure 0
  | succ k ih =>
    have pos : 0 < 256 ^ k := Nat.pow_pos (by decide)
    have leading : n / 256 ^ k < 256 := by
      rwa [Nat.div_lt_iff_lt_mul pos, Nat.mul_comm, ← Nat.pow_succ]
    have whole : (UInt8.ofNat (n / 256 ^ k)).toNat * 256 ^ k + n % 256 ^ k = n := by
      rw [UInt8.toNat_ofNat_of_lt' leading, Nat.mul_comm, Nat.div_add_mod]
    have tail := (ih (Nat.mod_lt n pos)).map
      ((UInt8.ofNat (n / 256 ^ k)).toNat * 256 ^ k + ·)
    simp only [whole] at tail
    exact (inverts_byte _).bind tail

end Bytes
end OpenLock.Codec
