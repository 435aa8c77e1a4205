import MiniScript.Fault
import MiniScript.Number.Arithmetic

/-!
# Lists and strings as sequences

A number names a position by its whole part; a negative one counts from the end.
A slice runs between two such positions, each moved into the sequence if it lies
outside, and is empty when they cross. A sequence times a number is that many
whole copies and, for the fraction, the part of one more copy; the length of the
result is limited.
-/

namespace MiniScript.Sequence

/-- Counts a negative index from the end. -/
def wrap (index : Int) (length : Nat) : Int :=
  if index < 0 then index + length else index

/-- The position that a number names; there has to be one. -/
def position (index : Float) (length : Nat) : Except Fault Nat :=
  let raw := Number.toWhole index
  let wrapped := if raw < 0 then raw + length else raw
  if wrapped < 0 || wrapped ≥ length then .error (.indexOutOfRange raw length)
  else .ok wrapped.toNat

/-- One end of a slice; null stands for `default`. -/
def bound (length default : Nat) : Value → Except Fault Nat
  | .null => .ok default
  | .number value =>
      .ok (Number.clampInt 0 length (wrap (Number.toWhole value) length)).toNat
  | other => .error (.sliceBound other.kind)

/-- Where a slice starts and stops. -/
def bounds (first last : Value) (length : Nat) : Except Fault (Nat × Nat) := do
  let start ← bound length 0 first
  let stop ← bound length length last
  return (start, max start stop)

/-- The number names the position that it comes to when it is counted from the end. -/
theorem position_eq_ok_iff {index : Float} {length found : Nat} :
    position index length = .ok found ↔ found < length ∧
      wrap (Number.toWhole index) length = found := by
  let wrapped := wrap (Number.toWhole index) length
  show (if wrapped < 0 || wrapped ≥ length then
      Except.error (Fault.indexOutOfRange (Number.toWhole index) length)
      else .ok wrapped.toNat) =
    Except.ok found ↔ found < length ∧ wrapped = found
  generalize wrapped = wrapped
  split
  · rename_i outside
    simp only [Bool.or_eq_true, decide_eq_true_eq] at outside
    exact iff_of_false nofun fun inside => by omega
  · rename_i inside
    simp only [Bool.or_eq_true, decide_eq_true_eq, not_or] at inside
    rw [Except.ok.injEq]
    omega

theorem position_lt {index : Float} {length found : Nat}
    (known : position index length = .ok found) : found < length :=
  (position_eq_ok_iff.mp known).1

theorem bound_le {length default found : Nat} {value : Value} (small : default ≤ length)
    (known : bound length default value = .ok found) : found ≤ length := by
  cases value with
  | null =>
      injection known with same
      omega
  | number value =>
      injection known with same
      have range := Number.clampInt_bounds (wrap (Number.toWhole value) length)
        (Int.natCast_nonneg length)
      omega
  | text _ => exact nomatch known
  | list _ => exact nomatch known
  | map _ => exact nomatch known
  | function _ => exact nomatch known

variable {α : Type}

/-- The first `total` elements of the sequence written again and again. -/
def cycle (items : List α) (total : Nat) : List α :=
  (List.replicate (total / items.length) items).flatten ++ items.take (total % items.length)

theorem cycle_length {items : List α} (nonempty : items ≠ []) (total : Nat) :
    (cycle items total).length = total := by
  have positive : 0 < items.length := List.length_pos_iff.mpr nonempty
  have rest := Nat.mod_lt total positive
  simp only [cycle, List.length_append, List.length_flatten, List.map_replicate,
    List.sum_replicate_nat, List.length_take]
  have division := Nat.div_add_mod total items.length
  rw [Nat.mul_comm] at division
  omega

/-- Fails when a length is above the limit. -/
def checkLength (length limit : Nat) : Except Fault Unit :=
  if limit < length then .error (.sequenceTooLong length limit) else .ok ()

/-- The sequence `factor` times. -/
def scale (items : List α) (factor : Float) (limit : Nat) : Except Fault (List α) :=
  if Number.isNaN factor || factor ≤ 0.0 || items.isEmpty then .ok []
  else
    let total := Number.floor (Number.ofCount items.length * factor)
    if total > Number.ofCount limit then .error (.sequenceTooLong (Number.toCount total) limit)
    else .ok (cycle items (Number.toCount total))

end MiniScript.Sequence
