import Mathlib.Algebra.Order.BigOperators.Group.Finset
import Mathlib.Algebra.Order.Ring.Int
import En675.Isp.AeCtrl

/-! Estimates that point away from the error.  Both controllers hand an accumulated estimate on through a
delay line, and a past one that points the other way comes back with at most 275/1000 of its size: the weights
of `debt` lie so that a call under a strong error always lowers it. -/

namespace En675.Isp

/-- A value, seen in the direction of the error. -/
def toward (up : Bool) (x : Int) : Int := if up then x else -x

/-- How far a value points the other way. -/
def against (up : Bool) (x : Int) : Nat := (-toward up x).toNat

section direction

variable {up : Bool} {x y : Int}

@[simp] theorem against_zero : against up 0 = 0 := by cases up <;> rfl

theorem toward_mul (c : Int) : toward up (c * x) = c * toward up x := by
  cases up
  · exact (Int.mul_neg c x).symm
  · rfl

end direction

/-- The estimates on their way, an older one for less. -/
def debt (up : Bool) (dly : Nat) (d : Nat → Int) (ac : Int) : Nat :=
  20 * against up ac + ∑ i ∈ Finset.range (dly + 1), (19 - i) * against up (d i)

/-- What becomes of the accumulated estimate `ac` behind a call: it is handed on, dropped or kept. -/
def Released (ac ac' new : Int) : Prop := ac' = 0 ∧ (new = ac ∨ new = 0) ∨ ac' = ac ∧ new = 0

section debt

variable {up on : Bool} {dly : Nat} {d : Nat → Int} {ac ac' new e : Int}

theorem Released.le (h : Released ac ac' new) (up : Bool) : 20 * against up ac' + 19 * against up new ≤ 20 * against up ac := by
  rcases h with ⟨rfl, rfl | rfl⟩ | ⟨rfl, rfl⟩ <;> rw [against_zero] <;> omega

theorem sum_weights (h : dly ≤ 8) :
    ∑ i ∈ Finset.range (dly + 1), (19 - i) * against up (d i) =
      ∑ i ∈ Finset.range dly, (18 - i) * against up (d i) + ∑ i ∈ Finset.range dly, against up (d i) +
        (19 - dly) * against up (d dly) := by
  rw [Finset.sum_range_succ, ← Finset.sum_add_distrib]
  congr 1
  refine Finset.sum_congr rfl fun i hi => ?_
  have lt := Finset.mem_range.1 hi
  rw [← Nat.succ_mul]
  congr 1
  omega

theorem sum_shift_le (up on : Bool) (dly : Nat) (d : Nat → Int) (new : Int) :
    ∑ i ∈ Finset.range (dly + 1), (19 - i) * against up (shiftDly dly on new d i) ≤
      ∑ i ∈ Finset.range dly, (18 - i) * against up (d i) + 19 * against up new := by
  rw [Finset.sum_range_succ']
  refine Nat.add_le_add (Finset.sum_le_sum fun i hi => ?_) ?_
  · have lt := Finset.mem_range.1 hi
    unfold shiftDly
    rw [if_neg (by omega), if_neg i.succ_ne_zero]
    cases on
    · rw [if_neg Bool.false_ne_true, against_zero]
      exact Nat.zero_le _
    · rw [if_pos rfl]
      exact Nat.mul_le_mul_right _ (by omega)
  · unfold shiftDly
    rw [if_neg (by omega), if_pos rfl]
    cases on
    · rw [if_neg Bool.false_ne_true, against_zero]
      exact Nat.zero_le _
    · exact le_rfl

/-- A call lets the line move on, which lowers the debt by what is on it. -/
theorem debt_call (up on : Bool) (h : dly ≤ 8) (r : Released (ac + e) ac' new) :
    debt up dly (shiftDly dly on new d) ac' + ∑ i ∈ Finset.range dly, against up (d i) + 11 * against up (d dly) +
        20 * against up ac ≤
      debt up dly d ac + 20 * against up (ac + e) := by
  have shift := sum_shift_le up on dly d new
  have last : 11 * against up (d dly) ≤ (19 - dly) * against up (d dly) := Nat.mul_le_mul_right _ (by omega)
  have released := r.le up
  unfold debt
  rw [sum_weights (d := d) h]
  omega

theorem debt_wait (h : dly ≤ 8) (r : Released ac ac' new) :
    debt up dly (shiftDly dly on new d) ac' ≤ debt up dly d ac := by
  have call := debt_call up on (d := d) (e := 0) h ((add_zero ac).symm ▸ r)
  rw [add_zero] at call
  omega

/-- An estimate that the last delayed one alone can turn away from the error. -/
structure Estimates (up : Bool) (last est : Int) : Prop where
  one_le : against up last = 0 → 1 ≤ toward up est
  le : 1000 * against up est ≤ 275 * against up last

end debt

section estimate

variable {up : Bool} {kp ki err dly chg : Int}

end estimate

end En675.Isp
