import Mathlib.Algebra.Ring.Int.Defs
import Mathlib.Algebra.Ring.Nat

/-! Unsigned 32-bit arithmetic on naturals, with the no-overflow forms the
proofs use. -/

namespace Lib

def uadd (a b : Nat) : Nat := (a + b) % 2 ^ 32

def usub (a b : Nat) : Nat := (a + (2 ^ 32 - b % 2 ^ 32)) % 2 ^ 32

def umul (a b : Nat) : Nat := a * b % 2 ^ 32

/-- Without a result where it divides by zero. -/
def udiv (a b : Nat) : Option Nat := if b = 0 then none else some (a / b)

/-- The value of the same 32 bits read as a signed number. -/
def asInt (a : Nat) : Int := if a % 2 ^ 32 < 2 ^ 31 then a % 2 ^ 32 else (a % 2 ^ 32 : Int) - 2 ^ 32

theorem uadd_of_lt (h : a + b < 2 ^ 32) : uadd a b = a + b := Nat.mod_eq_of_lt h

theorem umul_of_lt (h : a * b < 2 ^ 32) : umul a b = a * b := Nat.mod_eq_of_lt h

theorem udiv_of_pos (h : 0 < b) : udiv a b = some (a / b) := if_neg (Nat.ne_of_gt h)

/-- Bits that are shifted behind others are added to them. -/
theorem shl_or (a : Nat) {b k : Nat} (h : b < 2 ^ k) : a <<< k ||| b = a * 2 ^ k + b := by
  rw [← Nat.shiftLeft_add_eq_or_of_lt h, Nat.shiftLeft_eq]

theorem usub_of_le (h : b ≤ a) (ha : a < 2 ^ 32) : usub a b = a - b := by
  unfold usub
  rw [Nat.mod_eq_of_lt (by omega : b < 2 ^ 32)]
  rw [show a + (2 ^ 32 - b) = (a - b) + 2 ^ 32 by omega, Nat.add_mod_right]
  exact Nat.mod_eq_of_lt (by omega)

end Lib
