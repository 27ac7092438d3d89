import Mathlib.Order.GaloisConnection.Basic
import Mathlib.Order.Bounds.Basic
import Mathlib.Order.Fin.Basic
import Mathlib.Algebra.Ring.Int.Defs
import Mathlib.Algebra.Ring.Nat

/-! Numerals of a base in the digits of a larger one.  A number is spelled with its own digits, and what is no
numeral is rounded down to one. -/

namespace Lib

def digit (B h k : Nat) : Nat := h / B ^ k % B

/-- The lowest `k` digits of `n`, in base `B`. -/
def spell (b B n : Nat) : Nat → Nat
  | 0 => 0
  | k + 1 => spell b B n k + B ^ k * digit b n k

/-- The largest number whose numeral is at most the lowest `k` digits of `h`: a digit that is none of `b` sets all
below it to the largest. -/
def floorTo (b B h : Nat) : Nat → Nat
  | 0 => 0
  | k + 1 => if digit B h k < b then floorTo b B h k + b ^ k * digit B h k else b ^ (k + 1) - 1

/-- The lowest `k` digits are digits of the smaller base. -/
def Plain (b B h k : Nat) : Prop := ∀ i, i < k → digit B h i < b

section digits

variable {b B h n k r s a c q : Nat}

theorem digit_lt (hB : 0 < B) : digit B h k < B := Nat.mod_lt _ hB

theorem mod_pow_succ (B h k : Nat) : h % B ^ (k + 1) = h % B ^ k + B ^ k * digit B h k := Nat.mod_pow_succ

theorem lower_add (hr : r < B ^ k) : (r + B ^ k * a) % B ^ k = r := by
  rw [Nat.add_mul_mod_self_left, Nat.mod_eq_of_lt hr]

theorem digit_add (hr : r < B ^ k) (ha : a < B) : digit B (r + B ^ k * a) k = a := by
  have pos : 0 < B ^ k := Nat.lt_of_le_of_lt (Nat.zero_le r) hr
  unfold digit
  rw [Nat.add_mul_div_left _ _ pos, Nat.div_eq_of_lt hr, Nat.zero_add, Nat.mod_eq_of_lt ha]

/-- Lower digits do not depend on higher ones. -/
theorem digit_congr {h' : Nat} (eq : h % B ^ k = h' % B ^ k) {i : Nat} (lt : i < k) : digit B h i = digit B h' i := by
  have cut : ∀ x, digit B x i = digit B (x % B ^ k) i := by
    intro x
    obtain ⟨j, rfl⟩ := Nat.exists_eq_add_of_lt lt
    unfold digit
    have split : B ^ (i + j + 1) = B ^ i * B ^ (j + 1) := by rw [Nat.add_assoc, Nat.pow_add]
    rw [split, Nat.mod_mul_right_div_self, Nat.pow_succ, Nat.mod_mul_left_mod]
  rw [cut h, cut h', eq]

/-- The higher digit decides. -/
theorem top_le_iff (hr : r < q) (hs : s < q) : r + q * a ≤ s + q * c ↔ a < c ∨ (a = c ∧ r ≤ s) := by
  constructor
  · intro le
    rcases Nat.lt_trichotomy a c with lt | rfl | gt
    · exact Or.inl lt
    · exact Or.inr ⟨rfl, by omega⟩
    · have more : q * (c + 1) ≤ q * a := Nat.mul_le_mul_left _ gt
      rw [Nat.mul_succ] at more
      omega
  · rintro (lt | ⟨rfl, le⟩)
    · have more : q * (a + 1) ≤ q * c := Nat.mul_le_mul_left _ lt
      rw [Nat.mul_succ] at more
      omega
    · omega

theorem top_lt (hr : r < b ^ k) (ha : a < b) : r + b ^ k * a < b ^ (k + 1) := by
  have more : b ^ k * (a + 1) ≤ b ^ k * b := Nat.mul_le_mul_left _ ha
  rw [Nat.mul_succ] at more
  rw [Nat.pow_succ]
  omega

theorem spell_lt (hb : 0 < b) (le : b ≤ B) (n k : Nat) : spell b B n k < B ^ k := by
  induction k with
  | zero => exact Nat.one_pos
  | succ k ih => exact top_lt ih (Nat.lt_of_lt_of_le (digit_lt hb) le)

theorem floorTo_lt (hb : 0 < b) (B h k : Nat) : floorTo b B h k < b ^ k := by
  induction k with
  | zero => exact Nat.one_pos
  | succ k ih =>
    unfold floorTo
    split
    · rename_i small
      exact top_lt ih small
    · exact Nat.sub_lt (Nat.pow_pos hb) Nat.one_pos

/-- The two are adjoint. -/
theorem le_floorTo_iff (hb : 0 < b) (le : b ≤ B) (n h k : Nat) :
    n % b ^ k ≤ floorTo b B h k ↔ spell b B n k ≤ h % B ^ k := by
  induction k with
  | zero => simp [spell, floorTo, Nat.mod_one]
  | succ k ih =>
    have hn := Nat.mod_lt n (Nat.pow_pos hb : 0 < b ^ k)
    have hh := Nat.mod_lt h (Nat.pow_pos (Nat.lt_of_lt_of_le hb le) : 0 < B ^ k)
    have small : digit b n k < b := digit_lt hb
    rw [mod_pow_succ B h k, spell, top_le_iff (spell_lt hb le n k) hh, floorTo]
    by_cases plain : digit B h k < b
    · rw [if_pos plain, mod_pow_succ b n k, top_le_iff hn (floorTo_lt hb B h k), ih]
    · rw [if_neg plain]
      have all : n % b ^ (k + 1) ≤ b ^ (k + 1) - 1 := Nat.le_sub_one_of_lt (Nat.mod_lt _ (Nat.pow_pos hb))
      exact iff_of_true all (Or.inl (by omega))

theorem spell_congr {n' : Nat} (eq : n % b ^ k = n' % b ^ k) : spell b B n k = spell b B n' k := by
  have upTo : ∀ j, j ≤ k → spell b B n j = spell b B n' j := by
    intro j
    induction j with
    | zero => exact fun _ => rfl
    | succ j ih =>
      intro le
      rw [spell, spell, ih (by omega), digit_congr eq (by omega)]
  exact upTo k (Nat.le_refl k)

theorem floorTo_congr {h' : Nat} (eq : h % B ^ k = h' % B ^ k) : floorTo b B h k = floorTo b B h' k := by
  have upTo : ∀ j, j ≤ k → floorTo b B h j = floorTo b B h' j := by
    intro j
    induction j with
    | zero => exact fun _ => rfl
    | succ j ih =>
      intro le
      rw [floorTo, floorTo, ih (by omega), digit_congr eq (by omega)]
  exact upTo k (Nat.le_refl k)

/-- A number is read back from its numeral. -/
theorem floorTo_spell (hb : 0 < b) (le : b ≤ B) (n k : Nat) : floorTo b B (spell b B n k) k = n % b ^ k := by
  induction k with
  | zero => rw [floorTo, Nat.pow_zero, Nat.mod_one]
  | succ k ih =>
    have low := spell_lt hb le n k
    have small : digit b n k < b := digit_lt hb
    have same : floorTo b B (spell b B n k + B ^ k * digit b n k) k = floorTo b B (spell b B n k) k :=
      floorTo_congr (by rw [lower_add low, Nat.mod_eq_of_lt low])
    rw [spell, floorTo, digit_add low (Nat.lt_of_lt_of_le small le), if_pos small, same, ih, mod_pow_succ]

/-- A numeral is spelled as it is. -/
theorem spell_floorTo (hb : 0 < b) (plain : Plain b B h k) : spell b B (floorTo b B h k) k = h % B ^ k := by
  induction k with
  | zero => rw [spell, Nat.pow_zero, Nat.mod_one]
  | succ k ih =>
    have low := floorTo_lt hb B h k
    have small : digit B h k < b := plain k (Nat.lt_succ_self k)
    have same : spell b B (floorTo b B h k + b ^ k * digit B h k) k = spell b B (floorTo b B h k) k :=
      spell_congr (by rw [lower_add low, Nat.mod_eq_of_lt low])
    rw [floorTo, if_pos small, spell, digit_add low small, same, ih fun i lt => plain i (Nat.lt_succ_of_lt lt),
      mod_pow_succ]

theorem plain_spell (hb : 0 < b) (le : b ≤ B) (n k : Nat) : Plain b B (spell b B n k) k := by
  induction k with
  | zero => exact fun i lt => absurd lt (Nat.not_lt_zero i)
  | succ k ih =>
    intro i lt
    have low := spell_lt hb le n k
    have small : digit b n k < b := digit_lt hb
    rcases Nat.lt_succ_iff_lt_or_eq.1 lt with below | rfl
    · have cut : spell b B n (k + 1) % B ^ k = spell b B n k % B ^ k := by
        rw [spell, lower_add low, Nat.mod_eq_of_lt low]
      rw [digit_congr cut below]
      exact ih i below
    · rw [spell, digit_add low (Nat.lt_of_lt_of_le small le)]
      exact small

/-- The numbers below `b ^ k` in those below `B ^ k`. -/
theorem radix_gc (hb : 0 < b) (le : b ≤ B) (k : Nat) :
    GaloisConnection (fun n : Fin (b ^ k) => (⟨spell b B n k, spell_lt hb le n k⟩ : Fin (B ^ k)))
      fun h => ⟨floorTo b B h k, floorTo_lt hb B h k⟩ := by
  intro n h
  have adjoint := le_floorTo_iff hb le n h k
  rw [Nat.mod_eq_of_lt n.isLt, Nat.mod_eq_of_lt h.isLt] at adjoint
  exact adjoint.symm

/-- Rounding gives the greatest numeral that is not above. -/
theorem isGreatest_spell (hb : 0 < b) (le : b ≤ B) (lt : h < B ^ k) :
    IsGreatest {x | Plain b B x k ∧ x ≤ h} (spell b B (floorTo b B h k) k) := by
  have gc := radix_gc hb le k
  refine ⟨⟨plain_spell hb le _ k, gc.l_u_le ⟨h, lt⟩⟩, fun x hx => ?_⟩
  have below : x < B ^ k := Nat.lt_of_le_of_lt hx.2 lt
  have mono := gc.monotone_l (gc.monotone_u (show (⟨x, below⟩ : Fin (B ^ k)) ≤ ⟨h, lt⟩ from hx.2))
  have own := spell_floorTo hb hx.1
  rw [Nat.mod_eq_of_lt below] at own
  exact Nat.le_trans (Nat.le_of_eq own.symm) mono

end digits

end Lib
