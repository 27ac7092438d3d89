import Mathlib.Tactic.Ring

/-! Blending along the knots `g a < … < g b` of a curve.  A number `n`, `s` of whose units are one of the knots',
falls between two of them; the weight of the lower one is a number of `r` parts, where `s` is `r * p`. -/

namespace Lib

/-- The weight of the lower knot. -/
def lowWeight (g : Nat → Int) (r p n : Int) (i : Nat) : Int := (g (i + 1) * (r * p) - n) / ((g (i + 1) - g i) * p)

/-- The blend of the knots `i` and `i + 1`. -/
def blend (g : Nat → Int) (r w : Int) (i : Nat) : Int := w * g i + (r - w) * g (i + 1)

section seek

variable {g : Nat → Int} {s n m : Int} {a b i k : Nat}

end seek

/-- The knots rise from `a` to `b`. -/
def Rises (g : Nat → Int) (a b : Nat) : Prop := ∀ i, a ≤ i → i < b → g i < g (i + 1)

section rises

variable {g : Nat → Int} {r p n m : Int} {a b : Nat}

theorem Rises.le (h : Rises g a b) {i j : Nat} (hi : a ≤ i) (hij : i ≤ j) (hj : j ≤ b) : g i ≤ g j := by
  induction hij with
  | refl => exact Int.le_refl _
  | step hij ih => exact Int.le_trans (ih (Nat.le_of_succ_le hj)) (Int.le_of_lt (h _ (Nat.le_trans hi hij) hj))

/-- `n` is along the knots, and `i` is where it falls. -/
structure Falls (g : Nat → Int) (a b : Nat) (s n : Int) (i : Nat) : Prop where
  lo : a ≤ i
  hi : i < b
  above : g i * s ≤ n
  below : n ≤ g (i + 1) * s
  passed : a < i → g i * s < n

section weight

variable {i j : Nat}

theorem Falls.weight (h : Rises g a b) (hp : 0 < p) (f : Falls g a b (r * p) n i) :
    0 ≤ lowWeight g r p n i ∧ lowWeight g r p n i ≤ r := by
  have step : 0 < g (i + 1) - g i := Int.sub_pos_of_lt (h i f.lo f.hi)
  have part : 0 < (g (i + 1) - g i) * p := Int.mul_pos step hp
  have above := f.above
  have below := f.below
  constructor
  · exact Int.ediv_nonneg (by omega) (Int.le_of_lt part)
  · apply Int.ediv_le_of_le_mul part
    have whole : r * ((g (i + 1) - g i) * p) = g (i + 1) * (r * p) - g i * (r * p) := by ring
    omega

theorem blend_eq (g : Nat → Int) (r w : Int) (i : Nat) :
    blend g r w i = r * g (i + 1) - w * (g (i + 1) - g i) := by
  unfold blend
  ring

/-- Less of the lower knot is more. -/
theorem blend_anti (h : g i ≤ g (i + 1)) {v w : Int} (hw : v ≤ w) : blend g r w i ≤ blend g r v i := by
  have step : 0 ≤ g (i + 1) - g i := Int.sub_nonneg_of_le h
  have less : v * (g (i + 1) - g i) ≤ w * (g (i + 1) - g i) := Int.mul_le_mul_of_nonneg_right hw step
  rw [blend_eq, blend_eq]
  omega

theorem blend_le (h : g i ≤ g (i + 1)) {w : Int} (hw : 0 ≤ w) : blend g r w i ≤ r * g (i + 1) := by
  have part : 0 ≤ w * (g (i + 1) - g i) := Int.mul_nonneg hw (Int.sub_nonneg_of_le h)
  rw [blend_eq]
  omega

theorem le_blend (h : g i ≤ g (i + 1)) {w : Int} (hw : w ≤ r) : r * g i ≤ blend g r w i := by
  have least := blend_anti (r := r) h hw
  have all : blend g r r i = r * g i := by
    unfold blend
    ring
  omega

/-- The blend rises with the number. -/
theorem Falls.mono (h : Rises g a b) (hr : 0 ≤ r) (hp : 0 < p) (f : Falls g a b (r * p) n i)
    (f' : Falls g a b (r * p) m j) (le : n ≤ m) :
    blend g r (lowWeight g r p n i) i ≤ blend g r (lowWeight g r p m j) j := by
  have step := h i f.lo f.hi
  have rs : 0 ≤ r * p := Int.mul_nonneg hr (Int.le_of_lt hp)
  rcases Nat.lt_trichotomy i j with lt | rfl | gt
  · have mid : g (i + 1) ≤ g j := h.le (Nat.le_succ_of_le f.lo) lt (Nat.le_of_lt f'.hi)
    calc
      blend g r (lowWeight g r p n i) i ≤ r * g (i + 1) := blend_le (Int.le_of_lt step) (f.weight h hp).1
      _ ≤ r * g j := Int.mul_le_mul_of_nonneg_left mid hr
      _ ≤ blend g r (lowWeight g r p m j) j := le_blend (Int.le_of_lt (h j f'.lo f'.hi)) (f'.weight h hp).2
  · apply blend_anti (Int.le_of_lt step)
    have part : 0 < (g (i + 1) - g i) * p := Int.mul_pos (Int.sub_pos_of_lt step) hp
    exact Int.ediv_le_ediv part (by omega)
  · -- `m` would be below a knot that `n` has passed
    have mid : g (j + 1) ≤ g i := h.le (Nat.le_succ_of_le f'.lo) gt (Nat.le_of_lt f.hi)
    have under : g (j + 1) * (r * p) ≤ g i * (r * p) := Int.mul_le_mul_of_nonneg_right mid rs
    have passed := f.passed (Nat.lt_of_le_of_lt f'.lo gt)
    have below := f'.below
    omega

end weight

end rises

end Lib
