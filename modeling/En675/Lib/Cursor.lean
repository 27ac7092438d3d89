import En675.Lib.Knots

/-! A cursor that goes up the rows of a table, whose abscissae are `x` and whose ordinates are `y`, and the value
of the table between the row it stops at and the one before. -/

namespace Lib

/-- `while (x[m] <= a) m++`, in a table of `n` rows; without a result beyond the last. -/
def advance (n : Nat) (x : Nat → Nat) (a : Nat) : Nat → Nat → Option Nat
  | 0, _ => none
  | k + 1, m => if n ≤ m then none else if x m ≤ a then advance n x a k (m + 1) else some m

/-- `m` is the first row beyond `a`. -/
structure Over (x : Nat → Nat) (a m : Nat) : Prop where
  passed : ∀ j < m, x j ≤ a
  lt : a < x m

section advance

variable {n a b m q l k : Nat} {x : Nat → Nat}

theorem advance_over (passed : ∀ j < m, x j ≤ a) (hl : l < n) (last : a < x l) (hm : m ≤ l) (hk : n - m ≤ k) :
    ∃ q, advance n x a k m = some q ∧ Over x a q := by
  induction k generalizing m with
  | zero => omega
  | succ k ih =>
    rw [advance, if_neg (by omega)]
    split
    · rename_i le
      have more : m ≠ l := fun eq => absurd le (Nat.not_le.2 (eq ▸ last))
      apply ih _ (by omega) (by omega)
      intro j hj
      rcases Nat.lt_succ_iff_lt_or_eq.1 hj with lt | rfl
      · exact passed j lt
      · exact le
    · rename_i gt
      exact ⟨m, rfl, passed, Nat.not_le.1 gt⟩

theorem advance_some (h : advance n x a k m = some q) : q < n ∧ a < x q := by
  induction k generalizing m with
  | zero => cases h
  | succ k ih =>
    rw [advance] at h
    split at h
    · cases h
    · split at h
      · exact ih h
      · rename_i less gt
        cases h
        exact ⟨Nat.not_le.1 less, Nat.not_le.1 gt⟩

theorem Over.mono (h : Over x a m) (h' : Over x b q) (le : a ≤ b) : m ≤ q := by
  apply Nat.not_lt.1
  intro lt
  exact absurd h'.lt (Nat.not_lt.2 (Nat.le_trans (h.passed q lt) le))

theorem Over.pos (h : Over x a m) (first : x 0 ≤ a) : 0 < m := by
  apply Nat.pos_of_ne_zero
  rintro rfl
  exact absurd h.lt (Nat.not_lt.2 first)

end advance

/-- How far `a` is from row `i` to the next, of `r`. -/
def upWeight (x : Nat → Nat) (r a i : Nat) : Nat := (a - x i) * r / (x (i + 1) - x i)

/-- The mix of the ordinates of row `i` and the next, in `r` parts. -/
def mix (y : Nat → Nat) (r w i : Nat) : Nat := w * y (i + 1) + (r - w) * y i

section mix

variable {x y : Nat → Nat} {r v w i j a b : Nat}

theorem upWeight_le (h : a ≤ x (i + 1)) : upWeight x r a i ≤ r := by
  apply Nat.div_le_of_le_mul
  exact Nat.mul_le_mul_right r (Nat.sub_le_sub_right h _)

theorem upWeight_mono (h : a ≤ b) : upWeight x r a i ≤ upWeight x r b i :=
  Nat.div_le_div_right (Nat.mul_le_mul_right r (Nat.sub_le_sub_right h _))

theorem mix_cast (hw : w ≤ r) : (mix y r w i : Int) = blend (fun j => (y j : Int)) r (r - w) i := by
  unfold mix blend
  rw [Int.natCast_add, Int.natCast_mul, Int.natCast_mul, Int.natCast_sub hw]
  ring

theorem mix_mono (h : y i ≤ y (i + 1)) (hv : v ≤ w) (hw : w ≤ r) : mix y r v i ≤ mix y r w i := by
  have anti := blend_anti (g := fun j => (y j : Int)) (r := r) (i := i) (v := r - w) (w := r - v) (by omega) (by omega)
  rw [← mix_cast hw, ← mix_cast (Nat.le_trans hv hw)] at anti
  exact Int.ofNat_le.1 anti

theorem mix_le (h : y i ≤ y (i + 1)) (hw : w ≤ r) : mix y r w i ≤ r * y (i + 1) := by
  have le := blend_le (g := fun j => (y j : Int)) (r := r) (i := i) (w := r - w) (by omega) (by omega)
  rw [← mix_cast hw] at le
  exact Int.ofNat_le.1 le

theorem le_mix (h : y i ≤ y (i + 1)) (hw : w ≤ r) : r * y i ≤ mix y r w i := by
  have le := le_blend (g := fun j => (y j : Int)) (r := r) (i := i) (w := r - w) (by omega) (by omega)
  rw [← mix_cast hw] at le
  exact Int.ofNat_le.1 le

/-- Along a table whose ordinates do not fall the value does not fall, across its rows and within. -/
theorem mix_over (rises : ∀ {k l}, k ≤ l → l ≤ j + 1 → y k ≤ y l) (h : Over x a (i + 1)) (h' : Over x b (j + 1))
    (le : a ≤ b) : mix y r (upWeight x r a i) i ≤ mix y r (upWeight x r b j) j := by
  have wa : upWeight x r a i ≤ r := upWeight_le (Nat.le_of_lt h.lt)
  have wb : upWeight x r b j ≤ r := upWeight_le (Nat.le_of_lt h'.lt)
  have step := rises (Nat.le_succ j) (Nat.le_refl _)
  rcases Nat.eq_or_lt_of_le (Nat.le_of_succ_le_succ (h.mono h' le)) with rfl | lt
  · exact mix_mono step (upWeight_mono le) wb
  · calc
      mix y r (upWeight x r a i) i ≤ r * y (i + 1) := mix_le (rises (Nat.le_succ i) (by omega)) wa
      _ ≤ r * y j := Nat.mul_le_mul_left r (rises lt (Nat.le_succ j))
      _ ≤ mix y r (upWeight x r b j) j := le_mix step wb

end mix

end Lib
