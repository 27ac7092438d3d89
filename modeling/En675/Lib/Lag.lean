/-! First-order lags in whole numbers.  `lag q k d` is what is left of a gap `d` after a round that closes `k`
parts in `q` of it, with the low part of the gap lost to rounding down.  From above the gap closes; from below it
may stay, at no more than `dead q`. -/

namespace Lib

def lag (q k d : Int) : Int := (q - k) * (d / q)

/-- The gap from below that rounding may leave. -/
def dead (q : Int) : Int := q * (q - 1)

section lag

variable {q k d : Int}

/-- A round moves by as much from any level that the rounding does not move. -/
theorem lag_level (hq : 0 < q) (k x y : Int) : k * x + (q - k) * (y / q) = q * x + lag q k (y - q * x) := by
  have shift : (y - q * x) / q = y / q - x := by
    rw [Int.sub_ediv_of_dvd _ (Int.dvd_mul_right q x), Int.mul_ediv_cancel_left _ (Int.ne_of_gt hq)]
  unfold lag
  rw [shift, Int.mul_sub, Int.sub_mul q k x]
  omega

theorem lag_nonpos (hq : 0 < q) (hk : k ≤ q) (hd : d ≤ 0) : lag q k d ≤ 0 := by
  have part : d / q ≤ 0 := Int.ediv_le_of_le_mul hq (by rw [Int.zero_mul]; exact hd)
  exact Int.mul_nonpos_of_nonneg_of_nonpos (Int.sub_nonneg_of_le hk) part

theorem lag_nonneg (hq : 0 < q) (hk : k ≤ q) (hd : 0 ≤ d) : 0 ≤ lag q k d :=
  Int.mul_nonneg (Int.sub_nonneg_of_le hk) (Int.ediv_nonneg hd (Int.le_of_lt hq))

/-- Within the dead gap the gap stays within. -/
theorem dead_le_lag (hq : 0 < q) (h1 : 1 ≤ k) (hk : k ≤ q) (hd : -dead q ≤ d) : -dead q ≤ lag q k d := by
  have part : -(q - 1) ≤ d / q := by
    apply (Int.le_ediv_iff_mul_le hq).2
    rw [Int.neg_mul, Int.mul_comm]
    exact hd
  calc
    -dead q = q * -(q - 1) := by rw [Int.mul_neg, dead]
    _ ≤ (q - k) * -(q - 1) := Int.mul_le_mul_of_nonpos_right (by omega) (by omega)
    _ ≤ lag q k d := Int.mul_le_mul_of_nonneg_left part (Int.sub_nonneg_of_le hk)

/-- From above every round closes the gap. -/
theorem lag_lt (hq : 0 < q) (h1 : 1 ≤ k) (hd : 0 < d) : lag q k d < d := by
  have nonneg : 0 ≤ d / q := Int.ediv_nonneg (Int.le_of_lt hd) (Int.le_of_lt hq)
  have whole : q * (d / q) ≤ d := Int.mul_ediv_self_le (Int.ne_of_gt hq)
  have less : (q - k) * (d / q) ≤ (q - 1) * (d / q) := Int.mul_le_mul_of_nonneg_right (by omega) nonneg
  rw [Int.sub_mul q 1, Int.one_mul] at less
  unfold lag
  by_cases zero : d / q = 0
  · rw [zero, Int.mul_zero]
    exact hd
  · omega

/-- From below it does, short of the dead gap. -/
theorem lt_lag (hq : 0 < q) (h1 : 1 ≤ k) (hd : d < -dead q) : d < lag q k d := by
  have part : d / q < -(q - 1) := by
    apply Int.ediv_lt_of_lt_mul hq
    rw [Int.neg_mul, Int.mul_comm]
    exact hd
  have whole : d < q * (d / q) + q := Int.lt_mul_ediv_self_add hq
  have less : (q - 1) * (d / q) ≤ (q - k) * (d / q) := Int.mul_le_mul_of_nonpos_right (by omega) (by omega)
  rw [Int.sub_mul q 1, Int.one_mul] at less
  unfold lag
  omega

/-- The gap is closed, but for the dead gap. -/
def Closed (q d : Int) : Prop := -dead q ≤ d ∧ d ≤ 0

theorem Closed.lag (hq : 0 < q) (h1 : 1 ≤ k) (hk : k ≤ q) (h : Closed q d) : Closed q (lag q k d) :=
  ⟨dead_le_lag hq h1 hk h.1, lag_nonpos hq hk h.2⟩

theorem natAbs_lag (hq : 0 < q) (h1 : 1 ≤ k) (hk : k ≤ q) (h : ¬Closed q d) :
    (lag q k d).natAbs < d.natAbs := by
  by_cases above : 0 < d
  · have lt := lag_lt hq h1 above
    have nonneg := lag_nonneg hq hk (Int.le_of_lt above)
    omega
  · have below : d < -dead q := Int.not_le.1 fun le => h ⟨le, Int.not_lt.1 above⟩
    have lt := lt_lag hq h1 below
    have nonpos := lag_nonpos hq hk (Int.not_lt.1 above)
    omega

end lag

/-- Whatever the parts that the rounds close, from some round on the gap is closed. -/
theorem lag_settles {q : Int} {k d : Nat → Int} (hq : 0 < q) (hk : ∀ n, 1 ≤ k n ∧ k n ≤ q)
    (round : ∀ n, d (n + 1) = lag q (k n) (d n)) : ∃ m, ∀ n, m ≤ n → Closed q (d n) := by
  have some_round : ∀ a n, (d n).natAbs ≤ a → ∃ m, Closed q (d m) := by
    intro a
    induction a with
    | zero =>
      intro n h
      have zero : d n = 0 := Int.natAbs_eq_zero.1 (Nat.le_zero.1 h)
      have dead_nonneg : 0 ≤ dead q := Int.mul_nonneg (Int.le_of_lt hq) (Int.sub_nonneg_of_le hq)
      exact ⟨n, by unfold Closed; omega⟩
    | succ a ih =>
      intro n h
      by_cases c : Closed q (d n)
      · exact ⟨n, c⟩
      · apply ih (n + 1)
        have less := natAbs_lag hq (hk n).1 (hk n).2 c
        rw [round]
        omega
  obtain ⟨m, hm⟩ := some_round _ 0 (Nat.le_refl _)
  refine ⟨m, fun n le => ?_⟩
  induction le with
  | refl => exact hm
  | step _ ih => exact round _ ▸ ih.lag hq (hk _).1 (hk _).2

end Lib
