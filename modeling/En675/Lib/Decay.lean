/-! Weighted means that are rounded down.  Towards a level a value keeps `s` parts in `q` of its gap: from above the
gap closes, and from below it may stay, at less than `q`. -/

namespace Lib

def decay (q s d : Int) : Int := s * d / q

/-- `s` parts of `x` and the rest of `t`. -/
def mean (q s x t : Int) : Int := (s * x + (q - s) * t) / q

/-- The gap is closed, but for what rounding may leave. -/
def Settled (q d : Int) : Prop := -q < d ∧ d ≤ 0

section decay

variable {q s d x t lo hi : Int}

theorem mean_eq (hq : 0 < q) (s x t : Int) : mean q s x t = t + decay q s (x - t) := by
  have whole : s * x + (q - s) * t = s * (x - t) + t * q := by
    rw [Int.mul_sub, Int.sub_mul, Int.mul_comm t q]
    omega
  unfold mean decay
  rw [whole, Int.add_mul_ediv_right _ _ (Int.ne_of_gt hq), Int.add_comm]

theorem decay_nonneg (hq : 0 < q) (hs : 0 ≤ s) (hd : 0 ≤ d) : 0 ≤ decay q s d :=
  Int.ediv_nonneg (Int.mul_nonneg hs hd) (Int.le_of_lt hq)

theorem decay_nonpos (hq : 0 < q) (hs : 0 ≤ s) (hd : d ≤ 0) : decay q s d ≤ 0 :=
  Int.ediv_le_of_le_mul hq (by rw [Int.zero_mul]; exact Int.mul_nonpos_of_nonneg_of_nonpos hs hd)

theorem decay_le (hq : 0 < q) (hs : s ≤ q) (hd : 0 ≤ d) : decay q s d ≤ d := by
  apply Int.ediv_le_of_le_mul hq
  rw [Int.mul_comm d]
  exact Int.mul_le_mul_of_nonneg_right hs hd

theorem le_decay (hq : 0 < q) (hs : s ≤ q) (hd : d ≤ 0) : d ≤ decay q s d := by
  apply (Int.le_ediv_iff_mul_le hq).2
  rw [Int.mul_comm]
  exact Int.mul_le_mul_of_nonpos_right hs hd

theorem le_mean (hq : 0 < q) (h0 : 0 ≤ s) (hs : s ≤ q) (hx : lo ≤ x) (ht : lo ≤ t) : lo ≤ mean q s x t := by
  rw [mean_eq hq]
  by_cases le : t ≤ x
  · have := decay_nonneg hq h0 (Int.sub_nonneg_of_le le)
    omega
  · have := le_decay hq hs (by omega : x - t ≤ 0)
    omega

theorem mean_le (hq : 0 < q) (h0 : 0 ≤ s) (hs : s ≤ q) (hx : x ≤ hi) (ht : t ≤ hi) : mean q s x t ≤ hi := by
  rw [mean_eq hq]
  by_cases le : t ≤ x
  · have := decay_le hq hs (Int.sub_nonneg_of_le le)
    omega
  · have := decay_nonpos hq h0 (by omega : x - t ≤ 0)
    omega

/-- A mean stays within what both have. -/
theorem natAbs_mean_le (hq : 0 < q) (h0 : 0 ≤ s) (hs : s ≤ q) {n : Nat} (hx : x.natAbs ≤ n) (ht : t.natAbs ≤ n) :
    (mean q s x t).natAbs ≤ n := by
  have low := le_mean hq h0 hs (by omega : -(n : Int) ≤ x) (by omega : -(n : Int) ≤ t)
  have high := mean_le hq h0 hs (by omega : x ≤ n) (by omega : t ≤ n)
  omega

theorem Settled.decay (hq : 0 < q) (h0 : 0 ≤ s) (hs : s ≤ q) (h : Settled q d) : Settled q (decay q s d) :=
  ⟨Int.lt_of_lt_of_le h.1 (le_decay hq hs h.2), decay_nonpos hq h0 h.2⟩

theorem natAbs_decay_le (hq : 0 < q) (h0 : 0 ≤ s) (hs : s ≤ q) (d : Int) : (decay q s d).natAbs ≤ d.natAbs := by
  by_cases nonneg : 0 ≤ d
  · have := decay_nonneg hq h0 nonneg
    have := decay_le hq hs nonneg
    omega
  · have nonpos : d ≤ 0 := by omega
    have := decay_nonpos hq h0 nonpos
    have := le_decay hq hs nonpos
    omega

theorem natAbs_decay (hq : 0 < q) (h0 : 0 ≤ s) (hs : s < q) (h : ¬Settled q d) :
    (decay q s d).natAbs < d.natAbs := by
  by_cases above : 0 < d
  · have nonneg := decay_nonneg hq h0 (Int.le_of_lt above)
    have less : decay q s d < d := by
      apply Int.ediv_lt_of_lt_mul hq
      rw [Int.mul_comm d]
      exact Int.mul_lt_mul_of_pos_right hs above
    omega
  · have below : d ≤ -q := Int.not_lt.1 fun gt => h ⟨gt, Int.not_lt.1 above⟩
    have nonpos := decay_nonpos hq h0 (Int.not_lt.1 above)
    have more : d + 1 ≤ decay q s d := by
      apply (Int.le_ediv_iff_mul_le hq).2
      calc
        (d + 1) * q = q * d + q := by rw [Int.add_mul, Int.one_mul, Int.mul_comm]
        _ ≤ q * d - d := by omega
        _ = (q - 1) * d := by rw [Int.sub_mul, Int.one_mul]
        _ ≤ s * d := Int.mul_le_mul_of_nonpos_right (by omega) (Int.not_lt.1 above)
    omega

end decay

/-- Rounds that come again and again settle the gap, and nothing else moves it. -/
theorem decay_settles {q : Int} {d : Nat → Int} {acts : Nat → Prop} (hq : 0 < q)
    (round : ∀ n, acts n → ∃ s, 0 ≤ s ∧ s < q ∧ d (n + 1) = decay q s (d n))
    (idle : ∀ n, ¬acts n → d (n + 1) = d n) (often : ∀ n, ∃ m, n ≤ m ∧ acts m) :
    ∃ m, ∀ n, m ≤ n → Settled q (d n) := by
  have stay : ∀ n, Settled q (d n) → Settled q (d (n + 1)) := by
    intro n h
    by_cases act : acts n
    · obtain ⟨s, h0, hs, eq⟩ := round n act
      exact eq ▸ h.decay hq h0 (Int.le_of_lt hs)
    · exact idle n act ▸ h
  have less : ∀ n, (d (n + 1)).natAbs ≤ (d n).natAbs := by
    intro n
    by_cases act : acts n
    · obtain ⟨s, h0, hs, eq⟩ := round n act
      exact eq ▸ natAbs_decay_le hq h0 (Int.le_of_lt hs) (d n)
    · exact Nat.le_of_eq (congrArg Int.natAbs (idle n act))
  have never_more : ∀ n m, n ≤ m → (d m).natAbs ≤ (d n).natAbs := by
    intro n m le
    induction le with
    | refl => exact Nat.le_refl _
    | step _ ih => exact Nat.le_trans (less _) ih
  have some_round : ∀ a n, (d n).natAbs ≤ a → ∃ m, Settled q (d m) := by
    intro a
    induction a with
    | zero =>
      intro n h
      have zero : d n = 0 := Int.natAbs_eq_zero.1 (Nat.le_zero.1 h)
      exact ⟨n, by unfold Settled; omega⟩
    | succ a ih =>
      intro n h
      obtain ⟨m, le, act⟩ := often n
      have before := never_more n m le
      by_cases c : Settled q (d m)
      · exact ⟨m, c⟩
      · obtain ⟨s, h0, hs, eq⟩ := round m act
        have closer := natAbs_decay hq h0 hs c
        apply ih (m + 1)
        rw [eq]
        omega
  obtain ⟨m, hm⟩ := some_round _ 0 (Nat.le_refl _)
  refine ⟨m, fun n le => ?_⟩
  induction le with
  | refl => exact hm
  | step _ ih => exact stay _ ih

end Lib
