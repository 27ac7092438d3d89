import En675.Lib.Lag
import Mathlib.Algebra.Ring.Int.Defs
import Mathlib.Algebra.Ring.Nat

/-! The IIR filter of the exposure control (`IIRI`, `IIRR`, `IIROu`), in `int`s of 32 bits whose overflow is
undefined. -/

namespace En675.Isp

open Lib

/-- `IIG`. -/
def iig : Nat := 13

/-- `IKG`. -/
def ikg : Nat := 7

/-- An `int`, where there is one. -/
def int32 (n : Int) : Option Int := if -2 ^ 31 ≤ n ∧ n < 2 ^ 31 then some n else none

/-- `IIRI`. -/
def iiri (x : Int) : Option Int := int32 (x * 2 ^ (iig + ikg))

/-- `IIRR`. -/
def iirr (k x yp : Int) : Option Int := do
  let level ← int32 (x * 2 ^ iig)
  let new ← int32 (k * level)
  let rest ← int32 (2 ^ ikg - k)
  let old ← int32 (rest * (yp >>> ikg))
  int32 (new + old)

/-- `IIROu`. -/
def iirou (y : Int) : Int := y >>> (iig + ikg) + y >>> (iig + ikg - 1) % 2

/-- `Y` after the first `n` of `IIRR(Y,K,X,Y)`. -/
def iirRun (x k : Nat → Int) : Nat → Option Int
  | 0 => iiri (x 0)
  | n + 1 => do iirr (k n) (x (n + 1)) (← iirRun x k n)

theorem int32_fits {n : Int} (lo : -2 ^ 31 ≤ n) (hi : n < 2 ^ 31) : int32 n = some n := if_pos ⟨lo, hi⟩

section round

variable {k x y l : Int}

/-- What `IIRR` computes where nothing overflows. -/
def iirNext (k x y : Int) : Int := k * (x * 2 ^ iig) + (2 ^ ikg - k) * (y / 2 ^ ikg)

/-- The gap of `y` to a level. -/
def gap (l y : Int) : Int := y - 2 ^ ikg * (l * 2 ^ iig)

theorem gap_eq (l y : Int) : gap l y = y - l * 2 ^ 20 := by
  unfold gap ikg iig
  omega

/-- The gap to a level is a lag, moved by how far the input is off the level. -/
theorem gap_next (k x l y : Int) :
    gap l (iirNext k x y) = k * ((x - l) * 2 ^ iig) + lag (2 ^ ikg) k (gap l y) := by
  have level := lag_level (q := 2 ^ ikg) (by decide) k (l * 2 ^ iig) y
  unfold gap iirNext
  rw [Int.sub_mul x l, Int.mul_sub k]
  omega

theorem gap_next_self (k x y : Int) : gap x (iirNext k x y) = lag (2 ^ ikg) k (gap x y) := by
  rw [gap_next, Int.sub_self, Int.zero_mul, Int.mul_zero, Int.zero_add]

theorem gap_next_nonpos (h0 : 0 ≤ k) (hk : k ≤ 2 ^ ikg) (hx : x ≤ l) (h : gap l y ≤ 0) :
    gap l (iirNext k x y) ≤ 0 := by
  have off : (x - l) * 2 ^ iig ≤ 0 := Int.mul_nonpos_of_nonpos_of_nonneg (by omega) (by decide)
  have part : k * ((x - l) * 2 ^ iig) ≤ 0 := Int.mul_nonpos_of_nonneg_of_nonpos h0 off
  have rest := lag_nonpos (q := 2 ^ ikg) (by decide) hk h
  rw [gap_next]
  omega

theorem dead_le_gap_next (h1 : 1 ≤ k) (hk : k ≤ 2 ^ ikg) (hx : l ≤ x) (h : -dead (2 ^ ikg) ≤ gap l y) :
    -dead (2 ^ ikg) ≤ gap l (iirNext k x y) := by
  have off : 0 ≤ (x - l) * 2 ^ iig := Int.mul_nonneg (by omega) (by decide)
  have part : 0 ≤ k * ((x - l) * 2 ^ iig) := Int.mul_nonneg (by omega) off
  have rest := dead_le_lag (q := 2 ^ ikg) (by decide) h1 hk h
  rw [gap_next]
  omega

/-- The values of `Y`. -/
def Ranged (y : Int) : Prop := 0 ≤ y ∧ y ≤ 2047 * 2 ^ 20

theorem iirr_eq (h1 : 1 ≤ k) (hk : k ≤ 128) (hx : 0 ≤ x ∧ x ≤ 2047) (hy : Ranged y) :
    iirr k x y = some (iirNext k x y) ∧ Ranged (iirNext k x y) := by
  have level : 0 ≤ x * 2 ^ iig ∧ x * 2 ^ iig ≤ 2047 * 2 ^ 13 := by
    unfold iig
    omega
  have part : 0 ≤ y / 2 ^ ikg ∧ y / 2 ^ ikg ≤ 2047 * 2 ^ 13 := by
    unfold Ranged at hy
    unfold ikg
    omega
  have old_nonneg : 0 ≤ (2 ^ ikg - k) * (y / 2 ^ ikg) := Int.mul_nonneg (by unfold ikg; omega) part.1
  have new_nonneg : 0 ≤ k * (x * 2 ^ iig) := Int.mul_nonneg (by omega) level.1
  have new_le : k * (x * 2 ^ iig) ≤ k * (2047 * 2 ^ 13) := Int.mul_le_mul_of_nonneg_left level.2 (by omega)
  have old_le : (2 ^ ikg - k) * (y / 2 ^ ikg) ≤ (2 ^ ikg - k) * (2047 * 2 ^ 13) :=
    Int.mul_le_mul_of_nonneg_left part.2 (by unfold ikg; omega)
  have whole : (2 ^ ikg - k) * (2047 * 2 ^ 13) = 2047 * 2 ^ 20 - k * (2047 * 2 ^ 13) := by
    unfold ikg
    omega
  have fits : Ranged (iirNext k x y) := by
    unfold Ranged iirNext
    omega
  refine ⟨?_, fits⟩
  unfold iirr
  simp only [Option.bind_eq_bind, Int.shiftRight_eq_div_pow]
  rw [int32_fits (by omega) (by omega), Option.bind_some, int32_fits (by omega) (by omega), Option.bind_some,
    int32_fits (by unfold ikg; omega) (by unfold ikg; omega), Option.bind_some]
  change (int32 ((2 ^ ikg - k) * (y / 2 ^ ikg))).bind _ = _
  rw [int32_fits (by omega) (by omega), Option.bind_some]
  exact int32_fits (by unfold Ranged iirNext at fits; omega) (by unfold Ranged iirNext at fits; omega)

/-- A closed gap is less than half of an output unit. -/
theorem iirou_closed (h : Closed (2 ^ ikg) (gap x y)) : iirou y = x := by
  obtain ⟨lo, hi⟩ := h
  rw [gap_eq] at lo hi
  have half : dead (2 ^ ikg) = 16256 := rfl
  unfold iirou iig ikg
  rw [Int.shiftRight_eq_div_pow, Int.shiftRight_eq_div_pow]
  omega

end round

/-- `Y` in whole numbers without bound. -/
def iirSeq (x k : Nat → Int) : Nat → Int
  | 0 => x 0 * 2 ^ 20
  | n + 1 => iirNext (k n) (x (n + 1)) (iirSeq x k n)

section run

variable {x k : Nat → Int}

/-- Nothing overflows. -/
theorem iirRun_eq (hx : ∀ n, 0 ≤ x n ∧ x n ≤ 2047) (hk : ∀ n, 1 ≤ k n ∧ k n ≤ 128) (n : Nat) :
    iirRun x k n = some (iirSeq x k n) ∧ Ranged (iirSeq x k n) := by
  induction n with
  | zero =>
    have input := hx 0
    exact ⟨int32_fits (by unfold iig ikg; omega) (by unfold iig ikg; omega),
      by unfold iirSeq Ranged; omega⟩
  | succ n ih =>
    obtain ⟨eq, ranged⟩ := iirr_eq (hk n).1 (hk n).2 (hx (n + 1)) ih.2
    refine ⟨?_, ranged⟩
    rw [iirRun, ih.1]
    exact eq

theorem iirSeq_le (hk : ∀ n, 1 ≤ k n ∧ k n ≤ 128) {hi : Int} (n : Nat) (h : ∀ i ≤ n, x i ≤ hi) :
    gap hi (iirSeq x k n) ≤ 0 := by
  induction n with
  | zero =>
    have first := h 0 (Nat.le_refl _)
    rw [gap_eq, iirSeq]
    omega
  | succ n ih =>
    have before := ih fun i le => h i (Nat.le_succ_of_le le)
    exact gap_next_nonpos (Int.le_trans (by decide) (hk n).1) (hk n).2 (h _ (Nat.le_refl _)) before

theorem le_iirSeq (hk : ∀ n, 1 ≤ k n ∧ k n ≤ 128) {lo : Int} (n : Nat) (h : ∀ i ≤ n, lo ≤ x i) :
    -dead (2 ^ ikg) ≤ gap lo (iirSeq x k n) := by
  induction n with
  | zero =>
    have first := h 0 (Nat.le_refl _)
    have half : dead (2 ^ ikg) = 16256 := rfl
    rw [gap_eq, iirSeq]
    omega
  | succ n ih =>
    have before := ih fun i le => h i (Nat.le_succ_of_le le)
    exact dead_le_gap_next (hk n).1 (hk n).2 (h _ (Nat.le_refl _)) before

/-- A constant input comes out, and stays. -/
theorem iirSeq_settles (hk : ∀ n, 1 ≤ k n ∧ k n ≤ 128) {m : Nat} {l : Int} (same : ∀ n, m ≤ n → x n = l) :
    ∃ N, ∀ n, N ≤ n → iirou (iirSeq x k n) = l := by
  have closes : ∃ N, ∀ n, N ≤ n → Closed (2 ^ ikg) (gap l (iirSeq x k (m + n))) := by
    apply lag_settles (k := fun n => k (m + n)) (by decide) fun n => hk (m + n)
    intro n
    have input := same (m + n + 1) (by omega)
    change gap l (iirNext (k (m + n)) (x (m + n + 1)) (iirSeq x k (m + n))) = _
    rw [input]
    exact gap_next_self _ _ _
  obtain ⟨N, closed⟩ := closes
  refine ⟨m + N, fun n le => ?_⟩
  obtain ⟨j, rfl⟩ := Nat.exists_eq_add_of_le (Nat.le_trans (Nat.le_add_right m N) le)
  exact iirou_closed (closed j (Nat.le_of_add_le_add_left le))

/-- The filter does not overflow, stays between its inputs but for the dead gap, and does not stick. -/
theorem iir_sound (x k : Nat → Int) (hx : ∀ n, 0 ≤ x n ∧ x n ≤ 2047) (hk : ∀ n, 1 ≤ k n ∧ k n ≤ 128) :
    ∃ y : Nat → Int,
      (∀ n, iirRun x k n = some (y n)) ∧
      (∀ n lo hi, (∀ i ≤ n, lo ≤ x i ∧ x i ≤ hi) → lo * 2 ^ 20 - 16256 ≤ y n ∧ y n ≤ hi * 2 ^ 20) ∧
      ∀ m l, (∀ n, m ≤ n → x n = l) → ∃ N, ∀ n, N ≤ n → iirou (y n) = l := by
  refine ⟨iirSeq x k, fun n => (iirRun_eq hx hk n).1, ?_, fun m l same => iirSeq_settles hk same⟩
  intro n lo hi inputs
  have below := le_iirSeq hk n fun i le => (inputs i le).1
  have above := iirSeq_le hk n fun i le => (inputs i le).2
  have half : dead (2 ^ ikg) = 16256 := rfl
  rw [gap_eq] at below above
  exact ⟨by omega, by omega⟩

theorem iir_sound_step :
    ∃ y : Nat → Int,
      (∀ n, iirRun (fun n => if n < 3 then 2047 else 5) (fun _ => 2) n = some (y n)) ∧
      (∀ n lo hi, (∀ i ≤ n, lo ≤ (if i < 3 then (2047 : Int) else 5) ∧ (if i < 3 then (2047 : Int) else 5) ≤ hi) →
        lo * 2 ^ 20 - 16256 ≤ y n ∧ y n ≤ hi * 2 ^ 20) ∧
      ∀ m l, (∀ n, m ≤ n → (if n < 3 then (2047 : Int) else 5) = l) → ∃ N, ∀ n, N ≤ n → iirou (y n) = l :=
  iir_sound (fun n => if n < 3 then 2047 else 5) (fun _ => 2)
    (fun n => by split <;> decide) (fun _ => by decide)

end run

end En675.Isp
