import En675.Lib.Word
import Mathlib.Data.Nat.Bitwise

/-! Words of many small fields, by their bits: shifts, complements, and copies of one value side by side. -/

namespace Lib

/-- All `w` bits of a word are turned. -/
def wnot (w v : Nat) : Nat := 2 ^ w - (v + 1)

/-- What a word of `w` bits keeps of a shift to the left. -/
def wshl (w v n : Nat) : Nat := v <<< n % 2 ^ w

/-- `n` copies of a value, one every `s` bits. -/
def spread (w s v : Nat) : Nat → Nat
  | 0 => 0
  | n + 1 => spread w s v n ||| wshl w v (s * n)

section bits

variable {w s v n i : Nat}

theorem testBit_wnot (h : v < 2 ^ w) (i : Nat) : (wnot w v).testBit i = (decide (i < w) && !v.testBit i) :=
  Nat.testBit_two_pow_sub_succ h i

theorem wshl_lt (w v n : Nat) : wshl w v n < 2 ^ w := Nat.mod_lt _ (Nat.two_pow_pos w)

theorem testBit_wshl (w v n i : Nat) :
    (wshl w v n).testBit i = (decide (i < w) && (decide (n ≤ i) && v.testBit (i - n))) := by
  unfold wshl
  rw [Nat.testBit_mod_two_pow, Nat.testBit_shiftLeft]

/-- A bit is set where one of the copies sets it. -/
theorem testBit_spread :
    (spread w s v n).testBit i = true ↔ i < w ∧ ∃ k < n, s * k ≤ i ∧ v.testBit (i - s * k) = true := by
  induction n with
  | zero => simp [spread]
  | succ n ih =>
    simp only [spread, Nat.testBit_or, Bool.or_eq_true, ih, testBit_wshl, Bool.and_eq_true, decide_eq_true_eq]
    constructor
    · rintro (⟨lt, k, hk, le, set⟩ | ⟨lt, le, set⟩)
      · exact ⟨lt, k, Nat.lt_succ_of_lt hk, le, set⟩
      · exact ⟨lt, n, Nat.lt_succ_self n, le, set⟩
    · rintro ⟨lt, k, hk, le, set⟩
      rcases Nat.lt_succ_iff_lt_or_eq.1 hk with hk | rfl
      · exact .inl ⟨lt, k, hk, le, set⟩
      · exact .inr ⟨lt, le, set⟩

/-- In lane `k` the copies that are at most `k` lanes below are seen. -/
theorem testBit_spread_lane {k b : Nat} (hb : b < s) : (spread w s v n).testBit (s * k + b) = true ↔
    s * k + b < w ∧ ∃ d ≤ k, k - d < n ∧ v.testBit (s * d + b) = true := by
  have split_ : ∀ j ≤ k, s * k + b - s * j = s * (k - j) + b := by
    intro j hj
    have := Nat.mul_le_mul_left s hj
    rw [Nat.mul_sub]
    omega
  rw [testBit_spread]
  refine and_congr_right fun _ => ⟨?_, ?_⟩
  · rintro ⟨j, hj, le, set⟩
    have jk : j ≤ k := by
      by_contra gt
      have := Nat.mul_le_mul_left s (Nat.not_le.1 gt)
      rw [Nat.mul_succ] at this
      omega
    rw [split_ j jk] at set
    exact ⟨k - j, Nat.sub_le k j, by omega, set⟩
  · rintro ⟨d, hd, lt, set⟩
    refine ⟨k - d, lt, ?_, ?_⟩
    · have := Nat.mul_le_mul_left s (Nat.sub_le k d)
      omega
    · rw [split_ _ (Nat.sub_le k d), Nat.sub_sub_self hd]
      exact set

theorem spread_one_succ (w v n : Nat) : spread w 1 v (n + 1) = spread w 1 v n ||| wshl w v n := by
  rw [spread, Nat.one_mul]

/-- The lowest `n` bits. -/
theorem testBit_ones (h : n ≤ w) (i : Nat) : (spread w 1 1 n).testBit i = decide (i < n) := by
  rw [Bool.eq_iff_iff, testBit_spread, decide_eq_true_eq]
  constructor
  · rintro ⟨-, k, hk, le, set⟩
    have zero := Nat.testBit_one_eq_true_iff_self_eq_zero.1 set
    omega
  · intro hi
    exact ⟨by omega, i, hi, by omega, by simp⟩

end bits

/-- Two halves of a word. -/
def Halves (n w hi lo : Nat) : Prop := w / 2 ^ n = hi ∧ w % 2 ^ n = lo

theorem halves_or {n hi lo : Nat} (h : lo < 2 ^ n) : Halves n (lo ||| hi <<< n) hi lo := by
  rw [Nat.or_comm, shl_or hi h, Nat.mul_comm]
  exact ⟨by rw [Nat.mul_add_div (Nat.two_pow_pos n), Nat.div_eq_of_lt h, Nat.add_zero],
    by rw [Nat.mul_add_mod, Nat.mod_eq_of_lt h]⟩

/-- Three bytes of a word. -/
structure Bytes3 (w a b c : Nat) : Prop where
  top : w / 2 ^ 16 % 2 ^ 8 = a
  mid : w / 2 ^ 8 % 2 ^ 8 = b
  low : w % 2 ^ 8 = c

/-- They are kept where each is a byte. -/
theorem bytes3_iff {a b c : Nat} :
    Bytes3 (a <<< 16 ||| b <<< 8 ||| c) a b c ↔ a < 2 ^ 8 ∧ b < 2 ^ 8 ∧ c < 2 ^ 8 := by
  constructor
  · intro h
    exact ⟨h.top ▸ Nat.mod_lt _ (by decide), h.mid ▸ Nat.mod_lt _ (by decide), h.low ▸ Nat.mod_lt _ (by decide)⟩
  · rintro ⟨ha, hb, hc⟩
    have eq : a <<< 16 ||| b <<< 8 ||| c = a * 2 ^ 16 + b * 2 ^ 8 + c := by
      rw [Nat.or_assoc, shl_or b hc, shl_or a (by omega)]
      omega
    rw [eq]
    exact ⟨by omega, by omega, by omega⟩

end Lib
