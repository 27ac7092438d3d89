import En675.Lib.Radix
import En675.Lib.Word

/-! The parameters as they are written and read over the wire: decimal digits in hexadecimal places. -/

namespace En675.Isp

open Lib

/-- The variables of the loop of `hex2dec`. -/
structure HexDec where
  d : Nat
  dec : Nat

/-- Round `i` of `hex2dec`; a digit that is not decimal sets all that is below it. -/
def hex2decRound (hex : Nat) (s : HexDec) (i : Nat) : HexDec :=
  let digit := hex >>> i &&& 0xf
  ⟨umul s.d 10, if digit < 0xa then uadd s.dec (umul digit s.d) else usub (umul s.d 10) 1⟩

def hex2decRounds (hex n : Nat) : HexDec := (List.range n).foldl (fun s j => hex2decRound hex s (4 * j)) ⟨1, 0⟩

def hex2dec (hex : Nat) : Nat := (hex2decRounds hex 8).dec

/-- The variables of the loop of `dec2hex`. -/
structure DecHex where
  h : Nat
  hex : Nat
  dec : Nat

def dec2hexRound (s : DecHex) : DecHex :=
  let nMod := s.dec / 10
  ⟨umul s.h 16, uadd s.hex (umul (usub s.dec (umul nMod 10)) s.h), nMod⟩

def dec2hexRounds (dec n : Nat) : DecHex := (List.range n).foldl (fun s _ => dec2hexRound s) ⟨1, 0, dec⟩

def dec2hex (dec : Nat) : Nat := (dec2hexRounds dec 8).hex

/-- Nothing overflows in round `i` of `hex2dec`. -/
structure HexDec.Room (hex i : Nat) (s : HexDec) : Prop where
  part : hex >>> i &&& 0xf < 0xa → (hex >>> i &&& 0xf) * s.d < 2 ^ 32 ∧ s.dec + (hex >>> i &&& 0xf) * s.d < 2 ^ 32
  next : 1 ≤ s.d * 10 ∧ s.d * 10 < 2 ^ 32

/-- The eight digits are decimal ones. -/
def Decimal (hex : Nat) : Prop := ∀ j, j < 8 → hex >>> (4 * j) &&& 0xf < 0xa

section rounds

variable {hex dec n : Nat}

theorem digit_eq (hex j : Nat) : hex >>> (4 * j) &&& 0xf = digit 16 hex j := by
  have base : 2 ^ (4 * j) = 16 ^ j := Nat.pow_mul 2 4 j
  unfold digit
  rw [Nat.shiftRight_eq_div_pow, base]
  exact Nat.and_two_pow_sub_one_eq_mod _ 4

theorem decimal_iff : Decimal hex ↔ Plain 10 16 hex 8 := by
  unfold Decimal Plain
  simp only [digit_eq]

theorem pow_ten_le (h : n ≤ 8) : 1 ≤ 10 ^ n ∧ 10 ^ n ≤ 10 ^ 8 :=
  ⟨Nat.pow_pos (by decide), Nat.pow_le_pow_right (by decide) h⟩

/-- The numbers of a round, before the next power. -/
theorem hex2dec_room (h : n < 8) : HexDec.Room hex (4 * n) ⟨10 ^ n, floorTo 10 16 hex n⟩ := by
  have pow := pow_ten_le (Nat.le_of_lt h)
  have next := pow_ten_le h
  have low := floorTo_lt (by decide : 0 < 10) 16 hex n
  rw [Nat.pow_succ] at next
  constructor
  · intro small
    rw [digit_eq] at small ⊢
    have top := top_lt low small
    rw [Nat.mul_comm (10 ^ n), Nat.pow_succ] at top
    dsimp only
    omega
  · dsimp only
    omega

theorem hex2decRounds_eq (h : n ≤ 8) : hex2decRounds hex n = ⟨10 ^ n, floorTo 10 16 hex n⟩ := by
  induction n with
  | zero => rfl
  | succ n ih =>
    obtain ⟨part, next⟩ := @hex2dec_room hex n h
    have before := ih (Nat.le_of_succ_le h)
    unfold hex2decRounds at before ⊢
    rw [List.range_succ, List.foldl_append, before, List.foldl_cons, List.foldl_nil]
    unfold hex2decRound
    dsimp only at part next ⊢
    rw [umul_of_lt next.2, floorTo, ← Nat.pow_succ]
    rw [digit_eq] at part ⊢
    refine congrArg (HexDec.mk _) ?_
    split
    · rename_i small
      rw [umul_of_lt (part small).1, uadd_of_lt (part small).2, Nat.mul_comm]
    · rw [Nat.pow_succ, usub_of_le next.1 next.2]

theorem hex2dec_eq (hex : Nat) : hex2dec hex = floorTo 10 16 hex 8 :=
  congrArg HexDec.dec (hex2decRounds_eq (Nat.le_refl 8))

/-- The last power is `0`, and is not used. -/
theorem dec2hexRounds_eq (hd : dec < 2 ^ 32) (h : n ≤ 8) :
    dec2hexRounds dec n = ⟨16 ^ n % 2 ^ 32, spell 10 16 dec n, dec / 10 ^ n⟩ := by
  induction n with
  | zero =>
    simp only [Nat.pow_zero, Nat.div_one]
    rfl
  | succ n ih =>
    have before := ih (Nat.le_of_succ_le h)
    have small : 16 ^ n ≤ 16 ^ 7 := Nat.pow_le_pow_right (by decide) (by omega)
    have low := spell_lt (by decide : 0 < 10) (by decide : 10 ≤ 16) dec n
    have less : digit 10 dec n < 10 := digit_lt (by decide)
    have rest : dec / 10 ^ n ≤ dec := Nat.div_le_self ..
    have last : dec / 10 ^ n - dec / 10 ^ n / 10 * 10 = digit 10 dec n := by
      unfold digit
      omega
    have part : digit 10 dec n * 16 ^ n ≤ 9 * 16 ^ 7 := Nat.mul_le_mul (by omega) small
    have place : digit 10 dec n * 16 ^ n < 2 ^ 32 := by omega
    have sum : spell 10 16 dec n + digit 10 dec n * 16 ^ n < 2 ^ 32 := by omega
    unfold dec2hexRounds at before ⊢
    rw [List.range_succ, List.foldl_append, before, List.foldl_cons, List.foldl_nil]
    unfold dec2hexRound
    dsimp only
    rw [Nat.mod_eq_of_lt (by omega : 16 ^ n < 2 ^ 32), umul_of_lt (by omega : dec / 10 ^ n / 10 * 10 < 2 ^ 32),
      usub_of_le (by omega) (by omega), last, umul_of_lt place, uadd_of_lt sum, spell, Nat.mul_comm (digit 10 dec n),
      Nat.div_div_eq_div_mul, ← Nat.pow_succ]
    rfl

theorem dec2hex_eq (h : dec < 2 ^ 32) : dec2hex dec = spell 10 16 dec 8 :=
  congrArg DecHex.hex (dec2hexRounds_eq h (Nat.le_refl 8))

theorem hex2dec_lt (hex : Nat) : hex2dec hex < 10 ^ 8 := by
  rw [hex2dec_eq]
  exact floorTo_lt (by decide) 16 hex 8

/-- What is read of what was written. -/
theorem dec2hex_hex2dec (hex : Nat) : dec2hex (hex2dec hex) = spell 10 16 (floorTo 10 16 hex 8) 8 := by
  rw [dec2hex_eq (Nat.lt_trans (hex2dec_lt hex) (by decide)), hex2dec_eq]

end rounds

/-- The two views are adjoint, and a digit that is not decimal is rounded down. -/
theorem hexDec_adjoint :
    (∀ n h, n < 10 ^ 8 → h < 2 ^ 32 → (n ≤ hex2dec h ↔ dec2hex n ≤ h)) ∧
      (∀ n, n < 10 ^ 8 → hex2dec (dec2hex n) = n) ∧
      (∀ h, h < 2 ^ 32 → Decimal h → dec2hex (hex2dec h) = h) ∧
      (∀ h, h < 2 ^ 32 → hex2dec h ≤ 99999999 ∧ ∀ i, i < 8 → (hex2decRounds h i).Room h (4 * i)) ∧
      (∀ h, h < 2 ^ 32 → IsGreatest {x | Decimal x ∧ x ≤ h} (dec2hex (hex2dec h))) ∧
      ∀ h h', h ≤ h' → h' < 2 ^ 32 → hex2dec h ≤ hex2dec h' := by
  have b : 0 < 10 := by decide
  have le : 10 ≤ 16 := by decide
  have adjoint : ∀ n h, n < 10 ^ 8 → h < 2 ^ 32 → (n ≤ hex2dec h ↔ dec2hex n ≤ h) := by
    intro n h hn hh
    have iff := le_floorTo_iff b le n h 8
    rw [Nat.mod_eq_of_lt hn, Nat.mod_eq_of_lt (by omega)] at iff
    rw [hex2dec_eq, dec2hex_eq (by omega)]
    exact iff
  refine ⟨adjoint, ?_, ?_, ?_, ?_, ?_⟩
  · intro n hn
    rw [hex2dec_eq, dec2hex_eq (by omega), floorTo_spell b le, Nat.mod_eq_of_lt hn]
  · intro h hh plain
    rw [dec2hex_hex2dec, spell_floorTo b (decimal_iff.1 plain), Nat.mod_eq_of_lt (by omega)]
  · intro h _
    have lt := hex2dec_lt h
    refine ⟨by omega, fun i hi => ?_⟩
    rw [hex2decRounds_eq (Nat.le_of_lt hi)]
    exact hex2dec_room hi
  · intro h hh
    simp only [decimal_iff, dec2hex_hex2dec]
    exact isGreatest_spell b le (by omega)
  · intro h h' less hh
    have lt := hex2dec_lt h
    have down := (adjoint (hex2dec h) h lt (by omega)).1 (Nat.le_refl _)
    exact (adjoint (hex2dec h) h' lt hh).2 (Nat.le_trans down less)

example : hex2dec 0x12a4 = 1299 := by decide

end En675.Isp
