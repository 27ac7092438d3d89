import Mathlib.Data.List.Range
import Mathlib.Logic.Function.Basic
import Mathlib.Tactic.Common

/-! A memory whose writes stay in one page: after each item the low part of the address is
incremented, and rolls over at the end of the page. -/

universe u

namespace Lib.Paged

variable {β : Type u} (p : Nat)

def roll (a : Nat) : Nat := a / p * p + (a + 1) % p

def write : Nat → List β → (Nat → β) → Nat → β
  | _, [], mem => mem
  | a, b :: bs, mem => write (roll p a) bs (Function.update mem a b)

/-- `mem` with the items of `bs` from `a` on. -/
def splice (a : Nat) (bs : List β) (mem : Nat → β) (x : Nat) : β :=
  if a ≤ x then bs[x - a]?.getD (mem x) else mem x

@[simp] theorem write_nil (a : Nat) (mem : Nat → β) : write p a [] mem = mem := rfl

@[simp] theorem splice_nil (a : Nat) (mem : Nat → β) : splice a [] mem = mem := by
  funext x
  simp [splice]

theorem splice_cons (a : Nat) (b : β) (bs : List β) (mem : Nat → β) :
    splice (a + 1) bs (Function.update mem a b) = splice a (b :: bs) mem := by
  funext x
  rcases Nat.lt_trichotomy x a with h | rfl | h
  · simp [splice, Nat.not_le.mpr h, Nat.not_le.mpr (Nat.lt_succ_of_lt h), Function.update_of_ne h.ne]
  · simp [splice]
  · have hx : x - a = x - (a + 1) + 1 := by omega
    simp [splice, Nat.succ_le_of_lt h, h.le, hx, Function.update_of_ne h.ne']

theorem splice_append (a : Nat) (bs cs : List β) (mem : Nat → β) :
    splice (a + bs.length) cs (splice a bs mem) = splice a (bs ++ cs) mem := by
  induction bs generalizing a mem with
  | nil => simp
  | cons b bs ih =>
    rw [List.cons_append, ← splice_cons, ← splice_cons, ← ih, List.length_cons]
    congr 1
    omega

theorem roll_of_lt (hp : 0 < p) {a : Nat} (h : a % p + 1 < p) : roll p a = a + 1 := by
  have := Nat.div_add_mod a p
  rw [roll, Nat.add_mod, Nat.mod_eq_of_lt (by omega : 1 < p), Nat.mod_eq_of_lt h, Nat.mul_comm]
  omega

/-- A write that fits in what is left of its page does not roll over. -/
theorem write_eq_splice (hp : 0 < p) (bs : List β) {a : Nat} (h : a % p + bs.length ≤ p)
    (mem : Nat → β) : write p a bs mem = splice a bs mem := by
  induction bs generalizing a mem with
  | nil => simp
  | cons b bs ih =>
    rw [write, ← splice_cons]
    cases bs with
    | nil => simp
    | cons c cs =>
      simp only [List.length_cons] at h
      have hr : roll p a = a + 1 := roll_of_lt p hp (by omega)
      have hm : (a + 1) % p = a % p + 1 := by
        rw [Nat.add_mod, Nat.mod_eq_of_lt (by omega : 1 < p), Nat.mod_eq_of_lt (by omega)]
      rw [hr]
      apply ih
      simp only [List.length_cons]
      omega

theorem roll_div (hp : 0 < p) (a : Nat) : roll p a / p = a / p := by
  rw [roll, Nat.add_comm, Nat.add_mul_div_right _ _ hp, Nat.div_eq_of_lt (Nat.mod_lt _ hp),
    Nat.zero_add]

theorem roll_mod (a n : Nat) : (roll p a + n) % p = (a + (n + 1)) % p := by
  rw [roll, Nat.add_assoc, Nat.mul_comm, Nat.mul_add_mod, Nat.mod_add_mod]
  congr 1
  omega

/-- The cells that `n` items from `a` on go to. -/
def Covers (a n x : Nat) : Prop := ∃ i < n, x = a / p * p + (a + i) % p

theorem covers_succ (hp : 0 < p) (a n x : Nat) :
    Covers p a (n + 1) x ↔ x = a ∨ Covers p (roll p a) n x := by
  constructor
  · rintro ⟨i, hi, rfl⟩
    cases i with
    | zero =>
      left
      rw [Nat.add_zero, Nat.mul_comm, Nat.div_add_mod]
    | succ i => exact .inr ⟨i, by omega, by rw [roll_div p hp, roll_mod]⟩
  · rintro (rfl | ⟨i, hi, rfl⟩)
    · exact ⟨0, by omega, by rw [Nat.add_zero, Nat.mul_comm, Nat.div_add_mod]⟩
    · exact ⟨i + 1, by omega, by rw [roll_div p hp, roll_mod]⟩

theorem write_replicate (hp : 0 < p) (n a : Nat) (b : β) (mem : Nat → β) (x : Nat) :
    (Covers p a n x → write p a (.replicate n b) mem x = b) ∧
      (¬Covers p a n x → write p a (.replicate n b) mem x = mem x) := by
  induction n generalizing a mem with
  | zero => exact ⟨fun ⟨_, h, _⟩ => absurd h (by omega), fun _ => rfl⟩
  | succ n ih =>
    rw [List.replicate_succ, write, covers_succ p hp]
    by_cases h : Covers p (roll p a) n x
    · exact ⟨fun _ => (ih _ _).1 h, fun hn => absurd (.inr h) hn⟩
    · rw [(ih _ _).2 h]
      constructor
      · rintro (rfl | h')
        · simp
        · exact absurd h' h
      · intro hn
        exact Function.update_of_ne (fun e => hn (.inl e)) _ _

end Lib.Paged
