import Mathlib.Data.Fintype.Card
import Mathlib.Data.Fintype.BigOperators

/-! How many entries of a finite table satisfy a test, and how a store into the table
changes that. -/

universe u v

namespace Lib

variable {ι : Type u} {α : Type v} [Fintype ι]

def tally (p : α → Bool) (g : ι → α) : Nat := (Finset.univ.filter fun i => p (g i) = true).card

theorem tally_eq_sum (p : α → Bool) (g : ι → α) : tally p g = ∑ i, (p (g i)).toNat := by
  rw [tally, Finset.card_filter]
  refine Finset.sum_congr rfl fun i _ => ?_
  cases p (g i) <;> rfl

/-- A store takes the old entry out and puts the new one in. -/
theorem tally_update [DecidableEq ι] (p : α → Bool) (g : ι → α) (i : ι) (a : α) :
    tally p (Function.update g i a) + (p (g i)).toNat = tally p g + (p a).toNat := by
  have others : ∑ j ∈ Finset.univ.erase i, (p (Function.update g i a j)).toNat =
      ∑ j ∈ Finset.univ.erase i, (p (g j)).toNat :=
    Finset.sum_congr rfl fun j hj => by rw [Function.update_of_ne (Finset.ne_of_mem_erase hj)]
  rw [tally_eq_sum, tally_eq_sum, ← Finset.add_sum_erase _ _ (Finset.mem_univ i),
    ← Finset.add_sum_erase _ (fun j => (p (g j)).toNat) (Finset.mem_univ i), others, Function.update_self]
  omega

theorem tally_const (p : α → Bool) (a : α) (h : p a = false) : tally p (fun _ : ι => a) = 0 := by
  rw [tally, Finset.card_eq_zero, Finset.filter_eq_empty_iff]
  intro _ _
  rw [h]
  exact Bool.false_ne_true

/-- Some entry fails the test as long as not all are counted. -/
theorem tally_lt_card {p : α → Bool} {g : ι → α} :
    tally p g < Fintype.card ι ↔ ∃ i, p (g i) = false := by
  constructor
  · intro h
    by_contra none
    have all : (Finset.univ.filter fun i => p (g i) = true) = Finset.univ :=
      Finset.filter_true_of_mem fun i _ => by
        rw [← Bool.not_eq_false]
        exact fun hi => none ⟨i, hi⟩
    rw [tally, all, Finset.card_univ] at h
    exact absurd h (lt_irrefl _)
  · rintro ⟨i, hi⟩
    refine Finset.card_lt_univ_of_notMem (x := i) fun h => ?_
    rw [(Finset.mem_filter.mp h).2] at hi
    cases hi

theorem tally_eq_zero {p : α → Bool} {g : ι → α} : tally p g = 0 ↔ ∀ i, p (g i) = false := by
  rw [tally, Finset.card_eq_zero, Finset.filter_eq_empty_iff]
  simp only [Finset.mem_univ, Bool.not_eq_true, true_implies]

end Lib
