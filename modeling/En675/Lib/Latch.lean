import Mathlib.Logic.ExistsUnique

/-! A latch that is held: it counts its rounds, and from a number of them on it may fire, once. -/

namespace Lib

/-- What becomes of the count and the mark from `on` on. -/
structure Latch (acts fires : Nat → Prop) (cnt done : Nat → Nat) (k cap on : Nat) : Prop where
  room : k ≤ cap
  start : done on = 0
  acting : ∀ n, fires n → acts n
  fire : ∀ n, on ≤ n → fires n → done n = 0 ∧ done (n + 1) ≠ 0
  rest : ∀ n, on ≤ n → ¬fires n → done (n + 1) = done n
  push : ∀ n, on ≤ n → acts n → ¬fires n → cnt (n + 1) = min (cnt n + 1) cap
  idle : ∀ n, on ≤ n → ¬acts n → cnt (n + 1) = cnt n

namespace Latch

variable {acts fires : Nat → Prop} {cnt done : Nat → Nat} {k cap on : Nat}

theorem marked (h : Latch acts fires cnt done k cap on) {m n : Nat} (hm : on ≤ m) (fired : fires m) (lt : m < n) :
    done n ≠ 0 := by
  induction lt with
  | refl => exact (h.fire m hm fired).2
  | @step n lt ih =>
    have le : on ≤ n := Nat.le_trans hm (Nat.le_of_lt lt)
    by_cases again : fires n
    · exact absurd (h.fire n le again).1 ih
    · rw [h.rest n le again]
      exact ih

theorem unmarked (h : Latch acts fires cnt done k cap on) {n : Nat} (le : on ≤ n) (never : ∀ m, on ≤ m → ¬fires m) :
    done n = 0 := by
  induction le with
  | refl => exact h.start
  | @step n le ih => rw [h.rest n le (never n le), ih]

theorem counts (h : Latch acts fires cnt done k cap on) {m n : Nat} (hm : on ≤ m) (le : m ≤ n)
    (never : ∀ m, on ≤ m → ¬fires m) : min (cnt m) cap ≤ cnt n := by
  induction le with
  | refl => exact Nat.min_le_left _ _
  | @step n le ih =>
    have after : on ≤ n := Nat.le_trans hm le
    by_cases act : acts n
    · rw [h.push n after act (never n after)]
      omega
    · rw [h.idle n after act]
      exact ih

/-- The count gets as far as it has to. -/
theorem reaches (h : Latch acts fires cnt done k cap on) (often : ∀ n, ∃ m, n ≤ m ∧ acts m)
    (never : ∀ m, on ≤ m → ¬fires m) : ∃ m, on ≤ m ∧ k ≤ cnt m := by
  have some_count : ∀ j, j ≤ k → ∃ m, on ≤ m ∧ j ≤ cnt m := by
    intro j
    induction j with
    | zero => exact fun _ => ⟨on, Nat.le_refl _, Nat.zero_le _⟩
    | succ j ih =>
      intro le
      obtain ⟨m, hm, hj⟩ := ih (by omega)
      obtain ⟨n, hn, act⟩ := often m
      have kept := h.counts hm hn never
      have room := h.room
      refine ⟨n + 1, by omega, ?_⟩
      rw [h.push n (by omega) act (never n (by omega))]
      omega
  exact some_count k (Nat.le_refl _)

/-- Where in the end nothing keeps it from firing, it fires exactly once. -/
theorem fires_once (h : Latch acts fires cnt done k cap on) (often : ∀ n, ∃ m, n ≤ m ∧ acts m)
    (free : ∃ a, ∀ n, a ≤ n → acts n → k ≤ cnt n → done n = 0 → fires n) : ∃! n, on ≤ n ∧ fires n := by
  obtain ⟨a, free⟩ := free
  have once : ∃ n, on ≤ n ∧ fires n := by
    refine Classical.byContradiction fun none_ => ?_
    have never : ∀ m, on ≤ m → ¬fires m := fun m hm fired => none_ ⟨m, hm, fired⟩
    obtain ⟨m, hm, hk⟩ := h.reaches often never
    obtain ⟨n, hn, act⟩ := often (max a m)
    have kept := h.counts hm (by omega : m ≤ n) never
    have room := h.room
    exact never n (by omega) (free n (by omega) act (by omega) (h.unmarked (by omega) never))
  obtain ⟨n, hn, fired⟩ := once
  refine ⟨n, ⟨hn, fired⟩, fun m hm => ?_⟩
  rcases Nat.lt_trichotomy m n with lt | rfl | gt
  · exact absurd (h.fire n hn fired).1 (h.marked hm.1 hm.2 lt)
  · rfl
  · exact absurd (h.fire m hm.1 hm.2).1 (h.marked hn fired gt)

end Latch

end Lib
