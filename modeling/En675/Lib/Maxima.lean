import Mathlib.Data.Nat.Count
import Mathlib.Data.Set.BooleanAlgebra
import Mathlib.Order.CompletePartialOrder

/-! The maximal elements of a sequence, where some of its places are off.  Of equal elements the first one
counts. -/

universe u v

namespace Lib

section maxima

variable {α : Type u} {γ : Type v} [PartialOrder α] {on : Nat → Prop} {f : Nat → α} {n i j : Nat}

/-- Place `j` goes before place `i`: its element is larger, or it is the earlier one of two equals. -/
def Beats (f : Nat → α) (j i : Nat) : Prop := f i < f j ∨ f i = f j ∧ j < i

/-- Place `i` is one of the first `n` that are on, and none of these goes before it. -/
structure Leading (on : Nat → Prop) (f : Nat → α) (n i : Nat) : Prop where
  lt : i < n
  here : on i
  first : ∀ j < n, on j → ¬Beats f j i

instance [DecidableEq α] [DecidableLT α] (f : Nat → α) (j i : Nat) : Decidable (Beats f j i) :=
  inferInstanceAs (Decidable (_ ∨ _))

instance [DecidableEq α] [DecidableLT α] [DecidablePred on] (f : Nat → α) (n : Nat) : DecidablePred (Leading on f n) :=
  fun i => decidable_of_iff (i < n ∧ on i ∧ ∀ j < n, on j → ¬Beats f j i)
    ⟨fun h => ⟨h.1, h.2.1, h.2.2⟩, fun h => ⟨h.lt, h.here, h.first⟩⟩

theorem Beats.of_lt (h : f i < f j) : Beats f j i := .inl h

/-- An earlier place goes before any that is no larger. -/
theorem Beats.of_le (h : f i ≤ f j) (lt : j < i) : Beats f j i :=
  h.lt_or_eq.imp_right fun same => ⟨same, lt⟩

theorem Beats.le (h : Beats f j i) : f i ≤ f j := h.elim le_of_lt fun h => h.1.le

theorem Beats.lt_of_later (h : Beats f j i) (later : i < j) : f i < f j :=
  h.resolve_right fun h => absurd later h.2.not_gt

theorem not_beats_self (f : Nat → α) (i : Nat) : ¬Beats f i i := fun h =>
  h.elim (lt_irrefl _) fun h => lt_irrefl _ h.2

theorem leading_succ_of_not (off : ¬on n) : Leading on f (n + 1) i ↔ Leading on f n i := by
  constructor
  · rintro ⟨lt, here, first⟩
    have other : i ≠ n := fun same => off (same ▸ here)
    exact ⟨lt_of_le_of_ne (Nat.lt_succ_iff.1 lt) other, here, fun j hj => first j (hj.trans (Nat.lt_succ_self n))⟩
  · rintro ⟨lt, here, first⟩
    refine ⟨lt.trans (Nat.lt_succ_self n), here, fun j hj on_j => ?_⟩
    rcases Nat.lt_succ_iff_lt_or_eq.1 hj with below | rfl
    · exact first j below on_j
    · exact absurd on_j off

/-- The next element is no larger than a maximal one. -/
theorem leading_succ_of_le (top : Leading on f n j) (le : f n ≤ f j) : Leading on f (n + 1) i ↔ Leading on f n i := by
  constructor
  · rintro ⟨lt, here, first⟩
    have other : i ≠ n := by
      rintro rfl
      exact first j (top.lt.trans lt) top.here (Beats.of_le le top.lt)
    exact ⟨lt_of_le_of_ne (Nat.lt_succ_iff.1 lt) other, here, fun j hj => first j (hj.trans (Nat.lt_succ_self n))⟩
  · rintro ⟨lt, here, first⟩
    refine ⟨lt.trans (Nat.lt_succ_self n), here, fun k hk on_k => ?_⟩
    rcases Nat.lt_succ_iff_lt_or_eq.1 hk with below | rfl
    · exact first k below on_k
    · exact fun beats => first j top.lt top.here (.of_lt ((beats.lt_of_later lt).trans_le le))

/-- Below every element that is on there is a maximal one. -/
theorem exists_leading (f : Nat → α) (hi : i < n) (here : on i) : ∃ j, Leading on f n j ∧ f i ≤ f j := by
  induction n generalizing i with
  | zero => exact absurd hi (Nat.not_lt_zero i)
  | succ n ih =>
    by_cases off : on n
    case neg =>
      have other : i ≠ n := fun same => off (same ▸ here)
      obtain ⟨j, top, le⟩ := ih (lt_of_le_of_ne (Nat.lt_succ_iff.1 hi) other) here
      exact ⟨j, (leading_succ_of_not off).2 top, le⟩
    by_cases covered : ∃ j, Leading on f n j ∧ f n ≤ f j
    · obtain ⟨j, top, le⟩ := covered
      rcases Nat.lt_succ_iff_lt_or_eq.1 hi with below | rfl
      · obtain ⟨k, top_k, le_k⟩ := ih below here
        exact ⟨k, (leading_succ_of_le top le).2 top_k, le_k⟩
      · exact ⟨j, (leading_succ_of_le top le).2 top, le⟩
    · have alone (k : Nat) (hk : k < n) (on_k : on k) : ¬f n ≤ f k := fun le => by
        obtain ⟨j, top, le_j⟩ := ih hk on_k
        exact covered ⟨j, top, le.trans le_j⟩
      have last : Leading on f (n + 1) n := by
        refine ⟨Nat.lt_succ_self n, off, fun k hk on_k beats => ?_⟩
        rcases Nat.lt_succ_iff_lt_or_eq.1 hk with below | rfl
        · exact alone k below on_k beats.le
        · exact not_beats_self f k beats
      rcases Nat.lt_succ_iff_lt_or_eq.1 hi with below | rfl
      · obtain ⟨j, top, le⟩ := ih below here
        by_cases under : f j ≤ f n
        · exact ⟨n, last, le.trans under⟩
        · refine ⟨j, ⟨top.lt.trans (Nat.lt_succ_self n), top.here, fun k hk on_k beats => ?_⟩, le⟩
          rcases Nat.lt_succ_iff_lt_or_eq.1 hk with below | rfl
          · exact top.first k below on_k beats
          · exact under beats.le
      · exact ⟨i, last, le_rfl⟩

/-- The next element is under no maximal one, so it is one and takes their place from those under it. -/
theorem leading_succ_of_not_le (here : on n) (alone : ∀ j, Leading on f n j → ¬f n ≤ f j) :
    Leading on f (n + 1) i ↔ i = n ∨ Leading on f n i ∧ ¬f i ≤ f n := by
  have above (k : Nat) (hk : k < n) (on_k : on k) : ¬f n ≤ f k := fun le => by
    obtain ⟨j, top, le_j⟩ := exists_leading f hk on_k
    exact alone j top (le.trans le_j)
  constructor
  · rintro ⟨lt, on_i, first⟩
    rcases Nat.lt_succ_iff_lt_or_eq.1 lt with below | rfl
    · have top : Leading on f n i := ⟨below, on_i, fun j hj => first j (hj.trans (Nat.lt_succ_self n))⟩
      refine .inr ⟨top, fun le => first n (Nat.lt_succ_self n) here (.of_lt (lt_of_le_not_ge le ?_))⟩
      exact above i below on_i
    · exact .inl rfl
  · rintro (rfl | ⟨top, under⟩)
    · refine ⟨Nat.lt_succ_self _, here, fun k hk on_k beats => ?_⟩
      rcases Nat.lt_succ_iff_lt_or_eq.1 hk with below | rfl
      · exact above k below on_k beats.le
      · exact not_beats_self f k beats
    · refine ⟨top.lt.trans (Nat.lt_succ_self n), top.here, fun k hk on_k beats => ?_⟩
      rcases Nat.lt_succ_iff_lt_or_eq.1 hk with below | rfl
      · exact top.first k below on_k beats
      · exact under beats.le

/-- The maximal elements cover what all of them do. -/
theorem exists_leading_mem_iff {cells : α → Set γ} (mono : Monotone cells) (c : γ) :
    (∃ i, Leading on f n i ∧ c ∈ cells (f i)) ↔ ∃ i < n, on i ∧ c ∈ cells (f i) := by
  constructor
  · rintro ⟨i, top, hc⟩
    exact ⟨i, top.lt, top.here, hc⟩
  · rintro ⟨i, hi, here, hc⟩
    obtain ⟨j, top, le⟩ := exists_leading f hi here
    exact ⟨j, top, mono le hc⟩

end maxima

end Lib
