import Mathlib.Data.List.Basic

/-! The maximal runs of a list between separators. -/

universe u

namespace Lib

variable {α : Type u} {p : α → Bool} {xs ys : List α} {x : α}

/-- The nonempty stretches without an element of `p`. -/
def runs (p : α → Bool) (xs : List α) : List (List α) := (xs.splitOnP p).filter fun r => !r.isEmpty

@[simp] theorem runs_nil : runs p [] = [] := rfl

theorem runs_sep (h : p x = true) (xs : List α) : runs p (x :: xs) = runs p xs := by
  rw [runs, ← List.nil_append (x :: xs), List.splitOnP_append_cons_of_forall_mem (by simp) x h,
    List.filter_cons_of_neg (by simp), runs]

theorem runs_single (free : ∀ x ∈ xs, p x = false) (h : xs ≠ []) : runs p xs = [xs] := by
  rw [runs, List.splitOnP_eq_singleton free, List.filter_cons_of_pos, List.filter_nil]
  simpa using h

theorem runs_append (free : ∀ x ∈ xs, p x = false) (h : xs ≠ []) (sep : p x = true) (ys : List α) :
    runs p (xs ++ x :: ys) = xs :: runs p ys := by
  rw [runs, List.splitOnP_append_cons_of_forall_mem free x sep, List.filter_cons_of_pos, runs]
  simpa using h

theorem free_or_cut (p : α → Bool) (xs : List α) : (∀ x ∈ xs, p x = false) ∨
    ∃ run x rest, xs = run ++ x :: rest ∧ (∀ x ∈ run, p x = false) ∧ p x = true := by
  induction xs with
  | nil => exact .inl fun x hx => absurd hx List.not_mem_nil
  | cons x xs ih =>
    cases sep : p x with
    | true => exact .inr ⟨[], x, xs, rfl, fun x hx => absurd hx List.not_mem_nil, sep⟩
    | false =>
      rcases ih with free | ⟨run, y, rest, rfl, free, hy⟩
      · exact .inl (List.forall_mem_cons.2 ⟨sep, free⟩)
      · exact .inr ⟨x :: run, y, rest, rfl, List.forall_mem_cons.2 ⟨sep, free⟩, hy⟩

/-- Only separators are without a run. -/
theorem eq_sep_of_runs (h : runs p xs = []) : ∀ x ∈ xs, p x = true := by
  induction xs with
  | nil => exact fun x hx => absurd hx List.not_mem_nil
  | cons x xs ih =>
    cases sep : p x with
    | true =>
      rw [runs_sep sep] at h
      exact List.forall_mem_cons.2 ⟨sep, ih h⟩
    | false =>
      rcases free_or_cut p (x :: xs) with free | ⟨run, y, rest, e, free, hy⟩
      · rw [runs_single free (List.cons_ne_nil _ _)] at h
        exact absurd h (List.cons_ne_nil _ _)
      · have some : run ≠ [] := fun none => by
          rw [none, List.nil_append, List.cons.injEq] at e
          rw [e.1, hy] at sep
          exact Bool.noConfusion sep
        rw [e, runs_append free some hy] at h
        exact absurd h (List.cons_ne_nil _ _)

/-- A separator at the end changes nothing. -/
theorem runs_concat (sep : p x = true) (xs : List α) : runs p (xs ++ [x]) = runs p xs := by
  induction h : xs.length using Nat.strongRecOn generalizing xs with
  | ind n ih =>
    rcases free_or_cut p xs with free | ⟨run, y, rest, rfl, free, hy⟩
    · cases xs with
      | nil => exact runs_sep sep []
      | cons z xs => rw [runs_append free (List.cons_ne_nil _ _) sep, runs_single free (List.cons_ne_nil _ _), runs_nil]
    · have shorter : rest.length < n := by
        rw [← h, List.length_append, List.length_cons]
        omega
      have tail := ih _ shorter rest rfl
      cases run with
      | nil => rw [List.nil_append, List.cons_append, runs_sep hy, runs_sep hy, tail]
      | cons z run =>
        rw [List.append_assoc, List.cons_append (a := y), runs_append free (List.cons_ne_nil _ _) hy,
          runs_append free (List.cons_ne_nil _ _) hy, tail]

end Lib
