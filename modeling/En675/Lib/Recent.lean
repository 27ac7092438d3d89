import Mathlib.Logic.Function.Basic

/-! The last entries of a history, in an array of `n` cells that is written round and round. -/

universe u

namespace Lib

variable {α : Type u}

/-- The cell after `i - 1`, for `i` up to twice the cells. -/
def wrap (n i : Nat) : Nat := if n ≤ i then i - n else i

/-- The cell of the entry that is `j` entries back, where the next one goes to `pos`. -/
def backCell (n pos j : Nat) : Nat := if j < pos then pos - 1 - j else n + pos - 1 - j

/-- The first cell of the last `m` entries. -/
def firstCell (n pos m : Nat) : Nat := (if pos < m then n + pos else pos) - m

/-- The array holds the last `n` entries of a history, whose newest entry is the first. -/
structure Recent (n : Nat) (data : Nat → α) (pos : Nat) (hist : List α) : Prop where
  pos_lt : pos < n
  entry : ∀ j < n, hist[j]? = some (data (backCell n pos j))

namespace Recent

variable {n pos m : Nat} {data : Nat → α} {hist : List α} {a : α}

theorem fill (h : 0 < n) (all : ∀ i, data i = a) : Recent n data 0 (List.replicate n a) where
  pos_lt := h
  entry j hj := by rw [List.getElem?_replicate, if_pos hj, all]

theorem length_le (h : Recent n data pos hist) : n ≤ hist.length := by
  have pos := Nat.zero_lt_of_lt h.pos_lt
  have last := h.entry (n - 1) (Nat.sub_lt pos Nat.one_pos)
  have lt := (List.getElem?_eq_some_iff.1 last).1
  omega

theorem push (h : Recent n data pos hist) (a : α) :
    Recent n (Function.update data pos a) (if pos + 1 = n then 0 else pos + 1) (a :: hist) where
  pos_lt := by
    have lt := h.pos_lt
    split <;> omega
  entry j hj := by
    have lt := h.pos_lt
    cases j with
    | zero =>
      have here : backCell n (if pos + 1 = n then 0 else pos + 1) 0 = pos := by
        unfold backCell
        split <;> split <;> omega
      rw [List.getElem?_cons_zero, here, Function.update_self]
    | succ j =>
      have back : backCell n (if pos + 1 = n then 0 else pos + 1) (j + 1) = backCell n pos j := by
        unfold backCell
        split <;> split <;> split <;> omega
      have other : backCell n pos j ≠ pos := by
        unfold backCell
        split <;> omega
      rw [List.getElem?_cons_succ, back, Function.update_of_ne other]
      exact h.entry j (Nat.lt_of_succ_lt hj)

/-- The oldest of the last `m` entries. -/
theorem first (h : Recent n data pos hist) (h0 : 0 < m) (hm : m ≤ n) :
    hist[m - 1]? = some (data (firstCell n pos m)) := by
  have lt := h.pos_lt
  have cell : backCell n pos (m - 1) = firstCell n pos m := by
    unfold backCell firstCell
    split <;> split <;> omega
  rw [h.entry (m - 1) (by omega), cell]

/-- The last `m` entries, from the oldest on. -/
theorem window (h : Recent n data pos hist) (hm : m ≤ n) :
    ((List.range m).map fun j => data (wrap n (firstCell n pos m + j))) = (hist.take m).reverse := by
  have lt := h.pos_lt
  have long := h.length_le
  have size : (hist.take m).length = m := by
    rw [List.length_take]
    omega
  apply List.ext_getElem?
  intro j
  by_cases hj : j < m
  · have cell : wrap n (firstCell n pos m + j) = backCell n pos (m - 1 - j) := by
      unfold wrap firstCell backCell
      split <;> split <;> split <;> omega
    rw [List.getElem?_map, List.getElem?_range hj, Option.map_some, cell,
      List.getElem?_reverse (by rw [size]; exact hj), size, List.getElem?_take_of_lt (by omega),
      h.entry (m - 1 - j) (by omega)]
  · rw [List.getElem?_eq_none (by rw [List.length_map, List.length_range]; exact Nat.not_lt.1 hj),
      List.getElem?_eq_none (by rw [List.length_reverse, size]; exact Nat.not_lt.1 hj)]

end Recent

end Lib
