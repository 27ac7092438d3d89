import Mathlib.Data.List.Basic
import Mathlib.Logic.Function.Basic

/-! Bounded circular queues with one empty slot, as an array and two indices.  The
laws say what `push` and `pop` do to the queued list. -/

universe u

namespace Lib

structure RingQueue (α : Type u) where
  head : Nat
  tail : Nat
  totNum : Nat
  data : Nat → α

namespace RingQueue

variable {α : Type u}

def next (n i : Nat) : Nat := if i + 1 ≥ n then 0 else i + 1

def isFull (r : RingQueue α) : Bool := (r.tail + 1) % r.totNum == r.head

def isEmpty (r : RingQueue α) : Bool := r.head == r.tail

def push (r : RingQueue α) (a : α) : RingQueue α :=
  { r with data := Function.update r.data r.tail a, tail := next r.totNum r.tail }

def pop (r : RingQueue α) : RingQueue α := { r with head := next r.totNum r.head }

def front (r : RingQueue α) : α := r.data r.head

structure Wf (r : RingQueue α) : Prop where
  head_lt : r.head < r.totNum
  tail_lt : r.tail < r.totNum

def length (r : RingQueue α) : Nat :=
  if r.head ≤ r.tail then r.tail - r.head else r.totNum - r.head + r.tail

/-- The cells from `i` on, `n` of them, wrapping at the end of the array. -/
def cells (r : RingQueue α) : Nat → Nat → List α
  | 0, _ => []
  | n + 1, i => r.data i :: cells r n (next r.totNum i)

def toList (r : RingQueue α) : List α := r.cells r.length r.head

section fields
variable (r : RingQueue α) (a : α)
@[simp] theorem totNum_push : (r.push a).totNum = r.totNum := rfl
@[simp] theorem head_push : (r.push a).head = r.head := rfl
@[simp] theorem tail_push : (r.push a).tail = next r.totNum r.tail := rfl
@[simp] theorem totNum_pop : r.pop.totNum = r.totNum := rfl
@[simp] theorem head_pop : r.pop.head = next r.totNum r.head := rfl
@[simp] theorem tail_pop : r.pop.tail = r.tail := rfl
end fields

theorem next_of_lt (h : i + 1 < n) : next n i = i + 1 := if_neg (by omega)
theorem next_of_ge (h : n ≤ i + 1) : next n i = 0 := if_pos h

theorem next_lt (h : i < n) : next n i < n := by
  unfold next
  split <;> omega

theorem Wf.push {r : RingQueue α} (h : r.Wf) (a : α) : (r.push a).Wf :=
  ⟨h.head_lt, next_lt h.tail_lt⟩

theorem Wf.pop {r : RingQueue α} (h : r.Wf) : r.pop.Wf :=
  ⟨next_lt h.head_lt, h.tail_lt⟩

@[simp] theorem length_cells (r : RingQueue α) (n i : Nat) : (r.cells n i).length = n := by
  induction n generalizing i with
  | zero => rfl
  | succ n ih => simp [cells, ih]

@[simp] theorem length_toList (r : RingQueue α) : r.toList.length = r.length := length_cells r _ _

theorem isEmpty_iff {r : RingQueue α} (h : r.Wf) : r.isEmpty = true ↔ r.toList = [] := by
  have hh := h.head_lt
  have ht := h.tail_lt
  rw [← List.length_eq_zero_iff, length_toList]
  simp only [isEmpty, length, beq_iff_eq]
  split <;> omega

theorem length_push {r : RingQueue α} (h : r.Wf) (hf : r.isFull = false) (a : α) :
    (r.push a).length = r.length + 1 := by
  have hh := h.head_lt
  have ht := h.tail_lt
  simp only [isFull, beq_eq_false_iff_ne] at hf
  simp only [length, head_push, tail_push, totNum_push]
  by_cases hw : r.totNum ≤ r.tail + 1
  · simp only [next_of_ge hw]
    rw [show r.tail + 1 = r.totNum by omega, Nat.mod_self] at hf
    split <;> split <;> omega
  · simp only [next_of_lt (Nat.lt_of_not_le hw)]
    rw [Nat.mod_eq_of_lt (by omega)] at hf
    split <;> split <;> omega

theorem length_pop {r : RingQueue α} (h : r.Wf) (he : r.isEmpty = false) :
    r.length = r.pop.length + 1 := by
  have hh := h.head_lt
  have ht := h.tail_lt
  simp only [isEmpty, beq_eq_false_iff_ne] at he
  simp only [length, head_pop, tail_pop, totNum_pop]
  by_cases hw : r.totNum ≤ r.head + 1
  · simp only [next_of_ge hw]
    split <;> split <;> omega
  · simp only [next_of_lt (Nat.lt_of_not_le hw)]
    split <;> split <;> omega

theorem isFull_iff {r : RingQueue α} (h : r.Wf) : r.isFull = true ↔ r.length + 1 = r.totNum := by
  have hh := h.head_lt
  have ht := h.tail_lt
  simp only [isFull, length, beq_iff_eq]
  by_cases hw : r.totNum ≤ r.tail + 1
  · rw [show r.tail + 1 = r.totNum by omega, Nat.mod_self]
    split <;> omega
  · rw [Nat.mod_eq_of_lt (by omega)]
    split <;> omega

/-- The index of the `k`-th queued cell. -/
def cellAt (r : RingQueue α) : Nat → Nat → Nat
  | 0, i => i
  | k + 1, i => cellAt r k (next r.totNum i)

theorem cellAt_eq {r : RingQueue α} (hi : i < r.totNum) (hk : k ≤ r.totNum) :
    r.cellAt k i = if i + k < r.totNum then i + k else i + k - r.totNum := by
  induction k generalizing i with
  | zero => simp [cellAt, hi]
  | succ k ih =>
    rw [cellAt, ih (next_lt hi) (by omega)]
    by_cases hw : r.totNum ≤ i + 1
    · simp only [next_of_ge hw]
      split <;> split <;> omega
    · simp only [next_of_lt (Nat.lt_of_not_le hw)]
      split <;> split <;> omega

theorem cells_succ (r : RingQueue α) (n i : Nat) :
    r.cells (n + 1) i = r.cells n i ++ [r.data (r.cellAt n i)] := by
  induction n generalizing i with
  | zero => rfl
  | succ n ih => rw [cells, ih, cells, cellAt, List.cons_append]

theorem cells_push {r : RingQueue α} (hi : i < r.totNum) (hn : n ≤ r.totNum) (a : α)
    (hfree : ∀ k, k < n → r.cellAt k i ≠ r.tail) : (r.push a).cells n i = r.cells n i := by
  induction n generalizing i with
  | zero => rfl
  | succ n ih =>
    rw [cells, cells, totNum_push, ih (next_lt hi) (by omega)]
    · congr 1
      exact Function.update_of_ne (hfree 0 (by omega)) _ _
    · intro k hk
      exact hfree (k + 1) (by omega)

/-- A queue holds one item less than it has cells. -/
theorem length_lt {r : RingQueue α} (h : r.Wf) : r.length < r.totNum := by
  have hh := h.head_lt
  have ht := h.tail_lt
  unfold length
  split <;> omega

/-- A put on a queue that is not full appends. -/
theorem toList_push {r : RingQueue α} (h : r.Wf) (hf : r.isFull = false) (a : α) :
    (r.push a).toList = r.toList ++ [a] := by
  have hh := h.head_lt
  have ht := h.tail_lt
  have hlen : r.length < r.totNum := length_lt h
  have hend : r.cellAt r.length r.head = r.tail := by
    rw [cellAt_eq hh (by omega)]
    unfold length
    split <;> split <;> omega
  have hat : ∀ k, (r.push a).cellAt k = r.cellAt k := by
    intro k
    funext i
    induction k generalizing i with
    | zero => rfl
    | succ k ih => exact ih _
  unfold toList
  rw [length_push h hf, cells_succ, hat]
  change (r.push a).cells r.length r.head ++ [(r.push a).data (r.cellAt r.length r.head)] = _
  rw [cells_push hh (by omega), hend]
  · simp [push]
  · intro k hk
    rw [cellAt_eq hh (by omega), ← hend, cellAt_eq hh (by omega)]
    split <;> split <;> omega

/-- A put on a full queue overtakes the head: nothing is queued any more. -/
theorem toList_push_full {r : RingQueue α} (h : r.Wf) (hf : r.isFull = true) (a : α) :
    (r.push a).toList = [] := by
  rw [← isEmpty_iff (h.push a)]
  have ht := h.tail_lt
  simp only [isFull, beq_iff_eq] at hf
  simp only [isEmpty, head_push, tail_push, beq_iff_eq, ← hf]
  by_cases hw : r.totNum ≤ r.tail + 1
  · rw [next_of_ge hw, show r.tail + 1 = r.totNum from Nat.le_antisymm ht hw, Nat.mod_self]
  · rw [next_of_lt (Nat.lt_of_not_le hw), Nat.mod_eq_of_lt (Nat.lt_of_not_le hw)]

/-- A get on a queue that is not empty removes the front. -/
theorem toList_pop {r : RingQueue α} (h : r.Wf) (he : r.isEmpty = false) :
    r.toList = r.front :: r.pop.toList := by
  have hc : ∀ n i, r.cells n i = r.pop.cells n i := by
    intro n
    induction n with
    | zero => intro _; rfl
    | succ n ih => intro i; simp only [cells, ih]; rfl
  unfold toList
  rw [length_pop h he, cells]
  congr 1
  exact hc _ _

end RingQueue

end Lib
