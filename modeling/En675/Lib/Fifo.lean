import Mathlib.Data.List.DropRight
import Mathlib.Data.List.ReduceOption
import En675.Lib.Ring
import En675.Lib.Transition

/-! Bounded queues as lists: a put on a full one drops the oldest item.  `Fifo` is such a
queue together with what its gets have returned.  `FifoCalls` is one that refuses a put when it is
full, shared by parties whose calls take effect in one step each. -/

universe u v

namespace Lib

inductive QueueOp (α : Type u)
  | put (a : α)
  | get

structure Fifo (α : Type u) where
  items : List α
  got : List (Option α)

variable {α : Type u}

/-- The items that are put, in order. -/
def putsOf : List (QueueOp α) → List α
  | [] => []
  | .put a :: ops => a :: putsOf ops
  | .get :: ops => putsOf ops

theorem putsOf_append (ops ops' : List (QueueOp α)) : putsOf (ops ++ ops') = putsOf ops ++ putsOf ops' := by
  induction ops with
  | nil => rfl
  | cons op ops ih => cases op with
    | put a => rw [List.cons_append, putsOf, putsOf, ih, List.cons_append]
    | get => rw [List.cons_append, putsOf, putsOf, ih]

namespace Fifo

def empty : Fifo α := ⟨[], []⟩

def step (cap : Nat) (f : Fifo α) : QueueOp α → Fifo α
  | .put a => ⟨(f.items ++ [a]).rtake cap, f.got⟩
  | .get => ⟨f.items.tail, f.got ++ [f.items.head?]⟩

def run (cap : Nat) (ops : List (QueueOp α)) : Fifo α := ops.foldl (step cap) empty

theorem run_append (cap : Nat) (ops ops' : List (QueueOp α)) :
    run cap (ops ++ ops') = ops'.foldl (step cap) (run cap ops) := List.foldl_append

theorem rtake_of_length_le {xs : List α} (h : xs.length ≤ n) : xs.rtake n = xs := by
  rw [List.rtake, Nat.sub_eq_zero_of_le h, List.drop_zero]

theorem length_rtake (xs : List α) (n : Nat) : (xs.rtake n).length = min n xs.length := by
  rw [List.rtake, List.length_drop]
  omega

/-- Only the last `n` items matter to what is kept later. -/
theorem rtake_rtake_append (xs ys : List α) (n : Nat) :
    (xs.rtake n ++ ys).rtake n = (xs ++ ys).rtake n := by
  rw [List.rtake, List.rtake, List.rtake, List.length_append, List.length_append, List.length_drop,
    List.drop_append, List.drop_append, List.drop_drop, List.length_drop]
  congr 2 <;> omega

theorem length_items (cap : Nat) (ops : List (QueueOp α)) : (run cap ops).items.length ≤ cap := by
  induction ops using List.reverseRecOn with
  | nil => exact Nat.zero_le _
  | append_singleton ops op ih =>
    rw [run_append]
    cases op with
    | put a =>
      simp only [List.foldl_cons, List.foldl_nil, step]
      rw [length_rtake]
      exact Nat.min_le_left _ _
    | get =>
      simp only [List.foldl_cons, List.foldl_nil, step]
      rw [List.length_tail]
      exact (Nat.sub_le _ _).trans ih

/-- Puts alone keep the most recent items. -/
theorem foldl_puts (cap : Nat) (f : Fifo α) (h : f.items.length ≤ cap) (as : List α) :
    (as.map QueueOp.put).foldl (step cap) f = ⟨(f.items ++ as).rtake cap, f.got⟩ := by
  induction as using List.reverseRecOn with
  | nil => rw [List.map_nil, List.foldl_nil, List.append_nil, rtake_of_length_le h]
  | append_singleton as a ih =>
    rw [List.map_append, List.foldl_append, ih]
    simp only [List.map_cons, List.map_nil, List.foldl_cons, List.foldl_nil, step]
    rw [rtake_rtake_append, List.append_assoc]

/-- What has come out and what is still there is what has been put, in order, but for the items
that were dropped. -/
theorem run_sublist (cap : Nat) (ops : List (QueueOp α)) :
    ((run cap ops).got.reduceOption ++ (run cap ops).items).Sublist (putsOf ops) := by
  induction ops using List.reverseRecOn with
  | nil => exact List.Sublist.slnil
  | append_singleton ops op ih =>
    rw [run_append, putsOf_append]
    cases op with
    | put a =>
      simp only [List.foldl_cons, List.foldl_nil, step, putsOf]
      refine ((List.drop_sublist _ _).append_left _).trans ?_
      rw [← List.append_assoc]
      exact ih.append_right [a]
    | get =>
      simp only [List.foldl_cons, List.foldl_nil, step, putsOf, List.append_nil]
      rw [List.reduceOption_append]
      cases h : (run cap ops).items with
      | nil =>
        rw [h] at ih
        simpa using ih
      | cons a as =>
        rw [h] at ih
        simpa using ih

end Fifo

inductive FifoStatus (α : Type u)
  | idle
  | called (op : QueueOp α)
  | done (ok : Bool)
  | got (a : Option α)

structure FifoCalls (ι : Type v) (α : Type u) where
  items : List α
  status : ι → FifoStatus α

namespace FifoCalls

variable {ι : Type v} [DecidableEq ι]

inductive Step (cap : Nat) : FifoCalls ι α → ι → FifoCalls ι α → Prop
  | call (op : QueueOp α) : f.status p = .idle →
      Step cap f p { f with status := Function.update f.status p (.called op) }
  | put : f.status p = .called (.put a) → f.items.length < cap →
      Step cap f p ⟨f.items ++ [a], Function.update f.status p (.done true)⟩
  | full : f.status p = .called (.put a) → f.items.length = cap →
      Step cap f p { f with status := Function.update f.status p (.done false) }
  | get : f.status p = .called .get → f.items = a :: as →
      Step cap f p ⟨as, Function.update f.status p (.got (some a))⟩
  | empty : f.status p = .called .get → f.items = [] →
      Step cap f p { f with status := Function.update f.status p (.got none) }
  | put_returns : f.status p = .done ok →
      Step cap f p { f with status := Function.update f.status p .idle }
  | get_returns : f.status p = .got a →
      Step cap f p { f with status := Function.update f.status p .idle }

def calls (cap : Nat) : Lts (FifoCalls ι α) ι where
  init f := f = ⟨[], fun _ => .idle⟩
  step := Step cap

theorem length_inductive (cap : Nat) :
    (calls cap).Inductive Lts.any (fun f : FifoCalls ι α => f.items.length ≤ cap) where
  init := by
    rintro f rfl
    exact Nat.zero_le _
  step := by
    intro f p g le _ st
    cases st with
    | call | full | empty | put_returns | get_returns => exact le
    | put _ lt =>
      rw [List.length_append]
      exact lt
    | get _ h =>
      rw [h] at le
      exact (Nat.le_succ _).trans le

end FifoCalls

end Lib
