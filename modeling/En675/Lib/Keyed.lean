import Mathlib.Data.List.Induction
import Mathlib.Order.Lattice

/-! Lists in the order of a key that no two entries share: looking up, and putting in an entry, merged with the one
that has its key. -/

namespace Lib.Keyed

section defs

variable {α κ : Type*} [LinearOrder κ] (key : α → κ) (merge : α → α → α)

def find (k : κ) : List α → Option α
  | [] => none
  | x :: l => if key x < k then find k l else if key x = k then some x else none

def put (o : α) : List α → List α
  | [] => [o]
  | x :: l => if key x < key o then x :: put o l else if key x = key o then merge x o :: l else o :: x :: l

def putAll (os : List α) : List α := os.foldl (fun l o => put key merge o l) []

def Sorted (l : List α) : Prop := l.Pairwise fun x y => key x < key y

end defs

section laws

variable {α κ : Type*} [LinearOrder κ] {key : α → κ} {merge : α → α → α} {P : α → Prop} {l : List α} {o : α} {k : κ}

theorem forall_put (h : ∀ x ∈ l, P x) (ho : P o) (join : ∀ x ∈ l, key x = key o → P (merge x o)) :
    ∀ x ∈ put key merge o l, P x := by
  induction l with
  | nil => exact List.forall_mem_singleton.mpr ho
  | cons x l ih =>
    obtain ⟨hx, hl⟩ := List.forall_mem_cons.mp h
    unfold put
    split
    · exact List.forall_mem_cons.mpr ⟨hx, ih hl fun y hy => join y (List.mem_cons_of_mem _ hy)⟩
    · split
      · rename_i same
        exact List.forall_mem_cons.mpr ⟨join x List.mem_cons_self same, hl⟩
      · exact List.forall_mem_cons.mpr ⟨ho, h⟩

theorem Sorted.put (keeps : ∀ x y, key (merge x y) = key x) (h : Sorted key l) (o : α) :
    Sorted key (put key merge o l) := by
  induction l with
  | nil => exact List.pairwise_singleton _ _
  | cons x l ih =>
    obtain ⟨below, rest⟩ := List.pairwise_cons.mp h
    unfold Keyed.put
    split
    · rename_i lt
      refine List.pairwise_cons.mpr ⟨forall_put below lt fun y hy _ => ?_, ih rest⟩
      rw [keeps]
      exact below y hy
    · split
      · refine List.pairwise_cons.mpr ⟨fun y hy => ?_, rest⟩
        rw [keeps]
        exact below y hy
      · rename_i ge ne
        have lt : key o < key x := lt_of_le_of_ne (not_lt.mp ge) fun same => ne same.symm
        exact List.pairwise_cons.mpr ⟨List.forall_mem_cons.mpr ⟨lt, fun y hy => lt.trans (below y hy)⟩, h⟩

theorem Sorted.putAll (keeps : ∀ x y, key (merge x y) = key x) (os : List α) : Sorted key (putAll key merge os) := by
  unfold Keyed.putAll
  induction os using List.reverseRecOn with
  | nil => exact .nil
  | append_singleton os o ih =>
    rw [List.foldl_append]
    exact ih.put keeps o

theorem forall_putAll (join : ∀ x y, P x → key x = key y → P (merge x y)) {os : List α} (h : ∀ o ∈ os, P o) :
    ∀ x ∈ putAll key merge os, P x := by
  unfold putAll
  induction os using List.reverseRecOn with
  | nil => exact fun x hx => absurd hx List.not_mem_nil
  | append_singleton os o ih =>
    rw [List.forall_mem_append] at h
    have before := ih h.1
    rw [List.foldl_append]
    exact forall_put before (h.2 o List.mem_cons_self) fun x hx same => join x o (before x hx) same

end laws

end Lib.Keyed
