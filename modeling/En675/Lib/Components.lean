import Mathlib.Data.Nat.Count
import Mathlib.Data.Set.Insert
import Mathlib.Logic.Function.Basic
import Mathlib.Logic.Relation

/-! Labelling of connected components by one scan: elements arrive one by one, each with its earlier
neighbours, and a table takes each provisional label to the root of its class. -/

universe u v

namespace Lib

open Relation

section classes

variable {ι : Type u} {κ : Type v} {r : ι → ι → Prop} {S : Set ι} {f g : ι → κ} {c : ι}

/-- `r` within `S`. -/
def Within (r : ι → ι → Prop) (S : Set ι) (a b : ι) : Prop := a ∈ S ∧ b ∈ S ∧ r a b

theorem within_mono (h : S ⊆ T) : Within r S ≤ Within r T := fun _ _ w => ⟨h w.1, h w.2.1, w.2.2⟩

/-- `f` has the same value on two elements of `S` just when they are connected within `S`. -/
def Classifies (r : ι → ι → Prop) (S : Set ι) (f : ι → κ) : Prop :=
  ∀ a ∈ S, ∀ b ∈ S, f a = f b ↔ EqvGen (Within r S) a b

theorem eqvGen_mem (h : EqvGen (Within r S) a b) : a ∈ S ↔ b ∈ S := by
  induction h with
  | rel a b h => exact iff_of_true h.1 h.2.1
  | refl => exact Iff.rfl
  | symm _ _ _ ih => exact ih.symm
  | trans _ _ _ _ _ ih ih' => exact ih.trans ih'

/-- `a` is in the class of an earlier neighbour of `c`. -/
def Touches (r : ι → ι → Prop) (S : Set ι) (f : ι → κ) (c a : ι) : Prop := ∃ x ∈ S, r x c ∧ f x = f a

/-- The classes of the neighbours of a new element become one, which is its own. -/
theorem Classifies.insert (h : Classifies r S f) (later : ∀ x ∈ insert c S, ¬r c x)
    (old : ∀ a ∈ S, ∀ b ∈ S, g a = g b ↔ f a = f b ∨ Touches r S f c a ∧ Touches r S f c b)
    (new : ∀ a ∈ S, g a = g c ↔ Touches r S f c a) : Classifies r (insert c S) g := by
  have mono : ∀ a b, EqvGen (Within r S) a b → EqvGen (Within r (Insert.insert c S)) a b :=
    EqvGen.mono (within_mono (Set.subset_insert c S))
  have touch : ∀ a ∈ S, Touches r S f c a → EqvGen (Within r (Insert.insert c S)) a c := by
    rintro a ha ⟨x, hx, edge, same⟩
    have first := mono a x ((h a ha x hx).1 same.symm)
    exact .trans a x c first (.rel x c ⟨.inr hx, .inl rfl, edge⟩)
  have sound : ∀ a b, EqvGen (Within r (Insert.insert c S)) a b → g a = g b := by
    intro a b path
    induction path with
    | rel a b edge =>
      obtain ⟨ha, hb, edge⟩ := edge
      rcases ha with rfl | ha
      · exact absurd edge (later b hb)
      · rcases hb with rfl | hb
        · exact (new a ha).2 ⟨a, ha, edge, rfl⟩
        · exact (old a ha b hb).2 (.inl ((h a ha b hb).2 (.rel a b ⟨ha, hb, edge⟩)))
    | refl => rfl
    | symm _ _ _ ih => exact ih.symm
    | trans _ _ _ _ _ ih ih' => exact ih.trans ih'
  intro a ha b hb
  refine ⟨fun same => ?_, sound a b⟩
  rcases ha with rfl | ha
  · rcases hb with rfl | hb
    · exact .refl _
    · exact .symm _ _ (touch b hb ((new b hb).1 same.symm))
  · rcases hb with rfl | hb
    · exact touch a ha ((new a ha).1 same)
    · rcases (old a ha b hb).1 same with same | ⟨touch_a, touch_b⟩
      · exact mono a b ((h a ha b hb).1 same)
      · exact .trans a c b (touch a ha touch_a) (.symm _ _ (touch b hb touch_b))

end classes

section tables

variable {e : Nat → Nat} {n : Nat}

/-- Each label below `n` goes to the root of its class, which is no larger. -/
structure Flat (n : Nat) (e : Nat → Nat) : Prop where
  le : ∀ x, e x ≤ x
  idem : ∀ x, e (e x) = e x
  beyond : ∀ x, n ≤ x → e x = x
  pos : ∀ x, 0 < x → 0 < e x

theorem flat_id (n : Nat) : Flat n fun x => x := ⟨fun _ => le_rfl, fun _ => rfl, fun _ _ => rfl, fun _ h => h⟩

theorem Flat.mono (h : Flat n e) (le : n ≤ m) : Flat m e :=
  ⟨h.le, h.idem, fun x hx => h.beyond x (le.trans hx), h.pos⟩

/-- The larger of two roots gives way to the smaller. -/
def relabel (n : Nat) (hi lo : Nat) (e : Nat → Nat) (x : Nat) : Nat := if x < n ∧ e x = hi then lo else e x

theorem relabel_apply (h : Flat n e) {hi lo : Nat} (lt : hi < n) (x : Nat) :
    relabel n hi lo e x = if e x = hi then lo else e x := by
  unfold relabel
  by_cases at_ : e x = hi
  · have below : x < n := by
      by_contra beyond
      have same := h.beyond x (not_lt.1 beyond)
      omega
    rw [if_pos ⟨below, at_⟩, if_pos at_]
  · rw [if_neg fun both => at_ both.2, if_neg at_]

theorem Flat.relabel (h : Flat n e) {hi lo : Nat} (lt : hi < n) (less : lo < hi) (root : e lo = lo) (pos : 0 < lo) :
    Flat n (relabel n hi lo e) where
  le x := by
    rw [relabel_apply h lt]
    have le := h.le x
    split <;> omega
  idem x := by
    rw [relabel_apply h lt, relabel_apply h lt]
    split
    · rw [root, if_neg (Nat.ne_of_lt less)]
    · rename_i other
      rw [h.idem, if_neg other]
  beyond x hx := by
    rw [relabel_apply h lt, h.beyond x hx, if_neg (by omega)]
  pos x hx := by
    rw [relabel_apply h lt]
    have root_pos := h.pos x hx
    split
    · exact pos
    · exact root_pos

theorem relabel_eq_iff (h : Flat n e) {hi lo : Nat} (lt : hi < n) (x y : Nat) :
    relabel n hi lo e x = relabel n hi lo e y ↔
      e x = e y ∨ (e x = hi ∨ e x = lo) ∧ (e y = hi ∨ e y = lo) := by
  rw [relabel_apply h lt, relabel_apply h lt]
  split
  · split <;> omega
  · split <;> omega

/-- A root, as it is counted. -/
def IsRoot (e : Nat → Nat) (x : Nat) : Prop := e x = x

instance (e : Nat → Nat) : DecidablePred (IsRoot e) := fun x => inferInstanceAs (Decidable (e x = x))

/-- How many roots are below the root of `x`. -/
def rank (e : Nat → Nat) (x : Nat) : Nat := Nat.count (IsRoot e) (e x)

theorem Flat.rank_eq_iff (h : Flat n e) (x y : Nat) : rank e x = rank e y ↔ e x = e y :=
  ⟨fun same => Nat.count_injective (p := IsRoot e) (h.idem x) (h.idem y) same, fun same => by rw [rank, rank, same]⟩

theorem Flat.rank_lt (h : Flat n e) (hx : x < n) : rank e x < Nat.count (IsRoot e) n :=
  Nat.count_strict_mono (p := IsRoot e) (h.idem x) ((h.le x).trans_lt hx)

theorem Flat.rank_pos (h : Flat n e) (hx : 0 < x) : 0 < rank e x := by
  have zero : IsRoot e 0 := Nat.le_zero.1 (h.le 0)
  have first : Nat.count (IsRoot e) 0 < rank e x := Nat.count_strict_mono zero (h.pos x hx)
  exact (Nat.zero_le _).trans_lt first

/-- Every number below that of the roots is the rank of one. -/
theorem exists_rank (h : m < Nat.count (IsRoot e) n) : ∃ x < n, IsRoot e x ∧ rank e x = m := by
  induction n with
  | zero => exact absurd h (Nat.not_lt_zero m)
  | succ n ih =>
    rw [Nat.count_succ] at h
    by_cases below : m < Nat.count (IsRoot e) n
    · obtain ⟨x, hx, root, same⟩ := ih below
      exact ⟨x, hx.trans (Nat.lt_succ_self n), root, same⟩
    · split at h
      · rename_i root
        have same : Nat.count (IsRoot e) n = m := by omega
        exact ⟨n, Nat.lt_succ_self n, root, by rw [rank, root, same]⟩
      · exact absurd h below

/-- One round of the numbering of the roots, in place. -/
def compactRound (s : (Nat → Nat) × Nat) (x : Nat) : (Nat → Nat) × Nat :=
  if s.1 x = x then (Function.update s.1 x s.2, s.2 + 1) else (Function.update s.1 x (s.1 (s.1 x)), s.2)

/-- The first `n` labels are renumbered. -/
def compact (n : Nat) (e : Nat → Nat) : (Nat → Nat) × Nat := (List.range n).foldl compactRound (e, 0)

theorem Flat.compact (h : Flat n e) (m : Nat) :
    Lib.compact m e = (fun x => if x < m then rank e x else e x, Nat.count (IsRoot e) m) := by
  induction m with
  | zero => rfl
  | succ m ih =>
    have last : Lib.compact (m + 1) e = compactRound (Lib.compact m e) m := by
      rw [Lib.compact, List.range_succ, List.foldl_append]
      rfl
    have here : (fun x => if x < m then rank e x else e x) m = e m := if_neg (lt_irrefl m)
    rw [last, ih, Nat.count_succ]
    by_cases root : e m = m
    · rw [compactRound, if_pos (here.trans root), if_pos (show IsRoot e m from root)]
      refine Prod.ext (funext fun x => ?_) rfl
      dsimp only
      by_cases at_ : x = m
      · subst at_
        rw [Function.update_self, if_pos (Nat.lt_succ_self _), rank, root]
      · rw [Function.update_of_ne at_]
        exact if_congr (by omega) rfl rfl
    · have below : e m < m := lt_of_le_of_ne (h.le m) root
      have there : (fun x => if x < m then rank e x else e x) (e m) = rank e (e m) := if_pos below
      rw [compactRound, if_neg fun same => root (here.symm.trans same), if_neg (show ¬IsRoot e m from root)]
      refine Prod.ext (funext fun x => ?_) rfl
      dsimp only at here there ⊢
      by_cases at_ : x = m
      · subst at_
        rw [Function.update_self, here, there, if_pos (Nat.lt_succ_self _), rank, rank, h.idem]
      · rw [Function.update_of_ne at_]
        exact if_congr (by omega) rfl rfl

end tables

end Lib
