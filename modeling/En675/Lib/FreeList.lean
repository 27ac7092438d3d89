import Mathlib.Data.List.Basic
import Mathlib.Data.List.Pairwise
import Mathlib.Data.Set.Card
import Mathlib.Order.Interval.Finset.Nat

/-! The free part of an address space, as segments in the order of their addresses.  A segment that is put back is
joined to the ones it touches.  A segment of no cells only marks its place. -/

namespace Lib

/-- The cells from `lo` on, `len` of them. -/
structure Seg where
  lo : Nat
  len : Nat
  deriving DecidableEq, Repr

namespace Seg

def hi (s : Seg) : Nat := s.lo + s.len

def cells (s : Seg) : Set Nat := {a | s.lo ≤ a ∧ a < s.hi}

def Before (s t : Seg) : Prop := s.lo < t.lo ∧ s.hi ≤ t.lo

def Apart (s t : Seg) : Prop := s.Before t ∨ t.Before s

/-- What lies behind a segment and does not go on with it. -/
def Parted (s t : Seg) : Prop := s.Before t ∧ (s.hi = t.lo → t.len = 0)

def join (s t : Seg) : Seg := ⟨s.lo, s.len + t.len⟩

@[simp] theorem join_lo (s t : Seg) : (s.join t).lo = s.lo := rfl

@[simp] theorem join_len (s t : Seg) : (s.join t).len = s.len + t.len := rfl

theorem join_hi {s t : Seg} (h : s.hi = t.lo) : (s.join t).hi = t.hi := by
  unfold hi at *
  rw [join_lo, join_len, ← h, Nat.add_assoc]

theorem le_hi (s : Seg) : s.lo ≤ s.hi := Nat.le_add_right ..

theorem Apart.symm {s t : Seg} (h : s.Apart t) : t.Apart s := Or.symm h

theorem Apart.before {s t : Seg} (h : s.Apart t) (lt : s.lo < t.lo) : s.Before t :=
  h.resolve_right fun b => absurd b.1 (Nat.lt_asymm lt)

theorem Before.trans {s t u : Seg} (h : s.Before t) (k : t.Before u) : s.Before u :=
  ⟨h.1.trans k.1, h.2.trans (t.le_hi.trans k.2)⟩

/-- What is apart from two segments that touch is apart from both together. -/
theorem Apart.join {s t u : Seg} (hs : s.Apart u) (ht : t.Apart u) (touch : s.hi = t.lo) (pos : 0 < u.len) :
    (s.join t).Apart u := by
  rcases hs with hs | hs
  · refine .inl ⟨hs.1, ?_⟩
    rcases ht with ht | ht
    · exact (join_hi touch).trans_le ht.2
    · have inside := ht.2
      have outside := hs.2
      unfold hi at *
      omega
  · exact .inr hs

/-- What is apart from a segment is apart from its parts. -/
theorem Apart.tail {s t : Seg} (h : s.Apart t) (lt : w < s.len) : (mk (s.lo + w) (s.len - w)).Apart t := by
  have same : (mk (s.lo + w) (s.len - w)).hi = s.hi := by
    rw [hi, hi, Nat.add_assoc, Nat.add_sub_cancel' lt.le]
  rcases h with b | b
  · exact .inl ⟨(Nat.add_lt_add_left lt _).trans_le b.2, same.trans_le b.2⟩
  · exact .inr ⟨b.1.trans_le (Nat.le_add_right ..), b.2.trans (Nat.le_add_right ..)⟩

theorem Apart.front {s t u : Seg} (h : s.Apart t) (lo : u.lo = s.lo) (le : u.len ≤ s.len) : u.Apart t := by
  rcases h with b | b
  · exact .inl ⟨lo ▸ b.1, (Nat.add_le_add lo.le le).trans b.2⟩
  · exact .inr ⟨lo ▸ b.1, lo ▸ b.2⟩

theorem cells_join {s t : Seg} (h : s.hi = t.lo) : (s.join t).cells = s.cells ∪ t.cells := by
  ext a
  have le := s.le_hi
  have le' := t.le_hi
  simp only [cells, join_hi h, join_lo, Set.mem_ofPred_eq, Set.mem_union]
  omega

theorem Apart.disjoint {s t : Seg} (h : s.Apart t) (hs : a ∈ s.cells) : a ∉ t.cells := by
  rintro ⟨lower, upper⟩
  obtain ⟨lower', upper'⟩ := hs
  rcases h with h | h
  · exact absurd (upper'.trans_le h.2) (Nat.not_lt.2 lower)
  · exact absurd (upper.trans_le h.2) (Nat.not_lt.2 lower')

end Seg

namespace FreeList

open Seg

/-- The cells of all of the segments. -/
def cells (l : List Seg) : Set Nat := {a | ∃ s ∈ l, a ∈ s.cells}

def total (l : List Seg) : Nat := (l.map Seg.len).sum

/-- In front of segments that all lie behind. -/
def attach (b : Seg) : List Seg → List Seg
  | [] => [b]
  | t :: l => if b.hi = t.lo then b.join t :: l else b :: t :: l

def insert (b : Seg) : List Seg → List Seg
  | [] => [b]
  | s :: l =>
    if s.lo < b.lo then
      if s.hi = b.lo then attach (s.join b) l else s :: insert b l
    else attach b (s :: l)

/-- The first of at least `w` cells, and the others. -/
def firstFit (w : Nat) : List Seg → Option (Seg × List Seg)
  | [] => none
  | s :: l => if w ≤ s.len then some (s, l) else (firstFit w l).map fun (t, r) => (t, s :: r)

/-- A segment of `w` cells from the first that has them; what is more than `least` beyond these is put back. -/
def carve (w least : Nat) (l : List Seg) : Option (Seg × List Seg) :=
  (firstFit w l).map fun (s, r) =>
    if least < s.len - w then (⟨s.lo, w⟩, insert ⟨s.lo + w, s.len - w⟩ r) else (s, r)

section laws

variable {b s : Seg} {l r : List Seg} {w least : Nat}

@[simp] theorem mem_cells_nil : a ∉ cells [] := by
  rintro ⟨s, hs, -⟩
  cases hs

@[simp] theorem mem_cells_cons : a ∈ cells (s :: l) ↔ a ∈ s.cells ∨ a ∈ cells l := by
  constructor
  · rintro ⟨t, ht, ha⟩
    rcases List.mem_cons.mp ht with rfl | ht
    · exact .inl ha
    · exact .inr ⟨t, ht, ha⟩
  · rintro (ha | ⟨t, ht, ha⟩)
    · exact ⟨s, List.mem_cons_self, ha⟩
    · exact ⟨t, List.mem_cons_of_mem _ ht, ha⟩

@[simp] theorem mem_cells_append : a ∈ cells (l ++ r) ↔ a ∈ cells l ∨ a ∈ cells r := by
  induction l with
  | nil => simp
  | cons s l ih => simp [ih, or_assoc]

@[simp] theorem total_cons : total (s :: l) = s.len + total l := rfl

@[simp] theorem total_nil : total [] = 0 := rfl

@[simp] theorem total_append : total (l ++ r) = total l + total r := by
  simp [total]

theorem le_total (hs : s ∈ l) : s.len ≤ total l := by
  induction l with
  | nil => cases hs
  | cons t l ih =>
    rw [total_cons]
    rcases List.mem_cons.mp hs with rfl | hs
    · exact Nat.le_add_right ..
    · exact (ih hs).trans (Nat.le_add_left ..)

theorem mem_cells_attach : a ∈ cells (attach b l) ↔ a ∈ b.cells ∨ a ∈ cells l := by
  cases l with
  | nil => simp [attach]
  | cons t l =>
    rw [attach]
    split
    · rename_i touch
      rw [mem_cells_cons, mem_cells_cons, cells_join touch, Set.mem_union, or_assoc]
    · exact mem_cells_cons

theorem mem_cells_insert : a ∈ cells (insert b l) ↔ a ∈ b.cells ∨ a ∈ cells l := by
  induction l with
  | nil => simp [insert]
  | cons s l ih =>
    rw [insert]
    split
    · split
      · rename_i touch
        rw [mem_cells_attach, cells_join touch, Set.mem_union, mem_cells_cons, or_left_comm, or_assoc]
      · rw [mem_cells_cons, mem_cells_cons, ih, or_left_comm]
    · exact mem_cells_attach

theorem finite_cells (l : List Seg) : (cells l).Finite := by
  induction l with
  | nil => exact Set.finite_empty.subset fun _ ha => absurd ha mem_cells_nil
  | cons s l ih =>
    refine ((Set.finite_Ico s.lo s.hi).union ih).subset fun a ha => ?_
    exact (mem_cells_cons.mp ha).imp_left fun h => ⟨h.1, h.2⟩

/-- The cells of a list are as many as its total. -/
theorem ncard_cells (apart : l.Pairwise Apart) : (cells l).ncard = total l := by
  induction l with
  | nil =>
    have none : cells [] = ∅ := Set.eq_empty_of_forall_notMem fun _ => mem_cells_nil
    rw [none, Set.ncard_empty, total_nil]
  | cons s l ih =>
    obtain ⟨behind, apart⟩ := List.pairwise_cons.mp apart
    have split : cells (s :: l) = Set.Ico s.lo s.hi ∪ cells l := Set.ext fun _ => mem_cells_cons
    have disjoint : Disjoint (Set.Ico s.lo s.hi) (cells l) := Set.disjoint_left.mpr <| by
      rintro a ha ⟨t, ht, inside⟩
      exact (behind t ht).disjoint ha inside
    rw [split, Set.ncard_union_eq disjoint (Set.finite_Ico _ _) (finite_cells l), ih apart, total_cons,
      Set.ncard_eq_toFinset_card', Set.toFinset_Ico, Nat.card_Ico, Seg.hi, Nat.add_sub_cancel_left]

theorem total_attach : total (attach b l) = b.len + total l := by
  cases l with
  | nil => rfl
  | cons t l =>
    rw [attach]
    split
    · simp [Nat.add_assoc]
    · rfl

theorem total_insert : total (insert b l) = b.len + total l := by
  induction l with
  | nil => rfl
  | cons s l ih =>
    rw [insert]
    split
    · split
      · rw [total_attach, total_cons, join_len]
        omega
      · rw [total_cons, total_cons, ih]
        omega
    · exact total_attach

section forall_

variable {P : Seg → Prop} (join : ∀ {s t}, P s → P t → s.hi = t.lo → P (s.join t))
include join

theorem forall_attach (hb : P b) (hl : ∀ s ∈ l, P s) : ∀ s ∈ attach b l, P s := by
  cases l with
  | nil => exact List.forall_mem_singleton.mpr hb
  | cons t l =>
    rw [List.forall_mem_cons] at hl
    rw [attach]
    split
    · rename_i touch
      exact List.forall_mem_cons.mpr ⟨join hb hl.1 touch, hl.2⟩
    · exact List.forall_mem_cons.mpr ⟨hb, List.forall_mem_cons.mpr hl⟩

/-- What touching segments pass on to their union holds all through the list. -/
theorem forall_insert (hb : P b) (hl : ∀ s ∈ l, P s) : ∀ s ∈ insert b l, P s := by
  induction l with
  | nil => exact List.forall_mem_singleton.mpr hb
  | cons s l ih =>
    have both := List.forall_mem_cons.mp hl
    rw [insert]
    split
    · split
      · rename_i touch
        exact forall_attach join (join both.1 hb touch) both.2
      · exact List.forall_mem_cons.mpr ⟨both.1, ih both.2⟩
    · exact forall_attach join hb hl

end forall_

theorem parted_attach (before : ∀ t ∈ l, b.Before t) (parted : l.Pairwise Parted) :
    (attach b l).Pairwise Parted := by
  cases l with
  | nil => exact List.pairwise_singleton _ _
  | cons t l =>
    obtain ⟨behind, rest⟩ := List.pairwise_cons.mp parted
    have front := before t List.mem_cons_self
    rw [attach]
    split
    · rename_i touch
      refine List.pairwise_cons.mpr ⟨fun u hu => ?_, rest⟩
      obtain ⟨⟨lt, le⟩, last⟩ := behind u hu
      rw [← join_hi touch] at le last
      exact ⟨⟨front.1.trans lt, le⟩, last⟩
    · rename_i gap
      refine List.pairwise_cons.mpr ⟨fun u hu => ?_, parted⟩
      refine ⟨before u hu, fun touch => ?_⟩
      rcases List.mem_cons.mp hu with rfl | hu
      · exact absurd touch gap
      · have lt := (behind u hu).1.1
        have le := front.2
        omega

theorem parted_insert (apart : ∀ s ∈ l, s.Apart b) (parted : l.Pairwise Parted) :
    (insert b l).Pairwise Parted := by
  induction l with
  | nil => exact List.pairwise_singleton _ _
  | cons s l ih =>
    obtain ⟨behind, rest⟩ := List.pairwise_cons.mp parted
    obtain ⟨here, there⟩ := List.forall_mem_cons.mp apart
    rw [insert]
    split
    · rename_i lt
      obtain ⟨-, le⟩ := here.before lt
      split
      · rename_i touch
        refine parted_attach (fun t ht => ?_) rest
        have past : b.lo ≤ t.lo := touch ▸ (behind t ht).1.2
        rcases there t ht with h | h
        · exact absurd h.1 (Nat.not_lt.2 past)
        · exact ⟨lt.trans h.1, (join_hi touch).trans_le h.2⟩
      · rename_i gap
        refine List.pairwise_cons.mpr ⟨?_, ih there rest⟩
        refine forall_insert (P := Parted s) (fun {t u} ht hu touch => ⟨ht.1, fun e => ?_⟩) ?_ behind
        · rw [join_lo] at e
          have short := ht.2 e
          rw [hi, short, Nat.add_zero, ← e] at touch
          rw [join_len, short, hu.2 touch]
        · exact ⟨⟨lt, le⟩, fun e => absurd e gap⟩
    · rename_i ge
      have front : b.Before s := here.resolve_left fun h => ge h.1
      refine parted_attach (List.forall_mem_cons.mpr ⟨front, fun t ht => ?_⟩) parted
      exact front.trans (behind t ht).1

theorem firstFit_none : firstFit w l = none ↔ ∀ s ∈ l, s.len < w := by
  induction l with
  | nil => simp [firstFit]
  | cons s l ih =>
    rw [firstFit, List.forall_mem_cons, ← ih, ← Nat.not_le]
    split
    · rename_i fits
      exact iff_of_false (by rintro ⟨⟩) fun h => h.1 fits
    · rename_i fits
      rw [Option.map_eq_none_iff]
      exact (and_iff_right fits).symm

theorem firstFit_some (h : firstFit w l = some (s, r)) :
    w ≤ s.len ∧ ∃ front back, l = front ++ s :: back ∧ r = front ++ back := by
  induction l generalizing s r with
  | nil => cases h
  | cons t l ih =>
    rw [firstFit] at h
    split at h
    · cases h
      exact ⟨‹_›, [], l, rfl, rfl⟩
    · simp only [Option.map_eq_some_iff, Prod.mk.injEq, Prod.exists] at h
      obtain ⟨u, q, found, rfl, rfl⟩ := h
      obtain ⟨fits, front, back, rfl, rfl⟩ := ih found
      exact ⟨fits, t :: front, back, rfl, rfl⟩

theorem mem_of_remove {x : Seg} (hx : x ∈ l ++ r) : x ∈ l ++ s :: r :=
  (List.mem_append.mp hx).elim (List.mem_append_left _)
    fun hx => List.mem_append_right _ (List.mem_cons_of_mem _ hx)

theorem parted_remove (parted : (l ++ s :: r).Pairwise Parted) :
    (l ++ r).Pairwise Parted ∧ ∀ t ∈ l ++ r, t.Apart s := by
  obtain ⟨front, back, across⟩ := List.pairwise_append.mp parted
  obtain ⟨behind, back⟩ := List.pairwise_cons.mp back
  refine ⟨List.pairwise_append.mpr ⟨front, back, fun t ht u hu => ?_⟩, fun t ht => ?_⟩
  · exact across t ht u (List.mem_cons_of_mem _ hu)
  · rcases List.mem_append.mp ht with ht | ht
    · exact .inl (across t ht s List.mem_cons_self).1
    · exact .inr (behind t ht).1

/-- What is given out lies at the front of the first fit, whose rest is put back or goes with it. -/
theorem carve_fits (h : carve w least l = some (s, r)) :
    ∃ t q, firstFit w l = some (t, q) ∧
      (¬ least < t.len - w ∧ s = t ∧ r = q ∨
        least < t.len - w ∧ s = ⟨t.lo, w⟩ ∧ r = insert ⟨t.lo + w, t.len - w⟩ q) := by
  simp only [carve, Option.map_eq_some_iff, Prod.exists] at h
  obtain ⟨t, q, found, eq⟩ := h
  refine ⟨t, q, found, ?_⟩
  split at eq
  · rename_i large
    cases eq
    exact .inr ⟨large, rfl, rfl⟩
  · rename_i small
    cases eq
    exact .inl ⟨small, rfl, rfl⟩

theorem carve_some (h : carve w least l = some (s, r)) :
    ∃ t front back, l = front ++ t :: back ∧ s.lo = t.lo ∧ w ≤ s.len ∧
      (s = t ∧ r = front ++ back ∨
        s.len = w ∧ least < t.len - w ∧ r = insert ⟨t.lo + w, t.len - w⟩ (front ++ back)) := by
  obtain ⟨t, q, found, cases⟩ := carve_fits h
  obtain ⟨fits, front, back, rfl, rfl⟩ := firstFit_some found
  refine ⟨t, front, back, rfl, ?_⟩
  rcases cases with ⟨-, rfl, rfl⟩ | ⟨large, rfl, rfl⟩
  · exact ⟨rfl, fits, .inl ⟨rfl, rfl⟩⟩
  · exact ⟨rfl, le_rfl, .inr ⟨rfl, large, rfl⟩⟩

theorem carve_none : carve w least l = none ↔ ∀ s ∈ l, s.len < w := by
  rw [carve, Option.map_eq_none_iff, firstFit_none]

end laws

section unique

variable {l r : List Seg}

private theorem le_of_mem {s : Seg} {l : List Seg} (gaps : (s :: l).Pairwise fun s t => s.hi < t.lo)
    (ha : a ∈ cells (s :: l)) : s.lo ≤ a := by
  rcases mem_cells_cons.mp ha with ha | ⟨t, ht, ha⟩
  · exact ha.1
  · exact (s.le_hi.trans (List.rel_of_pairwise_cons gaps ht).le).trans ha.1

private theorem hi_notMem {s : Seg} {l : List Seg} (gaps : (s :: l).Pairwise fun s t => s.hi < t.lo) :
    s.hi ∉ cells (s :: l) := by
  intro h
  rcases mem_cells_cons.mp h with h | ⟨t, ht, h⟩
  · exact absurd h.2 (Nat.lt_irrefl _)
  · exact absurd (List.rel_of_pairwise_cons gaps ht) (Nat.not_lt.2 h.1)

private theorem lo_mem {s : Seg} (pos : 0 < s.len) : s.lo ∈ cells (s :: l) :=
  mem_cells_cons.mpr (.inl ⟨le_rfl, Nat.lt_add_of_pos_right pos⟩)

/-- Segments with gaps between them are known from their cells. -/
theorem gaps_unique (pl : ∀ s ∈ l, 0 < s.len) (pr : ∀ s ∈ r, 0 < s.len)
    (gl : l.Pairwise fun s t => s.hi < t.lo) (gr : r.Pairwise fun s t => s.hi < t.lo)
    (same : ∀ a, a ∈ cells l ↔ a ∈ cells r) : l = r := by
  induction l generalizing r with
  | nil =>
    cases r with
    | nil => rfl
    | cons t r => exact absurd ((same t.lo).mpr (lo_mem (pr t List.mem_cons_self))) mem_cells_nil
  | cons s l ih =>
    cases r with
    | nil => exact absurd ((same s.lo).mp (lo_mem (pl s List.mem_cons_self))) mem_cells_nil
    | cons t r =>
      have lo : s.lo = t.lo := Nat.le_antisymm
        (le_of_mem gl ((same t.lo).mpr (lo_mem (pr t List.mem_cons_self))))
        (le_of_mem gr ((same s.lo).mp (lo_mem (pl s List.mem_cons_self))))
      have hi : s.hi = t.hi := by
        rcases Nat.lt_trichotomy s.hi t.hi with lt | eq | gt
        · have inside : s.hi ∈ t.cells := ⟨lo ▸ s.le_hi, lt⟩
          exact absurd ((same _).mpr (mem_cells_cons.mpr (.inl inside))) (hi_notMem gl)
        · exact eq
        · have inside : t.hi ∈ s.cells := ⟨lo ▸ t.le_hi, gt⟩
          exact absurd ((same _).mp (mem_cells_cons.mpr (.inl inside))) (hi_notMem gr)
      obtain rfl : s = t := by
        cases s
        cases t
        unfold Seg.hi at hi
        simp only [Seg.mk.injEq] at lo hi ⊢
        exact ⟨lo, by omega⟩
      have past {k : List Seg} {a : Nat} (gaps : (s :: k).Pairwise fun s t => s.hi < t.lo)
          (ha : a ∈ cells k) : a ∉ s.cells := by
        obtain ⟨u, hu, ha⟩ := ha
        exact fun h => absurd (h.2.trans (List.rel_of_pairwise_cons gaps hu)) (Nat.not_lt.2 ha.1)
      rw [ih (fun u hu => pl u (List.mem_cons_of_mem _ hu)) (fun u hu => pr u (List.mem_cons_of_mem _ hu))
        (List.pairwise_cons.mp gl).2 (List.pairwise_cons.mp gr).2 fun a => ?_]
      have here := same a
      rw [mem_cells_cons, mem_cells_cons] at here
      exact ⟨fun ha => (here.mp (.inr ha)).resolve_left (past gl ha),
        fun ha => (here.mpr (.inr ha)).resolve_left (past gr ha)⟩

/-- The segments that have cells. -/
def filled (l : List Seg) : List Seg := l.filter (0 < ·.len)

theorem mem_cells_filled : a ∈ cells (filled l) ↔ a ∈ cells l := by
  constructor
  · rintro ⟨s, hs, ha⟩
    exact ⟨s, (List.mem_filter.mp hs).1, ha⟩
  · rintro ⟨s, hs, lower, upper⟩
    have pos : 0 < s.len := by
      unfold Seg.hi at upper
      omega
    exact ⟨s, List.mem_filter.mpr ⟨hs, decide_eq_true pos⟩, lower, upper⟩

/-- A free list is known from its cells, but for the places that it only marks. -/
theorem filled_unique (pl : l.Pairwise Parted) (pr : r.Pairwise Parted)
    (same : ∀ a, a ∈ cells l ↔ a ∈ cells r) : filled l = filled r := by
  have pos {k : List Seg} {s : Seg} (hs : s ∈ filled k) : 0 < s.len :=
    of_decide_eq_true (List.mem_filter.mp hs).2
  have gaps {k : List Seg} (h : k.Pairwise Parted) : (filled k).Pairwise fun s t => s.hi < t.lo := by
    refine (h.filter _).imp_of_mem fun {s t} _ ht p => Nat.lt_of_le_of_ne p.1.2 fun touch => ?_
    exact absurd (pos ht) (Nat.not_lt.2 (p.2 touch).le)
  refine gaps_unique (fun _ => pos) (fun _ => pos) (gaps pl) (gaps pr) fun a => ?_
  rw [mem_cells_filled, mem_cells_filled]
  exact same a

/-- A search passes over what has no cells. -/
theorem firstFit_filled (pos : 0 < w) (l : List Seg) :
    (firstFit w (filled l)).map Prod.fst = (firstFit w l).map Prod.fst := by
  induction l with
  | nil => rfl
  | cons s l ih =>
    have unfold_ : filled (s :: l) = if 0 < s.len then s :: filled l else filled l := by
      simp [filled, List.filter_cons]
    rw [unfold_, firstFit]
    by_cases hs : 0 < s.len
    · rw [if_pos hs, firstFit]
      split
      · rfl
      · rw [Option.map_map, Option.map_map]
        exact ih
    · have short : ¬ w ≤ s.len := by omega
      rw [if_neg hs, if_neg short, Option.map_map]
      exact ih

theorem carve_lo (w least : Nat) (l : List Seg) :
    (carve w least l).map (fun c => c.1.lo) = ((firstFit w l).map Prod.fst).map Seg.lo := by
  rw [carve, Option.map_map, Option.map_map]
  refine congrArg (fun f => (firstFit w l).map f) (funext fun c => ?_)
  dsimp only [Function.comp_apply]
  split <;> rfl

/-- Nor does what has no cells change what is given out. -/
theorem carve_filled (pos : 0 < w) (least : Nat) (same : filled l = filled r) :
    (carve w least l).map (fun c => c.1.lo) = (carve w least r).map fun c => c.1.lo := by
  rw [carve_lo, carve_lo, ← firstFit_filled pos l, same, firstFit_filled pos r]

end unique

section run

variable {l : List Seg} {w : Nat}

theorem parted_apart (parted : l.Pairwise Parted) : l.Pairwise Apart := parted.imp fun h => .inl h.1

/-- Cells in a row are those of one segment: the next one does not go on with it. -/
theorem run_inside (parted : l.Pairwise Parted) {s : Seg} (hs : s ∈ l) (first : a ∈ s.cells)
    (run : ∀ i, i ≤ k → a + i ∈ cells l) : a + k ∈ s.cells := by
  induction k with
  | zero => exact first
  | succ k ih =>
    obtain ⟨lower, upper⟩ := ih fun i hi => run i (Nat.le_succ_of_le hi)
    obtain ⟨t, ht, inside⟩ := run (k + 1) le_rfl
    by_cases same : t = s
    · exact same ▸ inside
    refine ⟨lower.trans (Nat.le_succ _), Nat.lt_of_not_le fun beyond => ?_⟩
    obtain ⟨tlower, tupper⟩ := inside
    have symm : Std.Symm fun s t => Parted s t ∨ Parted t s := ⟨fun _ _ => Or.symm⟩
    have both : l.Pairwise fun s t => Parted s t ∨ Parted t s := parted.imp .inl
    have either : Parted s t ∨ Parted t s := both.forall hs ht (Ne.symm same)
    rcases either with h | h
    · have le := h.1.2
      have touch : s.hi = t.lo := by omega
      have none := h.2 touch
      unfold Seg.hi at *
      omega
    · have le := h.1.2
      omega

/-- There are `w` cells in a row where a segment has that many. -/
theorem exists_run (parted : l.Pairwise Parted) (pos : 0 < w) :
    (∃ a, ∀ i < w, a + i ∈ cells l) ↔ ∃ s ∈ l, w ≤ s.len := by
  constructor
  · rintro ⟨a, run⟩
    obtain ⟨s, hs, first⟩ := run 0 pos
    have last := run_inside parted hs first (k := w - 1) fun i hi => run i (by omega)
    refine ⟨s, hs, ?_⟩
    obtain ⟨lower, -⟩ := first
    obtain ⟨-, upper⟩ := last
    unfold Seg.hi at upper
    omega
  · rintro ⟨s, hs, le⟩
    exact ⟨s.lo, fun i hi => ⟨s, hs, Nat.le_add_right .., Nat.add_lt_add_left (hi.trans_le le) _⟩⟩

end run

end FreeList

open Seg FreeList

/-- A free list, and the segments that have been given out. -/
structure Pool where
  free : List Seg
  used : List Seg
  parted : free.Pairwise Parted
  apart : ∀ s ∈ free, ∀ u ∈ used, s.Apart u
  usedApart : used.Pairwise Apart
  pos : ∀ u ∈ used, 0 < u.len

namespace Pool

variable {P : Pool} {s u : Seg} {r : List Seg} {w least : Nat}

def Has (P : Pool) (a : Nat) : Prop := a ∈ cells P.free ∨ a ∈ cells P.used

def size (P : Pool) : Nat := total P.free + total P.used

/-- A segment that is cut from the free list, given out. -/
def give (P : Pool) (pos : 0 < w) (h : carve w least P.free = some (s, r)) : Pool where
  free := r
  used := s :: P.used
  parted := by
    obtain ⟨t, front, back, eq, lo, fits, cases⟩ := carve_some h
    obtain ⟨parted, apart⟩ := parted_remove (eq ▸ P.parted)
    rcases cases with ⟨-, rfl⟩ | ⟨len, large, rfl⟩
    · exact parted
    · exact parted_insert (fun x hx => ((apart x hx).symm.tail (by omega)).symm) parted
  apart := by
    obtain ⟨t, front, back, eq, lo, fits, cases⟩ := carve_some h
    obtain ⟨parted, apart⟩ := parted_remove (eq ▸ P.parted)
    have whole : ∀ u ∈ P.used, t.Apart u := P.apart t (eq ▸ List.mem_append_right _ List.mem_cons_self)
    have old : ∀ x ∈ front ++ back, ∀ u ∈ s :: P.used, x.Apart u := by
      intro x hx
      refine List.forall_mem_cons.mpr ⟨?_, P.apart x (eq ▸ mem_of_remove hx)⟩
      refine ((apart x hx).symm.front lo ?_).symm
      rcases cases with ⟨rfl, -⟩ | ⟨len, large, -⟩ <;> omega
    rcases cases with ⟨-, rfl⟩ | ⟨len, large, rfl⟩
    · exact old
    · intro x hx u hu
      have upos : 0 < u.len := by
        rcases List.mem_cons.mp hu with rfl | hu
        · exact pos.trans_le fits
        · exact P.pos u hu
      refine forall_insert (P := fun y => y.Apart u) (fun a b touch => a.join b touch upos) ?_
        (fun y hy => old y hy u hu) x hx
      rcases List.mem_cons.mp hu with rfl | hu
      · refine .inr ⟨?_, ?_⟩
        · rw [lo]
          exact Nat.lt_add_of_pos_right pos
        · rw [hi, lo, len]
      · exact (whole u hu).tail (by omega)
  usedApart := by
    obtain ⟨t, front, back, eq, lo, fits, cases⟩ := carve_some h
    refine List.pairwise_cons.mpr ⟨fun u hu => ?_, P.usedApart⟩
    refine (P.apart t (eq ▸ List.mem_append_right _ List.mem_cons_self) u hu).front lo ?_
    rcases cases with ⟨rfl, -⟩ | ⟨len, large, -⟩ <;> omega
  pos := by
    obtain ⟨t, front, back, eq, lo, fits, cases⟩ := carve_some h
    exact List.forall_mem_cons.mpr ⟨pos.trans_le fits, P.pos⟩

/-- A segment that was given out, taken back. -/
def back (P : Pool) (hu : u ∈ P.used) : Pool where
  free := FreeList.insert u P.free
  used := P.used.erase u
  parted := parted_insert (fun s hs => P.apart s hs u hu) P.parted
  apart := by
    intro x hx v hv
    have mem := List.mem_of_mem_erase hv
    refine forall_insert (P := fun y => y.Apart v) (fun a b touch => a.join b touch (P.pos v mem)) ?_ ?_ x hx
    · have perm : (u :: P.used.erase u).Pairwise Apart :=
        (List.perm_cons_erase hu).pairwise P.usedApart fun h => h.symm
      exact List.rel_of_pairwise_cons perm hv
    · exact fun y hy => P.apart y hy v mem
  usedApart := P.usedApart.sublist List.erase_sublist
  pos := fun v hv => P.pos v (List.mem_of_mem_erase hv)

theorem size_give (pos : 0 < w) (h : carve w least P.free = some (s, r)) : (P.give pos h).size = P.size := by
  change total r + (s.len + total P.used) = total P.free + total P.used
  obtain ⟨t, front, back, eq, lo, fits, ⟨rfl, rfl⟩ | ⟨len, large, rfl⟩⟩ := carve_some h
  · rw [eq, total_append, total_append, total_cons]
    omega
  · rw [eq, total_insert, total_append, total_append, total_cons, len]
    dsimp only
    omega

theorem has_give (pos : 0 < w) (h : carve w least P.free = some (s, r)) : (P.give pos h).Has a ↔ P.Has a := by
  change a ∈ cells r ∨ a ∈ cells (s :: P.used) ↔ a ∈ cells P.free ∨ a ∈ cells P.used
  obtain ⟨t, front, back, eq, lo, fits, ⟨rfl, rfl⟩ | ⟨len, large, rfl⟩⟩ := carve_some h
  · rw [eq, mem_cells_append, mem_cells_append, mem_cells_cons, mem_cells_cons]
    tauto
  · have split : a ∈ t.cells ↔ a ∈ s.cells ∨ a ∈ (Seg.mk (t.lo + w) (t.len - w)).cells := by
      simp only [Seg.cells, Set.mem_ofPred_eq, hi, lo, len]
      omega
    rw [eq, mem_cells_insert, mem_cells_append, mem_cells_append, mem_cells_cons, mem_cells_cons, split]
    tauto

theorem size_back (hu : u ∈ P.used) : (P.back hu).size = P.size := by
  change total (FreeList.insert u P.free) + total (P.used.erase u) = total P.free + total P.used
  have whole : total P.used = total (u :: P.used.erase u) := ((List.perm_cons_erase hu).map _).sum_nat
  rw [total_insert, whole, total_cons]
  omega

theorem has_back (hu : u ∈ P.used) : (P.back hu).Has a ↔ P.Has a := by
  change a ∈ cells (FreeList.insert u P.free) ∨ a ∈ cells (P.used.erase u) ↔ a ∈ cells P.free ∨ a ∈ cells P.used
  have whole : a ∈ cells P.used ↔ a ∈ cells (u :: P.used.erase u) :=
    exists_congr fun _ => and_congr_left fun _ => (List.perm_cons_erase hu).mem_iff
  rw [mem_cells_insert, whole, mem_cells_cons]
  tauto

end Pool

end Lib
