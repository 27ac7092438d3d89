import Mathlib.Data.List.Sort

/-! Comparison functions as `qsort` takes them: an integer whose sign orders two elements.  What
one has to satisfy on the elements of an array, what it then sorts them to, and `strcmp`. -/

namespace Lib

section consistent

variable {α : Type} (c : α → α → Int)

/-- What the C standard asks of the function, on the elements of an array. -/
structure Consistent (l : List α) : Prop where
  antisymm : ∀ a ∈ l, ∀ b ∈ l, (c a b).sign = -(c b a).sign
  trans : ∀ a ∈ l, ∀ b ∈ l, ∀ d ∈ l, c a b ≤ 0 → c b d ≤ 0 → c a d ≤ 0

/-- What a correct `qsort` leaves. -/
structure SortedTo (l l' : List α) : Prop where
  perm : l'.Perm l
  sorted : l'.Pairwise fun a b => c a b ≤ 0

variable {c} {a b : α} {l l' : List α}

theorem Consistent.perm (h : Consistent c l) (p : l'.Perm l) : Consistent c l' where
  antisymm a ha b hb := h.antisymm a (p.mem_iff.1 ha) b (p.mem_iff.1 hb)
  trans a ha b hb d hd := h.trans a (p.mem_iff.1 ha) b (p.mem_iff.1 hb) d (p.mem_iff.1 hd)

theorem Consistent.tail (h : Consistent c (a :: l)) : Consistent c l where
  antisymm x hx y hy := h.antisymm x (.tail _ hx) y (.tail _ hy)
  trans x hx y hy d hd := h.trans x (.tail _ hx) y (.tail _ hy) d (.tail _ hd)

theorem Consistent.total (h : Consistent c l) (ha : a ∈ l) (hb : b ∈ l) (gt : ¬ c a b ≤ 0) :
    c b a ≤ 0 := by
  have sign := h.antisymm a ha b hb
  rw [Int.sign_eq_one_of_pos (by omega)] at sign
  by_contra pos
  rw [Int.sign_eq_one_of_pos (by omega)] at sign
  exact absurd sign (by decide)

theorem Consistent.orderedInsert (h : Consistent c (a :: l)) (sorted : l.Pairwise fun x y => c x y ≤ 0) :
    (l.orderedInsert (fun x y => c x y ≤ 0) a).Pairwise fun x y => c x y ≤ 0 := by
  induction l with
  | nil => exact List.pairwise_singleton _ a
  | cons b l ih =>
    obtain ⟨least, sorted'⟩ := List.pairwise_cons.1 sorted
    rw [List.orderedInsert]
    split
    case isTrue le =>
      refine List.pairwise_cons.2 ⟨fun x hx => ?_, sorted⟩
      rcases List.mem_cons.1 hx with rfl | hx
      · exact le
      · exact h.trans a (by simp) b (by simp) x (by simp [hx]) le (least x hx)
    case isFalse gt =>
      have inner : Consistent c (a :: l) := (h.perm (.swap a b l)).tail
      refine List.pairwise_cons.2 ⟨fun x hx => ?_, ih inner sorted'⟩
      rcases List.mem_cons.1 ((List.perm_orderedInsert _ a l).mem_iff.1 hx) with rfl | hx
      · exact h.total (by simp) (by simp) gt
      · exact least x hx

/-- A consistent comparison sorts. -/
theorem Consistent.insertionSort (h : Consistent c l) :
    SortedTo c l (l.insertionSort fun x y => c x y ≤ 0) := by
  refine ⟨List.perm_insertionSort _ l, ?_⟩
  induction l with
  | nil => exact .nil
  | cons a l ih =>
    have front : Consistent c (a :: l.insertionSort fun x y => c x y ≤ 0) :=
      h.perm (.cons a (List.perm_insertionSort _ l))
    exact front.orderedInsert (ih h.tail)

theorem before_orderedInsert (hb : b ∈ l) (le : c a b ≤ 0) :
    [a, b].Sublist (l.orderedInsert (fun x y => c x y ≤ 0) a) := by
  induction l with
  | nil => cases hb
  | cons x l ih =>
    rw [List.orderedInsert]
    split
    · exact .cons_cons a (List.singleton_sublist.2 hb)
    case isFalse gt =>
      rcases List.mem_cons.1 hb with rfl | hb
      · exact absurd le gt
      · exact .cons x (ih hb)

/-- Two elements that may stand in this order do so in some result. -/
theorem Consistent.before (h : Consistent c l) (ha : a ∈ l) (hb : b ∈ l) (ne : a ≠ b) (le : c a b ≤ 0) :
    ∃ l', SortedTo c l l' ∧ [a, b].Sublist l' := by
  obtain ⟨s, t, rfl⟩ := List.append_of_mem ha
  have front : (a :: (s ++ t)).Perm (s ++ a :: t) := List.perm_middle.symm
  have hb' : b ∈ s ++ t := (List.mem_cons.1 (front.mem_iff.2 hb)).resolve_left ne.symm
  have inner := (h.perm front).tail.insertionSort
  have whole : Consistent c (a :: (s ++ t).insertionSort fun x y => c x y ≤ 0) :=
    h.perm ((inner.perm.cons a).trans front)
  refine ⟨_, ⟨?_, whole.orderedInsert inner.sorted⟩, before_orderedInsert (inner.perm.mem_iff.2 hb') le⟩
  exact (List.perm_orderedInsert _ a _).trans ((inner.perm.cons a).trans front)

end consistent

section strcmp

/-- `strcmp` of strings without their NUL. -/
def strcmp : List UInt8 → List UInt8 → Int
  | [], [] => 0
  | [], b :: _ => -(b.toNat : Int)
  | a :: _, [] => a.toNat
  | a :: as, b :: bs => if a = b then strcmp as bs else (a.toNat : Int) - b.toNat

theorem strcmp_swap (as bs : List UInt8) : strcmp bs as = -strcmp as bs := by
  induction as generalizing bs with
  | nil => cases bs <;> simp [strcmp]
  | cons a as ih =>
    cases bs with
    | nil => rfl
    | cons b bs =>
      simp only [strcmp]
      by_cases same : a = b
      · rw [if_pos same, if_pos same.symm, ih]
      · rw [if_neg same, if_neg fun h => same h.symm]
        omega

@[simp] theorem strcmp_self (as : List UInt8) : strcmp as as = 0 := by
  have swap := strcmp_swap as as
  omega

theorem toNat_pos_of_free {as : List UInt8} (h : 0 ∉ a :: as) : 0 < a.toNat := by
  have ne : a ≠ 0 := fun zero => h (zero ▸ List.mem_cons_self)
  exact Nat.pos_of_ne_zero fun zero => ne (UInt8.toNat_inj.1 zero)

theorem eq_of_strcmp {as bs : List UInt8} (ha : 0 ∉ as) (hb : 0 ∉ bs) (h : strcmp as bs = 0) : as = bs := by
  induction as generalizing bs with
  | nil =>
    cases bs with
    | nil => rfl
    | cons b bs =>
      have pos := toNat_pos_of_free hb
      simp only [strcmp] at h
      omega
  | cons a as ih =>
    cases bs with
    | nil =>
      have pos := toNat_pos_of_free ha
      simp only [strcmp] at h
      omega
    | cons b bs =>
      simp only [strcmp] at h
      split at h
      case isTrue same =>
        rw [same, ih (fun m => ha (.tail _ m)) (fun m => hb (.tail _ m)) h]
      case isFalse ne => exact absurd (UInt8.toNat_inj.1 (by omega)) ne

theorem strcmp_trans {as bs ds : List UInt8} (ha : 0 ∉ as) (hb : 0 ∉ bs) (hd : 0 ∉ ds)
    (h : strcmp as bs ≤ 0) (h' : strcmp bs ds ≤ 0) : strcmp as ds ≤ 0 := by
  induction as generalizing bs ds with
  | nil => cases ds <;> simp [strcmp]
  | cons a as ih =>
    cases bs with
    | nil =>
      have pos := toNat_pos_of_free ha
      simp only [strcmp] at h
      omega
    | cons b bs =>
      cases ds with
      | nil =>
        have pos := toNat_pos_of_free hb
        simp only [strcmp] at h'
        omega
      | cons d ds =>
        simp only [strcmp] at h h' ⊢
        by_cases hab : a = b
        · subst hab
          by_cases had : a = d
          · subst had
            simp only [if_true] at h h' ⊢
            exact ih (fun m => ha (.tail _ m)) (fun m => hb (.tail _ m)) (fun m => hd (.tail _ m)) h h'
          · simpa only [if_neg had] using h'
        · rw [if_neg hab] at h
          by_cases hbd : b = d
          · subst hbd
            rwa [if_neg hab]
          · rw [if_neg hbd] at h'
            have lt : a.toNat ≠ b.toNat := fun same => hab (UInt8.toNat_inj.1 same)
            have lt' : b.toNat ≠ d.toNat := fun same => hbd (UInt8.toNat_inj.1 same)
            have ne : a ≠ d := fun same => absurd (congrArg UInt8.toNat same) (by omega)
            rw [if_neg ne]
            omega

end strcmp

end Lib
