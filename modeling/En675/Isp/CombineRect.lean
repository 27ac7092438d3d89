import En675.Isp.Imd
import En675.Lib.Gather

/-! Boxes that touch are combined (`CombineRect`). -/

namespace En675.Isp

open Lib

namespace BRect

/-- `ISOLT`, along one axis. -/
def isolT (s1 e1 s2 e2 : Nat) : Bool := if s1 < s2 then s2 ≤ e1 else s1 ≤ e2

/-- `ISOL`. -/
def isol (r1 r2 : BRect) : Bool := isolT r1.sx r1.ex r2.sx r2.ex && isolT r1.sy r1.ey r2.sy r2.ey

/-- The box of `eqMin` takes in that of `eqMax`. -/
def extend (r1 r2 : BRect) : BRect :=
  { sx := if r2.sx < r1.sx then r2.sx else r1.sx
    ex := if r1.ex < r2.ex then r2.ex else r1.ex
    sy := if r2.sy < r1.sy then r2.sy else r1.sy
    ey := if r1.ey < r2.ey then r2.ey else r1.ey }

end BRect

/-- The loops; `EQU` is of bytes. -/
structure Combine where
  equ : Nat → Nat
  rtSrc : Nat → BRect

namespace Combine

def start (rtSrc : Nat → BRect) : Combine := ⟨fun i => i % 2 ^ 8, rtSrc⟩

def mergeRound (eqMax eqMin : Nat) (s : Combine) (k : Nat) : Combine :=
  if s.equ k = eqMax then
    ⟨Function.update s.equ k eqMin,
      Function.update s.rtSrc eqMin ((s.rtSrc eqMin).extend (s.rtSrc eqMax))⟩
  else s

def compare (aiNum i : Nat) (s : Combine) (j : Nat) : Combine :=
  if i = j ∨ s.equ i = s.equ j then s
  else if (s.rtSrc (s.equ i)).isol (s.rtSrc (s.equ j)) then
    let eqMax := if s.equ j < s.equ i then s.equ i else s.equ j
    let eqMin := if s.equ j < s.equ i then s.equ j else s.equ i
    (List.range aiNum).foldl (mergeRound eqMax eqMin) s
  else s

/-- The first `j` comparisons of `i`. -/
def row (aiNum i j : Nat) (s : Combine) : Combine := (List.range j).foldl (compare aiNum i) s

def rows (aiNum i : Nat) (s : Combine) : Combine := (List.range i).foldl (fun s i => s.row aiNum i aiNum) s

/-- The loops where they come to `i` and `j`. -/
def before (rtSrc : Nat → BRect) (aiNum i j : Nat) : Combine := ((start rtSrc).rows aiNum i).row aiNum i j

def moveRound (equ : Nat → Nat) (s : (Nat → BRect) × Nat) (k : Nat) : (Nat → BRect) × Nat :=
  if equ k = k then (if k ≠ s.2 then Function.update s.1 s.2 (s.1 k) else s.1, s.2 + 1) else s

end Combine

/-- `CombineRect`: the array, and how many of it are left. -/
def combineRect (rtSrc : Nat → BRect) (aiNum : Nat) : (Nat → BRect) × Nat :=
  let s := (Combine.start rtSrc).rows aiNum aiNum
  (List.range aiNum).foldl (Combine.moveRound s.equ) (s.rtSrc, 0)

section order

namespace BRect

variable {r s t : BRect}

/-- `r ≤ s` when `s` contains `r`. -/
instance : SemilatticeSup BRect where
  le r s := s.sx ≤ r.sx ∧ r.ex ≤ s.ex ∧ s.sy ≤ r.sy ∧ r.ey ≤ s.ey
  sup := extend
  le_refl _ := ⟨le_rfl, le_rfl, le_rfl, le_rfl⟩
  le_trans _ _ _ h h' := ⟨h'.1.trans h.1, h.2.1.trans h'.2.1, h'.2.2.1.trans h.2.2.1, h.2.2.2.trans h'.2.2.2⟩
  le_antisymm r s h h' := by
    cases r
    cases s
    simp only [BRect.mk.injEq]
    dsimp only at h h'
    omega
  le_sup_left r s := by
    simp only [extend]
    refine ⟨?_, ?_, ?_, ?_⟩ <;> split <;> omega
  le_sup_right r s := by
    simp only [extend]
    refine ⟨?_, ?_, ?_, ?_⟩ <;> split <;> omega
  sup_le r s t h h' := by
    simp only [extend]
    refine ⟨?_, ?_, ?_, ?_⟩ <;> split <;> omega

theorem le_iff (r s : BRect) : r ≤ s ↔ s.sx ≤ r.sx ∧ r.ex ≤ s.ex ∧ s.sy ≤ r.sy ∧ r.ey ≤ s.ey := Iff.rfl

theorem extend_eq (r s : BRect) : r.extend s = r ⊔ s := rfl

/-- A box with cells in it. -/
def Full (r : BRect) : Prop := r.sx < r.ex ∧ r.sy < r.ey

instance (r : BRect) : Decidable r.Full := inferInstanceAs (Decidable (_ ∧ _))

theorem Full.mono (h : r.Full) (le : r ≤ s) : s.Full := by
  unfold Full at h ⊢
  rw [le_iff] at le
  omega

/-- The boxes overlap, or their edges meet. -/
def Meets (r s : BRect) : Prop := (s.sx ≤ r.ex ∧ r.sx ≤ s.ex) ∧ s.sy ≤ r.ey ∧ r.sy ≤ s.ey

instance : DecidableRel Meets := fun _ _ => inferInstanceAs (Decidable (_ ∧ _))

theorem Meets.symm (h : r.Meets s) : s.Meets r := ⟨h.1.symm, h.2.symm⟩

theorem Meets.mono (le : s ≤ t) (h : r.Meets s) : r.Meets t := by
  unfold Meets at h ⊢
  rw [le_iff] at le
  omega

theorem isolT_iff (h1 : s1 < e1) (h2 : s2 < e2) : isolT s1 e1 s2 e2 = true ↔ s2 ≤ e1 ∧ s1 ≤ e2 := by
  unfold isolT
  split
  · rw [decide_eq_true_iff]
    omega
  · rw [decide_eq_true_iff]
    omega

theorem isol_iff (hr : r.Full) (hs : s.Full) : r.isol s = true ↔ r.Meets s := by
  rw [isol, Bool.and_eq_true, isolT_iff hr.1 hs.1, isolT_iff hr.2 hs.2]
  rfl

theorem Meets.of_le (hr : r.Full) (hrs : r ≤ s) (hrt : r ≤ t) : s.Meets t := by
  unfold Full at hr
  rw [le_iff] at hrs hrt
  unfold Meets
  omega

end BRect

end order

section gather

namespace Combine

variable {rt : Nat → BRect} {n : Nat}

/-- The loops as a gathering of boxes. -/
def toGather (s : Combine) : Gather BRect := ⟨s.equ, s.rtSrc⟩

theorem merge_rounds (s : Combine) {eqMax eqMin : Nat} (other : eqMin ≠ eqMax) (m : Nat) :
    (List.range m).foldl (mergeRound eqMax eqMin) s =
      ⟨relabel m eqMax eqMin s.equ,
        if ∃ k < m, s.equ k = eqMax then Function.update s.rtSrc eqMin (s.rtSrc eqMin ⊔ s.rtSrc eqMax)
        else s.rtSrc⟩ := by
  induction m with
  | zero =>
    have same : relabel 0 eqMax eqMin s.equ = s.equ := funext fun k => if_neg fun both => Nat.not_lt_zero k both.1
    rw [same, if_neg fun ⟨k, hk, _⟩ => Nat.not_lt_zero k hk]
    rfl
  | succ m ih =>
    rw [List.range_succ, List.foldl_append, ih, List.foldl_cons, List.foldl_nil]
    have here : relabel m eqMax eqMin s.equ m = s.equ m := if_neg fun both => lt_irrefl m both.1
    by_cases at_ : s.equ m = eqMax
    · have found : ∃ k < m + 1, s.equ k = eqMax := ⟨m, Nat.lt_succ_self m, at_⟩
      rw [mergeRound, if_pos (here.trans at_), if_pos found]
      congr 1
      · funext k
        by_cases is_m : k = m
        · subst is_m
          rw [Function.update_self, relabel, if_pos ⟨Nat.lt_succ_self k, at_⟩]
        · rw [Function.update_of_ne is_m]
          dsimp only [relabel]
          exact if_congr (by omega) rfl rfl
      · dsimp only
        split
        · rw [Function.update_self, Function.update_of_ne other.symm, Function.update_idem, BRect.extend_eq, sup_assoc,
            sup_idem]
        · rfl
    · rw [mergeRound, if_neg fun same => at_ (here.symm.trans same)]
      congr 1
      · funext k
        rw [relabel, relabel]
        refine if_congr ⟨fun both => ⟨both.1.trans (Nat.lt_succ_self m), both.2⟩, fun both => ⟨?_, both.2⟩⟩ rfl rfl
        exact lt_of_le_of_ne (Nat.lt_succ_iff.1 both.1) fun is_m => at_ (is_m ▸ both.2)
      · refine if_congr ⟨fun ⟨k, hk, same⟩ => ⟨k, hk.trans (Nat.lt_succ_self m), same⟩, fun ⟨k, hk, same⟩ => ?_⟩ rfl rfl
        exact ⟨k, lt_of_le_of_ne (Nat.lt_succ_iff.1 hk) fun is_m => at_ (is_m ▸ same), same⟩

theorem compare_eq (s : Combine) (h : Gather.Grouped n rt s.toGather) (full : ∀ k < n, (rt k).Full) (hi : i < n)
    (hj : j < n) : (s.compare n i j).toGather = s.toGather.compare BRect.Meets n i j := by
  have hull_full {x : Nat} (hx : x < n) : (s.rtSrc (s.equ x)).Full :=
    (full x hx).mono ((h.lub x hx).1 ⟨x, ⟨hx, rfl⟩, rfl⟩)
  have meets := BRect.isol_iff (hull_full hi) (hull_full hj)
  rw [compare]
  by_cases same : i = j ∨ s.equ i = s.equ j
  · have one : s.equ i = s.equ j := same.elim (congrArg s.equ) id
    rw [if_pos same, Gather.compare_of_not fun joins => joins.1 one]
  rw [if_neg same]
  have apart : s.equ i ≠ s.equ j := (not_or.1 same).2
  by_cases touch : (s.rtSrc (s.equ i)).isol (s.rtSrc (s.equ j)) = true
  · have joins : s.toGather.Joins BRect.Meets i j := ⟨apart, meets.1 touch⟩
    have most : (if s.equ j < s.equ i then s.equ i else s.equ j) = Nat.max (s.equ i) (s.equ j) := by
      change _ = max _ _
      split <;> omega
    have least : (if s.equ j < s.equ i then s.equ j else s.equ i) = Nat.min (s.equ i) (s.equ j) := by
      change _ = min _ _
      split <;> omega
    have other : Nat.min (s.equ i) (s.equ j) ≠ Nat.max (s.equ i) (s.equ j) := by
      change min _ _ ≠ max _ _
      omega
    have some_ : ∃ k < n, s.equ k = Nat.max (s.equ i) (s.equ j) := by
      rcases Nat.le_total (s.equ i) (s.equ j) with le | le
      · exact ⟨j, hj, (Nat.max_eq_right le).symm⟩
      · exact ⟨i, hi, (Nat.max_eq_left le).symm⟩
    rw [if_pos touch, Gather.compare, if_pos joins]
    dsimp only
    rw [most, least, merge_rounds s other, if_pos some_]
    rfl
  · rw [if_neg touch, Gather.compare_of_not fun joins => touch (meets.2 joins.2)]

/-- Comparison `t` of `n * n`. -/
def turn (n t : Nat) : Nat × Nat := (t / n, t % n)

theorem turn_eq (hj : j < n) (i : Nat) : turn n (i * n + j) = (i, j) := by
  have pos : 0 < n := (Nat.zero_le j).trans_lt hj
  rw [turn, Nat.mul_comm, Nat.mul_add_div pos, Nat.mul_add_mod_self_left, Nat.div_eq_of_lt hj, Nat.mod_eq_of_lt hj,
    Nat.add_zero]

theorem turn_lt (ht : t < n * n) : (turn n t).1 < n ∧ (turn n t).2 < n :=
  ⟨Nat.div_lt_of_lt_mul ht, Nat.mod_lt t (Nat.pos_of_lt_mul_left ht)⟩

theorem turn_index (n t : Nat) : (turn n t).1 * n + (turn n t).2 = t := Nat.div_add_mod' t n

theorem index_lt (hi : i < n) (hj : j < n) : i * n + j < n * n := by
  have rows := Nat.mul_le_mul_right n (Nat.succ_le_of_lt hi)
  rw [Nat.succ_mul] at rows
  omega

section run

variable (small : n ≤ 2 ^ 8) (full : ∀ k < n, (rt k).Full)

include small

theorem grouped_start : Gather.Grouped n rt (start rt).toGather :=
  @Gather.grouped_single _ _ n (start rt).toGather fun _ hx => Nat.mod_eq_of_lt (hx.trans_le small)

/-- The loops after `t` comparisons. -/
theorem grouped_turn (ht : t ≤ n * n) : Gather.Grouped n rt ((start rt).toGather.after BRect.Meets n (turn n) t) :=
  Gather.grouped_after (grouped_start small) (fun _ hu => turn_lt hu) t ht

include full

theorem row_eq (s : Combine) (hi : i < n) (hj : j ≤ n)
    (at_ : s.toGather = (start rt).toGather.after BRect.Meets n (turn n) (i * n)) :
    (s.row n i j).toGather = (start rt).toGather.after BRect.Meets n (turn n) (i * n + j) := by
  induction j with
  | zero => exact at_
  | succ j ih =>
    have below := index_lt hi hj
    have before := ih (Nat.le_of_succ_le hj)
    have grouped : Gather.Grouped n rt _ := grouped_turn small below.le
    rw [← before] at grouped
    have last : s.row n i (j + 1) = (s.row n i j).compare n i j := by
      rw [row, List.range_succ, List.foldl_append]
      rfl
    rw [last, compare_eq _ grouped full hi hj, before, ← Nat.add_assoc, Gather.after, turn_eq hj]

theorem rows_eq (hi : i ≤ n) :
    ((start rt).rows n i).toGather = (start rt).toGather.after BRect.Meets n (turn n) (i * n) := by
  induction i with
  | zero =>
    rw [Nat.zero_mul]
    rfl
  | succ i ih =>
    have last : (start rt).rows n (i + 1) = ((start rt).rows n i).row n i n := by
      rw [rows, List.range_succ, List.foldl_append]
      rfl
    rw [last, row_eq small full _ hi le_rfl (ih (Nat.le_of_succ_le hi)), Nat.succ_mul]

theorem before_eq (hi : i < n) (hj : j ≤ n) :
    (before rt n i j).toGather = (start rt).toGather.after BRect.Meets n (turn n) (i * n + j) :=
  row_eq small full _ hi hj (rows_eq small full hi.le)

end run

/-- The loops join the boxes of `i` and `j`. -/
def Joins (s : Combine) (i j : Nat) : Prop :=
  s.equ i ≠ s.equ j ∧ (s.rtSrc (s.equ i)).isol (s.rtSrc (s.equ j)) = true

instance (s : Combine) (i j : Nat) : Decidable (s.Joins i j) := inferInstanceAs (Decidable (_ ∧ _))

theorem joins_iff {s : Combine} (h : Gather.Grouped n rt s.toGather) (full : ∀ k < n, (rt k).Full) (hi : i < n)
    (hj : j < n) : s.Joins i j ↔ s.toGather.Joins BRect.Meets i j := by
  have hull_full {x : Nat} (hx : x < n) : (s.rtSrc (s.equ x)).Full :=
    (full x hx).mono ((h.lub x hx).1 ⟨x, ⟨hx, rfl⟩, rfl⟩)
  exact and_congr_right fun _ => BRect.isol_iff (hull_full hi) (hull_full hj)

/-- The boxes of `i` and `j` are joined into one that touches a third, and that no later comparison joins
again. -/
structure Leaves (rt : Nat → BRect) (n i j : Nat) : Prop where
  joins : (before rt n i j).Joins i j
  beside : ∃ h < n, (before rt n i (j + 1)).Joins i h
  done : ∀ k < n, ∀ l < n, i < k ∨ i = k ∧ j < l → (before rt n k l).Joins k l →
    (before rt n k l).equ i ≠ (before rt n k l).equ k ∧ (before rt n k l).equ i ≠ (before rt n k l).equ l

theorem index_lt_iff (hj : j < n) (hl : l < n) : i * n + j < k * n + l ↔ i < k ∨ i = k ∧ j < l := by
  rcases Nat.lt_trichotomy i k with less | rfl | more
  · have rows := Nat.mul_le_mul_right n (Nat.succ_le_of_lt less)
    rw [Nat.succ_mul] at rows
    exact iff_of_true (by omega) (.inl less)
  · omega
  · have rows := Nat.mul_le_mul_right n (Nat.succ_le_of_lt more)
    rw [Nat.succ_mul] at rows
    exact iff_of_false (by omega) (by omega)

section leaves

variable (small : n ≤ 2 ^ 8) (full : ∀ k < n, (rt k).Full)

include small full

theorem joins_before (hi : i < n) (hj : j ≤ n) (hx : x < n) (hy : y < n) :
    (before rt n i j).Joins x y ↔
      ((start rt).toGather.after BRect.Meets n (turn n) (i * n + j)).Joins BRect.Meets x y := by
  have at_ := before_eq small full hi hj
  have below : i * n + j ≤ n * n := by
    have rows := Nat.mul_le_mul_right n (Nat.succ_le_of_lt hi)
    rw [Nat.succ_mul] at rows
    omega
  have grouped : Gather.Grouped n rt _ := grouped_turn small below
  rw [← at_] at grouped ⊢
  exact joins_iff grouped full hx hy

theorem leaves_iff (hi : i < n) (hj : j < n) :
    Leaves rt n i j ↔ Gather.Strands BRect.Meets n (turn n) (start rt).toGather (n * n) (i * n + j) := by
  have at_ := turn_eq hj i
  have index {k l : Nat} (hk : k < n) (hl : l < n) (m : Nat) :
      (before rt n k l).equ m = ((start rt).toGather.after BRect.Meets n (turn n) (k * n + l)).rep m := by
    rw [← before_eq small full hk hl.le]
    rfl
  constructor
  · rintro ⟨joins, ⟨h, hh, apart, touch⟩, done⟩
    have beside := (joins_before small full hi hj hi hh).1 ⟨apart, touch⟩
    constructor
    case joins =>
      rw [Gather.JoinsAt, at_]
      exact (joins_before small full hi hj.le hi hj).1 joins
    case beside =>
      rw [at_]
      exact ⟨h, hh, beside.1.symm, beside.2⟩
    case done =>
      intro u later below again
      obtain ⟨hk, hl⟩ := turn_lt below
      rw [← turn_index n u] at again later ⊢
      rw [Gather.JoinsAt, turn_eq hl] at again
      rw [turn_eq hl, at_]
      have order := (index_lt_iff hj hl).1 later
      have apart := done _ hk _ hl order ((joins_before small full hk hl.le hk hl).2 again)
      rw [index hk hl, index hk hl, index hk hl] at apart
      exact not_or.2 apart
  · rintro ⟨joins, ⟨h, hh, apart, touch⟩, done⟩
    rw [Gather.JoinsAt, at_] at joins
    rw [at_] at apart touch
    constructor
    case joins => exact (joins_before small full hi hj.le hi hj).2 joins
    case beside => exact ⟨h, hh, (joins_before small full hi hj hi hh).2 ⟨apart.symm, touch⟩⟩
    case done =>
      intro k hk l hl order again
      have later := (index_lt_iff hj hl).2 order
      have apart := done _ later (index_lt hk hl) (by
        rw [Gather.JoinsAt, turn_eq hl]
        exact (joins_before small full hk hl.le hk hl).1 again)
      rw [turn_eq hl, at_] at apart
      rw [index hk hl, index hk hl, index hk hl]
      exact not_or.1 apart

/-- Such a third box lies before `j` in the last row of the group: all of its members were passed over. -/
theorem Leaves.passed (h : Leaves rt n i j) (hi : i < n) (hj : j < n) (hx : x < n) (hy : y < n)
    (member : (before rt n i (j + 1)).equ x = (before rt n i (j + 1)).equ i)
    (touch : (before rt n i (j + 1)).Joins i y) : x ≤ i ∧ y < j := by
  have strands := (leaves_iff small full hi hj).1 h
  have at_ := turn_eq hj i
  have behind := before_eq small full hi hj
  have joins := (joins_before small full hi hj hi hy).1 touch
  have passed {x y u : Nat} := @Gather.Strands.passed BRect _ BRect.Meets _ n (turn n) (start rt).toGather (n * n)
    (i * n + j) x y u (fun _ _ h => h.symm) (fun _ _ _ le h => h.mono le) (fun _ hu => turn_lt hu) strands
    (index_lt hi hj)
  rw [at_, Nat.add_assoc, ← behind] at passed
  rw [← behind] at joins
  have last {x : Nat} (hx : x < n) (member : (before rt n i (j + 1)).equ x = (before rt n i (j + 1)).equ i) : x ≤ i := by
    by_contra later
    have order := (index_lt_iff hj hy).2 (.inl (Nat.lt_of_not_le later))
    exact (passed joins hx hy member order (index_lt hx hy)).1 (turn_eq hy x)
  have own : (before rt n i (j + 1)).equ j = (before rt n i (j + 1)).equ i := by
    have step : ((before rt n i j).compare n i j).toGather = (before rt n i (j + 1)).toGather := by
      rw [before, before, row, row, List.range_succ, List.foldl_append]
      rfl
    have grouped : Gather.Grouped n rt _ := grouped_turn small (index_lt hi hj).le
    rw [← before_eq small full hi hj.le] at grouped
    have joined := (joins_iff grouped full hi hj).1 h.joins
    rw [compare_eq _ grouped full hi hj] at step
    have same := (Gather.compare_same joined hj hi).2 (.inr ⟨.inr rfl, .inl rfl⟩)
    rw [step] at same
    exact same
  refine ⟨last hx member, lt_of_le_of_ne ?_ ?_⟩
  · by_contra later
    have order : i * n + j < i * n + y := Nat.add_lt_add_left (Nat.lt_of_not_le later) _
    exact (passed joins hi hy rfl order (index_lt hi hy)).1 (turn_eq hy i)
  · rintro rfl
    exact touch.1 own.symm

end leaves

end Combine

end gather

section combined

open Combine

variable {rt : Nat → BRect} {n : Nat}

theorem moveRound_eq (equ : Nat → Nat) : moveRound equ = squeezeRound (IsRoot equ) := by
  funext s k
  rw [moveRound, squeezeRound]
  refine if_congr Iff.rfl (Prod.ext ?_ rfl) rfl
  dsimp only
  split
  · rfl
  · rename_i here
    rw [not_not.1 here, Function.update_eq_self]

theorem combineRect_eq (rt : Nat → BRect) (n : Nat) :
    combineRect rt n = squeeze (IsRoot ((start rt).rows n n).equ) ((start rt).rows n n).rtSrc n := by
  rw [combineRect, moveRound_eq]
  rfl

theorem combineRect_bounds (small : n ≤ 2 ^ 8) (full : ∀ k < n, (rt k).Full) :
    Gather.Bounds n rt (combineRect rt n).1 (combineRect rt n).2 (rank ((start rt).rows n n).equ) := by
  have grouped : Gather.Grouped n rt _ := grouped_turn small le_rfl
  rw [← rows_eq small full le_rfl] at grouped
  rw [combineRect_eq]
  exact grouped.bounds

/-- What `CombineRect` is for: the boxes are put in groups, each of which leaves the box around it, and the
boxes that are left are apart. -/
structure Combines (rt : Nat → BRect) (n : Nat) (group : Nat → Nat) : Prop where
  bounds : Gather.Bounds n rt (combineRect rt n).1 (combineRect rt n).2 group
  only : ∀ k < n, ∀ m < (combineRect rt n).2, rt k ≤ (combineRect rt n).1 m ↔ group k = m
  apart : ∀ l < (combineRect rt n).2, ∀ m < (combineRect rt n).2, l ≠ m →
    ((combineRect rt n).1 l).isol ((combineRect rt n).1 m) = false
  again : combineRect (combineRect rt n).1 (combineRect rt n).2 = combineRect rt n

theorem out_full (h : Gather.Bounds n rt out c group) (full : ∀ k < n, (rt k).Full) (hm : m < c) : (out m).Full := by
  obtain ⟨k, hk, same⟩ := h.onto m hm
  exact (full k hk).mono ((h.lub m hm).1 ⟨k, ⟨hk, same⟩, rfl⟩)

theorem combineRect_of_apart (small : n ≤ 2 ^ 8) (full : ∀ k < n, (rt k).Full)
    (apart : ∀ l < n, ∀ m < n, l ≠ m → (rt l).isol (rt m) = false) : combineRect rt n = (rt, n) := by
  have at_ {x : Nat} (hx : x < n) : (start rt).toGather.rep x = x := Nat.mod_eq_of_lt (hx.trans_le small)
  have alone : ∀ x < n, ∀ y < n, ¬(start rt).toGather.Joins BRect.Meets x y := by
    rintro x hx y hy ⟨other, meets⟩
    rw [Gather.hull, Gather.hull, at_ hx, at_ hy] at meets
    have touch := (BRect.isol_iff (full x hx) (full y hy)).2 meets
    rw [apart x hx y hy fun same => other (congrArg _ same)] at touch
    cases touch
  have stays := Gather.after_of_apart (fun _ hu => turn_lt hu) alone (n * n) le_rfl
  rw [← rows_eq small full le_rfl] at stays
  have equ : ((start rt).rows n n).equ = (start rt).equ := congrArg Gather.rep stays
  have boxes : ((start rt).rows n n).rtSrc = rt := congrArg Gather.box stays
  rw [combineRect_eq, equ, boxes]
  exact squeeze_all _ _ n fun k hk => at_ hk

/-- One pass over the pairs is enough just when no join leaves a box touching another for good. -/
theorem combineRect_iff (rt : Nat → BRect) (n : Nat) (small : n ≤ 50) (full : ∀ k < n, (rt k).Full) :
    (∃ group, Combines rt n group) ↔ ∀ i < n, ∀ j < n, ¬Leaves rt n i j := by
  have bytes : n ≤ 2 ^ 8 := small.trans (by decide)
  have grouped : Gather.Grouped n rt _ := grouped_turn bytes le_rfl
  have touching := @Gather.exists_touch_iff BRect _ BRect.Meets _ n (turn n) (start rt).toGather (n * n)
    (fun _ _ h => h.symm) (fun _ _ _ le h => h.mono le) (fun _ hu => turn_lt hu)
    fun x hx y hy _ => ⟨x * n + y, index_lt hx hy, turn_eq hy x⟩
  have last := rows_eq bytes full (le_refl n)
  rw [← last] at touching grouped
  have bounds := combineRect_bounds bytes full
  have out_eq := combineRect_eq rt n
  have at_ {x : Nat} (hx : x < n) : (combineRect rt n).1 (rank ((start rt).rows n n).equ x) =
      ((start rt).rows n n).toGather.hull x := by
    rw [out_eq]
    exact grouped.squeeze_rank hx
  constructor
  · rintro ⟨group, h⟩ i hi j hj leaves
    obtain ⟨x, hx, y, hy, other, meets⟩ :=
      touching.2 ⟨_, index_lt hi hj, (leaves_iff bytes full hi hj).1 leaves⟩
    have apart := h.apart _ (bounds.into x hx) _ (bounds.into y hy) fun same => other ((grouped.rank_eq_iff hx hy).1 same)
    rw [← at_ hx, ← at_ hy] at meets
    rw [(BRect.isol_iff (out_full bounds full (bounds.into x hx)) (out_full bounds full (bounds.into y hy))).2 meets]
      at apart
    cases apart
  · intro h
    have none_ : ∀ x < n, ∀ y < n, ¬((start rt).rows n n).toGather.Joins BRect.Meets x y := by
      intro x hx y hy joins
      obtain ⟨t, below, strands⟩ := touching.1 ⟨x, hx, y, hy, joins⟩
      obtain ⟨hi, hj⟩ := turn_lt below
      rw [← turn_index n t] at strands
      exact h _ hi _ hj ((leaves_iff bytes full hi hj).2 strands)
    have apart : ∀ l < (combineRect rt n).2, ∀ m < (combineRect rt n).2, l ≠ m →
        ¬((combineRect rt n).1 l).Meets ((combineRect rt n).1 m) := by
      intro l hl m hm other meets
      obtain ⟨x, hx, rfl⟩ := bounds.onto l hl
      obtain ⟨y, hy, rfl⟩ := bounds.onto m hm
      rw [at_ hx, at_ hy] at meets
      exact none_ x hx y hy ⟨fun same => other ((grouped.rank_eq_iff hx hy).2 same), meets⟩
    have out_apart : ∀ l < (combineRect rt n).2, ∀ m < (combineRect rt n).2, l ≠ m →
        ((combineRect rt n).1 l).isol ((combineRect rt n).1 m) = false := fun l hl m hm other =>
      Bool.eq_false_iff.2 fun touch => apart l hl m hm other
        ((BRect.isol_iff (out_full bounds full hl) (out_full bounds full hm)).1 touch)
    refine ⟨rank ((start rt).rows n n).equ, bounds, fun k hk m hm => ⟨fun le => ?_, ?_⟩, out_apart, ?_⟩
    · by_contra other
      have own := (bounds.lub _ (bounds.into k hk)).1 ⟨k, ⟨hk, rfl⟩, rfl⟩
      exact apart _ (bounds.into k hk) m hm other (BRect.Meets.of_le (full k hk) own le)
    · rintro rfl
      exact (bounds.lub _ hm).1 ⟨k, ⟨hk, rfl⟩, rfl⟩
    · exact combineRect_of_apart (bounds.count.trans bytes) (fun m hm => out_full bounds full hm) out_apart

/-- Four boxes: the last two are joined, then reach the second, and with it the first. -/
def fourBoxes : Nat → BRect
  | 0 => ⟨4, 3, 6, 5⟩
  | 1 => ⟨1, 0, 6, 3⟩
  | 2 => ⟨2, 0, 2, 0⟩
  | _ => ⟨4, 2, 4, 2⟩

theorem combineRect_touches : (∀ k < 4, (fourBoxes k).Full) ∧ ¬∃ group, Combines fourBoxes 4 group := by
  refine ⟨by decide, fun ⟨_, h⟩ => ?_⟩
  have left : (combineRect fourBoxes 4).2 = 2 := by decide +kernel
  have touch : ((combineRect fourBoxes 4).1 0).isol ((combineRect fourBoxes 4).1 1) = true := by decide +kernel
  rw [h.apart 0 (by rw [left]; decide) 1 (by rw [left]; decide) (by decide)] at touch
  cases touch

theorem combineRect_two : (∃ group, Combines (fun k => fourBoxes (k + 2)) 2 group) ↔
    ∀ i < 2, ∀ j < 2, ¬Leaves (fun k => fourBoxes (k + 2)) 2 i j :=
  combineRect_iff (fun k => fourBoxes (k + 2)) 2 (by decide) (by decide)

end combined

end En675.Isp
