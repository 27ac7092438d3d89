import En675.Isp.Imd

/-! The first pass labels the components of the part that has been scanned.  Cells are numbered in the
order of the pass. -/

namespace En675.Isp

open Lib

/-- The detector's cell in line `i` and column `j`. -/
def imdCell (word : Nat → Nat → BitVec 32) (i j : Nat) : Bool := (word i (j / 32)).getMsbD (j % 32)

section line

/-- Two nested loops are one. -/
theorem range_flatMap_map (m : Nat) (pos : 0 < n) (f : Nat → Nat → α) :
    ((List.range m).flatMap fun k => (List.range n).map (f k)) =
      (List.range (m * n)).map fun h => f (h / n) (h % n) := by
  induction m with
  | zero => rw [Nat.zero_mul]; rfl
  | succ m ih =>
    rw [List.range_succ, List.flatMap_append, ih, Nat.succ_mul, List.range_add, List.map_append, List.map_map,
      List.flatMap_singleton]
    congr 1
    refine List.map_congr_left fun j hj => ?_
    have lt := List.mem_range.1 hj
    rw [Function.comp_apply, Nat.mul_comm m n, Nat.mul_add_div pos, Nat.div_eq_of_lt lt, Nat.add_zero,
      Nat.mul_add_mod_self_left, Nat.mod_eq_of_lt lt]

theorem imdLine_eq (hw : Nat) (word : Nat → BitVec 32) :
    imdLine hw word = ((List.range 128).map fun j => (word (j / 32)).getMsbD (j % 32)).take hw := by
  rw [imdLine, range_flatMap_map 4 (by decide) fun k j => (word k).getMsbD j]

@[simp] theorem length_imdLine (le : hw ≤ 128) (word : Nat → BitVec 32) : (imdLine hw word).length = hw := by
  rw [imdLine_eq, List.length_take, List.length_map, List.length_range]
  omega

theorem getElem_imdLine (le : hw ≤ 128) (word : Nat → Nat → BitVec 32) (i : Nat) (h : j < hw) :
    (imdLine hw (word i))[j]? = some (imdCell word i j) := by
  rw [imdLine_eq, List.getElem?_take_of_lt h, List.getElem?_map, List.getElem?_range (by omega)]
  rfl

end line

namespace Imd

section order

variable {hw vw : Nat} {word : Nat → Nat → BitVec 32}

/-- The state in which the pass comes to a cell. -/
def before (hw : Nat) (word : Nat → Nat → BitVec 32) (i j : Nat) : Imd :=
  if i = 0 then firstLine ((imdLine hw (word 0)).take j)
  else (scan hw i word).nextLine ((imdLine hw (word i)).take j)

theorem nextLine_take (s : Imd) {bits : List Bool} (h : bits[j]? = some b) :
    s.nextLine (bits.take (j + 1)) = (s.nextLine (bits.take j)).cell j b := by
  have lt : j < bits.length := (List.getElem?_eq_some_iff.1 h).1
  rw [nextLine, nextLine, List.take_add_one, h, List.zipIdx_append, List.foldl_append, List.length_take,
    Nat.min_eq_left lt.le, Nat.zero_add]
  rfl

theorem firstLine_take {bits : List Bool} (pos : 0 < j) (h : bits[j]? = some b) :
    firstLine (bits.take (j + 1)) = (firstLine (bits.take j)).firstCell b := by
  rw [List.take_add_one, h]
  cases bits with
  | nil => cases h
  | cons c bits =>
    obtain ⟨j, rfl⟩ := Nat.exists_eq_succ_of_ne_zero pos.ne'
    rw [List.take_succ_cons]
    exact List.foldl_append

theorem scan_succ (pos : 0 < i) : scan hw (i + 1) word = (scan hw i word).nextLine (imdLine hw (word i)) := by
  obtain ⟨i, rfl⟩ := Nat.exists_eq_succ_of_ne_zero pos.ne'
  rw [scan, scan, Nat.add_sub_cancel, Nat.succ_eq_add_one, Nat.add_sub_cancel, List.range_succ, List.foldl_append]
  rfl

/-- What every step of the pass keeps. -/
theorem scan_ind {I : Nat → Imd → Prop} (one : 0 < hw) (le : hw ≤ 128)
    (point : I 1 (start.firstPoint (imdCell word 0 0)))
    (first : ∀ j, 0 < j → j < hw → I j (before hw word 0 j) →
      I (j + 1) ((before hw word 0 j).firstCell (imdCell word 0 j)))
    (next : ∀ i j, 0 < i → i < vw → j < hw → I (i * hw + j) (before hw word i j) →
      I (i * hw + j + 1) ((before hw word i j).cell j (imdCell word i j)))
    (pos : 0 < i) (hi : i ≤ vw) : I (i * hw) (scan hw i word) := by
  induction i with
  | zero => exact absurd pos (lt_irrefl 0)
  | succ i ih =>
    have columns : ∀ j, 0 < j ∨ 0 < i → j ≤ hw → I (i * hw + j) (before hw word i j) := by
      intro j start hj
      induction j with
      | zero =>
        have i_pos := start.resolve_left (lt_irrefl 0)
        have same : before hw word i 0 = scan hw i word := by
          rw [before, if_neg i_pos.ne']
          rfl
        rw [same]
        exact ih i_pos (Nat.le_of_succ_le hi)
      | succ j ihj =>
        have cell := getElem_imdLine le word i hj
        rcases Nat.eq_zero_or_pos i with rfl | i_pos
        · rw [before, if_pos rfl]
          rcases Nat.eq_zero_or_pos j with rfl | j_pos
          · have line : (imdLine hw (word 0)).take 1 = [imdCell word 0 0] := by
              rw [List.take_add_one, cell]
              rfl
            rw [line, Nat.zero_mul]
            exact point
          · rw [firstLine_take j_pos cell]
            have here := ihj (.inl j_pos) (Nat.le_of_succ_le hj)
            rw [Nat.zero_mul, Nat.zero_add] at here ⊢
            have step := first j j_pos hj here
            rw [before, if_pos rfl] at step
            exact step
        · have step := next i j i_pos hi hj (ihj (.inr i_pos) (Nat.le_of_succ_le hj))
          rw [before, if_neg i_pos.ne'] at step ⊢
          rw [nextLine_take _ cell]
          exact step
    have last := columns hw (.inl one) le_rfl
    have same : before hw word i hw = scan hw (i + 1) word := by
      rw [before, List.take_of_length_le (length_imdLine le _).le, List.take_of_length_le (length_imdLine le _).le]
      rcases Nat.eq_zero_or_pos i with rfl | i_pos
      · rw [if_pos rfl]
        rfl
      · rw [if_neg i_pos.ne', scan_succ i_pos]
    rw [Nat.succ_mul, ← same]
    exact last

end order

section safe

variable {hw n : Nat} {s t : Imd}

/-- What holds of every bitmap, also of one that exhausts the table. -/
structure Safe (hw n : Nat) (s : Imd) : Prop where
  pC : s.pC = n
  pL : s.pL = n - 1
  pU : s.pU = n - hw
  lt : ∀ m, s.img m < s.iLabelValue
  le : s.iLabelValue ≤ imdLutSize
  flat : Flat s.iLabelValue s.equ
  used : ∀ x ∈ s.used, x < imdLutSize

theorem Safe.one_le (h : Safe hw n s) : 1 ≤ s.iLabelValue := (Nat.zero_le _).trans_lt (h.lt 0)

theorem start_safe : Safe hw 0 start where
  pC := rfl
  pL := rfl
  pU := (Nat.zero_sub hw).symm
  lt _ := Nat.one_pos
  le := by decide
  flat := flat_id 1
  used x hx := by
    dsimp only [start] at hx
    exact List.mem_range.1 hx

/-- A cell is written, and the pointers go on. -/
theorem Safe.next (h : Safe hw n s) (img : t.img = Function.update s.img n v) (hv : v < t.iLabelValue)
    (grows : s.iLabelValue ≤ t.iLabelValue) (le : t.iLabelValue ≤ imdLutSize) (flat : Flat t.iLabelValue t.equ)
    (used : ∀ x ∈ t.used, x < imdLutSize) (pC : t.pC = n + 1) (pL : t.pL = n + 1 - 1)
    (pU : t.pU = n + 1 - hw) : Safe hw (n + 1) t where
  pC := pC
  pL := pL
  pU := pU
  lt m := by
    rw [img]
    by_cases at_ : m = n
    · subst at_
      rw [Function.update_self]
      exact hv
    · rw [Function.update_of_ne at_]
      exact (h.lt m).trans_le grows
  le := le
  flat := flat
  used := used

theorem Safe.merge_used (h : Safe hw n s) (a b : Nat) :
    ∀ x ∈ (s.merge (s.img a) (s.img b)).used, x < imdLutSize := by
  have ha := (h.lt a).trans_le h.le
  have hb := (h.lt b).trans_le h.le
  intro x hx
  unfold merge at hx
  dsimp only at hx
  split at hx
  · rcases List.mem_append.1 hx with hx | hx
    · exact h.used x hx
    · rcases List.mem_cons.1 hx with rfl | hx
      · exact ha
      · rcases List.mem_cons.1 hx with rfl | hx
        · exact hb
        · exact (List.mem_range.1 hx).trans_le h.le
  · rcases List.mem_append.1 hx with hx | hx
    · exact h.used x hx
    · rcases List.mem_cons.1 hx with rfl | hx
      · exact ha
      · obtain rfl := List.mem_singleton.1 hx
        exact hb

theorem Safe.root_lt (h : Safe hw n s) (a : Nat) : s.equ (s.img a) < s.iLabelValue :=
  (h.flat.le _).trans_lt (h.lt a)

theorem Safe.merge_flat (h : Safe hw n s) (a b : Nat) (ha : 0 < s.img a) (hb : 0 < s.img b) :
    Flat s.iLabelValue (s.merge (s.img a) (s.img b)).equ := by
  unfold merge
  dsimp only
  split
  · rename_i differ
    split
    · rename_i more
      exact h.flat.relabel (h.root_lt a) more (h.flat.idem _) (h.flat.pos _ hb)
    · rename_i less
      exact h.flat.relabel (h.root_lt b) (by omega) (h.flat.idem _) (h.flat.pos _ ha)
  · exact h.flat

theorem put_merge (s : Imd) (v a b : Nat) : (s.put v).merge a b = (s.merge a b).put v := by
  unfold merge
  dsimp only [put]
  split <;> rfl

@[simp] theorem merge_img (s : Imd) (a b : Nat) : (s.merge a b).img = s.img := by
  unfold merge
  dsimp only
  split <;> rfl

@[simp] theorem merge_iLabelValue (s : Imd) (a b : Nat) : (s.merge a b).iLabelValue = s.iLabelValue := by
  unfold merge
  dsimp only
  split <;> rfl

@[simp] theorem merge_pointers (s : Imd) (a b : Nat) :
    (s.merge a b).pC = s.pC ∧ (s.merge a b).pL = s.pL ∧ (s.merge a b).pU = s.pU := by
  unfold merge
  dsimp only
  split <;> exact ⟨rfl, rfl, rfl⟩

/-- In the first line two new labels are not next to each other. -/
structure FirstSafe (hw n : Nat) (s : Imd) : Prop extends Safe hw n s where
  few : 2 * (s.iLabelValue - 1) ≤ n + if s.img (n - 1) = 0 then 0 else 1

theorem Safe.firstPoint (h : Safe hw 0 s) (one : 0 < hw) (fresh : s.iLabelValue = 1) (b : Bool) :
    FirstSafe hw 1 (s.firstPoint b) := by
  have at_ := h.pC
  have pC : s.pC + 1 = 0 + 1 := by rw [h.pC]
  have pU : s.pU = 0 + 1 - hw := by rw [h.pU]; omega
  have table : imdLutSize = 255 := rfl
  cases b with
  | false =>
    refine ⟨h.next (congrArg (Function.update s.img · 0) at_) h.one_le le_rfl h.le h.flat h.used pC h.pL pU, ?_⟩
    change 2 * (s.iLabelValue - 1) ≤ _
    omega
  | true =>
    refine ⟨h.next (congrArg (Function.update s.img · s.iLabelValue) at_) (Nat.lt_succ_self _) (Nat.le_succ _)
      ?_ (h.flat.mono (Nat.le_succ _)) h.used pC h.pL pU, ?_⟩
    · change s.iLabelValue + 1 ≤ imdLutSize
      omega
    · change 2 * (s.iLabelValue + 1 - 1) ≤ 1 + if Function.update s.img s.pC s.iLabelValue 0 = 0 then 0 else 1
      rw [at_, Function.update_self, if_neg (by omega)]
      omega

theorem FirstSafe.firstCell (h : FirstSafe hw n s) (pos : 0 < n) (lt : n < hw) (le : hw ≤ 128) (b : Bool) :
    FirstSafe hw (n + 1) (s.firstCell b) := by
  have few := h.few
  have one := h.one_le
  have at_ := h.pC
  have pC : s.pC + 1 = n + 1 := by rw [h.pC]
  have pL : s.pL + 1 = n + 1 - 1 := by rw [h.pL]; omega
  have pU : s.pU = n + 1 - hw := by rw [h.pU]; omega
  have last : n + 1 - 1 = n := rfl
  have table : imdLutSize = 255 := rfl
  unfold Imd.firstCell
  dsimp only
  split
  · refine ⟨h.next (congrArg (Function.update s.img · 0) at_) one le_rfl h.le h.flat h.used pC pL pU, ?_⟩
    change 2 * (s.iLabelValue - 1) ≤ n + 1 + if Function.update s.img s.pC 0 (n + 1 - 1) = 0 then 0 else 1
    rw [last, at_, Function.update_self]
    split at few <;> omega
  · rename_i set_
    split
    · rename_i fresh
      have left : s.img (n - 1) = 0 := by
        rw [h.pL] at fresh
        by_contra left
        exact fresh ((eq_true_of_ne_false set_).trans (decide_eq_true (Nat.pos_of_ne_zero left)).symm)
      rw [if_pos left] at few
      refine ⟨h.next (congrArg (Function.update s.img · s.iLabelValue) at_) (Nat.lt_succ_self _) (Nat.le_succ _)
        ?_ (h.flat.mono (Nat.le_succ _)) h.used pC pL pU, ?_⟩
      · change s.iLabelValue + 1 ≤ imdLutSize
        omega
      · change 2 * (s.iLabelValue + 1 - 1) ≤
          n + 1 + if Function.update s.img s.pC s.iLabelValue (n + 1 - 1) = 0 then 0 else 1
        rw [last, at_, Function.update_self, if_neg (by omega)]
        omega
    · refine ⟨h.next (congrArg (Function.update s.img · _) at_) (h.lt _) le_rfl h.le h.flat h.used pC pL pU, ?_⟩
      change 2 * (s.iLabelValue - 1) ≤
        n + 1 + if Function.update s.img s.pC (s.img s.pL) (n + 1 - 1) = 0 then 0 else 1
      rw [last, at_, Function.update_self, h.pL]
      split at few <;> split <;> omega

theorem Safe.cell (h : Safe hw n s) (pos : 0 < n) (le : hw ≤ n) (j : Nat) (b : Bool) :
    Safe hw (n + 1) (s.cell j b) := by
  have one := h.one_le
  have at_ := h.pC
  have pC : s.pC + 1 = n + 1 := by rw [h.pC]
  have pL : s.pL + 1 = n + 1 - 1 := by rw [h.pL]; omega
  have pU : s.pU + 1 = n + 1 - hw := by rw [h.pU]; omega
  unfold Imd.cell
  dsimp only
  split
  · exact h.next (congrArg (Function.update s.img · 0) at_) one le_rfl h.le h.flat h.used pC pL pU
  · rename_i room
    rw [not_or] at room
    have le' := h.le
    split
    · exact h.next (congrArg (Function.update s.img · s.iLabelValue) at_) (Nat.lt_succ_self _) (Nat.le_succ _)
        (lt_of_le_of_ne le' room.2) (h.flat.mono (Nat.le_succ _)) h.used pC pL pU
    · split
      · exact h.next (congrArg (Function.update s.img · _) at_) (h.lt _) le_rfl h.le h.flat h.used pC pL pU
      · rename_i up
        split
        · exact h.next (congrArg (Function.update s.img · _) at_) (h.lt _) le_rfl h.le h.flat h.used pC pL pU
        · rename_i left
          have up := not_not.1 up
          have left := not_not.1 left
          have set_ := eq_true_of_ne_false room.1
          have up_pos : 0 < s.img s.pU := of_decide_eq_true (up.symm.trans set_)
          have left_pos : 0 < s.img s.pL := (of_decide_eq_true (left.symm.trans set_)).2
          obtain ⟨same_pC, same_pL, same_pU⟩ := merge_pointers s (s.img s.pU) (s.img s.pL)
          have label := merge_iLabelValue s (s.img s.pU) (s.img s.pL)
          rw [put_merge]
          refine h.next ?_ ((h.lt s.pU).trans_eq label.symm) label.ge (label.trans_le h.le) ?_
            (h.merge_used s.pU s.pL) ((congrArg (· + 1) same_pC).trans pC) ((congrArg (· + 1) same_pL).trans pL)
            ((congrArg (· + 1) same_pU).trans pU)
          · change Function.update (s.merge _ _).img (s.merge _ _).pC _ = _
            rw [merge_img, same_pC, at_]
          · exact label.symm ▸ h.merge_flat s.pU s.pL up_pos left_pos

end safe

section labels

variable {hw n : Nat} {bit : Nat → Bool} {s t : Imd}

/-- `x` is the left or the upper neighbour of `c`. -/
def Near (hw x c : Nat) : Prop := c = x + 1 ∧ c % hw ≠ 0 ∨ c = x + hw

/-- The set cells before `n`. -/
def Seen (bit : Nat → Bool) (n : Nat) : Set Nat := {m | m < n ∧ bit m = true}

/-- Two cells have the same label just when they are connected within the part before `n`. -/
structure Labelled (hw : Nat) (bit : Nat → Bool) (n : Nat) (s : Imd) : Prop where
  unset : ∀ m < n, bit m = false → s.img m = 0
  pos : ∀ m < n, bit m = true → 0 < s.img m
  handed : ∀ x, 0 < x → x < s.iLabelValue → ∃ m < n, bit m = true ∧ s.img m = x
  classes : Classifies (Near hw) (Seen bit n) fun m => s.equ (s.img m)

theorem seen_succ_unset (h : bit n = false) : Seen bit (n + 1) = Seen bit n := by
  ext m
  refine ⟨fun seen => ⟨?_, seen.2⟩, fun seen => ⟨seen.1.trans (Nat.lt_succ_self n), seen.2⟩⟩
  refine lt_of_le_of_ne (Nat.le_of_lt_succ seen.1) ?_
  rintro rfl
  exact Bool.false_ne_true (h.symm.trans seen.2)

theorem seen_succ_set (h : bit n = true) : Seen bit (n + 1) = insert n (Seen bit n) := by
  ext m
  constructor
  · rintro ⟨lt, set_⟩
    rcases Nat.lt_succ_iff_lt_or_eq.1 lt with lt | rfl
    · exact .inr ⟨lt, set_⟩
    · exact .inl rfl
  · rintro (rfl | ⟨lt, set_⟩)
    · exact ⟨Nat.lt_succ_self _, h⟩
    · exact ⟨lt.trans (Nat.lt_succ_self n), set_⟩

theorem start_labelled (fresh : s.iLabelValue = 1) : Labelled hw bit 0 s where
  unset m hm := absurd hm (Nat.not_lt_zero m)
  pos m hm := absurd hm (Nat.not_lt_zero m)
  handed x pos lt := by omega
  classes a ha := absurd ha.1 (Nat.not_lt_zero a)

/-- An unset cell. -/
theorem Labelled.skip (h : Labelled hw bit n s) (hb : bit n = false) (img : t.img = Function.update s.img n 0)
    (equ : t.equ = s.equ) (label : t.iLabelValue = s.iLabelValue) : Labelled hw bit (n + 1) t where
  unset m hm hbm := by
    rw [img]
    rcases Nat.lt_succ_iff_lt_or_eq.1 hm with lt | rfl
    · rw [Function.update_of_ne lt.ne]
      exact h.unset m lt hbm
    · exact Function.update_self ..
  pos m hm hbm := by
    have seen : m ∈ Seen bit n := seen_succ_unset hb ▸ ⟨hm, hbm⟩
    rw [img, Function.update_of_ne seen.1.ne]
    exact h.pos m seen.1 hbm
  handed x pos lt := by
    obtain ⟨m, hm, hbm, at_⟩ := h.handed x pos (label ▸ lt)
    refine ⟨m, hm.trans (Nat.lt_succ_self n), hbm, ?_⟩
    rw [img, Function.update_of_ne hm.ne]
    exact at_
  classes := by
    rw [seen_succ_unset hb]
    intro a ha b hb
    dsimp only
    rw [img, equ, Function.update_of_ne ha.1.ne, Function.update_of_ne hb.1.ne]
    exact h.classes a ha b hb

/-- A set cell: the new table joins the classes of its neighbours, and its label is of that class. -/
theorem Labelled.add (h : Labelled hw bit n s) (one : 0 < hw) (hb : bit n = true)
    (img : t.img = Function.update s.img n v) (pos : 0 < v)
    (handed : ∀ x, s.iLabelValue ≤ x → x < t.iLabelValue → x = v)
    (old : ∀ a ∈ Seen bit n, ∀ b ∈ Seen bit n, t.equ (s.img a) = t.equ (s.img b) ↔
      s.equ (s.img a) = s.equ (s.img b) ∨
        Touches (Near hw) (Seen bit n) (fun m => s.equ (s.img m)) n a ∧
          Touches (Near hw) (Seen bit n) (fun m => s.equ (s.img m)) n b)
    (new : ∀ a ∈ Seen bit n, t.equ (s.img a) = t.equ v ↔
      Touches (Near hw) (Seen bit n) (fun m => s.equ (s.img m)) n a) :
    Labelled hw bit (n + 1) t where
  unset m hm hbm := by
    rcases Nat.lt_succ_iff_lt_or_eq.1 hm with lt | rfl
    · rw [img, Function.update_of_ne lt.ne]
      exact h.unset m lt hbm
    · exact absurd (hbm.symm.trans hb) Bool.false_ne_true
  pos m hm hbm := by
    rw [img]
    rcases Nat.lt_succ_iff_lt_or_eq.1 hm with lt | rfl
    · rw [Function.update_of_ne lt.ne]
      exact h.pos m lt hbm
    · rw [Function.update_self]
      exact pos
  handed x hx lt := by
    rw [img]
    by_cases before_ : x < s.iLabelValue
    · obtain ⟨m, hm, hbm, at_⟩ := h.handed x hx before_
      refine ⟨m, hm.trans (Nat.lt_succ_self n), hbm, ?_⟩
      rw [Function.update_of_ne hm.ne]
      exact at_
    · refine ⟨n, Nat.lt_succ_self n, hb, ?_⟩
      rw [Function.update_self]
      exact (handed x (not_lt.1 before_) lt).symm
  classes := by
    rw [seen_succ_set hb]
    refine h.classes.insert ?_ ?_ ?_
    · rintro x hx near
      have le : x ≤ n := by
        rcases hx with rfl | hx
        · exact le_rfl
        · exact hx.1.le
      rcases near with ⟨after, -⟩ | below <;> omega
    · intro a ha b hb
      rw [img, Function.update_of_ne ha.1.ne, Function.update_of_ne hb.1.ne]
      exact old a ha b hb
    · intro a ha
      rw [img, Function.update_of_ne ha.1.ne, Function.update_self]
      exact new a ha

/-- A set cell without neighbours. -/
theorem Labelled.fresh (h : Labelled hw bit n s) (safe : Safe hw n s) (one : 0 < hw) (hb : bit n = true)
    (alone : ∀ x ∈ Seen bit n, ¬Near hw x n) (img : t.img = Function.update s.img n s.iLabelValue)
    (equ : t.equ = s.equ) (label : t.iLabelValue = s.iLabelValue + 1) : Labelled hw bit (n + 1) t := by
  have apart : ∀ a, ¬Touches (Near hw) (Seen bit n) (fun m => s.equ (s.img m)) n a := by
    rintro a ⟨x, hx, near, -⟩
    exact alone x hx near
  refine h.add one hb img safe.one_le (fun x hx lt => by omega) (fun a ha b hb => ?_) fun a ha => ?_
  · rw [equ]
    exact (or_iff_left fun both => apart a both.1).symm
  · refine iff_of_false (fun same => ?_) (apart a)
    rw [equ, safe.flat.beyond s.iLabelValue le_rfl] at same
    exact (safe.root_lt a).ne same

/-- A set cell with one neighbour. -/
theorem Labelled.single (h : Labelled hw bit n s) (one : 0 < hw) (hb : bit n = true)
    (hu : u ∈ Seen bit n) (near : Near hw u n) (only : ∀ x ∈ Seen bit n, Near hw x n → x = u)
    (img : t.img = Function.update s.img n (s.img u)) (equ : t.equ = s.equ)
    (label : t.iLabelValue = s.iLabelValue) : Labelled hw bit (n + 1) t := by
  have touches : ∀ a, Touches (Near hw) (Seen bit n) (fun m => s.equ (s.img m)) n a ↔
      s.equ (s.img u) = s.equ (s.img a) := by
    intro a
    refine ⟨?_, fun same => ⟨u, hu, near, same⟩⟩
    rintro ⟨x, hx, near_, same⟩
    exact only x hx near_ ▸ same
  refine h.add one hb img (h.pos u hu.1 hu.2) (fun x hx lt => by omega) (fun a ha b hb => ?_) fun a ha => ?_
  · rw [equ, touches, touches]
    exact (or_iff_left_of_imp fun both => both.1.symm.trans both.2).symm
  · rw [equ, touches]
    exact eq_comm

theorem merge_equ_iff (safe : Safe hw n s) (u l x y : Nat) :
    (s.merge (s.img u) (s.img l)).equ x = (s.merge (s.img u) (s.img l)).equ y ↔
      s.equ x = s.equ y ∨ (s.equ (s.img u) = s.equ x ∨ s.equ (s.img l) = s.equ x) ∧
        (s.equ (s.img u) = s.equ y ∨ s.equ (s.img l) = s.equ y) := by
  unfold merge
  dsimp only
  split
  · split
    · rw [relabel_eq_iff safe.flat (safe.root_lt u)]
      simp only [eq_comm]
    · rw [relabel_eq_iff safe.flat (safe.root_lt l)]
      simp only [eq_comm, or_comm]
  · dsimp only
    omega

/-- A set cell with both neighbours. -/
theorem Labelled.both (h : Labelled hw bit n s) (safe : Safe hw n s) (one : 0 < hw) (hb : bit n = true)
    (hu : u ∈ Seen bit n) (hl : l ∈ Seen bit n) (near_u : Near hw u n) (near_l : Near hw l n)
    (only : ∀ x ∈ Seen bit n, Near hw x n → x = u ∨ x = l)
    (img : t.img = Function.update s.img n (s.img u)) (equ : t.equ = (s.merge (s.img u) (s.img l)).equ)
    (label : t.iLabelValue = s.iLabelValue) : Labelled hw bit (n + 1) t := by
  have touches : ∀ a, Touches (Near hw) (Seen bit n) (fun m => s.equ (s.img m)) n a ↔
      s.equ (s.img u) = s.equ (s.img a) ∨ s.equ (s.img l) = s.equ (s.img a) := by
    intro a
    constructor
    · rintro ⟨x, hx, near, same⟩
      rcases only x hx near with rfl | rfl
      · exact .inl same
      · exact .inr same
    · rintro (same | same)
      · exact ⟨u, hu, near_u, same⟩
      · exact ⟨l, hl, near_l, same⟩
  refine h.add one hb img (h.pos u hu.1 hu.2) (fun x hx lt => by omega) (fun a ha b hb => ?_) fun a ha => ?_
  · rw [equ, merge_equ_iff safe, touches, touches]
  · rw [equ, merge_equ_iff safe, touches]
    omega

section steps

variable (h : Labelled hw bit n s) (safe : Safe hw n s) (one : 0 < hw)

include h

theorem Labelled.set_iff (hm : m < n) : 0 < s.img m ↔ bit m = true := by
  cases hb : bit m with
  | false => exact iff_of_false (by rw [h.unset m hm hb]; exact lt_irrefl 0) Bool.false_ne_true
  | true => exact iff_of_true (h.pos m hm hb) rfl

theorem Labelled.decide_set (hm : m < n) : decide (0 < s.img m) = bit m := by
  cases hb : bit m with
  | false => exact decide_eq_false (by rw [h.unset m hm hb]; exact lt_irrefl 0)
  | true => exact decide_eq_true (h.pos m hm hb)

include safe one

/-- The first cell has no neighbour. -/
theorem Labelled.firstPoint (start : n = 0) : Labelled hw bit (n + 1) (s.firstPoint (bit n)) := by
  subst start
  have at_ := safe.pC
  cases hb : bit 0 with
  | false => exact h.skip hb (congrArg (Function.update s.img · 0) at_) rfl rfl
  | true =>
    exact h.fresh safe one hb (fun x hx => absurd hx.1 (Nat.not_lt_zero x))
      (congrArg (Function.update s.img · s.iLabelValue) at_) rfl rfl

/-- A cell of the first line has at most a left neighbour. -/
theorem Labelled.firstCell (pos : 0 < n) (lt : n < hw) : Labelled hw bit (n + 1) (s.firstCell (bit n)) := by
  have at_ := safe.pC
  have left := h.decide_set (m := n - 1) (by omega)
  have near : ∀ x ∈ Seen bit n, Near hw x n → x = n - 1 := by
    rintro x hx (⟨after, -⟩ | below) <;> omega
  unfold Imd.firstCell
  rw [safe.pL, left]
  dsimp only
  split
  · rename_i unset
    exact h.skip unset (congrArg (Function.update s.img · 0) at_) rfl rfl
  · rename_i set_
    have set_ := eq_true_of_ne_false set_
    split
    · rename_i differs
      refine h.fresh safe one set_ (fun x hx near_ => ?_)
        (congrArg (Function.update s.img · s.iLabelValue) at_) rfl rfl
      obtain rfl := near x hx near_
      exact differs (set_.trans hx.2.symm)
    · rename_i same
      have hl : n - 1 ∈ Seen bit n := ⟨by omega, (not_not.1 same).symm.trans set_⟩
      have next : Near hw (n - 1) n := .inl ⟨by omega, by rw [Nat.mod_eq_of_lt lt]; omega⟩
      exact h.single one set_ hl next near (congrArg (Function.update s.img · _) at_) rfl rfl

/-- A cell of a later line, as long as the table is not full. -/
theorem Labelled.cell (hj : n % hw = j) (le : hw ≤ n) (room : bit n = true → s.iLabelValue ≠ imdLutSize) :
    Labelled hw bit (n + 1) (s.cell j (bit n)) := by
  have at_ := safe.pC
  have up := h.decide_set (m := n - hw) (by omega)
  have left : decide (j ≠ 0 ∧ 0 < s.img (n - 1)) = decide (j ≠ 0 ∧ bit (n - 1) = true) := by
    have set_ := h.set_iff (m := n - 1) (by omega)
    exact decide_eq_decide.2 (and_congr_right' set_)
  have near_iff : ∀ x, Near hw x n ↔ x = n - 1 ∧ j ≠ 0 ∨ x = n - hw := by
    intro x
    unfold Near
    rw [hj]
    omega
  have seen_up (set_ : bit (n - hw) = true) : n - hw ∈ Seen bit n := ⟨by omega, set_⟩
  have seen_left (set_ : bit (n - 1) = true) : n - 1 ∈ Seen bit n := ⟨by omega, set_⟩
  unfold Imd.cell
  rw [safe.pL, safe.pU, up, left]
  dsimp only
  split
  · rename_i out
    have unset : bit n = false := by
      rcases out with unset | full
      · exact unset
      · by_contra set_
        exact room (eq_true_of_ne_false set_) full
    exact h.skip unset (congrArg (Function.update s.img · 0) at_) rfl rfl
  · rename_i out
    have set_ := eq_true_of_ne_false (not_or.1 out).1
    rw [set_]
    split
    · rename_i differs
      refine h.fresh safe one set_ (fun x hx near => ?_)
        (congrArg (Function.update s.img · s.iLabelValue) at_) rfl rfl
      rcases (near_iff x).1 near with ⟨rfl, inner⟩ | rfl
      · exact differs.2 (decide_eq_true ⟨inner, hx.2⟩).symm
      · exact differs.1 hx.2.symm
    · rename_i some_
      split
      · rename_i not_up
        have is_left := of_decide_eq_true (not_not.1 fun not_left => some_ ⟨not_up, not_left⟩).symm
        refine h.single one set_ (seen_left is_left.2) ((near_iff _).2 (.inl ⟨rfl, is_left.1⟩)) (fun x hx near => ?_)
          (congrArg (Function.update s.img · _) at_) rfl rfl
        rcases (near_iff x).1 near with ⟨rfl, -⟩ | rfl
        · rfl
        · exact absurd hx.2.symm not_up
      · rename_i is_up
        have is_up := (not_not.1 is_up).symm
        split
        · rename_i not_left
          refine h.single one set_ (seen_up is_up) ((near_iff _).2 (.inr rfl)) (fun x hx near => ?_)
            (congrArg (Function.update s.img · _) at_) rfl rfl
          rcases (near_iff x).1 near with ⟨rfl, inner⟩ | rfl
          · exact absurd (decide_eq_true ⟨inner, hx.2⟩).symm not_left
          · rfl
        · rename_i is_left
          have is_left := of_decide_eq_true (not_not.1 is_left).symm
          have label := merge_iLabelValue s (s.img (n - hw)) (s.img (n - 1))
          obtain ⟨same_pC, -, -⟩ := merge_pointers s (s.img (n - hw)) (s.img (n - 1))
          rw [put_merge]
          refine h.both safe one set_ (seen_up is_up) (seen_left is_left.2) ((near_iff _).2 (.inr rfl))
            ((near_iff _).2 (.inl ⟨rfl, is_left.1⟩)) (fun x hx near => ?_) ?_ rfl label
          · rcases (near_iff x).1 near with ⟨rfl, -⟩ | rfl
            · exact .inr rfl
            · exact .inl rfl
          · change Function.update (s.merge _ _).img (s.merge _ _).pC _ = _
            rw [merge_img, same_pC, at_]

end steps

end labels

section runs

variable {hw vw i : Nat} {word : Nat → Nat → BitVec 32}

/-- The cells in the order of the pass. -/
def imdBit (hw : Nat) (word : Nat → Nat → BitVec 32) (m : Nat) : Bool := imdCell word (m / hw) (m % hw)

theorem imdBit_eq (hj : j < hw) (word : Nat → Nat → BitVec 32) (i : Nat) :
    imdBit hw word (i * hw + j) = imdCell word i j := by
  have pos : 0 < hw := (Nat.zero_le j).trans_lt hj
  rw [imdBit, Nat.mul_comm, Nat.mul_add_div pos, Nat.div_eq_of_lt hj, Nat.add_zero, Nat.mul_add_mod_self_left,
    Nat.mod_eq_of_lt hj]

/-- When the pass comes to a set cell behind the first line there is a label left. -/
def Roomy (hw vw : Nat) (word : Nat → Nat → BitVec 32) : Prop :=
  ∀ i j, 0 < i → i < vw → j < hw → imdCell word i j = true → (before hw word i j).iLabelValue ≠ imdLutSize

theorem firstPoint_safe (one : 0 < hw) (b : Bool) : FirstSafe hw 1 (start.firstPoint b) :=
  start_safe.firstPoint one rfl b

theorem scan_safe (one : 0 < hw) (le : hw ≤ 128) (pos : 0 < i) : Safe hw (i * hw) (scan hw i word) := by
  have keeps : Safe hw (i * hw) (scan hw i word) ∧ (i * hw < hw → FirstSafe hw (i * hw) (scan hw i word)) := by
    refine scan_ind (I := fun n s => Safe hw n s ∧ (n < hw → FirstSafe hw n s)) one le ?_ ?_ ?_ pos le_rfl
    · have first := firstPoint_safe one (imdCell word 0 0)
      exact ⟨first.toSafe, fun _ => first⟩
    · intro j j_pos hj h
      have first := (h.2 hj).firstCell j_pos hj le (imdCell word 0 j)
      exact ⟨first.toSafe, fun _ => first⟩
    · intro i' j i_pos _ _ h
      have line : hw ≤ i' * hw := Nat.le_mul_of_pos_left hw i_pos
      exact ⟨h.1.cell (by omega) (by omega) j _, fun lt => by omega⟩
  exact keeps.1

theorem scan_labelled (one : 0 < hw) (le : hw ≤ 128) (pos : 0 < i) (hi : i ≤ vw) (room : Roomy hw vw word) :
    Safe hw (i * hw) (scan hw i word) ∧ Labelled hw (imdBit hw word) (i * hw) (scan hw i word) := by
  have first_bit : ∀ j < hw, imdCell word 0 j = imdBit hw word j := by
    intro j hj
    have same := imdBit_eq hj word 0
    rw [Nat.zero_mul, Nat.zero_add] at same
    exact same.symm
  have keeps : (Safe hw (i * hw) (scan hw i word) ∧ Labelled hw (imdBit hw word) (i * hw) (scan hw i word)) ∧
      (i * hw < hw → FirstSafe hw (i * hw) (scan hw i word)) := by
    refine scan_ind
      (I := fun n s => (Safe hw n s ∧ Labelled hw (imdBit hw word) n s) ∧ (n < hw → FirstSafe hw n s))
      one le ?_ ?_ ?_ pos hi
    · have first := firstPoint_safe one (imdCell word 0 0)
      refine ⟨⟨first.toSafe, ?_⟩, fun _ => first⟩
      rw [first_bit 0 one]
      exact (start_labelled rfl).firstPoint start_safe one rfl
    · intro j j_pos hj h
      have first := (h.2 hj).firstCell j_pos hj le (imdCell word 0 j)
      refine ⟨⟨first.toSafe, ?_⟩, fun _ => first⟩
      rw [first_bit j hj]
      exact h.1.2.firstCell h.1.1 one j_pos hj
    · intro i' j i_pos hi' hj h
      have line : hw ≤ i' * hw := Nat.le_mul_of_pos_left hw i_pos
      refine ⟨⟨h.1.1.cell (by omega) (by omega) j _, ?_⟩, fun lt => by omega⟩
      have column : (i' * hw + j) % hw = j := by
        rw [Nat.mul_comm, Nat.mul_add_mod_self_left, Nat.mod_eq_of_lt hj]
      have bit := imdBit_eq hj word i'
      rw [← bit]
      exact h.1.2.cell h.1.1 one column (by omega) fun set_ => room i' j i_pos hi' hj (bit ▸ set_)
  exact keeps.1

end runs

end Imd

end En675.Isp
