import En675.Isp.CombineRect
import En675.Lib.Maxima

/-! The windows of the motion detector (`MaskIMD`): those in another one are left out. -/

namespace En675.Isp

open Lib

/-- `MASK_EA`. -/
def maskEa : Nat := 4

/-- `UP_ON`. -/
def upOn : Nat := 1

/-- `_PRIVACY`, of bytes. -/
structure Privacy where
  bAction : Nat
  bPosX : Nat
  bPosY : Nat
  bSizX : Nat
  bSizY : Nat

/-- `bRectMsk(i)` as it is first set. -/
def Privacy.rect (hw vw : Nat) (c : Privacy) : BRect :=
  { sy := min c.bPosY vw % 2 ^ 7
    ey := min (c.bPosY + c.bSizY) vw % 2 ^ 7
    sx := min c.bPosX hw % 2 ^ 7
    ex := min (c.bPosX + c.bSizX) hw % 2 ^ 7 }

/-- All of `r` is in `s`. -/
def BRect.inside (r s : BRect) : Bool := s.sx ≤ r.sx && r.ex ≤ s.ex && s.sy ≤ r.sy && r.ey ≤ s.ey

/-- The globals of the masks, the table of `MaskIMD` and the registers it has set from `IMDAREA_BASE` on. -/
structure MaskImd where
  bRectMsk : Nat → BRect
  gnBoxMskPosNum : Nat
  gbBoxMskLUT : Nat → Nat
  gbMaskOnNum : Nat
  bBoxMskLUT : Nat → Nat
  setIsp : List (Nat × Nat)

namespace MaskImd

/-- Window `i` against the windows before it. -/
def against (pos : Nat → BRect) (i : Nat) : List Nat → (Nat → Nat) → Nat → Nat
  | [], lut => lut
  | j :: js, lut =>
    if maskEa ≤ lut j then against pos i js lut
    else if (pos i).inside (pos j) then Function.update lut i maskEa
    else if (pos j).inside (pos i) then against pos i js (Function.update lut j maskEa)
    else against pos i js lut

def windowRound (hw vw : Nat) (gbMnImdCfg : Nat → Privacy) (s : MaskImd) (i : Nat) : MaskImd :=
  let nMskOn := if (gbMnImdCfg i).bAction = upOn then 1 else 0
  let r := (gbMnImdCfg i).rect hw vw
  let pos := Function.update s.bRectMsk i r
  { s with
    bRectMsk := pos
    setIsp := s.setIsp ++ [(i, nMskOn <<< 31 ||| r.sy <<< 24 ||| r.ey <<< 16 ||| r.sx <<< 8 ||| r.ex)]
    gbMaskOnNum := s.gbMaskOnNum + nMskOn
    bBoxMskLUT :=
      if nMskOn ≠ 0 then against pos i (List.range i) (Function.update s.bBoxMskLUT i i)
      else Function.update s.bBoxMskLUT i maskEa }

def keepRound (s : MaskImd) (i : Nat) : MaskImd :=
  if s.bBoxMskLUT i = i then
    { s with
      bRectMsk := Function.update s.bRectMsk s.gnBoxMskPosNum (s.bRectMsk i)
      gbBoxMskLUT := Function.update s.gbBoxMskLUT s.gnBoxMskPosNum i
      gnBoxMskPosNum := s.gnBoxMskPosNum + 1 }
  else s

def windows (hw vw : Nat) (gbMnImdCfg : Nat → Privacy) (s : MaskImd) (n : Nat) : MaskImd :=
  (List.range n).foldl (windowRound hw vw gbMnImdCfg) s

end MaskImd

/-- `MaskIMD`. -/
def maskIMD (hw vw : Nat) (gbMnImdCfg : Nat → Privacy) (s : MaskImd) : MaskImd :=
  let s := MaskImd.windows hw vw gbMnImdCfg { s with gbMaskOnNum := 0, setIsp := [] } maskEa
  (List.range maskEa).foldl MaskImd.keepRound { s with gnBoxMskPosNum := 0 }

section windows

/-- The window cut to the picture. -/
def Privacy.clipped (hw vw : Nat) (c : Privacy) : BRect :=
  { sy := min c.bPosY vw
    ey := min (c.bPosY + c.bSizY) vw
    sx := min c.bPosX hw
    ex := min (c.bPosX + c.bSizX) hw }

variable {hw vw : Nat}

theorem Privacy.rect_eq (hx : hw < 2 ^ 7) (hy : vw < 2 ^ 7) (c : Privacy) : c.rect hw vw = c.clipped hw vw := by
  have x (m : Nat) : min m hw % 2 ^ 7 = min m hw := Nat.mod_eq_of_lt ((Nat.min_le_right m hw).trans_lt hx)
  have y (m : Nat) : min m vw % 2 ^ 7 = min m vw := Nat.mod_eq_of_lt ((Nat.min_le_right m vw).trans_lt hy)
  rw [Privacy.rect, Privacy.clipped, x, x, y, y]

namespace BRect

theorem inside_iff (r s : BRect) : r.inside s = true ↔ r ≤ s := by
  simp only [inside, Bool.and_eq_true, decide_eq_true_eq, le_iff, and_assoc]

instance : DecidableLE BRect := fun r s => decidable_of_iff _ (inside_iff r s)

instance : DecidableLT BRect := decidableLTOfDecidableLE

/-- The cells of a box, by line and column. -/
def cells (r : BRect) : Set (Nat × Nat) := {c | (r.sy ≤ c.1 ∧ c.1 < r.ey) ∧ r.sx ≤ c.2 ∧ c.2 < r.ex}

theorem cells_mono : Monotone cells := by
  rintro r s ⟨h1, h2, h3, h4⟩ c ⟨⟨y1, y2⟩, x1, x2⟩
  exact ⟨⟨h3.trans y1, y2.trans_le h4⟩, h1.trans x1, x2.trans_le h2⟩

end BRect

namespace MaskImd

variable {pos : Nat → BRect} {lut : Nat → Nat} {i : Nat} {js : List Nat}

/-- A valid window holds the new one, and none is in it. -/
theorem against_of_inside (covered : ∃ j ∈ js, lut j < maskEa ∧ pos i ≤ pos j)
    (apart : ∀ j ∈ js, lut j < maskEa → pos j ≤ pos i → pos i ≤ pos j) :
    against pos i js lut = Function.update lut i maskEa := by
  induction js with
  | nil =>
    obtain ⟨j, hj, -⟩ := covered
    exact absurd hj List.not_mem_nil
  | cons j js ih =>
    have rest (other : ¬(lut j < maskEa ∧ pos i ≤ pos j)) : against pos i js lut = Function.update lut i maskEa := by
      refine ih ?_ fun k hk => apart k (List.mem_cons_of_mem j hk)
      obtain ⟨k, hk, valid, le⟩ := covered
      rcases List.mem_cons.1 hk with rfl | hk
      · exact absurd ⟨valid, le⟩ other
      · exact ⟨k, hk, valid, le⟩
    rw [against]
    split
    · rename_i invalid
      exact rest fun h => h.1.not_ge invalid
    · rename_i valid
      split
      · rfl
      · rename_i out
        have not_in : ¬pos i ≤ pos j := fun le => out ((BRect.inside_iff _ _).2 le)
        split
        · rename_i in_
          exact absurd (apart j List.mem_cons_self (Nat.lt_of_not_le valid) ((BRect.inside_iff _ _).1 in_)) not_in
        · exact rest fun h => not_in h.2

/-- No valid window holds the new one, which puts those in it out. -/
theorem against_of_outside (alone : ∀ j ∈ js, lut j < maskEa → ¬pos i ≤ pos j) :
    against pos i js lut = fun x => if x ∈ js ∧ lut x < maskEa ∧ pos x ≤ pos i then maskEa else lut x := by
  induction js generalizing lut with
  | nil => exact funext fun x => (if_neg fun h => List.not_mem_nil h.1).symm
  | cons j js ih =>
    have tail (k : Nat) (hk : k ∈ js) := alone k (List.mem_cons_of_mem j hk)
    rw [against]
    split
    · rename_i invalid
      rw [ih tail]
      refine funext fun x => if_congr ?_ rfl rfl
      rw [List.mem_cons]
      refine ⟨fun h => ⟨.inr h.1, h.2⟩, fun h => ⟨h.1.resolve_left ?_, h.2⟩⟩
      rintro rfl
      exact h.2.1.not_ge invalid
    · rename_i valid
      have not_in : ¬(pos i).inside (pos j) = true := fun le =>
        alone j List.mem_cons_self (Nat.lt_of_not_le valid) ((BRect.inside_iff _ _).1 le)
      rw [if_neg not_in]
      split
      · rename_i in_
        have under : pos j ≤ pos i := (BRect.inside_iff _ _).1 in_
        rw [ih ?_]
        · refine funext fun x => ?_
          by_cases at_ : x = j
          · subst at_
            rw [Function.update_self, if_neg fun h => lt_irrefl _ h.2.1,
              if_pos ⟨List.mem_cons_self, Nat.lt_of_not_le valid, under⟩]
          · rw [Function.update_of_ne at_]
            refine if_congr ?_ rfl rfl
            rw [List.mem_cons, or_iff_right at_]
        · intro k hk
          by_cases at_ : k = j
          · subst at_
            rw [Function.update_self]
            exact fun h => absurd h (lt_irrefl _)
          · rw [Function.update_of_ne at_]
            exact tail k hk
      · rename_i out
        rw [ih tail]
        refine funext fun x => if_congr ?_ rfl rfl
        rw [List.mem_cons]
        refine ⟨fun h => ⟨.inr h.1, h.2⟩, fun h => ⟨h.1.resolve_left ?_, h.2⟩⟩
        rintro rfl
        exact out ((BRect.inside_iff _ _).2 h.2.2)

section rounds

variable (hw vw : Nat) (cfg : Nat → Privacy)

/-- Window `i` is enabled. -/
def On (i : Nat) : Prop := (cfg i).bAction = upOn

instance : DecidablePred (On cfg) := fun _ => inferInstanceAs (Decidable (_ = _))

def rects (i : Nat) : BRect := (cfg i).rect hw vw

/-- The register of a window: whether it is on, and its edges. -/
def areaWord (i : Nat) : Nat :=
  (if On cfg i then 1 else 0) <<< 31 ||| (rects hw vw cfg i).sy <<< 24 ||| (rects hw vw cfg i).ey <<< 16 |||
    (rects hw vw cfg i).sx <<< 8 ||| (rects hw vw cfg i).ex

/-- After the first `n` windows the table has those of them that are maximal. -/
structure Reduced (n : Nat) (s : MaskImd) : Prop where
  pos : ∀ i < n, s.bRectMsk i = rects hw vw cfg i
  table : ∀ i < n, s.bBoxMskLUT i = if Leading (On cfg) (rects hw vw cfg) n i then i else maskEa
  count : s.gbMaskOnNum = Nat.count (On cfg) n
  setIsp : s.setIsp = (List.range n).map fun i => (i, areaWord hw vw cfg i)

variable {hw vw cfg} {n : Nat} {s : MaskImd}

theorem Reduced.valid_iff (h : Reduced hw vw cfg n s) (le : n ≤ maskEa) (hi : i < n) :
    s.bBoxMskLUT i < maskEa ↔ Leading (On cfg) (rects hw vw cfg) n i := by
  rw [h.table i hi]
  split
  · rename_i top
    exact iff_of_true (hi.trans_le le) top
  · rename_i out
    exact iff_of_false (lt_irrefl _) out

theorem Reduced.round (h : Reduced hw vw cfg n s) (lt : n < maskEa) :
    Reduced hw vw cfg (n + 1) (s.windowRound hw vw cfg n) := by
  have pos_eq : ∀ i < n + 1, Function.update s.bRectMsk n (rects hw vw cfg n) i = rects hw vw cfg i := by
    intro i hi
    rcases Nat.lt_succ_iff_lt_or_eq.1 hi with below | rfl
    · rw [Function.update_of_ne below.ne, h.pos i below]
    · rw [Function.update_self]
  have last := pos_eq n (Nat.lt_succ_self n)
  constructor
  case pos => exact pos_eq
  case count =>
    rw [Nat.count_succ, ← h.count]
    rfl
  case setIsp =>
    rw [List.range_succ, List.map_append, ← h.setIsp]
    rfl
  case table =>
    intro i hi
    have table_eq : (s.windowRound hw vw cfg n).bBoxMskLUT =
        if On cfg n then against (Function.update s.bRectMsk n (rects hw vw cfg n)) n (List.range n)
          (Function.update s.bBoxMskLUT n n)
        else Function.update s.bBoxMskLUT n maskEa := by
      rw [windowRound]
      dsimp only
      by_cases on : (cfg n).bAction = upOn
      · rw [if_pos on, if_pos Nat.one_ne_zero, if_pos (show On cfg n from on)]
        rfl
      · rw [if_neg on, if_neg (not_not.2 rfl), if_neg (show ¬On cfg n from on)]
    rw [table_eq]
    by_cases on : On cfg n
    case neg =>
      rw [if_neg on]
      rcases Nat.lt_succ_iff_lt_or_eq.1 hi with below | rfl
      · rw [Function.update_of_ne below.ne, h.table i below]
        exact if_congr (leading_succ_of_not on).symm rfl rfl
      · rw [Function.update_self, if_neg fun top => on top.here]
    rw [if_pos on]
    have valid {j : Nat} (hj : j < n) : Function.update s.bBoxMskLUT n n j < maskEa ↔
        Leading (On cfg) (rects hw vw cfg) n j := by
      rw [Function.update_of_ne hj.ne]
      exact h.valid_iff lt.le hj
    by_cases covered : ∃ j, Leading (On cfg) (rects hw vw cfg) n j ∧ rects hw vw cfg n ≤ rects hw vw cfg j
    · obtain ⟨j, top, le⟩ := covered
      rw [against_of_inside]
      · rcases Nat.lt_succ_iff_lt_or_eq.1 hi with below | rfl
        · rw [Function.update_of_ne below.ne, Function.update_of_ne below.ne, h.table i below]
          exact if_congr (leading_succ_of_le top le).symm rfl rfl
        · rw [Function.update_self, if_neg fun new => ((leading_succ_of_le top le).1 new).lt.false]
      · refine ⟨j, List.mem_range.2 top.lt, (valid top.lt).2 top, ?_⟩
        rwa [last, pos_eq j (top.lt.trans (Nat.lt_succ_self n))]
      · intro k hk valid_k under
        have below := List.mem_range.1 hk
        rw [last, pos_eq k (below.trans (Nat.lt_succ_self n))] at under ⊢
        -- a maximal window under the new one is under the one that holds it
        have top_k := (valid below).1 valid_k
        by_contra strict
        exact top_k.first j top.lt top.here (.of_lt ((lt_of_le_not_ge under strict).trans_le le))
    · have alone (j : Nat) (top : Leading (On cfg) (rects hw vw cfg) n j) :
          ¬rects hw vw cfg n ≤ rects hw vw cfg j := fun le => covered ⟨j, top, le⟩
      rw [against_of_outside]
      · dsimp only
        rcases Nat.lt_succ_iff_lt_or_eq.1 hi with below | rfl
        · have test : (i ∈ List.range n ∧ Function.update s.bBoxMskLUT n n i < maskEa ∧
              Function.update s.bRectMsk n (rects hw vw cfg n) i ≤ Function.update s.bRectMsk n (rects hw vw cfg n) n) ↔
              Leading (On cfg) (rects hw vw cfg) n i ∧ rects hw vw cfg i ≤ rects hw vw cfg n := by
            rw [last, pos_eq i hi, valid below]
            exact and_iff_right (List.mem_range.2 below)
          have step := @leading_succ_of_not_le _ _ (On cfg) (rects hw vw cfg) n i on alone
          refine (if_congr test rfl (Function.update_of_ne below.ne _ _)).trans ?_
          rw [h.table i below]
          by_cases top : Leading (On cfg) (rects hw vw cfg) n i
          · by_cases under : rects hw vw cfg i ≤ rects hw vw cfg n
            · rw [if_pos ⟨top, under⟩, if_neg fun new => ((step.1 new).resolve_left below.ne).2 under]
            · rw [if_neg fun h => under h.2, if_pos top, if_pos (step.2 (.inr ⟨top, under⟩))]
          · rw [if_neg fun h => top h.1, if_neg top, if_neg fun new => top ((step.1 new).resolve_left below.ne).1]
        · rw [if_neg fun h => lt_irrefl _ (List.mem_range.1 h.1), Function.update_self,
            if_pos ((leading_succ_of_not_le on alone).2 (.inl rfl))]
      · intro k hk valid_k
        have below := List.mem_range.1 hk
        rw [last, pos_eq k (below.trans (Nat.lt_succ_self n))]
        exact alone k ((valid below).1 valid_k)

theorem reduced_windows (s : MaskImd) (start : s.gbMaskOnNum = 0 ∧ s.setIsp = []) (le : n ≤ maskEa) :
    Reduced hw vw cfg n (windows hw vw cfg s n) := by
  induction n with
  | zero => exact ⟨fun i hi => absurd hi (Nat.not_lt_zero i), fun i hi => absurd hi (Nat.not_lt_zero i), start.1, start.2⟩
  | succ n ih =>
    have last : windows hw vw cfg s (n + 1) = (windows hw vw cfg s n).windowRound hw vw cfg n := by
      rw [windows, List.range_succ, List.foldl_append]
      rfl
    rw [last]
    exact (ih (Nat.le_of_succ_le le)).round le

/-- The windows that are left are moved down, in place. -/
theorem keep_rounds (s : MaskImd) (n : Nat) :
    (List.range n).foldl keepRound { s with gnBoxMskPosNum := 0 } =
      { s with
        bRectMsk := (squeeze (IsRoot s.bBoxMskLUT) s.bRectMsk n).1
        gbBoxMskLUT := (place (IsRoot s.bBoxMskLUT) (fun i => i) s.gbBoxMskLUT n).1
        gnBoxMskPosNum := Nat.count (IsRoot s.bBoxMskLUT) n } := by
  induction n with
  | zero => rfl
  | succ n ih =>
    have num := squeeze_snd (IsRoot s.bBoxMskLUT) s.bRectMsk n
    have num' := place_snd (IsRoot s.bBoxMskLUT) (fun i => i) s.gbBoxMskLUT n
    rw [List.range_succ, List.foldl_append, ih, List.foldl_cons, List.foldl_nil, keepRound, squeeze_succ, squeezeRound,
      place_succ, placeRound, Nat.count_succ, num, num']
    by_cases root : s.bBoxMskLUT n = n
    · rw [if_pos root, if_pos (show IsRoot s.bBoxMskLUT n from root), if_pos (show IsRoot s.bBoxMskLUT n from root),
        if_pos (show IsRoot s.bBoxMskLUT n from root)]
    · rw [if_neg root, if_neg (show ¬IsRoot s.bBoxMskLUT n from root), if_neg (show ¬IsRoot s.bBoxMskLUT n from root),
        if_neg (show ¬IsRoot s.bBoxMskLUT n from root)]
      rfl

end rounds

end MaskImd

open MaskImd

/-- The enabled windows that are in no other one; of equal ones the first. -/
def keptWindows (hw vw : Nat) (cfg : Nat → Privacy) : List Nat :=
  (List.range maskEa).filter fun i => Leading (On cfg) (fun i => (cfg i).clipped hw vw) maskEa i

theorem mem_keptWindows (hw vw : Nat) (cfg : Nat → Privacy) (i : Nat) :
    i ∈ keptWindows hw vw cfg ↔ Leading (On cfg) (fun i => (cfg i).clipped hw vw) maskEa i := by
  rw [keptWindows, List.mem_filter, List.mem_range, decide_eq_true_eq]
  exact and_iff_right_of_imp fun leading => leading.lt

theorem maskIMD_eq (hw vw : Nat) (cfg : Nat → Privacy) (old : MaskImd) : ∃ s,
    Reduced hw vw cfg maskEa s ∧ maskIMD hw vw cfg old =
      { s with
        bRectMsk := (squeeze (IsRoot s.bBoxMskLUT) s.bRectMsk maskEa).1
        gbBoxMskLUT := (place (IsRoot s.bBoxMskLUT) (fun i => i) s.gbBoxMskLUT maskEa).1
        gnBoxMskPosNum := Nat.count (IsRoot s.bBoxMskLUT) maskEa } :=
  ⟨windows hw vw cfg { old with gbMaskOnNum := 0, setIsp := [] } maskEa, reduced_windows _ ⟨rfl, rfl⟩ le_rfl,
    keep_rounds _ maskEa⟩

/-- Only windows inside of other windows are left out. -/
theorem maskIMD_keeps (hw vw : Nat) (cfg : Nat → Privacy) (old : MaskImd) (hx : hw < 2 ^ 7) (hy : vw < 2 ^ 7) :
    let s := maskIMD hw vw cfg old
    (List.range s.gnBoxMskPosNum).map s.bRectMsk = (keptWindows hw vw cfg).map (fun i => (cfg i).clipped hw vw) ∧
      (List.range s.gnBoxMskPosNum).map s.gbBoxMskLUT = keptWindows hw vw cfg ∧
      s.gbMaskOnNum = ((List.range maskEa).filter fun i => On cfg i).length ∧
      ∀ c, (∃ k < s.gnBoxMskPosNum, c ∈ (s.bRectMsk k).cells) ↔
        ∃ i < maskEa, On cfg i ∧ c ∈ ((cfg i).clipped hw vw).cells := by
  have clip : rects hw vw cfg = fun i => (cfg i).clipped hw vw := funext fun i => Privacy.rect_eq hx hy (cfg i)
  obtain ⟨s, reduced, same⟩ := maskIMD_eq hw vw cfg old
  have root_iff (i : Nat) (hi : i < maskEa) :
      IsRoot s.bBoxMskLUT i ↔ Leading (On cfg) (fun i => (cfg i).clipped hw vw) maskEa i := by
    rw [IsRoot, reduced.table i hi, clip]
    split
    · rename_i leading
      exact iff_of_true rfl leading
    · rename_i out
      exact iff_of_false hi.ne' out
  have kept : (List.range maskEa).filter (fun i => IsRoot s.bBoxMskLUT i) = keptWindows hw vw cfg :=
    List.filter_congr fun i hi => decide_eq_decide.2 (root_iff i (List.mem_range.1 hi))
  have boxes : (List.range (Nat.count (IsRoot s.bBoxMskLUT) maskEa)).map
      (squeeze (IsRoot s.bBoxMskLUT) s.bRectMsk maskEa).1 =
      (keptWindows hw vw cfg).map fun i => (cfg i).clipped hw vw := by
    rw [map_range_count (IsRoot s.bBoxMskLUT) s.bRectMsk _ maskEa
      fun k hk root => squeeze_count (IsRoot s.bBoxMskLUT) s.bRectMsk maskEa hk root, kept]
    refine List.map_congr_left fun i hi => ?_
    rw [reduced.pos i ((mem_keptWindows hw vw cfg i).1 hi).lt, clip]
  have numbers : (List.range (Nat.count (IsRoot s.bBoxMskLUT) maskEa)).map
      (place (IsRoot s.bBoxMskLUT) (fun i => i) s.gbBoxMskLUT maskEa).1 = keptWindows hw vw cfg := by
    rw [map_range_count (IsRoot s.bBoxMskLUT) (fun i => i) _ maskEa
      fun k hk root => place_count (IsRoot s.bBoxMskLUT) _ s.gbBoxMskLUT maskEa hk root, kept, List.map_id']
  rw [same]
  refine ⟨boxes, numbers, ?_, fun c => ?_⟩
  · rw [reduced.count, Nat.count_eq_card_filter_range]
    rfl
  · rw [← exists_leading_mem_iff BRect.cells_mono c]
    constructor
    · rintro ⟨k, hk, inside⟩
      have left := List.mem_map_of_mem (f := (squeeze (IsRoot s.bBoxMskLUT) s.bRectMsk maskEa).1) (List.mem_range.2 hk)
      rw [boxes] at left
      obtain ⟨i, hi, at_⟩ := List.mem_map.1 left
      exact ⟨i, (mem_keptWindows hw vw cfg i).1 hi, at_.symm ▸ inside⟩
    · rintro ⟨i, leading, inside⟩
      have left := List.mem_map_of_mem (f := fun i => (cfg i).clipped hw vw) ((mem_keptWindows hw vw cfg i).2 leading)
      rw [← boxes] at left
      obtain ⟨k, hk, at_⟩ := List.mem_map.1 left
      refine ⟨k, List.mem_range.1 hk, ?_⟩
      dsimp only
      rw [at_]
      exact inside

/-- Two windows of the same place, and a third one in them that is off. -/
def twoEqual (i : Nat) : Privacy := if i = 2 then ⟨0, 1, 1, 1, 1⟩ else if i = 3 then ⟨0, 0, 0, 0, 0⟩ else ⟨1, 0, 0, 250, 9⟩

theorem maskIMD_keeps_one :
    let s := maskIMD 60 33 twoEqual ⟨fun _ => ⟨0, 0, 0, 0⟩, 0, fun _ => 0, 0, fun _ => 0, []⟩
    (List.range s.gnBoxMskPosNum).map s.bRectMsk =
        (keptWindows 60 33 twoEqual).map (fun i => (twoEqual i).clipped 60 33) ∧
      (List.range s.gnBoxMskPosNum).map s.gbBoxMskLUT = keptWindows 60 33 twoEqual ∧
      s.gbMaskOnNum = ((List.range maskEa).filter fun i => On twoEqual i).length ∧
      ∀ c, (∃ k < s.gnBoxMskPosNum, c ∈ (s.bRectMsk k).cells) ↔
        ∃ i < maskEa, On twoEqual i ∧ c ∈ ((twoEqual i).clipped 60 33).cells :=
  maskIMD_keeps 60 33 twoEqual ⟨fun _ => ⟨0, 0, 0, 0⟩, 0, fun _ => 0, 0, fun _ => 0, []⟩ (by decide) (by decide)

example : keptWindows 60 33 twoEqual = [0] := by decide +kernel

end windows

end En675.Isp
