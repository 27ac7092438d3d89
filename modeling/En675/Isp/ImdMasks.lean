import Mathlib.Data.List.GetD
import En675.Isp.CombineRect
import En675.Isp.ImdBoxes

/-! Masking and combining, the end of `LibIMD`: the boxes of a frame are clipped to one window after another,
into the array they came from, and those of a window are combined. -/

namespace En675.Isp

open Lib

/-- `IMD_DET_EA`. -/
def imdDetEa : Nat := 50

/-- The intersection, which may be empty. -/
def BRect.clip (ori msk : BRect) : BRect :=
  { sx := max ori.sx msk.sx
    ex := min ori.ex msk.ex
    sy := max ori.sy msk.sy
    ey := min ori.ey msk.ey }

/-- What a call leaves for `BoxIMD`; `usedOri` are the words of `IMD_IMG` used for `bRectOri`, and `usedPos` the
entries of `gnBoxPosIMD` that clipped boxes are written to. -/
structure ImdOut where
  gnBoxPosIMD : Nat → BRect
  gnBoxNumIMD : Nat
  gbBoxMskDet : Nat → Nat
  usedOri : List Nat
  usedPos : List Nat

namespace ImdOut

/-- `bRectOri(i)`, over the labels. -/
def imgRect (img : Nat → Nat) (i : Nat) : BRect := ⟨img (4 * i), img (4 * i + 1), img (4 * i + 2), img (4 * i + 3)⟩

/-- The boxes saved over the labels. -/
def save (x : Nat) (img : Nat → Nat) (pos : Nat → BRect) : Nat → BRect :=
  (List.range x).foldl (fun ori i => Function.update ori i (pos i)) (imgRect img)

/-- Box `i`, where `j` is `gnBoxNumIMD`. -/
def clipRound (det : Nat) (ori : Nat → BRect) (msk : BRect) (s : ImdOut) (i : Nat) : ImdOut :=
  if s.gnBoxNumIMD < det then
    let j := s.gnBoxNumIMD
    let box := (ori i).clip msk
    { s with
      gnBoxPosIMD := Function.update s.gnBoxPosIMD j box
      gnBoxNumIMD := if box.sx < box.ex ∧ box.sy < box.ey then j + 1 else j
      usedOri := s.usedOri ++ [i]
      usedPos := s.usedPos ++ [j] }
  else s

/-- `CombineRect` behind the entry `iStaj`. -/
def combineFrom (s : ImdOut) (iStaj k : Nat) : ImdOut :=
  let out := combineRect (fun i => s.gnBoxPosIMD (iStaj + i)) (s.gnBoxNumIMD - iStaj)
  { s with
    gnBoxPosIMD := fun m => if iStaj ≤ m then out.1 (m - iStaj) else s.gnBoxPosIMD m
    gnBoxNumIMD := iStaj + out.2
    gbBoxMskDet := Function.update s.gbBoxMskDet k (out.2 % 2 ^ 8) }

def windowRound (det x : Nat) (ori bRectMsk : Nat → BRect) (s : ImdOut) (k : Nat) : ImdOut :=
  if s.gnBoxNumIMD < det then
    ((List.range x).foldl (clipRound det ori (bRectMsk k)) s).combineFrom s.gnBoxNumIMD k
  else s

end ImdOut

open ImdOut

/-- `gnBoxMskPosNum` and the windows. -/
structure ImdMask where
  gnBoxMskPosNum : Nat
  bRectMsk : Nat → BRect

/-- The end of `LibIMD`, on the first `x` boxes of `pos`. -/
def maskCombine (det x : Nat) (img : Nat → Nat) (m : ImdMask) (pos : Nat → BRect) (gbBoxMskDet : Nat → Nat) : ImdOut :=
  if 0 < x ∧ 1 < m.gnBoxMskPosNum then
    (List.range m.gnBoxMskPosNum).foldl (windowRound det x (save x img pos) m.bRectMsk)
      ⟨pos, 0, gbBoxMskDet, List.range x, []⟩
  else ImdOut.combineFrom ⟨pos, x, gbBoxMskDet, [], []⟩ 0 0

/-- A call of `LibIMD`, behind which `w` and `out` stay. -/
def imdFrame (hw vw det fps : Nat) (th : ImdTh) (word : Nat → Nat → BitVec 32) (m : ImdMask) (w : ImdWatch)
    (out : ImdOut) : ImdWatch × ImdOut :=
  let r := libIMD hw vw det fps th word w out.gnBoxPosIMD
  (r.watch,
    if r.k = 0 ∨ r.watch.gbIMD_Update ≠ 0 then { out with gnBoxNumIMD := 0, usedOri := [], usedPos := [] }
    else maskCombine det (min r.k det) r.imd.img m r.boxes.bRectIMD out.gbBoxMskDet)

section lists

variable {n : Nat} {rt rt' : Nat → BRect}

/-- The loops on two arrays with the same first `n` boxes. -/
structure Combine.Same (n : Nat) (s t : Combine) : Prop where
  equ : s.equ = t.equ
  inside : ∀ x < n, s.equ x < n
  boxes : ∀ x < n, s.rtSrc x = t.rtSrc x

theorem Combine.Same.mergeRound (h : Same n s t) {eqMax eqMin : Nat} (hi : eqMax < n) (lo : eqMin < n) (k : Nat) :
    Same n (s.mergeRound eqMax eqMin k) (t.mergeRound eqMax eqMin k) := by
  rw [Combine.mergeRound, Combine.mergeRound, ← h.equ]
  split
  · refine ⟨rfl, fun x hx => ?_, fun x hx => ?_⟩
    · dsimp only
      by_cases at_ : x = k
      · rwa [at_, Function.update_self]
      · rw [Function.update_of_ne at_]
        exact h.inside x hx
    · dsimp only
      by_cases at_ : x = eqMin
      · subst at_
        rw [Function.update_self, Function.update_self, h.boxes x hx, h.boxes eqMax hi]
      · rw [Function.update_of_ne at_, Function.update_of_ne at_, h.boxes x hx]
  · exact h

theorem Combine.Same.compare (h : Same n s t) (hi : i < n) (hj : j < n) :
    Same n (s.compare n i j) (t.compare n i j) := by
  have in_i := h.inside i hi
  have in_j := h.inside j hj
  rw [Combine.compare, Combine.compare, ← h.equ, h.boxes _ in_i, h.boxes _ in_j]
  split
  · exact h
  · split
    · refine List.foldl_rel h fun k _ c c' same => same.mergeRound ?_ ?_ k
      · split <;> assumption
      · split <;> assumption
    · exact h

theorem rows_congr (h : ∀ x < n, rt x = rt' x) :
    Combine.Same n ((Combine.start rt).rows n n) ((Combine.start rt').rows n n) := by
  have first : Combine.Same n (.start rt) (.start rt') := ⟨rfl, fun x hx => (Nat.mod_le x _).trans_lt hx, h⟩
  refine List.foldl_rel first fun i hi s t same => ?_
  exact List.foldl_rel same fun j hj s t same => same.compare (List.mem_range.1 hi) (List.mem_range.1 hj)

/-- The boxes behind the first `n` are nothing to `CombineRect`. -/
theorem combineRect_congr (h : ∀ x < n, rt x = rt' x) :
    (combineRect rt n).2 = (combineRect rt' n).2 ∧ ∀ x < n, (combineRect rt n).1 x = (combineRect rt' n).1 x := by
  have same := rows_congr h
  rw [combineRect, combineRect, ← same.equ]
  refine List.foldl_rel (r := fun s t : (Nat → BRect) × Nat => s.2 = t.2 ∧ ∀ x < n, s.1 x = t.1 x) ⟨rfl, same.boxes⟩ fun k hk s t h => ?_
  rw [Combine.moveRound, Combine.moveRound, h.1]
  split
  · refine ⟨rfl, fun x hx => ?_⟩
    dsimp only
    split
    · by_cases at_ : x = t.2
      · subst at_
        rw [Function.update_self, Function.update_self, h.2 k (List.mem_range.1 hk)]
      · rw [Function.update_of_ne at_, Function.update_of_ne at_, h.2 x hx]
    · exact h.2 x hx
  · exact h

theorem combineRect_le (rt : Nat → BRect) (n : Nat) : (combineRect rt n).2 ≤ n := by
  rw [combineRect_eq, squeeze_snd]
  exact Nat.count_le _

/-- `CombineRect` on an array that is a list. -/
def combined (l : List BRect) : List BRect :=
  let out := combineRect (fun i => l.getD i ⟨0, 0, 0, 0⟩) l.length
  (List.range out.2).map out.1

theorem length_combined (l : List BRect) :
    (combined l).length = (combineRect (fun i => l.getD i ⟨0, 0, 0, 0⟩) l.length).2 := by
  rw [combined, List.length_map, List.length_range]

theorem length_combined_le (l : List BRect) : (combined l).length ≤ l.length :=
  (length_combined l).trans_le (combineRect_le _ _)

theorem combineRect_list (rt : Nat → BRect) (n : Nat) :
    (combineRect rt n).2 = (combined ((List.range n).map rt)).length ∧
      (List.range (combineRect rt n).2).map (combineRect rt n).1 = combined ((List.range n).map rt) := by
  have len : ((List.range n).map rt).length = n := by rw [List.length_map, List.length_range]
  have same (x : Nat) (hx : x < n) : rt x = ((List.range n).map rt).getD x ⟨0, 0, 0, 0⟩ := by
    rw [List.getD_eq_getElem _ _ (len.symm ▸ hx), List.getElem_map, List.getElem_range]
  obtain ⟨count, boxes⟩ := combineRect_congr same
  rw [length_combined, combined, len, count]
  refine ⟨rfl, List.map_congr_left fun x hx => boxes x ?_⟩
  exact (List.mem_range.1 hx).trans_le (combineRect_le _ n)

end lists

section windows

namespace ImdOut

variable {det x j : Nat} {ori pos : Nat → BRect} {msk : BRect} {s : ImdOut}

/-- The boxes there are. -/
def boxes (s : ImdOut) : List BRect := (List.range s.gnBoxNumIMD).map s.gnBoxPosIMD

@[simp] theorem length_boxes (s : ImdOut) : s.boxes.length = s.gnBoxNumIMD := by
  rw [boxes, List.length_map, List.length_range]

/-- The boxes with cells in the window. -/
def clips (msk : BRect) (l : List BRect) : List BRect := (l.map fun r => r.clip msk).filter fun r => r.Full

theorem clips_concat (msk : BRect) (l : List BRect) (r : BRect) :
    clips msk (l ++ [r]) = if (r.clip msk).Full then clips msk l ++ [r.clip msk] else clips msk l := by
  rw [clips, List.map_append, List.filter_append, clips]
  split
  · rename_i full
    rw [List.map_singleton, List.filter_singleton, decide_eq_true full, cond_true]
  · rename_i empty
    rw [List.map_singleton, List.filter_singleton, decide_eq_false empty, cond_false, List.append_nil]

theorem range_map_update (f : Nat → BRect) (j : Nat) (b : BRect) :
    (List.range j).map (Function.update f j b) = (List.range j).map f :=
  List.map_congr_left fun _ hm => Function.update_of_ne (List.mem_range.1 hm).ne b f

/-- A window so far: in front of its boxes stay those of the windows before it, as many follow as there is
room for, and the array is not left. -/
structure Clipped (det : Nat) (s : ImdOut) (l : List BRect) (msk : BRect) (x : Nat) (t : ImdOut) : Prop where
  boxes : t.boxes = s.boxes ++ (clips msk l).take (det - s.gnBoxNumIMD)
  counts : t.gbBoxMskDet = s.gbBoxMskDet
  usedOri : ∀ i ∈ t.usedOri, i ∈ s.usedOri ∨ i < x
  usedPos : ∀ i ∈ t.usedPos, i ∈ s.usedPos ∨ i < det

theorem Clipped.clipRound (h : Clipped det s l msk x t) (room : s.gnBoxNumIMD ≤ det) (hi : i < x) :
    Clipped det s (l ++ [ori i]) msk x (t.clipRound det ori msk i) := by
  have len : t.gnBoxNumIMD = s.gnBoxNumIMD + min (det - s.gnBoxNumIMD) (clips msk l).length := by
    rw [← length_boxes, h.boxes, List.length_append, List.length_take, length_boxes]
  rw [ImdOut.clipRound]
  split
  · rename_i below
    have fits : (clips msk l).length < det - s.gnBoxNumIMD := by omega
    have same : (clips msk l).take (det - s.gnBoxNumIMD) = clips msk l := List.take_of_length_le fits.le
    constructor
    case boxes =>
      rw [clips_concat, ImdOut.boxes]
      dsimp only
      change List.map _ (List.range (if ((ori i).clip msk).Full then _ else _)) = _
      by_cases full : ((ori i).clip msk).Full
      · rw [if_pos full, if_pos full, List.range_succ, List.map_append, range_map_update, List.map_singleton,
          Function.update_self, List.take_of_length_le (by rw [List.length_append]; exact fits), ← List.append_assoc]
        exact congrArg (· ++ [(ori i).clip msk]) (h.boxes.trans (congrArg (s.boxes ++ ·) same))
      · rw [if_neg full, if_neg full, range_map_update]
        exact h.boxes
    case counts => exact h.counts
    case usedOri =>
      intro m hm
      rcases List.mem_append.1 hm with old | new
      · exact h.usedOri m old
      · exact .inr (List.mem_singleton.1 new ▸ hi)
    case usedPos =>
      intro m hm
      rcases List.mem_append.1 hm with old | new
      · exact h.usedPos m old
      · exact .inr (List.mem_singleton.1 new ▸ below)
  · rename_i full
    have enough : det - s.gnBoxNumIMD ≤ (clips msk l).length := by omega
    refine ⟨?_, h.counts, h.usedOri, h.usedPos⟩
    rw [h.boxes, clips_concat]
    split
    · rw [List.take_append_of_le_length enough]
    · rfl

theorem clip_rounds (s : ImdOut) (room : s.gnBoxNumIMD ≤ det) (ori : Nat → BRect) (msk : BRect) (m : Nat)
    (le : m ≤ x) :
    Clipped det s ((List.range m).map ori) msk x ((List.range m).foldl (clipRound det ori msk) s) := by
  induction m with
  | zero => exact ⟨by simp [clips], rfl, fun _ h => .inl h, fun _ h => .inl h⟩
  | succ m ih =>
    rw [List.range_succ, List.foldl_append, List.map_append]
    exact (ih (Nat.le_of_succ_le le)).clipRound room le

theorem combineFrom_boxes (s t : ImdOut) (h : t.boxes = s.boxes ++ l) (k : Nat) :
    (t.combineFrom s.gnBoxNumIMD k).boxes = s.boxes ++ combined l ∧
      (t.combineFrom s.gnBoxNumIMD k).gbBoxMskDet = Function.update t.gbBoxMskDet k ((combined l).length % 2 ^ 8) := by
  have len : t.gnBoxNumIMD - s.gnBoxNumIMD = l.length := by
    rw [← length_boxes t, h, List.length_append, length_boxes, Nat.add_sub_cancel_left]
  have total : t.gnBoxNumIMD = s.gnBoxNumIMD + l.length := by
    rw [← length_boxes t, h, List.length_append, length_boxes]
  have split_ : t.boxes = (List.range s.gnBoxNumIMD).map t.gnBoxPosIMD ++
      (List.range l.length).map fun i => t.gnBoxPosIMD (s.gnBoxNumIMD + i) := by
    rw [boxes, total, List.range_add, List.map_append, List.map_map]
    rfl
  rw [h] at split_
  obtain ⟨front, back⟩ := List.append_inj split_ (by rw [length_boxes, List.length_map, List.length_range])
  obtain ⟨count, out⟩ := combineRect_list (fun i => t.gnBoxPosIMD (s.gnBoxNumIMD + i)) l.length
  rw [← back] at count out
  constructor
  · rw [boxes, combineFrom]
    dsimp only
    rw [len, List.range_add, List.map_append, List.map_map, ← out, front]
    congr 1
    · exact List.map_congr_left fun m hm => if_neg (List.mem_range.1 hm).not_ge
    · refine List.map_congr_left fun m _ => ?_
      rw [Function.comp_apply, if_pos (Nat.le_add_right _ _), Nat.add_sub_cancel_left]
  · rw [combineFrom, len, count]

section turns

variable (det : Nat) (c : Nat → List BRect)

/-- The boxes in front of window `k`, where `c` are the clipped boxes of each window. -/
def taken : Nat → List BRect
  | 0 => []
  | k + 1 => taken k ++ combined ((c k).take (det - (taken k).length))

/-- What window `k` yields: as many of its clipped boxes are combined as there is room for. -/
def yields (k : Nat) : List BRect := combined ((c k).take (det - (taken det c k).length))

theorem taken_eq (n : Nat) : taken det c n = (List.range n).flatMap (yields det c) := by
  induction n with
  | zero => rfl
  | succ n ih => rw [List.range_succ, List.flatMap_append, List.flatMap_singleton, ← ih, taken, yields]

theorem length_taken_le (n : Nat) : (taken det c n).length ≤ det := by
  induction n with
  | zero => exact Nat.zero_le det
  | succ n ih =>
    have most := length_combined_le ((c n).take (det - (taken det c n).length))
    rw [List.length_take] at most
    rw [taken, List.length_append]
    omega

theorem combined_nil : combined [] = [] := List.length_eq_zero_iff.1 (Nat.le_zero.1 (length_combined_le []))

/-- After `k` windows; `s` is the loop where it starts. -/
structure Windowed (x k : Nat) (s t : ImdOut) : Prop where
  boxes : t.boxes = taken det c k
  counts : ∀ m < k, (taken det c m).length < det → t.gbBoxMskDet m = (yields det c m).length
  usedOri : ∀ i ∈ t.usedOri, i ∈ s.usedOri ∨ i < x
  usedPos : ∀ i ∈ t.usedPos, i ∈ s.usedPos ∨ i < det

end turns

theorem Windowed.round {c : Nat → List BRect} {bRectMsk : Nat → BRect} {t : ImdOut} (small : det < 2 ^ 8)
    (h : Windowed det c x k s t) (clip : c k = clips (bRectMsk k) ((List.range x).map ori)) :
    Windowed det c x (k + 1) s (t.windowRound det x ori bRectMsk k) := by
  have num : t.gnBoxNumIMD = (taken det c k).length := by rw [← length_boxes, h.boxes]
  have most := length_taken_le det c k
  rw [windowRound]
  split
  · rename_i below
    have clipped := clip_rounds t below.le ori (bRectMsk k) x le_rfl
    have clipped_boxes := clipped.boxes
    rw [← clip] at clipped_boxes
    obtain ⟨boxes, counts⟩ := combineFrom_boxes t _ clipped_boxes k
    have short : (yields det c k).length < 2 ^ 8 := by
      have le := length_combined_le ((c k).take (det - (taken det c k).length))
      rw [List.length_take] at le
      rw [yields]
      omega
    constructor
    case boxes => rw [boxes, h.boxes, num, taken]
    case counts =>
      intro m hm room
      rw [counts]
      by_cases at_ : m = k
      · subst at_
        rw [Function.update_self, num]
        exact Nat.mod_eq_of_lt short
      · rw [Function.update_of_ne at_, clipped.counts]
        exact h.counts m (lt_of_le_of_ne (Nat.lt_succ_iff.1 hm) at_) room
    case usedOri => exact fun i hi => (clipped.usedOri i hi).elim (h.usedOri i) .inr
    case usedPos => exact fun i hi => (clipped.usedPos i hi).elim (h.usedPos i) .inr
  · rename_i full
    have none_ : det - (taken det c k).length = 0 := by omega
    refine ⟨?_, fun m hm room => ?_, h.usedOri, h.usedPos⟩
    · rw [taken, none_, List.take_zero, combined_nil, List.append_nil, h.boxes]
    · refine h.counts m (lt_of_le_of_ne (Nat.lt_succ_iff.1 hm) ?_) room
      rintro rfl
      omega

theorem save_apply (img : Nat → Nat) (pos : Nat → BRect) (hi : i < x) : save x img pos i = pos i := by
  induction x with
  | zero => exact absurd hi (Nat.not_lt_zero i)
  | succ x ih =>
    rw [save, List.range_succ, List.foldl_append, List.foldl_cons, List.foldl_nil]
    rcases Nat.lt_succ_iff_lt_or_eq.1 hi with below | rfl
    · exact (Function.update_of_ne below.ne _ _).trans (ih below)
    · exact Function.update_self _ _ _

/-- What is asked of a frame: each window has the count of its own boxes, and the boxes stand in the order of
the windows. -/
structure PerWindow (n : Nat) (yield : Nat → List BRect) (o : ImdOut) : Prop where
  counts : ∀ k < n, o.gbBoxMskDet k = (yield k).length
  total : ((List.range n).map o.gbBoxMskDet).sum = o.gnBoxNumIMD
  entries : o.boxes = (List.range n).flatMap yield

/-- The windows take their turns until the array is full. -/
structure InTurn (det n : Nat) (c : Nat → List BRect) (o : ImdOut) : Prop where
  counts : ∀ k < n, (taken det c k).length < det → o.gbBoxMskDet k = (yields det c k).length
  total : ((List.range n).map fun k => (yields det c k).length).sum = o.gnBoxNumIMD
  entries : o.boxes = (List.range n).flatMap (yields det c)

/-- With room for the clipped boxes of every window, nothing is missing. -/
theorem InTurn.perWindow {c : Nat → List BRect} (h : InTurn det n c o)
    (room : ∀ k < n, (taken det c k).length < det ∧ (taken det c k).length + (c k).length ≤ det) :
    PerWindow n (fun k => combined (c k)) o := by
  have all (k : Nat) (hk : k < n) : yields det c k = combined (c k) := by
    have fits := (room k hk).2
    rw [yields, List.take_of_length_le (by omega)]
  have count (k : Nat) (hk : k < n) : o.gbBoxMskDet k = (yields det c k).length := h.counts k hk (room k hk).1
  refine ⟨fun k hk => (count k hk).trans (congrArg _ (all k hk)), ?_, h.entries.trans ?_⟩
  · rw [← h.total]
    exact congrArg _ (List.map_congr_left fun k hk => count k (List.mem_range.1 hk))
  · exact List.flatMap_congr fun k hk => all k (List.mem_range.1 hk)

theorem Windowed.inTurn {c : Nat → List BRect} (h : Windowed det c x n s o) : InTurn det n c o := by
  have entries : o.boxes = (List.range n).flatMap (yields det c) := h.boxes.trans (taken_eq det c n)
  refine ⟨h.counts, ?_, entries⟩
  rw [← length_boxes, entries, List.length_flatMap]

end ImdOut

end windows

section frame

variable {det x : Nat} {img : Nat → Nat} {m : ImdMask} {pos : Nat → BRect} {old : Nat → Nat}

theorem maskCombine_windows (small : det < 2 ^ 8) (h : 0 < x ∧ 1 < m.gnBoxMskPosNum) :
    ImdOut.Windowed det (fun k => ImdOut.clips (m.bRectMsk k) ((List.range x).map pos)) x m.gnBoxMskPosNum
      ⟨pos, 0, old, List.range x, []⟩ (maskCombine det x img m pos old) := by
  rw [maskCombine, if_pos h]
  have saved : (List.range x).map pos = (List.range x).map (save x img pos) :=
    List.map_congr_left fun i hi => (ImdOut.save_apply img pos (List.mem_range.1 hi)).symm
  generalize m.gnBoxMskPosNum = n
  induction n with
  | zero =>
    exact ⟨rfl, fun m hm => absurd hm (Nat.not_lt_zero m), fun _ h => .inl h, fun _ h => .inl h⟩
  | succ n ih =>
    rw [List.range_succ, List.foldl_append]
    exact ih.round small (congrArg _ saved)

/-- With one window or none, no box is clipped. -/
theorem maskCombine_whole (small : x < 2 ^ 8) (h : ¬(0 < x ∧ 1 < m.gnBoxMskPosNum)) :
    ImdOut.PerWindow 1 (fun _ => combined ((List.range x).map pos)) (maskCombine det x img m pos old) := by
  rw [maskCombine, if_neg h]
  obtain ⟨boxes, counts⟩ :=
    ImdOut.combineFrom_boxes ⟨pos, 0, old, [], []⟩ ⟨pos, x, old, [], []⟩ (List.nil_append _).symm 0
  have short : (combined ((List.range x).map pos)).length < 2 ^ 8 := by
    have le := length_combined_le ((List.range x).map pos)
    rw [List.length_map, List.length_range] at le
    omega
  have count : (ImdOut.combineFrom ⟨pos, x, old, [], []⟩ 0 0).gbBoxMskDet 0 =
      (combined ((List.range x).map pos)).length := by
    rw [counts, Function.update_self]
    exact Nat.mod_eq_of_lt short
  refine ⟨fun k hk => Nat.lt_one_iff.1 hk ▸ count, ?_, boxes.trans ?_⟩
  · rw [List.range_one, List.map_singleton, List.sum_singleton, count, ← ImdOut.length_boxes, boxes]
    rfl
  · rw [List.range_one, List.flatMap_singleton]
    rfl

/-- What is reported of the boxes `l` of a frame. -/
structure Reports (hw vw : Nat) (m : ImdMask) (l : List BRect) (o : ImdOut) : Prop where
  windows : 1 < m.gnBoxMskPosNum →
    ImdOut.InTurn imdDetEa m.gnBoxMskPosNum (fun k => ImdOut.clips (m.bRectMsk k) l) o
  whole : m.gnBoxMskPosNum ≤ 1 → ImdOut.PerWindow 1 (fun _ => combined l) o
  usedOri : ∀ i ∈ o.usedOri, 4 * i + 3 < hw * vw
  usedPos : ∀ j ∈ o.usedPos, j < imdDetEa

theorem maskCombine_reports {hw vw : Nat} (labels : 4 * imdDetEa ≤ hw * vw) (some_ : 0 < x) (most : x ≤ imdDetEa) :
    Reports hw vw m ((List.range x).map pos) (maskCombine imdDetEa x img m pos old) := by
  by_cases both : 0 < x ∧ 1 < m.gnBoxMskPosNum
  · have h := @maskCombine_windows imdDetEa x img m pos old (by decide) both
    refine ⟨fun _ => h.inTurn, fun one => absurd both.2 (Nat.not_lt.2 one), fun i hi => ?_, fun j hj => ?_⟩
    · have below : i < x := (h.usedOri i hi).elim List.mem_range.1 id
      omega
    · exact (h.usedPos j hj).elim (fun none_ => absurd none_ List.not_mem_nil) id
  · have unused : maskCombine imdDetEa x img m pos old = ImdOut.combineFrom ⟨pos, x, old, [], []⟩ 0 0 := by
      rw [maskCombine, if_neg both]
    refine ⟨fun many => absurd ⟨some_, many⟩ both, fun _ => maskCombine_whole (most.trans_lt (by decide)) both, ?_, ?_⟩
    · rw [unused]
      exact fun i hi => absurd hi List.not_mem_nil
    · rw [unused]
      exact fun i hi => absurd hi List.not_mem_nil

/-- The boxes of the components. -/
def ImdRun.frameBoxes (r : ImdRun) (det : Nat) : List BRect := (List.range (min r.k det)).map r.boxes.bRectIMD

/-- Whatever the calls before it left, a call that reports motion reports that of its own frame. -/
theorem imdFrame_reports (hw vw fps : Nat) (th : ImdTh) (word : Nat → Nat → BitVec 32) (m : ImdMask) (w : ImdWatch)
    (before : ImdOut) (labels : 4 * imdDetEa ≤ hw * vw)
    (some_ : 0 < (imdFrame hw vw imdDetEa fps th word m w before).2.gnBoxNumIMD) :
    Reports hw vw m ((libIMD hw vw imdDetEa fps th word w before.gnBoxPosIMD).frameBoxes imdDetEa)
      (imdFrame hw vw imdDetEa fps th word m w before).2 := by
  rw [imdFrame] at some_ ⊢
  generalize libIMD hw vw imdDetEa fps th word w before.gnBoxPosIMD = r at some_ ⊢
  dsimp only at some_ ⊢
  by_cases stops : r.k = 0 ∨ r.watch.gbIMD_Update ≠ 0
  · rw [if_pos stops] at some_
    exact absurd some_ (lt_irrefl 0)
  · rw [if_neg stops]
    have first : 0 < min r.k imdDetEa := lt_min (Nat.pos_of_ne_zero (not_or.1 stops).1) (by decide)
    exact maskCombine_reports labels first (Nat.min_le_right _ _)

section examples

/-- Fifteen cells, no two of which touch. -/
def latticeCells (i k : Nat) : BitVec 32 := if i % 3 = 0 ∧ i < 9 ∧ k = 0 then 0x92480000#32 else 0#32

def cornerCell (i k : Nat) : BitVec 32 := if i = 0 ∧ k = 0 then 0x80000000#32 else 0#32

/-- Four windows with all of them inside, none of which is in another. -/
def crossedWindows : ImdMask := ⟨4, fun k => ⟨10 - k, 0, 13 + k, 0⟩⟩

/-- One window with none of them inside. -/
def farWindow : ImdMask := ⟨1, fun _ => ⟨13, 10, 16, 14⟩⟩

/-- A first call, with a threshold that fifteen labels do not reach. -/
def firstFrame (word : Nat → Nat → BitVec 32) (m : ImdMask) : ImdOut :=
  (imdFrame 16 13 imdDetEa 10 { someTh with giIMD_MOVING_TH := 20 } word m ⟨0, 0, 0⟩
    ⟨fun _ => ⟨0, 0, 0, 0⟩, 0, fun _ => 0, [], []⟩).2

def firstBoxes (word : Nat → Nat → BitVec 32) : List BRect :=
  (libIMD 16 13 imdDetEa 10 { someTh with giIMD_MOVING_TH := 20 } word ⟨0, 0, 0⟩
    fun _ => ⟨0, 0, 0, 0⟩).frameBoxes imdDetEa

theorem imdFrame_reports_corner :
    Reports 16 13 crossedWindows (firstBoxes cornerCell) (firstFrame cornerCell crossedWindows) :=
  imdFrame_reports 16 13 10 { someTh with giIMD_MOVING_TH := 20 } cornerCell crossedWindows ⟨0, 0, 0⟩
    ⟨fun _ => ⟨0, 0, 0, 0⟩, 0, fun _ => 0, [], []⟩ (by decide) (by decide +kernel)

/-- The last of four windows finds room for five of its fifteen boxes; and with one window a box outside of it is
reported too. -/
theorem windows_limits :
    (0 < (firstFrame latticeCells crossedWindows).gnBoxNumIMD ∧
        ¬ImdOut.PerWindow 4 (fun k => combined (ImdOut.clips (crossedWindows.bRectMsk k) (firstBoxes latticeCells)))
          (firstFrame latticeCells crossedWindows)) ∧
      0 < (firstFrame cornerCell farWindow).gnBoxNumIMD ∧
        ¬ImdOut.PerWindow 1 (fun k => combined (ImdOut.clips (farWindow.bRectMsk k) (firstBoxes cornerCell)))
          (firstFrame cornerCell farWindow) := by
  have crossed : 0 < (firstFrame latticeCells crossedWindows).gnBoxNumIMD ∧
      (firstFrame latticeCells crossedWindows).gbBoxMskDet 3 ≠
        (combined (ImdOut.clips (crossedWindows.bRectMsk 3) (firstBoxes latticeCells))).length := by decide +kernel
  have far : 0 < (firstFrame cornerCell farWindow).gnBoxNumIMD ∧
      (firstFrame cornerCell farWindow).gbBoxMskDet 0 ≠
        (combined (ImdOut.clips (farWindow.bRectMsk 0) (firstBoxes cornerCell))).length := by decide +kernel
  exact ⟨⟨crossed.1, fun h => crossed.2 (h.counts 3 (by decide))⟩, far.1, fun h => far.2 (h.counts 0 (by decide))⟩

end examples

end frame

end En675.Isp
