import En675.Lib.Cursor
import En675.Lib.Word

/-! The tone map of wide dynamic range (`LibWdrCtrl`), and the maximum of the short exposure it is called with. -/

namespace En675.Isp

open Lib

/-- `gnTblToneMapBase`. -/
def gnTblToneMapBase : List (Nat × Nat) :=
  [(0, 0x0), (1, 0x0), (2, 0x1), (4, 0x3), (8, 0x7), (16, 0xe), (32, 0x1a), (64, 0x2f), (128, 0x4f),
   (256, 0x7a), (512, 0xae), (768, 0xcf), (1024, 0xe8), (1536, 0x10c), (2048, 0x126), (3072, 0x14c),
   (4096, 0x167), (6144, 0x18d), (8192, 0x1a8), (12288, 0x1cf), (16384, 0x1ea), (24576, 0x211),
   (32768, 0x22c), (40960, 0x242), (49152, 0x253), (57344, 0x262), (65536, 0x26f), (73728, 0x27a),
   (81920, 0x284), (90112, 0x28e), (98304, 0x296), (114688, 0x2a5), (131072, 0x2b1), (147456, 0x2bd),
   (163840, 0x2c7), (180224, 0x2d0), (196608, 0x2d8), (212992, 0x2e0), (229376, 0x2e7), (245760, 0x2ee),
   (262144, 0x2f4), (393216, 0x31b), (524288, 0x337), (655360, 0x34c), (786432, 0x35e), (917504, 0x36c),
   (1048576, 0x379), (1179648, 0x385), (1310720, 0x38f), (1441792, 0x398), (1572864, 0x3a0),
   (1835008, 0x3af), (2097152, 0x3bc), (2359296, 0x3c7), (2621440, 0x3d1), (2883584, 0x3da),
   (3145728, 0x3e3), (3407872, 0x3eb), (3670016, 0x3f2), (3932160, 0x3f8), (4194304, 0x3ff)]

/-- `gnTblToneMapCurX`. -/
def gnTblToneMapCurX : List Nat :=
  [0, 16, 32, 64, 128, 256, 512, 1024, 2048, 4096, 8192, 12288, 16384, 24576, 32768, 49152, 65536, 98304,
   131072, 196608, 262144, 393216, 524288, 655360, 786432, 917504, 1048576, 1179648, 1310720, 1441792,
   1572864, 1835008, 2097152, 2359296, 2621440, 2883584, 3145728, 3407872, 3670016, 3932160, 4194304]

def toneX (i : Nat) : Nat := (gnTblToneMapBase.getD i (0, 0)).1

def toneY (i : Nat) : Nat := (gnTblToneMapBase.getD i (0, 0)).2

/-- The row that the first loop of `LibWdrCtrl` takes, from row `i` on. -/
def maxRow (smax : Nat) : Nat → Nat → Nat
  | 0, _ => 60
  | k + 1, i => if smax ≤ toneX i then i else maxRow smax k (i + 1)

/-- `MAXY`. -/
def maxY (smax : Nat) : Option Nat :=
  let i := maxRow smax 60 1
  udiv (uadd (umul (toneY i) (usub smax (toneX (i - 1)))) (umul (toneY (i - 1)) (usub (toneX i) smax)))
    (usub (toneX i) (toneX (i - 1)))

/-- A round of the second loop: `MADDR`, and the values so far.  `MADDR` is never `0` behind the `while`, since
the first abscissa is `0`. -/
def curRound (smax maxy : Nat) (s : Nat × List Nat) (curX : Nat) : Option (Nat × List Nat) := do
  let ntblx := curX * smax / 0x3fffff % 2 ^ 32
  let maddr ← advance 61 toneX ntblx 61 s.1
  let wgt ← udiv (umul (usub ntblx (toneX (maddr - 1))) 256) (usub (toneX maddr) (toneX (maddr - 1)))
  let curY ← udiv (umul (uadd (umul wgt (toneY maddr)) (umul (usub 256 wgt) (toneY (maddr - 1)))) 1023)
    (umul maxy 256)
  some (maddr, s.2 ++ [if 0x3ff < curY then 0x3ff else curY])

/-- `LibWdrCtrl`: `nTblToneMapCurY`, where no row is read that is not there and nothing is divided by zero. -/
def libWdrCtrl (smax : Nat) : Option (List Nat) := do
  let maxy ← maxY smax
  let s ← gnTblToneMapCurX.tail.foldlM (curRound smax maxy) (0, [0])
  some s.2

/-- What is set from `TMG_BASE` on, for `i` from `1` to `13`. -/
def tmgWord (curY : List Nat) (i : Nat) : Nat :=
  let j := 3 * i - 1
  curY.getD j 0 <<< 20 % 2 ^ 32 ||| curY.getD (j + 1) 0 <<< 10 % 2 ^ 32 ||| curY.getD (j + 2) 0

/-- `gbWdrOn == WDR_FRAME`, `UP(WdrWgt)` and its three weights. -/
structure WdrPar where
  frame : Bool
  wdrWgt : Nat
  swgtL : Nat
  swgtM : Nat
  swgtH : Nat

/-- `anWeight`. -/
def WdrPar.anWeight (p : WdrPar) : Nat :=
  if p.frame then
    if p.wdrWgt = 0 then (0x100 * p.swgtL) >>> 7
    else if p.wdrWgt = 1 then (0x200 * p.swgtM) >>> 7
    else (0x400 * p.swgtH) >>> 7
  else if p.wdrWgt = 0 then (0x80 * p.swgtL) >>> 7
  else if p.wdrWgt = 1 then (0x180 * p.swgtM) >>> 7
  else (0x500 * p.swgtH) >>> 7

/-- `SMAX`, of shutters of up to 4500 lines. -/
def WdrPar.smax (p : WdrPar) (giSht_L giSht_S : Nat) : Nat := umul (0x3ff * giSht_L / giSht_S) p.anWeight >>> 8

/-- `iWdrGain`. -/
def iWdrGain (smax : Nat) : Option Nat := udiv (0x3fffff * 256) smax

section table

theorem toneX_step : ∀ i < 60, toneX i < toneX (i + 1) ∧ toneX (i + 1) ≤ toneX i + 2 ^ 18 := by decide

theorem toneY_step : ∀ i < 60, toneY i ≤ toneY (i + 1) ∧ toneY (i + 1) ≤ 1023 := by decide

theorem toneY_pos : ∀ i < 61, 2 ≤ i → 1 ≤ toneY i := by decide

theorem toneX_last : toneX 60 = 2 ^ 22 := rfl

theorem toneY_mono {i j : Nat} (le : i ≤ j) (hj : j ≤ 60) : toneY i ≤ toneY j := by
  induction le with
  | refl => exact Nat.le_refl _
  | step _ ih => exact Nat.le_trans (ih (Nat.le_of_succ_le hj)) (toneY_step _ hj).1

theorem curX_sorted : gnTblToneMapCurX.tail.Pairwise (· ≤ ·) := by decide

theorem curX_le : ∀ c ∈ gnTblToneMapCurX.tail, c ≤ 2 ^ 22 := by decide

end table

section maxY

variable {smax k i : Nat}

theorem maxRow_spec (before : ∀ j < i, toneX j < smax) (hi : i ≤ 60) (hk : 60 < i + k) (le : smax ≤ 2 ^ 22) :
    i ≤ maxRow smax k i ∧ maxRow smax k i ≤ 60 ∧ (∀ j < maxRow smax k i, toneX j < smax) ∧
      smax ≤ toneX (maxRow smax k i) := by
  induction k generalizing i with
  | zero => omega
  | succ k ih =>
    rw [maxRow]
    split
    · rename_i here
      exact ⟨Nat.le_refl _, hi, before, here⟩
    · rename_i more
      have last : i ≠ 60 := by
        rintro rfl
        exact more (toneX_last ▸ le)
      have next : ∀ j < i + 1, toneX j < smax := by
        intro j hj
        rcases Nat.lt_succ_iff_lt_or_eq.1 hj with lt | rfl
        · exact before j lt
        · exact Nat.not_le.1 more
      obtain ⟨lo, rest⟩ := ih next (by omega) (by omega)
      exact ⟨Nat.le_of_succ_le lo, rest⟩

/-- The greatest value is that of a row, or between those of two. -/
theorem maxY_eq (h2 : 2 ≤ smax) (le : smax ≤ 2 ^ 22) : ∃ m, maxY smax = some m ∧ 1 ≤ m ∧ m ≤ 1023 := by
  have before : ∀ j < 1, toneX j < smax := by
    intro j hj
    rw [Nat.lt_one_iff.1 hj]
    exact Nat.lt_of_lt_of_le Nat.zero_lt_two h2
  obtain ⟨lo, hi, passed, here⟩ := maxRow_spec (k := 60) before (by decide) (by decide) le
  obtain ⟨i, hrow⟩ : ∃ i, maxRow smax 60 1 = i + 1 := ⟨_, (Nat.sub_add_cancel lo).symm⟩
  rw [hrow] at lo hi passed here
  have below := passed i (Nat.lt_succ_self i)
  obtain ⟨lt, near⟩ := toneX_step i hi
  obtain ⟨y0, y1⟩ := toneY_step i hi
  have up : toneY (i + 1) * (smax - toneX i) ≤ 1023 * (smax - toneX i) := Nat.mul_le_mul_right _ y1
  have down : toneY i * (toneX (i + 1) - smax) ≤ 1023 * (toneX (i + 1) - smax) :=
    Nat.mul_le_mul_right _ (Nat.le_trans y0 y1)
  have x1 : toneX (i + 1) < 2 ^ 32 := by omega
  refine ⟨(toneY (i + 1) * (smax - toneX i) + toneY i * (toneX (i + 1) - smax)) / (toneX (i + 1) - toneX i),
    ?_, ?_, ?_⟩
  · unfold maxY
    rw [hrow]
    dsimp only
    rw [Nat.add_sub_cancel, usub_of_le (Nat.le_of_lt below) (by omega), usub_of_le here x1, usub_of_le (Nat.le_of_lt lt) x1,
      umul_of_lt (by omega), umul_of_lt (by omega), uadd_of_lt (by omega), udiv_of_pos (by omega)]
  · rw [Nat.le_div_iff_mul_le (by omega)]
    by_cases first : i = 1
    · subst first
      have two : smax = 2 := Nat.le_antisymm here h2
      subst two
      decide
    · have more : 2 ≤ i := by
        by_contra less
        have zero : i = 0 := by omega
        subst zero
        have one : smax ≤ 1 := here
        omega
      have pos := toneY_pos i (by omega) more
      have up1 := Nat.mul_le_mul_right (smax - toneX i) (Nat.le_trans pos y0)
      have down1 := Nat.mul_le_mul_right (toneX (i + 1) - smax) pos
      omega
  · apply Nat.div_le_of_le_mul
    omega

end maxY

/-- The row beyond `a`, from the first on. -/
def rowOf (a : Nat) : Nat := (advance 61 toneX a 61 0).getD 0

/-- The value at `a`, where `m` is the greatest. -/
def tone (m a : Nat) : Nat :=
  min (mix toneY 256 (upWeight toneX 256 a (rowOf a - 1)) (rowOf a - 1) * 1023 / (m * 256)) 0x3ff

section tone

variable {smax m a b : Nat}

/-- The row before the one that is found. -/
theorem rowOf_over (h : a < 2 ^ 22) : ∃ i, rowOf a = i + 1 ∧ i < 60 ∧ Over toneX a (i + 1) := by
  obtain ⟨q, hq, beyond⟩ :=
    advance_over (x := toneX) (m := 0) (k := 61) (fun _ hj => absurd hj (Nat.not_lt_zero _)) (by decide : 60 < 61)
      (toneX_last ▸ h) (Nat.zero_le _) (Nat.le_refl _)
  have pos := beyond.pos (Nat.zero_le a)
  obtain ⟨lt, -⟩ := advance_some hq
  have row : rowOf a = q := by
    unfold rowOf
    rw [hq]
    rfl
  have back := Nat.sub_add_cancel pos
  exact ⟨q - 1, row.trans back.symm, by omega, back.symm ▸ beyond⟩

/-- From any row that is passed, the cursor gets to the same. -/
theorem advance_rowOf (h : a < 2 ^ 22) {k : Nat} (passed : ∀ j < k, toneX j ≤ a) :
    advance 61 toneX a 61 k = some (rowOf a) := by
  have le : k ≤ 60 := by
    apply Nat.not_lt.1
    intro lt
    exact absurd h (Nat.not_lt.2 (passed 60 lt))
  obtain ⟨q, hq, beyond⟩ :=
    advance_over (n := 61) (k := 61) passed (by decide : 60 < 61) (toneX_last ▸ h) le (Nat.sub_le _ _)
  obtain ⟨i, row, -, beyond'⟩ := rowOf_over h
  rw [hq, row, Nat.le_antisymm (beyond.mono beyond' (Nat.le_refl _)) (beyond'.mono beyond (Nat.le_refl _))]

theorem tone_mono (hb : b < 2 ^ 22) (le : a ≤ b) : tone m a ≤ tone m b := by
  obtain ⟨i, ri, -, oi⟩ := rowOf_over (Nat.lt_of_le_of_lt le hb)
  obtain ⟨j, rj, hj, oj⟩ := rowOf_over hb
  have values := mix_over (y := toneY) (r := 256) (fun kl hl => toneY_mono kl (Nat.le_trans hl hj)) oi oj le
  unfold tone
  rw [ri, rj, Nat.add_sub_cancel, Nat.add_sub_cancel]
  exact min_le_min_right _ (Nat.div_le_div_right (Nat.mul_le_mul_right _ values))

theorem tone_le (m a : Nat) : tone m a ≤ 1023 := Nat.min_le_right _ _

/-- One round, from a cursor that is not too far. -/
theorem curRound_eq {c : Nat} {s : Nat × List Nat} (h1 : 1 ≤ m) (hm : m ≤ 1023)
    (h : c * smax / 0x3fffff < 2 ^ 22) (passed : ∀ j < s.1, toneX j ≤ c * smax / 0x3fffff) :
    curRound smax m s c =
      some (rowOf (c * smax / 0x3fffff), s.2 ++ [tone m (c * smax / 0x3fffff)]) := by
  obtain ⟨a, ha⟩ : ∃ a, a = c * smax / 0x3fffff := ⟨_, rfl⟩
  rw [← ha] at h passed ⊢
  obtain ⟨i, row, hi, beyond⟩ := rowOf_over h
  have from_ := beyond.passed i (Nat.lt_succ_self i)
  obtain ⟨lt, near⟩ := toneX_step i hi
  obtain ⟨y0, y1⟩ := toneY_step i hi
  have x1 : toneX (i + 1) < 2 ^ 32 := by
    have := beyond.passed i (Nat.lt_succ_self i)
    omega
  have weight : upWeight toneX 256 a i ≤ 256 := upWeight_le (Nat.le_of_lt beyond.lt)
  have top : mix toneY 256 (upWeight toneX 256 a i) i ≤ 256 * toneY (i + 1) := mix_le y0 weight
  have wgt : udiv (umul (usub a (toneX i)) 256) (usub (toneX (i + 1)) (toneX i)) =
      some (upWeight toneX 256 a i) := by
    rw [usub_of_le from_ (by omega), usub_of_le (Nat.le_of_lt lt) x1, umul_of_lt (by omega), udiv_of_pos (by omega)]
    rfl
  have parts : umul (uadd (umul (upWeight toneX 256 a i) (toneY (i + 1)))
      (umul (usub 256 (upWeight toneX 256 a i)) (toneY i))) 1023 =
        mix toneY 256 (upWeight toneX 256 a i) i * 1023 := by
    unfold mix at top ⊢
    have upper : umul (upWeight toneX 256 a i) (toneY (i + 1)) = upWeight toneX 256 a i * toneY (i + 1) :=
      umul_of_lt (by omega)
    have lower : umul (256 - upWeight toneX 256 a i) (toneY i) = (256 - upWeight toneX 256 a i) * toneY i :=
      umul_of_lt (by omega)
    rw [usub_of_le weight (by decide), upper, lower, uadd_of_lt (by omega), umul_of_lt (by omega)]
  unfold curRound
  simp only [Option.bind_eq_bind]
  rw [← ha, Nat.mod_eq_of_lt (by omega), advance_rowOf h passed, Option.bind_some, row, Nat.add_sub_cancel, wgt,
    Option.bind_some, parts, umul_of_lt (by omega), udiv_of_pos (by omega), Option.bind_some]
  unfold tone
  rw [row, Nat.add_sub_cancel]
  have clip : ∀ v : Nat, (if 0x3ff < v then 0x3ff else v) = min v 0x3ff := fun v => by
    split <;> omega
  rw [clip]

/-- The abscissae stay in the table. -/
theorem abscissa_lt {c : Nat} (hc : c ≤ 2 ^ 22) (h : smax < 0x3fffff) : c * smax / 0x3fffff < 2 ^ 22 := by
  have top : c * smax ≤ 2 ^ 22 * smax := Nat.mul_le_mul_right _ hc
  omega

theorem foldlM_curRound (h1 : 1 ≤ m) (hm : m ≤ 1023) (h : smax < 0x3fffff) {cs : List Nat}
    (sorted : cs.Pairwise (· ≤ ·)) (le : ∀ c ∈ cs, c ≤ 2 ^ 22) {s : Nat × List Nat}
    (passed : ∀ c ∈ cs, ∀ j < s.1, toneX j ≤ c * smax / 0x3fffff) :
    ∃ k, cs.foldlM (curRound smax m) s = some (k, s.2 ++ cs.map fun c => tone m (c * smax / 0x3fffff)) := by
  induction cs generalizing s with
  | nil => exact ⟨s.1, by rw [List.map_nil, List.append_nil]; rfl⟩
  | cons c cs ih =>
    obtain ⟨first, rest⟩ := List.pairwise_cons.1 sorted
    have inside := abscissa_lt (le c List.mem_cons_self) h
    have round := curRound_eq h1 hm inside (passed c List.mem_cons_self)
    obtain ⟨i, row, -, beyond⟩ := rowOf_over inside
    obtain ⟨k, hk⟩ := ih rest (fun d hd => le d (List.mem_cons_of_mem _ hd))
      (s := (rowOf (c * smax / 0x3fffff), s.2 ++ [tone m (c * smax / 0x3fffff)])) (by
        intro d hd j hj
        have before := beyond.passed j (row ▸ hj)
        exact Nat.le_trans before (Nat.div_le_div_right (Nat.mul_le_mul_right _ (first d hd))))
    refine ⟨k, ?_⟩
    rw [List.foldlM_cons, round, Option.bind_eq_bind, Option.bind_some, hk, List.append_assoc]
    rfl

end tone

/-- What is expected of the values: they do not fall, start at `0`, and fit the ten bits of a word's fields. -/
structure ToneMap (curY : List Nat) : Prop where
  length : curY.length = 41
  first : curY[0]? = some 0
  sorted : curY.Pairwise (· ≤ ·)
  le : ∀ y ∈ curY, y ≤ 1023
  fields : ∀ i, 1 ≤ i → i ≤ 13 → tmgWord curY i =
    curY.getD (3 * i - 1) 0 * 2 ^ 20 + curY.getD (3 * i) 0 * 2 ^ 10 + curY.getD (3 * i + 1) 0

section toneMap

variable {smax : Nat} {curY : List Nat}

theorem getD_le (le : ∀ y ∈ curY, y ≤ 1023) (i : Nat) : curY.getD i 0 ≤ 1023 := by
  rw [List.getD_eq_getElem?_getD]
  cases h : curY[i]? with
  | none => exact Nat.zero_le _
  | some y => exact le y (List.mem_of_getElem? h)

theorem tmgWord_fields (le : ∀ y ∈ curY, y ≤ 1023) {i : Nat} (hi : 1 ≤ i) : tmgWord curY i =
    curY.getD (3 * i - 1) 0 * 2 ^ 20 + curY.getD (3 * i) 0 * 2 ^ 10 + curY.getD (3 * i + 1) 0 := by
  have a := getD_le le (3 * i - 1)
  have b := getD_le le (3 * i)
  have c := getD_le le (3 * i + 1)
  unfold tmgWord
  dsimp only
  rw [show 3 * i - 1 + 1 = 3 * i by omega, show 3 * i - 1 + 2 = 3 * i + 1 by omega]
  have mid : curY.getD (3 * i) 0 <<< 10 < 2 ^ 20 := by
    rw [Nat.shiftLeft_eq]
    omega
  have high : curY.getD (3 * i - 1) 0 <<< 20 < 2 ^ 32 := by
    rw [Nat.shiftLeft_eq]
    omega
  have two : curY.getD (3 * i - 1) 0 <<< 20 ||| curY.getD (3 * i) 0 <<< 10 =
      (curY.getD (3 * i - 1) 0 * 2 ^ 10 + curY.getD (3 * i) 0) <<< 10 := by
    rw [shl_or _ mid, Nat.shiftLeft_eq, Nat.shiftLeft_eq]
    omega
  rw [Nat.mod_eq_of_lt high, Nat.mod_eq_of_lt (Nat.lt_trans mid (by decide)), two,
    shl_or _ (Nat.lt_succ_of_le c)]
  omega

theorem libWdrCtrl_toneMap (h2 : 2 ≤ smax) (h : smax < 0x3fffff) :
    ∃ curY, libWdrCtrl smax = some curY ∧ ToneMap curY := by
  obtain ⟨m, hm, m0, m1⟩ := maxY_eq h2 (by omega)
  obtain ⟨k, hk⟩ := foldlM_curRound (s := (0, [0])) m0 m1 h curX_sorted curX_le
    (fun _ _ j hj => absurd hj (Nat.not_lt_zero j))
  have le : ∀ y ∈ 0 :: gnTblToneMapCurX.tail.map fun c => tone m (c * smax / 0x3fffff), y ≤ 1023 := by
    intro y hy
    rcases List.mem_cons.1 hy with rfl | hy
    · exact Nat.zero_le _
    · obtain ⟨c, -, rfl⟩ := List.mem_map.1 hy
      exact tone_le _ _
  refine ⟨0 :: gnTblToneMapCurX.tail.map fun c => tone m (c * smax / 0x3fffff), ?_, ?_⟩
  · unfold libWdrCtrl
    simp only [Option.bind_eq_bind]
    rw [hm, Option.bind_some, hk, Option.bind_some]
    rfl
  · exact
      { length := by
          rw [List.length_cons, List.length_map]
          decide
        first := rfl
        sorted := by
          rw [List.pairwise_cons, List.pairwise_map]
          refine ⟨fun _ _ => Nat.zero_le _, curX_sorted.imp_of_mem fun {c d} _ hd cd => ?_⟩
          exact tone_mono (abscissa_lt (curX_le d hd) h) (Nat.div_le_div_right (Nat.mul_le_mul_right _ cd))
        le := le
        fields := fun i hi _ => tmgWord_fields le hi }

/-- Beyond the table the last abscissa leaves it. -/
theorem libWdrCtrl_beyond (h : 0x3fffff ≤ smax) (lt : smax < 2 ^ 24) : libWdrCtrl smax = none := by
  rw [Option.eq_none_iff_forall_ne_some]
  intro curY out
  unfold libWdrCtrl at out
  simp only [Option.bind_eq_bind, Option.bind_eq_some_iff] at out
  obtain ⟨m, -, s, run, -⟩ := out
  have last : gnTblToneMapCurX.tail = gnTblToneMapCurX.tail.dropLast ++ [2 ^ 22] := by decide
  rw [last, List.foldlM_append, Option.bind_eq_bind, Option.bind_eq_some_iff] at run
  obtain ⟨t, -, round⟩ := run
  rw [List.foldlM_cons, Option.bind_eq_bind, Option.bind_eq_some_iff] at round
  obtain ⟨u, round, -⟩ := round
  unfold curRound at round
  simp only [Option.bind_eq_bind, Option.bind_eq_some_iff] at round
  obtain ⟨q, cursor, -⟩ := round
  obtain ⟨row, beyond⟩ := advance_some cursor
  have rows : ∀ q < 61, toneX q ≤ 2 ^ 22 := by decide
  have top := rows q row
  have value : 2 ^ 22 * smax / 0x3fffff < 2 ^ 32 := by omega
  rw [Nat.mod_eq_of_lt value] at beyond
  omega

theorem libWdrCtrl_small (h : smax < 2) : libWdrCtrl smax = none := by
  have none_ : ∀ smax < 2, libWdrCtrl smax = none := by decide +kernel
  exact none_ smax h

end toneMap

/-- What is expected of a call with the shutters and parameters. -/
def WdrPar.Maps (p : WdrPar) (giSht_L giSht_S : Nat) : Prop :=
  ∃ gain curY, iWdrGain (p.smax giSht_L giSht_S) = some gain ∧
    libWdrCtrl (p.smax giSht_L giSht_S) = some curY ∧ ToneMap curY

/-- The tone map is right where the maximum of the short exposure, before it is divided by `256`, wraps to no less
than `512` and to less than the table has room for. -/
theorem wdrCtrl_iff (p : WdrPar) (giSht_L giSht_S : Nat) :
    p.Maps giSht_L giSht_S ↔
      2 * 256 ≤ 0x3ff * giSht_L / giSht_S * p.anWeight % 2 ^ 32 ∧
        0x3ff * giSht_L / giSht_S * p.anWeight % 2 ^ 32 < 0x3fffff * 256 := by
  obtain ⟨n, hn⟩ : ∃ n, n = 0x3ff * giSht_L / giSht_S * p.anWeight % 2 ^ 32 := ⟨_, rfl⟩
  have wrap : n < 2 ^ 32 := hn ▸ Nat.mod_lt _ (by decide)
  have smax : p.smax giSht_L giSht_S = n / 256 := by
    unfold WdrPar.smax umul
    rw [← hn, Nat.shiftRight_eq_div_pow]
  unfold WdrPar.Maps
  rw [← hn, smax]
  constructor
  · rintro ⟨gain, curY, -, out, -⟩
    constructor
    · apply Nat.not_lt.1
      intro less
      rw [libWdrCtrl_small (by omega)] at out
      cases out
    · apply Nat.not_le.1
      intro more
      rw [libWdrCtrl_beyond (by omega) (by omega)] at out
      cases out
  · rintro ⟨lo, hi⟩
    obtain ⟨curY, out, map⟩ := libWdrCtrl_toneMap (show 2 ≤ n / 256 by omega) (by omega)
    exact ⟨_, curY, udiv_of_pos (by omega), out, map⟩

/-- The weight `0` of the low step. -/
theorem wdrCtrl_zero :
    ¬∀ (p : WdrPar) (giSht_L giSht_S : Nat), 1 ≤ giSht_S → giSht_S ≤ giSht_L → giSht_L ≤ 4500 →
      p.swgtL < 256 → p.swgtM < 256 → p.swgtH < 256 → p.Maps giSht_L giSht_S := by
  intro h
  obtain ⟨gain, _, div, -⟩ := h ⟨true, 0, 0, 0x80, 0x80⟩ 4500 100 (by decide) (by decide) (by decide) (by decide)
    (by decide) (by decide)
  have zero : iWdrGain (WdrPar.smax ⟨true, 0, 0, 0x80, 0x80⟩ 4500 100) = none := by decide
  exact absurd (zero.symm.trans div) (by simp)

end En675.Isp
