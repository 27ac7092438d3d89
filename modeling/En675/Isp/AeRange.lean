import Mathlib.Algebra.Order.Ring.Abs
import Mathlib.Tactic.Ring
import En675.Isp.ShtPos

/-! The signed expressions that a call of the controllers evaluates, in the order of the source, and
whether an `int` holds them. -/

namespace En675.Isp

open Lib

def FitsInt (x : Int) : Prop := -2 ^ 31 ≤ x ∧ x < 2 ^ 31

instance : Decidable (FitsInt x) := inferInstanceAs (Decidable (_ ∧ _))

def AllFit (l : List Int) : Prop := ∀ x ∈ l, FitsInt x

instance : Decidable (AllFit l) := inferInstanceAs (Decidable (∀ x ∈ l, FitsInt x))

@[simp] theorem allFit_nil : AllFit [] := fun _ hx => absurd hx List.not_mem_nil

@[simp] theorem allFit_cons : AllFit (x :: l) ↔ FitsInt x ∧ AllFit l := List.forall_mem_cons

@[simp] theorem allFit_append : AllFit (k ++ l) ↔ AllFit k ∧ AllFit l := List.forall_mem_append

theorem allFit_flatMap {f : α → List Int} {l : List α} (h : ∀ a ∈ l, AllFit (f a)) : AllFit (l.flatMap f) := by
  intro x hx
  obtain ⟨a, ha, hx⟩ := List.mem_flatMap.1 hx
  exact h a ha x hx

section expressions

def lineExprs (v : Int) : List Int := if v < 2 then [v] else [v, v - 1]

def estExprs (kp ki err dly chg : Int) : List Int :=
  [kp * err, ki * dly, kp * err + ki * dly, kp * chg, kp * err + ki * dly + kp * chg]

namespace AePar

variable (p : AePar)

def shapeExprs (est gain : Int) : List Int :=
  let low := gain / 2 ^ p.gainMinBit
  (est.natAbs : Int) :: low ::
    if est.natAbs ≤ p.gainMinErr ∨ p.gainMaxErr ≤ est.natAbs then []
    else
      [gain - low, est.natAbs - p.gainMinErr, (gain - low) * (est.natAbs - p.gainMinErr),
        p.gainMaxErr - p.gainMinErr]

def posExprs (err est gain : Int) : List Int :=
  p.shapeExprs est gain ++ [p.shape est gain, p.errPos err est gain]

end AePar

namespace Agc

variable (p : AePar) (c : AgcCall) (s : Agc)

def finishExprs (est : Int) : List Int :=
  [c.aiAgcMin * 2 ^ 16, c.aiAgcMax * 2 ^ 16, s.iErrEstAc + est, p.agcMin * 2 ^ 16,
    (s.clampCtrl c).giAgcCtrl - p.agcMin * 2 ^ 16]

/-- Of a call of `AgcCtrl`. -/
def exprs : List Int :=
  let err := clampErr c.aiErr
  let chg := err - s.iErr1d
  let s := { s with iErr1d := err }
  chg :: match c.manual with
    | some m => [m * 2 ^ 16, p.agcMin * 2 ^ 16, m * 2 ^ 16 - p.agcMin * 2 ^ 16]
    | none =>
      let s := s.delay p c
      if s.gbAgcDly ≠ 0 then { s with gbAgcDly := s.gbAgcDly - 1 }.finishExprs p c 0
      else -c.aiMargin ::
        if -c.aiMargin ≤ err ∧ err ≤ c.aiMargin then s.finishExprs p c 0
        else
          let est := errEst 270 135 err (s.iErrEstDly p.agcDly) chg
          let gain := clampGain agcMaxGain c.aiGain
          let ctrl := s.giAgcCtrl + p.errPos err est gain
          estExprs 270 135 err (s.iErrEstDly p.agcDly) chg ++ p.posExprs err est gain ++
            ctrl :: { s with giAgcCtrl := ctrl }.finishExprs p c est

end Agc

namespace Sht

variable (p : AePar) (c : ShtCall) (s : Sht)

def limitExprs : List Int :=
  if s.Sets c then lineExprs (s.valNew c) ++ lineExprs (s.valNew c + 1) else []

def vHssExprs : List Int :=
  if s.giShtVal < p.giVHssAgcTblEa then [s.giShtPos / 2 ^ 9 * ((p.tbl s.giShtVal).val + 1)] else []

def upExprs (fuel : Nat) (errPos : Int) : List Int :=
  let t := { s with giShtPos := s.giShtPos + errPos }
  t.giShtPos ::
    (rounds (fun s => s.giShtPosP ≤ s.giShtPos) (upRound p c) fuel t).flatMap (fun u =>
      (u.giShtPos - u.giShtPosP) :: (u.giShtVal + 1) :: lineExprs (u.giShtVal + 1 + 1)) ++
    (s.up p c fuel errPos).elim [] fun u => lineExprs u.giShtVal

def downExprs (fuel : Nat) (errPos : Int) : List Int :=
  let t := { s with giShtPos := s.giShtPos + errPos }
  t.giShtPos ::
    (rounds (fun s => c.aiShtMin < s.giShtVal ∧ s.giShtPos < 0) (downRound p) fuel t).flatMap (fun u =>
      (u.giShtPos + u.giShtPosN) :: (u.giShtVal - 1) :: lineExprs (u.giShtVal - 1)) ++
    (s.down p c fuel errPos).elim [] fun u => lineExprs (u.giShtVal + 1)

def moveExprs (fuel : Nat) (errPos giAgcCtrl : Int) : List Int :=
  if 0 ≤ errPos then
    p.agcMin * 2 ^ 16 ::
      if s.giShtVal = p.giVHssAgcTblEa ∧ giAgcCtrl < p.agcMin * 2 ^ 16 then []
      else if s.giShtVal < c.aiShtMax then s.upExprs p c fuel errPos
      else []
  else
    if s.giShtVal = p.giVHssAgcTblEa ∧ 0 < giAgcCtrl then []
    else if c.aiShtMin < s.giShtVal ∨ s.giShtVal = c.aiShtMin ∧ 0 < s.giShtPos then
      s.downExprs p c fuel errPos
    else []

/-- From `ShtCtrlEnd` on. -/
def finishExprs (err : Int) (agcCtrlOn : Bool) (g : Agc) : List Int :=
  if c.abAgcOn then g.exprs p (agcCall p c err agcCtrlOn) else []

def agcOffExprs (g : Agc) : List Int :=
  p.agcMin * 2 ^ 16 ::
    if p.giVHssAgcTblEa < s.giShtVal ∧ g.giAgcCtrl ≠ p.agcMin * 2 ^ 16 ∧ c.abAgcOn then
      g.exprs p ⟨0, 0, 0, 0, 0, false, false, some p.agcMin⟩
    else []

def autoExprs (fuel : Nat) (chg : Int) (g : Agc) : List Int :=
  let err := clampErr c.aiErr
  let s := s.delay p c
  if s.gbShtDly ≠ 0 then finishExprs p c err false g
  else -c.aiMargin ::
    if -c.aiMargin ≤ err ∧ err ≤ c.aiMargin then finishExprs p c err false g
    else
      let est := s.est p c chg
      let pos := s.errPos p c chg
      estExprs 550 275 err (s.iErrEstDly p.shtDly) chg ++ p.posExprs err est (clampGain shtMaxGain c.aiGain) ++
        s.moveExprs p c fuel pos g.giAgcCtrl ++
        (s.move p c fuel pos g.giAgcCtrl).elim [] fun (t, on) =>
          t.vHssExprs p ++ (s.iErrEstAc + est) :: finishExprs p c err on g

/-- Of a call of `ShtCtrl`. -/
def exprs (fuel : Nat) (g : Agc) : List Int :=
  let chg := clampErr c.aiErr - s.iErr1d
  let u := s.found p c
  chg :: s.limitExprs c ++
    if c.aiShtManual ≠ 0 then u.vHssExprs p
    else u.agcOffExprs p c g ++ u.autoExprs p c fuel chg (u.agcOff p c g)

end Sht

end expressions

section estimate

/-- What is left beside the largest position, and beside the largest gain. -/
def shtRoom : Int := 0x7fffffff - 131070 * 2 ^ 9

def agcRoom : Int := 0x7fffffff - (0x400 + 0x2E00) * 2 ^ 16

/-- The clamps that are made for the error are enough for the estimate. -/
structure Gentle (kp ki room gain err err1d dly ac : Int) : Prop where
  of_dly : ki * |dly| ≤ 0x7fffffff - 3 * 1023 * kp
  of_gain : gain * |2 * kp * err + ki * dly - kp * err1d| ≤ 1000 * room
  of_ac : 1000 * |ac| + |2 * kp * err + ki * dly - kp * err1d| ≤ 1000 * 0x7fffffff

theorem abs_clampErr (e : Int) : |clampErr e| ≤ 1023 := by
  unfold clampErr
  rw [abs_le]
  split
  · decide
  · split
    · decide
    · omega

theorem clampGain_bounds (one : 1 ≤ top) (g : Int) : 1 ≤ clampGain top g ∧ clampGain top g ≤ top := by
  unfold clampGain
  split
  · exact ⟨one, le_rfl⟩
  · split
    · exact ⟨le_rfl, one⟩
    · omega

theorem abs_tdiv_le (x : Int) : 1000 * |x.tdiv 1000| ≤ |x| := by
  have quot : (x.tdiv 1000).natAbs = x.natAbs / 1000 := Int.natAbs_tdiv x 1000
  rw [Int.abs_eq_natAbs, Int.abs_eq_natAbs]
  omega

theorem errEst_eq (kp ki err dly err1d : Int) :
    errEst kp ki err dly (err - err1d) = (2 * kp * err + ki * dly - kp * err1d).tdiv 1000 := by
  unfold errEst
  congr 1
  ring

namespace Gentle

variable {kp ki room gain err err1d dly ac : Int} (h : Gentle kp ki room gain err err1d dly ac)

include h

theorem est_ac : |ac| + |errEst kp ki err dly (err - err1d)| ≤ 0x7fffffff := by
  have le := abs_tdiv_le (2 * kp * err + ki * dly - kp * err1d)
  have ac_ := h.of_ac
  rw [errEst_eq]
  omega

theorem est_gain (pos : 0 ≤ gain) : gain * |errEst kp ki err dly (err - err1d)| ≤ room := by
  have le := mul_le_mul_of_nonneg_left (abs_tdiv_le (2 * kp * err + ki * dly - kp * err1d)) pos
  have gain_ := h.of_gain
  rw [errEst_eq]
  rw [mul_left_comm] at le
  omega

theorem estExprs (hkp : 0 ≤ kp) (hki : 0 ≤ ki) (he : |err| ≤ 1023) (he1 : |err1d| ≤ 1023) :
    AllFit (estExprs kp ki err dly (err - err1d)) := by
  have dly_ := h.of_dly
  have d : |ki * dly| = ki * |dly| := by rw [abs_mul, abs_of_nonneg hki]
  have e : |kp * err| ≤ kp * 1023 := by
    rw [abs_mul, abs_of_nonneg hkp]
    exact mul_le_mul_of_nonneg_left he hkp
  have e1 : |kp * err1d| ≤ kp * 1023 := by
    rw [abs_mul, abs_of_nonneg hkp]
    exact mul_le_mul_of_nonneg_left he1 hkp
  rw [← d] at dly_
  rw [abs_le] at e e1
  have dly_abs := abs_le.1 (le_refl |ki * dly|)
  unfold En675.Isp.estExprs
  rw [mul_sub]
  simp only [allFit_cons, allFit_nil, and_true, FitsInt]
  omega

end Gentle

end estimate

namespace AePar

variable {p : AePar} {err est gain room : Int}

/-- The parameters are within their documented maxima. -/
structure Fits (p : AePar) : Prop where
  agcMin_nonneg : 0 ≤ p.agcMin
  agcMin_le : p.agcMin ≤ 0x400 + 0x2E00
  minErr_nonneg : 0 ≤ p.gainMinErr
  lt : p.gainMinErr < p.gainMaxErr
  maxErr_lt : p.gainMaxErr < 2 ^ 31

/-- The error that is multiplied. -/
def used (p : AePar) (err est : Int) : Int := if p.errEstOff then err else est

theorem low_bounds (pos : 0 ≤ gain) (b : Nat) : 0 ≤ gain / 2 ^ b ∧ gain / 2 ^ b ≤ gain :=
  ⟨Int.ediv_nonneg pos (pow_nonneg (by decide) b), Int.ediv_le_self _ pos⟩

theorem shape_bounds (pos : 0 ≤ gain) (est : Int) :
    0 ≤ p.shape est gain ∧ p.shape est gain ≤ gain := by
  obtain ⟨low_nonneg, low_le⟩ := low_bounds pos p.gainMinBit
  unfold shape
  dsimp only
  split
  · exact ⟨low_nonneg, low_le⟩
  · split
    · exact ⟨pos, le_rfl⟩
    · rename_i above below
      have dividend : 0 ≤ (gain - gain / 2 ^ p.gainMinBit) * (est.natAbs - p.gainMinErr) :=
        mul_nonneg (by omega) (by omega)
      have quot : (gain - gain / 2 ^ p.gainMinBit) * (est.natAbs - p.gainMinErr) / (p.gainMaxErr - p.gainMinErr) ≤
          gain - gain / 2 ^ p.gainMinBit :=
        Int.ediv_le_of_le_mul (by omega) (mul_le_mul_of_nonneg_left (by omega) (by omega))
      have quot_nonneg := Int.ediv_nonneg dividend (by omega : 0 ≤ p.gainMaxErr - p.gainMinErr)
      rw [Int.tdiv_eq_ediv_of_nonneg dividend]
      omega

theorem abs_errPos (pos : 0 ≤ gain) (h : gain * |p.used err est| ≤ room) :
    |p.errPos err est gain| ≤ room := by
  obtain ⟨nonneg, le⟩ := shape_bounds (p := p) pos est
  calc
    |p.errPos err est gain| = |p.used err est| * |p.shape est gain| := abs_mul _ _
    _ = |p.used err est| * p.shape est gain := by rw [abs_of_nonneg nonneg]
    _ ≤ |p.used err est| * gain := mul_le_mul_of_nonneg_left le (abs_nonneg _)
    _ = gain * |p.used err est| := mul_comm _ _
    _ ≤ room := h

theorem used_errPos (pos : 0 ≤ gain) : 0 ≤ p.used err est * p.errPos err est gain := by
  have square : p.used err est * p.errPos err est gain = p.used err est * p.used err est * p.shape est gain :=
    (mul_assoc _ _ _).symm
  rw [square]
  exact mul_nonneg (mul_self_nonneg _) (shape_bounds pos est).1

theorem Fits.posExprs (hp : p.Fits) (one : 1 ≤ gain) (gain_le : gain ≤ 0x7fffffff) (room_le : room ≤ 0x7fffffff)
    (hest : gain * |est| ≤ room) (hused : gain * |p.used err est| ≤ room) : AllFit (p.posExprs err est gain) := by
  have pos : 0 ≤ gain := by omega
  obtain ⟨low_nonneg, low_le⟩ := low_bounds pos p.gainMinBit
  obtain ⟨shape_nonneg, shape_le⟩ := shape_bounds (p := p) pos est
  have minErr := hp.minErr_nonneg
  have lt := hp.lt
  have maxErr := hp.maxErr_lt
  have errPos := abs_le.1 (abs_errPos pos hused)
  have est_le : (est.natAbs : Int) ≤ room := by
    rw [← Int.abs_eq_natAbs]
    exact (le_mul_of_one_le_left (abs_nonneg est) one).trans hest
  have shapeExprs : AllFit (p.shapeExprs est gain) := by
    unfold AePar.shapeExprs
    dsimp only
    split
    · simp only [allFit_cons, allFit_nil, and_true, FitsInt]
      omega
    · have product_nonneg : 0 ≤ (gain - gain / 2 ^ p.gainMinBit) * (est.natAbs - p.gainMinErr) :=
        mul_nonneg (by omega) (by omega)
      have product : (gain - gain / 2 ^ p.gainMinBit) * (est.natAbs - p.gainMinErr) ≤ room := by
        calc
          _ ≤ gain * (est.natAbs : Int) := mul_le_mul (by omega) (by omega) (by omega) pos
          _ = gain * |est| := by rw [Int.abs_eq_natAbs]
          _ ≤ room := hest
      simp only [allFit_cons, allFit_nil, and_true, FitsInt]
      omega
  unfold AePar.posExprs
  simp only [allFit_append, allFit_cons, allFit_nil, and_true, FitsInt]
  refine ⟨shapeExprs, ?_⟩
  omega

theorem clampGain_used (one : 1 ≤ top) (room_nonneg : 1023 * top ≤ room) (g : Int) (he : |err| ≤ 1023)
    (hest : clampGain top g * |est| ≤ room) : clampGain top g * |p.used err est| ≤ room := by
  unfold used
  split
  · obtain ⟨gain_one, gain_le⟩ := clampGain_bounds one g
    calc
      clampGain top g * |err| ≤ top * 1023 := mul_le_mul gain_le he (abs_nonneg err) (by omega)
      _ = 1023 * top := mul_comm _ _
      _ ≤ room := room_nonneg
  · exact hest

end AePar

/-- The limits are within their documented maxima. -/
structure AgcCall.Bounded (c : AgcCall) : Prop where
  min_nonneg : 0 ≤ c.aiAgcMin
  min_le : c.aiAgcMin ≤ 0x400 + 0x2E00
  max_nonneg : 0 ≤ c.aiAgcMax
  max_le : c.aiAgcMax ≤ 0x400 + 0x2E00
  margin : -2 ^ 31 < c.aiMargin ∧ c.aiMargin < 2 ^ 31
  manual : ∀ m, c.manual = some m → 0 ≤ m ∧ m ≤ 0x400 + 0x2E00

namespace Agc

variable {p : AePar} {c : AgcCall} {s : Agc} {est : Int}

structure Ranged (s : Agc) : Prop where
  err1d : |s.iErr1d| ≤ 1023
  ac : |s.iErrEstAc| ≤ 0x7fffffff
  ctrl_nonneg : 0 ≤ s.giAgcCtrl
  ctrl_le : s.giAgcCtrl ≤ (0x400 + 0x2E00) * 2 ^ 16

/-- The call is automatic, not delayed, and out of the margin. -/
def Estimates (p : AePar) (c : AgcCall) (s : Agc) : Prop :=
  c.manual = none ∧ (s.delay p c).gbAgcDly = 0 ∧ ¬(-c.aiMargin ≤ clampErr c.aiErr ∧ clampErr c.aiErr ≤ c.aiMargin)

def Calm (p : AePar) (c : AgcCall) (s : Agc) : Prop :=
  s.Estimates p c →
    Gentle 270 135 agcRoom (clampGain agcMaxGain c.aiGain) (clampErr c.aiErr) s.iErr1d (s.iErrEstDly p.agcDly)
      s.iErrEstAc

theorem delay_eq (s : Agc) : s.delay p c = { s with gbAgcDly := (s.delay p c).gbAgcDly } := by
  unfold delay
  dsimp only
  split <;> rfl

theorem clampCtrl_bounds (hc : c.Bounded) (s : Agc) :
    0 ≤ (s.clampCtrl c).giAgcCtrl ∧ (s.clampCtrl c).giAgcCtrl ≤ (0x400 + 0x2E00) * 2 ^ 16 := by
  obtain ⟨min_nonneg, min_le, max_nonneg, max_le, -, -⟩ := hc
  unfold clampCtrl
  dsimp only
  split
  · omega
  · split <;> omega

theorem finishExprs_fit (hp : p.Fits) (hc : c.Bounded) (ac : |s.iErrEstAc + est| ≤ 0x7fffffff) :
    AllFit (s.finishExprs p c est) := by
  obtain ⟨ctrl_nonneg, ctrl_le⟩ := clampCtrl_bounds hc s
  obtain ⟨min_nonneg, min_le, max_nonneg, max_le, -, -⟩ := hc
  have agcMin := hp.agcMin_nonneg
  have agcMin_le := hp.agcMin_le
  have sum := abs_le.1 ac
  simp only [finishExprs, allFit_cons, allFit_nil, and_true, FitsInt]
  omega

theorem finish_ranged (hc : c.Bounded) (err1d : |s.iErr1d| ≤ 1023) (ac : |s.iErrEstAc + est| ≤ 0x7fffffff) :
    (s.finish p c est).Ranged := by
  obtain ⟨ctrl_nonneg, ctrl_le⟩ := clampCtrl_bounds hc s
  have zero : |(0 : Int)| ≤ 0x7fffffff := by decide
  unfold finish release
  dsimp only
  split
  · exact ⟨err1d, zero, ctrl_nonneg, ctrl_le⟩
  · split
    · exact ⟨err1d, zero, ctrl_nonneg, ctrl_le⟩
    · exact ⟨err1d, ac, ctrl_nonneg, ctrl_le⟩

theorem finish_ctrl (s : Agc) (est : Int) : (s.finish p c est).giAgcCtrl = (s.clampCtrl c).giAgcCtrl := by
  unfold finish release
  dsimp only
  split
  · rfl
  · split <;> rfl

theorem exprs_fit (hp : p.Fits) (hc : c.Bounded) (h : s.Ranged) (calm : s.Calm p c) : AllFit (s.exprs p c) := by
  have err := abs_clampErr c.aiErr
  have chg : FitsInt (clampErr c.aiErr - s.iErr1d) := by
    have err_ := abs_le.1 err
    have err1d := abs_le.1 h.err1d
    unfold FitsInt
    omega
  have margin : FitsInt (-c.aiMargin) := by
    have margin := hc.margin
    unfold FitsInt
    omega
  unfold exprs
  dsimp only
  rw [allFit_cons]
  refine ⟨chg, ?_⟩
  cases hm : c.manual with
  | some m =>
    have m_bounds := hc.manual m hm
    have agcMin := hp.agcMin_nonneg
    have agcMin_le := hp.agcMin_le
    simp only [allFit_cons, allFit_nil, and_true, FitsInt]
    omega
  | none =>
    have same := delay_eq (p := p) (c := c) { s with iErr1d := clampErr c.aiErr }
    have dly : ({ s with iErr1d := clampErr c.aiErr }.delay p c).gbAgcDly = (s.delay p c).gbAgcDly := by
      unfold delay
      dsimp only
      split <;> rfl
    dsimp only
    rw [same, dly]
    dsimp only
    have still : |s.iErrEstAc + 0| ≤ 0x7fffffff := by
      rw [add_zero]
      exact h.ac
    split
    · exact finishExprs_fit hp hc still
    · rename_i ready
      rw [allFit_cons]
      refine ⟨margin, ?_⟩
      split
      · exact finishExprs_fit hp hc still
      · rename_i off
        have gentle := calm ⟨hm, not_not.1 ready, off⟩
        obtain ⟨gain_one, gain_le⟩ := clampGain_bounds (by decide : 1 ≤ agcMaxGain) c.aiGain
        have hest := gentle.est_gain (by omega)
        have hused := AePar.clampGain_used (p := p) (by decide) (by decide : 1023 * agcMaxGain ≤ agcRoom) _ err hest
        have errPos := abs_le.1 (AePar.abs_errPos (by omega) hused)
        have ac : |s.iErrEstAc + errEst 270 135 (clampErr c.aiErr) (s.iErrEstDly p.agcDly)
            (clampErr c.aiErr - s.iErr1d)| ≤ 0x7fffffff := (abs_add_le _ _).trans gentle.est_ac
        simp only [allFit_append, allFit_cons]
        refine ⟨⟨gentle.estExprs (by decide) (by decide) err h.err1d, ?_⟩, ?_, finishExprs_fit hp hc ac⟩
        · exact hp.posExprs gain_one (gain_le.trans (by decide)) (by decide : agcRoom ≤ 0x7fffffff) hest hused
        · have ctrl_nonneg := h.ctrl_nonneg
          have ctrl_le := h.ctrl_le
          have room : agcRoom = 0x7fffffff - (0x400 + 0x2E00) * 2 ^ 16 := rfl
          unfold FitsInt
          omega

theorem ctrl_ranged (hc : c.Bounded) (h : s.Ranged) (calm : s.Calm p c) : (agcCtrl p c s).Ranged := by
  have err := abs_clampErr c.aiErr
  have same := delay_eq (p := p) (c := c) { s with iErr1d := clampErr c.aiErr }
  have dly : ({ s with iErr1d := clampErr c.aiErr }.delay p c).gbAgcDly = (s.delay p c).gbAgcDly := by
    unfold delay
    dsimp only
    split <;> rfl
  have still : |s.iErrEstAc + 0| ≤ 0x7fffffff := by
    rw [add_zero]
    exact h.ac
  unfold agcCtrl
  dsimp only
  cases hm : c.manual with
  | some m =>
    obtain ⟨nonneg, le⟩ := hc.manual m hm
    refine ⟨(by decide : |(0 : Int)| ≤ 1023), (by decide : |(0 : Int)| ≤ 0x7fffffff), ?_, ?_⟩
    · change 0 ≤ m * 2 ^ 16
      omega
    · change m * 2 ^ 16 ≤ _
      omega
  | none =>
    dsimp only
    rw [same, dly]
    dsimp only
    split
    · exact finish_ranged hc err still
    · rename_i ready
      split
      · exact finish_ranged hc err still
      · rename_i off
        have gentle := calm ⟨hm, not_not.1 ready, off⟩
        exact finish_ranged hc err ((abs_add_le _ _).trans gentle.est_ac)

/-- The gain moves in the direction of the error, from where the limits put it. -/
def Steers (p : AePar) (c : AgcCall) (s : Agc) : Prop :=
  let err := clampErr c.aiErr
  let est := errEst 270 135 err (s.iErrEstDly p.agcDly) (err - s.iErr1d)
  let errPos := p.errPos err est (clampGain agcMaxGain c.aiGain)
  0 ≤ p.used err est * errPos ∧
    (c.manual = none → c.aiAgcMin ≤ c.aiAgcMax →
      (0 ≤ errPos → (s.clampCtrl c).giAgcCtrl ≤ (agcCtrl p c s).giAgcCtrl) ∧
      (errPos ≤ 0 → (agcCtrl p c s).giAgcCtrl ≤ (s.clampCtrl c).giAgcCtrl))

theorem clampCtrl_mono (le : c.aiAgcMin ≤ c.aiAgcMax) {s t : Agc} (h : s.giAgcCtrl ≤ t.giAgcCtrl) :
    (s.clampCtrl c).giAgcCtrl ≤ (t.clampCtrl c).giAgcCtrl := by
  unfold clampCtrl
  dsimp only
  split
  · split
    · exact le_rfl
    · split <;> omega
  · split
    · split
      · omega
      · split <;> omega
    · split
      · omega
      · split <;> omega

theorem steers (p : AePar) (c : AgcCall) (s : Agc) : s.Steers p c := by
  have same := delay_eq (p := p) (c := c) { s with iErr1d := clampErr c.aiErr }
  obtain ⟨gain_one, -⟩ := clampGain_bounds (by decide : 1 ≤ agcMaxGain) c.aiGain
  refine ⟨AePar.used_errPos (by omega), fun auto_ le => ?_⟩
  unfold agcCtrl
  dsimp only
  rw [auto_]
  dsimp only
  rw [same]
  dsimp only
  split
  · rw [finish_ctrl]
    exact ⟨fun _ => le_rfl, fun _ => le_rfl⟩
  · split
    · rw [finish_ctrl]
      exact ⟨fun _ => le_rfl, fun _ => le_rfl⟩
    · rw [finish_ctrl]
      constructor
      · intro nonneg
        exact clampCtrl_mono le (le_add_of_nonneg_right nonneg)
      · intro nonpos
        exact clampCtrl_mono le (add_le_of_nonpos_right nonpos)

end Agc

/-- The limits are within their documented maxima. -/
structure ShtCall.Ranged (c : ShtCall) : Prop where
  limits : c.aiShtManual = 0 → c.Bounded
  manual : -2 ^ 31 ≤ c.aiShtManual ∧ c.aiShtManual ≤ 65535
  margin : -2 ^ 31 < c.aiMargin ∧ c.aiMargin < 2 ^ 31

theorem linePos_le (v : Int) : linePos v ≤ 131070 * 2 ^ 9 := by
  unfold linePos
  split
  · decide
  · exact Int.ediv_le_self _ (by decide)

theorem lineExprs_fit (ge : -2 ^ 31 ≤ v) (le : v ≤ 65537) : AllFit (lineExprs v) := by
  unfold lineExprs
  split
  · simp only [allFit_cons, allFit_nil, and_true, FitsInt]
    omega
  · simp only [allFit_cons, allFit_nil, and_true, FitsInt]
    omega

namespace Sht

variable {p : AePar} {c : ShtCall} {s t u : Sht} {e : Int}

structure Ranged (s : Sht) : Prop where
  pos_nonneg : 0 ≤ s.giShtPos
  pos_le : s.giShtPos ≤ 131070 * 2 ^ 9
  posN_pos : 0 < s.giShtPosN
  posN_le : s.giShtPosN ≤ 131070 * 2 ^ 9
  posP_pos : 0 < s.giShtPosP
  posP_le : s.giShtPosP ≤ 131070 * 2 ^ 9
  val_ge : -2 ^ 31 ≤ s.giShtVal
  val_le : s.giShtVal ≤ 65535

theorem Ranged.of_line (h : s.Ranged) (same : t.line = s.line) : t.Ranged := by
  simp only [line, Prod.mk.injEq] at same
  obtain ⟨pos, val, posN, posP⟩ := same
  exact ⟨pos ▸ h.pos_nonneg, pos ▸ h.pos_le, posN ▸ h.posN_pos, posN ▸ h.posN_le, posP ▸ h.posP_pos,
    posP ▸ h.posP_le, val ▸ h.val_ge, val ▸ h.val_le⟩

section limit

theorem setVal_ranged (s : Sht) (ge : -2 ^ 31 ≤ v) (le : v ≤ 65535) : (s.setVal p v).Ranged := by
  have posN : 1024 ≤ linePos v := linePos_ge (by omega)
  have posP : 1024 ≤ linePos (v + 1) := linePos_ge (by omega)
  have posP_le := linePos_le (v + 1)
  refine ⟨?_, ?_, (by decide : (0 : Int) < 1024).trans_le posN, linePos_le v,
    (by decide : (0 : Int) < 1024).trans_le posP, posP_le, ge, le⟩
  · change 0 ≤ linePos (v + 1) / 2
    omega
  · change linePos (v + 1) / 2 ≤ _
    omega

theorem valNew_range (hc : c.Ranged) (s : Sht) : -2 ^ 31 ≤ s.valNew c ∧ s.valNew c ≤ 65535 := by
  unfold valNew
  split
  · exact hc.manual
  · rename_i auto_
    obtain ⟨one_le, le, le_max⟩ := hc.limits (not_not.1 auto_)
    split
    · omega
    · omega

theorem limit_ranged (hc : c.Ranged) (h : s.Ranged) : (s.limit p c).Ranged := by
  have same := limit_line (p := p) (c := c) s
  obtain ⟨ge, le⟩ := valNew_range hc s
  split at same
  · exact (setVal_ranged s ge le).of_line same
  · exact h.of_line same

theorem limitExprs_fit (hc : c.Ranged) (s : Sht) : AllFit (s.limitExprs c) := by
  obtain ⟨ge, le⟩ := valNew_range hc s
  unfold limitExprs
  split
  · exact allFit_append.2 ⟨lineExprs_fit ge (by omega), lineExprs_fit (by omega) (by omega)⟩
  · exact allFit_nil

theorem found_ranged (hc : c.Ranged) (h : s.Ranged) : (s.found p c).Ranged :=
  limit_ranged hc (h.of_line rfl)

theorem abs_found_iErr1d (s : Sht) : |(s.found p c).iErr1d| ≤ 1023 := by
  unfold found limit
  split
  · exact (by decide : |(0 : Int)| ≤ 1023)
  · exact abs_clampErr c.aiErr

theorem vHssExprs_fit (h : s.Ranged) : AllFit (s.vHssExprs p) := by
  have pos_nonneg := h.pos_nonneg
  have pos_le := h.pos_le
  unfold vHssExprs
  split
  · have gain := (p.tbl s.giShtVal).isLt
    have nonneg : 0 ≤ s.giShtPos / 2 ^ 9 * ((p.tbl s.giShtVal).val + 1) := mul_nonneg (by omega) (by omega)
    have le : s.giShtPos / 2 ^ 9 * ((p.tbl s.giShtVal).val + 1) ≤ 131070 * 256 :=
      mul_le_mul (by omega) (by omega) (by omega) (by omega)
    simp only [allFit_cons, allFit_nil, and_true, FitsInt]
    omega
  · exact allFit_nil

end limit

section up

/-- What the loop that moves up keeps. -/
structure Climbing (c : ShtCall) (u s : Sht) : Prop where
  pos_nonneg : 0 ≤ s.giShtPos
  pos_le : s.giShtPos ≤ 0x7fffffff
  posP_pos : 0 < s.giShtPosP
  posP_le : s.giShtPosP ≤ 131070 * 2 ^ 9
  ge : u.giShtVal ≤ s.giShtVal
  lt : s.giShtVal < c.aiShtMax
  err1d : s.iErr1d = u.iErr1d

structure Climbed (c : ShtCall) (u s : Sht) : Prop where
  pos_nonneg : 0 ≤ s.giShtPos
  pos_le : s.giShtPos ≤ 131070 * 2 ^ 9
  posP_pos : 0 < s.giShtPosP
  posP_le : s.giShtPosP ≤ 131070 * 2 ^ 9
  ge : u.giShtVal ≤ s.giShtVal
  le : s.giShtVal ≤ c.aiShtMax
  err1d : s.iErr1d = u.iErr1d

theorem climbing_keeps (bounded : c.Bounded) (u : Sht) :
    Keeps (fun s => decide (s.giShtPosP ≤ s.giShtPos)) (upRound p c) (Climbing c u) (Climbed c u) where
  exit h out := by
    have lt := not_le.1 (of_decide_eq_false out)
    exact ⟨h.pos_nonneg, lt.le.trans h.posP_le, h.posP_pos, h.posP_le, h.ge, h.lt.le, h.err1d⟩
  next {s t} h more hb := by
    have more := of_decide_eq_true more
    obtain ⟨pos_nonneg, pos_le, posP_pos, posP_le, ge, lt, err1d⟩ := h
    have top := bounded.le_max
    have weight : 1024 ≤ linePos (s.giShtVal + 1 + 1) := linePos_ge (by omega)
    unfold upRound at hb
    dsimp only at hb
    split at hb
    · cases hb
    · rename_i on
      obtain rfl := Round.next.inj hb
      refine ⟨?_, ?_, (by decide : (0 : Int) < 1024).trans_le weight, linePos_le _, ?_, ?_, err1d⟩
      · change 0 ≤ s.giShtPos - s.giShtPosP
        omega
      · change s.giShtPos - s.giShtPosP ≤ _
        omega
      · change u.giShtVal ≤ s.giShtVal + 1
        omega
      · change s.giShtVal + 1 < c.aiShtMax
        omega
  stop {s t} h _ hb := by
    obtain ⟨pos_nonneg, pos_le, posP_pos, posP_le, ge, lt, err1d⟩ := h
    have top := bounded.le_max
    have weight : 1024 ≤ linePos (s.giShtVal + 1 + 1) := linePos_ge (by omega)
    unfold upRound at hb
    dsimp only at hb
    split at hb
    · obtain rfl := Round.stop.inj hb
      refine ⟨le_rfl, (by decide : (0 : Int) ≤ 131070 * 2 ^ 9), (by decide : (0 : Int) < 1024).trans_le weight,
        linePos_le _, ?_, ?_, err1d⟩
      · change u.giShtVal ≤ s.giShtVal + 1
        omega
      · change s.giShtVal + 1 ≤ c.aiShtMax
        omega
    · cases hb

theorem climbing_start (h : u.Ranged) (lt : u.giShtVal < c.aiShtMax) (nonneg : 0 ≤ e) (le : e ≤ shtRoom) :
    Climbing c u { u with giShtPos := u.giShtPos + e } := by
  have pos_nonneg := h.pos_nonneg
  have pos_le := h.pos_le
  have room : shtRoom = 0x7fffffff - 131070 * 2 ^ 9 := rfl
  refine ⟨?_, ?_, h.posP_pos, h.posP_le, le_rfl, lt, rfl⟩
  · change 0 ≤ u.giShtPos + e
    omega
  · change u.giShtPos + e ≤ _
    omega

theorem up_climbed (bounded : c.Bounded) (h : u.Ranged) (lt : u.giShtVal < c.aiShtMax) (nonneg : 0 ≤ e)
    (le : e ≤ shtRoom) (ht : u.up p c fuel e = some t) : Climbed c u t ∧ t.giShtPosN = linePos t.giShtVal := by
  obtain ⟨s, hs, rfl⟩ := Option.map_eq_some_iff.1 ht
  obtain ⟨pos_nonneg, pos_le, posP_pos, posP_le, ge, le_, err1d⟩ :=
    (climbing_keeps bounded u).ends (climbing_start h lt nonneg le) hs
  exact ⟨⟨pos_nonneg, pos_le, posP_pos, posP_le, ge, le_, err1d⟩, rfl⟩

theorem upExprs_fit (bounded : c.Bounded) (h : u.Ranged) (lt : u.giShtVal < c.aiShtMax) (nonneg : 0 ≤ e)
    (le : e ≤ shtRoom) (fuel : Nat) : AllFit (u.upExprs p c fuel e) := by
  have start := climbing_start h lt nonneg le
  have val_ge := h.val_ge
  have top := bounded.le_max
  unfold upExprs
  simp only [allFit_append, allFit_cons]
  refine ⟨⟨?_, allFit_flatMap fun s hs => ?_⟩, ?_⟩
  · have pos_nonneg : 0 ≤ u.giShtPos + e := start.pos_nonneg
    have pos_le : u.giShtPos + e ≤ 0x7fffffff := start.pos_le
    unfold FitsInt
    omega
  · obtain ⟨⟨pos_nonneg, pos_le, posP_pos, posP_le, ge, lt, -⟩, -⟩ :=
      (climbing_keeps bounded u).rounds start s hs
    simp only [allFit_cons, FitsInt]
    refine ⟨by omega, by omega, lineExprs_fit (by omega) (by omega)⟩
  · cases ht : u.up p c fuel e with
    | none => exact allFit_nil
    | some t =>
      obtain ⟨climbed, -⟩ := up_climbed bounded h lt nonneg le ht
      have ge := climbed.ge
      have le := climbed.le
      exact lineExprs_fit (by omega) (by omega)

end up

section down

/-- What the loop that moves down keeps. -/
structure Sinking (c : ShtCall) (u s : Sht) : Prop where
  pos_ge : -0x7fffffff ≤ s.giShtPos
  pos_le : s.giShtPos ≤ 131070 * 2 ^ 9
  posN_pos : 0 < s.giShtPosN
  posN_le : s.giShtPosN ≤ 131070 * 2 ^ 9
  ge : c.aiShtMin ≤ s.giShtVal
  le : s.giShtVal ≤ u.giShtVal
  err1d : s.iErr1d = u.iErr1d

structure Sunk (c : ShtCall) (u s : Sht) : Prop extends Sinking c u s where
  nonneg : c.aiShtMin < s.giShtVal → 0 ≤ s.giShtPos

theorem sinking_keeps (top : u.giShtVal ≤ 65535) :
    Keeps (fun s => decide (c.aiShtMin < s.giShtVal ∧ s.giShtPos < 0)) (downRound p) (Sinking c u) (Sunk c u) where
  exit h out := by
    have out := of_decide_eq_false out
    exact ⟨h, fun above => by omega⟩
  next {s t} h more hb := by
    obtain ⟨above, neg⟩ := of_decide_eq_true more
    obtain ⟨pos_ge, pos_le, posN_pos, posN_le, ge, le, err1d⟩ := h
    have weight : 1024 ≤ linePos (s.giShtVal - 1) := linePos_ge (by omega)
    unfold downRound at hb
    dsimp only at hb
    split at hb
    · cases hb
    · obtain rfl := Round.next.inj hb
      refine ⟨?_, ?_, (by decide : (0 : Int) < 1024).trans_le weight, linePos_le _, ?_, ?_, err1d⟩
      · change _ ≤ s.giShtPos + s.giShtPosN
        omega
      · change s.giShtPos + s.giShtPosN ≤ _
        omega
      · change c.aiShtMin ≤ s.giShtVal - 1
        omega
      · change s.giShtVal - 1 ≤ u.giShtVal
        omega
  stop {s t} h more hb := by
    obtain ⟨above, neg⟩ := of_decide_eq_true more
    obtain ⟨pos_ge, pos_le, posN_pos, posN_le, ge, le, err1d⟩ := h
    have weight : 1024 ≤ linePos (s.giShtVal - 1) := linePos_ge (by omega)
    unfold downRound at hb
    dsimp only at hb
    split at hb
    · obtain rfl := Round.stop.inj hb
      refine ⟨⟨(by decide : (-0x7fffffff : Int) ≤ 0), (by decide : (0 : Int) ≤ 131070 * 2 ^ 9),
        (by decide : (0 : Int) < 1024).trans_le weight, linePos_le _, ?_, ?_, err1d⟩, fun _ => le_rfl⟩
      · change c.aiShtMin ≤ s.giShtVal - 1
        omega
      · change s.giShtVal - 1 ≤ u.giShtVal
        omega
    · cases hb

theorem sinking_start (h : u.Ranged) (min : c.aiShtMin ≤ u.giShtVal) (neg : e < 0) (ge : -shtRoom ≤ e) :
    Sinking c u { u with giShtPos := u.giShtPos + e } := by
  have pos_nonneg := h.pos_nonneg
  have pos_le := h.pos_le
  have room : shtRoom = 0x7fffffff - 131070 * 2 ^ 9 := rfl
  refine ⟨?_, ?_, h.posN_pos, h.posN_le, min, le_rfl, rfl⟩
  · change _ ≤ u.giShtPos + e
    omega
  · change u.giShtPos + e ≤ _
    omega

theorem floor_sunk (top : u.giShtVal ≤ 65535) (h : Sunk c u s) :
    Sunk c u (floor p c s) ∧ 0 ≤ (floor p c s).giShtPos ∧ 0 < (floor p c s).giShtPosP := by
  obtain ⟨⟨pos_ge, pos_le, posN_pos, posN_le, ge, le, err1d⟩, nonneg⟩ := h
  have weight : 1024 ≤ linePos (s.giShtVal + 1) := linePos_ge (by omega)
  have posP : 0 < linePos (s.giShtVal + 1) := by omega
  unfold floor
  by_cases stop : s.giShtVal = c.aiShtMin ∧ s.giShtPos < 0
  · rw [if_pos stop]
    exact ⟨⟨⟨(by decide : (-0x7fffffff : Int) ≤ 0), (by decide : (0 : Int) ≤ 131070 * 2 ^ 9), posN_pos, posN_le, ge,
      le, err1d⟩, fun _ => le_rfl⟩, le_rfl, posP⟩
  · rw [if_neg stop]
    refine ⟨⟨⟨pos_ge, pos_le, posN_pos, posN_le, ge, le, err1d⟩, nonneg⟩, ?_, posP⟩
    change 0 ≤ s.giShtPos
    by_cases above : c.aiShtMin < s.giShtVal
    · exact nonneg above
    · omega

theorem down_sunk (h : u.Ranged) (min : c.aiShtMin ≤ u.giShtVal) (neg : e < 0) (ge : -shtRoom ≤ e)
    (ht : u.down p c fuel e = some t) :
    Sunk c u t ∧ 0 ≤ t.giShtPos ∧ 0 < t.giShtPosP ∧ t.giShtPosP = linePos (t.giShtVal + 1) := by
  obtain ⟨s, hs, rfl⟩ := Option.map_eq_some_iff.1 ht
  have sunk := (sinking_keeps h.val_le).ends (sinking_start h min neg ge) hs
  obtain ⟨sunk, nonneg, posP⟩ := floor_sunk (p := p) h.val_le sunk
  exact ⟨sunk, nonneg, posP, rfl⟩

theorem downExprs_fit (bounded : c.Bounded) (h : u.Ranged) (min : c.aiShtMin ≤ u.giShtVal) (neg : e < 0)
    (ge : -shtRoom ≤ e) (fuel : Nat) : AllFit (u.downExprs p c fuel e) := by
  have start := sinking_start h min neg ge
  have one := bounded.one_le
  have val_le := h.val_le
  unfold downExprs
  simp only [allFit_append, allFit_cons]
  refine ⟨⟨?_, allFit_flatMap fun s hs => ?_⟩, ?_⟩
  · have pos_ge : -0x7fffffff ≤ u.giShtPos + e := start.pos_ge
    have pos_le : u.giShtPos + e ≤ 131070 * 2 ^ 9 := start.pos_le
    unfold FitsInt
    omega
  · obtain ⟨⟨pos_ge, pos_le, posN_pos, posN_le, ge, le, -⟩, -⟩ := (sinking_keeps val_le).rounds start s hs
    simp only [allFit_cons, FitsInt]
    refine ⟨by omega, by omega, lineExprs_fit (by omega) (by omega)⟩
  · cases ht : u.down p c fuel e with
    | none => exact allFit_nil
    | some t =>
      obtain ⟨sunk, -⟩ := down_sunk h min neg ge ht
      have ge := sunk.ge
      have le := sunk.le
      exact lineExprs_fit (by omega) (by omega)

end down

section move

/-- The move is in the direction of `e`; the gain is moved instead at one line only. -/
structure Shifted (p : AePar) (e : Int) (u t : Sht) (on : Bool) : Prop where
  ranged : t.Ranged
  err1d : t.iErr1d = u.iErr1d
  up : 0 ≤ e → u.giShtVal ≤ t.giShtVal
  down : e < 0 → t.giShtVal ≤ u.giShtVal
  at_ : on = true → u.giShtVal = p.giVHssAgcTblEa

theorem move_shifted (bounded : c.Bounded) (h : u.Ranged) (min : c.aiShtMin ≤ u.giShtVal) (he : |e| ≤ shtRoom)
    (ht : u.move p c fuel e ctrl = some (t, on)) : Shifted p e u t on := by
  obtain ⟨ge, le⟩ := abs_le.1 he
  have one := bounded.one_le
  have top := bounded.le_max
  have rests {on} (at_ : on = true → u.giShtVal = p.giVHssAgcTblEa) : Shifted p e u u on :=
    ⟨h, rfl, fun _ => le_rfl, fun _ => le_rfl, at_⟩
  unfold move at ht
  split at ht
  · rename_i nonneg
    split at ht
    · rename_i at_
      obtain ⟨rfl, rfl⟩ := Prod.mk.inj (Option.some.inj ht)
      exact rests fun _ => at_.1
    · split at ht
      · rename_i below
        obtain ⟨t, hup, same⟩ := Option.map_eq_some_iff.1 ht
        obtain ⟨rfl, rfl⟩ := Prod.mk.inj same
        obtain ⟨climbed, posN⟩ := up_climbed bounded h below nonneg le hup
        have val_ge := climbed.ge
        have val_le := climbed.le
        have weight : 1024 ≤ linePos t.giShtVal := linePos_ge (by omega)
        exact
          { ranged :=
              ⟨climbed.pos_nonneg, climbed.pos_le, by omega, posN ▸ linePos_le _, climbed.posP_pos,
                climbed.posP_le, h.val_ge.trans val_ge, val_le.trans top⟩
            err1d := climbed.err1d
            up := fun _ => val_ge
            down := fun neg => absurd nonneg (not_le.2 neg)
            at_ := fun on => absurd on Bool.false_ne_true }
      · obtain ⟨rfl, rfl⟩ := Prod.mk.inj (Option.some.inj ht)
        exact rests fun on => absurd on Bool.false_ne_true
  · rename_i neg
    split at ht
    · rename_i at_
      obtain ⟨rfl, rfl⟩ := Prod.mk.inj (Option.some.inj ht)
      exact rests fun _ => at_.1
    · split at ht
      · obtain ⟨t, hdown, same⟩ := Option.map_eq_some_iff.1 ht
        obtain ⟨rfl, rfl⟩ := Prod.mk.inj same
        obtain ⟨sunk, nonneg, posP_pos, posP⟩ := down_sunk h min (not_le.1 neg) ge hdown
        have val_ge := sunk.ge
        have val_le := sunk.le
        exact
          { ranged :=
              ⟨nonneg, sunk.pos_le, sunk.posN_pos, sunk.posN_le, posP_pos, posP ▸ linePos_le _, by omega,
                val_le.trans h.val_le⟩
            err1d := sunk.err1d
            up := fun nonneg => absurd nonneg neg
            down := fun _ => val_le
            at_ := fun on => absurd on Bool.false_ne_true }
      · obtain ⟨rfl, rfl⟩ := Prod.mk.inj (Option.some.inj ht)
        exact rests fun on => absurd on Bool.false_ne_true

theorem moveExprs_fit (hp : p.Fits) (bounded : c.Bounded) (h : u.Ranged) (min : c.aiShtMin ≤ u.giShtVal)
    (he : |e| ≤ shtRoom) (fuel : Nat) (ctrl : Int) : AllFit (u.moveExprs p c fuel e ctrl) := by
  obtain ⟨ge, le⟩ := abs_le.1 he
  have agcMin : FitsInt (p.agcMin * 2 ^ 16) := by
    have nonneg := hp.agcMin_nonneg
    have le := hp.agcMin_le
    unfold FitsInt
    omega
  unfold moveExprs
  split
  · rename_i nonneg
    refine allFit_cons.2 ⟨agcMin, ?_⟩
    split
    · exact allFit_nil
    · split
      · rename_i below
        exact upExprs_fit bounded h below nonneg le fuel
      · exact allFit_nil
  · rename_i neg
    split
    · exact allFit_nil
    · split
      · exact downExprs_fit bounded h min (not_le.1 neg) ge fuel
      · exact allFit_nil

end move

section call

variable {g g' : Agc} {err1d : Int}

theorem agcCall_bounded (hp : p.Fits) (hc : c.Ranged) (err : Int) (on : Bool) : (agcCall p c err on).Bounded := by
  have nonneg := hp.agcMin_nonneg
  have le := hp.agcMin_le
  unfold agcCall
  split
  · exact ⟨le_rfl, (by decide : (0 : Int) ≤ 0x400 + 0x2E00), nonneg, le, hc.margin, fun m hm => absurd hm (by nofun)⟩
  · exact ⟨le_rfl, (by decide : (0 : Int) ≤ 0x400 + 0x2E00), nonneg, le, hc.margin, fun m hm => absurd hm (by nofun)⟩

theorem agcSet_bounded (hp : p.Fits) : (⟨0, 0, 0, 0, 0, false, false, some p.agcMin⟩ : AgcCall).Bounded :=
  ⟨le_rfl, (by decide : (0 : Int) ≤ 0x400 + 0x2E00), le_rfl, (by decide : (0 : Int) ≤ 0x400 + 0x2E00),
    (by decide : -2 ^ 31 < (0 : Int) ∧ (0 : Int) < 2 ^ 31),
    fun m hm => Option.some.inj hm ▸ ⟨hp.agcMin_nonneg, hp.agcMin_le⟩⟩

theorem agcSet_calm (m : Int) (g : Agc) : g.Calm p ⟨0, 0, 0, 0, 0, false, false, some m⟩ :=
  fun estimates => absurd estimates.1 (by nofun)

theorem agcOff_ranged (hp : p.Fits) (hg : g.Ranged) : (u.agcOff p c g).Ranged := by
  unfold agcOff
  split
  · exact Agc.ctrl_ranged (agcSet_bounded hp) hg (agcSet_calm _ _)
  · exact hg

theorem agcOffExprs_fit (hp : p.Fits) (hg : g.Ranged) : AllFit (u.agcOffExprs p c g) := by
  have nonneg := hp.agcMin_nonneg
  have le := hp.agcMin_le
  unfold agcOffExprs
  refine allFit_cons.2 ⟨by unfold FitsInt; omega, ?_⟩
  split
  · exact Agc.exprs_fit hp (agcSet_bounded hp) hg (agcSet_calm _ _)
  · exact allFit_nil

theorem finishExprs_fit (hp : p.Fits) (hc : c.Ranged) (hg : g.Ranged)
    (calm : c.abAgcOn = true → g.Calm p (agcCall p c err on)) : AllFit (finishExprs p c err on g) := by
  unfold finishExprs
  split
  · rename_i agcOn
    exact Agc.exprs_fit hp (agcCall_bounded hp hc _ _) hg (calm agcOn)
  · exact allFit_nil

theorem finish_agc_ranged (hp : p.Fits) (hc : c.Ranged) (hg : g.Ranged)
    (calm : c.abAgcOn = true → g.Calm p (agcCall p c err on)) (s : Sht) (estNew : Int) :
    (s.finish p c err estNew on g).2.Ranged := by
  unfold finish
  dsimp only
  split
  · rename_i agcOn
    exact Agc.ctrl_ranged (agcCall_bounded hp hc _ _) hg (calm agcOn)
  · exact hg

theorem Shifted.of_line (h : Shifted p e u s on) (same : t.line = s.line) (err1d : t.iErr1d = s.iErr1d) :
    Shifted p e u t false := by
  have val : t.giShtVal = s.giShtVal := congrArg (·.2.1) same
  exact ⟨h.ranged.of_line same, err1d.trans h.err1d, val ▸ h.up, val ▸ h.down,
    fun on => absurd on Bool.false_ne_true⟩

theorem Shifted.of_start (h : Shifted p e s t on) (same : s.line = u.line) (err1d : s.iErr1d = u.iErr1d) :
    Shifted p e u t on := by
  have val : s.giShtVal = u.giShtVal := congrArg (·.2.1) same
  exact ⟨h.ranged, h.err1d.trans err1d, val ▸ h.up, val ▸ h.down, val ▸ h.at_⟩

@[simp] theorem delay_iErr1d (s : Sht) : (s.delay p c).iErr1d = s.iErr1d := by
  unfold delay
  dsimp only
  split <;> rfl

@[simp] theorem delay_iErrEstDly (s : Sht) : (s.delay p c).iErrEstDly = s.iErrEstDly := by
  unfold delay
  dsimp only
  split <;> rfl

@[simp] theorem delay_iErrEstAc (s : Sht) : (s.delay p c).iErrEstAc = s.iErrEstAc := by
  unfold delay
  dsimp only
  split <;> rfl

@[simp] theorem release_iErr1d (val1d est : Int) : (s.release p c val1d est).1.iErr1d = s.iErr1d := by
  unfold release
  dsimp only
  split
  · rfl
  · split <;> rfl

/-- An automatic call on a shutter found at `u` gets to the estimate. -/
def Ready (p : AePar) (c : ShtCall) (u : Sht) : Prop :=
  (u.delay p c).gbShtDly = 0 ∧ ¬(-c.aiMargin ≤ clampErr c.aiErr ∧ clampErr c.aiErr ≤ c.aiMargin)

/-- The clamps are enough for the estimate of the call, with `iErr1d` from before it, and for that of
the gain. -/
structure CalmAt (p : AePar) (c : ShtCall) (err1d : Int) (u : Sht) (g : Agc) : Prop where
  gentle : u.Ready p c →
    Gentle 550 275 shtRoom (clampGain shtMaxGain c.aiGain) (clampErr c.aiErr) err1d (u.iErrEstDly p.shtDly)
      u.iErrEstAc
  agc : c.abAgcOn = true → ∀ on, (on = true → u.giShtVal = p.giVHssAgcTblEa) →
    (u.agcOff p c g).Calm p (agcCall p c (clampErr c.aiErr) on)

theorem CalmAt.abs_errPos (h : CalmAt p c err1d u g) (ready : u.Ready p c) :
    |u.errPos p c (clampErr c.aiErr - err1d)| ≤ shtRoom := by
  obtain ⟨gain_one, -⟩ := clampGain_bounds (by decide : 1 ≤ shtMaxGain) c.aiGain
  have hest := (h.gentle ready).est_gain (by omega)
  exact AePar.abs_errPos (by omega)
    (AePar.clampGain_used (p := p) (by decide) (by decide : 1023 * shtMaxGain ≤ shtRoom) _ (abs_clampErr _) hest)

theorem auto_shifted (hp : p.Fits) (hc : c.Ranged) (bounded : c.Bounded) (h : u.Ranged)
    (min : c.aiShtMin ≤ u.giShtVal) (hg : g.Ranged) (calm : CalmAt p c err1d u g)
    (ht : u.auto p c fuel (clampErr c.aiErr - err1d) (u.agcOff p c g) = some (t, g')) :
    Shifted p (u.errPos p c (clampErr c.aiErr - err1d)) u t false ∧ g'.Ranged := by
  have line := delay_line (p := p) (c := c) u
  have val : (u.delay p c).giShtVal = u.giShtVal := congrArg (·.2.1) line
  have off := agcOff_ranged (u := u) (c := c) hp hg
  have rests : Shifted p (u.errPos p c (clampErr c.aiErr - err1d)) u u false :=
    ⟨h, rfl, fun _ => le_rfl, fun _ => le_rfl, fun on => absurd on Bool.false_ne_true⟩
  have quiet :=
    finish_agc_ranged hp hc off fun agcOn => calm.agc agcOn false fun on => absurd on Bool.false_ne_true
  unfold auto at ht
  dsimp only at ht
  split at ht
  · obtain ⟨rfl, rfl⟩ := Prod.mk.inj (Option.some.inj ht)
    exact ⟨rests.of_line line (delay_iErr1d u), quiet u 0⟩
  · rename_i ready
    split at ht
    · obtain ⟨rfl, rfl⟩ := Prod.mk.inj (Option.some.inj ht)
      exact ⟨rests.of_line line (delay_iErr1d u), quiet u 0⟩
    · rename_i out
      have he := calm.abs_errPos ⟨not_not.1 ready, out⟩
      rw [delay_errPos] at ht
      obtain ⟨⟨s, on⟩, hs, same⟩ := Option.map_eq_some_iff.1 ht
      obtain ⟨rfl, rfl⟩ := Prod.mk.inj same
      have shifted :=
        (move_shifted bounded (h.of_line line) (val ▸ min) he hs).of_start line (delay_iErr1d u)
      refine ⟨shifted.of_line (release_line _ _) (release_iErr1d _ _), ?_⟩
      exact finish_agc_ranged hp hc off (fun agcOn => calm.agc agcOn on shifted.at_) s 0

theorem autoExprs_fit (hp : p.Fits) (hc : c.Ranged) (bounded : c.Bounded) (h : u.Ranged)
    (min : c.aiShtMin ≤ u.giShtVal) (herr1d : |err1d| ≤ 1023) (hg : g.Ranged) (calm : CalmAt p c err1d u g)
    (fuel : Nat) : AllFit (u.autoExprs p c fuel (clampErr c.aiErr - err1d) (u.agcOff p c g)) := by
  have line := delay_line (p := p) (c := c) u
  have val : (u.delay p c).giShtVal = u.giShtVal := congrArg (·.2.1) line
  have off := agcOff_ranged (u := u) (c := c) hp hg
  have err := abs_clampErr c.aiErr
  have quiet := finishExprs_fit hp hc off fun agcOn =>
    calm.agc agcOn false fun on => absurd on Bool.false_ne_true
  have margin : FitsInt (-c.aiMargin) := by
    have margin := hc.margin
    unfold FitsInt
    omega
  unfold autoExprs
  dsimp only
  split
  · exact quiet
  · rename_i ready
    refine allFit_cons.2 ⟨margin, ?_⟩
    split
    · exact quiet
    · rename_i out
      have gentle := calm.gentle ⟨not_not.1 ready, out⟩
      have he := calm.abs_errPos ⟨not_not.1 ready, out⟩
      obtain ⟨gain_one, gain_le⟩ := clampGain_bounds (by decide : 1 ≤ shtMaxGain) c.aiGain
      have hest := gentle.est_gain (by omega)
      have hused :=
        AePar.clampGain_used (p := p) (by decide) (by decide : 1023 * shtMaxGain ≤ shtRoom) _ err hest
      have est : (u.delay p c).est p c (clampErr c.aiErr - err1d) = u.est p c (clampErr c.aiErr - err1d) := by
        rw [Sht.est, Sht.est, delay_iErrEstDly]
      rw [delay_errPos, est, delay_iErrEstDly, delay_iErrEstAc]
      simp only [allFit_append]
      refine ⟨⟨⟨gentle.estExprs (by decide) (by decide) err herr1d, ?_⟩, ?_⟩, ?_⟩
      · exact hp.posExprs gain_one (gain_le.trans (by decide)) (by decide : shtRoom ≤ 0x7fffffff) hest hused
      · exact moveExprs_fit hp bounded (h.of_line line) (val ▸ min) he fuel _
      · cases hs : (u.delay p c).move p c fuel (u.errPos p c (clampErr c.aiErr - err1d)) (u.agcOff p c g).giAgcCtrl with
        | none => exact allFit_nil
        | some r =>
          obtain ⟨s, on⟩ := r
          have shifted :=
            (move_shifted bounded (h.of_line line) (val ▸ min) he hs).of_start line (delay_iErr1d u)
          have ac : FitsInt (u.iErrEstAc + u.est p c (clampErr c.aiErr - err1d)) := by
            have sum := abs_le.1 ((abs_add_le _ _).trans gentle.est_ac)
            exact ⟨(by decide : (-2 ^ 31 : Int) ≤ -0x7fffffff).trans sum.1,
              sum.2.trans_lt (by decide : (0x7fffffff : Int) < 2 ^ 31)⟩
          refine allFit_append.2 ⟨vHssExprs_fit shifted.ranged, allFit_cons.2 ⟨ac, ?_⟩⟩
          exact finishExprs_fit hp hc off fun agcOn => calm.agc agcOn on shifted.at_

/-- Of a call on a shutter at `s`. -/
def Calm (p : AePar) (c : ShtCall) (s : Sht) (g : Agc) : Prop :=
  c.aiShtManual = 0 → CalmAt p c s.iErr1d (s.found p c) g

/-- The shutter moves in the direction of the error, from where the limits put it. -/
def Steers (fuel : Nat) (p : AePar) (c : ShtCall) (s : Sht) (g : Agc) : Prop :=
  let u := s.found p c
  let chg := clampErr c.aiErr - s.iErr1d
  0 ≤ p.used (clampErr c.aiErr) (u.est p c chg) * u.errPos p c chg ∧
    (c.aiShtManual = 0 → ∀ t g', shtCtrl fuel p c s g = some (t, g') →
      (0 ≤ u.errPos p c chg → u.giShtVal ≤ t.giShtVal) ∧ (u.errPos p c chg < 0 → t.giShtVal ≤ u.giShtVal))

variable (hp : p.Fits) (hc : c.Ranged) (h : s.Ranged) (hg : g.Ranged) (calm : s.Calm p c g)

include hp hc h hg calm

theorem ctrl_shifted (auto_ : c.aiShtManual = 0) (ht : shtCtrl fuel p c s g = some (t, g')) :
    Shifted p ((s.found p c).errPos p c (clampErr c.aiErr - s.iErr1d)) (s.found p c) t false ∧ g'.Ranged := by
  have bounded := hc.limits auto_
  obtain ⟨min, -⟩ := limit_bounds (p := p) (s := { s with iErr1d := clampErr c.aiErr }) auto_ bounded.le
  unfold shtCtrl at ht
  dsimp only at ht
  rw [if_neg (not_not.2 auto_)] at ht
  exact auto_shifted hp hc bounded (found_ranged hc h) min hg (calm auto_) ht

theorem ctrl_ranged (ht : shtCtrl fuel p c s g = some (t, g')) :
    t.Ranged ∧ |t.iErr1d| ≤ 1023 ∧ g'.Ranged := by
  have err1d := abs_found_iErr1d (p := p) (c := c) s
  by_cases auto_ : c.aiShtManual = 0
  · obtain ⟨shifted, hg'⟩ := ctrl_shifted hp hc h hg calm auto_ ht
    exact ⟨shifted.ranged, shifted.err1d ▸ err1d, hg'⟩
  · unfold shtCtrl at ht
    dsimp only at ht
    rw [if_pos auto_] at ht
    obtain ⟨rfl, rfl⟩ := Prod.mk.inj (Option.some.inj ht)
    exact ⟨(found_ranged hc h).of_line rfl, err1d, hg⟩

theorem exprs_fit (herr1d : |s.iErr1d| ≤ 1023) (fuel : Nat) : AllFit (s.exprs p c fuel g) := by
  have chg : FitsInt (clampErr c.aiErr - s.iErr1d) := by
    have err := abs_le.1 (abs_clampErr c.aiErr)
    have err1d := abs_le.1 herr1d
    unfold FitsInt
    omega
  unfold exprs
  dsimp only
  refine allFit_append.2 ⟨allFit_cons.2 ⟨chg, limitExprs_fit hc s⟩, ?_⟩
  split
  · exact vHssExprs_fit (found_ranged hc h)
  · rename_i auto_
    have auto_ := not_not.1 auto_
    have bounded := hc.limits auto_
    obtain ⟨min, -⟩ := limit_bounds (p := p) (s := { s with iErr1d := clampErr c.aiErr }) auto_ bounded.le
    refine allFit_append.2 ⟨agcOffExprs_fit hp hg, ?_⟩
    exact autoExprs_fit hp hc bounded (found_ranged hc h) min herr1d hg (calm auto_) fuel

theorem steers (fuel : Nat) : s.Steers fuel p c g := by
  obtain ⟨gain_one, -⟩ := clampGain_bounds (by decide : 1 ≤ shtMaxGain) c.aiGain
  refine ⟨AePar.used_errPos (by omega), fun auto_ t g' ht => ?_⟩
  obtain ⟨shifted, -⟩ := ctrl_shifted hp hc h hg calm auto_ ht
  exact ⟨shifted.up, shifted.down⟩

end call

end Sht

namespace Ae

variable {s : Ae}

/-- The parameters and limits of a call are within their documented maxima, and the clamps are enough
for its estimates. -/
def Fits (s : Ae) : AeEvent → Prop
  | .sht ch p c => p.Fits ∧ c.Ranged ∧ (s.sht ch).Calm p c s.agc
  | .agc p c => p.Fits ∧ c.Bounded ∧ s.agc.Calm p c

/-- Of a call. -/
def exprs (fuel : Nat) (s : Ae) : AeEvent → List Int
  | .sht ch p c => (s.sht ch).exprs p c fuel s.agc
  | .agc p c => s.agc.exprs p c

def Steers (fuel : Nat) (s : Ae) : AeEvent → Prop
  | .sht ch p c => (s.sht ch).Steers fuel p c s.agc
  | .agc p c => s.agc.Steers p c

structure Ranged (s : Ae) : Prop where
  sht : ∀ ch, (s.sht ch).Ranged
  err1d : ∀ ch, |(s.sht ch).iErr1d| ≤ 1023
  agc : s.agc.Ranged

theorem shtStart_ranged (ch : Bool) : (shtStart ch).Ranged := by
  cases ch with
  | false => constructor <;> decide
  | true => constructor <;> decide

theorem ranged_inductive : aeCtrl.Inductive Fits Ranged where
  init start := by
    rw [start]
    refine ⟨shtStart_ranged, fun ch => ?_, ⟨by decide, by decide, by decide, by decide⟩⟩
    cases ch <;> decide
  step {s l t} inv fits hs := by
    cases hs with
    | agc =>
      obtain ⟨-, hc, calm⟩ := fits
      exact ⟨inv.sht, inv.err1d, Agc.ctrl_ranged hc inv.agc calm⟩
    | @sht fuel p c ch u g hu =>
      obtain ⟨hp, hc, calm⟩ := fits
      obtain ⟨ranged, err1d, hg⟩ := Sht.ctrl_ranged hp hc (inv.sht ch) inv.agc calm hu
      refine ⟨fun ch' => ?_, fun ch' => ?_, hg⟩
      · dsimp only
        by_cases same : ch' = ch
        · subst same
          rw [Function.update_self]
          exact ranged
        · rw [Function.update_of_ne same]
          exact inv.sht ch'
      · dsimp only
        by_cases same : ch' = ch
        · subst same
          rw [Function.update_self]
          exact err1d
        · rw [Function.update_of_ne same]
          exact inv.err1d ch'

/-- As long as the clamps are enough for the estimates, `int` holds all that a call computes. -/
theorem exposure_fits (r : Reach aeCtrl Fits s) (l : AeEvent) (fits : Fits s l) (fuel : Nat) :
    AllFit (s.exprs fuel l) ∧ s.Steers fuel l := by
  have inv := ranged_inductive.reach r
  cases l with
  | sht ch p c =>
    obtain ⟨hp, hc, calm⟩ := fits
    exact ⟨Sht.exprs_fit hp hc (inv.sht ch) inv.agc calm (inv.err1d ch) fuel,
      Sht.steers hp hc (inv.sht ch) inv.agc calm fuel⟩
  | agc p c =>
    obtain ⟨hp, hc, calm⟩ := fits
    exact ⟨Agc.exprs_fit hp hc inv.agc calm, Agc.steers p c s.agc⟩

section examples

theorem somePar_fits : somePar.Fits := ⟨by decide, by decide, by decide, by decide, by decide⟩

/-- A small error. -/
def faint : ShtCall := { quiet with aiErr := 40, aiGain := 200, aiShtMax := 2250, abAgcOn := false }

theorem exposure_fits_faint :
    Reach aeCtrl Fits start ∧ Fits start (.sht false somePar faint) ∧
      AllFit (start.exprs 65535 (.sht false somePar faint)) :=
  have r : Reach aeCtrl Fits start := .init rfl
  have ranged : faint.Ranged := ⟨fun _ => ⟨by decide, by decide, by decide⟩, by decide, by decide⟩
  have calm : Sht.Calm somePar faint (shtStart false) agcStart :=
    fun _ => ⟨fun _ => ⟨by decide, by decide, by decide⟩, fun agcOn => absurd agcOn Bool.false_ne_true⟩
  have fits : Fits start (.sht false somePar faint) := ⟨somePar_fits, ranged, calm⟩
  ⟨r, fits, (exposure_fits r _ fits 65535).1⟩

/-- The largest error and gain, before any other. -/
def dazzled : ShtCall := { quiet with aiErr := 1023, aiGain := 2033602, aiShtMax := 1126 }

/-- The estimate adds the change of the error to the error. -/
theorem first_estimate :
    somePar.Fits ∧ dazzled.Ranged ∧ ¬AllFit (start.exprs 65535 (.sht false somePar dazzled)) :=
  ⟨⟨by decide, by decide, by decide, by decide, by decide⟩,
    ⟨fun _ => ⟨by decide, by decide, by decide⟩, by decide, by decide⟩, by decide⟩

end examples

end Ae

end En675.Isp
