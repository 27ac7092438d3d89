import En675.Isp.AutoGamma
import En675.Lib.Decay
import En675.Lib.Lanes
import Mathlib.Data.Fin.VecNotation

/-! The white balance (`Awb`, `InitAwb`).  The matrix that `LibAwbCmat` computes in floating point is any matrix; what
is set for the wide dynamic range (`LibAwbWdrRGB`), the colour map and the display are left out. -/

namespace En675.Isp

open Lib

/-- `AWB_GAIN_DFLT`. -/
def awbGainDflt : Nat := 0x100

/-- `AWB_AGC_MAX`. -/
def awbAgcMax : Int := 0x1e0

/-- `AWB_AGC_WGT_MAX`. -/
def awbAgcWgtMax : Int := 0x100

def upAwbAuto : UInt8 := 0

def upAwbAutoext : UInt8 := 1

def upAwbPreset : UInt8 := 2

def upAwbMnl : UInt8 := 3

/-- What the sensor limits the statistics to, and the statistics of three lights (`giDbDrMnl`). -/
structure AwbSens where
  dbMin : Int
  dbMax : Int
  drMin : Int
  drMax : Int
  giDbDrMnl : Fin 3 → Int × Int
  db_le : dbMin ≤ dbMax
  dr_le : drMin ≤ drMax
  db_fits : -2 ^ 10 ≤ dbMin ∧ dbMax ≤ 2 ^ 10
  dr_fits : -2 ^ 10 ≤ drMin ∧ drMax ≤ 2 ^ 10
  mnl_fits : ∀ i, (giDbDrMnl i).1.natAbs ≤ 2 ^ 10 ∧ (giDbDrMnl i).2.natAbs ≤ 2 ^ 10

/-- The user parameters. -/
structure AwbPar where
  awb : UInt8
  awbMnl : UInt8
  rgain : UInt8
  bgain : UInt8
  saturationR : UInt8
  saturationG : UInt8
  saturationB : UInt8
  awbTcntLmt : UInt16
  awbSpeedMtrx : UInt8
  awbAgcMin : UInt16
  awbAgcWgtMin : UInt8
  awbGainTimes : UInt8

/-- What else a call reads: the mode of the exposure, the key, the registers of the statistics, and the matrix. -/
structure AwbFrame where
  wdrLong : Bool
  wdrOn : Bool
  gbMpAwbPrst : Bool
  cct : Nat
  cct_lt : cct < 2 ^ 24
  cbdb : UInt32
  crdr : UInt32
  ccr : UInt32
  ccg : UInt32
  ccb : UInt32
  giCmat : Int → Int → Fin 3 → Fin 3 → Int
  giCurAgc : Int
  night : Bool

/-- `giAwbPrstTbl`. -/
structure AwbPrst where
  db : Int
  dr : Int
  r : Int
  b : Int

/-- What is kept from call to call, with the `16` bytes of `UD(UdAwbPrst)`. -/
structure AwbState where
  giAwbDbIIR : Int
  giAwbDrIIR : Int
  gnAwbRGainIIR : Nat
  gnAwbBGainIIR : Nat
  gnAwbErr : Nat
  giAwbPrstTbl : AwbPrst
  ud : Nat → UInt8
  bInitAwb : Nat
  gnAwbPrstCnt : Nat
  gnAwbPrstDone : Nat

namespace AwbPrst

def get (t : AwbPrst) : Nat → Int
  | 0 => t.db
  | 1 => t.dr
  | 2 => t.r
  | _ => t.b

/-- Word `i` of the saved bytes. -/
def word (ud : Nat → UInt8) (i : Nat) : Int :=
  asInt ((ud (i * 4 + 3)).toNat <<< 24 ||| (ud (i * 4 + 2)).toNat <<< 16 ||| (ud (i * 4 + 1)).toNat <<< 8 |||
    (ud (i * 4)).toNat <<< 0)

def load (ud : Nat → UInt8) : AwbPrst := ⟨word ud 0, word ud 1, word ud 2, word ud 3⟩

def store (t : AwbPrst) (ud : Nat → UInt8) (a : Nat) : UInt8 :=
  if a < 16 then UInt8.ofNat (uint32 (t.get (a / 4) >>> (8 * (a % 4)))) else ud a

end AwbPrst

namespace AwbPar

variable (u : AwbPar)

def speed : Nat := u.awbSpeedMtrx.toNat

/-- `AWB_GAIN_MIN`, where there is one. -/
def awbGainMin : Option Nat := udiv awbGainDflt u.awbGainTimes.toNat

/-- `AWB_GAIN_MAX`. -/
def awbGainMax : Nat := awbGainDflt * u.awbGainTimes.toNat

end AwbPar

section stages

variable (sp : AwbSens) (u : AwbPar) (f : AwbFrame) (s : AwbState)

/-- The statistics of the call are not used. -/
def Held : Prop :=
  s.bInitAwb ≠ 0 ∨ (u.awb = upAwbPreset ∧ f.gbMpAwbPrst = false) ∨ f.cct < u.awbTcntLmt.toNat

instance : Decidable (Held u f s) := inferInstanceAs (Decidable (_ ∨ _))

/-- `iDbSum` and `iDrSum`, before they are limited. -/
def awbSums : Option (Int × Int) :=
  if u.awb = upAwbMnl then
    some (if h : u.awbMnl.toNat < 3 then sp.giDbDrMnl ⟨u.awbMnl.toNat, h⟩ else (0, 0))
  else if Held u f s then
    if s.bInitAwb ≠ 0 ∨ u.awb = upAwbPreset then
      some (s.giAwbPrstTbl.db >>> (4 : Nat), s.giAwbPrstTbl.dr >>> (4 : Nat))
    else some (s.giAwbDbIIR >>> (4 : Nat), s.giAwbDrIIR >>> (4 : Nat))
  else if u.awb = upAwbAutoext then some (sp.giDbDrMnl 1)
  else do
    let iDbSum ← idiv (asInt f.cbdb.toNat) f.cct
    let iDrSum ← idiv (asInt f.crdr.toNat) f.cct
    some (iDbSum, iDrSum)

/-- The filter of the matrix. -/
def dbIIR (iir iSum : Int) : Option Int := do
  let old ← int32 (u.speed * iir)
  let new ← int32 ((0x100 - u.speed) * (iSum * 2 ^ 4))
  let sum ← int32 (old + new)
  some (sum >>> (8 : Nat))

/-- The gain that the menu has chosen. -/
def manualGain (gain : UInt8) (nAwbGainMin : Nat) : Nat :=
  if 10 ≤ gain.toNat then
    uadd (umul (gain.toNat - 10) (usub u.awbGainMax awbGainDflt / 10)) awbGainDflt
  else uadd (umul gain.toNat (usub awbGainDflt nAwbGainMin / 10)) nAwbGainMin

def udiv4x (anNumer anDenom anZeroDenom : Nat) : Nat :=
  let ulDiv := if anDenom ≠ 0 then anNumer <<< 2 / anDenom else anZeroDenom
  if 0x7FFFFFFF < ulDiv then 0x7FFFFFFF else ulDiv

/-- The sum of a colour, which is not `0`. -/
def ccSum (sum : UInt32) : Nat := max (udiv4x sum.toNat f.cct 0) 1

/-- `nRGain` and `nBGain`, before they are limited. -/
def awbGains (nAwbGainMin : Nat) : Option (Nat × Nat) :=
  if u.awb = upAwbMnl then some (manualGain u u.rgain nAwbGainMin, manualGain u u.bgain nAwbGainMin)
  else if Held u f s then
    if s.bInitAwb ≠ 0 ∨ u.awb = upAwbPreset then
      some (uint32 (s.giAwbPrstTbl.r >>> (4 : Nat)), uint32 (s.giAwbPrstTbl.b >>> (4 : Nat)))
    else some (s.gnAwbRGainIIR >>> 4, s.gnAwbBGainIIR >>> 4)
  else do
    let nRGain ← udiv (umul (ccSum f f.ccg) awbGainDflt) (ccSum f f.ccr)
    let nBGain ← udiv (umul (ccSum f f.ccg) awbGainDflt) (ccSum f f.ccb)
    some (nRGain, nBGain)

/-- The filter of the gains (`AWB_SPEED_GAIN` is the speed of the matrix). -/
def gainIIR (iir nGain : Nat) : Nat :=
  uadd (umul u.speed iir) (umul (0x100 - u.speed) (nGain <<< 4 % 2 ^ 32)) >>> 8

def libUtlInterp1D (aiXCur aiXPos1 aiXPos2 aiYPos1 aiYPos2 : Int) : Option Int :=
  if aiXPos1 = aiXPos2 then some 0
  else if aiYPos1 = aiYPos2 then some aiYPos1
  else do
    let up := aiYPos1 < aiYPos2
    let rise ← int32 (if up then (aiYPos2 - aiYPos1) * (aiXCur - aiXPos1) else (aiYPos1 - aiYPos2) * (aiXPos2 - aiXCur))
    let part ← idiv rise (aiXPos2 - aiXPos1)
    let iResult ← int32 (part + if up then aiYPos1 else aiYPos2)
    some (if iResult < 0 then 0 else iResult)

/-- `iWgt` by day. -/
def agcWgt : Option Int :=
  if f.giCurAgc ≤ u.awbAgcMin.toNat then some awbAgcWgtMax
  else if f.giCurAgc ≤ awbAgcMax then
    libUtlInterp1D f.giCurAgc u.awbAgcMin.toNat awbAgcMax awbAgcWgtMax u.awbAgcWgtMin.toNat
  else some u.awbAgcWgtMin.toNat

/-- `bMpSaturationR`, `bMpSaturationG` and `bMpSaturationB`. -/
def bMpSaturation (saturation : UInt8) : Nat :=
  if f.wdrOn then if saturation.toNat < 64 - 16 then saturation.toNat + 16 else 64 else saturation.toNat

/-- `nAwbRgain`, `nAwbGgain` and `nAwbBgain`; the second is of `int`s, none of which overflows. -/
def finalGain (nGain iWgt bMpSaturation : Nat) : Nat := umul (umul nGain iWgt) (32 + bMpSaturation) >>> (8 + 6)

/-- The matrix that is limited for the registers. -/
def preMatrix (c : Fin 3 → Fin 3 → Int) (i j : Fin 3) : Int :=
  if i = j then clampInt (c i j) 0 2047 else clampInt (c i j) (-2047) 2047

/-- Every row is multiplied with its gain, where no product overflows. -/
def postMatrix (pre : Fin 3 → Fin 3 → Int) (gain : Fin 3 → Nat) : Option (Fin 3 → Fin 3 → Int) :=
  if ∀ i j, -2 ^ 31 ≤ pre i j * gain i ∧ pre i j * gain i < 2 ^ 31 then
    some fun i j => (pre i j * gain i) >>> (8 : Nat)
  else none

/-- `SIGN_ABS`. -/
def signAbs (bit : Nat) (val : Int) : Nat := if val < 0 then 1 <<< bit ||| (-val).toNat else val.toNat

/-- The preset is saved in this call. -/
def Saves (gnAwbErr : Nat) : Prop :=
  u.awb = upAwbPreset ∧ f.gbMpAwbPrst = true ∧ 0x40 ≤ s.gnAwbPrstCnt ∧ gnAwbErr < 0x18 ∧ s.gnAwbPrstDone = 0

instance (gnAwbErr : Nat) : Decidable (Saves u f s gnAwbErr) := inferInstanceAs (Decidable (_ ∧ _))

/-- The values that are saved. -/
def AwbState.prst : AwbPrst := ⟨s.giAwbDbIIR, s.giAwbDrIIR, asInt s.gnAwbRGainIIR, asInt s.gnAwbBGainIIR⟩

/-- The last stage, on the new filters. -/
def awbPreset : AwbState :=
  if u.awb = upAwbPreset ∧ f.gbMpAwbPrst = true then
    let s :=
      if 0x40 ≤ s.gnAwbPrstCnt ∧ s.gnAwbErr < 0x18 ∧ s.gnAwbPrstDone = 0 then
        { s with gnAwbPrstCnt := 0, giAwbPrstTbl := s.prst, gnAwbPrstDone := 1, ud := s.prst.store s.ud }
      else { s with gnAwbPrstCnt := uadd s.gnAwbPrstCnt 1 }
    { s with gnAwbPrstCnt := min s.gnAwbPrstCnt 0x100 }
  else { s with gnAwbPrstCnt := 0, gnAwbPrstDone := 0 }

end stages

/-- What a call computes and sets on the way. -/
structure AwbOut where
  iDbSum : Int
  iDrSum : Int
  nRGain : Nat
  nBGain : Nat
  iWgt : Nat
  pre : Fin 3 → Fin 3 → Int
  post : Fin 3 → Fin 3 → Int

namespace AwbOut

variable (o : AwbOut) (i j : Fin 3)

/-- The registers of the first matrix. -/
def preReg : Nat := if i = j then uint32 (o.pre i j) % 2 ^ 11 else signAbs 11 (o.pre i j) % 2 ^ 12

/-- Those of the second. -/
def postReg : Nat := if i = j then uint32 (o.post i j) % 2 ^ 13 else signAbs 12 (o.post i j) % 2 ^ 13

end AwbOut

/-- `Awb`.  Nothing is done for the long frame of a pair. -/
def awb (sp : AwbSens) (u : AwbPar) (f : AwbFrame) (s : AwbState) : Option (AwbState × Option AwbOut) :=
  if f.wdrLong then some (s, none)
  else do
    let sums ← awbSums sp u f s
    let iDbSum := clampInt sums.1 sp.dbMin sp.dbMax
    let iDrSum := clampInt sums.2 sp.drMin sp.drMax
    let db ← dbIIR u s.giAwbDbIIR iDbSum
    let dr ← dbIIR u s.giAwbDrIIR iDrSum
    let pre := preMatrix (f.giCmat (db >>> (4 : Nat)) (dr >>> (4 : Nat)))
    let nAwbGainMin ← u.awbGainMin
    let gains ← awbGains u f s nAwbGainMin
    let nRGain := clampNat gains.1 nAwbGainMin u.awbGainMax
    let nBGain := clampNat gains.2 nAwbGainMin u.awbGainMax
    let r := gainIIR u s.gnAwbRGainIIR nRGain
    let b := gainIIR u s.gnAwbBGainIIR nBGain
    let wgt ← agcWgt u f
    let iWgt := if f.night then 0 else wgt.toNat
    let post ← postMatrix pre ![
      finalGain (r >>> 4) iWgt (bMpSaturation f u.saturationR),
      finalGain awbGainDflt iWgt (bMpSaturation f u.saturationG),
      finalGain (b >>> 4) iWgt (bMpSaturation f u.saturationB)]
    let t := awbPreset u f { s with
      giAwbDbIIR := db
      giAwbDrIIR := dr
      gnAwbRGainIIR := r
      gnAwbBGainIIR := b
      gnAwbErr := max (max (max (db >>> (4 : Nat) - iDbSum).natAbs (dr >>> (4 : Nat) - iDrSum).natAbs)
        (asInt (r >>> 4) - asInt nRGain).natAbs) (asInt (b >>> 4) - asInt nBGain).natAbs }
    some ({ t with bInitAwb := t.bInitAwb - 1 }, some ⟨iDbSum, iDrSum, nRGain, nBGain, iWgt, pre, post⟩)

/-- `InitAwb`, from the bytes that were saved. -/
def initAwb (sp : AwbSens) (u : AwbPar) (ud : Nat → UInt8) : Option AwbState :=
  let t := AwbPrst.load ud
  let db := (sp.giDbDrMnl 1).1 * 2 ^ 4
  let dr := (sp.giDbDrMnl 1).2 * 2 ^ 4
  let gain := awbGainDflt <<< 4
  let dflt : AwbState := ⟨db, dr, gain, gain, 0, ⟨db, dr, gain, gain⟩, ud, 1, 0, 0⟩
  if sp.dbMin ≤ t.db >>> (4 : Nat) ∧ t.db >>> (4 : Nat) ≤ sp.dbMax ∧
      sp.drMin ≤ t.dr >>> (4 : Nat) ∧ t.dr >>> (4 : Nat) ≤ sp.drMax then do
    let nAwbGainMin ← u.awbGainMin
    if nAwbGainMin ≤ uint32 (t.r >>> (4 : Nat)) ∧ uint32 (t.r >>> (4 : Nat)) ≤ u.awbGainMax ∧
        nAwbGainMin ≤ uint32 (t.b >>> (4 : Nat)) ∧ uint32 (t.b >>> (4 : Nat)) ≤ u.awbGainMax then
      some ⟨t.db, t.dr, uint32 t.r, uint32 t.b, 0, t, ud, 1, 0, 0⟩
    else some dflt
  else some dflt

/-- What a call that is not left at once comes to. -/
structure AwbStep (sp : AwbSens) (u : AwbPar) (f : AwbFrame) (s t : AwbState) (o : AwbOut) : Prop where
  sums : ∃ v, awbSums sp u f s = some v ∧
    o.iDbSum = clampInt v.1 sp.dbMin sp.dbMax ∧ o.iDrSum = clampInt v.2 sp.drMin sp.drMax
  gains : ∃ nAwbGainMin v, u.awbGainMin = some nAwbGainMin ∧ awbGains u f s nAwbGainMin = some v ∧
    o.nRGain = clampNat v.1 nAwbGainMin u.awbGainMax ∧ o.nBGain = clampNat v.2 nAwbGainMin u.awbGainMax
  db : dbIIR u s.giAwbDbIIR o.iDbSum = some t.giAwbDbIIR
  dr : dbIIR u s.giAwbDrIIR o.iDrSum = some t.giAwbDrIIR
  r : t.gnAwbRGainIIR = gainIIR u s.gnAwbRGainIIR o.nRGain
  b : t.gnAwbBGainIIR = gainIIR u s.gnAwbBGainIIR o.nBGain
  err : t.gnAwbErr =
    max (max (max (t.giAwbDbIIR >>> (4 : Nat) - o.iDbSum).natAbs (t.giAwbDrIIR >>> (4 : Nat) - o.iDrSum).natAbs)
      (asInt (t.gnAwbRGainIIR >>> 4) - asInt o.nRGain).natAbs) (asInt (t.gnAwbBGainIIR >>> 4) - asInt o.nBGain).natAbs
  pre : o.pre = preMatrix (f.giCmat (t.giAwbDbIIR >>> (4 : Nat)) (t.giAwbDrIIR >>> (4 : Nat)))
  wgt : ∃ w, agcWgt u f = some w ∧ o.iWgt = if f.night then 0 else w.toNat
  post : postMatrix o.pre ![
      finalGain (t.gnAwbRGainIIR >>> 4) o.iWgt (bMpSaturation f u.saturationR),
      finalGain awbGainDflt o.iWgt (bMpSaturation f u.saturationG),
      finalGain (t.gnAwbBGainIIR >>> 4) o.iWgt (bMpSaturation f u.saturationB)] = some o.post
  init : t.bInitAwb = s.bInitAwb - 1
  saved : Saves u f s t.gnAwbErr →
    t.giAwbPrstTbl = t.prst ∧ t.ud = t.prst.store s.ud ∧ t.gnAwbPrstDone = 1 ∧ t.gnAwbPrstCnt = 0
  kept : ¬Saves u f s t.gnAwbErr → t.giAwbPrstTbl = s.giAwbPrstTbl ∧ t.ud = s.ud
  pushed : u.awb = upAwbPreset → f.gbMpAwbPrst = true → ¬Saves u f s t.gnAwbErr →
    t.gnAwbPrstCnt = min (uadd s.gnAwbPrstCnt 1) 0x100 ∧ t.gnAwbPrstDone = s.gnAwbPrstDone
  loose : ¬(u.awb = upAwbPreset ∧ f.gbMpAwbPrst = true) → t.gnAwbPrstCnt = 0 ∧ t.gnAwbPrstDone = 0

section step

variable {sp : AwbSens} {u : AwbPar} {f : AwbFrame} {s t : AwbState} {o : AwbOut}

/-- The filters and the error, which the last stage keeps. -/
structure SameFilters (s t : AwbState) : Prop where
  db : t.giAwbDbIIR = s.giAwbDbIIR
  dr : t.giAwbDrIIR = s.giAwbDrIIR
  r : t.gnAwbRGainIIR = s.gnAwbRGainIIR
  b : t.gnAwbBGainIIR = s.gnAwbBGainIIR
  err : t.gnAwbErr = s.gnAwbErr
  init : t.bInitAwb = s.bInitAwb

theorem awbPreset_same (u : AwbPar) (f : AwbFrame) (s : AwbState) : SameFilters s (awbPreset u f s) := by
  unfold awbPreset
  split
  · dsimp only
    split <;> exact ⟨rfl, rfl, rfl, rfl, rfl, rfl⟩
  · exact ⟨rfl, rfl, rfl, rfl, rfl, rfl⟩

theorem awbPreset_saves (h : Saves u f s s.gnAwbErr) : awbPreset u f s =
    { s with gnAwbPrstCnt := 0, giAwbPrstTbl := s.prst, gnAwbPrstDone := 1, ud := s.prst.store s.ud } := by
  obtain ⟨mode, key, rest⟩ := h
  unfold awbPreset
  rw [if_pos ⟨mode, key⟩]
  dsimp only
  rw [if_pos rest]
  rfl

theorem awbPreset_pushed (mode : u.awb = upAwbPreset) (key : f.gbMpAwbPrst = true) (h : ¬Saves u f s s.gnAwbErr) :
    awbPreset u f s = { s with gnAwbPrstCnt := min (uadd s.gnAwbPrstCnt 1) 0x100 } := by
  unfold awbPreset
  rw [if_pos ⟨mode, key⟩]
  dsimp only
  rw [if_neg fun rest => h ⟨mode, key, rest⟩]

theorem awbPreset_loose (h : ¬(u.awb = upAwbPreset ∧ f.gbMpAwbPrst = true)) :
    awbPreset u f s = { s with gnAwbPrstCnt := 0, gnAwbPrstDone := 0 } := if_neg h

theorem awb_long (h : f.wdrLong = true) : awb sp u f s = some (s, none) := if_pos h

/-- The steps of a call that is not left at once. -/
theorem awb_step (hl : f.wdrLong = false) {r : Option AwbOut} (h : awb sp u f s = some (t, r)) :
    ∃ o, r = some o ∧ AwbStep sp u f s t o := by
  unfold awb at h
  rw [if_neg (by simp [hl])] at h
  simp only [Option.bind_eq_bind, Option.bind_eq_some_iff] at h
  obtain ⟨v, hv, db, hdb, dr, hdr, low, hlow, g, hg, w, hw, post, hpost, eq⟩ := h
  obtain ⟨m, hm⟩ : ∃ m : AwbState, m = { s with
      giAwbDbIIR := db
      giAwbDrIIR := dr
      gnAwbRGainIIR := gainIIR u s.gnAwbRGainIIR (clampNat g.1 low u.awbGainMax)
      gnAwbBGainIIR := gainIIR u s.gnAwbBGainIIR (clampNat g.2 low u.awbGainMax)
      gnAwbErr := max (max (max (db >>> (4 : Nat) - clampInt v.1 sp.dbMin sp.dbMax).natAbs
            (dr >>> (4 : Nat) - clampInt v.2 sp.drMin sp.drMax).natAbs)
          (asInt (gainIIR u s.gnAwbRGainIIR (clampNat g.1 low u.awbGainMax) >>> 4) -
            asInt (clampNat g.1 low u.awbGainMax)).natAbs)
        (asInt (gainIIR u s.gnAwbBGainIIR (clampNat g.2 low u.awbGainMax) >>> 4) -
          asInt (clampNat g.2 low u.awbGainMax)).natAbs } := ⟨_, rfl⟩
  rw [← hm] at eq
  obtain ⟨rfl, rfl⟩ := Prod.mk.inj (Option.some.inj eq)
  have same := awbPreset_same u f m
  have saves : Saves u f s (awbPreset u f m).gnAwbErr ↔ Saves u f m m.gnAwbErr := by
    rw [same.err, hm]
    exact Iff.rfl
  refine ⟨_, rfl, ?_⟩
  constructor
  · exact ⟨v, hv, rfl, rfl⟩
  · exact ⟨low, g, hlow, hg, rfl, rfl⟩
  · dsimp only
    rw [same.db, hm]
    exact hdb
  · dsimp only
    rw [same.dr, hm]
    exact hdr
  · dsimp only
    rw [same.r, hm]
  · dsimp only
    rw [same.b, hm]
  · dsimp only
    rw [same.err, same.db, same.dr, same.r, same.b, hm]
  · dsimp only
    rw [same.db, same.dr, hm]
  · exact ⟨w, hw, rfl⟩
  · dsimp only
    rw [same.r, same.b, hm]
    exact hpost
  · dsimp only
    rw [same.init, hm]
  · intro yes
    have eq := awbPreset_saves (saves.1 yes)
    unfold AwbState.prst
    rw [eq, hm]
    exact ⟨rfl, rfl, rfl, rfl⟩
  · intro no
    dsimp only
    by_cases mode : u.awb = upAwbPreset ∧ f.gbMpAwbPrst = true
    · rw [awbPreset_pushed mode.1 mode.2 fun yes => no (saves.2 yes), hm]
      exact ⟨rfl, rfl⟩
    · rw [awbPreset_loose mode, hm]
      exact ⟨rfl, rfl⟩
  · intro mode key no
    dsimp only
    rw [awbPreset_pushed mode key fun yes => no (saves.2 yes), hm]
    exact ⟨rfl, rfl⟩
  · intro mode
    dsimp only
    rw [awbPreset_loose mode]
    exact ⟨rfl, rfl⟩

end step

section numbers

variable {u : AwbPar} {f : AwbFrame} {iir v : Int} {n g : Nat}

theorem asInt_of_lt (h : n < 2 ^ 31) : asInt n = n := by
  unfold asInt
  rw [if_pos (by omega)]
  omega

theorem clampNat_bounds (a : Nat) {lo hi : Nat} (h : lo ≤ hi) : lo ≤ clampNat a lo hi ∧ clampNat a lo hi ≤ hi := by
  unfold clampNat
  split
  · omega
  · split <;> omega

namespace AwbPar

theorem speed_lt (u : AwbPar) : u.speed < 256 := u.awbSpeedMtrx.toNat_lt

theorem awbGainMax_lt (u : AwbPar) : u.awbGainMax < 2 ^ 16 := by
  have := u.awbGainTimes.toNat_lt
  unfold awbGainMax awbGainDflt
  omega

theorem awbGainMin_some (h : u.awbGainTimes ≠ 0) : u.awbGainMin = some (awbGainDflt / u.awbGainTimes.toNat) ∧
    awbGainDflt / u.awbGainTimes.toNat ≤ awbGainDflt ∧ awbGainDflt ≤ u.awbGainMax := by
  have pos : 0 < u.awbGainTimes.toNat := Nat.pos_of_ne_zero fun zero => h (UInt8.toNat_inj.1 zero)
  exact ⟨udiv_of_pos pos, Nat.div_le_self .., Nat.le_mul_of_pos_right _ pos⟩

theorem awbGainTimes_ne (h : u.awbGainMin = some n) : u.awbGainTimes ≠ 0 := by
  intro zero
  have none_ : udiv awbGainDflt (UInt8.toNat 0) = none := rfl
  unfold awbGainMin at h
  rw [zero, none_] at h
  cases h

theorem awbGainMin_le (h : u.awbGainMin = some n) : n ≤ awbGainDflt ∧ awbGainDflt ≤ u.awbGainMax := by
  obtain ⟨eq, le⟩ := awbGainMin_some (awbGainTimes_ne h)
  obtain rfl := Option.some.inj (eq.symm.trans h)
  exact le

end AwbPar

/-- The filter of the matrix is a mean. -/
theorem dbIIR_eq (hi : iir.natAbs ≤ 2 ^ 15) (hv : v.natAbs ≤ 2 ^ 10) :
    dbIIR u iir v = some (mean 256 u.speed iir (v * 2 ^ 4)) := by
  have less : (u.speed : Int) ≤ 255 := by
    have := u.speed_lt
    omega
  have old : (u.speed * iir).natAbs ≤ 255 * 2 ^ 15 := by
    rw [Int.natAbs_mul]
    exact Nat.mul_le_mul (by omega) hi
  have new : ((0x100 - u.speed : Int) * (v * 2 ^ 4)).natAbs ≤ 256 * 2 ^ 14 := by
    rw [Int.natAbs_mul]
    exact Nat.mul_le_mul (by omega) (by omega)
  unfold dbIIR
  simp only [Option.bind_eq_bind]
  rw [int32_fits (by omega) (by omega), Option.bind_some, int32_fits (by omega) (by omega), Option.bind_some,
    int32_fits (by omega) (by omega), Option.bind_some, Int.shiftRight_eq_div_pow]
  rfl

/-- No product of the filter of the gains overflows, and it is a mean. -/
theorem gainIIR_eq (hn : n < 2 ^ 20) (hg : g < 2 ^ 16) :
    u.speed * n + (0x100 - u.speed) * (g <<< 4) < 2 ^ 32 ∧
      (gainIIR u n g : Int) = mean 256 u.speed n (g * 2 ^ 4 : Int) := by
  have less := u.speed_lt
  have wide : g <<< 4 < 2 ^ 20 := by
    rw [Nat.shiftLeft_eq]
    omega
  have old : u.speed * n ≤ 255 * 2 ^ 20 := Nat.mul_le_mul (by omega) (by omega)
  have new : (0x100 - u.speed) * (g <<< 4) ≤ 256 * 2 ^ 20 := Nat.mul_le_mul (by omega) (by omega)
  refine ⟨by omega, ?_⟩
  unfold gainIIR mean
  rw [Nat.mod_eq_of_lt (by omega), umul_of_lt (by omega), umul_of_lt (by omega), uadd_of_lt (by omega),
    Nat.shiftRight_eq_div_pow, Nat.shiftLeft_eq]
  push_cast [Nat.cast_sub (Nat.le_of_lt less)]
  rfl

/-- A falling line, between its ends. -/
theorem libUtlInterp1D_falls {x x1 x2 y1 y2 : Int} (hx : x1 ≤ x ∧ x ≤ x2) (lt : x1 < x2) (wide : x2 - x1 ≤ 2 ^ 16)
    (hy : 0 ≤ y2 ∧ y2 < y1 ∧ y1 ≤ 2 ^ 8) :
    ∃ w, libUtlInterp1D x x1 x2 y1 y2 = some w ∧ y2 ≤ w ∧ w ≤ y1 := by
  have nonneg : 0 ≤ (y1 - y2) * (x2 - x) := Int.mul_nonneg (by omega) (by omega)
  have le : (y1 - y2) * (x2 - x) ≤ (y1 - y2) * (x2 - x1) := Int.mul_le_mul_of_nonneg_left (by omega) (by omega)
  have small : (y1 - y2) * (x2 - x1) ≤ 2 ^ 8 * 2 ^ 16 := Int.mul_le_mul (by omega) wide (by omega) (by omega)
  have part0 : 0 ≤ (y1 - y2) * (x2 - x) / (x2 - x1) := Int.ediv_nonneg nonneg (by omega)
  have part1 : (y1 - y2) * (x2 - x) / (x2 - x1) ≤ y1 - y2 := Int.ediv_le_of_le_mul (by omega) le
  refine ⟨(y1 - y2) * (x2 - x) / (x2 - x1) + y2, ?_, by omega, by omega⟩
  unfold libUtlInterp1D idiv
  simp only [Option.bind_eq_bind]
  rw [if_neg (by omega), if_neg (by omega), if_neg (by omega), int32_fits (by omega) (by omega), Option.bind_some,
    if_neg (by omega), Int.tdiv_eq_ediv_of_nonneg nonneg, int32_fits (by omega) (by omega), Option.bind_some,
    if_neg (by omega), int32_fits (by omega) (by omega), Option.bind_some, if_neg (by omega)]

theorem agcWgt_some (u : AwbPar) (f : AwbFrame) : ∃ w, agcWgt u f = some w ∧ 0 ≤ w ∧ w ≤ 0x100 := by
  have byte := u.awbAgcWgtMin.toNat_lt
  unfold agcWgt
  split
  · exact ⟨_, rfl, by decide, by decide⟩
  · rename_i above
    split
    · rename_i below
      unfold awbAgcMax at below ⊢
      have fall : (0 : Int) ≤ u.awbAgcWgtMin.toNat ∧ (u.awbAgcWgtMin.toNat : Int) < awbAgcWgtMax ∧
          awbAgcWgtMax ≤ 2 ^ 8 := by
        unfold awbAgcWgtMax
        omega
      obtain ⟨w, eq, lo, hi⟩ := libUtlInterp1D_falls
        (by omega : (u.awbAgcMin.toNat : Int) ≤ f.giCurAgc ∧ f.giCurAgc ≤ 0x1e0) (by omega) (by omega) fall
      unfold awbAgcWgtMax at hi
      exact ⟨w, eq, by omega, hi⟩
    · exact ⟨_, rfl, by omega, by omega⟩

theorem finalGain_lt (nGain iWgt sat : Nat) : finalGain nGain iWgt sat < 2 ^ 18 := by
  unfold finalGain umul
  rw [Nat.shiftRight_eq_div_pow]
  omega

theorem preMatrix_natAbs (c : Fin 3 → Fin 3 → Int) (i j : Fin 3) : (preMatrix c i j).natAbs ≤ 2047 := by
  unfold preMatrix
  split
  · have := clampInt_bounds (c i j) (by decide : (0 : Int) ≤ 2047)
    omega
  · have := clampInt_bounds (c i j) (by decide : (-2047 : Int) ≤ 2047)
    omega

theorem postMatrix_some {pre : Fin 3 → Fin 3 → Int} {gain : Fin 3 → Nat} (hp : ∀ i j, (pre i j).natAbs ≤ 2047)
    (hg : ∀ i, gain i < 2 ^ 18) : postMatrix pre gain = some fun i j => (pre i j * gain i) >>> (8 : Nat) := by
  apply if_pos
  intro i j
  have small : (pre i j * gain i).natAbs ≤ 2047 * 2 ^ 18 := by
    rw [Int.natAbs_mul]
    exact Nat.mul_le_mul (hp i j) (by have := hg i; omega)
  omega

end numbers

/-- The filters are in the range in which nothing overflows. -/
structure AwbState.Bounded (s : AwbState) : Prop where
  db : s.giAwbDbIIR.natAbs ≤ 2 ^ 15
  dr : s.giAwbDrIIR.natAbs ≤ 2 ^ 15
  r : s.gnAwbRGainIIR < 2 ^ 20
  b : s.gnAwbBGainIIR < 2 ^ 20

/-- The statistics are divided by the count. -/
def Divides (u : AwbPar) (f : AwbFrame) (s : AwbState) : Prop :=
  u.awb ≠ upAwbMnl ∧ u.awb ≠ upAwbAutoext ∧ ¬Held u f s

section total

variable {sp : AwbSens} {u : AwbPar} {f : AwbFrame} {s t : AwbState} {o : AwbOut} {n : Nat}

theorem idiv_pos {a b : Int} (ha : -2 ^ 31 ≤ a ∧ a < 2 ^ 31) (hb : 0 < b) : ∃ q, idiv a b = some q := by
  have le := Int.natAbs_tdiv_le_natAbs a b
  have sign : a ≤ 0 → a.tdiv b ≤ 0 := fun nonpos => by
    have nonneg := Int.tdiv_nonneg (Int.neg_nonneg_of_nonpos nonpos) (Int.le_of_lt hb)
    rw [Int.neg_tdiv] at nonneg
    omega
  refine ⟨a.tdiv b, ?_⟩
  unfold idiv
  rw [if_neg (by omega), int32_fits (by omega) (by omega)]

theorem asInt_fits (n : Nat) : -2 ^ 31 ≤ asInt n ∧ asInt n < 2 ^ 31 := by
  unfold asInt
  split <;> omega

theorem awbSums_some (sp : AwbSens) (h : Divides u f s → f.cct ≠ 0) : ∃ v, awbSums sp u f s = some v := by
  unfold awbSums
  by_cases mnl : u.awb = upAwbMnl
  · exact ⟨_, if_pos mnl⟩
  · rw [if_neg mnl]
    by_cases held : Held u f s
    · rw [if_pos held]
      split <;> exact ⟨_, rfl⟩
    · rw [if_neg held]
      by_cases ext : u.awb = upAwbAutoext
      · exact ⟨_, if_pos ext⟩
      · have pos := h ⟨mnl, ext, held⟩
        obtain ⟨db, hdb⟩ := idiv_pos (asInt_fits f.cbdb.toNat) (by omega : (0 : Int) < f.cct)
        obtain ⟨dr, hdr⟩ := idiv_pos (asInt_fits f.crdr.toNat) (by omega : (0 : Int) < f.cct)
        rw [if_neg ext, hdb, hdr]
        exact ⟨_, rfl⟩

theorem awbGains_some (u : AwbPar) (f : AwbFrame) (s : AwbState) (n : Nat) : ∃ v, awbGains u f s n = some v := by
  have pos : ∀ sum, 0 < ccSum f sum := fun sum => Nat.lt_of_lt_of_le Nat.one_pos (Nat.le_max_right _ _)
  unfold awbGains
  split
  · exact ⟨_, rfl⟩
  · split
    · split <;> exact ⟨_, rfl⟩
    · rw [udiv_of_pos (pos _), udiv_of_pos (pos _)]
      exact ⟨_, rfl⟩

theorem clamp_db (sp : AwbSens) (v : Int) : (clampInt v sp.dbMin sp.dbMax).natAbs ≤ 2 ^ 10 := by
  have := clampInt_bounds v sp.db_le
  have := sp.db_fits
  omega

theorem clamp_dr (sp : AwbSens) (v : Int) : (clampInt v sp.drMin sp.drMax).natAbs ≤ 2 ^ 10 := by
  have := clampInt_bounds v sp.dr_le
  have := sp.dr_fits
  omega

/-- A call comes to an end where it does not divide by zero. -/
theorem awb_ends (sp : AwbSens) (b : s.Bounded) (times : u.awbGainTimes ≠ 0) (h : Divides u f s → f.cct ≠ 0) :
    ∃ t r, awb sp u f s = some (t, r) := by
  by_cases long : f.wdrLong = true
  · exact ⟨s, none, awb_long long⟩
  · obtain ⟨v, hv⟩ := awbSums_some sp h
    obtain ⟨low, -, -⟩ := AwbPar.awbGainMin_some times
    obtain ⟨g, hg⟩ := awbGains_some u f s (awbGainDflt / u.awbGainTimes.toNat)
    obtain ⟨w, hw, -, -⟩ := agcWgt_some u f
    unfold awb
    rw [if_neg long]
    simp only [Option.bind_eq_bind]
    rw [hv, Option.bind_some, dbIIR_eq b.db (clamp_db sp _), Option.bind_some, dbIIR_eq b.dr (clamp_dr sp _),
      Option.bind_some, low, Option.bind_some, hg, Option.bind_some, hw, Option.bind_some,
      postMatrix_some (preMatrix_natAbs _) fun i => ?_, Option.bind_some]
    · exact ⟨_, _, rfl⟩
    · match i with
      | 0 => exact finalGain_lt ..
      | 1 => exact finalGain_lt ..
      | 2 => exact finalGain_lt ..

/-- The new filters are means. -/
theorem AwbStep.means (h : AwbStep sp u f s t o) (b : s.Bounded) :
    t.giAwbDbIIR = mean 256 u.speed s.giAwbDbIIR (o.iDbSum * 2 ^ 4) ∧
      t.giAwbDrIIR = mean 256 u.speed s.giAwbDrIIR (o.iDrSum * 2 ^ 4) ∧
      (t.gnAwbRGainIIR : Int) = mean 256 u.speed s.gnAwbRGainIIR (o.nRGain * 2 ^ 4 : Int) ∧
      (t.gnAwbBGainIIR : Int) = mean 256 u.speed s.gnAwbBGainIIR (o.nBGain * 2 ^ 4 : Int) := by
  obtain ⟨v, -, db, dr⟩ := h.sums
  obtain ⟨low, g, hlow, -, r, b'⟩ := h.gains
  have le := AwbPar.awbGainMin_le hlow
  have small := u.awbGainMax_lt
  have hr := clampNat_bounds g.1 (le.1.trans le.2)
  have hb := clampNat_bounds g.2 (le.1.trans le.2)
  refine ⟨?_, ?_, ?_, ?_⟩
  · exact Option.some.inj (h.db.symm.trans (dbIIR_eq b.db (db ▸ clamp_db sp _)))
  · exact Option.some.inj (h.dr.symm.trans (dbIIR_eq b.dr (dr ▸ clamp_dr sp _)))
  · rw [h.r]
    exact (gainIIR_eq b.r (by omega)).2
  · rw [h.b]
    exact (gainIIR_eq b.b (by omega)).2

/-- What is limited stays within the limits. -/
theorem AwbStep.limited (h : AwbStep sp u f s t o) :
    (sp.dbMin ≤ o.iDbSum ∧ o.iDbSum ≤ sp.dbMax) ∧ (sp.drMin ≤ o.iDrSum ∧ o.iDrSum ≤ sp.drMax) ∧
      ∃ low, u.awbGainMin = some low ∧ (low ≤ o.nRGain ∧ o.nRGain ≤ u.awbGainMax) ∧
        low ≤ o.nBGain ∧ o.nBGain ≤ u.awbGainMax := by
  obtain ⟨v, -, db, dr⟩ := h.sums
  obtain ⟨low, g, hlow, -, r, b⟩ := h.gains
  have le := AwbPar.awbGainMin_le hlow
  rw [db, dr, r, b]
  exact ⟨clampInt_bounds _ sp.db_le, clampInt_bounds _ sp.dr_le, low, hlow, clampNat_bounds _ (le.1.trans le.2),
    clampNat_bounds _ (le.1.trans le.2)⟩

theorem speed_range (u : AwbPar) : (0 : Int) ≤ u.speed ∧ (u.speed : Int) ≤ 256 ∧ (u.speed : Int) < 256 := by
  have := u.speed_lt
  omega

theorem AwbStep.bounded (h : AwbStep sp u f s t o) (b : s.Bounded) : t.Bounded := by
  obtain ⟨db, dr, r, b'⟩ := h.means b
  obtain ⟨ldb, ldr, low, -, lr, lb⟩ := h.limited
  obtain ⟨s0, s1, -⟩ := speed_range u
  have fdb := sp.db_fits
  have fdr := sp.dr_fits
  have small := u.awbGainMax_lt
  have q : (0 : Int) < 256 := by decide
  have hr := b.r
  have hb := b.b
  have hdb := natAbs_mean_le q s0 s1 b.db (by omega : (o.iDbSum * 2 ^ 4).natAbs ≤ 2 ^ 15)
  have hdr := natAbs_mean_le q s0 s1 b.dr (by omega : (o.iDrSum * 2 ^ 4).natAbs ≤ 2 ^ 15)
  have r1 := mean_le q s0 s1 (by omega : (s.gnAwbRGainIIR : Int) ≤ 2 ^ 20 - 1)
    (by omega : (o.nRGain * 2 ^ 4 : Int) ≤ 2 ^ 20 - 1)
  have b1 := mean_le q s0 s1 (by omega : (s.gnAwbBGainIIR : Int) ≤ 2 ^ 20 - 1)
    (by omega : (o.nBGain * 2 ^ 4 : Int) ≤ 2 ^ 20 - 1)
  rw [← db] at hdb
  rw [← dr] at hdr
  rw [← r] at r1
  rw [← b'] at b1
  exact ⟨hdb, hdr, by omega, by omega⟩

end total

end En675.Isp
