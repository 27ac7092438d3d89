import En675.Lib.Transition
import En675.Lib.While
import Mathlib.Algebra.Ring.Int.Defs
import Mathlib.Algebra.Ring.Nat

/-! The shutter and the gain controller (`isp_lib_ae_adv.c`) over the unbounded integers.  `ParAe` and
the globals that a call reads are an argument of it; the debug outputs are left out. -/

namespace En675.Isp

open Lib

/-- `SHT_DLY` and `AGC_DLY` are at most 8; `tbl` is `gpbVHssAgcTbl`. -/
structure AePar where
  shtDly : Fin 9
  agcDly : Fin 9
  tbl : Int → Fin 256
  giVHssAgcTblEa : Int
  agcMin : Int
  errEstOff : Bool
  gainMinBit : Nat
  gainMinErr : Int
  gainMaxErr : Int
  agcUpSpeed : Int
  agcDownSpeed : Int

/-- `LinePos`, the same for both channels. -/
def linePos (v : Int) : Int := if v < 2 then 65535 * 2 ^ 10 else 65535 * 2 ^ 10 / (v - 1)

def clampErr (e : Int) : Int := if 1023 < e then 1023 else if e < -1023 then -1023 else e

def clampGain (top g : Int) : Int := if top < g then top else if g < 1 then 1 else g

def shtMaxGain : Int := (0x7fffffff - 131070 * 2 ^ 9) / 1023

def agcMaxGain : Int := (0x7fffffff - (0x400 + 0x2E00) * 2 ^ 16) / 1023

section error

/-! The estimate of the error and the gain, the same in both controllers but for the constants. -/

/-- `iErrEst`, with the coefficients of the error and its change and of the delayed term. -/
def errEst (kp ki err dly chg : Int) : Int := (kp * err + ki * dly + kp * chg).tdiv 1000

namespace AePar

variable (p : AePar)

/-- `iGain`. -/
def shape (est gain : Int) : Int :=
  let low := gain / 2 ^ p.gainMinBit
  if est.natAbs ≤ p.gainMinErr then low
  else if p.gainMaxErr ≤ est.natAbs then gain
  else low + ((gain - low) * (est.natAbs - p.gainMinErr)).tdiv (p.gainMaxErr - p.gainMinErr)

/-- `iErrPos`. -/
def errPos (err est gain : Int) : Int := (if p.errEstOff then err else est) * p.shape est gain

end AePar

/-- The first delayed estimate that is not zero, or the delay. -/
def lastDly (dly : Nat) (d : Nat → Int) : Nat := ((List.range dly).find? fun i => d i ≠ 0).getD dly

def clearDly (dly : Nat) (d : Nat → Int) (i : Nat) : Int := if i ≤ dly then 0 else d i

def shiftDly (dly : Nat) (estOn : Bool) (estNew : Int) (d : Nat → Int) (i : Nat) : Int :=
  if dly < i then d i else if estOn then (if i = 0 then estNew else d (i - 1)) else 0

end error

structure Agc where
  iErr1d : Int
  iErrEstDly : Nat → Int
  iErrEstAc : Int
  giAgcVal : Int
  giAgcPos : Int
  giAgcCtrl : Int
  gbAgcDly : Nat

/-- `manual` is `abManual` with `aiAgcManual`. -/
structure AgcCall where
  aiErr : Int
  aiMargin : Int
  aiGain : Int
  aiAgcMin : Int
  aiAgcMax : Int
  abEstOn : Bool
  abDlyOn : Bool
  manual : Option Int

namespace Agc

variable (p : AePar) (c : AgcCall) (s : Agc)

/-- From `AgcCtrlEnd_2` on. -/
def place : Agc :=
  { s with
    giAgcPos := max (s.giAgcCtrl - p.agcMin * 2 ^ 16) 0
    giAgcVal := s.giAgcCtrl / 2 ^ 16 }

def setManual (m : Int) : Agc :=
  { s with
    giAgcCtrl := m * 2 ^ 16
    gbAgcDly := if s.giAgcVal ≠ m then p.agcDly else s.gbAgcDly - 1
    iErr1d := 0
    iErrEstAc := 0
    iErrEstDly := clearDly p.agcDly s.iErrEstDly }

def clampCtrl : Agc :=
  { s with
    giAgcCtrl :=
      if s.giAgcCtrl < c.aiAgcMin * 2 ^ 16 then c.aiAgcMin * 2 ^ 16
      else if c.aiAgcMax * 2 ^ 16 < s.giAgcCtrl then c.aiAgcMax * 2 ^ 16 else s.giAgcCtrl }

/-- The release of the accumulated estimate, with `iErrEstNew`. -/
def release : Agc × Int :=
  let now := s.giAgcCtrl / 2 ^ 16
  if s.giAgcVal ≠ now then
    ({ s with
       iErrEstAc := 0
       gbAgcDly :=
         if p.errEstOff ∨ c.abDlyOn ∨ now = c.aiAgcMin ∨ now = c.aiAgcMax then p.agcDly else s.gbAgcDly },
      s.iErrEstAc)
  else if now ≤ c.aiAgcMin ∨ c.aiAgcMax ≤ now then ({ s with iErrEstAc := 0 }, 0)
  else (s, 0)

def delay : Agc :=
  let last := lastDly p.agcDly s.iErrEstDly
  if c.abDlyOn ∧ last < p.agcDly then { s with gbAgcDly := p.agcDly - last } else s

/-- From `AgcCtrlEnd` on. -/
def finish (est : Int) : Agc :=
  let s := s.clampCtrl c
  let (s, estNew) := { s with iErrEstAc := s.iErrEstAc + est }.release p c
  { s with iErrEstDly := shiftDly p.agcDly c.abEstOn estNew s.iErrEstDly }.place p

end Agc

def agcCtrl (p : AePar) (c : AgcCall) (s : Agc) : Agc :=
  let err := clampErr c.aiErr
  let chg := err - s.iErr1d
  let s := { s with iErr1d := err }
  match c.manual with
  | some m => (s.setManual p m).place p
  | none =>
    let s := s.delay p c
    if s.gbAgcDly ≠ 0 then { s with gbAgcDly := s.gbAgcDly - 1 }.finish p c 0
    else if -c.aiMargin ≤ err ∧ err ≤ c.aiMargin then s.finish p c 0
    else
      let est := errEst 270 135 err (s.iErrEstDly p.agcDly) chg
      { s with giAgcCtrl := s.giAgcCtrl + p.errPos err est (clampGain agcMaxGain c.aiGain) }.finish p c est

/-- `AGC_SET`. -/
def agcSet (p : AePar) (m : Int) : Agc → Agc := agcCtrl p ⟨0, 0, 0, 0, 0, false, false, some m⟩

/-- One channel of the shutter. -/
structure Sht where
  iErr1d : Int
  iErrEstDly : Nat → Int
  iErrEstAc : Int
  giShtPos : Int
  giShtVal : Int
  giShtPosN : Int
  giShtPosP : Int
  gbShtDly : Nat
  gbVHssAgc : Int

structure ShtCall where
  aiErr : Int
  aiMargin : Int
  aiGain : Int
  aiShtMin : Int
  aiShtMax : Int
  abEstOn : Bool
  abDlyOn : Bool
  abAgcOn : Bool
  aiShtManual : Int

namespace Sht

variable (p : AePar) (c : ShtCall) (s : Sht)

/-- The block for manual, minimum and maximum is entered. -/
def Limits : Prop := c.aiShtManual ≠ 0 ∨ s.giShtVal < c.aiShtMin ∨ c.aiShtMax < s.giShtVal

instance : Decidable (s.Limits c) := inferInstanceAs (Decidable (_ ∨ _))

/-- `iShtValNew`. -/
def valNew : Int :=
  if c.aiShtManual ≠ 0 then c.aiShtManual
  else if s.giShtVal < c.aiShtMin then c.aiShtMin else c.aiShtMax

def setVal (v : Int) : Sht :=
  { s with
    gbShtDly := p.shtDly
    giShtVal := v
    giShtPosN := linePos v
    giShtPosP := linePos (v + 1)
    giShtPos := linePos (v + 1) / 2 }

def limit : Sht :=
  if s.Limits c then
    let s := if s.giShtVal ≠ s.valNew c then s.setVal p (s.valNew c) else { s with gbShtDly := s.gbShtDly - 1 }
    { s with iErr1d := 0, iErrEstAc := 0, iErrEstDly := clearDly p.shtDly s.iErrEstDly }
  else s

/-- `gbVHssAgc`. -/
def vHssAgc : Int :=
  if s.giShtVal < p.giVHssAgcTblEa then
    (s.giShtPos / 2 ^ 9 * ((p.tbl s.giShtVal).val + 1)).tdiv (s.giShtPosP / 2 ^ 9) % 2 ^ 8
  else 0

/-- A round of the loop that moves up. -/
def upRound : Round Sht :=
  let v := s.giShtVal + 1
  let s := { s with giShtPos := s.giShtPos - s.giShtPosP, giShtVal := v, giShtPosP := linePos (v + 1) }
  if v = c.aiShtMax ∨ v = p.giVHssAgcTblEa then .stop { s with giShtPos := 0, gbShtDly := p.shtDly }
  else .next s

def up (fuel : Nat) (errPos : Int) : Option Sht :=
  (whileDo (fun s => s.giShtPosP ≤ s.giShtPos) (upRound p c) fuel
    { s with giShtPos := s.giShtPos + errPos }).map fun s => { s with giShtPosN := linePos s.giShtVal }

/-- A round of the loop that moves down. -/
def downRound : Round Sht :=
  let v := s.giShtVal - 1
  let s := { s with giShtPos := s.giShtPos + s.giShtPosN, giShtVal := v, giShtPosN := linePos v }
  if v = p.giVHssAgcTblEa then .stop { s with giShtPos := 0, gbShtDly := p.shtDly } else .next s

/-- The stop at the minimum, behind the loop. -/
def floor : Sht :=
  let s := if s.giShtVal = c.aiShtMin ∧ s.giShtPos < 0 then { s with giShtPos := 0, gbShtDly := p.shtDly } else s
  { s with giShtPosP := linePos (s.giShtVal + 1) }

def down (fuel : Nat) (errPos : Int) : Option Sht :=
  (whileDo (fun s => c.aiShtMin < s.giShtVal ∧ s.giShtPos < 0) (downRound p) fuel
    { s with giShtPos := s.giShtPos + errPos }).map (floor p c)

/-- The position, with `bAgcCtrlOn`. -/
def move (fuel : Nat) (errPos giAgcCtrl : Int) : Option (Sht × Bool) :=
  if 0 ≤ errPos then
    if s.giShtVal = p.giVHssAgcTblEa ∧ giAgcCtrl < p.agcMin * 2 ^ 16 then some (s, true)
    else if s.giShtVal < c.aiShtMax then (s.up p c fuel errPos).map (·, false)
    else some (s, false)
  else
    if s.giShtVal = p.giVHssAgcTblEa ∧ 0 < giAgcCtrl then some (s, true)
    else if c.aiShtMin < s.giShtVal ∨ s.giShtVal = c.aiShtMin ∧ 0 < s.giShtPos then
      (s.down p c fuel errPos).map (·, false)
    else some (s, false)

/-- The release of the accumulated estimate, with `iErrEstNew`; `val1d` is `iShtVal1d`. -/
def release (val1d est : Int) : Sht × Int :=
  let old := s.gbVHssAgc
  let s := { s with gbVHssAgc := s.vHssAgc p, iErrEstAc := s.iErrEstAc + est }
  if val1d ≠ s.giShtVal ∨ old ≠ s.gbVHssAgc then
    ({ s with iErrEstAc := 0, gbShtDly := if p.errEstOff ∨ c.abDlyOn then p.shtDly else s.gbShtDly },
      s.iErrEstAc)
  else if s.giShtVal ≤ c.aiShtMin ∨ c.aiShtMax ≤ s.giShtVal then ({ s with iErrEstAc := 0 }, 0)
  else (s, 0)

/-- The call of `AgcCtrl` at `ShtCtrlEnd`. -/
def agcCall (err : Int) (agcCtrlOn : Bool) : AgcCall :=
  if agcCtrlOn then
    ⟨err, c.aiMargin,
      if err < 0 then (if p.agcDownSpeed ≠ 0 then p.agcDownSpeed else 200)
      else (if p.agcUpSpeed ≠ 0 then p.agcUpSpeed else 20),
      0, p.agcMin, c.abEstOn, false, none⟩
  else ⟨0, c.aiMargin, 0, 0, p.agcMin, c.abEstOn, false, none⟩

/-- From `ShtCtrlEnd` on. -/
def finish (err estNew : Int) (agcCtrlOn : Bool) (g : Agc) : Sht × Agc :=
  ({ s with iErrEstDly := shiftDly p.shtDly c.abEstOn estNew s.iErrEstDly },
    if c.abAgcOn then agcCtrl p (agcCall p c err agcCtrlOn) g else g)

/-- Above the lines that the table covers the gain is set to its minimum. -/
def agcOff (g : Agc) : Agc :=
  if p.giVHssAgcTblEa < s.giShtVal ∧ g.giAgcCtrl ≠ p.agcMin * 2 ^ 16 ∧ c.abAgcOn then agcSet p p.agcMin g else g

def delay : Sht :=
  let last := lastDly p.shtDly s.iErrEstDly
  if c.abDlyOn ∧ last < p.shtDly then { s with gbShtDly := p.shtDly - last } else s

/-- Where a call finds the shutter, behind the block for the limits. -/
def found : Sht := { s with iErr1d := clampErr c.aiErr }.limit p c

/-- `iErrEst`, for a shutter found at `s`. -/
def est (chg : Int) : Int := errEst 550 275 (clampErr c.aiErr) (s.iErrEstDly p.shtDly) chg

/-- `iErrPos`. -/
def errPos (chg : Int) : Int := p.errPos (clampErr c.aiErr) (s.est p c chg) (clampGain shtMaxGain c.aiGain)

/-- An automatic call, from the delay on. -/
def auto (fuel : Nat) (chg : Int) (g : Agc) : Option (Sht × Agc) :=
  let err := clampErr c.aiErr
  let s := s.delay p c
  if s.gbShtDly ≠ 0 then some ({ s with gbShtDly := s.gbShtDly - 1 }.finish p c err 0 false g)
  else if -c.aiMargin ≤ err ∧ err ≤ c.aiMargin then some (s.finish p c err 0 false g)
  else
    (s.move p c fuel (s.errPos p c chg) g.giAgcCtrl).map fun (t, on) =>
      let (t, estNew) := t.release p c s.giShtVal (s.est p c chg)
      t.finish p c err estNew on g

end Sht

/-- A call for one channel, with enough fuel for its loops. -/
def shtCtrl (fuel : Nat) (p : AePar) (c : ShtCall) (s : Sht) (g : Agc) : Option (Sht × Agc) :=
  let u := s.found p c
  if c.aiShtManual ≠ 0 then some ({ u with gbVHssAgc := u.vHssAgc p }, g)
  else u.auto p c fuel (clampErr c.aiErr - s.iErr1d) (u.agcOff p c g)

end En675.Isp
