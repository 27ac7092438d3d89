import En675.Isp.ShtPos
import En675.Isp.UsrPar

/-! The stages of the exposure (`AeAdv` of `isp_ae.c`) with a manual iris and without WDR, over the unbounded
integers.  `ParAe` has the constants of the build, so `PA_SHT_MANUAL` and `PA_AGC_MANUAL` are 0; the error is an
argument, behind `ErrNor` and `SatCtrl`; the registers and the debug outputs are left out. -/

namespace En675.Isp

open Lib

/-- The values in the order of the source. -/
inductive AeStg
  | sht | irs | agc | dss | dbl | tgt
  deriving DecidableEq, Repr

/-- What the sensor fixes. -/
structure AeDev where
  gnAeFsc : Nat
  /-- `WdrLShtMin(1)`. -/
  wdrLShtMin : Int
  wdrLShtMax : Nat → Int
  agcPosMax : Int
  pos2Agc : Int → Int
  gbSensShtDly : Fin 9
  gbSensAgcDly : Fin 9
  gbVHssAgcTbl : Int → Fin 256
  gVHssAgcTblEa : Nat
  one_le_min : 1 ≤ wdrLShtMin
  one_le_max : 1 ≤ wdrLShtMax 1
  ofst_le : 128 ≤ agcPosMax
  pos2Agc_nonneg : ∀ pos, 0 ≤ pos → 0 ≤ pos2Agc pos

/-- What a call reads; `gbDssRatioLmt` is set from `UP(Dss)`. -/
structure AeIn where
  dev : AeDev
  up : UpList
  gbUp : ShtLimits
  gbDssRatioLmt : Nat
  iErr : Int

def aeErrMgn : Nat := 8
def aeErrMin : Nat := 1
def aeGainTgtOfst : Int := 0x80

def upShutMnl : Nat := 1
def upShutFlicker : Nat := 2
def upSysfreq60 : Nat := 1

/-- `CLAMP`. -/
def clamp (a lo hi : Int) : Int := if a < lo then lo else if hi < a then hi else a

/-- `TgtMaxGet(0,0)`, of the gain and the offset. -/
def tgtMaxGet (gain ofst brightness : Nat) : Int := gain * brightness + ofst

def tgtMinGet (aiTgt : Int) (abV : Nat) : Int :=
  if abV < 10 then aiTgt * 12 * abV / 2 ^ 9 + 4 else aiTgt * (38 * (abV - 10) + 128) / 2 ^ 9

/-- A speed, or the default in place of 0. -/
def speedOr (v dflt : Nat) : Int := if v ≠ 0 then v else dflt

namespace AeIn

variable (k : AeIn)

section limits

/-- One of the three limits, of the position `pos` under `UP_SHUT_AUTO`. -/
def limit (pos : Nat) : Int :=
  let lines : Nat :=
    if k.up .Shutter = upShutMnl then k.dev.gnAeFsc >>> k.up .ShutSpd
    else if k.up .Shutter = upShutFlicker then
      if k.up .SysFreq = upSysfreq60 then k.dev.gnAeFsc * 30 / 50 else k.dev.gnAeFsc * 25 / 60
    else k.dev.gnAeFsc >>> pos
  clamp lines k.dev.wdrLShtMin (k.dev.wdrLShtMax 1)

def shtMin : Int := k.limit k.gbUp.shtMin

def shtMax : Int := k.limit k.gbUp.deblurMin

def shtDblMax : Int := k.limit k.gbUp.shtMax

/-- `iAgcLmt`. -/
def iAgcLmt : Int :=
  if 255 ≤ k.up .Agc + k.up .ExtraGain then k.dev.agcPosMax
  else (k.dev.agcPosMax - aeGainTgtOfst) * (k.up .Agc + k.up .ExtraGain) / 255 + aeGainTgtOfst

/-- `giIspAgcMax`. -/
def giIspAgcMax : Int := k.dev.pos2Agc (180 * k.up .IspGain / 255)

def agcMax : Int := k.dev.pos2Agc k.iAgcLmt + k.giIspAgcMax

def iAgcMin : Int :=
  if 255 ≤ k.up .AgcMin then k.dev.agcPosMax / 4 else k.dev.agcPosMax * k.up .AgcMin / (255 * 4)

def agcMin : Int := min (k.dev.pos2Agc k.iAgcMin) k.agcMax

def agcDblMax : Int :=
  if k.shtMax < k.shtDblMax then
    min (k.dev.pos2Agc ((k.shtDblMax - k.shtMax) * 2 ^ 5 / k.up .AE_DEBLUR_GAIN)) k.agcMax
  else k.agcMin

end limits

section enables

def bDeblurOn : Bool := k.shtMax < k.shtDblMax ∧ k.agcMin < k.agcDblMax

def iShtMaxAgc : Int := if k.bDeblurOn then k.shtDblMax else k.shtMax

def iAgcMinAgc : Int := if k.bDeblurOn then k.agcDblMax else k.agcMin

def iShtMaxDss : Int := k.dev.wdrLShtMax k.gbDssRatioLmt

def bAgcOn : Bool := k.iAgcMinAgc < k.agcMax

def bShtOn : Bool := k.shtMin < k.shtMax

def bDssOn : Bool := k.up .Shutter ≠ upShutMnl ∧ k.iShtMaxAgc < k.iShtMaxDss

end enables

section speeds

def iShtSpd : Int :=
  if k.iErr < 0 then speedOr (k.up .ShtSpeed * (k.up .ShtDrkSpeed * 100)) 1200
  else speedOr (k.up .ShtSpeed * (k.up .ShtBrtSpeed * 10)) 200

/-- The speed of the stage `DBL`. -/
def iDblSpd : Int := k.iShtSpd * (11 + k.up .AgcSpeed) / 10 / 4 + 1

def giAgcUpSpd : Nat := k.up .AgcSpeed * (k.up .AgcBrtSpeed * 5)

def giAgcDnSpd : Nat := k.up .AgcSpeed * (k.up .AgcDrkSpeed * 50)

def iAgcSpd : Int := if k.iErr < 0 then speedOr k.giAgcDnSpd 200 else speedOr k.giAgcUpSpd 20

end speeds

def iTgtMax : Int := tgtMaxGet (k.up .AE_TGT_GAIN) (k.up .AE_TGT_OFST) (k.up .Brightness)

def iTgtMin : Int := tgtMinGet k.iTgtMax (k.up .BrightnessMin)

/-- What both controllers read. -/
def par : AePar where
  shtDly := k.dev.gbSensShtDly
  agcDly := k.dev.gbSensAgcDly
  tbl := k.dev.gbVHssAgcTbl
  giVHssAgcTblEa := k.dev.gVHssAgcTblEa
  agcMin := k.agcMin
  errEstOff := false
  gainMinBit := k.up .SmallSpeed
  gainMinErr := 20
  gainMaxErr := 100
  agcUpSpeed := k.giAgcUpSpd
  agcDownSpeed := k.giAgcDnSpd

end AeIn

/-- The stage, the target and the controllers. -/
structure AeStage where
  gbAeStg : AeStg
  iTgtVal : Int
  sht : Sht
  agc : Agc

section calls

/-- An automatic call for the long channel: `abEstOn` is on and `abDlyOn` off without WDR. -/
def shtAuto (k : AeIn) (mgn spd lo hi : Int) (abAgcOn : Bool) : ShtCall :=
  ⟨k.iErr, mgn, spd, lo, hi, true, false, abAgcOn, 0⟩

def agcAuto (k : AeIn) (mgn lo hi : Int) : AgcCall := ⟨k.iErr, mgn, k.iAgcSpd, lo, hi, true, false, none⟩

/-- `SHT_SET`. -/
def shtSet (k : AeIn) (v : Int) : ShtCall := ⟨0, aeErrMgn, 1100, k.shtMin, k.shtMax, false, false, false, v⟩

end calls

namespace AeStage

variable (fuel : Nat) (k : AeIn) (mgn : Int) (s : AeStage)

def shtCtrl (c : ShtCall) : Option AeStage :=
  (Isp.shtCtrl fuel k.par c s.sht s.agc).map fun (t, g) => { s with sht := t, agc := g }

/-- `AGC_SET`. -/
def agcSet (v : Int) : AeStage := { s with agc := Isp.agcSet k.par v s.agc }

def goto (stg : AeStg) : AeStage := { s with gbAeStg := stg }

/-- `DARKEN_ON`. -/
def Darken : Prop := k.iErr < -mgn

/-- `BRIGHT_ON`. -/
def Bright : Prop := mgn < k.iErr

instance : Decidable (Darken k mgn) := inferInstanceAs (Decidable (_ < _))
instance : Decidable (Bright k mgn) := inferInstanceAs (Decidable (_ < _))

/-- What follows the controllers in `AE_STG_SHT`. -/
def shtNext : AeStage :=
  if Bright k mgn ∧ k.shtMax ≤ s.sht.giShtVal ∧ s.sht.gbShtDly = 0 then s.goto .tgt else s

/-- `AE_STG_SHT`. -/
def runSht : Option AeStage :=
  (s.shtCtrl fuel k (shtAuto k mgn k.iShtSpd k.shtMin k.shtMax true)).map (shtNext k mgn)

/-- The target while the picture is too bright. -/
def tgtDarken : AeStage :=
  let v := s.iTgtVal - min (k.iErr / 2) (-1)
  if k.iTgtMax ≤ v then
    { s with iTgtVal := k.iTgtMax, gbAeStg := if k.bShtOn then .sht else s.gbAeStg }
  else { s with iTgtVal := v }

def tgtBright : AeStage :=
  let v := s.iTgtVal - max (k.iErr / 2) 1
  if v ≤ k.iTgtMin then
    { s with
      iTgtVal := k.iTgtMin
      gbAeStg := if k.bDeblurOn then .dbl else if k.bAgcOn then .agc else if k.bDssOn then .dss else s.gbAeStg }
  else { s with iTgtVal := v }

def tgtNext : AeStage :=
  let s := if Darken k mgn then s.tgtDarken k else s
  if Bright k mgn then s.tgtBright k else s

/-- `AE_STG_TGT`. -/
def runTgt : Option AeStage :=
  (s.shtCtrl fuel k (shtSet k k.shtMax)).map fun s => (s.agcSet k k.agcMin).tgtNext k mgn

/-- The gain of the stage `DBL`. -/
def dblAgc (v : Int) : Int :=
  let d := if k.bDeblurOn then ((k.agcDblMax - k.agcMin) * (v - k.shtMax)).tdiv (k.shtDblMax - k.shtMax) else 0
  clamp (d + k.agcMin) k.agcMin k.agcDblMax

def dblNext : AeStage :=
  let s :=
    if Darken k mgn ∧ s.sht.giShtVal ≤ k.shtMax ∧ s.sht.gbShtDly = 0 ∧ s.agc.gbAgcDly = 0 then s.goto .tgt else s
  if Bright k mgn ∧ k.shtDblMax ≤ s.sht.giShtVal ∧ s.sht.gbShtDly = 0 ∧ s.agc.gbAgcDly = 0 then
    if k.bAgcOn then s.goto .agc else if k.bDssOn then s.goto .dss else s
  else s

/-- `AE_STG_DBL`. -/
def runDbl : Option AeStage :=
  (s.shtCtrl fuel k (shtAuto k mgn k.iDblSpd k.shtMax k.shtDblMax false)).map fun s =>
    (s.agcSet k (dblAgc k s.sht.giShtVal)).dblNext k mgn

def agcNext : AeStage :=
  let s :=
    if Darken k mgn ∧ s.agc.giAgcVal ≤ k.iAgcMinAgc ∧ s.agc.gbAgcDly = 0 then
      s.goto (if k.bDeblurOn then .dbl else .tgt)
    else s
  if Bright k mgn ∧ k.agcMax ≤ s.agc.giAgcVal ∧ s.agc.gbAgcDly = 0 then
    if k.bDssOn then s.goto .dss else s
  else s

/-- `AE_STG_AGC`. -/
def runAgc : Option AeStage :=
  (s.shtCtrl fuel k (shtSet k k.iShtMaxAgc)).map fun s =>
    { s with agc := agcCtrl k.par (agcAuto k mgn k.iAgcMinAgc k.agcMax) s.agc }.agcNext k mgn

def dssNext : AeStage :=
  if ¬ k.bDssOn ∨ Darken k mgn ∧ s.sht.giShtVal ≤ k.iShtMaxAgc ∧ s.sht.gbShtDly = 0 then
    s.goto (if k.bAgcOn then .agc else if k.bDeblurOn then .dbl else .tgt)
  else s

/-- `AE_STG_DSS`. -/
def runDss : Option AeStage :=
  (if k.bDssOn then s.shtCtrl fuel k (shtAuto k mgn k.iShtSpd k.iShtMaxAgc k.iShtMaxDss false) else some s).map
    fun s => (s.agcSet k k.agcMax).dssNext k mgn

/-- The switch; a manual iris has no stage of its own. -/
def run : Option AeStage :=
  match s.gbAeStg with
  | .irs => (s.goto .sht).runSht fuel k mgn
  | .sht => s.runSht fuel k mgn
  | .tgt => s.runTgt fuel k mgn
  | .dbl => s.runDbl fuel k mgn
  | .agc => s.runAgc fuel k mgn
  | .dss => s.runDss fuel k mgn

end AeStage

/-- The variables of `AeAdv` that are not of its stages: the parameters as the last call saw them, and two
counters. -/
structure AeSta extends AeStage where
  bInitAe : Nat
  bUpBrightness : Nat
  bUpBrightnessMin : Nat
  bMpLSpotLv1d : Nat
  bMpSatBrt1d : Nat
  bMpLSpotLvChgCnt : Nat

namespace AeSta

def start : AeSta where
  gbAeStg := .sht
  iTgtVal := 0
  sht := Ae.shtStart false
  agc := Ae.agcStart
  bInitAe := 2
  bUpBrightness := 0xff
  bUpBrightnessMin := 0xff
  bMpLSpotLv1d := 0xff
  bMpSatBrt1d := 0xff
  bMpLSpotLvChgCnt := 0

variable (k : AeIn) (s : AeSta)

/-- `gbTgtChg`. -/
def tgtChg : Bool := s.bUpBrightness ≠ k.up .Brightness ∨ s.bUpBrightnessMin ≠ k.up .BrightnessMin

/-- `TgtGet`. -/
def tgtGet : Int :=
  if s.tgtChg k then
    match s.gbAeStg with
    | .irs | .sht => k.iTgtMax
    | .dbl | .agc | .dss => k.iTgtMin
    | .tgt => if s.iTgtVal < k.iTgtMin then k.iTgtMin else if k.iTgtMax < s.iTgtVal then k.iTgtMax else s.iTgtVal
  else s.iTgtVal

/-- The counter of `ErrMgn`. -/
def errMgnCnt : Nat :=
  if s.tgtChg k ∨ s.bMpSatBrt1d ≠ k.up .SatBrt ∨ s.bMpLSpotLv1d ≠ k.up .LSpotLv then 16
  else s.bMpLSpotLvChgCnt - 1

/-- `TgtChg`, `TgtGet` and `ErrMgn`. -/
def watch : AeSta :=
  { s with
    bUpBrightness := k.up .Brightness
    bUpBrightnessMin := k.up .BrightnessMin
    iTgtVal := s.tgtGet k
    bMpLSpotLv1d := k.up .LSpotLv
    bMpSatBrt1d := k.up .SatBrt
    bMpLSpotLvChgCnt := s.errMgnCnt k }

/-- `iErrMgn`, behind `watch`. -/
def iErrMgn : Int := if s.bMpLSpotLvChgCnt ≠ 0 then aeErrMin else aeErrMgn

end AeSta

/-- `AeAdv`, with enough fuel for the loops of `ShtCtrl`. -/
def aeAdv (fuel : Nat) (k : AeIn) (s : AeSta) : Option AeSta :=
  let s := s.watch k
  if s.bInitAe ≠ 0 then some { s with bInitAe := s.bInitAe - 1 }
  else (s.toAeStage.run fuel k s.iErrMgn).map fun t => { s with toAeStage := t }

end En675.Isp
