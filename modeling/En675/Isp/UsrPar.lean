import Mathlib.Data.List.Nodup
import En675.Lib.Transition
import Mathlib.Algebra.Ring.Int.Defs
import Mathlib.Algebra.Ring.Nat

/-! The user parameters of the menu and their change handlers (`isp_par.c`, `isp_user_parameter.h`,
`isp_etc.c`, `isp_ae.c`), with `model_Iris_DC` off and `USE_ISP_FRC` 0.  What a handler does to registers is
left out, as are the privacy and motion windows behind `UP_END`. -/

namespace En675.Isp

open Lib

/-- `USR_PAR_LIST`, in its order. -/
inductive UsrPar
  | LckDly | MipiClkPhase | PreHSyncOfs | PreVSyncOfs | PreHSyncPol | PreVSyncPol | PreHsp | PreVsp
  | ICSel | OCSel | OutHSyncOfs | OutVSyncOfs | LSpotLv | SpotSpd | ErrChgStep | ErrChtMax | ErrChtMin
  | MinGammaY | LSpotTh | ShtMin | DeblurMin | ShtMax | SmallSpeed | ShtBrtSpeed | ShtDrkSpeed
  | AgcBrtSpeed | AgcDrkSpeed | AgcMin | IspGainAeCur | IspGainAePos | AE_DEBLUR_GAIN | AE_SPEED_DC_VP
  | AE_TGT_GAIN | AE_TGT_OFST | AE_CLIP_OFST | AE_WDR_ON_AGC | AE_WDR_MIN_WGT | AE_WDR_SWGT_L
  | AE_WDR_SWGT_M | AE_WDR_SWGT_H | AWB_TCNT_LMT | AWB_DBOFFSET | AWB_DROFFSET | AWB_AGC_MIN
  | AWB_AGC_WGT_MIN | AWB_SPEED_MTRX | AWB_YSLICE | AWB_YCLIP | AWB_GAIN_TIMES | HSUP_GA | CES_GAIN
  | CES_WGAIN | LSUP_GA | LSUP_TH | DEFOG_OSDON | DEFOG_HW | DEFOG_HSP | DEFOG_VW | DEFOG_VSP
  | DEFOG_TH_LOW | DEFOG_TH_MID | DEFOG_TH_HIGH | ACETBL1_LOW | ACETBL1_MID | ACETBL1_HIGH
  | ACETBL2_LOW | ACETBL2_MID | ACETBL2_HIGH | ShpAgcLow | ShpAgcMid | ShpAgcHigh | HlMaskColorCY
  | HlMaskColorCB | HlMaskColorCR | DEFECT_DIFTH | DEFECT_GA | DEFECT_SPOT_GA | DEFECT_TSEL
  | ISP_FW_Ver | ISP_FW_Build_Year | ISP_FW_Build_MonthDay | ISP_FW_Build_Time | Sensor_ID
  | Sensor_Ctrl | Sensor_FPS | OutFps | SysFreq | Cvbs | Brightness | BrightnessMin | AntiSatOn
  | SatBrt | Stabilizing | Iris | Shutter | ShutSpd | DcMode | ShtMode | Dss | Agc | IspGain
  | ExtraGain | IrsSpeed | ShtSpeed | AgcSpeed | BackLight | HlMaskThrs | HlMaskColorSel | BlcMode
  | BlcPosX | BlcPosY | BlcSizX | BlcSizY | WdrWgt | WdrMode | AE_WDR_LTGT_OFST2 | AE_WDR_STGT_OFST2
  | ACEWDR1_TH | ACEWDR2_TH | GammaWdr | FocusAdj_On | FocusThrs | FocusAdjColorSel | Tdn | TdnThrs
  | TdnMarg | TdnDly | LedOn | TdnSw | TdnDNThres | TdnNDThres | Awb | AwbStyle | AwbMnl | Rgain
  | Bgain | SaturationR | SaturationG | SaturationB | HSUP_ON | HSUP_TH | CES_NOR | CES_WDR | LSUP_ON
  | Yellow_HUE_RedToGreen | Yellow_GAIN | Red_HUE_YellowToBlue | Red_GAIN | Blue_HUE_GreenToRed
  | Blue_GAIN | Green_HUE_BlueToYellow | Green_GAIN | Defog | DefogMode | DefogLevel | Ace | AceGmgn
  | AceBrt | AceCont | Adnr2D | Adnr3D | DnrIncrease | Sharpness | ShpSmallEdge | ShpBigEdge | Gamma
  | GammaDay | GammaNgt | Flip | Mirror | DZoom | DZoomPosH | DZoomPosV | PvcOn | PvcFormat | PvcTrans
  | PvcYLevel | PvcCRLevel | PvcCBLevel | Itl | ItlSens | ItlDettone | ItlRectFill | ItlMaskOsd
  | ItlAlarm | ItlSigno | ItlCamMovingTH | ItlBrightChgTH | CamTitleOn | CamTitle0 | CamTitle1
  | CamTitle2 | CamTitle3 | CamTitle4 | CamTitle5 | CamTitle6 | CamTitle7 | LanguageSel | ColorBar
  | OutFormat | Style
  deriving DecidableEq, Repr

def usrParEa : Nat := 201

def usrParList : List UsrPar := (List.range usrParEa).map UsrPar.ofNat

abbrev UpList := UsrPar → Nat

/-- `gbUsrParChgOn`: nothing runs, the `INIT_RUN` entries run, everything runs. -/
inductive UsrParChgOn
  | off | boot | change
  deriving DecidableEq

/-- What the build and the sensor fix: the size of the output image, the entries of the binary info, and
the defaults that come from sensor and resolution tables. -/
structure UpCfg where
  dzHw : Nat
  dzVw : Nat
  hwWord : dzHw < 2 ^ 16
  vwWord : dzVw < 2 ^ 16
  info : UpList
  other : UpList

/-- The three limits of the shutter, as menu positions. -/
structure ShtLimits where
  shtMin : Nat
  deblurMin : Nat
  shtMax : Nat
  deriving DecidableEq

structure UsrPars where
  gbUsrParTbl : UpList
  gbUsrParTblSaved : UpList
  gbUsrParSaveChk : Bool
  gbStylePreviousOn : Bool
  /-- `gbUpShtMin`, `gbUpDeblurMin`, `gbUpShtMax`. -/
  gbUp : ShtLimits
  bStyleBuf : Nat
  bStylePrv : UpList

namespace UsrPars

/-- `UP(N)`. -/
abbrev up (s : UsrPars) : UpList := s.gbUsrParTbl

abbrev saved (s : UsrPars) : UpList := s.gbUsrParTblSaved

def put (s : UsrPars) (n : UsrPar) (v : Nat) : UsrPars :=
  { s with gbUsrParTbl := Function.update s.gbUsrParTbl n v }

end UsrPars

section shutter

def upShtMinDefault : Nat := 10
def upMnlShutDiv1 : Nat := 0
def upMnlShutDiv8 : Nat := 3
def upLensMnl : Nat := 0
def upShtCustom : Nat := 2

def upLimits (t : UpList) : ShtLimits := ⟨t .ShtMin, t .DeblurMin, t .ShtMax⟩

/-- The limits `ShutterMenuGet` reads: presets of the mode, or the parameters. -/
def shutterMenu (t : UpList) : ShtLimits :=
  if t .Iris = upLensMnl then
    match t .ShtMode with
    | 0 => ⟨upShtMinDefault, upMnlShutDiv1, upMnlShutDiv1⟩
    | 1 => ⟨upShtMinDefault, upMnlShutDiv8, upMnlShutDiv1⟩
    | _ => upLimits t
  else
    match t .DcMode with
    | 0 => ⟨upMnlShutDiv1, upMnlShutDiv1, upMnlShutDiv1⟩
    | 1 => ⟨upMnlShutDiv8, upMnlShutDiv1, upMnlShutDiv1⟩
    | 2 => ⟨upMnlShutDiv8, upMnlShutDiv8, upMnlShutDiv1⟩
    | _ => upLimits t

def shutterMenuGet (s : UsrPars) : UsrPars := { s with gbUp := shutterMenu s.up }

def ShtLimits.clampDeblur (g : ShtLimits) : ShtLimits :=
  let d := if g.deblurMin > g.shtMin then g.shtMin else g.deblurMin
  { g with deblurMin := if d < g.shtMax then g.shtMax else d }

def shutterMenuSet (s : UsrPars) : UsrPars :=
  if s.gbUp.shtMin < s.gbUp.shtMax then shutterMenuGet s
  else
    let g := s.gbUp.clampDeblur
    { s with gbUp := g }.put .ShtMin g.shtMin |>.put .DeblurMin g.deblurMin |>.put .ShtMax g.shtMax
      |>.put .ShtMode upShtCustom

end shutter

section handlers

def errChtSiz : Nat := 60

def errChtMax : Nat → Nat
  | 0 => 1
  | 1 => errChtSiz >>> 1
  | 2 => (errChtSiz >>> 1) + (errChtSiz >>> 2)
  | _ => errChtSiz

def errChtMin : Nat → Nat
  | 0 => 1
  | 1 => errChtSiz >>> 2
  | 2 => errChtSiz >>> 1
  | _ => (errChtSiz <<< 1) / 3

def antiSatStabilizingSet (s : UsrPars) : UsrPars :=
  s.put .ErrChtMax (errChtMax (s.up .Stabilizing)) |>.put .ErrChtMin (errChtMin (s.up .Stabilizing))

/-- One coordinate of the zoom's centre, clamped to an image of `size` and stored in a `WORD`. -/
def zoomPos (size zoom pos : Nat) : Nat :=
  let posMin : Int := (size * 5 : Int).tdiv zoom
  let posMax : Int := ((zoom - 5) * size : Int).tdiv zoom
  ((if (pos : Int) < posMin then posMin else if (pos : Int) > posMax then posMax else pos) % 2 ^ 16).toNat

def dzoom (c : UpCfg) (s : UsrPars) : UsrPars :=
  s.put .DZoomPosH (zoomPos c.dzHw (s.up .DZoom) (s.up .DZoomPosH))
    |>.put .DZoomPosV (zoomPos c.dzVw (s.up .DZoom) (s.up .DZoomPosV))

def usrParDateTime (c : UpCfg) (s : UsrPars) : UsrPars :=
  s.put .ISP_FW_Build_Year (c.info .ISP_FW_Build_Year)
    |>.put .ISP_FW_Build_MonthDay (c.info .ISP_FW_Build_MonthDay)
    |>.put .ISP_FW_Build_Time (c.info .ISP_FW_Build_Time)

/-- The code of an entry of `USR_PAR_LIST` other than `Style`. -/
def UsrPar.run (c : UpCfg) (n : UsrPar) (s : UsrPars) : UsrPars :=
  match n with
  | .ShtMin => shutterMenuSet { s with gbUp := { s.gbUp with shtMin := s.up .ShtMin } }
  | .DeblurMin => shutterMenuSet { s with gbUp := { s.gbUp with deblurMin := s.up .DeblurMin } }
  | .ShtMax => shutterMenuSet { s with gbUp := { s.gbUp with shtMax := s.up .ShtMax } }
  | .ISP_FW_Ver | .Sensor_ID | .Sensor_Ctrl | .Sensor_FPS => s.put n (c.info n)
  | .ISP_FW_Build_Year | .ISP_FW_Build_MonthDay | .ISP_FW_Build_Time => usrParDateTime c s
  | .Stabilizing => antiSatStabilizingSet s
  | .Iris | .DcMode | .ShtMode => shutterMenuGet s
  | .DZoom | .DZoomPosH | .DZoomPosV => dzoom c s
  | _ => s

/-- `INIT_RUN`. -/
def UsrPar.initRun : UsrPar → Bool
  | .AWB_DBOFFSET | .AWB_DROFFSET | .AWB_YSLICE | .AWB_YCLIP | .HSUP_GA | .LSUP_TH | .DEFOG_OSDON | .DEFOG_HW
  | .DEFOG_HSP | .DEFOG_VW | .DEFOG_VSP | .DEFECT_DIFTH | .DEFECT_TSEL | .ISP_FW_Ver | .ISP_FW_Build_Time
  | .Sensor_ID | .Sensor_Ctrl | .Sensor_FPS | .Stabilizing | .Iris | .HSUP_ON | .HSUP_TH | .Flip | .Mirror
  | .ItlCamMovingTH | .ItlBrightChgTH | .LanguageSel | .ColorBar | .OutFormat | .Style => true
  | _ => false

end handlers

section style

/-- `USR_PAR_STYLE`: the styles in their order are `IPC_INDOOR`, `IPC_OUTDOOR`, `CAR_REC`, `ACTION_REC`, `WDR`,
`LOW_BIT`, `CUSTOM`. -/
def bStyleVals : UsrPar → List Nat
  | .Brightness => [4, 6, 4, 4, 4, 4, 4]
  | .Adnr2D => [8, 4, 8, 8, 8, 8, 8]
  | .ShpBigEdge => [0x80, 0x40, 0x80, 0x80, 0x80, 0x80, 0x80]
  | .Gamma => [6, 2, 6, 6, 6, 6, 6]
  | .Ace => [3, 0, 3, 3, 3, 3, 3]
  | _ => []

def usrParStyleList : List UsrPar := [.Brightness, .Adnr2D, .ShpBigEdge, .Gamma, .Ace]

/-- The value style `abStyle` gives `n`. -/
def styleVal (n : UsrPar) (abStyle : Nat) : Option Nat :=
  if abStyle = 0 then none else (bStyleVals n)[abStyle - 1]?

namespace UsrPars

/-- `UsrParStyle(0, 0, n)`: a styled entry with another value ends the style. -/
def styleChk (n : UsrPar) (s : UsrPars) : UsrPars :=
  match styleVal n s.bStyleBuf with
  | some v => if s.up n ≠ v then { s.put .Style 0 with bStyleBuf := 0, gbStylePreviousOn := true } else s
  | none => s

/-- `UsrParChg` around the code of an entry. -/
def chgBy (on : UsrParChgOn) (n : UsrPar) (run : UsrPars → UsrPars) (s : UsrPars) : UsrPars :=
  match on with
  | .off => s
  | .boot => if n.initRun then run s else s
  | .change => (run s).styleChk n

/-- What style `abStyle` puts into `n`; the style 0 is `PREVIOUS`. -/
def styleTo (s : UsrPars) (abStyle : Nat) (n : UsrPar) : Option Nat :=
  if abStyle = 0 then some (s.bStylePrv n) else styleVal n abStyle

/-- One entry of the loop at `StyleSet`; `chg` is what follows a write. -/
def styleSet (abStyle : Nat) (chg : UsrPar → UsrPars → UsrPars) (s : UsrPars) (n : UsrPar) : UsrPars :=
  match s.styleTo abStyle n with
  | some v => if s.up n ≠ v then chg n (s.put n v) else s
  | none => s

/-- `UsrParStyle(abStyle, 1, abValChg)`. -/
def styleInit (abStyle : Nat) (abValChg : Bool) (s : UsrPars) : UsrPars :=
  let s := { s with bStyleBuf := abStyle, gbStylePreviousOn := abStyle == 0 }
  if abStyle ≠ 0 && abValChg then usrParStyleList.foldl (styleSet abStyle fun _ s => s) s else s

/-- The values `PREVIOUS` goes back to. -/
def stylePrv (s : UsrPars) : UpList := fun n => if n ∈ usrParStyleList then s.up n else s.bStylePrv n

/-- `UsrParStyle(abStyle, 0, 0)`. -/
def styleSel (c : UpCfg) (on : UsrParChgOn) (abStyle : Nat) (s : UsrPars) : UsrPars :=
  if s.bStyleBuf = abStyle then s
  else
    let s := if s.bStyleBuf = 0 then { s with bStylePrv := s.stylePrv } else s
    usrParStyleList.foldl (styleSet abStyle fun n => chgBy on n (n.run c)) { s with bStyleBuf := abStyle }

def usrParChg (c : UpCfg) (on : UsrParChgOn) (n : UsrPar) (s : UsrPars) : UsrPars :=
  chgBy on n (if n = .Style then fun s => styleSel c on (s.up .Style) s else n.run c) s

end UsrPars

end style

namespace UsrPars

section save

/-- One `UP_SET` of `UsrParCpy(gbUsrParTbl, gbUsrParTblSaved)`. -/
def cpyOne (c : UpCfg) (s : UsrPars) (n : UsrPar) : UsrPars :=
  if s.up n ≠ s.saved n then usrParChg c .change n (s.put n (s.saved n)) else s

def usrParCpy (c : UpCfg) (on : UsrParChgOn) (s : UsrPars) : UsrPars :=
  match on with
  | .change => usrParList.foldl (cpyOne c) s
  | _ => { s with gbUsrParTbl := s.saved }

def usrParSave (c : UpCfg) (on : UsrParChgOn) (anSaveOn : Bool) (s : UsrPars) : UsrPars :=
  let s :=
    if anSaveOn then
      { s with
        gbUsrParTblSaved := s.up
        gbUsrParSaveChk := s.gbUsrParSaveChk || usrParList.any fun n => s.saved n != s.up n }
    else usrParCpy c on s
  s.styleInit (s.up .Style) false

end save

section power

def initStyle : Nat := 1

/-- The defaults of `USR_PAR_LIST`. -/
def usrParDefault (c : UpCfg) : UpList
  | .ErrChtMax => errChtSiz
  | .ErrChtMin => (errChtSiz <<< 1) / 3
  | .ShtMin => upShtMinDefault
  | .DeblurMin => upMnlShutDiv1
  | .ShtMax => upMnlShutDiv1
  | .Brightness => 5
  | .Stabilizing => 3
  | .Iris => upLensMnl
  | .DcMode => 0
  | .ShtMode => 0
  | .Ace => 3
  | .Adnr2D => 4
  | .ShpBigEdge => 128
  | .Gamma => 6
  | .DZoom => 10
  | .DZoomPosH => c.dzHw >>> 1
  | .DZoomPosV => c.dzVw >>> 1
  | .Style => initStyle
  | n => c.other n

/-- `UsrParReset` before `gbUsrParChgOn` is set; the last two writes are those of `menu_val_chack`. -/
def usrParReset (c : UpCfg) (s : UsrPars) : UsrPars :=
  let s := { s with gbUsrParTbl := usrParDefault c }.styleInit initStyle true
  let s := s.put .Dss 0 |>.put .Adnr3D 0
  { s with gbUsrParTblSaved := s.up }

/-- `AppLoadPar` with the table of the memory, if it carries this build's mark. -/
def appLoadPar (c : UpCfg) (mem : Option UpList) (s : UsrPars) : UsrPars :=
  match mem with
  | some t => { s with gbUsrParTbl := t, gbUsrParTblSaved := t }.styleInit (t .Style) false
  | none => { usrParReset c s with gbUsrParSaveChk := true }

def initUsrParChgAll (c : UpCfg) (s : UsrPars) : UsrPars :=
  usrParList.foldl (fun s n => usrParChg c .boot n s) s

/-- The variables at power on. -/
def static : UsrPars where
  gbUsrParTbl := fun _ => 0
  gbUsrParTblSaved := fun _ => 0
  gbUsrParSaveChk := false
  gbStylePreviousOn := false
  gbUp := ⟨upShtMinDefault, upMnlShutDiv1, upMnlShutDiv1⟩
  bStyleBuf := 0
  -- the initialiser -16 of a byte
  bStylePrv := fun _ => 240

def ispInit (c : UpCfg) (mem : Option UpList) : UsrPars := initUsrParChgAll c (appLoadPar c mem static)

end power

end UsrPars

/-- `save` and `cancel` are the two calls of `UsrParSave`; an edit is a write and `UsrParChg`; `reboot` comes
after `AppSavePar` has written `gbUsrParTbl` to the memory. -/
inductive UsrParEvent
  | edit (n : UsrPar) (v : Nat)
  | save
  | cancel
  | reboot

/-- The documented ranges, where a handler divides or indexes by the value. -/
def UsrParEvent.InRange : UsrParEvent → Prop
  | .edit .DZoom v => 10 ≤ v ∧ v ≤ 640
  | .edit .Style v => v ≤ 7
  | _ => True

def UsrPars.next (c : UpCfg) (s : UsrPars) : UsrParEvent → UsrPars
  | .edit n v => usrParChg c .change n (s.put n v)
  | .save => usrParSave c .change true s
  | .cancel => usrParSave c .change false s
  | .reboot => ispInit c (some s.up)

def usrParLts (c : UpCfg) : Lts UsrPars UsrParEvent where
  init s := s = .ispInit c none
  step s e t := t = s.next c e

end En675.Isp
