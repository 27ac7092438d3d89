import Mathlib.Algebra.Order.Field.Rat
import Mathlib.Tactic.FieldSimp
import Mathlib.Tactic.Positivity
import Mathlib.Tactic.Ring
import En675.Isp.UsrParCpy

/-! The digital zoom (`DZoom` in `isp_etc.c`) under the bytes that the serial command writes to its three
parameters. -/

namespace En675.Isp

/-- The builds, and the size of their image (`FR_HW`, `FR_VW`). -/
inductive ModelRes
  | m1 | m2 | m4 | m8
  deriving DecidableEq

namespace ModelRes

def dzHw : ModelRes → Nat
  | m1 => 1280
  | m2 => 1920
  | m4 => 2560
  | m8 => 3840

def dzVw : ModelRes → Nat
  | m1 => 720
  | m2 => 1080
  | m4 => 1440
  | m8 => 2160

end ModelRes

/-- The registers that `DZoom` writes. -/
structure DzRegs where
  dzVspKy : Nat
  dzHspPos : Nat
  dzVspPos : Nat
  osdIsel0 : Nat
  dzpckPd : Nat
  ycwCk1Pd : Nat
  ycrCk1Pd : Nat
  imCgo1 : Nat
  imRon1 : Nat

structure Dz where
  dZoom : UInt16
  dZoomPosH : UInt16
  dZoomPosV : UInt16
  regs : DzRegs

/-- The start of the window in the register, in 1/4096 of a pixel. -/
def dzPos (size zoom pos : Nat) : Nat :=
  let iDZoomPos : Int := (pos <<< 12 : Nat) - ((size <<< 11) * 10 / zoom : Nat)
  (if iDZoomPos < 0 then 0 else iDZoomPos).toNat % 2 ^ 24

/-- The path of the image, past the zoom up to a factor of 1 or through it. -/
def DzRegs.switch (r : DzRegs) (zoom : Nat) : DzRegs :=
  if zoom ≤ 10 then { r with osdIsel0 := 0, dzpckPd := 0, ycwCk1Pd := 0, ycrCk1Pd := 0 }
  else { r with ycwCk1Pd := 1, ycrCk1Pd := 1, imCgo1 := 1, imRon1 := 1, dzpckPd := 1, osdIsel0 := 0xb }

namespace Dz

/-- `DZoom`; there is none when it divides by zero. -/
def run (m : ModelRes) (s : Dz) : Option Dz :=
  let zoom := s.dZoom.toNat
  if zoom = 0 then none
  else
    let posH := zoomPos m.dzHw zoom s.dZoomPosH.toNat
    let posV := zoomPos m.dzVw zoom s.dZoomPosV.toNat
    let regs := { s.regs with
      dzVspKy := (10 <<< 12) / zoom % 2 ^ 13
      dzHspPos := dzPos m.dzHw zoom posH
      dzVspPos := dzPos m.dzVw zoom posV }
    some { s with dZoomPosH := .ofNat posH, dZoomPosV := .ofNat posV, regs := regs.switch zoom }

end Dz

/-- The entries, of two bytes each. -/
inductive DzPar
  | dZoom | dZoomPosH | dZoomPosV
  deriving DecidableEq

/-- A write of the serial command to the first or the last byte of an entry. -/
structure ParWrite where
  par : DzPar
  last : Bool
  gnRxData : UInt8

def setByteOf (w : UInt16) (last : Bool) (v : UInt8) : UInt16 :=
  if last then (w &&& (0xff : UInt16)) ||| (v.toUInt16 <<< 8) else (w &&& (0xff00 : UInt16)) ||| v.toUInt16

/-- `gbUsrParTbl[gwRxAddr] = gnRxData`. -/
def Dz.put (s : Dz) (w : ParWrite) : Dz :=
  match w.par with
  | .dZoom => { s with dZoom := setByteOf s.dZoom w.last w.gnRxData }
  | .dZoomPosH => { s with dZoomPosH := setByteOf s.dZoomPosH w.last w.gnRxData }
  | .dZoomPosV => { s with dZoomPosV := setByteOf s.dZoomPosV w.last w.gnRxData }

/-- `P` holds wherever the writes of a run come to call `DZoom`, which is at the last byte of an entry. -/
def Dz.Calls (m : ModelRes) (P : Dz → Prop) : Dz → List ParWrite → Prop
  | _, [] => True
  | s, w :: ws =>
    if w.last then P (s.put w) ∧ ∀ t, (s.put w).run m = some t → Dz.Calls m P t ws
    else Dz.Calls m P (s.put w) ws

/-- What is asked of a side of the image: bounds that do not cross, a centre between them, and a window that
ends in the image. -/
structure Framed (size zoom pos start : Nat) : Prop where
  bounds : (size * 5 : Int).tdiv zoom ≤ ((zoom - 5) * size : Int).tdiv zoom
  ge : (size * 5 : Int).tdiv zoom ≤ pos
  le : pos ≤ ((zoom - 5) * size : Int).tdiv zoom
  window : (start : ℚ) / 4096 + size * 10 / zoom ≤ size + 1 / 4096

/-- `DZoom` divides, frames the image, and has nothing left to do. -/
def Dz.Sound (m : ModelRes) (s : Dz) : Prop :=
  ∃ t, s.run m = some t ∧ Framed m.dzHw s.dZoom.toNat t.dZoomPosH.toNat t.regs.dzHspPos ∧
    Framed m.dzVw s.dZoom.toNat t.dZoomPosV.toNat t.regs.dzVspPos ∧ t.run m = some t

section framed

variable {size zoom pos : Nat}

theorem dzPos_le (size zoom pos : Nat) :
    dzPos size zoom pos = 0 ∨ dzPos size zoom pos + size * 20480 / zoom ≤ pos * 4096 := by
  unfold dzPos
  rw [Nat.shiftLeft_eq, Nat.shiftLeft_eq, show size * 2 ^ 11 * 10 = size * 20480 by omega]
  dsimp only
  split
  · exact .inl rfl
  · have le := Nat.mod_le ((((pos * 2 ^ 12 : Nat) : Int) - (size * 20480 / zoom : Nat)).toNat) (2 ^ 24)
    omega

theorem window_le (ten : 10 ≤ zoom) (h : (pos : Int) ≤ ((zoom - 5) * size : Int).tdiv zoom) :
    dzPos size zoom pos * zoom + size * 40960 ≤ (size * 4096 + 1) * zoom := by
  have wide : size * 10 ≤ size * zoom := Nat.mul_le_mul_left size ten
  obtain zero | le := dzPos_le size zoom pos
  · rw [zero, Nat.zero_mul, Nat.zero_add, Nat.add_mul, Nat.mul_right_comm]
    omega
  · have start := Nat.mul_le_mul_right zoom le
    have half : size * 20480 ≤ size * 20480 / zoom * zoom + zoom := by
      have lt := Nat.lt_div_mul_add (a := size * 20480) (b := zoom) (by omega)
      omega
    have centre : pos * zoom + size * 5 ≤ size * zoom := by
      have nonneg : (0 : Int) ≤ (zoom - 5) * size := Int.mul_nonneg (by omega) (by omega)
      rw [Int.tdiv_eq_ediv_of_nonneg nonneg, Int.le_ediv_iff_mul_le (by omega), Int.sub_mul] at h
      rw [Int.mul_comm (zoom : Int)] at h
      exact_mod_cast (by omega : (pos * zoom : Int) + size * 5 ≤ size * zoom)
    rw [Nat.add_mul, Nat.mul_right_comm pos] at start
    rw [Nat.add_mul, Nat.mul_right_comm]
    omega

theorem window_rat {start : Nat} (pos : 0 < zoom) (h : start * zoom + size * 40960 ≤ (size * 4096 + 1) * zoom) :
    (start : ℚ) / 4096 + size * 10 / zoom ≤ size + 1 / 4096 := by
  have pos : (0 : ℚ) < zoom := Nat.cast_pos.mpr pos
  have h : (start : ℚ) * zoom + size * 40960 ≤ (size * 4096 + 1) * zoom := by exact_mod_cast h
  calc (start : ℚ) / 4096 + size * 10 / zoom
      = (start * zoom + size * 40960) / (4096 * zoom) := by field_simp; ring
    _ ≤ (size * 4096 + 1) * zoom / (4096 * zoom) := div_le_div_of_nonneg_right h (by positivity)
    _ = size + 1 / 4096 := by field_simp

/-- Below a factor of 1 the bounds of the centre cross. -/
theorem bounds_cross (pos : 0 < zoom) (lt : zoom < 10) (wide : 10 ≤ size) :
    ((zoom - 5) * size : Int).tdiv zoom < (size * 5 : Int).tdiv zoom := by
  rw [Int.tdiv_eq_ediv_of_nonneg (by omega : (0 : Int) ≤ size * 5)]
  by_cases five : zoom < 5
  · have turn : ((zoom - 5) * size : Int) = -((5 - zoom) * size) := by ring
    have nonneg : (0 : Int) ≤ ((5 - zoom) * size : Int).tdiv zoom :=
      Int.tdiv_nonneg (Int.mul_nonneg (by omega) (by omega)) (by omega)
    have one : (1 : Int) ≤ size * 5 / zoom := Int.le_ediv_of_mul_le (by omega) (by omega)
    rw [turn, Int.neg_tdiv]
    omega
  · have nonneg : (0 : Int) ≤ (zoom - 5) * size := Int.mul_nonneg (by omega) (by omega)
    rw [Int.tdiv_eq_ediv_of_nonneg nonneg]
    refine Int.ediv_lt_of_lt_mul (by omega) ?_
    have upper : ((zoom - 5) * size : Int) ≤ 4 * size := Int.mul_le_mul_of_nonneg_right (by omega) (by omega)
    have lower := Int.lt_ediv_add_one_mul_self (size * 5 : Int) (show (0 : Int) < zoom by omega)
    rw [Int.add_mul] at lower
    omega

end framed

namespace Dz

variable {m : ModelRes} {s t : Dz}

theorem run_none (zero : s.dZoom.toNat = 0) : s.run m = none := by
  unfold run
  exact if_pos zero

/-- The window of a factor that `DZoom` can divide by. -/
def window (m : ModelRes) (zoom posH posV : Nat) (r : DzRegs) : DzRegs :=
  { r with
    dzVspKy := (10 <<< 12) / zoom % 2 ^ 13
    dzHspPos := dzPos m.dzHw zoom posH
    dzVspPos := dzPos m.dzVw zoom posV }.switch zoom

theorem run_some (pos : s.dZoom.toNat ≠ 0) : s.run m = some
    ⟨s.dZoom, .ofNat (zoomPos m.dzHw s.dZoom.toNat s.dZoomPosH.toNat),
      .ofNat (zoomPos m.dzVw s.dZoom.toNat s.dZoomPosV.toNat),
      window m s.dZoom.toNat (zoomPos m.dzHw s.dZoom.toNat s.dZoomPosH.toNat)
        (zoomPos m.dzVw s.dZoom.toNat s.dZoomPosV.toNat) s.regs⟩ := by
  unfold run
  exact if_neg pos

@[simp] theorem window_hsp (zoom posH posV : Nat) (r : DzRegs) :
    (window m zoom posH posV r).dzHspPos = dzPos m.dzHw zoom posH := by
  unfold window DzRegs.switch
  split <;> rfl

@[simp] theorem window_vsp (zoom posH posV : Nat) (r : DzRegs) :
    (window m zoom posH posV r).dzVspPos = dzPos m.dzVw zoom posV := by
  unfold window DzRegs.switch
  split <;> rfl

theorem window_window (zoom posH posV : Nat) (r : DzRegs) :
    window m zoom posH posV (window m zoom posH posV r) = window m zoom posH posV r := by
  unfold window DzRegs.switch
  split <;> rfl

variable {size zoom : Nat}

/-- Both sides of the image. -/
theorem framed_zoomPos (ten : 10 ≤ zoom) (fits : size < 2 ^ 16) (pos : Nat) :
    Framed size zoom (zoomPos size zoom pos) (dzPos size zoom (zoomPos size zoom pos)) := by
  have inside := inZoom_zoomPos ten fits pos
  exact ⟨(zoom_bounds ten size).2.1, inside.ge, inside.le, window_rat (by omega) (window_le ten inside.le)⟩

theorem zoomPos_toNat (ten : 10 ≤ zoom) (fits : size < 2 ^ 16) (pos : Nat) :
    (UInt16.ofNat (zoomPos size zoom pos)).toNat = zoomPos size zoom pos :=
  UInt16.toNat_ofNat_of_lt' (inZoom_zoomPos ten fits pos).word

theorem zoomPos_zoomPos (ten : 10 ≤ zoom) (fits : size < 2 ^ 16) (pos : Nat) :
    zoomPos size zoom (zoomPos size zoom pos) = zoomPos size zoom pos :=
  zoomPos_of_inZoom (inZoom_zoomPos ten fits pos)

/-- Where the centre is between its bounds, and the window is set, nothing is left to do. -/
theorem run_fixed {r : DzRegs} (ten : 10 ≤ s.dZoom.toNat)
    (posH : zoomPos m.dzHw s.dZoom.toNat s.dZoomPosH.toNat = s.dZoomPosH.toNat)
    (posV : zoomPos m.dzVw s.dZoom.toNat s.dZoomPosV.toNat = s.dZoomPosV.toNat)
    (regs : s.regs = window m s.dZoom.toNat s.dZoomPosH.toNat s.dZoomPosV.toNat r) : s.run m = some s := by
  rw [run_some (by omega), posH, posV, UInt16.ofNat_toNat, UInt16.ofNat_toNat, regs, window_window, ← regs]

theorem sound_iff : s.Sound m ↔ 10 ≤ s.dZoom.toNat := by
  constructor
  · rintro ⟨t, run, hFramed, -, -⟩
    by_contra lt
    by_cases zero : s.dZoom.toNat = 0
    · rw [run_none zero] at run
      cases run
    · have wide : 10 ≤ m.dzHw := by cases m <;> decide
      have cross := bounds_cross (Nat.pos_of_ne_zero zero) (not_le.1 lt) wide
      have bounds := hFramed.bounds
      omega
  · intro ten
    have hw : m.dzHw < 2 ^ 16 := by cases m <;> decide
    have vw : m.dzVw < 2 ^ 16 := by cases m <;> decide
    have pos : s.dZoom.toNat ≠ 0 := by omega
    refine ⟨_, run_some pos, ?_, ?_, ?_⟩
    · rw [window_hsp, zoomPos_toNat ten hw]
      exact framed_zoomPos ten hw _
    · rw [window_vsp, zoomPos_toNat ten vw]
      exact framed_zoomPos ten vw _
    · refine run_fixed (r := s.regs) ten ?_ ?_ ?_
      · rw [zoomPos_toNat ten hw, zoomPos_zoomPos ten hw]
      · rw [zoomPos_toNat ten vw, zoomPos_zoomPos ten vw]
      · rw [zoomPos_toNat ten hw, zoomPos_toNat ten vw]

theorem Calls.congr {P Q : Dz → Prop} (h : ∀ s, P s ↔ Q s) (s : Dz) (ws : List ParWrite) :
    Calls m P s ws ↔ Calls m Q s ws := by
  induction ws generalizing s with
  | nil => exact Iff.rfl
  | cons w ws ih =>
    simp only [Calls, h, ih]

/-- In every run of the serial writes, every call of `DZoom` is sound exactly if each finds a factor of at
least 1. -/
theorem dzoom_sound_iff (m : ModelRes) (s : Dz) (ws : List ParWrite) :
    Calls m (Sound m) s ws ↔ Calls m (fun s => 10 ≤ s.dZoom.toNat) s ws :=
  Calls.congr (fun _ => sound_iff) s ws

/-- The defaults. -/
def start (m : ModelRes) : Dz where
  dZoom := 10
  dZoomPosH := .ofNat (m.dzHw >>> 1)
  dZoomPosV := .ofNat (m.dzVw >>> 1)
  regs := ⟨0, 0, 0, 0, 0, 0, 0, 0, 0⟩

/-- A factor of 0 divides by zero, and at one half the bounds cross. -/
theorem dzoom_unsound :
    (¬ Calls .m2 (Sound .m2) (start .m2) [⟨.dZoom, false, 0⟩, ⟨.dZoom, true, 0⟩]) ∧
      ¬ Calls .m2 (Sound .m2) (start .m2) [⟨.dZoom, false, 5⟩, ⟨.dZoom, true, 0⟩] := by
  constructor
  · rintro ⟨sound, -⟩
    exact absurd (sound_iff.1 sound) (by decide)
  · rintro ⟨sound, -⟩
    exact absurd (sound_iff.1 sound) (by decide)

end Dz

end En675.Isp
