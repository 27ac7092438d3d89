import En675.Isp.ImdMasks
import En675.Isp.MaskImd

/-! The boxes of the motion detector (`BoxIMD`).  The boxes that were detected are widened in place, in the array
that both views share; what is printed on the screen is left out. -/

namespace En675.Isp

open Lib

/-- `IMD_BOX_EA`. -/
def imdBoxEa : Nat := 16

/-- `IMD_OUT_EA`. -/
def imdOutEa : Nat := imdBoxEa - 2

/-- `IMD2BOX_X`. -/
def imd2boxX : Nat := 4

/-- `IMD2BOX_Y`. -/
def imd2boxY : Nat := 10

/-- `wRECT`, of `WORD`s. -/
structure WRect where
  ey : Nat
  sy : Nat
  ex : Nat
  sx : Nat
  deriving DecidableEq

/-- The bytes of `gnBoxPosIMD`. -/
abbrev PosMem := Nat → UInt8

namespace PosMem

def byte (m : PosMem) (a : Nat) : Nat := (m a).toNat

def loadW (m : PosMem) (a : Nat) : Nat := m.byte a + 256 * m.byte (a + 1)

/-- What a `WORD` leaves. -/
def putW (m : PosMem) (a v : Nat) : PosMem :=
  Function.update (Function.update m a (UInt8.ofNat v)) (a + 1) (UInt8.ofNat (v / 256))

/-- A `WORD` that is stored, where there is one in the array. -/
def storeW (m : PosMem) (a v : Nat) : Option PosMem := if a + 2 ≤ 4 * imdDetEa then some (m.putW a v) else none

/-- `bRectIMD`. -/
def bRectIMD (m : PosMem) (i : Nat) : BRect where
  ey := m.byte (4 * i)
  sy := m.byte (4 * i + 1)
  ex := m.byte (4 * i + 2)
  sx := m.byte (4 * i + 3)

/-- `wRectIMD`. -/
def wRectIMD (m : PosMem) (i : Nat) : WRect where
  ey := m.loadW (8 * i)
  sy := m.loadW (8 * i + 2)
  ex := m.loadW (8 * i + 4)
  sx := m.loadW (8 * i + 6)

section put

variable {m : PosMem} {a b v : Nat}

theorem putW_of_ne (h : b < a ∨ a + 2 ≤ b) : m.putW a v b = m b := by
  unfold putW
  rw [Function.update_of_ne (by omega), Function.update_of_ne (by omega)]

theorem byte_putW (h : b < a ∨ a + 2 ≤ b) : (m.putW a v).byte b = m.byte b := congrArg UInt8.toNat (putW_of_ne h)

theorem loadW_putW (h : v < 2 ^ 16) : (m.putW a v).loadW a = v := by
  have low : (m.putW a v).byte a = v % 256 := by
    unfold byte putW
    rw [Function.update_of_ne (by omega), Function.update_self, UInt8.toNat_ofNat']
  have high : (m.putW a v).byte (a + 1) = v / 256 % 256 := by
    unfold byte putW
    rw [Function.update_self, UInt8.toNat_ofNat']
  unfold loadW
  rw [low, high]
  omega

theorem loadW_putW_of_ne (h : b + 2 ≤ a ∨ a + 2 ≤ b) : (m.putW a v).loadW b = m.loadW b := by
  unfold loadW
  rw [byte_putW (by omega), byte_putW (by omega)]

theorem storeW_eq (h : a + 2 ≤ 4 * imdDetEa) : m.storeW a v = some (m.putW a v) := if_pos h

theorem byte_lt (m : PosMem) (a : Nat) : m.byte a < 256 := (m a).toNat_lt

theorem loadW_lt (m : PosMem) (a : Nat) : m.loadW a < 2 ^ 16 := by
  have low := m.byte_lt a
  have high := m.byte_lt (a + 1)
  unfold loadW
  omega

theorem storeW_some {m' : PosMem} (h : m.storeW a v = some m') : m' = m.putW a v := by
  unfold storeW at h
  split at h
  · exact (Option.some.inj h).symm
  · cases h

end put

/-- Nothing but box `i` is written. -/
def Frame (m m' : PosMem) (i : Nat) : Prop := ∀ a, a < 8 * i ∨ 8 * i + 8 ≤ a → m' a = m a

section frame

variable {m m' m'' : PosMem} {i j a v : Nat}

theorem Frame.trans (h : Frame m m' i) (h' : Frame m' m'' i) : Frame m m'' i :=
  fun a ha => (h' a ha).trans (h a ha)

theorem frame_putW (lo : 8 * i ≤ a) (hi : a + 2 ≤ 8 * i + 8) (v : Nat) : Frame m (m.putW a v) i :=
  fun _ hb => putW_of_ne (by omega)

theorem Frame.wRectIMD (h : Frame m m' i) (ne : j ≠ i) : m'.wRectIMD j = m.wRectIMD j := by
  have load : ∀ k, k + 2 ≤ 8 → m'.loadW (8 * j + k) = m.loadW (8 * j + k) := by
    intro k hk
    unfold loadW byte
    rw [h _ (by omega), h _ (by omega)]
  unfold PosMem.wRectIMD
  rw [load 2 (by decide), load 4 (by decide), load 6 (by decide), show m'.loadW (8 * j) = m.loadW (8 * j) from
    load 0 (by decide)]

end frame

end PosMem

/-- A shift of a `UINT`, where it is defined. -/
def shl (v n : Nat) : Option Nat := if n < 32 then some (v <<< n % 2 ^ 32) else none

/-- What `BoxIMD` sets. -/
structure BoxImd where
  gnBoxPosIMD : PosMem
  gnBoxOnIMD : Nat
  gnBoxNumIMD : Nat
  gnBoxMskNum : Nat
  gnBoxMskSel : Nat
  gnBoxFillIMD : Nat
  gnBoxToneIMD : Nat

/-- What it reads: the frame, the parameters and the menu, the windows, and what `MaskIMD` has counted of them. -/
structure BoxPar where
  frHw : Nat
  frVw : Nat
  itlMaskOsd : Nat
  itlRectFill : Nat
  itlDettone : Nat
  gbMnImdDetWin : Nat
  gbMnImdZone : Nat
  gbIMD_Update : Nat
  gbMnImdCfg : Nat → Privacy
  gbMaskOnNum : Nat
  gbMaskOnNum_le : gbMaskOnNum ≤ maskEa

namespace BoxPar

variable (p : BoxPar)

def iItlDettone : Nat := if p.gbMnImdDetWin ≠ 0 then 4 else p.itlDettone

def iDetNum (gnBoxNumIMD : Nat) : Int :=
  if p.gbIMD_Update ≠ 0 then 0
  else if p.iItlDettone = 3 then if imdBoxEa < gnBoxNumIMD then imdBoxEa else gnBoxNumIMD
  else if (imdOutEa + 1 : Int) < gnBoxNumIMD + p.gbMaskOnNum then imdOutEa + 1 - p.gbMaskOnNum
  else gnBoxNumIMD

/-- `ex` is at most what the frame has room for, which is wider than `IMD2BOX_X`. -/
def clipEx (m : PosMem) (i : Nat) : Option PosMem :=
  if p.frHw - imd2boxX < m.loadW (8 * i + 4) then m.storeW (8 * i + 4) (p.frHw - imd2boxX) else some m

end BoxPar

namespace BoxImd

/-- A box is filled, with a tone. -/
def mark (s : BoxImd) (i tone : Nat) : Option BoxImd := do
  let fill ← shl 1 i
  let tone ← shl tone (2 * i)
  some { s with gnBoxFillIMD := s.gnBoxFillIMD ||| fill, gnBoxToneIMD := s.gnBoxToneIMD ||| tone }

/-- A box is on, with the memory that holds it. -/
def turnOn (s : BoxImd) (m : PosMem) (i : Nat) : Option BoxImd := do
  let on ← shl 1 i
  some { s with gnBoxPosIMD := m, gnBoxOnIMD := s.gnBoxOnIMD ||| on }

/-- One motion box: every field is read just before it is written over. -/
def motionRound (p : BoxPar) (s : BoxImd) (i : Nat) : Option BoxImd := do
  let m ← s.gnBoxPosIMD.storeW (8 * i + 6) ((s.gnBoxPosIMD.bRectIMD i).sx <<< 5 + imd2boxX)
  let m ← m.storeW (8 * i + 4) ((m.bRectIMD i).ex <<< 5 + imd2boxX)
  let m ← m.storeW (8 * i + 2) ((m.bRectIMD i).sy <<< 5 + imd2boxY)
  let m ← m.storeW (8 * i) ((m.bRectIMD i).ey <<< 5 + imd2boxY)
  let m ← p.clipEx m i
  let s ← s.turnOn m i
  if p.itlRectFill = upOn ∧ p.gbMnImdDetWin = 0 then s.mark i 2 else some s

/-- From the last motion box down. -/
def motionLoop (p : BoxPar) : Nat → BoxImd → Option BoxImd
  | 0, s => some s
  | n + 1, s => do motionLoop p n (← motionRound p s n)

/-- The window that the menu has chosen. -/
def selectArea (p : BoxPar) (s : BoxImd) (i j : Nat) : Option BoxImd :=
  if p.gbMnImdDetWin ≠ 0 ∧ p.gbMnImdZone = j then
    { s with gnBoxMskSel := s.gnBoxMskNum }.mark i (if 3 ≤ p.itlDettone then 2 else p.itlDettone)
  else some s

def fillBox (p : BoxPar) (s : BoxImd) (i tone : Nat) : Option BoxImd :=
  if p.iItlDettone < 4 then s.mark i tone else some s

/-- Window `j`, whose box is `i` where it has an action. -/
def areaRound (p : BoxPar) (t : BoxImd × Nat) (j : Nat) : Option (BoxImd × Nat) :=
  let c := p.gbMnImdCfg j
  let i := t.2
  if c.bAction = 0 then some t
  else do
    let m ← t.1.gnBoxPosIMD.storeW (8 * i + 6) (c.bPosX <<< 5 + imd2boxX)
    let m ← m.storeW (8 * i + 4) ((c.bPosX + c.bSizX) <<< 5 + imd2boxX)
    let m ← m.storeW (8 * i + 2) (c.bPosY <<< 5 + imd2boxY)
    let m ← m.storeW (8 * i) ((c.bPosY + c.bSizY) <<< 5 + imd2boxY)
    let m ← p.clipEx m i
    let s ← t.1.turnOn m i
    let s ← selectArea p { s with gnBoxMskNum := s.gnBoxMskNum + 1 } i j
    let s ← fillBox p s i 3
    some (s, i + 1)

/-- The box of the whole frame. -/
def background (p : BoxPar) (s : BoxImd) (i : Nat) : Option BoxImd := do
  let m ← s.gnBoxPosIMD.storeW (8 * i + 6) 0
  let m ← m.storeW (8 * i + 4) p.frHw
  let m ← m.storeW (8 * i + 2) 0
  let m ← m.storeW (8 * i) p.frVw
  let s ← s.turnOn m i
  fillBox p s i p.iItlDettone

/-- `BoxIMD`. -/
def boxIMD (p : BoxPar) (s : BoxImd) : Option BoxImd :=
  let n := (p.iDetNum s.gnBoxNumIMD).toNat
  let s := { s with
    gnBoxOnIMD := 0, gnBoxNumIMD := 0, gnBoxMskNum := 0, gnBoxMskSel := 0, gnBoxFillIMD := 0, gnBoxToneIMD := 0 }
  if p.itlMaskOsd ≠ upOn then some s
  else do
    let s ← motionLoop p n s
    if p.iItlDettone = 3 then some { s with gnBoxNumIMD := n }
    else do
      let t ← (List.range maskEa).foldlM (areaRound p) (s, n)
      let s ← background p t.1 t.2
      some { s with gnBoxNumIMD := t.2 + 1 }

end BoxImd

open PosMem

section shl

variable {v n r : Nat}

theorem shl_eq (h : n < 32) : shl v n = some (v <<< n % 2 ^ 32) := if_pos h

/-- One bit. -/
theorem testBit_shl_one (h : shl 1 n = some r) (j : Nat) : r.testBit j = decide (j = n) := by
  unfold shl at h
  split at h
  · rename_i lt
    obtain rfl := Option.some.inj h
    rw [Nat.one_shiftLeft, Nat.mod_eq_of_lt (Nat.pow_lt_pow_right (by decide) lt), Nat.testBit_two_pow]
    exact decide_eq_decide.2 eq_comm
  · cases h

end shl

namespace BoxPar

variable (p : BoxPar)

/-- The image of a box on the screen. -/
def image (b : BRect) : WRect where
  ey := b.ey <<< 5 + imd2boxY
  sy := b.sy <<< 5 + imd2boxY
  ex := min (b.ex <<< 5 + imd2boxX) (p.frHw - imd2boxX)
  sx := b.sx <<< 5 + imd2boxX

variable {p} {m m' : PosMem} {i : Nat}

theorem clipEx_some (h : p.clipEx m i = some m') :
    Frame m m' i ∧ m'.wRectIMD i = { m.wRectIMD i with ex := min (m.loadW (8 * i + 4)) (p.frHw - imd2boxX) } := by
  unfold clipEx at h
  split at h
  · rename_i gt
    obtain rfl := storeW_some h
    refine ⟨frame_putW (by omega) (by omega) _, ?_⟩
    have fits := Nat.lt_trans gt (m.loadW_lt (8 * i + 4))
    unfold wRectIMD
    rw [loadW_putW fits, loadW_putW_of_ne (by omega), loadW_putW_of_ne (by omega), loadW_putW_of_ne (by omega),
      Nat.min_eq_right (Nat.le_of_lt gt)]
  · rename_i le
    obtain rfl := Option.some.inj h
    refine ⟨fun _ _ => rfl, ?_⟩
    unfold wRectIMD
    rw [Nat.min_eq_left (Nat.not_lt.1 le)]

theorem clipEx_ends (h : 8 * i + 6 ≤ 4 * imdDetEa) (m : PosMem) : ∃ m', p.clipEx m i = some m' := by
  unfold clipEx
  split
  · exact ⟨_, storeW_eq (by omega)⟩
  · exact ⟨m, rfl⟩

end BoxPar

/-- The fields of box `i`, the last first, each read from what the others have left. -/
def widen (m : PosMem) (i : Nat) : PosMem :=
  let m := m.putW (8 * i + 6) ((m.bRectIMD i).sx <<< 5 + imd2boxX)
  let m := m.putW (8 * i + 4) ((m.bRectIMD i).ex <<< 5 + imd2boxX)
  let m := m.putW (8 * i + 2) ((m.bRectIMD i).sy <<< 5 + imd2boxY)
  m.putW (8 * i) ((m.bRectIMD i).ey <<< 5 + imd2boxY)

section widen

variable {m m' : PosMem} {i : Nat} {p : BoxPar}

theorem frame_widen (m : PosMem) (i : Nat) : Frame m (widen m i) i :=
  (((frame_putW (by omega) (by omega) _).trans (frame_putW (by omega) (by omega) _)).trans
    (frame_putW (by omega) (by omega) _)).trans (frame_putW (by omega) (by omega) _)

/-- No field is written over before it is read: box `i` is wide from byte `8 * i` on, and narrow from `4 * i`. -/
theorem widen_wRectIMD (m : PosMem) (i : Nat) :
    (widen m i).wRectIMD i =
      { ey := (m.bRectIMD i).ey <<< 5 + imd2boxY
        sy := (m.bRectIMD i).sy <<< 5 + imd2boxY
        ex := (m.bRectIMD i).ex <<< 5 + imd2boxX
        sx := (m.bRectIMD i).sx <<< 5 + imd2boxX } := by
  have fits : ∀ a k, k < 16 → m.byte a <<< 5 + k < 2 ^ 16 := by
    intro a k hk
    have := m.byte_lt a
    rw [Nat.shiftLeft_eq]
    omega
  have fx := fits (4 * i + 3) imd2boxX (by decide)
  have gx := fits (4 * i + 2) imd2boxX (by decide)
  have fy := fits (4 * i + 1) imd2boxY (by decide)
  have gy := fits (4 * i) imd2boxY (by decide)
  obtain ⟨m1, h1⟩ : ∃ m1, m1 = m.putW (8 * i + 6) (m.byte (4 * i + 3) <<< 5 + imd2boxX) := ⟨_, rfl⟩
  have ex : m1.byte (4 * i + 2) = m.byte (4 * i + 2) := h1 ▸ byte_putW (by omega)
  obtain ⟨m2, h2⟩ : ∃ m2, m2 = m1.putW (8 * i + 4) (m1.byte (4 * i + 2) <<< 5 + imd2boxX) := ⟨_, rfl⟩
  have sy : m2.byte (4 * i + 1) = m.byte (4 * i + 1) := by
    rw [h2, byte_putW (by omega), h1, byte_putW (by omega)]
  obtain ⟨m3, h3⟩ : ∃ m3, m3 = m2.putW (8 * i + 2) (m2.byte (4 * i + 1) <<< 5 + imd2boxY) := ⟨_, rfl⟩
  have ey : m3.byte (4 * i) = m.byte (4 * i) := by
    rw [h3, byte_putW (by omega), h2, byte_putW (by omega), h1, byte_putW (by omega)]
  have all : widen m i = m3.putW (8 * i) (m3.byte (4 * i) <<< 5 + imd2boxY) := by
    rw [h3, h2, h1]
    rfl
  have w0 : (widen m i).loadW (8 * i) = m.byte (4 * i) <<< 5 + imd2boxY := by
    rw [all, ey, loadW_putW gy]
  have w2 : (widen m i).loadW (8 * i + 2) = m.byte (4 * i + 1) <<< 5 + imd2boxY := by
    rw [all, loadW_putW_of_ne (by omega), h3, sy, loadW_putW fy]
  have w4 : (widen m i).loadW (8 * i + 4) = m.byte (4 * i + 2) <<< 5 + imd2boxX := by
    rw [all, loadW_putW_of_ne (by omega), h3, loadW_putW_of_ne (by omega), h2, ex, loadW_putW gx]
  have w6 : (widen m i).loadW (8 * i + 6) = m.byte (4 * i + 3) <<< 5 + imd2boxX := by
    rw [all, loadW_putW_of_ne (by omega), h3, loadW_putW_of_ne (by omega), h2, loadW_putW_of_ne (by omega), h1,
      loadW_putW fx]
  unfold wRectIMD
  rw [w0, w2, w4, w6]
  rfl

theorem widen_clipped (h : p.clipEx (widen m i) i = some m') :
    Frame m m' i ∧ m'.wRectIMD i = p.image (m.bRectIMD i) := by
  obtain ⟨frame, rect⟩ := BoxPar.clipEx_some h
  refine ⟨(frame_widen m i).trans frame, ?_⟩
  have ex : (widen m i).loadW (8 * i + 4) = ((widen m i).wRectIMD i).ex := rfl
  rw [rect, ex, widen_wRectIMD]
  rfl

end widen

namespace BoxImd

section mark

variable {s t : BoxImd} {i tone : Nat} {p : BoxPar} {m : PosMem}

/-- The fields that marks leave. -/
structure SameBoxes (s t : BoxImd) : Prop where
  pos : t.gnBoxPosIMD = s.gnBoxPosIMD
  on : t.gnBoxOnIMD = s.gnBoxOnIMD
  msk : t.gnBoxMskNum = s.gnBoxMskNum

theorem SameBoxes.refl (s : BoxImd) : SameBoxes s s := ⟨rfl, rfl, rfl⟩

theorem mark_same (h : s.mark i tone = some t) : SameBoxes s t := by
  unfold mark at h
  simp only [Option.bind_eq_bind, Option.bind_eq_some_iff] at h
  obtain ⟨_, -, _, -, eq⟩ := h
  cases eq
  exact ⟨rfl, rfl, rfl⟩

/-- The tones are what bounds the boxes. -/
theorem mark_ends (h : i < 16) (s : BoxImd) (tone : Nat) : ∃ t, s.mark i tone = some t := by
  unfold mark
  rw [shl_eq (by omega), shl_eq (by omega)]
  exact ⟨_, rfl⟩

theorem turnOn_some (h : s.turnOn m i = some t) : t.gnBoxPosIMD = m ∧ t.gnBoxMskNum = s.gnBoxMskNum ∧
    ∀ j, t.gnBoxOnIMD.testBit j = (s.gnBoxOnIMD.testBit j || decide (j = i)) := by
  unfold turnOn at h
  simp only [Option.bind_eq_bind, Option.bind_eq_some_iff] at h
  obtain ⟨on, hon, eq⟩ := h
  cases eq
  exact ⟨rfl, rfl, fun j => by rw [Nat.testBit_or, testBit_shl_one hon]⟩

theorem turnOn_ends (h : i < 32) (s : BoxImd) (m : PosMem) : ∃ t, s.turnOn m i = some t := by
  unfold turnOn
  rw [shl_eq h]
  exact ⟨_, rfl⟩

theorem fillBox_same (h : fillBox p s i tone = some t) : SameBoxes s t := by
  unfold fillBox at h
  split at h
  · exact mark_same h
  · cases h
    exact .refl s

theorem fillBox_ends (h : i < 16) (s : BoxImd) (tone : Nat) : ∃ t, fillBox p s i tone = some t := by
  unfold fillBox
  split
  · exact mark_ends h s tone
  · exact ⟨s, rfl⟩

theorem selectArea_same {j : Nat} (h : selectArea p s i j = some t) : SameBoxes s t := by
  unfold selectArea at h
  split at h
  · have same := mark_same h
    exact ⟨same.pos, same.on, same.msk⟩
  · cases h
    exact .refl s

theorem selectArea_ends (h : i < 16) (s : BoxImd) (j : Nat) : ∃ t, selectArea p s i j = some t := by
  unfold selectArea
  split
  · exact mark_ends h _ _
  · exact ⟨s, rfl⟩

end mark

section motion

variable {p : BoxPar} {m : PosMem} {n i k : Nat} {s t : BoxImd}

/-- From box `k` on the motion boxes are wide, and what is below is as it was. -/
structure Moved (p : BoxPar) (m : PosMem) (n k : Nat) (s : BoxImd) : Prop where
  below : ∀ a < 8 * k, s.gnBoxPosIMD a = m a
  motions : ∀ j, k ≤ j → j < n → s.gnBoxPosIMD.wRectIMD j = p.image (m.bRectIMD j)
  on : ∀ j, s.gnBoxOnIMD.testBit j = decide (k ≤ j ∧ j < n)
  msk : s.gnBoxMskNum = 0

/-- What a round comes to. -/
theorem motionRound_some (h : motionRound p s i = some t) : ∃ m',
    p.clipEx (widen s.gnBoxPosIMD i) i = some m' ∧ t.gnBoxPosIMD = m' ∧ t.gnBoxMskNum = s.gnBoxMskNum ∧
      ∀ j, t.gnBoxOnIMD.testBit j = (s.gnBoxOnIMD.testBit j || decide (j = i)) := by
  unfold motionRound at h
  simp only [Option.bind_eq_bind, Option.bind_eq_some_iff] at h
  obtain ⟨m1, h1, m2, h2, m3, h3, m4, h4, m5, h5, u, hu, mark⟩ := h
  obtain rfl := storeW_some h1
  obtain rfl := storeW_some h2
  obtain rfl := storeW_some h3
  obtain rfl := storeW_some h4
  obtain ⟨pos, msk, on⟩ := turnOn_some hu
  have same : SameBoxes u t := by
    split at mark
    · exact mark_same mark
    · cases mark
      exact .refl t
  exact ⟨m5, h5, same.pos.trans pos, same.msk.trans msk, fun j => by rw [same.on, on]⟩

theorem motionRound_ends (h : i < 16) (s : BoxImd) : ∃ t, motionRound p s i = some t := by
  have room : 4 * imdDetEa = 200 := rfl
  obtain ⟨m, hm⟩ := BoxPar.clipEx_ends (p := p) (i := i) (by omega) (widen s.gnBoxPosIMD i)
  obtain ⟨u, hu⟩ := turnOn_ends (by omega : i < 32) s m
  unfold motionRound
  simp only [Option.bind_eq_bind]
  rw [storeW_eq (by omega), Option.bind_some, storeW_eq (by omega), Option.bind_some, storeW_eq (by omega),
    Option.bind_some, storeW_eq (by omega), Option.bind_some]
  change ∃ t, (p.clipEx (widen s.gnBoxPosIMD i) i).bind _ = some t
  rw [hm, Option.bind_some, hu, Option.bind_some]
  split
  · exact mark_ends h _ _
  · exact ⟨u, rfl⟩

theorem Moved.round (h : Moved p m n (i + 1) s) (lt : i < n) (hr : motionRound p s i = some t) : Moved p m n i t := by
  obtain ⟨m', clip, pos, msk, on⟩ := motionRound_some hr
  obtain ⟨frame, image⟩ := widen_clipped clip
  have narrow : s.gnBoxPosIMD.bRectIMD i = m.bRectIMD i := by
    unfold bRectIMD byte
    rw [h.below _ (by omega), h.below _ (by omega), h.below _ (by omega), h.below _ (by omega)]
  exact
    { below := fun a ha => by rw [pos, frame a (by omega), h.below a (by omega)]
      motions := by
        intro j hj hn
        rcases Nat.eq_or_lt_of_le hj with rfl | more
        · rw [pos, image, narrow]
        · rw [pos, frame.wRectIMD (Nat.ne_of_gt more), h.motions j more hn]
      on := by
        intro j
        rw [on, h.on, ← Bool.decide_or]
        exact decide_eq_decide.2 (by omega)
      msk := msk.trans h.msk }

theorem motionLoop_moved (h : Moved p m n k s) (le : k ≤ n) (hn : n ≤ 16) :
    ∃ t, motionLoop p k s = some t ∧ Moved p m n 0 t := by
  induction k generalizing s with
  | zero => exact ⟨s, rfl, h⟩
  | succ k ih =>
    obtain ⟨u, hu⟩ := motionRound_ends (p := p) (by omega : k < 16) s
    obtain ⟨t, ht, moved⟩ := ih (h.round le hu) (Nat.le_of_succ_le le)
    refine ⟨t, ?_, moved⟩
    rw [motionLoop, hu]
    exact ht

end motion

section boxes

variable {p : BoxPar} {m m' : PosMem} {n i j : Nat} {s t : BoxImd}

/-- `n` motion boxes, then the windows, `i` boxes in all. -/
structure Boxes (p : BoxPar) (m : PosMem) (n i : Nat) (s : BoxImd) : Prop where
  motions : ∀ k < n, s.gnBoxPosIMD.wRectIMD k = p.image (m.bRectIMD k)
  on : ∀ j, s.gnBoxOnIMD.testBit j = decide (j < i)
  msk : n + s.gnBoxMskNum = i

theorem Moved.boxes (h : Moved p m n 0 s) : Boxes p m n n s where
  motions k hk := h.motions k (Nat.zero_le k) hk
  on j := by
    rw [h.on]
    exact decide_eq_decide.2 (by omega)
  msk := by rw [h.msk, Nat.add_zero]

/-- One more box is on, behind the others. -/
theorem Boxes.turnOn (h : Boxes p m n i s) (frame : Frame s.gnBoxPosIMD m' i) (ht : s.turnOn m' i = some t) :
    (∀ k < n, t.gnBoxPosIMD.wRectIMD k = p.image (m.bRectIMD k)) ∧
      (∀ j, t.gnBoxOnIMD.testBit j = decide (j < i + 1)) ∧ n + t.gnBoxMskNum = i := by
  obtain ⟨pos, msk, on⟩ := turnOn_some ht
  have behind := h.msk
  refine ⟨fun k hk => ?_, fun j => ?_, ?_⟩
  · rw [pos, frame.wRectIMD (by omega), h.motions k hk]
  · rw [on, h.on, ← Bool.decide_or]
    exact decide_eq_decide.2 (by omega)
  · rw [msk, behind]

theorem frame_four {a b c d : Nat} {m1 m2 m3 m4 : PosMem} (h1 : m.storeW (8 * i + 6) a = some m1)
    (h2 : m1.storeW (8 * i + 4) b = some m2) (h3 : m2.storeW (8 * i + 2) c = some m3)
    (h4 : m3.storeW (8 * i) d = some m4) : Frame m m4 i := by
  obtain rfl := storeW_some h1
  obtain rfl := storeW_some h2
  obtain rfl := storeW_some h3
  obtain rfl := storeW_some h4
  exact (((frame_putW (by omega) (by omega) _).trans (frame_putW (by omega) (by omega) _)).trans
    (frame_putW (by omega) (by omega) _)).trans (frame_putW (by omega) (by omega) _)

/-- Window `j` has an action. -/
def Acts (p : BoxPar) (j : Nat) : Bool := decide ((p.gbMnImdCfg j).bAction ≠ 0)

theorem Boxes.areaRound (h : Boxes p m n i s) {i' : Nat} (ht : areaRound p (s, i) j = some (t, i')) :
    Boxes p m n i' t ∧ i' = i + if Acts p j then 1 else 0 := by
  unfold BoxImd.areaRound at ht
  dsimp only at ht
  unfold Acts
  split at ht
  · rename_i none_
    cases ht
    rw [if_neg (by simp [none_])]
    exact ⟨h, rfl⟩
  · rename_i acts
    simp only [Option.bind_eq_bind, Option.bind_eq_some_iff] at ht
    obtain ⟨m1, h1, m2, h2, m3, h3, m4, h4, m5, h5, u, hu, v, hv, w, hw, eq⟩ := ht
    cases eq
    obtain ⟨motions, on, msk⟩ := h.turnOn ((frame_four h1 h2 h3 h4).trans (BoxPar.clipEx_some h5).1) hu
    have same := selectArea_same hv
    have same' := fillBox_same hw
    rw [if_pos (decide_eq_true acts)]
    refine ⟨⟨?_, ?_, ?_⟩, rfl⟩
    · rw [same'.pos, same.pos]
      exact motions
    · rw [same'.on, same.on]
      exact on
    · rw [same'.msk, same.msk, ← Nat.add_assoc, msk]

theorem areaRound_ends (h : i < 16) (s : BoxImd) (j : Nat) : ∃ r, areaRound p (s, i) j = some r := by
  have room : 4 * imdDetEa = 200 := rfl
  unfold areaRound
  dsimp only
  split
  · exact ⟨_, rfl⟩
  · simp only [Option.bind_eq_bind]
    rw [storeW_eq (by omega), Option.bind_some, storeW_eq (by omega), Option.bind_some, storeW_eq (by omega),
      Option.bind_some, storeW_eq (by omega), Option.bind_some]
    obtain ⟨m, hm⟩ := BoxPar.clipEx_ends (p := p) (i := i) (by omega) _
    rw [hm, Option.bind_some]
    obtain ⟨u, hu⟩ := turnOn_ends (by omega : i < 32) s m
    rw [hu, Option.bind_some]
    obtain ⟨v, hv⟩ := selectArea_ends (p := p) h { u with gnBoxMskNum := u.gnBoxMskNum + 1 } j
    rw [hv, Option.bind_some]
    obtain ⟨w, hw⟩ := fillBox_ends (p := p) h v 3
    rw [hw, Option.bind_some]
    exact ⟨_, rfl⟩

theorem Boxes.areas (h : Boxes p m n i s) {js : List Nat} {r : BoxImd × Nat}
    (hr : js.foldlM (BoxImd.areaRound p) (s, i) = some r) :
    Boxes p m n r.2 r.1 ∧ r.2 = i + js.countP (Acts p) := by
  induction js generalizing s i with
  | nil =>
    cases hr
    exact ⟨h, rfl⟩
  | cons j js ih =>
    rw [List.foldlM_cons, Option.bind_eq_bind, Option.bind_eq_some_iff] at hr
    obtain ⟨⟨u, i'⟩, hu, hr⟩ := hr
    obtain ⟨boxes, rfl⟩ := h.areaRound hu
    obtain ⟨boxes', eq⟩ := ih boxes hr
    refine ⟨boxes', eq.trans ?_⟩
    rw [List.countP_cons]
    omega

theorem areas_end (h : Boxes p m n i s) {js : List Nat} (le : i + js.countP (Acts p) < 16) :
    ∃ r, js.foldlM (areaRound p) (s, i) = some r := by
  induction js generalizing s i with
  | nil => exact ⟨_, rfl⟩
  | cons j js ih =>
    rw [List.countP_cons] at le
    obtain ⟨⟨u, i'⟩, hu⟩ := areaRound_ends (p := p) (by omega : i < 16) s j
    obtain ⟨boxes, rfl⟩ := h.areaRound hu
    rw [List.foldlM_cons, hu]
    exact ih boxes (by omega)

theorem Boxes.background (h : Boxes p m n i s) (ht : background p s i = some t) :
    (∀ k < n, t.gnBoxPosIMD.wRectIMD k = p.image (m.bRectIMD k)) ∧
      (∀ j, t.gnBoxOnIMD.testBit j = decide (j < i + 1)) ∧ n + t.gnBoxMskNum = i := by
  unfold BoxImd.background at ht
  simp only [Option.bind_eq_bind, Option.bind_eq_some_iff] at ht
  obtain ⟨m1, h1, m2, h2, m3, h3, m4, h4, u, hu, fill⟩ := ht
  have same := fillBox_same fill
  rw [same.pos, same.on, same.msk]
  exact h.turnOn (frame_four h1 h2 h3 h4) hu

theorem background_ends (h : i < 16) (s : BoxImd) : ∃ t, background p s i = some t := by
  have room : 4 * imdDetEa = 200 := rfl
  unfold background
  simp only [Option.bind_eq_bind]
  rw [storeW_eq (by omega), Option.bind_some, storeW_eq (by omega), Option.bind_some, storeW_eq (by omega),
    Option.bind_some, storeW_eq (by omega), Option.bind_some]
  obtain ⟨u, hu⟩ := turnOn_ends (by omega : i < 32) s _
  rw [hu, Option.bind_some]
  exact fillBox_ends h u _

end boxes

end BoxImd

namespace BoxPar

variable (p : BoxPar) (num : Nat)

/-- The windows with an action. -/
def acting : Nat := (List.range maskEa).countP (BoxImd.Acts p)

/-- The windows and the whole frame have boxes. -/
def HasAreas : Prop := p.itlMaskOsd = upOn ∧ p.iItlDettone ≠ 3

instance : Decidable p.HasAreas := inferInstanceAs (Decidable (_ ∧ _))

def motionBoxes : Nat := if p.itlMaskOsd = upOn then (p.iDetNum num).toNat else 0

def windowBoxes : Nat := if p.HasAreas then p.acting else 0

/-- The motion boxes leave room for the windows: none is drawn that `MaskIMD` has not counted, or there are few
boxes. -/
def Room : Prop := p.HasAreas → p.gbIMD_Update = 0 → p.acting ≤ p.gbMaskOnNum ∨ num + p.acting ≤ imdBoxEa - 1

theorem acting_le : p.acting ≤ maskEa := by
  have le := List.countP_le_length (p := BoxImd.Acts p) (l := List.range maskEa)
  rw [List.length_range] at le
  exact le

theorem iDetNum_bounds : 0 ≤ p.iDetNum num ∧ p.iDetNum num ≤ imdBoxEa := by
  have on := p.gbMaskOnNum_le
  unfold maskEa at on
  unfold iDetNum imdBoxEa imdOutEa imdBoxEa
  split
  · decide
  · split
    · split <;> omega
    · split <;> omega

/-- The boxes that are left when the motion boxes and the windows are set. -/
theorem iDetNum_room (h : p.HasAreas) : (p.iDetNum num).toNat + p.acting < imdBoxEa ↔ p.Room num := by
  have on := p.gbMaskOnNum_le
  have act := p.acting_le
  unfold maskEa at on act
  unfold Room iDetNum imdBoxEa imdOutEa imdBoxEa
  rw [if_neg h.2]
  by_cases update : p.gbIMD_Update = 0
  · rw [if_neg (not_not.2 update)]
    split
    · exact ⟨fun _ _ _ => by omega, fun room => by have := room h update; omega⟩
    · exact ⟨fun _ _ _ => by omega, fun room => by have := room h update; omega⟩
  · rw [if_pos update]
    exact ⟨fun _ _ zero => absurd zero update, fun _ => by omega⟩

end BoxPar

/-- What is expected of a call. -/
structure Widened (p : BoxPar) (s t : BoxImd) : Prop where
  motions : ∀ i < p.motionBoxes s.gnBoxNumIMD, t.gnBoxPosIMD.wRectIMD i = p.image (s.gnBoxPosIMD.bRectIMD i)
  nonneg : 0 ≤ p.iDetNum s.gnBoxNumIMD
  le : t.gnBoxNumIMD ≤ imdBoxEa
  on : ∀ j, t.gnBoxOnIMD.testBit j = decide (j < t.gnBoxNumIMD)
  num : t.gnBoxNumIMD =
    p.motionBoxes s.gnBoxNumIMD + p.windowBoxes + if p.HasAreas then 1 else 0
  msk : t.gnBoxMskNum = p.windowBoxes

namespace BoxImd

section whole

variable {p : BoxPar} {s t : BoxImd}

/-- The fields that are cleared first. -/
def cleared (s : BoxImd) : BoxImd where
  gnBoxPosIMD := s.gnBoxPosIMD
  gnBoxOnIMD := 0
  gnBoxNumIMD := 0
  gnBoxMskNum := 0
  gnBoxMskSel := 0
  gnBoxFillIMD := 0
  gnBoxToneIMD := 0

theorem cleared_moved (p : BoxPar) (s : BoxImd) (n : Nat) : Moved p s.gnBoxPosIMD n n s.cleared where
  below _ _ := rfl
  motions j lo hi := absurd hi (Nat.not_lt.2 lo)
  on j := by
    rw [show s.cleared.gnBoxOnIMD = 0 from rfl, Nat.zero_testBit]
    exact (decide_eq_false (by omega)).symm
  msk := rfl

theorem boxIMD_off (h : p.itlMaskOsd ≠ upOn) : boxIMD p s = some s.cleared := if_pos h

theorem boxIMD_tone (on : p.itlMaskOsd = upOn) (h : p.iItlDettone = 3) : boxIMD p s =
    (motionLoop p (p.iDetNum s.gnBoxNumIMD).toNat s.cleared).bind fun u =>
      some { u with gnBoxNumIMD := (p.iDetNum s.gnBoxNumIMD).toNat } := by
  unfold boxIMD
  simp only [if_neg (not_not.2 on), if_pos h, Option.bind_eq_bind]
  rfl

theorem boxIMD_areas (h : p.HasAreas) : boxIMD p s =
    (motionLoop p (p.iDetNum s.gnBoxNumIMD).toNat s.cleared).bind fun u =>
      ((List.range maskEa).foldlM (areaRound p) (u, (p.iDetNum s.gnBoxNumIMD).toNat)).bind fun r =>
        (background p r.1 r.2).bind fun v => some { v with gnBoxNumIMD := r.2 + 1 } := by
  unfold boxIMD
  simp only [if_neg (not_not.2 h.1), if_neg h.2, Option.bind_eq_bind]
  rfl

theorem toNat_le (p : BoxPar) (num : Nat) : (p.iDetNum num).toNat ≤ 16 := by
  have := (p.iDetNum_bounds num).2
  unfold imdBoxEa at this
  omega

/-- The boxes of the windows and the frame, where they are all set. -/
theorem boxIMD_areas_some (h : p.HasAreas) (ht : boxIMD p s = some t) :
    (∀ k < (p.iDetNum s.gnBoxNumIMD).toNat, t.gnBoxPosIMD.wRectIMD k = p.image (s.gnBoxPosIMD.bRectIMD k)) ∧
      (∀ j, t.gnBoxOnIMD.testBit j = decide (j < t.gnBoxNumIMD)) ∧
      t.gnBoxNumIMD = (p.iDetNum s.gnBoxNumIMD).toNat + p.acting + 1 ∧ t.gnBoxMskNum = p.acting := by
  obtain ⟨u, hu, moved⟩ :=
    motionLoop_moved (cleared_moved p s _) (Nat.le_refl _) (toNat_le p s.gnBoxNumIMD)
  rw [boxIMD_areas h, hu, Option.bind_some, Option.bind_eq_some_iff] at ht
  obtain ⟨⟨v, i⟩, hv, ht⟩ := ht
  rw [Option.bind_eq_some_iff] at ht
  obtain ⟨w, hw, eq⟩ := ht
  cases eq
  obtain ⟨boxes, count⟩ := moved.boxes.areas hv
  dsimp only at boxes count hw
  obtain ⟨motions, on, msk⟩ := boxes.background hw
  have total : i = (p.iDetNum s.gnBoxNumIMD).toNat + p.acting := count
  exact ⟨motions, on, by rw [total], by dsimp only; omega⟩

theorem boxIMD_areas_ends (h : p.HasAreas) (room : p.Room s.gnBoxNumIMD) : ∃ t, boxIMD p s = some t := by
  have less := (p.iDetNum_room s.gnBoxNumIMD h).2 room
  unfold imdBoxEa at less
  obtain ⟨u, hu, moved⟩ :=
    motionLoop_moved (cleared_moved p s _) (Nat.le_refl _) (toNat_le p s.gnBoxNumIMD)
  obtain ⟨⟨v, i⟩, hv⟩ := areas_end moved.boxes less
  obtain ⟨-, count⟩ := moved.boxes.areas hv
  have total : i = (p.iDetNum s.gnBoxNumIMD).toNat + p.acting := count
  obtain ⟨w, hw⟩ := background_ends (p := p) (by omega : i < 16) v
  rw [boxIMD_areas h, hu, Option.bind_some, hv, Option.bind_some, hw, Option.bind_some]
  exact ⟨_, rfl⟩

end whole

end BoxImd

open BoxImd

/-- The boxes are right where the windows that are drawn are left room. -/
theorem boxIMD_iff (p : BoxPar) (s : BoxImd) :
    (∃ t, boxIMD p s = some t ∧ Widened p s t) ↔ p.Room s.gnBoxNumIMD := by
  have bounds := p.iDetNum_bounds s.gnBoxNumIMD
  by_cases areas : p.HasAreas
  · have windows : p.windowBoxes = p.acting := if_pos areas
    have motion : p.motionBoxes s.gnBoxNumIMD = (p.iDetNum s.gnBoxNumIMD).toNat := if_pos areas.1
    rw [← p.iDetNum_room _ areas]
    constructor
    · rintro ⟨t, ht, widened⟩
      obtain ⟨-, -, num, -⟩ := boxIMD_areas_some areas ht
      have le := widened.le
      omega
    · intro less
      obtain ⟨t, ht⟩ := boxIMD_areas_ends areas ((p.iDetNum_room _ areas).1 less)
      obtain ⟨motions, on, num, msk⟩ := boxIMD_areas_some areas ht
      refine ⟨t, ht, ?_⟩
      exact
        { motions := motion ▸ motions
          nonneg := bounds.1
          le := by omega
          on := on
          num := by rw [motion, windows, if_pos areas, num]
          msk := windows ▸ msk }
  · refine iff_of_true ?_ fun h => absurd h areas
    have windows : p.windowBoxes = 0 := if_neg areas
    by_cases on : p.itlMaskOsd = upOn
    · have tone : p.iItlDettone = 3 := by_contra fun ne => areas ⟨on, ne⟩
      have motion : p.motionBoxes s.gnBoxNumIMD = (p.iDetNum s.gnBoxNumIMD).toNat := if_pos on
      obtain ⟨u, hu, moved⟩ :=
        motionLoop_moved (cleared_moved p s _) (Nat.le_refl _) (toNat_le p s.gnBoxNumIMD)
      have boxes := moved.boxes
      refine ⟨_, by rw [boxIMD_tone on tone, hu, Option.bind_some], ?_⟩
      exact
        { motions := motion ▸ boxes.motions
          nonneg := bounds.1
          le := toNat_le p s.gnBoxNumIMD
          on := boxes.on
          num := by
            rw [motion, windows, if_neg areas]
            rfl
          msk := by
            rw [windows]
            exact moved.msk }
    · have motion : p.motionBoxes s.gnBoxNumIMD = 0 := if_neg on
      refine ⟨_, boxIMD_off on, ?_⟩
      exact
        { motions := fun i hi => absurd (motion ▸ hi) (Nat.not_lt_zero i)
          nonneg := bounds.1
          le := Nat.zero_le _
          on := fun j => by
            rw [show s.cleared.gnBoxOnIMD = 0 from rfl, Nat.zero_testBit]
            exact (decide_eq_false (Nat.not_lt_zero j)).symm
          num := by
            rw [motion, windows, if_neg areas]
            rfl
          msk := windows.symm }

theorem maskIMD_onNum (hw vw : Nat) (cfg : Nat → Privacy) (old : MaskImd) :
    (maskIMD hw vw cfg old).gbMaskOnNum = Nat.count (MaskImd.On cfg) maskEa := by
  obtain ⟨m, reduced, eq⟩ := maskIMD_eq hw vw cfg old
  rw [eq]
  exact reduced.count

/-- Four windows with the action `2`, which `MaskIMD` does not count. -/
def twoFold : BoxPar where
  frHw := 1920
  frVw := 1080
  itlMaskOsd := upOn
  itlRectFill := 0
  itlDettone := 0
  gbMnImdDetWin := 0
  gbMnImdZone := 0
  gbIMD_Update := 0
  gbMnImdCfg _ := ⟨2, 0, 0, 4, 4⟩
  gbMaskOnNum := 0
  gbMaskOnNum_le := by decide

/-- With `15` boxes detected there are `20`. -/
theorem boxIMD_twenty :
    ¬∀ (p : BoxPar) (s : BoxImd) (hw vw : Nat) (old : MaskImd),
      p.gbMaskOnNum = (maskIMD hw vw p.gbMnImdCfg old).gbMaskOnNum → s.gnBoxNumIMD ≤ imdDetEa →
        ∃ t, boxIMD p s = some t ∧ Widened p s t := by
  intro h
  have off : ∀ i, ¬MaskImd.On twoFold.gbMnImdCfg i := fun i on => absurd (show 2 = 1 from on) (by decide)
  have none_ : twoFold.gbMaskOnNum =
      (maskIMD 60 33 twoFold.gbMnImdCfg ⟨fun _ => ⟨0, 0, 0, 0⟩, 0, fun _ => 0, 0, fun _ => 0, []⟩).gbMaskOnNum := by
    rw [maskIMD_onNum]
    exact ((Nat.count_iff_forall_not).2 fun i _ => off i).symm
  obtain ⟨t, ht, widened⟩ :=
    h twoFold ⟨fun _ => 0, 0, 15, 0, 0, 0, 0⟩ 60 33 _ none_ (by decide)
  obtain ⟨-, -, num, -⟩ := boxIMD_areas_some ⟨rfl, by decide⟩ ht
  have le := widened.le
  rw [num] at le
  exact absurd le (by decide)

end En675.Isp
