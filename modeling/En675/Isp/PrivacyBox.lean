import En675.Isp.AutoGamma
import En675.Isp.BoxImd
import En675.Lib.Lanes

/-! The privacy boxes (`PrivacyBox`): a packed list of the zones that have an action. -/

namespace En675.Isp

open Lib

/-- `PVC_EA`. -/
def pvcEa : Nat := 16

/-- `UpBOX_MV_PXL`. -/
def upBoxMvPxl : Nat := 0x20

/-- `UpBOX_COLOR_STEP`. -/
def upBoxColorStep : Nat := 0x14

/-- The fields of a zone are bytes. -/
structure Privacy.IsBytes (c : Privacy) : Prop where
  posX : c.bPosX < 2 ^ 8
  posY : c.bPosY < 2 ^ 8
  sizX : c.bSizX < 2 ^ 8
  sizY : c.bSizY < 2 ^ 8

/-- What `PrivacyBox` reads: the frame, none of which is wider than `3840`, the parameters and the zones. -/
structure PvcPar where
  frHw : Nat
  frVw : Nat
  frHw_le : frHw ≤ 3840
  pvcOn : UInt8
  pvcFormat : UInt8
  pvcTrans : UInt8
  pvcYLevel : UInt8
  pvcCBLevel : UInt8
  pvcCRLevel : UInt8
  gbMnPvcCfg : Nat → {c : Privacy // c.IsBytes}

/-- What it sets. -/
structure BoxPvc where
  gnBoxPosPVC : Nat → Nat
  gnBoxPltPVC : Nat
  gnBoxTonePVC : Nat × Nat
  gnBoxFillPVC : Nat
  gnBoxOnPVC : Nat
  gnBoxFmtPVC : Nat
  gnBBoxPltPVC : Nat
  gnBoxNumPVC : Nat

namespace PvcPar

variable (q : PvcPar)

def nPixelStep : Nat := clampNat upBoxMvPxl (q.frHw / 255 + 1) q.frVw

def nColorStep : Nat := clampNat upBoxColorStep 0x01 0xff

def nPRVC_CY : Nat := q.pvcYLevel.toNat * 255 / nColorStep

def nPRVC_CB : Nat := q.pvcCBLevel.toNat * 255 / nColorStep

def nPRVC_CR : Nat := q.pvcCRLevel.toNat * 255 / nColorStep

/-- The `y` word of a zone. -/
def yPos (c : Privacy) : Nat :=
  let iPosY := c.bPosY * q.nPixelStep
  let iSizY := c.bSizY * q.nPixelStep
  max (iPosY + iSizY) 0 ||| max iPosY 0 <<< 16

/-- The `x` word. -/
def xPos (c : Privacy) : Nat :=
  let iPosX := c.bPosX * q.nPixelStep
  let iSizX := c.bSizX * q.nPixelStep
  iPosX + iSizX ||| iPosX <<< 16

end PvcPar

namespace BoxPvc

/-- The two words of the next box, where there is one in the array. -/
def storePos (s : BoxPvc) (y x : Nat) : Option BoxPvc :=
  let a := s.gnBoxNumPVC <<< 1
  if a + 1 < pvcEa * 2 then
    some { s with gnBoxPosPVC := Function.update (Function.update s.gnBoxPosPVC a y) (a + 1) x }
  else none

def orTone (s : BoxPvc) (pvcTrans : Nat) : Option BoxPvc :=
  if s.gnBoxNumPVC < 16 then do
    let tone ← shl pvcTrans (s.gnBoxNumPVC <<< 1)
    some { s with gnBoxTonePVC := (s.gnBoxTonePVC.1 ||| tone, s.gnBoxTonePVC.2) }
  else do
    let tone ← shl pvcTrans ((s.gnBoxNumPVC - 16) <<< 1)
    some { s with gnBoxTonePVC := (s.gnBoxTonePVC.1, s.gnBoxTonePVC.2 ||| tone) }

/-- One zone. -/
def pvcRound (q : PvcPar) (s : BoxPvc) (i : Nat) : Option BoxPvc :=
  let c := (q.gbMnPvcCfg i).1
  if c.bAction = 0 then some s
  else do
    let s ← s.storePos (q.yPos c) (q.xPos c)
    let s ← s.orTone q.pvcTrans.toNat
    let on ← shl 1 s.gnBoxNumPVC
    some { s with
      gnBoxFillPVC := s.gnBoxFillPVC ||| on
      gnBoxOnPVC := s.gnBoxOnPVC ||| on
      gnBoxFmtPVC := if q.pvcFormat = 1 then s.gnBoxFmtPVC ||| on else s.gnBoxFmtPVC
      gnBoxNumPVC := s.gnBoxNumPVC + 1 }

end BoxPvc

open BoxPvc

/-- `PrivacyBox`. -/
def privacyBox (q : PvcPar) (s : BoxPvc) : Option BoxPvc :=
  let s := { s with
    gnBoxOnPVC := 0, gnBoxFmtPVC := 0, gnBoxNumPVC := 0, gnBoxTonePVC := (0, 0), gnBoxFillPVC := 0 }
  if q.pvcOn.toNat = upOn then
    (List.range pvcEa).foldlM (pvcRound q) { s with
      gnBBoxPltPVC := q.nPRVC_CB <<< 16 ||| q.nPRVC_CR <<< 8 ||| q.nPRVC_CY
      gnBoxPltPVC := q.nPRVC_CY <<< 16 ||| q.nPRVC_CB <<< 8 ||| q.nPRVC_CR }
  else some s

namespace PvcPar

variable (q : PvcPar)

/-- The zones that have a box, in order. -/
def zones : List Privacy :=
  if q.pvcOn.toNat = upOn then ((List.range pvcEa).map fun i => (q.gbMnPvcCfg i).1).filter fun c => c.bAction ≠ 0
  else []

theorem zones_length_le : q.zones.length ≤ pvcEa := by
  unfold zones
  split
  · exact (List.length_filter_le ..).trans (by rw [List.length_map, List.length_range])
  · exact Nat.zero_le _

theorem zones_bytes {c : Privacy} (h : c ∈ q.zones) : c.IsBytes := by
  unfold zones at h
  split at h
  · obtain ⟨i, -, rfl⟩ := List.mem_map.1 (List.mem_of_mem_filter h)
    exact (q.gbMnPvcCfg i).2
  · cases h

theorem nPixelStep_le : q.nPixelStep ≤ 2 ^ 5 := by
  have le := q.frHw_le
  unfold nPixelStep clampNat upBoxMvPxl
  split
  · omega
  · split <;> omega

/-- A coordinate fits in half a word, together with a size. -/
theorem scaled_lt {pos siz : Nat} (hp : pos < 2 ^ 8) (hs : siz < 2 ^ 8) :
    pos * q.nPixelStep + siz * q.nPixelStep < 2 ^ 16 := by
  have step := Nat.mul_le_mul_left (pos + siz) q.nPixelStep_le
  rw [Nat.add_mul] at step
  omega

theorem yPos_halves {c : Privacy} (h : c.IsBytes) :
    Halves 16 (q.yPos c) (c.bPosY * q.nPixelStep) (c.bPosY * q.nPixelStep + c.bSizY * q.nPixelStep) := by
  unfold yPos
  simp only [Nat.max_zero]
  exact halves_or (q.scaled_lt h.posY h.sizY)

theorem xPos_halves {c : Privacy} (h : c.IsBytes) :
    Halves 16 (q.xPos c) (c.bPosX * q.nPixelStep) (c.bPosX * q.nPixelStep + c.bSizX * q.nPixelStep) :=
  halves_or (q.scaled_lt h.posX h.sizX)

/-- A level is a byte of colour up to `20`. -/
theorem level_lt (v : Nat) : v * 255 / nColorStep < 2 ^ 8 ↔ v ≤ 20 := by
  have step : nColorStep = 20 := rfl
  rw [step]
  omega

end PvcPar

namespace BoxPvc

section list

variable {q : PvcPar} {s t : BoxPvc} {cs : List Privacy} {c : Privacy}

/-- A list of the boxes of `cs`. -/
structure Holds (q : PvcPar) (cs : List Privacy) (s : BoxPvc) : Prop where
  num : s.gnBoxNumPVC = cs.length
  on : s.gnBoxOnPVC = spread 32 1 1 cs.length
  fill : s.gnBoxFillPVC = spread 32 1 1 cs.length
  fmt : s.gnBoxFmtPVC = if q.pvcFormat = 1 then spread 32 1 1 cs.length else 0
  tone : s.gnBoxTonePVC = (spread 32 2 q.pvcTrans.toNat cs.length, 0)
  pos : ∀ k (h : k < cs.length),
    s.gnBoxPosPVC (2 * k) = q.yPos cs[k] ∧ s.gnBoxPosPVC (2 * k + 1) = q.xPos cs[k]

/-- The colours, which no zone changes. -/
def SamePlt (s t : BoxPvc) : Prop := t.gnBBoxPltPVC = s.gnBBoxPltPVC ∧ t.gnBoxPltPVC = s.gnBoxPltPVC

theorem Holds.nil (hs : s.gnBoxNumPVC = 0) (on : s.gnBoxOnPVC = 0) (fill : s.gnBoxFillPVC = 0)
    (fmt : s.gnBoxFmtPVC = 0) (tone : s.gnBoxTonePVC = (0, 0)) : Holds q [] s where
  num := hs
  on := on
  fill := fill
  fmt := fmt.trans (ite_self 0).symm
  tone := tone
  pos k h := absurd h (Nat.not_lt_zero k)

/-- One more zone, where there is room. -/
theorem Holds.add (h : Holds q cs s) (lt : cs.length < pvcEa) {i : Nat} (acts : (q.gbMnPvcCfg i).1.bAction ≠ 0) :
    ∃ t, pvcRound q s i = some t ∧ Holds q (cs ++ [(q.gbMnPvcCfg i).1]) t ∧ SamePlt s t := by
  have room : cs.length < 16 := lt
  have double : s.gnBoxNumPVC <<< 1 = 2 * cs.length := by
    rw [h.num, Nat.shiftLeft_eq]
    omega
  obtain ⟨c, hc⟩ : ∃ c, c = (q.gbMnPvcCfg i).1 := ⟨_, rfl⟩
  have shift : ∀ {v n : Nat}, n < 32 → shl v n = some (wshl 32 v n) := fun hn => shl_eq hn
  unfold pvcRound
  rw [← hc] at acts ⊢
  dsimp only
  rw [if_neg acts]
  simp only [Option.bind_eq_bind]
  unfold storePos
  dsimp only
  rw [double, if_pos (by unfold pvcEa; omega), Option.bind_some]
  unfold orTone
  dsimp only
  rw [if_pos (h.num ▸ room), double, shift (by omega), Option.bind_eq_bind, Option.bind_some, Option.bind_some]
  dsimp only
  rw [h.num, shift (by omega), Option.bind_some]
  refine ⟨_, rfl, ?_, rfl, rfl⟩
  have len : (cs ++ [c]).length = cs.length + 1 := List.length_append
  refine ⟨len.symm, ?_, ?_, ?_, ?_, ?_⟩
  · rw [len, spread_one_succ, ← h.on]
  · rw [len, spread_one_succ, ← h.fill]
  · dsimp only
    rw [len, h.fmt]
    split
    · rw [spread_one_succ]
    · rfl
  · rw [len, h.tone]
    rfl
  · intro k hk
    dsimp only
    rcases Nat.lt_or_ge k cs.length with below | above
    · rw [Function.update_of_ne (by omega), Function.update_of_ne (by omega), Function.update_of_ne (by omega),
        Function.update_of_ne (by omega), List.getElem_append_left below]
      exact h.pos k below
    · obtain rfl : k = cs.length := by omega
      rw [Function.update_of_ne (by omega), Function.update_self, Function.update_self, List.getElem_append_right (by omega)]
      simp

theorem Holds.rounds (is : List Nat) (h : Holds q cs s) (le : cs.length + is.length ≤ pvcEa) :
    ∃ t, is.foldlM (pvcRound q) s = some t ∧
      Holds q (cs ++ (is.map fun i => (q.gbMnPvcCfg i).1).filter fun c => c.bAction ≠ 0) t ∧ SamePlt s t := by
  induction is generalizing s cs with
  | nil => exact ⟨s, rfl, by simpa using h, rfl, rfl⟩
  | cons i is ih =>
    rw [List.length_cons] at le
    rw [List.foldlM_cons, List.map_cons]
    by_cases acts : (q.gbMnPvcCfg i).1.bAction = 0
    · have skip : pvcRound q s i = some s := if_pos acts
      rw [skip, List.filter_cons_of_neg (by simp [acts])]
      exact ih h (by omega)
    · obtain ⟨u, hu, holds, bb, plt⟩ := h.add (by omega) acts
      have len : (cs ++ [(q.gbMnPvcCfg i).1]).length = cs.length + 1 := List.length_append
      obtain ⟨t, ht, holds', bb', plt'⟩ := ih holds (by omega)
      rw [hu, List.filter_cons_of_pos (by simp [acts])]
      refine ⟨t, ht, ?_, bb'.trans bb, plt'.trans plt⟩
      rw [List.append_assoc] at holds'
      exact holds'

end list

end BoxPvc

/-- The list holds the zones, and the colours are set where it is on. -/
theorem privacyBox_holds (q : PvcPar) (s : BoxPvc) :
    ∃ t, privacyBox q s = some t ∧ Holds q q.zones t ∧
      (q.pvcOn.toNat = upOn →
        t.gnBBoxPltPVC = q.nPRVC_CB <<< 16 ||| q.nPRVC_CR <<< 8 ||| q.nPRVC_CY ∧
          t.gnBoxPltPVC = q.nPRVC_CY <<< 16 ||| q.nPRVC_CB <<< 8 ||| q.nPRVC_CR) := by
  unfold privacyBox PvcPar.zones
  by_cases on : q.pvcOn.toNat = upOn
  · rw [if_pos on, if_pos on]
    obtain ⟨t, ht, holds, same⟩ := (Holds.nil rfl rfl rfl rfl rfl).rounds (q := q)
      (s := { s with
        gnBoxOnPVC := 0, gnBoxFmtPVC := 0, gnBoxNumPVC := 0, gnBoxTonePVC := (0, 0), gnBoxFillPVC := 0
        gnBBoxPltPVC := q.nPRVC_CB <<< 16 ||| q.nPRVC_CR <<< 8 ||| q.nPRVC_CY
        gnBoxPltPVC := q.nPRVC_CY <<< 16 ||| q.nPRVC_CB <<< 8 ||| q.nPRVC_CR })
      (List.range pvcEa) (by rw [List.length_range]; decide)
    exact ⟨t, ht, holds, fun _ => same⟩
  · rw [if_neg on, if_neg on]
    exact ⟨_, rfl, .nil rfl rfl rfl rfl rfl, fun on' => absurd on' on⟩

end En675.Isp
