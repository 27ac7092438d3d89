import En675.Lib.Components

/-! Motion labelling (`LibIMD`), from the words of the detector to the boxes.  `used` and `usedBox` are
ghosts: every index of `EQU` and every index of a box so far.  The masks and the combining of the boxes,
behind that, are left out. -/

namespace En675.Isp

open Lib

/-- `IMD_LUT_SIZE`. -/
def imdLutSize : Nat := 255

/-- The cells of a line that the loops over its four words take. -/
def imdLine (hw : Nat) (word : Nat → BitVec 32) : List Bool :=
  ((List.range 4).flatMap fun k => (List.range 32).map fun j => (word k).getMsbD j).take hw

/-- The labelling; `img` is `IMD_IMG`. -/
structure Imd where
  img : Nat → Nat
  pC : Nat
  pL : Nat
  pU : Nat
  iLabelValue : Nat
  equ : Nat → Nat
  used : List Nat

namespace Imd

def start : Imd := ⟨fun _ => 0, 0, 0, 0, 1, fun i => i, List.range imdLutSize⟩

/-- `*pC = v; pC++`. -/
def put (s : Imd) (v : Nat) : Imd := { s with img := Function.update s.img s.pC v, pC := s.pC + 1 }

def putNew (s : Imd) : Imd := { s.put s.iLabelValue with iLabelValue := s.iLabelValue + 1 }

def firstPoint (s : Imd) (iBinC : Bool) : Imd := if iBinC then s.putNew else s.put 0

def firstCell (s : Imd) (iBinC : Bool) : Imd :=
  let iBinL : Bool := 0 < s.img s.pL
  let t :=
    if iBinC = false then s.put 0
    else if iBinC ≠ iBinL then s.putNew
    else s.put (s.img s.pL)
  { t with pL := t.pL + 1 }

def firstLine : List Bool → Imd
  | [] => start
  | b :: bs => bs.foldl firstCell (start.firstPoint b)

/-- The table where both neighbours are set. -/
def merge (s : Imd) (up left : Nat) : Imd :=
  let v := s.equ up
  let w := s.equ left
  if v ≠ w then
    let maxEq := if w < v then v else w
    let minEq := if w < v then w else v
    { s with
      equ := relabel s.iLabelValue maxEq minEq s.equ
      used := s.used ++ up :: left :: List.range s.iLabelValue }
  else { s with used := s.used ++ [up, left] }

def cell (s : Imd) (iHPOS : Nat) (iBinC : Bool) : Imd :=
  let iBinL : Bool := iHPOS ≠ 0 ∧ 0 < s.img s.pL
  let iBinU : Bool := 0 < s.img s.pU
  let t :=
    if iBinC = false ∨ s.iLabelValue = imdLutSize then s.put 0
    else if iBinC ≠ iBinU ∧ iBinC ≠ iBinL then s.putNew
    else if iBinC ≠ iBinU then s.put (s.img s.pL)
    else if iBinC ≠ iBinL then s.put (s.img s.pU)
    else (s.put (s.img s.pU)).merge (s.img s.pU) (s.img s.pL)
  { t with pL := t.pL + 1, pU := t.pU + 1 }

def nextLine (s : Imd) (line : List Bool) : Imd := line.zipIdx.foldl (fun s c => s.cell c.2 c.1) s

/-- The first pass over `vw` lines. -/
def scan (hw vw : Nat) (word : Nat → Nat → BitVec 32) : Imd :=
  (List.range (vw - 1)).foldl (fun s i => s.nextLine (imdLine hw (word (i + 1)))) (firstLine (imdLine hw (word 0)))

/-- `EQU[IMD_IMG[m]]`, behind the compaction. -/
def label (s : Imd) (m : Nat) : Nat := (compact s.iLabelValue s.equ).1 (s.img m)

/-- The number of labels. -/
def k (s : Imd) : Nat := (compact s.iLabelValue s.equ).2 - 1

def compacted (s : Imd) : Imd :=
  { s with
    equ := (compact s.iLabelValue s.equ).1
    used := s.used ++ (List.range s.iLabelValue).flatMap fun x => [x, s.equ x] }

end Imd

section watch

/-- The thresholds of `CamMovTh` and `BrtChgTh`, and the error of the exposure. -/
structure ImdTh where
  giIMD_MOVING_TH : Int
  giIMD_BRIGHT_MAX_TH1 : Int
  giIMD_BRIGHT_MIN_TH1 : Int
  giIMD_BRIGHT_MAX_TH2 : Int
  giIMD_BRIGHT_MIN_TH2 : Int
  giErr1d : Int

structure ImdWatch where
  bLabelNum0 : Nat
  bLabelNum1 : Nat
  gbIMD_Update : Nat

namespace ImdWatch

variable (th : ImdTh) (fps k : Nat) (w : ImdWatch)

def moving : Prop := th.giIMD_MOVING_TH + w.bLabelNum0 ≤ k ∨ th.giIMD_MOVING_TH + w.bLabelNum1 ≤ k

instance : Decidable (w.moving th k) := inferInstanceAs (Decidable (_ ∨ _))

def bright : Prop :=
  if w.moving th k then th.giErr1d < th.giIMD_BRIGHT_MIN_TH2 ∨ th.giIMD_BRIGHT_MAX_TH2 < th.giErr1d
  else th.giErr1d < th.giIMD_BRIGHT_MIN_TH1 ∨ th.giIMD_BRIGHT_MAX_TH1 < th.giErr1d

instance : Decidable (w.bright th k) := inferInstanceAs (Decidable (ite _ _ _))

def next : ImdWatch :=
  { bLabelNum0 := k % 2 ^ 8
    bLabelNum1 := w.bLabelNum0
    gbIMD_Update := if w.moving th k ∨ w.bright th k then fps else w.gbIMD_Update - 1 }

end ImdWatch

end watch

section boxes

/-- `bRECT`, of bytes. -/
structure BRect where
  ey : Nat
  sy : Nat
  ex : Nat
  sx : Nat
  deriving DecidableEq

namespace BRect

def fresh (hw vw : Nat) : BRect := ⟨0, (vw + 1) % 2 ^ 8, 0, (hw + 1) % 2 ^ 8⟩

/-- The box takes in the cell. -/
def widen (r : BRect) (i j : Nat) : BRect :=
  { sx := if j < r.sx then j % 2 ^ 8 else r.sx
    ex := if r.ex < j + 1 then (j + 1) % 2 ^ 8 else r.ex
    sy := if i < r.sy then i % 2 ^ 8 else r.sy
    ey := if r.ey < i + 1 then (i + 1) % 2 ^ 8 else r.ey }

end BRect

structure ImdBoxes where
  bRectIMD : Nat → BRect
  used : List Nat
  usedBox : List Nat

namespace ImdBoxes

/-- A cell of the second pass, with `aIMD_DET_EA`. -/
def visit (det hw : Nat) (s : Imd) (b : ImdBoxes) (c : Nat × Nat) : ImdBoxes :=
  let m := c.1 * hw + c.2
  if s.img m = 0 then b
  else
    let nLabel := (s.label m + (2 ^ 32 - 1)) % 2 ^ 32
    let b := { b with used := b.used ++ [s.img m] }
    if det ≤ nLabel then b
    else
      { b with
        bRectIMD := Function.update b.bRectIMD nLabel ((b.bRectIMD nLabel).widen c.1 c.2)
        usedBox := b.usedBox ++ [nLabel] }

def start (hw vw det : Nat) (s : Imd) (old : Nat → BRect) : ImdBoxes :=
  ⟨fun i => if i < min s.k det then .fresh hw vw else old i, [], List.range (min s.k det)⟩

/-- The cells in the order of the loops. -/
def cells (hw vw : Nat) : List (Nat × Nat) := (List.range vw).flatMap fun i => (List.range hw).map fun j => (i, j)

end ImdBoxes

/-- The second pass. -/
def Imd.boxes (hw vw det : Nat) (s : Imd) (old : Nat → BRect) : ImdBoxes :=
  (ImdBoxes.cells hw vw).foldl (ImdBoxes.visit det hw s) (.start hw vw det s old)

end boxes

structure ImdRun where
  imd : Imd
  k : Nat
  watch : ImdWatch
  boxes : ImdBoxes

/-- A call, up to the masks. -/
def libIMD (hw vw det fps : Nat) (th : ImdTh) (word : Nat → Nat → BitVec 32) (w : ImdWatch) (old : Nat → BRect) :
    ImdRun :=
  let s := Imd.scan hw vw word
  let w := w.next th fps s.k
  if s.k = 0 ∨ w.gbIMD_Update ≠ 0 then ⟨s.compacted, s.k, w, ⟨old, [], []⟩⟩
  else ⟨s.compacted, s.k, w, s.boxes hw vw det old⟩

end En675.Isp
