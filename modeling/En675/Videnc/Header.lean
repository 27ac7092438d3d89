import En675.Lib.Boxes
import En675.Lib.CString
import En675.Lib.Word
import En675.Videnc.Codec

/-! The header of an MP4 file, as `mp4_write_header` lays it into `hdr_info`.  Every emitter
stores the boxes inside its own box first, at addresses it works out from the sizes they
return, and its own struct last.  `vidswapSB32` followed by a little-endian store leaves
big-endian octets, and `FCC` leaves its letters in order. -/

namespace En675.Videnc

open Lib Lib.Boxes
open Rtsp (VideoCodec)

/-- `mp4para` with what it points to.  The data arrays are what lies in memory from them on,
and the tables the words before `vidswapSB32`; these lie in the memory of the camera. -/
structure Mp4Parameter where
  time : Nat
  option : Nat
  iWidth : Nat
  iHeight : Nat
  fFps : Nat
  un32vidscount : Nat
  vpsSize : UInt16
  spsSize : UInt16
  ppsSize : UInt16
  vpsData : Mem
  spsData : Mem
  ppsData : Mem
  mdatSize : Nat
  eCodec : VideoCodec
  stss : List Nat
  stsz : List Nat
  stco : List Nat
  lies : 4 * (stss.length + stsz.length + stco.length) < 2 ^ 31

def hdrSize : Nat := 64 * 1024

/-- Words in a row. -/
def words (ws : List Nat) : List UInt8 := ws.flatMap (be 4)

@[simp] theorem length_words (ws : List Nat) : (words ws).length = 4 * ws.length := by
  induction ws with
  | nil => rfl
  | cons w ws ih =>
    rw [words, List.flatMap_cons, List.length_append, length_be, List.length_cons]
    rw [words] at ih
    omega

/-- An emitter writes at `data` and returns the size. -/
abbrev Emitter := Nat → Mem → Mem × Nat

/-- Emitters one behind the other, from `data + size` on. -/
def emitAll : List Emitter → Nat → Emitter
  | [], size, _, m => (m, size)
  | e :: es, size, data, m =>
    let r := e (data + size) m
    emitAll es (uadd size r.2) data r.1

def emitLeaf (fcc : String) (fields : List UInt8) : Emitter := fun data m =>
  (m.write data (head (ascii fcc) fields (8 + fields.length)), 8 + fields.length)

def emitBox (fcc : String) (fields : List UInt8) (kids : List Emitter) : Emitter := fun data m =>
  let r := emitAll kids (8 + fields.length) data m
  (r.1.write data (head (ascii fcc) fields r.2), r.2)

/-- A box with a table, which is copied only if it has entries. -/
def emitTable (fcc : String) (fields : List UInt8) (table : List Nat) : Emitter := fun data m =>
  let size := 8 + fields.length
  let r := if table.length ≠ 0 then
      (m.write (data + size) (words table), uadd size (table.length * 4 % 2 ^ 32))
    else (m, size)
  (r.1.write data (head (ascii fcc) fields r.2), r.2)

namespace Mp4Parameter

variable (s : Mp4Parameter)

def dwCreationtime : Nat := s.time + 0x7C25B080

def mDwTimescale : Nat := 1000

/-- The processor divides by zero without a trap. -/
def vDwDuration : Nat :=
  if s.fFps = 0 then 2 ^ 32 - 1 else mDwTimescale * s.un32vidscount % 2 ^ 32 / s.fFps

def dwMatrix : List Nat := [0x00010000, 0, 0, 0, 0x00010000, 0, 0, 0, 0x40000000]

def ftypData : List UInt8 :=
  ascii "isom" ++ be 4 0x200 ++ ascii "isom" ++ ascii "iso2" ++ ascii "avc1" ++ ascii "mp41"

def enxMp4HeaderFtyp : Emitter := emitLeaf "ftyp" ftypData

def mvhdData : List UInt8 :=
  words [0, s.dwCreationtime, s.dwCreationtime, mDwTimescale, s.vDwDuration, 0x00010000] ++
    be 2 0x0100 ++ be 2 0 ++ words [0, 0] ++ words dwMatrix ++ words [0, 0, 0, 0, 0, 0] ++ words [2]

def enxMp4HeaderMvhd : Emitter := emitLeaf "mvhd" s.mvhdData

def tkhdData : List UInt8 :=
  words [0x0F, s.dwCreationtime, s.dwCreationtime, 1, 0, s.vDwDuration, 0, 0] ++
    be 2 0 ++ be 2 0 ++ be 2 0 ++ be 2 0 ++ words dwMatrix ++
    words [s.iWidth * 2 ^ 16, s.iHeight * 2 ^ 16]

def enxMp4HeaderTkhd : Emitter := emitLeaf "tkhd" s.tkhdData

def elstData : List UInt8 := words [0, 1, s.vDwDuration, 0, 0x00010000]

def enxMp4HeaderElst : Emitter := emitLeaf "elst" s.elstData

def enxMp4HeaderEdts : Emitter := emitBox "edts" [] [s.enxMp4HeaderElst]

/-- The language is `kor`, five bits a letter. -/
def mdhdData : List UInt8 :=
  words [0, s.dwCreationtime, s.dwCreationtime, mDwTimescale * s.fFps, mDwTimescale * s.un32vidscount] ++
    be 2 ((0x6B &&& 0x1F) <<< 10 ||| (0x6F &&& 0x1F) <<< 5 ||| (0x72 &&& 0x1F)) ++ be 2 0

def enxMp4HeaderMdhd : Emitter := emitLeaf "mdhd" s.mdhdData

def hdlrData : List UInt8 :=
  words [0, 0] ++ ascii "vide" ++ words [0, 0, 0] ++ ascii "Vide" ++ ascii "oHan" ++ ascii "dler" ++ [0]

def enxMp4HeaderHdlr : Emitter := emitLeaf "hdlr" hdlrData

def vmhdData : List UInt8 := words [1] ++ be 2 0 ++ be 2 0 ++ be 2 0 ++ be 2 0

def enxMp4HeaderVmhd : Emitter := emitLeaf "vmhd" vmhdData

def enxMp4HeaderUrl : Emitter := emitLeaf "url " (words [1])

def enxMp4HeaderDref : Emitter := emitBox "dref" (words [0, 1]) [enxMp4HeaderUrl]

def enxMp4HeaderDinf : Emitter := emitBox "dinf" [] [enxMp4HeaderDref]

/-- A parameter set behind its length. -/
def lengthed (size : UInt16) (data : Mem) : List UInt8 := be 2 size.toNat ++ data.read 0 size.toNat

def avccData : List UInt8 :=
  [0x01, s.spsData 1, s.spsData 2, s.spsData 3, 0xFF] ++
    (0xE1 :: lengthed s.spsSize s.spsData) ++ (0x01 :: lengthed s.ppsSize s.ppsData)

def enxMp4HeaderAvcc : Emitter := emitLeaf "avcC" s.avccData

/-- `MP4_AVC1_BOX` and `MP4_HVC1_BOX` have the same fields. -/
def entryData : List UInt8 :=
  [0, 0, 0, 0, 0, 0] ++ be 2 1 ++ words [0, 0, 0, 0] ++ be 2 s.iWidth ++ be 2 s.iHeight ++
    words [0x00480000, 0x00480000, 0] ++ be 2 1 ++ words [0, 0, 0, 0, 0, 0, 0, 0] ++
    be 2 24 ++ be 2 0xFFFF

def enxMp4HeaderAvc1 : Emitter := emitBox "avc1" s.entryData [s.enxMp4HeaderAvcc]

/-- An array of one NAL unit. -/
def hvccArray (unitType : UInt8) (size : UInt16) (data : Mem) : List UInt8 :=
  unitType :: 0x00 :: 0x01 :: lengthed size data

/-- The octets of the VPS are read with `helper_3byte_zero_nalunit`, which stays inside
`vps_data`. -/
def hvccData : List UInt8 :=
  0x01 :: helperOctets (s.vpsData.read 0 32) 11 6 0 ++ 0 :: be 2 0xF000 ++
    (0xFC :: (0xFC ||| 0x1) :: 0xF8 :: 0xF8 :: be 2 0) ++
    (UInt8.ofNat (0x1 <<< 3 ||| 0x1 <<< 2 ||| 0x3) :: 3 :: hvccArray 0x20 s.vpsSize s.vpsData) ++
    hvccArray 0x21 s.spsSize s.spsData ++ hvccArray 0x22 s.ppsSize s.ppsData

def enxMp4HeaderHvcc : Emitter := emitLeaf "hvcC" s.hvccData

def enxMp4HeaderHvc1 : Emitter := emitBox "hev1" s.entryData [s.enxMp4HeaderHvcc]

/-- For a third codec only an error is printed. -/
def enxMp4HeaderStsd : Emitter :=
  emitBox "stsd" (words [0, 1])
    (match s.eCodec with
      | .h264 => [s.enxMp4HeaderAvc1]
      | .h265 => [s.enxMp4HeaderHvc1]
      | .jpeg => [])

def sttsData : List UInt8 := words [0, 1, s.un32vidscount, mDwTimescale]

def enxMp4HeaderStts : Emitter := emitLeaf "stts" s.sttsData

def stscData : List UInt8 := words [0, 1, 1, 1, 1]

def enxMp4HeaderStsc : Emitter := emitLeaf "stsc" stscData

def enxMp4HeaderStss : Emitter := emitTable "stss" (words [0, s.stss.length]) s.stss

def enxMp4HeaderStsz : Emitter := emitTable "stsz" (words [0, 0, s.stsz.length]) s.stsz

def enxMp4HeaderStco : Emitter := emitTable "stco" (words [0, s.stco.length]) s.stco

def enxMp4HeaderStbl : Emitter :=
  emitBox "stbl" [] [s.enxMp4HeaderStsd, s.enxMp4HeaderStts, enxMp4HeaderStsc, s.enxMp4HeaderStss,
    s.enxMp4HeaderStsz, s.enxMp4HeaderStco]

def enxMp4HeaderMinf : Emitter :=
  emitBox "minf" [] [enxMp4HeaderVmhd, enxMp4HeaderDinf, s.enxMp4HeaderStbl]

def enxMp4HeaderMdia : Emitter :=
  emitBox "mdia" [] [s.enxMp4HeaderMdhd, enxMp4HeaderHdlr, s.enxMp4HeaderMinf]

def enxMp4HeaderTrak : Emitter :=
  emitBox "trak" [] [s.enxMp4HeaderTkhd, s.enxMp4HeaderEdts, s.enxMp4HeaderMdia]

/-- Only the head of the box is written. -/
def enxMp4HeaderFree (freeSize : Nat) : Emitter := fun data m =>
  let size := uadd 8 freeSize
  (m.write data (head (ascii "free") [] size), size)

/-- `VID_VIDEO`. -/
def video : Bool := s.option % 2 = 1

/-- For a negative `hdr_free` an overflow is printed; the box is written all the same. -/
def enxMp4HeaderMoov (hdrLen : Nat) : Emitter := fun data m =>
  let r := emitAll (s.enxMp4HeaderMvhd :: if s.video then [s.enxMp4HeaderTrak] else []) 8 data m
  let hdrFree := usub (usub (usub hdrSize hdrLen) r.2) 16
  let f := enxMp4HeaderFree hdrFree (data + r.2) r.1
  let size := uadd r.2 f.2
  (f.1.write data (head (ascii "moov") [] size), size)

def enxMp4HeaderMdat : Emitter := fun data m =>
  let size := uadd 8 s.mdatSize
  (m.write data (head (ascii "mdat") [] size), size)

/-- The memory with the header at `data`. -/
def mp4WriteHeader (data : Nat) (m : Mem) : Mem :=
  let ftyp := enxMp4HeaderFtyp data m
  let moov := s.enxMp4HeaderMoov ftyp.2 (data + ftyp.2) ftyp.1
  (s.enxMp4HeaderMdat (data + uadd ftyp.2 moov.2) moov.1).1

end Mp4Parameter

/-- The emitter lays the boxes down. -/
def Lays (e : Emitter) (f : Boxes) : Prop :=
  f.octets.length < 2 ^ 32 → ∀ data m, e data m = (m.write data f.octets, f.octets.length)

section lays

variable {fcc : String} (h4 : (ascii fcc).length = 4)

theorem emitAll_lays {es : List Emitter} {fs : List Boxes} (h : List.Forall₂ Lays es fs) {size : Nat}
    (lt : size + (concat fs).octets.length < 2 ^ 32) (data : Nat) (m : Mem) :
    emitAll es size data m =
      (m.write (data + size) (concat fs).octets, size + (concat fs).octets.length) := by
  induction h generalizing size m with
  | nil => rfl
  | cons lays _ ih =>
    rw [concat, octets_append, List.length_append] at lt
    rw [emitAll, lays (by omega), concat, octets_append, Mem.write_append, List.length_append]
    dsimp only
    rw [uadd_of_lt (by omega), ih (by omega), Nat.add_assoc, Nat.add_assoc]

include h4 in
theorem emitLeaf_lays (fields : List UInt8) : Lays (emitLeaf fcc fields) (leaf (ascii fcc) fields) := by
  intro _ data m
  rw [emitLeaf, leaf, octets_box, octets_nil, List.append_nil, length_head h4]
  rfl

include h4 in
theorem emitBox_lays (fields : List UInt8) {es : List Emitter} {fs : List Boxes}
    (h : List.Forall₂ Lays es fs) :
    Lays (emitBox fcc fields es) (box (ascii fcc) fields (concat fs)) := by
  intro lt data m
  rw [octets_box, List.length_append, length_head h4] at lt ⊢
  rw [emitBox, emitAll_lays h lt]
  have front := Mem.write_front m data
    (head (ascii fcc) fields (8 + fields.length + (concat fs).octets.length)) (concat fs).octets
  rw [length_head h4] at front
  exact congrArg (·, _) front

include h4 in
theorem emitTable_lays (fields : List UInt8) (table : List Nat) :
    Lays (emitTable fcc fields table) (leaf (ascii fcc) (fields ++ words table)) := by
  intro lt data m
  have e : (leaf (ascii fcc) (fields ++ words table)).octets =
      head (ascii fcc) fields (8 + fields.length + 4 * table.length) ++ words table := by
    rw [leaf, octets_box, octets_nil, List.append_nil, List.length_append, length_words]
    simp only [head, List.append_assoc, List.length_nil, Nat.add_zero, Nat.add_assoc]
  rw [e, List.length_append, length_head h4, length_words] at lt ⊢
  rw [emitTable]
  cases table with
  | nil => simp [words]
  | cons w ws =>
    have front := Mem.write_front m data
      (head (ascii fcc) fields (8 + fields.length + 4 * (w :: ws).length)) (words (w :: ws))
    rw [length_head h4] at front
    rw [if_pos (by simp), Nat.mod_eq_of_lt (by omega), uadd_of_lt (by omega), Nat.mul_comm _ 4]
    exact congrArg (·, _) front

end lays

end En675.Videnc
