import En675.Lib.Ring
import En675.Lib.Word

/-! The recorder's queue, `stream_buffering.c`, and the data of one recording. -/

namespace En675.Videnc

open Lib

/-- `eSTREAMMSG_*`; the codes start at 1. -/
inductive StreamMsg
  | unknown | h265I | h265P | h264I | h264P | jpeg | audio | txts
  deriving DecidableEq, Repr

inductive VidencState
  | idle | open_ | first | firstNext | write | close | exit
  deriving DecidableEq, Repr

inductive StreamKind
  | h264 | h265 | g711 | txts
  deriving DecidableEq, Repr

def eRecNormal : Nat := 0
def saveNorTimeMax : Nat := 30
def numStreamTotal : Nat := 150

structure SbufData where
  addr : Nat
  size : Nat
  flags : Nat
  type : StreamMsg
  deriving DecidableEq, Repr

abbrev Sbuf := RingQueue SbufData

def sbufInit (totNum : Nat) : Sbuf := ⟨0, 0, totNum, fun _ => ⟨0, 0, 0, .unknown⟩⟩

/-- The loop of a put on a full queue: the head moves to the next I frame. -/
def sbufSkip : Nat → Sbuf → Sbuf
  | 0, q => q
  | n + 1, q => if q.isEmpty then q else if q.front.flags ≠ 1 then sbufSkip n q.pop else q

def sbufPut (q : Sbuf) (d : SbufData) : Sbuf :=
  if q.isFull then (sbufSkip q.totNum q.pop).push d else q.push d

def sbufGet (q : Sbuf) : Option (SbufData × Sbuf) :=
  if q.isEmpty then none else some (q.front, q.pop)

def sbufPeek (q : Sbuf) : Option SbufData := if q.isEmpty then none else some q.front

/-- `datablock.state` is 1 while the block holds a frame to write. -/
structure TBlock where
  flags : Nat
  size : Nat
  addr : Nat
  type : StreamMsg
  state : Nat
  deriving DecidableEq, Repr

def TBlock.load (b : TBlock) (d : SbufData) : TBlock :=
  { b with addr := d.addr, size := d.size, flags := d.flags, type := d.type }

def TBlock.data (b : TBlock) : SbufData := ⟨b.addr, b.size, b.flags, b.type⟩

def TBlock.cleared : TBlock := ⟨0, 0, 0, .unknown, 0⟩

@[simp] theorem TBlock.data_load (b : TBlock) (d : SbufData) : (b.load d).data = d := rfl
@[simp] theorem TBlock.state_load (b : TBlock) (d : SbufData) : (b.load d).state = b.state := rfl
@[simp] theorem TBlock.type_load (b : TBlock) (d : SbufData) : (b.load d).type = d.type := rfl
@[simp] theorem TBlock.flags_load (b : TBlock) (d : SbufData) : (b.load d).flags = d.flags := rfl

structure TMp4 where
  un32vidicount : Nat
  un32vidscount : Nat
  un32audscount : Nat
  un32txtscount : Nat
  un32vidsmax : Nat
  deriving DecidableEq, Repr

structure TVidenc where
  type : Nat
  state : VidencState
  sbuf : Sbuf
  vidinfo : TMp4
  datablock : TBlock

/-- The first switch of `muxer_videnc_write`: the counters, and what kind of sample the
message is. -/
def TMp4.count (m : TMp4) : StreamMsg → TMp4 × Option StreamKind
  | .h264I => ({ m with un32vidicount := uadd m.un32vidicount 1,
                        un32vidscount := uadd m.un32vidscount 1 }, some .h264)
  | .h264P => ({ m with un32vidscount := uadd m.un32vidscount 1 }, some .h264)
  | .h265I => ({ m with un32vidicount := uadd m.un32vidicount 1,
                        un32vidscount := uadd m.un32vidscount 1 }, some .h265)
  | .h265P => ({ m with un32vidscount := uadd m.un32vidscount 1 }, some .h265)
  | .audio => ({ m with un32audscount := uadd m.un32audscount 1 }, some .g711)
  | .txts => ({ m with un32txtscount := uadd m.un32txtscount 1 }, some .txts)
  | .jpeg => (m, none)
  | .unknown => (m, none)

def StreamMsg.isIframe : StreamMsg → Bool
  | .h264I => true
  | .h265I => true
  | _ => false

/-- The flags with which `IsrRecorddata` queues a message, if it does. -/
def recordFlags : StreamMsg → Option Nat
  | .h264I => some 1
  | .h265I => some 1
  | .h264P => some 0
  | .h265P => some 0
  | _ => none

theorem recordFlags_isIframe (h : recordFlags ty = some fl) : fl = 1 ↔ ty.isIframe = true := by
  cases ty <;> cases h <;> decide

/-- Every message that is queued is a video sample. -/
theorem count_of_recorded (m : TMp4) (h : recordFlags ty = some fl) :
    (m.count ty).2 = some .h264 ∨ (m.count ty).2 = some .h265 := by
  cases ty <;> cases h <;> simp [TMp4.count]

theorem sbufPut_of_room {q : Sbuf} (hf : q.isFull = false) (d : SbufData) :
    sbufPut q d = q.push d := by
  simp [sbufPut, hf]

/-- A get and a peek both see the head of the queued list. -/
theorem sbuf_cases {q : Sbuf} (h : q.Wf) :
    (q.toList = [] ∧ sbufGet q = none ∧ sbufPeek q = none) ∨
      ∃ d, q.toList = d :: q.pop.toList ∧ sbufGet q = some (d, q.pop) ∧ sbufPeek q = some d := by
  cases he : q.isEmpty with
  | true => exact .inl ⟨(RingQueue.isEmpty_iff h).mp he, by simp [sbufGet, he], by simp [sbufPeek, he]⟩
  | false =>
    exact .inr ⟨q.front, RingQueue.toList_pop h he, by simp [sbufGet, he], by simp [sbufPeek, he]⟩

end En675.Videnc
