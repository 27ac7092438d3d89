import En675.Lib.Bytes
import En675.Lib.Word

/-! The write buffer between a recording and its file.  A `Sink` is what
`muxer_videnc_bufferadd` works on: the file, the buffered octets and the count of octets
added. -/

namespace En675.Videnc

open Lib

def vidBufSize : Nat := 512 * 1024

/-- An open FatFs file; `objsize` is what `f_size` names. -/
structure Fil where
  content : List UInt8
  fptr : Nat
  objsize : Nat
  deriving DecidableEq, Repr

def fWrite (f : Fil) (bs : List UInt8) : Fil :=
  { content := f.content.take f.fptr ++ bs ++ f.content.drop (f.fptr + bs.length)
    fptr := f.fptr + bs.length
    objsize := max f.objsize (f.fptr + bs.length) }

def fLseek (f : Fil) (ofs : Nat) : Fil := { f with fptr := ofs }

structure Sink where
  fpvid : Fil
  buf : List UInt8
  total : Nat
  filesize : Nat
  deriving DecidableEq, Repr

/-- What a pointer reads. -/
abbrev Ptr := Nat → UInt8

def Ptr.read (p : Ptr) (n : Nat) : List UInt8 := Mem.read p 0 n

namespace Sink

def muxerVidencBufferflush (k : Sink) : Sink := { k with fpvid := fWrite k.fpvid k.buf, buf := [] }

/-- A round of the loop of `muxer_videnc_bufferadd`: octets copied in, and a flush of the
buffer they fill. -/
def addRound (k : Sink) (bs : List UInt8) : Sink :=
  let k := { k with buf := k.buf ++ bs, filesize := uadd k.filesize bs.length }
  if k.buf.length = k.total then k.muxerVidencBufferflush else k

/-- Every round but a failing one copies an octet, so `size` rounds of fuel are enough. -/
def addLoop : Nat → Sink → Ptr → Nat → Option Sink
  | 0, k, _, size => if size = 0 then some k else none
  | fuel + 1, k, data, size =>
    if size = 0 then some k
    else
      let left := k.total - k.buf.length
      let wb := if size ≥ left then left else size
      addLoop fuel (k.addRound (data.read wb)) (fun i => data (wb + i)) (size - wb)

/-- `size` is an `int32`; a `NULL` source flushes instead. -/
def muxerVidencBufferadd (k : Sink) (data : Option Ptr) (size : Int) : Option Sink :=
  match data with
  | none => some k.muxerVidencBufferflush
  | some data => k.addLoop size.toNat data size.toNat

/-- All octets added since the file was opened. -/
def written (k : Sink) : List UInt8 := k.fpvid.content ++ k.buf

/-- Appending: the file ends where the next flush goes, and there is room. -/
structure Appends (k : Sink) : Prop where
  atEnd : k.fpvid.fptr = k.fpvid.content.length
  room : k.buf.length < k.total

theorem flush_appends {k : Sink} (h : k.fpvid.fptr = k.fpvid.content.length) :
    k.muxerVidencBufferflush.written = k.written ∧
      k.muxerVidencBufferflush.fpvid.content = k.written ∧
      k.muxerVidencBufferflush.fpvid.fptr = k.written.length := by
  simp [muxerVidencBufferflush, written, fWrite, h]

/-- One add appends its octets, wherever the buffer boundaries fall. -/
structure Added (k : Sink) (bs : List UInt8) (k' : Sink) : Prop where
  appends : k'.Appends
  written : k'.written = k.written ++ bs
  filesize : k'.filesize = (k.filesize + bs.length) % 2 ^ 32
  total : k'.total = k.total

theorem Added.trans (h : Added k bs k') (g : Added k' cs k'') : Added k (bs ++ cs) k'' where
  appends := g.appends
  written := by rw [g.written, h.written, List.append_assoc]
  filesize := by
    rw [g.filesize, h.filesize, List.length_append, Nat.mod_add_mod, Nat.add_assoc]
  total := g.total.trans h.total

theorem Added.lt (h : Added k bs k') : k'.filesize < 2 ^ 32 := by
  rw [h.filesize]
  exact Nat.mod_lt _ (by decide)

theorem addRound_added {k : Sink} (h : k.Appends) (hb : k.buf.length + bs.length ≤ k.total) :
    Added k bs (k.addRound bs) := by
  simp only [addRound]
  split
  · rename_i full
    have flush := flush_appends
      (k := ⟨k.fpvid, k.buf ++ bs, k.total, uadd k.filesize bs.length⟩) h.atEnd
    have pos := h.room
    refine ⟨⟨?_, ?_⟩, ?_, rfl, rfl⟩
    · rw [flush.2.2, flush.2.1]
    · change 0 < k.total
      omega
    · rw [flush.1]
      simp [written]
  · rename_i part
    simp only [List.length_append] at part
    refine ⟨⟨h.atEnd, ?_⟩, ?_, rfl, rfl⟩
    · simp only [List.length_append]
      omega
    · simp [written]

@[simp] theorem length_read (p : Ptr) (n : Nat) : (p.read n).length = n := by
  simp [Ptr.read]

theorem read_split (p : Ptr) (n m : Nat) :
    p.read (n + m) = p.read n ++ Ptr.read (fun i => p (n + i)) m := by
  unfold Ptr.read
  rw [Mem.read_add]
  congr 1
  apply List.ext_getElem (by simp)
  intro i _ _
  rw [Mem.getElem_read, Mem.getElem_read]
  congr 1
  omega

theorem addLoop_added {k : Sink} (h : k.Appends) (hf : size ≤ fuel) (hs : k.filesize < 2 ^ 32)
    (data : Ptr) : ∃ k', addLoop fuel k data size = some k' ∧ Added k (data.read size) k' := by
  have nothing : Added k (data.read 0) k :=
    ⟨h, by simp [Ptr.read], by simpa [Ptr.read] using (Nat.mod_eq_of_lt hs).symm, rfl⟩
  induction fuel generalizing k data size with
  | zero =>
    obtain rfl := Nat.le_zero.mp hf
    exact ⟨k, rfl, nothing⟩
  | succ fuel ih =>
    rw [addLoop]
    split
    · rename_i hz
      exact ⟨k, rfl, hz ▸ nothing⟩
    · rename_i hz
      have room := h.room
      have wb_le : ∃ wb, (if size ≥ k.total - k.buf.length then k.total - k.buf.length else size) = wb ∧
          0 < wb ∧ wb ≤ size ∧ k.buf.length + wb ≤ k.total := by
        refine ⟨_, rfl, ?_⟩
        split <;> omega
      obtain ⟨wb, hwb, pos, le, fits⟩ := wb_le
      simp only [hwb]
      have round := addRound_added h
        (show k.buf.length + (data.read wb).length ≤ k.total by simpa using fits)
      obtain ⟨k', hk', added⟩ := ih round.appends (show size - wb ≤ fuel by omega) round.lt
        (fun i => data (wb + i)) ⟨round.appends, by simp [Ptr.read],
          by simpa [Ptr.read] using (Nat.mod_eq_of_lt round.lt).symm, rfl⟩
      refine ⟨k', hk', ?_⟩
      rw [show size = wb + (size - wb) by omega, read_split]
      exact round.trans added

theorem bufferadd_added {k : Sink} (h : k.Appends) (hs : k.filesize < 2 ^ 32) (p : Ptr) (n : Nat) :
    ∃ k', k.muxerVidencBufferadd (some p) n = some k' ∧ Added k (p.read n) k' :=
  addLoop_added h (by simp) hs p

/-- An add that leaves room in the buffer reaches no flush. -/
theorem bufferadd_room {k : Sink} (h : k.buf.length + n < k.total) (p : Ptr) :
    k.muxerVidencBufferadd (some p) n =
      some { k with buf := k.buf ++ p.read n, filesize := if n = 0 then k.filesize else uadd k.filesize n } := by
  cases n with
  | zero => simp [muxerVidencBufferadd, addLoop, Ptr.read]
  | succ n =>
    change addLoop (n + 1) k p (n + 1) = _
    rw [addLoop, if_neg (Nat.succ_ne_zero n)]
    simp only [if_neg (show ¬ n + 1 ≥ k.total - k.buf.length by omega), Nat.sub_self]
    simp only [addRound, List.length_append, length_read, if_neg (show ¬ k.buf.length + (n + 1) = k.total by omega)]
    cases n <;> rfl

end Sink

end En675.Videnc
