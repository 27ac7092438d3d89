import En675.Videnc.Header

/-! The boxes that the header is made of, and when what `mp4_write_header` leaves in memory is
those boxes. -/

namespace En675.Videnc

open Lib Lib.Boxes
open Rtsp (VideoCodec)

/-- The boxes that hold boxes, and how many octets of fields come first. -/
def kindOf (fcc : List UInt8) : Option Nat :=
  if fcc ∈ ["moov", "trak", "edts", "mdia", "minf", "dinf", "stbl"].map ascii then some 0
  else if fcc ∈ ["dref", "stsd"].map ascii then some 8
  else if fcc ∈ ["avc1", "hev1"].map ascii then some 78
  else none

/-- The boxes with an entry count. -/
def countOf (fcc : List UInt8) : Option Announces :=
  if fcc ∈ ["stss", "stco"].map ascii then some (.records 4 4)
  else if fcc = ascii "stts" then some (.records 4 8)
  else if fcc ∈ ["stsc", "elst"].map ascii then some (.records 4 12)
  else if fcc = ascii "stsz" then some (.records 8 4)
  else if fcc ∈ ["dref", "stsd"].map ascii then some (.boxes 4)
  else none

namespace Mp4Parameter

variable (s : Mp4Parameter)

/-- The sample entries, of which the source writes one at most. -/
def entries : List Boxes :=
  match s.eCodec with
  | .h264 => [box (ascii "avc1") s.entryData (concat [leaf (ascii "avcC") s.avccData])]
  | .h265 => [box (ascii "hev1") s.entryData (concat [leaf (ascii "hvcC") s.hvccData])]
  | .jpeg => []

def stbl : Boxes :=
  box (ascii "stbl") [] (concat [box (ascii "stsd") (words [0, 1]) (concat s.entries),
    leaf (ascii "stts") s.sttsData, leaf (ascii "stsc") stscData,
    leaf (ascii "stss") (words [0, s.stss.length] ++ words s.stss),
    leaf (ascii "stsz") (words [0, 0, s.stsz.length] ++ words s.stsz),
    leaf (ascii "stco") (words [0, s.stco.length] ++ words s.stco)])

def dinf : Boxes :=
  box (ascii "dinf") [] (concat [box (ascii "dref") (words [0, 1])
    (concat [leaf (ascii "url ") (words [1])])])

def minf : Boxes :=
  box (ascii "minf") [] (concat [leaf (ascii "vmhd") vmhdData, dinf, s.stbl])

def mdia : Boxes :=
  box (ascii "mdia") [] (concat [leaf (ascii "mdhd") s.mdhdData, leaf (ascii "hdlr") hdlrData, s.minf])

def edts : Boxes := box (ascii "edts") [] (concat [leaf (ascii "elst") s.elstData])

def trak : Boxes :=
  box (ascii "trak") [] (concat [leaf (ascii "tkhd") s.tkhdData, s.edts, s.mdia])

def ftyp : Boxes := leaf (ascii "ftyp") ftypData

/-- What `moov` holds before `free`. -/
def tracks : List Boxes := leaf (ascii "mvhd") s.mvhdData :: if s.video then [s.trak] else []

/-- The order of the boxes up to `mdat`, as the source's head comment draws it. -/
def order : Boxes :=
  concat [leaf (ascii "ftyp") [], box (ascii "moov") [] (concat (leaf (ascii "mvhd") [] ::
    (if s.video then [box (ascii "trak") [] (concat [leaf (ascii "tkhd") [],
      box (ascii "edts") [] (leaf (ascii "elst") []),
      box (ascii "mdia") [] (concat [leaf (ascii "mdhd") [], leaf (ascii "hdlr") [],
        box (ascii "minf") [] (concat [leaf (ascii "vmhd") [],
          box (ascii "dinf") [] (box (ascii "dref") [] (leaf (ascii "url ") [])),
          box (ascii "stbl") [] (concat [box (ascii "stsd") [] (concat s.entries).outline,
            leaf (ascii "stts") [], leaf (ascii "stsc") [], leaf (ascii "stss") [],
            leaf (ascii "stsz") [], leaf (ascii "stco") []])])])])] else []) ++
    [leaf (ascii "free") []]))]

def entryLen : Nat :=
  match s.eCodec with
  | .h264 => 105 + s.spsSize.toNat + s.ppsSize.toNat
  | .h265 => 132 + s.vpsSize.toNat + s.spsSize.toNat + s.ppsSize.toNat
  | .jpeg => 0

def trakLen : Nat := 413 + s.entryLen + 4 * (s.stss.length + s.stsz.length + s.stco.length)

/-- `ftyp`, `moov` with `mvhd`, the track and an empty `free`, and the head of `mdat`. -/
def used : Nat := 32 + 8 + 108 + (if s.video then s.trakLen else 0) + 8 + 8

/-- There is room for the tables; else `hdr_free` is negative. -/
def Fits : Prop := s.used ≤ hdrSize

instance : Decidable s.Fits := inferInstanceAs (Decidable (_ ≤ _))

/-- What the header must be: `mdat` begins eight octets before its payload and has its size;
what lies before it is boxes, those of `order` with every count right if they fit. -/
structure Sound (data : Nat) (m : Mem) : Prop where
  size : readBE (m.read (data + (hdrSize - 8)) 4) = 8 + s.mdatSize
  fcc : m.read (data + (hdrSize - 4)) 4 = ascii "mdat"
  fit : s.Fits → ∃ f, readAll kindOf (m.read data (hdrSize - 8)) = some f ∧ f.outline = s.order ∧
    f.Counted countOf
  unfit : ¬ s.Fits → readAll kindOf (m.read data (hdrSize - 8)) ≠ none

section lays

variable {s}

theorem lays_stsd : Lays s.enxMp4HeaderStsd
    (box (ascii "stsd") (words [0, 1]) (concat s.entries)) := by
  refine emitBox_lays (by decide) _ ?_
  rw [entries]
  cases s.eCodec with
  | h264 => exact .cons (emitBox_lays (by decide) _ (.cons (emitLeaf_lays (by decide) _) .nil)) .nil
  | h265 => exact .cons (emitBox_lays (by decide) _ (.cons (emitLeaf_lays (by decide) _) .nil)) .nil
  | jpeg => exact .nil

theorem lays_stbl : Lays s.enxMp4HeaderStbl s.stbl :=
  emitBox_lays (by decide) _ (.cons lays_stsd (.cons (emitLeaf_lays (by decide) _)
    (.cons (emitLeaf_lays (by decide) _) (.cons (emitTable_lays (by decide) _ _)
      (.cons (emitTable_lays (by decide) _ _) (.cons (emitTable_lays (by decide) _ _) .nil))))))

theorem lays_dinf : Lays enxMp4HeaderDinf dinf :=
  emitBox_lays (by decide) _ (.cons (emitBox_lays (by decide) _
    (.cons (emitLeaf_lays (by decide) _) .nil)) .nil)

theorem lays_minf : Lays s.enxMp4HeaderMinf s.minf :=
  emitBox_lays (by decide) _ (.cons (emitLeaf_lays (by decide) _) (.cons lays_dinf
    (.cons lays_stbl .nil)))

theorem lays_mdia : Lays s.enxMp4HeaderMdia s.mdia :=
  emitBox_lays (by decide) _ (.cons (emitLeaf_lays (by decide) _)
    (.cons (emitLeaf_lays (by decide) _) (.cons lays_minf .nil)))

theorem lays_edts : Lays s.enxMp4HeaderEdts s.edts :=
  emitBox_lays (by decide) _ (.cons (emitLeaf_lays (by decide) _) .nil)

theorem lays_trak : Lays s.enxMp4HeaderTrak s.trak :=
  emitBox_lays (by decide) _ (.cons (emitLeaf_lays (by decide) _)
    (.cons lays_edts (.cons lays_mdia .nil)))

theorem lays_tracks : List.Forall₂ Lays
    (s.enxMp4HeaderMvhd :: if s.video then [s.enxMp4HeaderTrak] else []) s.tracks := by
  refine .cons (emitLeaf_lays (by decide) _) ?_
  split
  · exact .cons lays_trak .nil
  · exact .nil

end lays

section lengths

@[simp] theorem length_helperOctets (vpsData : List UInt8) (n i zerocount : Nat) :
    (helperOctets vpsData n i zerocount).length = n := by
  induction n generalizing i zerocount with
  | zero => rfl
  | succ n ih => rw [helperOctets, List.length_cons, ih]

@[simp] theorem length_lengthed (size : UInt16) (data : Mem) :
    (lengthed size data).length = 2 + size.toNat := by
  simp [lengthed]

theorem length_entryData : s.entryData.length = 78 := by
  simp [entryData]

theorem length_entries : (concat s.entries).octets.length = s.entryLen := by
  rw [entries, entryLen]
  cases s.eCodec with
  | h264 =>
    simp (disch := decide) only [concat, append_nil, length_box, length_leaf, length_entryData]
    simp [avccData]
    omega
  | h265 =>
    simp (disch := decide) only [concat, append_nil, length_box, length_leaf, length_entryData]
    simp [hvccData, hvccArray]
    omega
  | jpeg => rfl

theorem length_stbl : s.stbl.octets.length =
    128 + s.entryLen + 4 * (s.stss.length + s.stsz.length + s.stco.length) := by
  rw [stbl]
  simp (disch := decide) only [concat, append_nil, octets_append, List.length_append, length_box,
    length_leaf, length_words, length_entries]
  simp [sttsData, stscData]
  omega

theorem length_minf : s.minf.octets.length = 64 + s.stbl.octets.length := by
  rw [minf, dinf]
  simp (disch := decide) only [concat, append_nil, octets_append, List.length_append, length_box,
    length_leaf, length_words]
  simp [vmhdData]
  omega

theorem length_hdlrData : hdlrData.length = 37 := by decide

theorem length_trak : s.trak.octets.length = s.trakLen := by
  rw [trak, edts, mdia]
  simp (disch := decide) only [concat, append_nil, octets_append, List.length_append, length_box,
    length_leaf, length_minf, length_stbl]
  simp [trakLen, tkhdData, elstData, mdhdData, length_hdlrData, dwMatrix]
  omega

end lengths

section formed

variable {s}

theorem formed_stbl : s.stbl.Formed kindOf := by
  refine .box (by decide) (by decide) (.concat ?_)
  simp only [List.forall_mem_cons, List.not_mem_nil, false_implies, implies_true, and_true]
  refine ⟨.box (by decide) (by decide) (.concat ?_), .leaf (by decide) (by decide),
    .leaf (by decide) (by decide), .leaf (by decide) (by decide), .leaf (by decide) (by decide),
    .leaf (by decide) (by decide)⟩
  rw [entries]
  intro f hf
  cases he : s.eCodec with
  | h264 =>
    rw [he] at hf
    obtain rfl := List.mem_singleton.mp hf
    exact .box (by decide) (by rw [length_entryData]; decide) (.leaf (by decide) (by decide))
  | h265 =>
    rw [he] at hf
    obtain rfl := List.mem_singleton.mp hf
    exact .box (by decide) (by rw [length_entryData]; decide) (.leaf (by decide) (by decide))
  | jpeg =>
    rw [he] at hf
    cases hf

theorem formed_dinf : dinf.Formed kindOf :=
  .box (by decide) (by decide) (.box (by decide) (by decide) (.leaf (by decide) (by decide)))

theorem formed_trak : s.trak.Formed kindOf := by
  refine .box (by decide) (by decide) (.concat ?_)
  simp only [List.forall_mem_cons, List.not_mem_nil, false_implies, implies_true, and_true]
  refine ⟨.leaf (by decide) (by decide), .box (by decide) (by decide) (.leaf (by decide) (by decide)),
    .box (by decide) (by decide) (.concat ?_)⟩
  simp only [List.forall_mem_cons, List.not_mem_nil, false_implies, implies_true, and_true]
  refine ⟨.leaf (by decide) (by decide), .leaf (by decide) (by decide),
    .box (by decide) (by decide) (.concat ?_)⟩
  simp only [List.forall_mem_cons, List.not_mem_nil, false_implies, implies_true, and_true]
  exact ⟨.leaf (by decide) (by decide), formed_dinf, formed_stbl⟩

theorem formed_tracks : ∀ f ∈ s.tracks, f.Formed kindOf := by
  rw [tracks]
  split
  · simpa using ⟨.leaf (by decide) (by decide), formed_trak⟩
  · simpa using .leaf (by decide) (by decide)

end formed

section counted

variable {s}

theorem count_at (ws : List Nat) (n : Nat) (xs : List UInt8) (hn : n < 2 ^ 32) :
    readBE (slice (words ws ++ be 4 n ++ xs) (4 * ws.length) 4) = n := by
  rw [slice_append _ _ _ (length_be 4 n) (length_words ws)]
  exact readBE_be_of_lt hn

theorem counted_table (ws table : List Nat) (n width : Nat) (hn : n < 2 ^ 32)
    (ht : countOf fcc = some (.records (4 * ws.length) width))
    (h : 4 * table.length = width * n) :
    (leaf fcc (words ws ++ be 4 n ++ words table)).Counted countOf := by
  rw [counted_records ht, count_at ws n _ hn, List.length_append, List.length_append, length_be, length_words,
    length_words, h]

/-- Only the count of `stsd` can be wrong: it is one for every codec. -/
theorem counted_stsd : (box (ascii "stsd") (words [0, 1]) (concat s.entries)).Counted countOf ↔
    s.eCodec ≠ .jpeg := by
  have one : readBE (slice (words [0, 1]) 4 4) = 1 := by decide
  rw [counted_boxes (by decide : countOf (ascii "stsd") = some (.boxes 4)), one, entries]
  cases s.eCodec with
  | h264 =>
    refine iff_of_true ⟨rfl, ?_⟩ (by decide)
    rw [concat, counted_append, counted_box (by decide)]
    exact ⟨counted_leaf (by decide), trivial⟩
  | h265 =>
    refine iff_of_true ⟨rfl, ?_⟩ (by decide)
    rw [concat, counted_append, counted_box (by decide)]
    exact ⟨counted_leaf (by decide), trivial⟩
  | jpeg => exact iff_of_false (fun h => by cases h.1) (fun h => h rfl)

theorem counted_stbl : s.stbl.Counted countOf ↔ s.eCodec ≠ .jpeg := by
  have lies := s.lies
  have stts : (leaf (ascii "stts") s.sttsData).Counted countOf :=
    counted_table [0] [s.un32vidscount, mDwTimescale] 1 8 (by decide) (by decide) rfl
  have stsc : (leaf (ascii "stsc") stscData).Counted countOf :=
    counted_table [0] [1, 1, 1] 1 12 (by decide) (by decide) rfl
  have stss : (leaf (ascii "stss") (words [0, s.stss.length] ++ words s.stss)).Counted countOf :=
    counted_table [0] s.stss s.stss.length 4 (by omega) (by decide) rfl
  have stsz : (leaf (ascii "stsz") (words [0, 0, s.stsz.length] ++ words s.stsz)).Counted countOf :=
    counted_table [0, 0] s.stsz s.stsz.length 4 (by omega) (by decide) rfl
  have stco : (leaf (ascii "stco") (words [0, s.stco.length] ++ words s.stco)).Counted countOf :=
    counted_table [0] s.stco s.stco.length 4 (by omega) (by decide) rfl
  rw [stbl, counted_box (by decide), counted_concat]
  simp only [List.forall_mem_cons, List.not_mem_nil, false_implies, implies_true, and_true,
    counted_stsd, stts, stsc, stss, stsz, stco]

theorem counted_trak : s.trak.Counted countOf ↔ s.eCodec ≠ .jpeg := by
  have elst : (leaf (ascii "elst") s.elstData).Counted countOf :=
    counted_table [0] [s.vDwDuration, 0, 0x00010000] 1 12 (by decide) (by decide) rfl
  have dref : dinf.Counted countOf := by
    rw [dinf, counted_box (by decide), concat, counted_append,
      counted_boxes (by decide : countOf (ascii "dref") = some (.boxes 4))]
    exact ⟨⟨by decide, counted_leaf (by decide)⟩, trivial⟩
  rw [trak, edts, mdia, minf]
  simp (disch := decide) only [counted_box, counted_leaf, counted_concat, List.forall_mem_cons,
    List.not_mem_nil, false_implies, implies_true, and_true, true_and, elst, dref, counted_stbl]

end counted

section memory

theorem length_ftyp : ftyp.octets.length = 32 := by decide

theorem length_tracks : (concat s.tracks).octets.length = 108 + if s.video then s.trakLen else 0 := by
  have mvhd : (leaf (ascii "mvhd") s.mvhdData).octets.length = 108 := by
    rw [length_leaf (by decide)]
    simp [mvhdData, dwMatrix]
  rw [tracks, concat, octets_append, List.length_append, mvhd]
  split
  · rw [concat, concat, append_nil, length_trak]
  · rfl

theorem entryLen_lt : s.entryLen < 2 ^ 18 := by
  have v := s.vpsSize.toNat_lt
  have p := s.ppsSize.toNat_lt
  have q := s.spsSize.toNat_lt
  rw [entryLen]
  cases s.eCodec <;> dsimp only <;> omega

theorem length_tracks_lt : (concat s.tracks).octets.length < 2 ^ 32 - 2 ^ 20 := by
  have entry := s.entryLen_lt
  have lies := s.lies
  rw [length_tracks, trakLen]
  split <;> omega

/-- `free` ends where the head of `mdat` begins, if it does not begin behind that. -/
def freeSize : Nat := usub (hdrSize - 48) (concat s.tracks).octets.length

/-- The octets of `moov` that are written. -/
def moovOctets : List UInt8 :=
  head (ascii "moov") [] (hdrSize - 40) ++
    ((concat s.tracks).octets ++ head (ascii "free") [] s.freeSize)

theorem enxMp4HeaderMoov_eq (data : Nat) (m : Mem) :
    s.enxMp4HeaderMoov 32 data m = (m.write data s.moovOctets, hdrSize - 40) := by
  have lt := s.length_tracks_lt
  have free : uadd 8 (usub (usub (usub hdrSize 32) (8 + (concat s.tracks).octets.length)) 16) =
      s.freeSize := by
    simp only [uadd, usub, hdrSize, freeSize]
    omega
  have size : uadd (8 + (concat s.tracks).octets.length) s.freeSize = hdrSize - 40 := by
    simp only [uadd, usub, hdrSize, freeSize]
    omega
  have front := Mem.write_front m data (head (ascii "moov") [] (hdrSize - 40))
    ((concat s.tracks).octets ++ head (ascii "free") [] s.freeSize)
  rw [length_head (by decide), List.length_nil, Nat.add_zero, Mem.write_append, Nat.add_assoc] at front
  rw [enxMp4HeaderMoov, emitAll_lays lays_tracks (by omega)]
  simp only [enxMp4HeaderFree, free, size]
  exact congrArg (·, _) front

theorem mp4WriteHeader_eq (data : Nat) (m : Mem) :
    s.mp4WriteHeader data m = (m.write data (ftyp.octets ++ s.moovOctets)).write (data + (hdrSize - 8))
      (head (ascii "mdat") [] (uadd 8 s.mdatSize)) := by
  have hf : enxMp4HeaderFtyp data m = (m.write data ftyp.octets, 32) := by
    have lays := emitLeaf_lays (show (ascii "ftyp").length = 4 by decide) ftypData (by decide) data m
    rwa [show (leaf (ascii "ftyp") ftypData).octets.length = 32 from length_ftyp] at lays
  have end_ : uadd 32 (hdrSize - 40) = hdrSize - 8 := by decide
  rw [mp4WriteHeader, hf]
  dsimp only
  rw [enxMp4HeaderMoov_eq, Mem.write_append, length_ftyp]
  simp only [enxMp4HeaderMdat, end_]

theorem used_eq : s.used = 56 + (concat s.tracks).octets.length := by
  rw [used, length_tracks]
  omega

/-- The whole header with `fs` behind the track. -/
def whole (fs : List Boxes) : Boxes := concat [ftyp, box (ascii "moov") [] (concat (s.tracks ++ fs))]

variable {s}

theorem octets_whole {fs : List Boxes}
    (h : (concat s.tracks).octets.length + (concat fs).octets.length = hdrSize - 48) :
    (s.whole fs).octets = ftyp.octets ++ (head (ascii "moov") [] (hdrSize - 40) ++
      ((concat s.tracks).octets ++ (concat fs).octets)) := by
  have inner : (concat (s.tracks ++ fs)).octets = (concat s.tracks).octets ++ (concat fs).octets := by
    rw [octets_concat, octets_concat, octets_concat, List.flatMap_append]
  have size : 8 + ([] : List UInt8).length + (concat (s.tracks ++ fs)).octets.length = hdrSize - 40 := by
    rw [inner, List.length_append, h]
    decide
  rw [whole, concat, concat, concat, append_nil, octets_append, octets_box, size, inner]

theorem formed_whole {fs : List Boxes} (h : ∀ f ∈ fs, f.Formed kindOf) :
    (s.whole fs).Formed kindOf := by
  refine .concat ?_
  simp only [List.forall_mem_cons, List.not_mem_nil, false_implies, implies_true, and_true]
  refine ⟨.leaf (by decide) (by decide), .box (by decide) (by decide) (.concat fun f hf => ?_)⟩
  rcases List.mem_append.mp hf with hf | hf
  · exact formed_tracks f hf
  · exact h f hf

theorem counted_whole {fs : List Boxes} (h : ∀ f ∈ fs, f.Counted countOf) :
    (s.whole fs).Counted countOf ↔ (s.video → s.eCodec ≠ .jpeg) := by
  have mvhd : (leaf (ascii "mvhd") s.mvhdData).Counted countOf := counted_leaf (by decide)
  have first : ftyp.Counted countOf := counted_leaf (by decide)
  rw [whole, counted_concat, List.forall_mem_cons, List.forall_mem_singleton,
    counted_box (by decide), counted_concat, List.forall_mem_append]
  simp only [first, true_and, and_iff_left h, tracks, List.forall_mem_cons, mvhd]
  cases s.video with
  | true => simpa using counted_trak
  | false => simp

/-- What stands before the head of `mdat`. -/
theorem read_front (data : Nat) (m : Mem) : (s.mp4WriteHeader data m).read data (hdrSize - 8) =
    (m.write data (ftyp.octets ++ s.moovOctets)).read data (hdrSize - 8) := by
  rw [mp4WriteHeader_eq, Mem.read_write_below _ _ _ _ _ (le_refl _)]

theorem length_front : (ftyp.octets ++ s.moovOctets).length = 48 + (concat s.tracks).octets.length := by
  rw [moovOctets, List.length_append, length_ftyp, List.length_append, length_head (by decide),
    List.length_append, length_head (by decide), List.length_nil]
  omega

theorem octets_free (pad : List UInt8) :
    (concat [leaf (ascii "free") pad]).octets = head (ascii "free") [] (8 + pad.length) ++ pad := by
  rw [concat, concat, append_nil, leaf, octets_box]
  simp only [head, octets_nil, List.append_nil, List.length_nil, Nat.add_zero]

theorem read_fits (h : s.Fits) (data : Nat) (m : Mem) : ∃ pad,
    (s.mp4WriteHeader data m).read data (hdrSize - 8) = (s.whole [leaf (ascii "free") pad]).octets ∧
      (concat s.tracks).octets.length + 8 + pad.length = hdrSize - 48 := by
  rw [Fits, used_eq] at h
  have total := length_front (s := s)
  simp only [hdrSize] at h
  have reaches : (ftyp.octets ++ s.moovOctets).length ≤ hdrSize - 8 := by
    simp only [total, hdrSize]
    omega
  rw [read_front, Mem.read_write_over _ _ _ _ reaches, total]
  generalize hp : m.read _ _ = pad
  have len : (concat s.tracks).octets.length + 8 + pad.length = hdrSize - 48 := by
    rw [← hp, Mem.length_read]
    simp only [hdrSize]
    omega
  have size : s.freeSize = 8 + pad.length := by
    simp only [freeSize, usub, hdrSize] at len ⊢
    omega
  refine ⟨pad, ?_, len⟩
  rw [octets_whole, octets_free, moovOctets, size]
  · simp only [List.append_assoc]
  · rw [octets_free, List.length_append, length_head (by decide), List.length_nil]
    omega

theorem read_exact (h : s.used = hdrSize + 8) (data : Nat) (m : Mem) :
    (s.mp4WriteHeader data m).read data (hdrSize - 8) = (s.whole []).octets := by
  rw [used_eq] at h
  have total := length_front (s := s)
  simp only [hdrSize] at h
  have inner : (concat s.tracks).octets.length = hdrSize - 48 := by
    simp only [hdrSize]
    omega
  have front : (ftyp.octets ++ s.moovOctets) = (s.whole []).octets ++ head (ascii "free") [] s.freeSize := by
    rw [octets_whole (by simpa [concat] using inner), moovOctets]
    simp only [concat, octets_nil, List.append_nil, List.append_assoc]
  have len : (s.whole []).octets.length = hdrSize - 8 := by
    have e := congrArg List.length front
    rw [total, List.length_append, length_head (by decide), List.length_nil] at e
    simp only [hdrSize]
    omega
  rw [read_front, Mem.read_write_take _ _ _ _ (by rw [front, List.length_append, len]; omega), front,
    List.take_left' len]

/-- Room for `n` octets where the track and a head want more: the track runs over it, or leaves
less than a head. -/
theorem read_trak (hn : n < s.trakLen + 8) (ne : n ≠ s.trakLen) (pos : 8 ≤ n) (size k : Nat) :
    readBoxes kindOf k ((s.trak.octets ++ head (ascii "free") [] size).take n) = none := by
  have len := s.length_trak
  have entry := s.entryLen_lt
  have lies := s.lies
  have small : s.trakLen < 2 ^ 32 := by
    rw [trakLen]
    omega
  rcases Nat.lt_or_gt_of_ne ne with lt | gt
  · obtain ⟨kids, e⟩ : ∃ kids, s.trak.octets = head (ascii "trak") kids s.trak.octets.length :=
      exists_body (by decide) _ _
    rw [len] at e
    rw [List.take_append_of_le_length (by omega), e]
    have e8 : (be 4 s.trakLen ++ ascii "trak").length = 8 := by
      rw [List.length_append, length_be]
      decide
    have cut : (head (ascii "trak") kids s.trakLen).take n =
        head (ascii "trak") (kids.take (n - 8)) s.trakLen := by
      rw [head, List.take_append, e8, List.take_of_length_le (by omega)]
      rfl
    rw [cut]
    refine readBoxes_over small ?_
    rw [length_head (by decide), List.length_take]
    omega
  · rw [List.take_append, List.take_of_length_le (by omega)]
    have short : ((head (ascii "free") [] size).take (n - s.trak.octets.length)).length =
        n - s.trakLen := by
      rw [List.length_take, length_head (by decide), List.length_nil, len]
      omega
    refine readBoxes_behind formed_trak (by omega) fun k => readBoxes_short ?_ (by omega)
    intro e
    rw [e, List.length_nil] at short
    omega

theorem read_over (unfit : ¬ s.Fits) (h : s.used ≠ hdrSize + 8) (data : Nat) (m : Mem) :
    readAll kindOf ((s.mp4WriteHeader data m).read data (hdrSize - 8)) = none := by
  have used := s.used_eq
  have total := length_front (s := s)
  rw [Fits, used] at unfit
  rw [used] at h
  simp only [hdrSize] at unfit h
  have long : hdrSize - 8 ≤ (ftyp.octets ++ s.moovOctets).length := by
    simp only [total, hdrSize]
    omega
  have video : s.video = true := by
    by_contra hv
    have len := s.length_tracks
    rw [if_neg hv] at len
    omega
  have len := s.length_tracks
  rw [if_pos video] at len
  have inner : (concat s.tracks).octets = (leaf (ascii "mvhd") s.mvhdData).octets ++ s.trak.octets := by
    rw [tracks, if_pos video, concat, concat, concat, append_nil, octets_append]
  have mvhd : (leaf (ascii "mvhd") s.mvhdData).octets.length = 108 := by
    rw [length_leaf (by decide)]
    simp [mvhdData, dwMatrix]
  have body : (ftyp.octets ++ s.moovOctets).take (hdrSize - 8) = ftyp.octets ++
      (head (ascii "moov") ((leaf (ascii "mvhd") s.mvhdData).octets ++
        (s.trak.octets ++ head (ascii "free") [] s.freeSize).take (hdrSize - 156)) (hdrSize - 40) ++ []) := by
    rw [moovOctets, List.take_append, length_ftyp, List.take_of_length_le (by decide), List.take_append,
      length_head (by decide), List.take_of_length_le (by decide), inner, List.append_assoc,
      List.take_append, mvhd, List.take_of_length_le (by rw [mvhd]; decide), List.append_nil]
    simp only [head, List.append_assoc, List.append_nil]
    rfl
  have size : 8 + ((leaf (ascii "mvhd") s.mvhdData).octets ++
      (s.trak.octets ++ head (ascii "free") [] s.freeSize).take (hdrSize - 156)).length = hdrSize - 40 := by
    rw [List.length_append, mvhd, List.length_take, List.length_append, length_trak,
      length_head (by decide), List.length_nil]
    simp only [hdrSize]
    omega
  rw [read_front, Mem.read_write_take _ _ _ _ long, body, readAll]
  refine readBoxes_behind (.leaf (by decide) (by decide)) (by decide) fun n =>
    readBoxes_inside (by decide) (by decide) size (by decide : _ = some 0) fun n =>
      readBoxes_behind (.leaf (by decide) (by decide)) (by rw [mvhd]; decide) fun n => ?_
  refine read_trak ?_ ?_ (by decide) _ n
  · simp only [hdrSize]
    omega
  · simp only [hdrSize]
    omega

theorem read_mdat (data : Nat) (m : Mem) :
    readBE ((s.mp4WriteHeader data m).read (data + (hdrSize - 8)) 4) = (8 + s.mdatSize) % 2 ^ 32 ∧
      (s.mp4WriteHeader data m).read (data + (hdrSize - 4)) 4 = ascii "mdat" := by
  have holds := Mem.read_write (m.write data (ftyp.octets ++ s.moovOctets)) (data + (hdrSize - 8))
    (head (ascii "mdat") [] (uadd 8 s.mdatSize))
  rw [← mp4WriteHeader_eq, length_head (by decide), List.length_nil, Nat.add_zero] at holds
  have halves := Mem.read_add (s.mp4WriteHeader data m) (data + (hdrSize - 8)) 4 4
  rw [holds, head, List.append_nil] at halves
  obtain ⟨size, fcc⟩ := List.append_inj halves.symm (by simp)
  constructor
  · rw [size, readBE_be, uadd]
    exact Nat.mod_mod _ _
  · rw [← fcc, Nat.add_assoc]
    rfl

end memory

/-- The header is sound if `mdat` is not too long, and if the tables fit and the track has a
sample entry, or if they leave `free` no octet at all. -/
def Good : Prop :=
  8 + s.mdatSize < 2 ^ 32 ∧
    if s.Fits then s.video → s.eCodec ≠ .jpeg else s.used = hdrSize + 8

variable {s}

theorem outline_whole (pad : List UInt8) : (s.whole [leaf (ascii "free") pad]).outline = s.order := by
  rw [whole, tracks, order]
  cases s.video <;> rfl

theorem whole_lt {fs : List Boxes}
    (h : (concat s.tracks).octets.length + (concat fs).octets.length = hdrSize - 48) :
    (s.whole fs).octets.length < 2 ^ 32 := by
  rw [octets_whole h, List.length_append, length_ftyp, List.length_append, length_head (by decide),
    List.length_append, h]
  decide

theorem mdat_iff (data : Nat) (m : Mem) :
    readBE ((s.mp4WriteHeader data m).read (data + (hdrSize - 8)) 4) = 8 + s.mdatSize ↔
      8 + s.mdatSize < 2 ^ 32 := by
  rw [(s.read_mdat data m).1]
  omega

theorem sound_fit (h : s.Fits) (data : Nat) (m : Mem) : Sound s data (s.mp4WriteHeader data m) ↔
    8 + s.mdatSize < 2 ^ 32 ∧ (s.video → s.eCodec ≠ .jpeg) := by
  obtain ⟨pad, read, len⟩ := read_fits h data m
  have room : (concat s.tracks).octets.length + (concat [leaf (ascii "free") pad]).octets.length =
      hdrSize - 48 := by
    rw [octets_free, List.length_append, length_head (by decide), List.length_nil]
    omega
  have formed : (s.whole [leaf (ascii "free") pad]).Formed kindOf :=
    formed_whole (List.forall_mem_singleton.mpr (.leaf (by decide) (by decide)))
  have free : (leaf (ascii "free") pad).Counted countOf := counted_leaf (by decide)
  have boxes := readAll_octets formed (whole_lt room)
  rw [← read] at boxes
  rw [← mdat_iff data m, ← counted_whole (List.forall_mem_singleton.mpr free)]
  constructor
  · rintro ⟨mdat, -, fit, -⟩
    obtain ⟨f, hf, -, counted⟩ := fit h
    rw [boxes] at hf
    exact ⟨mdat, Option.some.inj hf ▸ counted⟩
  · rintro ⟨mdat, counted⟩
    exact ⟨mdat, (s.read_mdat data m).2, fun _ => ⟨_, boxes, outline_whole pad, counted⟩,
      fun hn => absurd h hn⟩

theorem sound_unfit (h : ¬ s.Fits) (data : Nat) (m : Mem) : Sound s data (s.mp4WriteHeader data m) ↔
    8 + s.mdatSize < 2 ^ 32 ∧ s.used = hdrSize + 8 := by
  rw [← mdat_iff data m]
  constructor
  · rintro ⟨mdat, -, -, unfit⟩
    refine ⟨mdat, ?_⟩
    by_contra ne
    exact unfit h (read_over h ne data m)
  · rintro ⟨mdat, full⟩
    have room : (concat s.tracks).octets.length + (concat []).octets.length = hdrSize - 48 := by
      have used := s.used_eq
      simp only [concat, octets_nil, List.length_nil, hdrSize] at full ⊢
      omega
    have formed : (s.whole []).Formed kindOf := formed_whole (fun f hf => absurd hf List.not_mem_nil)
    refine ⟨mdat, (s.read_mdat data m).2, fun hf => absurd hf h, fun _ => ?_⟩
    rw [read_exact full, readAll_octets formed (whole_lt room)]
    exact Option.some_ne_none _

end Mp4Parameter

open Mp4Parameter

theorem header_sound_iff (s : Mp4Parameter) (data : Nat) (m : Mem) :
    s.Sound data (s.mp4WriteHeader data m) ↔ s.Good := by
  rw [Good]
  split
  · exact sound_fit ‹_› data m
  · exact sound_unfit ‹_› data m

/-- A recording of two frames, closed when the channel is set to JPEG. -/
def jpegHeader : Mp4Parameter where
  time := 0
  option := 1
  iWidth := 1920
  iHeight := 1080
  fFps := 30
  un32vidscount := 2
  vpsSize := 0
  spsSize := 0
  ppsSize := 0
  vpsData := fun _ => 0
  spsData := fun _ => 0
  ppsData := fun _ => 0
  mdatSize := 30
  eCodec := .jpeg
  stss := [1]
  stsz := [20, 10]
  stco := [65536, 65556]
  lies := by decide

/-- Ten minutes of H.264. -/
def longHeader : Mp4Parameter :=
  { jpegHeader with
    un32vidscount := 18000
    eCodec := .h264
    stss := List.replicate 600 1
    stsz := List.replicate 18000 10
    stco := List.replicate 18000 65536
    lies := by simp only [List.length_replicate]; decide }

theorem header_unsound :
    (jpegHeader.Fits ∧ ¬ jpegHeader.Sound 0 (jpegHeader.mp4WriteHeader 0 (fun _ => 0))) ∧
      ¬ longHeader.Fits ∧ ¬ longHeader.Sound 0 (longHeader.mp4WriteHeader 0 (fun _ => 0)) := by
  have fits : jpegHeader.Fits := by decide
  have used : longHeader.used = 147082 := by
    simp only [used, trakLen, longHeader, List.length_replicate]
    decide
  have unfit : ¬ longHeader.Fits := by
    rw [Mp4Parameter.Fits, used]
    decide
  refine ⟨⟨fits, fun h => ?_⟩, unfit, fun h => ?_⟩
  · exact ((sound_fit fits 0 _).mp h).2 (by decide) rfl
  · have full := ((sound_unfit unfit 0 _).mp h).2
    rw [used] at full
    exact absurd full (by decide)

end En675.Videnc
