import En675.Rtsp.RtpReceiver
import En675.Rtsp.TxRun

/-! JPEG over RTP: `rtspd_client_rtp_jpeg_main` against RFC 2435.  Two counters run along:
`rtp_pk.offset` in the file and `rtp_pk.data_offset` for the fragment offset. -/

namespace En675.Rtsp

open Lib

def jpgNumHeaderSize : Nat := 613
def jpgNumOffsetYQUNT : Nat := 0x19
def jpgNumOffsetCQUNT : Nat := 0x5a
def jpgNumQUNTSize : Nat := 64
def jpgNumYCQUNTSize : Nat := jpgNumQUNTSize * 2
def jpgNumOffsetSOFO : Nat := 0x23e

/-- `jpgHeader`, 8 octets; the swap of the 24-bit field leaves it big-endian. -/
def jpgHeader (dataOffset width height : Nat) : List UInt8 :=
  0 :: (be 3 dataOffset ++ [0, 128, UInt8.ofNat (width / 8), UInt8.ofNat (height / 8)])

def jpgQTHeader : List UInt8 := [0, 0] ++ be 2 jpgNumYCQUNTSize

/-- Octets of scan data the first packet has room for, and a later one. -/
def jpegFirstRoom (tr : RtspTransport) : Nat := tcpMss - (headLen tr + 8 + 4 + jpgNumYCQUNTSize)
def jpegRoom (tr : RtspTransport) : Nat := tcpMss - (headLen tr + 8)

/-- Tables and data of the packet sent at `rtp_pk.offset == 0`. -/
def jpegFirst (mem : Mem) (tr : RtspTransport) (pk : RtpPacket) : List UInt8 × RtpPacket :=
  let base := uadd pk.base pk.offset
  let remaining := min (usub (usub pk.size pk.offset) jpgNumHeaderSize) (jpegFirstRoom tr)
  (jpgQTHeader ++ mem.read (base + jpgNumOffsetYQUNT) jpgNumQUNTSize ++
      mem.read (base + jpgNumOffsetCQUNT) jpgNumQUNTSize ++
      mem.read (base + jpgNumHeaderSize) remaining,
    { pk with offset := jpgNumHeaderSize + remaining
              dataOffset := uadd pk.dataOffset (remaining + jpgNumYCQUNTSize) })

def jpegNext (mem : Mem) (tr : RtspTransport) (pk : RtpPacket) : List UInt8 × RtpPacket :=
  let remaining := min (usub pk.size pk.offset) (jpegRoom tr)
  (mem.read (uadd pk.base pk.offset) remaining,
    { pk with offset := uadd pk.offset remaining
              dataOffset := uadd pk.dataOffset remaining })

def jpegDoing (mem : Mem) (tr : RtspTransport) (channel : Nat) (ss : RtpSession) : RtpSession :=
  let pk := ss.rtpPk
  let r := if pk.offset == 0 then jpegFirst mem tr pk else jpegNext mem tr pk
  rtpEmit tr channel ss r.2 fun _ => jpgHeader pk.dataOffset pk.width pk.height ++ r.1

def jpegTake (ss : RtpSession) (pd : RtpQueueData) : RtpSession :=
  { ss with
    rtpPk := { ss.rtpPk with base := pd.addr, size := pd.size, offset := 0 }
    startRtptime := uadd ss.startRtptime pd.ts }

/-- The size check at the SOF0 marker. -/
def jpegSofo (mem : Mem) (ss : RtpSession) : Option RtpSession :=
  let p := fun i => mem (uadd ss.rtpPk.base jpgNumOffsetSOFO + i)
  if p 0 == 0xFF && p 1 == 0xC0 then
    some { ss with
      rtpPk := { ss.rtpPk with
        width := (p 7).toNat * 256 + (p 8).toNat
        height := (p 5).toNat * 256 + (p 6).toNat
        dataOffset := 0 }
      txReady := .doing }
  else none

def rtspdClientRtpJpegMain (mem : Mem) (rc : RtspClient) : Option (Int × RtspClient) :=
  if rc.eTransport = .udp ∨ rc.eTransport = .tcp then
    rc.rtpSs.map fun s =>
      let channel := rc.connInfo.rtpPort 0
      match s.video.txReady with
      | .ready =>
        match rtpQueueGet rc.rtpQueueVideo with
        | none => (rtpLeft s.video, rc)
        | some (pd, q) =>
          let v := jpegTake s.video pd
          match jpegSofo mem v with
          | none => (rtpLeft v, rc.withVideo s q v)
          | some v =>
            let v := jpegDoing mem rc.eTransport channel v
            (rtpLeft v, rc.withVideo s q v)
      | .doing =>
        let v := jpegDoing mem rc.eTransport channel s.video
        (rtpLeft v, rc.withVideo s rc.rtpQueueVideo v)
      | .ended =>
        let v := { s.video with txReady := .ready }
        (rtpLeft v, rc.withVideo s rc.rtpQueueVideo v)
      | .unset => (rtpLeft s.video, rc)
  else some (-1, rc)

section receiver

structure JpegFrag where
  marker : Bool
  offset : Nat
  data : List UInt8
  deriving DecidableEq

/-- RFC 2435: main header, and for Q of 128 and more the tables of the first packet. -/
def readJpeg (w : RtpView) : Option JpegFrag :=
  match w.payload with
  | _ :: o2 :: o1 :: o0 :: _ :: q :: _ :: _ :: rest =>
    let offset := readBE [o2, o1, o0]
    if 128 ≤ q.toNat ∧ offset = 0 then
      match rest with
      | _ :: _ :: hi :: lo :: more => some ⟨w.marker, offset, more.drop (readBE [hi, lo])⟩
      | _ => none
    else some ⟨w.marker, offset, rest⟩
  | _ => none

def place (fs : List JpegFrag) : Mem := fs.foldl (fun m f => m.write f.offset f.data) fun _ => 0

/-- The fragments tell where they belong, and put there they are the scan of `frame`. -/
structure JpegDelivers (view : List UInt8 → Option RtpView) (frame : List UInt8)
    (ps : List (List UInt8)) : Prop where
  frags : ∃ fs, ps.mapM (fun p => (view p).bind readJpeg) = some fs ∧
    (∀ i (h : i < fs.length), fs[i].offset = ((fs.take i).map (·.data.length)).sum) ∧
    (place fs).read 0 (frame.length - jpgNumHeaderSize) = frame.drop jpgNumHeaderSize ∧
    fs.map (·.marker) = List.replicate (fs.length - 1) false ++ [true]

end receiver

section proofs

variable {mem : Mem} {tr : RtspTransport} (channel : Nat) {v : RtpSession} {frame scan : List UInt8}

theorem jpegRoom_pos (htr : tr = .udp ∨ tr = .tcp) :
    0 < jpegFirstRoom tr ∧ jpegFirstRoom tr + 200 < 2 ^ 12 ∧ 0 < jpegRoom tr ∧
      jpegRoom tr < 2 ^ 12 := by
  rcases htr with rfl | rfl <;>
    simp [jpegFirstRoom, jpegRoom, tcpMss, headLen, jpgNumYCQUNTSize, jpgNumQUNTSize]

/-- Reading a later packet back: no tables, since its offset field is not 0. -/
theorem readJpeg_next (h : 0 < d) (hd : d < 2 ^ 24) (hw : w.payload = jpgHeader d x y ++ data) :
    readJpeg w = some ⟨w.marker, d, data⟩ := by
  have hbe : readBE (be 3 d) = d := readBE_be_of_lt hd
  simp only [be, List.nil_append, List.cons_append] at hbe
  simp only [readJpeg, hw, jpgHeader, be, List.nil_append, List.cons_append, hbe]
  rw [if_neg (by omega)]

/-- Reading the first packet back: the tables are skipped. -/
theorem readJpeg_first (htab : tables.length = jpgNumYCQUNTSize)
    (hw : w.payload = jpgHeader 0 x y ++ (jpgQTHeader ++ tables ++ data)) :
    readJpeg w = some ⟨w.marker, 0, data⟩ := by
  have hdrop : (tables ++ data).drop 128 = data := List.drop_left' (by rw [htab]; rfl)
  simp only [readJpeg, hw, jpgHeader, jpgQTHeader, be, List.nil_append, List.cons_append]
  rw [if_pos (by decide), Option.some.injEq, JpegFrag.mk.injEq]
  exact ⟨rfl, by decide, hdrop⟩

/-- Fragment offsets that run on from `d`. -/
def Offsets : Nat → List JpegFrag → Prop
  | _, [] => True
  | d, f :: fs => f.offset = d ∧ Offsets (d + f.data.length) fs

theorem jpegDoing_next (hp : Pending mem v.rtpPk rest) (ho : v.rtpPk.offset ≠ 0)
    (hne : rest ≠ []) (hroom : 0 < jpegRoom tr) :
    ∃ pk, jpegDoing mem tr channel v = rtpEmit tr channel v pk (fun _ =>
        jpgHeader v.rtpPk.dataOffset v.rtpPk.width v.rtpPk.height ++ rest.take (jpegRoom tr)) ∧
      Pending mem pk (rest.drop (jpegRoom tr)) ∧ pk.offset ≠ 0 ∧
      pk.dataOffset = uadd v.rtpPk.dataOffset (rest.take (jpegRoom tr)).length := by
  have hpos : 0 < rest.length := List.length_pos_of_ne_nil hne
  have hsplit : Pending mem v.rtpPk (rest.take (jpegRoom tr) ++ rest.drop (jpegRoom tr)) := by
    rwa [List.take_append_drop]
  have hmin : min rest.length (jpegRoom tr) = (rest.take (jpegRoom tr)).length := by
    rw [List.length_take, Nat.min_comm]
  have htake : rest.take (jpegRoom tr) ≠ [] :=
    List.ne_nil_of_length_pos (by rw [List.length_take]; omega)
  refine ⟨(jpegNext mem tr v.rtpPk).2, ?_, ?_, ?_, ?_⟩
  · simp only [jpegDoing, beq_iff_eq, ho, if_false, jpegNext, hp.left, hmin, hsplit.read htake]
  · exact hsplit.move rfl rfl (by simp only [jpegNext, hp.left, hmin]; exact hsplit.advance)
  · simp only [jpegNext, hp.left, hmin, hsplit.advance]
    omega
  · simp only [jpegNext, hp.left, hmin]

theorem read_next (hp : Pending mem v.rtpPk rest) (ho : v.rtpPk.offset ≠ 0) (hne : rest ≠ [])
    (hd : 0 < v.rtpPk.dataOffset) (hbound : v.rtpPk.dataOffset < 2 ^ 24)
    (htr : tr = .udp ∨ tr = .tcp) (hts : v.startRtptime < 2 ^ 32) :
    (viewPacket tr channel (sent (jpegDoing mem tr channel v))).bind readJpeg =
      some ⟨(rest.drop (jpegRoom tr)).isEmpty, v.rtpPk.dataOffset, rest.take (jpegRoom tr)⟩ := by
  obtain ⟨_, _, hroom, hroom'⟩ := jpegRoom_pos htr
  obtain ⟨pk, heq, hp', _⟩ := jpegDoing_next channel hp ho hne hroom
  rw [heq, sent_rtpEmit hp', view_rtpPacket htr hts, Option.bind_some]
  · exact readJpeg_next hd hbound rfl
  · have := List.length_take_le (jpegRoom tr) rest
    simp only [jpgHeader, List.length_cons, List.length_append, length_be, List.length_nil]
    omega

/-- The later packets: by induction on the octets left, the data goes out in order and the
offsets run on from wherever `data_offset` stands. -/
theorem jpeg_run_next (htr : tr = .udp ∨ tr = .tcp) (n : Nat) :
    ∀ {v : RtpSession} {rest : List UInt8}, rest.length ≤ n → Pending mem v.rtpPk rest →
      v.rtpPk.offset ≠ 0 → rest ≠ [] → 0 < v.rtpPk.dataOffset →
      v.rtpPk.dataOffset + rest.length < 2 ^ 24 → v.startRtptime < 2 ^ 32 →
      ∃ ps v' fs, TxRun (jpegDoing mem tr channel) v ps v' ∧
        ps.mapM (fun p => (viewPacket tr channel p).bind readJpeg) = some fs ∧ fs ≠ [] ∧
        Offsets v.rtpPk.dataOffset fs ∧ fs.flatMap (·.data) = rest ∧
        fs.map (·.marker) = List.replicate (fs.length - 1) false ++ [true] := by
  obtain ⟨_, _, hroom, hroom'⟩ := jpegRoom_pos htr
  induction n with
  | zero =>
    intro v rest hn _ _ hne
    exact absurd (List.length_eq_zero_iff.1 (by omega)) hne
  | succ n ih =>
    intro v rest hn hp ho hne hd hbound hts
    have hpos : 0 < rest.length := List.length_pos_of_ne_nil hne
    obtain ⟨pk, heq, hp', ho', hd'⟩ := jpegDoing_next channel hp ho hne hroom
    have hread := read_next channel hp ho hne hd (by omega) htr hts
    have htl' : (rest.take (jpegRoom tr)).length ≤ rest.length := by
      rw [List.length_take]
      omega
    have hready : (jpegDoing mem tr channel v).txReady =
        if (rest.drop (jpegRoom tr)).isEmpty then .ready else .doing := by
      rw [heq, txReady_rtpEmit hp']
    by_cases hlast : rest.drop (jpegRoom tr) = []
    · have hall : rest.take (jpegRoom tr) = rest :=
        List.take_of_length_le (List.drop_eq_nil_iff.1 hlast)
      refine ⟨_, _, [⟨true, v.rtpPk.dataOffset, rest⟩], .last (by rw [hready, hlast]; rfl),
        ?_, by simp, ⟨rfl, trivial⟩, by simp, by simp⟩
      simp [hread, hlast, hall]
    · have hnot : (rest.drop (jpegRoom tr)).isEmpty = false := by simpa using hlast
      have hd'' : pk.dataOffset = v.rtpPk.dataOffset + (rest.take (jpegRoom tr)).length := by
        rw [hd', uadd_of_lt (by omega)]
      have hpk : (jpegDoing mem tr channel v).rtpPk = pk := by rw [heq, rtpPk_rtpEmit]
      have htime : (jpegDoing mem tr channel v).startRtptime = v.startRtptime := by
        rw [heq, startRtptime_rtpEmit]
      have hsum : (rest.take (jpegRoom tr)).length + (rest.drop (jpegRoom tr)).length =
          rest.length := by
        rw [← List.length_append, List.take_append_drop]
      obtain ⟨ps, v', fs, hrun, hfs, hfne, hoff, hflat, hmk⟩ := ih
        (v := jpegDoing mem tr channel v)
        (by rw [List.length_drop]; omega) (hpk ▸ hp') (hpk ▸ ho') hlast
        (by rw [hpk]; omega) (by rw [hpk]; omega) (htime ▸ hts)
      refine ⟨_, v', ⟨false, v.rtpPk.dataOffset, rest.take (jpegRoom tr)⟩ :: fs,
        .more (by rw [hready, hnot]; rfl) hrun, ?_, by simp, ⟨rfl, ?_⟩, ?_, ?_⟩
      · simp [hread, hnot, hfs]
      · rwa [hpk, hd''] at hoff
      · rw [List.flatMap_cons, hflat, List.take_append_drop]
      · have hlen : 0 < fs.length := List.length_pos_of_ne_nil hfne
        rw [List.map_cons, hmk, List.length_cons, Nat.add_sub_cancel, ← List.cons_append,
          ← List.replicate_succ, Nat.sub_add_cancel hlen]

/-- The two quantization tables of the first packet. -/
def jpegTables (mem : Mem) (base : Nat) : List UInt8 :=
  mem.read (base + jpgNumOffsetYQUNT) jpgNumQUNTSize ++
    mem.read (base + jpgNumOffsetCQUNT) jpgNumQUNTSize

/-- The counters after the first packet carried `n` octets of scan data. -/
def jpegAfter (pk : RtpPacket) (n : Nat) : RtpPacket :=
  { pk with offset := jpgNumHeaderSize + n, dataOffset := n + jpgNumYCQUNTSize }

theorem jpegFirst_eq (hp : Pending mem v.rtpPk (head ++ scan)) (hd : v.rtpPk.dataOffset = 0)
    (hhead : head.length = jpgNumHeaderSize) (hne : scan ≠ [])
    (hroom : jpegFirstRoom tr + 200 < 2 ^ 12) :
    jpegFirst mem tr v.rtpPk =
      (jpgQTHeader ++ jpegTables mem (v.rtpPk.base + v.rtpPk.offset) ++
          scan.take (jpegFirstRoom tr),
        jpegAfter v.rtpPk (scan.take (jpegFirstRoom tr)).length) := by
  have hw := hp.word
  have hl := hp.len
  have hlen : (head ++ scan).length = jpgNumHeaderSize + scan.length := by
    rw [List.length_append, hhead]
  have hleft : usub (head ++ scan).length jpgNumHeaderSize = scan.length := by
    rw [usub_of_le (by omega) (by omega)]
    omega
  have hmin : min scan.length (jpegFirstRoom tr) = (scan.take (jpegFirstRoom tr)).length := by
    rw [List.length_take, Nat.min_comm]
  have hscan : mem.Holds (v.rtpPk.base + v.rtpPk.offset + jpgNumHeaderSize) scan := by
    rw [← hhead]
    exact (Mem.Holds.append.1 hp.holds).2
  have hread : mem.read (v.rtpPk.base + v.rtpPk.offset + jpgNumHeaderSize)
      (scan.take (jpegFirstRoom tr)).length = scan.take (jpegFirstRoom tr) := by
    rw [hscan.read_take (List.length_take_le' _ _), List.length_take, ← List.take_eq_take_min]
  have hadd : uadd v.rtpPk.dataOffset ((scan.take (jpegFirstRoom tr)).length + jpgNumYCQUNTSize) =
      (scan.take (jpegFirstRoom tr)).length + jpgNumYCQUNTSize := by
    rw [hd, uadd_of_lt, Nat.zero_add]
    have := List.length_take_le (jpegFirstRoom tr) scan
    rw [show jpgNumYCQUNTSize = 128 by rfl]
    omega
  rw [jpegFirst, hp.left, hleft, hmin, hp.addr (by simp [hne]), hadd, hread, jpegTables, jpegAfter,
    List.append_assoc jpgQTHeader]

theorem jpegDoing_first (hp : Pending mem v.rtpPk (head ++ scan)) (ho : v.rtpPk.offset = 0)
    (hd : v.rtpPk.dataOffset = 0) (hhead : head.length = jpgNumHeaderSize) (hne : scan ≠ [])
    (hroom : jpegFirstRoom tr + 200 < 2 ^ 12) :
    ∃ pk tables, jpegDoing mem tr channel v = rtpEmit tr channel v pk (fun _ =>
        jpgHeader 0 v.rtpPk.width v.rtpPk.height ++
          (jpgQTHeader ++ tables ++ scan.take (jpegFirstRoom tr))) ∧
      tables.length = jpgNumYCQUNTSize ∧ Pending mem pk (scan.drop (jpegFirstRoom tr)) ∧
      pk.offset ≠ 0 ∧
      pk.dataOffset = (scan.take (jpegFirstRoom tr)).length + jpgNumYCQUNTSize := by
  have hsplit : Pending mem v.rtpPk ((head ++ scan.take (jpegFirstRoom tr)) ++
      scan.drop (jpegFirstRoom tr)) := by
    rwa [List.append_assoc, List.take_append_drop]
  have heq := jpegFirst_eq hp hd hhead hne hroom
  refine ⟨_, jpegTables mem (v.rtpPk.base + v.rtpPk.offset),
    (by rw [jpegDoing, if_pos (by rw [ho]; rfl), heq, hd] :
      jpegDoing mem tr channel v = rtpEmit tr channel v
        (jpegAfter v.rtpPk (scan.take (jpegFirstRoom tr)).length) _), ?_, ?_, ?_, rfl⟩
  · simp only [jpegTables, List.length_append, Mem.length_read]
    rfl
  · refine hsplit.move ?_ ?_ ?_
    · rw [jpegAfter]
    · rw [jpegAfter]
    · rw [ho, Nat.zero_add, List.length_append, hhead, jpegAfter]
  · exact Nat.ne_of_gt (Nat.lt_of_lt_of_le (by decide) (Nat.le_add_right jpgNumHeaderSize _))

theorem read_first (hp : Pending mem v.rtpPk (head ++ scan)) (ho : v.rtpPk.offset = 0)
    (hd : v.rtpPk.dataOffset = 0) (hhead : head.length = jpgNumHeaderSize) (hne : scan ≠ [])
    (htr : tr = .udp ∨ tr = .tcp) (hts : v.startRtptime < 2 ^ 32) :
    (viewPacket tr channel (sent (jpegDoing mem tr channel v))).bind readJpeg =
      some ⟨(scan.drop (jpegFirstRoom tr)).isEmpty, 0, scan.take (jpegFirstRoom tr)⟩ := by
  obtain ⟨_, hroom, _⟩ := jpegRoom_pos htr
  obtain ⟨pk, tables, heq, htab, hp', _⟩ :=
    jpegDoing_first channel hp ho hd hhead hne hroom
  rw [heq, sent_rtpEmit hp', view_rtpPacket htr hts, Option.bind_some]
  · generalize hw : (RtpView.mk _ _ _ _ _ _) = w
    have hpay : w.payload = jpgHeader 0 v.rtpPk.width v.rtpPk.height ++
        (jpgQTHeader ++ tables ++ scan.take (jpegFirstRoom tr)) := by rw [← hw]
    rw [readJpeg_first htab hpay, ← hw]
  · have := List.length_take_le (jpegFirstRoom tr) scan
    simp only [jpgHeader, jpgQTHeader, List.length_cons, List.length_append, length_be, htab,
      List.length_nil]
    rw [show jpgNumYCQUNTSize = 128 by rfl]
    omega

theorem jpeg_performs (mem : Mem) : Performs (rtspdClientRtpJpegMain mem) (jpegDoing mem) := by
  intro rc s htr hss hst
  simp [rtspdClientRtpJpegMain, htr, hss, hst]

/-- The call that takes the frame from the queue. -/
theorem jpeg_open {rc : RtspClient} (hq : Queued mem rc s pd q frame)
    (hsize : jpgNumHeaderSize < frame.length) (h0 : frame[jpgNumOffsetSOFO]? = some 0xFF)
    (h1 : frame[jpgNumOffsetSOFO + 1]? = some 0xC0) :
    ∃ r v, rtspdClientRtpJpegMain mem rc = some (r, rc.withVideo s q
        (jpegDoing mem rc.eTransport (rc.connInfo.rtpPort 0) v)) ∧
      Pending mem v.rtpPk frame ∧ v.rtpPk.offset = 0 ∧ v.rtpPk.dataOffset = 0 ∧
      v.startRtptime < 2 ^ 32 ∧ v.bufIdx = s.video.bufIdx := by
  have hbig : jpgNumOffsetSOFO + 1 < jpgNumHeaderSize := by decide
  have hw := hq.word
  have ht := hq.top
  have hlen := hq.size
  have haddr : uadd pd.addr jpgNumOffsetSOFO = pd.addr + jpgNumOffsetSOFO := uadd_of_lt (by omega)
  have hff : mem (pd.addr + jpgNumOffsetSOFO + 0) = 0xFF := by
    rw [Nat.add_zero, hq.holds.get (by omega), ← Option.some.injEq, ← List.getElem?_eq_getElem, h0]
  have hc0 : mem (pd.addr + jpgNumOffsetSOFO + 1) = 0xC0 := by
    rw [Nat.add_assoc, hq.holds.get (by omega), ← Option.some.injEq, ← List.getElem?_eq_getElem, h1]
  obtain ⟨v, hv⟩ : ∃ v, jpegSofo mem (jpegTake s.video pd) = some v := by
    simp only [jpegSofo, jpegTake, haddr, hff, hc0, beq_self_eq_true, Bool.and_self, if_true]
    exact ⟨_, rfl⟩
  have hv' := hv
  simp only [jpegSofo, jpegTake, haddr, hff, hc0, beq_self_eq_true, Bool.and_self, if_true,
    Option.some.injEq] at hv'
  refine ⟨rtpLeft (jpegDoing mem rc.eTransport (rc.connInfo.rtpPort 0) v), v, ?_, ?_, ?_, ?_, ?_, ?_⟩
  · simp only [rtspdClientRtpJpegMain, hq.transport, if_true, hq.session, Option.map_some, hq.ready,
      hq.head, hv]
  · exact hq.pending (by rw [← hv']) (by rw [← hv']) (by rw [← hv'])
  · rw [← hv']
  · rw [← hv']
  · rw [← hv']
    exact Nat.mod_lt _ (by decide)
  · rw [← hv']

/-- What the code sends for a frame of any size below 2^24: the whole scan in order, the
marker on the last packet, and every offset after the first 128 octets too far. -/
theorem jpeg_sent (hp : Pending mem v.rtpPk (head ++ scan)) (ho : v.rtpPk.offset = 0)
    (hd : v.rtpPk.dataOffset = 0) (hhead : head.length = jpgNumHeaderSize) (hne : scan ≠ [])
    (htr : tr = .udp ∨ tr = .tcp) (hts : v.startRtptime < 2 ^ 32)
    (hbound : scan.length + jpgNumYCQUNTSize < 2 ^ 24) :
    ∃ ps v' f fs, TxRun (jpegDoing mem tr channel) v ps v' ∧
      ps.mapM (fun p => (viewPacket tr channel p).bind readJpeg) = some (f :: fs) ∧
      f.offset = 0 ∧ Offsets (f.data.length + jpgNumYCQUNTSize) fs ∧
      (f :: fs).flatMap (·.data) = scan ∧
      (f :: fs).map (·.marker) = List.replicate fs.length false ++ [true] := by
  obtain ⟨hpos, hroom, _⟩ := jpegRoom_pos htr
  have hread := read_first channel hp ho hd hhead hne htr hts
  obtain ⟨pk, tables, heq, _, hp', ho', hd'⟩ :=
    jpegDoing_first channel hp ho hd hhead hne hroom
  have hready : (jpegDoing mem tr channel v).txReady =
      if (scan.drop (jpegFirstRoom tr)).isEmpty then .ready else .doing := by
    rw [heq, txReady_rtpEmit hp']
  by_cases hlast : scan.drop (jpegFirstRoom tr) = []
  · have hall : scan.take (jpegFirstRoom tr) = scan :=
      List.take_of_length_le (List.drop_eq_nil_iff.1 hlast)
    refine ⟨_, _, ⟨true, 0, scan⟩, [], .last (by rw [hready, hlast]; rfl), ?_, rfl, trivial,
      by simp, by simp⟩
    simp [hread, hlast, hall]
  · have hnot : (scan.drop (jpegFirstRoom tr)).isEmpty = false := by simpa using hlast
    have hpk : (jpegDoing mem tr channel v).rtpPk = pk := by rw [heq, rtpPk_rtpEmit]
    have htime : (jpegDoing mem tr channel v).startRtptime = v.startRtptime := by
      rw [heq, startRtptime_rtpEmit]
    have hsum : (scan.take (jpegFirstRoom tr)).length + (scan.drop (jpegFirstRoom tr)).length =
        scan.length := by
      rw [← List.length_append, List.take_append_drop]
    have h128 : 0 < jpgNumYCQUNTSize := by decide
    obtain ⟨ps, v', fs, hrun, hfs, hfne, hoff, hflat, hmk⟩ :=
      jpeg_run_next channel htr _ (v := jpegDoing mem tr channel v) le_rfl (hpk ▸ hp')
        (hpk ▸ ho') hlast (by rw [hpk]; omega) (by rw [hpk]; omega) (htime ▸ hts)
    refine ⟨_, v', ⟨false, 0, scan.take (jpegFirstRoom tr)⟩, fs,
      .more (by rw [hready, hnot]; rfl) hrun, ?_, rfl, ?_, ?_, ?_⟩
    · simp [hread, hnot, hfs]
    · simpa only [hpk, hd'] using hoff
    · rw [List.flatMap_cons, hflat, List.take_append_drop]
    · have hlen : 0 < fs.length := List.length_pos_of_ne_nil hfne
      rw [List.map_cons, hmk, ← List.cons_append, ← List.replicate_succ, Nat.sub_add_cancel hlen]

/-- When the scan does not fit in the first packet, the second one carries an offset that
counts the quantization tables. -/
theorem jpeg_second_offset {rc : RtspClient} (hq : Queued mem rc s pd q frame)
    (hsize : jpgNumHeaderSize < frame.length) (h0 : frame[jpgNumOffsetSOFO]? = some 0xFF)
    (h1 : frame[jpgNumOffsetSOFO + 1]? = some 0xC0)
    (hbig : jpegFirstRoom rc.eTransport < frame.length - jpgNumHeaderSize)
    (hrun : txRun (rtspdClientRtpJpegMain mem) n rc = some (ps, rc')) :
    ¬ JpegDelivers (viewPacket rc.eTransport (rc.connInfo.rtpPort 0)) frame ps := by
  obtain ⟨r, v, hmain, hp, ho, hd, hts, hidx⟩ := jpeg_open hq hsize h0 h1
  obtain ⟨hpos, hroom, hnpos, _⟩ := jpegRoom_pos hq.transport
  have hhead : (frame.take jpgNumHeaderSize).length = jpgNumHeaderSize :=
    List.length_take_of_le (le_of_lt hsize)
  generalize hscan : frame.drop jpgNumHeaderSize = scan
  have hlen : frame.length - jpgNumHeaderSize = scan.length := by rw [← hscan, List.length_drop]
  have hne : scan ≠ [] := List.ne_nil_of_length_pos (by omega)
  have hp1 : Pending mem v.rtpPk (frame.take jpgNumHeaderSize ++ scan) := by
    rwa [← hscan, List.take_append_drop]
  have hread := read_first (rc.connInfo.rtpPort 0) hp1 ho hd hhead hne hq.transport hts
  obtain ⟨pk, tables, heq, _, hp', ho', hd'⟩ :=
    jpegDoing_first (rc.connInfo.rtpPort 0) hp1 ho hd hhead hne hroom
  have hflip : (jpegDoing mem rc.eTransport (rc.connInfo.rtpPort 0) v).bufIdx =
      s.video.bufIdx + 1 := by
    rw [heq, bufIdx_rtpEmit, hidx]
  have hrest : scan.drop (jpegFirstRoom rc.eTransport) ≠ [] := by
    rw [ne_eq, List.drop_eq_nil_iff]
    omega
  have hready : (jpegDoing mem rc.eTransport (rc.connInfo.rtpPort 0) v).txReady = .doing := by
    rw [heq, txReady_rtpEmit hp', if_neg (by simpa using hrest)]
  have hpk : (jpegDoing mem rc.eTransport (rc.connInfo.rtpPort 0) v).rtpPk = pk := by
    rw [heq, rtpPk_rtpEmit]
  have htake : (scan.take (jpegFirstRoom rc.eTransport)).length = jpegFirstRoom rc.eTransport := by
    rw [List.length_take]
    omega
  have h128 : jpgNumYCQUNTSize = 128 := rfl
  have hread2 := read_next (rc.connInfo.rtpPort 0)
    (v := jpegDoing mem rc.eTransport (rc.connInfo.rtpPort 0) v) (hpk ▸ hp') (hpk ▸ ho') hrest
    (by rw [hpk]; omega) (by rw [hpk]; omega) hq.transport (by rw [heq]; exact hts)
  rw [hpk, hd', htake] at hread2
  obtain ⟨w, hw⟩ : ∃ w, jpegDoing mem rc.eTransport (rc.connInfo.rtpPort 0) v = w := ⟨_, rfl⟩
  rw [hw] at hmain hflip hready hread hread2
  obtain ⟨m, rfl⟩ : ∃ m, n = m + 1 := ⟨n - 1, by cases n <;> simp_all [txRun]⟩
  rw [txRun_more hq.session hmain hflip hready] at hrun
  obtain ⟨⟨tl, rc2⟩, hrun2, hps⟩ := Option.map_eq_some_iff.1 hrun
  obtain ⟨k, rfl⟩ : ∃ k, m = k + 1 := ⟨m - 1, by cases m <;> simp_all [txRun]⟩
  obtain ⟨r2, hmain2⟩ := jpeg_performs mem (rc.withVideo s q w) { s with video := w }
    hq.transport rfl hready
  obtain ⟨tl2, htl⟩ := txRun_head rfl hmain2 (by rfl) hrun2
  cases hps
  subst htl
  intro hdel
  obtain ⟨fs, hfs, hoff, _⟩ := hdel.frags
  obtain ⟨f, fs, rfl, hf, hfs⟩ := mapM_cons_some hfs
  obtain ⟨f2, fs, rfl, hf2, hfs⟩ := mapM_cons_some hfs
  have hf1 := Option.some.inj (hread.symm.trans hf)
  have hf2 := Option.some.inj (hread2.symm.trans hf2)
  subst hf1 hf2
  have h2 := hoff 1 (by simp)
  simp only [List.getElem_cons_succ, List.getElem_cons_zero, List.take_succ_cons, List.take_zero,
    List.map_cons, List.map_nil, List.sum_cons, List.sum_nil, htake] at h2
  omega

/-- The offsets are right exactly when the scan fits in the first packet. -/
theorem jpeg_reassembly (mem : Mem) (rc : RtspClient) (s : RtpSs) (pd : RtpQueueData)
    (q : RtpQueue) (frame : List UInt8) (hq : Queued mem rc s pd q frame)
    (hsize : jpgNumHeaderSize < frame.length) (h0 : frame[jpgNumOffsetSOFO]? = some 0xFF)
    (h1 : frame[jpgNumOffsetSOFO + 1]? = some 0xC0) :
    (∃ n ps rc', txRun (rtspdClientRtpJpegMain mem) n rc = some (ps, rc') ∧
      JpegDelivers (viewPacket rc.eTransport (rc.connInfo.rtpPort 0)) frame ps) ↔
    frame.length - jpgNumHeaderSize ≤ jpegFirstRoom rc.eTransport := by
  constructor
  · rintro ⟨n, ps, rc', hrun, hdel⟩
    by_contra hbig
    exact jpeg_second_offset hq hsize h0 h1 (by omega) hrun hdel
  · intro hfit
    obtain ⟨r, v, hmain, hp, ho, hd, hts, hidx⟩ := jpeg_open hq hsize h0 h1
    obtain ⟨_, hroom, _⟩ := jpegRoom_pos hq.transport
    have hhead : (frame.take jpgNumHeaderSize).length = jpgNumHeaderSize :=
      List.length_take_of_le (le_of_lt hsize)
    generalize hscan : frame.drop jpgNumHeaderSize = scan
    have hlen : frame.length - jpgNumHeaderSize = scan.length := by rw [← hscan, List.length_drop]
    have hne : scan ≠ [] := List.ne_nil_of_length_pos (by omega)
    have hp1 : Pending mem v.rtpPk (frame.take jpgNumHeaderSize ++ scan) := by
      rwa [← hscan, List.take_append_drop]
    have hread := read_first (rc.connInfo.rtpPort 0) hp1 ho hd hhead hne hq.transport hts
    obtain ⟨pk, tables, heq, _, hp', _⟩ :=
      jpegDoing_first (rc.connInfo.rtpPort 0) hp1 ho hd hhead hne hroom
    rw [hlen] at hfit
    have hall : scan.take (jpegFirstRoom rc.eTransport) = scan := List.take_of_length_le hfit
    have hnil : scan.drop (jpegFirstRoom rc.eTransport) = [] := List.drop_eq_nil_iff.2 hfit
    rw [hnil] at hread hp'
    refine ⟨1, _, _, txRun_last hq.session hmain (by rw [heq, bufIdx_rtpEmit, hidx])
      (by rw [heq, txReady_rtpEmit hp']; rfl), ?_⟩
    refine ⟨[⟨true, 0, scan⟩], ?_, ?_, ?_, rfl⟩
    · simp [hread, hall]
    · intro i hi
      obtain rfl : i = 0 := by simpa using hi
      rfl
    · rw [hlen, hscan]
      exact Mem.read_write _ 0 scan

/-- A frame of `n` octets after the SOF0 marker. -/
def jpegFrame (n : Nat) : List UInt8 :=
  List.replicate 574 0 ++ [0xFF, 0xC0] ++ List.replicate n 7

theorem length_jpegFrame (n : Nat) : (jpegFrame n).length = 576 + n := by
  simp only [jpegFrame, List.length_append, List.length_replicate, List.length_cons, List.length_nil]

theorem jpegFrame_sof (n : Nat) : (jpegFrame n)[jpgNumOffsetSOFO]? = some 0xFF ∧
    (jpegFrame n)[jpgNumOffsetSOFO + 1]? = some 0xC0 := by
  simp [jpegFrame, jpgNumOffsetSOFO, List.getElem?_append, -List.reduceReplicate]

theorem jpeg_reassembly_small :
    ∃ n ps rc', txRun (rtspdClientRtpJpegMain (.ofList (jpegFrame 100))) n
        (freshClient .udp (jpegFrame 100) 0) = some (ps, rc') ∧
      JpegDelivers (viewPacket .udp 0) (jpegFrame 100) ps :=
  (jpeg_reassembly _ _ _ _ _ (jpegFrame 100)
    (queued_freshClient .udp (.inl rfl) _ 0 (by rw [length_jpegFrame]; decide)) (by rw [length_jpegFrame]; decide)
    (jpegFrame_sof 100).1 (jpegFrame_sof 100).2).2
    (by rw [length_jpegFrame]; decide)

/-- A frame of 2076 octets takes two packets. -/
theorem jpeg_two_packets : ¬ ∀ (mem : Mem) (rc : RtspClient) (s : RtpSs) (pd : RtpQueueData)
    (q : RtpQueue) (frame : List UInt8), Queued mem rc s pd q frame →
    jpgNumHeaderSize < frame.length → frame[jpgNumOffsetSOFO]? = some 0xFF →
    frame[jpgNumOffsetSOFO + 1]? = some 0xC0 →
    ∃ n ps rc', txRun (rtspdClientRtpJpegMain mem) n rc = some (ps, rc') ∧
      JpegDelivers (viewPacket rc.eTransport (rc.connInfo.rtpPort 0)) frame ps := by
  intro h
  have hq := queued_freshClient .udp (.inl rfl) (jpegFrame 1500) 0 (by rw [length_jpegFrame]; decide)
  have hsize : jpgNumHeaderSize < (jpegFrame 1500).length := by rw [length_jpegFrame]; decide
  obtain ⟨n, ps, rc', hrun, hdel⟩ :=
    h _ _ _ _ _ _ hq hsize (jpegFrame_sof 1500).1 (jpegFrame_sof 1500).2
  refine jpeg_second_offset hq hsize (jpegFrame_sof 1500).1 (jpegFrame_sof 1500).2 ?_ hrun hdel
  rw [length_jpegFrame]
  decide

end proofs

end En675.Rtsp
