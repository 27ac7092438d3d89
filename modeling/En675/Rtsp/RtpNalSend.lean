import En675.Rtsp.RtpNalScan
import En675.Rtsp.RtpReceiver
import En675.Rtsp.TxRun

/-! From one call of a packetizer to the packets of a whole access unit. -/

namespace En675.Rtsp

open Lib Lib.AnnexB

/-- What the standard and its payload format say about the NAL units of one codec. -/
structure NalFormat where
  typeOf : List UInt8 → Nat
  hdrLen : Nat
  hdrOk : List UInt8 → Prop
  item : List UInt8 → Option NalItem

structure NalFormat.IsNal (f : NalFormat) (nal : List UInt8) : Prop where
  clean : Clean nal
  long : f.hdrLen ≤ nal.length
  hdr : f.hdrOk nal

/-- The header fields in `pk` are those of the NAL header `h`. -/
def Remembers (c : NalCodec) (f : NalFormat) (pk : RtpPacket) (h : List UInt8) : Prop :=
  ∀ start stop d, f.item (c.fuHeader pk start stop ++ d) = some (.frag start stop h d)

/-- How a packetizer's header handling matches the payload format. -/
structure Lawful (c : NalCodec) (f : NalFormat) : Prop where
  hdrLen : f.hdrLen = c.hdrLen
  hdrLen_pos : 0 < c.hdrLen
  hdrLen_lt : c.hdrLen < c.fuLen
  fuLen_le : c.fuLen ≤ 3
  window : 2 ≤ c.window ∧ c.window ≤ 64
  readHdr : ∀ p pk, ∃ t i u,
    c.readHdr p pk = { pk with naltype := t, nalidc := i, nalunithdr := u }
  naltype : ∀ {p nal} pk, f.IsNal nal → Reads p nal → (c.readHdr p pk).naltype = f.typeOf nal
  length_fuHeader : ∀ pk s e, (c.fuHeader pk s e).length = c.fuLen
  fuHeader_move : ∀ pk o d, c.fuHeader { pk with offset := o, dataOffset := d } = c.fuHeader pk
  remembers : ∀ {p nal} pk, f.IsNal nal → Reads p nal →
    Remembers c f (c.readHdr p pk) (nal.take c.hdrLen)
  single : ∀ {nal}, f.IsNal nal →
    (c.isSlice (f.typeOf nal) = true ∨ c.isParam (f.typeOf nal) = true) →
    f.item nal = some (.single nal)
  apart : ∀ t, c.isParam t = true → c.isSlice t = false

theorem Pending.reads {mem : Mem} {rest : List UInt8} (h : Pending mem pk rest) (hne : rest ≠ []) :
    Reads (addrOf mem pk) rest := by
  intro i hi
  rw [addrOf, h.addr hne]
  exact h.holds.get hi

section scan

variable {c : NalCodec} {f : NalFormat} {mem : Mem} {tr : RtspTransport} {pk : RtpPacket}

/-- The packet record once the start code is skipped and the NAL header read. -/
def atNal (c : NalCodec) (mem : Mem) (pk : RtpPacket) (n : Nat) : RtpPacket :=
  c.readHdr (addrOf mem { pk with offset := pk.offset + n }) { pk with offset := pk.offset + n }

theorem IsNal_ne {f : NalFormat} (law : Lawful c f) (h : f.IsNal nal) : nal ≠ [] := by
  have h1 := h.long
  have h2 := law.hdrLen_pos
  rw [law.hdrLen] at h1
  exact List.ne_nil_of_length_pos (by omega)

theorem atNal_pending (law : Lawful c f) (h : Pending mem pk (sc ++ ys)) :
    Pending mem (atNal c mem pk sc.length) ys := by
  obtain ⟨t, i, u, hr⟩ := law.readHdr (addrOf mem { pk with offset := pk.offset + sc.length })
    { pk with offset := pk.offset + sc.length }
  refine h.move ?_ ?_ ?_ <;> rw [atNal, hr]

theorem atNal_reads (h : Pending mem pk (sc ++ (nal ++ more))) (hne : nal ≠ []) :
    Reads (addrOf mem { pk with offset := pk.offset + sc.length }) nal :=
  Reads.append_left (h.skip.reads (by simp [hne]))

theorem nalScan_code (law : Lawful c f) (h : Pending mem pk (sc ++ (nal ++ more)))
    (hsc : IsStartCode sc) (hnal : f.IsNal nal) :
    nalScan c mem tr pk =
      { nalzerocnt := sc.length
        left := nal.length + more.length
        pk := atNal c mem pk sc.length
        fuSize := if c.isSlice (f.typeOf nal) &&
            decide (nal.length + more.length > remainingOf tr - headLen tr) then c.fuLen else 0
        spsppsSize := if !c.isSlice (f.typeOf nal) && c.isParam (f.typeOf nal) then
            paramSize (addrOf mem { pk with offset := pk.offset + sc.length }) c.window 0 0
          else 0 } := by
  have hne := IsNal_ne law hnal
  have hpos : 0 < nal.length := List.length_pos_of_ne_nil hne
  have h3 := hsc.three_le
  have hreads : Reads (addrOf mem pk) sc :=
    Reads.append_left (h.reads (by rcases hsc with rfl | rfl <;> simp))
  have h0 : addrOf mem pk 0 = 0 := by
    rw [hreads 0 (by omega)]
    rcases hsc with rfl | rfl <;> rfl
  have hcnt : startCode (addrOf mem pk) (min (sc ++ (nal ++ more)).length c.window) 0 = sc.length := by
    apply startCode_code hsc hreads
    have := law.window
    simp only [List.length_append]
    omega
  have hleft : usub (sc ++ (nal ++ more)).length sc.length = nal.length + more.length := by
    have hl := h.len
    have hw := h.word
    rw [usub_of_le (by simp) (by omega)]
    simp
  have htype : (atNal c mem pk sc.length).naltype = f.typeOf nal :=
    law.naltype _ hnal (atNal_reads h hne)
  unfold atNal at htype ⊢
  simp only [nalScan, h.left, h0, beq_self_eq_true, if_true, hcnt, h.advance, hleft, htype]
  rw [if_pos (by omega)]

theorem nalScan_body (h : Pending mem pk rest) (hne : rest ≠ []) (hc : Clean rest) :
    nalScan c mem tr pk =
      { nalzerocnt := 0, left := rest.length, pk, fuSize := c.fuLen, spsppsSize := 0 } := by
  have hcnt : startCode (addrOf mem pk) (min rest.length c.window) 0 = 0 :=
    startCode_clean hc (h.reads hne) (by omega)
  simp [nalScan, h.left, hcnt]

end scan

section copy

variable {c : NalCodec} {f : NalFormat} {mem : Mem} {tr : RtspTransport} {pk : RtpPacket}

/-- Octets of data an FU packet has room for. -/
def fuRoom (c : NalCodec) (tr : RtspTransport) : Nat := remainingOf tr - (headLen tr + c.fuLen)

theorem nalCopy_param (tr : RtspTransport) (law : Lawful c f) (h : Pending mem pk (sc ++ (nal ++ more)))
    (hsc : IsStartCode sc) (hnal : f.IsNal nal) (hty : c.isParam (f.typeOf nal) = true)
    (hmore : more = sc' ++ more') (hsc' : IsStartCode sc')
    (hw : nal.length + sc'.length ≤ c.window) :
    ∃ k, nalCopy c mem tr (nalScan c mem tr pk) = k ∧ k.fu = false ∧ k.data = nal ∧
      Pending mem k.pk more := by
  have hne := IsNal_ne law hnal
  have hpos : 0 < nal.length := List.length_pos_of_ne_nil hne
  have hp := atNal_pending law h
  have hsize : paramSize (addrOf mem { pk with offset := pk.offset + sc.length }) c.window 0 0 =
      nal.length := by
    apply paramSize_unit hnal.clean hne hsc' _ hw
    subst hmore
    have hr : Reads (addrOf mem { pk with offset := pk.offset + sc.length })
        (nal ++ (sc' ++ more')) := h.skip.reads (by simp [hne])
    rw [← List.append_assoc] at hr
    exact hr.append_left
  refine ⟨_, rfl, ?_⟩
  rw [nalScan_code law h hsc hnal]
  simp only [law.apart _ hty, hty, Bool.not_false, Bool.true_and, if_true, hsize, nalCopy]
  rw [if_pos (by omega)]
  exact ⟨rfl, hp.read hne, hp.move rfl rfl hp.advance⟩

theorem nalCopy_whole (law : Lawful c f) (h : Pending mem pk (sc ++ (nal ++ [])))
    (hsc : IsStartCode sc) (hnal : f.IsNal nal) (hty : c.isSlice (f.typeOf nal) = true)
    (hfit : nal.length ≤ remainingOf tr - headLen tr) :
    ∃ k, nalCopy c mem tr (nalScan c mem tr pk) = k ∧ k.fu = false ∧ k.data = nal ∧
      Pending mem k.pk [] := by
  have hne := IsNal_ne law hnal
  have hp := atNal_pending law h
  have hlt : ¬ (nal.length > remainingOf tr - headLen tr) := by omega
  have hleft : usub nal.length 0 = nal.length := by
    have hl := hp.len
    have hw := hp.word
    simp only [List.append_nil] at hl
    exact usub_of_le (Nat.zero_le _) (by omega)
  have hoff : uadd (atNal c mem pk sc.length).offset 0 = (atNal c mem pk sc.length).offset := by
    have hl := hp.len
    have hw := hp.word
    exact uadd_of_lt (by omega)
  refine ⟨_, rfl, ?_⟩
  rw [nalScan_code law h hsc hnal]
  simp only [hty, List.length_nil, Nat.add_zero, hlt, decide_false, Bool.and_false, Bool.not_true,
    Bool.false_and, Bool.false_eq_true, if_false, nalCopy, ne_eq, not_true, hleft, hoff,
    Nat.min_eq_left hfit]
  exact ⟨trivial, hp.read hne, hp.move rfl rfl hp.advance⟩

theorem nalCopy_first (law : Lawful c f) (h : Pending mem pk (sc ++ (nal ++ [])))
    (hsc : IsStartCode sc) (hnal : f.IsNal nal) (hty : c.isSlice (f.typeOf nal) = true)
    (hbig : remainingOf tr - headLen tr < nal.length) (hroom : 0 < fuRoom c tr) :
    ∃ k, nalCopy c mem tr (nalScan c mem tr pk) = k ∧ k.fu = true ∧ k.start = true ∧
      k.data = (nal.drop c.hdrLen).take (fuRoom c tr) ∧
      Pending mem k.pk ((nal.drop c.hdrLen).drop (fuRoom c tr)) ∧
      Remembers c f k.pk (nal.take c.hdrLen) := by
  have hne := IsNal_ne law hnal
  have hp := atNal_pending law h
  have h1 := law.hdrLen_pos
  have h2 := law.hdrLen_lt
  have hbody : fuRoom c tr ≤ (nal.drop c.hdrLen).length := by
    rw [List.length_drop]
    unfold fuRoom
    omega
  have hlong : c.hdrLen ≤ nal.length := law.hdrLen ▸ hnal.long
  have hsplit : nal ++ [] = nal.take c.hdrLen ++ ((nal.drop c.hdrLen).take (fuRoom c tr) ++
      (nal.drop c.hdrLen).drop (fuRoom c tr)) := by
    rw [List.take_append_drop, List.take_append_drop, List.append_nil]
  have hdl : (nal.take c.hdrLen).length = c.hdrLen := by simp [hlong]
  have htl : ((nal.drop c.hdrLen).take (fuRoom c tr)).length = fuRoom c tr := by
    rw [List.length_take, Nat.min_eq_left hbody]
  have hp' : Pending mem (atNal c mem pk sc.length) (nal.take c.hdrLen ++
      ((nal.drop c.hdrLen).take (fuRoom c tr) ++ (nal.drop c.hdrLen).drop (fuRoom c tr))) :=
    hsplit ▸ hp
  have hoff : uadd (atNal c mem pk sc.length).offset c.hdrLen =
      (atNal c mem pk sc.length).offset + c.hdrLen := by
    have := hp'.advance
    rwa [hdl] at this
  have hp2 : Pending mem { atNal c mem pk sc.length with
      offset := (atNal c mem pk sc.length).offset + c.hdrLen }
      ((nal.drop c.hdrLen).take (fuRoom c tr) ++ (nal.drop c.hdrLen).drop (fuRoom c tr)) :=
    hp'.move rfl rfl (by rw [hdl])
  have hleft : usub nal.length c.hdrLen = nal.length - c.hdrLen := by
    have hl := hp.len
    have hw := hp.word
    simp only [List.append_nil] at hl
    exact usub_of_le hlong (by omega)
  have hmin : min (nal.length - c.hdrLen) (remainingOf tr - (headLen tr + c.fuLen)) = fuRoom c tr := by
    rw [List.length_drop] at hbody
    exact Nat.min_eq_right hbody
  have hfu : c.fuLen ≠ 0 := by omega
  have hz : sc.length ≠ 0 := by have := hsc.three_le; omega
  have hadv := hp2.advance
  have hread := hp2.read (List.ne_nil_of_length_pos (by omega))
  rw [htl] at hadv hread
  refine ⟨_, rfl, ?_⟩
  rw [nalScan_code law h hsc hnal]
  simp only [hty, List.length_nil, Nat.add_zero, hbig, decide_true, Bool.and_self,
    if_true, Bool.not_true, Bool.false_and, Bool.false_eq_true, if_false, nalCopy, ne_eq,
    not_true, not_false_eq_true, hfu, hz, hoff, hleft, hmin, hadv, hread, true_and]
  refine ⟨hp2.move rfl rfl (by rw [htl]), ?_⟩
  intro start stop d
  rw [law.fuHeader_move]
  exact law.remembers _ hnal (atNal_reads h hne) start stop d

theorem nalCopy_body (law : Lawful c f) (h : Pending mem pk rest) (hne : rest ≠ [])
    (hc : Clean rest) (hr : Remembers c f pk hdr) (hroom : 0 < fuRoom c tr) :
    ∃ k, nalCopy c mem tr (nalScan c mem tr pk) = k ∧ k.fu = true ∧ k.start = false ∧
      k.data = rest.take (fuRoom c tr) ∧ Pending mem k.pk (rest.drop (fuRoom c tr)) ∧
      Remembers c f k.pk hdr := by
  have hpos : 0 < rest.length := List.length_pos_of_ne_nil hne
  have hfu : c.fuLen ≠ 0 := by have := law.hdrLen_lt; omega
  have hsplit : Pending mem pk (rest.take (fuRoom c tr) ++ rest.drop (fuRoom c tr)) := by
    rwa [List.take_append_drop]
  have hl := h.len
  have hw := h.word
  have hoff : uadd pk.offset 0 = pk.offset := uadd_of_lt (by omega)
  have hleft : usub rest.length 0 = rest.length := usub_of_le (Nat.zero_le _) (by omega)
  have hmin : min rest.length (remainingOf tr - (headLen tr + c.fuLen)) =
      (rest.take (fuRoom c tr)).length := by
    rw [List.length_take, Nat.min_comm]
    rfl
  have htake : rest.take (fuRoom c tr) ≠ [] :=
    List.ne_nil_of_length_pos (by rw [List.length_take]; omega)
  refine ⟨_, rfl, ?_⟩
  rw [nalScan_body h hne hc]
  simp only [nalCopy, ne_eq, not_true, if_false, hfu, not_false_eq_true, decide_true, decide_false,
    Bool.and_false, Bool.false_eq_true, hoff, hleft, hmin, hsplit.read htake, hsplit.advance,
    true_and]
  refine ⟨hsplit.move rfl rfl rfl, ?_⟩
  intro start stop d
  rw [law.fuHeader_move]
  exact hr start stop d

end copy

section run

variable {c : NalCodec} {f : NalFormat} {mem : Mem} {tr : RtspTransport} (channel : Nat)
  {v : RtpSession}

theorem nalPayload_whole (hfu : k.fu = false) (hd : k.data = nal) : nalPayload c k last = nal := by
  rw [nalPayload, if_neg (by simp [hfu]), hd, List.nil_append]

theorem nalPayload_fu (hfu : k.fu = true) :
    nalPayload c k last = c.fuHeader k.pk k.start last ++ k.data := by
  rw [nalPayload, if_pos hfu]

theorem nalDoing_eq (hk : nalCopy c mem tr (nalScan c mem tr v.rtpPk) = k) :
    nalDoing c mem tr channel v = rtpEmit tr channel v k.pk (nalPayload c k) := by
  rw [nalDoing, hk]

theorem nalDoing_txReady (hk : nalCopy c mem tr (nalScan c mem tr v.rtpPk) = k)
    (hp : Pending mem k.pk rest) :
    (nalDoing c mem tr channel v).txReady = if rest.isEmpty then .ready else .doing := by
  rw [nalDoing_eq _ hk, txReady_rtpEmit hp]

theorem nalDoing_rtpPk (hk : nalCopy c mem tr (nalScan c mem tr v.rtpPk) = k) :
    (nalDoing c mem tr channel v).rtpPk = k.pk := by
  rw [nalDoing_eq _ hk, rtpPk_rtpEmit]

theorem view_nalDoing (htr : tr = .udp ∨ tr = .tcp) (hts : v.startRtptime < 2 ^ 32)
    (hk : nalCopy c mem tr (nalScan c mem tr v.rtpPk) = k) (hp : Pending mem k.pk rest)
    (hlen : (nalPayload c k rest.isEmpty).length < 2 ^ 15) :
    viewPacket tr channel (sent (nalDoing c mem tr channel v)) =
      some ⟨rest.isEmpty, v.payloadType % 128, (v.startSeq + 1) % 2 ^ 16, v.startRtptime,
        v.ssrc % 2 ^ 32, nalPayload c k rest.isEmpty⟩ := by
  rw [nalDoing_eq _ hk, sent_rtpEmit hp, view_rtpPacket htr hts hlen]

/-- Fragments after the first: by induction on the octets left, each call but the last
filling its packet. -/
theorem run_body (law : Lawful c f) (htr : tr = .udp ∨ tr = .tcp) (n : Nat) :
    ∀ {v : RtpSession} {rest : List UInt8}, rest.length ≤ n → Pending mem v.rtpPk rest →
      rest ≠ [] → Clean rest → Remembers c f v.rtpPk hdr → v.startRtptime < 2 ^ 32 →
      ∃ ps v' xs, TxRun (nalDoing c mem tr channel) v ps v' ∧
        Stream (viewPacket tr channel) f.item v.startRtptime v.startSeq ps xs ∧
        Item.Run hdr xs rest := by
  have hroom : 0 < fuRoom c tr ∧ fuRoom c tr < 2 ^ 14 := by
    have := law.fuLen_le
    rcases htr with rfl | rfl <;> simp only [fuRoom, remainingOf, headLen, tcpMss] <;> omega
  induction n with
  | zero =>
    intro v rest hn _ hne
    exact absurd (List.length_eq_zero_iff.1 (by omega)) hne
  | succ n ih =>
    intro v rest hn hp hne hc hr hts
    have hpos : 0 < rest.length := List.length_pos_of_ne_nil hne
    obtain ⟨k, hk, hfu, hst, hdata, hk', hrem⟩ :=
      nalCopy_body law hp hne hc hr hroom.1
    have hlen : (nalPayload c k (rest.drop (fuRoom c tr)).isEmpty).length <
        2 ^ 15 := by
      have := law.fuLen_le
      rw [nalPayload_fu hfu, List.length_append, law.length_fuHeader, hdata, List.length_take]
      omega
    have hview := view_nalDoing channel htr hts hk hk' hlen
    have hitem := hrem k.start (rest.drop (fuRoom c tr)).isEmpty k.data
    have hready := nalDoing_txReady channel hk hk'
    rw [hst, hdata] at hitem
    by_cases hlast : rest.drop (fuRoom c tr) = []
    · have hall : rest.take (fuRoom c tr) = rest :=
        List.take_of_length_le (List.drop_eq_nil_iff.1 hlast)
      rw [hlast] at hview hitem hready
      refine ⟨_, _, _, .last hready, .last hview rfl rfl rfl (by rw [nalPayload_fu hfu, hst, hdata]; exact hitem), ?_⟩
      rw [hall]
      exact .last rest
    · have hnot : (rest.drop (fuRoom c tr)).isEmpty = false := by simpa using hlast
      rw [hnot] at hview hitem hready
      have hcl : Clean (rest.drop (fuRoom c tr)) := hc.drop (by
        by_contra hge
        exact hlast (List.drop_eq_nil_iff.2 (by omega)))
      obtain ⟨ps, v', xs, hrun, hstream, hrunI⟩ := ih
        (v := nalDoing c mem tr channel v)
        (by rw [List.length_drop]; omega) (by rw [nalDoing_rtpPk _ hk]; exact hk') hlast hcl
        (by rw [nalDoing_rtpPk _ hk]; exact hrem) hts
      refine ⟨_, v', _, .more hready hrun,
        .cons hview rfl rfl rfl (by rw [nalPayload_fu hfu, hst, hdata]; exact hitem) hstream, ?_⟩
      have := Item.Run.more (d := rest.take (fuRoom c tr)) hrunI
      rwa [List.take_append_drop] at this

/-- A slice goes out whole when it fits behind the headers and as a fragment run
otherwise; at least two octets are left after the first fragment. -/
theorem run_slice (law : Lawful c f) (htr : tr = .udp ∨ tr = .tcp)
    (hp : Pending mem v.rtpPk (sc ++ (nal ++ []))) (hsc : IsStartCode sc) (hnal : f.IsNal nal)
    (hty : c.isSlice (f.typeOf nal) = true) (hts : v.startRtptime < 2 ^ 32) :
    ∃ ps v' xs, TxRun (nalDoing c mem tr channel) v ps v' ∧
      Stream (viewPacket tr channel) f.item v.startRtptime v.startSeq ps xs ∧
      Item.Carries (· ++ ·) xs [nal] := by
  have hfle := law.fuLen_le
  have hlt := law.hdrLen_lt
  have hroom : 0 < fuRoom c tr ∧ fuRoom c tr < 2 ^ 14 ∧
      fuRoom c tr + c.fuLen = remainingOf tr - headLen tr ∧ remainingOf tr - headLen tr < 2 ^ 14 := by
    rcases htr with rfl | rfl <;> simp only [fuRoom, remainingOf, headLen, tcpMss] <;> omega
  by_cases hfit : nal.length ≤ remainingOf tr - headLen tr
  · obtain ⟨k, hk, hfu, hdata, hk'⟩ := nalCopy_whole law hp hsc hnal hty hfit
    have hview := view_nalDoing channel htr hts hk hk'
      (by rw [nalPayload_whole hfu hdata]; omega)
    refine ⟨_, _, _, .last (nalDoing_txReady _ hk hk'), .last hview rfl rfl rfl ?_, .single .nil⟩
    rw [nalPayload_whole hfu hdata]
    exact law.single hnal (.inl hty)
  · obtain ⟨k, hk, hfu, hst, hdata, hk', hrem⟩ :=
      nalCopy_first law hp hsc hnal hty (by omega) hroom.1
    have hbody : fuRoom c tr < (nal.drop c.hdrLen).length := by
      rw [List.length_drop]
      omega
    have hne : (nal.drop c.hdrLen).drop (fuRoom c tr) ≠ [] := by
      intro hnil
      rw [List.drop_eq_nil_iff] at hnil
      omega
    have hcl : Clean ((nal.drop c.hdrLen).drop (fuRoom c tr)) := by
      rw [List.length_drop] at hbody
      rw [List.drop_drop]
      exact hnal.clean.drop (by omega)
    have hemp : ((nal.drop c.hdrLen).drop (fuRoom c tr)).isEmpty = false := by simpa using hne
    have hlen : (nalPayload c k ((nal.drop c.hdrLen).drop (fuRoom c tr)).isEmpty).length <
        2 ^ 15 := by
      rw [nalPayload_fu hfu, List.length_append, law.length_fuHeader, hdata, List.length_take]
      omega
    have hview := view_nalDoing channel htr hts hk hk' hlen
    have hready := nalDoing_txReady channel hk hk'
    rw [hemp] at hview hready
    obtain ⟨ps, v', xs, hrun, hstream, hrunI⟩ := run_body channel law htr _
      (v := nalDoing c mem tr channel v) le_rfl (by rw [nalDoing_rtpPk _ hk]; exact hk') hne hcl
      (by rw [nalDoing_rtpPk _ hk]; exact hrem) hts
    refine ⟨_, v', _, .more hready hrun, .cons hview rfl rfl rfl (by rw [nalPayload_fu hfu]; exact hrem _ _ _) hstream, ?_⟩
    rw [hst, hdata]
    have hc : Item.Carries (· ++ ·) _ _ := Item.Carries.run (h := nal.take c.hdrLen)
      (d := (nal.drop c.hdrLen).take (fuRoom c tr)) hrunI .nil
    simpa only [List.append_nil, List.take_append_drop] using hc

/-- Parameter sets, then one slice, each behind its start code; a parameter set is short
enough for the next start code to lie in the scan window. -/
inductive AccessUnit (c : NalCodec) (f : NalFormat) : List (List UInt8 × List UInt8) → Prop
  | slice : IsStartCode sc → f.IsNal nal → c.isSlice (f.typeOf nal) = true →
      AccessUnit c f [(sc, nal)]
  | param : IsStartCode sc → f.IsNal nal → c.isParam (f.typeOf nal) = true →
      nal.length + u.1.length ≤ c.window → AccessUnit c f (u :: us) →
      AccessUnit c f ((sc, nal) :: u :: us)

def octets (us : List (List UInt8 × List UInt8)) : List UInt8 := us.flatMap fun u => u.1 ++ u.2

theorem AccessUnit.head (h : AccessUnit c f (u :: us)) :
    IsStartCode u.1 ∧ octets (u :: us) = u.1 ++ (u.2 ++ octets us) := by
  cases h <;> exact ⟨by assumption, by simp [octets]⟩

theorem AccessUnit.run (law : Lawful c f) (htr : tr = .udp ∨ tr = .tcp) (h : AccessUnit c f us)
    (hp : Pending mem v.rtpPk (octets us)) (hts : v.startRtptime < 2 ^ 32) :
    ∃ ps v' xs, TxRun (nalDoing c mem tr channel) v ps v' ∧
      Stream (viewPacket tr channel) f.item v.startRtptime v.startSeq ps xs ∧
      Item.Carries (· ++ ·) xs (us.map Prod.snd) := by
  induction h generalizing v with
  | @slice sc nal hsc hnal hty =>
    have hp' : Pending mem v.rtpPk (sc ++ (nal ++ [])) := by simpa [octets] using hp
    exact run_slice channel law htr hp' hsc hnal hty hts
  | @param sc nal u us hsc hnal hty hw hrest ih =>
    obtain ⟨hsc', hoct⟩ := hrest.head
    have hp' : Pending mem v.rtpPk (sc ++ (nal ++ octets (u :: us))) := by
      simpa [octets] using hp
    obtain ⟨k, hk, hfu, hdata, hk'⟩ :=
      nalCopy_param tr law hp' hsc hnal hty hoct hsc' hw
    have hne : (octets (u :: us)).isEmpty = false := by
      rw [hoct]
      have := hsc'.three_le
      cases hu : u.1 with
      | nil => simp [hu] at this
      | cons b bs => rfl
    have hview := view_nalDoing channel htr hts hk hk' (by
      have := law.window
      rw [nalPayload_whole hfu hdata]
      omega)
    have hready := nalDoing_txReady channel hk hk'
    rw [hne, nalPayload_whole hfu hdata] at hview
    rw [hne] at hready
    obtain ⟨ps, v', xs, hrun, hstream, hc⟩ := ih (v := nalDoing c mem tr channel v)
      (by rw [nalDoing_rtpPk _ hk]; exact hk') hts
    exact ⟨_, v', _, .more hready hrun,
      .cons hview rfl rfl rfl (law.single hnal (.inr hty)) hstream, .single hc⟩

end run

section calls

variable {c : NalCodec} {f : NalFormat} {mem : Mem} {rc : RtspClient} {s : RtpSs}

theorem performs (c : NalCodec) (mem : Mem) :
    Performs (rtspdClientRtpNalMain c mem) (nalDoing c mem) := by
  intro rc s htr hss hst
  simp [rtspdClientRtpNalMain, htr, hss, hst]

/-- What an admitted frame is turned into, for either codec. -/
theorem Queued.delivers (law : Lawful c f) (h : Queued mem rc s pd q (octets us))
    (hau : AccessUnit c f us) (hgate : nalAdmits s.video pd = true) :
    ∃ n ps rc', txRun (rtspdClientRtpNalMain c mem) n rc = some (ps, rc') ∧
      Delivers (viewPacket rc.eTransport (rc.connInfo.rtpPort 0)) f.item s.video.startSeq
        (uadd s.video.startRtptime pd.ts) ps (us.map Prod.snd) := by
  obtain ⟨ps, v', xs, hrun, hstream, hc⟩ := hau.run (rc.connInfo.rtpPort 0) law h.transport
    (v := nalOpen s.video pd) (h.pending rfl rfl rfl) (Nat.mod_lt _ (by decide))
  obtain ⟨n, hn⟩ := hrun.txRun (performs c mem) (fun _ _ _ => rfl) h.transport rc (s := s) (q := q)
    rfl rfl h.session rfl (by
    simp [rtspdClientRtpNalMain, h.transport, h.session, h.ready, h.head, hgate]
    rfl)
  exact ⟨n, ps, _, hn, hstream.delivers hc⟩

/-- A frame the gate refuses is taken from the queue and builds no packet. -/
theorem Queued.refused {frame : List UInt8} (h : Queued mem rc s pd q frame)
    (hgate : nalAdmits s.video pd = false) :
    txRun (rtspdClientRtpNalMain c mem) (n + 1) rc =
      some ([], rc.withVideo s q (nalTake s.video pd)) := by
  simp [txRun, rtspdClientRtpNalMain, h.transport, h.session, h.ready, h.head, hgate,
    RtspClient.withVideo, nalTake]

end calls

end En675.Rtsp
