import En675.Rtsp.RtpJpeg
import En675.Rtsp.RtpNal

/-! What a sender does for each track of a playing session: `rtspd_client_rtp_video_play`,
`rtspd_client_rtp_audio_play`, and the packetizer of `rtp_g711.c`. -/

namespace En675.Rtsp

open Lib

/-- `buf_len[buf_idx] = 0`. -/
def RtpSession.clear (v : RtpSession) : RtpSession :=
  { v with buffer := Function.update v.buffer v.bufIdx [] }

@[simp] theorem clear_self (v : RtpSession) : v.clear.buffer v.bufIdx = [] :=
  Function.update_self ..

theorem clear_other (v : RtpSession) (h : i ≠ v.bufIdx) : v.clear.buffer i = v.buffer i :=
  Function.update_of_ne h ..

section video

/-- `none` is the wait for ever on a null `rtp_ss`. -/
def rtspdClientRtpVideoPlay (mem : Mem) (rc : RtspClient) : Option (Int × RtspClient) :=
  rc.rtpSs.bind fun s =>
    let rc := rc.withVideo s rc.rtpQueueVideo s.video.clear
    if rc.playQuery &&& strtypeVideo ≠ 0 then
      match rc.isLive with
      | .fileH264 | .fileH265 => some (0, rc)
      | .liveH264_1 | .liveH264_2 => rtspdClientRtpH264Main mem rc
      | .liveH265_1 | .liveH265_2 => rtspdClientRtpH265Main mem rc
      | .liveJpeg => rtspdClientRtpJpegMain mem rc
      | _ => some (-1, rc)
    else some (0, rc)

end video

section audio

def RtspClient.withAudio (rc : RtspClient) (ss : RtpSs) (v : RtpSession) : RtspClient :=
  { rc with rtpSs := some { ss with audio := v } }

/-- `case ENX_RTP_TXSTE_DOING`, falling through to `ENX_RTP_TXSTE_END`; the packet goes into
the buffer that is current. -/
def g711Doing (mem : Mem) (tr : RtspTransport) (channel : Nat) (ss : RtpSession) : RtpSession :=
  let g711left := usub ss.rtpPk.size ss.rtpPk.offset
  let room := tcpMss - headLen tr
  let remaining := if g711left < room then g711left else room
  let data := mem.read (uadd ss.rtpPk.base ss.rtpPk.offset) remaining
  let pk := { ss.rtpPk with offset := uadd ss.rtpPk.offset remaining }
  let last := pk.offset == pk.size
  { ss with
    rtpPk := pk
    startSeq := (ss.startSeq + 1) % 2 ^ 16
    buffer := Function.update ss.buffer ss.bufIdx (rtpPacket tr channel ss last data)
    txReady := if last then .ready else .doing }

def g711Take (ss : RtpSession) (pd : RtpQueueData) : RtpSession :=
  { ss with
    rtpPk := { ss.rtpPk with base := pd.addr, size := pd.size, offset := 0 }
    startRtptime := uadd ss.startRtptime pd.ts
    txReady := .doing }

/-- The other buffer becomes current before the queue is looked at. -/
def rtspdClientRtpG711Main (mem : Mem) (rc : RtspClient) (q : RtpQueue) :
    Option (Int × RtspClient × RtpQueue) :=
  if rc.eTransport = .udp ∨ rc.eTransport = .tcp then
    rc.rtpSs.map fun s =>
      let channel := rc.connInfo.rtpPort 1
      let v := { s.audio with bufIdx := s.audio.bufIdx + 1 }
      match v.txReady with
      | .ready =>
        match rtpQueueGet q with
        | none => (rtpLeft v, rc.withAudio s v, q)
        | some (pd, q) =>
          let v := g711Doing mem rc.eTransport channel (g711Take v pd)
          (rtpLeft v, rc.withAudio s v, q)
      | .doing =>
        let v := g711Doing mem rc.eTransport channel v
        (rtpLeft v, rc.withAudio s v, q)
      | .ended =>
        let v := { v with txReady := .ready }
        (rtpLeft v, rc.withAudio s v, q)
      | .unset => (rtpLeft v, rc.withAudio s v, q)
  else some (-1, rc, q)

/-- `none` is the dereference of a null `rtp_ss`. -/
def rtspdClientRtpAudioPlay (mem : Mem) (rc : RtspClient) (q : RtpQueue) :
    Option (Int × RtspClient × RtpQueue) :=
  rc.rtpSs.bind fun s =>
    let rc := rc.withAudio s s.audio.clear
    if rc.playQuery &&& strtypeAudio ≠ 0 then
      match rc.isLive with
      | .fileH264 => some (0, rc, q)
      | .liveH264_1 | .liveH264_2 | .liveH265_1 | .liveH265_2 | .liveJpeg =>
        rtspdClientRtpG711Main mem rc q
      | _ => some (-1, rc, q)
    else some (0, rc, q)

end audio

section called

/-- The sequence number of a packet: octets 2 and 3 of its RTP header. -/
def seqNumber (tr : RtspTransport) (p : List UInt8) : Nat :=
  readBE (((if tr = .udp then p else p.drop 4).drop 2).take 2)

theorem rtpPacket_ne_nil (tr : RtspTransport) (channel : Nat) (w : RtpSession) (last : Bool)
    (payload : List UInt8) : rtpPacket tr channel w last payload ≠ [] := by
  simp [rtpPacket, rthRTPHeader]

theorem seqNumber_rtpPacket (tr : RtspTransport) (channel : Nat) (w : RtpSession) (last : Bool)
    (payload : List UInt8) :
    seqNumber tr (rtpPacket tr channel w last payload) = (w.startSeq + 1) % 2 ^ 16 := by
  have drop : (if tr = .udp then rtpPacket tr channel w last payload
      else (rtpPacket tr channel w last payload).drop 4) =
      rthRTPHeader last w.payloadType ((w.startSeq + 1) % 2 ^ 16) w.startRtptime w.ssrc ++ payload := by
    unfold rtpPacket
    split
    · rfl
    · rw [List.append_assoc, List.drop_append_of_le_length (by simp)]
      simp [List.drop_eq_nil_of_le]
  have number : ∀ n ts ssrc, ((rthRTPHeader last w.payloadType n ts ssrc ++ payload).drop 2).take 2 =
      be 2 n := fun n ts ssrc => by simp [rthRTPHeader, be]
  rw [seqNumber, drop, number]
  exact readBE_be_of_lt (Nat.mod_lt _ (by decide))

/-- A packetizer call builds no packet, or one in the buffer that is then current. -/
inductive Called (tr : RtspTransport) (v v' : RtpSession) : Prop
  | idle (seq : v'.startSeq = v.startSeq) (buffer : v'.buffer = v.buffer) (idx : v'.bufIdx = v.bufIdx)
  | built (p : List UInt8) (some : p ≠ []) (number : seqNumber tr p = v'.startSeq)
      (seq : v'.startSeq = (v.startSeq + 1) % 2 ^ 16) (idx : v'.bufIdx = v.bufIdx + 1)
      (buffer : v'.buffer = Function.update v.buffer v'.bufIdx p)

variable {mem : Mem} {tr : RtspTransport} {rc rc' : RtspClient} {s : RtpSs} {v w : RtpSession}

theorem rtpEmit_called (tr : RtspTransport) (channel : Nat) (pk : RtpPacket)
    (payload : Bool → List UInt8) (hs : w.startSeq = v.startSeq) (hb : w.buffer = v.buffer)
    (hi : w.bufIdx = v.bufIdx) : Called tr v (rtpEmit tr channel w pk payload) :=
  .built _ (rtpPacket_ne_nil tr channel w _ _) (seqNumber_rtpPacket tr channel w _ _)
    (congrArg (fun n => (n + 1) % 2 ^ 16) hs) (congrArg (· + 1) hi)
    (congrArg (fun b => Function.update b _ _) hb)

/-- The next sequence number and the send buffers stay. -/
structure Kept (v w : RtpSession) : Prop where
  seq : w.startSeq = v.startSeq
  buffer : w.buffer = v.buffer
  idx : w.bufIdx = v.bufIdx

/-- What a packetizer of the video track comes to. -/
inductive Packs (mem : Mem) (tr : RtspTransport) (channel : Nat) (v : RtpSession) : RtpSession → Prop
  | idle : Kept v u → Packs mem tr channel v u
  | nal : c = avc ∨ c = hevc → Kept v u → Packs mem tr channel v (nalDoing c mem tr channel u)
  | jpeg : Kept v u → Packs mem tr channel v (jpegDoing mem tr channel u)

theorem rtpNalMain_packs (hc : c = avc ∨ c = hevc) (hs : rc.rtpSs = some s)
    (h : rtspdClientRtpNalMain c mem rc = some (r, rc')) :
    ∃ q v, rc' = rc.withVideo s q v ∧ Packs mem rc.eTransport (rc.connInfo.rtpPort 0) s.video v := by
  have idle : Packs mem rc.eTransport (rc.connInfo.rtpPort 0) s.video s.video := .idle ⟨rfl, rfl, rfl⟩
  have same : rc = rc.withVideo s rc.rtpQueueVideo s.video := by
    cases rc
    cases hs
    rfl
  unfold rtspdClientRtpNalMain at h
  split at h
  · rw [hs, Option.map_some, Option.some.injEq] at h
    cases ht : s.video.txReady with
    | ready =>
      simp only [ht] at h
      split at h
      · cases h
        exact ⟨_, _, same, idle⟩
      · split at h <;> cases h
        · exact ⟨_, _, rfl, .nal hc ⟨rfl, rfl, rfl⟩⟩
        · exact ⟨_, _, rfl, .idle ⟨rfl, rfl, rfl⟩⟩
    | doing =>
      simp only [ht] at h
      cases h
      exact ⟨_, _, rfl, .nal hc ⟨rfl, rfl, rfl⟩⟩
    | ended =>
      simp only [ht] at h
      cases h
      exact ⟨_, _, rfl, .idle ⟨rfl, rfl, rfl⟩⟩
    | unset =>
      simp only [ht] at h
      cases h
      exact ⟨_, _, same, idle⟩
  · cases h
    exact ⟨_, _, same, idle⟩

theorem jpegSofo_kept (h : jpegSofo mem w = some v) : Kept w v := by
  simp only [jpegSofo] at h
  split at h
  · cases h
    exact ⟨rfl, rfl, rfl⟩
  · cases h

theorem rtpJpegMain_packs (hs : rc.rtpSs = some s) (h : rtspdClientRtpJpegMain mem rc = some (r, rc')) :
    ∃ q v, rc' = rc.withVideo s q v ∧ Packs mem rc.eTransport (rc.connInfo.rtpPort 0) s.video v := by
  have idle : Packs mem rc.eTransport (rc.connInfo.rtpPort 0) s.video s.video := .idle ⟨rfl, rfl, rfl⟩
  have same : rc = rc.withVideo s rc.rtpQueueVideo s.video := by
    cases rc
    cases hs
    rfl
  unfold rtspdClientRtpJpegMain at h
  split at h
  · rw [hs, Option.map_some, Option.some.injEq] at h
    cases ht : s.video.txReady with
    | ready =>
      simp only [ht] at h
      split at h
      · cases h
        exact ⟨_, _, same, idle⟩
      · split at h
        · simp only [Prod.mk.injEq] at h
          exact ⟨_, _, h.2.symm, .idle ⟨rfl, rfl, rfl⟩⟩
        · rename_i hj
          simp only [Prod.mk.injEq] at h
          obtain ⟨seq, buffer, idx⟩ := jpegSofo_kept hj
          exact ⟨_, _, h.2.symm, .jpeg ⟨seq, buffer, idx⟩⟩
    | doing =>
      simp only [ht] at h
      cases h
      exact ⟨_, _, rfl, .jpeg ⟨rfl, rfl, rfl⟩⟩
    | ended =>
      simp only [ht] at h
      cases h
      exact ⟨_, _, rfl, .idle ⟨rfl, rfl, rfl⟩⟩
    | unset =>
      simp only [ht] at h
      cases h
      exact ⟨_, _, same, idle⟩
  · cases h
    exact ⟨_, _, same, idle⟩

/-- What `video_play` does to the video session, the buffer current before it cleared. -/
theorem videoPlay_packs (hs : rc.rtpSs = some s) (h : rtspdClientRtpVideoPlay mem rc = some (r, rc')) :
    ∃ q v, rc' = rc.withVideo s q v ∧
      Packs mem rc.eTransport (rc.connInfo.rtpPort 0) s.video.clear v := by
  rw [rtspdClientRtpVideoPlay, hs, Option.bind_some] at h
  have idle : ∃ q v, rc.withVideo s rc.rtpQueueVideo s.video.clear = rc.withVideo s q v ∧
      Packs mem rc.eTransport (rc.connInfo.rtpPort 0) s.video.clear v :=
    ⟨_, _, rfl, .idle ⟨rfl, rfl, rfl⟩⟩
  -- the packetizer works on the session in which only the current length is cleared
  have packs (hm : ∃ q v, rc' = (rc.withVideo s rc.rtpQueueVideo s.video.clear).withVideo
        { s with video := s.video.clear } q v ∧
        Packs mem rc.eTransport (rc.connInfo.rtpPort 0) s.video.clear v) :
      ∃ q v, rc' = rc.withVideo s q v ∧
        Packs mem rc.eTransport (rc.connInfo.rtpPort 0) s.video.clear v := hm
  dsimp only at h
  split at h
  · split at h
    · cases h
      exact idle
    · cases h
      exact idle
    · exact packs (rtpNalMain_packs (.inl rfl) rfl h)
    · exact packs (rtpNalMain_packs (.inl rfl) rfl h)
    · exact packs (rtpNalMain_packs (.inr rfl) rfl h)
    · exact packs (rtpNalMain_packs (.inr rfl) rfl h)
    · exact packs (rtpJpegMain_packs rfl h)
    · cases h
      exact idle
  · cases h
    exact idle

theorem Packs.called (h : Packs mem tr channel v v') : Called tr v v' := by
  cases h with
  | idle k => exact .idle k.seq k.buffer k.idx
  | nal _ k => exact rtpEmit_called tr channel _ _ k.seq k.buffer k.idx
  | jpeg k =>
    unfold jpegDoing
    exact rtpEmit_called tr channel _ _ k.seq k.buffer k.idx

theorem videoPlay_called (hs : rc.rtpSs = some s) (h : rtspdClientRtpVideoPlay mem rc = some (r, rc')) :
    ∃ q v, rc' = rc.withVideo s q v ∧ Called rc.eTransport s.video.clear v := by
  obtain ⟨q, v, hv, packs⟩ := videoPlay_packs hs h
  exact ⟨q, v, hv, packs.called⟩

section length

theorem paramSize_le (p : Nat → UInt8) (n i j : Nat) : paramSize p n i j ≤ i + n := by
  induction n generalizing i j with
  | zero => exact Nat.zero_le _
  | succ n ih =>
    simp only [paramSize]
    split
    · split
      · omega
      · have bound := ih (i + 1) (j + 1)
        omega
    · have bound := ih (i + 1) 0
      omega

/-- What the packet lengths need of a codec. -/
structure Compact (c : NalCodec) : Prop where
  window : c.window ≤ 64
  fuLen : c.fuLen ≤ 3
  fuHeader : ∀ pk start stop, (c.fuHeader pk start stop).length = c.fuLen

theorem compact (hc : c = avc ∨ c = hevc) : Compact c := by
  rcases hc with rfl | rfl
  · exact ⟨by decide, by decide, fun _ _ _ => rfl⟩
  · exact ⟨by decide, by decide, fun _ _ _ => rfl⟩

theorem ite_zero_or (p : Prop) [Decidable p] (n : Nat) :
    (if p then n else 0) = n ∨ (if p then n else 0) = 0 := by
  split
  · exact .inl rfl
  · exact .inr rfl

theorem ite_zero_le (p : Prop) [Decidable p] (n : Nat) : (if p then n else 0) ≤ n := by
  rcases ite_zero_or p n with h | h <;> rw [h]
  exact Nat.zero_le n

theorem nalScan_sizes (hc : Compact c) (mem : Mem) (tr : RtspTransport) (pk : RtpPacket) :
    ((nalScan c mem tr pk).fuSize = 0 ∨ (nalScan c mem tr pk).fuSize = c.fuLen) ∧
      (nalScan c mem tr pk).spsppsSize ≤ 64 := by
  unfold nalScan
  extract_lets left q zeros
  clear_value zeros
  split
  · refine ⟨(ite_zero_or _ _).symm, ?_⟩
    have window := hc.window
    refine (ite_zero_le _ _).trans ((paramSize_le _ _ _ _).trans ?_)
    omega
  · exact ⟨.inr rfl, Nat.zero_le _⟩

theorem packet_room (tr : RtspTransport) : headLen tr ≤ 16 ∧ tcpMss ≤ remainingOf tr := by
  cases tr <;> simp only [headLen, remainingOf] <;> omega

theorem fragment_room {a b f n : Nat} (head : a ≤ 16) (room : 1460 ≤ b) (hf : f ≤ 3) :
    a + (f + min n (b - (a + f))) ≤ b := by
  omega

theorem nalCopy_params {s : NalScan} (h : s.spsppsSize ≠ 0) (mem : Mem) (tr : RtspTransport) (last : Bool) :
    (nalPayload c (nalCopy c mem tr s) last).length = s.spsppsSize := by
  rw [nalCopy, if_pos h, nalPayload]
  exact Mem.length_read _ _ _

theorem nalCopy_fragment {s : NalScan} (hc : Compact c) (fu : s.fuSize = 0 ∨ s.fuSize = c.fuLen) (h : ¬ s.spsppsSize ≠ 0)
    (mem : Mem) (tr : RtspTransport) (last : Bool) :
    ∃ n, (nalPayload c (nalCopy c mem tr s) last).length =
      s.fuSize + min n (remainingOf tr - (headLen tr + s.fuSize)) := by
  rw [nalCopy, if_neg h, nalPayload, List.length_append]
  dsimp only
  rw [Mem.length_read]
  refine ⟨_, congrArg (· + _) ?_⟩
  by_cases hf : s.fuSize = 0
  · rw [hf]
    rfl
  · rw [if_pos (decide_eq_true hf), hc.fuHeader, fu.resolve_left hf]

theorem nalPayload_length (hc : Compact c) (mem : Mem) (tr : RtspTransport) (pk : RtpPacket) (last : Bool) :
    headLen tr + (nalPayload c (nalCopy c mem tr (nalScan c mem tr pk)) last).length ≤ remainingOf tr := by
  obtain ⟨fu, params⟩ := nalScan_sizes hc mem tr pk
  obtain ⟨head, room⟩ := packet_room tr
  have room : 1460 ≤ remainingOf tr := room
  by_cases h : (nalScan c mem tr pk).spsppsSize ≠ 0
  · rw [nalCopy_params h]
    omega
  · obtain ⟨n, length⟩ := nalCopy_fragment hc fu h mem tr last
    rw [length]
    refine fragment_room head room ?_
    rcases fu with h | h <;> rw [h]
    · exact Nat.zero_le 3
    · exact hc.fuLen

/-- A packet as `lwip_send` is given it. -/
def Packet (tr : RtspTransport) (p : List UInt8) : Prop :=
  ∃ channel w last payload, p = rtpPacket tr channel w last payload ∧
    headLen tr + payload.length ≤ remainingOf tr

/-- The current buffer holds a packet, or what it held before. -/
def Fits (tr : RtspTransport) (v v' : RtpSession) : Prop :=
  Packet tr (v'.buffer v'.bufIdx) ∨ v'.buffer v'.bufIdx = v.buffer v.bufIdx

theorem rtpEmit_current (tr : RtspTransport) (channel : Nat) (w : RtpSession) (pk : RtpPacket)
    (payload : Bool → List UInt8) (h : ∀ last, headLen tr + (payload last).length ≤ remainingOf tr) :
    Packet tr ((rtpEmit tr channel w pk payload).buffer (rtpEmit tr channel w pk payload).bufIdx) := by
  refine ⟨channel, w, pk.offset == pk.size, payload (pk.offset == pk.size), ?_, h _⟩
  exact Function.update_self ..

theorem jpegPayload_length (mem : Mem) (tr : RtspTransport) (pk : RtpPacket) (d x y : Nat) :
    headLen tr + (jpgHeader d x y ++
      (if pk.offset == 0 then jpegFirst mem tr pk else jpegNext mem tr pk).1).length ≤ remainingOf tr := by
  obtain ⟨head, room⟩ := packet_room tr
  rw [tcpMss] at room
  split
  · simp only [jpegFirst, jpgHeader, jpgQTHeader, jpegFirstRoom, jpgNumYCQUNTSize, jpgNumQUNTSize, tcpMss,
      List.length_append, List.length_cons, List.length_nil, length_be, Mem.length_read]
    omega
  · simp only [jpegNext, jpgHeader, jpegRoom, tcpMss, List.length_append, List.length_cons, List.length_nil,
      length_be, Mem.length_read]
    omega

theorem Packs.fits (h : Packs mem tr channel v v') : Fits tr v v' := by
  cases h with
  | idle k => exact .inr (by rw [k.buffer, k.idx])
  | @nal c u hc k =>
    unfold nalDoing
    refine .inl (rtpEmit_current tr channel _ _ _ fun last => ?_)
    exact nalPayload_length (compact hc) mem tr u.rtpPk last
  | @jpeg u k =>
    unfold jpegDoing
    refine .inl (rtpEmit_current tr channel _ _ _ fun _ => ?_)
    exact jpegPayload_length mem tr u.rtpPk _ _ _

/-- After `video_play` the current buffer is empty or holds a packet. -/
theorem videoPlay_fits (hs : rc.rtpSs = some s) (h : rtspdClientRtpVideoPlay mem rc = some (r, rc')) :
    ∃ q v, rc' = rc.withVideo s q v ∧
      (v.buffer v.bufIdx = [] ∨ Packet rc.eTransport (v.buffer v.bufIdx)) := by
  obtain ⟨q, v, hv, packs⟩ := videoPlay_packs hs h
  refine ⟨q, v, hv, packs.fits.symm.imp (fun same => ?_) id⟩
  rw [same]
  exact clear_self s.video

theorem videoPlay_isSome (mem : Mem) (hs : rc.rtpSs.isSome) :
    (rtspdClientRtpVideoPlay mem rc).isSome = true := by
  obtain ⟨s, hs⟩ := Option.isSome_iff_exists.mp hs
  have some : (rc.withVideo s rc.rtpQueueVideo s.video.clear).rtpSs =
      some { s with video := s.video.clear } := rfl
  rw [rtspdClientRtpVideoPlay, hs, Option.bind_some]
  dsimp only
  split
  · split
    · rfl
    · rfl
    all_goals
      first
      | rfl
      | (unfold rtspdClientRtpH264Main rtspdClientRtpNalMain; rw [some]; split <;> rfl)
      | (unfold rtspdClientRtpH265Main rtspdClientRtpNalMain; rw [some]; split <;> rfl)
      | (unfold rtspdClientRtpJpegMain; rw [some]; split <;> rfl)
  · rfl

end length

theorem g711Doing_called (tr : RtspTransport) (channel : Nat) (hs : w.startSeq = v.startSeq)
    (hb : w.buffer = v.buffer) (hi : w.bufIdx = v.bufIdx + 1) :
    Called tr v (g711Doing mem tr channel w) :=
  .built _ (rtpPacket_ne_nil tr channel w _ _) (seqNumber_rtpPacket tr channel w _ _)
    (congrArg (fun n => (n + 1) % 2 ^ 16) hs) hi (congrArg (fun b => Function.update b _ _) hb)

/-- A packetizer that moves to the other buffer first: nothing is built there, or a packet. -/
inductive Toggled (tr : RtspTransport) (v v' : RtpSession) : Prop
  | unmoved (same : v' = v)
  | idle (seq : v'.startSeq = v.startSeq) (buffer : v'.buffer = v.buffer) (idx : v'.bufIdx = v.bufIdx + 1)
  | built (called : Called tr v v') (idx : v'.bufIdx = v.bufIdx + 1)

theorem g711Main_called (hs : rc.rtpSs = some s)
    (h : rtspdClientRtpG711Main mem rc q = some (r, rc', q')) :
    ∃ v, rc' = rc.withAudio s v ∧ Toggled rc.eTransport s.audio v := by
  have same : rc = rc.withAudio s s.audio := by
    cases rc
    cases hs
    rfl
  unfold rtspdClientRtpG711Main at h
  split at h
  · rw [hs, Option.map_some, Option.some.injEq] at h
    cases ht : s.audio.txReady with
    | ready =>
      simp only [ht] at h
      split at h <;> simp only [Prod.mk.injEq] at h
      · exact ⟨_, h.2.1.symm, .idle rfl rfl rfl⟩
      · exact ⟨_, h.2.1.symm, .built (g711Doing_called _ _ rfl rfl rfl) rfl⟩
    | doing =>
      simp only [ht, Prod.mk.injEq] at h
      exact ⟨_, h.2.1.symm, .built (g711Doing_called _ _ rfl rfl rfl) rfl⟩
    | ended =>
      simp only [ht, Prod.mk.injEq] at h
      exact ⟨_, h.2.1.symm, .idle rfl rfl rfl⟩
    | unset =>
      simp only [ht, Prod.mk.injEq] at h
      exact ⟨_, h.2.1.symm, .idle rfl rfl rfl⟩
  · cases h
    exact ⟨_, same, .unmoved rfl⟩

theorem audioPlay_called (hs : rc.rtpSs = some s)
    (h : rtspdClientRtpAudioPlay mem rc q = some (r, rc', q')) :
    ∃ v, rc' = rc.withAudio s v ∧ Toggled rc.eTransport s.audio.clear v := by
  rw [rtspdClientRtpAudioPlay, hs, Option.bind_some] at h
  have idle : ∃ v, rc.withAudio s s.audio.clear = rc.withAudio s v ∧
      Toggled rc.eTransport s.audio.clear v := ⟨_, rfl, .unmoved rfl⟩
  have called (hm : ∃ v, rc' = (rc.withAudio s s.audio.clear).withAudio
        { s with audio := s.audio.clear } v ∧ Toggled rc.eTransport s.audio.clear v) :
      ∃ v, rc' = rc.withAudio s v ∧ Toggled rc.eTransport s.audio.clear v := hm
  dsimp only at h
  split at h
  · split at h
    · cases h
      exact idle
    · exact called (g711Main_called rfl h)
    · exact called (g711Main_called rfl h)
    · exact called (g711Main_called rfl h)
    · exact called (g711Main_called rfl h)
    · exact called (g711Main_called rfl h)
    · cases h
      exact idle
  · cases h
    exact idle

/-- What a track's play function makes of its session: nothing built and nothing left in the
current buffer, or one packet in it. -/
structure Plays (tr : RtspTransport) (v v' : RtpSession) : Prop where
  nothing : v'.startSeq = v.startSeq → v'.buffer v'.bufIdx = []
  packet : v'.startSeq ≠ v.startSeq → v'.buffer v'.bufIdx ≠ [] ∧
    v'.startSeq = (v.startSeq + 1) % 2 ^ 16 ∧ seqNumber tr (v'.buffer v'.bufIdx) = v'.startSeq

theorem succ_mod_ne (n : Nat) : (n + 1) % 2 ^ 16 ≠ n := by
  omega

theorem Called.plays (h : Called tr v.clear v') : Plays tr v v' := by
  cases h with
  | idle seq buffer idx =>
    refine ⟨fun _ => ?_, fun hne => absurd seq hne⟩
    rw [buffer, idx]
    exact clear_self v
  | built p some number seq idx buffer =>
    have current : v'.buffer v'.bufIdx = p := by rw [buffer, Function.update_self]
    refine ⟨fun h => absurd (seq.symm.trans h) (succ_mod_ne _), fun _ => ?_⟩
    rw [current]
    exact ⟨some, seq, number⟩

theorem flip_flip (i : Fin 2) : i + 1 + 1 = i := by
  revert i
  decide

/-- The audio call empties the buffer it leaves and finds the other one empty. -/
theorem Toggled.plays (h : Toggled tr v.clear v') (other : v.buffer (v.bufIdx + 1) = []) :
    Plays tr v v' ∧ v'.buffer (v'.bufIdx + 1) = [] := by
  have still : v.clear.buffer (v.bufIdx + 1) = [] := (clear_other v (flip_ne _)).trans other
  cases h with
  | unmoved same =>
    subst same
    exact ⟨⟨fun _ => clear_self v, fun hne => absurd rfl hne⟩, still⟩
  | idle seq buffer idx =>
    have idx : v'.bufIdx = v.bufIdx + 1 := idx
    refine ⟨⟨fun _ => ?_, fun hne => absurd seq hne⟩, ?_⟩
    · rw [buffer, idx, still]
    · rw [buffer, idx, flip_flip, clear_self]
  | built called idx =>
    have idx : v'.bufIdx = v.bufIdx + 1 := idx
    refine ⟨called.plays, ?_⟩
    cases called with
    | idle _ _ idx' => exact absurd (idx.symm.trans idx') (flip_ne _)
    | built p some number seq idx' buffer =>
      rw [buffer, Function.update_of_ne (flip_ne _), idx, flip_flip, clear_self]

end called

end En675.Rtsp
