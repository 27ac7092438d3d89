import En675.Rtsp.Define

/-! The packetizers are called until `tx_ready` is `ENX_RTP_TXSTE_READY` again.  What one
`ENX_RTP_TXSTE_DOING` call does to the session is a parameter here. -/

namespace En675.Rtsp

open Lib

def sent (v : RtpSession) : List UInt8 := v.buffer v.bufIdx

/-- Calls from `v` until the frame is finished, and the packet of each. -/
inductive TxRun (doing : RtpSession → RtpSession) :
    RtpSession → List (List UInt8) → RtpSession → Prop
  | last : (doing v).txReady = .ready → TxRun doing v [sent (doing v)] (doing v)
  | more : (doing v).txReady = .doing → TxRun doing (doing v) ps v' →
      TxRun doing v (sent (doing v) :: ps) v'

/-- A call that builds a packet moves to the other send buffer. -/
def txRun (main : RtspClient → Option (Int × RtspClient)) :
    Nat → RtspClient → Option (List (List UInt8) × RtspClient)
  | 0, _ => none
  | n + 1, rc =>
    match main rc with
    | none => none
    | some (_, rc') =>
      match rc.rtpSs, rc'.rtpSs with
      | some s, some s' =>
        let out := if s'.video.bufIdx = s.video.bufIdx then [] else [sent s'.video]
        if s'.video.txReady = .ready then some (out, rc')
        else (txRun main n rc').map fun (ps, r) => (out ++ ps, r)
      | _, _ => none

/-- `main` in state `ENX_RTP_TXSTE_DOING` is `doing` on the video session. -/
def Performs (main : RtspClient → Option (Int × RtspClient))
    (doing : RtspTransport → Nat → RtpSession → RtpSession) : Prop :=
  ∀ rc s, (rc.eTransport = .udp ∨ rc.eTransport = .tcp) → rc.rtpSs = some s →
    s.video.txReady = .doing → ∃ r, main rc = some (r, rc.withVideo s rc.rtpQueueVideo
      (doing rc.eTransport (rc.connInfo.rtpPort 0) s.video))

theorem flip_ne (i : Fin 2) : i + 1 ≠ i := by
  revert i
  decide

section run

variable {main : RtspClient → Option (Int × RtspClient)}
  {doing : RtspTransport → Nat → RtpSession → RtpSession}

theorem txRun_last {rc : RtspClient} (hss : rc.rtpSs = some s)
    (hmain : main rc = some (r, rc.withVideo s q v)) (hidx : v.bufIdx = s.video.bufIdx + 1)
    (hready : v.txReady = .ready) :
    txRun main (n + 1) rc = some ([sent v], rc.withVideo s q v) := by
  have hne : v.bufIdx ≠ s.video.bufIdx := hidx ▸ flip_ne _
  simp [txRun, hmain, hss, RtspClient.withVideo, hready, hne]

theorem txRun_more {rc : RtspClient} (hss : rc.rtpSs = some s)
    (hmain : main rc = some (r, rc.withVideo s q v)) (hidx : v.bufIdx = s.video.bufIdx + 1)
    (hdoing : v.txReady = .doing) :
    txRun main (n + 1) rc =
      (txRun main n (rc.withVideo s q v)).map fun (ps, r) => (sent v :: ps, r) := by
  have hne : v.bufIdx ≠ s.video.bufIdx := hidx ▸ flip_ne _
  simp [txRun, hmain, hss, RtspClient.withVideo, hdoing, hne]

/-- Whatever follows, the packet of this call comes first. -/
theorem txRun_head {rc : RtspClient} (hss : rc.rtpSs = some s)
    (hmain : main rc = some (r, rc.withVideo s q v)) (hidx : v.bufIdx = s.video.bufIdx + 1)
    (h : txRun main (n + 1) rc = some (ps, rc')) :
    ∃ tl, ps = sent v :: tl := by
  have hne : v.bufIdx ≠ s.video.bufIdx := hidx ▸ flip_ne _
  simp only [txRun, hmain, hss, RtspClient.withVideo, hne, if_false] at h
  split at h
  · cases h
    exact ⟨[], rfl⟩
  · obtain ⟨⟨tl, r⟩, _, hr⟩ := Option.map_eq_some_iff.1 h
    cases hr
    exact ⟨tl, rfl⟩

theorem TxRun.txRun (hp : Performs main doing)
    (hidx : ∀ tr ch v, (doing tr ch v).bufIdx = v.bufIdx + 1)
    (hrun : TxRun (doing tr channel) v ps v') (htr : tr = .udp ∨ tr = .tcp) :
    ∀ (rc : RtspClient) {s : RtpSs} {q : RtpQueue} {r : Int}, rc.eTransport = tr →
      rc.connInfo.rtpPort 0 = channel → rc.rtpSs = some s → s.video.bufIdx = v.bufIdx →
      main rc = some (r, rc.withVideo s q (doing tr channel v)) →
      ∃ n, Rtsp.txRun main n rc = some (ps, rc.withVideo s q v') := by
  induction hrun with
  | @last v hready =>
    intro rc s q r _ _ hss hb hmain
    exact ⟨1, txRun_last hss hmain (by rw [hidx, hb]) hready⟩
  | @more v ps v'' hdoing hrun ih =>
    intro rc s q r he hch hss hb hmain
    obtain ⟨r', hmain'⟩ := hp (rc.withVideo s q (doing tr channel v))
      { s with video := doing tr channel v } (he ▸ htr) rfl hdoing
    obtain ⟨n, hn⟩ := ih (rc.withVideo s q (doing tr channel v))
      (q := q) he hch rfl rfl (by rw [hmain']; subst he hch; rfl)
    refine ⟨n + 1, ?_⟩
    rw [txRun_more hss hmain (by rw [hidx, hb]) hdoing, hn]
    rfl

end run

/-- A frame in memory at the head of the queue of a client with nothing under way. -/
structure Queued (mem : Mem) (rc : RtspClient) (s : RtpSs) (pd : RtpQueueData) (q : RtpQueue)
    (frame : List UInt8) : Prop where
  transport : rc.eTransport = .udp ∨ rc.eTransport = .tcp
  session : rc.rtpSs = some s
  ready : s.video.txReady = .ready
  head : rtpQueueGet rc.rtpQueueVideo = some (pd, q)
  size : pd.size = frame.length
  word : pd.size < 2 ^ 32
  top : pd.addr + pd.size ≤ 2 ^ 32
  holds : mem.Holds pd.addr frame

section fresh

/-- A client with nothing sent yet and one frame queued. -/
def freshClient (tr : RtspTransport) (frame : List UInt8) (flags : Nat) : RtspClient :=
  { RtspClient.zero with
    eTransport := tr
    rtpSs := some { RtpSs.zero with video := { RtpSession.zero with txReady := .ready } }
    rtpQueueVideo := rtpQueuePut (rtpQueueInit 60) ⟨0, frame.length, flags, 3000⟩ }

theorem queued_freshClient (tr : RtspTransport) (htr : tr = .udp ∨ tr = .tcp) (frame : List UInt8) (flags : Nat)
    (h : frame.length < 2 ^ 32) :
    Queued (.ofList frame) (freshClient tr frame flags)
      { RtpSs.zero with video := { RtpSession.zero with txReady := .ready } }
      ⟨0, frame.length, flags, 3000⟩ (freshClient tr frame flags).rtpQueueVideo.pop frame where
  transport := htr
  session := rfl
  ready := rfl
  head := rfl
  size := rfl
  word := h
  top := by
    simp only [Nat.zero_add]
    omega
  holds := Mem.holds_ofList frame

end fresh

/-- The octets `rest` of the frame in `pk` are still to be sent. -/
structure Pending (mem : Mem) (pk : RtpPacket) (rest : List UInt8) : Prop where
  len : pk.offset + rest.length = pk.size
  top : pk.base + pk.size ≤ 2 ^ 32
  word : pk.size < 2 ^ 32
  holds : mem.Holds (pk.base + pk.offset) rest

namespace Pending

variable {mem : Mem} {pk pk' : RtpPacket} {rest xs ys : List UInt8}

theorem left (h : Pending mem pk rest) : usub pk.size pk.offset = rest.length := by
  have hl := h.len
  have hw := h.word
  rw [usub_of_le (by omega) hw]
  omega

theorem addr (h : Pending mem pk rest) (hne : rest ≠ []) :
    uadd pk.base pk.offset = pk.base + pk.offset := by
  have hl := h.len
  have ht := h.top
  have hp : 0 < rest.length := List.length_pos_of_ne_nil hne
  exact uadd_of_lt (by omega)

theorem move (h : Pending mem pk (xs ++ ys)) (hb : pk'.base = pk.base)
    (hs : pk'.size = pk.size) (ho : pk'.offset = pk.offset + xs.length) : Pending mem pk' ys := by
  have hl := h.len
  rw [List.length_append] at hl
  refine ⟨by omega, by rw [hb, hs]; exact h.top, by rw [hs]; exact h.word, ?_⟩
  rw [hb, ho, ← Nat.add_assoc]
  exact (Mem.Holds.append.1 h.holds).2

theorem skip (h : Pending mem pk (xs ++ ys)) :
    Pending mem { pk with offset := pk.offset + xs.length } ys := h.move rfl rfl rfl

theorem advance (h : Pending mem pk (xs ++ ys)) : uadd pk.offset xs.length = pk.offset + xs.length := by
  have hl := h.len
  have hw := h.word
  rw [List.length_append] at hl
  exact uadd_of_lt (by omega)

theorem read (h : Pending mem pk (xs ++ ys)) (hne : xs ≠ []) :
    mem.read (uadd pk.base pk.offset) xs.length = xs := by
  rw [h.addr (by simp [hne])]
  have := h.holds.read_take (n := xs.length) (by simp)
  rwa [List.take_left'] at this
  rfl

theorem done (h : Pending mem pk rest) : (pk.offset == pk.size) = rest.isEmpty := by
  have hl := h.len
  cases rest with
  | nil =>
    have : pk.offset = pk.size := by simpa using hl
    simp [this]
  | cons b bs =>
    simp only [List.length_cons] at hl
    have : pk.offset ≠ pk.size := by omega
    simp [this]

end Pending

theorem Queued.pending {frame : List UInt8} (h : Queued mem rc s pd q frame)
    (hb : pk.base = pd.addr) (hs : pk.size = pd.size) (ho : pk.offset = 0) :
    Pending mem pk frame where
  len := by rw [ho, hs, h.size, Nat.zero_add]
  top := by rw [hb, hs]; exact h.top
  word := by rw [hs]; exact h.word
  holds := by rw [hb, ho]; exact h.holds

section emit

variable {mem : Mem} {pk : RtpPacket} {rest : List UInt8}

@[simp] theorem rtpPk_rtpEmit : (rtpEmit tr ch v pk f).rtpPk = pk := rfl
@[simp] theorem bufIdx_rtpEmit : (rtpEmit tr ch v pk f).bufIdx = v.bufIdx + 1 := rfl
@[simp] theorem startSeq_rtpEmit : (rtpEmit tr ch v pk f).startSeq = (v.startSeq + 1) % 2 ^ 16 := rfl
@[simp] theorem startRtptime_rtpEmit : (rtpEmit tr ch v pk f).startRtptime = v.startRtptime := rfl

theorem txReady_rtpEmit (h : Pending mem pk rest) :
    (rtpEmit tr ch v pk f).txReady = if rest.isEmpty then .ready else .doing := by
  simp only [rtpEmit, h.done]

theorem sent_rtpEmit (h : Pending mem pk rest) :
    sent (rtpEmit tr ch v pk f) = rtpPacket tr ch v rest.isEmpty (f rest.isEmpty) := by
  simp [sent, rtpEmit, h.done]

end emit

end En675.Rtsp
