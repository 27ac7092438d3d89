import En675.Lib.Transition
import En675.Rtsp.RtpPlay
import Mathlib.Data.List.Chain

/-! The loops of `rtspd_client_rtp_main` and `rtspd_client_udp_rtp_main` over one session
with video and audio, with a record of what was handed to the send functions. -/

namespace En675.Rtsp

open Lib

inductive Sender
  | tcp | udp
  deriving DecidableEq, Repr

inductive Track
  | video | audio
  deriving DecidableEq, Repr

def RtpSs.track (s : RtpSs) : Track → RtpSession
  | .video => s.video
  | .audio => s.audio

/-- One call of a track's play function and the send that may follow it: the packet that
was built, and the buffer content that was passed to the send function. -/
structure Call where
  track : Track
  eTransport : RtspTransport
  built : Option (List UInt8)
  passed : Option (List UInt8)

structure Playing where
  rc : RtspClient
  rtpQueueAudio : RtpQueue
  /-- The sender's task is in its loop. -/
  live : Bool
  calls : List Call

namespace Playing

/-- A packet was built when the sequence number went on; a buffer is passed on when the
length of the current one is not 0. -/
def call (t : Track) (tr : RtspTransport) (v v' : RtpSession) : Call where
  track := t
  eTransport := tr
  built := if v'.startSeq = v.startSeq then none else some (v'.buffer v'.bufIdx)
  passed := if v'.bufLen ≠ 0 then some (v'.buffer v'.bufIdx) else none

def note (p : Playing) (t : Track) (rc : RtspClient) : Playing :=
  match p.rc.rtpSs, rc.rtpSs with
  | some s, some s' =>
    { p with rc := rc, calls := p.calls ++ [call t p.rc.eTransport (s.track t) (s'.track t)] }
  | _, _ => { p with rc := rc }

def sends (rc : RtspClient) (t : Track) : Bool :=
  match rc.rtpSs with
  | some s => (s.track t).bufLen ≠ 0
  | none => false

/-- The end of `rtspd_client_rtp_main`. -/
def stop (p : Playing) : Playing := { p with live := false, rc := { p.rc with playQuery := 0 } }

/-- The result -1 ends the task of a TCP session; the UDP task goes on. -/
def failed (sender : Sender) (p : Playing) : Playing :=
  match sender with
  | .tcp => p.stop
  | .udp => p

/-- `case ENX_RTSP_STATE_PLAY`; the flags say that a send returns -1. -/
def play (mem : Mem) (sender : Sender) (videoFails audioFails : Bool) (p : Playing) : Option Playing :=
  (rtspdClientRtpVideoPlay mem p.rc).bind fun (_, rc) =>
    let p := p.note .video rc
    if sends rc .video && videoFails then some (p.failed sender)
    else
      (rtspdClientRtpAudioPlay mem p.rc p.rtpQueueAudio).map fun (res, rc, q) =>
        let p := { p.note .audio rc with rtpQueueAudio := q }
        if sends rc .audio && audioFails then p.failed sender
        else if res = -1 then p.failed sender
        else p

/-- One round over the session; a UDP round passes by a session with another transport. -/
def turn (mem : Mem) (sender : Sender) (videoFails audioFails : Bool) (p : Playing) : Option Playing :=
  match sender with
  | .tcp =>
    match p.rc.state with
    | .none | .options | .describe | .teardown | .error => some p.stop
    | .play => p.play mem sender videoFails audioFails
    | .setup | .pause | .getParameter | .setParameter => some p
  | .udp =>
    if p.rc.eTransport = .udp then
      match p.rc.state with
      | .play => p.play mem sender videoFails audioFails
      | .teardown => some { p with rc := { p.rc with playQuery := 0 } }
      | _ => some p
    else some p

end Playing

/-- `control` is whatever the RTSP task does to the slot but for its RTP session. -/
inductive PlayEvent
  | turn (videoFails audioFails : Bool)
  | video (d : RtpQueueData)
  | audio (d : RtpQueueData)
  | control (rc : RtspClient)

inductive PlayStep (mem : Mem) (sender : Sender) (p : Playing) : PlayEvent → Playing → Prop
  | turn : p.live = true → p.turn mem sender vf af = some p' → PlayStep mem sender p (.turn vf af) p'
  | video : PlayStep mem sender p (.video d)
      { p with rc := { p.rc with rtpQueueVideo := rtpQueuePut p.rc.rtpQueueVideo d } }
  | audio : PlayStep mem sender p (.audio d) { p with rtpQueueAudio := rtpQueuePut p.rtpQueueAudio d }
  | control : rc.rtpSs = p.rc.rtpSs → PlayStep mem sender p (.control rc) { p with rc := rc }

/-- A run starts with send buffers as `SETUP` allocates them. -/
def playing (mem : Mem) (sender : Sender) : Lts Playing PlayEvent where
  init p := p.live = true ∧ p.calls = [] ∧
    ∃ s, p.rc.rtpSs = some s ∧ ∀ t i, (s.track t).buffer i = []
  step := PlayStep mem sender

namespace Playing

def numbers (t : Track) (cs : List Call) : List Nat :=
  (cs.filter (·.track = t)).filterMap fun c => c.passed.map (seqNumber c.eTransport)

/-- What is handed to the send functions: the packet a call has built, if any, and of each
track the sequence numbers one by one. -/
structure Once (p : Playing) : Prop where
  passed : ∀ c ∈ p.calls, c.passed = c.built
  consecutive : ∀ t, (numbers t p.calls).IsChain fun a b => b = (a + 1) % 2 ^ 16

variable {mem : Mem} {p : Playing}

/-- The last number of a track is that of its session; the audio buffer that is not current
is empty, so that the next call, which moves to it, finds nothing there. -/
structure Inv (p : Playing) : Prop where
  once : p.Once
  session : ∃ s, p.rc.rtpSs = some s ∧ s.audio.buffer (s.audio.bufIdx + 1) = [] ∧
    ∀ t, ∀ n ∈ (numbers t p.calls).getLast?, n = (s.track t).startSeq

theorem numbers_append (t : Track) (cs : List Call) (c : Call) :
    numbers t (cs ++ [c]) =
      numbers t cs ++ if c.track = t then (c.passed.map (seqNumber c.eTransport)).toList else [] := by
  by_cases h : c.track = t
  · cases hp : c.passed <;> simp [numbers, h, hp, List.filter_append]
  · simp [numbers, h, List.filter_append]

theorem call_plays (t : Track) (h : Plays tr v v') :
    (v'.startSeq = v.startSeq ∧ call t tr v v' = ⟨t, tr, none, none⟩) ∨
      ∃ x, call t tr v v' = ⟨t, tr, some x, some x⟩ ∧ seqNumber tr x = v'.startSeq ∧
        v'.startSeq = (v.startSeq + 1) % 2 ^ 16 := by
  by_cases hs : v'.startSeq = v.startSeq
  · have empty : v'.bufLen = 0 := by rw [RtpSession.bufLen, h.nothing hs, List.length_nil]
    left
    simp [call, hs, empty]
  · obtain ⟨ne, seq, number⟩ := h.packet hs
    have full : v'.bufLen ≠ 0 := fun h => ne (List.length_eq_zero_iff.mp h)
    right
    refine ⟨_, ?_, number, seq⟩
    simp [call, hs, full]

theorem Inv.note (i : Inv p) (hs : p.rc.rtpSs = some s) (hs' : rc'.rtpSs = some s') {t : Track}
    (plays : Plays p.rc.eTransport (s.track t) (s'.track t)) (same : ∀ u, u ≠ t → s'.track u = s.track u)
    (other : s'.audio.buffer (s'.audio.bufIdx + 1) = []) : Inv (p.note t rc') := by
  obtain ⟨⟨passed, consecutive⟩, s₀, hs₀, _, last⟩ := i
  obtain rfl : s = s₀ := Option.some.inj (hs.symm.trans hs₀)
  have noted : p.note t rc' =
      { p with rc := rc', calls := p.calls ++ [call t p.rc.eTransport (s.track t) (s'.track t)] } := by
    simp [Playing.note, hs, hs']
  rw [noted]
  refine ⟨⟨fun c hc => ?_, fun u => ?_⟩, s', hs', other, fun u n hn => ?_⟩
  · rcases List.mem_append.mp hc with hc | hc
    · exact passed c hc
    · rw [List.mem_singleton.mp hc]
      rcases call_plays t plays with ⟨_, h⟩ | ⟨x, h, _⟩ <;> rw [h]
  · rw [numbers_append]
    rcases call_plays t plays with ⟨_, h⟩ | ⟨x, h, number, seq⟩
    · simpa [h] using consecutive u
    · by_cases ht : t = u
      · subst ht
        simp only [h, if_true, Option.map_some, Option.toList_some]
        refine (consecutive t).append (List.isChain_singleton _) (fun a ha b hb => ?_)
        rw [List.head?_cons, Option.mem_some_iff] at hb
        rw [← hb, number, seq, last t a ha]
      · simpa [h, ht] using consecutive u
  · rw [numbers_append] at hn
    rcases call_plays t plays with ⟨hq, h⟩ | ⟨x, h, number, seq⟩
    · have old : n ∈ (numbers u p.calls).getLast? := by simpa [h] using hn
      by_cases ht : u = t
      · rw [last u n old, ht, hq]
      · rw [last u n old, same u ht]
    · by_cases ht : t = u
      · subst ht
        simp [h] at hn
        rw [← hn, number]
      · have old : n ∈ (numbers u p.calls).getLast? := by simpa [h, ht] using hn
        rw [last u n old, same u (fun e => ht e.symm)]

theorem Inv.ignores (i : Inv p) (hs : p'.rc.rtpSs = p.rc.rtpSs) (hc : p'.calls = p.calls) : Inv p' := by
  obtain ⟨⟨passed, consecutive⟩, session⟩ := i
  exact ⟨⟨hc ▸ passed, hc ▸ consecutive⟩, by rw [hs, hc]; exact session⟩

theorem Inv.failed (i : Inv p) (sender : Sender) : Inv (p.failed sender) := by
  cases sender with
  | tcp => exact i.ignores rfl rfl
  | udp => exact i

theorem note_calls (p : Playing) (t : Track) (rc : RtspClient) : (p.note t rc).rc = rc := by
  unfold Playing.note
  split <;> rfl

theorem Inv.play (i : Inv p) {sender : Sender} (h : p.play mem sender vf af = some p') : Inv p' := by
  obtain ⟨s, hs, other, _⟩ := i.session
  rw [Playing.play, Option.bind_eq_some_iff] at h
  obtain ⟨⟨r, rc⟩, hv, h⟩ := h
  obtain ⟨q, v, rfl, called⟩ := videoPlay_called hs hv
  have video : Inv (p.note .video (p.rc.withVideo s q v)) := by
    have hs' : (p.rc.withVideo s q v).rtpSs = some { s with video := v } := rfl
    refine i.note hs hs' called.plays (fun u hu => ?_) other
    cases u with
    | video => exact absurd rfl hu
    | audio => rfl
  dsimp only at h
  split at h
  · cases h
    exact video.failed sender
  · rw [note_calls, Option.map_eq_some_iff] at h
    obtain ⟨⟨r', rc', q'⟩, ha, h⟩ := h
    have hs' : (p.rc.withVideo s q v).rtpSs = some { s with video := v } := rfl
    obtain ⟨a, rfl, toggled⟩ := audioPlay_called hs' ha
    obtain ⟨plays, other'⟩ := toggled.plays other
    have audio : Inv ((p.note .video (p.rc.withVideo s q v)).note .audio
        ((p.rc.withVideo s q v).withAudio { s with video := v } a)) := by
      have ha : ((p.rc.withVideo s q v).withAudio { s with video := v } a).rtpSs = some ⟨v, a⟩ := rfl
      refine video.note ((congrArg RtspClient.rtpSs (note_calls ..)).trans hs') ha ?_
        (fun u hu => ?_) other'
      · rw [note_calls]
        exact plays
      · cases u with
        | video => rfl
        | audio => exact absurd rfl hu
    have both : Inv { (p.note .video (p.rc.withVideo s q v)).note .audio
        ((p.rc.withVideo s q v).withAudio { s with video := v } a) with rtpQueueAudio := q' } :=
      audio.ignores rfl rfl
    dsimp only at h
    split at h
    · exact h ▸ both.failed sender
    · split at h
      · exact h ▸ both.failed sender
      · exact h ▸ both

theorem Inv.turn (i : Inv p) {sender : Sender} (h : p.turn mem sender vf af = some p') : Inv p' := by
  cases sender with
  | tcp =>
    simp only [Playing.turn] at h
    split at h
    all_goals first | exact i.play h | cases h
    all_goals first | exact i | exact i.ignores rfl rfl
  | udp =>
    simp only [Playing.turn] at h
    split at h
    · split at h
      · exact i.play h
      · cases h
        exact i.ignores rfl rfl
      · cases h
        exact i
    · cases h
      exact i

theorem inv_inductive (mem : Mem) (sender : Sender) : (playing mem sender).Inductive Lts.any Inv where
  init {p} h := by
    obtain ⟨_, hc, s, hs, empty⟩ := h
    refine ⟨⟨by simp [hc], fun t => ?_⟩, s, hs, empty .audio _, fun t n hn => ?_⟩
    · simp [hc, numbers]
    · simp [hc, numbers] at hn
  step {p e p'} i _ st := by
    cases st with
    | turn _ h => exact i.turn h
    | video => exact i.ignores rfl rfl
    | audio => exact i.ignores rfl rfl
    | control hs => exact i.ignores hs rfl

/-- No packet is handed to a send function twice: a call that builds none sends none, and the
numbers of a track follow one another. -/
theorem no_packet_twice (r : Reach (playing mem sender) Lts.any p) : p.Once :=
  ((inv_inductive mem sender).reach r).once

/-- A TCP session with both tracks and one audio frame in its queue. -/
def oneAudioFrame : Playing where
  rc :=
    { RtspClient.zero with
      state := .play
      playQuery := 3
      isLive := .liveH264_1
      eTransport := .tcp
      rtpSs := some ⟨.zero, { RtpSession.zero with txReady := .ready }⟩ }
  rtpQueueAudio := rtpQueuePut (rtpQueueInit 100) ⟨0, 2, 0, 160⟩
  live := true
  calls := []

theorem no_packet_twice_idle :
    ∃ p, Reach (playing (fun _ => 0) .tcp) Lts.any p ∧ p.Once ∧
      p.calls.map (fun c => (c.track, c.passed.map List.length)) =
        [(.video, none), (.audio, some 18), (.video, none), (.audio, none)] := by
  have start : Reach (playing (fun _ => 0) .tcp) Lts.any oneAudioFrame := by
    refine .init ⟨rfl, rfl, _, rfl, fun t i => ?_⟩
    cases t <;> rfl
  have ok : ∀ p e, Lts.any (S := Playing) (L := PlayEvent) p e := fun _ _ => trivial
  have first := start.step (ok _ (.turn false false)) (.turn rfl rfl)
  have second := first.step (ok _ (.turn false false)) (.turn rfl rfl)
  exact ⟨_, second, no_packet_twice second, by decide +kernel⟩

end Playing

end En675.Rtsp
