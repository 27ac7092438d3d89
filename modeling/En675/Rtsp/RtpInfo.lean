import En675.Rtsp.Playing
import En675.Rtsp.Refill
import En675.Rtsp.RtpTime

/-! The numbers that the `RTP-Info` of a `PLAY` gives for the video track, and the packet that is sent
next; audio is compiled out.  The sender may hold a packet while a request is answered, so that its call
and its send are two steps. -/

namespace En675.Rtsp

open Lib

/-- The numbers that were printed, and what the sender has done since. -/
structure Notice where
  seq : Nat
  rtptime : Nat
  /-- The packets that were built. -/
  built : Nat
  /-- The sum of the increments of the frames that were taken. -/
  elapsed : Nat

/-- What `rtp_info` prints for the video track. -/
def RtspClient.info (rc : RtspClient) : List Notice :=
  if rc.playQuery &&& strtypeVideo ≠ 0 then
    (rc.rtpSs.map fun s => ⟨s.video.startSeq, s.video.startRtptime, 0, 0⟩).toList
  else []

/-- The request is a `PLAY` that was answered 200. -/
def Exchange.Plays (x : Exchange) : Prop := x.parsed = true ∧ x.method = .play ∧ statusLine .s200 <+: x.reply

instance (x : Exchange) : Decidable x.Plays := inferInstanceAs (Decidable (_ ∧ _ ∧ _))

/-- An `RTP-Info`, and the packet that was sent first behind it. -/
structure First where
  notice : Notice
  transport : RtspTransport
  packet : List UInt8

def First.Announced (a : First) : Prop :=
  seqNumber a.transport a.packet = a.notice.seq ∧ rtpTime a.transport a.packet = a.notice.rtptime

instance (a : First) : Decidable a.Announced := inferInstanceAs (Decidable (_ ∧ _))

structure Announcing where
  rc : RtspClient
  /-- The transport that the last packet was built for. -/
  transport : RtspTransport
  /-- A `SETUP` has drawn new numbers since that packet was built. -/
  stale : Bool
  /-- What has been printed since a packet was sent. -/
  notices : List Notice
  firsts : List First

namespace Announcing

def request (c : Announcing) (e : Env) (buf : List UInt8) : Announcing :=
  let s := (⟨c.rc, []⟩ : Session).request e buf
  { c with
    rc := s.rc
    stale := c.stale || requestRefills e c.rc buf
    notices := c.notices ++ if ∃ x ∈ s.log, x.Plays then s.rc.info else [] }

/-- The increment of the frame that a call of the sender has taken. -/
def taken (rc rc' : RtspClient) : Nat :=
  match rtpQueueGet rc.rtpQueueVideo with
  | some (pd, _) => if rc'.rtpQueueVideo.length = rc.rtpQueueVideo.length then 0 else pd.ts
  | none => 0

/-- The sender goes on. -/
def count (built elapsed : Nat) (n : Notice) : Notice :=
  { n with built := n.built + built, elapsed := n.elapsed + elapsed }

/-- A call of the sender: a packet was built if the current buffer is not empty. -/
def pack (mem : Mem) (c : Announcing) : Option Announcing :=
  (rtspdClientRtpVideoPlay mem c.rc).map fun (_, rc) =>
    { c with
      rc
      transport := c.rc.eTransport
      stale := false
      notices := c.notices.map (count (if Playing.sends rc .video then 1 else 0) (taken c.rc rc)) }

/-- The current buffer is sent. -/
def pass (c : Announcing) (packet : List UInt8) : Announcing :=
  { c with notices := [], firsts := c.firsts ++ c.notices.map fun n => ⟨n, c.transport, packet⟩ }

end Announcing

inductive InfoEvent
  | frame (d : RtpQueueData) (videoType : RtspStream)
  | pack (mem : Mem)
  | pass
  | request (e : Env) (buf : List UInt8)
  | rtpExit
  | udpError
  | kick

/-- `start_seq` is a `WORD` and `start_rtptime` a `UINT`. -/
structure Env.Words (e : Env) : Prop where
  seq : e.startSeq < 2 ^ 16
  rtptime : e.startRtptime < 2 ^ 32

inductive InfoStep (c : Announcing) : InfoEvent → Announcing → Prop
  | frame : InfoStep c (.frame d videoType) { c with rc := rtpQueueStreamVideoPut d videoType c.rc }
  | pack : c.pack mem = some c' → InfoStep c (.pack mem) c'
  | pass : c.rc.rtpSs = some s → s.video.bufLen ≠ 0 →
      InfoStep c .pass (c.pass (s.video.buffer s.video.bufIdx))
  | request : e.Words → InfoStep c (.request e buf) (c.request e buf)
  | rtpExit : InfoStep c .rtpExit { c with rc := { c.rc with playQuery := 0 } }
  | udpError : InfoStep c .udpError { c with rc := { c.rc with state := .error } }
  | kick : InfoStep c .kick { c with rc := (rtspdClientRtspState c.rc .teardown).2 }

def announcing (mode : RtspdAuth) : Lts Announcing InfoEvent where
  init c := (∃ index clientid addr, c.rc = Session.clientInit mode index clientid addr) ∧
    c.stale = false ∧ c.notices = [] ∧ c.firsts = []
  step := InfoStep

/-- The condition: no `SETUP` draws new numbers between an `RTP-Info` and the packet that is sent first
behind it, whichever of the two comes about before it. -/
def Announcing.Undrawn (c : Announcing) : InfoEvent → Prop
  | .request e buf => requestRefills e c.rc buf = true → c.notices = []
  | .pass => c.stale = true → c.notices = []
  | _ => True

/-- The sender has built no packet and taken no time, but for wraps. -/
def Notice.Still (n : Notice) : Prop := n.built % 2 ^ 16 = 0 ∧ n.elapsed % 2 ^ 32 = 0

instance (n : Notice) : Decidable n.Still := inferInstanceAs (Decidable (_ ∧ _))

section printed

variable {e : Env} {rc : RtspClient}

/-- A `PLAY` that is answered 200 prints what it leaves in the block. -/
theorem processPlay_prints (h : (rtspdClientRtspProcessPlay e rc).Accepted) :
    ∃ s, (rtspdClientRtspProcessPlay e rc).rc.rtpSs = some s ∧
      (rtspdClientRtspProcessPlay e rc).reply = (rtspdClientRtspProcessPlay e rc).rc.headS .s200 ++
        (rtspdClientRtspProcessPlay e rc).rc.rtpInfoLine s ++ rtspdClientRtspMakeDatetime e.tm ++ crlf := by
  have refused (rc : RtspClient) : ¬ (rtspdClientRtspProcessError e rc .s400).Accepted :=
    processError_refused e rc nofun
  unfold rtspdClientRtspProcessPlay at h ⊢
  split
  · rename_i hq
    rw [if_pos hq] at h
    exact absurd h (refused rc)
  · rename_i hq
    rw [if_neg hq] at h
    split
    · rename_i hs
      rw [hs] at h
      exact absurd h (refused _)
    · rename_i rc' hs
      rw [hs] at h
      dsimp only at h
      split
      · rename_i hn
        rw [if_pos hn] at h
        exact absurd (List.prefix_nil.mp h) (by decide)
      · rename_i hn
        rw [if_neg hn] at h
        split
        · rename_i none_
          rw [none_] at h
          exact absurd (List.prefix_nil.mp h) (by decide)
        · rename_i s block
          exact ⟨s, block, rfl⟩

theorem dispatch_prints (play : rc.method = .play) (h : (dispatch e rc).Accepted) :
    ∃ s, (dispatch e rc).rc.rtpSs = some s ∧
      (dispatch e rc).reply = (dispatch e rc).rc.headS .s200 ++ (dispatch e rc).rc.rtpInfoLine s ++
        rtspdClientRtspMakeDatetime e.tm ++ crlf := by
  have answered := dispatch_cases e rc
  generalize dispatch e rc = a at answered h ⊢
  cases answered with
  | unauthorized => exact absurd h (unauthorized_refused e rc)
  | torn => exact absurd h (processError_refused e rc nofun)
  | unserved => exact absurd h (processError_refused e _ nofun)
  | handled _ _ hc =>
    obtain ⟨_, _, _, _, method, _⟩ := checkUrl_reads e hc
    simp only [processMethod, method.trans play] at h ⊢
    exact processPlay_prints h

theorem plays_prints {buf : List UInt8} {x : Exchange} (hx : x ∈ ((⟨rc, []⟩ : Session).request e buf).log)
    (plays : x.Plays) :
    ∃ s, ((⟨rc, []⟩ : Session).request e buf).rc.rtpSs = some s ∧
      x.reply = ((⟨rc, []⟩ : Session).request e buf).rc.headS .s200 ++
        ((⟨rc, []⟩ : Session).request e buf).rc.rtpInfoLine s ++ rtspdClientRtspMakeDatetime e.tm ++ crlf := by
  unfold Session.request at hx ⊢
  dsimp only at hx ⊢
  split at hx
  · obtain rfl := List.mem_singleton.mp hx
    cases plays.1
  · obtain rfl := List.mem_singleton.mp hx
    exact dispatch_prints plays.2.1 plays.2.2

end printed

namespace Announcing

structure Numbered (v : RtpSession) : Prop where
  seq : v.startSeq < 2 ^ 16
  rtptime : v.startRtptime < 2 ^ 32

/-- The packet in the buffer has the numbers at which the session stands. -/
def Stamps (tr : RtspTransport) (v : RtpSession) : Prop :=
  v.bufLen ≠ 0 →
    seqNumber tr (v.buffer v.bufIdx) = v.startSeq ∧ rtpTime tr (v.buffer v.bufIdx) = v.startRtptime

/-- The session is as far from what was printed as the sender has gone on. -/
structure Counts (v : RtpSession) (n : Notice) : Prop where
  seq : n.seq < 2 ^ 16
  rtptime : n.rtptime < 2 ^ 32
  built : v.startSeq = (n.seq + n.built) % 2 ^ 16
  elapsed : v.startRtptime = (n.rtptime + n.elapsed) % 2 ^ 32

structure Inv (c : Announcing) : Prop where
  wf : c.rc.rtpQueueVideo.Wf
  numbered : c.rc.Video Numbered
  stamps : c.stale = false → c.rc.Video (Stamps c.transport)
  counts : c.rc.Video fun v => ∀ n ∈ c.notices, Counts v n
  gone : c.rc.rtpSs = none → c.rc.state.Lively → c.notices = []
  firsts : ∀ a ∈ c.firsts, a.Announced ↔ a.notice.Still

variable {c c' : Announcing}

theorem numbered_zero : Numbered .zero := ⟨Nat.two_pow_pos 16, Nat.two_pow_pos 32⟩

theorem stamps_zero (tr : RtspTransport) : Stamps tr .zero := fun some_ => absurd rfl some_

/-- What is printed counts from here. -/
theorem Numbered.printed (h : Numbered v) : Counts v ⟨v.startSeq, v.startRtptime, 0, 0⟩ :=
  ⟨h.seq, h.rtptime, (Nat.mod_eq_of_lt h.seq).symm, (Nat.mod_eq_of_lt h.rtptime).symm⟩

theorem Counts.announced (h : Counts v n) (k : Stamps tr v) (some_ : v.bufLen ≠ 0) :
    First.Announced ⟨n, tr, v.buffer v.bufIdx⟩ ↔ n.Still := by
  obtain ⟨seq, rtptime⟩ := k some_
  have := h.seq
  have := h.rtptime
  rw [First.Announced, seq, rtptime, h.built, h.elapsed, Notice.Still]
  dsimp only
  omega

theorem Counts.count (h : Counts v n) (seq : w.startSeq = (v.startSeq + k) % 2 ^ 16)
    (rtptime : w.startRtptime = uadd v.startRtptime t) : Counts w (count k t n) where
  seq := h.seq
  rtptime := h.rtptime
  built := by
    rw [seq, h.built, Nat.mod_add_mod, Nat.add_assoc]
    rfl
  elapsed := by
    rw [rtptime, h.elapsed, uadd, Nat.mod_add_mod, Nat.add_assoc]
    rfl

theorem taken_kept {rc rc' : RtspClient} (h : rc'.rtpQueueVideo = rc.rtpQueueVideo) : taken rc rc' = 0 := by
  unfold taken
  split
  · rw [if_pos (by rw [h])]
  · rfl

theorem taken_get {rc rc' : RtspClient} (wf : rc.rtpQueueVideo.Wf)
    (get : rtpQueueGet rc.rtpQueueVideo = some (pd, rc'.rtpQueueVideo)) :
    taken rc rc' = pd.ts ∧ rc'.rtpQueueVideo.Wf := by
  have shorter : rc'.rtpQueueVideo.length ≠ rc.rtpQueueVideo.length ∧ rc'.rtpQueueVideo.Wf := by
    unfold rtpQueueGet at get
    split at get
    · cases get
    · rename_i some_
      have popped := (Prod.mk.inj (Option.some.inj get)).2
      rw [← popped, RingQueue.length_pop wf (Bool.eq_false_iff.mpr some_)]
      exact ⟨by omega, wf.pop⟩
  unfold taken
  rw [get]
  exact ⟨if_neg shorter.1, shorter.2⟩

/-- A call of the sender counts what it builds and takes. -/
theorem pack_counts {rc rc' : RtspClient} (wf : rc.rtpQueueVideo.Wf) (hs : rc.rtpSs = some s)
    (k : Numbered s.video) (h : rtspdClientRtpVideoPlay mem rc = some (r, rc')) :
    ∃ v, rc'.rtpSs = some { s with video := v } ∧ rc'.rtpQueueVideo.Wf ∧
      Numbered v ∧ Stamps rc.eTransport v ∧
      v.startSeq = (s.video.startSeq + if Playing.sends rc' .video then 1 else 0) % 2 ^ 16 ∧
      v.startRtptime = uadd s.video.startRtptime (taken rc rc') := by
  obtain ⟨q, v, rfl, timed, stamped⟩ := videoPlay_timed hs h
  obtain ⟨q', v', same, called⟩ := videoPlay_called hs h
  have block := congrArg RtspClient.rtpSs same
  obtain rfl : v = v' := congrArg RtpSs.video (Option.some.inj block)
  have plays := called.plays
  have clock : v.startRtptime = uadd s.video.startRtptime (taken rc (rc.withVideo s q v)) ∧ q.Wf := by
    cases timed with
    | kept queue time =>
      rw [taken_kept queue, time, uadd, Nat.add_zero, Nat.mod_eq_of_lt k.rtptime]
      exact ⟨rfl, queue ▸ wf⟩
    | taken pd get time =>
      obtain ⟨taken, wf'⟩ := taken_get wf (show _ = some (pd, (rc.withVideo s q v).rtpQueueVideo) from get)
      rw [taken]
      exact ⟨time, wf'⟩
  have bounded : v.startRtptime < 2 ^ 32 := by
    rw [clock.1]
    exact Nat.mod_lt _ (Nat.two_pow_pos 32)
  have sends : Playing.sends (rc.withVideo s q v) .video = decide (v.bufLen ≠ 0) := rfl
  refine ⟨v, rfl, clock.2, ?_⟩
  rw [sends]
  by_cases built : v.startSeq = s.video.startSeq
  · have empty : v.bufLen = 0 := by
      rw [RtpSession.bufLen, plays.nothing built]
      rfl
    refine ⟨⟨built ▸ k.seq, bounded⟩, fun some_ => absurd empty some_, ?_, clock.1⟩
    rw [if_neg (by simp [empty]), built, Nat.add_zero, Nat.mod_eq_of_lt k.seq]
  · obtain ⟨some_, seq, number⟩ := plays.packet built
    have full : v.bufLen ≠ 0 := fun none_ => some_ (List.length_eq_zero_iff.mp none_)
    refine ⟨⟨?_, bounded⟩, fun _ => ⟨number, ?_⟩, ?_, clock.1⟩
    · rw [seq]
      exact Nat.mod_lt _ (Nat.two_pow_pos 16)
    · rw [stamped built, Nat.mod_eq_of_lt bounded]
    · rw [if_pos (decide_eq_true full), seq]

theorem Inv.pack (i : Inv c) (h : c.pack mem = some c') : Inv c' := by
  rw [Announcing.pack, Option.map_eq_some_iff] at h
  obtain ⟨⟨r, rc⟩, hv, rfl⟩ := h
  obtain ⟨s, hs, _⟩ := Option.bind_eq_some_iff.mp hv
  obtain ⟨v, block, wf, numbered, stamps, seq, rtptime⟩ := pack_counts i.wf hs (i.numbered s hs) hv
  refine ⟨wf, fun s' hs' => ?_, fun _ s' hs' => ?_, fun s' hs' n hn => ?_, fun none_ => ?_, i.firsts⟩
  · cases block.symm.trans hs'
    exact numbered
  · cases block.symm.trans hs'
    exact stamps
  · cases block.symm.trans hs'
    obtain ⟨m, hm, rfl⟩ := List.mem_map.mp hn
    exact (i.counts s hs m hm).count seq rtptime
  · rw [block] at none_
    cases none_

theorem Inv.pass (i : Inv c) (hs : c.rc.rtpSs = some s) (some_ : s.video.bufLen ≠ 0) (ok : c.Undrawn .pass) :
    Inv (c.pass (s.video.buffer s.video.bufIdx)) := by
  refine ⟨i.wf, i.numbered, i.stamps, fun _ _ => nofun, fun _ _ => rfl, fun a ha => ?_⟩
  rcases List.mem_append.mp ha with ha | ha
  · exact i.firsts a ha
  · obtain ⟨n, hn, rfl⟩ := List.mem_map.mp ha
    cases stale : c.stale with
    | true =>
      rw [ok stale] at hn
      cases hn
    | false => exact (i.counts s hs n hn).announced (i.stamps stale s hs) some_

theorem info_counts {rc : RtspClient} (h : rc.Video Numbered) : rc.Video fun v => ∀ n ∈ rc.info, Counts v n := by
  intro s hs n hn
  unfold RtspClient.info at hn
  split at hn
  · rw [hs, Option.map_some, Option.toList_some, List.mem_singleton] at hn
    exact hn ▸ (h s hs).printed
  · cases hn

theorem info_none {rc : RtspClient} (h : rc.rtpSs = none) : rc.info = [] := by
  unfold RtspClient.info
  rw [h, Option.map_none, Option.toList_none, ite_self]

/-- A step that is not the sender's: what was printed still counts, or the session is over. -/
theorem Inv.left {rc : RtspClient} (i : Inv c) (queue : rc.rtpQueueVideo = c.rc.rtpQueueVideo)
    (k : Unfilled c.rc rc) (lively : rc.state.Lively → c.rc.state.Lively) : Inv { c with rc } where
  wf := queue ▸ i.wf
  numbered := k.video numbered_zero i.numbered
  stamps fresh := k.video (stamps_zero _) (i.stamps fresh)
  counts s' hs' n hn := by
    cases k with
    | same same => exact i.counts s' (same ▸ hs') n hn
    | freed none_ =>
      rw [none_] at hs'
      cases hs'
    | fresh none_ lively =>
      rw [i.gone none_ lively] at hn
      cases hn
  gone none_ alive := by
    cases k with
    | same same => exact i.gone (same ▸ none_) (lively alive)
    | freed _ over_ => exact absurd alive over_
    | fresh block lively => exact i.gone block lively
  firsts := i.firsts

theorem Inv.stales (i : Inv c) (stale : Bool) : Inv { c with stale := c.stale || stale } where
  wf := i.wf
  numbered := i.numbered
  stamps fresh := i.stamps (Bool.or_eq_false_iff.mp fresh).1
  counts := i.counts
  gone := i.gone
  firsts := i.firsts

/-- The session draws its numbers while nothing counts from the old ones. -/
theorem Inv.drawn {rc : RtspClient} (i : Inv c) (queue : rc.rtpQueueVideo = c.rc.rtpQueueVideo)
    (k : rc.Video Numbered) (idle : c.notices = []) : Inv { c with rc, stale := true } where
  wf := queue ▸ i.wf
  numbered := k
  stamps := nofun
  counts _ _ n hn := by
    rw [idle] at hn
    cases hn
  gone _ _ := idle
  firsts := i.firsts

theorem Inv.printed (i : Inv c) : Inv { c with notices := c.notices ++ c.rc.info } where
  wf := i.wf
  numbered := i.numbered
  stamps := i.stamps
  counts s hs n hn := by
    rcases List.mem_append.mp hn with hn | hn
    · exact i.counts s hs n hn
    · exact info_counts i.numbered s hs n hn
  gone none_ lively := by rw [i.gone none_ lively, info_none none_, List.append_nil]
  firsts := i.firsts

theorem setup_numbered {rc : RtspClient} (words : e.Words) (h : rc.Video Numbered) :
    (rtspdClientRtspProcessSetup e rc).rc.Video Numbered :=
  processSetup_video numbered_zero (fun _ _ _ => ⟨words.seq, words.rtptime⟩) (fun _ hv => ⟨hv.seq, hv.rtptime⟩) h

theorem Inv.request (i : Inv c) (words : e.Words) (ok : c.Undrawn (.request e buf)) : Inv (c.request e buf) := by
  have leaves := request_leaves e ⟨c.rc, []⟩ buf
  have answered : Inv { c with
      rc := ((⟨c.rc, []⟩ : Session).request e buf).rc, stale := c.stale || requestRefills e c.rc buf } := by
    rcases request_block (e := e) c.rc buf with kept | ⟨refills, _, rc, block, setup⟩
    · refine Inv.stales (i.left leaves.queue kept fun alive => by_contra fun over_ => ?_) _
      exact step_over (l := .request e buf) (s := ⟨c.rc, []⟩) over_ ⟨rfl, rfl⟩ alive
    · rw [refills, Bool.or_true]
      refine i.drawn leaves.queue ?_ (ok refills)
      rw [setup]
      exact setup_numbered words fun s hs => i.numbered s (block ▸ hs)
  unfold Announcing.request
  dsimp only
  split
  · exact answered.printed
  · rw [List.append_nil]
    exact answered

theorem Inv.frame (i : Inv c) (d : RtpQueueData) (videoType : RtspStream) :
    Inv { c with rc := rtpQueueStreamVideoPut d videoType c.rc } := by
  unfold rtpQueueStreamVideoPut
  split
  · exact ⟨i.wf.push _, i.numbered, i.stamps, i.counts, i.gone, i.firsts⟩
  · exact i

theorem inv_inductive (mode : RtspdAuth) : (announcing mode).Inductive Undrawn Inv where
  init {c} h := by
    obtain ⟨⟨index, clientid, addr, hrc⟩, _, notices, firsts⟩ := h
    have block : c.rc.rtpSs = none := by
      rw [hrc]
      rfl
    refine ⟨?_, fun s hs => ?_, fun _ s hs => ?_, fun s hs => ?_, fun _ _ => notices, ?_⟩
    · rw [hrc]
      exact ⟨Nat.succ_pos 59, Nat.succ_pos 59⟩
    · rw [block] at hs
      cases hs
    · rw [block] at hs
      cases hs
    · rw [block] at hs
      cases hs
    · rw [firsts]
      exact nofun
  step {c l c'} i ok h := by
    cases h with
    | frame => exact i.frame _ _
    | pack h => exact i.pack h
    | pass hs some_ => exact i.pass hs some_ ok
    | request words => exact i.request words ok
    | rtpExit => exact i.left rfl (.same rfl) id
    | udpError => exact i.left rfl (.same rfl) fun h => absurd rfl h.2
    | kick =>
      refine i.left (kick_leaves _).queue (.same ?_) fun alive => by_contra fun over_ => ?_
      · rw [kick_state]
      · exact step_over over_ (show (session .none).step ⟨c.rc, []⟩ .kick _ from rfl) alive

/-- The first packet behind an `RTP-Info` is the one it gives if the sender has not gone on. -/
theorem info_first_iff (mode : RtspdAuth) (c : Announcing) (r : Reach (announcing mode) Undrawn c) :
    ∀ a ∈ c.firsts, a.Announced ↔ a.notice.Still :=
  ((inv_inductive mode).reach r).firsts

section sample

variable {ok : Announcing → InfoEvent → Prop}

def asks (c : Announcing) (buf : List UInt8) : Announcing := c.request (sampleEnv .none) buf

def makes (c : Announcing) (d : RtpQueueData) : Announcing :=
  { c with rc := rtpQueueStreamVideoPut d .liveH264_1 c.rc }

def packs (c : Announcing) : Announcing := (c.pack fun _ => 0).getD c

/-- The packet that is in the current buffer. -/
def current (c : Announcing) : List UInt8 :=
  c.rc.rtpSs.elim [] fun s => s.video.buffer s.video.bufIdx

theorem reach_asks (r : Reach (announcing .none) ok c) (buf : List UInt8)
    (h : ok c (.request (sampleEnv .none) buf)) : Reach (announcing .none) ok (c.asks buf) :=
  r.step h (InfoStep.request ⟨by decide, by decide⟩)

theorem reach_makes (r : Reach (announcing .none) ok c) (d : RtpQueueData) (h : ok c (.frame d .liveH264_1)) :
    Reach (announcing .none) ok (c.makes d) :=
  r.step h InfoStep.frame

theorem reach_packs (r : Reach (announcing .none) ok c) (h : ok c (.pack fun _ => 0))
    (some_ : (c.pack fun _ => 0).isSome) : Reach (announcing .none) ok c.packs := by
  obtain ⟨c', hc⟩ := Option.isSome_iff_exists.mp some_
  have step : c.packs = c' := by rw [packs, hc, Option.getD_some]
  rw [step]
  exact r.step h (InfoStep.pack hc)

theorem reach_pass (r : Reach (announcing .none) ok c) (h : ok c .pass)
    (some_ : Playing.sends c.rc .video = true) : Reach (announcing .none) ok (c.pass c.current) := by
  unfold Playing.sends at some_
  split at some_
  · rename_i s hs
    have unit : c.current = s.video.buffer s.video.bufIdx := by rw [current, hs, Option.elim_some]
    rw [unit]
    exact r.step h (InfoStep.pass hs (of_decide_eq_true some_))
  · cases some_

def idle : Announcing := ⟨Session.clientInit .none 0 9 0, .none, false, [], []⟩

def samplePlays : Announcing := ((idle.asks optionsText).asks setupText).asks playText

theorem reach_plays (h : ∀ c buf, c.notices = [] → ok c (.request (sampleEnv .none) buf)) :
    Reach (announcing .none) ok samplePlays := by
  have init : Reach (announcing .none) ok idle := .init ⟨⟨0, 9, 0, rfl⟩, rfl, rfl, rfl⟩
  have setup := reach_asks (reach_asks init optionsText (h _ _ rfl)) setupText (h _ _ (by decide +kernel))
  exact reach_asks setup playText (h _ _ (by decide +kernel))

/-- An I frame. -/
def sampleKey : RtpQueueData := ⟨0, 4, 1, 2250⟩

/-- The sender holds a packet when the client pauses and plays again. -/
theorem info_first_held : ∃ c, Reach (announcing .none) Undrawn c ∧
    (∀ a ∈ c.firsts, a.Announced ↔ a.notice.Still) ∧ c.firsts.map (·.notice.built) = [1, 0] := by
  have play : Reach (announcing .none) Undrawn samplePlays := reach_plays fun _ _ none_ _ => none_
  have held := reach_packs (reach_makes play sampleKey trivial) trivial (by decide +kernel)
  have paused := reach_asks held Delivery.pauseText fun refills => absurd refills (by decide +kernel)
  have again := reach_asks paused playText fun refills => absurd refills (by decide +kernel)
  have sent := reach_pass again (fun stale => absurd stale (by decide +kernel)) (by decide +kernel)
  exact ⟨_, sent, info_first_iff .none _ sent, by decide +kernel⟩

/-- `RTP-Info` gives the number before that of the first packet. -/
theorem info_before : ¬ ∀ c, Reach (announcing .none) Lts.any c → ∀ a ∈ c.firsts, a.Announced := by
  intro all
  have any : ∀ c l, Lts.any (S := Announcing) (L := InfoEvent) c l := fun _ _ => trivial
  have play : Reach (announcing .none) Lts.any samplePlays := reach_plays fun _ _ _ => trivial
  have held := reach_packs (reach_makes play sampleKey (any _ _)) (any _ _) (by decide +kernel)
  have sent := reach_pass held (any _ _) (by decide +kernel)
  have first := all _ sent
  exact absurd first (by decide +kernel)

end sample

end Announcing

end En675.Rtsp
