import En675.Rtsp.RtpPlay
import En675.Rtsp.Session

/-! The video frames that reach one client: what the encoder makes, the filter and the queue in
front of the packetizer, its gate, and the requests that move the session in between.  A frame
is sent once a packet of it has been passed to a send function. -/

namespace En675.Rtsp

open Lib

/-- The video messages of `IsrStreamdata`. -/
inductive StreamMsg
  | h264I | h264P | h265I | h265P | jpeg
  deriving DecidableEq, Repr

def StreamMsg.flags : StreamMsg → Nat
  | .h264P | .h265P => 0
  | _ => 1

def StreamMsg.videoType : StreamMsg → RtspStream
  | .h264I | .h264P => .liveH264_1
  | .h265I | .h265P => .liveH265_1
  | .jpeg => .liveJpeg

/-- A frame as the encoder makes it, the `n`-th of its stream. -/
structure Frame where
  msg : StreamMsg
  n : Nat
  addr : Nat
  size : Nat
  ts : Nat
  deriving DecidableEq, Repr

namespace Frame

def data (f : Frame) : RtpQueueData := ⟨f.addr, f.size, f.msg.flags, f.ts⟩

def isP (f : Frame) : Bool := f.msg.flags == 0

/-- `f` is the frame just before `g` in the encoder's order. -/
def Precedes (f g : Frame) : Prop := f.msg.videoType = g.msg.videoType ∧ f.n + 1 = g.n

instance (f g : Frame) : Decidable (f.Precedes g) := inferInstanceAs (Decidable (_ ∧ _))

end Frame

/-- The slots `rtp_queue_stream_video_put` chooses. -/
def RtspClient.streams (rc : RtspClient) (videoType : RtspStream) : Prop :=
  rc.state = .play ∧ rc.playQuery &&& strtypeVideo ≠ 0 ∧ rc.isLive = videoType

instance : Decidable (RtspClient.streams rc videoType) :=
  inferInstanceAs (Decidable (_ ∧ _ ∧ _))

def rtpQueueStreamVideoPut (d : RtpQueueData) (videoType : RtspStream) (rc : RtspClient) : RtspClient :=
  if rc.streams videoType then { rc with rtpQueueVideo := rtpQueuePut rc.rtpQueueVideo d } else rc

structure Delivery where
  rc : RtspClient
  /-- How many frames of each stream the encoder has made. -/
  made : RtspStream → Nat
  /-- The frames that are in the queue. -/
  pending : List Frame
  sent : List Frame

namespace Delivery

/-- A message of the encoder; a put on a full queue leaves nothing in it. -/
def frame (d : Delivery) (m : StreamMsg) (addr size ts : Nat) : Delivery :=
  let f : Frame := ⟨m, d.made m.videoType, addr, size, ts⟩
  { rc := rtpQueueStreamVideoPut f.data m.videoType d.rc
    made := Function.update d.made m.videoType (d.made m.videoType + 1)
    pending :=
      if d.rc.streams m.videoType then
        if d.rc.rtpQueueVideo.isFull then [] else d.pending ++ [f]
      else d.pending
    sent := d.sent }

def startSeq (rc : RtspClient) : Option Nat := rc.rtpSs.map (·.video.startSeq)

/-- A call of the sender: the frame that it takes is sent if a packet was built. -/
def turn (mem : Mem) (d : Delivery) : Option Delivery :=
  (rtspdClientRtpVideoPlay mem d.rc).map fun (_, rc) =>
    let taken := d.rc.rtpQueueVideo.length - rc.rtpQueueVideo.length
    { d with
      rc
      pending := d.pending.drop taken
      sent := if startSeq rc = startSeq d.rc then d.sent else d.sent ++ d.pending.take taken }

/-- Every P frame sent comes just after one that was sent before it. -/
def Decodable (d : Delivery) : Prop :=
  ∀ pre f, pre ++ [f] <+: d.sent → f.isP → ∃ g ∈ pre, g.Precedes f

end Delivery

inductive DeliveryEvent
  | frame (m : StreamMsg) (addr size ts : Nat)
  | turn (mem : Mem)
  | request (e : Env) (buf : List UInt8)
  | rtpExit
  | udpError
  | kick

/-- The sender looks at the state before its call, and the session may have moved on since. -/
inductive DeliveryStep (d : Delivery) : DeliveryEvent → Delivery → Prop
  | frame : DeliveryStep d (.frame m addr size ts) (d.frame m addr size ts)
  | turn : d.turn mem = some d' → DeliveryStep d (.turn mem) d'
  | request : DeliveryStep d (.request e buf)
      { d with rc := ((⟨d.rc, []⟩ : Session).request e buf).rc }
  | rtpExit : DeliveryStep d .rtpExit { d with rc := { d.rc with playQuery := 0 } }
  | udpError : DeliveryStep d .udpError { d with rc := { d.rc with state := .error } }
  | kick : DeliveryStep d .kick { d with rc := (rtspdClientRtspState d.rc .teardown).2 }

/-- A session starts while the encoder is at work. -/
def delivery (mode : RtspdAuth) : Lts Delivery DeliveryEvent where
  init d := (∃ index clientid addr, d.rc = Session.clientInit mode index clientid addr) ∧
    d.pending = [] ∧ d.sent = []
  step := DeliveryStep

/-- The gate of the packetizers: `nalfirst`. -/
def RtspClient.gate (rc : RtspClient) : Bool := rc.rtpSs.any (·.video.rtpPk.nalfirst != 0)

section linked

/-- What has been let through once `f` comes behind `last`. -/
def feed (last : Option Frame) (f : Frame) : Option Frame :=
  if last.isNone && f.isP then none else some f

/-- Every P frame that will be let through comes just after the frame before it. -/
def Linked : Option Frame → List Frame → Prop
  | _, [] => True
  | last, f :: fs => (f.isP → ∀ g ∈ last, g.Precedes f) ∧ Linked (feed last f) fs

@[simp] theorem feed_some (g f : Frame) : feed (some g) f = some f := rfl

theorem feed_key (last : Option Frame) (h : f.isP = false) : feed last f = some f := by
  rw [feed, h, Bool.and_false]
  rfl

theorem feed_none (h : f.isP = true) : feed none f = none := by
  rw [feed, h]
  rfl

theorem linked_append {last : Option Frame} {fs : List Frame} : Linked last (fs ++ [f]) ↔
    Linked last fs ∧ (f.isP → ∀ g ∈ fs.foldl feed last, g.Precedes f) := by
  induction fs generalizing last with
  | nil => simp only [List.nil_append, Linked, and_true, true_and, List.foldl_nil]
  | cons x fs ih => rw [List.cons_append, Linked, Linked, ih, List.foldl_cons, and_assoc]

theorem linked_none {last : Option Frame} {fs : List Frame} (h : Linked last fs) : Linked none fs := by
  induction fs generalizing last with
  | nil => trivial
  | cons f fs ih =>
    refine ⟨fun _ g hg => (nomatch hg), ?_⟩
    cases hp : f.isP with
    | true =>
      rw [feed_none hp]
      exact ih h.2
    | false =>
      rw [feed_key none hp, ← feed_key last hp]
      exact h.2

theorem linked_keys {last : Option Frame} {fs : List Frame} (h : ∀ f ∈ fs, f.isP = false) :
    Linked last fs := by
  induction fs generalizing last with
  | nil => trivial
  | cons f fs ih =>
    refine ⟨fun hp => ?_, ih fun g hg => h g (List.mem_cons_of_mem _ hg)⟩
    rw [h f List.mem_cons_self] at hp
    cases hp

end linked

namespace Delivery

/-- The frame last let through, the queue counted in. -/
def last (d : Delivery) : Option Frame := if d.rc.gate then d.sent.getLast? else none

/-- A P frame that finds room in the queue and will be let through comes just after the frame
that is let through before it. -/
def Gapless (d : Delivery) : DeliveryEvent → Prop
  | .frame m addr size ts =>
    m.flags = 0 → d.rc.streams m.videoType → d.rc.rtpQueueVideo.isFull = false →
      ∀ g ∈ d.pending.foldl feed d.last, g.Precedes ⟨m, d.made m.videoType, addr, size, ts⟩
  | _ => True

instance (d : Delivery) : (l : DeliveryEvent) → Decidable (d.Gapless l)
  | .frame .. => inferInstanceAs (Decidable (_ → _ → _ → ∀ g ∈ _, _))
  | .turn _ | .request .. | .rtpExit | .udpError | .kick => .isTrue trivial

end Delivery

section fetched

/-- What a call of the sender does to the front of the queue and to the gate. -/
inductive Fetched (rc : RtspClient) (s : RtpSs) (q : RtpQueue) (v : RtpSession) : Prop
  | kept (queue : q = rc.rtpQueueVideo) (gate : v.rtpPk.nalfirst = s.video.rtpPk.nalfirst)
  | refused (pd : RtpQueueData) (get : rtpQueueGet rc.rtpQueueVideo = some (pd, q))
      (closed : s.video.rtpPk.nalfirst = 0) (flags : pd.flags ≠ 1) (gate : v.rtpPk.nalfirst = 0)
      (seq : v.startSeq = s.video.startSeq)
  | opened (pd : RtpQueueData) (get : rtpQueueGet rc.rtpQueueVideo = some (pd, q))
      (admits : s.video.rtpPk.nalfirst ≠ 0 ∨ pd.flags = 1) (gate : v.rtpPk.nalfirst ≠ 0)
      (seq : v.startSeq ≠ s.video.startSeq)
  | picture (pd : RtpQueueData) (get : rtpQueueGet rc.rtpQueueVideo = some (pd, q))
      (live : rc.isLive = .liveJpeg) (gate : v.rtpPk.nalfirst = s.video.rtpPk.nalfirst)

variable {mem : Mem} {c : NalCodec} {rc rc' : RtspClient} {s : RtpSs}

theorem nalDoing_nalfirst (hc : ∀ p pk, (c.readHdr p pk).nalfirst = pk.nalfirst) (tr : RtspTransport)
    (channel : Nat) (v : RtpSession) :
    (nalDoing c mem tr channel v).rtpPk.nalfirst = v.rtpPk.nalfirst := by
  have scan : (nalScan c mem tr v.rtpPk).pk.nalfirst = v.rtpPk.nalfirst := by
    unfold nalScan
    dsimp only
    split
    · split
      · exact hc _ _
      · rfl
    · rfl
  have copy (n : NalScan) : (nalCopy c mem tr n).pk.nalfirst = n.pk.nalfirst := by
    unfold nalCopy
    split <;> rfl
  exact (copy _).trans scan

theorem nalOpen_nalfirst (v : RtpSession) (pd : RtpQueueData) : (nalOpen v pd).rtpPk.nalfirst ≠ 0 := by
  simp only [nalOpen]
  split
  · decide
  · assumption

theorem rtpNalMain_fetched (hc : ∀ p pk, (c.readHdr p pk).nalfirst = pk.nalfirst)
    (hs : rc.rtpSs = some s) (h : rtspdClientRtpNalMain c mem rc = some (r, rc')) :
    ∃ q v, rc' = rc.withVideo s q v ∧ Fetched rc s q v := by
  have same : rc = rc.withVideo s rc.rtpQueueVideo s.video := by
    cases rc
    cases hs
    rfl
  have idle : Fetched rc s rc.rtpQueueVideo s.video := .kept rfl rfl
  unfold rtspdClientRtpNalMain at h
  split at h
  · rw [hs, Option.map_some, Option.some.injEq] at h
    cases ht : s.video.txReady with
    | ready =>
      simp only [ht] at h
      split at h
      · cases h
        exact ⟨_, _, same, idle⟩
      · rename_i pd q get
        split at h <;> rename_i ha <;> cases h
        · have admits : s.video.rtpPk.nalfirst ≠ 0 ∨ pd.flags = 1 := by simpa [nalAdmits] using ha
          refine ⟨_, _, rfl, .opened pd get admits ?_ (succ_mod_ne _)⟩
          rw [nalDoing_nalfirst hc]
          exact nalOpen_nalfirst _ _
        · have closed : s.video.rtpPk.nalfirst = 0 ∧ pd.flags ≠ 1 := by simpa [nalAdmits] using ha
          exact ⟨_, _, rfl, .refused pd get closed.1 closed.2 closed.1 rfl⟩
    | doing =>
      simp only [ht] at h
      cases h
      exact ⟨_, _, rfl, .kept rfl (nalDoing_nalfirst hc _ _ _)⟩
    | ended =>
      simp only [ht] at h
      cases h
      exact ⟨_, _, rfl, .kept rfl rfl⟩
    | unset =>
      simp only [ht] at h
      cases h
      exact ⟨_, _, same, idle⟩
  · cases h
    exact ⟨_, _, same, idle⟩

theorem jpegFirst_nalfirst (tr : RtspTransport) (pk : RtpPacket) :
    (jpegFirst mem tr pk).2.nalfirst = pk.nalfirst := by
  cases pk
  rfl

theorem jpegNext_nalfirst (tr : RtspTransport) (pk : RtpPacket) :
    (jpegNext mem tr pk).2.nalfirst = pk.nalfirst := by
  cases pk
  rfl

theorem jpegDoing_nalfirst (tr : RtspTransport) (channel : Nat) (v : RtpSession) :
    (jpegDoing mem tr channel v).rtpPk.nalfirst = v.rtpPk.nalfirst := by
  simp only [jpegDoing, rtpEmit]
  split
  · exact jpegFirst_nalfirst tr _
  · exact jpegNext_nalfirst tr _

theorem jpegSofo_nalfirst (h : jpegSofo mem v = some w) : w.rtpPk.nalfirst = v.rtpPk.nalfirst := by
  simp only [jpegSofo] at h
  split at h
  · cases h
    rfl
  · cases h

theorem rtpJpegMain_fetched (live : rc.isLive = .liveJpeg) (hs : rc.rtpSs = some s)
    (h : rtspdClientRtpJpegMain mem rc = some (r, rc')) :
    ∃ q v, rc' = rc.withVideo s q v ∧ Fetched rc s q v := by
  have same : rc = rc.withVideo s rc.rtpQueueVideo s.video := by
    cases rc
    cases hs
    rfl
  have idle : Fetched rc s rc.rtpQueueVideo s.video := .kept rfl rfl
  unfold rtspdClientRtpJpegMain at h
  split at h
  · rw [hs, Option.map_some, Option.some.injEq] at h
    cases ht : s.video.txReady with
    | ready =>
      simp only [ht] at h
      split at h
      · cases h
        exact ⟨_, _, same, idle⟩
      · rename_i pd q get
        split at h <;> simp only [Prod.mk.injEq] at h
        · exact ⟨_, _, h.2.symm, .picture pd get live rfl⟩
        · rename_i hj
          refine ⟨_, _, h.2.symm, .picture pd get live ?_⟩
          rw [jpegDoing_nalfirst, jpegSofo_nalfirst hj]
          rfl
    | doing =>
      simp only [ht] at h
      cases h
      exact ⟨_, _, rfl, .kept rfl (jpegDoing_nalfirst _ _ _)⟩
    | ended =>
      simp only [ht] at h
      cases h
      exact ⟨_, _, rfl, .kept rfl rfl⟩
    | unset =>
      simp only [ht] at h
      cases h
      exact ⟨_, _, same, idle⟩
  · cases h
    exact ⟨_, _, same, idle⟩

/-- Clearing the current buffer is nothing to the queue and the gate. -/
theorem Fetched.of_clear
    (h : Fetched (rc.withVideo s rc.rtpQueueVideo s.video.clear) { s with video := s.video.clear } q v) :
    Fetched rc s q v := by
  cases h with
  | kept queue gate => exact .kept queue gate
  | refused pd get closed flags gate seq => exact .refused pd get closed flags gate seq
  | opened pd get admits gate seq => exact .opened pd get admits gate seq
  | picture pd get live gate => exact .picture pd get live gate

theorem videoPlay_fetched (hs : rc.rtpSs = some s) (h : rtspdClientRtpVideoPlay mem rc = some (r, rc')) :
    ∃ q v, rc' = rc.withVideo s q v ∧ Fetched rc s q v := by
  rw [rtspdClientRtpVideoPlay, hs, Option.bind_some] at h
  have idle : ∃ q v, rc.withVideo s rc.rtpQueueVideo s.video.clear = rc.withVideo s q v ∧
      Fetched rc s q v := ⟨_, _, rfl, .kept rfl rfl⟩
  have called (hm : ∃ q v, rc' = (rc.withVideo s rc.rtpQueueVideo s.video.clear).withVideo
        { s with video := s.video.clear } q v ∧
        Fetched (rc.withVideo s rc.rtpQueueVideo s.video.clear) { s with video := s.video.clear } q v) :
      ∃ q v, rc' = rc.withVideo s q v ∧ Fetched rc s q v := by
    obtain ⟨q, v, rfl, fetched⟩ := hm
    exact ⟨q, v, rfl, fetched.of_clear⟩
  dsimp only at h
  split at h
  · split at h
    · cases h
      exact idle
    · cases h
      exact idle
    · exact called (rtpNalMain_fetched (fun _ _ => rfl) rfl h)
    · exact called (rtpNalMain_fetched (fun _ _ => rfl) rfl h)
    · exact called (rtpNalMain_fetched (fun _ _ => rfl) rfl h)
    · exact called (rtpNalMain_fetched (fun _ _ => rfl) rfl h)
    · rename_i live
      exact called (rtpJpegMain_fetched live rfl h)
    · cases h
      exact idle
  · cases h
    exact idle

end fetched

section requests

/-- What the tasks that do not send leave of the video: the queue, a stream once it is chosen,
and a gate that is closed. -/
structure Leaves (rc rc' : RtspClient) : Prop where
  queue : rc'.rtpQueueVideo = rc.rtpQueueVideo
  live : rc.isLive ≠ .none → rc'.isLive = rc.isLive
  gate : rc'.gate = true → rc.gate = true

variable (e : Env) {rc rc' : RtspClient}

theorem Leaves.trans (h : Leaves a b) (k : Leaves b c) : Leaves a c where
  queue := k.queue.trans h.queue
  live ha := by
    have chosen := h.live ha
    rw [k.live (chosen ▸ ha), chosen]
  gate hg := h.gate (k.gate hg)

theorem Leaves.of_block (queue : rc'.rtpQueueVideo = rc.rtpQueueVideo) (live : rc'.isLive = rc.isLive)
    (block : rc'.rtpSs = rc.rtpSs) : Leaves rc rc' where
  queue := queue
  live _ := live
  gate hg := by rwa [RtspClient.gate, ← block]

theorem requestLine_queue (rc : RtspClient) (text : List UInt8) :
    (rc.requestLine text).1.rtpQueueVideo = rc.rtpQueueVideo := by
  unfold RtspClient.requestLine
  split
  · rfl
  · split
    · rfl
    · split
      · rfl
      · split <;> rfl

theorem headerCommon_queue (rc : RtspClient) (line rest : List UInt8) :
    (rc.headerCommon e line rest).rtpQueueVideo = rc.rtpQueueVideo := by
  unfold RtspClient.headerCommon
  split
  · rfl
  · split
    · rfl
    · split <;> rfl

theorem storePorts_queue (rc : RtspClient) (ports : Int × Int) :
    (rc.storePorts ports).rtpQueueVideo = rc.rtpQueueVideo := by
  unfold RtspClient.storePorts
  split <;> rfl

theorem transportHeader_queue (rc : RtspClient) (data : List UInt8) :
    (rc.transportHeader data).rtpQueueVideo = rc.rtpQueueVideo := by
  unfold RtspClient.transportHeader
  split
  · exact storePorts_queue _ _
  · exact storePorts_queue _ _
  · rfl

theorem setupTrack_queue (h : rc.setupTrack = some rc') : rc'.rtpQueueVideo = rc.rtpQueueVideo := by
  unfold RtspClient.setupTrack at h
  split at h
  · rw [Option.map_eq_some_iff] at h
    obtain ⟨t, _, rfl⟩ := h
    split
    · rfl
    · split <;> rfl
  · cases h
    rfl

theorem headerParse_queue (rc : RtspClient) (line rest : List UInt8) :
    (rtspdClientRtspHeaderParse e rc line rest).rtpQueueVideo = rc.rtpQueueVideo := by
  unfold rtspdClientRtspHeaderParse
  dsimp only
  split
  · split <;> exact headerCommon_queue e rc line rest
  · split
    · exact headerCommon_queue e rc line rest
    · rename_i ht
      have track := (setupTrack_queue ht).trans (headerCommon_queue e rc line rest)
      split
      · exact (transportHeader_queue _ _).trans track
      · exact track
  · exact headerCommon_queue e rc line rest

theorem headerLines_queue (fuel : Nat) (rc : RtspClient) (text : List UInt8) :
    (headerLines e fuel rc text).rtpQueueVideo = rc.rtpQueueVideo := by
  induction fuel generalizing rc text with
  | zero => rfl
  | succ fuel ih =>
    rw [headerLines]
    split
    · rfl
    · rw [ih]
      exact headerParse_queue e _ _ _

theorem methodParse_leaves (rc : RtspClient) (buf : List UInt8) :
    Leaves rc (rtspdClientRtspMethodParse e rc buf).2 := by
  obtain ⟨spares, _⟩ := methodParse_spec e rc buf
  refine .of_block ?_ spares.isLive spares.rtpSs
  have line := requestLine_queue rc (cstr buf)
  unfold rtspdClientRtspMethodParse
  split
  · rename_i h
    rwa [h] at line
  · rename_i h
    rw [h] at line
    exact (headerLines_queue e _ _ _).trans line

theorem Moves.leaves (h : Moves rc targets a) : Leaves rc a.rc := by
  rw [h.slot]
  exact .of_block rfl rfl rfl

theorem processError_leaves (rc : RtspClient) (status : RtspStatus) :
    Leaves rc (rtspdClientRtspProcessError e rc status).rc := by
  rw [processError_rc]
  exact .of_block rfl rfl rfl

theorem modifySs_gate {f : RtpSession → RtpSession}
    (hf : ∀ v, (f v).rtpPk.nalfirst = v.rtpPk.nalfirst) : (rc.modifySs f).gate = rc.gate := by
  unfold RtspClient.modifySs RtspClient.gate
  cases rc.rtpSs with
  | none => rfl
  | some s =>
    change ((s.modify rc.nQuery f).video.rtpPk.nalfirst != 0) = (s.video.rtpPk.nalfirst != 0)
    unfold RtpSs.modify
    split
    · rw [hf]
    · rfl
    · rfl

theorem allocSs_leaves (h : rc.allocSs e = some rc') : Leaves rc rc' := by
  unfold RtspClient.allocSs at h
  split at h
  · cases h
    exact .of_block rfl rfl rfl
  · split at h
    · cases h
      exact ⟨rfl, fun _ => rfl, fun hg => by cases hg⟩
    · cases h

theorem setupFill_leaves (rc : RtspClient) (payload : Nat) : Leaves rc (rc.setupFill e payload) where
  queue := rfl
  live _ := rfl
  gate hg := by
    unfold RtspClient.setupFill at hg
    exact (modifySs_gate fun _ => by rfl).symm.trans hg

theorem setupAdmit_inl_leaves (h : rc.setupAdmit e = .inl a) : Leaves rc a.rc := by
  unfold RtspClient.setupAdmit at h
  split at h
  · cases h
    exact processError_leaves e _ _
  · split at h
    · cases h
      exact processError_leaves e _ _
    · rename_i halloc
      split at h
      · cases h
        exact (allocSs_leaves e halloc).trans (processError_leaves e _ _)
      · cases h

theorem setupAdmit_inr_leaves (h : rc.setupAdmit e = .inr (rc', reply)) : Leaves rc rc' := by
  unfold RtspClient.setupAdmit at h
  split at h
  · cases h
  · split at h
    · cases h
    · rename_i halloc
      split at h
      · cases h
      · obtain ⟨rfl, _⟩ := Prod.mk.inj (Sum.inr.inj h)
        exact (allocSs_leaves e halloc).trans (setupFill_leaves e _ _)

theorem processSetup_leaves (rc : RtspClient) : Leaves rc (rtspdClientRtspProcessSetup e rc).rc := by
  unfold rtspdClientRtspProcessSetup
  split
  · rename_i h
    obtain ⟨_, rfl⟩ := state_false h
    exact (setupRefused_moves e _).1.leaves
  · rename_i rc₁ h
    obtain ⟨_, rfl⟩ := state_true h
    have moved : Leaves rc { rc with state := .setup } := .of_block rfl rfl rfl
    split
    · rename_i ha
      exact moved.trans (setupAdmit_inl_leaves e ha)
    · rename_i rc₂ reply ha
      refine (moved.trans (setupAdmit_inr_leaves e ha)).trans ⟨rfl, fun _ => rfl, fun hg => ?_⟩
      have same : rc₂.markReady.gate = rc₂.gate := modifySs_gate fun _ => rfl
      exact same ▸ hg

theorem processTeardown_leaves (rc : RtspClient) :
    Leaves rc (rtspdClientRtspProcessTeardown e rc).rc := by
  unfold rtspdClientRtspProcessTeardown
  have plain : Leaves rc (processPlain e .teardown [] rc).rc := (processPlain_moves e []).leaves
  split
  · exact plain.trans ⟨rfl, fun _ => rfl, fun hg => by cases hg⟩
  · exact plain

theorem processMethod_leaves (rc : RtspClient) : Leaves rc (processMethod e rc).rc := by
  by_cases hs : rc.method = .setup
  · simp only [processMethod, hs]
    exact processSetup_leaves e rc
  · by_cases ht : rc.method = .teardown
    · simp only [processMethod, ht]
      exact processTeardown_leaves e rc
    · exact (processMethod_moves e hs ht).leaves

theorem checkUrl_leaves (h : rtspdClientRtspCheckUrl e rc = (ok, rc')) : Leaves rc rc' := by
  unfold rtspdClientRtspCheckUrl at h
  dsimp only at h
  split at h
  · rename_i hl
    have fresh {stream : RtspStream} {i : Int} :
        Leaves rc { rc with nVEncoderIdx := i, isLive := stream } :=
      ⟨rfl, fun hn => absurd hl hn, id⟩
    split at h
    · cases h
      exact fresh
    · split at h
      · cases h
        exact fresh
      · split at h <;>
        · cases h
          exact fresh
  · split at h <;>
    · cases h
      exact .of_block rfl rfl rfl

theorem dispatch_leaves (rc : RtspClient) : Leaves rc (dispatch e rc).rc := by
  have cases := dispatch_cases e rc
  generalize dispatch e rc = a at cases ⊢
  cases cases with
  | unauthorized => exact processError_leaves e rc .s401
  | torn => exact processError_leaves e rc .s412
  | unserved _ _ hc => exact (checkUrl_leaves e hc).trans (processError_leaves e _ _)
  | handled _ _ hc => exact (checkUrl_leaves e hc).trans (processMethod_leaves e _)

theorem request_leaves (s : Session) (buf : List UInt8) : Leaves s.rc (s.request e buf).rc := by
  have parse := methodParse_leaves e s.rc buf
  unfold Session.request
  split
  · rename_i h
    rwa [h] at parse
  · rename_i h
    rw [h] at parse
    exact parse.trans (dispatch_leaves e _)

theorem kick_leaves (rc : RtspClient) : Leaves rc (rtspdClientRtspState rc .teardown).2 := by
  rw [kick_state]
  exact .of_block rfl rfl rfl

end requests

namespace Delivery

/-- The queue holds the pending frames, all of the session's stream. -/
structure Held (d : Delivery) : Prop where
  wf : d.rc.rtpQueueVideo.Wf
  items : d.rc.rtpQueueVideo.toList = d.pending.map Frame.data
  stream : ∀ f ∈ d.pending, f.msg.videoType = d.rc.isLive

/-- The frame at the front of the queue. -/
theorem Held.front {d : Delivery} (i : Held d) (get : rtpQueueGet d.rc.rtpQueueVideo = some (pd, q)) :
    ∃ f fs, d.pending = f :: fs ∧ f.data = pd ∧ q.Wf ∧ q.toList = fs.map Frame.data ∧
      d.rc.rtpQueueVideo.length - q.length = 1 := by
  unfold rtpQueueGet at get
  split at get
  · cases get
  · rename_i he
    have some := Bool.eq_false_iff.mpr he
    obtain ⟨rfl, rfl⟩ := Prod.mk.inj (Option.some.inj get)
    have items := i.items
    rw [RingQueue.toList_pop i.wf some] at items
    obtain ⟨f, fs, hp, hd, hs⟩ := List.map_eq_cons_iff.mp items.symm
    refine ⟨f, fs, hp, hd, i.wf.pop, hs.symm, ?_⟩
    rw [RingQueue.length_pop i.wf some, Nat.add_sub_cancel_left]

/-- The queue holds the pending frames, all of the session's stream, and those that will be let
through follow one another. -/
structure Inv (d : Delivery) : Prop where
  wf : d.rc.rtpQueueVideo.Wf
  items : d.rc.rtpQueueVideo.toList = d.pending.map Frame.data
  stream : ∀ f ∈ d.pending, f.msg.videoType = d.rc.isLive
  linked : Linked d.last d.pending
  opened : d.rc.gate = true → d.sent ≠ []
  decodable : d.Decodable

variable {d d' : Delivery} {rc : RtspClient}

theorem Inv.held (i : Inv d) : Held d := ⟨i.wf, i.items, i.stream⟩

theorem videoType_ne_none (m : StreamMsg) : m.videoType ≠ .none := by
  cases m <;> decide

theorem flags_isP (f : Frame) : f.data.flags ≠ 1 ↔ f.isP = true := by
  have bits : ∀ m : StreamMsg, m.flags ≠ 1 ↔ (m.flags == 0) = true := by
    intro m
    cases m <;> decide
  exact bits f.msg

theorem last_open (h : d.rc.gate = true) : d.last = d.sent.getLast? := if_pos h

theorem last_closed (h : d.rc.gate = false) : d.last = none := by
  rw [last, h]
  rfl

/-- With the gate open a frame has been let through. -/
theorem Inv.last_some (i : Inv d) (h : d.rc.gate = true) : ∃ g ∈ d.sent, d.last = some g := by
  refine ⟨d.sent.getLast (i.opened h), List.getLast_mem _, ?_⟩
  rw [last_open h, List.getLast?_eq_some_getLast]

/-- A step of a task that does not send. -/
theorem Held.leaves (i : Held d) (h : Leaves d.rc rc) : Held { d with rc } where
  wf := h.queue ▸ i.wf
  items := by
    rw [h.queue]
    exact i.items
  stream f hf := by
    have live := i.stream f hf
    rw [h.live fun hn => videoType_ne_none _ (live.trans hn)]
    exact live

theorem Held.frame (i : Held d) : Held (d.frame m addr size ts) := by
  unfold Delivery.frame rtpQueueStreamVideoPut
  by_cases hs : d.rc.streams m.videoType
  · simp only [if_pos hs]
    cases hf : d.rc.rtpQueueVideo.isFull with
    | true => exact ⟨i.wf.push _, RingQueue.toList_push_full i.wf hf _, fun f hm => (nomatch hm)⟩
    | false =>
      refine ⟨i.wf.push _, ?_, fun f hm => ?_⟩
      · simp only [Bool.false_eq_true, if_false]
        rw [List.map_append, ← i.items]
        exact RingQueue.toList_push i.wf hf _
      · simp only [Bool.false_eq_true, if_false, List.mem_append, List.mem_singleton] at hm
        rcases hm with hm | rfl
        · exact i.stream f hm
        · exact hs.2.2.symm
  · simp only [if_neg hs]
    exact ⟨i.wf, i.items, i.stream⟩

theorem Inv.leaves (i : Inv d) (h : Leaves d.rc rc) : Inv { d with rc } where
  wf := (i.held.leaves h).wf
  items := (i.held.leaves h).items
  stream := (i.held.leaves h).stream
  linked := by
    cases hg : rc.gate with
    | true =>
      have same : Delivery.last { d with rc } = d.last := by
        rw [last_open (h.gate hg), last_open hg]
      rw [same]
      exact i.linked
    | false =>
      rw [last_closed hg]
      exact linked_none i.linked
  opened hg := i.opened (h.gate hg)
  decodable := i.decodable

theorem decodable_append {sent : List Frame}
    (h : ∀ pre f, pre ++ [f] <+: sent → f.isP → ∃ g ∈ pre, g.Precedes f)
    (hf : f.isP → ∃ g ∈ sent, g.Precedes f) :
    ∀ pre g, pre ++ [g] <+: sent ++ [f] → g.isP → ∃ x ∈ pre, x.Precedes g := by
  intro pre g hp
  rcases List.prefix_concat_iff.mp hp with he | hp
  · obtain ⟨rfl, hg⟩ := List.append_inj' he rfl
    cases hg
    exact hf
  · exact h pre g hp

theorem Inv.front (i : Inv d) (get : rtpQueueGet d.rc.rtpQueueVideo = some (pd, q)) :
    ∃ f fs, d.pending = f :: fs ∧ f.data = pd ∧ q.Wf ∧ q.toList = fs.map Frame.data ∧
      d.rc.rtpQueueVideo.length - q.length = 1 :=
  i.held.front get

theorem gate_withVideo (rc : RtspClient) (s : RtpSs) (q : RtpQueue) (v : RtpSession) :
    (rc.withVideo s q v).gate = (v.rtpPk.nalfirst != 0) := rfl

theorem gate_of_some (h : rc.rtpSs = some s) : rc.gate = (s.video.rtpPk.nalfirst != 0) := by
  rw [RtspClient.gate, h, Option.any_some]

theorem Inv.turn (i : Inv d) (h : d.turn mem = some d') : Inv d' := by
  rw [Delivery.turn, Option.map_eq_some_iff] at h
  obtain ⟨⟨r, rc⟩, hv, rfl⟩ := h
  obtain ⟨s, hs, _⟩ := Option.bind_eq_some_iff.mp hv
  have gate := gate_of_some hs
  have seq : startSeq d.rc = some s.video.startSeq := by rw [startSeq, hs, Option.map_some]
  obtain ⟨q, v, rfl, fetched⟩ := videoPlay_fetched hs hv
  have seq' : startSeq (d.rc.withVideo s q v) = some v.startSeq := rfl
  dsimp only
  rw [seq, seq']
  cases fetched with
  | kept queue hg =>
    have same : (d.rc.withVideo s q v).rtpQueueVideo = d.rc.rtpQueueVideo := queue
    simp only [same, Nat.sub_self, List.drop_zero, List.take_zero, List.append_nil, ite_self]
    refine i.leaves ⟨same, fun _ => rfl, fun h => ?_⟩
    rwa [gate, ← hg]
  | refused pd get closed flags hg same =>
    obtain ⟨f, fs, hp, rfl, wf, items, one⟩ := i.front get
    rw [if_pos (congrArg some same)]
    have shut : d.rc.gate = false := by rw [gate, closed]; rfl
    have shut' : (d.rc.withVideo s q v).gate = false := by rw [gate_withVideo, hg]; rfl
    have linked := i.linked
    rw [last_closed shut, hp, Linked, feed_none ((flags_isP f).mp flags)] at linked
    change Inv { d with
      rc := d.rc.withVideo s q v, pending := d.pending.drop (d.rc.rtpQueueVideo.length - q.length) }
    rw [one, hp, List.drop_one, List.tail_cons]
    refine ⟨wf, items, fun g hg => i.stream g (hp ▸ List.mem_cons_of_mem _ hg), ?_, fun h => ?_, i.decodable⟩
    · rw [last_closed shut']
      exact linked.2
    · rw [shut'] at h
      cases h
  | opened pd get admits hg other =>
    obtain ⟨f, fs, hp, rfl, wf, items, one⟩ := i.front get
    rw [if_neg (fun h => other (Option.some.inj h))]
    have through : d.rc.gate = true ∨ f.isP = false := by
      rcases admits with h | h
      · left
        rw [gate]
        exact bne_iff_ne.mpr h
      · right
        exact Bool.eq_false_iff.mpr fun hp => (flags_isP f).mpr hp h
    have open' : (d.rc.withVideo s q v).gate = true := bne_iff_ne.mpr hg
    have linked := i.linked
    rw [hp, Linked] at linked
    have behind : feed d.last f = some f := by
      rcases through with h | h
      · obtain ⟨g, _, hl⟩ := i.last_some h
        rw [hl, feed_some]
      · exact feed_key _ h
    change Inv { d with
      rc := d.rc.withVideo s q v, pending := d.pending.drop (d.rc.rtpQueueVideo.length - q.length),
      sent := d.sent ++ d.pending.take (d.rc.rtpQueueVideo.length - q.length) }
    rw [one, hp, List.drop_one, List.tail_cons, List.take_one, List.head?_cons, Option.toList_some]
    refine ⟨wf, items, fun g hg => i.stream g (hp ▸ List.mem_cons_of_mem _ hg), ?_,
      fun _ => List.append_ne_nil_of_right_ne_nil _ (List.cons_ne_nil _ _), ?_⟩
    · rw [last_open open', List.getLast?_concat, ← behind]
      exact linked.2
    · refine decodable_append i.decodable fun hf => ?_
      rcases through with h | h
      · obtain ⟨g, hg, hl⟩ := i.last_some h
        exact ⟨g, hg, linked.1 hf g hl⟩
      · rw [h] at hf
        cases hf
  | picture pd get live hg =>
    obtain ⟨f, fs, hp, rfl, wf, items, one⟩ := i.front get
    -- the frames of a JPEG stream are key frames all of them
    have keys (g : Frame) (hm : g ∈ d.pending) : g.isP = false := by
      have stream := (i.stream g hm).trans live
      obtain ⟨m, _⟩ := g
      cases m <;> first | rfl | cases stream
    have gate' : (d.rc.withVideo s q v).gate = d.rc.gate := by rw [gate_withVideo, hg, gate]
    have head : f ∈ d.pending := hp ▸ List.mem_cons_self
    have inv (sent : List Frame) (hn : d.sent ≠ [] → sent ≠ [])
        (hd : ∀ pre f, pre ++ [f] <+: sent → f.isP → ∃ g ∈ pre, g.Precedes f) :
        Inv { d with rc := d.rc.withVideo s q v, pending := fs, sent } := by
      refine ⟨wf, items, fun g hg => i.stream g (hp ▸ List.mem_cons_of_mem _ hg),
        linked_keys fun g hg => keys g (hp ▸ List.mem_cons_of_mem _ hg), fun h => ?_, hd⟩
      exact hn (i.opened (gate' ▸ h))
    change Inv { d with
      rc := d.rc.withVideo s q v, pending := d.pending.drop (d.rc.rtpQueueVideo.length - q.length)
      sent := if some v.startSeq = some s.video.startSeq then d.sent
        else d.sent ++ d.pending.take (d.rc.rtpQueueVideo.length - q.length) }
    rw [one, hp, List.drop_one, List.tail_cons, List.take_one, List.head?_cons, Option.toList_some]
    split
    · exact inv _ id i.decodable
    · refine inv _ (fun _ => List.append_ne_nil_of_right_ne_nil _ (List.cons_ne_nil _ _)) ?_
      refine decodable_append i.decodable fun hf => ?_
      rw [keys f head] at hf
      cases hf

theorem Inv.frame (i : Inv d) (ok : d.Gapless (.frame m addr size ts)) : Inv (d.frame m addr size ts) := by
  have held : Held (d.frame m addr size ts) := i.held.frame
  refine ⟨held.wf, held.items, held.stream, ?_, ?_, ?_⟩ <;>
    unfold Delivery.frame rtpQueueStreamVideoPut <;> by_cases hs : d.rc.streams m.videoType
  · simp only [if_pos hs]
    cases hf : d.rc.rtpQueueVideo.isFull with
    | true => trivial
    | false => exact linked_append.mpr ⟨i.linked, fun hp => ok (beq_iff_eq.mp hp) hs hf⟩
  · simp only [if_neg hs]
    exact i.linked
  · simp only [if_pos hs]
    exact i.opened
  · simp only [if_neg hs]
    exact i.opened
  · exact i.decodable
  · exact i.decodable

theorem inv_inductive (mode : RtspdAuth) : (delivery mode).Inductive Gapless Inv where
  init {d} h := by
    obtain ⟨⟨index, clientid, addr, hrc⟩, hp, hs⟩ := h
    refine ⟨?_, ?_, ?_, ?_, fun hg => ?_, fun pre f h => ?_⟩
    · rw [hrc]
      exact ⟨Nat.succ_pos 59, Nat.succ_pos 59⟩
    · rw [hrc, hp]
      rfl
    · rw [hp]
      exact fun f hf => (nomatch hf)
    · rw [hp]
      trivial
    · rw [hrc] at hg
      cases hg
    · rw [hs, List.prefix_nil] at h
      exact absurd h (List.append_ne_nil_of_right_ne_nil _ (List.cons_ne_nil _ _))
  step {d l d'} i ok h := by
    cases h with
    | frame => exact i.frame ok
    | turn h => exact i.turn h
    | request => exact i.leaves (request_leaves _ ⟨d.rc, []⟩ _)
    | rtpExit => exact i.leaves (.of_block rfl rfl rfl)
    | udpError => exact i.leaves (.of_block rfl rfl rfl)
    | kick => exact i.leaves (kick_leaves _)

/-- When every P frame that is queued and will be let through comes just after the frame let
through before it, what is sent can be decoded. -/
theorem decodable_delivery (mode : RtspdAuth) (d : Delivery) (r : Reach (delivery mode) Gapless d) :
    d.Decodable :=
  ((inv_inductive mode).reach r).decodable

section sample

variable {ok : Delivery → DeliveryEvent → Prop}

def pauseText : List UInt8 := ascii "PAUSE rtsp://h/s RTSP/1.0\r\nCSeq: 4\r\nSession: 9\r\n\r\n"

def asks (d : Delivery) (buf : List UInt8) : Delivery :=
  { d with rc := ((⟨d.rc, []⟩ : Session).request (sampleEnv .none) buf).rc }

def makes (d : Delivery) (m : StreamMsg) : Delivery := d.frame m 0 4 0

def turns (d : Delivery) : Delivery := (d.turn fun _ => 0).getD d

theorem reach_asks (r : Reach (delivery .none) ok d) (buf : List UInt8)
    (h : ok d (.request (sampleEnv .none) buf)) : Reach (delivery .none) ok (d.asks buf) :=
  r.step h DeliveryStep.request

theorem reach_makes (r : Reach (delivery .none) ok d) (m : StreamMsg) (h : ok d (.frame m 0 4 0)) :
    Reach (delivery .none) ok (d.makes m) :=
  r.step h DeliveryStep.frame

theorem reach_turns (r : Reach (delivery .none) ok d) (h : ok d (.turn fun _ => 0))
    (hs : (d.turn fun _ => 0).isSome) : Reach (delivery .none) ok d.turns := by
  obtain ⟨d', hd⟩ := Option.isSome_iff_exists.mp hs
  have step : d.turns = d' := by rw [turns, hd, Option.getD_some]
  rw [step]
  exact r.step h (DeliveryStep.turn hd)

def idle : Delivery := ⟨Session.clientInit .none 0 9 0, fun _ => 0, [], []⟩

/-- A client that plays. -/
def sampleDelivery : Delivery := ((idle.asks optionsText).asks setupText).asks playText

theorem reach_sample (h : ∀ d buf, ok d (.request (sampleEnv .none) buf)) :
    Reach (delivery .none) ok sampleDelivery := by
  have init : Reach (delivery .none) ok idle := .init ⟨⟨0, 9, 0, rfl⟩, rfl, rfl⟩
  apply reach_asks (reach_asks (reach_asks init _ _) _ _) <;> exact h _ _

/-- The I frame and the P frame behind it. -/
theorem decodable_delivery_two : ∃ d, Reach (delivery .none) Gapless d ∧ d.Decodable ∧
    d.sent.map (fun f => (f.msg, f.n)) = [(.h264I, 0), (.h264P, 1)] := by
  have play : Reach (delivery .none) Gapless sampleDelivery := reach_sample fun _ _ => trivial
  have key := reach_makes play .h264I (by decide +kernel)
  have next := reach_makes key .h264P (by decide +kernel)
  have sent := reach_turns (reach_turns next trivial (by decide +kernel)) trivial (by decide +kernel)
  exact ⟨_, sent, decodable_delivery .none _ sent, by decide +kernel⟩

/-- The frame made while the client pauses is not queued, the one after it is sent. -/
theorem delivery_paused : ¬ ∀ d, Reach (delivery .none) Lts.any d → d.Decodable := by
  intro all
  have any : ∀ d l, Lts.any (S := Delivery) (L := DeliveryEvent) d l := fun _ _ => trivial
  have play : Reach (delivery .none) Lts.any sampleDelivery := reach_sample fun _ _ => trivial
  have key := reach_turns (reach_makes play .h264I (any _ _)) (any _ _) (by decide +kernel)
  have lost := reach_makes (reach_asks key pauseText (any _ _)) .h264P (any _ _)
  have again := reach_asks lost playText (any _ _)
  have late := reach_turns (reach_makes again .h264P (any _ _)) (any _ _) (by decide +kernel)
  have behind := all _ late [⟨.h264I, 0, 0, 4, 0⟩] ⟨.h264P, 2, 0, 4, 0⟩ (by decide +kernel) rfl
  exact absurd behind (by decide +kernel)

end sample

end Delivery

end En675.Rtsp
