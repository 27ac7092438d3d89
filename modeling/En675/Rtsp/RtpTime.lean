import En675.Rtsp.Delivery

/-! The timestamp of the packets that the sender's calls build. -/

namespace En675.Rtsp

open Lib

section packet

/-- The timestamp of a packet: octets 4 to 7 of its RTP header. -/
def rtpTime (tr : RtspTransport) (p : List UInt8) : Nat :=
  readBE (((if tr = .udp then p else p.drop 4).drop 4).take 4)

theorem rtpTime_rtpPacket (tr : RtspTransport) (channel : Nat) (w : RtpSession) (last : Bool)
    (payload : List UInt8) : rtpTime tr (rtpPacket tr channel w last payload) = w.startRtptime % 2 ^ 32 := by
  have drop : (if tr = .udp then rtpPacket tr channel w last payload
      else (rtpPacket tr channel w last payload).drop 4) =
      rthRTPHeader last w.payloadType ((w.startSeq + 1) % 2 ^ 16) w.startRtptime w.ssrc ++ payload := by
    unfold rtpPacket
    split
    · rfl
    · rw [List.append_assoc, List.drop_append_of_le_length (by simp)]
      simp [List.drop_eq_nil_of_le]
  have time : ∀ n t ssrc, ((rthRTPHeader last w.payloadType n t ssrc ++ payload).drop 4).take 4 =
      be 4 t := fun n t ssrc => by simp [rthRTPHeader, be]
  rw [rtpTime, drop, time, readBE_be]
  rfl

end packet

section timed

/-- What one call of the sender does to the clock of the session: it stays, or the increment of the frame
that is taken is added.  A packet carries the clock, and comes from the frame taken or from the one under
way. -/
inductive Timed (rc : RtspClient) (s : RtpSs) (q : RtpQueue) (v : RtpSession) : Prop
  | kept (queue : q = rc.rtpQueueVideo) (time : v.startRtptime = s.video.startRtptime)
      (built : v.startSeq ≠ s.video.startSeq → s.video.txReady = .doing)
      (doing : v.txReady = .doing → s.video.txReady = .doing)
  | taken (pd : RtpQueueData) (get : rtpQueueGet rc.rtpQueueVideo = some (pd, q))
      (time : v.startRtptime = uadd s.video.startRtptime pd.ts)
      (doing : v.txReady = .doing → v.startSeq ≠ s.video.startSeq)

/-- The packet that a call has built carries its clock. -/
def Stamped (rc : RtspClient) (s : RtpSs) (v : RtpSession) : Prop :=
  v.startSeq ≠ s.video.startSeq → rtpTime rc.eTransport (v.buffer v.bufIdx) = v.startRtptime % 2 ^ 32

variable {mem : Mem} {c : NalCodec} {rc rc' : RtspClient} {s : RtpSs}

theorem rtpEmit_time (tr : RtspTransport) (channel : Nat) (w : RtpSession) (pk : RtpPacket)
    (payload : Bool → List UInt8) :
    rtpTime tr ((rtpEmit tr channel w pk payload).buffer (rtpEmit tr channel w pk payload).bufIdx) =
      w.startRtptime % 2 ^ 32 := by
  have current : (rtpEmit tr channel w pk payload).buffer (rtpEmit tr channel w pk payload).bufIdx =
      rtpPacket tr channel w (pk.offset == pk.size) (payload (pk.offset == pk.size)) := Function.update_self ..
  rw [current, rtpTime_rtpPacket]

theorem nalDoing_time (tr : RtspTransport) (channel : Nat) (w : RtpSession) :
    rtpTime tr ((nalDoing c mem tr channel w).buffer (nalDoing c mem tr channel w).bufIdx) =
      w.startRtptime % 2 ^ 32 := rtpEmit_time tr channel w _ _

theorem jpegDoing_time (tr : RtspTransport) (channel : Nat) (w : RtpSession) :
    rtpTime tr ((jpegDoing mem tr channel w).buffer (jpegDoing mem tr channel w).bufIdx) =
      w.startRtptime % 2 ^ 32 := by
  unfold jpegDoing
  exact rtpEmit_time tr channel w _ _

theorem jpegDoing_clock (mem : Mem) (tr : RtspTransport) (channel : Nat) (w : RtpSession) :
    (jpegDoing mem tr channel w).startRtptime = w.startRtptime ∧
      (jpegDoing mem tr channel w).startSeq = (w.startSeq + 1) % 2 ^ 16 := by
  unfold jpegDoing
  exact ⟨rfl, rfl⟩

theorem rtpNalMain_timed (hs : rc.rtpSs = some s) (h : rtspdClientRtpNalMain c mem rc = some (r, rc')) :
    ∃ q v, rc' = rc.withVideo s q v ∧ Timed rc s q v ∧ Stamped rc s v := by
  have same : rc = rc.withVideo s rc.rtpQueueVideo s.video := by
    cases rc
    cases hs
    rfl
  have idle : Timed rc s rc.rtpQueueVideo s.video ∧ Stamped rc s s.video :=
    ⟨.kept rfl rfl (fun h => absurd rfl h) id, fun h => absurd rfl h⟩
  unfold rtspdClientRtpNalMain at h
  split at h
  · rw [hs, Option.map_some, Option.some.injEq] at h
    cases ht : s.video.txReady with
    | ready =>
      simp only [ht] at h
      split at h
      · cases h
        exact ⟨_, _, same, idle⟩
      · rename_i pd q get
        split at h <;> cases h
        · exact ⟨_, _, rfl, .taken pd get rfl (fun _ => succ_mod_ne _), fun _ => nalDoing_time _ _ _⟩
        · refine ⟨_, _, rfl, .taken pd get rfl fun doing => ?_, fun h => absurd rfl h⟩
          exact absurd (ht.symm.trans doing) nofun
    | doing =>
      simp only [ht] at h
      cases h
      exact ⟨_, _, rfl, .kept rfl rfl (fun _ => ht) (fun _ => ht), fun _ => nalDoing_time _ _ _⟩
    | ended =>
      simp only [ht] at h
      cases h
      exact ⟨_, _, rfl, .kept rfl rfl (fun h => absurd rfl h) nofun, fun h => absurd rfl h⟩
    | unset =>
      simp only [ht] at h
      cases h
      exact ⟨_, _, same, idle⟩
  · cases h
    exact ⟨_, _, same, idle⟩

theorem rtpJpegMain_timed (hs : rc.rtpSs = some s) (h : rtspdClientRtpJpegMain mem rc = some (r, rc')) :
    ∃ q v, rc' = rc.withVideo s q v ∧ Timed rc s q v ∧ Stamped rc s v := by
  have same : rc = rc.withVideo s rc.rtpQueueVideo s.video := by
    cases rc
    cases hs
    rfl
  have idle : Timed rc s rc.rtpQueueVideo s.video ∧ Stamped rc s s.video :=
    ⟨.kept rfl rfl (fun h => absurd rfl h) id, fun h => absurd rfl h⟩
  unfold rtspdClientRtpJpegMain at h
  split at h
  · rw [hs, Option.map_some, Option.some.injEq] at h
    cases ht : s.video.txReady with
    | ready =>
      simp only [ht] at h
      split at h
      · cases h
        exact ⟨_, _, same, idle⟩
      · rename_i pd q get
        split at h <;> simp only [Prod.mk.injEq] at h
        · refine ⟨_, _, h.2.symm, .taken pd get rfl fun doing => ?_, fun h => absurd rfl h⟩
          cases ht.symm.trans doing
        · rename_i w hj
          have clock : w.startRtptime = uadd s.video.startRtptime pd.ts ∧ w.startSeq = s.video.startSeq := by
            simp only [jpegSofo] at hj
            split at hj
            · cases hj
              exact ⟨rfl, rfl⟩
            · cases hj
          obtain ⟨time, seq⟩ := jpegDoing_clock mem rc.eTransport (rc.connInfo.rtpPort 0) w
          refine ⟨_, _, h.2.symm, .taken pd get (time.trans clock.1) fun _ => ?_, fun _ => ?_⟩
          · rw [seq, clock.2]
            exact succ_mod_ne _
          · rw [time]
            exact jpegDoing_time _ _ _
    | doing =>
      simp only [ht] at h
      cases h
      have clock := (jpegDoing_clock mem rc.eTransport (rc.connInfo.rtpPort 0) s.video).1
      refine ⟨_, _, rfl, .kept rfl clock (fun _ => ht) (fun _ => ht), fun _ => ?_⟩
      rw [clock]
      exact jpegDoing_time _ _ _
    | ended =>
      simp only [ht] at h
      cases h
      exact ⟨_, _, rfl, .kept rfl rfl (fun h => absurd rfl h) (by rintro ⟨⟩), fun h => absurd rfl h⟩
    | unset =>
      simp only [ht] at h
      cases h
      exact ⟨_, _, same, idle⟩
  · cases h
    exact ⟨_, _, same, idle⟩

theorem Timed.of_clear
    (h : Timed (rc.withVideo s rc.rtpQueueVideo s.video.clear) { s with video := s.video.clear } q v) :
    Timed rc s q v := by
  cases h with
  | kept queue time built doing => exact .kept queue time built doing
  | taken pd get time doing => exact .taken pd get time doing

theorem videoPlay_timed (hs : rc.rtpSs = some s) (h : rtspdClientRtpVideoPlay mem rc = some (r, rc')) :
    ∃ q v, rc' = rc.withVideo s q v ∧ Timed rc s q v ∧ Stamped rc s v := by
  rw [rtspdClientRtpVideoPlay, hs, Option.bind_some] at h
  have idle : ∃ q v, rc.withVideo s rc.rtpQueueVideo s.video.clear = rc.withVideo s q v ∧
      Timed rc s q v ∧ Stamped rc s v :=
    ⟨_, _, rfl, .kept rfl rfl (fun h => absurd rfl h) id, fun h => absurd rfl h⟩
  have called (hm : ∃ q v, rc' = (rc.withVideo s rc.rtpQueueVideo s.video.clear).withVideo
        { s with video := s.video.clear } q v ∧
        Timed (rc.withVideo s rc.rtpQueueVideo s.video.clear) { s with video := s.video.clear } q v ∧
        Stamped (rc.withVideo s rc.rtpQueueVideo s.video.clear) { s with video := s.video.clear } v) :
      ∃ q v, rc' = rc.withVideo s q v ∧ Timed rc s q v ∧ Stamped rc s v := by
    obtain ⟨q, v, rfl, timed, stamped⟩ := hm
    exact ⟨q, v, rfl, timed.of_clear, stamped⟩
  dsimp only at h
  split at h
  · split at h
    · cases h
      exact idle
    · cases h
      exact idle
    · exact called (rtpNalMain_timed rfl h)
    · exact called (rtpNalMain_timed rfl h)
    · exact called (rtpNalMain_timed rfl h)
    · exact called (rtpNalMain_timed rfl h)
    · exact called (rtpJpegMain_timed rfl h)
    · cases h
      exact idle
  · cases h
    exact idle

end timed

end En675.Rtsp
