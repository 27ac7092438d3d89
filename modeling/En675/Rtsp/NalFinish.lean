import En675.Lib.While
import En675.Rtsp.NalCut
import En675.Rtsp.RtpH264
import En675.Rtsp.RtpH265

/-! The calls of a packetizer on one frame, whatever the frame holds: where the next call begins, and
when the frame is finished. -/

namespace En675.Rtsp

open Lib

section copied

/-- What one call copies into the packet: the offset in the frame and the count. -/
def NalScan.copied (c : NalCodec) (tr : RtspTransport) (s : NalScan) : Nat × Nat :=
  if s.spsppsSize ≠ 0 then (s.pk.offset, s.spsppsSize)
  else
    let drop := if s.fuSize ≠ 0 ∧ s.nalzerocnt ≠ 0 then c.hdrLen else 0
    (uadd s.pk.offset drop, min (usub s.left drop) (remainingOf tr - (headLen tr + s.fuSize)))

variable (c : NalCodec) (mem : Mem) (tr : RtspTransport) (s : NalScan)

theorem nalCopy_copied : (nalCopy c mem tr s).data =
      mem.read (uadd s.pk.base (s.copied c tr).1) (s.copied c tr).2 ∧
    (nalCopy c mem tr s).pk.offset = uadd (s.copied c tr).1 (s.copied c tr).2 ∧
    (nalCopy c mem tr s).pk.size = s.pk.size := by
  unfold nalCopy NalScan.copied
  by_cases param : s.spsppsSize ≠ 0
  · rw [if_pos param, if_pos param]
    exact ⟨rfl, rfl, rfl⟩
  · rw [if_neg param, if_neg param]
    simp only [Bool.and_eq_true, decide_eq_true_eq, and_self]

end copied

section room

theorem room_bounds (tr : RtspTransport) :
    headLen tr + 1444 ≤ remainingOf tr ∧ remainingOf tr ≤ 1472 ∧ 12 ≤ headLen tr := by
  cases tr <;> decide

variable {c : NalCodec} {f : NalFormat} {tr : RtspTransport} {s : NalScan} {size : Nat}

/-- A call that has not run past the frame copies out of it, and something if something is left. -/
theorem copied_within (tr : RtspTransport) (law : Lawful c f) (rest : s.pk.offset + s.left = size) (word : size < 2 ^ 32)
    (fu : s.fuSize = 0 ∨ s.fuSize = c.fuLen ∧ (s.nalzerocnt = 0 ∨ remainingOf tr - headLen tr < s.left))
    (param : s.spsppsSize ≤ s.left) :
    (s.copied c tr).1 + (s.copied c tr).2 ≤ size ∧ s.pk.offset ≤ (s.copied c tr).1 ∧
      (0 < s.left → s.pk.offset < (s.copied c tr).1 + (s.copied c tr).2) := by
  have room := room_bounds tr
  have short := law.hdrLen_lt
  have three := law.fuLen_le
  unfold NalScan.copied
  split
  · dsimp only
    omega
  · simp only
    split
    · rename_i first
      have more := (fu.resolve_left first.1).2.resolve_left first.2
      rw [uadd_of_lt (by omega), usub_of_le (by omega) (by omega)]
      omega
    · rw [uadd_of_lt (by omega), usub_of_le (by omega) (by omega)]
      omega

/-- Where a call goes that has run past the frame. -/
theorem copied_past (law : Lawful c f) (tr : RtspTransport) (s : NalScan) (param : s.spsppsSize ≤ c.window) :
    ∃ g, g ≤ 1474 ∧ uadd (s.copied c tr).1 (s.copied c tr).2 = uadd s.pk.offset g ∧
      (s.spsppsSize ≠ 0 → g = s.spsppsSize) := by
  have room := room_bounds tr
  have short := law.hdrLen_lt
  have three := law.fuLen_le
  have window := law.window.2
  unfold NalScan.copied
  split
  · exact ⟨s.spsppsSize, by omega, rfl, fun _ => rfl⟩
  · rename_i none_
    simp only
    generalize usub s.left _ = left
    refine ⟨(if s.fuSize ≠ 0 ∧ s.nalzerocnt ≠ 0 then c.hdrLen else 0) +
      min left (remainingOf tr - (headLen tr + s.fuSize)), ?_, ?_, fun h => absurd h none_⟩
    · split <;> omega
    · unfold uadd
      rw [Nat.mod_add_mod, Nat.add_assoc]

end room

section scanned

variable {c : NalCodec} {f : NalFormat} {mem : Mem} {tr : RtspTransport} {pk : RtpPacket}

/-- A frame that a call has still something to send of. -/
structure Under (pk : RtpPacket) : Prop where
  more : pk.offset < pk.size
  word : pk.size < 2 ^ 32

/-- The first start code that a call sees when the frame goes on with a zero. -/
def CodeSeen (c : NalCodec) (mem : Mem) (pk : RtpPacket) (i : Nat) : Prop :=
  addrOf mem pk 0 = 0 ∧ FirstCode (addrOf mem pk) (min (pk.size - pk.offset) c.window) i

/-- The start code runs past the end of the frame, or a parameter set behind it is measured to there. -/
def Cut (c : NalCodec) (mem : Mem) (pk : RtpPacket) : Prop :=
  ∃ i, CodeSeen c mem pk i ∧
    (pk.size < pk.offset + (i + 3) ∨
      let t := (atNal c mem pk (i + 3)).naltype
      c.isSlice t = false ∧ c.isParam t = true ∧
        ∃ k, ZerosFrom (addrOf mem { pk with offset := pk.offset + (i + 3) }) c.window k ∧
          pk.size < pk.offset + (i + 3) + k)

theorem nalScan_unseen (h : Under pk) (none_ : ∀ i, ¬ CodeSeen c mem pk i) :
    nalScan c mem tr pk = ⟨0, pk.size - pk.offset, c.fuLen, 0, pk⟩ := by
  have left : usub pk.size pk.offset = pk.size - pk.offset := usub_of_le h.more.le h.word
  have none_ : (if addrOf mem pk 0 == 0 then
      startCode (addrOf mem pk) (min (pk.size - pk.offset) c.window) 0 else 0) = 0 := by
    split
    · rename_i zero
      rcases startCode_cases (addrOf mem pk) (min (pk.size - pk.offset) c.window) with ⟨i, first, _⟩ | ⟨_, he⟩
      · exact absurd ⟨beq_iff_eq.mp zero, first⟩ (none_ i)
      · exact he
    · rfl
  simp only [nalScan, left, none_]
  rfl

/-- The packet record behind the start code and the NAL header. -/
def hdrAt (c : NalCodec) (mem : Mem) (pk : RtpPacket) (n : Nat) : RtpPacket :=
  c.readHdr (addrOf mem { pk with offset := uadd pk.offset n }) { pk with offset := uadd pk.offset n }

theorem nalScan_seen (h : Under pk) (seen : CodeSeen c mem pk i) :
    nalScan c mem tr pk =
      let pk' := hdrAt c mem pk (i + 3)
      let left := usub (pk.size - pk.offset) (i + 3)
      { nalzerocnt := i + 3, left, pk := pk'
        fuSize := if c.isSlice pk'.naltype && decide (left > remainingOf tr - headLen tr) then c.fuLen else 0
        spsppsSize := if !c.isSlice pk'.naltype && c.isParam pk'.naltype then
          paramSize (addrOf mem { pk with offset := uadd pk.offset (i + 3) }) c.window 0 0 else 0 } := by
  have left : usub pk.size pk.offset = pk.size - pk.offset := usub_of_le h.more.le h.word
  have found : startCode (addrOf mem pk) (min (pk.size - pk.offset) c.window) 0 = i + 3 :=
    startCode_found (by rw [Nat.zero_add]; exact seen.2) (Nat.zero_le i)
  unfold nalScan
  simp only [left, seen.1, found]
  rfl

theorem hdrAt_fields (law : Lawful c f) (mem : Mem) (pk : RtpPacket) (n : Nat) :
    (hdrAt c mem pk n).offset = uadd pk.offset n ∧ (hdrAt c mem pk n).size = pk.size := by
  obtain ⟨t, i, u, hr⟩ := law.readHdr (addrOf mem { pk with offset := uadd pk.offset n })
    { pk with offset := uadd pk.offset n }
  rw [hdrAt, hr]
  exact ⟨rfl, rfl⟩

/-- What a call has found behind a start code. -/
structure Found (c : NalCodec) (mem : Mem) (tr : RtspTransport) (pk : RtpPacket) (i : Nat) (s : NalScan) :
    Prop where
  zeros : s.nalzerocnt = i + 3
  left : s.left = usub (pk.size - pk.offset) (i + 3)
  offset : s.pk.offset = uadd pk.offset (i + 3)
  size : s.pk.size = pk.size
  fu : s.fuSize = 0 ∨ s.fuSize = c.fuLen ∧ remainingOf tr - headLen tr < s.left
  param : s.spsppsSize =
    if c.isSlice (hdrAt c mem pk (i + 3)).naltype = false ∧ c.isParam (hdrAt c mem pk (i + 3)).naltype = true then
      paramSize (addrOf mem { pk with offset := uadd pk.offset (i + 3) }) c.window 0 0
    else 0

theorem nalScan_found (law : Lawful c f) (h : Under pk) (seen : CodeSeen c mem pk i) :
    Found c mem tr pk i (nalScan c mem tr pk) := by
  have fields := hdrAt_fields law mem pk (i + 3)
  rw [nalScan_seen h seen]
  refine ⟨rfl, rfl, fields.1, fields.2, ?_, ?_⟩
  · dsimp only
    split
    · rename_i slice
      rw [Bool.and_eq_true, decide_eq_true_eq] at slice
      exact .inr ⟨rfl, slice.2⟩
    · exact .inl rfl
  · simp only [Bool.and_eq_true, Bool.not_eq_true']

theorem nalScan_size (law : Lawful c f) (h : Under pk) : (nalScan c mem tr pk).pk.size = pk.size := by
  by_cases seen : ∃ i, CodeSeen c mem pk i
  · obtain ⟨i, seen⟩ := seen
    exact (nalScan_found law h seen).size
  · rw [nalScan_unseen h fun i hi => seen ⟨i, hi⟩]

/-- A call that nothing misleads goes on inside the frame. -/
theorem scanned_within (tr : RtspTransport) (law : Lawful c f) (h : Under pk) (whole : ¬ Cut c mem pk) :
    let d := (nalScan c mem tr pk).copied c tr
    pk.offset < d.1 + d.2 ∧ d.1 + d.2 ≤ pk.size := by
  have more := h.more
  have word := h.word
  by_cases seen : ∃ i, CodeSeen c mem pk i
  · obtain ⟨i, seen⟩ := seen
    have fits : pk.offset + (i + 3) ≤ pk.size := Nat.le_of_not_lt fun lt => whole ⟨i, seen, .inl lt⟩
    have found : Found c mem tr pk i (nalScan c mem tr pk) := nalScan_found law h seen
    obtain ⟨_, left, offset, _, fu, param⟩ := found
    have skip : uadd pk.offset (i + 3) = pk.offset + (i + 3) := uadd_of_lt (by omega)
    rw [skip] at offset
    rw [usub_of_le (by omega) (by omega)] at left
    have set_ : (nalScan c mem tr pk).spsppsSize ≤ (nalScan c mem tr pk).left := by
      rw [param]
      split
      · rename_i is_
        by_contra lt
        obtain ⟨k, zeros, lt⟩ := (lt_paramSize_iff _ _ _).mp (Nat.lt_of_not_le lt)
        rw [hdrAt, skip] at is_
        rw [skip] at zeros
        exact whole ⟨i, seen, .inr ⟨is_.1, is_.2, k, zeros, by omega⟩⟩
      · exact Nat.zero_le _
    have within := copied_within tr law (by omega : _ + _ = pk.size) word
      (fu.imp id fun long => ⟨long.1, .inr long.2⟩) set_
    exact ⟨by omega, within.1⟩
  · rw [nalScan_unseen h fun i hi => seen ⟨i, hi⟩]
    have within := copied_within tr (s := ⟨0, pk.size - pk.offset, c.fuLen, 0, pk⟩) law
      (Nat.add_sub_cancel' more.le) word (.inr ⟨rfl, .inl rfl⟩) (Nat.zero_le _)
    exact ⟨within.2.2 (Nat.sub_pos_of_lt more), within.1⟩

/-- A call that is misled leaves the frame. -/
theorem scanned_past (law : Lawful c f) (h : Under pk) (cut : Cut c mem pk) :
    let d := (nalScan c mem tr pk).copied c tr
    ¬ (pk.offset < uadd d.1 d.2 ∧ uadd d.1 d.2 ≤ pk.size) := by
  have more := h.more
  have word := h.word
  have window := law.window.2
  obtain ⟨i, seen, past⟩ := cut
  have near := seen.2.1
  have found : Found c mem tr pk i (nalScan c mem tr pk) := nalScan_found law h seen
  obtain ⟨_, left, offset, _, fu, param⟩ := found
  have size : (nalScan c mem tr pk).spsppsSize ≤ c.window := by
    rw [param]
    split
    · exact paramSize_lt _ _
    · exact Nat.zero_le _
  obtain ⟨g, short, ends, set_⟩ := copied_past law tr (nalScan c mem tr pk) size
  dsimp only
  rw [ends, offset]
  by_cases lt : pk.size < pk.offset + (i + 3)
  · unfold uadd
    omega
  · obtain ⟨is_, isParam, k, zeros, past⟩ := past.resolve_left lt
    have skip : uadd pk.offset (i + 3) = pk.offset + (i + 3) := uadd_of_lt (by omega)
    have measured : pk.size - pk.offset - (i + 3) < (nalScan c mem tr pk).spsppsSize := by
      rw [atNal, ← skip] at is_ isParam
      rw [← skip] at zeros
      rw [param, if_pos ⟨is_, isParam⟩]
      exact (lt_paramSize_iff _ _ _).mpr ⟨k, zeros, by omega⟩
    have long := set_ (by omega)
    rw [skip]
    unfold uadd
    omega

end scanned

section calls

variable {c : NalCodec} {f : NalFormat} {mem : Mem} {tr : RtspTransport} {channel : Nat} {v : RtpSession}

/-- The call moves on by at least one octet, not past the frame, and copies nothing from behind it. -/
structure Advances (c : NalCodec) (mem : Mem) (tr : RtspTransport) (channel : Nat) (v : RtpSession) : Prop where
  moved : v.rtpPk.offset < (nalDoing c mem tr channel v).rtpPk.offset
  inside : (nalDoing c mem tr channel v).rtpPk.offset ≤ v.rtpPk.size
  size : (nalDoing c mem tr channel v).rtpPk.size = v.rtpPk.size
  copied : ((nalScan c mem tr v.rtpPk).copied c tr).1 + ((nalScan c mem tr v.rtpPk).copied c tr).2 ≤ v.rtpPk.size

theorem nalDoing_offset : (nalDoing c mem tr channel v).rtpPk.offset =
    uadd ((nalScan c mem tr v.rtpPk).copied c tr).1 ((nalScan c mem tr v.rtpPk).copied c tr).2 :=
  (nalCopy_copied c mem tr _).2.1

theorem nalDoing_size (law : Lawful c f) (h : Under v.rtpPk) :
    (nalDoing c mem tr channel v).rtpPk.size = v.rtpPk.size :=
  (nalCopy_copied c mem tr _).2.2.trans (nalScan_size law h)

theorem advances_iff (law : Lawful c f) (h : Under v.rtpPk) :
    Advances c mem tr channel v ↔ ¬ Cut c mem v.rtpPk := by
  constructor
  · rintro ⟨moved, inside, _, _⟩ cut
    rw [nalDoing_offset] at moved inside
    exact scanned_past law h cut ⟨moved, inside⟩
  · intro whole
    obtain ⟨moved, inside⟩ := scanned_within tr law h whole
    have offset : (nalDoing c mem tr channel v).rtpPk.offset = _ :=
      nalDoing_offset.trans (uadd_of_lt (Nat.lt_of_le_of_lt inside h.word))
    exact ⟨offset ▸ moved, offset ▸ inside, nalDoing_size law h, inside⟩

def RtpSession.isDoing (v : RtpSession) : Bool := v.txReady == .doing

/-- The states in which the first `n` calls that build a packet of the frame begin. -/
def nalCalls (c : NalCodec) (mem : Mem) (tr : RtspTransport) (channel n : Nat) (v : RtpSession) :
    List RtpSession :=
  rounds RtpSession.isDoing (fun v => .next (nalDoing c mem tr channel v)) n v

theorem nalDoing_txReady_eq : (nalDoing c mem tr channel v).txReady =
    if (nalDoing c mem tr channel v).rtpPk.offset == (nalDoing c mem tr channel v).rtpPk.size then .ready
    else .doing := rfl

theorem Advances.under (a : Advances c mem tr channel v) (h : Under v.rtpPk)
    (doing : (nalDoing c mem tr channel v).txReady = .doing) : Under (nalDoing c mem tr channel v).rtpPk where
  more := by
    rw [nalDoing_txReady_eq] at doing
    split at doing
    · cases doing
    · rename_i open_
      rw [beq_iff_eq] at open_
      exact Nat.lt_of_le_of_ne (a.size ▸ a.inside) open_
  word := a.size ▸ h.word

/-- Along the calls of one frame. -/
theorem nalCalls_iff (law : Lawful c f) (h : Under v.rtpPk) (n : Nat) :
    (∀ u ∈ nalCalls c mem tr channel n v, Advances c mem tr channel u) ↔
      ∀ u ∈ nalCalls c mem tr channel n v, ¬ Cut c mem u.rtpPk :=
  rounds_iff (I := fun u => Under u.rtpPk) (fun under _ => advances_iff law under)
    (fun under _ a next doing => by
      cases next
      exact a.under under (beq_iff_eq.mp doing))
    (fun _ => h) n

theorem txRun_of_whileDo (doing : v.txReady = .doing)
    (ends : whileDo RtpSession.isDoing (fun v => .next (nalDoing c mem tr channel v)) n v = some t) :
    ∃ ps, TxRun (nalDoing c mem tr channel) v ps t := by
  have here : v.isDoing = true := beq_iff_eq.mpr doing
  induction n generalizing v with
  | zero =>
    rw [whileDo, if_pos here] at ends
    cases ends
  | succ n ih =>
    rw [whileDo_next here (t := nalDoing c mem tr channel v) rfl] at ends
    by_cases last : (nalDoing c mem tr channel v).txReady = .doing
    · obtain ⟨ps, run⟩ := ih last ends (beq_iff_eq.mpr last)
      exact ⟨_, .more last run⟩
    · have over_ : (nalDoing c mem tr channel v).isDoing = false := beq_eq_false_iff_ne.mpr last
      rw [whileDo_exit n over_] at ends
      cases ends
      refine ⟨_, .last ?_⟩
      rw [nalDoing_txReady_eq] at last ⊢
      split
      · rfl
      · rename_i open_
        exact absurd (if_neg open_) last

/-- Calls that all advance come to `READY`. -/
theorem nalCalls_end (doing : v.txReady = .doing)
    (h : ∀ n, ∀ u ∈ nalCalls c mem tr channel n v, Advances c mem tr channel u) :
    ∃ ps t, TxRun (nalDoing c mem tr channel) v ps t := by
  obtain ⟨t, ends⟩ : ∃ t, whileDo RtpSession.isDoing (fun v => .next (nalDoing c mem tr channel v))
      (v.rtpPk.size - v.rtpPk.offset + 1) v = some t := whileDo_ends
    (fun u : RtpSession => u.rtpPk.size - u.rtpPk.offset)
    (fun {u t} _ (a : Advances c mem tr channel u) next => by
      cases next
      have moved := a.moved
      have inside := a.inside
      rw [a.size]
      omega)
    (Nat.lt_succ_self _) (h _)
  obtain ⟨ps, run⟩ := txRun_of_whileDo doing ends
  exact ⟨ps, t, run⟩

end calls

section frame

/-- A frame at the head of the queue of a session with nothing under way. -/
structure Taken (rc : RtspClient) (s : RtpSs) (pd : RtpQueueData) (q : RtpQueue) : Prop where
  transport : rc.eTransport = .udp ∨ rc.eTransport = .tcp
  session : rc.rtpSs = some s
  ready : s.video.txReady = .ready
  head : rtpQueueGet rc.rtpQueueVideo = some (pd, q)
  filled : 1 ≤ pd.size
  word : pd.size < 2 ^ 32

/-- The calls that build packets of the frame; of a frame that the gate refuses there is none. -/
def frameCalls (c : NalCodec) (mem : Mem) (rc : RtspClient) (s : RtpSs) (pd : RtpQueueData) (n : Nat) :
    List RtpSession :=
  if nalAdmits s.video pd then nalCalls c mem rc.eTransport (rc.connInfo.rtpPort 0) n (nalOpen s.video pd)
  else []

/-- The calls come to `READY`, and each of them advances. -/
def FrameFinishes (c : NalCodec) (mem : Mem) (rc : RtspClient) (s : RtpSs) (pd : RtpQueueData) : Prop :=
  (∃ n ps rc', txRun (rtspdClientRtpNalMain c mem) n rc = some (ps, rc')) ∧
    ∀ n, ∀ v ∈ frameCalls c mem rc s pd n, Advances c mem rc.eTransport (rc.connInfo.rtpPort 0) v

/-- No call on the frame is misled. -/
def FrameUncut (c : NalCodec) (mem : Mem) (rc : RtspClient) (s : RtpSs) (pd : RtpQueueData) : Prop :=
  ∀ n, ∀ v ∈ frameCalls c mem rc s pd n, ¬ Cut c mem v.rtpPk

variable {c : NalCodec} {f : NalFormat} {mem : Mem} {rc : RtspClient} {s : RtpSs} {pd : RtpQueueData}
  {q : RtpQueue}

theorem Taken.finishes_iff (t : Taken rc s pd q) (law : Lawful c f) :
    FrameFinishes c mem rc s pd ↔ FrameUncut c mem rc s pd := by
  unfold FrameFinishes FrameUncut frameCalls
  by_cases gate : nalAdmits s.video pd = true
  · simp only [if_pos gate]
    have under : Under (nalOpen s.video pd).rtpPk := ⟨t.filled, t.word⟩
    refine ⟨fun h n => (nalCalls_iff law under n).mp (h.2 n), fun h => ?_⟩
    have advances n := (nalCalls_iff law under n).mpr (h n)
    obtain ⟨ps, v', run⟩ := nalCalls_end rfl advances
    obtain ⟨n, hn⟩ := run.txRun (performs c mem) (fun _ _ _ => rfl) t.transport rc (s := s) (q := q)
      rfl rfl t.session rfl (by
        simp [rtspdClientRtpNalMain, t.transport, t.session, t.ready, t.head, gate]
        rfl)
    exact ⟨⟨n, ps, _, hn⟩, advances⟩
  · simp only [if_neg gate]
    refine ⟨fun _ _ _ hv => absurd hv List.not_mem_nil, fun _ =>
      ⟨⟨1, [], rc.withVideo s q (nalTake s.video pd), ?_⟩, fun _ _ hv => absurd hv List.not_mem_nil⟩⟩
    rw [Bool.not_eq_true] at gate
    simp [txRun, rtspdClientRtpNalMain, t.transport, t.session, t.ready, t.head, gate,
      RtspClient.withVideo, nalTake]

/-- A frame finishes inside its bounds, every call moving on, if and only if none of its calls comes to a
start code that runs past the end or to a parameter set that is measured to behind the end. -/
theorem frame_finishes_iff (mem : Mem) (rc : RtspClient) (s : RtpSs) (pd : RtpQueueData) (q : RtpQueue)
    (t : Taken rc s pd q) :
    (FrameFinishes avc mem rc s pd ↔ FrameUncut avc mem rc s pd) ∧
      (FrameFinishes hevc mem rc s pd ↔ FrameUncut hevc mem rc s pd) :=
  ⟨t.finishes_iff avc_lawful, t.finishes_iff hevc_lawful⟩

section sample

def freshSs : RtpSs := { RtpSs.zero with video := { RtpSession.zero with txReady := .ready } }

theorem taken_freshClient (tr : RtspTransport) (htr : tr = .udp ∨ tr = .tcp) (frame : List UInt8) (flags : Nat)
    (some_ : 1 ≤ frame.length) (word : frame.length < 2 ^ 32) :
    Taken (freshClient tr frame flags) freshSs ⟨0, frame.length, flags, 3000⟩
      (freshClient tr frame flags).rtpQueueVideo.pop :=
  have queued := queued_freshClient tr htr frame flags word
  ⟨queued.transport, queued.session, queued.ready, queued.head, some_, word⟩

/-- A frame of four octets that is no start code. -/
theorem frame_finishes_iff_tcp :
    FrameFinishes avc (.ofList [1, 2, 3, 4]) (freshClient .tcp [1, 2, 3, 4] 1) freshSs ⟨0, 4, 1, 3000⟩ ↔
      FrameUncut avc (.ofList [1, 2, 3, 4]) (freshClient .tcp [1, 2, 3, 4] 1) freshSs ⟨0, 4, 1, 3000⟩ :=
  (frame_finishes_iff _ _ _ _ _ (taken_freshClient .tcp (.inr rfl) [1, 2, 3, 4] 1 (by decide) (by decide))).1

/-- A frame of one zero, with `00 01` behind it in memory. -/
theorem frame_astray : Taken (freshClient .tcp [0] 1) freshSs ⟨0, 1, 1, 3000⟩
      (freshClient .tcp [0] 1).rtpQueueVideo.pop ∧
    ¬ FrameFinishes avc (.ofList [0, 0, 1]) (freshClient .tcp [0] 1) freshSs ⟨0, 1, 1, 3000⟩ := by
  refine ⟨taken_freshClient .tcp (.inr rfl) [0] 1 (by decide) (by decide), ?_⟩
  rintro ⟨_, advances⟩
  have first := (advances 1 (nalOpen freshSs.video ⟨0, 1, 1, 3000⟩) List.mem_cons_self).inside
  exact absurd first (by decide +kernel)

end sample

end frame

end En675.Rtsp
