import En675.Rtsp.OneSender

/-! The octets that two tasks put on one socket: the replies of `rtspd_client_main` and the
interleaved packets of `rtspd_client_rtp_main`. -/

namespace En675.Rtsp

open Lib

section units

/-- `$`, the channel, the length, and that many octets. -/
def Interleaved (u : List UInt8) : Prop :=
  ∃ channel body, u = [0x24, channel] ++ be 2 body.length ++ body ∧ body.length < 2 ^ 16

/-- A response as it was made. -/
def Replied (u : List UInt8) : Prop := ∃ e rc, u = (dispatch e rc).reply

def Complete (u : List UInt8) : Prop := Replied u ∨ Interleaved u

theorem Packet.interleaved (h : Packet .tcp p) : Interleaved p := by
  obtain ⟨channel, w, last, payload, rfl, fits⟩ := h
  let header := rthRTPHeader last w.payloadType ((w.startSeq + 1) % 2 ^ 16) w.startRtptime w.ssrc
  have length : (header ++ payload).length = 12 + payload.length := by
    rw [List.length_append, length_rthRTPHeader]
  refine ⟨UInt8.ofNat channel, header ++ payload, ?_, ?_⟩
  · rw [length, rtpPacket, if_neg (by decide : RtspTransport.tcp ≠ .udp), rthInterleaved,
      List.append_assoc _ header payload]
  · have fits : 16 + payload.length ≤ 1460 := fits
    omega

end units

section puts

/-- What the socket has taken. -/
def carried (puts : List Put) : List UInt8 := puts.flatMap fun p => p.unit.take p.n

/-- All of it was taken, or nothing. -/
def Put.Entire (p : Put) : Prop := p.n = 0 ∨ p.n = p.unit.length

theorem not_entire (hn : n ≠ 0) (hu : unit.length ≠ n) : ¬ Put.Entire ⟨unit, n⟩ :=
  fun h => h.elim hn fun all => hu all.symm

/-- The stream is made of whole units up to its end, and behind one that was cut nothing
follows. -/
structure Intact (puts : List Put) : Prop where
  units : ∃ us : List (List UInt8), (∀ u ∈ us, Complete u) ∧ carried puts <+: us.flatten
  whole : ∀ pre p, pre ++ [p] <+: puts → p.n ≠ 0 → ∀ q ∈ pre, q.Entire

variable {puts : List Put} {p : Put}

theorem carried_snoc (puts : List Put) (p : Put) :
    carried (puts ++ [p]) = carried puts ++ p.unit.take p.n := by
  rw [carried, List.flatMap_append, List.flatMap_singleton]
  rfl

/-- The units of which something was taken. -/
def taken (puts : List Put) : List (List UInt8) := (puts.filter (·.n ≠ 0)).map (·.unit)

theorem taken_skip (puts : List Put) (h : p.n = 0) : taken (p :: puts) = taken puts := by
  simp [taken, h]

theorem taken_cons (puts : List Put) (h : p.n ≠ 0) : taken (p :: puts) = p.unit :: taken puts := by
  simp [taken, h]

theorem carried_entire (h : ∀ q ∈ puts, q.Entire) : carried puts = (taken puts).flatten := by
  induction puts with
  | nil => rfl
  | cons p puts ih =>
    have head : carried (p :: puts) = p.unit.take p.n ++ carried puts := rfl
    rw [head, ih fun q hq => h q (List.mem_cons_of_mem _ hq)]
    by_cases hn : p.n = 0
    · rw [taken_skip puts hn, hn]
      rfl
    · have all := (h p List.mem_cons_self).resolve_left hn
      rw [taken_cons puts hn, all, List.take_length]
      rfl

theorem complete_taken (h : ∀ q ∈ puts, q.n ≠ 0 → Complete q.unit) : ∀ u ∈ taken puts, Complete u := by
  intro u hu
  obtain ⟨q, hq, rfl⟩ := List.mem_map.mp hu
  obtain ⟨hm, hn⟩ := List.mem_filter.mp hq
  exact h q hm (of_decide_eq_true hn)

theorem Intact.nil : Intact [] where
  units := ⟨[], nofun, List.prefix_rfl⟩
  whole _ _ h := absurd (List.prefix_nil.mp h) (List.append_ne_nil_of_right_ne_nil _ (List.cons_ne_nil _ _))

/-- Behind whole units one that may be cut. -/
theorem Intact.snoc (entire : ∀ q ∈ puts, q.Entire) (complete : ∀ q ∈ puts, q.n ≠ 0 → Complete q.unit)
    (next : p.n ≠ 0 → Complete p.unit) : Intact (puts ++ [p]) where
  units := by
    rw [carried_snoc, carried_entire entire]
    by_cases hn : p.n = 0
    · refine ⟨taken puts, complete_taken complete, ?_⟩
      rw [hn, List.take_zero, List.append_nil]
    · refine ⟨taken puts ++ [p.unit], fun u hu => ?_, ?_⟩
      · rcases List.mem_append.mp hu with hu | hu
        · exact complete_taken complete u hu
        · rw [List.mem_singleton.mp hu]
          exact next hn
      · rw [List.flatten_append, List.flatten_singleton]
        exact (List.prefix_append_right_inj _).mpr (List.take_prefix _ _)
  whole pre q h _ q' hq' := by
    refine entire q' ?_
    have le : pre <+: puts := by
      refine List.prefix_of_prefix_length_le ((List.prefix_append pre [q]).trans h) (List.prefix_append _ _) ?_
      have le := h.length_le
      rw [List.length_append, List.length_append] at le
      exact Nat.le_of_add_le_add_right le
    exact le.subset hq'

theorem Intact.of_entire (entire : ∀ q ∈ puts, q.Entire)
    (complete : ∀ q ∈ puts, q.n ≠ 0 → Complete q.unit) : Intact puts := by
  rcases List.eq_nil_or_concat puts with rfl | ⟨pre, p, rfl⟩
  · exact .nil
  · rw [List.concat_eq_append] at entire complete ⊢
    have before (q : Put) (hq : q ∈ pre) := List.mem_append_left [p] hq
    exact .snoc (fun q hq => entire q (before q hq)) (fun q hq => complete q (before q hq))
      (complete p (List.mem_append_right _ (List.mem_singleton_self p)))

/-- Before one of which something was taken there is none that was cut. -/
theorem Intact.behind (h : Intact (puts ++ [p] ++ [q])) (hn : q.n ≠ 0) : p.Entire :=
  h.whole _ q List.prefix_rfl hn p (List.mem_append_right _ (List.mem_singleton_self _))

end puts

section reply

/-- The reply that is to be written. -/
def RtspPc.reply : RtspPc → List UInt8
  | .test reply | .create reply | .load reply | .store _ reply | .free reply | .null reply
  | .write reply => reply
  | _ => []

theorem respond_reply (e : Env) (rc : RtspClient) : (rc.respond e).2.reply = (dispatch e rc).reply := by
  have settled := congrArg Prod.snd (settle_respond e rc)
  have goes := (respond_spec e rc).goes
  generalize rc.respond e = p at settled goes
  obtain ⟨rc', pc⟩ := p
  rcases goes with ⟨reply, rfl, _⟩ | ⟨reply, rfl, _⟩ | ⟨reply, rfl⟩ | rfl <;> exact settled

/-- What the event hands to `lwip_send` on the socket of the session. -/
def SlotEvent.put : SlotEvent → Option Put
  | .rtsp (.write out n) => some ⟨out, n⟩
  | .tcp (.put unit n) => some ⟨unit, n⟩
  | _ => none

end reply

namespace RtspSlot

/-- Besides, what is written when the reply is not set is nothing. -/
def Answers (s : RtspSlot) (e : SlotEvent) : Prop :=
  s.Calm e ∧
    match e with
    | .rtsp (.write _ _) => s.pc = .write [] → s.writeSize = 0
    | _ => True

/-- And every send takes all that it is given, or nothing. -/
def Undivided (s : RtspSlot) (e : SlotEvent) : Prop := s.Answers e ∧ ∀ p ∈ e.put, p.Entire

/-- What is next on its way to the socket is complete. -/
structure Sound (s : RtspSlot) : Prop where
  live : Live s
  loaded : Loaded s
  reply : s.pc.reply = [] ∨ Replied s.pc.reply

variable {mode : RtspdAuth} {s t : RtspSlot}

theorem reply_step (h : RtspStep s l t) (k : s.pc.reply = [] ∨ Replied s.pc.reply) :
    t.pc.reply = [] ∨ Replied t.pc.reply := by
  cases h with
  | unread => exact .inl rfl
  | request => exact .inl rfl
  | line => exact .inl rfl
  | blank => exact .inl rfl
  | @respond e _ => exact .inr ⟨e, s.rc, respond_reply e s.rc⟩
  | @test reply hp =>
    rw [hp] at k
    dsimp only
    split <;> exact k
  | create hp =>
    rw [hp] at k
    exact k
  | load hp =>
    rw [hp] at k
    exact k
  | store hp =>
    rw [hp] at k
    exact k
  | free hp =>
    rw [hp] at k
    exact k
  | freeNone hp =>
    rw [hp] at k
    exact k
  | null hp =>
    rw [hp] at k
    exact k
  | write => exact .inl rfl
  | leave => exact .inl rfl
  | done => exact .inl rfl
  | closeFree => exact .inl rfl
  | closeNone => exact .inl rfl
  | closeNull => exact .inl rfl
  | zero => exact .inl rfl

theorem tcp_pc (h : TcpStep s p e t o) : t.pc = s.pc := by
  cases h with
  | body st => exact st.sends.pc
  | _ => rfl

theorem udp_pc (h : UdpStep s p e t u) : t.pc = s.pc := by
  cases h with
  | body st => exact st.sends.pc
  | _ => rfl

theorem Sound.udpLoaded (k : Sound s) (h : UdpStep s p e t u) (hp : s.udp = p) :
    Loaded { t with udp := u } := by
  cases h with
  | body st => exact .of_nil (st.sends.tcp.trans (k.live.no_tcp (by rw [hp]; nofun)))
  | _ => exact k.loaded

theorem sound_inductive (mode : RtspdAuth) : (slot mode).Inductive Calm Sound where
  init h :=
    { live := (calm_inductive mode).init h
      loaded := .of_nil h.2.1
      reply := .inl (by rw [h.1.pc]; rfl) }
  step {s e t} k ok h := by
    have live := (calm_inductive mode).step k.live ok h
    cases h with
    | rtsp h => exact ⟨live, k.loaded.rtsp h, reply_step h k.reply⟩
    | tcp hl h =>
      obtain ⟨rfl, rfl, single⟩ := k.live.single hl
      have tr := (k.live.tcp (by rw [single]; exact List.cons_ne_nil _ _)).1
      refine ⟨live, k.loaded.tcpStep single tr h, ?_⟩
      rw [tcp_pc h]
      exact k.reply
    | udp h =>
      refine ⟨live, k.udpLoaded h rfl, ?_⟩
      rw [udp_pc h]
      exact k.reply
    | @frame d videoType =>
      refine ⟨live, fun p hm past => (k.loaded p hm past).block (.of_eq ?_), k.reply⟩
      unfold rtpQueueStreamVideoPut
      split <;> rfl
    | accept hp fresh ht =>
      have stands := k.live.stands
      rw [hp] at stands
      exact ⟨live, .of_nil (ht.trans stands.1.2.1), .inl (by rw [fresh.pc]; rfl)⟩

section put

theorem udp_puts (h : UdpStep s p e t u) : t.puts = s.puts := by
  cases h with
  | body st => cases st with
    | put ht => cases ht
    | _ => rfl
  | _ => rfl

theorem SlotStep.puts (h : SlotStep mode s e t) : t.puts = s.puts ++ e.put.toList ∨ t.puts = [] := by
  have same {ps : List Put} (h : ps = s.puts) : ps = s.puts ++ [] := h.trans (List.append_nil _).symm
  cases h with
  | rtsp h => cases h with
    | write => exact .inl rfl
    | _ => exact .inl (same rfl)
  | tcp _ h => cases h with
    | body st => cases st with
      | put => exact .inl rfl
      | datagram hu => cases hu
      | _ => exact .inl (same rfl)
    | _ => exact .inl (same rfl)
  | udp h =>
    have puts := udp_puts h
    exact .inl (same puts)
  | frame => exact .inl (same rfl)
  | accept _ fresh => exact .inr fresh.puts

/-- What the sender finds in the current buffer. -/
theorem Sound.packet (k : Sound s) (hm : .body p ∈ s.tcp) (past : p.Past) (current : s.Current unit) :
    unit = [] ∨ Packet .tcp unit := by
  obtain ⟨kept, block⟩ := k.live.inside (.inl ⟨p, hm⟩)
  obtain ⟨ss, hs⟩ := Option.isSome_iff_exists.mp block
  rw [current kept ss hs]
  refine k.loaded p hm past ss.video.buffer ss.video.bufIdx ?_
  rw [RtspClient.buffers, hs]
  rfl

theorem Sound.complete (k : Sound s) (ok : s.Answers e) (h : SlotStep mode s e t) :
    ∀ p ∈ e.put, p.n ≠ 0 → Complete p.unit := by
  intro p hp hn
  cases h with
  | rtsp h => cases h with
    | @write reply out n pc output le =>
      cases hp
      unfold Output at output
      by_cases hr : reply = []
      · subst hr
        rw [if_pos rfl, ok.2 pc] at output
        rw [output] at le
        exact absurd (Nat.le_zero.mp le) hn
      · rw [if_neg hr] at output
        have reply := k.reply
        rw [pc] at reply
        rw [output]
        exact .inl (reply.resolve_left hr)
    | _ => cases hp
  | @tcp l p _ _ _ _ hl h => cases h with
    | body st => cases st with
      | @put unit n f _ current le =>
        cases hp
        have hm : .body (.put f) ∈ s.tcp := by
          rw [hl]
          exact List.mem_append_right l List.mem_cons_self
        rcases k.packet hm trivial current with empty | packet
        · rw [empty] at le
          exact absurd (Nat.le_zero.mp le) hn
        · exact .inr packet.interleaved
      | datagram hu => cases hu
      | _ => cases hp
    | _ => cases hp
  | udp => cases hp
  | frame => cases hp
  | accept => cases hp

end put

/-- As long as every send takes all or nothing each put is a whole unit. -/
structure Filed (s : RtspSlot) : Prop where
  sound : Sound s
  entire : ∀ p ∈ s.puts, p.Entire
  complete : ∀ p ∈ s.puts, p.n ≠ 0 → Complete p.unit

theorem undivided_inductive (mode : RtspdAuth) : (slot mode).Inductive Undivided Filed where
  init h := by
    refine ⟨(sound_inductive mode).init h, fun p hp => ?_, fun p hp => ?_⟩ <;>
      · rw [h.1.puts] at hp
        cases hp
  step {s e t} k ok h := by
    have sound := (sound_inductive mode).step k.sound ok.1.1 h
    rcases SlotStep.puts h with puts | none_
    · refine ⟨sound, fun p hp => ?_, fun p hp => ?_⟩
      all_goals
        rw [puts] at hp
        rcases List.mem_append.mp hp with old | new
      · exact k.entire p old
      · exact ok.2 p (Option.mem_toList.mp new)
      · exact k.complete p old
      · exact k.sound.complete ok.1 h p (Option.mem_toList.mp new)
    · refine ⟨sound, fun p hp => ?_, fun p hp => ?_⟩ <;>
        · rw [none_] at hp
          cases hp

/-- In such a run the stream on the socket is intact, and it is still after the first send that
takes a part only. -/
theorem stream_intact (mode : RtspdAuth) (s : RtspSlot) (r : Reach (slot mode) Undivided s) :
    Intact s.puts ∧ ∀ e t, s.Answers e → (slot mode).step s e t → Intact t.puts := by
  have k := (undivided_inductive mode).reach r
  refine ⟨.of_entire k.entire k.complete, fun e t ok h => ?_⟩
  rcases SlotStep.puts h with puts | none_
  · rw [puts]
    cases hp : e.put with
    | none =>
      rw [Option.toList_none, List.append_nil]
      exact .of_entire k.entire k.complete
    | some p => exact .snoc k.entire k.complete (k.sound.complete ok h p hp)
  · rw [none_]
    exact .nil

section sample

variable {ok : RtspSlot → SlotEvent → Prop} {p : Int × RtspClient} {ss : RtpSs}

theorem touch_kept (h : s.freed = false) : s.touch = s := by
  cases s
  cases h
  rw [touch, Bool.or_false]

theorem reach_goto (r : Reach (slot mode) ok s) (one : s.tcp = [.body x]) (kept : s.freed = false)
    (h : SendStep .tcp s x e s.touch (.goto y)) (allowed : ok s (.tcp e)) :
    Reach (slot mode) ok { s with tcp := [.body y] } := by
  have step := reach_tcp r one (.body h) allowed
  rw [touch_kept kept] at step
  exact step

/-- The packet that `video_play` makes goes to the socket, or the first `n` octets of it. -/
theorem reach_sent (r : Reach (slot mode) ok s) (one : s.tcp = [.body .pack]) (kept : s.freed = false)
    (packs : rtspdClientRtpVideoPlay mem s.rc = some p) (fine : (p.1 == -1) = false)
    (hs : p.2.rtpSs = some ss) (full : ss.video.bufLen ≠ 0) (short : ss.video.bufLen ≤ tcpMss)
    (hn : n ≤ ss.video.bufLen) (pos : n ≠ 0) (pack : ok s (.tcp (.pack mem)))
    (go : ∀ t, ok t (.tcp .go)) (ready : ∀ t, ok t (.tcp .ready))
    (put : ∀ t, ok t (.tcp (.put (ss.video.buffer ss.video.bufIdx) n))) :
    Reach (slot mode) ok { s with rc := p.2, tcp := [.body (.count n false)]
                                  puts := s.puts ++ [⟨ss.video.buffer ss.video.bufIdx, n⟩] } := by
  obtain ⟨res, rc⟩ := p
  have still : s.touch = s := touch_kept kept
  have current (tcp : List TcpPc) : Current { s with rc, tcp } (ss.video.buffer ss.video.bufIdx) := by
    intro _ ss' hs'
    rw [Option.some.inj (hs.symm.trans hs')]
  have packed := reach_tcp r one (.body (.pack packs)) pack
  rw [still, fine] at packed
  have looked := reach_goto packed (x := .look false) rfl kept
    (.full fun ss' hs' => Option.some.inj (hs.symm.trans hs') ▸ full) (go _)
  have selected := reach_tcp looked (p := .body (.select false)) rfl (.body .ready) (ready _)
  have peeked := reach_goto selected (x := .peek false) rfl kept (.peek hs fun _ => short) (go _)
  have sent := reach_tcp peeked (p := .body (.put false)) rfl (.body (.put rfl (current _) hn)) (put _)
  rw [touch_kept (s := { s with rc, tcp := [.body (.put false)] }) kept, if_neg pos] at sent
  exact sent

/-- A frame is queued for the client, and its task is about to call `video_play`. -/
def sampleQueued : RtspSlot :=
  { sampleInside with rc := rtpQueueStreamVideoPut ⟨0, 4, 1, 0⟩ .liveH264_1 sampleInside.rc }

def sampleVideo : Int × RtspClient :=
  (rtspdClientRtpVideoPlay (fun _ => 0) sampleQueued.rc).getD (0, sampleQueued.rc)

def samplePacket : List UInt8 := sampleVideo.2.buffers.elim [] fun (buffer, bufIdx) => buffer bufIdx

/-- The first `n` octets of the packet are out. -/
def sampleSends (n : Nat) : RtspSlot :=
  { sampleQueued with
    rc := sampleVideo.2
    tcp := [.body (.count n false)]
    puts := sampleQueued.puts ++ [⟨samplePacket, n⟩] }

theorem sampleSends_reach (r : Reach (slot .none) ok samplePlays) (hn : n ≤ samplePacket.length)
    (pos : n ≠ 0) (frame : ∀ t d v, ok t (.frame d v)) (pack : ∀ t mem, ok t (.tcp (.pack mem)))
    (go : ∀ t, ok t (.tcp .go)) (ready : ∀ t, ok t (.tcp .ready))
    (put : ∀ t, ok t (.tcp (.put samplePacket n))) : Reach (slot .none) ok (sampleSends n) := by
  have queued : Reach (slot .none) ok sampleQueued :=
    (sampleInside_reach r go).step (frame _ _ _) SlotStep.frame
  obtain ⟨p, packs⟩ : ∃ p, rtspdClientRtpVideoPlay (fun _ => 0) sampleQueued.rc = some p :=
    Option.isSome_iff_exists.mp (by decide +kernel)
  have video : sampleVideo = p := by rw [sampleVideo, packs, Option.getD_some]
  rw [← video] at packs
  obtain ⟨ss, hs⟩ : ∃ ss, sampleVideo.2.rtpSs = some ss :=
    Option.isSome_iff_exists.mp (by decide +kernel)
  have packet : samplePacket = ss.video.buffer ss.video.bufIdx := by
    rw [samplePacket, RtspClient.buffers, hs]
    rfl
  have length : samplePacket.length = ss.video.bufLen := congrArg List.length packet
  have full : samplePacket.length ≠ 0 := by decide +kernel
  have short : samplePacket.length ≤ tcpMss := by decide +kernel
  rw [length] at full short hn
  unfold sampleSends
  rw [packet] at put ⊢
  exact reach_sent queued rfl (by decide +kernel) packs (by decide +kernel) hs full short hn pos (pack _ _) go ready put

theorem entire_put (unit : List UInt8) :
    ∀ p ∈ (SlotEvent.tcp (.put unit unit.length)).put, p.Entire := by
  rintro _ ⟨⟩
  exact .inr rfl

theorem answered_puts (s : RtspSlot) (e : Env) (buf : List UInt8) :
    (s.answered e buf).puts = s.puts ++ [⟨replyOf (s.asked e buf).pc, (replyOf (s.asked e buf).pc).length⟩] :=
  rfl

theorem Allows.undivided (h : Allows Calm s e buf) : Allows Undivided s e buf where
  request := ⟨⟨h.request, trivial⟩, nofun⟩
  line rc text spares hm := ⟨⟨h.line rc text spares hm, trivial⟩, nofun⟩
  respond := ⟨⟨h.respond, trivial⟩, nofun⟩
  setup t := ⟨⟨h.setup t, trivial⟩, nofun⟩
  write t reply hp hr := by
    refine ⟨⟨h.write t reply hp hr, fun unset => ?_⟩, fun p hm => ?_⟩
    · exact absurd (RtspPc.write.inj (hp.symm.trans unset)) hr
    · cases hm
      exact .inr rfl

theorem samplePlays_undivided : Reach (slot .none) Undivided samplePlays := by
  have setUp := sampleAdmitted_reach
    (allows_idle (sampleEnv .none) optionsText ⟨by decide +kernel, rfl, by decide +kernel⟩).undivided
    (allows_idle (sampleEnv .none) setupText ⟨by decide +kernel, rfl, by decide +kernel⟩).undivided
  exact samplePlays_reach setUp (allows_method (sampleEnv .none) playText (by decide +kernel)).undivided

/-- Three replies and a packet. -/
theorem stream_intact_packet : ∃ s, Reach (slot .none) Undivided s ∧ s.puts.length = 4 ∧ Intact s.puts := by
  have go {e : SendEvent} (h : (SlotEvent.tcp e).put = none) (calm : ∀ t : RtspSlot, t.Calm (.tcp e))
      (t : RtspSlot) : t.Undivided (.tcp e) :=
    ⟨⟨calm t, trivial⟩, fun p hp => by rw [h] at hp; cases hp⟩
  have sends := sampleSends_reach samplePlays_undivided le_rfl (by decide +kernel)
    (fun _ _ _ => ⟨⟨trivial, trivial⟩, nofun⟩) (fun t _ => go rfl (fun _ => trivial) t)
    (go rfl fun _ => trivial) (go rfl fun _ => trivial) fun _ => ⟨⟨trivial, trivial⟩, entire_put _⟩
  exact ⟨_, sends, by decide +kernel, (stream_intact .none _ sends).1⟩

def getText : List UInt8 := ascii "GET_PARAMETER rtsp://h/s RTSP/1.0\r\nCSeq: 4\r\nSession: 9\r\n\r\n"

/-- One octet of a packet is taken, and the answer to a request comes behind it. -/
theorem stream_cut : ¬ ∀ s, Reach (slot .none) Lts.any s → Intact s.puts := by
  intro all
  have plays := samplePlays_reach (sampleAdmitted_reach (allows_any _ _ _) (allows_any _ _ _))
    (allows_any _ _ _)
  have sends : Reach (slot .none) Lts.any (sampleSends 1) :=
    sampleSends_reach plays (by decide +kernel) Nat.one_ne_zero (fun _ _ _ => trivial)
      (fun _ _ => trivial) (fun _ => trivial) (fun _ => trivial) fun _ => trivial
  have answers : Steps (slot .none) Lts.any (sampleSends 1) ((sampleSends 1).answered (sampleEnv .none) getText) :=
    answered_steps (allows_any _ _ _) rfl (by decide +kernel) (by decide +kernel) (by decide +kernel)
  have intact := all _ (sends.steps answers)
  have puts : (sampleSends 1).puts = sampleQueued.puts ++ [⟨samplePacket, 1⟩] := rfl
  rw [answered_puts, puts] at intact
  exact not_entire Nat.one_ne_zero (by decide +kernel) (intact.behind (by decide +kernel))

end sample

end RtspSlot

end En675.Rtsp
