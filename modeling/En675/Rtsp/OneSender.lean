import En675.Rtsp.Freed

/-! Which sender serves a session, and that it clears `play_query` once `rtspd_client_main`
waits for it to. -/

namespace En675.Rtsp

open Lib

section packed

variable {rc rc' : RtspClient}

/-- The call of `video_play` lies behind. -/
def SendPc.Past : SendPc → Prop
  | .check | .grab | .pack => False
  | _ => True

/-- The current buffer is empty or holds a packet of a TCP session. -/
def RtspClient.Packed (rc : RtspClient) : Prop :=
  ∀ b i, rc.buffers = some (b, i) → b i = [] ∨ Packet .tcp (b i)

theorem RtspClient.Packed.block (h : rc.Packed) (k : Block rc rc') : rc'.Packed := by
  intro b i hb
  rcases k with same | ⟨_, fresh⟩
  · exact h b i (same ▸ hb)
  · obtain ⟨rfl, rfl⟩ := Prod.mk.inj (Option.some.inj (fresh.symm.trans hb))
    exact .inl rfl

theorem RtspClient.Packed.of_none (h : rc.rtpSs = none) : rc.Packed := by
  intro b i hb
  rw [RtspClient.buffers, h] at hb
  cases hb

theorem length_rtpPacket (tr : RtspTransport) (channel : Nat) (w : RtpSession) (last : Bool)
    (payload : List UInt8) : (rtpPacket tr channel w last payload).length = headLen tr + payload.length := by
  cases tr <;> simp [rtpPacket, headLen, rthInterleaved, rthRTPHeader] <;> omega

theorem Packet.length_le (h : Packet .tcp p) : p.length ≤ tcpMss := by
  obtain ⟨channel, w, last, payload, rfl, fits⟩ := h
  rw [length_rtpPacket]
  exact fits

theorem RtspClient.Packed.short (h : rc.Packed) (hs : rc.rtpSs = some ss) : ss.video.bufLen ≤ tcpMss := by
  rcases h _ _ (show rc.buffers = some (ss.video.buffer, ss.video.bufIdx) by rw [RtspClient.buffers, hs]; rfl)
    with empty | packet
  · rw [RtpSession.bufLen, empty]
    exact Nat.zero_le _
  · exact packet.length_le

theorem counted_buffers (rc : RtspClient) (n : Nat) : (rc.counted n).buffers = rc.buffers := by
  unfold RtspClient.counted RtspClient.buffers
  cases rc.rtpSs <;> rfl

theorem videoPlay_packed (tr : rc.eTransport = .tcp) (h : rtspdClientRtpVideoPlay mem rc = some (r, rc')) :
    rc'.Packed := by
  obtain ⟨ss, hs, _⟩ := Option.bind_eq_some_iff.mp h
  obtain ⟨q, v, rfl, fits⟩ := videoPlay_fits hs h
  intro b i hb
  obtain ⟨rfl, rfl⟩ := Prod.mk.inj (Option.some.inj hb)
  exact tr ▸ fits

end packed

section rtsp

variable {s t : RtspSlot} {mode : RtspdAuth}

/-- What a step of the RTSP task leaves to the senders. -/
structure RtspStep.Leaves (s t : RtspSlot) : Prop where
  tcp : t.tcp = s.tcp ∨ t.tcp = s.tcp ++ [.top]
  udp : t.udp = s.udp
  block : Block s.rc t.rc ∨ t.rc.rtpSs = none
  wait : t.pc = .wait → t.rc.state = .teardown

theorem RtspStep.leaves (h : RtspStep s l t) : Leaves s t := by
  have pass {pc : RtspPc} (hp : pc ≠ .wait) : Leaves s { s with pc } :=
    ⟨.inl rfl, rfl, .inl (.of_eq rfl), fun hw => absurd hw hp⟩
  cases h with
  | @unread buf rc e _ _ hr =>
    obtain ⟨spares, _⟩ := requestLine_spec s.rc (cstr buf)
    rw [hr] at spares
    exact ⟨.inl rfl, rfl, .inl (.of_eq spares.rtpSs), nofun⟩
  | @request buf rc text e _ _ hr =>
    obtain ⟨spares, _⟩ := requestLine_spec s.rc (cstr buf)
    rw [hr] at spares
    exact ⟨.inl rfl, rfl, .inl (.of_eq spares.rtpSs), nofun⟩
  | @line e text line rest _ _ =>
    exact ⟨.inl rfl, rfl, .inl (.of_eq (headerParse_reads e s.rc line rest).rtpSs), nofun⟩
  | blank => exact pass nofun
  | @respond e _ =>
    have spec := respond_spec e s.rc
    refine ⟨.inl rfl, rfl, .inl spec.block, fun hw => ?_⟩
    have hw : (s.rc.respond e).2 = .wait := hw
    rcases spec.goes with ⟨_, h, _⟩ | ⟨_, h, _⟩ | ⟨_, h⟩ | h <;> rw [h] at hw <;> cases hw
  | test =>
    refine ⟨.inl rfl, rfl, .inl (.inl (tested_buffers s.rc)), fun hw => ?_⟩
    dsimp only at hw
    split at hw <;> cases hw
  | create => exact ⟨.inr rfl, rfl, .inl (.of_eq rfl), nofun⟩
  | load => exact pass nofun
  | store => exact ⟨.inl rfl, rfl, .inl (.inl (stored_buffers s.rc _)), nofun⟩
  | free => exact ⟨.inl rfl, rfl, .inl (.of_eq rfl), nofun⟩
  | freeNone => exact pass nofun
  | null => exact ⟨.inl rfl, rfl, .inr rfl, nofun⟩
  | write => exact ⟨.inl rfl, rfl, .inl (.of_eq rfl), nofun⟩
  | leave => exact ⟨.inl rfl, rfl, .inl (.of_eq rfl), fun _ => rfl⟩
  | done => exact pass nofun
  | closeFree => exact ⟨.inl rfl, rfl, .inl (.of_eq rfl), nofun⟩
  | closeNone => exact pass nofun
  | closeNull => exact ⟨.inl rfl, rfl, .inr rfl, nofun⟩
  | zero => exact ⟨.inl rfl, rfl, .inr rfl, nofun⟩

end rtsp

section sender

variable {s t : RtspSlot}

def SendPc.rank : SendPc → Nat
  | .check => 7
  | .grab => 6
  | .pack => 5
  | .look _ => 4
  | .select _ => 3
  | .peek _ => 2
  | .put _ => 1
  | .count _ _ => 0

def TcpPc.rank : TcpPc → Nat
  | .body p => 3 + p.rank
  | .top => 2
  | .exit => 1
  | .spin => 0

def UdpPc.rank : UdpPc → Nat
  | .body p => 4 + p.rank
  | .away => 3
  | .switch => 2
  | .clear => 1
  | .spin => 0

/-- An iteration goes forward. -/
theorem SendStep.forward (h : SendStep sender s p e t a) (ha : a = .goto q) : q.rank < p.rank := by
  have over_ {f : Bool} (hf : finish f = .goto q) : False := by cases f <;> cases hf
  cases h with
  | empty => exact (over_ ha).elim
  | late => exact (over_ ha).elim
  | count => exact (over_ ha).elim
  | put =>
    split at ha
    · exact (over_ ha).elim
    · cases ha
      exact Nat.lt_succ_self _
  | datagram =>
    split at ha
    · exact (over_ ha).elim
    · cases ha
      exact Nat.lt_succ_self _
  | _ => cases ha <;> exact Nat.lt_succ_self _

theorem SendStep.tcp_rank (h : SendStep sender s p e t a) (go : a ≠ .spin) :
    a.tcp.rank < (TcpPc.body p).rank := by
  cases ha : a with
  | goto q => exact Nat.add_lt_add_left (h.forward ha) 3
  | spin => exact absurd ha go
  | done => exact Nat.lt_of_lt_of_le (by decide : 2 < 3) (Nat.le_add_right _ _)
  | failed => exact Nat.lt_of_lt_of_le (by decide : 1 < 3) (Nat.le_add_right _ _)

theorem SendStep.udp_rank (h : SendStep sender s p e t a) (go : a ≠ .spin) :
    a.udp.rank < (UdpPc.body p).rank := by
  cases ha : a with
  | goto q => exact Nat.add_lt_add_left (h.forward ha) 4
  | spin => exact absurd ha go
  | done => exact Nat.lt_of_lt_of_le (by decide : 3 < 4) (Nat.le_add_right _ _)
  | failed => exact Nat.lt_of_lt_of_le (by decide : 3 < 4) (Nat.le_add_right _ _)

/-- No call has failed, and the task does not end. -/
def SendEvent.Fine : SendEvent → Prop
  | .broken | .refused | .giveUp | .clear => False
  | _ => True

/-- A sender in its iteration can go on. -/
theorem SendStep.exists_step (sender : Sender) (p : SendPc) (block : s.rc.rtpSs.isSome) :
    ∃ e t a, SendStep sender s p e t a ∧ e.Fine := by
  obtain ⟨ss, hs⟩ := Option.isSome_iff_exists.mp block
  have current : s.Current (ss.video.buffer ss.video.bufIdx) := by
    intro _ ss' hs'
    rw [Option.some.inj (hs.symm.trans hs')]
  cases p with
  | check => exact ⟨_, _, _, .check block, trivial⟩
  | grab => exact ⟨_, _, _, .grab, trivial⟩
  | pack =>
    obtain ⟨⟨res, rc⟩, h⟩ := Option.isSome_iff_exists.mp (videoPlay_isSome (fun _ => 0) block)
    exact ⟨_, _, _, .pack h, trivial⟩
  | look f =>
    by_cases hb : ss.video.bufLen = 0
    · exact ⟨_, _, _, .empty fun _ h => Option.some.inj (hs.symm.trans h) ▸ hb, trivial⟩
    · exact ⟨_, _, _, .full fun _ h => Option.some.inj (hs.symm.trans h) ▸ hb, trivial⟩
  | select f => exact ⟨_, _, _, .ready, trivial⟩
  | peek f =>
    by_cases hl : sender = .tcp → ss.video.bufLen ≤ tcpMss
    · exact ⟨_, _, _, .peek hs hl, trivial⟩
    · rw [Classical.not_imp, Nat.not_le] at hl
      exact ⟨_, _, _, .long hs hl.1 hl.2, trivial⟩
  | put f =>
    cases sender with
    | tcp => exact ⟨_, _, _, .put rfl current (Nat.zero_le _), trivial⟩
    | udp => exact ⟨_, _, _, .datagram rfl current (Nat.zero_le _), trivial⟩
  | count n f => exact ⟨_, _, _, .count, trivial⟩

theorem finish_ne_spin (f : Bool) : finish f ≠ .spin := by
  cases f <;> nofun

/-- A sender waits for ever on a null `rtp_ss` or a buffer that is too long, and not otherwise. -/
theorem SendStep.ne_spin (h : SendStep sender s p e t a) (block : s.rc.rtpSs.isSome)
    (packed : sender = .tcp → p.Past → s.rc.Packed) : a ≠ .spin := by
  have found (hn : s.rc.rtpSs = none) : False := by
    rw [hn] at block
    cases block
  cases h with
  | null hn => exact (found hn).elim
  | packNull hn => exact (found hn).elim
  | peekNull hn => exact (found hn).elim
  | long hs ht hl => exact absurd ((packed ht trivial).short hs) (Nat.not_le_of_lt hl)
  | empty => exact finish_ne_spin _
  | late => exact finish_ne_spin _
  | count => exact finish_ne_spin _
  | put =>
    split
    · exact finish_ne_spin _
    · nofun
  | datagram =>
    split
    · exact finish_ne_spin _
    · nofun
  | _ => nofun

theorem SendStep.packed (h : SendStep .tcp s p e t a) (tr : s.rc.eTransport = .tcp)
    (packed : p.Past → s.rc.Packed) (ha : a = .goto q) (past : q.Past) : t.rc.Packed := by
  cases h with
  | check =>
    cases ha
    exact past.elim
  | grab =>
    cases ha
    exact past.elim
  | pack h => exact videoPlay_packed tr h
  | count =>
    intro b i hb
    exact packed trivial b i ((counted_buffers s.rc _).symm.trans hb)
  | null => cases ha
  | packNull => cases ha
  | datagram hu => cases hu
  | giveUp hu => cases hu
  | _ => exact packed trivial

/-- Only `giveUp` changes the state. -/
theorem SendStep.state (h : SendStep sender s p e t a) :
    t.rc.state = s.rc.state ∨ e = .giveUp ∧ sender = .udp := by
  cases h with
  | pack h =>
    obtain ⟨ss, hs, _⟩ := Option.bind_eq_some_iff.mp h
    obtain ⟨q, v, rfl, _⟩ := videoPlay_called hs h
    exact .inl rfl
  | giveUp hu => exact .inr ⟨rfl, hu⟩
  | _ => exact .inl rfl

end sender

namespace RtspSlot

/-- Behind its call of `video_play` the task of a TCP session has a packet, or nothing. -/
def Loaded (s : RtspSlot) : Prop := ∀ p, .body p ∈ s.tcp → p.Past → s.rc.Packed

section loaded

variable {s t : RtspSlot}

theorem Loaded.of_nil (h : s.tcp = []) : s.Loaded := fun p hm => by
  rw [h] at hm
  cases hm

theorem Loaded.rtsp (loaded : s.Loaded) (h : RtspStep s l t) : t.Loaded := by
  intro p hm past
  have body : .body p ∈ s.tcp := by
    rcases h.leaves.tcp with tcp | tcp <;> rw [tcp] at hm
    · exact hm
    · rcases List.mem_append.mp hm with hm | hm
      · exact hm
      · cases List.mem_singleton.mp hm
  rcases h.leaves.block with block | none_
  · exact (loaded p body past).block block
  · exact .of_none none_

theorem Loaded.tcpStep (loaded : s.Loaded) (single : s.tcp = [p]) (tr : s.rc.eTransport = .tcp)
    (h : TcpStep s p e t o) : Loaded { t with tcp := [] ++ o.toList ++ [] } := by
  have fresh {p' : TcpPc} (hb : ∀ q, p' = .body q → ¬ q.Past) : Loaded { s with tcp := [p'] } :=
    fun q hm past => absurd past (hb q (List.mem_singleton.mp hm).symm)
  cases h with
  | leave => exact fresh nofun
  | play =>
    refine fresh fun q hq => ?_
    cases hq
    exact id
  | idle => exact fresh nofun
  | @body q _ _ a st =>
    intro q' hm past
    have here : .body q ∈ s.tcp := by
      rw [single]
      exact List.mem_singleton_self _
    have hm : a.tcp = .body q' := (List.mem_singleton.mp hm).symm
    cases a with
    | goto p' =>
      cases hm
      exact st.packed tr (loaded q here) rfl past
    | _ => cases hm
  | exit => exact fun q hm => absurd hm List.not_mem_nil

end loaded

/-- Exactly one sender serves the session. -/
def OneSender (s : RtspSlot) : Prop :=
  (s.tcp.length = 1 ∧ s.rc.eTransport = .tcp ∧ ∀ p, s.udp ≠ .body p) ∨
    s.tcp = [] ∧ s.rc.eTransport = .udp

/-- Besides, the task of a TCP session does not end between the test of `play_query` in a
`SETUP` and the store, and the UDP task does not give up on a client that is being closed. -/
def Orderly (s : RtspSlot) (e : SlotEvent) : Prop :=
  s.Calm e ∧
    match e with
    | .tcp .clear => ¬ s.pc.Storing
    | .udp .giveUp => s.pc ≠ .wait
    | _ => True

/-- A session that is set up, or is about to be, has a sender, and that sender runs. -/
structure Manned (s : RtspSlot) : Prop where
  live : Live s
  manned : s.rc.playQuery ≠ strtypeNone ∨ s.pc.Storing → s.tcp ≠ [] ∨ s.rc.eTransport = .udp
  wait : s.pc = .wait → s.rc.state = .teardown
  spin : .spin ∉ s.tcp ∧ s.udp ≠ .spin
  packed : ∀ p, .body p ∈ s.tcp → p.Past → s.rc.Packed

namespace Manned

variable {s t : RtspSlot} (k : Manned s)
include k

section rtsp

theorem same {rc : RtspClient} {pc : RtspPc} (query : rc.playQuery = s.rc.playQuery)
    (tr : rc.eTransport = s.rc.eTransport) (storing : pc.Storing → s.pc.Storing)
    (h : rc.playQuery ≠ strtypeNone ∨ pc.Storing) : s.tcp ≠ [] ∨ rc.eTransport = .udp := by
  rw [tr]
  exact k.manned (h.imp (query ▸ ·) storing)

theorem rtsp_manned (ok : s.Calm (.rtsp l)) (h : RtspStep s l t)
    (ht : t.rc.playQuery ≠ strtypeNone ∨ t.pc.Storing) : t.tcp ≠ [] ∨ t.rc.eTransport = .udp := by
  have stands := k.live.stands
  cases h with
  | @unread buf rc e _ _ hr =>
    obtain ⟨spares, _, tr⟩ := requestLine_spec s.rc (cstr buf)
    rw [hr] at spares tr
    exact k.same spares.playQuery tr False.elim ht
  | @request buf rc text e _ _ hr =>
    obtain ⟨spares, _, tr⟩ := requestLine_spec s.rc (cstr buf)
    rw [hr] at spares tr
    exact k.same spares.playQuery tr False.elim ht
  | @line e text line rest hp hc =>
    have spares := headerParse_reads e s.rc line rest
    cases hn : s.rc.names line rest with
    | none =>
      have tr := headerParse_names e s.rc line rest
      rw [hn] at tr
      exact k.same spares.playQuery tr False.elim ht
    | some named =>
      rcases ok e text line rest hp hc named hn with same | idle
      · have tr := headerParse_names e s.rc line rest
        rw [hn] at tr
        exact k.same spares.playQuery (tr.trans same) False.elim ht
      · exact (ht.resolve_right id (spares.playQuery.trans idle.1)).elim
  | blank => exact k.same rfl rfl False.elim ht
  | @respond e _ =>
    have spec := respond_spec e s.rc
    refine k.same spec.playQuery spec.eTransport (fun h => ?_) ht
    rcases spec.goes with ⟨_, g, _⟩ | ⟨_, g, _⟩ | ⟨_, g⟩ | g <;> rw [g] at h <;> exact h.elim
  | @test reply hp =>
    rw [hp] at stands
    obtain ⟨query, tr, _⟩ := tested_fields s.rc
    cases hsp : s.rc.spawns with
    | true =>
      simp only [hsp, if_true] at ht
      exact k.same query tr False.elim ht
    | false =>
      have set : s.rc.eTransport = .udp ∨ s.rc.playQuery ≠ strtypeNone := by
        refine stands.2.2.imp_right fun tcp none_ => ?_
        rw [RtspClient.spawns, tcp, none_] at hsp
        cases hsp
      dsimp only
      rw [tr]
      exact set.elim .inr fun hq => k.manned (.inl hq)
  | create => exact .inl (List.append_ne_nil_of_right_ne_nil _ (List.cons_ne_nil _ _))
  | load hp => exact k.same rfl rfl (fun _ => by rw [hp]; trivial) ht
  | store hp =>
    obtain ⟨_, tr, _⟩ := stored_fields s.rc _
    dsimp only
    rw [tr]
    exact k.manned (.inr (by rw [hp]; trivial))
  | free => exact k.same rfl rfl False.elim ht
  | freeNone => exact k.same rfl rfl False.elim ht
  | null => exact k.same rfl rfl False.elim ht
  | write => exact k.same rfl rfl False.elim ht
  | leave => exact k.same rfl rfl False.elim ht
  | done => exact k.same rfl rfl False.elim ht
  | closeFree => exact k.same rfl rfl False.elim ht
  | closeNone => exact k.same rfl rfl False.elim ht
  | closeNull => exact k.same rfl rfl False.elim ht
  | zero => exact (ht.resolve_right id rfl).elim

theorem rtsp (ok : s.Calm (.rtsp l)) (h : RtspStep s l t) : Manned t where
  live := k.live.rtsp ok h
  manned := k.rtsp_manned ok h
  wait := h.leaves.wait
  spin := by
    rcases h.leaves.tcp with tcp | tcp <;> rw [tcp, h.leaves.udp]
    · exact k.spin
    · refine ⟨fun hm => ?_, k.spin.2⟩
      rcases List.mem_append.mp hm with hm | hm
      · exact k.spin.1 hm
      · cases List.mem_singleton.mp hm
  packed := Loaded.rtsp k.packed h

end rtsp

section senders

theorem tcpStep (ok : s.Orderly (.tcp e)) (hl : s.tcp = l ++ p :: r) (h : TcpStep s p e t o)
    (live : Live { t with tcp := l ++ o.toList ++ r }) : Manned { t with tcp := l ++ o.toList ++ r } := by
  obtain ⟨rfl, rfl, single⟩ := k.live.single hl
  have one : s.tcp ≠ [] := by
    rw [single]
    exact List.cons_ne_nil _ _
  have tr := (k.live.tcp one).1
  have loaded := Loaded.tcpStep k.packed single tr h
  have stay {p' : TcpPc} (hs : p' ≠ .spin) (live : Live { s with tcp := [p'] })
      (loaded : Loaded { s with tcp := [p'] }) : Manned { s with tcp := [p'] } :=
    { live, manned := fun _ => .inl (List.cons_ne_nil _ _), wait := k.wait
      spin := ⟨fun hm => hs (List.mem_singleton.mp hm).symm, k.spin.2⟩
      packed := loaded }
  cases h with
  | leave => exact stay nofun live loaded
  | play => exact stay nofun live loaded
  | idle => exact stay nofun live loaded
  | @body q _ _ a st =>
    have sends := st.sends
    have here : .body q ∈ s.tcp := by
      rw [single]
      exact List.mem_singleton_self _
    have go := st.ne_spin (k.live.inside (.inl ⟨q, here⟩)).2 fun _ => k.packed q here
    refine
      { live, manned := fun _ => .inl (List.cons_ne_nil _ _), wait := fun hw => ?_
        spin := ⟨fun hm => ?_, sends.udp ▸ k.spin.2⟩, packed := loaded }
    · rcases st.state with same | ⟨_, hu⟩
      · exact same.trans (k.wait (sends.pc.symm.trans hw))
      · cases hu
    · have hm : a.tcp = .spin := (List.mem_singleton.mp hm).symm
      cases a with
      | spin => exact go rfl
      | _ => cases hm
  | exit =>
    exact
      { live, manned := fun h => (h.elim (fun hq => hq rfl) ok.2).elim, wait := k.wait
        spin := ⟨List.not_mem_nil, k.spin.2⟩, packed := loaded }

theorem udpStep (ok : s.Orderly (.udp e)) (h : UdpStep s p e t u) (hp : s.udp = p)
    (live : Live { t with udp := u }) : Manned { t with udp := u } := by
  have stay {u' : UdpPc} (hu : u' ≠ .spin) (live : Live { s with udp := u' }) :
      Manned { s with udp := u' } :=
    { live, manned := k.manned, wait := k.wait, spin := ⟨k.spin.1, hu⟩, packed := k.packed }
  cases h with
  | enter => exact stay nofun live
  | pass => exact stay nofun live
  | play => exact stay nofun live
  | torn => exact stay nofun live
  | idle => exact stay nofun live
  | @body q _ _ a st =>
    have sends := st.sends
    have none_ : s.tcp = [] := k.live.no_tcp (by rw [hp]; nofun)
    have go := st.ne_spin (k.live.inside (.inr ⟨q, hp⟩)).2 nofun
    refine
      { live, manned := fun h => ?_, wait := fun hw => ?_, spin := ⟨?_, fun hu => ?_⟩
        packed := fun q' hm => ?_ }
    · change t.tcp ≠ [] ∨ t.rc.eTransport = .udp
      rw [sends.tcp, sends.eTransport]
      exact k.manned (h.imp (sends.playQuery ▸ ·) (sends.pc ▸ ·))
    · rcases st.state with same | ⟨hg, _⟩
      · exact same.trans (k.wait (sends.pc.symm.trans hw))
      · subst hg
        exact absurd (sends.pc.symm.trans hw) ok.2
    · change TcpPc.spin ∉ t.tcp
      rw [sends.tcp]
      exact k.spin.1
    · cases a with
      | spin => exact go rfl
      | _ => cases hu
    · have hm : TcpPc.body q' ∈ t.tcp := hm
      rw [sends.tcp, none_] at hm
      cases hm
  | clear =>
    exact
      { live, manned := fun h => h.elim (fun hq => absurd rfl hq) (fun hs => k.manned (.inr hs))
        wait := k.wait, spin := ⟨k.spin.1, nofun⟩, packed := k.packed }

end senders

theorem frame (d : RtpQueueData) (videoType : RtspStream) :
    Manned { s with rc := rtpQueueStreamVideoPut d videoType s.rc } := by
  have live := k.live.frame d videoType
  revert live
  unfold rtpQueueStreamVideoPut
  split
  · exact fun live => ⟨live, k.manned, k.wait, k.spin, k.packed⟩
  · exact fun _ => k

/-- While the slot is set up and nothing is between the two stores, one sender serves it. -/
theorem oneSender (hq : s.rc.playQuery ≠ strtypeNone) : s.OneSender := by
  by_cases ht : s.tcp = []
  · exact .inr ⟨ht, (k.manned (.inl hq)).resolve_left fun h => h ht⟩
  · obtain ⟨tr, away⟩ := k.live.tcp ht
    have one := k.live.one
    refine .inl ⟨?_, tr, fun p hp => ?_⟩
    · have pos := List.length_pos_iff.mpr ht
      omega
    · rw [away] at hp
      cases hp

end Manned

theorem Fresh.manned {s : RtspSlot} (f : s.Fresh mode) (none_ : s.tcp = []) (away : s.udp = .away)
    (live : Live s) : Manned s := by
  obtain ⟨index, clientid, addr, hrc⟩ := f.rc
  refine { live, manned := fun h => ?_, wait := fun hw => ?_, spin := ⟨?_, ?_⟩, packed := fun p hm => ?_ }
  · rw [hrc, f.pc] at h
    exact (h.elim (fun hq => hq rfl) id).elim
  · rw [f.pc] at hw
    cases hw
  · rw [none_]
    exact List.not_mem_nil
  · rw [away]
    nofun
  · rw [none_] at hm
    cases hm

theorem orderly_inductive (mode : RtspdAuth) : (slot mode).Inductive Orderly Manned where
  init h := h.1.manned h.2.1 h.2.2.1 ((calm_inductive mode).init h)
  step {s e t} k ok h := by
    have live := (calm_inductive mode).step k.live ok.1 h
    cases h with
    | rtsp h => exact k.rtsp ok.1 h
    | tcp hl h => exact k.tcpStep ok hl h live
    | udp h => exact k.udpStep ok h rfl live
    | frame => exact k.frame _ _
    | accept hp fresh ht hu hf =>
      have stands := k.live.stands
      rw [hp] at stands
      exact fresh.manned (ht.trans stands.1.2.1) (hu.trans ok.1) live

section closing

variable {s t : RtspSlot}

/-- A step of the sender that serves the session. -/
def Serves (s : RtspSlot) : SlotEvent → Prop
  | .tcp _ => s.tcp ≠ []
  | .udp _ => s.tcp = []
  | _ => False

/-- How far the serving sender is from its store to `play_query`. -/
def rank (s : RtspSlot) : Nat :=
  match s.tcp with
  | p :: _ => p.rank
  | [] => s.udp.rank

def Closing (s : RtspSlot) : Prop := Manned s ∧ s.pc = .wait

theorem wait_done (h : RtspStep s l t) (hw : s.pc = .wait) : s.rc.playQuery = strtypeNone := by
  cases h with
  | done _ hq => exact hq
  | _ => cases hw.symm.trans ‹s.pc = _›

theorem Closing.tcpStep (c : s.Closing) (hl : s.tcp = l ++ p :: r) (h : TcpStep s p e t o) :
    t.rc.playQuery = strtypeNone ∨
      t.pc = .wait ∧ rank { t with tcp := l ++ o.toList ++ r } < s.rank := by
  obtain ⟨k, hw⟩ := c
  obtain ⟨rfl, rfl, single⟩ := k.live.single hl
  have torn := k.wait hw
  have now : s.rank = p.rank := by rw [rank, single]
  cases h with
  | leave => exact .inr ⟨hw, by rw [now]; exact Nat.lt_succ_self 1⟩
  | play hs =>
    rw [torn] at hs
    cases hs
  | idle hs =>
    rw [torn] at hs
    cases hs
  | @body q _ _ a st =>
    have here : .body q ∈ s.tcp := by
      rw [single]
      exact List.mem_singleton_self _
    have go := st.ne_spin (k.live.inside (.inl ⟨q, here⟩)).2 fun _ => k.packed q here
    refine .inr ⟨st.sends.pc.trans hw, ?_⟩
    rw [now]
    exact st.tcp_rank go
  | exit => exact .inl rfl

theorem Closing.udpStep (c : s.Closing) (open_ : s.rc.playQuery ≠ strtypeNone) (h : UdpStep s p e t u)
    (hp : s.udp = p) : t.rc.playQuery = strtypeNone ∨
      t.pc = .wait ∧ rank { t with udp := u } ≤ s.rank ∧ (s.tcp = [] → rank { t with udp := u } < s.rank) := by
  obtain ⟨k, hw⟩ := c
  have torn := k.wait hw
  by_cases ht : s.tcp = []
  · have tr := (k.manned (.inl open_)).resolve_left fun h => h ht
    have now : s.rank = p.rank := by rw [rank, ht, hp]
    have moves (hpc : t.pc = .wait) (tcp : t.tcp = []) (lt : u.rank < p.rank) :
        t.pc = .wait ∧ rank { t with udp := u } ≤ s.rank ∧ (s.tcp = [] → rank { t with udp := u } < s.rank) := by
      have after : rank { t with udp := u } = u.rank := by simp only [rank, tcp]
      rw [after, now]
      exact ⟨hpc, Nat.le_of_lt lt, fun _ => lt⟩
    cases h with
    | enter => exact .inr (moves hw ht (by decide))
    | pass hn => exact absurd tr hn
    | play hs =>
      rw [torn] at hs
      cases hs
    | torn => exact .inr (moves hw ht (by decide))
    | idle _ hn => exact absurd torn hn
    | @body q _ _ a st =>
      have go := st.ne_spin (k.live.inside (.inr ⟨q, hp⟩)).2 nofun
      exact .inr (moves (st.sends.pc.trans hw) (st.sends.tcp.trans ht) (st.udp_rank go))
    | clear => exact .inl rfl
  · obtain ⟨tr, away⟩ := k.live.tcp ht
    rw [away] at hp
    subst hp
    cases h with
    | enter hu =>
      rw [tr] at hu
      cases hu
    | pass =>
      have same : rank { s with udp := .away } = s.rank := by rw [← away]
      exact .inr ⟨hw, same.le, fun h => absurd h ht⟩

theorem udp_step (hp : s.udp = p) (h : UdpStep s p e t u) :
    (slot mode).step s (.udp e) { t with udp := u } := by
  subst hp
  exact .udp h

theorem Closing.enabled (c : s.Closing) (open_ : s.rc.playQuery ≠ strtypeNone) :
    ∃ l t, s.Orderly l ∧ s.Serves l ∧ (slot mode).step s l t := by
  obtain ⟨k, hw⟩ := c
  have torn := k.wait hw
  cases ht : s.tcp with
  | nil =>
    have tr := (k.manned (.inl open_)).resolve_left fun h => h ht
    cases hp : s.udp with
    | away => exact ⟨.udp .go, _, ⟨trivial, trivial⟩, ht, udp_step hp (.enter tr)⟩
    | switch => exact ⟨.udp .go, _, ⟨trivial, trivial⟩, ht, udp_step hp (.torn torn)⟩
    | body q =>
      obtain ⟨e, t, a, st, fine⟩ := SendStep.exists_step .udp q (k.live.inside (.inr ⟨q, hp⟩)).2
      refine ⟨.udp e, _, ⟨trivial, ?_⟩, ht, udp_step hp (.body st)⟩
      cases e <;> first | trivial | exact False.elim fine
    | spin => exact absurd hp k.spin.2
    | clear => exact ⟨.udp .clear, _, ⟨trivial, trivial⟩, ht, udp_step hp .clear⟩
  | cons p r =>
    have here : s.tcp = [] ++ p :: r := ht
    have serves : s.tcp ≠ [] := by
      rw [ht]
      exact List.cons_ne_nil _ _
    cases p with
    | top => exact ⟨.tcp .go, _, ⟨trivial, trivial⟩, serves, .tcp here (.leave (by rw [torn]; rfl))⟩
    | body q =>
      have inside : .body q ∈ s.tcp := by
        rw [ht]
        exact List.mem_cons_self
      obtain ⟨e, t, a, st, fine⟩ := SendStep.exists_step .tcp q (k.live.inside (.inl ⟨q, inside⟩)).2
      refine ⟨.tcp e, _, ⟨trivial, ?_⟩, serves, .tcp here (.body st)⟩
      cases e <;> first | trivial | exact False.elim fine
    | spin => exact absurd (by rw [ht]; exact List.mem_cons_self) k.spin.1
    | exit =>
      exact ⟨.tcp .clear, _, ⟨trivial, by rw [hw]; exact id⟩, serves, .tcp here .exit⟩

/-- While `rtspd_client_main` waits, each step of the serving sender brings the store nearer. -/
theorem closing_ranks (mode : RtspdAuth) : Ranks (slot mode) Orderly Serves
    (fun s => s.rc.playQuery = strtypeNone) Closing rank where
  step {s e t} c open_ ok h := by
    have manned := (orderly_inductive mode).step c.1 ok h
    cases h with
    | rtsp h => exact absurd (wait_done h c.2) open_
    | tcp hl h =>
      rcases c.tcpStep hl h with goal | ⟨hw, lt⟩
      · exact .inl goal
      · exact .inr ⟨⟨manned, hw⟩, Nat.le_of_lt lt, fun _ => lt⟩
    | udp h =>
      rcases c.udpStep open_ h rfl with goal | ⟨hw, le, lt⟩
      · exact .inl goal
      · exact .inr ⟨⟨manned, hw⟩, le, lt⟩
    | @frame d videoType =>
      have same : (rtpQueueStreamVideoPut d videoType s.rc).playQuery = s.rc.playQuery := by
        unfold rtpQueueStreamVideoPut
        split <;> rfl
      exact .inr ⟨⟨manned, c.2⟩, le_rfl, False.elim⟩
    | accept hp => cases c.2.symm.trans hp
  enabled c open_ := c.enabled open_

theorem rank_lt (s : RtspSlot) : s.rank < 12 := by
  have send (p : SendPc) : p.rank ≤ 7 := by cases p <;> simp [SendPc.rank]
  unfold rank
  split
  · rename_i p _ _
    cases p with
    | body q => exact Nat.lt_of_le_of_lt (Nat.add_le_add_left (send q) 3) (by decide)
    | _ => decide
  · cases s.udp with
    | body q => exact Nat.lt_of_le_of_lt (Nat.add_le_add_left (send q) 4) (by decide)
    | _ => decide

end closing

/-- In such a run a session that is set up has exactly one sender, and while
`rtspd_client_main` waits for `play_query == 0` no more than 12 steps of that sender are left
until it is cleared. -/
theorem one_sender (mode : RtspdAuth) (s : RtspSlot) (r : Reach (slot mode) Orderly s) :
    (s.rc.playQuery ≠ strtypeNone → s.OneSender) ∧
      (s.pc = .wait →
        LeadsTo (slot mode) Orderly Serves (fun t => t.rc.playQuery = strtypeNone) 12 s) := by
  have k := (orderly_inductive mode).reach r
  exact ⟨k.oneSender, fun hw => (closing_ranks mode).leadsTo ⟨k, hw⟩ s.rank_lt⟩

section sample

theorem Allows.orderly (h : Allows Calm s e buf) : Allows Orderly s e buf where
  request := ⟨h.request, trivial⟩
  line rc text spares hm := ⟨h.line rc text spares hm, trivial⟩
  respond := ⟨h.respond, trivial⟩
  setup t := ⟨h.setup t, trivial⟩
  write t reply hp hr := ⟨h.write t reply hp hr, trivial⟩

theorem samplePlays_orderly : Reach (slot .none) Orderly samplePlays := by
  have setUp := sampleAdmitted_reach
    (allows_idle (sampleEnv .none) optionsText ⟨by decide +kernel, rfl, by decide +kernel⟩).orderly
    (allows_idle (sampleEnv .none) setupText ⟨by decide +kernel, rfl, by decide +kernel⟩).orderly
  exact samplePlays_reach setUp (allows_method (sampleEnv .none) playText (by decide +kernel)).orderly

/-- The client that plays is gone. -/
def sampleWaits : RtspSlot :=
  { samplePlays with rc := { samplePlays.rc with state := .teardown }, pc := .wait }

theorem one_sender_waits : Reach (slot .none) Orderly sampleWaits ∧ sampleWaits.OneSender ∧
    LeadsTo (slot .none) Orderly Serves (fun t => t.rc.playQuery = strtypeNone) 12 sampleWaits := by
  have leave : SlotStep .none samplePlays (.rtsp .leave) sampleWaits := .rtsp (.leave rfl)
  have ok : samplePlays.Orderly (.rtsp .leave) := ⟨trivial, trivial⟩
  have reach := samplePlays_orderly.step ok leave
  obtain ⟨one, waits⟩ := one_sender .none sampleWaits reach
  exact ⟨reach, one (by decide +kernel), waits rfl⟩

def setupUdpText : List UInt8 := ascii
  "SETUP rtsp://h/s/video RTSP/1.0\r\nTransport: RTP/AVP;unicast;client_port=5000-5001\r\n\r\n"

/-- A client set up over UDP asks for TCP. -/
def sampleRenames : RtspSlot :=
  ((sampleSlot.answered (sampleEnv .none) optionsText).admitted (sampleEnv .none) setupUdpText).asked
    (sampleEnv .none) setupText

theorem two_transports : Reach (slot .none) Lts.any sampleRenames ∧
    sampleRenames.rc.playQuery = strtypeVideo ∧ sampleRenames.tcp.length = 0 ∧
      sampleRenames.rc.eTransport = .tcp ∧ ¬ sampleRenames.OneSender := by
  have options : Steps (slot .none) Lts.any sampleSlot (sampleSlot.answered (sampleEnv .none) optionsText) :=
    answered_steps (allows_any _ _ _) rfl (by decide) (by decide +kernel) (by decide +kernel)
  have setUp : Steps (slot .none) Lts.any (sampleSlot.answered (sampleEnv .none) optionsText)
      ((sampleSlot.answered (sampleEnv .none) optionsText).admitted (sampleEnv .none) setupUdpText) :=
    admitted_steps (allows_any _ _ _) rfl (by decide +kernel) (by decide +kernel) (by decide +kernel)
  have renames : Steps (slot .none) Lts.any _ sampleRenames :=
    asked_steps rfl (by decide +kernel) (by decide +kernel) trivial (fun _ _ _ _ => trivial) trivial
  have reach := (((Reach.init sampleSlot_init).steps options).steps setUp).steps renames
  have none_ : sampleRenames.tcp.length = 0 := by decide +kernel
  have tcp : sampleRenames.rc.eTransport = .tcp := by decide +kernel
  refine ⟨reach, by decide +kernel, none_, tcp, fun h => ?_⟩
  rcases h with ⟨one, _⟩ | ⟨_, udp⟩
  · rw [none_] at one
    cases one
  · rw [tcp] at udp
    cases udp

end sample

end RtspSlot

end En675.Rtsp
