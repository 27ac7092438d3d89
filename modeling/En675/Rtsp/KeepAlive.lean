import En675.Rtsp.Interleaved

/-! A session that plays while its client polls it: which requests leave the state alone, and
that the sender goes on under them. -/

namespace En675.Rtsp

open Lib

section requests

variable {e : Env} {rc rc' : RtspClient}

theorem checkUrl_isLive (h : rtspdClientRtspCheckUrl e rc = (ok, rc')) (live : rc.isLive ≠ .none) :
    rc'.isLive = rc.isLive := by
  unfold rtspdClientRtspCheckUrl at h
  simp only [if_neg live] at h
  split at h <;>
  · cases h
    rfl

/-- The methods whose handlers leave the state alone. -/
def RtspMethod.Polls : RtspMethod → Prop
  | .getParameter | .setParameter => True
  | _ => False

/-- The session stays what it is, unless it goes to `ERROR`. -/
structure Stays (rc rc' : RtspClient) : Prop where
  state : rc'.state = rc.state ∨ rc'.state = .error
  isLive : rc.isLive ≠ .none → rc'.isLive = rc.isLive

theorem Spares.stays (h : Spares rc rc') : Stays rc rc' := ⟨.inl h.state, fun _ => h.isLive⟩

theorem processError_stays (rc : RtspClient) (status : RtspStatus) :
    Stays rc (rtspdClientRtspProcessError e rc status).rc := by
  rw [processError_rc]
  refine ⟨?_, fun _ => rfl⟩
  cases status.keepsState
  · exact .inr rfl
  · exact .inl rfl

theorem Moves.stays (m : Moves rc [] a) : Stays rc a.rc where
  state := m.state.imp id fun h => h.resolve_right fun h => by cases h.1
  isLive _ := by rw [m.slot]

/-- Only `SETUP` and `TEARDOWN` are answered in more than one step. -/
theorem respond_dispatch (hs : rc.method ≠ .setup) (ht : rc.method ≠ .teardown) :
    rc.respond e = ((dispatch e rc).rc, (dispatch e rc).next) := by
  unfold RtspClient.respond dispatch rtspdClientRtspResponse
  split
  · cases hc : rc.checked e with
    | inl a => rfl
    | inr rc₁ =>
      have same : rc₁.method = rc.method := by
        unfold RtspClient.checked at hc
        split at hc
        · cases hc
        · split at hc
          · rename_i hu
            cases hc
            exact (checkUrl_reads e hu).2.2.2.2.1
          · cases hc
      dsimp only
      cases hm : rc₁.method with
      | setup => exact absurd (same.symm.trans hm) hs
      | teardown => exact absurd (same.symm.trans hm) ht
      | _ => rfl
  · rfl

theorem processMethod_polls (hm : rc.method.Polls) :
    Stays rc (processMethod e rc).rc ∧ (processMethod e rc).hangs = false := by
  unfold processMethod
  cases h : rc.method with
  | getParameter => exact ⟨(processGetParameter_moves e).stays, processPlain_hangs e _ _ rc⟩
  | setParameter => exact ⟨(processSetParameter_moves e).stays, processSetParameter_hangs e rc⟩
  | _ =>
    rw [h] at hm
    exact hm.elim

/-- A poll is answered, and the answer changes no more than that. -/
theorem respond_polls (e : Env) (hm : rc.method.Polls) :
    Stays rc (rc.respond e).1 ∧ ∃ reply, (rc.respond e).2 = .write reply := by
  have writes {a : Answer} (stays : Stays rc a.rc) (go : a.hangs = false) :
      Stays rc a.rc ∧ ∃ reply, a.next = .write reply :=
    ⟨stays, a.reply, by rw [Answer.next, go]; rfl⟩
  rw [respond_dispatch (fun h => by rw [h] at hm; exact hm) (fun h => by rw [h] at hm; exact hm)]
  have cases_ := dispatch_cases e rc
  generalize dispatch e rc = a at cases_ ⊢
  cases cases_ with
  | unauthorized => exact writes (processError_stays (e := e) rc .s401) rfl
  | torn => exact writes (processError_stays rc .s412) rfl
  | @unserved rc' _ _ hc =>
    have error := processError_stays (e := e) rc' .s501
    refine writes ⟨?_, fun live => ?_⟩ rfl
    · exact (checkUrl_reads e hc).1 ▸ error.state
    · have same := checkUrl_isLive hc live
      exact (error.isLive (same ▸ live)).trans same
  | @handled rc' _ _ hc =>
    obtain ⟨state, _, _, _, method, _⟩ := checkUrl_reads e hc
    obtain ⟨stays, go⟩ := processMethod_polls (e := e) (method ▸ hm)
    refine writes ⟨state ▸ stays.state, fun live => ?_⟩ go
    have same := checkUrl_isLive hc live
    exact (stays.isLive (same ▸ live)).trans same

end requests

section sender

variable {s t : RtspSlot}

/-- The sender is in its loop and has not met a failure. -/
def SendPc.Goes : SendPc → Prop
  | .look f | .select f | .peek f | .put f | .count _ f => f = false
  | _ => True

def TcpPc.Goes : TcpPc → Prop
  | .top => True
  | .body p => p.Goes
  | _ => False

/-- Steps to the next call of `video_play`. -/
def SendPc.ahead : SendPc → Nat
  | .pack => 0
  | .grab => 1
  | .check => 2
  | .count _ _ => 5
  | .put _ => 6
  | .peek _ => 7
  | .select _ => 8
  | .look _ => 9

def TcpPc.ahead : TcpPc → Nat
  | .body p => p.ahead
  | .top => 3
  | _ => 0

def UdpPc.ahead : UdpPc → Nat
  | .body p => p.ahead
  | .switch => 3
  | .away => 4
  | _ => 0

/-- Where the sender goes on, or that its iteration is over, is nearer to the next call. -/
theorem SendStep.nearer (h : SendStep sender s p e t a) (hp : p ≠ .pack) :
    (∃ q, a = .goto q ∧ q.ahead < p.ahead) ∨ a = .spin ∨ (a = .done ∨ a = .failed) ∧ 5 ≤ p.ahead := by
  have over_ (f : Bool) : finish f = .done ∨ finish f = .failed := by
    cases f
    · exact .inl rfl
    · exact .inr rfl
  cases h with
  | null => exact .inr (.inl rfl)
  | packNull => exact absurd rfl hp
  | pack => exact absurd rfl hp
  | empty => exact .inr (.inr ⟨over_ _, (by decide : 5 ≤ 9)⟩)
  | late => exact .inr (.inr ⟨over_ _, (by decide : 5 ≤ 8)⟩)
  | broken => exact .inr (.inr ⟨.inr rfl, (by decide : 5 ≤ 8)⟩)
  | peekNull => exact .inr (.inl rfl)
  | long => exact .inr (.inl rfl)
  | put =>
    split
    · exact .inr (.inr ⟨over_ _, (by decide : 5 ≤ 6)⟩)
    · exact .inl ⟨_, rfl, Nat.lt_succ_self _⟩
  | datagram =>
    split
    · exact .inr (.inr ⟨over_ _, (by decide : 5 ≤ 6)⟩)
    · exact .inl ⟨_, rfl, Nat.lt_succ_self _⟩
  | refused => exact .inr (.inr ⟨.inr rfl, (by decide : 5 ≤ 6)⟩)
  | giveUp => exact .inr (.inr ⟨.inr rfl, (by decide : 5 ≤ 6)⟩)
  | count => exact .inr (.inr ⟨over_ _, (by decide : 5 ≤ 5)⟩)
  | _ => exact .inl ⟨_, rfl, Nat.lt_succ_self _⟩

/-- The event is no failure of a call. -/
def SendEvent.Works (s : RtspSlot) : SendEvent → Prop
  | .broken | .refused | .giveUp => False
  | .pack mem => ∀ res rc, rtspdClientRtpVideoPlay mem s.rc = some (res, rc) → (res == -1) = false
  | _ => True

/-- Without a failure the sender keeps going. -/
theorem SendStep.goes (h : SendStep sender s p e t a) (hp : p.Goes) (works : e.Works s) :
    a = .done ∨ a = .spin ∨ ∃ q, a = .goto q ∧ q.Goes := by
  cases h with
  | null => exact .inr (.inl rfl)
  | packNull => exact .inr (.inl rfl)
  | peekNull => exact .inr (.inl rfl)
  | long => exact .inr (.inl rfl)
  | check => exact .inr (.inr ⟨_, rfl, trivial⟩)
  | grab => exact .inr (.inr ⟨_, rfl, trivial⟩)
  | pack h => exact .inr (.inr ⟨_, rfl, works _ _ h⟩)
  | full => exact .inr (.inr ⟨_, rfl, hp⟩)
  | ready => exact .inr (.inr ⟨_, rfl, hp⟩)
  | peek => exact .inr (.inr ⟨_, rfl, hp⟩)
  | empty =>
    rw [show _ = false from hp]
    exact .inl rfl
  | late =>
    rw [show _ = false from hp]
    exact .inl rfl
  | count =>
    rw [show _ = false from hp]
    exact .inl rfl
  | put =>
    rw [show _ = false from hp]
    split
    · exact .inl rfl
    · exact .inr (.inr ⟨_, rfl, rfl⟩)
  | datagram =>
    rw [show _ = false from hp]
    split
    · exact .inl rfl
    · exact .inr (.inr ⟨_, rfl, rfl⟩)
  | broken => exact works.elim
  | refused => exact works.elim
  | giveUp => exact works.elim

theorem SendStep.works (h : SendStep sender s p e t a) (hp : p ≠ .pack) (fine : e.Fine) : e.Works s := by
  cases h with
  | pack => exact absurd rfl hp
  | packNull => exact absurd rfl hp
  | broken => exact fine.elim
  | refused => exact fine.elim
  | giveUp => exact fine.elim
  | _ => trivial

theorem SendStep.isLive (h : SendStep sender s p e t a) :
    t.rc.isLive = s.rc.isLive ∧ t.rc.method = s.rc.method := by
  cases h with
  | pack h =>
    obtain ⟨ss, hs, _⟩ := Option.bind_eq_some_iff.mp h
    obtain ⟨q, v, rfl, _⟩ := videoPlay_called hs h
    exact ⟨rfl, rfl⟩
  | _ => exact ⟨rfl, rfl⟩

end sender

namespace RtspSlot

variable {mode : RtspdAuth} {s t : RtspSlot}

/-- One sender serves the session, and it has not come to its end. -/
def Serving (s : RtspSlot) : Prop := s.OneSender ∧ ∀ p ∈ s.tcp, p.Goes

/-- The requests that are read have one of the methods, none of them is answered by an error that
ends the session, and no call of a sender fails. -/
def Requests (methods : RtspMethod → Prop) (s : RtspSlot) : SlotEvent → Prop
  | .rtsp (.request _ buf) =>
    ∀ rc text, s.rc.requestLine (cstr buf) = (rc, some text) → methods rc.method
  | .rtsp .respond => ∀ e, s.pc = .respond e → (s.rc.respond e).1.state ≠ .error
  | .rtsp .leave => False
  | .tcp e => e.Works s
  | .udp e => e ≠ .giveUp
  | _ => True

/-- Where the RTSP task is while the client only polls. -/
def Between (s : RtspSlot) : Prop :=
  match s.pc with
  | .recv | .write _ => True
  | .lines _ _ | .respond _ => s.rc.method.Polls
  | _ => False

theorem Between.of_eq (h : s.Between) (pc : t.pc = s.pc) (method : t.rc.method = s.rc.method) : t.Between := by
  unfold Between at h ⊢
  rw [pc, method]
  exact h

/-- What the client sees of its session stays. -/
structure Persists (s t : RtspSlot) : Prop where
  state : t.rc.state = s.rc.state
  playQuery : t.rc.playQuery = s.rc.playQuery
  isLive : s.rc.isLive ≠ .none → t.rc.isLive = s.rc.isLive

theorem Persists.refl (s : RtspSlot) : Persists s s := ⟨rfl, rfl, fun _ => rfl⟩

theorem Persists.trans (h : Persists s t) (k : Persists t u) : Persists s u where
  state := k.state.trans h.state
  playQuery := k.playQuery.trans h.playQuery
  isLive live := by
    have same := h.isLive live
    exact (k.isLive (same ▸ live)).trans same

theorem Persists.of_spares (h : Spares s.rc t.rc) : Persists s t := ⟨h.state, h.playQuery, fun _ => h.isLive⟩

/-- A session that plays while its client polls. -/
structure Polled (s : RtspSlot) : Prop where
  manned : Manned s
  state : s.rc.state = .play
  query : s.rc.playQuery ≠ strtypeNone
  between : s.Between
  goes : ∀ p ∈ s.tcp, p.Goes

namespace Polled

variable (k : Polled s)
include k

theorem serving : s.Serving := ⟨k.manned.oneSender k.query, k.goes⟩

theorem rtsp (ok : s.Requests RtspMethod.Polls (.rtsp l)) (h : RtspStep s l t) :
    Persists s t ∧ t.Between ∧ t.tcp = s.tcp := by
  have between := k.between
  unfold Between at between
  cases h with
  | @unread buf rc e _ _ hr =>
    obtain ⟨spares, _⟩ := requestLine_spec s.rc (cstr buf)
    rw [hr] at spares
    exact ⟨.of_spares spares, trivial, rfl⟩
  | @request buf rc text e _ _ hr =>
    obtain ⟨spares, _⟩ := requestLine_spec s.rc (cstr buf)
    rw [hr] at spares
    exact ⟨.of_spares spares, ok rc text hr, rfl⟩
  | @line e text line rest hp _ =>
    rw [hp] at between
    have polls : (rtspdClientRtspHeaderParse e s.rc line rest).method.Polls := by
      rw [headerParse_method]
      exact between
    exact ⟨.of_spares (headerParse_reads e s.rc line rest), polls, rfl⟩
  | blank hp =>
    rw [hp] at between
    exact ⟨⟨rfl, rfl, fun _ => rfl⟩, between, rfl⟩
  | @respond e hp =>
    rw [hp] at between
    obtain ⟨stays, reply, writes⟩ := respond_polls e between
    refine ⟨⟨stays.state.resolve_right (ok e hp), (respond_spec e s.rc).playQuery, stays.isLive⟩, ?_, rfl⟩
    unfold Between
    rw [writes]
    trivial
  | write => exact ⟨⟨rfl, rfl, fun _ => rfl⟩, trivial, rfl⟩
  | leave => exact ok.elim
  | _ =>
    rw [‹s.pc = _›] at between
    exact between.elim

/-- A step of a sender. -/
theorem sends (st : SendStep sender s p e t a) (keeps : e ≠ .giveUp ∨ sender = .tcp) :
    Persists s t ∧ t.Between := by
  obtain ⟨isLive, method⟩ := st.isLive
  have sends := st.sends
  refine ⟨⟨?_, sends.playQuery, fun _ => isLive⟩, k.between.of_eq sends.pc method⟩
  rcases st.state with same | ⟨hg, hu⟩
  · exact same
  · rcases keeps with keeps | tcp
    · exact absurd hg keeps
    · rw [hu] at tcp
      cases tcp

theorem tcpStep (ok : e.Works s) (hl : s.tcp = l ++ p :: r) (h : TcpStep s p e t o)
    (spin : ∀ p' ∈ o.toList, p' ≠ .spin) :
    Persists s t ∧ t.Between ∧ ∃ p', l ++ o.toList ++ r = [p'] ∧ p'.Goes := by
  obtain ⟨rfl, rfl, single⟩ := k.manned.live.single hl
  have goes : p.Goes := k.goes p (by rw [single]; exact List.mem_singleton_self p)
  cases h with
  | leave hs =>
    rw [k.state] at hs
    cases hs
  | play => exact ⟨.refl s, k.between, _, rfl, trivial⟩
  | idle _ hs => exact absurd k.state hs
  | @body q _ _ a st =>
    obtain ⟨persists, between⟩ := k.sends st (.inr rfl)
    refine ⟨persists, between, a.tcp, rfl, ?_⟩
    rcases st.goes goes ok with rfl | rfl | ⟨q', rfl, hq⟩
    · trivial
    · exact absurd rfl (spin _ (List.mem_singleton_self _))
    · exact hq
  | exit => exact goes.elim

theorem udpStep (ok : e ≠ .giveUp) (h : UdpStep s p e t u) (hp : s.udp = p) :
    Persists s t ∧ t.Between ∧ t.tcp = s.tcp := by
  cases h with
  | body st =>
    obtain ⟨persists, between⟩ := k.sends st (.inl ok)
    exact ⟨persists, between, st.sends.tcp⟩
  | clear =>
    have ended := (k.manned.live.torn hp).not_play k.manned.live
    exact absurd k.state ended
  | _ => exact ⟨.refl s, k.between, rfl⟩

theorem frame (d : RtpQueueData) (videoType : RtspStream) :
    Persists s { s with rc := rtpQueueStreamVideoPut d videoType s.rc } ∧
      Between { s with rc := rtpQueueStreamVideoPut d videoType s.rc } := by
  unfold rtpQueueStreamVideoPut
  split
  · exact ⟨⟨rfl, rfl, fun _ => rfl⟩, k.between.of_eq rfl rfl⟩
  · exact ⟨.refl s, k.between⟩

/-- Polls are no occasion for what makes a run disorderly. -/
theorem orderly (ok : s.Requests RtspMethod.Polls e) (h : SlotStep mode s e t) : s.Orderly e := by
  have between := k.between
  unfold Between at between
  cases h with
  | rtsp h =>
    refine ⟨?_, trivial⟩
    cases h with
    | @line e text line rest hp hc =>
      rw [hp] at between
      intro e' text' line' rest' _ _ tr hn
      rw [names_none s.rc line' rest' (fun hm => by rw [hm] at between; exact between)] at hn
      cases hn
    | blank hp =>
      rw [hp] at between
      intro e' text' line' rest' _ _ tr hn
      rw [names_none s.rc line' rest' (fun hm => by rw [hm] at between; exact between)] at hn
      cases hn
    | free hp =>
      rw [hp] at between
      exact between.elim
    | freeNone hp =>
      rw [hp] at between
      exact between.elim
    | _ => trivial
  | @tcp l p _ e _ _ _ h =>
    refine ⟨trivial, ?_⟩
    cases e with
    | clear =>
      intro storing
      generalize s.pc = pc at between storing
      cases pc <;> first | exact between.elim | exact storing.elim
    | _ => trivial
  | @udp e _ _ h =>
    refine ⟨trivial, ?_⟩
    cases e with
    | giveUp => exact absurd rfl ok
    | _ => trivial
  | frame => exact ⟨trivial, trivial⟩
  | accept hp =>
    rw [hp] at between
    exact between.elim

theorem step (ok : s.Requests RtspMethod.Polls e) (h : SlotStep mode s e t) : Polled t ∧ Persists s t := by
  have manned := (orderly_inductive mode).step k.manned (k.orderly ok h) h
  have polled (persists : Persists s t) (between : t.Between) (goes : ∀ p ∈ t.tcp, p.Goes) :
      Polled t ∧ Persists s t := by
    refine ⟨⟨manned, persists.state.trans k.state, ?_, between, goes⟩, persists⟩
    rw [persists.playQuery]
    exact k.query
  cases h with
  | rtsp h =>
    obtain ⟨persists, between, tcp⟩ := k.rtsp ok h
    exact polled persists between (tcp ▸ k.goes)
  | @tcp l p r _ _ _ hl h =>
    obtain ⟨persists, between, p', one, goes⟩ := k.tcpStep ok hl h fun p hp he =>
      manned.spin.1 (List.mem_append_left r (List.mem_append_right l (he ▸ hp)))
    refine polled ⟨persists.state, persists.playQuery, persists.isLive⟩ (between.of_eq rfl rfl) fun p hm => ?_
    have hm : p ∈ l ++ _ ++ r := hm
    rw [one] at hm
    rw [List.mem_singleton.mp hm]
    exact goes
  | udp h =>
    obtain ⟨persists, between, tcp⟩ := k.udpStep ok h rfl
    refine polled ⟨persists.state, persists.playQuery, persists.isLive⟩ (between.of_eq rfl rfl) fun p hm => ?_
    exact k.goes p (tcp ▸ hm)
  | frame =>
    obtain ⟨persists, between⟩ := k.frame _ _
    exact polled persists between k.goes
  | accept hp =>
    have between := k.between
    unfold Between at between
    rw [hp] at between
    exact between.elim

end Polled

theorem Polled.run (k : Polled s) (h : Steps (slot mode) (Requests RtspMethod.Polls) s t) :
    Polled t ∧ Persists s t :=
  h.inductive (I := fun t => Polled t ∧ Persists s t)
    (fun i ok st => by
      obtain ⟨polled, persists⟩ := i.1.step ok st
      exact ⟨polled, i.2.trans persists⟩)
    ⟨k, .refl s⟩

/-- The sender is about to call `video_play`. -/
def Packing (s : RtspSlot) : Prop := .body .pack ∈ s.tcp ∨ s.udp = .body .pack

def ahead (s : RtspSlot) : Nat :=
  match s.tcp with
  | p :: _ => p.ahead
  | [] => s.udp.ahead

section ahead

variable (k : Polled s) (out : ¬ s.Packing)
include k out

theorem Polled.tcpAhead (ok : e.Works s) (hl : s.tcp = l ++ p :: r) (h : TcpStep s p e t o)
    (spin : ∀ p' ∈ o.toList, p' ≠ .spin) : ahead { t with tcp := l ++ o.toList ++ r } < s.ahead := by
  obtain ⟨_, _, p', one, goes⟩ := k.tcpStep ok hl h spin
  obtain ⟨rfl, rfl, single⟩ := k.manned.live.single hl
  have now : s.ahead = p.ahead := by rw [ahead, single]
  have later : ahead { t with tcp := [] ++ o.toList ++ [] } = p'.ahead := by simp only [ahead, one]
  rw [now, later]
  cases h with
  | leave hs =>
    rw [k.state] at hs
    cases hs
  | play =>
    obtain rfl := (List.singleton_inj.mp one).symm
    decide
  | idle _ hs => exact absurd k.state hs
  | @body q _ _ a st =>
    obtain rfl := (List.singleton_inj.mp one).symm
    have pack : q ≠ .pack := by
      rintro rfl
      exact out (.inl (by rw [single]; exact List.mem_singleton_self _))
    rcases st.nearer pack with ⟨q', rfl, lt⟩ | rfl | ⟨rfl | rfl, le⟩
    · exact lt
    · exact absurd rfl (spin _ (List.mem_singleton_self _))
    · exact Nat.lt_of_lt_of_le (by decide : 3 < 5) le
    · exact goes.elim
  | exit => cases one

theorem Polled.udpAhead (none_ : s.tcp = []) (h : UdpStep s p e t u) (hp : s.udp = p) (spin : u ≠ .spin) :
    u.ahead < p.ahead := by
  have tr : s.rc.eTransport = .udp := by
    rcases k.serving.1 with ⟨one, _⟩ | ⟨_, tr⟩
    · rw [none_] at one
      cases one
    · exact tr
  cases h with
  | enter => decide
  | pass hn => exact absurd tr hn
  | play => decide
  | torn hs =>
    rw [k.state] at hs
    cases hs
  | idle hs => exact absurd k.state hs
  | @body q _ _ a st =>
    have pack : q ≠ .pack := by
      rintro rfl
      exact out (.inr hp)
    rcases st.nearer pack with ⟨q', rfl, lt⟩ | rfl | ⟨rfl | rfl, le⟩
    · exact lt
    · exact absurd rfl spin
    · exact Nat.lt_of_lt_of_le (by decide : 4 < 5) le
    · exact Nat.lt_of_lt_of_le (by decide : 4 < 5) le
  | clear =>
    have ended := (k.manned.live.torn hp).not_play k.manned.live
    exact absurd k.state ended

theorem Polled.enabled : ∃ l t, s.Requests RtspMethod.Polls l ∧ s.Serves l ∧ (slot mode).step s l t := by
  rcases k.serving.1 with ⟨one, _⟩ | ⟨none_, tr⟩
  · obtain ⟨p, single⟩ := List.length_eq_one_iff.mp one
    have hl : s.tcp = [] ++ p :: [] := single
    have here : p ∈ s.tcp := by
      rw [single]
      exact List.mem_singleton_self p
    have serves : s.tcp ≠ [] := List.ne_nil_of_mem here
    have goes := k.goes p here
    cases p with
    | top => exact ⟨.tcp .go, _, trivial, serves, .tcp hl (.play k.state)⟩
    | body q =>
      have pack : q ≠ .pack := by
        rintro rfl
        exact out (.inl here)
      obtain ⟨e, t, a, st, fine⟩ := SendStep.exists_step .tcp q (k.manned.live.inside (.inl ⟨q, here⟩)).2
      exact ⟨.tcp e, _, st.works pack fine, serves, .tcp hl (.body st)⟩
    | spin => exact goes.elim
    | exit => exact goes.elim
  · cases hp : s.udp with
    | away => exact ⟨.udp .go, _, nofun, none_, udp_step hp (.enter tr)⟩
    | switch => exact ⟨.udp .go, _, nofun, none_, udp_step hp (.play k.state)⟩
    | body q =>
      obtain ⟨e, t, a, st, fine⟩ := SendStep.exists_step .udp q (k.manned.live.inside (.inr ⟨q, hp⟩)).2
      refine ⟨.udp e, _, ?_, none_, udp_step hp (.body st)⟩
      rintro rfl
      exact fine
    | spin => exact absurd hp k.manned.spin.2
    | clear =>
      have ended := (k.manned.live.torn hp).not_play k.manned.live
      exact absurd k.state ended

end ahead

/-- Each step of the serving sender brings its next call of `video_play` nearer. -/
theorem polled_ranks (mode : RtspdAuth) :
    Ranks (slot mode) (Requests RtspMethod.Polls) Serves Packing Polled ahead where
  step {s e t} k out ok h := by
    have polled := (k.step ok h).1
    cases h with
    | @rtsp _ _ h =>
      have same : t.ahead = s.ahead := by
        rw [ahead, ahead, (k.rtsp ok h).2.2, h.leaves.udp]
      exact .inr ⟨polled, same.le, False.elim⟩
    | @tcp l p r _ _ _ hl h =>
      have lt := k.tcpAhead out ok hl h fun p hp he =>
        polled.manned.spin.1 (List.mem_append_left r (List.mem_append_right l (he ▸ hp)))
      exact .inr ⟨polled, Nat.le_of_lt lt, fun _ => lt⟩
    | @udp _ t u h =>
      have tcp := (k.udpStep ok h rfl).2.2
      by_cases none_ : s.tcp = []
      · have lt := k.udpAhead out none_ h rfl polled.manned.spin.2
        have less : ahead { t with udp := u } < s.ahead := by
          simp only [ahead, tcp, none_]
          exact lt
        exact .inr ⟨polled, Nat.le_of_lt less, fun _ => less⟩
      · have same : ahead { t with udp := u } = s.ahead := by
          obtain ⟨p, r, hl⟩ := List.exists_cons_of_ne_nil none_
          simp only [ahead, tcp, hl]
        exact .inr ⟨polled, same.le, fun h => absurd h none_⟩
    | frame => exact .inr ⟨polled, le_rfl, False.elim⟩
    | accept hp =>
      have between := k.between
      unfold Between at between
      rw [hp] at between
      exact between.elim
  enabled k out := k.enabled out

theorem ahead_lt (s : RtspSlot) : s.ahead < 10 := by
  have send (p : SendPc) : p.ahead < 10 := by cases p <;> simp [SendPc.ahead]
  unfold ahead
  split
  · rename_i p _ _
    cases p with
    | body q => exact send q
    | _ => decide
  · cases s.udp with
    | body q => exact send q
    | _ => decide

/-- A session that is served and plays between two requests. -/
theorem Serving.polled (r : Reach (slot mode) Orderly s) (plays : s.rc.state = .play) (rest : s.pc = .recv)
    (serving : s.Serving) : Polled s := by
  have k := (orderly_inductive mode).reach r
  refine ⟨k, plays, ?_, by unfold Between; rw [rest]; trivial, serving.2⟩
  rcases serving.1 with ⟨one, _⟩ | ⟨_, tr⟩
  · refine (k.live.query fun h => ?_).resolve_right fun h => ?_
    · rw [h] at one
      cases one
    · rw [rest] at h
      exact h
  · exact k.live.play tr plays

/-- While the client only polls, its session plays on: the same sender serves it, the same frames
are queued for it, and no more than 10 steps of that sender are left to its next call of
`video_play`. -/
theorem keep_alive (mode : RtspdAuth) (s t : RtspSlot) (r : Reach (slot mode) Orderly s)
    (plays : s.rc.state = .play) (rest : s.pc = .recv) (serving : s.Serving)
    (h : Steps (slot mode) (Requests RtspMethod.Polls) s t) :
    t.rc.state = .play ∧ t.rc.playQuery = s.rc.playQuery ∧ t.Serving ∧
      (∀ videoType, videoType ≠ .none → s.rc.streams videoType → t.rc.streams videoType) ∧
      LeadsTo (slot mode) (Requests RtspMethod.Polls) Serves Packing 10 t := by
  obtain ⟨k, persists⟩ := (serving.polled r plays rest).run h
  refine ⟨k.state, persists.playQuery, k.serving, fun videoType named streams => ?_,
    (polled_ranks mode).leadsTo k t.ahead_lt⟩
  obtain ⟨_, query, live⟩ := streams
  refine ⟨k.state, ?_, ?_⟩
  · rw [persists.playQuery]
    exact query
  · exact (persists.isLive (live ▸ named)).trans live

section sample

theorem allows_requests {methods : RtspMethod → Prop} {buf : List UInt8}
    (hm : methods (s.rc.requestLine (cstr buf)).1.method)
    (answered : ((rtspdClientRtspMethodParse e s.rc buf).2.respond e).1.state ≠ .error) :
    Allows (Requests methods) s e buf where
  request rc text h := by
    rw [h] at hm
    exact hm
  line _ _ _ _ := trivial
  respond e' he := RtspPc.respond.inj he ▸ answered
  setup _ := trivial
  write _ _ _ _ := trivial

theorem samplePlays_serving : samplePlays.Serving := by
  refine ⟨.inl ⟨rfl, by decide +kernel, nofun⟩, fun p hm => ?_⟩
  rw [List.mem_singleton.mp hm]
  trivial

theorem keep_alive_get :
    ∃ t, Steps (slot .none) (Requests RtspMethod.Polls) samplePlays t ∧ t.puts.length = 4 ∧
      t.rc.state = .play ∧ t.Serving := by
  have polls : Steps (slot .none) (Requests RtspMethod.Polls) samplePlays
      (samplePlays.answered (sampleEnv .none) getText) := by
    refine answered_steps (allows_requests ?_ ?_) rfl ?_ ?_ ?_
    · have method : (samplePlays.rc.requestLine (cstr getText)).1.method = .getParameter := by decide +kernel
      rw [method]
      trivial
    all_goals decide +kernel
  obtain ⟨plays, _, serving, _⟩ := keep_alive .none _ _ samplePlays_orderly (by decide +kernel) rfl
    samplePlays_serving polls
  exact ⟨_, polls, by decide +kernel, plays, serving⟩

/-- The requests a client may keep its session alive with. -/
def Asks : RtspMethod → Prop
  | .options | .describe | .getParameter | .setParameter => True
  | _ => False

/-- The sender looks at the state and ends. -/
theorem ends_steps {methods : RtspMethod → Prop} (one : s.tcp = [.top]) (ends : s.rc.state.ends = true) :
    Steps (slot mode) (Requests methods) s { s with rc := { s.rc with playQuery := 0 }, tcp := [] } := by
  have leave : SlotStep mode s (.tcp .go) { s with tcp := [.exit] } := .tcp (l := []) one (.leave ends)
  have clear : SlotStep mode { s with tcp := [.exit] } (.tcp .clear)
      { s with rc := { s.rc with playQuery := 0 }, tcp := [] } := .tcp (l := []) rfl .exit
  have free (t : RtspSlot) : t.Requests methods (.tcp .go) ∧ t.Requests methods (.tcp .clear) :=
    ⟨trivial, trivial⟩
  exact .cons (free _).1 leave (.single (free _).2 clear)

theorem options_ends : ∃ t, Steps (slot .none) (Requests Asks) samplePlays t ∧
    t.rc.state = .options ∧ t.rc.playQuery = strtypeNone ∧ t.tcp = [] := by
  have asks : Steps (slot .none) (Requests Asks) samplePlays
      (samplePlays.answered (sampleEnv .none) optionsText) := by
    refine answered_steps (allows_requests ?_ ?_) rfl ?_ ?_ ?_
    · have method : (samplePlays.rc.requestLine (cstr optionsText)).1.method = .options := by decide +kernel
      rw [method]
      trivial
    all_goals decide +kernel
  exact ⟨_, asks.trans (ends_steps rfl (by decide +kernel)), by decide +kernel, rfl, rfl⟩

/-- A client that plays asks for the `OPTIONS`. -/
theorem options_stops : ¬ ∀ s t, Reach (slot .none) Orderly s → s.rc.state = .play → s.pc = .recv →
    s.Serving → Steps (slot .none) (Requests Asks) s t →
    t.rc.state = .play ∧ t.rc.playQuery = s.rc.playQuery ∧ t.Serving := by
  intro all
  obtain ⟨t, asks, state, _⟩ := options_ends
  have plays := (all _ t samplePlays_orderly (by decide +kernel) rfl samplePlays_serving asks).1
  rw [state] at plays
  cases plays

end sample

end RtspSlot

end En675.Rtsp
