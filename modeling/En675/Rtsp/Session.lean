import En675.Lib.Transition
import En675.Rtsp.Handled

/-! The life of one RTSP session: requests handled one at a time, with the other tasks of
the server stepping in between.  The log keeps what has been exchanged. -/

namespace En675.Rtsp

open Lib

/-- One request, what was answered to it if it parsed, and the state around it. -/
structure Exchange where
  env : Env
  buf : List UInt8
  parsed : Bool
  method : RtspMethod
  reply : List UInt8
  before : RtspClientState
  after : RtspClientState

structure Session where
  rc : RtspClient
  log : List Exchange

namespace Session

/-- `rtspd_socket_client_new` and the head of `rtspd_client_main`. -/
def clientInit (mode : RtspdAuth) (index : Nat) (clientid : Int) (queueAddr : Nat) : RtspClient :=
  { RtspClient.zero with
    index, clientid
    login := mode = .none
    isLive := .none
    rtpQueueVideoAddr := queueAddr }

/-- One turn of the receive loop with a whole request. -/
def request (s : Session) (e : Env) (buf : List UInt8) : Session :=
  match rtspdClientRtspMethodParse e s.rc buf with
  | (false, rc) => ⟨rc, s.log ++ [⟨e, buf, false, rc.method, [], s.rc.state, rc.state⟩]⟩
  | (true, rc) =>
    let answer := dispatch e rc
    ⟨answer.rc, s.log ++ [⟨e, buf, true, rc.method, answer.reply, s.rc.state, answer.rc.state⟩]⟩

inductive Label
  | request (e : Env) (buf : List UInt8)
  /-- A sender stops serving the session. -/
  | rtpExit
  /-- A sender packs and sends out of `rtp_ss`. -/
  | rtpSend (s : RtpSs) (q : RtpQueue)
  /-- `rtspd_client_rtp_udp_send` gives up on the client. -/
  | udpError
  /-- `rtspd_connect_kick`. -/
  | kick

def step (mode : RtspdAuth) (s : Session) : Label → Session → Prop
  | .request e buf, t => e.authMode = mode ∧ t = s.request e buf
  | .rtpExit, t => t = { s with rc := { s.rc with playQuery := 0 } }
  | .rtpSend ss q, t =>
    s.rc.rtpSs.isSome ∧ t = { s with rc := { s.rc with rtpSs := some ss, rtpQueueVideo := q } }
  | .udpError, t => t = { s with rc := { s.rc with state := .error } }
  | .kick, t => t = { s with rc := (rtspdClientRtspState s.rc .teardown).2 }

end Session

def session (mode : RtspdAuth) : Lts Session Session.Label where
  init s := (∃ index clientid addr, s.rc = Session.clientInit mode index clientid addr) ∧ s.log = []
  step := Session.step mode

/-- A `SETUP` has been answered 200. -/
def SetUp (log : List Exchange) : Prop :=
  ∃ x ∈ log, x.parsed ∧ x.method = .setup ∧ statusLine .s200 <+: x.reply

/-- An `Authorization` header has been accepted. -/
def Authorized (log : List Exchange) : Prop :=
  ∃ x ∈ log, ∃ line ∈ headersOf x.buf, x.env.Accepts x.method line

def RtspClientState.Lively (s : RtspClientState) : Prop := s ≠ .teardown ∧ s ≠ .error

instance (s : RtspClientState) : Decidable s.Lively :=
  inferInstanceAs (Decidable (s ≠ .teardown ∧ s ≠ .error))

/-- The session has been set up, as far as the slot shows. -/
def RtspClient.Opened (rc : RtspClient) : Prop :=
  rc.playQuery ≠ strtypeNone ∨
    rc.state ∈ [RtspClientState.play, .pause, .getParameter, .setParameter]

section outcome

/-- What answering a request does to a session. -/
structure Outcome (rc : RtspClient) (a : Answer) : Prop where
  opened : a.rc.Opened → rc.Opened ∨ rc.method = .setup ∧ a.Accepted
  lively : a.rc.state.Lively → rc.state.Lively
  block : a.rc.state.Lively → rc.rtpSs.isSome → a.rc.rtpSs.isSome
  admitted : rc.method = .setup → a.Accepted → rc.login ∧ (a.rc.state.Lively → a.rc.rtpSs.isSome)
  login : a.rc.login = rc.login

theorem stateAllows_lively : ∀ target s : RtspClientState,
    target ∈ [RtspClientState.options, .describe, .setup, .play, .pause] →
      stateAllows target s = true → s.Lively := by
  intro target s ht h
  cases target <;> cases s <;>
    first | decide | exact absurd h (by decide) | exact absurd ht (by decide)

theorem stateAllows_pause : ∀ s : RtspClientState, stateAllows .pause s = true →
    s ∈ [RtspClientState.play, .pause, .getParameter, .setParameter] := by
  intro s h
  cases s <;> first | decide | exact absurd h (by decide)

theorem Moves.outcome (m : Moves rc targets a)
    (ht : ∀ t ∈ targets, t ∈ [RtspClientState.options, .describe, .play, .pause])
    (play : a.rc.state = .play → rc.state = .play ∨ rc.playQuery ≠ strtypeNone)
    (refused : rc.method = .setup → ¬ a.Accepted) : Outcome rc a := by
  have query : a.rc.playQuery = rc.playQuery := by rw [m.slot]
  have block : a.rc.rtpSs = rc.rtpSs := by rw [m.slot]
  refine ⟨fun h => .inl ?_, fun h => ?_, fun _ h => block ▸ h, fun hm ha => absurd ha (refused hm),
    by rw [m.slot]⟩
  · rcases h with h | h
    · exact .inl (query ▸ h)
    · rcases m.state with same | err | ⟨target, allowed⟩
      · exact .inr (same ▸ h)
      · rw [err] at h
        simp at h
      · have plain := ht _ target
        simp only [List.mem_cons, List.not_mem_nil, or_false] at h plain
        rcases h with h | h | h | h
        · rcases play h with hp | hp
          · exact .inr (by rw [hp]; exact List.mem_cons_self)
          · exact .inl hp
        · rw [h] at allowed
          exact .inr (stateAllows_pause _ allowed)
        · rw [h] at plain
          simp at plain
        · rw [h] at plain
          simp at plain
  · rcases m.state with same | err | ⟨target, allowed⟩
    · exact same ▸ h
    · exact absurd err h.2
    · refine stateAllows_lively _ _ ?_ allowed
      have plain := ht _ target
      simp only [List.mem_cons, List.not_mem_nil, or_false] at plain ⊢
      tauto

variable (e : Env) {rc : RtspClient}

theorem processError_outcome (rc : RtspClient) {status : RtspStatus} (h : status ≠ .s200) :
    Outcome rc (rtspdClientRtspProcessError e rc status) := by
  refine (processError_moves e rc status : Moves rc [] _).outcome nofun (fun hp => .inl ?_)
    fun _ => processError_refused e rc h
  rw [processError_rc] at hp
  cases hk : status.keepsState
  · rw [hk] at hp
    cases hp
  · rw [hk] at hp
    exact hp

theorem unauthorized_refused (rc : RtspClient) : ¬ (rc.unauthorized e).Accepted := by
  intro h
  have reply : (rc.unauthorized e).reply =
      rc.headOf .s401 ++ rtspdClientRtspMakeDatetime e.tm ++ authenticate e.authMode := by
    simp only [RtspClient.unauthorized, rtspdClientRtspProcessError, RtspStatus.keepsState, if_true,
      dropLast_crlf]
  have status : statusLine .s401 <+: (rc.unauthorized e).reply := by
    rw [reply, List.append_assoc]
    exact (headOf_begins rc .s401).trans (List.prefix_append _ _)
  cases status_unique status h

theorem processSetup_outcome (hm : rc.method = .setup) (hl : rc.login = true) :
    Outcome rc (rtspdClientRtspProcessSetup e rc) := by
  unfold rtspdClientRtspProcessSetup
  split
  · rename_i rc' h
    obtain ⟨_, rfl⟩ := state_false h
    obtain ⟨moves, refused⟩ := setupRefused_moves e rc'
    refine moves.outcome nofun (fun hp => ?_) fun _ => refused
    rcases moves.state with same | err | ⟨target, _⟩
    · exact .inl (same ▸ hp)
    · rw [err] at hp
      cases hp
    · cases target
  · rename_i rc₁ h
    obtain ⟨allowed, rfl⟩ := state_true h
    have lively : rc.state.Lively := stateAllows_lively .setup _ (by decide) allowed
    split
    · rename_i answer ha
      obtain ⟨keeps, hs, _, refused⟩ := setupAdmit_inl e ha
      refine ⟨fun h => .inl (.inl ?_), fun _ => lively, fun _ hb => keeps.block hb,
        fun _ ha => absurd ha refused, ?_⟩
      · have left : answer.rc.state = .setup ∨ answer.rc.state = .error := hs
        rcases h with h | h
        · exact keeps.playQuery ▸ h
        · rcases left with hs | hs <;>
          · rw [hs] at h
            exact absurd h (by decide)
      · exact keeps.login
    · rename_i rc' reply ha
      obtain ⟨keeps, _, block, _, _, ok⟩ := setupAdmit_inr e ha
      have ready : (rc'.markReady.storeQuery rc'.playQuery).rtpSs.isSome := by
        rw [RtspClient.storeQuery, RtspClient.markReady]
        exact (modifySs_isSome _).trans block
      exact ⟨fun _ => .inr ⟨hm, ok⟩, fun _ => lively, fun _ _ => ready,
        fun _ _ => ⟨hl, fun _ => ready⟩, keeps.login⟩

theorem processTeardown_outcome (hm : rc.method ≠ .setup) :
    Outcome rc (rtspdClientRtspProcessTeardown e rc) := by
  unfold rtspdClientRtspProcessTeardown
  have moves : Moves rc [.teardown] (processPlain e .teardown [] rc) := processPlain_moves e []
  split
  · rename_i allowed
    have torn : (processPlain e .teardown [] rc).rc.state = .teardown := by
      simp only [processPlain, rtspdClientRtspState, if_pos allowed]
      rfl
    refine ⟨fun h => ?_, fun h => absurd torn h.1, fun h => absurd torn h.1, fun h => absurd h hm, ?_⟩
    · rcases h with h | h
      · change (processPlain e .teardown [] rc).rc.playQuery ≠ _ at h
        rw [moves.slot] at h
        exact .inl (.inl h)
      · exact absurd (show (processPlain e .teardown [] rc).rc.state ∈ _ from h) (by rw [torn]; decide)
    · change (processPlain e .teardown [] rc).rc.login = rc.login
      rw [moves.slot]
  · rename_i refused
    have answer : processPlain e .teardown [] rc = rtspdClientRtspProcessError e rc .s400 := by
      simp only [processPlain, rtspdClientRtspState, if_neg refused]
    rw [answer]
    exact processError_outcome e rc nofun

theorem processMethod_outcome (h : rc.method = .setup → rc.login = true) :
    Outcome rc (processMethod e rc) := by
  by_cases hs : rc.method = .setup
  · simp only [processMethod, hs]
    exact processSetup_outcome e hs (h hs)
  · by_cases ht : rc.method = .teardown
    · simp only [processMethod, ht]
      exact processTeardown_outcome e hs
    · refine (processMethod_moves e hs ht).outcome ?_ (processMethod_play e hs ht) fun hm => absurd hm hs
      cases rc.method <;> decide

/-- Only what an outcome speaks of has to agree. -/
theorem Outcome.of_same (h : Outcome rc' a) (state : rc'.state = rc.state)
    (query : rc'.playQuery = rc.playQuery) (block : rc'.rtpSs = rc.rtpSs)
    (method : rc'.method = rc.method) (login : rc'.login = rc.login) : Outcome rc a where
  opened ho := (h.opened ho).imp (fun o => o.imp (query ▸ ·) (state ▸ ·)) fun o => ⟨method ▸ o.1, o.2⟩
  lively hl := state ▸ h.lively hl
  block hl hb := h.block hl (block ▸ hb)
  admitted hm ha := (h.admitted (method.trans hm) ha).imp (login ▸ ·) id
  login := h.login.trans login

theorem dispatch_outcome (rc : RtspClient) : Outcome rc (dispatch e rc) := by
  have cases := dispatch_cases e rc
  generalize dispatch e rc = a at cases ⊢
  cases cases with
  | unauthorized =>
    have refused := processError_outcome e rc (show RtspStatus.s401 ≠ .s200 from nofun)
    refine ⟨fun h => ?_, refused.lively, refused.block,
      fun _ ha => absurd ha (unauthorized_refused e rc), refused.login⟩
    exact (refused.opened h).imp id fun o => absurd o.2
      (processError_refused e rc (show RtspStatus.s401 ≠ .s200 from nofun))
  | torn => exact processError_outcome e rc nofun
  | unserved _ _ hc =>
    obtain ⟨state, query, block, _, method, login⟩ := checkUrl_reads e hc
    exact (processError_outcome e _ (show RtspStatus.s501 ≠ .s200 from nofun)).of_same
      state query block method login
  | handled ha _ hc =>
    obtain ⟨state, query, block, _, method, login⟩ := checkUrl_reads e hc
    have admitted : rc.method = .setup → rc.login = true := by
      intro hm
      simpa [RtspClient.admitted, hm] using ha
    exact (processMethod_outcome e fun hm => login.trans (admitted (method ▸ hm))).of_same
      state query block method login

end outcome

section safety

/-- What every reachable session satisfies. -/
structure SessionInv (mode : RtspdAuth) (s : Session) : Prop where
  opened : s.rc.Opened → SetUp s.log
  block : SetUp s.log → s.rc.state.Lively → s.rc.rtpSs.isSome
  authorized : SetUp s.log → mode ≠ .none → Authorized s.log
  login : s.rc.login = true → mode ≠ .none → Authorized s.log

theorem SetUp.append (x : Exchange) : SetUp (log ++ [x]) ↔
    SetUp log ∨ x.parsed ∧ x.method = .setup ∧ statusLine .s200 <+: x.reply := by
  simp only [SetUp, List.mem_append, List.mem_singleton, or_and_right, exists_or, exists_eq_left]

theorem Authorized.append (x : Exchange) : Authorized (log ++ [x]) ↔
    Authorized log ∨ ∃ line ∈ headersOf x.buf, x.env.Accepts x.method line := by
  simp only [Authorized, List.mem_append, List.mem_singleton, or_and_right, exists_or, exists_eq_left]

theorem init_inv {s : Session} (h : (session mode).init s) : SessionInv mode s := by
  obtain ⟨⟨index, clientid, addr, hrc⟩, hlog⟩ := h
  have fresh : ¬ SetUp s.log := by
    rw [hlog]
    rintro ⟨x, hx, _⟩
    cases hx
  refine ⟨fun ho => ?_, fun h => absurd h fresh, fun h => absurd h fresh, fun hl hm => ?_⟩
  · rw [hrc] at ho
    rcases ho with h | h
    · exact absurd rfl h
    · exact absurd h (by simp [Session.clientInit, RtspClient.zero])
  · rw [hrc] at hl
    exact absurd (of_decide_eq_true hl) hm

theorem request_inv {s : Session} (inv : SessionInv mode s) (e : Env) (buf : List UInt8) :
    SessionInv mode (s.request e buf) := by
  obtain ⟨reads, login⟩ := methodParse_spec e s.rc buf
  cases hp : rtspdClientRtspMethodParse e s.rc buf with
  | mk ok rc =>
    rw [hp] at reads login
    have opened : rc.Opened → s.rc.Opened := Or.imp (reads.playQuery ▸ ·) (reads.state ▸ ·)
    have authorized (hl : rc.login = true) (hm : mode ≠ .none) {parsed : Bool} {reply : List UInt8}
        {after : RtspClientState} :
        Authorized (s.log ++ [⟨e, buf, parsed, rc.method, reply, s.rc.state, after⟩]) :=
      (Authorized.append _).mpr ((login hl).imp (fun hl => inv.login hl hm) id)
    cases ok with
    | false =>
      simp only [Session.request, hp]
      have same : SetUp (s.log ++ [⟨e, buf, false, rc.method, [], s.rc.state, rc.state⟩]) ↔ SetUp s.log := by
        rw [SetUp.append]
        simp
      refine ⟨fun h => same.mpr (inv.opened (opened h)), fun hs hl => ?_, fun hs hm => ?_, fun hl hm => authorized hl hm⟩
      · rw [reads.rtpSs]
        exact inv.block (same.mp hs) (reads.state ▸ hl)
      · exact (Authorized.append _).mpr (.inl (inv.authorized (same.mp hs) hm))
    | true =>
      simp only [Session.request, hp]
      have out := dispatch_outcome e rc
      refine ⟨fun h => (SetUp.append _).mpr ?_, fun hs hl => ?_, fun hs hm => ?_, fun hl hm => ?_⟩
      · rcases out.opened h with ho | ha
        · exact .inl (inv.opened (opened ho))
        · exact .inr ⟨rfl, ha⟩
      · rcases (SetUp.append _).mp hs with hs | ⟨_, hm, ha⟩
        · refine out.block hl ?_
          rw [reads.rtpSs]
          exact inv.block hs (reads.state ▸ out.lively hl)
        · exact (out.admitted hm ha).2 hl
      · rcases (SetUp.append _).mp hs with hs | ⟨_, hmeth, ha⟩
        · exact (Authorized.append _).mpr (.inl (inv.authorized hs hm))
        · exact authorized (out.admitted hmeth ha).1 hm
      · exact authorized (out.login ▸ hl) hm

/-- The steps of the other tasks reach the slot, never the log. -/
theorem SessionInv.other {s : Session} (inv : SessionInv mode s) {rc : RtspClient}
    (opened : rc.Opened → s.rc.Opened) (lively : rc.state.Lively → s.rc.state.Lively)
    (block : s.rc.rtpSs.isSome → rc.rtpSs.isSome) (login : rc.login = s.rc.login) :
    SessionInv mode { s with rc } where
  opened h := inv.opened (opened h)
  block hs hl := block (inv.block hs (lively hl))
  authorized := inv.authorized
  login hl := inv.login (login ▸ hl)

theorem kick_state (rc : RtspClient) : (rtspdClientRtspState rc .teardown).2 =
    { rc with state := if rc.state = .error then .error else .teardown } := by
  unfold rtspdClientRtspState
  by_cases h : rc.state = .error
  · rw [if_neg (by rw [h]; decide), if_pos h, ← h]
  · rw [if_neg h, if_pos (by cases hs : rc.state <;> first | rfl | exact absurd hs h)]
    rfl

theorem step_inv {s t : Session} (inv : SessionInv mode s) (h : (session mode).step s l t) :
    SessionInv mode t := by
  cases l with
  | request e buf =>
    obtain ⟨_, rfl⟩ := h
    exact request_inv inv e buf
  | rtpExit =>
    cases h
    exact inv.other (fun h => h.elim (absurd rfl) .inr) id id rfl
  | rtpSend ss q =>
    obtain ⟨_, rfl⟩ := h
    exact inv.other id id (fun _ => rfl) rfl
  | udpError =>
    cases h
    exact inv.other (fun h => h.elim .inl fun h => absurd h (by simp)) (fun h => absurd rfl h.2) id rfl
  | kick =>
    cases h
    rw [kick_state]
    refine inv.other (fun h => h.elim .inl fun h => absurd h ?_) (fun h => ?_) id rfl
    · simp only
      split <;> decide
    · exfalso
      revert h
      simp only
      split <;> decide

theorem session_inv : (session mode).Inductive Lts.any (SessionInv mode) :=
  ⟨init_inv, fun inv _ h => step_inv inv h⟩

/-- A session that is over stays over. -/
theorem step_over {s t : Session} (gone : ¬ s.rc.state.Lively) (h : (session mode).step s l t) :
    ¬ t.rc.state.Lively := by
  cases l with
  | request e buf =>
    obtain ⟨_, rfl⟩ := h
    obtain ⟨reads, _⟩ := methodParse_spec e s.rc buf
    cases hp : rtspdClientRtspMethodParse e s.rc buf with
    | mk ok rc =>
      rw [hp] at reads
      have gone : ¬ rc.state.Lively := fun h => gone (reads.state ▸ h)
      cases ok with
      | false =>
        simp only [Session.request, hp]
        exact gone
      | true =>
        simp only [Session.request, hp]
        exact fun h => gone ((dispatch_outcome e rc).lively h)
  | rtpExit =>
    cases h
    exact gone
  | rtpSend ss q =>
    obtain ⟨_, rfl⟩ := h
    exact gone
  | udpError =>
    cases h
    exact fun h => h.2 rfl
  | kick =>
    cases h
    rw [kick_state]
    simp only
    split <;> decide

theorem play_safety (mode : RtspdAuth) (s : Session) (r : Reach (session mode) Lts.any s) :
    (s.rc.state = .play →
      s.rc.rtpSs.isSome ∧ SetUp s.log ∧ (mode ≠ .none → Authorized s.log)) ∧
    (s.rc.state = .teardown ∨ s.rc.state = .error →
      ∀ t, Steps (session mode) Lts.any s t → t.rc.state = .teardown ∨ t.rc.state = .error) := by
  have inv := session_inv.reach r
  constructor
  · intro h
    have setUp : SetUp s.log := inv.opened (.inr (by rw [h]; exact List.mem_cons_self))
    exact ⟨inv.block setUp (by rw [h]; decide), setUp, inv.authorized setUp⟩
  · intro h t steps
    have gone : ¬ s.rc.state.Lively := by
      rcases h with h | h <;>
      · rw [h]
        decide
    have stays := steps.inductive (I := fun t => ¬ t.rc.state.Lively) (fun o _ h => step_over o h) gone
    unfold RtspClientState.Lively at stays
    tauto

section sample

/-- A camera with one stream name for all three streams, `rtsp://h/s`. -/
def sampleEnv (mode : RtspdAuth) : Env where
  authMode := mode
  authorization line _ := hasName "Authorization: Basic QQ==" line
  tm := ⟨0, 0, 1, 2024, 0, 0, 0⟩
  playerCount := 0
  alloc := true
  ssrc := 7
  startRtptime := 90
  startSeq := 1
  defaultIp := ascii "192.168.0.2"
  vcVideo _ := (ascii "s", .h264)

def optionsText : List UInt8 := ascii "OPTIONS rtsp://h/s RTSP/1.0\r\nCSeq: 1\r\n\r\n"

def setupText : List UInt8 := ascii
  "SETUP rtsp://h/s/video RTSP/1.0\r\nAuthorization: Basic QQ==\r\nTransport: RTP/AVP/TCP;interleaved=0-1\r\n\r\n"

def playText : List UInt8 := ascii "PLAY rtsp://h/s RTSP/1.0\r\nCSeq: 3\r\nSession: 9\r\n\r\n"

def samplePlaying : Session :=
  (((⟨Session.clientInit .basic 0 9 0, []⟩ : Session).request (sampleEnv .basic) optionsText).request
    (sampleEnv .basic) setupText).request (sampleEnv .basic) playText

theorem reach_request {s : Session} (r : Reach (session mode) Lts.any s) (e : Env) (buf : List UInt8)
    (h : e.authMode = mode) : Reach (session mode) Lts.any (s.request e buf) := by
  have hs : (session mode).step s (.request e buf) (s.request e buf) := ⟨h, rfl⟩
  exact r.step trivial hs

theorem reach_clientInit (mode : RtspdAuth) (index : Nat) (clientid : Int) (addr : Nat) :
    Reach (session mode) Lts.any ⟨Session.clientInit mode index clientid addr, []⟩ :=
  .init ⟨⟨index, clientid, addr, rfl⟩, rfl⟩

theorem samplePlaying_reach : Reach (session .basic) Lts.any samplePlaying :=
  reach_request (reach_request (reach_request (reach_clientInit .basic 0 9 0) _ _ rfl) _ _ rfl) _ _ rfl

theorem samplePlaying_state : samplePlaying.rc.state = .play := by decide +kernel

end sample

theorem play_safety_basic :
    samplePlaying.rc.rtpSs.isSome ∧ SetUp samplePlaying.log ∧ Authorized samplePlaying.log :=
  have safe := (play_safety .basic samplePlaying samplePlaying_reach).1 samplePlaying_state
  ⟨safe.1, safe.2.1, safe.2.2 nofun⟩

end safety

end En675.Rtsp
