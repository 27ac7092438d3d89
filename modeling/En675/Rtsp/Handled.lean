import En675.Rtsp.Response

/-! What reading a request and answering it do to the slot, said once: every invariant of
a session is derived from these lemmas and unfolds no handler. -/

namespace En675.Rtsp

open Lib

section reading

/-- Reading leaves alone what the life of a session hangs on. -/
structure Spares (rc rc' : RtspClient) : Prop where
  state : rc'.state = rc.state
  playQuery : rc'.playQuery = rc.playQuery
  rtpSs : rc'.rtpSs = rc.rtpSs
  isLive : rc'.isLive = rc.isLive

theorem Spares.refl (rc : RtspClient) : Spares rc rc := ⟨rfl, rfl, rfl, rfl⟩

theorem Spares.trans (h : Spares a b) (k : Spares b c) : Spares a c where
  state := k.state.trans h.state
  playQuery := k.playQuery.trans h.playQuery
  rtpSs := k.rtpSs.trans h.rtpSs
  isLive := k.isLive.trans h.isLive

variable (e : Env) (rc : RtspClient) (line rest : List UInt8)

theorem headerCommon_reads : Spares rc (rc.headerCommon e line rest) := by
  unfold RtspClient.headerCommon
  split
  · exact ⟨rfl, rfl, rfl, rfl⟩
  · split
    · exact ⟨rfl, rfl, rfl, rfl⟩
    · split
      · exact ⟨rfl, rfl, rfl, rfl⟩
      · exact Spares.refl rc

@[simp] theorem headerCommon_method : (rc.headerCommon e line rest).method = rc.method := by
  unfold RtspClient.headerCommon
  split
  · rfl
  · split
    · rfl
    · split <;> rfl

@[simp] theorem headerCommon_eTransport :
    (rc.headerCommon e line rest).eTransport = rc.eTransport := by
  unfold RtspClient.headerCommon
  split
  · rfl
  · split
    · rfl
    · split <;> rfl

/-- `line` is an `Authorization` header that is accepted for `method`. -/
def Env.Accepts (e : Env) (method : RtspMethod) (line : List UInt8) : Prop :=
  hasName "Authorization" line ∧ e.authorization line method = true

theorem headerCommon_login (h : (rc.headerCommon e line rest).login = true) :
    rc.login = true ∨ e.Accepts rc.method line := by
  unfold RtspClient.headerCommon at h
  split at h
  · exact .inl h
  · split at h
    · exact .inl h
    · split at h
      · rename_i hn
        exact .inr ⟨hn.2, h⟩
      · exact .inl h

section setup

variable {rc' : RtspClient}

/-- The fields of the transport and the track are all that `SETUP` headers store. -/
structure Tracks (rc rc' : RtspClient) : Prop extends Spares rc rc' where
  login : rc'.login = rc.login
  method : rc'.method = rc.method
  nSession : rc'.nSession = rc.nSession

theorem Tracks.trans (h : Tracks a b) (k : Tracks b c) : Tracks a c where
  toSpares := h.toSpares.trans k.toSpares
  login := k.login.trans h.login
  method := k.method.trans h.method
  nSession := k.nSession.trans h.nSession

theorem storePorts_tracks (ports : Int × Int) :
    Tracks rc (rc.storePorts ports) ∧ (rc.storePorts ports).eTransport = rc.eTransport := by
  unfold RtspClient.storePorts
  split <;> exact ⟨⟨⟨rfl, rfl, rfl, rfl⟩, rfl, rfl, rfl⟩, rfl⟩

theorem setupTrack_tracks (h : rc.setupTrack = some rc') :
    Tracks rc rc' ∧ rc'.eTransport = rc.eTransport := by
  unfold RtspClient.setupTrack at h
  split at h
  · rw [Option.map_eq_some_iff] at h
    obtain ⟨t, _, rfl⟩ := h
    split
    · exact ⟨⟨⟨rfl, rfl, rfl, rfl⟩, rfl, rfl, rfl⟩, rfl⟩
    · split <;> exact ⟨⟨⟨rfl, rfl, rfl, rfl⟩, rfl, rfl, rfl⟩, rfl⟩
  · cases h
    exact ⟨⟨Spares.refl rc, rfl, rfl, rfl⟩, rfl⟩

theorem transportOf_cases (data : List UInt8) :
    transportOf data = some .tcp ∨ transportOf data = some .udp ∨ transportOf data = none := by
  unfold transportOf
  split
  · exact .inl rfl
  · split
    · exact .inr (.inl rfl)
    · exact .inr (.inr rfl)

theorem transportHeader_tracks (data : List UInt8) :
    Tracks rc (rc.transportHeader data) ∧
      (rc.transportHeader data).eTransport = (transportOf data).getD rc.eTransport := by
  rcases transportOf_cases data with h | h | h
  · simp only [RtspClient.transportHeader, h]
    obtain ⟨tracks, tr⟩ := storePorts_tracks
      { rc with isTransport := true, eTransport := .tcp } (portsOf "interleaved=" data)
    exact ⟨⟨⟨tracks.state, tracks.playQuery, tracks.rtpSs, tracks.isLive⟩, tracks.login,
      tracks.method, tracks.nSession⟩, tr⟩
  · simp only [RtspClient.transportHeader, h]
    obtain ⟨tracks, tr⟩ := storePorts_tracks
      { rc with isTransport := true, eTransport := .udp } (portsOf "client_port=" data)
    exact ⟨⟨⟨tracks.state, tracks.playQuery, tracks.rtpSs, tracks.isLive⟩, tracks.login,
      tracks.method, tracks.nSession⟩, tr⟩
  · simp only [RtspClient.transportHeader, h]
    exact ⟨⟨⟨rfl, rfl, rfl, rfl⟩, rfl, rfl, rfl⟩, rfl⟩

/-- The transport a header line names to a client of method `m`. -/
def namedBy (line rest : List UInt8) : Option RtspTransport :=
  if hasName "Transport" line then transportOf (headerData "Transport" line rest) else none

theorem headerParse_tracks :
    Tracks (rc.headerCommon e line rest) (rtspdClientRtspHeaderParse e rc line rest) ∧
      ((rtspdClientRtspHeaderParse e rc line rest).eTransport = rc.eTransport ∨
        some (rtspdClientRtspHeaderParse e rc line rest).eTransport = namedBy line rest) := by
  have same : Tracks (rc.headerCommon e line rest) (rc.headerCommon e line rest) :=
    ⟨Spares.refl _, rfl, rfl, rfl⟩
  unfold rtspdClientRtspHeaderParse
  simp only
  split
  · split
    · exact ⟨⟨⟨rfl, rfl, rfl, rfl⟩, rfl, rfl, rfl⟩, .inl (headerCommon_eTransport e rc line rest)⟩
    · exact ⟨same, .inl (headerCommon_eTransport e rc line rest)⟩
  · split
    · exact ⟨same, .inl (headerCommon_eTransport e rc line rest)⟩
    · rename_i rc' h
      obtain ⟨tracks, tr⟩ := setupTrack_tracks _ h
      rw [headerCommon_eTransport] at tr
      split
      · rename_i hn
        obtain ⟨tracks', tr'⟩ := transportHeader_tracks rc' (headerData "Transport" line rest)
        refine ⟨tracks.trans tracks', ?_⟩
        rw [namedBy, if_pos hn, tr', tr]
        rcases transportOf_cases (headerData "Transport" line rest) with h | h | h <;> rw [h]
        · exact .inr rfl
        · exact .inr rfl
        · exact .inl rfl
      · exact ⟨tracks, .inl tr⟩
  · exact ⟨same, .inl (headerCommon_eTransport e rc line rest)⟩

theorem headerParse_reads : Spares rc (rtspdClientRtspHeaderParse e rc line rest) :=
  (headerCommon_reads e rc line rest).trans (headerParse_tracks e rc line rest).1.toSpares

theorem headerParse_method : (rtspdClientRtspHeaderParse e rc line rest).method = rc.method :=
  (headerParse_tracks e rc line rest).1.method.trans (headerCommon_method e rc line rest)

theorem headerParse_login (h : (rtspdClientRtspHeaderParse e rc line rest).login = true) :
    rc.login = true ∨ e.Accepts rc.method line :=
  headerCommon_login e rc line rest ((headerParse_tracks e rc line rest).1.login ▸ h)

end setup

/-- The header lines of a text, as the loop of `rtspd_client_rtsp_method_parse` finds them. -/
def linesOf : Nat → List UInt8 → List (List UInt8)
  | 0, _ => []
  | fuel + 1, text =>
    match cut crlf text with
    | none => []
    | some (line, rest) => line :: linesOf fuel rest

theorem headerLines_spec (e : Env) (fuel : Nat) (rc : RtspClient) (text : List UInt8) :
    Spares rc (headerLines e fuel rc text) ∧ (headerLines e fuel rc text).method = rc.method ∧
      ((headerLines e fuel rc text).login = true →
        rc.login = true ∨ ∃ line ∈ linesOf fuel text, e.Accepts rc.method line) := by
  induction fuel generalizing rc text with
  | zero => exact ⟨Spares.refl rc, rfl, .inl⟩
  | succ fuel ih =>
    cases hc : cut crlf text with
    | none =>
      simp only [headerLines, hc]
      exact ⟨Spares.refl rc, trivial, .inl⟩
    | some r =>
      obtain ⟨line, rest⟩ := r
      simp only [headerLines, linesOf, hc]
      obtain ⟨reads, method, login⟩ := ih (rtspdClientRtspHeaderParse e rc line rest) rest
      rw [headerParse_method] at method login
      refine ⟨(headerParse_reads e rc line rest).trans reads, method, fun h => ?_⟩
      rcases login h with h | ⟨l, hl, hacc⟩
      · exact (headerParse_login e rc line rest h).imp id fun a =>
          ⟨line, List.mem_cons_self, a⟩
      · exact .inr ⟨l, List.mem_cons_of_mem _ hl, hacc⟩

theorem requestLine_spec (rc : RtspClient) (text : List UInt8) :
    Spares rc (rc.requestLine text).1 ∧ (rc.requestLine text).1.login = rc.login ∧
      (rc.requestLine text).1.eTransport = rc.eTransport := by
  unfold RtspClient.requestLine
  split
  · exact ⟨Spares.refl rc, rfl, rfl⟩
  · split
    · exact ⟨Spares.refl rc, rfl, rfl⟩
    · split
      · exact ⟨⟨rfl, rfl, rfl, rfl⟩, rfl, rfl⟩
      · split <;> exact ⟨⟨rfl, rfl, rfl, rfl⟩, rfl, rfl⟩

/-- The header lines of a request that parses. -/
def headersOf (buf : List UInt8) : List (List UInt8) :=
  match (RtspClient.zero.requestLine (cstr buf)).2 with
  | none => []
  | some text => linesOf text.length text

theorem requestLine_text (rc rc' : RtspClient) (text : List UInt8) :
    (rc.requestLine text).2 = (rc'.requestLine text).2 := by
  unfold RtspClient.requestLine
  split
  · rfl
  · split
    · rfl
    · split
      · rfl
      · split <;> rfl

theorem methodParse_spec (e : Env) (rc : RtspClient) (buf : List UInt8) :
    Spares rc (rtspdClientRtspMethodParse e rc buf).2 ∧
      ((rtspdClientRtspMethodParse e rc buf).2.login = true → rc.login = true ∨
        ∃ line ∈ headersOf buf, e.Accepts (rtspdClientRtspMethodParse e rc buf).2.method line) := by
  obtain ⟨reads, login, _⟩ := requestLine_spec rc (cstr buf)
  rw [headersOf, requestLine_text RtspClient.zero rc]
  cases h : rc.requestLine (cstr buf) with
  | mk rc' text =>
    rw [h] at reads login
    cases text with
    | none =>
      simp only [rtspdClientRtspMethodParse, h]
      exact ⟨reads, fun hl => .inl (login ▸ hl)⟩
    | some text =>
      simp only [rtspdClientRtspMethodParse, h]
      obtain ⟨reads', method, accepted⟩ := headerLines_spec e text.length rc' text
      refine ⟨reads.trans reads', fun hl => ?_⟩
      rw [method]
      exact (accepted hl).imp (fun hl => login ▸ hl) id

end reading

section answering

/-- The reply is a 200. -/
def Answer.Accepted (a : Answer) : Prop := statusLine .s200 <+: a.reply

/-- The status of a reply, by the three digits after the version. -/
def statusOf (reply : List UInt8) : Option RtspStatus :=
  [.s200, .s400, .s401, .s404, .s406, .s412, .s453, .s455, .s458, .s461, .s500, .s501].find?
    fun s : RtspStatus => (ascii s.text).take 3 = (reply.drop 9).take 3

theorem statusOf_statusLine (s : RtspStatus) (rest : List UInt8) :
    statusOf (statusLine s ++ rest) = some s := by
  cases s <;> rfl

theorem headOf_begins (rc : RtspClient) (status : RtspStatus) :
    statusLine status <+: rc.headOf status := by
  unfold RtspClient.headOf
  split
  · rw [RtspClient.head, List.append_assoc, List.append_assoc]
    exact List.prefix_append _ _
  · rw [RtspClient.headS, RtspClient.head]
    simp only [List.append_assoc]
    exact List.prefix_append _ _

/-- A reply begins with one status line only. -/
theorem status_unique (h : statusLine s <+: reply) (h' : statusLine s' <+: reply) : s = s' := by
  obtain ⟨rest, rfl⟩ := h
  obtain ⟨rest', he⟩ := h'
  have both := statusOf_statusLine s rest
  rw [← he, statusOf_statusLine] at both
  exact (Option.some.inj both).symm

/-- A handler that only moves the state: to one of `targets` as the table allows, or to
`ERROR`. -/
structure Moves (rc : RtspClient) (targets : List RtspClientState) (a : Answer) : Prop where
  slot : a.rc = { rc with state := a.rc.state }
  state : a.rc.state = rc.state ∨ a.rc.state = .error ∨
    a.rc.state ∈ targets ∧ stateAllows a.rc.state rc.state = true
  spawn : a.spawn = false

variable (e : Env) {rc : RtspClient} {targets : List RtspClientState} {state : RtspClientState}

theorem processError_rc (rc : RtspClient) (status : RtspStatus) :
    (rtspdClientRtspProcessError e rc status).rc =
      { rc with state := if status.keepsState then rc.state else .error } := by
  cases status <;> rfl

theorem processError_status (rc : RtspClient) (status : RtspStatus) :
    statusLine status <+: (rtspdClientRtspProcessError e rc status).reply := by
  unfold rtspdClientRtspProcessError
  simp only [List.append_assoc]
  exact (headOf_begins _ status).trans (List.prefix_append _ _)

theorem processError_refused (rc : RtspClient) {status : RtspStatus} (h : status ≠ .s200) :
    ¬ (rtspdClientRtspProcessError e rc status).Accepted :=
  fun a => h (status_unique (processError_status e rc status) a)

theorem processError_moves (rc : RtspClient) (status : RtspStatus) :
    Moves rc targets (rtspdClientRtspProcessError e rc status) where
  slot := by rw [processError_rc]
  state := by
    rw [processError_rc]
    cases status.keepsState
    · exact .inr (.inl rfl)
    · exact .inl rfl
  spawn := rfl

theorem state_true (h : rtspdClientRtspState rc state = (true, rc')) :
    stateAllows state rc.state = true ∧
      rc' = { rc with state := if state = .getParameter ∨ state = .setParameter then rc.state else state } := by
  unfold rtspdClientRtspState at h
  split at h
  · rename_i ha
    cases h
    refine ⟨ha, ?_⟩
    split <;> rfl
  · cases h

theorem state_false (h : rtspdClientRtspState rc state = (false, rc')) :
    stateAllows state rc.state = false ∧ rc' = rc := by
  unfold rtspdClientRtspState at h
  split at h
  · cases h
  · rename_i ha
    cases h
    exact ⟨Bool.eq_false_iff.mpr ha, rfl⟩

/-- What follows a change of state that was allowed. -/
theorem Moves.of_state (h : rtspdClientRtspState rc state = (true, rc')) (hs : state ∈ targets)
    (m : a.rc = { rc' with state := a.rc.state }) (hm : a.rc.state = rc'.state ∨ a.rc.state = .error)
    (spawn : a.spawn = false) : Moves rc targets a := by
  obtain ⟨allowed, rfl⟩ := state_true h
  refine ⟨m, ?_, spawn⟩
  rcases hm with hm | hm
  · by_cases hp : state = .getParameter ∨ state = .setParameter
    · exact .inl (hm.trans (if_pos hp))
    · have target : a.rc.state = state := hm.trans (if_neg hp)
      exact .inr (.inr ⟨target ▸ hs, target ▸ allowed⟩)
  · exact .inr (.inl hm)

theorem processPlain_moves (extra : List UInt8) : Moves rc [state] (processPlain e state extra rc) := by
  unfold processPlain
  split
  · rename_i rc' h
    exact .of_state h List.mem_cons_self rfl (.inl rfl) rfl
  · rename_i rc' h
    obtain ⟨_, rfl⟩ := state_false h
    exact processError_moves e _ _

theorem processSetParameter_moves : Moves rc [] (rtspdClientRtspProcessSetParameter e rc) := by
  unfold rtspdClientRtspProcessSetParameter
  split
  · rename_i rc' h
    obtain ⟨_, rfl⟩ := state_true h
    exact processError_moves e _ _
  · rename_i rc' h
    obtain ⟨_, rfl⟩ := state_false h
    exact processError_moves e _ _

theorem processDescribe_moves : Moves rc [.describe] (rtspdClientRtspProcessDescribe e rc) := by
  unfold rtspdClientRtspProcessDescribe
  split
  · rename_i rc' h
    split
    · exact .of_state h List.mem_cons_self rfl (.inl rfl) rfl
    · exact .of_state h List.mem_cons_self (by rw [processError_rc])
        (by rw [processError_rc]; exact .inr rfl) rfl
  · rename_i rc' h
    obtain ⟨_, rfl⟩ := state_false h
    exact processError_moves e _ _

theorem processPlay_moves : Moves rc [.play] (rtspdClientRtspProcessPlay e rc) ∧
    ((rtspdClientRtspProcessPlay e rc).rc.state = .play → rc.state = .play ∨ rc.playQuery ≠ strtypeNone) := by
  unfold rtspdClientRtspProcessPlay
  split
  · refine ⟨processError_moves e _ _, fun h => ?_⟩
    rw [processError_rc] at h
    cases h
  · rename_i hq
    refine ⟨?_, fun _ => .inr hq⟩
    split
    · rename_i rc' h
      obtain ⟨_, rfl⟩ := state_false h
      exact processError_moves e _ _
    · rename_i rc' h
      split
      · exact .of_state h List.mem_cons_self rfl (.inl rfl) rfl
      · split <;> exact .of_state h List.mem_cons_self rfl (.inl rfl) rfl

section setup

theorem allocSs_some (h : rc.allocSs e = some rc') :
    rc'.rtpSs.isSome ∧ rc' = { rc with rtpSs := rc'.rtpSs } ∧
      (rc.rtpSs.isSome → rc'.rtpSs = rc.rtpSs) := by
  unfold RtspClient.allocSs at h
  split at h
  · rename_i s hs
    cases h
    exact ⟨by rw [hs]; rfl, rfl, fun _ => rfl⟩
  · rename_i hs
    split at h
    · cases h
      exact ⟨rfl, rfl, fun hb => by rw [hs] at hb; cases hb⟩
    · cases h

theorem setupCheck_ok (h : rc.setupCheck = .ok payload) :
    (rc.eTransport = .udp ∨ rc.eTransport = .tcp) ∧ rc.setupQuery = strtypeVideo := by
  unfold RtspClient.setupCheck at h
  split at h
  · split at h
    · rename_i ht
      refine ⟨ht, ?_⟩
      split at h
      · rename_i p hp
        unfold RtspClient.payloadOf at hp
        split at hp
        · assumption
        · cases hp
      · cases h
    · cases h
  · cases h

theorem setupCheck_error (h : rc.setupCheck = .error status) : status ≠ .s200 := by
  unfold RtspClient.setupCheck at h
  split at h
  · split at h
    · split at h
      · cases h
      · cases h
        nofun
    · cases h
      nofun
  · cases h
    nofun

/-- What a `SETUP` keeps, refused or not, once its state is allowed. -/
structure Keeps (rc rc' : RtspClient) : Prop where
  playQuery : rc'.playQuery = rc.playQuery
  eTransport : rc'.eTransport = rc.eTransport
  isLive : rc'.isLive = rc.isLive
  login : rc'.login = rc.login
  block : rc.rtpSs.isSome → rc'.rtpSs.isSome

@[simp] theorem modifySs_isSome (f : RtpSession → RtpSession) :
    (rc.modifySs f).rtpSs.isSome = rc.rtpSs.isSome := by
  simp only [RtspClient.modifySs, Option.isSome_map]

theorem setupAdmit_inl (h : rc.setupAdmit e = .inl a) :
    Keeps rc a.rc ∧ (a.rc.state = rc.state ∨ a.rc.state = .error) ∧ a.spawn = false ∧ ¬ a.Accepted := by
  have refused (rc' : RtspClient) (hk : Keeps rc rc') (hs : rc'.state = rc.state) {status : RtspStatus}
      (hn : status ≠ .s200) (ha : a = rtspdClientRtspProcessError e rc' status) :
      Keeps rc a.rc ∧ (a.rc.state = rc.state ∨ a.rc.state = .error) ∧ a.spawn = false ∧ ¬ a.Accepted := by
    subst ha
    refine ⟨?_, ?_, rfl, processError_refused e rc' hn⟩
    · rw [processError_rc]
      exact ⟨hk.playQuery, hk.eTransport, hk.isLive, hk.login, hk.block⟩
    · rw [processError_rc]
      cases status.keepsState
      · exact .inr rfl
      · exact .inl hs
  unfold RtspClient.setupAdmit at h
  split at h
  · exact refused rc ⟨rfl, rfl, rfl, rfl, id⟩ rfl (show RtspStatus.s453 ≠ .s200 from nofun)
      (Sum.inl.inj h).symm
  · split at h
    · exact refused rc ⟨rfl, rfl, rfl, rfl, id⟩ rfl (show RtspStatus.s500 ≠ .s200 from nofun)
        (Sum.inl.inj h).symm
    · rename_i rc' halloc
      obtain ⟨block, same, _⟩ := allocSs_some e halloc
      split at h
      · rename_i status hc
        refine refused rc' ?_ (by rw [same]) (setupCheck_error hc) (Sum.inl.inj h).symm
        rw [same]
        exact ⟨rfl, rfl, rfl, rfl, fun _ => block⟩
      · cases h

theorem setupAdmit_inr (h : rc.setupAdmit e = .inr (rc', reply)) :
    Keeps rc rc' ∧ rc'.state = rc.state ∧ rc'.rtpSs.isSome ∧ rc'.setupQuery = strtypeVideo ∧
      (rc'.eTransport = .udp ∨ rc'.eTransport = .tcp) ∧ statusLine .s200 <+: reply := by
  unfold RtspClient.setupAdmit at h
  split at h
  · cases h
  · split at h
    · cases h
    · rename_i rc₁ halloc
      obtain ⟨block, same, _⟩ := allocSs_some e halloc
      split at h
      · cases h
      · rename_i payload hc
        obtain ⟨ht, hq⟩ := setupCheck_ok hc
        have filled : (rc₁.setupFill e payload).rtpSs.isSome := by
          rw [RtspClient.setupFill, modifySs_isSome]
          exact block
        cases h
        refine ⟨⟨?_, ?_, ?_, ?_, fun _ => filled⟩, ?_, filled, hq, ht, ?_⟩
        · rw [same]
          rfl
        · rw [same]
          rfl
        · rw [same]
          rfl
        · rw [same]
          rfl
        · rw [same]
          rfl
        · simp only [RtspClient.setupReply, RtspClient.headS, RtspClient.head, List.append_assoc]
          exact List.prefix_append _ _

theorem setupAdmit_refused_nSession (h : rc.setupAdmit e = .inl a) : a.rc.nSession = rc.nSession := by
  unfold RtspClient.setupAdmit at h
  split at h
  · obtain rfl := Sum.inl.inj h
    rw [processError_rc]
  · split at h
    · obtain rfl := Sum.inl.inj h
      rw [processError_rc]
    · rename_i rc₁ halloc
      split at h
      · obtain rfl := Sum.inl.inj h
        rw [processError_rc, (allocSs_some e halloc).2.1]
      · cases h

theorem setupAdmit_nSession (h : rc.setupAdmit e = .inr (rc', reply)) :
    rc'.nSession = if rc.nSession = 0 then rc.clientid else rc.nSession := by
  unfold RtspClient.setupAdmit at h
  split at h
  · cases h
  · split at h
    · cases h
    · rename_i rc₁ halloc
      split at h
      · cases h
      · obtain ⟨rfl, _⟩ := Prod.mk.inj (Sum.inr.inj h)
        rw [(allocSs_some e halloc).2.1]
        rfl

theorem setupRefused_moves (rc : RtspClient) :
    Moves rc [] (rc.setupRefused e) ∧ ¬ (rc.setupRefused e).Accepted := by
  unfold RtspClient.setupRefused
  split
  · exact ⟨processError_moves e _ _, processError_refused e _ nofun⟩
  · exact ⟨processError_moves e _ _, processError_refused e _ nofun⟩
  · exact ⟨processError_moves e _ _, processError_refused e _ nofun⟩
  · exact ⟨processError_moves e _ _, processError_refused e _ nofun⟩
  · exact ⟨processError_moves e _ _, processError_refused e _ nofun⟩
  · refine ⟨⟨rfl, .inl rfl, rfl⟩, fun h => ?_⟩
    rw [Answer.Accepted, List.prefix_nil] at h
    exact absurd h (by decide)

end setup

section whole

/-- Neither `SETUP` nor `TEARDOWN`: the methods whose handlers only move the state. -/
def targetsOf : RtspMethod → List RtspClientState
  | .options => [.options]
  | .describe => [.describe]
  | .play => [.play]
  | .pause => [.pause]
  | _ => []

theorem processGetParameter_moves : Moves rc [] (rtspdClientRtspProcessGetParameter e rc) := by
  unfold rtspdClientRtspProcessGetParameter processPlain
  split
  · rename_i rc' h
    obtain ⟨_, rfl⟩ := state_true h
    exact ⟨rfl, .inl rfl, rfl⟩
  · rename_i rc' h
    obtain ⟨_, rfl⟩ := state_false h
    exact processError_moves e _ _

theorem processMethod_moves (hs : rc.method ≠ .setup) (ht : rc.method ≠ .teardown) :
    Moves rc (targetsOf rc.method) (processMethod e rc) := by
  unfold processMethod
  cases hm : rc.method with
  | options => exact processPlain_moves e _
  | describe => exact processDescribe_moves e
  | setup => exact absurd hm hs
  | play => exact (processPlay_moves e).1
  | pause => exact processPlain_moves e _
  | teardown => exact absurd hm ht
  | getParameter => exact processGetParameter_moves e
  | setParameter => exact processSetParameter_moves e

theorem processMethod_play (hs : rc.method ≠ .setup) (ht : rc.method ≠ .teardown)
    (h : (processMethod e rc).rc.state = .play) : rc.state = .play ∨ rc.playQuery ≠ strtypeNone := by
  have moves := processMethod_moves e hs ht
  rcases moves.state with same | err | ⟨target, _⟩
  · exact .inl (same.symm.trans h)
  · rw [h] at err
    cases err
  · rw [h] at target
    unfold processMethod at h
    cases hm : rc.method with
    | play =>
      rw [hm] at h
      exact (processPlay_moves e).2 h
    | _ =>
      rw [hm] at target
      simp [targetsOf] at target

theorem checkUrl_reads (h : rtspdClientRtspCheckUrl e rc = (ok, rc')) :
    rc'.state = rc.state ∧ rc'.playQuery = rc.playQuery ∧ rc'.rtpSs = rc.rtpSs ∧
      rc'.eTransport = rc.eTransport ∧ rc'.method = rc.method ∧ rc'.login = rc.login := by
  unfold rtspdClientRtspCheckUrl at h
  simp only at h
  split at h
  · split at h
    · cases h
      exact ⟨rfl, rfl, rfl, rfl, rfl, rfl⟩
    · split at h
      · cases h
        exact ⟨rfl, rfl, rfl, rfl, rfl, rfl⟩
      · split at h <;>
        · cases h
          exact ⟨rfl, rfl, rfl, rfl, rfl, rfl⟩
  · split at h <;>
    · cases h
      exact ⟨rfl, rfl, rfl, rfl, rfl, rfl⟩

theorem checkUrl_nSession {e : Env} (h : rtspdClientRtspCheckUrl e rc = (ok, rc')) :
    rc'.nSession = rc.nSession := by
  unfold rtspdClientRtspCheckUrl at h
  simp only at h
  split at h
  · split at h
    · cases h
      rfl
    · split at h
      · cases h
        rfl
      · split at h <;>
        · cases h
          rfl
  · split at h <;>
    · cases h
      rfl

/-- The ways a request is answered: not admitted, refused before the handlers, or handled. -/
inductive Dispatched (e : Env) (rc : RtspClient) : Answer → Prop
  | unauthorized : rc.admitted = false → Dispatched e rc (rc.unauthorized e)
  | torn : rc.admitted = true → rc.state = .teardown →
      Dispatched e rc (rtspdClientRtspProcessError e rc .s412)
  | unserved : rc.admitted = true → rc.state ≠ .teardown →
      rtspdClientRtspCheckUrl e rc = (false, rc') →
      Dispatched e rc (rtspdClientRtspProcessError e rc' .s501)
  | handled : rc.admitted = true → rc.state ≠ .teardown →
      rtspdClientRtspCheckUrl e rc = (true, rc') → Dispatched e rc (processMethod e rc')

theorem dispatch_cases (rc : RtspClient) : Dispatched e rc (dispatch e rc) := by
  unfold dispatch
  split
  · rename_i ha
    unfold rtspdClientRtspResponse RtspClient.checked
    by_cases ht : rc.state = .teardown
    · rw [if_pos ht]
      exact .torn ha ht
    · rw [if_neg ht]
      cases hc : rtspdClientRtspCheckUrl e rc with
      | mk ok rc' =>
        cases ok with
        | false => exact .unserved ha ht hc
        | true => exact .handled ha ht hc
  · rename_i ha
    exact .unauthorized (Bool.eq_false_iff.mpr ha)

end whole

end answering

end En675.Rtsp
