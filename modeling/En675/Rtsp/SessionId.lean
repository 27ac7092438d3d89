import En675.Rtsp.Session

/-! The session id: the field every reply prints is also the one a `Session` header is read
into. -/

namespace En675.Rtsp

open Lib

section reply

/-- The `Session` line of a reply. -/
def sessionOf (reply : List UInt8) : Option (List UInt8) := do
  let (_, s) ← cut crlf reply
  let (_, s) ← cut crlf s
  let (line, _) ← cut crlf s
  if hasName "Session: " line then some (line.drop 9) else none

theorem cr_not_mem_status : ∀ s : RtspStatus, (13 : UInt8) ∉ ascii "RTSP/1.0 " ++ ascii s.text := by
  intro s
  cases s <;> decide

theorem cr_not_mem_cseq (n : Int) : (13 : UInt8) ∉ ascii "CSeq: " ++ dec n := by
  intro h
  rcases List.mem_append.mp h with h | h
  · revert h
    decide
  · exact cr_not_mem_dec n h

theorem cr_not_mem_session (n : Int) : (13 : UInt8) ∉ ascii "Session: " ++ dec n := by
  intro h
  rcases List.mem_append.mp h with h | h
  · revert h
    decide
  · exact cr_not_mem_dec n h

theorem cut_crlf {a b : List UInt8} (h : (13 : UInt8) ∉ a) : cut crlf (a ++ (crlf ++ b)) = some (a, b) :=
  cut_append h

theorem sessionOf_headS (rc : RtspClient) (status : RtspStatus) (rest : List UInt8) :
    sessionOf (rc.headS status ++ rest) = some (dec rc.nSession) := by
  have text : rc.headS status ++ rest =
      (ascii "RTSP/1.0 " ++ ascii status.text) ++ (crlf ++ ((ascii "CSeq: " ++ dec rc.nCSeq) ++
        (crlf ++ ((ascii "Session: " ++ dec rc.nSession) ++ (crlf ++ rest))))) := by
    simp only [RtspClient.headS, RtspClient.head, statusLine, List.append_assoc]
  have first := cut_crlf (b := (ascii "CSeq: " ++ dec rc.nCSeq) ++
    (crlf ++ ((ascii "Session: " ++ dec rc.nSession) ++ (crlf ++ rest)))) (cr_not_mem_status status)
  have second := cut_crlf (b := (ascii "Session: " ++ dec rc.nSession) ++
    (crlf ++ rest)) (cr_not_mem_cseq rc.nCSeq)
  have third := cut_crlf (b := rest) (cr_not_mem_session rc.nSession)
  rw [sessionOf, text]
  simp only [Option.bind_eq_bind]
  rw [first, Option.bind_some, second, Option.bind_some, third, Option.bind_some]
  rfl

/-- A reply is headed by the id the slot holds when it goes out. -/
def Answer.Headed (a : Answer) : Prop :=
  a.reply = [] ∨ ∃ status rest, a.reply = a.rc.headOf status ++ rest ∨ a.reply = a.rc.headS status ++ rest

theorem Answer.Headed.sessionOf {a : Answer} (h : a.Headed) (hr : a.reply ≠ []) (hn : a.rc.nSession ≠ 0) :
    sessionOf a.reply = some (dec a.rc.nSession) := by
  rcases h with h | ⟨status, rest, h | h⟩
  · exact absurd h hr
  · rw [h, RtspClient.headOf, if_neg hn, sessionOf_headS]
  · rw [h, sessionOf_headS]

end reply

section headed

variable (e : Env) (rc : RtspClient)

theorem processError_headed (status : RtspStatus) : (rtspdClientRtspProcessError e rc status).Headed :=
  .inr ⟨status, rtspdClientRtspMakeDatetime e.tm ++ crlf, .inl (by
    simp only [rtspdClientRtspProcessError, List.append_assoc])⟩

theorem processPlain_headed (state : RtspClientState) (extra : List UInt8) :
    (processPlain e state extra rc).Headed := by
  unfold processPlain
  split
  · exact .inr ⟨.s200, _, .inl (by simp only [List.append_assoc]; rfl)⟩
  · exact processError_headed e _ _

theorem processDescribe_headed : (rtspdClientRtspProcessDescribe e rc).Headed := by
  unfold rtspdClientRtspProcessDescribe
  split
  · split
    · exact .inr ⟨.s200, _, .inl (by simp only [List.append_assoc]; rfl)⟩
    · exact processError_headed e _ _
  · exact processError_headed e _ _

theorem setupAdmit_refused {a : Answer} (h : rc.setupAdmit e = .inl a) : a.Headed := by
  unfold RtspClient.setupAdmit at h
  split at h
  · obtain rfl := Sum.inl.inj h
    exact processError_headed e _ _
  · split at h
    · obtain rfl := Sum.inl.inj h
      exact processError_headed e _ _
    · split at h
      · obtain rfl := Sum.inl.inj h
        exact processError_headed e _ _
      · cases h

theorem setupReply_headS (rc : RtspClient) : ∃ rest, rc.setupReply e = rc.headS .s200 ++ rest := by
  have head : rc.headS .s200 <+: rc.setupReply e := by
    simp only [RtspClient.setupReply, List.append_assoc]
    exact List.prefix_append _ _
  obtain ⟨rest, h⟩ := head
  exact ⟨rest, h.symm⟩

theorem setupAdmit_admitted {rc' : RtspClient} {reply : List UInt8}
    (h : rc.setupAdmit e = .inr (rc', reply)) : ∃ rest, reply = rc'.headS .s200 ++ rest := by
  unfold RtspClient.setupAdmit at h
  split at h
  · cases h
  · split at h
    · cases h
    · split at h
      · cases h
      · obtain ⟨rfl, rfl⟩ := Prod.mk.inj (Sum.inr.inj h)
        exact setupReply_headS e _

theorem setupRefused_headed : (rc.setupRefused e).Headed := by
  unfold RtspClient.setupRefused
  split
  · exact processError_headed e _ _
  · exact processError_headed e _ _
  · exact processError_headed e _ _
  · exact processError_headed e _ _
  · exact processError_headed e _ _
  · exact .inl rfl

theorem processSetup_headed : (rtspdClientRtspProcessSetup e rc).Headed := by
  unfold rtspdClientRtspProcessSetup
  split
  · exact setupRefused_headed e _
  · split
    · rename_i h
      exact setupAdmit_refused e _ h
    · rename_i h
      obtain ⟨rest, hr⟩ := setupAdmit_admitted e _ h
      exact .inr ⟨.s200, rest, .inr hr⟩

theorem processPlay_headed : (rtspdClientRtspProcessPlay e rc).Headed := by
  unfold rtspdClientRtspProcessPlay
  split
  · exact processError_headed e _ _
  · split
    · exact processError_headed e _ _
    · split
      · exact .inl rfl
      · split
        · exact .inl rfl
        · exact .inr ⟨.s200, _, .inr (by simp only [List.append_assoc]; rfl)⟩

theorem processTeardown_headed : (rtspdClientRtspProcessTeardown e rc).Headed := by
  unfold rtspdClientRtspProcessTeardown
  split
  · exact processPlain_headed e rc .teardown []
  · exact processPlain_headed e rc .teardown []

theorem processMethod_headed : (processMethod e rc).Headed := by
  unfold processMethod
  split
  · exact processPlain_headed e rc _ _
  · exact processDescribe_headed e rc
  · exact processSetup_headed e rc
  · exact processPlay_headed e rc
  · exact processPlain_headed e rc _ _
  · exact processTeardown_headed e rc
  · exact processPlain_headed e rc _ _
  · unfold rtspdClientRtspProcessSetParameter
    split <;> exact processError_headed e _ _

theorem unauthorized_headed : (rc.unauthorized e).Headed := by
  refine .inr ⟨.s401, rtspdClientRtspMakeDatetime e.tm ++ authenticate e.authMode, .inl ?_⟩
  rw [← List.append_assoc, RtspClient.unauthorized, rtspdClientRtspProcessError]
  simp only [dropLast_crlf]

theorem dispatch_headed : (dispatch e rc).Headed := by
  have cases := dispatch_cases e rc
  generalize dispatch e rc = a at cases ⊢
  cases cases with
  | unauthorized => exact unauthorized_headed e rc
  | torn => exact processError_headed e rc _
  | unserved => exact processError_headed e _ _
  | handled => exact processMethod_headed e _

theorem processSetup_accepted : (rtspdClientRtspProcessSetup e rc).Accepted →
    ∃ rest, (rtspdClientRtspProcessSetup e rc).reply =
      (rtspdClientRtspProcessSetup e rc).rc.headS .s200 ++ rest := by
  unfold rtspdClientRtspProcessSetup
  split
  · exact fun h => absurd h (setupRefused_moves e _).2
  · split
    · rename_i h
      exact fun ha => absurd ha (setupAdmit_inl e h).2.2.2
    · rename_i h
      obtain ⟨rest, hr⟩ := setupAdmit_admitted e _ h
      exact fun _ => ⟨rest, hr⟩

/-- A `SETUP` that is answered 200 prints the id whatever it is. -/
theorem dispatch_setup (hm : rc.method = .setup) (ha : (dispatch e rc).Accepted) :
    sessionOf (dispatch e rc).reply = some (dec (dispatch e rc).rc.nSession) := by
  have cases := dispatch_cases e rc
  generalize dispatch e rc = a at cases ha ⊢
  cases cases with
  | unauthorized => exact absurd ha (unauthorized_refused e rc)
  | torn => exact absurd ha (processError_refused e _ nofun)
  | unserved => exact absurd ha (processError_refused e _ nofun)
  | @handled rc' _ _ hc =>
    have hm' : rc'.method = .setup := (checkUrl_reads e hc).2.2.2.2.1.trans hm
    simp only [processMethod, hm'] at ha ⊢
    obtain ⟨rest, hr⟩ := processSetup_accepted e rc' ha
    rw [hr, sessionOf_headS]

end headed

section stored

/-- The numbers of the `Session` lines of a header text. -/
def sessionIds : Nat → List UInt8 → List Int
  | 0, _ => []
  | fuel + 1, text =>
    match cut crlf text with
    | none => []
    | some (line, rest) =>
      (if hasName "Session" line then [atoi (headerData "Session" line rest)] else []) ++
        sessionIds fuel rest

/-- The ids a request names. -/
def sessionIdsOf (buf : List UInt8) : List Int :=
  match (RtspClient.zero.requestLine (cstr buf)).2 with
  | none => []
  | some text => sessionIds text.length text

theorem hasName_session (h : hasName "CSeq" line = true) : hasName "Session" line = false := by
  cases line with
  | nil => rfl
  | cons b line =>
    have first : b = 67 := by
      rw [hasName, show ascii "CSeq" = 67 :: [83, 101, 113] from rfl, List.isPrefixOf_cons_cons,
        Bool.and_eq_true, beq_iff_eq] at h
      exact h.1.symm
    rw [hasName, show ascii "Session" = 83 :: [101, 115, 115, 105, 111, 110] from rfl,
      List.isPrefixOf_cons_cons, first]
    rfl

variable (e : Env) (rc : RtspClient)

theorem headerCommon_nSession (line rest : List UInt8) : (rc.headerCommon e line rest).nSession =
    if hasName "Session" line then atoi (headerData "Session" line rest) else rc.nSession := by
  unfold RtspClient.headerCommon
  split
  · rename_i h
    rw [hasName_session h]
    rfl
  · split
    · rfl
    · split <;> rfl

theorem headerParse_nSession (line rest : List UInt8) :
    (rtspdClientRtspHeaderParse e rc line rest).nSession = (rc.headerCommon e line rest).nSession :=
  (headerParse_tracks e rc line rest).1.nSession

/-- The last `Session` line wins. -/
theorem headerLines_nSession (fuel : Nat) (text : List UInt8) :
    (headerLines e fuel rc text).nSession = (sessionIds fuel text).getLast?.getD rc.nSession := by
  induction fuel generalizing rc text with
  | zero => rfl
  | succ fuel ih =>
    cases hc : cut crlf text with
    | none =>
      simp only [headerLines, sessionIds, hc]
      rfl
    | some r =>
      obtain ⟨line, rest⟩ := r
      simp only [headerLines, sessionIds, hc]
      rw [ih, headerParse_nSession, headerCommon_nSession]
      split
      · rw [List.singleton_append, List.getLast?_cons]
        rfl
      · rfl

theorem methodParse_nSession (buf : List UInt8) : (rtspdClientRtspMethodParse e rc buf).2.nSession =
    (sessionIdsOf buf).getLast?.getD rc.nSession := by
  have line : (rc.requestLine (cstr buf)).1.nSession = rc.nSession := by
    unfold RtspClient.requestLine
    split
    · rfl
    · split
      · rfl
      · split
        · rfl
        · split <;> rfl
  rw [sessionIdsOf, requestLine_text RtspClient.zero rc]
  cases h : rc.requestLine (cstr buf) with
  | mk rc' text =>
    rw [h] at line
    cases text with
    | none =>
      simp only [rtspdClientRtspMethodParse, h]
      exact line
    | some text =>
      simp only [rtspdClientRtspMethodParse, h]
      rw [headerLines_nSession, line]

theorem processMethod_nSession (h : rc.nSession ≠ 0) : (processMethod e rc).rc.nSession = rc.nSession := by
  by_cases hs : rc.method = .setup
  · simp only [processMethod, hs, rtspdClientRtspProcessSetup]
    split
    · rename_i rc' ht
      obtain ⟨_, rfl⟩ := state_false ht
      rw [(setupRefused_moves e rc').1.slot]
    · rename_i rc₁ ht
      obtain ⟨_, rfl⟩ := state_true ht
      split
      · rename_i ha
        exact (setupAdmit_refused_nSession e ha).trans rfl
      · rename_i rc' reply ha
        exact (setupAdmit_nSession e ha).trans (if_neg h)
  · by_cases ht : rc.method = .teardown
    · simp only [processMethod, ht, rtspdClientRtspProcessTeardown]
      have moves : Moves rc [.teardown] (processPlain e .teardown [] rc) := processPlain_moves e []
      split
      · change (processPlain e .teardown [] rc).rc.nSession = _
        rw [moves.slot]
      · rw [moves.slot]
    · rw [(processMethod_moves e hs ht).slot]

theorem dispatch_nSession (h : rc.nSession ≠ 0) : (dispatch e rc).rc.nSession = rc.nSession := by
  have cases := dispatch_cases e rc
  generalize dispatch e rc = a at cases ⊢
  cases cases with
  | unauthorized => rfl
  | torn => rw [processError_rc]
  | unserved _ _ hc =>
    have same := checkUrl_nSession hc
    rw [processError_rc]
    exact same
  | handled _ _ hc =>
    have same := checkUrl_nSession hc
    exact (processMethod_nSession e _ (same ▸ h)).trans same

end stored

section stable

def Exchange.Ok (x : Exchange) : Prop := x.parsed = true ∧ statusOf x.reply = some .s200

/-- A `SETUP` answered 200 with an id other than 0. -/
def Exchange.Establishes (x : Exchange) (sid : List UInt8) : Prop :=
  x.method = .setup ∧ x.Ok ∧ sessionOf x.reply = some sid ∧ sid ≠ ascii "0"

/-- What a request `y` after the exchange `x` owes to the id `x` established. -/
def Stable (x y : Exchange) : Prop :=
  ∀ sid, x.Establishes sid →
    (y.Ok → sessionOf y.reply = some sid) ∧
    (y.method ∈ [RtspMethod.setup, .play, .pause, .teardown] →
      (∃ n ∈ sessionIdsOf y.buf, dec n ≠ sid) → ¬ y.Ok ∧ y.after = y.before)

/-- Once an id is established, every `Session` line of a request repeats it. -/
def RepeatsId (s : Session) : Session.Label → Prop
  | .request _ buf =>
    (∃ x ∈ s.log, ∃ sid, x.Establishes sid) → ∀ n ∈ sessionIdsOf buf, n = s.rc.nSession
  | _ => True

structure IdInv (s : Session) : Prop where
  stable : s.log.Pairwise Stable
  stored : ∀ x ∈ s.log, ∀ sid, x.Establishes sid → dec s.rc.nSession = sid

theorem IdInv.other {s : Session} (inv : IdInv s) {rc : RtspClient}
    (same : rc.nSession = s.rc.nSession) : IdInv { s with rc } :=
  ⟨inv.stable, fun x hx sid h => same ▸ inv.stored x hx sid h⟩

theorem nSession_of_dec (h : dec n ≠ ascii "0") : n ≠ 0 := by
  rintro rfl
  exact h (by decide)

theorem accepted_of_status {a : Answer} (h : a.Headed) (hs : statusOf a.reply = some .s200) :
    a.reply ≠ [] ∧ a.Accepted := by
  have nonempty : a.reply ≠ [] := by
    intro hn
    rw [hn] at hs
    exact absurd hs (by decide)
  refine ⟨nonempty, ?_⟩
  have headed (status : RtspStatus) (rest : List UInt8) (hp : statusLine status <+: a.reply) : a.Accepted := by
    obtain ⟨rest, hr⟩ := hp
    rw [← hr, statusOf_statusLine] at hs
    obtain rfl := Option.some.inj hs
    exact ⟨rest, hr⟩
  rcases h with h | ⟨status, rest, h | h⟩
  · exact absurd h nonempty
  · exact headed status rest (h ▸ (headOf_begins _ status).trans (List.prefix_append _ _))
  · refine headed status rest (h ▸ List.IsPrefix.trans ?_ (List.prefix_append _ _))
    simp only [RtspClient.headS, RtspClient.head, List.append_assoc]
    exact List.prefix_append _ _

theorem request_id {s : Session} (inv : IdInv s) (e : Env) (buf : List UInt8)
    (ok : RepeatsId s (.request e buf)) : IdInv (s.request e buf) := by
  have parsed := methodParse_nSession e s.rc buf
  cases hp : rtspdClientRtspMethodParse e s.rc buf with
  | mk done rc =>
    rw [hp] at parsed
    have repeated (x : Exchange) (hx : x ∈ s.log) (sid : List UInt8) (h : x.Establishes sid) :
        rc.nSession = s.rc.nSession ∧ ∀ n ∈ sessionIdsOf buf, dec n = sid := by
      have ids := ok ⟨x, hx, sid, h⟩
      refine ⟨?_, fun n hn => by rw [ids n hn]; exact inv.stored x hx sid h⟩
      rw [parsed]
      cases hl : (sessionIdsOf buf).getLast? with
      | none => rfl
      | some n => exact ids n (List.mem_of_getLast? hl)
    cases done with
    | false =>
      simp only [Session.request, hp]
      constructor
      · refine List.pairwise_append.mpr ⟨inv.stable, List.pairwise_singleton _ _, fun x hx y hy sid h => ?_⟩
        obtain rfl := List.mem_singleton.mp hy
        refine ⟨fun hok => absurd hok.1 Bool.false_ne_true, fun _ hn => ?_⟩
        obtain ⟨n, hn, hd⟩ := hn
        exact absurd ((repeated x hx sid h).2 n hn) hd
      · intro x hx sid h
        rcases List.mem_append.mp hx with hx | hx
        · rw [(repeated x hx sid h).1]
          exact inv.stored x hx sid h
        · obtain rfl := List.mem_singleton.mp hx
          exact absurd h.2.1.1 Bool.false_ne_true
    | true =>
      simp only [Session.request, hp]
      have kept (x : Exchange) (hx : x ∈ s.log) (sid : List UInt8) (h : x.Establishes sid) :
          dec (dispatch e rc).rc.nSession = sid ∧ (dispatch e rc).rc.nSession ≠ 0 := by
        have stored : dec rc.nSession = sid := by
          rw [(repeated x hx sid h).1]
          exact inv.stored x hx sid h
        have nonzero := nSession_of_dec (stored.trans_ne h.2.2.2)
        have same := dispatch_nSession e rc nonzero
        rw [same]
        exact ⟨stored, nonzero⟩
      constructor
      · refine List.pairwise_append.mpr ⟨inv.stable, List.pairwise_singleton _ _, fun x hx y hy sid h => ?_⟩
        obtain rfl := List.mem_singleton.mp hy
        obtain ⟨stored, nonzero⟩ := kept x hx sid h
        refine ⟨fun hok => ?_, fun _ hn => ?_⟩
        · have headed := dispatch_headed e rc
          rw [← stored]
          exact headed.sessionOf (accepted_of_status headed hok.2).1 nonzero
        · obtain ⟨n, hn, hd⟩ := hn
          exact absurd ((repeated x hx sid h).2 n hn) hd
      · intro x hx sid h
        rcases List.mem_append.mp hx with hx | hx
        · exact (kept x hx sid h).1
        · obtain rfl := List.mem_singleton.mp hx
          obtain ⟨hm, hok, hsid, _⟩ := h
          have setup := dispatch_setup e rc hm (accepted_of_status (dispatch_headed e rc) hok.2).2
          exact Option.some.inj (setup.symm.trans hsid)

theorem id_inv : (session mode).Inductive RepeatsId IdInv where
  init h := by
    obtain ⟨_, hlog⟩ := h
    exact ⟨hlog ▸ .nil, fun x hx => by rw [hlog] at hx; cases hx⟩
  step := by
    intro s l t inv ok h
    cases l with
    | request e buf =>
      obtain ⟨_, rfl⟩ := h
      exact request_id inv e buf ok
    | rtpExit =>
      cases h
      exact inv.other rfl
    | rtpSend ss q =>
      obtain ⟨_, rfl⟩ := h
      exact inv.other rfl
    | udpError =>
      cases h
      exact inv.other rfl
    | kick =>
      cases h
      rw [kick_state]
      exact inv.other rfl

theorem session_id_stable (mode : RtspdAuth) (s : Session) (r : Reach (session mode) RepeatsId s) :
    s.log.Pairwise Stable :=
  (id_inv.reach r).stable

theorem samplePlaying_repeats : Reach (session .basic) RepeatsId samplePlaying := by
  have fresh : Reach (session .basic) RepeatsId ⟨Session.clientInit .basic 0 9 0, []⟩ :=
    .init ⟨⟨0, 9, 0, rfl⟩, rfl⟩
  have next {s : Session} (r : Reach (session .basic) RepeatsId s) (buf : List UInt8)
      (ok : ∀ n ∈ sessionIdsOf buf, n = s.rc.nSession) :
      Reach (session .basic) RepeatsId (s.request (sampleEnv .basic) buf) := by
    have hs : (session .basic).step s (.request (sampleEnv .basic) buf)
        (s.request (sampleEnv .basic) buf) := ⟨rfl, rfl⟩
    have repeats : RepeatsId s (.request (sampleEnv .basic) buf) := fun _ => ok
    exact r.step repeats hs
  exact next (next (next fresh optionsText (by decide +kernel)) setupText (by decide +kernel)) playText
    (by decide +kernel)

theorem session_id_stable_play : samplePlaying.log.Pairwise Stable :=
  session_id_stable .basic samplePlaying samplePlaying_repeats

def otherIdText : List UInt8 := ascii "OPTIONS rtsp://h/s RTSP/1.0\r\nCSeq: 3\r\nSession: 5\r\n\r\n"

def sampleReplaced : Session :=
  (((⟨Session.clientInit .none 0 9 0, []⟩ : Session).request (sampleEnv .none) optionsText).request
    (sampleEnv .none) setupText).request (sampleEnv .none) otherIdText

/-- After a 200 with `Session: 9` the client names 5, and the reply is a 200 with 5. -/
theorem session_id_replaced :
    ∃ s, Reach (session .none) Lts.any s ∧ ¬ s.log.Pairwise Stable := by
  refine ⟨sampleReplaced, reach_request (reach_request (reach_request (reach_clientInit .none 0 9 0)
    _ _ rfl) _ _ rfl) _ _ rfl, fun h => ?_⟩
  have pair := List.pairwise_iff_getElem.mp h 1 2 (by decide +kernel) (by decide +kernel) (by decide)
  have established : (sampleReplaced.log.get ⟨1, by decide +kernel⟩).Establishes (ascii "9") :=
    ⟨by decide +kernel, ⟨by decide +kernel, by decide +kernel⟩, by decide +kernel, by decide⟩
  have answered := (pair (ascii "9") established).1 ⟨by decide +kernel, by decide +kernel⟩
  revert answered
  decide +kernel

end stable

end En675.Rtsp
