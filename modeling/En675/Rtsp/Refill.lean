import En675.Rtsp.Session

/-! What a request leaves of the block `rtp_ss`: all of it, unless it is a `SETUP` that is answered 200
or a `TEARDOWN`. -/

namespace En675.Rtsp

open Lib

section refill

/-- The request is a `SETUP` that is answered 200, which draws a new timestamp. -/
def RtspClient.refills (e : Env) (rc : RtspClient) : Bool :=
  rc.admitted &&
    match rc.checked e with
    | .inl _ => false
    | .inr rc =>
      rc.method = .setup &&
        match rtspdClientRtspState rc .setup with
        | (false, _) => false
        | (true, rc) => (rc.setupAdmit e).isRight

def requestRefills (e : Env) (rc : RtspClient) (buf : List UInt8) : Bool :=
  match rtspdClientRtspMethodParse e rc buf with
  | (false, _) => false
  | (true, rc) => rc.refills e

/-- What any other request leaves of `rtp_ss`. -/
inductive Unfilled (rc rc' : RtspClient) : Prop
  | same : rc'.rtpSs = rc.rtpSs → Unfilled rc rc'
  | freed : rc'.rtpSs = none → ¬ rc'.state.Lively → Unfilled rc rc'
  | fresh : rc.rtpSs = none → rc.state.Lively → rc'.rtpSs = some .zero → Unfilled rc rc'

variable {e : Env} {rc rc' : RtspClient}

theorem Unfilled.of_eq (h : Unfilled rc rc') (block : rc.rtpSs = rc₀.rtpSs) (state : rc.state = rc₀.state) :
    Unfilled rc₀ rc' := by
  cases h with
  | same h => exact .same (h.trans block)
  | freed h gone => exact .freed h gone
  | fresh none_ lively h => exact .fresh (block ▸ none_) (state ▸ lively) h

theorem processError_block (e : Env) (rc : RtspClient) (status : RtspStatus) :
    (rtspdClientRtspProcessError e rc status).rc.rtpSs = rc.rtpSs := by
  rw [processError_rc]

theorem Moves.unfilled (h : Moves rc targets a) : Unfilled rc a.rc := .same (by rw [h.slot])

theorem allocSs_unfilled (lively : rc.state.Lively) (h : rc.allocSs e = some rc') : Unfilled rc rc' := by
  unfold RtspClient.allocSs at h
  split at h
  · cases h
    exact .same rfl
  · rename_i none_
    split at h
    · cases h
      exact .fresh none_ lively rfl
    · cases h

theorem setupAdmit_unfilled (lively : rc.state.Lively) (h : rc.setupAdmit e = .inl a) : Unfilled rc a.rc := by
  unfold RtspClient.setupAdmit at h
  split at h
  · cases h
    exact .same (processError_block e rc _)
  · split at h
    · cases h
      exact .same (processError_block e rc _)
    · rename_i rc₁ alloc
      split at h
      · cases h
        cases allocSs_unfilled lively alloc with
        | same same => exact .same ((processError_block e rc₁ _).trans same)
        | freed none_ gone =>
          have block := (allocSs_some e alloc).1
          rw [none_] at block
          cases block
        | fresh none_ lively fresh => exact .fresh none_ lively ((processError_block e rc₁ _).trans fresh)
      · cases h

theorem processSetup_unfilled (h : (match rtspdClientRtspState rc .setup with
      | (false, _) => false
      | (true, rc) => (rc.setupAdmit e).isRight) = false) :
    Unfilled rc (rtspdClientRtspProcessSetup e rc).rc := by
  unfold rtspdClientRtspProcessSetup
  split
  · rename_i hs
    obtain ⟨_, rfl⟩ := state_false hs
    exact (setupRefused_moves e _).1.unfilled
  · rename_i rc₁ hs
    rw [hs] at h
    obtain ⟨allowed, rfl⟩ := state_true hs
    have lively := stateAllows_lively .setup rc.state (by decide) allowed
    have moved : RtspClientState.Lively .setup := by decide
    dsimp only at h
    split
    · rename_i a ha
      cases setupAdmit_unfilled moved ha with
      | same same => exact .same same
      | freed none_ gone => exact .freed none_ gone
      | fresh none_ _ fresh => exact .fresh none_ lively fresh
    · rename_i r hr
      rw [hr] at h
      cases h

theorem processTeardown_unfilled (rc : RtspClient) : Unfilled rc (rtspdClientRtspProcessTeardown e rc).rc := by
  unfold rtspdClientRtspProcessTeardown
  dsimp only
  split
  · rename_i allowed
    refine .freed rfl ?_
    unfold processPlain rtspdClientRtspState
    rw [if_pos allowed]
    exact fun lively => lively.1 rfl
  · exact (processPlain_moves e []).unfilled

theorem dispatch_unfilled (h : rc.refills e = false) : Unfilled rc (dispatch e rc).rc := by
  unfold dispatch
  by_cases admitted : rc.admitted = true
  · rw [if_pos admitted, rtspdClientRtspResponse]
    rw [RtspClient.refills, admitted, Bool.true_and] at h
    unfold RtspClient.checked at h ⊢
    by_cases torn : rc.state = .teardown
    · rw [if_pos torn]
      exact .same (processError_block e rc _)
    · rw [if_neg torn] at h ⊢
      cases hc : rtspdClientRtspCheckUrl e rc with
      | mk ok rc₁ =>
        obtain ⟨state, _, block, _, method, _⟩ := checkUrl_reads e hc
        rw [hc] at h
        cases ok with
        | false => exact .same ((processError_block e rc₁ _).trans block)
        | true =>
          refine Unfilled.of_eq ?_ block state
          dsimp only at h ⊢
          by_cases setup : rc₁.method = .setup
          · rw [decide_eq_true setup, Bool.true_and] at h
            simp only [processMethod, setup]
            exact processSetup_unfilled h
          · by_cases teardown : rc₁.method = .teardown
            · simp only [processMethod, teardown]
              exact processTeardown_unfilled rc₁
            · exact (processMethod_moves e setup teardown).unfilled
  · rw [if_neg admitted]
    exact .same (processError_block e rc _)

theorem request_unfilled (buf : List UInt8) (h : requestRefills e rc buf = false) :
    Unfilled rc ((⟨rc, []⟩ : Session).request e buf).rc := by
  obtain ⟨spares, _⟩ := methodParse_spec e rc buf
  unfold requestRefills at h
  unfold Session.request
  split
  · rename_i hp
    rw [hp] at spares
    exact .same spares.rtpSs
  · rename_i rc₁ hp
    dsimp only at hp
    rw [hp] at spares h
    exact (dispatch_unfilled h).of_eq spares.rtpSs spares.state

/-- `P` holds of the video session, if there is one. -/
def RtspClient.Video (P : RtpSession → Prop) (rc : RtspClient) : Prop := ∀ s, rc.rtpSs = some s → P s.video

variable {P : RtpSession → Prop}

theorem modifySs_video {f : RtpSession → RtpSession} (h : rc.Video P) (hf : ∀ v, P v → P (f v)) :
    (rc.modifySs f).Video P := by
  intro s' hs'
  obtain ⟨s, hs, rfl⟩ := Option.map_eq_some_iff.mp hs'
  unfold RtpSs.modify
  split
  · exact hf _ (h s hs)
  · exact h s hs
  · exact h s hs

theorem Unfilled.video (k : Unfilled rc rc') (zero : P .zero) (h : rc.Video P) : rc'.Video P := by
  intro s' hs'
  cases k with
  | same same => exact h s' (same ▸ hs')
  | freed none_ =>
    rw [none_] at hs'
    cases hs'
  | fresh _ _ fresh =>
    rw [fresh] at hs'
    cases hs'
    exact zero

/-- What a `SETUP` does to the video session: it allocates it, fills it, and makes it ready. -/
theorem processSetup_video (zero : P .zero)
    (fill : ∀ v payload, P v → P
      { v with payloadType := payload
               ssrc := e.ssrc
               startRtptime := e.startRtptime
               startSeq := e.startSeq
               packetCnt := 0
               totalLength := 0
               rtpPk := { v.rtpPk with nalnum := 0xFFFFFFFF } })
    (ready : ∀ v, P v → P { v with txReady := .ready }) (h : rc.Video P) :
    (rtspdClientRtspProcessSetup e rc).rc.Video P := by
  unfold rtspdClientRtspProcessSetup
  split
  · rename_i hs
    obtain ⟨_, rfl⟩ := state_false hs
    exact (setupRefused_moves e _).1.unfilled.video zero h
  · rename_i rc₁ hs
    obtain ⟨_, rfl⟩ := state_true hs
    have moved : RtspClientState.Lively .setup := by decide
    split
    · rename_i a ha
      exact (setupAdmit_unfilled moved ha).video zero h
    · rename_i rc₂ reply ha
      unfold RtspClient.setupAdmit at ha
      split at ha
      · cases ha
      · split at ha
        · cases ha
        · rename_i rc₃ alloc
          split at ha
          · cases ha
          · rename_i payload _
            obtain ⟨rfl, _⟩ := Prod.mk.inj (Sum.inr.inj ha)
            have allocated : rc₃.Video P := (allocSs_unfilled moved alloc).video zero h
            have filled : (rc₃.setupFill e payload).Video P := by
              unfold RtspClient.setupFill
              exact modifySs_video allocated fun v => fill v payload
            exact modifySs_video filled ready

/-- No request starts a frame. -/
def Rests (rc rc' : RtspClient) : Prop :=
  rc'.Video fun v => v.txReady = .doing → ∃ s, rc.rtpSs = some s ∧ s.video.txReady = .doing

theorem rests_self (rc : RtspClient) : Rests rc rc := fun s hs doing => ⟨s, hs, doing⟩

theorem Unfilled.rests (h : Unfilled rc rc') : Rests rc rc' := h.video nofun (rests_self rc)

theorem processSetup_rests (rc : RtspClient) : Rests rc (rtspdClientRtspProcessSetup e rc).rc :=
  processSetup_video nofun (fun _ _ => id) (fun _ _ => nofun) (rests_self rc)

theorem processSetup_lively (h : (match rtspdClientRtspState rc .setup with
      | (false, _) => false
      | (true, rc) => (rc.setupAdmit e).isRight) = true) : rc.state.Lively := by
  split at h
  · cases h
  · rename_i hs
    exact stateAllows_lively .setup rc.state (by decide) (state_true hs).1

/-- Every request leaves the block, or is a `SETUP` of a slot that is alive. -/
theorem request_block (rc : RtspClient) (buf : List UInt8) :
    Unfilled rc ((⟨rc, []⟩ : Session).request e buf).rc ∨
      requestRefills e rc buf = true ∧ rc.state.Lively ∧ ∃ rc₂, rc₂.rtpSs = rc.rtpSs ∧
        ((⟨rc, []⟩ : Session).request e buf).rc = (rtspdClientRtspProcessSetup e rc₂).rc := by
  cases refills : requestRefills e rc buf with
  | false => exact .inl (request_unfilled buf refills)
  | true =>
    obtain ⟨spares, _⟩ := methodParse_spec e rc buf
    unfold requestRefills at refills
    split at refills
    · cases refills
    · rename_i rc₁ hp
      rw [hp] at spares
      have answer : ((⟨rc, []⟩ : Session).request e buf).rc = (dispatch e rc₁).rc := by
        unfold Session.request
        rw [hp]
      rw [answer]
      unfold RtspClient.refills at refills
      rw [Bool.and_eq_true] at refills
      obtain ⟨admitted, refills⟩ := refills
      split at refills
      · cases refills
      · rename_i rc₂ hc
        rw [Bool.and_eq_true, decide_eq_true_eq] at refills
        have handled : dispatch e rc₁ = rtspdClientRtspProcessSetup e rc₂ := by
          rw [dispatch, if_pos admitted, rtspdClientRtspResponse, hc]
          simp only [processMethod, refills.1]
        have same : rc₂.state = rc₁.state ∧ rc₂.rtpSs = rc₁.rtpSs := by
          unfold RtspClient.checked at hc
          split at hc
          · cases hc
          · split at hc
            · rename_i hu
              cases hc
              have reads := checkUrl_reads e hu
              exact ⟨reads.1, reads.2.2.1⟩
            · cases hc
        have lively := processSetup_lively refills.2
        rw [handled]
        refine .inr ⟨rfl, ?_, rc₂, same.2.trans spares.rtpSs, rfl⟩
        rw [← spares.state, ← same.1]
        exact lively

theorem request_rests (buf : List UInt8) : Rests rc ((⟨rc, []⟩ : Session).request e buf).rc := by
  rcases request_block (e := e) rc buf with kept | ⟨_, _, rc₂, block, setup⟩
  · exact kept.rests
  · rw [setup]
    intro s' hs' doing
    obtain ⟨s, hs, doing⟩ := processSetup_rests rc₂ s' hs' doing
    exact ⟨s, block ▸ hs, doing⟩

end refill

end En675.Rtsp
