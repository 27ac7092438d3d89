import En675.Rtsp.Slot

/-! What the steps of a slot do, said once: the answer to a request against `dispatch`, the
send buffers under the hands of the RTSP task, and what a step of a sender leaves alone. -/

namespace En675.Rtsp

open Lib

section buffers

/-- The send buffers of the video track and the index of the current one. -/
def RtspClient.buffers (rc : RtspClient) : Option ((Fin 2 → List UInt8) × Fin 2) :=
  rc.rtpSs.map fun ss => (ss.video.buffer, ss.video.bufIdx)

/-- The buffers stay, or are allocated. -/
def Block (rc rc' : RtspClient) : Prop :=
  rc'.buffers = rc.buffers ∨ rc.buffers = none ∧ rc'.buffers = some (fun _ => [], 0)

variable {e : Env} {rc rc' : RtspClient}

@[simp] theorem buffers_isSome (rc : RtspClient) : rc.buffers.isSome = rc.rtpSs.isSome := by
  rw [RtspClient.buffers, Option.isSome_map]

theorem Block.of_eq (h : rc'.rtpSs = rc.rtpSs) : Block rc rc' :=
  .inl (by rw [RtspClient.buffers, RtspClient.buffers, h])

theorem Block.trans (h : Block a b) (k : Block b c) : Block a c := by
  rcases h with h | ⟨hn, h⟩
  · rwa [Block, ← h]
  · rcases k with k | ⟨kn, _⟩
    · exact .inr ⟨hn, k.trans h⟩
    · rw [kn] at h
      cases h

theorem Block.isSome (h : Block rc rc') (hs : rc.rtpSs.isSome) : rc'.rtpSs.isSome := by
  rw [← buffers_isSome] at hs ⊢
  rcases h with h | ⟨_, h⟩ <;> rw [h]
  · exact hs
  · rfl

theorem modifySs_buffers {f : RtpSession → RtpSession}
    (hf : ∀ v, (f v).buffer = v.buffer ∧ (f v).bufIdx = v.bufIdx) :
    (rc.modifySs f).buffers = rc.buffers := by
  unfold RtspClient.modifySs RtspClient.buffers
  cases rc.rtpSs with
  | none => rfl
  | some s =>
    change some ((s.modify rc.nQuery f).video.buffer, (s.modify rc.nQuery f).video.bufIdx) =
      some (s.video.buffer, s.video.bufIdx)
    unfold RtpSs.modify
    split
    · rw [(hf s.video).1, (hf s.video).2]
    · rfl
    · rfl

@[simp] theorem markReady_buffers (rc : RtspClient) : rc.markReady.buffers = rc.buffers :=
  modifySs_buffers fun _ => ⟨rfl, rfl⟩

theorem tested_buffers (rc : RtspClient) : rc.tested.buffers = rc.buffers := by
  unfold RtspClient.tested
  split
  · rfl
  · exact markReady_buffers rc

theorem stored_buffers (rc : RtspClient) (loaded : Nat) : (rc.stored loaded).buffers = rc.buffers := by
  unfold RtspClient.stored
  split
  · exact markReady_buffers _
  · rfl

theorem allocSs_block (h : rc.allocSs e = some rc') : Block rc rc' := by
  unfold RtspClient.allocSs at h
  split at h
  · cases h
    exact .of_eq rfl
  · rename_i hs
    split at h
    · cases h
      exact .inr ⟨by rw [RtspClient.buffers, hs]; rfl, rfl⟩
    · cases h

theorem setupAdmit_inl_block (h : rc.setupAdmit e = .inl a) : Block rc a.rc := by
  unfold RtspClient.setupAdmit at h
  split at h
  · cases h
    exact .of_eq (by rw [processError_rc])
  · split at h
    · cases h
      exact .of_eq (by rw [processError_rc])
    · rename_i halloc
      split at h
      · cases h
        exact (allocSs_block halloc).trans (.of_eq (by rw [processError_rc]))
      · cases h

theorem setupAdmit_inr_block (h : rc.setupAdmit e = .inr (rc', reply)) : Block rc rc' := by
  unfold RtspClient.setupAdmit at h
  split at h
  · cases h
  · split at h
    · cases h
    · rename_i halloc
      split at h
      · cases h
      · obtain ⟨rfl, _⟩ := Prod.mk.inj (Sum.inr.inj h)
        refine (allocSs_block halloc).trans (.inl ?_)
        unfold RtspClient.setupFill
        exact modifySs_buffers fun _ => ⟨rfl, rfl⟩

end buffers

section respond

/-- What answering a request has done to the slot when the RTSP task goes on at `pc`. -/
structure Responds (rc rc' : RtspClient) (pc : RtspPc) : Prop where
  playQuery : rc'.playQuery = rc.playQuery
  eTransport : rc'.eTransport = rc.eTransport
  lively : rc'.state.Lively → rc.state.Lively
  play : rc'.state = .play → rc.state = .play ∨ rc.playQuery ≠ strtypeNone
  block : Block rc rc'
  goes : (∃ reply, pc = .test reply ∧ rc'.state = .setup ∧ rc'.rtpSs.isSome ∧
      rc'.setupQuery = strtypeVideo ∧ (rc'.eTransport = .udp ∨ rc'.eTransport = .tcp)) ∨
    (∃ reply, pc = .free reply ∧ rc'.state = .teardown) ∨ (∃ reply, pc = .write reply) ∨ pc = .hung

variable {e : Env} {rc rc' : RtspClient}

theorem next_goes (a : Answer) : (∃ reply, a.next = .write reply) ∨ a.next = .hung := by
  unfold Answer.next
  split
  · exact .inr rfl
  · exact .inl ⟨_, rfl⟩

theorem Moves.responds (m : Moves rc targets a)
    (ht : ∀ t ∈ targets, t ∈ [RtspClientState.options, .describe, .play, .pause])
    (play : a.rc.state = .play → rc.state = .play ∨ rc.playQuery ≠ strtypeNone)
    (refused : rc.method = .setup → ¬ a.Accepted) : Responds rc a.rc a.next where
  playQuery := by rw [m.slot]
  eTransport := by rw [m.slot]
  lively := (m.outcome ht play refused).lively
  play := play
  block := .of_eq (by rw [m.slot])
  goes := .inr (.inr (next_goes a))

/-- Only what the answer speaks of has to agree. -/
theorem Responds.of_same (h : Responds rc₁ rc' pc) (state : rc₁.state = rc.state)
    (query : rc₁.playQuery = rc.playQuery) (block : rc₁.rtpSs = rc.rtpSs)
    (transport : rc₁.eTransport = rc.eTransport) : Responds rc rc' pc where
  playQuery := h.playQuery.trans query
  eTransport := h.eTransport.trans transport
  lively hl := state ▸ h.lively hl
  play hp := (h.play hp).imp (state ▸ ·) (query ▸ ·)
  block := (Block.of_eq block).trans h.block
  goes := h.goes

theorem processError_responds (rc : RtspClient) {status : RtspStatus} (h : status ≠ .s200) :
    Responds rc (rtspdClientRtspProcessError e rc status).rc
      (rtspdClientRtspProcessError e rc status).next := by
  refine (processError_moves e rc status : Moves rc [] _).responds nofun (fun hp => .inl ?_)
    fun _ => processError_refused e rc h
  rw [processError_rc] at hp
  cases hk : status.keepsState
  · rw [hk] at hp
    cases hp
  · rw [hk] at hp
    exact hp

theorem respondSetup_responds (rc : RtspClient) :
    Responds rc (rc.respondSetup e).1 (rc.respondSetup e).2 := by
  unfold RtspClient.respondSetup
  split
  · rename_i h
    obtain ⟨_, rfl⟩ := state_false h
    obtain ⟨moves, refused⟩ := setupRefused_moves e _
    refine moves.responds nofun (fun hp => ?_) fun _ => refused
    rcases moves.state with same | err | ⟨target, _⟩
    · exact .inl (same ▸ hp)
    · rw [err] at hp
      cases hp
    · cases target
  · rename_i h
    obtain ⟨allowed, rfl⟩ := state_true h
    have lively : rc.state.Lively := stateAllows_lively .setup _ (by decide) allowed
    have moved : Block rc { rc with state := .setup } := .of_eq rfl
    split
    · rename_i ha
      obtain ⟨keeps, hs, _, _⟩ := setupAdmit_inl e ha
      refine ⟨keeps.playQuery, keeps.eTransport, fun _ => lively, fun hp => ?_,
        moved.trans (setupAdmit_inl_block ha), .inr (.inr (next_goes _))⟩
      have left := hp ▸ hs
      simp at left
    · rename_i ha
      obtain ⟨keeps, hs, block, query, tr, _⟩ := setupAdmit_inr e ha
      refine ⟨keeps.playQuery, keeps.eTransport, fun _ => lively, fun hp => ?_,
        moved.trans (setupAdmit_inr_block ha), .inl ⟨_, rfl, hs, block, query, tr⟩⟩
      have left := hp.symm.trans hs
      simp at left

theorem respondTeardown_responds (rc : RtspClient) :
    Responds rc (rc.respondTeardown e).1 (rc.respondTeardown e).2 := by
  unfold RtspClient.respondTeardown
  by_cases allowed : stateAllows .teardown rc.state = true
  · have torn : processPlain e .teardown [] rc =
        { rc := { rc with state := .teardown }
          reply := (processPlain e .teardown [] rc).reply } := by
      simp only [processPlain, rtspdClientRtspState, if_pos allowed]
      rfl
    simp only [if_pos allowed]
    rw [torn]
    exact ⟨rfl, rfl, fun h => absurd rfl h.1, by rintro ⟨⟩, .of_eq rfl, .inr (.inl ⟨_, rfl, rfl⟩)⟩
  · have refused : processPlain e .teardown [] rc = rtspdClientRtspProcessError e rc .s400 := by
      simp only [processPlain, rtspdClientRtspState, if_neg allowed]
    simp only [if_neg allowed]
    rw [refused]
    exact processError_responds rc (by rintro ⟨⟩)

theorem respond_spec (e : Env) (rc : RtspClient) : Responds rc (rc.respond e).1 (rc.respond e).2 := by
  unfold RtspClient.respond
  split
  · rename_i admitted
    unfold RtspClient.checked
    split
    · rename_i ha
      split at ha
      · cases ha
        exact processError_responds rc (show RtspStatus.s412 ≠ .s200 from nofun)
      · split at ha
        · cases ha
        · rename_i hc
          cases ha
          obtain ⟨state, query, block, tr, _⟩ := checkUrl_reads e hc
          exact (processError_responds _ (show RtspStatus.s501 ≠ .s200 from nofun)).of_same state query block tr
    · rename_i rc₁ ha
      split at ha
      · cases ha
      · split at ha
        · rename_i hc
          cases ha
          obtain ⟨state, query, block, tr, _⟩ := checkUrl_reads e hc
          refine Responds.of_same ?_ state query block tr
          split
          · exact respondSetup_responds _
          · exact respondTeardown_responds _
          · rename_i hs ht
            refine (processMethod_moves e hs ht).responds ?_ (processMethod_play e hs ht)
              fun hm => absurd hm hs
            cases rc₁.method <;> decide
        · cases ha
  · have refused := processError_responds (e := e) rc (show RtspStatus.s401 ≠ .s200 from nofun)
    exact ⟨refused.playQuery, refused.eTransport, refused.lively, refused.play, refused.block,
      .inr (.inr (next_goes (rc.unauthorized e)))⟩

/-- The rest of a request that no other task comes between. -/
def settle : RtspClient × RtspPc → RtspClient × List UInt8
  | (rc, .test reply) => (rc.markReady.storeQuery rc.playQuery, reply)
  | (rc, .free reply) => (rc.freeSs, reply)
  | (rc, .write reply) => (rc, reply)
  | (rc, _) => (rc, [])

theorem settle_next {a : Answer} (h : a.hangs = true → a.reply = []) :
    settle (a.rc, a.next) = (a.rc, a.reply) := by
  unfold Answer.next
  split
  · rename_i hh
    rw [h hh]
    rfl
  · rfl

theorem processPlain_hangs (e : Env) (state : RtspClientState) (extra : List UInt8) (rc : RtspClient) :
    (processPlain e state extra rc).hangs = false := by
  unfold processPlain
  split <;> rfl

theorem processSetParameter_hangs (e : Env) (rc : RtspClient) :
    (rtspdClientRtspProcessSetParameter e rc).hangs = false := by
  unfold rtspdClientRtspProcessSetParameter
  split <;> rfl

theorem setupAdmit_hangs (h : rc.setupAdmit e = .inl a) : a.hangs = false := by
  unfold RtspClient.setupAdmit at h
  split at h
  · cases h
    rfl
  · split at h
    · cases h
      rfl
    · split at h
      · cases h
        rfl
      · cases h

theorem processPlay_hangs (h : (rtspdClientRtspProcessPlay e rc).hangs = true) :
    (rtspdClientRtspProcessPlay e rc).reply = [] := by
  revert h
  unfold rtspdClientRtspProcessPlay
  split
  · nofun
  · split
    · nofun
    · split
      · exact fun _ => rfl
      · split
        · exact fun _ => rfl
        · nofun

/-- Without another task in between the steps of a request add up to `dispatch`. -/
theorem settle_respond (e : Env) (rc : RtspClient) :
    settle (rc.respond e) = ((dispatch e rc).rc, (dispatch e rc).reply) := by
  unfold RtspClient.respond dispatch rtspdClientRtspResponse
  split
  · cases hc : rc.checked e with
    | inl a =>
      refine settle_next fun hh => ?_
      unfold RtspClient.checked at hc
      split at hc
      · cases hc
        cases hh
      · split at hc
        · cases hc
        · cases hc
          cases hh
    | inr rc₁ =>
      dsimp only
      cases hm : rc₁.method with
      | setup =>
        simp only [processMethod, hm, RtspClient.respondSetup, rtspdClientRtspProcessSetup]
        rcases rtspdClientRtspState rc₁ .setup with ⟨_ | _, rc₂⟩
        · refine settle_next fun hh => ?_
          unfold RtspClient.setupRefused at hh
          split at hh <;> cases hh
        · dsimp only
          cases ha : rc₂.setupAdmit e with
          | inl a => exact settle_next fun hh => by rw [setupAdmit_hangs ha] at hh; cases hh
          | inr p => rfl
      | teardown =>
        simp only [processMethod, hm, RtspClient.respondTeardown, rtspdClientRtspProcessTeardown]
        split
        · rfl
        · exact settle_next fun hh => by rw [processPlain_hangs] at hh; cases hh
      | options =>
        simp only [processMethod, hm, rtspdClientRtspProcessOptions]
        exact settle_next fun hh => by rw [processPlain_hangs] at hh; cases hh
      | describe =>
        simp only [processMethod, hm]
        refine settle_next fun hh => ?_
        unfold rtspdClientRtspProcessDescribe at hh
        split at hh
        · split at hh <;> cases hh
        · cases hh
      | play =>
        simp only [processMethod, hm]
        exact settle_next processPlay_hangs
      | pause =>
        simp only [processMethod, hm, rtspdClientRtspProcessPause]
        exact settle_next fun hh => by rw [processPlain_hangs] at hh; cases hh
      | getParameter =>
        simp only [processMethod, hm, rtspdClientRtspProcessGetParameter]
        exact settle_next fun hh => by rw [processPlain_hangs] at hh; cases hh
      | setParameter =>
        simp only [processMethod, hm]
        exact settle_next fun hh => by rw [processSetParameter_hangs] at hh; cases hh
  · exact settle_next fun hh => by cases hh

end respond

section sender

/-- What a step of a sender leaves alone. -/
structure Sends (s t : RtspSlot) : Prop where
  pc : t.pc = s.pc
  tcp : t.tcp = s.tcp
  udp : t.udp = s.udp
  freed : t.freed = s.freed
  playQuery : t.rc.playQuery = s.rc.playQuery
  eTransport : t.rc.eTransport = s.rc.eTransport
  setupQuery : t.rc.setupQuery = s.rc.setupQuery
  block : t.rc.rtpSs.isSome = s.rc.rtpSs.isSome
  state : t.rc.state = s.rc.state ∨ t.rc.state = .error
  fault : t.fault = true → s.fault = true ∨ s.freed = true

theorem Sends.refl (s : RtspSlot) : Sends s s := ⟨rfl, rfl, rfl, rfl, rfl, rfl, rfl, rfl, .inl rfl, .inl⟩

theorem touch_fault {s : RtspSlot} (h : s.touch.fault = true) : s.fault = true ∨ s.freed = true :=
  Bool.or_eq_true_iff.mp h

theorem Sends.touch (s : RtspSlot) : Sends s s.touch :=
  ⟨rfl, rfl, rfl, rfl, rfl, rfl, rfl, rfl, .inl rfl, touch_fault⟩

theorem SendStep.sends {s t : RtspSlot} (h : SendStep sender s p e t a) : Sends s t := by
  cases h with
  | null => exact .refl s
  | check => exact .refl s
  | grab => exact .refl s
  | packNull => exact .refl s
  | pack h =>
    obtain ⟨ss, hs, _⟩ := Option.bind_eq_some_iff.mp h
    obtain ⟨q, v, rfl, _⟩ := videoPlay_called hs h
    refine ⟨rfl, rfl, rfl, rfl, rfl, rfl, rfl, ?_, .inl rfl, touch_fault⟩
    rw [hs]
    rfl
  | empty => exact .touch s
  | full => exact .touch s
  | ready => exact .refl s
  | late => exact .refl s
  | broken => exact .refl s
  | peekNull => exact .refl s
  | long => exact .touch s
  | peek => exact .touch s
  | put => exact ⟨rfl, rfl, rfl, rfl, rfl, rfl, rfl, rfl, .inl rfl, touch_fault⟩
  | datagram => exact .touch s
  | refused => exact .touch s
  | giveUp => exact ⟨rfl, rfl, rfl, rfl, rfl, rfl, rfl, rfl, .inr rfl, touch_fault⟩
  | count =>
    refine ⟨rfl, rfl, rfl, rfl, rfl, rfl, rfl, ?_, .inl rfl, touch_fault⟩
    exact Option.isSome_map

end sender

end En675.Rtsp
