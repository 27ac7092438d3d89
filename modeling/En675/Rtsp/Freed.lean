import En675.Rtsp.SlotRuns

/-! Who may hold the block of `rtp_ss` while it is freed. -/

namespace En675.Rtsp

open Lib

/-- The part of a `SETUP` in which a task may have been created and `play_query` is not yet
stored. -/
def RtspPc.Storing : RtspPc → Prop
  | .load _ | .store _ _ => True
  | _ => False

section transport

/-- The transport that a header line stores in the client. -/
def RtspClient.names (rc : RtspClient) (line rest : List UInt8) : Option RtspTransport :=
  if rc.method = .setup ∧ rc.setupTrack.isSome then namedBy line rest else none

theorem headerCommon_setupTrack (e : Env) (rc : RtspClient) (line rest : List UInt8) :
    (rc.headerCommon e line rest).setupTrack.isSome = rc.setupTrack.isSome := by
  unfold RtspClient.headerCommon
  split
  · unfold RtspClient.setupTrack
    split <;> simp only [Option.isSome_map, Option.isSome_some]
  · split
    · unfold RtspClient.setupTrack
      split <;> simp only [Option.isSome_map, Option.isSome_some]
    · split
      · unfold RtspClient.setupTrack
        split <;> simp only [Option.isSome_map, Option.isSome_some]
      · rfl

theorem names_none (rc : RtspClient) (line rest : List UInt8) (hm : rc.method ≠ .setup) :
    rc.names line rest = none := if_neg fun h => hm h.1

theorem headerParse_names (e : Env) (rc : RtspClient) (line rest : List UInt8) :
    (rtspdClientRtspHeaderParse e rc line rest).eTransport = (rc.names line rest).getD rc.eTransport := by
  have track := headerCommon_setupTrack e rc line rest
  unfold rtspdClientRtspHeaderParse
  simp only [headerCommon_method]
  split
  · rename_i hm
    rw [names_none rc line rest (by rw [hm]; rintro ⟨⟩)]
    split <;> exact headerCommon_eTransport e rc line rest
  · rename_i hm
    split
    · rename_i hn
      rw [hn] at track
      have none_ : rc.names line rest = none := if_neg fun h => by rw [← track] at h; cases h.2
      rw [none_]
      exact headerCommon_eTransport e rc line rest
    · rename_i rc' hs
      rw [hs] at track
      have tr := (setupTrack_tracks _ hs).2
      rw [headerCommon_eTransport] at tr
      have named : rc.names line rest = namedBy line rest := if_pos ⟨hm, track.symm⟩
      rw [named, namedBy]
      split
      · rw [(transportHeader_tracks rc' _).2, tr]
      · exact tr
  · rename_i hm
    rw [names_none rc line rest hm]
    exact headerCommon_eTransport e rc line rest

end transport

namespace RtspSlot

/-- A sender is in `case ENX_RTSP_STATE_PLAY`. -/
def Inside (s : RtspSlot) : Prop := (∃ p, .body p ∈ s.tcp) ∨ ∃ p, s.udp = .body p

/-- Nothing is set up, and the UDP task is not at the slot and will not serve it. -/
def Idle (s : RtspSlot) : Prop := s.rc.playQuery = strtypeNone ∧ s.udp = .away ∧ s.rc.state ≠ .play

/-- No header line changes the transport of a session that is set up or served, no `TEARDOWN`
frees the block while a sender is in its iteration, and the UDP task has left the slot when the
next client gets it. -/
def Calm (s : RtspSlot) : SlotEvent → Prop
  | .rtsp .line => ∀ e text line rest, s.pc = .lines e text → cut crlf text = some (line, rest) →
      ∀ tr ∈ s.rc.names line rest, tr = s.rc.eTransport ∨ s.Idle
  | .rtsp .free => ¬ s.Inside
  | .accept => s.udp = .away
  | _ => True

def Ended (s : RtspSlot) : Prop := ¬ s.rc.state.Lively ∨ s.pc = .closed

/-- No sender is left. -/
def Alone (s : RtspSlot) : Prop := s.rc.playQuery = strtypeNone ∧ s.tcp = [] ∧ ∀ p, s.udp ≠ .body p

/-- A `SETUP` that will be answered 200. -/
def Admitted (s : RtspSlot) : Prop :=
  s.rc.rtpSs.isSome ∧ s.rc.setupQuery = strtypeVideo ∧ (s.rc.eTransport = .udp ∨ s.rc.eTransport = .tcp)

/-- What holds where the RTSP task stands. -/
def Stands (s : RtspSlot) : RtspPc → Prop
  | .test _ | .load _ | .store _ _ => s.Admitted
  | .create _ => s.Admitted ∧ s.rc.eTransport = .tcp ∧ s.rc.playQuery = strtypeNone
  | .free _ | .wait => ¬ s.rc.state.Lively
  | .null _ => ¬ s.rc.state.Lively ∧ s.freed = true
  | .close | .zero => ¬ s.rc.state.Lively ∧ s.Alone
  | .closeNull => (¬ s.rc.state.Lively ∧ s.Alone) ∧ s.freed = true
  | .closed => s.Alone ∧ s.rc.state = .none
  | _ => True

/-- One transport, one sender; a block that is freed is out of every sender's reach. -/
structure Live (s : RtspSlot) : Prop where
  fault : s.fault = false
  one : s.tcp.length ≤ 1
  tcp : s.tcp ≠ [] → s.rc.eTransport = .tcp ∧ s.udp = .away
  udp : s.udp ≠ .away → s.rc.eTransport = .udp ∨ s.pc = .closed
  query : s.tcp ≠ [] → s.rc.playQuery ≠ strtypeNone ∨ s.pc.Storing
  torn : s.udp = .clear → s.Ended
  play : s.rc.eTransport = .udp → s.rc.state = .play → s.rc.playQuery ≠ strtypeNone
  serves : ∀ p, s.udp = .body p → s.rc.playQuery ≠ strtypeNone
  block : s.rc.rtpSs = none → s.freed = false → s.rc.playQuery = strtypeNone ∧ s.rc.state ≠ .play
  inside : s.Inside → s.freed = false ∧ s.rc.rtpSs.isSome
  freed : s.freed = true → s.Ended
  stands : s.Stands s.pc

variable {s t : RtspSlot}

theorem Ended.not_play (h : s.Ended) (i : Live s) : s.rc.state ≠ .play := by
  rcases h with h | h
  · intro hp
    exact h (hp ▸ by decide)
  · have stands := i.stands
    rw [h] at stands
    rw [stands.2]
    decide

section rtsp

variable {rc : RtspClient} {pc : RtspPc}

/-- A step of the RTSP task that keeps the transport, `play_query` and the senders. -/
theorem Live.moves (i : Live s) (open_ : s.pc ≠ .closed) (storing : s.pc.Storing → pc.Storing)
    (query : rc.playQuery = s.rc.playQuery) (tr : rc.eTransport = s.rc.eTransport)
    (lively : rc.state.Lively → s.rc.state.Lively)
    (play : rc.state = .play → s.rc.state = .play ∨ s.rc.playQuery ≠ strtypeNone)
    (block : s.rc.rtpSs.isSome → rc.rtpSs.isSome) (stands : Stands { s with rc, pc } pc) :
    Live { s with rc, pc } where
  fault := i.fault
  one := i.one
  tcp := by
    rw [tr]
    exact i.tcp
  udp ha := .inl (tr.trans ((i.udp ha).resolve_right open_))
  query ht := by
    rw [query]
    exact (i.query ht).imp id storing
  torn hc := .inl fun h => (i.torn hc).resolve_right open_ (lively h)
  play hu hp := by
    rw [query]
    exact (play hp).elim (i.play (tr ▸ hu)) id
  serves p hp := by
    rw [query]
    exact i.serves p hp
  block hn hf := by
    have fresh : s.rc.rtpSs = none := by
      cases hs : s.rc.rtpSs with
      | none => rfl
      | some ss =>
        have some := block (by rw [hs]; rfl)
        rw [hn] at some
        cases some
    obtain ⟨hq, hp⟩ := i.block fresh hf
    exact ⟨query.trans hq, fun h => (play h).elim hp fun h => h hq⟩
  inside hi := (i.inside hi).imp id block
  freed hf := .inl fun h => (i.freed hf).resolve_right open_ (lively h)
  stands := stands

/-- A header line may name the other transport when nothing is set up. -/
theorem Live.renamed (i : Live s) (hp : s.pc = .lines e text) (idle : s.Idle) (spares : Spares s.rc rc) :
    Live { s with rc, pc := .lines e rest } := by
  obtain ⟨hq, away, still⟩ := idle
  have none_ : s.tcp = [] := by
    by_contra ht
    rcases i.query ht with h | h
    · exact h hq
    · rw [hp] at h
      exact h
  have open_ : s.pc ≠ .closed := by
    rw [hp]
    nofun
  refine
    { fault := i.fault, one := i.one, tcp := fun ht => absurd none_ ht, udp := fun ha => absurd away ha
      query := fun ht => absurd none_ ht, torn := fun hc => ?_, play := fun _ h => ?_
      serves := fun p h => ?_, block := fun hn hf => ?_, inside := fun hi => ?_
      freed := fun hf => .inl fun h => ?_, stands := trivial }
  · have hc : s.udp = .clear := hc
    rw [away] at hc
    cases hc
  · exact absurd (spares.state.symm.trans h) still
  · have h : s.udp = .body p := h
    rw [away] at h
    cases h
  · exact ⟨spares.playQuery.trans hq, fun h => still (spares.state.symm.trans h)⟩
  · rw [spares.rtpSs]
    exact i.inside hi
  · exact (i.freed hf).resolve_right open_ (spares.state ▸ h)

theorem Live.create (i : Live s) (hp : s.pc = .create reply) :
    Live { s with tcp := s.tcp ++ [.top], pc := .load reply } := by
  have stands := i.stands
  rw [hp] at stands
  obtain ⟨admitted, tr, hq⟩ := stands
  have none_ : s.tcp = [] := by
    by_contra ht
    rcases i.query ht with h | h
    · exact h hq
    · rw [hp] at h
      exact h
  have away : s.udp = .away := by
    by_contra ha
    rcases i.udp ha with h | h
    · rw [tr] at h
      cases h
    · rw [hp] at h
      cases h
  have shut : ¬ s.Inside := by
    rintro (⟨p, h⟩ | ⟨p, h⟩)
    · rw [none_] at h
      cases h
    · rw [away] at h
      cases h
  have open_ : s.pc ≠ .closed := by
    rw [hp]
    nofun
  refine
    { i with
      one := by rw [none_]; exact le_rfl
      tcp := fun _ => ⟨tr, away⟩
      udp := fun ha => absurd away ha
      query := fun _ => .inr trivial
      torn := fun hc => .inl ((i.torn hc).resolve_right open_)
      inside := fun hi => ?_
      freed := fun hf => .inl ((i.freed hf).resolve_right open_)
      stands := admitted }
  rcases hi with ⟨p, h⟩ | ⟨p, h⟩
  · rw [none_, List.nil_append, List.mem_singleton] at h
    cases h
  · exact absurd (.inr ⟨p, h⟩) shut

theorem tested_fields (rc : RtspClient) :
    rc.tested.playQuery = rc.playQuery ∧ rc.tested.eTransport = rc.eTransport ∧
      rc.tested.state = rc.state ∧ rc.tested.setupQuery = rc.setupQuery := by
  unfold RtspClient.tested
  split <;> exact ⟨rfl, rfl, rfl, rfl⟩

theorem stored_fields (rc : RtspClient) (loaded : Nat) :
    (rc.stored loaded).playQuery = loaded ||| rc.setupQuery ∧
      (rc.stored loaded).eTransport = rc.eTransport ∧ (rc.stored loaded).state = rc.state ∧
      (rc.stored loaded).rtpSs.isSome = rc.rtpSs.isSome := by
  refine ⟨?_, ?_, ?_, ?_⟩
  · unfold RtspClient.stored
    split <;> rfl
  · unfold RtspClient.stored
    split <;> rfl
  · unfold RtspClient.stored
    split <;> rfl
  · rw [← buffers_isSome, stored_buffers, buffers_isSome]

theorem Live.store (i : Live s) (hp : s.pc = .store loaded reply) :
    Live { s with rc := s.rc.stored loaded, pc := .write reply } := by
  have stands := i.stands
  rw [hp] at stands
  obtain ⟨block, query, _⟩ := stands
  obtain ⟨stored, tr, state, some⟩ := stored_fields s.rc loaded
  have ne : (s.rc.stored loaded).playQuery ≠ strtypeNone := by
    rw [stored, query]
    exact fun h => absurd (Nat.or_eq_zero_iff.mp h).2 (by decide)
  have open_ : s.pc ≠ .closed := by
    rw [hp]
    nofun
  have ended (h : s.Ended) : ¬ (s.rc.stored loaded).state.Lively := by
    rw [state]
    exact h.resolve_right open_
  refine
    { i with
      tcp := by rw [tr]; exact i.tcp
      udp := fun ha => .inl (tr.trans ((i.udp ha).resolve_right open_))
      query := fun _ => .inl ne
      torn := fun hc => .inl (ended (i.torn hc))
      play := fun _ _ => ne
      serves := fun _ _ => ne
      block := fun hn => ?_
      inside := fun hi => ?_
      freed := fun hf => .inl (ended (i.freed hf))
      stands := trivial }
  · rw [← some, hn] at block
    cases block
  · rw [some]
    exact i.inside hi

/-- The block is freed while no sender is inside. -/
theorem Live.frees (i : Live s) (out : ¬ s.Inside) (over_ : ¬ s.rc.state.Lively) (open_ : s.pc ≠ .closed)
    (storing : ¬ s.pc.Storing) (stands : Stands { s with freed := true, pc } pc) :
    Live { s with freed := true, pc } :=
  { i with
    udp := fun ha => .inl ((i.udp ha).resolve_right open_)
    query := fun ht => .inl ((i.query ht).resolve_right storing)
    torn := fun _ => .inl over_
    block := fun _ h => by cases h
    inside := fun hi => absurd hi out
    freed := fun _ => .inl over_
    stands := stands }

theorem Live.nulls (i : Live s) (freed : s.freed = true) (over_ : ¬ s.rc.state.Lively)
    (open_ : s.pc ≠ .closed) (storing : ¬ s.pc.Storing) (stands : Stands { s with rc := s.rc.freeSs, pc } pc) :
    Live { s with rc := s.rc.freeSs, pc } :=
  { i with
    udp := fun ha => .inl ((i.udp ha).resolve_right open_)
    query := fun ht => .inl ((i.query ht).resolve_right storing)
    torn := fun _ => .inl over_
    block := fun _ h => by rw [freed] at h; cases h
    inside := fun hi => by
      have kept := (i.inside hi).1
      rw [freed] at kept
      cases kept
    freed := fun _ => .inl over_
    stands := stands }

theorem Live.zero (i : Live s) (alone : s.Alone) :
    Live { s with rc := RtspClient.zero, pc := .closed } := by
  obtain ⟨hq, none_, out⟩ := alone
  refine
    { i with
      tcp := fun ht => absurd none_ ht
      udp := fun _ => .inr rfl
      query := fun ht => absurd none_ ht
      torn := fun _ => .inr rfl
      play := fun _ h => by cases h
      serves := fun p h => absurd h (out p)
      block := fun _ _ => ⟨rfl, nofun⟩
      inside := fun hi => ?_
      freed := fun _ => .inr rfl
      stands := ⟨⟨rfl, none_, out⟩, rfl⟩ }
  rcases hi with ⟨p, h⟩ | ⟨p, h⟩
  · have h : TcpPc.body p ∈ s.tcp := h
    rw [none_] at h
    cases h
  · exact absurd h (out p)

theorem Live.rtsp (i : Live s) (ok : s.Calm (.rtsp l)) (h : RtspStep s l t) : Live t := by
  have still {pc : RtspPc} (storing : s.pc.Storing → pc.Storing) (hc : s.pc ≠ .closed)
      (stands : Stands { s with pc } pc) : Live { s with pc } :=
    i.moves hc storing rfl rfl id .inl id stands
  have stands := i.stands
  cases h with
  | @unread buf rc e hp hl hr =>
    obtain ⟨spares, _, tr⟩ := requestLine_spec s.rc (cstr buf)
    rw [hr] at spares tr
    refine i.moves (by rw [hp]; nofun) (by rw [hp]; exact id) spares.playQuery tr
      (spares.state ▸ id) (fun h => .inl (spares.state.symm.trans h)) (spares.rtpSs ▸ id) trivial
  | @request buf rc text e hp hl hr =>
    obtain ⟨spares, _, tr⟩ := requestLine_spec s.rc (cstr buf)
    rw [hr] at spares tr
    exact i.moves (by rw [hp]; nofun) (by rw [hp]; exact id) spares.playQuery tr
      (spares.state ▸ id) (fun h => .inl (spares.state.symm.trans h)) (spares.rtpSs ▸ id) trivial
  | @line e text line rest hp hc =>
    have spares := headerParse_reads e s.rc line rest
    have kept : (rtspdClientRtspHeaderParse e s.rc line rest).eTransport = s.rc.eTransport ∨ s.Idle := by
      rw [headerParse_names]
      cases hn : s.rc.names line rest with
      | none => exact .inl rfl
      | some tr => exact ok e text line rest hp hc tr hn
    rcases kept with tr | idle
    · exact i.moves (by rw [hp]; nofun) (by rw [hp]; exact id) spares.playQuery tr
        (spares.state ▸ id) (fun h => .inl (spares.state.symm.trans h)) (spares.rtpSs ▸ id) trivial
    · exact i.renamed hp idle spares
  | blank hp hc => exact still (by rw [hp]; exact id) (by rw [hp]; nofun) trivial
  | @respond e hp =>
    have spec := respond_spec e s.rc
    suffices answered : Live { s with rc := (s.rc.respond e).1, pc := (s.rc.respond e).2 } from
      { answered with }
    refine i.moves (by rw [hp]; nofun) (by rw [hp]; exact False.elim) spec.playQuery spec.eTransport
      spec.lively spec.play spec.block.isSome ?_
    rcases spec.goes with ⟨reply, h, _, admitted⟩ | ⟨reply, h, torn⟩ | ⟨reply, h⟩ | h <;> rw [h]
    · exact admitted
    · exact fun h => h.1 torn
    · trivial
    · trivial
  | @test reply hp =>
    rw [hp] at stands
    have fields := tested_fields s.rc
    have some : s.rc.tested.rtpSs.isSome = s.rc.rtpSs.isSome := by
      rw [← buffers_isSome, tested_buffers, buffers_isSome]
    have admitted : Admitted { s with rc := s.rc.tested } := by
      refine ⟨some.trans stands.1, fields.2.2.2.trans stands.2.1, ?_⟩
      change s.rc.tested.eTransport = _ ∨ s.rc.tested.eTransport = _
      rw [fields.2.1]
      exact stands.2.2
    refine i.moves (by rw [hp]; nofun) (by rw [hp]; exact False.elim) fields.1 fields.2.1
      (fields.2.2.1 ▸ id) (fun h => .inl (fields.2.2.1.symm.trans h)) (some ▸ id) ?_
    split
    · rename_i spawns
      rw [RtspClient.spawns, Bool.and_eq_true, decide_eq_true_eq, decide_eq_true_eq] at spawns
      exact ⟨admitted, fields.2.1.trans spawns.1, fields.1.trans spawns.2⟩
    · exact admitted
  | create hp => exact i.create hp
  | load hp =>
    rw [hp] at stands
    exact still (fun _ => trivial) (by rw [hp]; nofun) stands
  | store hp => exact i.store hp
  | free hp hs =>
    rw [hp] at stands
    exact i.frees ok stands (by rw [hp]; nofun) (by rw [hp]; exact id) ⟨stands, rfl⟩
  | freeNone hp hs => exact still (by rw [hp]; exact False.elim) (by rw [hp]; nofun) trivial
  | null hp =>
    rw [hp] at stands
    exact i.nulls stands.2 stands.1 (by rw [hp]; nofun) (by rw [hp]; exact id) trivial
  | write hp ho hn =>
    have written : Live { s with pc := .recv } := still (by rw [hp]; exact False.elim) (by rw [hp]; nofun) trivial
    exact { written with }
  | leave hp =>
    exact i.moves (by rw [hp]; nofun) (by rw [hp]; exact False.elim) rfl rfl (fun h => absurd rfl h.1)
      nofun id fun h => h.1 rfl
  | done hp hq =>
    rw [hp] at stands
    refine still (by rw [hp]; exact False.elim) (by rw [hp]; nofun) ⟨stands, hq, ?_, fun p h => ?_⟩
    · by_contra ht
      rcases i.query ht with h | h
      · exact h hq
      · rw [hp] at h
        exact h
    · exact i.serves p h hq
  | closeFree hp hs =>
    rw [hp] at stands
    obtain ⟨over_, alone⟩ := stands
    refine i.frees ?_ over_ (by rw [hp]; nofun) (by rw [hp]; exact id) ⟨⟨over_, alone⟩, rfl⟩
    rintro (⟨p, h⟩ | ⟨p, h⟩)
    · rw [alone.2.1] at h
      cases h
    · exact alone.2.2 p h
  | closeNone hp hs =>
    rw [hp] at stands
    exact still (by rw [hp]; exact False.elim) (by rw [hp]; nofun) stands
  | closeNull hp =>
    rw [hp] at stands
    exact i.nulls stands.2 stands.1.1 (by rw [hp]; nofun) (by rw [hp]; exact id) stands.1
  | zero hp =>
    rw [hp] at stands
    exact i.zero stands.2

end rtsp

end RtspSlot

namespace Sends

variable {s t : RtspSlot}

theorem inside (h : Sends s t) : t.Inside ↔ s.Inside := by
  rw [RtspSlot.Inside, RtspSlot.Inside, h.tcp, h.udp]

theorem not_lively (h : Sends s t) (hl : ¬ s.rc.state.Lively) : ¬ t.rc.state.Lively := by
  rcases h.state with same | err
  · rwa [same]
  · rw [err]
    decide

theorem play (h : Sends s t) (hp : t.rc.state = .play) : s.rc.state = .play := by
  rcases h.state with same | err
  · exact same ▸ hp
  · rw [err] at hp
    cases hp

theorem alone (h : Sends s t) : t.Alone ↔ s.Alone := by
  rw [RtspSlot.Alone, RtspSlot.Alone, h.playQuery, h.tcp, h.udp]

theorem admitted (h : Sends s t) : t.Admitted ↔ s.Admitted := by
  rw [RtspSlot.Admitted, RtspSlot.Admitted, h.block, h.setupQuery, h.eTransport]

theorem stands (h : Sends s t) (hc : s.pc ≠ .closed) (hs : s.Stands s.pc) : t.Stands t.pc := by
  rw [h.pc]
  generalize s.pc = pc at hc hs
  cases pc with
  | test => exact h.admitted.mpr hs
  | load => exact h.admitted.mpr hs
  | store => exact h.admitted.mpr hs
  | create => exact ⟨h.admitted.mpr hs.1, h.eTransport.trans hs.2.1, h.playQuery.trans hs.2.2⟩
  | free => exact h.not_lively hs
  | wait => exact h.not_lively hs
  | null => exact ⟨h.not_lively hs.1, h.freed.trans hs.2⟩
  | close => exact ⟨h.not_lively hs.1, h.alone.mpr hs.2⟩
  | zero => exact ⟨h.not_lively hs.1, h.alone.mpr hs.2⟩
  | closeNull => exact ⟨⟨h.not_lively hs.1.1, h.alone.mpr hs.1.2⟩, h.freed.trans hs.2⟩
  | closed => exact absurd rfl hc
  | recv => trivial
  | lines => trivial
  | respond => trivial
  | write => trivial
  | hung => trivial

end Sends

namespace RtspSlot

variable {s t : RtspSlot}

section senders

/-- What a sender does inside keeps the slot in order. -/
theorem Live.sends (i : Live s) (h : Sends s t) (hi : s.Inside) : Live t := by
  obtain ⟨kept, some⟩ := i.inside hi
  have open_ : s.pc ≠ .closed := by
    intro hc
    have stands := i.stands
    rw [hc] at stands
    rcases hi with ⟨p, h⟩ | ⟨p, h⟩
    · rw [stands.1.2.1] at h
      cases h
    · exact stands.1.2.2 p h
  have ended (h' : s.Ended) : t.Ended := .inl (h.not_lively (h'.resolve_right open_))
  refine
    { fault := ?_, one := h.tcp ▸ i.one, tcp := ?_, udp := ?_, query := ?_
      torn := fun hc => ended (i.torn (h.udp ▸ hc)), play := fun hu hp => ?_, serves := ?_
      block := fun hn => ?_, inside := fun _ => ?_, freed := fun hf => ended (i.freed (h.freed ▸ hf))
      stands := h.stands open_ i.stands }
  · refine Bool.eq_false_iff.mpr fun hf => ?_
    rcases h.fault hf with h | h
    · rw [i.fault] at h
      cases h
    · rw [kept] at h
      cases h
  · rw [h.tcp, h.eTransport, h.udp]
    exact i.tcp
  · rw [h.udp, h.eTransport, h.pc]
    exact i.udp
  · rw [h.tcp, h.playQuery, h.pc]
    exact i.query
  · rw [h.playQuery]
    exact i.play (h.eTransport ▸ hu) (h.play hp)
  · rw [h.udp, h.playQuery]
    exact i.serves
  · have block := h.block.trans some
    rw [hn] at block
    cases block
  · exact ⟨h.freed.trans kept, h.block.trans some⟩

variable {p' : TcpPc} {u : UdpPc}

theorem Live.single (i : Live s) (h : s.tcp = l ++ p :: r) : l = [] ∧ r = [] ∧ s.tcp = [p] := by
  have one := i.one
  rw [h, List.length_append, List.length_cons] at one
  have left : l = [] := List.length_eq_zero_iff.mp (by omega)
  have right : r = [] := List.length_eq_zero_iff.mp (by omega)
  subst left right
  exact ⟨rfl, rfl, h⟩

/-- With a task there the RTSP task is not closing. -/
theorem Live.stands_tcp (i : Live s) (h : s.tcp = [p]) (rc : RtspClient) (ts : List TcpPc)
    (same : s.rc.rtpSs = rc.rtpSs ∧ s.rc.setupQuery = rc.setupQuery ∧ s.rc.eTransport = rc.eTransport ∧
      s.rc.state = rc.state) (query : rc.playQuery = s.rc.playQuery ∨ rc.playQuery = strtypeNone) :
    Stands { s with rc, tcp := ts } s.pc := by
  obtain ⟨block, setup, tr, state⟩ := same
  have gone (a : s.Alone) : False := by
    have none_ := a.2.1
    rw [h] at none_
    cases none_
  have admitted (a : s.Admitted) : Admitted { s with rc, tcp := ts } := by
    rw [Admitted, block, setup, tr] at a
    exact a
  have over_ (hl : ¬ s.rc.state.Lively) : ¬ rc.state.Lively := state ▸ hl
  have hs := i.stands
  generalize s.pc = pc at hs
  cases pc with
  | test => exact admitted hs
  | load => exact admitted hs
  | store => exact admitted hs
  | create =>
    refine ⟨admitted hs.1, tr ▸ hs.2.1, ?_⟩
    rcases query with h | h
    · exact h.trans hs.2.2
    · exact h
  | free => exact over_ hs
  | wait => exact over_ hs
  | null => exact ⟨over_ hs.1, hs.2⟩
  | close => exact (gone hs.2).elim
  | zero => exact (gone hs.2).elim
  | closeNull => exact (gone hs.1.2).elim
  | closed => exact (gone hs.1).elim
  | recv => trivial
  | lines => trivial
  | respond => trivial
  | write => trivial
  | hung => trivial

theorem Live.setTcp (i : Live s) (h : s.tcp = [p])
    (inside : ∀ q, p' = .body q → s.freed = false ∧ s.rc.rtpSs.isSome) : Live { s with tcp := [p'] } := by
  have ne : s.tcp ≠ [] := by
    rw [h]
    exact List.cons_ne_nil _ _
  refine
    { i with
      one := le_rfl
      tcp := fun _ => i.tcp ne
      query := fun _ => i.query ne
      inside := fun hi => ?_
      stands := i.stands_tcp h s.rc _ ⟨rfl, rfl, rfl, rfl⟩ (.inl rfl) }
  rcases hi with ⟨q, hq⟩ | ⟨q, hq⟩
  · exact inside q (List.mem_singleton.mp hq).symm
  · exact i.inside (.inr ⟨q, hq⟩)

theorem Live.exit (i : Live s) (h : s.tcp = [p]) :
    Live { s with rc := { s.rc with playQuery := 0 }, tcp := [] } := by
  have ne : s.tcp ≠ [] := by
    rw [h]
    exact List.cons_ne_nil _ _
  obtain ⟨tr, away⟩ := i.tcp ne
  refine
    { i with
      one := Nat.zero_le 1
      tcp := fun h => absurd rfl h
      query := fun h => absurd rfl h
      play := fun hu => ?_
      serves := fun q hq => ?_
      block := fun hn hf => ⟨rfl, (i.block hn hf).2⟩
      inside := fun hi => ?_
      stands := i.stands_tcp h _ _ ⟨rfl, rfl, rfl, rfl⟩ (.inr rfl) }
  · have hu : s.rc.eTransport = .udp := hu
    rw [tr] at hu
    cases hu
  · have hq : s.udp = .body q := hq
    rw [away] at hq
    cases hq
  · rcases hi with ⟨q, hq⟩ | ⟨q, hq⟩
    · cases hq
    · have hq : s.udp = .body q := hq
      rw [away] at hq
      cases hq

theorem Live.tcpStep (i : Live s) (h : s.tcp = l ++ p :: r) (st : TcpStep s p e t o) :
    Live { t with tcp := l ++ o.toList ++ r } := by
  obtain ⟨rfl, rfl, single⟩ := i.single h
  cases st with
  | leave => exact i.setTcp single nofun
  | play hp =>
    refine i.setTcp single fun _ _ => ?_
    have kept : s.freed = false := Bool.eq_false_iff.mpr fun hf => (i.freed hf).not_play i hp
    refine ⟨kept, Option.isSome_iff_ne_none.mpr fun hn => (i.block hn kept).2 hp⟩
  | idle => exact i.setTcp single nofun
  | @body q _ _ a st =>
    have hi : s.Inside := .inl ⟨q, by rw [single]; exact List.mem_singleton_self _⟩
    have sends := st.sends
    have live := i.sends sends hi
    exact live.setTcp (sends.tcp.trans single) fun _ _ => live.inside (sends.inside.mpr hi)
  | exit => exact i.exit single

theorem Live.setUdp (i : Live s) (away : u ≠ .away → s.rc.eTransport = .udp ∨ s.pc = .closed)
    (none_ : u ≠ .away → s.tcp = []) (torn : u = .clear → s.Ended)
    (serves : ∀ q, u = .body q → s.rc.playQuery ≠ strtypeNone ∧ s.freed = false ∧ s.rc.rtpSs.isSome) :
    Live { s with udp := u } := by
  have alone (a : s.Alone) : Alone { s with udp := u } :=
    ⟨a.1, a.2.1, fun q hq => (serves q hq).1 a.1⟩
  refine
    { i with
      tcp := fun ht => ⟨(i.tcp ht).1, by_contra fun h => ht (none_ h)⟩
      udp := away
      torn := torn
      serves := fun q hq => (serves q hq).1
      inside := fun hi => ?_
      stands := ?_ }
  · rcases hi with h | ⟨q, hq⟩
    · exact i.inside (.inl h)
    · exact (serves q hq).2
  · have hs := i.stands
    change Stands { s with udp := u } s.pc
    generalize s.pc = pc at hs
    cases pc with
    | close => exact ⟨hs.1, alone hs.2⟩
    | zero => exact ⟨hs.1, alone hs.2⟩
    | closeNull => exact ⟨⟨hs.1.1, alone hs.1.2⟩, hs.2⟩
    | closed => exact ⟨alone hs.1, hs.2⟩
    | _ => exact hs

theorem Live.no_tcp (i : Live s) (h : s.udp ≠ .away) : s.tcp = [] :=
  by_contra fun ht => h (i.tcp ht).2

theorem Live.cleared (i : Live s) (h : s.udp = .clear) :
    Live { s with rc := { s.rc with playQuery := 0 }, udp := .away } := by
  have busy : s.udp ≠ .away := by
    rw [h]
    nofun
  have none_ := i.no_tcp busy
  have ended := i.torn h
  refine
    { i with
      tcp := fun ht => absurd none_ ht
      udp := fun ha => absurd rfl ha
      query := fun ht => absurd none_ ht
      torn := nofun
      play := fun _ hp => absurd hp (ended.not_play i)
      serves := nofun
      block := fun hn hf => ⟨rfl, (i.block hn hf).2⟩
      inside := fun hi => ?_
      stands := ?_ }
  · rcases hi with ⟨q, hq⟩ | ⟨q, hq⟩
    · have hq : TcpPc.body q ∈ s.tcp := hq
      rw [none_] at hq
      cases hq
    · cases hq
  · have alone : Alone { s with rc := { s.rc with playQuery := 0 }, udp := .away } := ⟨rfl, none_, nofun⟩
    have hs := i.stands
    change Stands { s with rc := { s.rc with playQuery := 0 }, udp := .away } s.pc
    generalize s.pc = pc at hs
    cases pc with
    | create => exact ⟨hs.1, hs.2.1, rfl⟩
    | close => exact ⟨hs.1, alone⟩
    | zero => exact ⟨hs.1, alone⟩
    | closeNull => exact ⟨⟨hs.1.1, alone⟩, hs.2⟩
    | closed => exact ⟨alone, hs.2⟩
    | _ => exact hs

theorem Live.udpStep (i : Live s) (st : UdpStep s p e t u) (hp : s.udp = p) : Live { t with udp := u } := by
  cases st with
  | enter tr =>
    refine i.setUdp (fun _ => .inl tr) (fun _ => by_contra fun ht => ?_) nofun nofun
    have tcp := (i.tcp ht).1
    rw [tr] at tcp
    cases tcp
  | pass => exact i.setUdp (fun h => absurd rfl h) (fun h => absurd rfl h) nofun nofun
  | play hs =>
    have busy : s.udp ≠ .away := by
      rw [hp]
      nofun
    have tr : s.rc.eTransport = .udp := by
      refine (i.udp busy).resolve_right fun hc => ?_
      exact Ended.not_play (.inr hc) i hs
    have kept : s.freed = false := Bool.eq_false_iff.mpr fun hf => (i.freed hf).not_play i hs
    refine i.setUdp (fun _ => .inl tr) (fun _ => i.no_tcp busy) nofun fun _ _ => ?_
    exact ⟨i.play tr hs, kept, Option.isSome_iff_ne_none.mpr fun hn => (i.block hn kept).2 hs⟩
  | torn hs =>
    have busy : s.udp ≠ .away := by
      rw [hp]
      nofun
    exact i.setUdp (fun _ => i.udp busy) (fun _ => i.no_tcp busy)
      (fun _ => .inl fun h => h.1 hs) nofun
  | idle => exact i.setUdp (fun h => absurd rfl h) (fun h => absurd rfl h) nofun nofun
  | @body q _ _ a st =>
    have hi : s.Inside := .inr ⟨q, hp⟩
    have sends := st.sends
    have live := i.sends sends hi
    have same : t.udp = .body q := sends.udp.trans hp
    have busy : t.udp ≠ .away := by
      rw [same]
      nofun
    refine live.setUdp (fun _ => live.udp busy) (fun _ => live.no_tcp busy) (fun h => ?_) fun _ _ => ?_
    · cases a <;> cases h
    · exact ⟨live.serves q same, live.inside (sends.inside.mpr hi)⟩
  | clear => exact i.cleared hp

end senders

theorem Fresh.live (f : s.Fresh mode) (none_ : s.tcp = []) (away : s.udp = .away)
    (fault : s.fault = false) : Live s := by
  obtain ⟨index, clientid, addr, hrc⟩ := f.rc
  refine
    { fault, one := by rw [none_]; exact Nat.zero_le 1, tcp := fun h => absurd none_ h
      udp := fun h => absurd away h, query := fun h => absurd none_ h
      torn := fun h => by rw [away] at h; cases h
      play := fun _ h => by rw [hrc] at h; cases h
      serves := fun p h => by rw [away] at h; cases h
      block := fun _ _ => by rw [hrc]; exact ⟨rfl, nofun⟩
      inside := fun hi => ?_
      freed := fun h => by rw [f.freed] at h; cases h
      stands := by rw [f.pc]; trivial }
  rcases hi with ⟨p, h⟩ | ⟨p, h⟩
  · rw [none_] at h
    cases h
  · rw [away] at h
    cases h

theorem Live.frame (i : Live s) (d : RtpQueueData) (videoType : RtspStream) :
    Live { s with rc := rtpQueueStreamVideoPut d videoType s.rc } := by
  unfold rtpQueueStreamVideoPut
  split
  · have hs := i.stands
    refine { i with stands := ?_ }
    change Stands { s with rc := _ } s.pc
    generalize s.pc = pc at hs
    cases pc <;> exact hs
  · exact i

theorem calm_inductive (mode : RtspdAuth) : (slot mode).Inductive Calm Live where
  init h := h.1.live h.2.1 h.2.2.1 h.2.2.2
  step i ok h := by
    cases h with
    | rtsp h => exact i.rtsp ok h
    | tcp hl h => exact i.tcpStep hl h
    | udp h => exact i.udpStep h rfl
    | frame => exact i.frame _ _
    | accept hp fresh ht hu hf =>
      have stands := i.stands
      rw [hp] at stands
      exact fresh.live (ht.trans stands.1.2.1) (hu.trans ok) (hf.trans i.fault)

/-- In runs of such steps nothing is read or written in a freed block. -/
theorem no_use_after_free (mode : RtspdAuth) (s : RtspSlot) (r : Reach (slot mode) Calm s) :
    s.fault = false :=
  ((calm_inductive mode).reach r).fault

section sample

theorem allows_idle {s : RtspSlot} (e : Env) (buf : List UInt8) (idle : s.Idle) : Allows Calm s e buf := by
  refine ⟨trivial, fun rc text h _ _ _ _ _ _ _ _ _ => .inr ?_, trivial, fun _ => trivial,
    fun _ _ _ _ => trivial⟩
  exact ⟨h.playQuery.trans idle.1, idle.2.1, fun hp => idle.2.2 (h.state.symm.trans hp)⟩

theorem allows_method {s : RtspSlot} (e : Env) (buf : List UInt8)
    (hm : (rtspdClientRtspMethodParse e s.rc buf).2.method ≠ .setup) : Allows Calm s e buf := by
  refine ⟨trivial, fun rc text _ method e' text' line rest hp hc tr hn => ?_, trivial,
    fun _ => trivial, fun _ _ _ _ => trivial⟩
  rw [names_none rc line rest (method ▸ hm)] at hn
  cases hn

theorem samplePlays_calm : Reach (slot .none) Calm samplePlays := by
  have setUp := sampleAdmitted_reach
    (allows_idle (sampleEnv .none) optionsText ⟨by decide +kernel, rfl, by decide +kernel⟩)
    (allows_idle (sampleEnv .none) setupText ⟨by decide +kernel, rfl, by decide +kernel⟩)
  exact samplePlays_reach setUp (allows_method (sampleEnv .none) playText (by decide +kernel))

theorem no_use_after_free_inside : ∃ s, Reach (slot .none) Calm s ∧ s.Inside ∧ s.fault = false := by
  have inside := sampleInside_reach samplePlays_calm fun _ => trivial
  exact ⟨_, inside, .inl ⟨.pack, List.mem_singleton_self _⟩, no_use_after_free .none _ inside⟩

def teardownText : List UInt8 := ascii "TEARDOWN rtsp://h/s RTSP/1.0\r\nCSeq: 5\r\nSession: 9\r\n\r\n"

def frees : RtspPc → Bool
  | .free _ => true
  | _ => false

/-- The block is freed and the sender goes on. -/
theorem reach_fault {mode : RtspdAuth} {s : RtspSlot} (r : Reach (slot mode) Lts.any s)
    (hf : frees s.pc = true) (hs : s.rc.rtpSs.isSome) (one : s.tcp = [.body .pack])
    (packs : (rtspdClientRtpVideoPlay mem s.rc).isSome = true) :
    ∃ t, Reach (slot mode) Lts.any t ∧ t.fault = true := by
  cases hp : s.pc with
  | free reply =>
    have free : SlotStep mode s (.rtsp .free) { s with freed := true, pc := .null reply } :=
      .rtsp (.free hp hs)
    have freed : Reach (slot mode) Lts.any _ := r.step trivial free
    obtain ⟨⟨res, rc⟩, h⟩ := Option.isSome_iff_exists.mp packs
    have packed := reach_tcp freed one (.body (.pack h)) trivial
    exact ⟨_, packed, Bool.or_true _⟩
  | _ =>
    rw [hp] at hf
    cases hf

/-- The client tears its session down while the sender is about to call `video_play`. -/
theorem use_after_free : ¬ ∀ s, Reach (slot .none) Lts.any s → s.fault = false := by
  intro all
  have plays := samplePlays_reach (sampleAdmitted_reach (allows_any _ _ _) (allows_any _ _ _))
    (allows_any _ _ _)
  have inside := sampleInside_reach plays fun _ => trivial
  have asks : Steps (slot .none) Lts.any sampleInside (sampleInside.asked (sampleEnv .none) teardownText) :=
    asked_steps rfl (by decide +kernel) (by decide +kernel) trivial (fun _ _ _ _ => trivial) trivial
  have packs : (rtspdClientRtpVideoPlay (fun _ => 0)
      (sampleInside.asked (sampleEnv .none) teardownText).rc).isSome = true := by decide +kernel
  obtain ⟨t, r, fault⟩ := reach_fault (inside.steps asks) (by decide +kernel)
    (by decide +kernel) rfl packs
  rw [all t r] at fault
  cases fault

end sample

end RtspSlot

end En675.Rtsp
