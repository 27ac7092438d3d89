import En675.Rtsp.Server
import En675.Rtsp.SlotRuns

/-! The RTCP task beside the slots: `rtspd_client_udp_read` finds the slot that a datagram is
credited to, and `rtspd_client_main` closes a session that nothing has come from.  The search and
the store of `lastTime` are one step. -/

namespace En675.Rtsp

open Lib

/-- `RTSP_TIMEOUT`. -/
def rtspTimeout : Nat := 60

/-- A task serves the session: it has not left its loop. -/
def RtspPc.isOpen : RtspPc → Bool
  | .wait | .close | .closeNull | .zero | .closed => false
  | _ => true

/-- A slot with what the RTCP task looks at. -/
structure Peer where
  slot : RtspSlot
  valid : Bool
  clientAddr : Nat
  lastTime : Nat
  /-- The RTCP ports of the tracks, as agreed on by a `SETUP` over UDP that was answered 200. -/
  agreed : Fin 2 → Option Nat
  /-- `UPTIME` when an octet or a datagram of the session last arrived. -/
  heard : Option Nat

namespace Peer

variable (p : Peer) (uptime : Nat)

/-- `memset`; the tasks of the senders go on. -/
def cleared (slot : RtspSlot) : Peer := ⟨slot, false, 0, 0, fun _ => none, none⟩

/-- `rtspd_socket_client_new` fills the slot. -/
def accepted (addr : Nat) : Peer := { cleared p.slot with valid := true, clientAddr := addr }

def touched : Peer := { p with lastTime := uptime % 2 ^ 32 }

/-- Octets have been read from the socket. -/
def read : Peer := { p.touched uptime with heard := some uptime }

def withSlot (slot : RtspSlot) : Peer := { p with slot := slot }

/-- The 200 to a `SETUP`. -/
def agree : Peer :=
  { p with agreed := fun j =>
      if p.slot.rc.nQuery = j then
        if p.slot.rc.eTransport = .udp then some (p.slot.rc.connInfo.rtcpPort j) else none
      else p.agreed j }

/-- After a step of the tasks of the slot. -/
def moved (e : SlotEvent) (t : RtspSlot) : Peer :=
  match e, t.pc with
  | .rtsp (.request _ _), _ => (p.withSlot t).read uptime
  | .rtsp .respond, .test _ => (p.withSlot t).agree
  | .rtsp .close, .closed => cleared t
  | _, _ => p.withSlot t

/-- `lastTime + RTSP_TIMEOUT < UPTIME`. -/
def TimedOut : Prop := uadd p.lastTime rtspTimeout < uptime

/-- The tests that `rtspd_client_udp_read` makes. -/
def Holds (addr port : Nat) : Prop :=
  p.clientAddr = addr ∧ ∃ j, p.slot.rc.connInfo.rtcpPort j = port

instance (addr port : Nat) : Decidable (p.Holds addr port) := inferInstanceAs (Decidable (_ ∧ _))

/-- The datagram is from the client of an open UDP session, and from an RTCP port agreed on. -/
def Owns (addr port : Nat) : Prop :=
  p.slot.pc.isOpen = true ∧ p.slot.rc.connInfo.rtpType = .udp ∧ p.clientAddr = addr ∧
    ∃ j, p.agreed j = some port

instance (addr port : Nat) : Decidable (p.Owns addr port) := inferInstanceAs (Decidable (_ ∧ _))

end Peer

structure Rtcpd where
  peer : Slot → Peer
  uptime : Nat
  /-- The RTCP task has not left its loop. -/
  running : Bool
  /-- Of every datagram, the sessions that it is from and the slot that was credited. -/
  credits : List (List Slot × Option Slot)
  /-- Of every session closed as timed out, when it was last heard of, and `UPTIME`. -/
  timeouts : List (Option Nat × Nat)

inductive RtcpEvent
  | tick
  | accept (addr : Nat)
  | start (i : Slot)
  /-- Octets that do not complete a request. -/
  | bytes (i : Slot)
  | slot (i : Slot) (e : SlotEvent)
  | timeout (i : Slot)
  | datagram (addr port : Nat) (data : List UInt8)

namespace Rtcpd

variable (s : Rtcpd)

def set (i : Slot) (p : Peer) : Rtcpd := { s with peer := Function.update s.peer i p }

@[simp] theorem set_self (i : Slot) (p : Peer) : (s.set i p).peer i = p := Function.update_self _ _ _

theorem set_of_ne {k i : Slot} (h : k ≠ i) (p : Peer) : (s.set i p).peer k = s.peer k :=
  Function.update_of_ne h _ _

/-- The slot that `rtspd_socket_client_new` takes. -/
def free : Option Slot := (List.finRange rtspInfoMax).find? fun i => !(s.peer i).valid

/-- `*prcRef` of `rtspd_client_udp_read`. -/
def udpRead (addr port : Nat) : Option Slot :=
  (List.finRange rtspInfoMax).find? fun i => (s.peer i).Holds addr port

def owners (addr port : Nat) : List Slot :=
  (List.finRange rtspInfoMax).filter fun i => (s.peer i).Owns addr port

/-- The datagram arrives: the sessions that it is from are heard of. -/
def hear (addr port : Nat) : Rtcpd :=
  { s with peer := fun i =>
      if (s.peer i).Owns addr port then { s.peer i with heard := some s.uptime } else s.peer i }

/-- `prcRef->lastTime = gptMsgShare.UPTIME`. -/
def credit : Option Slot → Rtcpd
  | none => s
  | some i => s.set i ((s.peer i).touched s.uptime)

/-- A turn of `rtspd_client_udp_rtcp_main` with a datagram; `lwip_recvfrom` cuts it to 4096 octets
and gives their number. -/
def udpRtcpMain (addr port : Nat) (data : List UInt8) : Rtcpd × Option Slot :=
  if s.running then
    if min data.length 4096 = 0 then ({ s with running := false }, none)
    else (s.credit (s.udpRead addr port), s.udpRead addr port)
  else (s, none)

def datagram (addr port : Nat) (data : List UInt8) : Rtcpd :=
  let (t, credited) := (s.hear addr port).udpRtcpMain addr port data
  { t with credits := s.credits ++ [(s.owners addr port, credited)] }

/-- Whether `client_count` admits a connection is left open. -/
inductive Step (mode : RtspdAuth) (s : Rtcpd) : RtcpEvent → Rtcpd → Prop
  | tick : Step mode s .tick { s with uptime := s.uptime + 1 }
  | accept : s.free = some i → Step mode s (.accept addr) (s.set i ((s.peer i).accepted addr))
  | start : (s.peer i).valid = true → SlotStep mode (s.peer i).slot .accept t →
      Step mode s (.start i) (s.set i (((s.peer i).withSlot t).touched s.uptime))
  | bytes : (s.peer i).slot.pc = .recv → (s.peer i).slot.rc.state.Lively →
      Step mode s (.bytes i) (s.set i ((s.peer i).read s.uptime))
  | slot : SlotStep mode (s.peer i).slot e t → e ≠ .accept →
      Step mode s (.slot i e) (s.set i ((s.peer i).moved s.uptime e t))
  | timeout : (s.peer i).slot.rc.state.Lively → (s.peer i).TimedOut s.uptime →
      RtspStep (s.peer i).slot .leave t →
      Step mode s (.timeout i)
        { s.set i ((s.peer i).withSlot t) with
            timeouts := s.timeouts ++ [((s.peer i).heard, s.uptime)] }
  | datagram : Step mode s (.datagram addr port data) (s.datagram addr port data)

end Rtcpd

/-- From the `memset` of `rtspd_socket_server` on. -/
def rtcpd (mode : RtspdAuth) : Lts Rtcpd RtcpEvent where
  init s := (∀ i, ∃ slot : RtspSlot, s.peer i = .cleared slot ∧ slot.pc = .closed ∧ slot.rc = .zero ∧
      slot.tcp = [] ∧ slot.udp = .away ∧ slot.fault = false) ∧
    s.running = true ∧ s.credits = [] ∧ s.timeouts = []
  step := Rtcpd.Step mode

namespace Rtcpd

/-- Every datagram of an open UDP session has been credited to that session, the task that does so
is there, and no session heard of within the timeout was closed for it. -/
structure Credited (s : Rtcpd) : Prop where
  running : s.running = true
  credits : ∀ c ∈ s.credits, ∀ i ∈ c.1, c.2 = some i
  timeouts : ∀ c ∈ s.timeouts, ∀ t, c.1 = some t → t + rtspTimeout < c.2

/-- The condition: a datagram is not empty, and the slot of a session that it is from is the first
to hold its source; `lastTime + RTSP_TIMEOUT` does not wrap. -/
def Sole (s : Rtcpd) : RtcpEvent → Prop
  | .datagram addr port data =>
    data ≠ [] ∧ ∀ i, (s.peer i).Owns addr port →
      (s.peer i).Holds addr port ∧ ∀ k < i, ¬ (s.peer k).Holds addr port
  | .timeout _ => s.uptime + rtspTimeout < 2 ^ 32
  | _ => True

section search

variable {s : Rtcpd} {i : Slot} {addr port : Nat}

@[simp] theorem mem_owners : i ∈ s.owners addr port ↔ (s.peer i).Owns addr port := by
  simp [owners]

theorem udpRead_eq_some :
    s.udpRead addr port = some i ↔
      (s.peer i).Holds addr port ∧ ∀ k < i, ¬ (s.peer k).Holds addr port := by
  rw [udpRead, List.find?_eq_some_iff_getElem]
  simp only [decide_eq_true_eq, List.getElem_finRange, List.length_finRange, Bool.not_eq_eq_eq_not,
    Bool.not_true, decide_eq_false_iff_not]
  constructor
  · rintro ⟨holds, n, hn, rfl, before⟩
    exact ⟨holds, fun k hk => before k hk⟩
  · rintro ⟨holds, before⟩
    exact ⟨holds, i, i.2, rfl, fun k hk => before ⟨k, hk.trans i.2⟩ hk⟩

end search

section invariant

variable {s t : Rtcpd} {mode : RtspdAuth} {e : RtcpEvent}

/-- `lastTime` is from a time at which the session had been heard of. -/
def Fresh (p : Peer) (uptime : Nat) : Prop :=
  ∀ t, p.heard = some t → ∃ u, p.lastTime = u % 2 ^ 32 ∧ t ≤ u ∧ u ≤ uptime

theorem Fresh.later (h : Fresh p n) (le : n ≤ m) : Fresh p m := by
  intro t ht
  obtain ⟨u, last, before, now⟩ := h t ht
  exact ⟨u, last, before, now.trans le⟩

theorem fresh_cleared (slot : RtspSlot) (n : Nat) : Fresh (.cleared slot) n := nofun

theorem fresh_accepted (p : Peer) (addr n : Nat) : Fresh (p.accepted addr) n :=
  fresh_cleared p.slot n

theorem Fresh.withSlot (h : Fresh p n) (slot : RtspSlot) : Fresh (p.withSlot slot) n := h

theorem Fresh.touched (h : Fresh p n) : Fresh (p.touched n) n := by
  intro t ht
  obtain ⟨u, _, before, now⟩ := h t ht
  exact ⟨n, rfl, before.trans now, le_rfl⟩

theorem fresh_read (p : Peer) (n : Nat) : Fresh (p.read n) n :=
  fun _ ht => ⟨n, rfl, (Option.some.inj ht).ge, le_rfl⟩

theorem Fresh.moved (h : Fresh p n) (e : SlotEvent) (t : RtspSlot) : Fresh (p.moved n e t) n := by
  unfold Peer.moved
  split
  · exact fresh_read _ n
  · exact h
  · exact fresh_cleared t n
  · exact h

/-- A session that times out has not been heard of for that long. -/
theorem Fresh.timedOut {t : Nat} (h : Fresh p n) (bound : n + rtspTimeout < 2 ^ 32) (out : p.TimedOut n)
    (ht : p.heard = some t) : t + rtspTimeout < n := by
  obtain ⟨u, last, before, now⟩ := h t ht
  have low : u + rtspTimeout < 2 ^ 32 := by omega
  have same : uadd p.lastTime rtspTimeout = u + rtspTimeout := by
    rw [last, uadd, Nat.mod_eq_of_lt (show u < 2 ^ 32 by omega), Nat.mod_eq_of_lt low]
  rw [Peer.TimedOut, same] at out
  omega

/-- The invariant. -/
structure Tracks (s : Rtcpd) : Prop where
  fresh : ∀ i, Fresh (s.peer i) s.uptime
  credited : s.Credited

theorem Tracks.set (h : s.Tracks) {p : Peer} (fresh : Fresh p s.uptime) (i : Slot) : (s.set i p).Tracks := by
  refine ⟨fun k => ?_, ⟨h.credited.running, h.credited.credits, h.credited.timeouts⟩⟩
  by_cases hk : k = i
  · rw [hk, set_self]
    exact fresh
  · rw [set_of_ne s hk]
    exact h.fresh k

/-- A datagram is credited to the first slot that holds its source, and to no other. -/
theorem udpRtcpMain_credits (running : s.running = true) (some_ : data ≠ []) :
    s.udpRtcpMain addr port data = (s.credit (s.udpRead addr port), s.udpRead addr port) := by
  have long : min data.length 4096 ≠ 0 := by
    have := List.length_pos_iff.2 some_
    omega
  simp only [udpRtcpMain, running, if_true, if_neg long]

theorem holds_hear (addr' port' : Nat) (i : Slot) :
    ((s.hear addr port).peer i).Holds addr' port' ↔ (s.peer i).Holds addr' port' := by
  simp only [hear]
  split <;> exact Iff.rfl

theorem udpRead_hear : (s.hear addr port).udpRead addr port = s.udpRead addr port := by
  simp only [udpRead, holds_hear]

/-- A session that a datagram is from is the one credited, so none is heard of without. -/
theorem fresh_datagram (fresh : ∀ i, Fresh (s.peer i) s.uptime)
    (sole : ∀ i, (s.peer i).Owns addr port → s.udpRead addr port = some i) (i : Slot) :
    Fresh (((s.hear addr port).credit (s.udpRead addr port)).peer i) s.uptime := by
  have other (no : ¬ (s.peer i).Owns addr port) : (s.hear addr port).peer i = s.peer i := if_neg no
  cases found : s.udpRead addr port with
  | none =>
    have no : ¬ (s.peer i).Owns addr port := fun owns => nomatch found.symm.trans (sole i owns)
    exact (other no).symm ▸ fresh i
  | some k =>
    rw [credit]
    by_cases hi : i = k
    · rw [hi, set_self]
      by_cases owns : (s.peer k).Owns addr port
      · have heard : (s.hear addr port).peer k = { s.peer k with heard := some s.uptime } := if_pos owns
        rw [heard]
        exact fresh_read (s.peer k) s.uptime
      · rw [show (s.hear addr port).peer k = s.peer k from if_neg owns]
        exact (fresh k).touched
    · rw [set_of_ne _ hi]
      have no : ¬ (s.peer i).Owns addr port := fun owns =>
        hi (Option.some.inj ((sole i owns).symm.trans found))
      exact (other no).symm ▸ fresh i

theorem credit_uptime (sought : Option Slot) : (s.credit sought).uptime = s.uptime := by
  cases sought <;> rfl

theorem credit_timeouts (sought : Option Slot) : (s.credit sought).timeouts = s.timeouts := by
  cases sought <;> rfl

theorem credit_running (sought : Option Slot) : (s.credit sought).running = s.running := by
  cases sought <;> rfl

theorem Tracks.datagram (h : s.Tracks) (some_ : data ≠ [])
    (sole : ∀ i, (s.peer i).Owns addr port →
      (s.peer i).Holds addr port ∧ ∀ k < i, ¬ (s.peer k).Holds addr port) :
    (s.datagram addr port data).Tracks := by
  have sole (i : Slot) (owns : (s.peer i).Owns addr port) : s.udpRead addr port = some i :=
    udpRead_eq_some.2 (sole i owns)
  have credited : (s.hear addr port).udpRtcpMain addr port data = _ :=
    udpRtcpMain_credits h.credited.running some_
  have stepped : s.datagram addr port data =
      { (s.hear addr port).credit (s.udpRead addr port) with
        credits := s.credits ++ [(s.owners addr port, s.udpRead addr port)] } := by
    rw [Rtcpd.datagram, credited, udpRead_hear]
  rw [stepped]
  refine ⟨fun i => ?_, ?_, fun c mem => ?_, ?_⟩
  · have fresh := fresh_datagram h.fresh sole i
    have uptime := credit_uptime (s := s.hear addr port) (s.udpRead addr port)
    exact uptime ▸ fresh
  · exact (credit_running _).trans h.credited.running
  · rcases List.mem_append.1 mem with old | new
    · exact h.credited.credits c old
    · obtain rfl := List.mem_singleton.1 new
      exact fun i owner => sole i (mem_owners.1 owner)
  · have timeouts := credit_timeouts (s := s.hear addr port) (s.udpRead addr port)
    exact timeouts.symm ▸ h.credited.timeouts

theorem Tracks.step (h : s.Tracks) (sole : s.Sole e) (hs : Step mode s e t) : t.Tracks := by
  cases hs with
  | tick =>
    exact ⟨fun i => (h.fresh i).later (Nat.le_succ _),
      h.credited.running, h.credited.credits, h.credited.timeouts⟩
  | accept => exact h.set (fresh_accepted _ _ _) _
  | start => exact h.set ((h.fresh _).withSlot _).touched _
  | bytes => exact h.set (fresh_read _ _) _
  | slot => exact h.set ((h.fresh _).moved _ _) _
  | timeout lively out left =>
    rename_i i u
    have kept := h.set ((h.fresh i).withSlot u) i
    refine ⟨kept.fresh, kept.credited.running, kept.credited.credits, fun c mem => ?_⟩
    rcases List.mem_append.1 mem with old | new
    · exact h.credited.timeouts c old
    · obtain rfl := List.mem_singleton.1 new
      exact fun t ht => (h.fresh i).timedOut sole out ht
  | datagram => exact h.datagram sole.1 sole.2

theorem tracks_inductive : (rtcpd mode).Inductive Sole Tracks where
  init start := by
    obtain ⟨slots, running, credits, timeouts⟩ := start
    refine ⟨fun i => ?_, running, fun c mem => ?_, fun c mem => ?_⟩
    · obtain ⟨slot, cleared, -⟩ := slots i
      exact cleared ▸ fresh_cleared slot _
    · rw [credits] at mem
      exact absurd mem List.not_mem_nil
    · rw [timeouts] at mem
      exact absurd mem List.not_mem_nil
  step h sole hs := h.step sole hs

end invariant

end Rtcpd

/-- Datagrams from first holders of their source are credited where they belong, and who is heard of
is not timed out. -/
theorem rtcp_credited (h : Reach (rtcpd mode) Rtcpd.Sole s) : s.Credited :=
  (Rtcpd.tracks_inductive.reach h).credited

section sample

open RtspSlot

/-- The tasks of a slot go on, neither closing it nor giving it to another client. -/
def Serves (_ : RtspSlot) (e : SlotEvent) : Prop := e ≠ .accept ∧ e ≠ .rtsp .close

theorem serving_moved (p : Peer) (n : Nat) {e : SlotEvent} {a : RtspSlot} (serves : Serves a e) (t : RtspSlot) :
    (p.moved n e t).slot = t ∧ (p.moved n e t).clientAddr = p.clientAddr := by
  unfold Peer.moved
  split
  · exact ⟨rfl, rfl⟩
  · exact ⟨rfl, rfl⟩
  · exact absurd rfl serves.2
  · exact ⟨rfl, rfl⟩

/-- Runs of one slot are runs of the server. -/
theorem reach_serves {i : Slot} {addr : Nat} (hs : Steps (slot mode) Serves a b) {x : Rtcpd}
    (r : Reach (rtcpd mode) Rtcpd.Sole x) (ha : (x.peer i).slot = a) (client : (x.peer i).clientAddr = addr) :
    ∃ y, Reach (rtcpd mode) Rtcpd.Sole y ∧ (y.peer i).slot = b ∧ (y.peer i).clientAddr = addr ∧
      (∀ k ≠ i, y.peer k = x.peer k) ∧ y.credits = x.credits ∧ y.running = x.running := by
  induction hs generalizing x with
  | refl => exact ⟨x, r, ha, client, fun _ _ => rfl, rfl, rfl⟩
  | @cons a e t b serves step _ ih =>
    obtain rfl := ha
    obtain ⟨slot, same⟩ := serving_moved (x.peer i) x.uptime serves t
    have sole : Rtcpd.Sole x (.slot i e) := trivial
    have reached : Reach (rtcpd mode) Rtcpd.Sole (x.set i ((x.peer i).moved x.uptime e t)) :=
      r.step sole (.slot step serves.1)
    have here := x.set_self i ((x.peer i).moved x.uptime e t)
    obtain ⟨y, hy, hslot, hclient, others, credits, running⟩ :=
      ih reached ((congrArg Peer.slot here).trans slot)
        ((congrArg Peer.clientAddr here).trans (same.trans client))
    exact ⟨y, hy, hslot, hclient, fun k hk => (others k hk).trans (x.set_of_ne hk _), credits, running⟩

theorem allows_serves (s : RtspSlot) (e : Env) (buf : List UInt8) : Allows Serves s e buf :=
  ⟨⟨nofun, nofun⟩, fun _ _ _ _ => ⟨nofun, nofun⟩, ⟨nofun, nofun⟩, fun _ => ⟨nofun, nofun⟩,
    fun _ _ _ _ => ⟨nofun, nofun⟩⟩

def vacant : RtspSlot := ⟨.zero, .closed, 0, [], .away, false, false, []⟩

def bootRtcpd : Rtcpd := ⟨fun _ => .cleared vacant, 0, true, [], []⟩

theorem bootRtcpd_init : (rtcpd mode).init bootRtcpd :=
  ⟨fun _ => ⟨vacant, rfl, rfl, rfl, rfl, rfl, rfl⟩, rfl, rfl, rfl⟩

def udpText : List UInt8 := ascii
  "SETUP rtsp://h/s/video RTSP/1.0\r\nTransport: RTP/AVP;unicast;client_port=5000-5001\r\n\r\n"

/-- The client with its video being set up over UDP. -/
def sampleUdp : RtspSlot := (sampleSlot.answered (sampleEnv .none) optionsText).asked (sampleEnv .none) udpText

/-- The answer to it is a 200. -/
theorem sampleUdp_agreed : RtspSlot.tests sampleUdp.pc = true ∧ sampleUdp.rc.nQuery = 0 ∧
    sampleUdp.rc.eTransport = .udp ∧ sampleUdp.rc.connInfo.rtpType = .udp ∧
    sampleUdp.rc.connInfo.rtcpPort 0 = 5001 := by
  decide +kernel

theorem moved_test (p : Peer) (n : Nat) {t : RtspSlot} (ht : RtspSlot.tests t.pc = true) :
    p.moved n (.rtsp .respond) t = (p.withSlot t).agree := by
  unfold Peer.moved
  cases hpc : t.pc with
  | test => rfl
  | _ => simp [hpc, RtspSlot.tests] at ht

theorem sampleUdp_owns {p : Peer} (client : p.clientAddr = addr) :
    ((p.withSlot sampleUdp).agree).Owns addr 5001 := by
  obtain ⟨test, query, transport, type, port⟩ := sampleUdp_agreed
  refine ⟨?_, type, client, 0, ?_⟩
  · change sampleUdp.pc.isOpen = true
    cases hpc : sampleUdp.pc with
    | test => rfl
    | _ => simp [hpc, RtspSlot.tests] at test
  · simp only [Peer.agree, Peer.withSlot, query, transport, port, Fin.val_zero, if_true]

def firstSlot : Slot := ⟨0, rtspInfoMax_pos⟩

/-- A client comes and sets up its video, and a datagram from its RTCP port is credited to it. -/
theorem rtcp_credited_udp : ∃ (s : Rtcpd) (c : List Slot × Option Slot),
    s.credits = [c] ∧ firstSlot ∈ c.1 ∧ s.Credited := by
  let met : Rtcpd := bootRtcpd.set firstSlot ((Peer.cleared vacant).accepted 7)
  let started : Rtcpd := met.set firstSlot (((met.peer firstSlot).withSlot sampleSlot).touched 0)
  have accepted : (rtcpd .none).step bootRtcpd (.accept 7) met := .accept (by decide)
  have fresh : SlotStep .none (met.peer firstSlot).slot .accept sampleSlot :=
    .accept rfl ⟨⟨0, 9, 0, rfl⟩, rfl, rfl, rfl⟩ rfl rfl rfl
  have start : (rtcpd .none).step met (.start firstSlot) started := .start rfl fresh
  have anew : Rtcpd.Sole bootRtcpd (.accept 7) := trivial
  have there : Rtcpd.Sole met (.start firstSlot) := trivial
  have r : Reach (rtcpd .none) Rtcpd.Sole started :=
    ((Reach.init bootRtcpd_init).step anew accepted).step there start
  have options : Steps (slot .none) Serves sampleSlot (sampleSlot.answered (sampleEnv .none) optionsText) :=
    answered_steps (allows_serves _ _ _) rfl (by decide) (by decide +kernel) (by decide +kernel)
  have setup : Steps (slot .none) Serves (sampleSlot.answered (sampleEnv .none) optionsText)
      ((sampleSlot.answered (sampleEnv .none) optionsText).parsed (sampleEnv .none) udpText) :=
    parsed_steps rfl (by decide +kernel) (by decide +kernel) ⟨nofun, nofun⟩ fun _ _ _ _ => ⟨nofun, nofun⟩
  obtain ⟨x, r, slot, client, others, credits, running⟩ :=
    reach_serves (i := firstSlot) (options.trans setup) r rfl (rfl : _ = 7)
  have answer : SlotStep .none (x.peer firstSlot).slot (.rtsp .respond) sampleUdp :=
    slot ▸ respond_step _ _ _
  have sole : Rtcpd.Sole x (.slot firstSlot (.rtsp .respond)) := trivial
  have agrees := r.step sole (.slot answer nofun)
  rw [moved_test _ _ sampleUdp_agreed.1] at agrees
  let y : Rtcpd := x.set firstSlot ((x.peer firstSlot).withSlot sampleUdp).agree
  have here : y.peer firstSlot = ((x.peer firstSlot).withSlot sampleUdp).agree := x.set_self _ _
  have owns : (y.peer firstSlot).Owns 7 5001 := here ▸ sampleUdp_owns client
  have holds : (y.peer firstSlot).Holds 7 5001 :=
    here ▸ ⟨client, 0, sampleUdp_agreed.2.2.2.2⟩
  have only (i : Slot) (hi : (y.peer i).Owns 7 5001) :
      (y.peer i).Holds 7 5001 ∧ ∀ k < i, ¬ (y.peer k).Holds 7 5001 := by
    by_cases first : i = firstSlot
    · exact first ▸ ⟨holds, fun k hk => absurd hk (Nat.not_lt_zero _)⟩
    · have empty : y.peer i = .cleared vacant :=
        calc y.peer i = x.peer i := x.set_of_ne first _
          _ = started.peer i := others i first
          _ = met.peer i := met.set_of_ne first _
          _ = .cleared vacant := bootRtcpd.set_of_ne first _
      rw [empty] at hi
      exact absurd hi.1 (by decide)
  have heard : Rtcpd.Sole y (.datagram 7 5001 [0x80]) := ⟨by decide, only⟩
  have none_ : y.credits = [] := credits
  let sought : Option Slot := ((y.hear 7 5001).udpRtcpMain 7 5001 [0x80]).2
  have one : (y.datagram 7 5001 [0x80]).credits = [(y.owners 7 5001, sought)] := by
    simp only [Rtcpd.datagram, none_, List.nil_append, sought]
  exact ⟨_, _, one, Rtcpd.mem_owners.2 owns, rtcp_credited (agrees.step heard .datagram)⟩

/-- An empty datagram ends the task. -/
theorem rtcp_ended : ¬ ∀ s, Reach (rtcpd .none) Lts.any s → s.Credited := by
  intro all
  have r : Reach (rtcpd .none) Lts.any (bootRtcpd.datagram 0 0 []) :=
    (Reach.init bootRtcpd_init).step trivial .datagram
  exact absurd (all _ r).running (by decide)

end sample

end En675.Rtsp
