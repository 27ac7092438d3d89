import En675.Rtsp.Delivery
import En675.Rtsp.Playing

/-! One client slot and the tasks that work on it: `rtspd_client_main`, the
`rtspd_client_rtp_main` it creates for TCP, and `rtspd_client_udp_rtp_main`, which visits
every slot.  A step is what a task does between two looks at what another one can change. -/

namespace En675.Rtsp

open Lib

/-- Where `rtspd_client_main` stands; the texts are replies that are to be written. -/
inductive RtspPc
  | recv
  | lines (e : Env) (text : List UInt8)
  | respond (e : Env)
  /-- The test of `eTransport` and `play_query` behind the 200 of a `SETUP`. -/
  | test (reply : List UInt8)
  | create (reply : List UInt8)
  | load (reply : List UInt8)
  | store (loaded : Nat) (reply : List UInt8)
  /-- Behind the 200 of a `TEARDOWN`. -/
  | free (reply : List UInt8)
  | null (reply : List UInt8)
  | write (reply : List UInt8)
  | hung
  /-- The wait for `play_query == 0`. -/
  | wait
  | close
  | closeNull
  | zero
  | closed

/-- Where a sender stands in `case ENX_RTSP_STATE_PLAY`; from `look` on it holds the result
of `video_play`, of which it asks only whether it is -1. -/
inductive SendPc
  | check
  | grab
  | pack
  | look (failed : Bool)
  | select (failed : Bool)
  | peek (failed : Bool)
  | put (failed : Bool)
  | count (n : Nat) (failed : Bool)

inductive TcpPc
  | top
  | body (p : SendPc)
  | spin
  | exit

inductive UdpPc
  | away
  | switch
  | body (p : SendPc)
  | spin
  | clear

/-- One `lwip_send` on the socket of the session: what it was given and how much it took. -/
structure Put where
  unit : List UInt8
  n : Nat

structure RtspSlot where
  rc : RtspClient
  pc : RtspPc
  writeSize : Nat
  tcp : List TcpPc
  udp : UdpPc
  /-- The block of `rtp_ss` has been passed to `vPortFree`. -/
  freed : Bool
  /-- A task has read or written through a pointer to a block that was freed. -/
  fault : Bool
  puts : List Put

namespace RtspSlot

/-- A read or a write in the block of `rtp_ss`. -/
def touch (s : RtspSlot) : RtspSlot := { s with fault := s.fault || s.freed }

/-- What `rtspd_client_write` is given: the reply, or where none was built the first `write_size`
octets of whatever the buffer holds. -/
def Output (s : RtspSlot) (reply out : List UInt8) : Prop :=
  if reply = [] then out.length = s.writeSize else out = reply

/-- What the current buffer holds, as far as the block can be read. -/
def Current (s : RtspSlot) (unit : List UInt8) : Prop :=
  s.freed = false → ∀ ss, s.rc.rtpSs = some ss → unit = ss.video.buffer ss.video.bufIdx

end RtspSlot

section rtsp

/-- What `rtspd_client_main` goes on with behind a handler. -/
def Answer.next (a : Answer) : RtspPc := if a.hangs then .hung else .write a.reply

namespace RtspClient

/-- `rtspd_client_rtsp_process_setup` up to the point where it looks at `play_query`. -/
def respondSetup (e : Env) (rc : RtspClient) : RtspClient × RtspPc :=
  match rtspdClientRtspState rc .setup with
  | (false, rc) => ((rc.setupRefused e).rc, (rc.setupRefused e).next)
  | (true, rc) =>
    match rc.setupAdmit e with
    | .inl a => (a.rc, a.next)
    | .inr (rc, reply) => (rc, .test reply)

/-- `rtspd_client_rtsp_process_teardown` up to the point where it frees the block. -/
def respondTeardown (e : Env) (rc : RtspClient) : RtspClient × RtspPc :=
  let a := processPlain e .teardown [] rc
  (a.rc, if stateAllows .teardown rc.state then .free a.reply else a.next)

/-- The answer to a request that has been read. -/
def respond (e : Env) (rc : RtspClient) : RtspClient × RtspPc :=
  if rc.admitted then
    match rc.checked e with
    | .inl a => (a.rc, a.next)
    | .inr rc =>
      match rc.method with
      | .setup => rc.respondSetup e
      | .teardown => rc.respondTeardown e
      | _ => ((processMethod e rc).rc, (processMethod e rc).next)
  else ((rc.unauthorized e).rc, (rc.unauthorized e).next)

/-- `tx_ready` is stored before the test for TCP and behind `play_query` for UDP. -/
def tested (rc : RtspClient) : RtspClient := if rc.eTransport = .udp then rc else rc.markReady

def stored (rc : RtspClient) (loaded : Nat) : RtspClient :=
  if rc.eTransport = .udp then (rc.storeQuery loaded).markReady else rc.storeQuery loaded

/-- `packet_cnt++` and `total_length += send_len`. -/
def counted (rc : RtspClient) (n : Nat) : RtspClient :=
  { rc with rtpSs := rc.rtpSs.map fun ss =>
      { ss with video :=
          { ss.video with packetCnt := uadd ss.video.packetCnt 1
                          totalLength := uadd ss.video.totalLength n } } }

end RtspClient

end rtsp

section sender

inductive After
  | goto (p : SendPc)
  | spin
  /-- The iteration is over. -/
  | done
  /-- The iteration ended with `res == -1`. -/
  | failed

def finish (failed : Bool) : After := if failed then .failed else .done

def After.tcp : After → TcpPc
  | .goto p => .body p
  | .spin => .spin
  | .done => .top
  | .failed => .exit

/-- The UDP task does not look at `res`. -/
def After.udp : After → UdpPc
  | .goto p => .body p
  | .spin => .spin
  | .done | .failed => .away

/-- What a step of a sender finds out. -/
inductive SendEvent
  | go
  | pack (mem : Mem)
  | ready
  | late
  | broken
  | put (unit : List UInt8) (n : Nat)
  | refused
  /-- `errCount` passes 30. -/
  | giveUp
  /-- The store of `play_query = 0`. -/
  | clear

/-- One step in `case ENX_RTSP_STATE_PLAY`, audio left out. -/
inductive SendStep (sender : Sender) (s : RtspSlot) : SendPc → SendEvent → RtspSlot → After → Prop
  | null : s.rc.rtpSs = none → SendStep sender s .check .go s .spin
  | check : s.rc.rtpSs.isSome → SendStep sender s .check .go s (.goto .grab)
  | grab : SendStep sender s .grab .go s (.goto .pack)
  | packNull : s.rc.rtpSs = none → SendStep sender s .pack (.pack mem) s .spin
  | pack : rtspdClientRtpVideoPlay mem s.rc = some (res, rc) →
      SendStep sender s .pack (.pack mem) { s.touch with rc } (.goto (.look (res == -1)))
  | empty : (∀ ss, s.rc.rtpSs = some ss → ss.video.bufLen = 0) →
      SendStep sender s (.look f) .go s.touch (finish f)
  | full : (∀ ss, s.rc.rtpSs = some ss → ss.video.bufLen ≠ 0) →
      SendStep sender s (.look f) .go s.touch (.goto (.select f))
  | ready : SendStep sender s (.select f) .ready s (.goto (.peek f))
  /-- Timeout or `EINTR`: the packet is dropped. -/
  | late : SendStep sender s (.select f) .late s (finish f)
  | broken : SendStep sender s (.select f) .broken s .failed
  | peekNull : s.rc.rtpSs = none → SendStep sender s (.peek f) .go s .spin
  /-- The check of the length in `rtspd_client_rtp_tcp_send` ends in `while(1)`. -/
  | long : s.rc.rtpSs = some ss → sender = .tcp → tcpMss < ss.video.bufLen →
      SendStep sender s (.peek f) .go s.touch .spin
  | peek : s.rc.rtpSs = some ss → (sender = .tcp → ss.video.bufLen ≤ tcpMss) →
      SendStep sender s (.peek f) .go s.touch (.goto (.put f))
  | put : sender = .tcp → s.Current unit → n ≤ unit.length →
      SendStep sender s (.put f) (.put unit n) { s.touch with puts := s.puts ++ [⟨unit, n⟩] }
        (if n = 0 then finish f else .goto (.count n f))
  | datagram : sender = .udp → s.Current unit → n ≤ unit.length →
      SendStep sender s (.put f) (.put unit n) s.touch (if n = 0 then finish f else .goto (.count n f))
  | refused : SendStep sender s (.put f) .refused s.touch .failed
  | giveUp : sender = .udp →
      SendStep sender s (.put f) .giveUp { s.touch with rc := { s.rc with state := .error } } .failed
  | count : SendStep sender s (.count n f) .go { s.touch with rc := s.rc.counted n } (finish f)

/-- The states on which `rtspd_client_rtp_main` leaves its loop. -/
def RtspClientState.ends : RtspClientState → Bool
  | .none | .options | .describe | .teardown | .error => true
  | _ => false

/-- A step of a task of `rtspd_client_rtp_main`; the last one ends it. -/
inductive TcpStep (s : RtspSlot) : TcpPc → SendEvent → RtspSlot → Option TcpPc → Prop
  | leave : s.rc.state.ends = true → TcpStep s .top .go s (some .exit)
  | play : s.rc.state = .play → TcpStep s .top .go s (some (.body .check))
  | idle : s.rc.state.ends = false → s.rc.state ≠ .play → TcpStep s .top .go s (some .top)
  | body : SendStep .tcp s p e t a → TcpStep s (.body p) e t (some a.tcp)
  | exit : TcpStep s .exit .clear { s with rc := { s.rc with playQuery := 0 } } none

/-- A step of `rtspd_client_udp_rtp_main` on its way past the slot. -/
inductive UdpStep (s : RtspSlot) : UdpPc → SendEvent → RtspSlot → UdpPc → Prop
  | enter : s.rc.eTransport = .udp → UdpStep s .away .go s .switch
  | pass : s.rc.eTransport ≠ .udp → UdpStep s .away .go s .away
  | play : s.rc.state = .play → UdpStep s .switch .go s (.body .check)
  | torn : s.rc.state = .teardown → UdpStep s .switch .go s .clear
  | idle : s.rc.state ≠ .play → s.rc.state ≠ .teardown → UdpStep s .switch .go s .away
  | body : SendStep .udp s p e t a → UdpStep s (.body p) e t a.udp
  | clear : UdpStep s .clear .clear { s with rc := { s.rc with playQuery := 0 } } .away

end sender

inductive RtspEvent
  | request (e : Env) (buf : List UInt8)
  | line
  | respond
  | setup
  | free
  | null
  | write (out : List UInt8) (n : Nat)
  /-- The state is `TEARDOWN` or `ERROR`, the timeout is over, or the read failed. -/
  | leave
  | close

inductive RtspStep (s : RtspSlot) : RtspEvent → RtspSlot → Prop
  | unread : s.pc = .recv → s.rc.state.Lively → s.rc.requestLine (cstr buf) = (rc, none) →
      RtspStep s (.request e buf) { s with rc, pc := .write [] }
  | request : s.pc = .recv → s.rc.state.Lively → s.rc.requestLine (cstr buf) = (rc, some text) →
      RtspStep s (.request e buf) { s with rc, pc := .lines e text }
  | line : s.pc = .lines e text → cut crlf text = some (line, rest) →
      RtspStep s .line { s with rc := rtspdClientRtspHeaderParse e s.rc line rest, pc := .lines e rest }
  | blank : s.pc = .lines e text → cut crlf text = none → RtspStep s .line { s with pc := .respond e }
  | respond : s.pc = .respond e →
      RtspStep s .respond { s with rc := (s.rc.respond e).1, pc := (s.rc.respond e).2, writeSize := 0 }
  | test : s.pc = .test reply → RtspStep s .setup
      { s with rc := s.rc.tested, pc := if s.rc.spawns then .create reply else .load reply }
  | create : s.pc = .create reply → RtspStep s .setup { s with tcp := s.tcp ++ [.top], pc := .load reply }
  | load : s.pc = .load reply → RtspStep s .setup { s with pc := .store s.rc.playQuery reply }
  | store : s.pc = .store loaded reply →
      RtspStep s .setup { s with rc := s.rc.stored loaded, pc := .write reply }
  | free : s.pc = .free reply → s.rc.rtpSs.isSome →
      RtspStep s .free { s with freed := true, pc := .null reply }
  | freeNone : s.pc = .free reply → s.rc.rtpSs = none → RtspStep s .free { s with pc := .write reply }
  | null : s.pc = .null reply → RtspStep s .null { s with rc := s.rc.freeSs, pc := .write reply }
  | write : s.pc = .write reply → s.Output reply out → n ≤ out.length →
      RtspStep s (.write out n)
        { s with pc := .recv
                 writeSize := if reply = [] then s.writeSize else reply.length
                 puts := s.puts ++ [⟨out, n⟩] }
  | leave : s.pc = .recv →
      RtspStep s .leave { s with rc := { s.rc with state := .teardown }, pc := .wait }
  | done : s.pc = .wait → s.rc.playQuery = 0 → RtspStep s .close { s with pc := .close }
  | closeFree : s.pc = .close → s.rc.rtpSs.isSome →
      RtspStep s .close { s with freed := true, pc := .closeNull }
  | closeNone : s.pc = .close → s.rc.rtpSs = none → RtspStep s .close { s with pc := .zero }
  | closeNull : s.pc = .closeNull → RtspStep s .close { s with rc := s.rc.freeSs, pc := .zero }
  | zero : s.pc = .zero → RtspStep s .close { s with rc := RtspClient.zero, pc := .closed }

inductive SlotEvent
  | rtsp (e : RtspEvent)
  | tcp (e : SendEvent)
  | udp (e : SendEvent)
  | frame (d : RtpQueueData) (videoType : RtspStream)
  | accept

/-- A slot that `rtspd_client_main` has just set up for a client; what `write_size` holds is not
known. -/
structure RtspSlot.Fresh (mode : RtspdAuth) (s : RtspSlot) : Prop where
  rc : ∃ index clientid addr, s.rc = Session.clientInit mode index clientid addr
  pc : s.pc = .recv
  freed : s.freed = false
  puts : s.puts = []

inductive SlotStep (mode : RtspdAuth) (s : RtspSlot) : SlotEvent → RtspSlot → Prop
  | rtsp : RtspStep s e t → SlotStep mode s (.rtsp e) t
  | tcp : s.tcp = l ++ p :: r → TcpStep s p e t p' →
      SlotStep mode s (.tcp e) { t with tcp := l ++ p'.toList ++ r }
  | udp : UdpStep s s.udp e t p → SlotStep mode s (.udp e) { t with udp := p }
  | frame : SlotStep mode s (.frame d videoType)
      { s with rc := rtpQueueStreamVideoPut d videoType s.rc }
  /-- The next client gets the slot. -/
  | accept : s.pc = .closed → t.Fresh mode → t.tcp = s.tcp → t.udp = s.udp → t.fault = s.fault →
      SlotStep mode s .accept t

def slot (mode : RtspdAuth) : Lts RtspSlot SlotEvent where
  init s := s.Fresh mode ∧ s.tcp = [] ∧ s.udp = .away ∧ s.fault = false
  step := SlotStep mode

end En675.Rtsp
