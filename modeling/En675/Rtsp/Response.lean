import En675.Rtsp.Process

/-! Answering a request: the `rtspd_client_rtsp_process_*` handlers and the dispatch of
`rtspd_client_main`.  `SETUP` and `TEARDOWN` are cut where another task can come between
two accesses to the slot; the whole handlers put the pieces together. -/

namespace En675.Rtsp

open Lib

section text

inductive RtspStatus
  | s200 | s400 | s401 | s404 | s406 | s412 | s453 | s455 | s458 | s461 | s500 | s501
  deriving DecidableEq, Repr

def RtspStatus.text : RtspStatus → String
  | s200 => "200 OK"
  | s400 => "400 Bad Request"
  | s401 => "401 Unauthorized"
  | s404 => "404 Not Found"
  | s406 => "406 Not Acceptable"
  | s412 => "412 Precondition Failed"
  | s453 => "453 Not Enough Bandwidth"
  | s455 => "455 Method Not Valid in This State"
  | s458 => "458 Parameter Is Read-Only"
  | s461 => "461 Unsupported transport"
  | s500 => "500 Internal Server Error"
  | s501 => "501 Not Implemented"

def statusLine (status : RtspStatus) : List UInt8 :=
  ascii "RTSP/1.0 " ++ ascii status.text ++ crlf

def serverAgent : String := "Eyenix Network Camera System"

def strWeek : Fin 7 → String := ["Sun", "Mon", "Tue", "Wed", "Thu", "Fri", "Sat"].get

def strMonth : Fin 12 → String :=
  ["Jan", "Feb", "Mar", "Apr", "May", "Jun", "Jul", "Aug", "Sep", "Oct", "Nov", "Dec"].get

/-- `%02u` and `%04u`. -/
def padDec (width n : Nat) : List UInt8 := padLeft 48 width (dec n)

def rtspdClientRtspMakeDatetime (tm : Tm) : List UInt8 :=
  ascii "Date: " ++ ascii (strWeek tm.wday) ++ ascii ", " ++ ascii (strMonth tm.mon) ++ ascii " " ++
    padDec 2 tm.mday ++ ascii " " ++ padDec 4 tm.year ++ ascii " " ++ padDec 2 tm.hour ++
    ascii ":" ++ padDec 2 tm.min ++ ascii ":" ++ padDec 2 tm.sec ++ ascii " GMT" ++ crlf

/-- `ENX_RTSP_RESPONSE_HEAD`. -/
def RtspClient.head (rc : RtspClient) (status : RtspStatus) : List UInt8 :=
  statusLine status ++ ascii "CSeq: " ++ dec rc.nCSeq ++ crlf

/-- `ENX_RTSP_RESPONSE_HEAD_S`. -/
def RtspClient.headS (rc : RtspClient) (status : RtspStatus) : List UInt8 :=
  rc.head status ++ ascii "Session: " ++ dec rc.nSession ++ crlf

def RtspClient.headOf (rc : RtspClient) (status : RtspStatus) : List UInt8 :=
  if rc.nSession = 0 then rc.head status else rc.headS status

end text

/-- What a handler leaves: the slot, the text in `buf[0 .. buf_len)`, whether it created a
task for `rtspd_client_rtp_main`, and whether it is stuck in a `while (1)`. -/
structure Answer where
  rc : RtspClient
  reply : List UInt8
  spawn : Bool := false
  hangs : Bool := false

section error

/-- The statuses that leave the state alone. -/
def RtspStatus.keepsState : RtspStatus → Bool
  | s404 | s461 | s458 | s453 | s401 => true
  | _ => false

def rtspdClientRtspProcessError (e : Env) (rc : RtspClient) (status : RtspStatus) : Answer :=
  let rc := if status.keepsState then rc else (rtspdClientRtspState rc .error).2
  { rc, reply := rc.headOf status ++ rtspdClientRtspMakeDatetime e.tm ++ crlf }

end error

section handlers

/-- `OPTIONS`, `PAUSE`, `GET_PARAMETER` and the reply of `TEARDOWN`: a change of state, then 200
with `extra` or 400. -/
def processPlain (e : Env) (state : RtspClientState) (extra : List UInt8) (rc : RtspClient) : Answer :=
  match rtspdClientRtspState rc state with
  | (true, rc) =>
    { rc, reply := rc.headOf .s200 ++ extra ++ rtspdClientRtspMakeDatetime e.tm ++ crlf }
  | (false, rc) => rtspdClientRtspProcessError e rc .s400

def rtspdClientRtspProcessOptions (e : Env) : RtspClient → Answer :=
  processPlain e .options (ascii
    "Public: OPTIONS, DESCRIBE, PLAY, PAUSE, SETUP, TEARDOWN, SET_PARAMETER, GET_PARAMETER\r\n")

def rtspdClientRtspProcessPause (e : Env) : RtspClient → Answer := processPlain e .pause []

def rtspdClientRtspProcessGetParameter (e : Env) : RtspClient → Answer :=
  processPlain e .getParameter []

def rtspdClientRtspProcessSetParameter (e : Env) (rc : RtspClient) : Answer :=
  match rtspdClientRtspState rc .setParameter with
  | (true, rc) => rtspdClientRtspProcessError e rc .s458
  | (false, rc) => rtspdClientRtspProcessError e rc .s400

end handlers

section describe

/-- `strIP`: the host of the URL, up to 15 octets. -/
def sdpHost (e : Env) (url : List UInt8) : List UInt8 :=
  match cut (ascii "//") url with
  | none => []
  | some (_, s) =>
    match cut (ascii ":") s with
    | some (host, _) => host.take 15
    | none =>
      match cut (ascii "/") s with
      | some (host, _) => host.take 15
      | none => e.defaultIp

def sdpSession (host name url : List UInt8) : List UInt8 :=
  ascii "v=0\no=- 0 0 IN IP4 " ++ host ++
    ascii "\ns=Session streamed by \"" ++ ascii serverAgent ++
    ascii "\"\ni=" ++ name ++
    ascii "\nc=IN IP4 0.0.0.0\nt=0 0\na=tool:" ++ ascii serverAgent ++
    ascii "\na=control:" ++ url ++
    ascii "\na=range:npt=0-\na=x-qt-text-nam:Session streamed by \"" ++ ascii serverAgent ++
    ascii "\"\na=x-qt-text-inf:" ++ name ++ ascii "\n"

def sdpMedia (payload : Nat) (format : String) (url tail : List UInt8) : List UInt8 :=
  ascii "m=video 0 RTP/AVP " ++ dec payload ++
    ascii "\nb=AS:20480\na=rtpmap:" ++ dec payload ++ ascii " " ++ ascii format ++
    ascii "/90000\na=control:" ++ url ++ ascii "/video\na=recvonly\n" ++ tail

def payloadJpeg : Nat := 26
def payloadH264 : Nat := 96
def payloadH265 : Nat := 96

def h264Fmtp : List UInt8 := ascii "a=fmtp:" ++ dec payloadH264 ++ ascii " packetization-mode=1\n"

def h265Fmtp : List UInt8 :=
  ascii "a=fmtp:" ++ dec payloadH265 ++
    ascii " sprop-sps=QgEBAWAAAAMAsAAAAwAAAwB7oAPAgBDlja5JMvwCAAADAAIAAAMAeUI=; sprop-pps=RAHA8vA8kAA=\n" ++
    ascii "a=Media_header:MEDIAINFO=494D4B48010200000400050000000000000000000000000000000000000000000000000000000000;\n" ++
    ascii "a=appversion:1.0\n"

/-- `strSdp`. -/
def RtspClient.sdp (e : Env) (rc : RtspClient) : List UInt8 :=
  let session := fun name => sdpSession (sdpHost e rc.strUrl) (ascii name) rc.strUrl
  match rc.isLive with
  | .liveH264_1 | .liveH264_2 =>
    session "H264Stream" ++ sdpMedia payloadH264 "H264" rc.strUrl h264Fmtp
  | .liveH265_1 | .liveH265_2 =>
    session "H265Stream" ++ sdpMedia payloadH265 "H265" rc.strUrl h265Fmtp
  | .liveJpeg => session "JPEGStream" ++ sdpMedia payloadJpeg "JPEG" rc.strUrl []
  | _ => []

def rtspdClientRtspProcessDescribe (e : Env) (rc : RtspClient) : Answer :=
  match rtspdClientRtspState rc .describe with
  | (true, rc) =>
    if rc.isAccept then
      { rc, reply := rc.headOf .s200 ++ rtspdClientRtspMakeDatetime e.tm ++
              ascii "Content-Type: application/sdp\r\nContent-Length: " ++
              dec (rc.sdp e).length ++ crlf ++ crlf ++ rc.sdp e }
    else rtspdClientRtspProcessError e rc .s406
  | (false, rc) => rtspdClientRtspProcessError e rc .s412

end describe

section setup

def rtspPlayMax : Nat := 2

/-- `rtp_ss[n]`. -/
def RtpSs.modify (s : RtpSs) (n : Nat) (f : RtpSession → RtpSession) : RtpSs :=
  match n with
  | 0 => { s with video := f s.video }
  | 1 => { s with audio := f s.audio }
  | _ => s

def RtspClient.modifySs (rc : RtspClient) (f : RtpSession → RtpSession) : RtspClient :=
  { rc with rtpSs := rc.rtpSs.map fun s => s.modify rc.nQuery f }

/-- The payload type of the stream a `SETUP` asks for; audio is compiled out. -/
def RtspClient.payloadOf (rc : RtspClient) : Option Nat :=
  if rc.setupQuery = strtypeVideo then
    match rc.isLive with
    | .fileH264 | .liveH264_1 | .liveH264_2 => some payloadH264
    | .fileH265 | .liveH265_1 | .liveH265_2 => some payloadH265
    | .liveJpeg => some payloadJpeg
    | _ => none
  else none

/-- `prcInfo->rtp_ss` is allocated unless it is there already. -/
def RtspClient.allocSs (e : Env) (rc : RtspClient) : Option RtspClient :=
  match rc.rtpSs with
  | some _ => some rc
  | none => if e.alloc then some { rc with rtpSs := some .zero } else none

/-- The checks after the allocation: the payload type, or the refusal. -/
def RtspClient.setupCheck (rc : RtspClient) : Except RtspStatus Nat :=
  if rc.isTransport then
    if rc.eTransport = .udp ∨ rc.eTransport = .tcp then
      match rc.payloadOf with
      | some payload => .ok payload
      | none => .error .s404
    else .error .s461
  else .error .s400

/-- The session a 200 starts from. -/
def RtspClient.setupFill (e : Env) (rc : RtspClient) (payload : Nat) : RtspClient :=
  let rc := { rc with nSession := if rc.nSession = 0 then rc.clientid else rc.nSession
                      connInfo := { rc.connInfo with rtpType := rc.eTransport } }
  rc.modifySs fun s =>
    { s with payloadType := payload
             ssrc := e.ssrc
             startRtptime := e.startRtptime
             startSeq := e.startSeq
             packetCnt := 0
             totalLength := 0
             rtpPk := { s.rtpPk with nalnum := 0xFFFFFFFF } }

/-- `conn_info.rtp_port[n]` and `conn_info.rtcp_port[n]`. -/
def RtspClient.ports (rc : RtspClient) : Nat × Nat :=
  match rc.nQuery with
  | 0 => (rc.connInfo.rtpPort 0, rc.connInfo.rtcpPort 0)
  | _ => (rc.connInfo.rtpPort 1, rc.connInfo.rtcpPort 1)

/-- `;ssrc=%8x;mode="PLAY"`. -/
def setupTail (e : Env) : List UInt8 :=
  ascii ";ssrc=" ++ padLeft 32 8 (digits 16 (e.ssrc % 2 ^ 32)) ++ ascii ";mode=\"PLAY\"" ++ crlf

def RtspClient.setupReply (e : Env) (rc : RtspClient) : List UInt8 :=
  let (rtp, rtcp) := rc.ports
  let transport := match rc.eTransport with
    | .udp => ascii "Transport: RTP/AVP;unicast;client_port=" ++ dec rtp ++ ascii "-" ++ dec rtcp ++
        ascii ";server_port=" ++ dec 554 ++ ascii "-" ++ dec 555
    | _ => ascii "Transport: RTP/AVP/TCP;unicast;interleaved=" ++ dec rtp ++ ascii "-" ++ dec rtcp
  rc.headS .s200 ++ transport ++ setupTail e ++ rtspdClientRtspMakeDatetime e.tm ++ crlf

/-- From the head count to `conn_info.rtp_type`: `inl` is a refusal, `inr` the session with the
200 that will be sent for it. -/
def RtspClient.setupAdmit (e : Env) (rc : RtspClient) :
    Answer ⊕ (RtspClient × List UInt8) :=
  if rtspPlayMax ≤ e.playerCount then .inl (rtspdClientRtspProcessError e rc .s453)
  else
    match rc.allocSs e with
    | none => .inl (rtspdClientRtspProcessError e rc .s500)
    | some rc =>
      match rc.setupCheck with
      | .error status => .inl (rtspdClientRtspProcessError e rc status)
      | .ok payload =>
        let rc := rc.setupFill e payload
        .inr (rc, rc.setupReply e)

def RtspClient.markReady (rc : RtspClient) : RtspClient :=
  rc.modifySs fun s => { s with txReady := .ready }

/-- A task is created for a TCP session that nobody serves yet. -/
def RtspClient.spawns (rc : RtspClient) : Bool :=
  rc.eTransport = .tcp && rc.playQuery = strtypeNone

/-- The store of `play_query |= setup_query`, given the value that was loaded. -/
def RtspClient.storeQuery (rc : RtspClient) (loaded : Nat) : RtspClient :=
  { rc with playQuery := loaded ||| rc.setupQuery }

/-- The answer when the state does not allow a `SETUP`; the other states do. -/
def RtspClient.setupRefused (e : Env) (rc : RtspClient) : Answer :=
  match rc.state with
  | .play | .pause => rtspdClientRtspProcessError e rc .s455
  | .none | .teardown | .error => rtspdClientRtspProcessError e rc .s412
  | _ => { rc, reply := [] }

def rtspdClientRtspProcessSetup (e : Env) (rc : RtspClient) : Answer :=
  match rtspdClientRtspState rc .setup with
  | (false, rc) => rc.setupRefused e
  | (true, rc) =>
    match rc.setupAdmit e with
    | .inl answer => answer
    | .inr (rc, reply) =>
      { rc := rc.markReady.storeQuery rc.playQuery, reply, spawn := rc.spawns }

end setup

section play

def rtpInfo (url : List UInt8) (track : String) (s : RtpSession) : List UInt8 :=
  ascii " url=" ++ url ++ ascii "/" ++ ascii track ++ ascii ";seq=" ++ dec s.startSeq ++
    ascii ";rtptime=" ++ dec s.startRtptime ++ ascii ","

/-- The last octet gives way to the line end. -/
def RtspClient.rtpInfoLine (rc : RtspClient) (s : RtpSs) : List UInt8 :=
  (ascii "RTP-Info:" ++
    (if rc.playQuery &&& strtypeVideo ≠ 0 then rtpInfo rc.strUrl "video" s.video else []) ++
    (if rc.playQuery &&& strtypeAudio ≠ 0 then rtpInfo rc.strUrl "audio" s.audio else [])).dropLast ++
    crlf

def rtspdClientRtspProcessPlay (e : Env) (rc : RtspClient) : Answer :=
  if rc.playQuery = strtypeNone then rtspdClientRtspProcessError e rc .s400
  else
    match rtspdClientRtspState rc .play with
    | (false, rc) => rtspdClientRtspProcessError e rc .s400
    | (true, rc) =>
      -- a client that sent `Session: 0` gets no reply, though the state has changed
      if rc.nSession = 0 then { rc, reply := [] }
      else
        match rc.rtpSs with
        | none => { rc, reply := [], hangs := true }
        | some s =>
          { rc, reply := rc.headS .s200 ++ rc.rtpInfoLine s ++ rtspdClientRtspMakeDatetime e.tm ++
                  crlf }

end play

section dispatch

/-- `vPortFree(prcInfo->rtp_ss); prcInfo->rtp_ss = NULL`. -/
def RtspClient.freeSs (rc : RtspClient) : RtspClient := { rc with rtpSs := none }

def rtspdClientRtspProcessTeardown (e : Env) (rc : RtspClient) : Answer :=
  let answer := processPlain e .teardown [] rc
  if stateAllows .teardown rc.state then { answer with rc := answer.rc.freeSs } else answer

/-- The handlers as the switch of `rtspd_client_rtsp_response` chooses them. -/
def processMethod (e : Env) (rc : RtspClient) : Answer :=
  match rc.method with
  | .options => rtspdClientRtspProcessOptions e rc
  | .describe => rtspdClientRtspProcessDescribe e rc
  | .setup => rtspdClientRtspProcessSetup e rc
  | .play => rtspdClientRtspProcessPlay e rc
  | .pause => rtspdClientRtspProcessPause e rc
  | .teardown => rtspdClientRtspProcessTeardown e rc
  | .getParameter => rtspdClientRtspProcessGetParameter e rc
  | .setParameter => rtspdClientRtspProcessSetParameter e rc

/-- The checks in front of the handlers: `inl` is the error they answer with. -/
def RtspClient.checked (e : Env) (rc : RtspClient) : Answer ⊕ RtspClient :=
  if rc.state = .teardown then .inl (rtspdClientRtspProcessError e rc .s412)
  else
    match rtspdClientRtspCheckUrl e rc with
    | (true, rc) => .inr rc
    | (false, rc) => .inl (rtspdClientRtspProcessError e rc .s501)

def rtspdClientRtspResponse (e : Env) (rc : RtspClient) : Answer :=
  match rc.checked e with
  | .inl answer => answer
  | .inr rc => processMethod e rc

/-- The line that takes the place of the empty line of a 401. -/
def authenticate : RtspdAuth → List UInt8
  | .none => []
  | .basic =>
    ascii "WWW-Authenticate: Basic realm=\"" ++ ascii serverAgent ++ ascii "\"" ++ crlf ++ crlf
  | .digest =>
    ascii "WWW-Authenticate: Digest realm=\"" ++ ascii serverAgent ++
      ascii "\", qop=\"auth, auth-int\", algorithm=MD5, nonce=\"" ++
      ascii "7ypf/xlj9XXwfDPEoM4URrv/xwf94BcCAzFZH4GiTo0v" ++ ascii "\", opaque=\"" ++
      ascii "FQhe/qaU925kfnzjCev0ciny7QMkPqMAFRtzCUYo5tdS" ++ ascii "\"" ++ crlf ++ crlf

/-- Whether the request goes to the handlers. -/
def RtspClient.admitted (rc : RtspClient) : Bool :=
  rc.login || rc.method = .options || rc.method = .teardown

def RtspClient.unauthorized (e : Env) (rc : RtspClient) : Answer :=
  let answer := rtspdClientRtspProcessError e rc .s401
  { answer with reply := answer.reply.dropLast.dropLast ++ authenticate e.authMode }

/-- What `rtspd_client_main` does with a request it has read. -/
def dispatch (e : Env) (rc : RtspClient) : Answer :=
  if rc.admitted then rtspdClientRtspResponse e rc else rc.unauthorized e

end dispatch

end En675.Rtsp
