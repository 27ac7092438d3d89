import En675.Lib.CString
import En675.Rtsp.Define

/-! Reading a request: `rtspd_client_rtsp_method_parse` with its header lines, the table
of state changes, and the check of the URL.  What the code asks of the rest of the camera
while it handles one request is an `Env`. -/

namespace En675.Rtsp

open Lib

inductive RtspdAuth
  | none | basic | digest
  deriving DecidableEq, Repr

inductive VideoCodec
  | h265 | h264 | jpeg
  deriving DecidableEq, Repr

structure Tm where
  wday : Fin 7
  mon : Fin 12
  mday : Nat
  year : Nat
  hour : Nat
  min : Nat
  sec : Nat

structure Env where
  authMode : RtspdAuth
  /-- `rtspd_client_rtsp_authorization`, on the header line and the method. -/
  authorization : List UInt8 → RtspMethod → Bool
  tm : Tm
  playerCount : Nat
  /-- Whether `pvPortCalloc` finds a block. -/
  alloc : Bool
  ssrc : Nat
  startRtptime : Nat
  startSeq : Nat
  /-- `network_default_netif_get_ip`, printed. -/
  defaultIp : List UInt8
  /-- `gtUser.vcVideo`: the URL and the codec of each of the three streams. -/
  vcVideo : Fin 3 → List UInt8 × VideoCodec

section headers

/-- `strncmp(name, buf, sizeof(name) - 1) == 0`. -/
def hasName (name : String) (line : List UInt8) : Bool := (ascii name).isPrefixOf line

/-- The string at `buf + sizeof(name)`.  The line feed of the line is still there, so for a
line that is only a name it starts in the next one. -/
def headerData (name : String) (line rest : List UInt8) : List UInt8 :=
  cstr ((line ++ 0 :: 10 :: rest).drop (name.length + 1))

def RtspClient.headerCommon (e : Env) (rc : RtspClient) (line rest : List UInt8) : RtspClient :=
  if hasName "CSeq" line then { rc with nCSeq := atoi (headerData "CSeq" line rest) }
  else if hasName "Session" line then { rc with nSession := atoi (headerData "Session" line rest) }
  else if e.authMode ≠ .none ∧ hasName "Authorization" line then
    { rc with login := e.authorization line rc.method }
  else rc

/-- The track of a `SETUP` URL: what follows the second slash after `//`. -/
def setupType (url : List UInt8) : Option (List UInt8) := do
  let (_, s) ← cut (ascii "//") url
  let (_, s) ← cut (ascii "/") s
  let (_, s) ← cut (ascii "/") s
  return s

/-- `none` is the `break` on a URL without a track. -/
def RtspClient.setupTrack (rc : RtspClient) : Option RtspClient :=
  if rc.setupQuery = strtypeNone then
    (setupType rc.strUrl).map fun t =>
      if hasName "video" t then { rc with setupQuery := strtypeVideo, nQuery := strtypeNumVideo }
      else if hasName "audio" t then
        { rc with setupQuery := strtypeAudio, nQuery := strtypeNumAudio }
      else rc
  else some rc

def toWord (n : Int) : Nat := (n % 2 ^ 16).toNat

/-- `rtp_port[nQuery]` and `rtcp_port[nQuery]`.  With `nQuery` past the end the first is
`rtcp_port[0]` and the second the low half of `rtp_queue_video`. -/
def RtspClient.storePorts (rc : RtspClient) (ports : Int × Int) : RtspClient :=
  let ci := rc.connInfo
  let rtp := toWord ports.1
  let rtcp := toWord ports.2
  match rc.nQuery with
  | 0 => { rc with connInfo := { ci with rtpPort := Function.update ci.rtpPort 0 rtp
                                         rtcpPort := Function.update ci.rtcpPort 0 rtcp } }
  | 1 => { rc with connInfo := { ci with rtpPort := Function.update ci.rtpPort 1 rtp
                                         rtcpPort := Function.update ci.rtcpPort 1 rtcp } }
  | _ => { rc with connInfo := { ci with rtcpPort := Function.update ci.rtcpPort 0 rtp }
                   rtpQueueVideoAddr := rc.rtpQueueVideoAddr / 2 ^ 16 * 2 ^ 16 + rtcp }

def portsOf (key : String) (data : List UInt8) : Int × Int :=
  match cut (ascii key) data with
  | none => (-1, -1)
  | some (_, s) => scanPair s (-1) (-1)

/-- The transport a `Transport` line names. -/
def transportOf (data : List UInt8) : Option RtspTransport :=
  if contains (ascii "RTP/AVP/TCP") data then some .tcp
  else if contains (ascii "RTP/AVP") data then some .udp
  else none

def RtspClient.transportHeader (rc : RtspClient) (data : List UInt8) : RtspClient :=
  let rc := { rc with isTransport := true }
  match transportOf data with
  | some .tcp => { rc with eTransport := .tcp }.storePorts (portsOf "interleaved=" data)
  | some .udp => { rc with eTransport := .udp }.storePorts (portsOf "client_port=" data)
  | _ => rc

/-- The enumeration has no other method, so the `default` that returns -1 is never taken. -/
def rtspdClientRtspHeaderParse (e : Env) (rc : RtspClient) (line rest : List UInt8) : RtspClient :=
  let rc := rc.headerCommon e line rest
  match rc.method with
  | .describe =>
    if hasName "Accept" line then
      { rc with isAccept := contains (ascii "application/sdp") (headerData "Accept" line rest) }
    else rc
  | .setup =>
    match rc.setupTrack with
    | none => rc
    | some rc =>
      if hasName "Transport" line then rc.transportHeader (headerData "Transport" line rest) else rc
  | _ => rc

end headers

section request

def RtspMethod.text : RtspMethod → String
  | .options => "OPTIONS"
  | .describe => "DESCRIBE"
  | .setup => "SETUP"
  | .play => "PLAY"
  | .pause => "PAUSE"
  | .teardown => "TEARDOWN"
  | .getParameter => "GET_PARAMETER"
  | .setParameter => "SET_PARAMETER"

def methodOf (s : List UInt8) : Option RtspMethod :=
  [.options, .teardown, .describe, .setup, .play, .pause, .getParameter, .setParameter].find?
    fun m => ascii m.text = s

/-- The request line: the client with what was read of it, and the text that follows. -/
def RtspClient.requestLine (rc : RtspClient) (text : List UInt8) : RtspClient × Option (List UInt8) :=
  match cut (ascii " ") text with
  | none => (rc, none)
  | some (strMethod, text) =>
    match methodOf strMethod with
    | none => (rc, none)
    | some method =>
      match cut (ascii " ") text with
      | none => ({ rc with method }, none)
      | some (strUrl, text) =>
        match cut crlf text with
        | none => ({ rc with method, strUrl := strUrl.take 127 }, none)
        | some (strVersion, text) =>
          ({ rc with method
                     strUrl := strUrl.take 127
                     strVersion := strVersion.take 11
                     isAccept := false
                     isTransport := false
                     setupQuery := strtypeNone
                     nQuery := strtypeNumNone }, some text)

/-- The `while (1)` over the header lines; every line takes two octets at least. -/
def headerLines (e : Env) : Nat → RtspClient → List UInt8 → RtspClient
  | 0, rc, _ => rc
  | fuel + 1, rc, text =>
    match cut crlf text with
    | none => rc
    | some (line, rest) => headerLines e fuel (rtspdClientRtspHeaderParse e rc line rest) rest

/-- `true` for the return of 0. -/
def rtspdClientRtspMethodParse (e : Env) (rc : RtspClient) (buf : List UInt8) : Bool × RtspClient :=
  match rc.requestLine (cstr buf) with
  | (rc, none) => (false, rc)
  | (rc, some text) => (true, headerLines e text.length rc text)

theorem cut_crlf_nil : cut crlf [] = none := rfl

/-- The fuel is enough: any larger one reads the same lines. -/
theorem headerLines_fuel (e : Env) (hn : text.length ≤ n) (hm : text.length ≤ m) :
    headerLines e n rc text = headerLines e m rc text := by
  induction n generalizing m rc text with
  | zero =>
    rw [List.length_eq_zero_iff.mp (Nat.le_zero.mp hn)]
    cases m with
    | zero => rfl
    | succ m => rw [headerLines, headerLines, cut_crlf_nil]
  | succ n ih =>
    cases m with
    | zero =>
      rw [List.length_eq_zero_iff.mp (Nat.le_zero.mp hm)]
      rw [headerLines, headerLines, cut_crlf_nil]
    | succ m =>
      rw [headerLines, headerLines]
      cases hc : cut crlf text with
      | none => rfl
      | some r =>
        have short := cut_length hc
        have two : crlf.length = 2 := rfl
        exact ih (by omega) (by omega)

/-- Reading the header text line by line: what the slot's task does between two lines. -/
theorem headerLines_cut (e : Env) (h : cut crlf text = some (line, rest)) :
    headerLines e text.length rc text =
      headerLines e rest.length (rtspdClientRtspHeaderParse e rc line rest) rest := by
  have short := cut_length h
  have two : crlf.length = 2 := rfl
  calc headerLines e text.length rc text
      = headerLines e (text.length + 1) rc text := headerLines_fuel e le_rfl (Nat.le_succ _)
    _ = headerLines e text.length (rtspdClientRtspHeaderParse e rc line rest) rest := by
        rw [headerLines, h]
    _ = _ := headerLines_fuel e (by omega) le_rfl

end request

section state

/-- The nested switches of `rtspd_client_rtsp_state`: target and current state. -/
def stateAllows : RtspClientState → RtspClientState → Bool
  | .none, s => s = .none || s = .error
  | .options, s => !(s = .teardown || s = .error)
  | .describe, s => !(s = .none || s = .teardown || s = .error)
  | .setup, s => !(s = .none || s = .play || s = .pause || s = .teardown || s = .error)
  | .play, s => !(s = .none || s = .options || s = .describe || s = .teardown || s = .error)
  | .pause, s =>
    !(s = .none || s = .options || s = .describe || s = .setup || s = .teardown || s = .error)
  | .teardown, s => !(s = .error)
  | .getParameter, s => !(s = .teardown || s = .error)
  | .setParameter, s => !(s = .teardown || s = .error)
  | .error, _ => true

/-- `GET_PARAMETER` and `SET_PARAMETER` are allowed or refused without a change of state. -/
def rtspdClientRtspState (rc : RtspClient) (state : RtspClientState) : Bool × RtspClient :=
  if stateAllows state rc.state then
    (true, if state = .getParameter ∨ state = .setParameter then rc else { rc with state })
  else (false, rc)

end state

section url

def RtspStream.ofCodec : VideoCodec → RtspStream
  | .h265 => .liveH265_1
  | .h264 => .liveH264_1
  | .jpeg => .liveJpeg

/-- The streams `rtspd_client_rtsp_check_url` serves. -/
def RtspStream.served : RtspStream → Bool
  | .fileH264 | .fileH265 | .liveH264_1 | .liveH264_2 | .liveH265_1 | .liveH265_2 | .liveJpeg => true
  | _ => false

/-- What follows the slash after `//` and the host. -/
def urlPath (url : List UInt8) : Option (List UInt8) := do
  let (_, s) ← cut (ascii "//") url
  let (_, s) ← cut (ascii "/") s
  return s

/-- `snprintf(strUrlBuf, STREAM_URL_LENGTH + 2, "/%s", strStmUrl)` against the path. -/
def Env.streamOf (e : Env) (path : List UInt8) : Option (Fin 3) :=
  [0, 1, 2].find? fun i => path = (cstr (e.vcVideo i).1).take 16

def rtspdClientRtspCheckUrl (e : Env) (rc : RtspClient) : Bool × RtspClient :=
  let rc := { rc with nVEncoderIdx := -1 }
  if rc.isLive = .none then
    let fail := { rc with isLive := .error }
    match urlPath rc.strUrl with
    | none => (false, fail)
    | some path =>
      if hasName "sdcard/" path then (true, { rc with isLive := .fileH264 })
      else
        match e.streamOf path with
        | none => (false, fail)
        | some i => (true, { rc with nVEncoderIdx := i, isLive := .ofCodec (e.vcVideo i).2 })
  else if rc.isLive.served then
    (true, { rc with connInfo := { rc.connInfo with videoType := rc.isLive } })
  else (false, rc)

end url

end En675.Rtsp
