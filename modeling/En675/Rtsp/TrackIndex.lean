import En675.Rtsp.Session

/-! The uses of `nQuery` as an index: where a `Transport` line stores the ports, and where `SETUP` fills
the session of its track. -/

namespace En675.Rtsp

open Lib

section uses

/-- The index of `rtp_port` and `rtcp_port` for a header line. -/
def lineIndexes (e : Env) (rc : RtspClient) (line rest : List UInt8) : List Nat :=
  let rc := rc.headerCommon e line rest
  match rc.method with
  | .setup =>
    match rc.setupTrack with
    | none => []
    | some rc => if (namedBy line rest).isSome then [rc.nQuery] else []
  | _ => []

def headerIndexes (e : Env) : Nat → RtspClient → List UInt8 → List Nat
  | 0, _, _ => []
  | fuel + 1, rc, text =>
    match cut crlf text with
    | none => []
    | some (line, rest) =>
      lineIndexes e rc line rest ++ headerIndexes e fuel (rtspdClientRtspHeaderParse e rc line rest) rest

/-- The index of `rtp_ss`, `rtp_port` and `rtcp_port` from the payload type to `tx_ready`. -/
def setupIndexes (e : Env) (rc : RtspClient) : List Nat :=
  match rtspdClientRtspState rc .setup with
  | (false, _) => []
  | (true, rc) =>
    if rtspPlayMax ≤ e.playerCount then []
    else
      match rc.allocSs e with
      | none => []
      | some rc =>
        match rc.setupCheck with
        | .error _ => []
        | .ok _ => [rc.nQuery]

def responseIndexes (e : Env) (rc : RtspClient) : List Nat :=
  if rc.admitted then
    match rc.checked e with
    | .inl _ => []
    | .inr rc => if rc.method = .setup then setupIndexes e rc else []
  else []

/-- Every use while one request is read and answered. -/
def requestIndexes (e : Env) (rc : RtspClient) (buf : List UInt8) : List Nat :=
  match rc.requestLine (cstr buf) with
  | (_, none) => []
  | (rc, some text) =>
    headerIndexes e text.length rc text ++ responseIndexes e (headerLines e text.length rc text)

end uses

section track

/-- The track of the URL is neither of the two. -/
def strayUrl (url : List UInt8) : Bool :=
  match setupType url with
  | none => false
  | some t => !(hasName "video" t || hasName "audio" t)

/-- Some header line names a transport. -/
def transportLines : Nat → List UInt8 → Bool
  | 0, _ => false
  | fuel + 1, text =>
    match cut crlf text with
    | none => false
    | some (line, rest) => (namedBy line rest).isSome || transportLines fuel rest

/-- A `SETUP` whose URL has a track part that names no track, with a transport. -/
def strayRequest (buf : List UInt8) : Bool :=
  match RtspClient.zero.requestLine (cstr buf) with
  | (_, none) => false
  | (rc, some text) => rc.method = .setup && (strayUrl rc.strUrl && transportLines text.length text)

/-- What the headers of a `SETUP` have made of its track. -/
structure TrackOf (url : List UInt8) (rc : RtspClient) : Prop where
  strUrl : rc.strUrl = url
  unset : rc.setupQuery = strtypeNone → rc.nQuery = strtypeNumNone
  known : rc.setupQuery ≠ strtypeNone → rc.nQuery < strtypeNumNone ∧ strayUrl url = false

variable {rc rc' : RtspClient} {url : List UInt8}

/-- Only what a track speaks of has to agree. -/
theorem TrackOf.of_same (h : TrackOf url rc) (strUrl : rc'.strUrl = rc.strUrl)
    (query : rc'.setupQuery = rc.setupQuery) (index : rc'.nQuery = rc.nQuery) : TrackOf url rc' where
  strUrl := strUrl.trans h.strUrl
  unset hq := index.trans (h.unset (query ▸ hq))
  known hq := index ▸ h.known (query ▸ hq)

theorem headerCommon_track (h : TrackOf url rc) (e : Env) (line rest : List UInt8) :
    TrackOf url (rc.headerCommon e line rest) := by
  unfold RtspClient.headerCommon
  split
  · exact h.of_same rfl rfl rfl
  · split
    · exact h.of_same rfl rfl rfl
    · split
      · exact h.of_same rfl rfl rfl
      · exact h

/-- Exactly a stray URL leaves the index out of range. -/
theorem setupTrack_trackOf (h : TrackOf url rc) (hs : rc.setupTrack = some rc') :
    TrackOf url rc' ∧ (rc'.nQuery < strtypeNumNone ↔ strayUrl url = false) := by
  unfold RtspClient.setupTrack at hs
  split at hs
  · rename_i unset
    rw [Option.map_eq_some_iff] at hs
    obtain ⟨t, ht, rfl⟩ := hs
    have stray : strayUrl url = !(hasName "video" t || hasName "audio" t) := by
      rw [strayUrl, ← h.strUrl, ht]
    split
    · rename_i video
      have named : strayUrl url = false := by rw [stray, video]; rfl
      have lt : strtypeNumVideo < strtypeNumNone := by decide
      exact ⟨⟨h.strUrl, nofun, fun _ => ⟨lt, named⟩⟩, iff_of_true lt named⟩
    · split
      · rename_i other audio
        have named : strayUrl url = false := by rw [stray, audio, Bool.or_true]; rfl
        have lt : strtypeNumAudio < strtypeNumNone := by decide
        exact ⟨⟨h.strUrl, nofun, fun _ => ⟨lt, named⟩⟩, iff_of_true lt named⟩
      · rename_i video audio
        rw [stray, Bool.eq_false_of_not_eq_true video, Bool.eq_false_of_not_eq_true audio,
          h.unset unset]
        exact ⟨h, iff_of_false (by decide) (by decide)⟩
  · rename_i set_
    obtain rfl := Option.some.inj hs
    exact ⟨h, iff_of_true (h.known set_).1 (h.known set_).2⟩

theorem storePorts_track (h : TrackOf url rc) (ports : Int × Int) :
    TrackOf url (rc.storePorts ports) := by
  unfold RtspClient.storePorts
  split <;> exact h.of_same rfl rfl rfl

theorem transportHeader_track (h : TrackOf url rc) (data : List UInt8) :
    TrackOf url (rc.transportHeader data) := by
  have named (tr : RtspTransport) : TrackOf url { rc with isTransport := true, eTransport := tr } :=
    h.of_same rfl rfl rfl
  rcases transportOf_cases data with tr | tr | tr
  · simp only [RtspClient.transportHeader, tr]
    exact storePorts_track (named _) _
  · simp only [RtspClient.transportHeader, tr]
    exact storePorts_track (named _) _
  · simp only [RtspClient.transportHeader, tr]
    exact h.of_same rfl rfl rfl

theorem headerParse_track (h : TrackOf url rc) (e : Env) (line rest : List UInt8) :
    TrackOf url (rtspdClientRtspHeaderParse e rc line rest) := by
  have common := headerCommon_track h e line rest
  unfold rtspdClientRtspHeaderParse
  simp only
  split
  · split
    · exact common.of_same rfl rfl rfl
    · exact common
  · split
    · exact common
    · rename_i hs
      have track := (setupTrack_trackOf common hs).1
      split
      · exact transportHeader_track track _
      · exact track
  · exact common

theorem headerLines_track (h : TrackOf url rc) (e : Env) (n : Nat) (text : List UInt8) :
    TrackOf url (headerLines e n rc text) := by
  induction n generalizing rc text with
  | zero => exact h
  | succ n ih =>
    rw [headerLines]
    cases cut crlf text with
    | none => exact h
    | some r => exact ih (headerParse_track h e r.1 r.2) r.2

end track

section indexes

variable {rc rc' : RtspClient} {url : List UInt8} {ok : Bool} (e : Env)

/-- A header line is in range unless it names a transport for a stray URL. -/
theorem lineIndexes_iff (h : TrackOf url rc) (setup : rc.method = .setup) (line rest : List UInt8) :
    (∀ i ∈ lineIndexes e rc line rest, i < strtypeNumNone) ↔
      ¬(strayUrl url = true ∧ (namedBy line rest).isSome = true) := by
  have common := headerCommon_track h e line rest
  simp only [lineIndexes, headerCommon_method, setup]
  cases hs : (rc.headerCommon e line rest).setupTrack with
  | none =>
    have stray : strayUrl url = false := by
      unfold RtspClient.setupTrack at hs
      split at hs
      · rw [common.strUrl, Option.map_eq_none_iff] at hs
        rw [strayUrl, hs]
      · cases hs
    simp [stray]
  | some rc' =>
    have range := (setupTrack_trackOf common hs).2
    cases (namedBy line rest).isSome <;> simp [range]

theorem headerIndexes_iff (h : TrackOf url rc) (setup : rc.method = .setup) (n : Nat)
    (text : List UInt8) : (∀ i ∈ headerIndexes e n rc text, i < strtypeNumNone) ↔
      ¬(strayUrl url = true ∧ transportLines n text = true) := by
  induction n generalizing rc text with
  | zero => simp [headerIndexes, transportLines]
  | succ n ih =>
    rw [headerIndexes, transportLines]
    cases cut crlf text with
    | none => simp
    | some r =>
      simp only [List.forall_mem_append, lineIndexes_iff e h setup,
        ih (headerParse_track h e r.1 r.2) ((headerParse_method e rc r.1 r.2).trans setup),
        Bool.or_eq_true, and_or_left, not_or]

/-- Other methods store no ports. -/
theorem headerIndexes_nil (other : rc.method ≠ .setup) (n : Nat) (text : List UInt8) :
    headerIndexes e n rc text = [] := by
  induction n generalizing rc text with
  | zero => rfl
  | succ n ih =>
    rw [headerIndexes]
    cases cut crlf text with
    | none => rfl
    | some r =>
      simp only [ih ((headerParse_method e rc r.1 r.2).symm ▸ other), List.append_nil]
      simp only [lineIndexes, headerCommon_method]

/-- A `SETUP` that gets to its session has the track of the video. -/
theorem setupIndexes_lt (h : TrackOf url rc) : ∀ i ∈ setupIndexes e rc, i < strtypeNumNone := by
  unfold setupIndexes
  split
  · exact fun _ hi => absurd hi List.not_mem_nil
  · rename_i rc₁ hs
    obtain ⟨-, rfl⟩ := state_true hs
    split
    · exact fun _ hi => absurd hi List.not_mem_nil
    · split
      · exact fun _ hi => absurd hi List.not_mem_nil
      · rename_i rc₂ halloc
        split
        · exact fun _ hi => absurd hi List.not_mem_nil
        · rename_i payload hc
          have video := (setupCheck_ok hc).2
          have track : TrackOf url rc₂ := by
            rw [(allocSs_some e halloc).2.1]
            exact h.of_same rfl rfl rfl
          have index : rc₂.nQuery < strtypeNumNone :=
            (track.known (by rw [video]; decide)).1
          exact fun _ hi => List.mem_singleton.1 hi ▸ index

theorem checkUrl_track (h : TrackOf url rc) (hc : rtspdClientRtspCheckUrl e rc = (ok, rc')) :
    TrackOf url rc' := by
  unfold rtspdClientRtspCheckUrl at hc
  simp only at hc
  split at hc
  · split at hc
    · cases hc
      exact h.of_same rfl rfl rfl
    · split at hc
      · cases hc
        exact h.of_same rfl rfl rfl
      · split at hc <;>
        · cases hc
          exact h.of_same rfl rfl rfl
  · split at hc <;>
    · cases hc
      exact h.of_same rfl rfl rfl

theorem responseIndexes_lt (h : TrackOf url rc) : ∀ i ∈ responseIndexes e rc, i < strtypeNumNone := by
  unfold responseIndexes RtspClient.checked
  split
  · by_cases torn : rc.state = .teardown
    · rw [if_pos torn]
      exact fun _ hi => absurd hi List.not_mem_nil
    · rw [if_neg torn]
      cases hc : rtspdClientRtspCheckUrl e rc with
      | mk ok rc' =>
        cases ok with
        | false => exact fun _ hi => absurd hi List.not_mem_nil
        | true =>
          simp only
          split
          · exact setupIndexes_lt e (checkUrl_track e h hc)
          · exact fun _ hi => absurd hi List.not_mem_nil
  · exact fun _ hi => absurd hi List.not_mem_nil

/-- A request line that parses sets the method, the URL and the track whatever they were. -/
theorem requestLine_parsed {rc rc' : RtspClient} {text rest : List UInt8}
    (h : rc.requestLine text = (rc', some rest)) :
    ∃ rc'', RtspClient.zero.requestLine text = (rc'', some rest) ∧ rc''.method = rc'.method ∧
      rc''.strUrl = rc'.strUrl ∧ TrackOf rc'.strUrl rc' := by
  unfold RtspClient.requestLine at h ⊢
  split at h
  · cases h
  · split at h
    · cases h
    · split at h
      · cases h
      · split at h
        · cases h
        · cases h
          exact ⟨_, rfl, rfl, rfl, rfl, fun _ => rfl, fun set_ => absurd rfl set_⟩

end indexes

/-- In every session every use of `nQuery` for a request is in range exactly if the request is no `SETUP`
that names a transport for a URL whose track part names no track. -/
theorem track_index_iff (e : Env) (rc : RtspClient) (buf : List UInt8) :
    (∀ i ∈ requestIndexes e rc buf, i < strtypeNumNone) ↔ strayRequest buf = false := by
  unfold requestIndexes
  cases h : rc.requestLine (cstr buf) with
  | mk rc' text =>
    cases text with
    | none =>
      have none_ : (RtspClient.zero.requestLine (cstr buf)).2 = none := by
        rw [requestLine_text _ rc, h]
      have stray : strayRequest buf = false := by
        unfold strayRequest
        split
        · rfl
        · rename_i text parsed
          rw [parsed] at none_
          cases none_
      simp [stray]
    | some text =>
      obtain ⟨rc'', parsed, method, strUrl, track⟩ := requestLine_parsed h
      have stray : strayRequest buf =
          (rc'.method = .setup && (strayUrl rc'.strUrl && transportLines text.length text)) := by
        rw [strayRequest, parsed, ← method, ← strUrl]
      have answered := responseIndexes_lt e (headerLines_track track e text.length text)
      rw [stray, List.forall_mem_append, and_iff_left answered]
      by_cases setup : rc'.method = .setup
      · rw [headerIndexes_iff e track setup]
        simp [setup]
      · rw [headerIndexes_nil e setup]
        simp [setup]

/-- A `SETUP` for a metadata track. -/
def metadataText : List UInt8 :=
  ascii "SETUP rtsp://h/stream1/metadata RTSP/1.0\r\nCSeq: 3\r\nTransport: RTP/AVP;client_port=5000-5001\r\n\r\n"

/-- The first request of a session may store the ports behind the arrays. -/
theorem metadata_outside :
    Reach (session .none) Lts.any ⟨Session.clientInit .none 0 9 0, []⟩ ∧
      ¬∀ i ∈ requestIndexes (sampleEnv .none) (Session.clientInit .none 0 9 0) metadataText,
        i < strtypeNumNone := by
  refine ⟨.init ⟨⟨0, 9, 0, rfl⟩, rfl⟩, ?_⟩
  rw [track_index_iff]
  decide +kernel

end En675.Rtsp
