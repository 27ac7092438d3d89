import En675.Rtsp.SessionId

/-! A `SETUP` that is not answered 200: what its header lines have stored by then, and where
the state has gone. -/

namespace En675.Rtsp

open Lib

section text

/-- The header lines of a text, each with the text behind it. -/
def pairsOf : Nat → List UInt8 → List (List UInt8 × List UInt8)
  | 0, _ => []
  | fuel + 1, text =>
    match cut crlf text with
    | none => []
    | some (line, rest) => (line, rest) :: pairsOf fuel rest

theorem headerLines_foldl (e : Env) (fuel : Nat) (rc : RtspClient) (text : List UInt8) :
    headerLines e fuel rc text =
      (pairsOf fuel text).foldl (fun rc p => rtspdClientRtspHeaderParse e rc p.1 p.2) rc := by
  induction fuel generalizing rc text with
  | zero => rfl
  | succ fuel ih =>
    cases hc : cut crlf text with
    | none => simp only [headerLines, pairsOf, hc, List.foldl_nil]
    | some r => simp only [headerLines, pairsOf, hc, ih, List.foldl_cons]

/-- What the `SETUP` URL asks for: `video`, `audio`, or a track the parser does not know. -/
def trackOf (url : List UInt8) : Option Nat :=
  (setupType url).map fun t =>
    if hasName "video" t then strtypeNumVideo
    else if hasName "audio" t then strtypeNumAudio
    else strtypeNumNone

/-- The transport and the ports a header line names. -/
def namedPorts (p : List UInt8 × List UInt8) : Option (RtspTransport × Int × Int) :=
  if hasName "Transport" p.1 then
    (transportOf (headerData "Transport" p.1 p.2)).map fun tr =>
      (tr, portsOf (if tr = .tcp then "interleaved=" else "client_port=")
        (headerData "Transport" p.1 p.2))
  else none

abbrev Ports := (Fin 2 → Nat) × (Fin 2 → Nat)

def RtspClient.allPorts (rc : RtspClient) : Ports := (rc.connInfo.rtpPort, rc.connInfo.rtcpPort)

/-- The two port arrays after a store at index `q`. -/
def storeAt (q : Nat) (ports : Int × Int) (all : Ports) : Ports :=
  match q with
  | 0 => (Function.update all.1 0 (toWord ports.1), Function.update all.2 0 (toWord ports.2))
  | 1 => (Function.update all.1 1 (toWord ports.1), Function.update all.2 1 (toWord ports.2))
  | _ => (all.1, Function.update all.2 0 (toWord ports.1))

theorem storeAt_storeAt (q : Nat) (p p' : Int × Int) (all : Ports) :
    storeAt q p (storeAt q p' all) = storeAt q p all := by
  unfold storeAt
  split <;> simp only [Function.update_idem]

theorem storePorts_allPorts (rc : RtspClient) (p : Int × Int) :
    (rc.storePorts p).allPorts = storeAt rc.nQuery p rc.allPorts := by
  unfold RtspClient.storePorts
  rcases h : rc.nQuery with _ | _ | n <;> rfl

end text

section read

variable (e : Env) (rc : RtspClient) (p : List UInt8 × List UInt8)

/-- The verdict of an `Authorization` line. -/
def verdictOf (e : Env) (method : RtspMethod) (p : List UInt8 × List UInt8) : Option Bool :=
  if e.authMode ≠ .none ∧ hasName "Authorization" p.1 then some (e.authorization p.1 method) else none

theorem hasName_authorization {line : List UInt8} (h : hasName "Authorization" line = true) :
    hasName "CSeq" line = false ∧ hasName "Session" line = false := by
  cases line with
  | nil => exact ⟨rfl, rfl⟩
  | cons b line =>
    have first : b = 65 := by
      rw [hasName, show ascii "Authorization" =
        65 :: [117, 116, 104, 111, 114, 105, 122, 97, 116, 105, 111, 110] from rfl,
        List.isPrefixOf_cons_cons, Bool.and_eq_true, beq_iff_eq] at h
      exact h.1.symm
    rw [hasName, hasName, show ascii "CSeq" = 67 :: [83, 101, 113] from rfl,
      show ascii "Session" = 83 :: [101, 115, 115, 105, 111, 110] from rfl,
      List.isPrefixOf_cons_cons, List.isPrefixOf_cons_cons, first]
    exact ⟨rfl, rfl⟩

theorem headerCommon_verdict : (rc.headerCommon e p.1 p.2).login =
    (verdictOf e rc.method p).getD rc.login := by
  unfold RtspClient.headerCommon verdictOf
  by_cases ha : hasName "Authorization" p.1 = true
  · obtain ⟨hc, hs⟩ := hasName_authorization ha
    rw [hc, hs]
    by_cases hm : e.authMode ≠ .none
    · simp only [if_pos (And.intro hm ha), Bool.false_eq_true, if_false]
      rfl
    · simp only [if_neg (fun h : e.authMode ≠ .none ∧ _ => hm h.1), Bool.false_eq_true, if_false]
      rfl
  · have none : ¬ (e.authMode ≠ .none ∧ hasName "Authorization" p.1 = true) := fun h => ha h.2
    simp only [if_neg none, Option.getD_none]
    split
    · rfl
    · split <;> rfl

/-- The track the header lines of the request work on. -/
def RtspClient.track (rc : RtspClient) : Option Nat := rc.setupTrack.map RtspClient.nQuery

/-- The fields the track hangs on, which no header line but the first stores. -/
structure SameTrack (rc rc' : RtspClient) : Prop where
  strUrl : rc'.strUrl = rc.strUrl
  setupQuery : rc'.setupQuery = rc.setupQuery
  nQuery : rc'.nQuery = rc.nQuery

theorem SameTrack.track {rc rc' : RtspClient} (h : SameTrack rc rc') : rc'.track = rc.track := by
  simp only [RtspClient.track, RtspClient.setupTrack, h.strUrl, h.setupQuery]
  split
  · rw [Option.map_map, Option.map_map]
    congr 1
    funext t
    simp only [Function.comp]
    split
    · rfl
    · split
      · rfl
      · exact h.nQuery
  · simp only [Option.map_some, h.nQuery]

theorem setupTrack_track {rc rc' : RtspClient} (h : rc.setupTrack = some rc') :
    rc'.track = rc.track ∧ rc.track = some rc'.nQuery ∧ rc'.allPorts = rc.allPorts ∧
      rc'.isTransport = rc.isTransport ∧ rc'.strUrl = rc.strUrl := by
  have own : rc.track = some rc'.nQuery := by rw [RtspClient.track, h, Option.map_some]
  rw [own]
  unfold RtspClient.setupTrack at h
  split at h
  · rename_i hq
    rw [Option.map_eq_some_iff] at h
    obtain ⟨t, ht, rfl⟩ := h
    split
    · exact ⟨rfl, rfl, rfl, rfl, rfl⟩
    · split
      · exact ⟨rfl, rfl, rfl, rfl, rfl⟩
      · rename_i hv ha
        refine ⟨?_, rfl, rfl, rfl, rfl⟩
        rw [RtspClient.track, RtspClient.setupTrack, if_pos hq, ht, Option.map_some, if_neg hv, if_neg ha]
        rfl
  · rename_i hq
    cases h
    refine ⟨?_, rfl, rfl, rfl, rfl⟩
    rw [RtspClient.track, RtspClient.setupTrack, if_neg hq]
    rfl

theorem storePorts_sameTrack (ports : Int × Int) :
    SameTrack rc (rc.storePorts ports) ∧ (rc.storePorts ports).isTransport = rc.isTransport := by
  unfold RtspClient.storePorts
  split <;> exact ⟨⟨rfl, rfl, rfl⟩, rfl⟩

/-- What a `Transport` line leaves in a slot whose track is known. -/
theorem transportHeader_read (hn : hasName "Transport" p.1 = true) :
    SameTrack rc (rc.transportHeader (headerData "Transport" p.1 p.2)) ∧
      (rc.transportHeader (headerData "Transport" p.1 p.2)).isTransport = true ∧
      (rc.transportHeader (headerData "Transport" p.1 p.2)).eTransport =
        ((namedPorts p).map Prod.fst).getD rc.eTransport ∧
      (rc.transportHeader (headerData "Transport" p.1 p.2)).allPorts =
        match namedPorts p with
        | none => rc.allPorts
        | some named => storeAt rc.nQuery named.2 rc.allPorts := by
  rw [namedPorts, if_pos hn]
  have stored (tr : RtspTransport) (ports : Int × Int) :
      SameTrack rc ({ rc with isTransport := true, eTransport := tr }.storePorts ports) ∧
      ({ rc with isTransport := true, eTransport := tr }.storePorts ports).isTransport = true ∧
      ({ rc with isTransport := true, eTransport := tr }.storePorts ports).eTransport = tr ∧
      ({ rc with isTransport := true, eTransport := tr }.storePorts ports).allPorts =
        storeAt rc.nQuery ports rc.allPorts := by
    obtain ⟨same, flag⟩ := storePorts_sameTrack { rc with isTransport := true, eTransport := tr } ports
    exact ⟨⟨same.strUrl, same.setupQuery, same.nQuery⟩, flag,
      (storePorts_tracks { rc with isTransport := true, eTransport := tr } ports).2,
      storePorts_allPorts { rc with isTransport := true, eTransport := tr } ports⟩
  rcases transportOf_cases (headerData "Transport" p.1 p.2) with h | h | h
  · simp only [RtspClient.transportHeader, h]
    exact stored .tcp _
  · simp only [RtspClient.transportHeader, h]
    exact stored .udp _
  · simp only [RtspClient.transportHeader, h]
    exact ⟨⟨rfl, rfl, rfl⟩, trivial, rfl, rfl⟩

/-- The effective transport lines: without a track none is looked at. -/
def namedWith (track : Option Nat) (ps : List (List UInt8 × List UInt8)) :
    List (RtspTransport × Int × Int) :=
  match track with
  | none => []
  | some _ => ps.filterMap namedPorts

/-- The port arrays after the last of `named` has been stored. -/
def portsAfter (track : Option Nat) (named : List (RtspTransport × Int × Int)) (all : Ports) : Ports :=
  match track, named.getLast? with
  | some q, some n => storeAt q n.2 all
  | _, _ => all

/-- What reading the header lines `ps` of a `SETUP` stores. -/
structure SetupRead (e : Env) (rc rc' : RtspClient) (ps : List (List UInt8 × List UInt8)) : Prop where
  method : rc'.method = .setup
  track : rc'.track = rc.track
  strUrl : rc'.strUrl = rc.strUrl
  login : rc'.login = (ps.filterMap (verdictOf e .setup)).getLast?.getD rc.login
  isTransport : rc'.isTransport =
    (rc.isTransport || (rc.track.isSome && ps.any fun p => hasName "Transport" p.1))
  eTransport : rc'.eTransport =
    ((namedWith rc.track ps).getLast?.map Prod.fst).getD rc.eTransport
  ports : rc'.allPorts = portsAfter rc.track (namedWith rc.track ps) rc.allPorts

theorem SetupRead.nil (hm : rc.method = .setup) : SetupRead e rc rc [] := by
  refine ⟨hm, rfl, rfl, rfl, ?_, ?_, ?_⟩
  · simp
  · cases rc.track <;> rfl
  · cases rc.track <;> rfl

theorem headerCommon_sameTrack : SameTrack rc (rc.headerCommon e p.1 p.2) ∧
    (rc.headerCommon e p.1 p.2).allPorts = rc.allPorts ∧
    (rc.headerCommon e p.1 p.2).isTransport = rc.isTransport := by
  unfold RtspClient.headerCommon
  split
  · exact ⟨⟨rfl, rfl, rfl⟩, rfl, rfl⟩
  · split
    · exact ⟨⟨rfl, rfl, rfl⟩, rfl, rfl⟩
    · split <;> exact ⟨⟨rfl, rfl, rfl⟩, rfl, rfl⟩

variable {e rc p} {rc' : RtspClient} {ps : List (List UInt8 × List UInt8)}

theorem namedWith_append (track : Option Nat) : namedWith track (ps ++ [p]) =
    namedWith track ps ++ if track.isSome then (namedPorts p).toList else [] := by
  cases track with
  | none => rfl
  | some q =>
    rw [namedWith, List.filterMap_append]
    cases h : namedPorts p with
    | none => simp only [List.filterMap_cons, h, List.filterMap_nil, Option.toList_none]; rfl
    | some n => simp only [List.filterMap_cons, h, List.filterMap_nil, Option.toList_some]; rfl

theorem portsAfter_append (q : Nat) (named : List (RtspTransport × Int × Int)) (all : Ports)
    (n : RtspTransport × Int × Int) :
    portsAfter (some q) (named ++ [n]) all = storeAt q n.2 (portsAfter (some q) named all) := by
  simp only [portsAfter, List.getLast?_append, List.getLast?_singleton, Option.some_or]
  cases named.getLast? with
  | none => rfl
  | some m => exact (storeAt_storeAt q n.2 m.2 all).symm

/-- Reading one more line. -/
theorem SetupRead.snoc (h : SetupRead e rc rc' ps) :
    SetupRead e rc (rtspdClientRtspHeaderParse e rc' p.1 p.2) (ps ++ [p]) := by
  obtain ⟨same, ports, flag⟩ := headerCommon_sameTrack e rc' p
  have method : (rtspdClientRtspHeaderParse e rc' p.1 p.2).method = .setup :=
    (headerParse_method e rc' p.1 p.2).trans h.method
  have login : (rtspdClientRtspHeaderParse e rc' p.1 p.2).login =
      ((ps ++ [p]).filterMap (verdictOf e .setup)).getLast?.getD rc.login := by
    rw [(headerParse_tracks e rc' p.1 p.2).1.login, headerCommon_verdict, h.method, h.login,
      List.filterMap_append]
    cases hv : verdictOf e .setup p with
    | none => simp only [List.filterMap_cons, hv, List.filterMap_nil, List.append_nil, Option.getD_none]
    | some v =>
      simp only [List.filterMap_cons, hv, List.filterMap_nil, List.getLast?_append,
        List.getLast?_singleton, Option.some_or, Option.getD_some]
  have track : (rc'.headerCommon e p.1 p.2).track = rc.track := same.track.trans h.track
  have setup : (rc'.headerCommon e p.1 p.2).method = .setup :=
    (headerCommon_method e rc' p.1 p.2).trans h.method
  cases ht : (rc'.headerCommon e p.1 p.2).setupTrack with
  | none =>
    have parse : rtspdClientRtspHeaderParse e rc' p.1 p.2 = rc'.headerCommon e p.1 p.2 := by
      simp only [rtspdClientRtspHeaderParse, setup, ht]
    have untracked : rc.track = none := by rw [← track, RtspClient.track, ht, Option.map_none]
    refine ⟨method, ?_, ?_, login, ?_, ?_, ?_⟩
    · rw [parse, track]
    · rw [parse, same.strUrl, h.strUrl]
    · rw [parse, flag, h.isTransport, untracked]
      rfl
    · rw [parse, headerCommon_eTransport, h.eTransport, untracked]
      rfl
    · rw [parse, ports, h.ports, untracked]
      rfl
  | some rc₂ =>
    have parse : rtspdClientRtspHeaderParse e rc' p.1 p.2 =
        if hasName "Transport" p.1 then rc₂.transportHeader (headerData "Transport" p.1 p.2) else rc₂ := by
      simp only [rtspdClientRtspHeaderParse, setup, ht]
    obtain ⟨keeps, known, ports₂, flag₂, url₂⟩ := setupTrack_track ht
    have tracked : rc.track = some rc₂.nQuery := track.symm.trans known
    have named : namedWith rc.track (ps ++ [p]) = namedWith rc.track ps ++
        if rc.track.isSome then (namedPorts p).toList else [] := namedWith_append rc.track
    rw [tracked, Option.isSome_some, if_pos rfl] at named
    by_cases hn : hasName "Transport" p.1 = true
    · obtain ⟨same₃, flag₃, tr₃, ports₃⟩ := transportHeader_read rc₂ p hn
      simp only [if_pos hn] at parse
      refine ⟨method, ?_, ?_, login, ?_, ?_, ?_⟩
      · rw [parse, same₃.track, keeps, track]
      · rw [parse, same₃.strUrl, url₂, same.strUrl, h.strUrl]
      · rw [parse, flag₃, tracked, List.any_append, List.any_cons, hn]
        simp
      · rw [parse, tr₃, (setupTrack_tracks _ ht).2, headerCommon_eTransport, h.eTransport, tracked, named]
        cases namedPorts p with
        | none => simp only [Option.toList_none, List.append_nil, Option.map_none, Option.getD_none]
        | some n =>
          simp only [Option.toList_some, List.getLast?_append, List.getLast?_singleton, Option.some_or,
            Option.map_some, Option.getD_some]
      · rw [parse, ports₃, ports₂, ports, h.ports, tracked, named]
        cases namedPorts p with
        | none => simp only [Option.toList_none, List.append_nil]
        | some n => exact (portsAfter_append _ _ _ _).symm
    · have none : namedPorts p = none := by rw [namedPorts, if_neg hn]
      simp only [if_neg hn] at parse
      rw [none, Option.toList_none, List.append_nil] at named
      refine ⟨method, ?_, ?_, login, ?_, ?_, ?_⟩
      · rw [parse, keeps, track]
      · rw [parse, url₂, same.strUrl, h.strUrl]
      · rw [parse, flag₂, flag, h.isTransport, List.any_append, List.any_cons, List.any_nil,
          Bool.eq_false_iff.mpr hn, Bool.or_false, Bool.or_false]
      · rw [parse, (setupTrack_tracks _ ht).2, headerCommon_eTransport, h.eTransport, tracked, named]
      · rw [parse, ports₂, ports, h.ports, tracked, named]

/-- Reading all lines. -/
theorem SetupRead.lines (hm : rc.method = .setup) (ps : List (List UInt8 × List UInt8)) :
    SetupRead e rc (ps.foldl (fun rc p => rtspdClientRtspHeaderParse e rc p.1 p.2) rc) ps := by
  induction ps using List.reverseRecOn with
  | nil => exact .nil e rc hm
  | append_singleton ps p ih =>
    rw [List.foldl_append]
    exact ih.snoc

end read

section request

/-- The URL and the header lines of a request that parses. -/
def urlOf (buf : List UInt8) : List UInt8 := (RtspClient.zero.requestLine (cstr buf)).1.strUrl

def linePairs (buf : List UInt8) : List (List UInt8 × List UInt8) :=
  match (RtspClient.zero.requestLine (cstr buf)).2 with
  | none => []
  | some text => pairsOf text.length text

/-- The transports and ports a `SETUP` stores: none without a track in the URL. -/
def namedOf (buf : List UInt8) : List (RtspTransport × Int × Int) :=
  namedWith (trackOf (urlOf buf)) (linePairs buf)

/-- Whether the client counts as logged in once the request has been read. -/
def loginAfter (e : Env) (rc : RtspClient) (buf : List UInt8) : Bool :=
  ((linePairs buf).filterMap (verdictOf e .setup)).getLast?.getD rc.login

/-- `isTransport`: a `Transport` line has been looked at. -/
def transportSeen (buf : List UInt8) : Bool :=
  (trackOf (urlOf buf)).isSome && (linePairs buf).any fun p => hasName "Transport" p.1

/-- What a `SETUP` finds stored when its header has been read. -/
structure Stored (e : Env) (rc rc' : RtspClient) (buf : List UInt8) : Prop extends Spares rc rc' where
  method : rc'.method = .setup
  strUrl : rc'.strUrl = urlOf buf
  login : rc'.login = loginAfter e rc buf
  isTransport : rc'.isTransport = transportSeen buf
  eTransport : rc'.eTransport = ((namedOf buf).getLast?.map Prod.fst).getD rc.eTransport
  ports : rc'.allPorts = portsAfter (trackOf (urlOf buf)) (namedOf buf) rc.allPorts
  nSession : rc'.nSession = (sessionIdsOf buf).getLast?.getD rc.nSession

/-- The request line of a request whose header is read. -/
theorem requestLine_some {rc rc₀ : RtspClient} {s text : List UInt8}
    (h : rc.requestLine s = (rc₀, some text)) :
    rc₀ = { rc with method := rc₀.method, strUrl := rc₀.strUrl, strVersion := rc₀.strVersion,
                    isAccept := false, isTransport := false, setupQuery := strtypeNone,
                    nQuery := strtypeNumNone } ∧
      rc₀.strUrl = (RtspClient.zero.requestLine s).1.strUrl := by
  unfold RtspClient.requestLine at h ⊢
  split at h
  · cases h
  · split at h
    · cases h
    · split at h
      · cases h
      · split at h
        · cases h
        · cases h
          exact ⟨rfl, rfl⟩

theorem methodParse_stored {e : Env} {rc rc' : RtspClient} {buf : List UInt8}
    (h : rtspdClientRtspMethodParse e rc buf = (true, rc')) (hm : rc'.method = .setup) :
    Stored e rc rc' buf := by
  have reads := (methodParse_spec e rc buf).1
  have ids := methodParse_nSession e rc buf
  rw [h] at reads ids
  have same := requestLine_text RtspClient.zero rc (cstr buf)
  cases hl : rc.requestLine (cstr buf) with
  | mk rc₀ text =>
    rw [hl] at same
    cases text with
    | none =>
      simp only [rtspdClientRtspMethodParse, hl] at h
      cases h
    | some text =>
      simp only [rtspdClientRtspMethodParse, hl] at h
      obtain ⟨fresh, url⟩ := requestLine_some hl
      obtain rfl := (Prod.mk.inj h).2
      rw [(headerLines_spec e text.length rc₀ text).2.1] at hm
      have read := SetupRead.lines (e := e) hm (pairsOf text.length text)
      rw [← headerLines_foldl] at read
      have lines : linePairs buf = pairsOf text.length text := by
        simp only [linePairs, same]
      have track : rc₀.track = trackOf (urlOf buf) := by
        rw [fresh]
        unfold RtspClient.track RtspClient.setupTrack trackOf urlOf
        rw [← url]
        simp only [if_true, Option.map_map]
        congr 1
        funext t
        simp only [Function.comp]
        split
        · rfl
        · split <;> rfl
      have named : namedWith rc₀.track (pairsOf text.length text) = namedOf buf := by
        rw [namedOf, lines, track]
      refine ⟨reads, read.method, read.strUrl.trans url, ?_, ?_, ?_, ?_, ids⟩
      · rw [read.login, loginAfter, lines, fresh]
      · rw [read.isTransport, transportSeen, lines, track, fresh]
        rfl
      · rw [read.eTransport, named, fresh]
      · rw [read.ports, named, track, fresh]
        rfl

end request

section refused

/-- The slot holds the ports a store at index `q` would write. -/
def HoldsAt (q : Nat) (ports : Int × Int) (all : Ports) : Prop :=
  match q with
  | 0 => all.1 0 = toWord ports.1 ∧ all.2 0 = toWord ports.2
  | 1 => all.1 1 = toWord ports.1 ∧ all.2 1 = toWord ports.2
  | _ => all.2 0 = toWord ports.1

theorem update_eq_self {f : Fin 2 → Nat} {i : Fin 2} {n : Nat} : Function.update f i n = f ↔ f i = n := by
  rw [Function.update_eq_self_iff]
  exact eq_comm

theorem storeAt_eq_self {q : Nat} {ports : Int × Int} {all : Ports} :
    storeAt q ports all = all ↔ HoldsAt q ports all := by
  unfold storeAt HoldsAt
  split
  · rw [Prod.mk.injEq, update_eq_self, update_eq_self]
  · rw [Prod.mk.injEq, update_eq_self, update_eq_self]
  · rw [Prod.mk.injEq, update_eq_self]
    exact and_iff_right rfl

/-- What a `SETUP` that is not answered 200 has to leave. -/
structure Unchanged (rc rc' : RtspClient) : Prop where
  state : rc'.state = rc.state ∨ rc'.state = .error
  eTransport : rc'.eTransport = rc.eTransport
  rtpPort : rc'.connInfo.rtpPort = rc.connInfo.rtpPort
  rtcpPort : rc'.connInfo.rtcpPort = rc.connInfo.rtcpPort
  playQuery : rc'.playQuery = rc.playQuery
  nSession : rc'.nSession = rc.nSession
  rtpSs : ∀ s, rc.rtpSs = some s → rc'.rtpSs = some s

/-- The request gets past login, state and URL to the checks of `SETUP`. -/
def ReachesChecks (e : Env) (rc : RtspClient) (buf : List UInt8) : Prop :=
  stateAllows .setup rc.state = true ∧ loginAfter e rc buf = true ∧
    (rtspdClientRtspCheckUrl e { rc with strUrl := urlOf buf }).1 = true

/-- No block for the session, or no `Transport` line: the refusals of the checks that move the
session to `ERROR`. -/
def Errs (e : Env) (rc : RtspClient) (transport : Bool) : Prop :=
  e.playerCount < rtspPlayMax ∧ ((rc.rtpSs = none ∧ e.alloc = false) ∨ transport = false)

/-- The requests whose refusal leaves the session alone. -/
structure SetupKeeps (e : Env) (rc : RtspClient) (buf : List UInt8) : Prop where
  session : ∀ n ∈ (sessionIdsOf buf).getLast?, n = rc.nSession
  transport : ∀ n ∈ (namedOf buf).getLast?, n.1 = rc.eTransport
  ports : ∀ q ∈ trackOf (urlOf buf), ∀ n ∈ (namedOf buf).getLast?, HoldsAt q n.2 rc.allPorts
  state : ReachesChecks e rc buf → rc.state = .setup ∨ Errs e rc (transportSeen buf)

variable {e : Env} {rc rc' : RtspClient} {buf : List UInt8}

theorem getD_eq_self {α : Type} {o : Option α} {x : α} : o.getD x = x ↔ ∀ n ∈ o, n = x := by
  cases o with
  | none => exact ⟨fun _ n hn => (nomatch hn), fun _ => rfl⟩
  | some y => exact ⟨fun h n hn => (Option.some.inj hn) ▸ h, fun h => h y rfl⟩

theorem portsAfter_eq_self {track : Option Nat} {named : List (RtspTransport × Int × Int)} {all : Ports} :
    portsAfter track named all = all ↔ ∀ q ∈ track, ∀ n ∈ named.getLast?, HoldsAt q n.2 all := by
  unfold portsAfter
  cases track with
  | none => exact ⟨fun _ q hq => (nomatch hq), fun _ => rfl⟩
  | some q =>
    cases named.getLast? with
    | none => exact ⟨fun _ _ _ n hn => (nomatch hn), fun _ => rfl⟩
    | some n =>
      simp only [storeAt_eq_self]
      constructor
      · intro h q' hq n' hn
        cases hq
        cases hn
        exact h
      · exact fun h => h q rfl n rfl

theorem setupAdmit_refusal (h : rc.setupAdmit e = .inl a) :
    ∃ ss status, a = rtspdClientRtspProcessError e { rc with rtpSs := ss } status ∧
      (∀ s, rc.rtpSs = some s → ss = some s) ∧
      (status.keepsState = false ↔ Errs e rc rc.isTransport) := by
  unfold RtspClient.setupAdmit at h
  split at h
  · rename_i full
    refine ⟨rc.rtpSs, .s453, (Sum.inl.inj h).symm, fun _ hs => hs, ?_⟩
    exact iff_of_false nofun fun k => absurd k.1 (Nat.not_lt.mpr full)
  · rename_i room
    split at h
    · rename_i halloc
      refine ⟨rc.rtpSs, .s500, (Sum.inl.inj h).symm, fun _ hs => hs, iff_of_true rfl ?_⟩
      refine ⟨Nat.lt_of_not_le room, .inl ?_⟩
      unfold RtspClient.allocSs at halloc
      split at halloc
      · cases halloc
      · rename_i hs
        split at halloc
        · cases halloc
        · rename_i hf
          exact ⟨hs, Bool.eq_false_iff.mpr hf⟩
    · rename_i rc₁ halloc
      obtain ⟨_, same, block⟩ := allocSs_some e halloc
      have found : ¬ (rc.rtpSs = none ∧ e.alloc = false) := by
        rintro ⟨hs, hf⟩
        simp only [RtspClient.allocSs, hs, hf] at halloc
        cases halloc
      split at h
      · rename_i status hc
        refine ⟨rc₁.rtpSs, status, ?_, fun s hs => ?_, ?_⟩
        · rw [← same]
          exact (Sum.inl.inj h).symm
        · rw [block (by rw [hs]; rfl)]
          exact hs
        · have flag : rc₁.isTransport = rc.isTransport := by rw [same]
          rw [Errs, ← flag]
          unfold RtspClient.setupCheck at hc
          split at hc
          · rename_i seen
            refine iff_of_false ?_ fun k => k.2.elim found fun k => absurd (k.symm.trans seen) nofun
            split at hc
            · split at hc
              · cases hc
              · cases hc
                nofun
            · cases hc
              nofun
          · rename_i unseen
            cases hc
            exact iff_of_true rfl ⟨Nat.lt_of_not_le room, .inr (Bool.eq_false_iff.mpr unseen)⟩
      · cases h

/-- The URL check looks at the stream and the URL only, and stores neither ports nor the flag. -/
theorem checkUrl_verdict (live : rc'.isLive = rc.isLive) (url : rc'.strUrl = rc.strUrl) :
    (rtspdClientRtspCheckUrl e rc').1 = (rtspdClientRtspCheckUrl e rc).1 := by
  unfold rtspdClientRtspCheckUrl
  simp only [live, url]
  split
  · cases urlPath rc.strUrl with
    | none => rfl
    | some path =>
      simp only
      split
      · rfl
      · cases e.streamOf path <;> rfl
  · split <;> rfl

theorem checkUrl_ports (h : rtspdClientRtspCheckUrl e rc = (ok, rc')) :
    rc'.allPorts = rc.allPorts ∧ rc'.isTransport = rc.isTransport := by
  unfold rtspdClientRtspCheckUrl at h
  simp only at h
  split at h
  · split at h
    · cases h
      exact ⟨rfl, rfl⟩
    · split at h
      · cases h
        exact ⟨rfl, rfl⟩
      · split at h <;>
        · cases h
          exact ⟨rfl, rfl⟩
  · split at h <;>
    · cases h
      exact ⟨rfl, rfl⟩

/-- What a refusal leaves of the slot, and when it moves the state elsewhere than to `ERROR`. -/
structure Refused (e : Env) (rc : RtspClient) (reached : Prop) (a : Answer) : Prop where
  eTransport : a.rc.eTransport = rc.eTransport
  ports : a.rc.allPorts = rc.allPorts
  playQuery : a.rc.playQuery = rc.playQuery
  nSession : a.rc.nSession = rc.nSession
  rtpSs : ∀ s, rc.rtpSs = some s → a.rc.rtpSs = some s
  state : (a.rc.state = rc.state ∨ a.rc.state = .error) ↔
    (reached → rc.state = .setup ∨ Errs e rc rc.isTransport)

section error

variable (e : Env) (rc : RtspClient) (status : RtspStatus)

@[simp] theorem processError_eTransport :
    (rtspdClientRtspProcessError e rc status).rc.eTransport = rc.eTransport := by rw [processError_rc]

@[simp] theorem processError_allPorts :
    (rtspdClientRtspProcessError e rc status).rc.allPorts = rc.allPorts := by
  rw [processError_rc]
  rfl

@[simp] theorem processError_playQuery :
    (rtspdClientRtspProcessError e rc status).rc.playQuery = rc.playQuery := by rw [processError_rc]

@[simp] theorem processError_nSession :
    (rtspdClientRtspProcessError e rc status).rc.nSession = rc.nSession := by rw [processError_rc]

@[simp] theorem processError_rtpSs :
    (rtspdClientRtspProcessError e rc status).rc.rtpSs = rc.rtpSs := by rw [processError_rc]

@[simp] theorem processError_state : (rtspdClientRtspProcessError e rc status).rc.state =
    if status.keepsState then rc.state else .error := by rw [processError_rc]

end error

theorem processError_refusal {reached : Prop} (status : RtspStatus) (h : ¬ reached) :
    Refused e rc reached (rtspdClientRtspProcessError e rc status) := by
  refine ⟨processError_eTransport e rc status, processError_allPorts e rc status,
    processError_playQuery e rc status, processError_nSession e rc status, fun s hs => ?_,
    iff_of_true ?_ fun k => absurd k h⟩
  · rw [processError_rtpSs, hs]
  · rw [processError_state]
    cases status.keepsState
    · exact .inr rfl
    · exact .inl rfl

/-- A refusal by the checks of `SETUP`, after the state has become `SETUP`. -/
theorem setupChecks_refusal (allowed : stateAllows .setup rc.state = true)
    (h : { rc with state := RtspClientState.setup }.setupAdmit e = .inl a) :
    Refused e rc (stateAllows .setup rc.state = true) a := by
  obtain ⟨ss, status, rfl, block, errs⟩ := setupAdmit_refusal h
  refine ⟨processError_eTransport e _ status, processError_allPorts e _ status,
    processError_playQuery e _ status, processError_nSession e _ status, fun s hs => ?_, ?_⟩
  · rw [processError_rtpSs]
    exact block s hs
  · have live : rc.state ≠ .error := by
      intro he
      rw [he] at allowed
      cases allowed
    rw [processError_state]
    cases hk : status.keepsState with
    | true =>
      have none : ¬ Errs e rc rc.isTransport := fun k => absurd (errs.mpr k) (by rw [hk]; nofun)
      constructor
      · rintro (same | same)
        · exact fun _ => .inl same.symm
        · cases same
      · exact fun k => .inl ((k allowed).resolve_right none).symm
    | false => exact iff_of_true (.inr rfl) fun _ => .inr (errs.mp hk)

theorem processSetup_refusal (ha : ¬ (rtspdClientRtspProcessSetup e rc).Accepted) :
    Refused e rc (stateAllows .setup rc.state = true) (rtspdClientRtspProcessSetup e rc) := by
  revert ha
  unfold rtspdClientRtspProcessSetup
  split
  · rename_i rc₁ hs
    intro _
    obtain ⟨refused, rfl⟩ := state_false hs
    have moves := (setupRefused_moves e rc₁).1
    refine ⟨?_, ?_, ?_, ?_, fun _ hs => ?_, iff_of_true ?_ fun k => absurd k (by rw [refused]; nofun)⟩
    · rw [moves.slot]
    · rw [moves.slot]
      rfl
    · rw [moves.slot]
    · rw [moves.slot]
    · rw [moves.slot]
      exact hs
    · exact moves.state.imp id fun h => h.elim id fun h => (nomatch h.1)
  · rename_i rc₁ hs
    obtain ⟨allowed, rfl⟩ := state_true hs
    split
    · rename_i hadmit
      exact fun _ => setupChecks_refusal allowed hadmit
    · rename_i hadmit
      exact fun ha => absurd (setupAdmit_inr e hadmit).2.2.2.2.2 ha

/-- The URL check stores nothing a refusal speaks of. -/
theorem Refused.of_checked {reached : Prop} (h : Refused e rc' reached a)
    (hc : rtspdClientRtspCheckUrl e rc = (ok, rc')) : Refused e rc reached a := by
  obtain ⟨state, query, block, tr, _, _⟩ := checkUrl_reads e hc
  obtain ⟨ports, flag⟩ := checkUrl_ports hc
  refine ⟨h.eTransport.trans tr, h.ports.trans ports, h.playQuery.trans query,
    h.nSession.trans (checkUrl_nSession hc), fun s hs => h.rtpSs s (block ▸ hs), ?_⟩
  have errs : Errs e rc' rc'.isTransport ↔ Errs e rc rc.isTransport := by
    rw [Errs, Errs, block, flag]
  rw [← state, ← errs]
  exact h.state

theorem dispatch_refusal (hm : rc.method = .setup) (ha : ¬ (dispatch e rc).Accepted) :
    Refused e rc (stateAllows .setup rc.state = true ∧ rc.login = true ∧
      (rtspdClientRtspCheckUrl e rc).1 = true) (dispatch e rc) := by
  have cases := dispatch_cases e rc
  generalize dispatch e rc = a at cases ha ⊢
  cases cases with
  | unauthorized h =>
    have refused : Refused e rc (stateAllows .setup rc.state = true ∧ rc.login = true ∧
        (rtspdClientRtspCheckUrl e rc).1 = true) (rtspdClientRtspProcessError e rc .s401) := by
      refine processError_refusal .s401 fun k => ?_
      rw [RtspClient.admitted, k.2.1] at h
      cases h
    exact ⟨refused.eTransport, refused.ports, refused.playQuery, refused.nSession, refused.rtpSs,
      refused.state⟩
  | torn _ h =>
    refine processError_refusal .s412 fun k => ?_
    rw [h] at k
    cases k.1
  | unserved _ _ hc =>
    refine (processError_refusal .s501 fun k => ?_).of_checked hc
    rw [hc] at k
    cases k.2.2
  | @handled rc' hadm _ hc =>
    obtain ⟨state, _, _, _, method, _⟩ := checkUrl_reads e hc
    have setup : processMethod e rc' = rtspdClientRtspProcessSetup e rc' := by
      simp only [processMethod, method.trans hm]
    have login : rc.login = true := by simpa [RtspClient.admitted, hm] using hadm
    rw [setup] at ha ⊢
    have refused := (processSetup_refusal ha).of_checked hc
    rw [state] at refused
    rw [hc, login]
    simpa only [and_true] using refused

/-- A refused `SETUP` leaves the session alone exactly when what its header names is stored already
and its refusal either comes before the state is moved or ends in `ERROR`. -/
theorem setup_rejected (e : Env) (rc rc' : RtspClient) (buf : List UInt8)
    (parsed : rtspdClientRtspMethodParse e rc buf = (true, rc')) (setup : rc'.method = .setup)
    (rejected : ¬ (dispatch e rc').Accepted) :
    Unchanged rc (dispatch e rc').rc ↔ SetupKeeps e rc buf := by
  have stored := methodParse_stored parsed setup
  have refused := dispatch_refusal setup rejected
  have session : (dispatch e rc').rc.nSession = rc.nSession ↔
      ∀ n ∈ (sessionIdsOf buf).getLast?, n = rc.nSession := by
    rw [refused.nSession, stored.nSession, getD_eq_self]
  have transport : (dispatch e rc').rc.eTransport = rc.eTransport ↔
      ∀ n ∈ (namedOf buf).getLast?, n.1 = rc.eTransport := by
    rw [refused.eTransport, stored.eTransport, getD_eq_self]
    simp only [Option.mem_map, forall_exists_index, and_imp, forall_apply_eq_imp_iff₂]
  have ports : (dispatch e rc').rc.allPorts = rc.allPorts ↔
      ∀ q ∈ trackOf (urlOf buf), ∀ n ∈ (namedOf buf).getLast?, HoldsAt q n.2 rc.allPorts := by
    rw [refused.ports, stored.ports, portsAfter_eq_self]
  have state : ((dispatch e rc').rc.state = rc.state ∨ (dispatch e rc').rc.state = .error) ↔
      (ReachesChecks e rc buf → rc.state = .setup ∨ Errs e rc (transportSeen buf)) := by
    have url : (rtspdClientRtspCheckUrl e rc').1 =
        (rtspdClientRtspCheckUrl e { rc with strUrl := urlOf buf }).1 :=
      checkUrl_verdict stored.isLive stored.strUrl
    rw [ReachesChecks, ← stored.login, ← url, ← stored.isTransport, ← stored.state, refused.state, Errs, Errs,
      stored.rtpSs]
  constructor
  · intro h
    exact ⟨session.mp h.nSession, transport.mp h.eTransport,
      ports.mp (Prod.ext h.rtpPort h.rtcpPort), state.mp h.state⟩
  · intro h
    have all := ports.mpr h.ports
    exact ⟨state.mpr h.state, transport.mpr h.transport, congrArg Prod.fst all, congrArg Prod.snd all,
      refused.playQuery.trans stored.playQuery, session.mpr h.session,
      fun s hs => refused.rtpSs s (stored.rtpSs ▸ hs)⟩

/-- A session in `OPTIONS`, as a client without a password reaches it. -/
def sampleOptions : Session :=
  (⟨Session.clientInit .none 0 9 0, []⟩ : Session).request (sampleEnv .none) optionsText

theorem sampleOptions_reach : Reach (session .none) Lts.any sampleOptions :=
  reach_request (reach_clientInit .none 0 9 0) _ _ rfl

def bareText : List UInt8 := ascii "SETUP rtsp://h/s/video RTSP/1.0\r\nCSeq: 2\r\n\r\n"

theorem setup_rejected_bare :
    Unchanged sampleOptions.rc
      (dispatch (sampleEnv .none) (rtspdClientRtspMethodParse (sampleEnv .none) sampleOptions.rc bareText).2).rc := by
  have parsed : rtspdClientRtspMethodParse (sampleEnv .none) sampleOptions.rc bareText =
      (true, (rtspdClientRtspMethodParse (sampleEnv .none) sampleOptions.rc bareText).2) :=
    Prod.ext (by decide +kernel) rfl
  refine (setup_rejected _ _ _ _ parsed (by decide +kernel) ?_).mpr ?_
  · rw [Answer.Accepted]
    decide +kernel
  · have ids : (sessionIdsOf bareText).getLast? = none := by decide +kernel
    have named : (namedOf bareText).getLast? = none := by decide +kernel
    have seen : transportSeen bareText = false := by decide +kernel
    refine ⟨?_, ?_, ?_, fun _ => .inr ⟨by decide, .inr seen⟩⟩
    · rw [ids]
      exact fun _ h => nomatch h
    · rw [named]
      exact fun _ h => nomatch h
    · rw [named]
      exact fun _ _ _ h => nomatch h

def wrongTrackText : List UInt8 := ascii
  "SETUP rtsp://h/s/trackID=1 RTSP/1.0\r\nTransport: RTP/AVP/TCP;interleaved=4-5\r\n\r\n"

/-- A 404 for an unknown track moves the state and stores the transport. -/
theorem setup_rejected_track : Reach (session .none) Lts.any sampleOptions ∧
    ∃ rc, rtspdClientRtspMethodParse (sampleEnv .none) sampleOptions.rc wrongTrackText = (true, rc) ∧
      rc.method = .setup ∧ statusOf (dispatch (sampleEnv .none) rc).reply = some .s404 ∧
      ¬ Unchanged sampleOptions.rc (dispatch (sampleEnv .none) rc).rc := by
  refine ⟨sampleOptions_reach, _, Prod.ext (by decide +kernel) rfl, by decide +kernel, by decide +kernel,
    fun h => absurd h.eTransport (by decide +kernel)⟩

end refused

end En675.Rtsp
