import En675.Rtsp.SlotSteps

/-! Requests that no other task comes between: the steps of the RTSP task add up to what
`Session.request` does at once. -/

namespace En675.Rtsp

open Lib

namespace RtspSlot

variable {mode : RtspdAuth} {ok : RtspSlot → SlotEvent → Prop} {s : RtspSlot} {e : Env}

/-- The header lines one by one. -/
theorem lines_steps (fuel : Nat) (hf : text.length ≤ fuel) (hp : s.pc = .lines e text)
    (line : ∀ rc rest, Spares s.rc rc → rc.method = s.rc.method →
      ok { s with rc, pc := .lines e rest } (.rtsp .line)) :
    Steps (slot mode) ok s { s with rc := headerLines e text.length s.rc text, pc := .respond e } := by
  have here : { s with rc := s.rc, pc := .lines e text } = s := by rw [← hp]
  have first : ok s (.rtsp .line) := here ▸ line s.rc text (.refl _) rfl
  induction fuel generalizing s text with
  | zero =>
    have empty : text = [] := List.length_eq_zero_iff.mp (Nat.le_zero.mp hf)
    subst empty
    have step : (slot mode).step s (.rtsp .line) { s with pc := .respond e } :=
      .rtsp (.blank hp cut_crlf_nil)
    exact .single first step
  | succ fuel ih =>
    cases hc : cut crlf text with
    | none =>
      have step : (slot mode).step s (.rtsp .line) { s with pc := .respond e } := .rtsp (.blank hp hc)
      have same : headerLines e text.length s.rc text = s.rc := by
        cases text with
        | nil => rfl
        | cons a as => rw [List.length_cons, headerLines, hc]
      rw [same]
      exact .single first step
    | some p =>
      obtain ⟨l, rest⟩ := p
      have short := cut_length hc
      have two : crlf.length = 2 := rfl
      have step : (slot mode).step s (.rtsp .line)
          { s with rc := rtspdClientRtspHeaderParse e s.rc l rest, pc := .lines e rest } := .rtsp (.line hp hc)
      rw [headerLines_cut e hc]
      have spares := headerParse_reads e s.rc l rest
      have method := headerParse_method e s.rc l rest
      refine .cons first step (ih (by omega) rfl (fun rc rest' h hm => ?_) rfl (line _ rest spares method))
      exact line rc rest' (spares.trans h) (hm.trans method)

/-- The slot once a request that parses is answered. -/
def asked (s : RtspSlot) (e : Env) (buf : List UInt8) : RtspSlot :=
  let answer := (rtspdClientRtspMethodParse e s.rc buf).2.respond e
  { s with rc := answer.1, pc := answer.2, writeSize := 0 }

/-- The slot once a request that parses is read. -/
def parsed (s : RtspSlot) (e : Env) (buf : List UInt8) : RtspSlot :=
  { s with rc := (rtspdClientRtspMethodParse e s.rc buf).2, pc := .respond e }

theorem parsed_steps {buf : List UInt8} (hp : s.pc = .recv) (lively : s.rc.state.Lively)
    (parses : (rtspdClientRtspMethodParse e s.rc buf).1 = true)
    (request : ok s (.rtsp (.request e buf)))
    (line : ∀ rc text, Spares s.rc rc → rc.method = (rtspdClientRtspMethodParse e s.rc buf).2.method →
      ok { s with rc, pc := .lines e text } (.rtsp .line)) :
    Steps (slot mode) ok s (s.parsed e buf) := by
  obtain ⟨spares, _⟩ := requestLine_spec s.rc (cstr buf)
  unfold rtspdClientRtspMethodParse at parses
  split at parses
  · cases parses
  · rename_i rc text hr
    rw [hr] at spares
    have same : (rtspdClientRtspMethodParse e s.rc buf).2 = headerLines e text.length rc text := by
      simp only [rtspdClientRtspMethodParse, hr]
    have method : rc.method = (rtspdClientRtspMethodParse e s.rc buf).2.method := by
      rw [same, (headerLines_spec e text.length rc text).2.1]
    have read : (slot mode).step s (.rtsp (.request e buf)) { s with rc, pc := .lines e text } :=
      .rtsp (.request hp lively hr)
    have lines : Steps (slot mode) ok { s with rc, pc := .lines e text }
        { s with rc := headerLines e text.length rc text, pc := .respond e } :=
      lines_steps (s := { s with rc, pc := .lines e text }) text.length le_rfl rfl
        fun rc' rest h hm => line rc' rest (spares.trans h) (hm.trans method)
    rw [RtspSlot.parsed, same]
    exact .cons request read lines

theorem respond_step (s : RtspSlot) (e : Env) (buf : List UInt8) :
    SlotStep mode (s.parsed e buf) (.rtsp .respond) (s.asked e buf) := .rtsp (.respond rfl)

theorem asked_steps {buf : List UInt8} (hp : s.pc = .recv) (lively : s.rc.state.Lively)
    (parses : (rtspdClientRtspMethodParse e s.rc buf).1 = true)
    (request : ok s (.rtsp (.request e buf)))
    (line : ∀ rc text, Spares s.rc rc → rc.method = (rtspdClientRtspMethodParse e s.rc buf).2.method →
      ok { s with rc, pc := .lines e text } (.rtsp .line))
    (respond : ok { s with rc := (rtspdClientRtspMethodParse e s.rc buf).2, pc := .respond e } (.rtsp .respond)) :
    Steps (slot mode) ok s (s.asked e buf) :=
  (parsed_steps hp lively parses request line).trans (.single respond (respond_step s e buf))

/-- The slot once a `SETUP` has stored `play_query`. -/
def setUp (s : RtspSlot) (reply : List UInt8) : RtspSlot :=
  { s with
    rc := s.rc.tested.stored s.rc.tested.playQuery
    pc := .write reply
    tcp := if s.rc.spawns then s.tcp ++ [.top] else s.tcp }

theorem setUp_steps (hp : s.pc = .test reply) (setup : ∀ t, ok t (.rtsp .setup)) :
    Steps (slot mode) ok s (s.setUp reply) := by
  have test : SlotStep mode s (.rtsp .setup) _ := .rtsp (.test hp)
  have load (tcp : List TcpPc) : Steps (slot mode) ok { s with rc := s.rc.tested, pc := .load reply, tcp }
      { s with rc := s.rc.tested.stored s.rc.tested.playQuery, pc := .write reply, tcp } := by
    have load : SlotStep mode { s with rc := s.rc.tested, pc := .load reply, tcp } (.rtsp .setup) _ :=
      .rtsp (.load rfl)
    have store : SlotStep mode { s with rc := s.rc.tested, pc := .store s.rc.tested.playQuery reply, tcp }
      (.rtsp .setup) _ := .rtsp (.store rfl)
    exact .cons (setup _) load (.single (setup _) store)
  unfold RtspSlot.setUp
  refine .cons (setup _) test ?_
  split
  · have create : SlotStep mode { s with rc := s.rc.tested, pc := .create reply } (.rtsp .setup) _ :=
      .rtsp (.create rfl)
    exact .cons (setup _) create (load _)
  · exact load _

/-- The slot once a reply has gone out whole. -/
def written (s : RtspSlot) (reply : List UInt8) : RtspSlot :=
  { s with pc := .recv, writeSize := reply.length, puts := s.puts ++ [⟨reply, reply.length⟩] }

theorem written_steps (hp : s.pc = .write reply) (hr : reply ≠ [])
    (write : ok s (.rtsp (.write reply reply.length))) : Steps (slot mode) ok s (s.written reply) := by
  have step : SlotStep mode s (.rtsp (.write reply reply.length)) _ :=
    .rtsp (.write hp (by rw [Output, if_neg hr]) le_rfl)
  rw [if_neg hr] at step
  exact .single write step

section sample

/-- The reply that the RTSP task has at hand. -/
def replyOf : RtspPc → List UInt8
  | .write reply | .test reply | .free reply => reply
  | _ => []

def writes : RtspPc → Bool
  | .write (_ :: _) => true
  | _ => false

def tests : RtspPc → Bool
  | .test (_ :: _) => true
  | _ => false

/-- A request whose answer is written at once. -/
def answered (s : RtspSlot) (e : Env) (buf : List UInt8) : RtspSlot :=
  (s.asked e buf).written (replyOf (s.asked e buf).pc)

/-- A `SETUP` that is answered 200. -/
def admitted (s : RtspSlot) (e : Env) (buf : List UInt8) : RtspSlot :=
  ((s.asked e buf).setUp (replyOf (s.asked e buf).pc)).written (replyOf (s.asked e buf).pc)

/-- The steps of one request are acceptable. -/
structure Allows (ok : RtspSlot → SlotEvent → Prop) (s : RtspSlot) (e : Env) (buf : List UInt8) : Prop where
  request : ok s (.rtsp (.request e buf))
  line : ∀ rc text, Spares s.rc rc → rc.method = (rtspdClientRtspMethodParse e s.rc buf).2.method →
    ok { s with rc, pc := .lines e text } (.rtsp .line)
  respond : ok { s with rc := (rtspdClientRtspMethodParse e s.rc buf).2, pc := .respond e } (.rtsp .respond)
  setup : ∀ t, ok t (.rtsp .setup)
  write : ∀ t reply, t.pc = .write reply → reply ≠ [] → ok t (.rtsp (.write reply reply.length))

theorem allows_any (s : RtspSlot) (e : Env) (buf : List UInt8) : Allows Lts.any s e buf :=
  ⟨trivial, fun _ _ _ _ => trivial, trivial, fun _ => trivial, fun _ _ _ _ => trivial⟩

variable {buf : List UInt8}

theorem answered_steps (allows : Allows ok s e buf) (hp : s.pc = .recv) (lively : s.rc.state.Lively)
    (parses : (rtspdClientRtspMethodParse e s.rc buf).1 = true) (hw : writes (s.asked e buf).pc = true) :
    Steps (slot mode) ok s (s.answered e buf) := by
  have asks : Steps (slot mode) ok s (s.asked e buf) :=
    asked_steps hp lively parses allows.request allows.line allows.respond
  refine asks.trans ?_
  unfold RtspSlot.answered
  cases hpc : (s.asked e buf).pc with
  | write text =>
    rw [hpc] at hw
    have ne : text ≠ [] := by
      rintro rfl
      cases hw
    exact written_steps hpc ne (allows.write _ _ hpc ne)
  | _ =>
    rw [hpc] at hw
    cases hw

theorem admitted_steps (allows : Allows ok s e buf) (hp : s.pc = .recv) (lively : s.rc.state.Lively)
    (parses : (rtspdClientRtspMethodParse e s.rc buf).1 = true) (ht : tests (s.asked e buf).pc = true) :
    Steps (slot mode) ok s (s.admitted e buf) := by
  have asks : Steps (slot mode) ok s (s.asked e buf) :=
    asked_steps hp lively parses allows.request allows.line allows.respond
  refine asks.trans ?_
  unfold RtspSlot.admitted
  cases hpc : (s.asked e buf).pc with
  | test text =>
    rw [hpc] at ht
    have ne : text ≠ [] := by
      rintro rfl
      cases ht
    exact (setUp_steps hpc allows.setup).trans (written_steps rfl ne (allows.write _ _ rfl ne))
  | _ =>
    rw [hpc] at ht
    cases ht

/-- A client that has just come. -/
def sampleSlot : RtspSlot := ⟨Session.clientInit .none 0 9 0, .recv, 0, [], .away, false, false, []⟩

theorem sampleSlot_init : (slot .none).init sampleSlot :=
  ⟨⟨⟨0, 9, 0, rfl⟩, rfl, rfl, rfl⟩, rfl, rfl, rfl⟩

/-- The client has its video set up over TCP. -/
def sampleAdmitted : RtspSlot :=
  (sampleSlot.answered (sampleEnv .none) optionsText).admitted (sampleEnv .none) setupText

/-- The client plays. -/
def samplePlays : RtspSlot := sampleAdmitted.answered (sampleEnv .none) playText

theorem sampleAdmitted_reach (options : Allows ok sampleSlot (sampleEnv .none) optionsText)
    (setup : Allows ok (sampleSlot.answered (sampleEnv .none) optionsText) (sampleEnv .none) setupText) :
    Reach (slot .none) ok sampleAdmitted := by
  have first : Steps (slot .none) ok sampleSlot (sampleSlot.answered (sampleEnv .none) optionsText) :=
    answered_steps options rfl (by decide) (by decide +kernel) (by decide +kernel)
  have next : Steps (slot .none) ok (sampleSlot.answered (sampleEnv .none) optionsText) sampleAdmitted :=
    admitted_steps setup rfl (by decide +kernel) (by decide +kernel) (by decide +kernel)
  exact ((Reach.init sampleSlot_init).steps first).steps next

theorem samplePlays_reach (r : Reach (slot .none) ok sampleAdmitted)
    (play : Allows ok sampleAdmitted (sampleEnv .none) playText) : Reach (slot .none) ok samplePlays := by
  refine r.steps (answered_steps play rfl ?_ ?_ ?_) <;> decide +kernel

theorem reach_tcp (r : Reach (slot mode) ok s) (one : s.tcp = [p]) (h : TcpStep s p l t o)
    (allowed : ok s (.tcp l)) : Reach (slot mode) ok { t with tcp := o.toList } := by
  have step : SlotStep mode s (.tcp l) { t with tcp := [] ++ o.toList ++ [] } := .tcp one h
  rw [List.nil_append, List.append_nil] at step
  exact r.step allowed step

/-- The task of the client is about to call `video_play`. -/
def sampleInside : RtspSlot := { samplePlays with tcp := [.body .pack] }

theorem sampleInside_reach (r : Reach (slot .none) ok samplePlays) (go : ∀ t, ok t (.tcp .go)) :
    Reach (slot .none) ok sampleInside := by
  have play := reach_tcp r (p := .top) rfl (.play (by decide +kernel)) (go _)
  have check := reach_tcp play (p := .body .check) rfl (.body (.check (by decide +kernel))) (go _)
  exact reach_tcp check (p := .body .grab) rfl (.body .grab) (go _)

end sample

end RtspSlot

end En675.Rtsp
