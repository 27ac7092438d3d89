import En675.Rtsp.Receive

/-! `write_size` over the turns of `rtspd_client_main`: what a message that is handed to the session
makes it write. -/

namespace En675.Rtsp

open Lib

/-- A complete message, what the other tasks have made of the slot before it is handed, what the buffer
and the memory behind it hold where no reply is built, and how much `lwip_send` takes. -/
structure Message where
  env : Env
  buf : List UInt8
  meanwhile : RtspClient → RtspClient
  held : Nat → UInt8
  taken : Nat

/-- The locals of `rtspd_client_main`; nothing sets `writeSize`, here as the `size_t` it is sent as,
before the first answer. -/
structure Replier where
  rc : RtspClient
  writeSize : Nat
  /-- In a `while (1)` of a handler. -/
  hung : Bool

/-- What goes out of the octets that `lwip_send` is given. -/
def lwipSend (out : List UInt8) (taken : Nat) : List (List UInt8) :=
  if out.take taken = [] then [] else [out.take taken]

namespace Replier

variable (s : Replier) (m : Message)

/-- The slot as the message finds it. -/
def found : RtspClient := m.meanwhile s.rc

/-- The loop still reads. -/
def Reads : Prop := s.hung = false ∧ (s.found m).state.Lively

instance : Decidable (s.Reads m) := inferInstanceAs (Decidable (_ ∧ _))

def parsed : Bool × RtspClient := rtspdClientRtspMethodParse m.env (s.found m) m.buf

/-- The answer that is built for the message. -/
def answer : Option Answer :=
  if s.Reads m then
    match s.parsed m with
    | (false, _) => none
    | (true, rc) => some (dispatch m.env rc)
  else none

/-- Behind a message that does not parse: `write_size` is as it was. -/
def rejected (rc : RtspClient) : Replier × List (List UInt8) :=
  ({ s with rc },
    if s.writeSize ≠ 0 then lwipSend ((List.range s.writeSize).map m.held) m.taken else [])

/-- Behind a handler. -/
def replied (a : Answer) : Replier × List (List UInt8) :=
  if a.hangs then ({ rc := a.rc, writeSize := 0, hung := true }, [])
  else
    ({ s with rc := a.rc, writeSize := a.reply.length },
      if a.reply.length ≠ 0 then lwipSend a.reply m.taken else [])

/-- A turn of the loop, with the pieces that go out. -/
def turn : Replier × List (List UInt8) :=
  if s.Reads m then
    match s.parsed m with
    | (false, rc) => s.rejected m rc
    | (true, rc) => s.replied m (dispatch m.env rc)
  else ({ s with rc := s.found m }, [])

def next : Replier := (s.turn m).1

/-- At most one piece goes out, and it is of the reply to the message. -/
def Matches : Prop :=
  (s.turn m).2.length ≤ 1 ∧ ∀ out ∈ (s.turn m).2, ∃ a ∈ s.answer m, out <+: a.reply

/-- The message parses, no length is left from before, or the socket takes nothing. -/
def Answerable : Prop :=
  s.Reads m → (s.parsed m).1 = true ∨ s.writeSize = 0 ∨ m.taken = 0

end Replier

section lwipSend

theorem lwipSend_length (out : List UInt8) (taken : Nat) : (lwipSend out taken).length ≤ 1 := by
  unfold lwipSend
  split
  · exact Nat.zero_le 1
  · exact le_rfl

theorem lwipSend_begins (h : piece ∈ lwipSend out taken) : piece <+: out := by
  unfold lwipSend at h
  split at h
  · cases h
  · rw [List.mem_singleton.mp h]
    exact List.take_prefix taken out

@[simp] theorem lwipSend_eq_nil : lwipSend out taken = [] ↔ taken = 0 ∨ out = [] := by
  rw [← List.take_eq_nil_iff]
  unfold lwipSend
  split <;> simp only [*, List.cons_ne_nil]

end lwipSend

namespace Replier

variable {s : Replier} {m : Message} {rc : RtspClient}

@[simp] theorem replied_rc (a : Answer) : (s.replied m a).1.rc = a.rc := by
  unfold replied
  split <;> rfl

theorem turn_parsed (reads : s.Reads m) (h : s.parsed m = (true, rc)) :
    s.turn m = s.replied m (dispatch m.env rc) := by
  simp only [turn, if_pos reads, h]

theorem turn_rejected (reads : s.Reads m) (h : s.parsed m = (false, rc)) :
    s.turn m = s.rejected m rc := by
  simp only [turn, if_pos reads, h]

theorem answer_parsed (reads : s.Reads m) (h : s.parsed m = (true, rc)) :
    s.answer m = some (dispatch m.env rc) := by
  simp only [answer, if_pos reads, h]

theorem answer_rejected (reads : s.Reads m) (h : s.parsed m = (false, rc)) : s.answer m = none := by
  simp only [answer, if_pos reads, h]

/-- The turns are those of the receive loop. -/
theorem next_handles (alone : m.meanwhile = id) (reads : s.Reads m) (n : Nat) :
    (s.next m).rc = ((rtspdClientMain fun _ => m.env).handle ⟨n, s.rc⟩ m.buf).rc := by
  have same : s.parsed m = rtspdClientRtspMethodParse m.env s.rc m.buf := by
    rw [parsed, found, alone, id]
  cases h : s.parsed m with
  | mk ok rc =>
    cases ok with
    | false => simp only [next, turn_rejected reads h, rejected, rtspdClientMain, ← same, h]
    | true => simp only [next, turn_parsed reads h, replied_rc, rtspdClientMain, ← same, h]

/-- What a message that parses makes the loop write is of its reply. -/
theorem matches_parsed (reads : s.Reads m) (h : s.parsed m = (true, rc)) : s.Matches m := by
  rw [Matches, turn_parsed reads h, answer_parsed reads h, replied]
  split
  · exact ⟨Nat.zero_le 1, nofun⟩
  · split
    · exact ⟨lwipSend_length _ _, fun out hout => ⟨_, rfl, lwipSend_begins hout⟩⟩
    · exact ⟨Nat.zero_le 1, nofun⟩

/-- No reply is built for a message that does not parse, and so nothing may go out. -/
theorem matches_rejected (reads : s.Reads m) (h : s.parsed m = (false, rc)) :
    s.Matches m ↔ (s.turn m).2 = [] := by
  rw [Matches, answer_rejected reads h]
  constructor
  · rintro ⟨_, of_reply⟩
    refine List.eq_nil_iff_forall_not_mem.mpr fun out hout => ?_
    obtain ⟨a, built, _⟩ := of_reply out hout
    cases built
  · intro silent
    rw [silent]
    exact ⟨Nat.zero_le 1, nofun⟩

theorem rejected_silent (rc : RtspClient) :
    (s.rejected m rc).2 = [] ↔ s.writeSize = 0 ∨ m.taken = 0 := by
  rw [rejected]
  by_cases zero : s.writeSize = 0
  · rw [if_neg (not_not.mpr zero)]
    exact ⟨fun _ => .inl zero, fun _ => rfl⟩
  · rw [if_pos zero, lwipSend_eq_nil, List.map_eq_nil_iff, List.range_eq_nil, or_comm]

theorem matches_iff : s.Matches m ↔ s.Answerable m := by
  unfold Answerable
  by_cases reads : s.Reads m
  · cases h : s.parsed m with
    | mk ok rc =>
      cases ok with
      | true => exact ⟨fun _ _ => .inl rfl, fun _ => matches_parsed reads h⟩
      | false =>
        rw [matches_rejected reads h, turn_rejected reads h, rejected_silent]
        exact ⟨fun silent _ => .inr silent, fun k => (k reads).resolve_left nofun⟩
  · refine ⟨fun _ k => absurd k reads, fun _ => ?_⟩
    rw [Matches, turn, if_neg reads]
    exact ⟨Nat.zero_le 1, nofun⟩

/-- Whatever messages are handed, the replies match them if and only if no message is rejected while
`write_size` holds a length and the socket takes something. -/
theorem replies_match_iff (s : Replier) (ms : List Message) :
    Allowed Matches next s ms ↔ Allowed Answerable next s ms := by
  induction ms generalizing s with
  | nil => exact Iff.rfl
  | cons m ms ih => exact and_congr matches_iff (ih (s.next m))

section sample

/-- The slot of a client that has just connected. -/
def sampleReplier (writeSize : Nat) : Replier := ⟨Session.clientInit .none 0 9 0, writeSize, false⟩

def messageOf (buf : List UInt8) (held : List UInt8) : Message where
  env := sampleEnv .none
  buf := buf
  meanwhile := id
  held i := held.getD i 0
  taken := 1460

def fooText : List UInt8 := ascii "FOO rtsp://h/s RTSP/1.0\r\n\r\n"

/-- The buffer when `FOO` has been rejected behind `reply`: the space behind the method is a null, and
so is the octet behind the message. -/
def fooHeld (reply : List UInt8) : List UInt8 :=
  fooText.set 3 0 ++ 0 :: reply.drop (fooText.length + 1)

def optionsReply : List UInt8 :=
  (dispatch (sampleEnv .none) ((sampleReplier 0).parsed (messageOf optionsText [])).2).reply

/-- `FOO` behind an `OPTIONS` is answered by its own text and the end of the reply to `OPTIONS`. -/
theorem reply_left :
    ¬ Allowed Matches next (sampleReplier 0)
      [messageOf optionsText [], messageOf fooText (fooHeld optionsReply)] := by
  rintro ⟨_, second, _⟩
  exact absurd (matches_iff.mp second (by decide +kernel)) (by decide +kernel)

end sample

end Replier

end En675.Rtsp
