import En675.Rtsp.Session

/-! The receive loop of `rtspd_client_main`: reads go behind what is waiting in `buffer`, and
the loop looks at the first octet and at the last four. -/

namespace En675.Rtsp

open Lib

/-- What a client sends: requests, and interleaved packets. -/
inductive Piece
  | request (buf : List UInt8)
  | packet (buf : List UInt8)
  deriving DecidableEq, Repr

def octet (buf : List UInt8) (i : Nat) : Nat := (buf.getD i 0).toNat

namespace Piece

def octets : Piece → List UInt8
  | .request buf => buf
  | .packet buf => buf

/-- A request ends at its first empty line; a packet is as long as its header says. -/
def Wf : Piece → Prop
  | .request buf =>
    buf.head? ≠ some 0x24 ∧ buf.length < 1460 ∧ ∃ h, cut (crlf ++ crlf) buf = some (h, [])
  | .packet buf =>
    buf.head? = some 0x24 ∧ 4 ≤ buf.length ∧ octet buf 2 * 256 + octet buf 3 = buf.length - 4

/-- A packet whose length reads the same in both byte orders, and which fits `buffer`. -/
def Symmetric : Piece → Prop
  | .request _ => True
  | .packet buf => octet buf 2 = octet buf 3 ∧ buf.length ≤ 4096

end Piece

/-- What the loop does with a request, and whether it goes on. -/
structure Handler (σ : Type) where
  isOpen : σ → Bool
  handle : σ → List UInt8 → σ

structure Receiver (σ : Type) where
  state : σ
  /-- `buffer[0 .. read_offset)`. -/
  waiting : List UInt8
  log : List Piece

/-- The length field as the processor reads it, low octet first. -/
def un16Length (buf : List UInt8) : Nat := octet buf 2 + 256 * octet buf 3

section loop

variable {σ : Type} (h : Handler σ)

/-- One turn of the loop with a read of `chunk`; `none` is an access outside `buffer`. -/
def Receiver.turn (r : Receiver σ) (chunk : List UInt8) : Option (Receiver σ) :=
  if !h.isOpen r.state then some r
  else
    let buf := r.waiting ++ chunk
    if 4096 < buf.length then none
    else if buf.head? = some 0x24 then
      -- below four octets `read_offset - 4` wraps and equals no length
      if 4 ≤ buf.length ∧ un16Length buf = buf.length - 4 then
        some { r with waiting := [], log := r.log ++ [.packet buf] }
      else some { r with waiting := buf }
    else if buf.length < 4 then none
    else if buf.drop (buf.length - 4) = crlf ++ crlf then
      if buf.length = 4096 then none
      else some ⟨h.handle r.state buf, [], r.log ++ [.request buf]⟩
    else some { r with waiting := buf }

def Receiver.run (r : Receiver σ) : List (List UInt8) → Option (Receiver σ)
  | [] => some r
  | chunk :: reads => (r.turn h chunk).bind fun r => r.run reads

/-- The session after a piece. -/
def Handler.after (s : σ) : Piece → σ
  | .request buf => h.handle s buf
  | .packet _ => s

/-- The loop goes on at every piece. -/
def Handler.staysOpen (s : σ) : List Piece → Bool
  | [] => true
  | p :: ps => h.isOpen s && staysOpen (h.after s p) ps

end loop

/-- Reads that end where the pieces end: `waiting` octets of the first piece have been read, and
a read in the middle of a request leaves four octets of it at least. -/
inductive Aligned : List UInt8 → List Piece → List (List UInt8) → Prop
  | done : Aligned [] [] []
  | more : (∀ buf, p = .request buf → 4 ≤ (waiting ++ chunk).length) →
      Aligned (waiting ++ chunk) (p :: ps) reads → Aligned waiting (p :: ps) (chunk :: reads)
  | last : waiting ++ chunk = p.octets → Aligned [] ps reads → Aligned waiting (p :: ps) (chunk :: reads)

section pieces

variable {p : Piece} {buf pre : List UInt8}

theorem octet_begins (h : pre <+: buf) (hi : i < pre.length) : octet pre i = octet buf i := by
  obtain ⟨rest, rfl⟩ := h
  rw [octet, octet, List.getD_eq_getElem?_getD, List.getD_eq_getElem?_getD,
    List.getElem?_append_left hi]

theorem head_begins (h : pre <+: buf) (hp : pre ≠ []) : pre.head? = buf.head? := by
  obtain ⟨rest, rfl⟩ := h
  cases pre with
  | nil => exact absurd rfl hp
  | cons x pre => rfl

/-- Inside a request no empty line has been read. -/
theorem no_blank {h : List UInt8} (hc : cut (crlf ++ crlf) buf = some (h, [])) (hp : pre <+: buf)
    (blank : pre.drop (pre.length - 4) = crlf ++ crlf) : pre = buf := by
  obtain ⟨rest, hr⟩ := hp
  have pieces : pre = pre.take (pre.length - 4) ++ (crlf ++ crlf) := by
    rw [← blank, List.take_append_drop]
  have first := cut_first hc (q := pre.take (pre.length - 4)) (t := rest) (by rw [← pieces, hr])
  have whole := congrArg List.length (cut_eq hc)
  have size := congrArg List.length pieces
  have sum := congrArg List.length hr
  have four : (crlf ++ crlf).length = 4 := rfl
  simp only [List.length_append, List.append_nil, four] at whole size sum first
  have none : rest = [] := List.length_eq_zero_iff.mp (by omega)
  rw [← hr, none, List.append_nil]

theorem blank_end {h : List UInt8} (hc : cut (crlf ++ crlf) buf = some (h, [])) :
    4 ≤ buf.length ∧ buf.drop (buf.length - 4) = crlf ++ crlf := by
  have whole := cut_eq hc
  rw [List.append_nil] at whole
  have four : (crlf ++ crlf).length = 4 := rfl
  rw [whole, List.length_append, four]
  exact ⟨Nat.le_add_left _ _, by rw [Nat.add_sub_cancel, List.drop_left]⟩

/-- The two byte orders agree on a length whose octets are equal. -/
theorem un16Length_symmetric (wf : (Piece.packet buf).Wf) (hs : (Piece.packet buf).Symmetric) :
    un16Length buf = buf.length - 4 := by
  have length := wf.2.2
  rw [hs.1] at length
  rw [un16Length, hs.1, ← length, Nat.add_comm, Nat.mul_comm]

theorem symmetric_of_un16Length (wf : (Piece.packet buf).Wf) (h : un16Length buf = buf.length - 4)
    (short : buf.length ≤ 4096) : (Piece.packet buf).Symmetric := by
  have length := wf.2.2
  have hi : octet buf 2 < 256 := UInt8.toNat_lt _
  have lo : octet buf 3 < 256 := UInt8.toNat_lt _
  rw [un16Length, ← length] at h
  exact ⟨by omega, short⟩

end pieces

section turn

variable {σ : Type} {h : Handler σ} {s : σ} {waiting chunk : List UInt8} {log ps : List Piece} {p : Piece}
  {reads : List (List UInt8)}

/-- A read in the middle of a piece is kept. -/
theorem turn_more (opened : h.isOpen s = true) (wf : p.Wf) (sym : p.Symmetric) (hc : chunk ≠ [])
    (hp : waiting ++ chunk <+: p.octets) (hn : waiting ++ chunk ≠ p.octets)
    (four : ∀ buf, p = .request buf → 4 ≤ (waiting ++ chunk).length) :
    (⟨s, waiting, log⟩ : Receiver σ).turn h chunk = some ⟨s, waiting ++ chunk, log⟩ := by
  have some_read : waiting ++ chunk ≠ [] := List.append_ne_nil_of_right_ne_nil _ hc
  have head := head_begins hp some_read
  have short := hp.length_le
  have proper : (waiting ++ chunk).length < p.octets.length :=
    Nat.lt_of_le_of_ne short fun he => hn (hp.eq_of_length he)
  simp only [Receiver.turn, opened, Bool.not_true, Bool.false_eq_true, if_false]
  cases p with
  | request buf =>
    obtain ⟨first, size, _, hcut⟩ := wf
    simp only [Piece.octets] at hp hn head short proper
    rw [if_neg (by omega), if_neg (head ▸ first), if_neg (Nat.not_lt.mpr (four buf rfl)),
      if_neg fun blank => hn (no_blank hcut hp blank)]
  | packet buf =>
    simp only [Piece.octets] at hp hn head short proper
    have length := un16Length_symmetric wf sym
    have size := sym.2
    rw [if_neg (by omega), if_pos (head.trans wf.1), if_neg]
    rintro ⟨long, he⟩
    have same : un16Length (waiting ++ chunk) = un16Length buf := by
      rw [un16Length, un16Length, octet_begins hp (by omega), octet_begins hp (by omega)]
    omega

/-- The read that completes a piece hands or skips it. -/
theorem turn_last (opened : h.isOpen s = true) (wf : p.Wf) (sym : p.Symmetric)
    (he : waiting ++ chunk = p.octets) :
    (⟨s, waiting, log⟩ : Receiver σ).turn h chunk = some ⟨h.after s p, [], log ++ [p]⟩ := by
  simp only [Receiver.turn, opened, Bool.not_true, Bool.false_eq_true, if_false]
  cases p with
  | request buf =>
    obtain ⟨first, size, _, hcut⟩ := wf
    obtain ⟨long, blank⟩ := blank_end hcut
    change waiting ++ chunk = buf at he
    rw [he, if_neg (by omega), if_neg first, if_neg (Nat.not_lt.mpr long), if_pos blank, if_neg (by omega)]
    rfl
  | packet buf =>
    change waiting ++ chunk = buf at he
    rw [he, if_neg (Nat.not_lt.mpr sym.2), if_pos wf.1, if_pos ⟨wf.2.1, un16Length_symmetric wf sym⟩]
    rfl

/-- What a turn of a session that goes on can do. -/
inductive Turned {σ : Type} (h : Handler σ) (s : σ) (buf : List UInt8) (log : List Piece) : Receiver σ → Prop
  | kept : buf.length ≤ 4096 → (buf.head? ≠ some 0x24 → 4 ≤ buf.length) → Turned h s buf log ⟨s, buf, log⟩
  | ended (p : Piece) : buf.length ≤ 4096 → (∀ b, p = .packet b → un16Length b = b.length - 4) →
      p.octets = buf → Turned h s buf log ⟨h.after s p, [], log ++ [p]⟩

theorem turn_cases (opened : h.isOpen s = true) {r : Receiver σ}
    (ht : (⟨s, waiting, log⟩ : Receiver σ).turn h chunk = some r) : Turned h s (waiting ++ chunk) log r := by
  simp only [Receiver.turn, opened, Bool.not_true, Bool.false_eq_true, if_false] at ht
  split at ht
  · cases ht
  · rename_i fits
    split at ht
    · rename_i dollar
      split at ht
      · rename_i whole
        cases ht
        refine .ended (.packet (waiting ++ chunk)) (Nat.not_lt.mp fits) ?_ rfl
        intro b hb
        cases hb
        exact whole.2
      · cases ht
        exact .kept (Nat.not_lt.mp fits) fun hd => absurd dollar hd
    · split at ht
      · cases ht
      · rename_i four
        split at ht
        · split at ht
          · cases ht
          · cases ht
            exact .ended (.request (waiting ++ chunk)) (Nat.not_lt.mp fits) nofun rfl
        · cases ht
          exact .kept (Nat.not_lt.mp fits) fun _ => Nat.not_lt.mp four

theorem turn_closed (closed : h.isOpen s = false) :
    (⟨s, waiting, log⟩ : Receiver σ).turn h chunk = some ⟨s, waiting, log⟩ := by
  simp only [Receiver.turn, closed, Bool.not_false, if_true]

theorem turn_log {r r' : Receiver σ} (ht : r.turn h chunk = some r') : r.log <+: r'.log := by
  cases ho : h.isOpen r.state with
  | false =>
    rw [turn_closed ho] at ht
    cases ht
    exact List.prefix_refl _
  | true =>
    have cases := turn_cases ho ht
    cases cases with
    | kept => exact List.prefix_refl _
    | ended => exact List.prefix_append _ _

theorem run_log {r r' : Receiver σ} (hr : r.run h reads = some r') : r.log <+: r'.log := by
  induction reads generalizing r with
  | nil =>
    cases hr
    exact List.prefix_refl _
  | cons chunk reads ih =>
    rw [Receiver.run, Option.bind_eq_some_iff] at hr
    obtain ⟨r₁, ht, hr⟩ := hr
    exact (turn_log ht).trans (ih hr)

theorem run_closed (closed : h.isOpen s = false) (reads : List (List UInt8)) :
    (⟨s, waiting, log⟩ : Receiver σ).run h reads = some ⟨s, waiting, log⟩ := by
  induction reads with
  | nil => rfl
  | cons chunk reads ih => rw [Receiver.run, turn_closed closed, Option.bind_some, ih]

end turn

section framing

variable {σ : Type} {h : Handler σ} {s : σ} {waiting : List UInt8} {log ps : List Piece}
  {reads : List (List UInt8)}

/-- Reads that are aligned have read a part of the first piece only. -/
theorem Aligned.proper {p : Piece} (a : Aligned waiting (p :: ps) reads) (hr : ∀ c ∈ reads, c ≠ []) :
    waiting <+: p.octets ∧ waiting ≠ p.octets := by
  induction reads generalizing waiting with
  | nil => cases a
  | cons chunk reads ih =>
    have proper {b : List UInt8} (hb : waiting ++ chunk <+: b) : waiting <+: b ∧ waiting ≠ b := by
      refine ⟨(List.prefix_append _ _).trans hb, fun he => ?_⟩
      have long := hb.length_le
      rw [List.length_append, ← he] at long
      have some_octet := List.length_pos_iff.mpr (hr chunk List.mem_cons_self)
      omega
    cases a with
    | more _ a => exact proper (ih a fun c hc => hr c (List.mem_cons_of_mem _ hc)).1
    | last he _ => exact proper (he ▸ List.prefix_refl _)

theorem Aligned.receives (a : Aligned waiting ps reads) (hr : ∀ c ∈ reads, c ≠ [])
    (wf : ∀ p ∈ ps, p.Wf) (sym : ∀ p ∈ ps, p.Symmetric) (opened : h.staysOpen s ps = true) :
    ∃ r, (⟨s, waiting, log⟩ : Receiver σ).run h reads = some r ∧ r.log = log ++ ps := by
  induction a generalizing s log with
  | done => exact ⟨_, rfl, (List.append_nil log).symm⟩
  | more four a ih =>
    have behind := fun c hc => hr c (List.mem_cons_of_mem _ hc)
    obtain ⟨part, proper⟩ := a.proper behind
    have now : h.isOpen s = true := (Bool.and_eq_true_iff.mp opened).1
    obtain ⟨r, run, same⟩ := ih behind wf sym opened
    refine ⟨r, ?_, same⟩
    rw [Receiver.run, turn_more now (wf _ List.mem_cons_self) (sym _ List.mem_cons_self)
      (hr _ List.mem_cons_self) part proper four, Option.bind_some]
    exact run
  | last he a ih =>
    obtain ⟨now, later⟩ := Bool.and_eq_true_iff.mp opened
    obtain ⟨r, run, same⟩ := ih (fun c hc => hr c (List.mem_cons_of_mem _ hc))
      (fun q hq => wf q (List.mem_cons_of_mem _ hq)) (fun q hq => sym q (List.mem_cons_of_mem _ hq)) later
    refine ⟨r, ?_, ?_⟩
    · rw [Receiver.run, turn_last now (wf _ List.mem_cons_self) (sym _ List.mem_cons_self) he, Option.bind_some]
      exact run
    · rw [same, List.append_assoc, List.singleton_append]

/-- A run that hands and skips the pieces of the stream one by one was aligned with them. -/
theorem receives_aligned {r : Receiver σ} (run : (⟨s, waiting, log⟩ : Receiver σ).run h reads = some r)
    (same : r.log = log ++ ps) (stream : waiting ++ reads.flatten = (ps.map Piece.octets).flatten)
    (hr : ∀ c ∈ reads, c ≠ []) (wf : ∀ p ∈ ps, p.Wf) :
    Aligned waiting ps reads ∧ (∀ p ∈ ps, p.Symmetric) ∧ h.staysOpen s ps = true := by
  induction reads generalizing s waiting log ps with
  | nil =>
    cases run
    obtain rfl : ps = [] := List.append_right_eq_self.mp same.symm
    rw [List.flatten_nil, List.append_nil] at stream
    rw [stream]
    exact ⟨.done, fun _ hp => (nomatch hp), rfl⟩
  | cons chunk reads ih =>
    have behind := fun c hc => hr c (List.mem_cons_of_mem _ hc)
    cases ps with
    | nil =>
      rw [List.flatten_cons, List.map_nil, List.flatten_nil, List.append_eq_nil_iff, List.append_eq_nil_iff]
        at stream
      exact absurd stream.2.1 (hr chunk List.mem_cons_self)
    | cons p ps =>
      have opened : h.isOpen s = true := by
        cases ho : h.isOpen s with
        | true => rfl
        | false =>
          rw [run_closed ho] at run
          cases run
          exact absurd (List.append_right_eq_self.mp same.symm) (List.cons_ne_nil _ _)
      rw [Receiver.run, Option.bind_eq_some_iff] at run
      obtain ⟨r₁, turn, run⟩ := run
      rw [List.flatten_cons, ← List.append_assoc] at stream
      have cases := turn_cases opened turn
      cases cases with
      | kept fits four =>
        obtain ⟨a, sym, later⟩ := ih run same stream behind wf
        refine ⟨.more (fun buf hb => ?_) a, sym, later⟩
        obtain ⟨part, _⟩ := a.proper behind
        have some_read : waiting ++ chunk ≠ [] :=
          List.append_ne_nil_of_right_ne_nil _ (hr chunk List.mem_cons_self)
        apply four
        rw [head_begins part some_read]
        have first := wf p List.mem_cons_self
        rw [hb] at first ⊢
        exact first.1
      | ended q fits length he =>
        have logs := run_log run
        rw [same] at logs
        obtain ⟨rest, hrest⟩ := logs
        rw [List.append_assoc, List.append_cancel_left_eq] at hrest
        obtain ⟨rfl, rfl⟩ := List.cons.inj hrest
        rw [← he, List.map_cons, List.flatten_cons, List.append_cancel_left_eq] at stream
        have after : r.log = (log ++ [q]) ++ rest := by
          rw [same, List.append_assoc]
          rfl
        obtain ⟨a, sym, later⟩ := ih run after stream behind fun p hp => wf p (List.mem_cons_of_mem _ hp)
        refine ⟨.last he.symm a, fun p hp => ?_, Bool.and_eq_true_iff.mpr ⟨opened, later⟩⟩
        cases hp with
        | head =>
          cases hq : q with
          | request buf => trivial
          | packet buf =>
            have first := wf q List.mem_cons_self
            rw [hq] at he first
            refine symmetric_of_un16Length first (length buf hq) ?_
            rw [show buf = waiting ++ chunk from he]
            exact fits
        | tail _ hp => exact sym p hp

end framing

section main

/-- The environments of a session, one for each request it is handed. -/
structure Client where
  count : Nat
  rc : RtspClient

/-- The receive loop of `rtspd_client_main`. -/
def rtspdClientMain (es : Nat → Env) : Handler Client where
  isOpen s := !(s.rc.state = .teardown || s.rc.state = .error)
  handle s buf :=
    match rtspdClientRtspMethodParse (es s.count) s.rc buf with
    | (false, rc) => ⟨s.count + 1, rc⟩
    | (true, rc) => ⟨s.count + 1, (dispatch (es s.count) rc).rc⟩

/-- The loop hands exactly the requests of the stream and skips exactly its packets if and only if
the reads end where the pieces end, the packets are symmetric and no piece but the last ends the
session. -/
theorem receive_framing (es : Nat → Env) (s : Client) (ps : List Piece) (reads : List (List UInt8))
    (wf : ∀ p ∈ ps, p.Wf) (sizes : ∀ c ∈ reads, 1 ≤ c.length ∧ c.length ≤ 1460)
    (stream : reads.flatten = (ps.map Piece.octets).flatten) :
    (∃ r, (⟨s, [], []⟩ : Receiver Client).run (rtspdClientMain es) reads = some r ∧ r.log = ps) ↔
      Aligned [] ps reads ∧ (∀ p ∈ ps, p.Symmetric) ∧ (rtspdClientMain es).staysOpen s ps = true := by
  have filled (c : List UInt8) (hc : c ∈ reads) : c ≠ [] :=
    List.length_pos_iff.mp (sizes c hc).1
  constructor
  · rintro ⟨r, run, same⟩
    exact receives_aligned run same stream filled wf
  · rintro ⟨a, sym, opened⟩
    exact a.receives filled wf sym opened

def sampleClient : Client := ⟨0, Session.clientInit .none 0 9 0⟩

theorem options_wf : (Piece.request optionsText).Wf :=
  ⟨by decide, by decide, optionsText.take 36, by decide +kernel⟩

/-- A request in two reads and a packet in two reads. -/
theorem receive_framing_cut :
    ∃ r, (⟨sampleClient, [], []⟩ : Receiver Client).run (rtspdClientMain fun _ => sampleEnv .none)
        [optionsText.take 10, optionsText.drop 10, [0x24, 1], [0, 0]] = some r ∧
      r.log = [.request optionsText, .packet [0x24, 1, 0, 0]] := by
  refine (receive_framing _ _ _ _ ?_ (by decide +kernel) (by decide +kernel)).mpr
    ⟨?_, ?_, by decide +kernel⟩
  · intro p hp
    rcases List.mem_pair.mp hp with rfl | rfl
    · exact options_wf
    · exact ⟨rfl, by decide, by decide⟩
  · refine .more (fun _ _ => by decide) (.last (by decide +kernel) (.more nofun (.last (by decide) .done)))
  · intro p hp
    rcases List.mem_pair.mp hp with rfl | rfl
    · trivial
    · exact ⟨rfl, by decide⟩

/-- Two requests that arrive in one read are handed as one. -/
theorem receive_joined : (Piece.request optionsText).Wf ∧ (optionsText ++ optionsText).length ≤ 1460 ∧
    ¬ ∃ r, (⟨sampleClient, [], []⟩ : Receiver Client).run (rtspdClientMain fun _ => sampleEnv .none)
        [optionsText ++ optionsText] = some r ∧ r.log = [.request optionsText, .request optionsText] := by
  refine ⟨options_wf, by decide +kernel, ?_⟩
  rintro ⟨r, run, log⟩
  have joined : ((⟨sampleClient, [], []⟩ : Receiver Client).run (rtspdClientMain fun _ => sampleEnv .none)
      [optionsText ++ optionsText]).map Receiver.log = some [.request (optionsText ++ optionsText)] := by
    decide +kernel
  rw [run, Option.map_some, log] at joined
  exact absurd joined (by decide)

end main

end En675.Rtsp
