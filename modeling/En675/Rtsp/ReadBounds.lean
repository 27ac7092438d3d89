import En675.Lib.Word
import En675.Rtsp.Receive

/-! Where the receive loop of `rtspd_client_main` touches `buffer[4096]`, turn by turn.  The offsets are
unsigned words. -/

namespace En675.Rtsp

open Lib

def bufferSize : Nat := 4096

/-- What `rtspd_client_read` is asked for. -/
def readRoom : Nat := 1460

inductive ReadResult where
  | timeout
  | octets (bs : List UInt8) (some_ : 1 ≤ bs.length) (most : bs.length ≤ readRoom)

/-- The comparisons with the last octets, each made if those before it hold, and then the terminator. -/
def lastChecks (buf : List UInt8) : List (Nat × UInt8) → List (Nat × Nat)
  | [] => [(buf.length, 1)]
  | (k, c) :: rest =>
    let i := usub buf.length k
    (i, 1) :: if buf.getD i 0 = c then lastChecks buf rest else []

/-- The first octet, and what is looked at for its sake. -/
def looks (buf : List UInt8) : List (Nat × Nat) :=
  (0, 1) :: if buf.head? = some 0x24 then [(2, 2)] else lastChecks buf [(4, 13), (3, 10), (2, 13), (1, 10)]

/-- The places in `buffer` of one turn, with the octets there; the first is what the read may fill. -/
def accesses (waiting : List UInt8) : ReadResult → List (Nat × Nat)
  | .timeout => [(waiting.length, readRoom)]
  | .octets bs _ _ => (waiting.length, readRoom) :: looks (waiting ++ bs)

section loop

variable {σ : Type} (h : Handler σ)

/-- A turn, in the bounds of `buffer` or not. -/
def Receiver.next (r : Receiver σ) (read : ReadResult) : Receiver σ :=
  if !h.isOpen r.state then r
  else
    match read with
    | .timeout => { r with waiting := [] }
    | .octets bs _ _ =>
      let buf := r.waiting ++ bs
      if buf.head? = some 0x24 then
        if 4 ≤ buf.length ∧ un16Length buf = buf.length - 4 then
          { r with waiting := [], log := r.log ++ [.packet buf] }
        else { r with waiting := buf }
      else if buf.drop (buf.length - 4) = crlf ++ crlf then
        ⟨h.handle r.state buf, [], r.log ++ [.request buf]⟩
      else { r with waiting := buf }

/-- Every place is in `buffer`. -/
def Inside (r : Receiver σ) (read : ReadResult) : Prop :=
  h.isOpen r.state = true → ∀ a ∈ accesses r.waiting read, a.1 + a.2 ≤ bufferSize

/-- What has been read of a request is four octets at least, and is no request of 4096. -/
def RequestFits (buf : List UInt8) : Prop :=
  buf.head? ≠ some 0x24 →
    4 ≤ buf.length ∧ (buf.length = bufferSize → buf.drop (buf.length - 4) ≠ crlf ++ crlf)

/-- The octets that wait leave room for a read, and those of a request are not too few or too many. -/
def ReadFits (r : Receiver σ) (read : ReadResult) : Prop :=
  h.isOpen r.state = true →
    r.waiting.length ≤ 2636 ∧
      match read with
      | .timeout => True
      | .octets bs _ _ => RequestFits (r.waiting ++ bs)

end loop

section checks

variable {buf : List UInt8}

theorem getD_drop (n i : Nat) : (buf.drop n).getD i 0 = buf.getD (n + i) 0 := by
  rw [List.getD_eq_getElem?_getD, List.getD_eq_getElem?_getD, List.getElem?_drop]

/-- The four comparisons are those with an empty line. -/
theorem blank_iff (four : 4 ≤ buf.length) : buf.drop (buf.length - 4) = crlf ++ crlf ↔
    buf.getD (buf.length - 4) 0 = 13 ∧ buf.getD (buf.length - 3) 0 = 10 ∧
      buf.getD (buf.length - 2) 0 = 13 ∧ buf.getD (buf.length - 1) 0 = 10 := by
  have size : (buf.drop (buf.length - 4)).length = 4 := by
    rw [List.length_drop]
    omega
  have at_ (i : Nat) (hi : i ≤ 3) :
      (buf.drop (buf.length - 4)).getD i 0 = buf.getD (buf.length - (4 - i)) 0 := by
    rw [getD_drop]
    congr 1
    omega
  rw [← at_ 0 (by decide), ← at_ 1 (by decide), ← at_ 2 (by decide), ← at_ 3 (by decide)]
  match buf.drop (buf.length - 4), size with
  | [a, b, c, d], _ => simp [crlf]

theorem lastChecks_inside (four : 4 ≤ buf.length) (most : buf.length ≤ bufferSize) :
    (∀ a ∈ lastChecks buf [(4, 13), (3, 10), (2, 13), (1, 10)], a.1 + a.2 ≤ bufferSize) ↔
      (buf.length = bufferSize → buf.drop (buf.length - 4) ≠ crlf ++ crlf) := by
  have below (k : Nat) (hk : k ≤ 4) : usub buf.length k = buf.length - k :=
    usub_of_le (hk.trans four) (Nat.lt_of_le_of_lt most (by decide))
  rw [Ne, blank_iff four]
  simp only [lastChecks, below 4 (by decide), below 3 (by decide), below 2 (by decide),
    below 1 (by decide)]
  have first : buf.length - 4 + 1 ≤ bufferSize := by omega
  have second : buf.length - 3 + 1 ≤ bufferSize := by omega
  have third : buf.length - 2 + 1 ≤ bufferSize := by omega
  have fourth : buf.length - 1 + 1 ≤ bufferSize := by omega
  have last : buf.length + 1 ≤ bufferSize ↔ buf.length ≠ bufferSize := by omega
  generalize buf.getD (buf.length - 4) 0 = a, buf.getD (buf.length - 3) 0 = b,
    buf.getD (buf.length - 2) 0 = c, buf.getD (buf.length - 1) 0 = d
  by_cases ha : a = 13
  · by_cases hb : b = 10
    · by_cases hc : c = 13
      · by_cases hd : d = 10 <;> simp [*]
      · simp [*]
    · simp [*]
  · simp [*]

/-- Below four octets the first comparison is far outside. -/
theorem lastChecks_outside (few : buf.length < 4) :
    ∃ a ∈ lastChecks buf [(4, 13), (3, 10), (2, 13), (1, 10)], ¬a.1 + a.2 ≤ bufferSize := by
  refine ⟨_, List.mem_cons_self, ?_⟩
  simp only [usub, bufferSize]
  omega

theorem looks_inside (most : buf.length ≤ bufferSize) :
    (∀ a ∈ looks buf, a.1 + a.2 ≤ bufferSize) ↔ RequestFits buf := by
  rw [looks, RequestFits, List.forall_mem_cons]
  split
  · rename_i dollar
    simp [dollar, bufferSize]
  · rename_i request
    have zero : 0 + 1 ≤ bufferSize := by decide
    rw [and_iff_right zero, imp_iff_right request]
    rcases Nat.lt_or_ge buf.length 4 with few | four
    · obtain ⟨a, ha, outside⟩ := lastChecks_outside few
      exact iff_of_false (fun all => outside (all a ha)) fun fits => Nat.not_le.2 few fits.1
    · rw [lastChecks_inside four most, and_iff_right four]

end checks

section run

variable {σ : Type} {h : Handler σ}

theorem inside_iff (r : Receiver σ) (read : ReadResult) : Inside h r read ↔ ReadFits h r read := by
  unfold Inside ReadFits
  refine forall_congr' fun _ => ?_
  have room : r.waiting.length + readRoom ≤ bufferSize ↔ r.waiting.length ≤ 2636 := by
    rw [readRoom, bufferSize]
    omega
  cases read with
  | timeout => simp [accesses, room]
  | octets bs some_ most =>
    rw [accesses, List.forall_mem_cons, room]
    refine and_congr_right fun few => looks_inside ?_
    rw [List.length_append]
    rw [readRoom] at most
    rw [bufferSize]
    omega

/-- Such a turn is that of the loop on whole pieces. -/
theorem turn_of_fits {r : Receiver σ} {bs : List UInt8} {some_ : 1 ≤ bs.length}
    {most : bs.length ≤ readRoom} (fits : ReadFits h r (.octets bs some_ most)) :
    r.turn h bs = some (r.next h (.octets bs some_ most)) := by
  rw [Receiver.turn, Receiver.next]
  split
  · rfl
  · rename_i opened
    rw [Bool.not_eq_true, Bool.not_eq_false'] at opened
    obtain ⟨room, request⟩ := fits opened
    have short : ¬4096 < (r.waiting ++ bs).length := by
      rw [List.length_append]
      rw [readRoom] at most
      omega
    dsimp only
    rw [if_neg short]
    by_cases dollar : (r.waiting ++ bs).head? = some 0x24
    · rw [if_pos dollar, if_pos dollar]
      split <;> rfl
    · obtain ⟨four, size⟩ := request dollar
      rw [if_neg dollar, if_neg dollar, if_neg (Nat.not_lt.2 four)]
      split
      · rw [if_neg fun full : _ = 4096 => size full ‹_›]
      · rfl

end run

/-- A session that only waits. -/
def idle : Handler Unit := ⟨fun _ => true, fun s _ => s⟩

/-- 1460 octets of an interleaved packet. -/
def part : ReadResult :=
  .octets (.replicate readRoom 0x24) (by rw [List.length_replicate]; decide)
    (List.length_replicate).le

end En675.Rtsp
