import Mathlib.Data.List.TakeWhile
import En675.Lib.Base64

/-! Basic authorization (`rtspd_authorization.c`, `Base64.c`, `user.c`) with `RTSPD_AUTH_MODE` set to
`RTSPD_AUTH_BASIC`.  `room` says whether the heap has a block of a size, and `md5` is the hash of a text in
hexadecimal; `char` is unsigned. -/

namespace En675.Rtsp

open Lib

/-- An access outside of the header, or through `NULL`. -/
inductive Fault
  | header | null
  deriving DecidableEq, Repr

section source

/-- `pvPortCalloc(1, size)`, which clears the block before anyone looks at the pointer; a negative size stands for
the one that a `size_t` wraps to, of which there is no block. -/
def pvPortCalloc (room : Nat → Bool) (size : Int) : Except Fault Bool :=
  if 0 < size ∧ room size.toNat then .ok true else if size = 0 then .ok false else .error .null

def encodingTable : List UInt8 := ascii "ABCDEFGHIJKLMNOPQRSTUVWXYZabcdefghijklmnopqrstuvwxyz0123456789+/"

/-- `decoding_table`, whose other entries are 0. -/
def decodingTable (c : UInt8) : Nat := (encodingTable.idxOf? c).getD 0

def sextetOf (c : UInt8) : Nat := if c = 61 then 0 else decodingTable c

/-- `if (j < *output_length) decoded_data[j++] = ...` -/
def putOctet (len : Nat) (out : List UInt8) (n : Nat) : List UInt8 :=
  if out.length < len then out ++ [.ofNat n] else out

/-- The loop of `base64_decode`, of whole groups. -/
def base64Loop (len : Nat) : List UInt8 → List UInt8 → List UInt8
  | a :: b :: c :: d :: data, out =>
    let triple := sextetOf a * 2 ^ 18 + sextetOf b * 2 ^ 12 + sextetOf c * 2 ^ 6 + sextetOf d
    base64Loop len data
      (putOctet len (putOctet len (putOctet len out (triple / 2 ^ 16)) (triple / 2 ^ 8)) triple)
  | _, out => out

def octetAt (buf : List UInt8) (i : Nat) : Except Fault UInt8 :=
  match buf[i]? with
  | some c => .ok c
  | none => .error .header

/-- `base64_decode` of the `n` octets of `buf` from `off` on, with the octets of the block. -/
def base64Decode (room : Nat → Bool) (buf : List UInt8) (off n : Nat) : Except Fault (Option (List UInt8)) := do
  if n % 4 ≠ 0 then return none
  let len : Int := n / 4 * 3
  let len := if (← octetAt buf (off + n - 1)) = 61 then len - 1 else len
  let len := if (← octetAt buf (off + n - 2)) = 61 then len - 1 else len
  if ← pvPortCalloc room (len + 1) then
    let out := base64Loop len.toNat ((buf.drop off).take n) []
    return some (out ++ List.replicate (len.toNat + 1 - out.length) 0)
  else return none

def rtspdAuthrizationBasic : List UInt8 := ascii "Authorization: Basic "

/-- `strlen` of the header from `off` on. -/
def strlenFrom (line : List UInt8) (off : Nat) : Except Fault Nat :=
  if off ≤ line.length then .ok (line.length - off) else .error .header

/-- `rtspd_client_rtsp_authorization`; `check` is `UserPasswordCheck`. -/
def rtspdClientRtspAuthorization (room : Nat → Bool) (check : List UInt8 → List UInt8 → Bool)
    (line : List UInt8) : Except Fault Bool := do
  let off := rtspdAuthrizationBasic.length
  match ← base64Decode room (line ++ [0]) off (← strlenFrom line off) with
  | none => return false
  | some text =>
    match cut [58] (cstr text) with
    | none => throw .null
    | some (id, pw) => return check id pw

end source

section text

/-- What the decoder takes a character for. -/
def lax (c : UInt8) : UInt8 := if (Base64.sextet c).isSome then c else 65

def laxEnd (c d : UInt8) : List UInt8 :=
  if c = 61 ∧ d = 61 then [61, 61] else if c = 61 ∨ d = 61 then [lax c, 61] else [lax c, lax d]

/-- The text with `A` for every character outside of the alphabet, but for the padding at its end. -/
def repaired : List UInt8 → List UInt8
  | a :: b :: c :: d :: text =>
    if text = [] then lax a :: lax b :: laxEnd c d else lax a :: lax b :: lax c :: lax d :: repaired text
  | text => text

/-- The octets of all groups, before the padding is taken off. -/
def rawOctets : List UInt8 → List UInt8
  | a :: b :: c :: d :: text =>
    Base64.octets (Base64.bits (sextetOf a) (sextetOf b) (sextetOf c) (sextetOf d)) ++ rawOctets text
  | _ => []

def pads (c d : UInt8) : Nat := (if d = 61 then 1 else 0) + if c = 61 then 1 else 0

theorem sextet_lax (c : UInt8) : Base64.sextet (lax c) = some (sextetOf c) := by
  have val : sextetOf c = (Base64.sextet c).getD 0 := by
    unfold sextetOf
    split
    · rename_i is_pad
      rw [is_pad]
      decide
    · rfl
  unfold lax
  split
  · rename_i known
    rw [val, Option.getD_eq_iff.2 (.inl (Option.some_get known).symm), Option.some_get]
  · rename_i unknown
    rw [val, Option.not_isSome_iff_eq_none.1 unknown]
    decide

theorem lax_ne_pad (c : UInt8) : lax c ≠ Base64.pad := by
  intro h
  have known := sextet_lax c
  rw [h, Base64.sextet_pad] at known
  cases known

theorem lax_of_sextet {c : UInt8} {n : Nat} (h : Base64.sextet c = some n) : lax c = c :=
  if_pos (h ▸ rfl)

theorem ne_pad_of_sextet {c : UInt8} {n : Nat} (h : Base64.sextet c = some n) : c ≠ 61 := by
  rintro rfl
  rw [show Base64.sextet 61 = none from Base64.sextet_pad] at h
  cases h

theorem group_lax (a b c d : UInt8) : Base64.group (lax a) (lax b) (lax c) (lax d) =
    some (Base64.octets (Base64.bits (sextetOf a) (sextetOf b) (sextetOf c) (sextetOf d))) := by
  simp [Base64.group, sextet_lax]

theorem sextetOf_pad : sextetOf 61 = 0 := rfl

theorem sextetOf_lt (c : UInt8) : sextetOf c < 64 := Base64.sextet_lt (sextet_lax c)

/-- The last sextet does not reach the first two octets. -/
theorem octets_take_two (n : Nat) {w : Nat} (h : w < 64) :
    (Base64.octets (n * 64 + w)).take 2 = (Base64.octets (n * 64 + 0)).take 2 := by
  have high : (n * 64 + w) / 2 ^ 16 = (n * 64 + 0) / 2 ^ 16 := by omega
  have mid : (n * 64 + w) / 2 ^ 8 = (n * 64 + 0) / 2 ^ 8 := by omega
  unfold Base64.octets
  rw [high, mid]
  rfl

/-- A last group decodes to its octets but for the padding. -/
theorem lastGroup_lax (a b c d : UInt8) : Base64.decode (lax a :: lax b :: laxEnd c d) =
    some ((Base64.octets (Base64.bits (sextetOf a) (sextetOf b) (sextetOf c) (sextetOf d))).take (3 - pads c d)) := by
  have pad : Base64.pad = 61 := rfl
  have ne (c : UInt8) : lax c ≠ 61 := lax_ne_pad c
  unfold laxEnd pads
  by_cases hc : c = 61
  · by_cases hd : d = 61
    · simp [Base64.decode, Base64.lastGroup, pad, hc, hd, sextet_lax, sextetOf_pad]
    · have two := octets_take_two ((sextetOf a * 64 + sextetOf b) * 64) (sextetOf_lt d)
      simp only [Nat.add_zero] at two
      simp [Base64.decode, Base64.lastGroup, pad, hc, hd, ne, sextet_lax, sextetOf_pad, Base64.bits, two]
  · by_cases hd : d = 61
    · simp [Base64.decode, Base64.lastGroup, pad, hc, hd, ne, sextet_lax, sextetOf_pad]
    · simp [Base64.decode, Base64.lastGroup, pad, hc, hd, ne, group_lax]

section groups

open Base64 (Whole)

variable {front text : List UInt8}

theorem rawOctets_length (whole : Whole front) : (rawOctets front).length = front.length / 4 * 3 := by
  induction whole with
  | nil => rfl
  | group a b c d _ ih =>
    simp only [rawOctets, List.length_append, Base64.octets_length, List.length_cons, ih]
    omega

theorem rawOctets_append (whole : Whole front) (text : List UInt8) :
    rawOctets (front ++ text) = rawOctets front ++ rawOctets text := by
  induction whole with
  | nil => rfl
  | group a b c d _ ih => simp only [List.cons_append, rawOctets, ih, List.append_assoc]

/-- The repaired text decodes to the octets of the decoder. -/
theorem decode_repaired (whole : Whole front) (a b c d : UInt8) :
    Base64.decode (repaired (front ++ [a, b, c, d])) =
      some (rawOctets front ++
        (Base64.octets (Base64.bits (sextetOf a) (sextetOf b) (sextetOf c) (sextetOf d))).take (3 - pads c d)) := by
  induction whole with
  | nil =>
    have last := lastGroup_lax a b c d
    simpa [repaired, rawOctets] using last
  | @group text a' b' c' d' _ ih =>
    have more : text ++ [a, b, c, d] ≠ [] := List.append_ne_nil_of_right_ne_nil _ (List.cons_ne_nil _ _)
    have more' : repaired (text ++ [a, b, c, d]) ≠ [] := by
      intro none_
      rw [none_] at ih
      have len := congrArg (fun x => (x.getD []).length) ih
      simp [Base64.decode] at len
      unfold pads at len
      split at len <;> split at len <;> omega
    simp only [List.cons_append, repaired, if_neg more, Base64.decode, if_neg more', group_lax, ih, rawOctets]
    simp

theorem putOctet_take (len : Nat) (xs : List UInt8) (n : Nat) :
    putOctet len (xs.take len) n = (xs ++ [UInt8.ofNat n]).take len := by
  unfold putOctet
  split
  · rename_i room
    rw [List.length_take] at room
    rw [List.take_of_length_le (by omega), List.take_of_length_le (by simp only [List.length_append, List.length_singleton]; omega)]
  · rename_i full
    rw [List.length_take] at full
    rw [List.take_append_of_le_length (by omega)]

theorem base64Loop_take (len : Nat) (whole : Whole text) (xs : List UInt8) :
    base64Loop len text (xs.take len) = (xs ++ rawOctets text).take len := by
  induction whole generalizing xs with
  | nil => rw [base64Loop, rawOctets, List.append_nil] <;> simp
  | group a b c d _ ih =>
    have bits : sextetOf a * 2 ^ 18 + sextetOf b * 2 ^ 12 + sextetOf c * 2 ^ 6 + sextetOf d =
        Base64.bits (sextetOf a) (sextetOf b) (sextetOf c) (sextetOf d) := by
      unfold Base64.bits
      omega
    simp only [base64Loop, putOctet_take, ih, bits, rawOctets, Base64.octets, List.append_assoc, List.cons_append, List.nil_append]

/-- The block that the decoder fills from a text that is not empty. -/
theorem base64Loop_groups (whole : Whole front) (a b c d : UInt8) :
    base64Loop (front.length / 4 * 3 + (3 - pads c d)) (front ++ [a, b, c, d]) [] =
      rawOctets front ++
        (Base64.octets (Base64.bits (sextetOf a) (sextetOf b) (sextetOf c) (sextetOf d))).take (3 - pads c d) := by
  have all : Whole (front ++ [a, b, c, d]) := by
    refine Base64.whole_of_length _ ?_
    have groups := whole.length
    simp only [List.length_append, List.length_cons, List.length_nil]
    omega
  have loop := base64Loop_take (front.length / 4 * 3 + (3 - pads c d)) all []
  rw [List.take_nil, List.nil_append, rawOctets_append whole] at loop
  rw [loop, ← rawOctets_length whole, List.take_length_add_append]
  simp [rawOctets]

theorem octetAt_append (head : List UInt8) (c : UInt8) (rest : List UInt8) :
    octetAt (head ++ c :: rest) head.length = .ok c := by
  unfold octetAt
  rw [List.getElem?_append_right le_rfl, Nat.sub_self]
  rfl

theorem pvPortCalloc_succ (room : Nat → Bool) (n : Nat) :
    pvPortCalloc room (n + 1) = if room (n + 1) then .ok true else .error .null := by
  have size : ((n : Int) + 1).toNat = n + 1 := by omega
  unfold pvPortCalloc
  rw [size]
  split
  · rename_i h
    rw [if_pos h.2]
  · rename_i h
    rw [if_neg (by omega), if_neg fun block => h ⟨by omega, block⟩]

/-- A text that is not empty decodes to the octets of its repaired text, in a block with a `NUL` behind. -/
theorem base64Decode_groups (room : Nat → Bool) (head : List UInt8) (whole : Whole front) (a b c d : UInt8) :
    base64Decode room (head ++ (front ++ [a, b, c, d]) ++ [0]) head.length (front ++ [a, b, c, d]).length =
      if room (front.length / 4 * 3 + (3 - pads c d) + 1) then
        .ok (some ((rawOctets front ++ (Base64.octets (Base64.bits (sextetOf a) (sextetOf b) (sextetOf c)
          (sextetOf d))).take (3 - pads c d)) ++ [0]))
      else .error .null := by
  have groups := whole.length
  have length : (front ++ [a, b, c, d]).length = front.length + 4 := by simp
  have last : octetAt (head ++ (front ++ [a, b, c, d]) ++ [0]) (head.length + (front ++ [a, b, c, d]).length - 1) = .ok d := by
    have at_ := octetAt_append (head ++ front ++ [a, b, c]) d [0]
    simpa using at_
  have prev : octetAt (head ++ (front ++ [a, b, c, d]) ++ [0]) (head.length + (front ++ [a, b, c, d]).length - 2) = .ok c := by
    have index : head.length + (front ++ [a, b, c, d]).length - 2 = (head ++ front ++ [a, b]).length := by
      simp only [List.length_append, List.length_cons, List.length_nil]
      omega
    have at_ := octetAt_append (head ++ front ++ [a, b]) c [d, 0]
    rw [index]
    simpa using at_
  have text : ((head ++ (front ++ [a, b, c, d]) ++ [0]).drop head.length).take (front ++ [a, b, c, d]).length =
      front ++ [a, b, c, d] := by
    rw [List.append_assoc, List.drop_left, List.take_left]
  unfold base64Decode
  rw [last, prev, text, if_neg (by rw [length]; omega)]
  have size : (if c = 61 then (if d = 61 then ((front ++ [a, b, c, d]).length : Int) / 4 * 3 - 1 else
        ((front ++ [a, b, c, d]).length : Int) / 4 * 3) - 1
      else if d = 61 then ((front ++ [a, b, c, d]).length : Int) / 4 * 3 - 1 else
        ((front ++ [a, b, c, d]).length : Int) / 4 * 3) = (front.length / 4 * 3 + (3 - pads c d) : Nat) := by
    rw [length]
    unfold pads
    split <;> split <;> omega
  have block := base64Loop_groups whole a b c d
  have full : (rawOctets front ++ (Base64.octets (Base64.bits (sextetOf a) (sextetOf b) (sextetOf c)
      (sextetOf d))).take (3 - pads c d)).length = front.length / 4 * 3 + (3 - pads c d) := by
    rw [List.length_append, rawOctets_length whole, List.length_take, Base64.octets_length]
    omega
  simp only [bind, Except.bind, pure, Except.pure, size, pvPortCalloc_succ, Int.toNat_natCast, block, full,
    Nat.add_sub_cancel_left]
  cases room (front.length / 4 * 3 + (3 - pads c d) + 1)
  · rfl
  · rfl

end groups

/-- A text that is base64 is decoded as it stands. -/
theorem repaired_of_decode {text : List UInt8} (h : (Base64.decode text).isSome) : repaired text = text := by
  have known {c : UInt8} {n : Nat} (hc : Base64.sextet c = some n) : lax c = c ∧ c ≠ 61 :=
    ⟨lax_of_sextet hc, ne_pad_of_sextet hc⟩
  have of_group {a b c d : UInt8} {x : List UInt8} (hg : Base64.group a b c d = some x) :
      (lax a = a ∧ lax b = b) ∧ (lax c = c ∧ c ≠ 61) ∧ lax d = d ∧ d ≠ 61 := by
    simp only [Base64.group, Option.bind_eq_bind, Option.bind_eq_some_iff] at hg
    obtain ⟨_, ha, _, hb, _, hc, _, hd, -⟩ := hg
    exact ⟨⟨(known ha).1, (known hb).1⟩, known hc, known hd⟩
  induction text using Base64.decode.induct with
  | case1 => rfl
  | case2 a b c d =>
    obtain ⟨x, hx⟩ := Option.isSome_iff_exists.1 h
    change Base64.lastGroup a b c d = some x at hx
    have pad : Base64.pad = 61 := rfl
    change lax a :: lax b :: laxEnd c d = [a, b, c, d]
    unfold laxEnd
    unfold Base64.lastGroup at hx
    rw [pad] at hx
    by_cases hd : d = 61
    · rw [if_pos hd] at hx
      by_cases hc : c = 61
      · simp only [if_pos hc, Option.bind_eq_bind, Option.bind_eq_some_iff] at hx
        obtain ⟨_, ha, _, hb, -⟩ := hx
        rw [if_pos ⟨hc, hd⟩, (known ha).1, (known hb).1, hc, hd]
      · simp only [if_neg hc, Option.bind_eq_bind, Option.bind_eq_some_iff] at hx
        obtain ⟨_, ha, _, hb, _, hc', -⟩ := hx
        rw [if_neg fun both => hc both.1, if_pos (.inr hd), (known ha).1, (known hb).1, (known hc').1, hd]
    · rw [if_neg hd] at hx
      obtain ⟨⟨ha, hb⟩, ⟨hc, nc⟩, hd', -⟩ := of_group hx
      rw [if_neg fun both => hd both.2, if_neg fun either => either.elim nc hd, ha, hb, hc, hd']
  | case3 a b c d text more ih =>
    obtain ⟨x, hx⟩ := Option.isSome_iff_exists.1 h
    simp only [Base64.decode, if_neg more, Option.bind_eq_bind, Option.bind_eq_some_iff] at hx
    obtain ⟨_, hg, _, ht, -⟩ := hx
    obtain ⟨⟨ha, hb⟩, ⟨hc, -⟩, hd, -⟩ := of_group hg
    rw [repaired, if_neg more, ih (ht ▸ rfl), ha, hb, hc, hd]
  | case4 text short long =>
    rw [Base64.decode] at h
    · exact absurd h Bool.false_ne_true
    · exact short
    · exact long

end text

section exact

/-- The credentials are those of a user. -/
def Accepted (check : List UInt8 → List UInt8 → Bool) (line : List UInt8) : Prop :=
  ∃ id pw, Base64.decode (line.drop rtspdAuthrizationBasic.length) = some (id ++ [58] ++ pw) ∧
    58 ∉ id ∧ 0 ∉ id ∧ 0 ∉ pw ∧ check id pw = true

/-- The call stays inside of its memory and tells whether the credentials are accepted. -/
def Exact (room : Nat → Bool) (check : List UInt8 → List UInt8 → Bool) (line : List UInt8) : Prop :=
  ∃ r, rtspdClientRtspAuthorization room check line = .ok r ∧ (r = true ↔ Accepted check line)

/-- The lines that the code copes with. -/
structure Handled (room : Nat → Bool) (check : List UInt8 → List UInt8 → Bool) (line : List UInt8) : Prop where
  /-- The text is inside of the line. -/
  reach : rtspdAuthrizationBasic.length ≤ line.length
  empty : line.drop rtspdAuthrizationBasic.length = [] → ¬ ((line)[19]? = some 61 ↔ (line)[20]? = some 61)
  groups : ∀ text, line.drop rtspdAuthrizationBasic.length = text → text ≠ [] → text.length % 4 = 0 →
    ∃ octets id pw, Base64.decode (repaired text) = some octets ∧ room (octets.length + 1) = true ∧
      cut [58] (cstr octets) = some (id, pw) ∧
      (Base64.decode text = some octets ∧ 0 ∉ octets ∨ check id pw = false)

variable {room : Nat → Bool} {check : List UInt8 → List UInt8 → Bool} {line : List UInt8}

theorem authorization_short (h : ¬ rtspdAuthrizationBasic.length ≤ line.length) :
    rtspdClientRtspAuthorization room check line = .error .header := by
  simp [rtspdClientRtspAuthorization, strlenFrom, h, bind, Except.bind]

theorem authorization_cut (reach : rtspdAuthrizationBasic.length ≤ line.length)
    (cut_ : (line.drop rtspdAuthrizationBasic.length).length % 4 ≠ 0) :
    rtspdClientRtspAuthorization room check line = .ok false := by
  rw [List.length_drop] at cut_
  simp [rtspdClientRtspAuthorization, strlenFrom, base64Decode, reach, cut_, bind, Except.bind, pure, Except.pure]

theorem authorization_empty (length : line.length = 21) :
    rtspdClientRtspAuthorization room check line =
      if (line)[19]? = some 61 ↔ (line)[20]? = some 61 then .error .null else .ok false := by
  have x : (line)[19]? = some (line)[19] := List.getElem?_eq_getElem (by omega)
  have y : (line)[20]? = some (line)[20] := List.getElem?_eq_getElem (by omega)
  have last : octetAt (line ++ [0]) 20 = .ok (line)[20] := by
    rw [octetAt, List.getElem?_append_left (by omega), y]
  have prev : octetAt (line ++ [0]) 19 = .ok (line)[19] := by
    rw [octetAt, List.getElem?_append_left (by omega), x]
  have off : rtspdAuthrizationBasic.length = 21 := by decide
  have reach : strlenFrom line 21 = .ok 0 := by simp [strlenFrom, length]
  have loop (len : Nat) : base64Loop len [] [] = [] := by simp [base64Loop]
  rw [x, y]
  by_cases hx : (line)[19] = 61 <;> by_cases hy : (line)[20] = 61 <;> cases block : room 1 <;>
    simp [rtspdClientRtspAuthorization, base64Decode, off, reach, last, prev, hx, hy, pvPortCalloc, block, loop, cstr, cut,
      bind, Except.bind, pure, Except.pure, throw, throwThe, MonadExceptOf.throw]

theorem cstr_append_nul (xs : List UInt8) : cstr (xs ++ [0]) = cstr xs := by
  induction xs with
  | nil => rfl
  | cons x xs ih =>
    unfold cstr at ih ⊢
    rw [List.cons_append, List.takeWhile_cons, List.takeWhile_cons, ih]

theorem cstr_of_free {xs : List UInt8} (free : 0 ∉ xs) : cstr xs = xs :=
  List.takeWhile_eq_self_iff.2 fun _ hx => decide_eq_true fun zero => free (zero ▸ hx)

theorem authorization_groups (reach : rtspdAuthrizationBasic.length ≤ line.length)
    (some_ : line.drop rtspdAuthrizationBasic.length ≠ [])
    (whole : (line.drop rtspdAuthrizationBasic.length).length % 4 = 0) :
    ∃ octets, Base64.decode (repaired (line.drop rtspdAuthrizationBasic.length)) = some octets ∧
      rtspdClientRtspAuthorization room check line =
        if room (octets.length + 1) then
          match cut [58] (cstr octets) with
          | none => .error .null
          | some (id, pw) => .ok (check id pw)
        else .error .null := by
  obtain ⟨front, a, b, c, d, text, groups⟩ := (Base64.whole_of_length _ whole).split some_
  have parts : line = line.take rtspdAuthrizationBasic.length ++ (front ++ [a, b, c, d]) := by
    rw [← text, List.take_append_drop]
  have head : (line.take rtspdAuthrizationBasic.length).length = rtspdAuthrizationBasic.length := by
    rw [List.length_take, Nat.min_eq_left reach]
  have len : line.length - rtspdAuthrizationBasic.length = (front ++ [a, b, c, d]).length := by
    rw [← text, List.length_drop]
  have decodes := base64Decode_groups room (line.take rtspdAuthrizationBasic.length) groups a b c d
  rw [← parts, head] at decodes
  rw [text]
  refine ⟨_, decode_repaired groups a b c d, ?_⟩
  have full : (rawOctets front ++ (Base64.octets (Base64.bits (sextetOf a) (sextetOf b) (sextetOf c)
      (sextetOf d))).take (3 - pads c d)).length = front.length / 4 * 3 + (3 - pads c d) := by
    rw [List.length_append, rawOctets_length groups, List.length_take, Base64.octets_length]
    omega
  rw [full]
  generalize rawOctets front ++ _ = octets at decodes ⊢
  simp only [rtspdClientRtspAuthorization, strlenFrom, if_pos reach, len, decodes, bind, Except.bind]
  cases room (front.length / 4 * 3 + (3 - pads c d) + 1)
  · rfl
  · simp only [if_true, cstr_append_nul]
    rfl

/-- The text in front of the colon has none. -/
theorem colon_free {octets id pw : List UInt8} (split : cut [58] octets = some (id, pw)) : 58 ∉ id := by
  intro mem
  obtain ⟨front, back, rfl⟩ := List.append_of_mem mem
  have first := cut_first (q := front) (t := back ++ [58] ++ pw) split (by rw [cut_eq split]; simp)
  rw [List.length_append, List.length_cons] at first
  omega

theorem accepted_iff {octets id pw : List UInt8}
    (decodes : Base64.decode (line.drop rtspdAuthrizationBasic.length) = some octets) (free : 0 ∉ octets)
    (split : cut [58] octets = some (id, pw)) : Accepted check line ↔ check id pw = true := by
  constructor
  · rintro ⟨id', pw', decodes', colon, -, -, ok⟩
    have same : cut [58] (id' ++ ([58] ++ pw')) = some (id', pw') := cut_append colon
    rw [← List.append_assoc, ← Option.some.inj (decodes.symm.trans decodes'), split] at same
    obtain ⟨rfl, rfl⟩ := Prod.mk.inj (Option.some.inj same)
    exact ok
  · intro ok
    have parts := cut_eq split
    rw [parts] at free decodes
    refine ⟨id, pw, decodes, colon_free split, fun mem => free ?_, fun mem => free ?_, ok⟩
    · exact List.mem_append_left _ (List.mem_append_left _ mem)
    · exact List.mem_append_right _ mem

theorem accepted_free (h : Accepted check line) :
    ∃ octets, Base64.decode (line.drop rtspdAuthrizationBasic.length) = some octets ∧ 0 ∉ octets := by
  obtain ⟨id, pw, decodes, -, id_free, pw_free, -⟩ := h
  refine ⟨_, decodes, ?_⟩
  simp only [List.mem_append, List.mem_singleton, not_or]
  exact ⟨⟨id_free, by decide⟩, pw_free⟩

theorem not_accepted_empty (none_ : line.drop rtspdAuthrizationBasic.length = []) : ¬ Accepted check line := by
  rintro ⟨id, pw, decodes, -⟩
  rw [none_] at decodes
  have len := congrArg List.length (Option.some.inj decodes)
  simp only [List.length_append, List.length_cons, List.length_nil] at len
  omega

theorem Handled.exact (h : Handled room check line) : Exact room check line := by
  by_cases none_ : line.drop rtspdAuthrizationBasic.length = []
  · have length : line.length = 21 := Nat.le_antisymm (List.drop_eq_nil_iff.1 none_) h.reach
    exact ⟨false, (authorization_empty length).trans (if_neg (h.empty none_)),
      iff_of_false Bool.false_ne_true (not_accepted_empty none_)⟩
  · by_cases whole : (line.drop rtspdAuthrizationBasic.length).length % 4 = 0
    · obtain ⟨octets, id, pw, decodes, block, split, fine⟩ := h.groups _ rfl none_ whole
      obtain ⟨octets', decodes', run⟩ := @authorization_groups room check line h.reach none_ whole
      obtain rfl := Option.some.inj (decodes.symm.trans decodes')
      refine ⟨check id pw, ?_, ?_⟩
      · rw [run, if_pos block, split]
      · rcases fine with ⟨plain, free⟩ | reject
        · exact (accepted_iff plain free (cstr_of_free free ▸ split)).symm
        · rw [reject]
          refine iff_of_false Bool.false_ne_true fun accepted => ?_
          obtain ⟨octets', plain, free⟩ := accepted_free accepted
          rw [repaired_of_decode (plain ▸ rfl)] at decodes
          obtain rfl := Option.some.inj (decodes.symm.trans plain)
          rw [accepted_iff plain free (cstr_of_free free ▸ split), reject] at accepted
          exact Bool.false_ne_true accepted
    · refine ⟨false, authorization_cut h.reach whole, iff_of_false Bool.false_ne_true fun accepted => ?_⟩
      obtain ⟨octets, plain, -⟩ := accepted_free accepted
      exact whole (Base64.decode_whole (plain ▸ rfl)).length

theorem Exact.handled (h : Exact room check line) : Handled room check line := by
  obtain ⟨r, run, exact_⟩ := h
  have reach : rtspdAuthrizationBasic.length ≤ line.length := by
    by_contra short
    rw [authorization_short short] at run
    cases run
  refine ⟨reach, fun none_ same => ?_, fun text is some_ whole => ?_⟩
  · have length : line.length = 21 := Nat.le_antisymm (List.drop_eq_nil_iff.1 none_) reach
    rw [authorization_empty length, if_pos same] at run
    cases run
  · subst is
    obtain ⟨octets, decodes, eq⟩ := @authorization_groups room check line reach some_ whole
    rw [run] at eq
    split at eq
    · rename_i block
      split at eq
      · cases eq
      · rename_i id pw split
        obtain rfl := Except.ok.inj eq
        refine ⟨octets, id, pw, decodes, block, split, ?_⟩
        cases ok : check id pw with
        | false => exact .inr rfl
        | true =>
          obtain ⟨octets', plain, free⟩ := accepted_free (exact_.1 ok)
          rw [repaired_of_decode (plain ▸ rfl)] at decodes
          obtain rfl := Option.some.inj (decodes.symm.trans plain)
          exact .inl ⟨plain, free⟩
    · cases eq

end exact

end En675.Rtsp
