import En675.Lib.CString

/-! The line editor of the shell (`_getline`, with the UART): what a call leaves in its buffer, against the
characters that were typed. -/

namespace En675.Shell

open Lib

def BS : UInt8 := 8

def CTLC : UInt8 := 3

section code

/-- `total` and the pointer `buf`, as an index from `base`, with the buffer and the octets sent back. -/
structure Editor where
  mem : List UInt8
  buf : Nat
  idx : Int
  total : Nat
  crlf : UInt8
  tx : List UInt8

inductive Turn
  | next (s : Editor)
  | line (s : Editor)
  | zero (s : Editor)

/-- A store; `none` is one outside of the buffer. -/
def put (mem : List UInt8) (i : Nat) (b : UInt8) : Option (List UInt8) :=
  if i < mem.length then some (mem.set i b) else none

/-- The test after each character, which ends the call where the line is too long. -/
def checkLong (max : Int) (s : Editor) : Option Turn := do
  let s := { s with crlf := 0 }
  if max ≤ s.idx then return .zero { s with mem := ← put s.mem s.buf 0 }
  return .next s

/-- The body of the loop for the octet `b`. -/
def turn (max : Int) (s : Editor) (b : UInt8) : Option Turn := do
  let s := { s with mem := ← put s.mem s.buf b }
  if b = 0 then return .zero { s with idx := s.idx - 1 }
  if b = 13 ∨ b = 10 then
    return .line { s with crlf := b, mem := ← put s.mem s.buf 0, tx := s.tx ++ [13, 10] }
  if b = BS then
    if s.total ≠ 0 then
      checkLong max { s with idx := s.idx - 2, buf := s.buf - 1, total := s.total - 1, tx := s.tx ++ [8, 32, 8] }
    else checkLong max s
  else if b = CTLC then
    return .zero { s with mem := ← put s.mem 0 0, tx := s.tx ++ [94, 67, 13, 10] }
  else checkLong max { s with total := s.total + 1, buf := s.buf + 1, tx := s.tx ++ [b] }

/-- A call waits for an octet, or has returned with octets left. -/
inductive Call
  | waits (s : Editor)
  | returns (s : Editor) (value : Nat) (rest : List UInt8)

/-- `strlen(base)`, if there is a NUL in the buffer. -/
def strlen (mem : List UInt8) : Option Nat := if 0 ∈ mem then some (cstr mem).length else none

def loop (max : Int) : Editor → List UInt8 → Option Call
  | s, [] => if s.idx < max then some (.waits s) else do return .returns s (← strlen s.mem) []
  | s, b :: rx =>
    if s.idx < max then do
      match ← turn max s b with
      | .next s => loop max { s with idx := s.idx + 1 } rx
      | .line s => return .returns s (← strlen s.mem) rx
      | .zero s => return .returns s 0 rx
    else do return .returns s (← strlen s.mem) (b :: rx)

def getline (mem : List UInt8) (max : Int) (crlf : UInt8) (rx : List UInt8) : Option Call :=
  loop (max - 1) ⟨mem, 0, 0, 0, crlf, []⟩ rx

end code

section reference

/-- An octet that ends the line. -/
def isEnd (b : UInt8) : Bool := b == 0 || b == 13 || b == 10 || b == CTLC

/-- The line after one more octet. -/
def edit (line : List UInt8) (b : UInt8) : List UInt8 :=
  if b = BS then line.dropLast else if b = CTLC then [] else if isEnd b then line else line ++ [b]

def edited (typed : List UInt8) : List UInt8 := typed.foldl edit []

/-- The backspaces typed on an empty line, if with the characters of the line they come to `room` before an
octet ends it. -/
def fills (room : Nat) : List UInt8 → Nat → List UInt8 → Option Nat
  | line, strays, [] => if line.length + strays = room then some strays else none
  | line, strays, b :: rx =>
    if line.length + strays = room then some strays
    else if isEnd b then none
    else fills room (edit line b) (if b = BS ∧ line = [] then strays + 1 else strays) rx

/-- A call for a buffer of `max` octets: what it has when it returns is what was typed, and it returns at the
end of the line or with no room left. -/
def Edits (mem : List UInt8) (max : Nat) (crlf : UInt8) (rx : List UInt8) : Prop :=
  match getline mem max crlf rx with
  | none => False
  | some (.waits s) => s.mem.drop max = mem.drop max
  | some (.returns s _ rest) => s.mem.drop max = mem.drop max ∧ ∃ typed, rx = typed ++ rest ∧
      edited typed ++ [0] <+: s.mem ∧
        ((∃ b ∈ typed.getLast?, isEnd b = true) ∨ (edited typed).length + 1 = max)

end reference

section spec

variable {mem line typed : List UInt8} {room strays : Nat} {s : Editor} {b : UInt8}

theorem set_concat (h : line <+: mem) (inside : line.length < mem.length) (b : UInt8) :
    line ++ [b] <+: mem.set line.length b := by
  obtain ⟨rest, rfl⟩ := h
  cases rest with
  | nil => simp at inside
  | cons c rest =>
    rw [List.set_append_right _ _ le_rfl, Nat.sub_self, List.set_cons_zero]
    exact ⟨rest, (List.append_cons _ _ _).symm⟩

/-- The editor in the middle of a line. -/
structure Editing (mem : List UInt8) (room : Nat) (typed line : List UInt8) (strays : Nat) (s : Editor) : Prop where
  eq : line = edited typed
  going : ∀ b ∈ typed, isEnd b = false
  size : s.mem.length = mem.length
  beyond : s.mem.drop room = mem.drop room
  holds : line <+: s.mem
  buf : s.buf = line.length
  total : s.total = line.length
  idx : s.idx = line.length + strays
  inside : room < mem.length
  le : line.length + strays ≤ room

theorem edit_bs (line : List UInt8) : edit line BS = line.dropLast := rfl

theorem edit_plain (bs : b ≠ BS) (hb : isEnd b = false) (line : List UInt8) : edit line b = line ++ [b] := by
  have ctlc : b ≠ CTLC := fun h => absurd hb (by rw [h]; decide)
  rw [edit, if_neg bs, if_neg ctlc, hb, if_neg Bool.false_ne_true]

theorem edited_concat (typed : List UInt8) (b : UInt8) : edited (typed ++ [b]) = edit (edited typed) b :=
  List.foldl_concat ..

namespace Editing

theorem put (h : Editing mem room typed line strays s) (lt : line.length + strays < room) (b : UInt8) :
    Shell.put s.mem s.buf b = some (s.mem.set line.length b) := by
  have := h.inside
  rw [Shell.put, h.buf, if_pos (by rw [h.size]; omega)]

theorem concat (h : Editing mem room typed line strays s) (lt : line.length + strays < room) (b : UInt8) :
    line ++ [b] <+: s.mem.set line.length b :=
  set_concat h.holds (by have := h.inside; rw [h.size]; omega) b

theorem drop (h : Editing mem room typed line strays s) (lt : line.length + strays < room) (b : UInt8) :
    (s.mem.set line.length b).drop room = mem.drop room := by
  rw [List.drop_set_of_lt (by omega), h.beyond]

theorem going_concat (h : Editing mem room typed line strays s) (hb : isEnd b = false) :
    ∀ c ∈ typed ++ [b], isEnd c = false :=
  List.forall_mem_append.2 ⟨h.going, List.forall_mem_singleton.2 hb⟩

end Editing

theorem checkLong_next {max : Int} (h : s.idx < max) : checkLong max s = some (.next { s with crlf := 0 }) := by
  simp [checkLong, Int.not_le.2 h]

theorem turn_next (h : Editing mem room typed line strays s) (lt : line.length + strays < room)
    (hb : isEnd b = false) : ∃ s', turn room s b = some (.next s') ∧
      Editing mem room (typed ++ [b]) (edit line b) (if b = BS ∧ line = [] then strays + 1 else strays)
        { s' with idx := s'.idx + 1 } := by
  have idx := h.idx
  have le := h.le
  have eq : edit line b = edited (typed ++ [b]) := by rw [edited_concat, h.eq]
  have size : (s.mem.set line.length b).length = mem.length := List.length_set.trans h.size
  have holds := h.concat lt b
  have neq := hb
  simp only [isEnd, Bool.or_eq_false_iff, beq_eq_false_iff_ne] at neq
  obtain ⟨⟨⟨nul, cr⟩, lf⟩, ctlc⟩ := neq
  simp only [turn, h.put lt, Option.bind_eq_bind, Option.bind_some, if_neg nul, cr, lf, or_self, if_false]
  by_cases bs : b = BS
  · subst bs
    rw [edit_bs] at eq ⊢
    rw [if_pos rfl]
    by_cases empty : line = []
    · have none : s.total = 0 := by rw [h.total, empty]; rfl
      rw [if_neg (not_not.2 none), checkLong_next (by simp only; omega), if_pos ⟨rfl, empty⟩]
      subst empty
      exact ⟨_, rfl, eq, h.going_concat hb, size, h.drop lt _, List.nil_prefix, h.buf, h.total,
        by simp only [List.dropLast_nil]; omega, h.inside, by simp only [List.dropLast_nil]; omega⟩
    · have some : s.total ≠ 0 := by rw [h.total]; exact fun e => empty (List.length_eq_zero_iff.1 e)
      have total := h.total
      have buf := h.buf
      rw [if_pos some, checkLong_next (by simp only; omega), if_neg fun e => empty e.2]
      refine ⟨_, rfl, eq, h.going_concat hb, size, h.drop lt _, ?_, ?_, ?_, ?_, h.inside, ?_⟩
      · exact (List.dropLast_prefix line).trans ((List.prefix_append _ _).trans holds)
      all_goals
        simp only [List.length_dropLast]
        omega
  · rw [if_neg bs, if_neg ctlc, checkLong_next (by simp only; omega), if_neg fun e => bs e.1]
    rw [edit_plain bs hb] at eq ⊢
    refine ⟨_, rfl, eq, h.going_concat hb, size, h.drop lt b, holds, ?_, ?_, ?_, h.inside, ?_⟩
    · rw [List.length_append, h.buf]
      rfl
    · rw [List.length_append, h.total]
      rfl
    all_goals
      simp only [List.length_append, List.length_singleton]
      omega

/-- What a call leaves that an octet ends. -/
theorem turn_end (h : Editing mem room typed line strays s) (lt : line.length + strays < room)
    (hb : isEnd b = true) : ∃ s', (turn room s b = some (.line s') ∨ turn room s b = some (.zero s')) ∧
      s'.mem.drop room = mem.drop room ∧ edited (typed ++ [b]) ++ [0] <+: s'.mem := by
  have size : (s.mem.set line.length b).length = mem.length := List.length_set.trans h.size
  have inside := h.inside
  have again : Shell.put (s.mem.set line.length b) s.buf 0 = some (s.mem.set line.length 0) := by
    rw [Shell.put, h.buf, if_pos (by omega), List.set_set]
  rw [edited_concat, ← h.eq]
  simp only [isEnd, Bool.or_eq_true, beq_iff_eq] at hb
  rcases hb with ((rfl | rfl) | rfl) | rfl
  · rw [show edit line 0 = line from rfl]
    exact ⟨_, .inr (by simp [turn, h.put lt]; rfl), h.drop lt 0, h.concat lt 0⟩
  · rw [show edit line 13 = line from rfl]
    exact ⟨_, .inl (by simp [turn, h.put lt, again]; rfl), h.drop lt 0, h.concat lt 0⟩
  · rw [show edit line 10 = line from rfl]
    exact ⟨_, .inl (by simp [turn, h.put lt, again]; rfl), h.drop lt 0, h.concat lt 0⟩
  · have first : Shell.put (s.mem.set line.length 3) 0 0 = some ((s.mem.set line.length CTLC).set 0 0) := by
      rw [Shell.put, if_pos (by rw [List.length_set, h.size]; omega)]
      rfl
    rw [show edit line CTLC = [] from rfl]
    refine ⟨_, .inr (by simp [turn, h.put lt, first, CTLC, BS]; rfl), ?_, ?_⟩
    · exact (List.drop_set_of_lt (by omega)).trans (h.drop lt CTLC)
    · exact set_concat List.nil_prefix (show 0 < (s.mem.set line.length CTLC).length by omega) 0

theorem strlen_of_mem (h : 0 ∈ mem) : strlen mem = some (cstr mem).length := if_pos h

theorem mem_of_concat (h : line ++ [0] <+: mem) : 0 ∈ mem := h.subset (by simp)

/-- How a call ends that an octet ends, with what was typed before and in it. -/
structure Ends (mem : List UInt8) (room : Nat) (typed typed' : List UInt8) (s : Editor) : Prop where
  beyond : s.mem.drop room = mem.drop room
  holds : edited (typed ++ typed') ++ [0] <+: s.mem
  last : ∃ b ∈ (typed ++ typed').getLast?, isEnd b = true

theorem loop_spec (h : Editing mem room typed line strays s) (rx : List UInt8) :
    match fills room line strays rx with
    | none =>
      (∃ s', loop room s rx = some (.waits s') ∧ s'.mem.drop room = mem.drop room) ∨
        ∃ s' v typed' rest, rx = typed' ++ rest ∧ loop room s rx = some (.returns s' v rest) ∧
          Ends mem room typed typed' s'
    | some k => ∃ s' line' typed' rest, rx = typed' ++ rest ∧ line'.length + k = room ∧
        Editing mem room (typed ++ typed') line' k s' ∧
        loop room s rx = (strlen s'.mem).map fun v => .returns s' v rest := by
  have idx := h.idx
  induction rx generalizing typed line strays s with
  | nil =>
    by_cases full : line.length + strays = room
    · rw [fills, if_pos full]
      refine ⟨s, line, [], [], rfl, full, by rwa [List.append_nil], ?_⟩
      rw [loop, if_neg (by omega)]
      cases strlen s.mem <;> rfl
    · have le := h.le
      rw [fills, if_neg full]
      exact .inl ⟨s, by rw [loop, if_pos (by omega)], h.beyond⟩
  | cons b rx ih =>
    by_cases full : line.length + strays = room
    · rw [fills, if_pos full]
      refine ⟨s, line, [], b :: rx, rfl, full, by rwa [List.append_nil], ?_⟩
      rw [loop, if_neg (by omega)]
      cases strlen s.mem <;> rfl
    · have lt : line.length + strays < room := Nat.lt_of_le_of_ne h.le full
      have inside : s.idx < (room : Int) := by omega
      rw [fills, if_neg full]
      cases hb : isEnd b with
      | true =>
        rw [if_pos rfl]
        obtain ⟨s', run, beyond, holds⟩ := turn_end h lt hb
        have ends : Ends mem room typed [b] s' := ⟨beyond, holds, b, by simp, hb⟩
        right
        rcases run with run | run
        · refine ⟨s', (cstr s'.mem).length, [b], rx, rfl, ?_, ends⟩
          rw [loop, if_pos inside, run]
          simp [strlen_of_mem (mem_of_concat holds)]
        · refine ⟨s', 0, [b], rx, rfl, ?_, ends⟩
          rw [loop, if_pos inside, run]
          rfl
      | false =>
        rw [if_neg Bool.false_ne_true]
        obtain ⟨s', run, next⟩ := turn_next h lt hb
        have step : loop room s (b :: rx) = loop room { s' with idx := s'.idx + 1 } rx := by
          rw [loop, if_pos inside, run]
          rfl
        have after := ih next next.idx
        rw [step]
        cases outcome : fills room (edit line b) (if b = BS ∧ line = [] then strays + 1 else strays) rx with
        | none =>
          rw [outcome] at after
          rcases after with waits | ⟨s'', v, typed', rest, rfl, run, ends⟩
          · exact .inl waits
          · refine .inr ⟨s'', v, b :: typed', rest, rfl, run, ends.beyond, ?_, ?_⟩
            · rw [List.append_cons typed]
              exact ends.holds
            · rw [List.append_cons typed]
              exact ends.last
        | some k =>
          rw [outcome] at after
          obtain ⟨s'', line', typed', rest, rfl, le, editing, run⟩ := after
          refine ⟨s'', line', b :: typed', rest, rfl, le, ?_, run⟩
          rw [List.append_cons]
          exact editing

theorem concat_nul_iff (h : line <+: mem) : line ++ [0] <+: mem ↔ mem[line.length]? = some 0 := by
  obtain ⟨rest, rfl⟩ := h
  rw [List.prefix_append_right_inj, List.getElem?_append_right le_rfl, Nat.sub_self]
  cases rest with
  | nil => simp
  | cons c rest => simp [eq_comm]

/-- A call that ends with no room left. -/
theorem Editing.full_iff (h : Editing mem room typed line strays s) (full : line.length + strays = room) :
    (0 ∈ s.mem ∧ edited typed ++ [0] <+: s.mem ∧ (edited typed).length = room) ↔
      strays = 0 ∧ mem[room]? = some 0 := by
  have same : s.mem[room]? = mem[room]? := by
    have first := congrArg (·[0]?) h.beyond
    simpa only [List.getElem?_drop, Nat.add_zero] using first
  rw [← same, ← h.eq]
  constructor
  · rintro ⟨-, holds, length⟩
    rw [concat_nul_iff h.holds, length] at holds
    exact ⟨by omega, holds⟩
  · rintro ⟨none, nul⟩
    have length : line.length = room := by omega
    rw [← length] at nul
    have holds := (concat_nul_iff h.holds).2 nul
    exact ⟨mem_of_concat holds, holds, length⟩

end spec

/-- A call does what it should unless the line fills up: with backspaces that found it empty, or before an
octet of a longer line. -/
theorem getline_edits_iff (room : Nat) (mem : {l : List UInt8 // room < l.length}) (crlf : UInt8)
    (rx : List UInt8) : Edits mem.1 (room + 1) crlf rx ↔
      ∀ strays, fills room [] 0 rx = some strays → strays = 0 ∧ mem.1[room]? = some 0 := by
  obtain ⟨mem, inside⟩ := mem
  have start : Editing mem room [] [] 0 ⟨mem, 0, 0, 0, crlf, []⟩ :=
    ⟨rfl, by simp, rfl, rfl, List.nil_prefix, rfl, rfl, rfl, inside, Nat.zero_le _⟩
  have call : getline mem (room + 1 : Nat) crlf rx = loop room ⟨mem, 0, 0, 0, crlf, []⟩ rx := by
    rw [getline]
    congr 1
    omega
  have after := loop_spec start rx
  have beyond : ∀ {s : Editor}, s.mem.drop room = mem.drop room → s.mem.drop (room + 1) = mem.drop (room + 1) :=
    fun h => by rw [← List.drop_drop, h, List.drop_drop]
  unfold Edits
  rw [call]
  cases outcome : fills room [] 0 rx with
  | none =>
    rw [outcome] at after
    refine iff_of_true ?_ nofun
    rcases after with ⟨s, run, same⟩ | ⟨s, v, typed, rest, rfl, run, ends⟩
    · rw [run]
      exact beyond same
    · rw [run]
      exact ⟨beyond ends.beyond, typed, rfl, ends.holds, .inl ends.last⟩
  | some k =>
    rw [outcome] at after
    obtain ⟨s, line, typed, rest, rfl, full, editing, run⟩ := after
    have never : ¬ ∃ b ∈ typed.getLast?, isEnd b = true := by
      rintro ⟨b, last, hb⟩
      rw [editing.going b (List.mem_of_getLast? last)] at hb
      exact Bool.false_ne_true hb
    have ended := editing.full_iff full
    rw [List.nil_append] at ended
    have only : (∀ strays, some k = some strays → strays = 0 ∧ mem[room]? = some 0) ↔ k = 0 ∧ mem[room]? = some 0 :=
      ⟨fun h => h k rfl, fun h strays e => Option.some.inj e ▸ h⟩
    rw [only, ← ended, run, strlen]
    by_cases nul : 0 ∈ s.mem
    · rw [if_pos nul]
      constructor
      · rintro ⟨-, typed', eq, holds, last⟩
        obtain rfl := List.append_cancel_right eq
        exact ⟨nul, holds, Nat.succ.inj (last.resolve_left never)⟩
      · rintro ⟨-, holds, length⟩
        exact ⟨beyond editing.beyond, typed, rfl, holds, .inr (congrArg _ length)⟩
    · rw [if_neg nul]
      exact iff_of_false (fun h => h) fun h => nul h.1

/-- The line in the buffer when a call has returned. -/
def Call.left : Call → Option (List UInt8)
  | .waits _ => none
  | .returns s _ _ => some (cstr s.mem)

theorem edited_bs (h : ∀ b ∈ typed, b = BS) : edited typed = [] := by
  induction typed using List.reverseRecOn with
  | nil => rfl
  | append_singleton typed b ih =>
    rw [edited_concat, ih fun b hb => h b (List.mem_append_left _ hb), h b (by simp)]
    rfl

/-- Backspaces alone are an empty line. -/
theorem not_edits_of_bs {size : Nat} (h : ∀ b ∈ rx, b = BS)
    (left : (getline mem size last rx).bind Call.left = some (b :: line)) : ¬ Edits mem size last rx := by
  intro edits
  unfold Edits at edits
  split at edits
  · exact edits
  · rename_i run
    rw [run] at left
    cases left
  · rename_i s v rest run
    obtain ⟨-, typed, rfl, ⟨after, holds⟩, -⟩ := edits
    rw [run, Option.bind_some, Call.left, ← holds, edited_bs fun b hb => h b (List.mem_append_left _ hb)] at left
    exact List.cons_ne_nil _ _ (Option.some.inj left).symm

/-- The buffer after `reboot`. -/
def leftover : List UInt8 := ascii "reboot" ++ List.replicate 122 0

/-- Backspaces on an empty line leave a line nobody has typed. -/
theorem getline_keeps :
    (getline leftover (64 : Nat) 0 (List.replicate 63 BS)).bind Call.left = some (BS :: ascii "eboot") ∧
      ¬ Edits leftover 64 0 (List.replicate 63 BS) := by
  have left : (getline leftover (64 : Nat) 0 (List.replicate 63 BS)).bind Call.left = some (BS :: ascii "eboot") := by
    decide +kernel
  exact ⟨left, not_edits_of_bs (fun _ => List.eq_of_mem_replicate) left⟩

end En675.Shell
