import En675.Shell.TokenizeWords

/-! The command of a line (`_DoCommand`): the line is cut into words and the function that the first word
names is called with them. -/

namespace En675.Shell

open Lib

def CMDLINESIZE : Nat := 64

/-- A line as `_getline` leaves it in its buffer. -/
abbrev Line := {l : List UInt8 // 0 ∉ l ∧ l.length < CMDLINESIZE}

/-- The line that is cut into words: `!` stands for the line before. -/
def commandLine (history cmdline : Line) : Line :=
  let line : Line := if cmdline.1.head? = some 95 then ⟨cmdline.1.drop 1, fun h => cmdline.2.1 (List.mem_of_mem_drop h),
    Nat.lt_of_le_of_lt (by rw [List.length_drop]; exact Nat.sub_le _ _) cmdline.2.2⟩ else cmdline
  if line.1.head? = some 33 then history else line

/-- The place in `gCmdList` of a command. -/
def search (word : List UInt8) : List (List UInt8) → Option Nat
  | [] => some 0
  | [name] => if word = name then some 0 else none
  | name :: names => if word = name then some 0 else (search word names).map (· + 1)

inductive Done
  | CMD_FAILURE
  | CMD_SUCCESS
  | CMD_LINE_ERROR
  | func (i : Nat) (argc : Int) (argv : List (Option (List UInt8)))
  deriving DecidableEq

/-- What is done with the command line, and `gcHistoryBuf` after it. -/
def doCommand (names : List (List UInt8)) (history cmdline : Line) : Option (Done × Line) := do
  let line := commandLine history cmdline
  let history := if line.1.head? = some 33 then history else line
  let t ← tokenize line.1
  if t.argc = 0 ∧ t.argc < 0 then return (.CMD_FAILURE, history)
  match t.strings with
  | some word :: _ =>
    match search word names with
    | none => return (.CMD_LINE_ERROR, history)
    | some i => return (.func i t.argc t.strings, history)
  | _ => return (.CMD_SUCCESS, history)

section spec

/-- `_tokenize` cuts the line into its words, with -1 for a line that is not balanced or has too many. -/
def Splits (line : List UInt8) : Prop :=
  ∃ t, tokenize line = some t ∧
    if Balanced line ∧ (words line).length ≤ ARGCNT then
      t.argc = (words line).length ∧
        t.strings = (words line).map some ++ List.replicate (ARGCNT - (words line).length) none
    else t.argc = -1

/-- A command is called with the number of the words, and there is one. -/
def Counts (names : List (List UInt8)) (history cmdline : Line) : Prop :=
  ∀ i argc argv history', doCommand names history cmdline = some (.func i argc argv, history') →
    1 ≤ argc ∧ argc = (words (commandLine history cmdline).1).length

/-- `_tokenize` gives back the words of such a line. -/
def Accepted (line : List UInt8) : Prop := Balanced line ∧ Roomy 0 (lex false line).1

/-- The first word names a command. -/
def Named (names : List (List UInt8)) (line : List UInt8) : Prop :=
  ∃ word, (words line).head? = some word ∧ (word ∈ names ∨ names = [])

end spec

section words

variable {line : List UInt8}

theorem lex_concat_blank (hc : isBlank c = true) (quoted : Bool) (line : List UInt8) :
    lex quoted (line ++ [c]) =
      ((lex quoted line).1 ++ [if (lex quoted line).2 then .gap else .lit c], (lex quoted line).2) := by
  have quote : c ≠ 34 := fun h => by
    rw [h] at hc
    exact absurd hc (by decide)
  induction quoted, line using lex.induct with
  | case1 quoted =>
    rw [List.nil_append, lex_plain quoted (by simp) quote, hc]
    cases quoted <;> rfl
  | case2 quoted r ih =>
    rw [List.cons_append, List.cons_append, lex_escaped, lex_escaped, ih]
    rfl
  | case3 quoted r ih =>
    rw [List.cons_append, lex_mark, lex_mark, ih]
    rfl
  | case4 quoted d r esc mark ih =>
    have plain : ¬ (d = 92 ∧ r.head? = some 34) := fun ⟨hd, hr⟩ => by
      obtain ⟨r', rfl⟩ := List.head?_eq_some_iff.1 hr
      exact esc r' hd rfl
    have plain' : ¬ (d = 92 ∧ (r ++ [c]).head? = some 34) := fun ⟨hd, hr⟩ => by
      cases r with
      | nil => exact quote (Option.some.inj hr)
      | cons e r => exact plain ⟨hd, hr⟩
    rw [List.cons_append, lex_plain quoted plain' mark, lex_plain quoted plain mark, ih]
    rfl

/-- Blanks at the end of a line make no difference to the words. -/
theorem words_concat_blank (h : Balanced line) (hc : isBlank c = true) :
    words (line ++ [c]) = words line := by
  have lexes := lex_concat_blank hc false line
  rw [Balanced] at h
  rw [h, if_pos rfl] at lexes
  rw [words, words, lexes, wordsOf, runs_concat rfl, wordsOf]

theorem tokenize_spec (free : 0 ∉ line) :
    ∃ t, tokenize line = some t ∧ Tokenized [] (lex false line).1 (lex false line).2 t := by
  have spec := tokens_spec line [] [] free (Nat.lt_succ_self _) (by decide : ([] : List (List UInt8)).length < ARGCNT) .nil
  exact spec

theorem accepted_iff : Accepted line ↔
    Balanced line ∧ (words line).length ≤ ARGCNT ∧ ¬ ((words line).length = ARGCNT ∧ Trailing line) := by
  refine and_congr_right fun _ => ?_
  unfold Roomy Trailing words
  simp only [Nat.zero_add]
  constructor
  · rintro (lt | ⟨eq, last⟩)
    · exact ⟨lt.le, fun h => absurd h.1 lt.ne⟩
    · exact ⟨eq.le, fun h => last h.2⟩
  · rintro ⟨le, h⟩
    exact (Nat.lt_or_eq_of_le le).imp_right fun eq => ⟨eq, fun last => h ⟨eq, last⟩⟩

theorem search_isSome (word : List UInt8) (names : List (List UInt8)) :
    (search word names).isSome ↔ word ∈ names ∨ names = [] := by
  induction names with
  | nil => simp [search]
  | cons name names ih =>
    cases names with
    | nil => by_cases h : word = name <;> simp [search, h]
    | cons name' names =>
      rw [search]
      · by_cases h : word = name
        · simp [h]
        · simpa [h] using ih
      · exact List.cons_ne_nil _ _

/-- Only a balanced line with 16 words and a blank at its end is not cut as it should be. -/
theorem splits_iff (free : 0 ∉ line) :
    Splits line ↔ ¬ (Balanced line ∧ (words line).length = ARGCNT ∧ Trailing line) := by
  obtain ⟨t, run, h⟩ := tokenize_spec free
  have accepted := @accepted_iff line
  have only : Splits line ↔ if Balanced line ∧ (words line).length ≤ ARGCNT then
      t.argc = (words line).length ∧
        t.strings = (words line).map some ++ List.replicate (ARGCNT - (words line).length) none
      else t.argc = -1 := by
    constructor
    · rintro ⟨t', run', h'⟩
      cases run.symm.trans run'
      exact h'
    · exact fun h => ⟨t, run, h⟩
  rw [only]
  by_cases ok : Accepted line
  · obtain ⟨argc, holds⟩ := h.done ok.1 ok.2
    obtain ⟨balanced, le, notLast⟩ := accepted.1 ok
    rw [if_pos ⟨balanced, le⟩]
    refine iff_of_true ⟨?_, holds.strings⟩ fun h => notLast h.2
    simpa [words] using argc
  · obtain ⟨argc, -⟩ := h.failed ok
    split
    case isTrue fits =>
      have full : (words line).length = ARGCNT ∧ Trailing line := by
        by_contra h
        exact ok (accepted.2 ⟨fits.1, fits.2, h⟩)
      refine iff_of_false (fun h => ?_) fun h => h ⟨fits.1, full⟩
      rw [argc] at h
      exact absurd h.1 (by omega)
    case isFalse unfit => exact iff_of_true argc fun h => unfit ⟨h.1, h.2.1.le⟩

end words

section command

variable {names : List (List UInt8)} {history cmdline : Line} {t : Tokens}

theorem doCommand_empty (run : tokenize (commandLine history cmdline).1 = some t)
    (h : t.strings.head? = some none) : ∃ l, doCommand names history cmdline = some (.CMD_SUCCESS, l) := by
  obtain ⟨rest, strings⟩ := List.head?_eq_some_iff.1 h
  have never : ¬ (t.argc = 0 ∧ t.argc < 0) := by omega
  simp [doCommand, run, never, strings]

theorem doCommand_word (run : tokenize (commandLine history cmdline).1 = some t)
    (h : t.strings.head? = some (some word)) : ∃ l, doCommand names history cmdline =
      some (match search word names with
        | none => .CMD_LINE_ERROR
        | some i => .func i t.argc t.strings, l) := by
  obtain ⟨rest, strings⟩ := List.head?_eq_some_iff.1 h
  have never : ¬ (t.argc = 0 ∧ t.argc < 0) := by omega
  cases found : search word names with
  | none => simp [doCommand, run, never, strings, found]
  | some i => simp [doCommand, run, never, strings, found]

theorem Tokens.Holds.head (h : t.Holds (word :: ws)) : t.strings.head? = some (some word) := by
  rw [h.strings]
  rfl

theorem counts_of_accepted (ok : Accepted (commandLine history cmdline).1) : Counts names history cmdline := by
  obtain ⟨t, run, h⟩ := tokenize_spec (commandLine history cmdline).2.1
  obtain ⟨argc, holds⟩ := h.done ok.1 ok.2
  rw [List.nil_append] at holds
  replace argc : t.argc = (wordsOf (lex false (commandLine history cmdline).1).1).length := by simpa using argc
  intro i argc' argv history' call
  cases hw : words (commandLine history cmdline).1 with
  | nil =>
    rw [words] at hw
    obtain ⟨l, done⟩ := @doCommand_empty names history cmdline t run (by rw [holds.strings, hw]; rfl)
    cases done.symm.trans call
  | cons word ws =>
    rw [words] at hw
    rw [hw] at holds argc
    obtain ⟨l, done⟩ := @doCommand_word names history cmdline t word run holds.head
    have same := done.symm.trans call
    cases found : search word names with
    | none =>
      rw [found] at same
      cases same
    | some j =>
      rw [found] at same
      cases same
      rw [List.length_cons] at argc ⊢
      omega

theorem counts_of_rejected (bad : ¬ Accepted (commandLine history cmdline).1) :
    Counts names history cmdline ↔ ¬ Named names (commandLine history cmdline).1 := by
  obtain ⟨t, run, h⟩ := tokenize_spec (commandLine history cmdline).2.1
  obtain ⟨argc, ws, called, holds, le⟩ := h.failed bad
  cases ws with
  | nil => exact absurd rfl called
  | cons word ws =>
    obtain ⟨l, done⟩ := @doCommand_word names history cmdline t word run holds.head
    obtain ⟨more, eq⟩ := le
    have first : (words (commandLine history cmdline).1).head? = some word := by
      rw [words, ← List.nil_append (wordsOf _), ← eq]
      rfl
    have named : Named names (commandLine history cmdline).1 ↔ (search word names).isSome := by
      rw [search_isSome, Named, first]
      simp
    rw [named]
    cases found : search word names with
    | none =>
      refine iff_of_true (fun i argc argv history' call => ?_) (by simp)
      rw [found] at done
      cases done.symm.trans call
    | some i =>
      refine iff_of_false (fun counts => ?_) (by simp)
      rw [found] at done
      have := (counts i _ _ _ done).1
      omega

/-- The function is called with the number of the words, unless `_tokenize` fails and it goes unnoticed. -/
theorem counts_iff (names : List (List UInt8)) (history cmdline : Line) : Counts names history cmdline ↔
    Accepted (commandLine history cmdline).1 ∨ ¬ Named names (commandLine history cmdline).1 := by
  by_cases ok : Accepted (commandLine history cmdline).1
  · exact iff_of_true (counts_of_accepted ok) (.inl ok)
  · rw [counts_of_rejected ok, or_iff_right ok]

end command

/-- When the words of a line are cut and counted as they should be. -/
theorem shell_words_iff (names : List (List UInt8)) (line : {l : List UInt8 // 0 ∉ l}) (history cmdline : Line) :
    Splits line.1 ∧ Counts names history cmdline ↔
      ¬ (Balanced line.1 ∧ (words line.1).length = ARGCNT ∧ Trailing line.1) ∧
        (Accepted (commandLine history cmdline).1 ∨ ¬ Named names (commandLine history cmdline).1) :=
  and_congr (splits_iff line.2) (counts_iff names history cmdline)

/-- Sixteen words and a blank after them. -/
def sixteen : List UInt8 := ascii "a a a a a a a a a a a a a a a a "

/-- A command with a quote that is not closed. -/
def openQuote : Line := ⟨ascii "? \"", by decide⟩

theorem shell_miscounts : (words sixteen).length = ARGCNT ∧ Balanced sixteen ∧ ¬ Splits sixteen ∧
    (doCommand [ascii "?"] ⟨[], by decide⟩ openQuote).map Prod.fst =
      some (.func 0 (-1) (some (ascii "?") :: some [] :: List.replicate 14 none)) ∧
    ¬ Counts [ascii "?"] ⟨[], by decide⟩ openQuote := by
  have called : (doCommand [ascii "?"] ⟨[], by decide⟩ openQuote).map Prod.fst =
      some (.func 0 (-1) (some (ascii "?") :: some [] :: List.replicate 14 none)) := by decide +kernel
  refine ⟨by decide +kernel, by decide +kernel, fun h => ?_, called, fun h => ?_⟩
  · exact (splits_iff (by decide +kernel)).1 h ⟨by decide +kernel, by decide +kernel, by decide +kernel⟩
  · obtain ⟨⟨done, history'⟩, run, same⟩ := Option.map_eq_some_iff.1 called
    obtain rfl : done = _ := same
    exact absurd (h _ _ _ history' run).1 (by decide)

end En675.Shell
