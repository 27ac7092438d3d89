import En675.Shell.Tokenize

/-! `_tokenize` against the words of the line. -/

namespace En675.Shell

open Lib

section reference

variable {syms run : List Sym}

@[simp] theorem chars_nil : chars [] = [] := rfl

@[simp] theorem chars_lit (c : UInt8) (run : List Sym) : chars (.lit c :: run) = c :: chars run := rfl

@[simp] theorem chars_mark (run : List Sym) : chars (.mark :: run) = chars run := rfl

@[simp] theorem chars_lits (body : List UInt8) : chars (body.map .lit) = body := by
  induction body with
  | nil => rfl
  | cons c body ih => rw [List.map_cons, chars_lit, ih]

theorem gapless_lits (body : List UInt8) : ∀ s ∈ body.map Sym.lit, s.isGap = false := by
  intro s hs
  obtain ⟨c, -, rfl⟩ := List.mem_map.1 hs
  rfl

theorem chars_append (run syms : List Sym) : chars (run ++ syms) = chars run ++ chars syms :=
  List.filterMap_append

@[simp] theorem wordsOf_nil : wordsOf [] = [] := rfl

@[simp] theorem wordsOf_gap (syms : List Sym) : wordsOf (.gap :: syms) = wordsOf syms := by
  rw [wordsOf, runs_sep rfl, wordsOf]

theorem wordsOf_run (free : ∀ s ∈ run, s.isGap = false) (h : run ≠ []) : wordsOf run = [chars run] := by
  rw [wordsOf, runs_single free h, List.map_singleton]

theorem wordsOf_cut (free : ∀ s ∈ run, s.isGap = false) (h : run ≠ []) (syms : List Sym) :
    wordsOf (run ++ .gap :: syms) = chars run :: wordsOf syms := by
  rw [wordsOf, runs_append free h rfl, List.map_cons, wordsOf]

theorem eq_gap_of_wordsOf (h : wordsOf syms = []) : ∀ s ∈ syms, s = .gap := by
  intro s hs
  have gap := eq_sep_of_runs (List.map_eq_nil_iff.1 h) s hs
  cases s with
  | gap => rfl
  | mark => cases gap
  | lit c => cases gap

theorem lex_escaped (q : Bool) (r : List UInt8) :
    lex q (92 :: 34 :: r) = (.lit 34 :: (lex q r).1, (lex q r).2) := rfl

theorem lex_mark (q : Bool) (r : List UInt8) :
    lex q (34 :: r) = (.mark :: (lex (!q) r).1, (lex (!q) r).2) := rfl

/-- The characters that stand for themselves. -/
theorem lex_plain (q : Bool) {c : UInt8} {r : List UInt8} (esc : ¬ (c = 92 ∧ r.head? = some 34)) (hc : c ≠ 34) :
    lex q (c :: r) = ((if !q && isBlank c then .gap else .lit c) :: (lex q r).1, (lex q r).2) := by
  rw [lex]
  · intro r' hc' hr
    exact esc ⟨hc', congrArg List.head? hr⟩
  · exact hc

end reference

section memory

theorem strcpy_down (pre : List UInt8) (c : UInt8) (text junk : List UInt8) (free : 0 ∉ text)
    (hn : text.length < n) :
    strcpyFrom n (pre ++ c :: (text ++ 0 :: junk)) pre.length (pre.length + 1) =
      some (pre ++ (text ++ 0 :: 0 :: junk)) := by
  induction text generalizing pre c n with
  | nil =>
    obtain ⟨n, rfl⟩ := Nat.exists_eq_add_of_lt hn
    simp [strcpyFrom]
  | cons d text ih =>
    obtain ⟨n, rfl⟩ := Nat.exists_eq_add_of_lt hn
    have hd : d ≠ 0 := fun h => free (h ▸ List.mem_cons_self)
    have step := ih (n := (d :: text).length + n) (pre ++ [d]) d (fun h => free (List.mem_cons_of_mem _ h))
      (by simp only [List.length_cons]; omega)
    simp only [List.length_append, List.length_singleton, List.append_assoc, List.singleton_append] at step
    simpa [strcpyFrom, hd] using step

namespace Text

/-- The pointer is at `text`, with `pre` behind it. -/
def here (pre text junk : List UInt8) : Text := ⟨pre ++ (text ++ 0 :: junk), pre.length⟩

variable {pre text junk : List UInt8} {c : UInt8}

@[simp] theorem here_string : (here pre text junk).string = pre.length := rfl

@[simp] theorem here_nil : (here pre [] junk).get 0 = some 0 := by
  simp [here, get]

@[simp] theorem here_cons : (here pre (c :: text) junk).get 0 = some c := by
  simp [here, get]

@[simp] theorem here_next : (here pre (c :: text) junk).next = here (pre ++ [c]) text junk := by
  simp [here, next]

@[simp] theorem here_close : (here pre (c :: text) junk).close = some (here (pre ++ [0]) text junk) := by
  simp [here, close, get]

theorem here_delete (free : 0 ∉ text) :
    (here pre (c :: text) junk).delete = some (here pre text (0 :: junk)) := by
  have copy := strcpy_down (n := (here pre (c :: text) junk).mem.length) pre c text junk free
    (by simp only [here, List.length_append, List.length_cons]; omega)
  change (strcpyFrom _ (pre ++ c :: (text ++ 0 :: junk)) pre.length (pre.length + 1) >>= _) = _
  rw [copy]
  rfl

@[simp] theorem here_escaped_nil : (here pre [] junk).escaped = some false := by
  simp [escaped]

theorem here_escaped : (here pre (c :: text) junk).escaped = some (decide (c = 92 ∧ text.head? = some 34)) := by
  unfold escaped
  rw [here_cons]
  by_cases hc : c = 92
  · cases text with
    | nil => simp [here, get, hc]
    | cons d text => simp [here, get, hc]
  · simp [hc]

section quotes

variable {n : Nat}

theorem quotes_end : quotes (n + 1) (here pre [] junk) = some (false, here pre [] junk) := by
  simp [quotes]

theorem quotes_close : quotes (n + 1) (here pre (34 :: text) junk) = some (true, here pre (34 :: text) junk) := by
  simp [quotes]

theorem quotes_escaped (free : 0 ∉ text) :
    quotes (n + 1) (here pre (92 :: 34 :: text) junk) = quotes n (here (pre ++ [34]) text (0 :: junk)) := by
  have delete := @here_delete pre (34 :: text) junk 92 (List.not_mem_cons_of_ne_of_not_mem (by decide) free)
  simp [quotes, here_escaped, delete]

theorem quotes_plain (esc : ¬ (c = 92 ∧ text.head? = some 34)) (hc : c ≠ 34) (nul : c ≠ 0) :
    quotes (n + 1) (here pre (c :: text) junk) = quotes n (here (pre ++ [c]) text junk) := by
  simp [quotes, here_escaped, esc, hc, nul]

end quotes

section word

variable {n : Nat}

theorem word_end : word (n + 1) (here pre [] junk) = some (true, here pre [] junk) := by
  simp [word, isBlank]

theorem word_blank (hc : isBlank c = true) :
    word (n + 1) (here pre (c :: text) junk) = some (true, here pre (c :: text) junk) := by
  simp [word, hc]

theorem word_escaped (free : 0 ∉ text) :
    word (n + 1) (here pre (92 :: 34 :: text) junk) = word n (here (pre ++ [34]) text (0 :: junk)) := by
  have delete := @here_delete pre (34 :: text) junk 92 (List.not_mem_cons_of_ne_of_not_mem (by decide) free)
  simp [word, here_escaped, delete, isBlank]

theorem word_quote (free : 0 ∉ text) :
    word (n + 1) (here pre (34 :: text) junk) = (quotes n (here pre text (0 :: junk))).bind fun (closed, s) =>
      if closed then s.delete.bind (word n) else some (false, s) := by
  simp only [word, here_escaped, here_delete free, here_cons]
  refine congrArg ((quotes n (here pre text (0 :: junk))).bind) (funext fun (closed, s) => ?_)
  cases closed <;> rfl

theorem word_plain (esc : ¬ (c = 92 ∧ text.head? = some 34)) (hc : c ≠ 34) (blank : isBlank c = false)
    (nul : c ≠ 0) : word (n + 1) (here pre (c :: text) junk) = word n (here (pre ++ [c]) text junk) := by
  simp [word, here_escaped, esc, hc, nul, blank]

end word

end Text

end memory

/-- What is read inside of quotes, and what is left of the line. -/
structure Quoted (text body : List UInt8) (closed : Bool) (rest : List UInt8) : Prop where
  lexes : lex true text = (body.map .lit ++ (lex true rest).1, (lex true rest).2)
  closes : closed = true → ∃ r, rest = 34 :: r
  ends : closed = false → rest = []
  shorter : body.length + rest.length ≤ text.length
  free : 0 ∉ body ∧ 0 ∉ rest

/-- One word, and what is left of the line: nothing or a blank first. -/
structure OneWord (text : List UInt8) (run : List Sym) (closed : Bool) (rest : List UInt8) : Prop where
  lexes : lex false text = (run ++ (lex false rest).1, closed && (lex false rest).2)
  gapless : ∀ s ∈ run, s.isGap = false
  ends : rest = [] ∨ closed = true ∧ ∃ c r, rest = c :: r ∧ isBlank c = true
  shorter : run.length + rest.length ≤ text.length
  free : 0 ∉ chars run ∧ 0 ∉ rest

namespace Quoted

variable {text body rest : List UInt8} {closed : Bool} {c : UInt8}

theorem cons (h : Quoted text body closed rest) (hc : c ≠ 0) (lexes : lex true t = (.lit c :: (lex true text).1, (lex true text).2))
    (longer : text.length < t.length) : Quoted t (c :: body) closed rest where
  lexes := by rw [lexes, h.lexes, List.map_cons, List.cons_append]
  closes := h.closes
  ends := h.ends
  shorter := by
    have := h.shorter
    rw [List.length_cons]
    omega
  free := ⟨List.not_mem_cons_of_ne_of_not_mem hc.symm h.free.1, h.free.2⟩

end Quoted

namespace OneWord

variable {text rest : List UInt8} {run : List Sym} {closed : Bool} {s : Sym}

theorem cons (h : OneWord text run closed rest) (gap : s.isGap = false) (hs : s.char ≠ some 0)
    (lexes : lex false t = (s :: (lex false text).1, (lex false text).2)) (longer : text.length < t.length) :
    OneWord t (s :: run) closed rest where
  lexes := by rw [lexes, h.lexes, List.cons_append]
  gapless := List.forall_mem_cons.2 ⟨gap, h.gapless⟩
  ends := h.ends
  shorter := by
    have := h.shorter
    rw [List.length_cons]
    omega
  free := by
    refine ⟨fun h0 => ?_, h.free.2⟩
    obtain ⟨x, hx, char⟩ := List.mem_filterMap.1 h0
    rcases List.mem_cons.1 hx with rfl | hx
    · exact hs char
    · exact h.free.1 (List.mem_filterMap.2 ⟨x, hx, char⟩)

theorem unclosed (q : Quoted text body false []) : OneWord (34 :: text) (.mark :: body.map .lit) false [] where
  lexes := by
    rw [lex_mark, Bool.not_false, q.lexes]
    rfl
  gapless := List.forall_mem_cons.2 ⟨rfl, gapless_lits body⟩
  ends := .inl rfl
  shorter := by
    have := q.shorter
    simp only [List.length_cons, List.length_map, List.length_nil] at this ⊢
    omega
  free := by
    rw [chars_mark, chars_lits]
    exact q.free

theorem after (q : Quoted text body true (34 :: r)) (w : OneWord r run closed rest) :
    OneWord (34 :: text) (.mark :: (body.map .lit ++ .mark :: run)) closed rest where
  lexes := by
    rw [lex_mark, Bool.not_false, q.lexes, lex_mark, Bool.not_true, w.lexes, List.cons_append, List.append_assoc,
      List.cons_append]
  gapless := by
    have marked : ∀ s ∈ Sym.mark :: run, s.isGap = false := List.forall_mem_cons.2 ⟨rfl, w.gapless⟩
    exact List.forall_mem_cons.2 ⟨rfl, fun s hs => (List.mem_append.1 hs).elim (gapless_lits body s) (marked s)⟩
  ends := w.ends
  shorter := by
    have := q.shorter
    have := w.shorter
    simp only [List.length_cons, List.length_map, List.length_append] at *
    omega
  free := by
    rw [chars_mark, chars_append, chars_lits, chars_mark, List.mem_append]
    exact ⟨fun h => h.elim q.free.1 w.free.1, w.free.2⟩

end OneWord

namespace Text

theorem quotes_spec (text pre junk : List UInt8) (free : 0 ∉ text) (hn : text.length < n) :
    ∃ body closed rest junk', Quoted text body closed rest ∧
      quotes n (here pre text junk) = some (closed, here (pre ++ body) rest junk') := by
  induction n generalizing text pre junk with
  | zero => exact absurd hn (Nat.not_lt_zero _)
  | succ n ih =>
    match text with
    | [] =>
      refine ⟨[], false, [], junk, ⟨by simp, nofun, fun _ => rfl, by simp, by simp⟩, ?_⟩
      rw [quotes_end, List.append_nil]
    | c :: text =>
      have tail : 0 ∉ text := fun h => free (List.mem_cons_of_mem _ h)
      have nul : c ≠ 0 := fun h => free (h ▸ List.mem_cons_self)
      have short := Nat.lt_of_succ_lt_succ hn
      by_cases hc : c = 34
      · subst hc
        refine ⟨[], true, 34 :: text, junk, ⟨by simp, fun _ => ⟨text, rfl⟩, nofun, by simp, by simp, free⟩, ?_⟩
        rw [quotes_close, List.append_nil]
      · by_cases esc : c = 92 ∧ text.head? = some 34
        · obtain ⟨rfl, head⟩ := esc
          obtain ⟨text, rfl⟩ := List.head?_eq_some_iff.1 head
          have tail' : 0 ∉ text := fun h => tail (List.mem_cons_of_mem _ h)
          obtain ⟨body, closed, rest, junk', q, run⟩ := ih text (pre ++ [34]) (0 :: junk) tail' (by simp at short; omega)
          refine ⟨34 :: body, closed, rest, junk', q.cons (by decide) (lex_escaped true text) (by simp only [List.length_cons]; omega), ?_⟩
          rw [quotes_escaped tail', run, List.append_assoc, List.singleton_append]
        · obtain ⟨body, closed, rest, junk', q, run⟩ := ih text (pre ++ [c]) junk tail short
          refine ⟨c :: body, closed, rest, junk', q.cons nul (lex_plain true esc hc) (by simp), ?_⟩
          rw [quotes_plain esc hc nul, run, List.append_assoc, List.singleton_append]

theorem word_spec (text pre junk : List UInt8) (free : 0 ∉ text) (hn : text.length < n) :
    ∃ run closed rest junk', OneWord text run closed rest ∧
      word n (here pre text junk) = some (closed, here (pre ++ chars run) rest junk') := by
  induction n generalizing text pre junk with
  | zero => exact absurd hn (Nat.not_lt_zero _)
  | succ n ih =>
    match text with
    | [] =>
      refine ⟨[], true, [], junk, ⟨rfl, by simp, .inl rfl, by simp, by simp⟩, ?_⟩
      rw [word_end, chars_nil, List.append_nil]
    | c :: text =>
      have tail : 0 ∉ text := fun h => free (List.mem_cons_of_mem _ h)
      have nul : c ≠ 0 := fun h => free (h ▸ List.mem_cons_self)
      have short := Nat.lt_of_succ_lt_succ hn
      cases blank : isBlank c with
      | true =>
        refine ⟨[], true, c :: text, junk, ⟨by simp, by simp, .inr ⟨rfl, c, text, rfl, blank⟩, by simp, by simp, free⟩, ?_⟩
        rw [word_blank blank, chars_nil, List.append_nil]
      | false =>
        by_cases hc : c = 34
        · subst hc
          obtain ⟨body, closed, rest, junk', q, run⟩ := quotes_spec text pre (0 :: junk) tail short
          cases closed with
          | false =>
            obtain rfl := q.ends rfl
            refine ⟨.mark :: body.map .lit, false, [], junk', .unclosed q, ?_⟩
            rw [word_quote tail, run, chars_mark, chars_lits]
            rfl
          | true =>
            obtain ⟨r, rfl⟩ := q.closes rfl
            have free' : 0 ∉ r := fun h => q.free.2 (List.mem_cons_of_mem _ h)
            have le := q.shorter
            obtain ⟨run', closed, rest, junk'', w, eq⟩ := ih r (pre ++ body) (0 :: junk') free'
              (by simp only [List.length_cons] at le; omega)
            refine ⟨_, closed, rest, junk'', .after q w, ?_⟩
            rw [word_quote tail, run, chars_mark, chars_append, chars_lits, chars_mark, ← List.append_assoc, ← eq]
            exact congrArg (Option.bind · (word n)) (here_delete free')
        · by_cases esc : c = 92 ∧ text.head? = some 34
          · obtain ⟨rfl, head⟩ := esc
            obtain ⟨text, rfl⟩ := List.head?_eq_some_iff.1 head
            have tail' : 0 ∉ text := fun h => tail (List.mem_cons_of_mem _ h)
            obtain ⟨run, closed, rest, junk', w, eq⟩ := ih text (pre ++ [34]) (0 :: junk) tail' (by simp at short; omega)
            refine ⟨.lit 34 :: run, closed, rest, junk', w.cons rfl (by decide) (lex_escaped false text) (by simp only [List.length_cons]; omega), ?_⟩
            rw [word_escaped tail', eq, List.append_assoc, chars_lit, List.singleton_append]
          · obtain ⟨run, closed, rest, junk', w, eq⟩ := ih text (pre ++ [c]) junk tail short
            have plain := lex_plain false esc hc
            rw [blank] at plain
            refine ⟨.lit c :: run, closed, rest, junk', w.cons rfl (by simpa [Sym.char] using nul) plain (by simp), ?_⟩
            rw [word_plain esc hc blank nul, eq, List.append_assoc, chars_lit, List.singleton_append]

end Text

end En675.Shell
