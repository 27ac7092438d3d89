import En675.Shell.Words
import Mathlib.Data.List.Forall2

/-! What `_tokenize` returns: the words, or -1 where the quotes are not closed or a blank follows the last
word there is room for. -/

namespace En675.Shell

open Lib

section room

variable {syms run : List Sym} {k : Nat}

/-- There is room for the words after `k` others, and for the blank after the last. -/
def Roomy (k : Nat) (syms : List Sym) : Prop :=
  k + (wordsOf syms).length < ARGCNT ∨ k + (wordsOf syms).length = ARGCNT ∧ syms.getLast? ≠ some .gap

instance (k : Nat) (syms : List Sym) : Decidable (Roomy k syms) := inferInstanceAs (Decidable (_ ∨ _))

theorem roomy_gap (hk : k < ARGCNT) : Roomy k (.gap :: syms) ↔ Roomy k syms := by
  unfold Roomy
  cases syms with
  | nil => exact iff_of_true (.inl hk) (.inl hk)
  | cons s syms => rw [wordsOf_gap, List.getLast?_cons_cons]

theorem roomy_run (free : ∀ s ∈ run, s.isGap = false) (h : run ≠ []) (hk : k < ARGCNT) : Roomy k run := by
  have last : run.getLast? ≠ some .gap := fun e => Bool.noConfusion (free _ (List.mem_of_getLast? e))
  unfold Roomy
  rw [wordsOf_run free h, List.length_singleton]
  exact (Nat.lt_or_eq_of_le hk).imp_right fun e => ⟨e, last⟩

theorem roomy_cut (free : ∀ s ∈ run, s.isGap = false) (h : run ≠ []) :
    Roomy k (run ++ .gap :: syms) ↔ k + 1 < ARGCNT ∧ Roomy (k + 1) syms := by
  have length : k + (wordsOf (run ++ .gap :: syms)).length = k + 1 + (wordsOf syms).length := by
    rw [wordsOf_cut free h, List.length_cons]
    omega
  unfold Roomy
  rw [length]
  cases syms with
  | nil =>
    rw [List.getLast?_concat]
    simpa using Or.inl
  | cons s syms =>
    have last : (run ++ .gap :: s :: syms).getLast? = (s :: syms).getLast? := by
      rw [List.getLast?_append, List.getLast?_cons_cons, List.getLast?_eq_some_getLast (List.cons_ne_nil _ _),
        Option.some_or]
    rw [last]
    constructor
    · intro room
      refine ⟨?_, room⟩
      rcases room with lt | ⟨eq, end_⟩
      · omega
      · by_contra full
        have none : wordsOf (s :: syms) = [] := List.length_eq_zero_iff.1 (by omega)
        have all := eq_gap_of_wordsOf none
        exact end_ (by rw [List.getLast?_eq_some_getLast (List.cons_ne_nil _ _), all _ (List.getLast_mem _)])
    · exact And.right

end room

section argv

variable {mem pre w : List UInt8} {p : Nat} {ptrs : List Nat} {ws : List (List UInt8)} {t : Tokens}

/-- The string at a pointer. -/
def Points (mem : List UInt8) (p : Nat) (w : List UInt8) : Prop := w ++ [0] <+: mem.drop p ∧ 0 ∉ w

theorem Points.append (h : Points pre p w) (rest : List UInt8) : Points (pre ++ rest) p w := by
  have some : p ≤ pre.length := by
    have := h.1.length_le
    simp only [List.length_append, List.length_singleton, List.length_drop] at this
    omega
  rw [Points, List.drop_append_of_le_length some]
  exact ⟨h.1.trans (List.prefix_append _ _), h.2⟩

theorem points_here (pre junk : List UInt8) (free : 0 ∉ w) : Points (pre ++ (w ++ 0 :: junk)) pre.length w := by
  rw [Points, List.drop_left]
  exact ⟨⟨junk, by rw [List.append_assoc, List.singleton_append]⟩, free⟩

theorem Points.cstr (h : Points mem p w) : cstr (mem.drop p) = w := by
  obtain ⟨rest, eq⟩ := h.1
  have all : ∀ c ∈ w, decide (c ≠ 0) = true := fun c hc => decide_eq_true fun e => h.2 (e ▸ hc)
  rw [← eq, Lib.cstr, List.append_assoc, List.takeWhile_append_of_pos all, List.singleton_append,
    List.takeWhile_cons_of_neg (by simp), List.append_nil]

theorem push_points (h : List.Forall₂ (Points pre) ptrs ws) (free : 0 ∉ w) (junk : List UInt8) :
    List.Forall₂ (Points (pre ++ (w ++ 0 :: junk))) (ptrs ++ [pre.length]) (ws ++ [w]) :=
  List.rel_append (h.imp fun _ _ point => point.append _) (.cons (points_here pre junk free) .nil)

/-- `argv` with the words so far. -/
def argvOf (ptrs : List Nat) : List (Option Nat) := ptrs.map some ++ List.replicate (ARGCNT - ptrs.length) none

theorem argvOf_free (hk : ptrs.length < ARGCNT) : (argvOf ptrs)[ptrs.length]? = some none := by
  rw [argvOf, List.getElem?_append_right (by rw [List.length_map]), List.length_map, Nat.sub_self,
    List.getElem?_replicate, if_pos (by omega)]

theorem argvOf_set (hk : ptrs.length < ARGCNT) (p : Nat) :
    (argvOf ptrs).set ptrs.length (some p) = argvOf (ptrs ++ [p]) := by
  obtain ⟨m, hm⟩ := Nat.exists_eq_add_of_lt hk
  have one : ARGCNT - ptrs.length = m + 1 := by omega
  have two : ARGCNT - (ptrs ++ [p]).length = m := by
    rw [List.length_append, List.length_singleton]
    omega
  rw [argvOf, argvOf, one, two, List.replicate_succ, List.map_append, List.append_assoc]
  rw [List.set_append_right _ _ (by rw [List.length_map]), List.length_map, Nat.sub_self, List.set_cons_zero]
  rfl

/-- `argv` holds these words and nothing else. -/
def Tokens.Holds (t : Tokens) (ws : List (List UInt8)) : Prop :=
  ∃ ptrs, t.argv = argvOf ptrs ∧ List.Forall₂ (Points t.mem) ptrs ws

theorem map_points (h : List.Forall₂ (Points mem) ptrs ws) :
    ptrs.map (fun p => some (cstr (mem.drop p))) = ws.map some := by
  induction h with
  | nil => rfl
  | cons point _ ih => rw [List.map_cons, List.map_cons, point.cstr, ih]

theorem Tokens.Holds.strings (h : t.Holds ws) :
    t.strings = ws.map some ++ List.replicate (ARGCNT - ws.length) none := by
  obtain ⟨ptrs, argv, points⟩ := h
  rw [Tokens.strings, argv, argvOf, List.map_append, List.map_replicate, List.map_map, points.length_eq,
    ← map_points points]
  rfl

end argv

section spec

/-- What `_tokenize` comes to on the symbols of a line, after the words `ws`. -/
structure Tokenized (ws : List (List UInt8)) (syms : List Sym) (closed : Bool) (t : Tokens) : Prop where
  done : closed = true → Roomy ws.length syms →
    t.argc = ws.length + (wordsOf syms).length ∧ t.Holds (ws ++ wordsOf syms)
  failed : ¬ (closed = true ∧ Roomy ws.length syms) →
    t.argc = -1 ∧ ∃ ws', ws' ≠ [] ∧ t.Holds ws' ∧ ws' <+: ws ++ wordsOf syms

variable {text pre junk rest : List UInt8} {ptrs : List Nat} {ws : List (List UInt8)} {n : Nat} {c : UInt8}
  {run : List Sym} {t : Tokens}

theorem lex_blank (hc : isBlank c = true) (r : List UInt8) :
    lex false (c :: r) = (.gap :: (lex false r).1, (lex false r).2) := by
  have esc : ¬ (c = 92 ∧ r.head? = some 34) := fun h => by
    rw [h.1] at hc
    exact absurd hc (by decide)
  have quote : c ≠ 34 := fun h => by
    rw [h] at hc
    exact absurd hc (by decide)
  rw [lex_plain false esc quote, hc]
  rfl

/-- A line that begins with a word. -/
theorem lex_first (hc : isBlank c = false) (r : List UInt8) :
    ∃ s syms, (lex false (c :: r)).1 = s :: syms ∧ s.isGap = false := by
  by_cases quote : c = 34
  · subst quote
    exact ⟨_, _, rfl, rfl⟩
  · by_cases esc : c = 92 ∧ r.head? = some 34
    · obtain ⟨rfl, head⟩ := esc
      obtain ⟨r, rfl⟩ := List.head?_eq_some_iff.1 head
      exact ⟨_, _, rfl, rfl⟩
    · rw [lex_plain false esc quote, hc]
      exact ⟨_, _, rfl, rfl⟩

theorem OneWord.ne_nil (w : OneWord (c :: text) run closed rest) (hc : isBlank c = false) : run ≠ [] := by
  rintro rfl
  obtain ⟨s, syms, eq, gap⟩ := lex_first hc text
  have lexes := congrArg Prod.fst w.lexes
  rw [eq, List.nil_append] at lexes
  rcases w.ends with rfl | ⟨-, c', r, rfl, blank⟩
  · exact List.cons_ne_nil _ _ lexes
  · rw [lex_blank blank, List.cons.injEq] at lexes
    rw [lexes.1] at gap
    exact Bool.noConfusion gap

/-- What is left of a line when the blanks before a word are skipped. -/
structure Skipped (text rest : List UInt8) : Prop where
  words : wordsOf (lex false text).1 = wordsOf (lex false rest).1
  closed : (lex false text).2 = (lex false rest).2
  room : ∀ k < ARGCNT, Roomy k (lex false text).1 ↔ Roomy k (lex false rest).1
  first : ∀ c ∈ rest.head?, isBlank c = false
  shorter : rest.length ≤ text.length
  free : 0 ∉ rest

theorem Skipped.blank (h : Skipped text rest) (hc : isBlank c = true) : Skipped (c :: text) rest where
  words := by rw [lex_blank hc, wordsOf_gap, h.words]
  closed := by rw [lex_blank hc, h.closed]
  room k hk := by rw [lex_blank hc, roomy_gap hk, h.room k hk]
  first := h.first
  shorter := Nat.le_succ_of_le h.shorter
  free := h.free

theorem skipBlanks_spec (text pre : List UInt8) (free : 0 ∉ text) (hn : text.length < n) :
    ∃ pre' rest, Skipped text rest ∧
      Text.skipBlanks n (.here pre text junk) = some (.here (pre ++ pre') rest junk) := by
  induction n generalizing text pre with
  | zero => exact absurd hn (Nat.not_lt_zero _)
  | succ n ih =>
    match text with
    | [] =>
      exact ⟨[], [], ⟨rfl, rfl, fun _ _ => .rfl, by simp, le_rfl, free⟩, by simp [Text.skipBlanks, isBlank]⟩
    | c :: text =>
      cases blank : isBlank c with
      | false =>
        exact ⟨[], c :: text, ⟨rfl, rfl, fun _ _ => .rfl, by simp [blank], le_rfl, free⟩,
          by simp [Text.skipBlanks, blank]⟩
      | true =>
        obtain ⟨pre', rest, skipped, run⟩ :=
          ih text (pre ++ [c]) (fun h => free (List.mem_cons_of_mem _ h)) (Nat.lt_of_succ_lt_succ hn)
        refine ⟨c :: pre', rest, skipped.blank blank, ?_⟩
        rw [List.append_assoc, List.singleton_append] at run
        simpa [Text.skipBlanks, blank] using run

namespace Tokenized

theorem skip (h : Tokenized ws (lex false rest).1 (lex false rest).2 t) (s : Skipped text rest)
    (hk : ws.length < ARGCNT) : Tokenized ws (lex false text).1 (lex false text).2 t := by
  obtain ⟨done, failed⟩ := h
  rw [← s.closed, ← s.room _ hk, ← s.words] at done failed
  exact ⟨done, failed⟩

theorem unclosed (w : OneWord text run false rest) (some : run ≠ []) (argc : t.argc = -1)
    (holds : t.Holds (ws ++ [chars run])) : Tokenized ws (lex false text).1 (lex false text).2 t := by
  have rest_nil : rest = [] := w.ends.resolve_right fun h => Bool.noConfusion h.1
  subst rest_nil
  rw [w.lexes]
  refine ⟨fun closed => absurd closed (by simp), fun _ => ⟨argc, _, by simp, holds, ?_⟩⟩
  rw [lex, List.append_nil, wordsOf_run w.gapless some]

theorem last (w : OneWord text run true []) (some : run ≠ []) (hk : ws.length < ARGCNT)
    (argc : t.argc = ws.length + 1) (holds : t.Holds (ws ++ [chars run])) :
    Tokenized ws (lex false text).1 (lex false text).2 t := by
  have words := wordsOf_run w.gapless some
  rw [w.lexes, lex, List.append_nil]
  refine ⟨fun _ _ => ?_, fun h => absurd ⟨rfl, roomy_run w.gapless some hk⟩ h⟩
  rw [words]
  exact ⟨argc, holds⟩

theorem full (w : OneWord text run true (c :: rest)) (blank : isBlank c = true) (some : run ≠ [])
    (hk : ARGCNT ≤ ws.length + 1) (argc : t.argc = -1) (holds : t.Holds (ws ++ [chars run])) :
    Tokenized ws (lex false text).1 (lex false text).2 t := by
  rw [w.lexes, lex_blank blank]
  refine ⟨fun _ room => ?_, fun _ => ⟨argc, _, by simp, holds, ?_⟩⟩
  · exact absurd ((roomy_cut w.gapless some).1 room).1 (Nat.not_lt.2 hk)
  · rw [wordsOf_cut w.gapless some]
    exact ⟨_, (List.append_cons _ _ _).symm⟩

theorem more (w : OneWord text run true (c :: rest)) (blank : isBlank c = true) (some : run ≠ [])
    (hk : ws.length + 1 < ARGCNT)
    (h : Tokenized (ws ++ [chars run]) (lex false rest).1 (lex false rest).2 t) :
    Tokenized ws (lex false text).1 (lex false text).2 t := by
  obtain ⟨done, failed⟩ := h
  rw [List.length_append, List.length_singleton, List.append_assoc, List.singleton_append] at done failed
  rw [w.lexes, lex_blank blank, Bool.true_and]
  have words := wordsOf_cut w.gapless some (lex false rest).1
  have room := @roomy_cut (lex false rest).1 run ws.length w.gapless some
  constructor
  · intro closed fits
    obtain ⟨argc, holds⟩ := done closed (room.1 fits).2
    rw [words, List.length_cons]
    exact ⟨by push_cast at argc ⊢; omega, holds⟩
  · intro h
    rw [words]
    exact failed fun ok => h ⟨ok.1, room.2 ⟨hk, ok.2⟩⟩

end Tokenized

theorem tokens_spec (text pre junk : List UInt8) (free : 0 ∉ text) (hn : text.length < n)
    (hk : ws.length < ARGCNT) (points : List.Forall₂ (Points pre) ptrs ws) :
    ∃ t, tokens n (.here pre text junk) ws.length (argvOf ptrs) = some t ∧
      Tokenized ws (lex false text).1 (lex false text).2 t := by
  induction n generalizing text pre junk ptrs ws with
  | zero => exact absurd hn (Nat.not_lt_zero _)
  | succ n ih =>
    obtain ⟨pre', rest, skipped, run⟩ := @skipBlanks_spec junk _ text pre free hn
    have points' : List.Forall₂ (Points (pre ++ pre')) ptrs ws := points.imp fun _ _ h => h.append _
    have count := points.length_eq
    rw [tokens, run]
    match rest with
    | [] =>
      refine ⟨⟨ws.length, argvOf ptrs, (Text.here (pre ++ pre') [] junk).mem⟩, by simp, ?_⟩
      refine .skip ?_ skipped hk
      refine ⟨fun _ _ => ⟨by simp [lex], ptrs, rfl, ?_⟩, fun h => absurd ⟨rfl, .inl hk⟩ h⟩
      rw [lex, wordsOf_nil, List.append_nil]
      exact points'.imp fun _ _ h => h.append _
    | c :: r =>
      have nul : c ≠ 0 := fun h => skipped.free (h ▸ List.mem_cons_self)
      have first := skipped.first c rfl
      obtain ⟨run, closed, rest, junk', w, read⟩ := Text.word_spec (n := n + 1) (c :: r) (pre ++ pre') junk skipped.free
        (Nat.lt_of_le_of_lt skipped.shorter hn)
      have hasSym := w.ne_nil first
      have room := @argvOf_free ptrs (by omega)
      have set := @argvOf_set ptrs (by omega) (pre ++ pre').length
      rw [count] at room set
      simp only [Option.bind_eq_bind, Option.bind_some, Text.here_cons, if_neg nul, room, Text.here_string, set, read]
      cases closed with
      | false =>
        obtain rfl : rest = [] := w.ends.resolve_right fun h => Bool.noConfusion h.1
        refine ⟨_, rfl, .skip (.unclosed w hasSym rfl ⟨_, rfl, ?_⟩) skipped hk⟩
        simpa [Text.here] using push_points points' w.free.1 junk'
      | true =>
        rcases w.ends with rfl | ⟨-, b, r, rfl, blank⟩
        · simp only [Text.here_nil, Option.bind_some, Bool.not_true, Bool.false_eq_true, if_false, if_true]
          refine ⟨_, rfl, .skip (.last w hasSym hk rfl ⟨_, rfl, ?_⟩) skipped hk⟩
          simpa [Text.here] using push_points points' w.free.1 junk'
        · have nul' : b ≠ 0 := fun h => w.free.2 (h ▸ List.mem_cons_self)
          simp only [Text.here_cons, Text.here_close, Option.bind_some, if_neg nul', Bool.not_true, Bool.false_eq_true, if_false]
          by_cases full : ARGCNT ≤ ws.length + 1
          · rw [if_pos full]
            refine ⟨_, rfl, .skip (.full w blank hasSym full rfl ⟨_, rfl, ?_⟩) skipped hk⟩
            simpa [Text.here] using push_points points' w.free.1 (r ++ 0 :: junk')
          · rw [if_neg full]
            have shorter : r.length < n := by
              have := List.length_pos_of_ne_nil hasSym
              have := w.shorter
              have := skipped.shorter
              simp only [List.length_cons] at *
              omega
            have longer : (ws ++ [chars run]).length = ws.length + 1 := List.length_append
            obtain ⟨t, rounds, h⟩ := @ih (ptrs ++ [(pre ++ pre').length]) (ws ++ [chars run]) r
              (pre ++ pre' ++ chars run ++ [0]) junk' (fun h => w.free.2 (List.mem_cons_of_mem _ h)) shorter (by omega)
              (by simpa using push_points points' w.free.1 [])
            rw [longer] at rounds
            exact ⟨t, rounds, .skip (.more w blank hasSym (by omega) h) skipped hk⟩

end spec

end En675.Shell
