import En675.Lib.Paged
import En675.Lib.Transition
import Mathlib.Algebra.Ring.Int.Defs
import Mathlib.Algebra.Ring.Nat

/-! Saving to the EEPROM a page at a time (`eeprom.c`, and `AppSavePar` of `isp_par.c`).  The device
is present and acknowledges every transfer; it has 13 address bits and rolls over inside a page of 32. -/

namespace En675.Dev

open Lib

def twiEepPageEa : Nat := 256
def twiEepByteEa : Nat := 32

/-- The statics of `TwiWrEep2` beside the contents of the device. -/
structure Eeprom where
  gwWaddr : Nat
  k : Nat
  l : Nat
  gpbBuf : Nat
  gbTwiCnt : Nat
  mem : Nat → UInt8

def eepPageWrite (awWaddr : Nat) (apbBuf : Nat → UInt8) (anBufEa : Nat) (mem : Nat → UInt8) :
    Nat → UInt8 :=
  Paged.write twiEepByteEa (awWaddr % 2 ^ 13)
    ((List.range (anBufEa - 1)).map apbBuf ++ [apbBuf (anBufEa - 1)]) mem

namespace Eeprom

variable (ram : Nat → UInt8) (s : Eeprom)

/-- The page that the counter stands at, `bTwiCnt` counting from 1. -/
def pageOut (bTwiCnt : Nat) : Nat → UInt8 :=
  let wRegAddrBuf := (bTwiCnt - 1) * twiEepByteEa
  eepPageWrite ((s.gwWaddr + wRegAddrBuf) % 2 ^ 16) (fun i => ram (s.gpbBuf + wRegAddrBuf + i))
    (if bTwiCnt < s.k + 1 then twiEepByteEa else s.l) s.mem

def twiWrEep2 (awWaddr apbBuf anBufEa : Nat) : Eeprom × Bool :=
  if s.gbTwiCnt % 2 = 1 then ({ s with gbTwiCnt := (s.gbTwiCnt + 1) % 2 ^ 8 }, false)
  else
    let bTwiCnt := s.gbTwiCnt / 2
    if bTwiCnt = 0 then
      if anBufEa = 0 then (s, false)
      else if twiEepPageEa * twiEepByteEa ≤ (awWaddr + anBufEa) % 2 ^ 32 then (s, false)
      else
        ({ s with
            gwWaddr := awWaddr
            gpbBuf := apbBuf
            k := anBufEa / twiEepByteEa % 2 ^ 8
            l := anBufEa % twiEepByteEa
            gbTwiCnt := (s.gbTwiCnt + 1) % 2 ^ 8 }, false)
    else if s.k + 2 ≤ bTwiCnt then
      ({ s with gwWaddr := 0, gpbBuf := 0, k := 0, l := 0, gbTwiCnt := 0 }, true)
    else ({ s with mem := s.pageOut ram bTwiCnt, gbTwiCnt := (s.gbTwiCnt + 1) % 2 ^ 8 }, false)

/-- `TwiWrEep2(0, 0, 0)`. -/
def poll : Eeprom := (s.twiWrEep2 ram 0 0 0).1

def pollDone : Bool := (s.twiWrEep2 ram 0 0 0).2

def Accepted (awWaddr anBufEa : Nat) : Prop :=
  anBufEa ≠ 0 ∧ (awWaddr + anBufEa) % 2 ^ 32 < twiEepPageEa * twiEepByteEa

/-- What a save is to leave: the buffer in its range, and everything else as it was. -/
def Saved (awWaddr apbBuf anBufEa : Nat) (before after : Nat → UInt8) : Prop :=
  ∀ x, after x =
    if awWaddr ≤ x ∧ x < awWaddr + anBufEa then ram (apbBuf + (x - awWaddr)) else before x

/-- The call that is given the buffer, and polls until one of them answers 1. -/
def Saves (awWaddr apbBuf anBufEa : Nat) : Prop :=
  let run n := (poll ram)^[n] (s.twiWrEep2 ram awWaddr apbBuf anBufEa).1
  ∃ n, (∀ m < n, (run m).pollDone ram = false) ∧ (run n).pollDone ram = true ∧
    Saved ram awWaddr apbBuf anBufEa s.mem (run (n + 1)).mem

section run

/-- The contents after the first pages of a save. -/
def pages : Nat → Nat → UInt8
  | 0 => s.mem
  | b + 1 => { s with mem := pages b }.pageOut ram (b + 1)

theorem poll_odd (h : s.gbTwiCnt % 2 = 1) :
    s.twiWrEep2 ram 0 0 0 = ({ s with gbTwiCnt := (s.gbTwiCnt + 1) % 2 ^ 8 }, false) :=
  if_pos h

theorem poll_page (b : Nat) (h : s.gbTwiCnt = 2 * (b + 1)) (hb : b < s.k + 1) (lt : b < 127) :
    s.twiWrEep2 ram 0 0 0 =
      ({ s with mem := s.pageOut ram (b + 1), gbTwiCnt := 2 * (b + 1) + 1 }, false) := by
  have hd : s.gbTwiCnt / 2 = b + 1 := by omega
  rw [twiWrEep2, if_neg (by omega)]
  simp only [hd]
  rw [if_neg (by omega), if_neg (by omega), h, Nat.mod_eq_of_lt (by omega)]

theorem poll_done (h : s.gbTwiCnt = 2 * (s.k + 2)) :
    s.twiWrEep2 ram 0 0 0 =
      ({ s with gwWaddr := 0, gpbBuf := 0, k := 0, l := 0, gbTwiCnt := 0 }, true) := by
  have hd : s.gbTwiCnt / 2 = s.k + 2 := by omega
  rw [twiWrEep2, if_neg (by omega)]
  simp only [hd]
  rw [if_neg (by omega), if_pos (by omega)]

theorem poll_idle (h : s.gbTwiCnt = 0) : s.twiWrEep2 ram 0 0 0 = (s, false) := by
  simp [twiWrEep2, h]

/-- Two calls write one page. -/
theorem polls_pages (h : s.gbTwiCnt = 1) (b : Nat) (hb : b ≤ s.k + 1) (lt : b ≤ 127) :
    (poll ram)^[2 * b] s = { s with mem := s.pages ram b, gbTwiCnt := 2 * b + 1 } ∧
      ∀ m < 2 * b, ((poll ram)^[m] s).pollDone ram = false := by
  induction b with
  | zero => exact ⟨by simp [pages, ← h], fun m hm => absurd hm (by omega)⟩
  | succ b ih =>
    obtain ⟨hs, hd⟩ := ih (by omega) (by omega)
    have first := poll_odd ram { s with mem := s.pages ram b, gbTwiCnt := 2 * b + 1 }
      (show (2 * b + 1) % 2 = 1 by omega)
    have next := poll_page ram
      { s with mem := s.pages ram b, gbTwiCnt := (2 * b + 1 + 1) % 2 ^ 8 } b
      (show (2 * b + 1 + 1) % 2 ^ 8 = 2 * (b + 1) by omega) (show b < s.k + 1 by omega) (by omega)
    have hmid : (poll ram)^[2 * b + 1] s =
        { s with mem := s.pages ram b, gbTwiCnt := (2 * b + 1 + 1) % 2 ^ 8 } := by
      rw [Function.iterate_succ_apply', hs, poll, first]
    constructor
    · rw [show 2 * (b + 1) = 2 * b + 1 + 1 by omega, Function.iterate_succ_apply', hmid, poll, next]
      rfl
    · intro m hm
      rcases Nat.lt_trichotomy m (2 * b) with hlt | rfl | hgt
      · exact hd m hlt
      · rw [hs, pollDone, first]
      · obtain rfl : m = 2 * b + 1 := by omega
        rw [hmid, pollDone, next]

/-- A save of at most 126 pages ends, and leaves the last of them. -/
theorem polls_done (h : s.gbTwiCnt = 1) (lt : s.k < 126) :
    (∀ m < 2 * (s.k + 1) + 1, ((poll ram)^[m] s).pollDone ram = false) ∧
      ((poll ram)^[2 * (s.k + 1) + 1] s).pollDone ram = true ∧
      ((poll ram)^[2 * (s.k + 1) + 1 + 1] s) =
        { gwWaddr := 0, gpbBuf := 0, k := 0, l := 0, gbTwiCnt := 0, mem := s.pages ram (s.k + 1) } := by
  obtain ⟨hs, hd⟩ := s.polls_pages ram h (s.k + 1) le_rfl (by omega)
  have first := poll_odd ram
    { s with mem := s.pages ram (s.k + 1), gbTwiCnt := 2 * (s.k + 1) + 1 }
    (show (2 * (s.k + 1) + 1) % 2 = 1 by omega)
  have last := poll_done ram
    { s with mem := s.pages ram (s.k + 1), gbTwiCnt := (2 * (s.k + 1) + 1 + 1) % 2 ^ 8 }
    (show (2 * (s.k + 1) + 1 + 1) % 2 ^ 8 = 2 * (s.k + 2) by omega)
  have hmid : (poll ram)^[2 * (s.k + 1) + 1] s =
      { s with mem := s.pages ram (s.k + 1), gbTwiCnt := (2 * (s.k + 1) + 1 + 1) % 2 ^ 8 } := by
    rw [Function.iterate_succ_apply', hs, poll, first]
  refine ⟨fun m hm => ?_, ?_, ?_⟩
  · rcases Nat.lt_or_ge m (2 * (s.k + 1)) with hlt | hge
    · exact hd m hlt
    · obtain rfl : m = 2 * (s.k + 1) := by omega
      rw [hs, pollDone, first]
  · rw [hmid, pollDone, last]
  · rw [Function.iterate_succ_apply', hmid, poll, last]

/-- From 127 pages on the byte counter comes round before the end test. -/
theorem poll_long (hk : 126 ≤ s.k) (hc : s.gbTwiCnt < 2 ^ 8) :
    s.pollDone ram = false ∧ (s.poll ram).k = s.k ∧ (s.poll ram).gbTwiCnt < 2 ^ 8 := by
  have early : ¬s.k + 2 ≤ s.gbTwiCnt / 2 := by omega
  have wraps := Nat.mod_lt (s.gbTwiCnt + 1) (show 2 ^ 8 > 0 by decide)
  simp only [pollDone, poll, twiWrEep2, if_neg early, if_true]
  split_ifs
  · exact ⟨rfl, rfl, wraps⟩
  · exact ⟨rfl, rfl, hc⟩
  · exact ⟨rfl, rfl, wraps⟩

theorem never_done (hk : 126 ≤ s.k) (hc : s.gbTwiCnt < 2 ^ 8) (n : Nat) :
    ((poll ram)^[n] s).pollDone ram = false := by
  induction n generalizing s with
  | zero => exact (s.poll_long ram hk hc).1
  | succ n ih =>
    obtain ⟨-, hk', hc'⟩ := s.poll_long ram hk hc
    rw [Function.iterate_succ_apply]
    exact ih _ (hk'.symm ▸ hk) hc'

end run

section contents

theorem sent_eq (apbBuf : Nat → UInt8) (anBufEa : Nat) :
    (List.range (anBufEa - 1)).map apbBuf ++ [apbBuf (anBufEa - 1)] =
      (List.range (max anBufEa 1)).map apbBuf := by
  cases anBufEa with
  | zero => rfl
  | succ n => simp [List.range_succ]

/-- The number of octets of page `b`, counted from 0. -/
def pageEa (b : Nat) : Nat := if b < s.k then twiEepByteEa else max s.l 1

theorem pageEa_pos (b : Nat) : 0 < s.pageEa b := by
  unfold pageEa
  split_ifs
  · decide
  · exact Nat.lt_of_lt_of_le Nat.one_pos (Nat.le_max_right _ _)

theorem pages_succ (b : Nat) :
    s.pages ram (b + 1) =
      Paged.write twiEepByteEa ((s.gwWaddr + b * twiEepByteEa) % 2 ^ 13)
        ((List.range (s.pageEa b)).map fun i => ram (s.gpbBuf + b * twiEepByteEa + i))
        (s.pages ram b) := by
  have hn : max (if b + 1 < s.k + 1 then twiEepByteEa else s.l) 1 = s.pageEa b := by
    unfold pageEa
    split_ifs <;> first | rfl | omega
  rw [pages, pageOut, eepPageWrite, sent_eq, Nat.mod_mod_of_dvd _ (by decide)]
  simp only [Nat.add_sub_cancel, hn]

/-- Whole pages, each in a page of the device. -/
theorem pages_whole (b : Nat) (hb : b ≤ s.k) (fits : s.gwWaddr + 32 * s.k < 2 ^ 13)
    (aligned : s.k ≠ 0 → s.gwWaddr % 32 = 0) :
    s.pages ram b =
      Paged.splice s.gwWaddr ((List.range (32 * b)).map fun i => ram (s.gpbBuf + i)) s.mem := by
  induction b with
  | zero => simp [pages]
  | succ b ih =>
    have ha := aligned (by omega)
    rw [pages_succ, ih (by omega), pageEa, if_pos (by omega)]
    simp only [twiEepByteEa]
    rw [Nat.mod_eq_of_lt (by omega), Paged.write_eq_splice 32 (by decide) _ (by simp; omega)]
    have hl : s.gwWaddr + b * 32 =
        s.gwWaddr + ((List.range (32 * b)).map fun i => ram (s.gpbBuf + i)).length := by
      simp [Nat.mul_comm]
    rw [hl, Paged.splice_append, show 32 * (b + 1) = 32 * b + 32 by omega, List.range_add,
      List.map_append, List.map_map]
    simp [Function.comp_def, Nat.mul_comm, Nat.add_assoc]

/-- And the rest of them, which is not empty. -/
theorem pages_saved (hl : s.l ≠ 0) (fits : s.gwWaddr + 32 * s.k + s.l < 2 ^ 13)
    (aligned : s.k ≠ 0 → s.gwWaddr % 32 = 0) (last : (s.gwWaddr + 32 * s.k) % 32 + s.l ≤ 32) :
    s.pages ram (s.k + 1) =
      Paged.splice s.gwWaddr ((List.range (32 * s.k + s.l)).map fun i => ram (s.gpbBuf + i))
        s.mem := by
  rw [pages_succ, pages_whole ram s s.k le_rfl (by omega) aligned, pageEa, if_neg (by omega)]
  simp only [twiEepByteEa]
  rw [Nat.mod_eq_of_lt (by omega), Paged.write_eq_splice 32 (by decide) _ (by simp; omega),
    Nat.max_eq_left (by omega)]
  have hlen : s.gwWaddr + s.k * 32 =
      s.gwWaddr + ((List.range (32 * s.k)).map fun i => ram (s.gpbBuf + i)).length := by
    simp [Nat.mul_comm]
  rw [hlen, Paged.splice_append, List.range_add, List.map_append, List.map_map]
  simp [Function.comp_def, Nat.mul_comm, Nat.add_assoc]

theorem splice_saved (awWaddr apbBuf anBufEa : Nat) (before : Nat → UInt8) :
    Saved ram awWaddr apbBuf anBufEa before
      (Paged.splice awWaddr ((List.range anBufEa).map fun i => ram (apbBuf + i)) before) := by
  intro x
  rw [Paged.splice]
  by_cases h : awWaddr ≤ x
  · by_cases h' : x < awWaddr + anBufEa
    · simp [h, h', List.getElem?_range (show x - awWaddr < anBufEa by omega)]
    · rw [if_pos h, if_neg (by omega), List.getElem?_eq_none (by simp; omega)]
      rfl
  · rw [if_neg h, if_neg (by omega)]

end contents

section ones

variable (b n : Nat) (x : Nat)

/-- A page of ones over the device's cells. -/
theorem pages_ones_succ :
    (Paged.Covers 32 ((s.gwWaddr + b * 32) % 2 ^ 13) (s.pageEa b) x →
      s.pages (fun _ => 1) (b + 1) x = 1) ∧
    (¬Paged.Covers 32 ((s.gwWaddr + b * 32) % 2 ^ 13) (s.pageEa b) x →
      s.pages (fun _ => 1) (b + 1) x = s.pages (fun _ => 1) b x) := by
  rw [pages_succ, List.map_const', List.length_range]
  exact Paged.write_replicate 32 (by decide) _ _ _ _ _

theorem pages_ones_of_le (h : s.pages (fun _ => 1) b x = 1) (hn : b ≤ n) :
    s.pages (fun _ => 1) n x = 1 := by
  induction n, hn using Nat.le_induction with
  | base => exact h
  | succ n _ ih =>
    by_cases c : Paged.Covers 32 ((s.gwWaddr + n * 32) % 2 ^ 13) (s.pageEa n) x
    · exact (s.pages_ones_succ n x).1 c
    · rw [(s.pages_ones_succ n x).2 c, ih]

theorem pages_ones_of_covers
    (h : Paged.Covers 32 ((s.gwWaddr + b * 32) % 2 ^ 13) (s.pageEa b) x) (hn : b < n) :
    s.pages (fun _ => 1) n x = 1 :=
  s.pages_ones_of_le (b + 1) n x ((s.pages_ones_succ b x).1 h) hn

/-- No cell beyond the 13 address bits is written. -/
theorem pages_ones_of_ge (hx : 2 ^ 13 ≤ x) : s.pages (fun _ => 1) n x = s.mem x := by
  induction n with
  | zero => rfl
  | succ n ih =>
    rw [(s.pages_ones_succ n x).2, ih]
    rintro ⟨i, -, rfl⟩
    omega

end ones

/-- The condition: a length that is no multiple of the page, at most 126 pages, and a start from
which the pages do not roll over. -/
def Fits (awWaddr anBufEa : Nat) : Prop :=
  anBufEa % 32 ≠ 0 ∧ anBufEa < 126 * 32 ∧ awWaddr % 32 + min anBufEa 32 ≤ 32

section saves

variable (awWaddr apbBuf anBufEa : Nat)

/-- The call that is given the buffer. -/
def started : Eeprom :=
  { s with
    gwWaddr := awWaddr, gpbBuf := apbBuf, k := anBufEa / 32 % 2 ^ 8, l := anBufEa % 32
    gbTwiCnt := 1 }

theorem twiWrEep2_started (h : s.gbTwiCnt = 0) (acc : Accepted awWaddr anBufEa) :
    s.twiWrEep2 ram awWaddr apbBuf anBufEa = (s.started awWaddr apbBuf anBufEa, false) := by
  rw [twiWrEep2, if_neg (by omega)]
  simp only [h, Nat.zero_div, if_true]
  rw [if_neg acc.1, if_neg (Nat.not_le.mpr acc.2)]
  rfl

theorem saves_iff (h : s.gbTwiCnt = 0) (acc : Accepted awWaddr anBufEa)
    (hk : anBufEa / 32 % 2 ^ 8 < 126) :
    s.Saves ram awWaddr apbBuf anBufEa ↔
      Saved ram awWaddr apbBuf anBufEa s.mem
        ((s.started awWaddr apbBuf anBufEa).pages ram (anBufEa / 32 % 2 ^ 8 + 1)) := by
  obtain ⟨quiet, done, left⟩ := (s.started awWaddr apbBuf anBufEa).polls_done ram rfl hk
  simp only [Saves, twiWrEep2_started ram s awWaddr apbBuf anBufEa h acc]
  constructor
  · rintro ⟨n, hn, hd, saved⟩
    obtain rfl : n = 2 * ((s.started awWaddr apbBuf anBufEa).k + 1) + 1 := by
      rcases Nat.lt_trichotomy n (2 * ((s.started awWaddr apbBuf anBufEa).k + 1) + 1) with
        hlt | heq | hgt
      · exact absurd hd (by rw [quiet n hlt]; decide)
      · exact heq
      · exact absurd done (by rw [hn _ hgt]; decide)
    rw [left] at saved
    exact saved
  · intro saved
    refine ⟨_, quiet, done, ?_⟩
    rw [left]
    exact saved

theorem saves_of_fits (h : s.gbTwiCnt = 0) (acc : Accepted awWaddr anBufEa)
    (hw : awWaddr < 2 ^ 16) (fits : Fits awWaddr anBufEa) : s.Saves ram awWaddr apbBuf anBufEa := by
  obtain ⟨hl, hlen, hroll⟩ := fits
  have hin := acc.2
  simp only [twiEepPageEa, twiEepByteEa] at hin
  rw [Nat.mod_eq_of_lt (by omega)] at hin
  have hk : anBufEa / 32 % 2 ^ 8 = anBufEa / 32 := Nat.mod_eq_of_lt (by omega)
  rw [saves_iff ram s _ _ _ h acc (by omega)]
  have pages := (s.started awWaddr apbBuf anBufEa).pages_saved ram hl
    (by simp only [started]; omega) (by simp only [started]; omega) (by simp only [started]; omega)
  have hsum : 32 * (anBufEa / 32) + anBufEa % 32 = anBufEa := Nat.div_add_mod _ _
  simp only [started, hk, hsum] at pages ⊢
  rw [pages]
  exact splice_saved ram awWaddr apbBuf anBufEa s.mem

/-- A blank device that is given ones shows every cell written. -/
theorem fits_of_saves (h : s.gbTwiCnt = 0) (blank : s.mem = fun _ => 0)
    (acc : Accepted awWaddr anBufEa) (hw : awWaddr < 2 ^ 16) (hn : anBufEa < 2 ^ 32)
    (saves : s.Saves (fun _ => 1) awWaddr apbBuf anBufEa) : Fits awWaddr anBufEa := by
  have hin := acc.2
  have pos := acc.1
  simp only [twiEepPageEa, twiEepByteEa] at hin
  have hk : anBufEa / 32 % 2 ^ 8 < 126 := by
    by_contra hge
    obtain ⟨n, -, done, -⟩ := saves
    rw [twiWrEep2_started _ s awWaddr apbBuf anBufEa h acc, never_done] at done
    · exact absurd done (by decide)
    · simp only [started]
      omega
    · simp [started]
  rw [saves_iff _ s _ _ _ h acc hk] at saves
  set started := s.started awWaddr apbBuf anBufEa with hs
  have short : anBufEa < 126 * 32 := by
    -- otherwise the length came round, and the range leaves the device
    by_contra hge
    have out := saves (2 ^ 13 + awWaddr)
    rw [pages_ones_of_ge _ _ _ (by omega), if_pos (by omega), hs] at out
    simp [Eeprom.started, blank] at out
  rw [Nat.mod_eq_of_lt (by omega)] at hin
  have hk' : anBufEa / 32 % 2 ^ 8 = anBufEa / 32 := Nat.mod_eq_of_lt (by omega)
  have outside (x b : Nat) (hx : x < awWaddr ∨ awWaddr + anBufEa ≤ x) (hb : b ≤ anBufEa / 32) :
      ¬Paged.Covers 32 ((started.gwWaddr + b * 32) % 2 ^ 13) (started.pageEa b) x := by
    intro c
    have out := saves x
    rw [pages_ones_of_covers _ b _ x c (by omega), if_neg (by omega), blank] at out
    exact absurd out (by simp)
  refine ⟨fun hl => ?_, short, ?_⟩
  · refine outside (awWaddr + anBufEa) (anBufEa / 32) (.inr le_rfl) le_rfl
      ⟨0, started.pageEa_pos _, ?_⟩
    simp only [hs, Eeprom.started]
    omega
  · by_contra over_
    refine outside (awWaddr / 32 * 32) 0 (by omega) (by omega) ⟨32 - awWaddr % 32, ?_, ?_⟩
    · simp only [pageEa, hs, Eeprom.started, hk', twiEepByteEa]
      split_ifs <;> omega
    · simp only [hs, Eeprom.started]
      omega

end saves

/-- A call in the middle of a save goes one count on, and the one at the end answers. -/
theorem poll_count (hk : s.k < 126) (pos : 0 < s.gbTwiCnt) :
    (s.gbTwiCnt < 2 * (s.k + 2) → s.pollDone ram = false ∧ (s.poll ram).k = s.k ∧
      (s.poll ram).gbTwiCnt = s.gbTwiCnt + 1) ∧
    (s.gbTwiCnt = 2 * (s.k + 2) → s.pollDone ram = true ∧ (s.poll ram).gbTwiCnt = 0) := by
  unfold pollDone poll
  constructor
  · intro lt
    rcases Nat.mod_two_eq_zero_or_one s.gbTwiCnt with even | odd
    · rw [s.poll_page ram (s.gbTwiCnt / 2 - 1) (by omega) (by omega) (by omega)]
      refine ⟨rfl, rfl, ?_⟩
      simp only
      omega
    · rw [s.poll_odd ram (by omega)]
      exact ⟨rfl, rfl, Nat.mod_eq_of_lt (by omega)⟩
  · intro ended
    rw [s.poll_done ram ended]
    exact ⟨rfl, rfl⟩

end Eeprom

/-! The save requests. -/

def eepromAddrUser : Nat := 0
def eepromAddrData : Nat := 1024

/-- `USR_PAR_EA`: the parameters, their two end marks, and 20 boxes of 5 octets. -/
def usrParEa : Nat := 252 + 20 * 5
def usrDataEa : Nat := 64

structure SaveTbl where
  gbUsrParTbl : Nat
  gbUsrDataTbl : Nat

structure AppSave where
  gbUsrParSaveChk : Bool
  gbUsrDataSaveChk : Bool
  bTwiWrEep2Rdy : Bool
  eep : Eeprom

/-- What can happen: a request, or the main loop's call with the memory as it is then. -/
inductive SaveEvent where
  | par
  | data
  | call (ram : Nat → UInt8)

def SaveEvent.isCall : SaveEvent → Bool
  | .call _ => true
  | _ => false

namespace AppSave

variable (tbl : SaveTbl) (ram : Nat → UInt8) (s : AppSave)

def request : AppSave :=
  if s.bTwiWrEep2Rdy then
    if s.gbUsrParSaveChk then
      { s with
        eep := (s.eep.twiWrEep2 ram eepromAddrUser tbl.gbUsrParTbl usrParEa).1
        gbUsrParSaveChk := false
        bTwiWrEep2Rdy := false }
    else if s.gbUsrDataSaveChk then
      { s with
        eep := (s.eep.twiWrEep2 ram eepromAddrData tbl.gbUsrDataTbl usrDataEa).1
        gbUsrDataSaveChk := false
        bTwiWrEep2Rdy := false }
    else s
  else s

def appSavePar : AppSave :=
  let s := s.request tbl ram
  { s with eep := s.eep.poll ram, bTwiWrEep2Rdy := s.bTwiWrEep2Rdy || s.eep.pollDone ram }

def step : SaveEvent → AppSave
  | .par => { s with gbUsrParSaveChk := true }
  | .data => { s with gbUsrDataSaveChk := true }
  | .call ram => s.appSavePar tbl ram

def runs : Lts AppSave SaveEvent where
  init s := s.gbUsrParSaveChk = false ∧ s.gbUsrDataSaveChk = false ∧ s.bTwiWrEep2Rdy = true ∧
    s.eep.gbTwiCnt = 0
  step s e t := t = s.step tbl e

/-- The writer is idle when it is called ready, and otherwise somewhere in a save. -/
def Writing : Prop :=
  if s.bTwiWrEep2Rdy then s.eep.gbTwiCnt = 0
  else s.eep.k ≤ 11 ∧ 0 < s.eep.gbTwiCnt ∧ s.eep.gbTwiCnt ≤ 2 * (s.eep.k + 2)

theorem accepted_usrPar : Eeprom.Accepted eepromAddrUser usrParEa := by
  unfold Eeprom.Accepted
  decide

theorem accepted_usrData : Eeprom.Accepted eepromAddrData usrDataEa := by
  unfold Eeprom.Accepted
  decide

theorem request_par (h : s.Writing) (rdy : s.bTwiWrEep2Rdy = true) (par : s.gbUsrParSaveChk = true) :
    s.request tbl ram =
      { s with
        eep := s.eep.started eepromAddrUser tbl.gbUsrParTbl usrParEa
        gbUsrParSaveChk := false
        bTwiWrEep2Rdy := false } := by
  have idle : s.eep.gbTwiCnt = 0 := by simpa [Writing, rdy] using h
  rw [request, if_pos rdy, if_pos par, Eeprom.twiWrEep2_started ram _ _ _ _ idle accepted_usrPar]

theorem request_data (h : s.Writing) (rdy : s.bTwiWrEep2Rdy = true)
    (par : s.gbUsrParSaveChk = false) (data : s.gbUsrDataSaveChk = true) :
    s.request tbl ram =
      { s with
        eep := s.eep.started eepromAddrData tbl.gbUsrDataTbl usrDataEa
        gbUsrDataSaveChk := false
        bTwiWrEep2Rdy := false } := by
  have idle : s.eep.gbTwiCnt = 0 := by simpa [Writing, rdy] using h
  rw [request, if_pos rdy, if_neg (by simp [par]), if_pos data,
    Eeprom.twiWrEep2_started ram _ _ _ _ idle accepted_usrData]

theorem request_none (h : s.bTwiWrEep2Rdy = false ∨
    s.gbUsrParSaveChk = false ∧ s.gbUsrDataSaveChk = false) : s.request tbl ram = s := by
  rcases h with h | h <;> simp [request, h]

theorem writing_request (h : s.Writing) : (s.request tbl ram).Writing := by
  by_cases rdy : s.bTwiWrEep2Rdy = true
  · cases par : s.gbUsrParSaveChk with
    | true =>
      rw [request_par tbl ram s h rdy par]
      simp [Writing, Eeprom.started, usrParEa]
    | false =>
      cases data : s.gbUsrDataSaveChk with
      | true =>
        rw [request_data tbl ram s h rdy par data]
        simp [Writing, Eeprom.started, usrDataEa]
      | false => rwa [request_none tbl ram s (.inr ⟨par, data⟩)]
  · rwa [request_none tbl ram s (.inl (by simpa using rdy))]

/-- The calls a save still needs. -/
def left : Nat := if s.bTwiWrEep2Rdy then 0 else 2 * (s.eep.k + 2) + 1 - s.eep.gbTwiCnt

theorem left_le (h : s.Writing) : s.left ≤ 26 := by
  unfold Writing at h
  unfold left
  split_ifs at h ⊢ <;> omega

/-- What the second half of the call does to a save. -/
theorem writing_poll (h : s.Writing) (u : AppSave)
    (hu : u = { s with
      eep := s.eep.poll ram, bTwiWrEep2Rdy := s.bTwiWrEep2Rdy || s.eep.pollDone ram }) :
    u.Writing ∧ (s.bTwiWrEep2Rdy = false → u.left < s.left) := by
  subst hu
  by_cases rdy : s.bTwiWrEep2Rdy = true
  · have idle : s.eep.gbTwiCnt = 0 := by simpa [Writing, rdy] using h
    simp [Writing, rdy, Eeprom.poll, Eeprom.poll_idle ram _ idle, idle]
  · rw [Bool.not_eq_true] at rdy
    simp only [Writing, rdy, Bool.false_eq_true, if_false] at h
    obtain ⟨hk, pos, le⟩ := h
    obtain ⟨mid, ended⟩ := s.eep.poll_count ram (by omega) pos
    rcases Nat.lt_or_eq_of_le le with lt | eq
    · obtain ⟨hd, hk', hc⟩ := mid lt
      simp only [Writing, left, rdy, hd, hk', hc, Bool.or_self, Bool.false_eq_true, if_false]
      exact ⟨⟨hk, by omega, by omega⟩, fun _ => by omega⟩
    · obtain ⟨hd, hc⟩ := ended eq
      simp only [Writing, left, rdy, hd, hc, Bool.false_or, Bool.false_eq_true, if_true, if_false]
      exact ⟨trivial, fun _ => by omega⟩

theorem writing_step (e : SaveEvent) (h : s.Writing) : (s.step tbl e).Writing := by
  cases e with
  | par => exact h
  | data => exact h
  | call ram => exact (writing_poll ram _ (writing_request tbl ram s h) _ rfl).1

theorem writing_reach (r : Reach (runs tbl) Lts.any s) : s.Writing := by
  refine Lts.Inductive.reach ⟨?_, ?_⟩ r
  · rintro s ⟨-, -, rdy, idle⟩
    simp [Writing, rdy, idle]
  · rintro s e _ h - rfl
    exact writing_step tbl s e h

/-- What keeps a request from being lost. -/
structure Keeps : Prop where
  /-- A flag is cleared only by the call that hands its table over. -/
  par : ∀ e, s.gbUsrParSaveChk = true → (s.step tbl e).gbUsrParSaveChk = false →
    ∃ ram, e = .call ram ∧
      (s.step tbl e).eep = (s.eep.started eepromAddrUser tbl.gbUsrParTbl usrParEa).poll ram
  data : ∀ e, s.gbUsrDataSaveChk = true → (s.step tbl e).gbUsrDataSaveChk = false →
    ∃ ram, e = .call ram ∧
      (s.step tbl e).eep = (s.eep.started eepromAddrData tbl.gbUsrDataTbl usrDataEa).poll ram
  /-- Among 27 calls one finds the writer ready, whatever is requested between them. -/
  ready : ∀ es : List SaveEvent, 26 < es.countP SaveEvent.isCall →
    ∃ before ram after, es = before ++ .call ram :: after ∧
      (before.foldl (step tbl) s).bTwiWrEep2Rdy = true
  next : s.bTwiWrEep2Rdy = true → ∀ ram,
    (s.step tbl (.call ram)).gbUsrParSaveChk = false ∧
      (s.gbUsrParSaveChk = false → (s.step tbl (.call ram)).gbUsrDataSaveChk = false)

theorem ready_of_left (h : s.Writing) (es : List SaveEvent)
    (lt : s.left < es.countP SaveEvent.isCall) :
    ∃ before ram after, es = before ++ .call ram :: after ∧
      (before.foldl (step tbl) s).bTwiWrEep2Rdy = true := by
  induction es generalizing s with
  | nil => exact absurd lt (by simp)
  | cons e es ih =>
    have go (h' : (s.step tbl e).left < es.countP SaveEvent.isCall) :
        ∃ before ram after, e :: es = before ++ .call ram :: after ∧
          (before.foldl (step tbl) s).bTwiWrEep2Rdy = true := by
      obtain ⟨before, ram, after, rfl, rdy⟩ := ih _ (writing_step tbl s e h) h'
      exact ⟨e :: before, ram, after, rfl, rdy⟩
    cases e with
    | par =>
      rw [List.countP_cons_of_neg (by decide)] at lt
      exact go lt
    | data =>
      rw [List.countP_cons_of_neg (by decide)] at lt
      exact go lt
    | call ram =>
      by_cases rdy : s.bTwiWrEep2Rdy = true
      · exact ⟨[], ram, es, rfl, rdy⟩
      · rw [Bool.not_eq_true] at rdy
        have less := (writing_poll ram s h _ rfl).2 rdy
        rw [List.countP_cons_of_pos rfl] at lt
        refine go ?_
        simp only [step, appSavePar, request_none tbl ram s (.inl rdy)]
        omega

theorem keeps_of_writing (h : s.Writing) : s.Keeps tbl where
  par e par cleared := by
    cases e with
    | par => simp [step] at cleared
    | data => simp [step, par] at cleared
    | call ram =>
      refine ⟨ram, rfl, ?_⟩
      by_cases rdy : s.bTwiWrEep2Rdy = true
      · simp only [step, appSavePar, request_par tbl ram s h rdy par]
      · rw [step, appSavePar, request_none tbl ram s (.inl (by simpa using rdy))] at cleared
        simp [par] at cleared
  data e data cleared := by
    cases e with
    | par => simp [step, data] at cleared
    | data => simp [step] at cleared
    | call ram =>
      refine ⟨ram, rfl, ?_⟩
      by_cases rdy : s.bTwiWrEep2Rdy = true
      · cases par : s.gbUsrParSaveChk with
        | true => simp [step, appSavePar, request_par tbl ram s h rdy par, data] at cleared
        | false => simp only [step, appSavePar, request_data tbl ram s h rdy par data]
      · rw [step, appSavePar, request_none tbl ram s (.inl (by simpa using rdy))] at cleared
        simp [data] at cleared
  ready es lt := ready_of_left tbl s h es (Nat.lt_of_le_of_lt (left_le s h) lt)
  next rdy ram := by
    cases par : s.gbUsrParSaveChk with
    | true => simp [step, appSavePar, request_par tbl ram s h rdy par]
    | false =>
      cases data : s.gbUsrDataSaveChk with
      | true => simp [step, appSavePar, request_data tbl ram s h rdy par data, par]
      | false => simp [step, appSavePar, request_none tbl ram s (.inr ⟨par, data⟩), par, data]

end AppSave

/-- The saves that come out exact, and the requests that wait for them. -/
theorem twiWrEep2_saves (tbl : SaveTbl) (awWaddr anBufEa : Nat) (hw : awWaddr < 2 ^ 16)
    (hn : anBufEa < 2 ^ 32) (acc : Eeprom.Accepted awWaddr anBufEa) :
    ((∀ ram apbBuf (s : Eeprom), s.gbTwiCnt = 0 → s.Saves ram awWaddr apbBuf anBufEa) ↔
      Eeprom.Fits awWaddr anBufEa) ∧
    ∀ s, Reach (AppSave.runs tbl) Lts.any s → s.Keeps tbl := by
  refine ⟨⟨fun all => ?_, fun fits ram apbBuf s idle => ?_⟩, fun s r => ?_⟩
  · let blank : Eeprom :=
      { gwWaddr := 0, k := 0, l := 0, gpbBuf := 0, gbTwiCnt := 0, mem := fun _ => 0 }
    exact blank.fits_of_saves awWaddr 0 anBufEa rfl rfl acc hw hn (all _ 0 blank rfl)
  · exact s.saves_of_fits ram awWaddr apbBuf anBufEa idle acc hw fits
  · exact AppSave.keeps_of_writing tbl s (AppSave.writing_reach tbl s r)

theorem twiWrEep2_saves_33 :
    ((∀ ram apbBuf (s : Eeprom), s.gbTwiCnt = 0 → s.Saves ram 64 apbBuf 33) ↔ Eeprom.Fits 64 33) ∧
    ∀ s, Reach (AppSave.runs ⟨0, 512⟩) Lts.any s → s.Keeps ⟨0, 512⟩ :=
  twiWrEep2_saves ⟨0, 512⟩ 64 33 (by decide) (by decide) (by unfold Eeprom.Accepted; decide)

/-- The save of the user data, 64 octets at 1024, writes the octet after them too. -/
theorem usrData_overrun :
    ¬∀ ram apbBuf (s : Eeprom), s.gbTwiCnt = 0 →
      s.Saves ram eepromAddrData apbBuf usrDataEa := by
  intro all
  let blank : Eeprom :=
    { gwWaddr := 0, k := 0, l := 0, gpbBuf := 0, gbTwiCnt := 0, mem := fun _ => 0 }
  have fits := blank.fits_of_saves eepromAddrData 0 usrDataEa rfl rfl AppSave.accepted_usrData
    (by decide) (by decide) (all _ 0 blank rfl)
  exact fits.1 rfl

end En675.Dev
