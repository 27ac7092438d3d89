import Mathlib.Data.List.TakeWhile
import En675.Dev.Vsnprintf
import En675.Lib.Quota

/-! When the output of `vsnprintf_` stays in its buffer: the characters and strings are counted against the
size, the numbers are not. -/

namespace En675.Dev.Vsnprintf

open Lib

section length

/-- The length of a text in its field. -/
def fieldLength (left : Bool) (width len : Int) (n : Nat) : Nat :=
  let front := if left then 0 else (width - len).toNat
  let width := if left then width else toInt32 (width - front - 1)
  front + n + (width - len).toNat

/-- The length of a character in its field. -/
def charLength (left : Bool) (width : Int) : Nat :=
  let front := if left then 0 else (toInt32 (width - 1)).toNat
  let width := if left then width else toInt32 (width - 1) - front
  front + 1 + (toInt32 (width - 1)).toNat

variable (mem : BitVec 64 → List UInt8) (args : Nat → BitVec 64)

/-- The whole text of a conversion. -/
def Spec.piece (sp : Spec) : Piece :=
  let w := args sp.arg
  match sp.kind with
  | .char => ⟨true, charLength sp.flags.left sp.fieldWidth⟩
  | .str =>
    let str := strArg mem w
    let len := strLen str sp.prec
    ⟨true, fieldLength sp.flags.left sp.fieldWidth len (str.take len.toNat).length⟩
  | .ptr => ⟨false, (sp.ptrText w).length⟩
  | .count => ⟨true, 0⟩
  | .int base sign large => ⟨false, (sp.intText w base sign large).length⟩
  | .ip =>
    let len := (ipToStr (w.setWidth 32) 15 sp.flags.zeropad).length
    ⟨true, fieldLength sp.flags.left sp.fieldWidth len len⟩
  | .other => ⟨true, sp.literal.length⟩

def Spec.next (sp : Spec) : Nat :=
  match sp.kind with
  | .other => sp.arg
  | _ => sp.arg + 1

/-- The whole text of a format, piece by piece. -/
def pieces (fmt : List UInt8) (arg : Nat) : List Piece :=
  match fmt with
  | [] => []
  | c :: fmt =>
    if chr c ≠ '%' then ⟨true, 1⟩ :: pieces fmt arg
    else
      let sp := specAt args fmt arg
      sp.piece mem args :: pieces sp.fmt.tail sp.next
termination_by fmt.length
decreasing_by
  · exact Nat.lt_succ_self _
  · exact specAt_tail_lt args arg fmt

end length

namespace Out

/-- `n` characters are counted, as far as there is a size for them. -/
structure Wrote (n : Nat) (s t : Out) : Prop where
  text : t.text.length = s.text.length + min n s.size
  size : t.size = s.size - min n s.size

variable {s t u : Out} {left : Bool} {width len : Int} {cs : List UInt8}

theorem wrote_puts (s : Out) (cs : List UInt8) : Wrote cs.length s (s.puts cs) := by
  constructor
  · rw [puts, List.length_append, List.length_take, Nat.min_comm]
  · simp only [puts]
    omega

theorem wrote_fill (s : Out) (len width : Int) : Wrote (width - len).toNat s (s.fill len width).1 := by
  have wrote := wrote_puts s (List.replicate (min (width - len).toNat s.size) 32)
  rw [List.length_replicate] at wrote
  constructor
  · rw [fill, wrote.text, Nat.min_assoc, Nat.min_self]
  · rw [fill, wrote.size, Nat.min_assoc, Nat.min_self]

theorem Wrote.trans (h : Wrote m s t) (k : Wrote n t u) : Wrote (m + n) s u := by
  constructor
  · rw [k.text, h.text, h.size]
    omega
  · rw [k.size, h.size]
    omega

/-- Past the size every length is the same. -/
theorem Wrote.full (h : Wrote m s t) (hm : s.size ≤ m) (hn : s.size ≤ n) : Wrote n s t := by
  constructor
  · rw [h.text, Nat.min_eq_right hm, Nat.min_eq_right hn]
  · rw [h.size, Nat.min_eq_right hm, Nat.min_eq_right hn]

theorem fill_width (s : Out) (len width : Int) :
    (s.fill len width).2 = toInt32 (width - (min (width - len).toNat s.size : Nat) - 1) := rfl

theorem wrote_putField (s : Out) (left : Bool) (width len : Int) (cs : List UInt8) :
    Wrote (fieldLength left width len cs.length) s (s.putField left width len cs) := by
  cases left with
  | true =>
    have wrote := (wrote_puts s cs).trans (wrote_fill (s.puts cs) len width)
    rwa [← Nat.zero_add cs.length] at wrote
  | false =>
    have wrote := ((wrote_fill s len width).trans (wrote_puts _ cs)).trans (wrote_fill _ len (s.fill len width).2)
    by_cases fits : (width - len).toNat ≤ s.size
    · have same : fieldLength false width len cs.length =
          (width - len).toNat + cs.length + ((s.fill len width).2 - len).toNat := by
        rw [fill_width, Nat.min_eq_left fits]
        rfl
      exact same ▸ wrote
    · refine wrote.full (Nat.le_trans (Nat.le_of_not_le fits) (by omega)) ?_
      refine Nat.le_trans (Nat.le_of_not_le fits) ?_
      simp only [fieldLength, if_neg Bool.false_ne_true]
      omega

theorem wrote_fillChar (s : Out) (width : Int) : Wrote (toInt32 (width - 1)).toNat s (s.fillChar width).1 := by
  have wrote := wrote_puts s (List.replicate (min (toInt32 (width - 1)).toNat s.size) 32)
  rw [List.length_replicate] at wrote
  constructor
  · rw [fillChar, wrote.text, Nat.min_assoc, Nat.min_self]
  · rw [fillChar, wrote.size, Nat.min_assoc, Nat.min_self]

theorem fillChar_width (s : Out) (width : Int) :
    (s.fillChar width).2 = toInt32 (width - 1) - (min (toInt32 (width - 1)).toNat s.size : Nat) := rfl

theorem wrote_charOne (args : Nat → BitVec 64) (s : Out) : Wrote 1 s (s.charOne args) := by
  unfold charOne
  split
  · constructor <;> omega
  · exact ⟨(wrote_puts s [Spec.charArg (args s.arg)]).text, (wrote_puts s [Spec.charArg (args s.arg)]).size⟩

theorem charOne_arg (args : Nat → BitVec 64) (h : (s.charOne args).size ≠ 0) : (s.charOne args).arg = s.arg + 1 := by
  unfold charOne at h ⊢
  split at h
  · contradiction
  · rename_i size
    rw [if_neg size]

theorem wrote_char (args : Nat → BitVec 64) (s : Out) (sp : Spec) :
    Wrote (charLength sp.flags.left sp.fieldWidth) s (s.char args sp) := by
  unfold char
  cases sp.flags.left with
  | true =>
    have wrote := (wrote_charOne args s).trans (wrote_fillChar (s.charOne args) sp.fieldWidth)
    rwa [← Nat.zero_add 1] at wrote
  | false =>
    have wrote := ((wrote_fillChar s sp.fieldWidth).trans (wrote_charOne args _)).trans
      (wrote_fillChar _ (s.fillChar sp.fieldWidth).2)
    by_cases fits : (toInt32 (sp.fieldWidth - 1)).toNat ≤ s.size
    · have same : charLength false sp.fieldWidth = (toInt32 (sp.fieldWidth - 1)).toNat + 1 +
          (toInt32 ((s.fillChar sp.fieldWidth).2 - 1)).toNat := by
        rw [fillChar_width, Nat.min_eq_left fits]
        rfl
      exact same ▸ wrote
    · refine wrote.full (Nat.le_trans (Nat.le_of_not_le fits) (by omega)) ?_
      refine Nat.le_trans (Nat.le_of_not_le fits) ?_
      simp only [charLength, if_neg Bool.false_ne_true]
      omega

theorem char_arg (args : Nat → BitVec 64) (sp : Spec) (h : (s.char args sp).size ≠ 0) :
    (s.char args sp).arg = s.arg + 1 := by
  have one {s : Out} (width : Int) (h : ((s.charOne args).fillChar width).1.size ≠ 0) :
      ((s.charOne args).fillChar width).1.arg = s.arg + 1 := by
    refine charOne_arg args fun zero => h ?_
    rw [(wrote_fillChar _ _).size, zero, Nat.zero_sub]
  unfold char at h ⊢
  cases hl : sp.flags.left with
  | true =>
    rw [hl] at h
    exact one sp.fieldWidth h
  | false =>
    rw [hl] at h
    exact one _ h

theorem ipToStr_min (addr : BitVec 32) (n : Nat) (zeropad : Bool) :
    ipToStr addr (min n 15) zeropad = (ipToStr addr 15 zeropad).take n := by
  unfold ipToStr
  dsimp only
  generalize ipText addr zeropad = text
  by_cases fits : text.length ≤ min n 15
  · rw [if_pos fits, if_pos (by omega), List.take_of_length_le]
    rw [List.length_dropLast]
    omega
  · rw [if_neg fits]
    split
    · rw [List.dropLast_eq_take, List.take_take]
      congr 1
      omega
    · rw [List.take_take]

variable {mem : BitVec 64 → List UInt8} {args : Nat → BitVec 64}

theorem Wrote.of_arg {arg : Nat} (h : Wrote n { s with arg := arg } t) : Wrote n s t := ⟨h.text, h.size⟩

/-- An address is cut to the size before it is put in its field. -/
theorem wrote_ip (s : Out) (left : Bool) (width : Int) (text : List UInt8) :
    Wrote (fieldLength left width text.length text.length) s
      (s.putField left width (text.take s.size).length (text.take s.size)) := by
  by_cases fits : text.length ≤ s.size
  · rw [List.take_of_length_le fits]
    exact wrote_putField s left width text.length text
  · have least (len : Int) (n : Nat) : n ≤ fieldLength left width len n := by
      simp only [fieldLength]
      omega
    have wrote := wrote_putField s left width (text.take s.size).length (text.take s.size)
    refine wrote.full ?_ (Nat.le_trans (Nat.le_of_not_le fits) (least _ _))
    refine Nat.le_trans ?_ (least _ _)
    rw [List.length_take, Nat.min_eq_left (Nat.le_of_not_le fits)]

/-- A conversion that is counted. -/
theorem convert_counted (s : Out) {sp : Spec} :
    (sp.piece mem args).counted = true → Wrote (sp.piece mem args).length s (s.convert mem args sp) := by
  unfold Spec.piece convert
  cases sp.kind with
  | char => exact fun _ => (wrote_char args { s with arg := sp.arg } sp).of_arg
  | str => exact fun _ => (wrote_putField { s with arg := sp.arg + 1 } _ _ _ _).of_arg
  | ptr => exact nofun
  | count => exact fun _ => ⟨by simp, by simp⟩
  | int => exact nofun
  | ip =>
    dsimp only
    rw [ipToStr_min]
    exact fun _ => (wrote_ip { s with arg := sp.arg + 1 } _ _ _).of_arg
  | other => exact fun _ => (wrote_puts { s with arg := sp.arg } _).of_arg

theorem convert_number (s : Out) {sp : Spec} : (sp.piece mem args).counted = false →
    (s.convert mem args sp).text.length = s.text.length + (sp.piece mem args).length ∧
      (s.convert mem args sp).size = s.size := by
  unfold Spec.piece convert
  cases sp.kind with
  | ptr => exact fun _ => ⟨List.length_append, rfl⟩
  | int => exact fun _ => ⟨List.length_append, rfl⟩
  | char => exact nofun
  | str => exact nofun
  | count => exact nofun
  | ip => exact nofun
  | other => exact nofun

theorem putField_arg (s : Out) (left : Bool) (width len : Int) (cs : List UInt8) :
    (s.putField left width len cs).arg = s.arg := by
  cases left <;> rfl

theorem convert_arg (s : Out) {sp : Spec} (h : (s.convert mem args sp).size ≠ 0) :
    (s.convert mem args sp).arg = sp.next := by
  unfold convert at h ⊢
  unfold Spec.next
  cases hk : sp.kind with
  | char =>
    rw [hk] at h
    exact char_arg args sp h
  | str => exact putField_arg _ _ _ _ _
  | ptr => rfl
  | count => rfl
  | int => rfl
  | ip => exact putField_arg _ _ _ _ _
  | other => rfl

end Out

section format

variable {mem : BitVec 64 → List UInt8} {args : Nat → BitVec 64}

theorem format_nil (s : Out) : s.format mem args [] = s := by
  rw [Out.format]

theorem format_full (fmt : List UInt8) {s : Out} (full : s.size = 0) : s.format mem args fmt = s := by
  cases fmt with
  | nil => exact format_nil s
  | cons c fmt => rw [Out.format, if_pos full]

/-- What the loop over a format stores is what the pieces of its text write into the size. -/
theorem format_written (fmt : List UInt8) (s : Out) :
    (s.format mem args fmt).text.length =
      s.text.length + Piece.written (pieces mem args fmt s.arg) s.size := by
  induction fmt, s using Out.format.induct mem args with
  | case1 s =>
    rw [format_nil, pieces]
    rfl
  | case2 s c fmt full => rw [format_full _ full, full, Piece.written_zero, Nat.add_zero]
  | case3 s c fmt pos lit ih =>
    have wrote := Out.wrote_puts s [c]
    rw [Out.format, if_neg pos, if_pos lit, ih, pieces, if_pos lit, Piece.written_counted rfl, wrote.text, wrote.size,
      Nat.add_assoc]
    rfl
  | case4 s c fmt pos lit sp ih =>
    rw [Out.format, if_neg pos, if_neg lit, ih, pieces, if_neg lit]
    have arg : (s.convert mem args sp).size ≠ 0 → (s.convert mem args sp).arg = sp.next := Out.convert_arg s
    cases hc : (sp.piece mem args).counted with
    | true =>
      have wrote := Out.convert_counted s hc
      rw [Piece.written_counted hc, ← wrote.size, wrote.text, Nat.add_assoc]
      by_cases full : (s.convert mem args sp).size = 0
      · rw [full, Piece.written_zero, Piece.written_zero]
      · rw [arg full]
    | false =>
      obtain ⟨text, size⟩ := Out.convert_number s hc
      rw [Piece.written_other hc pos, text, size, arg (size.symm ▸ pos), Nat.add_assoc]

theorem digitsOf_pos (large : Bool) (base num : Nat) : 0 < (digitsOf large base num).length := by
  unfold digitsOf
  split
  · decide
  · rename_i pos
    rw [tmpDigits, if_neg pos]
    exact Nat.succ_pos _

theorem number_pos (num : BitVec 64) (base : Nat) (size precision : Int) (type : Flags) :
    0 < (number num base size precision type).length := by
  unfold number
  dsimp only
  have pos := digitsOf_pos type.large base (if type.sign && num.msb then -num else num).toNat
  rw [List.length_append, List.length_append, List.length_reverse]
  omega

theorem piece_pos {sp : Spec} : (sp.piece mem args).counted = false → 0 < (sp.piece mem args).length := by
  unfold Spec.piece
  cases sp.kind with
  | ptr =>
    intro _
    show 0 < (Spec.ptrText sp _).length
    unfold Spec.ptrText
    split <;> exact number_pos _ _ _ _ _
  | int => exact fun _ => number_pos _ _ _ _ _
  | char => exact nofun
  | str => exact nofun
  | count => exact nofun
  | ip => exact nofun
  | other => exact nofun

theorem pieces_pos (fmt : List UInt8) (arg : Nat) :
    ∀ p ∈ pieces mem args fmt arg, p.counted = false → 0 < p.length := by
  induction fmt, arg using pieces.induct args with
  | case1 arg =>
    rw [pieces]
    exact nofun
  | case2 arg c fmt lit ih =>
    rw [pieces, if_pos lit]
    exact List.forall_mem_cons.2 ⟨nofun, ih⟩
  | case3 arg c fmt lit sp ih =>
    rw [pieces, if_neg lit]
    exact List.forall_mem_cons.2 ⟨piece_pos, ih⟩

end format

section free

variable {mem : BitVec 64 → List UInt8} {args : Nat → BitVec 64}

theorem free_append {xs ys : List UInt8} (hx : 0 ∉ xs) (hy : 0 ∉ ys) : 0 ∉ xs ++ ys := fun h =>
  (List.mem_append.1 h).elim hx hy

theorem free_replicate (n : Nat) {c : UInt8} (hc : c ≠ 0) : 0 ∉ List.replicate n c := fun h =>
  hc (List.eq_of_mem_replicate h).symm

theorem digit_ne_zero : ∀ large, ∀ d < 36, digit large d ≠ 0 := by
  decide

theorem tmpDigits_free (large : Bool) (pos : 0 < base) (le : base ≤ 36) (n num : Nat) :
    0 ∉ tmpDigits large base n num := by
  induction n generalizing num with
  | zero => exact List.not_mem_nil
  | succ n ih =>
    unfold tmpDigits
    split
    · exact List.not_mem_nil
    · intro mem
      obtain zero | mem := List.mem_cons.1 mem
      · exact digit_ne_zero large _ (Nat.lt_of_lt_of_le (Nat.mod_lt _ pos) le) zero.symm
      · exact ih _ mem

theorem digitsOf_free (large : Bool) (pos : 0 < base) (le : base ≤ 36) (num : Nat) : 0 ∉ digitsOf large base num := by
  unfold digitsOf
  split
  · decide
  · exact tmpDigits_free large pos le 64 num

theorem number_free (num : BitVec 64) (pos : 0 < base) (le : base ≤ 36) (size precision : Int) (type : Flags) :
    0 ∉ number num base size precision type := by
  have sign : 0 ∉ signOf type num := by
    unfold signOf
    split_ifs <;> decide
  have mark : 0 ∉ markOf type base := by
    unfold markOf
    split_ifs <;> decide
  have pad_free (size : Int) {c : UInt8} (hc : c ≠ 0) : 0 ∉ (pad size c).1 := free_replicate _ hc
  have padIf_free (b : Bool) (size : Int) {c : UInt8} (hc : c ≠ 0) :
      0 ∉ (if b then (([] : List UInt8), size) else pad size c).1 := by
    split
    · exact List.not_mem_nil
    · exact pad_free size hc
  have fill_ne : (if type.zeropad && !type.left then (48 : UInt8) else 32) ≠ 0 := by
    split <;> decide
  unfold number
  dsimp only
  refine free_append (free_append (free_append (free_append (free_append (free_append ?_ sign) mark) ?_) ?_) ?_) ?_
  · exact padIf_free _ _ (by decide)
  · exact padIf_free _ _ fill_ne
  · exact free_replicate _ (by decide)
  · rw [List.mem_reverse]
    exact digitsOf_free _ pos le _
  · exact pad_free _ (by decide)

theorem cstr_zero_free (xs : List UInt8) : 0 ∉ cstr xs := fun zero =>
  absurd rfl (of_decide_eq_true (List.mem_takeWhile_imp (l := xs) zero))

theorem strArg_free (w : BitVec 64) : 0 ∉ strArg mem w := by
  unfold strArg
  split
  · decide
  · exact cstr_zero_free _

theorem ipText_free (addr : BitVec 32) (zeropad : Bool) : 0 ∉ ipText addr zeropad := by
  intro zero
  obtain ⟨n, -, zero⟩ := List.mem_flatMap.1 zero
  revert zero
  refine free_append (free_append ?_ ?_) (by decide)
  · split
    · exact free_replicate _ (by decide)
    · exact List.not_mem_nil
  · rw [List.mem_reverse]
    exact digitsOf_free false (by decide) (by decide) _

theorem ipToStr_free (addr : BitVec 32) (buflen : Nat) (zeropad : Bool) : 0 ∉ ipToStr addr buflen zeropad := by
  unfold ipToStr
  dsimp only
  split
  · exact fun zero => ipText_free addr zeropad (List.mem_of_mem_dropLast zero)
  · exact fun zero => ipText_free addr zeropad (List.mem_of_mem_take zero)

theorem literal_free {sp : Spec} (h : 0 ∉ sp.fmt) : 0 ∉ sp.literal := by
  unfold Spec.literal
  split
  · split <;> decide
  · rename_i c fmt eq
    have last : 0 ∉ [c] := fun zero => h (eq ▸ List.mem_singleton.1 zero ▸ List.mem_cons_self)
    split
    · exact free_append (by decide) last
    · refine free_append (free_append ?_ ?_) last
      · split <;> decide
      · split <;> decide

theorem kind_base {sp : Spec} (h : sp.kind = .int base sign large) : 0 < base ∧ base ≤ 36 := by
  unfold Spec.kind at h
  split at h
  · cases h
  · split at h
    all_goals try split at h
    all_goals cases h
    all_goals decide

namespace Out

variable {s : Out} {cs : List UInt8}

theorem puts_free (h : 0 ∉ s.text) (hc : 0 ∉ cs) : 0 ∉ (s.puts cs).text :=
  free_append h fun zero => hc (List.mem_of_mem_take zero)

theorem fill_free (h : 0 ∉ s.text) (len width : Int) : 0 ∉ (s.fill len width).1.text :=
  puts_free h (free_replicate _ (by decide))

theorem fillChar_free (h : 0 ∉ s.text) (width : Int) : 0 ∉ (s.fillChar width).1.text :=
  puts_free h (free_replicate _ (by decide))

theorem putField_free (h : 0 ∉ s.text) (hc : 0 ∉ cs) (left : Bool) (width len : Int) :
    0 ∉ (s.putField left width len cs).text := by
  cases left with
  | true => exact fill_free (puts_free h hc) _ _
  | false => exact fill_free (puts_free (fill_free h _ _) hc) _ _

theorem charOne_free (h : 0 ∉ s.text) : 0 ∉ (s.charOne args).text := by
  unfold charOne
  split
  · exact h
  · refine puts_free h fun zero => ?_
    have eq := List.mem_singleton.1 zero
    unfold Spec.charArg at eq
    split at eq
    · exact absurd eq (by decide)
    · rename_i ne
      exact ne (congrArg UInt8.toBitVec eq).symm

theorem char_free (h : 0 ∉ s.text) (sp : Spec) : 0 ∉ (s.char args sp).text := by
  unfold char
  cases sp.flags.left with
  | true => exact fillChar_free (charOne_free h) _
  | false => exact fillChar_free (charOne_free (fillChar_free h _)) _

theorem convert_free {sp : Spec} (h : 0 ∉ s.text) (hf : 0 ∉ sp.fmt) : 0 ∉ (s.convert mem args sp).text := by
  unfold convert
  cases hk : sp.kind with
  | char => exact char_free (s := { s with arg := sp.arg }) h sp
  | str => exact putField_free (s := { s with arg := sp.arg + 1 }) h (fun zero => strArg_free _ (List.mem_of_mem_take zero)) _ _ _
  | ptr =>
    refine free_append h ?_
    unfold Spec.ptrText
    split <;> exact number_free _ (by decide) (by decide) _ _ _
  | count => exact h
  | int base sign large =>
    obtain ⟨pos, le⟩ := kind_base hk
    exact free_append h (number_free _ pos le _ _ _)
  | ip => exact putField_free (s := { s with arg := sp.arg + 1 }) h (ipToStr_free _ _ _) _ _ _
  | other => exact puts_free h (literal_free hf)

end Out

theorem format_free (fmt : List UInt8) (s : Out) (hf : 0 ∉ fmt) (h : 0 ∉ s.text) : 0 ∉ (s.format mem args fmt).text := by
  induction fmt, s using Out.format.induct mem args with
  | case1 s => rwa [format_nil]
  | case2 s c fmt full => rwa [format_full _ full]
  | case3 s c fmt pos lit ih =>
    rw [Out.format, if_neg pos, if_pos lit]
    refine ih (List.not_mem_of_not_mem_cons hf) (free_append h fun zero => ?_)
    exact hf (List.mem_singleton.1 (List.mem_of_mem_take zero) ▸ List.mem_cons_self)
  | case4 s c fmt pos lit sp ih =>
    rw [Out.format, if_neg pos, if_neg lit]
    have rest : 0 ∉ sp.fmt := fun zero => hf (List.mem_cons_of_mem _ ((specAt_suffix args s.arg fmt).mem zero))
    exact ih (fun zero => rest (List.mem_of_mem_tail zero)) (Out.convert_free h rest)

end free

section room

variable {mem : BitVec 64 → List UInt8} {args : Nat → BitVec 64}

/-- The output stays in its buffer: what is stored is inside, and the result is the place of the NUL. -/
structure Stays (size : Nat) (p : Printed) : Prop where
  inside : p.buf.length ≤ size
  ret_lt : p.ret < size
  ended : ∃ i : Nat, p.ret = i ∧ p.buf[i]? = some 0

/-- The whole text fits, or the characters before the first number fill the buffer; and an `int` holds the
length. -/
def Roomy (ps : List Piece) (room : Nat) : Prop :=
  (Piece.total ps ≤ room ∨ room ≤ Piece.lead ps) ∧ min (Piece.total ps) room < 2 ^ 31

theorem toInt32_of_lt {n : Nat} (h : n < 2 ^ 31) : toInt32 n = n := by
  unfold toInt32
  omega

/-- The NUL behind a text without one is at its length only. -/
theorem getElem_nul {text : List UInt8} (free : 0 ∉ text) (h : (text ++ [0])[i]? = some 0) : i = text.length := by
  obtain lt | eq | gt := Nat.lt_trichotomy i text.length
  · rw [List.getElem?_append_left lt] at h
    exact absurd (List.mem_of_getElem? h) free
  · exact eq
  · rw [List.getElem?_append_right (Nat.le_of_lt gt), List.getElem?_singleton, if_neg (by omega)] at h
    cases h

/-- A text and the NUL behind it stay in a buffer exactly if it is shorter, and its length is an `int`. -/
theorem stays_iff {text : List UInt8} (free : 0 ∉ text) (counts : List (BitVec 64 × Bool × Nat)) (size : Nat) :
    Stays size ⟨text ++ [0], counts, toInt32 text.length⟩ ↔ text.length < size ∧ text.length < 2 ^ 31 := by
  constructor
  · rintro ⟨inside, -, i, ret, nul⟩
    rw [List.length_append, List.length_singleton] at inside
    have eq := getElem_nul free nul
    dsimp only at ret
    unfold toInt32 at ret
    omega
  · rintro ⟨inside, int⟩
    have ret := toInt32_of_lt int
    refine ⟨?_, ?_, text.length, ret, ?_⟩
    · rw [List.length_append, List.length_singleton]
      exact inside
    · dsimp only
      omega
    · rw [List.getElem?_append_right (Nat.le_refl _), Nat.sub_self]
      rfl

/-- The output of `vsnprintf_` stays in its buffer exactly if its text is roomy. -/
theorem vsnprintf_stays_iff (mem : BitVec 64 → List UInt8) (args : Nat → BitVec 64) (size : Nat) (pos : 1 ≤ size)
    (fmt : List UInt8) :
    Stays size (vsnprintf mem args size fmt) ↔ Roomy (pieces mem args (cstr fmt) 0) (size - 1) := by
  have written := @format_written mem args (cstr fmt) ⟨[], size - 1, 0, []⟩
  have free := @format_free mem args (cstr fmt) ⟨[], size - 1, 0, []⟩ (cstr_zero_free fmt) List.not_mem_nil
  have room := @Piece.written_le_iff _ (size - 1) (@pieces_pos mem args (cstr fmt) 0)
  rw [List.length_nil, Nat.zero_add] at written
  refine (stays_iff free _ size).trans ?_
  rw [written, Roomy, ← room]
  constructor
  · rintro ⟨inside, int⟩
    have le : Piece.written (pieces mem args (cstr fmt) 0) (size - 1) ≤ size - 1 := Nat.le_sub_one_of_lt inside
    exact ⟨le, Piece.written_of_le le ▸ int⟩
  · rintro ⟨le, int⟩
    exact ⟨Nat.lt_of_le_of_lt le (Nat.sub_lt pos Nat.one_pos), Piece.written_of_le le ▸ int⟩

instance (ps : List Piece) (room : Nat) : Decidable (Roomy ps room) := inferInstanceAs (Decidable (_ ∧ _))

/-- A number that fits. -/
theorem vsnprintf_stays_eight :
    1 ≤ 8 ∧ Stays 8 (vsnprintf (fun _ => []) (fun _ => 42) 8 (ascii "[%5d]")) :=
  ⟨by decide, (vsnprintf_stays_iff _ _ 8 (by decide) _).2 (by decide +kernel)⟩

/-- Eight digits and the NUL go to a buffer of four. -/
theorem vsnprintf_leaves : ¬ Stays 4 (vsnprintf (fun _ => []) (fun _ => 16820416) 4 (ascii "%d")) := by
  rintro ⟨inside, -⟩
  exact absurd inside (by decide +kernel)

end room

end En675.Dev.Vsnprintf
