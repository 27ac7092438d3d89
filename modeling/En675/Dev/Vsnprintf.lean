import En675.Lib.CString

/-! `vsnprintf_` (`dev/string/vsnprintf.c`), without `__ECM_STRING__`, on a machine with longs of 64 bits.  An
`int` wraps around.  The arguments are the slots that `va_arg` reads one after another, and a pointer among
them reads the octets from there on. -/

namespace En675.Dev.Vsnprintf

open Lib

def chr (c : UInt8) : Char := .ofNat c.toNat

structure Flags where
  zeropad : Bool := false
  sign : Bool := false
  plus : Bool := false
  space : Bool := false
  left : Bool := false
  special : Bool := false
  large : Bool := false

section number

/-- `digits` and `upper_digits`. -/
def digit (large : Bool) (d : Nat) : UInt8 :=
  if d < 10 then .ofNat (48 + d) else .ofNat ((if large then 55 else 87) + d)

/-- `tmp`, the last digit first; a long has 64 digits at most. -/
def tmpDigits (large : Bool) (base : Nat) : Nat → Nat → List UInt8
  | 0, _ => []
  | n + 1, num => if num = 0 then [] else digit large (num % base) :: tmpDigits large base n (num / base)

def digitsOf (large : Bool) (base num : Nat) : List UInt8 :=
  if num = 0 then ascii "0" else tmpDigits large base 64 num

/-- `while (size-- > 0) *str++ = c;` -/
def pad (size : Int) (c : UInt8) : List UInt8 × Int := (List.replicate size.toNat c, toInt32 (min size 0 - 1))

def signOf (type : Flags) (num : BitVec 64) : List UInt8 :=
  if type.sign then
    if num.msb then ascii "-" else if type.plus then ascii "+" else if type.space then ascii " " else []
  else []

def markOf (type : Flags) (base : Nat) : List UInt8 :=
  if type.special then
    if base = 8 then ascii "0" else if base = 16 then ascii "0x" else []
  else []

/-- What `number` stores. -/
def number (num : BitVec 64) (base : Nat) (size precision : Int) (type : Flags) : List UInt8 :=
  let zeropad := type.zeropad && !type.left
  let c : UInt8 := if zeropad then 48 else 32
  let sign := signOf type num
  let num := if type.sign && num.msb then -num else num
  let size := toInt32 (size - sign.length)
  let mark := markOf type base
  let size := toInt32 (size - mark.length)
  let tmp := digitsOf type.large base num.toNat
  let precision := max precision tmp.length
  let size := toInt32 (size - precision)
  let front := if zeropad || type.left then ([], size) else pad size 32
  let fill := if type.left then ([], front.2) else pad front.2 c
  let back := pad fill.2 32
  front.1 ++ sign ++ mark ++ fill.1 ++ List.replicate (precision - tmp.length).toNat 48 ++ tmp.reverse ++ back.1

end number

/-- The octets of an address from the first on, each with a dot behind it. -/
def ipText (addr : BitVec 32) (zeropad : Bool) : List UInt8 :=
  (List.range 4).flatMap fun n =>
    let inv := digitsOf false 10 ((addr >>> (8 * n)).setWidth 8).toNat
    (if zeropad then List.replicate (3 - inv.length) 48 else []) ++ inv.reverse ++ ascii "."

/-- `IPtoStr`: the last dot is taken back unless the buffer ends before it. -/
def ipToStr (addr : BitVec 32) (buflen : Nat) (zeropad : Bool) : List UInt8 :=
  let text := ipText addr zeropad
  if text.length ≤ buflen then text.dropLast else text.take buflen

section spec

/-- A conversion as far as it is read, the format that follows and the next argument. -/
structure Spec where
  flags : Flags
  fieldWidth : Int
  dotflag : Bool
  precision : Int
  qualifier : Option Char
  fmt : List UInt8
  arg : Nat

def flagsAt : Flags → List UInt8 → Flags × List UInt8
  | f, [] => (f, [])
  | f, c :: fmt =>
    match chr c with
    | '-' => flagsAt { f with left := true } fmt
    | '+' => flagsAt { f with plus := true } fmt
    | ' ' => flagsAt { f with space := true } fmt
    | '#' => flagsAt { f with special := true } fmt
    | '0' => flagsAt { f with zeropad := true } fmt
    | _ => (f, c :: fmt)

def skipAtoi : Int → List UInt8 → Int × List UInt8
  | i, [] => (i, [])
  | i, c :: fmt => if isDigit c then skipAtoi (toInt32 (i * 10 + c.toNat - 48)) fmt else (i, c :: fmt)

def intArg (w : BitVec 64) : Int := (w.setWidth 32).toInt

variable (args : Nat → BitVec 64)

structure Count where
  count : Option Int
  star : Bool
  fmt : List UInt8
  arg : Nat

/-- A number or a star, or nothing. -/
def countAt (fmt : List UInt8) (arg : Nat) : Count :=
  match fmt with
  | [] => ⟨none, false, [], arg⟩
  | c :: rest =>
    if isDigit c then ⟨some (skipAtoi 0 fmt).1, false, (skipAtoi 0 fmt).2, arg⟩
    else if chr c = '*' then ⟨some (intArg (args arg)), true, rest, arg + 1⟩
    else ⟨none, false, fmt, arg⟩

def dotAt (fmt : List UInt8) : Bool := fmt.head?.map chr = some '.'

def precAt (fmt : List UInt8) (arg : Nat) : Count :=
  if dotAt fmt then countAt args fmt.tail arg else ⟨none, false, fmt, arg⟩

/-- Only a width after a star is turned around. -/
def widthOf (flags : Flags) (width : Count) : Int × Flags :=
  match width.count with
  | none => (-1, flags)
  | some w => if width.star && w < 0 then (toInt32 (-w), { flags with left := true }) else (w, flags)

def qualifierAt (fmt : List UInt8) : Option Char × List UInt8 :=
  match fmt with
  | [] => (none, [])
  | c :: rest => if chr c ∈ ['h', 'l', 'L', 'I'] then (some (chr c), rest) else (none, fmt)

/-- What follows a percent sign. -/
def specAt (fmt : List UInt8) (arg : Nat) : Spec :=
  let (flags, fmt) := flagsAt {} fmt
  let width := countAt args fmt arg
  let (fieldWidth, flags) := widthOf flags width
  let prec := precAt args width.fmt width.arg
  let (qualifier, fmt) := qualifierAt prec.fmt
  ⟨flags, fieldWidth, dotAt width.fmt, prec.count.getD (-1), qualifier, fmt, prec.arg⟩

inductive Kind
  | char | str | ptr | count
  | int (base : Nat) (sign large : Bool)
  | ip | other
  deriving DecidableEq

namespace Spec

variable (sp : Spec)

def kind : Kind :=
  match sp.fmt with
  | [] => .other
  | c :: _ =>
    match chr c with
    | 'c' => .char
    | 's' => .str
    | 'p' => .ptr
    | 'n' => .count
    | 'b' => .int 2 false false
    | 'o' => .int 8 false false
    | 'd' | 'i' => .int 10 true false
    | 'u' => .int 10 false false
    | 'X' => .int 16 false true
    | 'x' => .int 16 false false
    | 'P' => if sp.qualifier = some 'I' then .ip else .other
    | _ => .other

/-- What is stored for anything that is no conversion. -/
def literal : List UInt8 :=
  match sp.fmt with
  | [] => ascii "%" ++ if sp.qualifier = some 'l' then ascii "l" else []
  | c :: _ =>
    if chr c = 'P' then ascii "%" ++ [c]
    else (if chr c = '%' then [] else ascii "%") ++ (if sp.qualifier = some 'l' then ascii "l" else []) ++ [c]

/-- `precision` where a dot sets it. -/
def prec : Int := if sp.dotflag && sp.precision < 0 then 0 else sp.precision

def charArg (w : BitVec 64) : UInt8 := if w.setWidth 8 = 0 then 32 else ⟨w.setWidth 8⟩

def intVal (w : BitVec 64) (sign : Bool) : BitVec 64 :=
  if sp.qualifier = some 'l' then w
  else if sp.qualifier = some 'h' then
    if sign then (w.setWidth 16).signExtend 64 else (w.setWidth 16).setWidth 64
  else if sign then (w.setWidth 32).signExtend 64
  else (w.setWidth 32).setWidth 64

def ptrText (w : BitVec 64) : List UInt8 :=
  if sp.fieldWidth = -1 then number w 16 16 sp.prec { sp.flags with zeropad := true }
  else number w 16 sp.fieldWidth sp.prec sp.flags

def intText (w : BitVec 64) (base : Nat) (sign large : Bool) : List UInt8 :=
  number (sp.intVal w sign) base sp.fieldWidth sp.prec { sp.flags with sign := sign, large := large }

end Spec

/-- The string at a pointer. -/
def strArg (mem : BitVec 64 → List UInt8) (w : BitVec 64) : List UInt8 :=
  if w = 0 then ascii "(null)" else cstr (mem w)

/-- `strnlen`, whose limit is a `size_t`, kept in an `int`. -/
def strLen (s : List UInt8) (precision : Int) : Int := toInt32 (min s.length (precision % 2 ^ 64).toNat : Nat)

end spec

/-- What has been stored from `buf` on, the `size` that is left, the next argument, and what `%n` stored. -/
structure Out where
  text : List UInt8
  size : Nat
  arg : Nat
  counts : List (BitVec 64 × Bool × Nat)

namespace Out

/-- A loop that stores characters while there is a `size`. -/
def puts (s : Out) (cs : List UInt8) : Out :=
  { s with text := s.text ++ cs.take s.size, size := s.size - cs.length }

/-- `while (len < field_width-- && size)`: blanks, and the width after it. -/
def fill (s : Out) (len width : Int) : Out × Int :=
  let n := min (width - len).toNat s.size
  (s.puts (List.replicate n 32), toInt32 (width - n - 1))

/-- `while (--field_width > 0 && size)`. -/
def fillChar (s : Out) (width : Int) : Out × Int :=
  let n := min (toInt32 (width - 1)).toNat s.size
  (s.puts (List.replicate n 32), toInt32 (width - 1) - n)

/-- A text of length `len` in its field. -/
def putField (s : Out) (left : Bool) (width len : Int) (text : List UInt8) : Out :=
  let (s, width) := if left then (s, width) else s.fill len width
  ((s.puts text).fill len width).1

/-- `number` does not know the size. -/
def append (s : Out) (cs : List UInt8) : Out := { s with text := s.text ++ cs }

variable (mem : BitVec 64 → List UInt8) (args : Nat → BitVec 64)

/-- The character itself, whose argument is taken if there is a size for it. -/
def charOne (s : Out) : Out :=
  if s.size = 0 then s else { s.puts [Spec.charArg (args s.arg)] with arg := s.arg + 1 }

def char (s : Out) (sp : Spec) : Out :=
  let (s, width) := if sp.flags.left then (s, sp.fieldWidth) else s.fillChar sp.fieldWidth
  ((s.charOne args).fillChar width).1

/-- One conversion. -/
def convert (s : Out) (sp : Spec) : Out :=
  let w := args sp.arg
  let next := { s with arg := sp.arg + 1 }
  match sp.kind with
  | .char => { s with arg := sp.arg }.char args sp
  | .str =>
    let str := strArg mem w
    let len := strLen str sp.prec
    next.putField sp.flags.left sp.fieldWidth len (str.take len.toNat)
  | .ptr => next.append (sp.ptrText w)
  | .count => { next with counts := s.counts ++ [(w, decide (sp.qualifier = some 'l'), s.text.length)] }
  | .int base sign large => next.append (sp.intText w base sign large)
  | .ip =>
    let buff := ipToStr (w.setWidth 32) (min s.size 15) sp.flags.zeropad
    next.putField sp.flags.left sp.fieldWidth buff.length buff
  -- the format is stepped back to its end or, with no size left, left for good
  | .other => { s with arg := sp.arg }.puts sp.literal

end Out

section suffix

variable (args : Nat → BitVec 64) (arg : Nat) (fmt : List UInt8)

theorem flagsAt_suffix (f : Flags) (fmt : List UInt8) : (flagsAt f fmt).2 <:+ fmt := by
  induction fmt generalizing f with
  | nil => exact List.suffix_refl _
  | cons c fmt ih =>
    unfold flagsAt
    split
    case h_6 => exact List.suffix_refl _
    all_goals exact (ih _).trans (List.suffix_cons _ _)

theorem skipAtoi_suffix (i : Int) (fmt : List UInt8) : (skipAtoi i fmt).2 <:+ fmt := by
  induction fmt generalizing i with
  | nil => exact List.suffix_refl _
  | cons c fmt ih =>
    unfold skipAtoi
    split
    · exact (ih _).trans (List.suffix_cons _ _)
    · exact List.suffix_refl _

theorem countAt_suffix : (countAt args fmt arg).fmt <:+ fmt := by
  unfold countAt
  split
  · exact List.suffix_refl _
  · split
    · exact skipAtoi_suffix _ _
    · split
      · exact List.suffix_cons _ _
      · exact List.suffix_refl _

theorem precAt_suffix : (precAt args fmt arg).fmt <:+ fmt := by
  unfold precAt
  split
  · exact (countAt_suffix args arg _).trans (List.tail_suffix _)
  · exact List.suffix_refl _

theorem qualifierAt_suffix : (qualifierAt fmt).2 <:+ fmt := by
  unfold qualifierAt
  split
  · exact List.suffix_refl _
  · split
    · exact List.suffix_cons _ _
    · exact List.suffix_refl _

theorem specAt_suffix : (specAt args fmt arg).fmt <:+ fmt :=
  (qualifierAt_suffix _).trans
    ((precAt_suffix args _ _).trans ((countAt_suffix args _ _).trans (flagsAt_suffix _ _)))

theorem specAt_tail_lt : (specAt args fmt arg).fmt.tail.length < fmt.length + 1 := by
  rw [List.length_tail]
  exact Nat.lt_succ_of_le (Nat.le_trans (Nat.sub_le _ _) (specAt_suffix args arg fmt).length_le)

end suffix

namespace Out

variable (mem : BitVec 64 → List UInt8) (args : Nat → BitVec 64)

/-- The loop over the format. -/
def format (fmt : List UInt8) (s : Out) : Out :=
  match fmt with
  | [] => s
  | c :: fmt =>
    if s.size = 0 then s
    else if chr c ≠ '%' then format fmt (s.puts [c])
    else
      let sp := specAt args fmt s.arg
      format sp.fmt.tail (s.convert mem args sp)
termination_by fmt.length
decreasing_by
  · exact Nat.lt_succ_self _
  · exact specAt_tail_lt args s.arg fmt

end Out

/-- What a call leaves at `buf[0]`, `buf[1]`, ..., what `%n` stored elsewhere, and the result. -/
structure Printed where
  buf : List UInt8
  counts : List (BitVec 64 × Bool × Nat)
  ret : Int

def vsnprintf (mem : BitVec 64 → List UInt8) (args : Nat → BitVec 64) (size : Nat) (fmt : List UInt8) : Printed :=
  let s := Out.format mem args (cstr fmt) ⟨[], size - 1, 0, []⟩
  ⟨s.text ++ [0], s.counts, toInt32 s.text.length⟩

end En675.Dev.Vsnprintf
