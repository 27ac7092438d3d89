import En675.Lib.CString
import En675.Lib.Runs

/-! The words of a command line (`_tokenize`).  They are cut in place: the characters that are not part of
a word are deleted by copying the rest of the line down, and `argv` points into the line. -/

namespace En675.Shell

open Lib

def ARGCNT : Nat := 16

def isBlank (c : UInt8) : Bool := c == 32 || c == 9

section reference

/-- What the characters of a line are to the words. -/
inductive Sym
  | gap
  | mark
  | lit (c : UInt8)
  deriving DecidableEq

def Sym.isGap : Sym → Bool
  | .gap => true
  | _ => false

def Sym.char : Sym → Option UInt8
  | .lit c => some c
  | _ => none

/-- A line as symbols, from inside or outside of quotes, and whether the quotes are closed at its end. -/
def lex : Bool → List UInt8 → List Sym × Bool
  | quoted, [] => ([], !quoted)
  | quoted, 92 :: 34 :: r => (.lit 34 :: (lex quoted r).1, (lex quoted r).2)
  | quoted, 34 :: r => (.mark :: (lex (!quoted) r).1, (lex (!quoted) r).2)
  | quoted, c :: r => ((if !quoted && isBlank c then .gap else .lit c) :: (lex quoted r).1, (lex quoted r).2)

def chars (run : List Sym) : List UInt8 := run.filterMap Sym.char

def wordsOf (syms : List Sym) : List (List UInt8) := (runs Sym.isGap syms).map chars

def words (line : List UInt8) : List (List UInt8) := wordsOf (lex false line).1

def Balanced (line : List UInt8) : Prop := (lex false line).2 = true

/-- The line ends in a blank outside of quotes. -/
def Trailing (line : List UInt8) : Prop := (lex false line).1.getLast? = some .gap

instance (line : List UInt8) : Decidable (Balanced line) := inferInstanceAs (Decidable (_ = _))

instance (line : List UInt8) : Decidable (Trailing line) := inferInstanceAs (Decidable (_ = _))

end reference

section code

/-- `strcpy(&mem[dst], &mem[src])`, octet by octet; `none` is an access outside. -/
def strcpyFrom : Nat → List UInt8 → Nat → Nat → Option (List UInt8)
  | 0, _, _, _ => none
  | n + 1, mem, dst, src => do
    let b ← mem[src]?
    let _ ← mem[dst]?
    if b = 0 then return mem.set dst b
    strcpyFrom n (mem.set dst b) (dst + 1) (src + 1)

/-- The octets of the line, its NUL included, and the pointer `string`. -/
structure Text where
  mem : List UInt8
  string : Nat

namespace Text

def get (s : Text) (k : Nat) : Option UInt8 := s.mem[s.string + k]?

def next (s : Text) : Text := { s with string := s.string + 1 }

/-- `strcpy(string, string + 1)`. -/
def delete (s : Text) : Option Text := do
  let mem ← strcpyFrom s.mem.length s.mem s.string (s.string + 1)
  return { s with mem := mem }

/-- `*string++ = 0`. -/
def close (s : Text) : Option Text := do
  let _ ← s.get 0
  return { mem := s.mem.set s.string 0, string := s.string + 1 }

/-- `(*string == '\\') && (*(string + 1) == '"')`. -/
def escaped (s : Text) : Option Bool := do
  if (← s.get 0) = 92 then return (← s.get 1) = 34
  return false

def skipBlanks : Nat → Text → Option Text
  | 0, _ => none
  | n + 1, s => do
    if isBlank (← s.get 0) then skipBlanks n s.next
    else return s

/-- The characters up to the closing quote; `false` where the line ends before it. -/
def quotes : Nat → Text → Option (Bool × Text)
  | 0, _ => none
  | n + 1, s => do
    if (← s.get 0) = 34 then return (true, s)
    let s ← if ← s.escaped then s.delete else pure s
    if (← s.get 0) = 0 then return (false, s)
    quotes n s.next

/-- The characters of one word; `false` where a quote is not closed. -/
def word : Nat → Text → Option (Bool × Text)
  | 0, _ => none
  | n + 1, s => do
    let c ← s.get 0
    if isBlank c then return (true, s)
    if ← s.escaped then
      let s ← s.delete
      if (← s.get 0) = 0 then return (true, s)
      word n s.next
    else if c = 34 then
      let (closed, s) ← quotes n (← s.delete)
      if !closed then return (false, s)
      word n (← s.delete)
    else if c = 0 then return (true, s)
    else word n s.next

end Text

structure Tokens where
  argc : Int
  argv : List (Option Nat)
  mem : List UInt8

def tokens : Nat → Text → Nat → List (Option Nat) → Option Tokens
  | 0, _, _, _ => none
  | n + 1, s, argc, argv => do
    let s ← s.skipBlanks (n + 1)
    if (← s.get 0) = 0 then return ⟨argc, argv, s.mem⟩
    let _ ← argv[argc]?
    let argv := argv.set argc (some s.string)
    let (closed, s) ← s.word (n + 1)
    if !closed then return ⟨-1, argv, s.mem⟩
    if (← s.get 0) = 0 then return ⟨argc + 1, argv, s.mem⟩
    let s ← s.close
    if ARGCNT ≤ argc + 1 then return ⟨-1, argv, s.mem⟩
    tokens n s (argc + 1) argv

/-- `_tokenize` on a line in memory of its own. -/
def tokenize (line : List UInt8) : Option Tokens :=
  tokens (line.length + 1) ⟨line ++ [0], 0⟩ 0 (List.replicate ARGCNT none)

/-- The strings `argv` points to. -/
def Tokens.strings (t : Tokens) : List (Option (List UInt8)) :=
  t.argv.map fun p => p.map fun p => cstr (t.mem.drop p)

end code

end En675.Shell
