import Mathlib.Algebra.Ring.Nat
import En675.Lib.Tlv
import En675.Lib.Keyed

/-! The options of a DHCP message (`options.c`, `packet.h`): what `get_option` finds in what `add_option_string`
has put together.  A message is the memory from its first octet on, and what lies behind it. -/

namespace En675.Net.Dhcpd

open Lib

section code

/-- `struct dhcpMessage`: where its fields begin. -/
def atXid : Nat := 4
def atFlags : Nat := 10
def atCiaddr : Nat := 12
def atYiaddr : Nat := 16
def atSiaddr : Nat := 20
def atGiaddr : Nat := 24
def atChaddr : Nat := 28
def atSname : Nat := 44
def atFile : Nat := 108
def atCookie : Nat := 236
def atOptions : Nat := 240
def sizeofMessage : Nat := 548

def dhcpPadding : UInt8 := 0x00
def dhcpRequestedIp : UInt8 := 0x32
def dhcpLeaseTime : UInt8 := 0x33
def dhcpOptionOver : UInt8 := 0x34
def dhcpMessageType : UInt8 := 0x35
def dhcpServerId : UInt8 := 0x36
def dhcpEnd : UInt8 := 0xFF

/-- What `options` and `option_lengths` say together: the length of a value, by the code. -/
def optionLengths : List (UInt8 × Nat) :=
  [(0x01, 4), (0x02, 4), (0x03, 4), (0x04, 4), (0x05, 4), (0x06, 4), (0x07, 4), (0x08, 4), (0x09, 4), (0x0c, 1),
    (0x0d, 2), (0x0f, 1), (0x10, 4), (0x11, 1), (0x17, 1), (0x1a, 2), (0x1c, 4), (0x2a, 4), (0x2b, 6), (0x2c, 4),
    (0x32, 4), (0x33, 4), (0x35, 1), (0x36, 4), (0x38, 1), (0x42, 1), (0x43, 1)]

/-- The codes of those that may be several (`OPTION_LIST`). -/
def optionList : List UInt8 := [0x03, 0x04, 0x05, 0x06, 0x07, 0x08, 0x09, 0x2a, 0x2c]

/-- The field that is searched: the options, and where they say so the boot file and the server's name. -/
inductive Field
  | option
  | file
  | sname
  deriving DecidableEq

def Field.start : Field → Nat
  | .option => atOptions
  | .file => atFile
  | .sname => atSname

def Field.length : Field → Nat
  | .option => 308
  | .file => 128
  | .sname => 64

/-- Where the search goes at the end of a field. -/
def Field.next (overload : UInt8) : Field → Option Field
  | .option => if overload &&& 1 ≠ 0 then some .file else none
  | .file => if overload &&& 2 ≠ 0 then some .sname else none
  | .sname => none

def Field.behind : Field → Nat
  | .option => 2
  | .file => 1
  | .sname => 0

theorem Field.behind_next {overload : UInt8} {f g : Field} (h : f.next overload = some g) : g.behind < f.behind := by
  cases f with
  | option =>
    rw [Field.next] at h
    split at h
    · cases h
      decide
    · cases h
  | file =>
    rw [Field.next] at h
    split at h
    · cases h
      decide
    · cases h
  | sname => cases h

/-- The loop of `get_option`, at `i` in the field: where the value begins. -/
def optionFrom (packet : Mem) (code : UInt8) (curr : Field) (overload : UInt8) (i : Nat) : Option Nat :=
  if curr.length ≤ i then none
  else if packet (curr.start + i) = code then
    if curr.length ≤ i + 1 + (packet (curr.start + (i + 1))).toNat then none else some (curr.start + i + 2)
  else if packet (curr.start + i) = dhcpPadding then optionFrom packet code curr overload (i + 1)
  else if packet (curr.start + i) = dhcpOptionOver then
    if curr.length ≤ i + 1 + (packet (curr.start + (i + 1))).toNat then none
    -- the length of the first option of the field, not that of this one
    else optionFrom packet code curr (packet (curr.start + (i + 3))) (i + ((packet (curr.start + 1)).toNat + 2))
  else if packet (curr.start + i) = dhcpEnd then
    match _hn : curr.next overload with
    | some next => optionFrom packet code next overload 0
    | none => none
  else optionFrom packet code curr overload (i + ((packet (curr.start + (i + 1))).toNat + 2))
termination_by (curr.behind, curr.length - i)
decreasing_by
  · exact Prod.Lex.right _ (by omega)
  · exact Prod.Lex.right _ (by omega)
  · exact Prod.Lex.left _ _ (Field.behind_next _hn)
  · exact Prod.Lex.right _ (by omega)

def getOption (packet : Mem) (code : UInt8) : Option Nat := optionFrom packet code .option 0 0

/-- `end_option`, at `i`. -/
def endFrom (m : Mem) (optionptr i : Nat) : Nat :=
  if m (optionptr + i) = dhcpEnd then i
  else
    let j := if m (optionptr + i) = dhcpPadding then i + 1 else i + ((m (optionptr + (i + 1))).toNat + 2)
    if _h : 300 < j then j else endFrom m optionptr j
termination_by 301 - i
decreasing_by
  have more : i < j := by
    dsimp only [j]
    split <;> omega
  omega

def endOption (m : Mem) (optionptr : Nat) : Nat := endFrom m optionptr 0

/-- The octet behind the code is the length of what `string` holds behind the two. -/
def addOptionString (m : Mem) (optionptr : Nat) (string : Tlv) : Mem :=
  let end_ := endOption m optionptr
  if 308 ≤ end_ + string.data.length + 2 + 1 then m
  else (m.write (optionptr + end_) string.bytes).write (optionptr + end_ + (string.data.length + 2)) [dhcpEnd]

theorem length_octets_take (data n : Nat) : ((be 4 data).reverse.take n).length < 256 := by
  rw [List.length_take, List.length_reverse, length_be]
  omega

/-- `data` as the processor stores it, the low octet first, and of that as much as the option holds. -/
def addSimpleOption (m : Mem) (optionptr : Nat) (code : UInt8) (data : Nat) : Mem :=
  match (optionLengths.find? fun o => o.1 == code).map Prod.snd with
  | none => m
  | some length =>
    addOptionString m optionptr ⟨code, (be 4 data).reverse.take length, length_octets_take data length⟩

/-- What the list of the options goes by. -/
def codeOf (o : Tlv) : Nat := o.code.toNat

/-- What `attach_option` makes of an option that is there. -/
def joinOption (existing new : Tlv) : Tlv :=
  if h : new.code ∈ optionList ∧ existing.data.length + new.data.length ≤ 255 then
    ⟨existing.code, existing.data ++ new.data, by
      rw [List.length_append]
      omega⟩
  else existing

/-- `attach_option`.  The loop that inserts stops where that of `find_option` does. -/
def attachOption (optList : List Tlv) (new : Tlv) : List Tlv := Keyed.put codeOf joinOption new optList

end code

section laws

variable {m packet : Mem} {p i n : Nat} {o : Tlv} {l : List Tlv} {code overload : UInt8}

/-- A code that an entry may have. -/
def Plain (o : Tlv) : Prop := o.code ≠ dhcpPadding ∧ o.code ≠ dhcpOptionOver ∧ o.code ≠ dhcpEnd

instance (o : Tlv) : Decidable (Plain o) := inferInstanceAs (Decidable (_ ∧ _ ∧ _))

theorem joinOption_code (x y : Tlv) : (joinOption x y).code = x.code := by
  unfold joinOption
  split
  · rfl
  · rfl

theorem forall_attach {P : UInt8 → Prop} {os : List Tlv} (h : ∀ o ∈ os, P o.code) :
    ∀ o ∈ os.foldl attachOption [], P o.code := by
  have join (x y : Tlv) (hx : P x.code) (_ : codeOf x = codeOf y) : P (joinOption x y).code := by
    rwa [joinOption_code]
  exact Keyed.forall_putAll join h

theorem optionFrom_hit (lt : i < 308) (hit : packet (Field.option.start + i) = code)
    (length : (packet (Field.option.start + (i + 1))).toNat = n) (room : i + 1 + n < 308) :
    optionFrom packet code .option overload i = some (atOptions + i + 2) := by
  have inside : ¬ Field.option.length ≤ i := Nat.not_le.2 lt
  have whole : ¬ Field.option.length ≤ i + 1 + n := Nat.not_le.2 room
  rw [optionFrom, if_neg inside, if_pos hit, length, if_neg whole]
  rfl

theorem optionFrom_skip (overload : UInt8) (lt : i < 308) (miss : packet (Field.option.start + i) ≠ code)
    (plain : packet (Field.option.start + i) ≠ dhcpPadding ∧ packet (Field.option.start + i) ≠ dhcpOptionOver ∧
      packet (Field.option.start + i) ≠ dhcpEnd) (length : (packet (Field.option.start + (i + 1))).toNat = n) :
    optionFrom packet code .option overload i = optionFrom packet code .option overload (i + (n + 2)) := by
  have inside : ¬ Field.option.length ≤ i := Nat.not_le.2 lt
  conv_lhs => rw [optionFrom]
  rw [if_neg inside, if_neg miss, if_neg plain.1, if_neg plain.2.1, if_neg plain.2.2, length]

theorem optionFrom_end (lt : i < 308) (last : packet (Field.option.start + i) = dhcpEnd) (real : code ≠ dhcpEnd) :
    optionFrom packet code .option 0 i = none := by
  have inside : ¬ Field.option.length ≤ i := Nat.not_le.2 lt
  have miss : packet (Field.option.start + i) ≠ code := fun same => real (same.symm.trans last)
  have padding : packet (Field.option.start + i) ≠ dhcpPadding := fun same => absurd (last.symm.trans same) (by decide)
  have overload : packet (Field.option.start + i) ≠ dhcpOptionOver := fun same => absurd (last.symm.trans same) (by decide)
  rw [optionFrom, if_neg inside, if_neg miss, if_neg padding, if_neg overload, if_pos last]
  rfl

/-- `get_option` finds the first option of the code, with its value. -/
theorem optionFrom_some (h : Tlv.At dhcpEnd packet (atOptions + i) l) (plain : ∀ o ∈ l, Plain o)
    (lt : i + (Tlv.encode l).length < 308) (found : l.find? (fun o => o.code == code) = some o) :
    ∃ q, optionFrom packet code .option overload i = some q ∧ (packet (q - 1)).toNat = o.data.length ∧
      packet.Holds q o.data := by
  induction l generalizing i with
  | nil => cases found
  | cons x l ih =>
    obtain ⟨first, length, data, rest⟩ := Tlv.at_cons h
    obtain ⟨px, plain⟩ := List.forall_mem_cons.mp plain
    rw [Tlv.encode_cons, List.length_append, Tlv.length_bytes] at lt
    rw [Nat.add_assoc] at length
    by_cases same : x.code = code
    · rw [List.find?_cons_of_pos (by simpa using same)] at found
      obtain rfl := Option.some.inj found
      exact ⟨_, optionFrom_hit (by omega) (first.trans same) length (by omega), length, data⟩
    · rw [List.find?_cons_of_neg (by simpa using same)] at found
      have miss : packet (atOptions + i) ≠ code := fun hit => same (first.symm.trans hit)
      unfold Plain at px
      rw [← first] at px
      rw [optionFrom_skip overload (by omega) miss px length]
      exact ih (by rwa [← Nat.add_assoc]) plain (by omega) found

theorem optionFrom_none (h : Tlv.At dhcpEnd packet (atOptions + i) l) (plain : ∀ o ∈ l, Plain o)
    (lt : i + (Tlv.encode l).length < 308) (real : code ≠ dhcpEnd)
    (none : l.find? (fun o => o.code == code) = .none) : optionFrom packet code .option 0 i = .none := by
  induction l generalizing i with
  | nil => exact optionFrom_end lt (Tlv.at_nil.mp h) real
  | cons x l ih =>
    obtain ⟨first, length, data, rest⟩ := Tlv.at_cons h
    obtain ⟨px, plain⟩ := List.forall_mem_cons.mp plain
    rw [Tlv.encode_cons, List.length_append, Tlv.length_bytes] at lt
    rw [Nat.add_assoc] at length
    have other : x.code ≠ code := by
      intro same
      rw [List.find?_cons_of_pos (by simpa using same)] at none
      cases none
    rw [List.find?_cons_of_neg (by simpa using other)] at none
    have miss : packet (atOptions + i) ≠ code := fun hit => other (first.symm.trans hit)
    unfold Plain at px
    rw [← first] at px
    rw [optionFrom_skip 0 (by omega) miss px length]
    exact ih (by rwa [← Nat.add_assoc]) plain (by omega) none

end laws

end En675.Net.Dhcpd
