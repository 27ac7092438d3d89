import Mathlib.Logic.Function.Basic
import Mathlib.Tactic.IntervalCases
import Mathlib.Data.UInt

/-! A CAN frame through the MCP2515's registers (`MCP2515_main.c`): loaded by `can_tx_GPIO`, taken
by `can_peek_message_GPIO`.  The chip is its register file. -/

namespace En675.Dev.Mcp2515

abbrev Regs := UInt8 → UInt8

def canintf : UInt8 := 0x2C
def txb0ctrl : UInt8 := 0x30
def txb0sidh : UInt8 := 0x31
def txb0sidl : UInt8 := 0x32
def txb0dlc : UInt8 := 0x35
def txb0d0 : UInt8 := 0x36
def rxb0sidh : UInt8 := 0x61
def rxb0dlc : UInt8 := 0x65
def rxb0d0 : UInt8 := 0x66

def Regs.spiWrite (regs : Regs) (awAddr awData : UInt8) : Regs := Function.update regs awAddr awData

/-- The stores of `can_tx_GPIO`; `id` is the pattern of the short. -/
def load (regs : Regs) (id : UInt16) (dataLen : UInt8) (data : Nat → UInt8) : Regs :=
  let idh := ((id &&& 0x07F8) >>> 3).toUInt8
  let idl := (id &&& 0x0007).toUInt8
  let regs := regs.spiWrite txb0sidh idh
  let regs := regs.spiWrite txb0sidl (idl <<< 5)
  let regs := regs.spiWrite txb0dlc dataLen
  let regs := (List.range 8).foldl (fun regs i => regs.spiWrite (txb0d0 + .ofNat i) (data i)) regs
  regs.spiWrite txb0ctrl (0x08 ||| 0x3)

/-- `can_tx_GPIO`, where `polls` are the values TXB0CTRL reads in turn; `none` if the last of them
still has the message before pending. -/
def canTxGpio (polls : List UInt8) (regs : Regs) (id : UInt16) (dataLen : UInt8)
    (data : Nat → UInt8) : Option Regs :=
  match polls.dropWhile fun regData => regData &&& 0x08 ≠ 0 with
  | [] => none
  | _ :: _ => some (load regs id dataLen data)

structure Can where
  regs : Regs
  canMsgId : UInt16
  canRxCount : UInt8
  /-- The memory from `can_buffer_gpio` on. -/
  canBuffer : Nat → UInt8
  /-- The places from there on that have been written. -/
  wrote : List Nat

/-- The loop over the data, `n` bytes from byte `lcount` on. -/
def copyData : Nat → Nat → Can → Can
  | 0, _, s => s
  | n + 1, lcount, s =>
    copyData n (lcount + 1)
      { s with
        canBuffer := Function.update s.canBuffer lcount (s.regs (rxb0d0 + .ofNat lcount))
        wrote := s.wrote ++ [lcount] }

/-- The state after, and what is returned. -/
def canPeekMessageGpio (s : Can) : Can × UInt8 :=
  if s.regs canintf &&& 0x01 = 0 then (s, 0)
  else
    let s := { s with canMsgId := (s.regs rxb0sidh).toUInt16 <<< 3 }
    let s := { s with canRxCount := s.regs rxb0dlc &&& 0x0F }
    let s := copyData s.canRxCount.toNat 0 s
    let s := { s with regs := s.regs.spiWrite canintf 0x00 }
    (s, s.canRxCount)

/-- What a peer receives: the transmit buffer stands in its receive buffer, and the flag is up. -/
def received (tx : Regs) : Regs := fun a =>
  if a = canintf then 1 else if 0x61 ≤ a ∧ a ≤ 0x6D then tx (a - 0x30) else 0

/-- The state holds the frame. -/
def Can.Holds (s : Can) (id : UInt16) (dataLen : UInt8) (data : Nat → UInt8) : Prop :=
  s.canMsgId = id ∧ s.canRxCount = dataLen ∧ ∀ i < dataLen.toNat, s.canBuffer i = data i

/-- Only `can_buffer_gpio[8]` has been written. -/
def Can.Inside (s : Can) : Prop := ∀ i ∈ s.wrote, i < 8

/-- Nothing received yet. -/
def fresh (regs : Regs) : Can := ⟨regs, 0, 0, fun _ => 0, []⟩

section copyData

variable (n k : Nat) (s : Can)

@[simp] theorem copyData_regs : (copyData n k s).regs = s.regs := by
  induction n generalizing k s with
  | zero => rfl
  | succ n ih => rw [copyData, ih]

@[simp] theorem copyData_canMsgId : (copyData n k s).canMsgId = s.canMsgId := by
  induction n generalizing k s with
  | zero => rfl
  | succ n ih => rw [copyData, ih]

@[simp] theorem copyData_canRxCount : (copyData n k s).canRxCount = s.canRxCount := by
  induction n generalizing k s with
  | zero => rfl
  | succ n ih => rw [copyData, ih]

theorem copyData_wrote : (copyData n k s).wrote = s.wrote ++ List.range' k n := by
  induction n generalizing k s with
  | zero => simp [copyData]
  | succ n ih => rw [copyData, ih, List.append_assoc, List.range'_succ, List.singleton_append]

theorem copyData_canBuffer (i : Nat) : (copyData n k s).canBuffer i =
    if k ≤ i ∧ i < k + n then s.regs (rxb0d0 + .ofNat i) else s.canBuffer i := by
  induction n generalizing k s with
  | zero => rw [copyData, if_neg (by omega)]
  | succ n ih =>
    rw [copyData, ih]
    by_cases at_k : i = k
    · subst at_k
      rw [if_neg (by omega), if_pos (by omega)]
      exact Function.update_self ..
    · exact if_congr (by omega) rfl (Function.update_of_ne at_k ..)

end copyData

section load

variable (regs : Regs) (id : UInt16) (dataLen : UInt8) (data : Nat → UInt8)

theorem received_sidh :
    received (load regs id dataLen data) rxb0sidh = ((id &&& 0x07F8) >>> 3).toUInt8 := rfl

theorem received_dlc : received (load regs id dataLen data) rxb0dlc = dataLen := rfl

theorem received_data (h : i < 8) :
    received (load regs id dataLen data) (rxb0d0 + .ofNat i) = data i := by
  interval_cases i <;> rfl

theorem received_canintf : received (load regs id dataLen data) canintf = 1 := rfl

end load

/-- The identifier comes back without its low three bits. -/
theorem canMsgId_toNat {id : UInt16} (h : id.toNat < 2 ^ 11) :
    (((id &&& 0x07F8) >>> 3).toUInt8.toUInt16 <<< 3).toNat = id.toNat / 8 * 8 := by
  have high : (id.toNat &&& 0x07F8) >>> 3 = id.toNat / 8 := by
    rw [Nat.shiftRight_and_distrib, Nat.shiftRight_eq_div_pow]
    exact (Nat.and_two_pow_sub_one_eq_mod _ 8).trans (Nat.mod_eq_of_lt (by omega))
  have byte : (((id &&& 0x07F8) >>> 3).toUInt8.toUInt16).toNat = id.toNat / 8 := by
    simp only [UInt8.toNat_toUInt16, UInt16.toNat_toUInt8, UInt16.toNat_shiftRight, UInt16.toNat_and]
    exact (congrArg (· % 2 ^ 8) high).trans (Nat.mod_eq_of_lt (by omega))
  rw [UInt16.toNat_shiftLeft, byte, Nat.shiftLeft_eq]
  exact Nat.mod_eq_of_lt (by simp; omega)

theorem canMsgId_eq_iff {id : UInt16} (h : id.toNat < 2 ^ 11) :
    ((id &&& 0x07F8) >>> 3).toUInt8.toUInt16 <<< 3 = id ↔ id.toNat % 8 = 0 := by
  rw [← UInt16.toNat_inj, canMsgId_toNat h]
  omega

section peek

variable (s : Can)

theorem peek_idle (h : s.regs canintf &&& 0x01 = 0) : canPeekMessageGpio s = (s, 0) := if_pos h

theorem peek_wrote (h : s.regs canintf &&& 0x01 ≠ 0) : (canPeekMessageGpio s).1.wrote =
    s.wrote ++ List.range' 0 (s.regs rxb0dlc &&& 0x0F).toNat := by
  simp only [canPeekMessageGpio, if_neg h, copyData_wrote]

/-- What arrives of a frame that a peer loaded. -/
theorem peek_received (regs : Regs) (id : UInt16) {dataLen : UInt8} (data : Nat → UInt8)
    (hs : s.regs = received (load regs id dataLen data)) (len : dataLen.toNat ≤ 8) :
    (canPeekMessageGpio s).1.canMsgId = ((id &&& 0x07F8) >>> 3).toUInt8.toUInt16 <<< 3 ∧
    (canPeekMessageGpio s).1.canRxCount = dataLen ∧
    ∀ i < dataLen.toNat, (canPeekMessageGpio s).1.canBuffer i = data i := by
  have pending : s.regs canintf &&& 0x01 ≠ 0 := by
    rw [hs, received_canintf]
    decide
  have count : dataLen &&& 0x0F = dataLen := by
    rw [← UInt8.toNat_inj, UInt8.toNat_and]
    exact (Nat.and_two_pow_sub_one_eq_mod _ 4).trans (Nat.mod_eq_of_lt (by omega))
  rw [canPeekMessageGpio, if_neg pending]
  simp only [copyData_canMsgId, copyData_canRxCount, copyData_canBuffer, hs, received_sidh,
    received_dlc, count, true_and]
  intro i hi
  rw [if_pos ⟨Nat.zero_le i, by omega⟩, received_data regs id dataLen data (by omega)]

end peek

/-- A frame comes through whole exactly if the low three bits of its identifier are zero, and the
receiver keeps to its buffer exactly if the length nibble is at most eight. -/
theorem can_round_trip_iff (regs : Regs) :
    (∀ polls id dataLen data tx, canTxGpio polls regs id dataLen data = some tx →
      id.toNat < 2 ^ 11 → dataLen.toNat ≤ 8 →
        ((canPeekMessageGpio (fresh (received tx))).1.Holds id dataLen data ↔ id.toNat % 8 = 0)) ∧
    ((canPeekMessageGpio (fresh regs)).1.Inside ↔
      (regs canintf &&& 0x01 = 0 ∨ (regs rxb0dlc &&& 0x0F).toNat ≤ 8)) := by
  constructor
  · intro polls id dataLen data tx htx hid hlen
    obtain rfl : load regs id dataLen data = tx := by
      unfold canTxGpio at htx
      split at htx
      · cases htx
      · exact Option.some.inj htx
    obtain ⟨msgId, count, buffer⟩ := peek_received (fresh (received (load regs id dataLen data)))
      regs id data rfl hlen
    unfold Can.Holds
    rw [msgId, canMsgId_eq_iff hid]
    exact and_iff_left ⟨count, buffer⟩
  · by_cases idle : regs canintf &&& 0x01 = 0
    · rw [peek_idle _ idle]
      exact iff_of_true nofun (.inl idle)
    · unfold Can.Inside
      rw [peek_wrote _ idle, or_iff_right idle]
      simp only [fresh, List.nil_append, List.mem_range'_1, Nat.zero_le, true_and, Nat.zero_add]
      constructor
      · intro inside
        by_contra long
        exact absurd (inside 8 (by omega)) (by decide)
      · intro short i hi
        omega

/-- The frame 0x7F8 with the bytes 1 to 8. -/
def demoData (i : Nat) : UInt8 := .ofNat (i + 1)

theorem can_round_trip_demo : (canTxGpio [8, 0] 0 0x7F8 8 demoData).isSome = true ∧
    (canPeekMessageGpio (fresh (received (load 0 0x7F8 8 demoData)))).1.Holds 0x7F8 8 demoData :=
  ⟨rfl, ((can_round_trip_iff 0).1 [8, 0] 0x7F8 8 demoData _ rfl (by decide) (by decide)).2 (by decide)⟩

instance (s : Can) (id : UInt16) (dataLen : UInt8) (data : Nat → UInt8) :
    Decidable (s.Holds id dataLen data) := inferInstanceAs (Decidable (_ ∧ _ ∧ _))

instance (s : Can) : Decidable s.Inside := inferInstanceAs (Decidable (∀ i ∈ s.wrote, i < 8))

/-- The identifier 0x123 arrives as 0x120, and a length of 15 runs past the buffer. -/
theorem can_loses : ¬ (canPeekMessageGpio (fresh (received (load 0 0x123 0 demoData)))).1.Holds
      0x123 0 demoData ∧
    (canPeekMessageGpio (fresh (received (load 0 0x123 0 demoData)))).1.canMsgId = 0x120 ∧
    ¬ (canPeekMessageGpio (fresh fun _ => 0x0F)).1.Inside := by decide

end En675.Dev.Mcp2515
