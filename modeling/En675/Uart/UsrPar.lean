import Mathlib.Data.List.DropRight
import En675.Uart.CommFrames

/-! The user parameters behind the serial protocol (`uart_string.c`, `isp_par.c`, `isp_font.c`), with
`USE_UP_PAR`.  The registers of the ISP and the sensor are left out, as are the tasks that read the
save and load flags. -/

namespace En675.Uart

open Lib

abbrev UsrParTbl := Nat → UInt8

/-- The layout of `gbUsrParTbl`, and what a changed parameter runs. -/
structure UsrParCfg where
  upEnd : Nat
  usrParEa : Nat
  upPar00 : Nat
  gDataID : BitVec 16
  usrParChg : Nat → UsrParTbl → UsrParTbl
  usrParChgEndIdx : Nat → UsrParTbl → UsrParTbl

def upStart : Nat := 0
def baseMicomPar : Nat := 0x8000
def modelParID : BitVec 32 := 0x12345678

/-- `PW_CONTINUE`. -/
def pwContinue : Nat := 3

inductive UartReply where
  | parK (abVal : UInt8)
  | par (anAddr : BitVec 16) (abData : UInt8)
  | reg (anAddr : BitVec 16) (anData : BitVec 32)
  | eepDone
  deriving DecidableEq

structure ParState where
  gbParOn : Nat
  gbUsrParTbl : UsrParTbl
  gbUsrParSaveChk : Bool
  gbUsrParReadChk : Bool
  gbUKeyVal : UInt8
  replies : List UartReply

def setByte (t : UsrParTbl) (at_ : Nat) (anData : BitVec 32) : UsrParTbl :=
  (List.range 4).foldl (fun t i => Function.update t (at_ + i) ⟨(anData >>> (8 * i)).setWidth 8⟩) t

def getByte (t : UsrParTbl) (at_ : Nat) : BitVec 32 :=
  (List.range 4).foldl (fun d i => d ||| (t (at_ + i)).toBitVec.setWidth 32 <<< (8 * i)) 0

def hex2dec (hex : BitVec 32) : BitVec 32 :=
  ((List.range 8).foldl (fun (dec, d) i =>
    let digit := (hex >>> (4 * i)) &&& 0xf
    (if digit < 0xa then dec + digit * d else d * 10 - 1, d * 10)) ((0 : BitVec 32), (1 : BitVec 32))).1

def dec2hex (dec : BitVec 32) : BitVec 32 :=
  ((List.range 8).foldl (fun (hex, dec, h) _ =>
    (hex + (dec - dec / 10 * 10) * h, dec / 10, h * 16)) ((0 : BitVec 32), dec, (1 : BitVec 32))).1

namespace ParState

variable (cfg : UsrParCfg) (s : ParState)

def reply (r : UartReply) : ParState := { s with replies := s.replies ++ [r] }

/-- `UsrParValid(0)`. -/
def invalidate : ParState :=
  let t := Function.update s.gbUsrParTbl upStart ⟨(~~~ cfg.gDataID).extractLsb' 8 8⟩
  { s with gbUsrParTbl := Function.update t cfg.upEnd ⟨(~~~ cfg.gDataID).extractLsb' 0 8⟩ }

/-- The key is compared. -/
def checkKey (gnRxData : BitVec 32) : ParState :=
  if s.gbParOn < pwContinue ∨ s.gbParOn = 0xFF then
    if gnRxData = modelParID then { s with gbParOn := 0xFF }.reply (.parK 1)
    else { s with gbParOn := (if s.gbParOn = 0xFF then 0 else s.gbParOn) + 1 }.reply (.parK 0)
  else s

def uartRxParK (gnRxData : BitVec 32) : ParState :=
  let s := s.checkKey gnRxData
  if s.gbParOn = pwContinue then
    { ({ s with gbParOn := s.gbParOn + 1 }.invalidate cfg) with gbUsrParSaveChk := true }
  else if s.gbParOn > pwContinue ∧ s.gbParOn ≠ 0xFF then s.reply (.parK 0)
  else s

/-- The write of `UartRxPar`. -/
def writePar (gwRxAddr : BitVec 16) (gnRxData : BitVec 32) : ParState :=
  if s.gbParOn = 0xFF ∧ upStart < gwRxAddr.toNat ∧ gwRxAddr.toNat < cfg.upEnd then
    let t := Function.update s.gbUsrParTbl gwRxAddr.toNat ⟨gnRxData.setWidth 8⟩
    { s with gbUsrParTbl := cfg.usrParChgEndIdx gwRxAddr.toNat t }
  else s

/-- The reply of `UartRxPar`. -/
def readPar (gwRxAddr : BitVec 16) : ParState :=
  if s.gbParOn ≠ 0xFF then s.reply (.par 0xFFFF 0)
  else if gwRxAddr = 0xFFFF then s.reply (.par (BitVec.ofNat 16 cfg.upEnd) (s.gbUsrParTbl cfg.upEnd))
  else if gwRxAddr.toNat < cfg.usrParEa then s.reply (.par gwRxAddr (s.gbUsrParTbl gwRxAddr.toNat))
  else s.reply (.par gwRxAddr 0)

def inMicomPar (gwRxAddr : BitVec 16) : Prop :=
  baseMicomPar ≤ gwRxAddr.toNat ∧ gwRxAddr.toNat < baseMicomPar + 0x20

instance (gwRxAddr : BitVec 16) : Decidable (inMicomPar gwRxAddr) := inferInstanceAs (Decidable (_ ∧ _))

/-- The parameters in the register window. -/
def micomIdx (gwRxAddr : BitVec 16) : Nat := cfg.upPar00 + 4 * (gwRxAddr.toNat - baseMicomPar)

/-- `UartRxAddr(1)`: the write of the parameter window does not look at `gbParOn`. -/
def writeAddr (gwRxAddr : BitVec 16) (gnRxData : BitVec 32) : ParState :=
  if inMicomPar gwRxAddr then
    let nUpIdx := micomIdx cfg gwRxAddr
    { s with gbUsrParTbl := cfg.usrParChg nUpIdx (setByte s.gbUsrParTbl nUpIdx (hex2dec gnRxData)) }
  else s

def readAddr (gwRxAddr : BitVec 16) : ParState :=
  if inMicomPar gwRxAddr then s.reply (.reg gwRxAddr (dec2hex (getByte s.gbUsrParTbl (micomIdx cfg gwRxAddr))))
  else s

def exec : UartCmd → ParState
  | .uartRxAddr1 gwRxAddr gnRxData => (s.writeAddr cfg gwRxAddr gnRxData).readAddr cfg gwRxAddr
  | .uartRxAddr0 gwRxAddr => s.readAddr cfg gwRxAddr
  | .key gnRxData => { s with gbUKeyVal := ⟨gnRxData.setWidth 8⟩ }
  | .uartRxParK gnRxData => s.uartRxParK cfg gnRxData
  | .uartRxPar1 gwRxAddr gnRxData => (s.writePar cfg gwRxAddr gnRxData).readPar cfg gwRxAddr
  | .uartRxPar0 gwRxAddr => s.readPar cfg gwRxAddr
  | .uartTxParSave => { s with gbUsrParSaveChk := true }.reply .eepDone
  | .uartTxParRead => { s with gbUsrParReadChk := true }.reply .eepDone

/-- What an action of `Comm` does to the parameters. -/
def act : UartAct → ParState
  | .run c => s.exec cfg c
  | _ => s

end ParState

section keys

/-- The number of the wrong keys since the last right one. -/
def trail (keys : List (BitVec 32)) : Nat := (keys.rtakeWhile (· ≠ modelParID)).length

/-- Three wrong keys in a row. -/
def Locked (keys : List (BitVec 32)) : Prop :=
  ∃ ws, ws.length = 3 ∧ (∀ w ∈ ws, w ≠ modelParID) ∧ ws <:+: keys

theorem trail_snoc (keys : List (BitVec 32)) (key : BitVec 32) :
    trail (keys ++ [key]) = if key = modelParID then 0 else trail keys + 1 := by
  unfold trail
  rw [List.rtakeWhile_concat]
  by_cases h : key = modelParID
  · rw [if_pos h, if_neg (by rw [h]; decide), List.length_nil]
  · rw [if_neg h, if_pos (decide_eq_true h), List.length_append, List.length_singleton]

theorem trail_suffix {keys : List (BitVec 32)} : 3 ≤ trail keys ↔
    ∃ ws, ws.length = 3 ∧ (∀ w ∈ ws, w ≠ modelParID) ∧ ws <:+ keys := by
  unfold trail
  constructor
  · intro le
    refine ⟨(keys.rtakeWhile (· ≠ modelParID)).rtake 3, ?_, fun w hw => ?_, ?_⟩
    · rw [List.rtake, List.length_drop]
      omega
    · have mem : w ∈ keys.rtakeWhile (· ≠ modelParID) := List.mem_of_mem_drop hw
      exact of_decide_eq_true (List.mem_rtakeWhile_imp (p := fun key => decide (key ≠ modelParID)) mem)
    · exact (List.drop_suffix _ _).trans (List.rtakeWhile_suffix _ _)
  · rintro ⟨ws, len, wrong, before, rfl⟩
    have all : ∀ w ∈ ws.reverse, decide (w ≠ modelParID) = true :=
      fun w hw => decide_eq_true (wrong w (List.mem_reverse.mp hw))
    rw [List.rtakeWhile, List.length_reverse, List.reverse_append, List.takeWhile_append_of_pos all,
      List.length_append, List.length_reverse, len]
    exact Nat.le_add_right _ _

theorem locked_snoc (keys : List (BitVec 32)) (key : BitVec 32) :
    Locked (keys ++ [key]) ↔ Locked keys ∨ 3 ≤ trail (keys ++ [key]) := by
  rw [trail_suffix]
  unfold Locked
  simp only [List.infix_concat_iff]
  constructor
  · rintro ⟨ws, len, wrong, h | h⟩
    · exact .inr ⟨ws, len, wrong, h⟩
    · exact .inl ⟨ws, len, wrong, h⟩
  · rintro (⟨ws, len, wrong, h⟩ | ⟨ws, len, wrong, h⟩)
    · exact ⟨ws, len, wrong, .inr h⟩
    · exact ⟨ws, len, wrong, .inl h⟩

theorem trail_right (keys : List (BitVec 32)) : trail (keys ++ [modelParID]) = 0 := by
  rw [trail_snoc, if_pos rfl]

theorem trail_wrong (keys : List (BitVec 32)) {key : BitVec 32} (h : key ≠ modelParID) :
    trail (keys ++ [key]) = trail keys + 1 := by
  rw [trail_snoc, if_neg h]

/-- `gbParOn` after the keys. -/
inductive Keyed (keys : List (BitVec 32)) : Nat → Prop
  | locked : Locked keys → Keyed keys 4
  | on : ¬ Locked keys → trail keys = 0 → keys.getLast? = some modelParID → Keyed keys 0xFF
  | off : ¬ Locked keys → trail keys ≤ 2 → Keyed keys (trail keys)

theorem keyed_right {keys : List (BitVec 32)} (unlocked : ¬ Locked keys) :
    Keyed (keys ++ [modelParID]) 0xFF := by
  refine .on ?_ (trail_right keys) List.getLast?_concat
  rw [locked_snoc, trail_right]
  exact not_or.mpr ⟨unlocked, by decide⟩

theorem keyed_wrong {keys : List (BitVec 32)} (unlocked : ¬ Locked keys) {key : BitVec 32}
    (wrong : key ≠ modelParID) (few : trail keys + 1 ≤ 2) : Keyed (keys ++ [key]) (trail keys + 1) := by
  rw [← trail_wrong keys wrong] at few ⊢
  refine .off ?_ few
  rw [locked_snoc]
  exact not_or.mpr ⟨unlocked, Nat.not_le_of_lt (Nat.lt_succ_of_le few)⟩

end keys

namespace ParState

variable (cfg : UsrParCfg) {s : ParState} {key : BitVec 32}

theorem parK_locked (h : s.gbParOn = 4) (key : BitVec 32) : (s.uartRxParK cfg key).gbParOn = 4 ∧
    (s.uartRxParK cfg key).gbUsrParTbl = s.gbUsrParTbl := by
  have check : s.checkKey key = s := by
    unfold checkKey
    rw [if_neg]
    rw [h]
    decide
  unfold uartRxParK
  simp only [check, h]
  exact ⟨h, rfl⟩

theorem parK_right (h : s.gbParOn < pwContinue ∨ s.gbParOn = 0xFF) : (s.uartRxParK cfg modelParID).gbParOn = 0xFF ∧
    (s.uartRxParK cfg modelParID).gbUsrParTbl = s.gbUsrParTbl := by
  have check : s.checkKey modelParID = { s with gbParOn := 0xFF }.reply (.parK 1) := by
    unfold checkKey
    rw [if_pos h, if_pos rfl]
  unfold uartRxParK
  rw [check]
  exact ⟨rfl, rfl⟩

theorem parK_wrong (h : s.gbParOn < pwContinue ∨ s.gbParOn = 0xFF) (wrong : key ≠ modelParID) :
    let n := if s.gbParOn = 0xFF then 0 else s.gbParOn
    (n = 2 → (s.uartRxParK cfg key).gbParOn = 4) ∧
    (n ≠ 2 → (s.uartRxParK cfg key).gbParOn = n + 1 ∧
      (s.uartRxParK cfg key).gbUsrParTbl = s.gbUsrParTbl) := by
  intro n
  have le : n ≤ 2 := by
    simp only [n]
    split
    · exact Nat.zero_le _
    next off => exact Nat.le_of_lt_succ (h.resolve_right off)
  have check : s.checkKey key = { s with gbParOn := n + 1 }.reply (.parK 0) := by
    unfold checkKey
    rw [if_pos h, if_neg wrong]
  unfold uartRxParK
  rw [check]
  constructor
  · intro two
    rw [two]
    rfl
  · intro less
    have low : ¬ n + 1 = pwContinue := fun e => less (Nat.succ.inj e)
    have high : ¬ (n + 1 > pwContinue ∧ n + 1 ≠ 0xFF) := by
      unfold pwContinue
      omega
    simp only [reply, low, high, if_false]
    exact ⟨trivial, trivial⟩

theorem keyed_parK {keys : List (BitVec 32)} (h : Keyed keys s.gbParOn) (key : BitVec 32) :
    Keyed (keys ++ [key]) (s.uartRxParK cfg key).gbParOn ∧
    ((s.uartRxParK cfg key).gbUsrParTbl ≠ s.gbUsrParTbl →
      key ≠ modelParID ∧ ¬ Locked keys ∧ Locked (keys ++ [key])) := by
  generalize hn : s.gbParOn = n at h
  cases h with
  | locked lock =>
    obtain ⟨on, same⟩ := parK_locked cfg hn key
    rw [on]
    exact ⟨.locked ((locked_snoc keys key).mpr (.inl lock)), fun change => absurd same change⟩
  | on unlocked zero last =>
    by_cases right : key = modelParID
    · subst right
      obtain ⟨on, same⟩ := parK_right cfg (.inr hn)
      rw [on]
      exact ⟨keyed_right unlocked, fun change => absurd same change⟩
    · have wrong := (parK_wrong cfg (.inr hn) right).2
      rw [if_pos hn] at wrong
      obtain ⟨on, same⟩ := wrong (by decide)
      rw [on, ← zero]
      exact ⟨keyed_wrong unlocked right (by omega), fun change => absurd same change⟩
  | off unlocked few =>
    have low : s.gbParOn < pwContinue := hn ▸ Nat.lt_succ_of_le few
    by_cases right : key = modelParID
    · subst right
      obtain ⟨on, same⟩ := parK_right cfg (.inl low)
      rw [on]
      exact ⟨keyed_right unlocked, fun change => absurd same change⟩
    · have off : s.gbParOn ≠ 0xFF := by
        unfold pwContinue at low
        omega
      obtain ⟨third, wrong⟩ := parK_wrong cfg (.inl low) right
      rw [if_neg off, hn] at third wrong
      by_cases two : trail keys = 2
      · have lock : Locked (keys ++ [key]) := by
          rw [locked_snoc, trail_wrong keys right, two]
          exact .inr (Nat.le_refl _)
        rw [third two]
        exact ⟨.locked lock, fun _ => ⟨right, unlocked, lock⟩⟩
      · obtain ⟨on, same⟩ := wrong two
        rw [on]
        exact ⟨keyed_wrong unlocked right (by omega), fun change => absurd same change⟩

@[simp] theorem gbParOn_readAddr (s : ParState) (a : BitVec 16) : (s.readAddr cfg a).gbParOn = s.gbParOn := by
  unfold readAddr
  split <;> rfl

@[simp] theorem tbl_readAddr (s : ParState) (a : BitVec 16) :
    (s.readAddr cfg a).gbUsrParTbl = s.gbUsrParTbl := by
  unfold readAddr
  split <;> rfl

@[simp] theorem gbParOn_readPar (s : ParState) (a : BitVec 16) : (s.readPar cfg a).gbParOn = s.gbParOn := by
  unfold readPar
  split <;> [rfl; split <;> [rfl; split <;> rfl]]

@[simp] theorem tbl_readPar (s : ParState) (a : BitVec 16) :
    (s.readPar cfg a).gbUsrParTbl = s.gbUsrParTbl := by
  unfold readPar
  split <;> [rfl; split <;> [rfl; split <;> rfl]]

theorem writePar_spec (s : ParState) (a : BitVec 16) (d : BitVec 32) :
    (s.writePar cfg a d).gbParOn = s.gbParOn ∧
      ((s.writePar cfg a d).gbUsrParTbl ≠ s.gbUsrParTbl → s.gbParOn = 0xFF) := by
  unfold writePar
  split
  next h => exact ⟨rfl, fun _ => h.1⟩
  next => exact ⟨rfl, fun change => absurd rfl change⟩

theorem writeAddr_spec (s : ParState) (a : BitVec 16) (d : BitVec 32) :
    (s.writeAddr cfg a d).gbParOn = s.gbParOn ∧
      ((s.writeAddr cfg a d).gbUsrParTbl ≠ s.gbUsrParTbl → inMicomPar a) := by
  unfold writeAddr
  split
  next h => exact ⟨rfl, fun _ => h⟩
  next => exact ⟨rfl, fun change => absurd rfl change⟩

/-- Other frames than `PARK` change parameters when `gbParOn` allows it, or in the window that does
not look at it. -/
theorem exec_unkeyed (s : ParState) (c : UartCmd) (key : ∀ k, c ≠ .uartRxParK k) :
    (s.exec cfg c).gbParOn = s.gbParOn ∧
      ((s.exec cfg c).gbUsrParTbl ≠ s.gbUsrParTbl →
        s.gbParOn = 0xFF ∨ ∃ a d, c = .uartRxAddr1 a d ∧ inMicomPar a) := by
  cases c with
  | uartRxAddr1 a d =>
    obtain ⟨on, window⟩ := writeAddr_spec cfg s a d
    simp only [exec, gbParOn_readAddr, tbl_readAddr]
    exact ⟨on, fun change => .inr ⟨a, d, rfl, window change⟩⟩
  | uartRxAddr0 a =>
    simp only [exec, gbParOn_readAddr, tbl_readAddr]
    exact ⟨trivial, fun change => absurd rfl change⟩
  | uartRxParK k => exact absurd rfl (key k)
  | uartRxPar1 a d =>
    obtain ⟨on, guard⟩ := writePar_spec cfg s a d
    simp only [exec, gbParOn_readPar, tbl_readPar]
    exact ⟨on, fun change => .inl (guard change)⟩
  | uartRxPar0 a =>
    simp only [exec, gbParOn_readPar, tbl_readPar]
    exact ⟨trivial, fun change => absurd rfl change⟩
  | key d => exact ⟨rfl, fun change => absurd rfl change⟩
  | uartTxParSave => exact ⟨rfl, fun change => absurd rfl change⟩
  | uartTxParRead => exact ⟨rfl, fun change => absurd rfl change⟩

end ParState

/-- The keys of the `PARK` frames. -/
def parks (fs : List UartFrame) : List (BitVec 32) :=
  fs.filterMap fun
    | .park key => some key
    | _ => none

/-- The parameters after frames that `Comm` has handled, from a state in which it is idle. -/
def served (cfg : UsrParCfg) (ecm : Bool) (s : CommState) (p : ParState) (fs : List UartFrame) : ParState :=
  (CommState.comm ecm s (fs.flatMap UartFrame.bytes)).acts.foldl (ParState.act cfg) p

section served

variable {cfg : UsrParCfg} {ecm : Bool} {s : CommState} {p : ParState}

theorem comm_flatMap (hs : s.gbRxStg = 0) (fs : List UartFrame) :
    (CommState.comm ecm s (fs.flatMap UartFrame.bytes)).gbRxStg = 0 ∧
      (CommState.comm ecm s (fs.flatMap UartFrame.bytes)).acts = s.acts ++ fs.map (fun f => .run f.call) := by
  induction fs generalizing s with
  | nil => exact ⟨hs, (List.append_nil _).symm⟩
  | cons f fs ih =>
    rw [List.flatMap_cons, CommState.comm_append, CommState.comm_frame hs f]
    obtain ⟨idle, acts⟩ := ih (s := { s with
      gbRxStg := 0, gwRxAddr := 0, gnRxData := 0, acts := s.acts ++ [.run f.call] }) rfl
    refine ⟨idle, ?_⟩
    rw [acts, List.append_assoc]
    rfl

theorem served_snoc (hs : s.gbRxStg = 0) (fs : List UartFrame) (f : UartFrame) :
    served cfg ecm s p (fs ++ [f]) = (served cfg ecm s p fs).exec cfg f.call := by
  unfold served
  rw [(comm_flatMap hs _).2, (comm_flatMap hs fs).2, List.map_append, ← List.append_assoc, List.foldl_append]
  rfl

theorem parks_snoc (fs : List UartFrame) (f : UartFrame) : parks (fs ++ [f]) =
    parks fs ++ parks [f] := List.filterMap_append

/-- No frame writes the register window of the parameters unless a key has opened them. -/
def Guarded (cfg : UsrParCfg) (ecm : Bool) (s : CommState) (p : ParState) (fs : List UartFrame) : Prop :=
  ∀ before addr data, before ++ [.regw addr data] <+: fs → ParState.inMicomPar addr →
    (served cfg ecm s p before).gbParOn = 0xFF

theorem park_or_not (f : UartFrame) :
    (∃ key, f = .park key) ∨ (∀ k, f.call ≠ .uartRxParK k) ∧ parks [f] = [] := by
  cases f with
  | park key => exact .inl ⟨key, rfl⟩
  | regw | regr | key | parw | parr | eepw | eepr => exact .inr ⟨nofun, rfl⟩

variable (cfg ecm) in
/-- The keys decide about `gbParOn`, whatever else is sent. -/
theorem keyed_served (hs : s.gbRxStg = 0) (ha : s.acts = []) (hp : p.gbParOn = 0) (fs : List UartFrame) :
    Keyed (parks fs) (served cfg ecm s p fs).gbParOn := by
  induction fs using List.reverseRecOn with
  | nil =>
    have start : served cfg ecm s p [] = p := by
      change s.acts.foldl (ParState.act cfg) p = p
      rw [ha]
      rfl
    have unlocked : ¬ Locked [] := by
      rintro ⟨ws, len, _, h⟩
      rw [List.infix_nil.mp h] at len
      cases len
    rw [start, hp]
    exact .off unlocked (Nat.zero_le _)
  | append_singleton fs f ih =>
    rw [served_snoc hs, parks_snoc]
    rcases park_or_not f with ⟨key, rfl⟩ | ⟨other, none⟩
    · exact (ParState.keyed_parK cfg ih key).1
    · rw [none, List.append_nil, (ParState.exec_unkeyed cfg _ _ other).1]
      exact ih

theorem Keyed.opened {keys : List (BitVec 32)} {n : Nat} (h : Keyed keys n) (on : n = 0xFF) :
    keys.getLast? = some modelParID ∧ ¬ Locked keys := by
  cases h with
  | locked => cases on
  | on unlocked _ last => exact ⟨last, unlocked⟩
  | off _ few => omega

theorem Locked.append {keys : List (BitVec 32)} (h : Locked keys) (more : List (BitVec 32)) :
    Locked (keys ++ more) := by
  obtain ⟨ws, len, wrong, infix_⟩ := h
  exact ⟨ws, len, wrong, infix_.trans (List.prefix_append _ _).isInfix⟩

/-- What the parameters were opened by, or the third wrong key. -/
def Permitted (cfg : UsrParCfg) (ecm : Bool) (s : CommState) (p : ParState) (fs : List UartFrame)
    (f : UartFrame) : Prop :=
  ((parks fs).getLast? = some modelParID ∧ (served cfg ecm s p fs).gbParOn = 0xFF ∧ ¬ Locked (parks fs)) ∨
    ∃ key, f = .park key ∧ key ≠ modelParID ∧ ¬ Locked (parks fs) ∧ Locked (parks fs ++ [key])

theorem permitted (hs : s.gbRxStg = 0) (ha : s.acts = []) (hp : p.gbParOn = 0) {fs : List UartFrame}
    {f : UartFrame} (guard : ∀ addr data, f = .regw addr data → ParState.inMicomPar addr →
      (served cfg ecm s p fs).gbParOn = 0xFF)
    (change : (served cfg ecm s p (fs ++ [f])).gbUsrParTbl ≠ (served cfg ecm s p fs).gbUsrParTbl) :
    Permitted cfg ecm s p fs f := by
  have keyed := keyed_served cfg ecm hs ha hp fs
  rw [served_snoc hs] at change
  rcases park_or_not f with ⟨key, rfl⟩ | ⟨other, _⟩
  · obtain ⟨wrong, unlocked, lock⟩ := (ParState.keyed_parK cfg keyed key).2 change
    exact .inr ⟨key, rfl, wrong, unlocked, lock⟩
  · have on : (served cfg ecm s p fs).gbParOn = 0xFF := by
      rcases (ParState.exec_unkeyed cfg _ _ other).2 change with on | ⟨a, d, call, window⟩
      · exact on
      · cases f with
        | regw addr data =>
          cases call
          exact guard a d rfl window
        | regr | key | park | parw | parr | eepw | eepr => cases call
    obtain ⟨last, unlocked⟩ := keyed.opened on
    exact .inl ⟨last, on, unlocked⟩

/-- In every sequence of frames in which none writes the register window of the parameters while
`gbParOn` is not `0xFF`: parameters are changed after the right key only, but for the invalidation by
the third wrong key in a row, and never after that. -/
theorem user_par_guard (cfg : UsrParCfg) (ecm : Bool) (s : CommState) (p : ParState) (fs : List UartFrame)
    (hs : s.gbRxStg = 0) (ha : s.acts = []) (hp : p.gbParOn = 0) (guarded : Guarded cfg ecm s p fs) :
    (∀ before f, before ++ [f] <+: fs →
      (served cfg ecm s p (before ++ [f])).gbUsrParTbl ≠ (served cfg ecm s p before).gbUsrParTbl →
      Permitted cfg ecm s p before f) ∧
    ∀ before, before <+: fs → Locked (parks before) →
      (served cfg ecm s p fs).gbUsrParTbl = (served cfg ecm s p before).gbUsrParTbl := by
  have step : ∀ before f, before ++ [f] <+: fs →
      (served cfg ecm s p (before ++ [f])).gbUsrParTbl ≠ (served cfg ecm s p before).gbUsrParTbl →
      Permitted cfg ecm s p before f := by
    rintro before f run change
    exact permitted hs ha hp (fun addr data e window => guarded before addr data (e ▸ run) window) change
  refine ⟨step, ?_⟩
  rintro before ⟨rest, rfl⟩ lock
  -- the run goes on from `before`, and no frame of it is permitted to change anything
  suffices all : ∀ more, more <+: rest →
      (served cfg ecm s p (before ++ more)).gbUsrParTbl = (served cfg ecm s p before).gbUsrParTbl from
    all rest List.prefix_rfl
  intro more run
  induction more using List.reverseRecOn with
  | nil => rw [List.append_nil]
  | append_singleton more f ih =>
    rw [← ih ((List.prefix_append _ _).trans run), ← List.append_assoc]
    by_contra change
    have still : Locked (parks (before ++ more)) := by
      unfold parks
      rw [List.filterMap_append]
      exact lock.append _
    have here : before ++ more ++ [f] <+: before ++ rest := by
      rw [List.append_assoc]
      exact List.prefix_append_right_inj before |>.mpr run
    rcases step _ f here change with ⟨_, _, unlocked⟩ | ⟨_, _, _, unlocked, _⟩
    · exact unlocked still
    · exact unlocked still

section sample

def sampleCfg : UsrParCfg := ⟨400, 500, 16, 0x1234, fun _ t => t, fun _ t => t⟩

def idle : CommState := ⟨0, 0, 0, ⟨0, 0, 3, fun _ _ => 0⟩, []⟩

def locked : ParState := ⟨0, fun _ => 0, false, false, 0, []⟩

/-- The first parameter of the window is written right after reset. -/
theorem user_par_written : ¬ ∀ (cfg : UsrParCfg) (ecm : Bool) (s : CommState) (p : ParState)
    (fs : List UartFrame) (f : UartFrame), s.gbRxStg = 0 → s.acts = [] → p.gbParOn = 0 →
    (served cfg ecm s p (fs ++ [f])).gbUsrParTbl ≠ (served cfg ecm s p fs).gbUsrParTbl →
    Permitted cfg ecm s p fs f := by
  intro all
  have change : (served sampleCfg false idle locked ([] ++ [.regw 0x8000 1])).gbUsrParTbl ≠
      (served sampleCfg false idle locked []).gbUsrParTbl := by
    intro same
    have byte := congrFun same 16
    revert byte
    decide +kernel
  rcases all sampleCfg false idle locked [] (.regw 0x8000 1) rfl rfl rfl change with ⟨last, _⟩ | ⟨_, h, _⟩
  · cases last
  · cases h

theorem user_par_guard_key : ∃ before f, Permitted sampleCfg false idle locked before f ∧
    (served sampleCfg false idle locked (before ++ [f])).gbUsrParTbl 20 = 7 := by
  have guarded : Guarded sampleCfg false idle locked [.park modelParID, .parw 20 7] := by
    rintro before addr data ⟨more, h⟩ _
    have mem : UartFrame.regw addr data ∈ [UartFrame.park modelParID, .parw 20 7] :=
      h ▸ List.mem_append_left _ (List.mem_append_right _ (List.mem_singleton_self _))
    simp only [List.mem_cons, List.not_mem_nil, reduceCtorEq, or_self] at mem
  refine ⟨[.park modelParID], .parw 20 7, ?_, by decide +kernel⟩
  refine (user_par_guard sampleCfg false idle locked [.park modelParID, .parw 20 7] rfl rfl rfl guarded).1
    [.park modelParID] (.parw 20 7) List.prefix_rfl fun same => ?_
  have byte := congrFun same 20
  revert byte
  decide +kernel

end sample

end served

end En675.Uart
