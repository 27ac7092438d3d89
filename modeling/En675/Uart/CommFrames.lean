import Mathlib.Data.List.Induction
import Mathlib.Data.List.Nodup
import En675.Uart.Comm

/-! What `Comm` makes of a byte stream: the frames in it are executed, and nothing else is. -/

namespace En675.Uart

open Lib

section bits

theorem shift2 (v x : BitVec 16) :
    ((v <<< 8 ||| (x.extractLsb' 8 8).setWidth 16) <<< 8) ||| (x.extractLsb' 0 8).setWidth 16 = x := by
  ext i hi
  simp only [BitVec.getElem_or, BitVec.getElem_shiftLeft, BitVec.getElem_setWidth, BitVec.getLsbD_extractLsb']
  by_cases low : i < 8
  · simp [low, BitVec.getLsbD_eq_getElem, hi]
  · have high : i - 8 < 8 := by omega
    have at_ : 8 + (i - 8) = i := by omega
    simp [low, high, at_, BitVec.getLsbD_eq_getElem, hi]

theorem shift4 (v x : BitVec 32) :
    ((((v <<< 8 ||| (x.extractLsb' 24 8).setWidth 32) <<< 8 ||| (x.extractLsb' 16 8).setWidth 32) <<< 8
      ||| (x.extractLsb' 8 8).setWidth 32) <<< 8) ||| (x.extractLsb' 0 8).setWidth 32 = x := by
  ext i hi
  simp only [BitVec.getElem_or, BitVec.getElem_shiftLeft, BitVec.getElem_setWidth, BitVec.getLsbD_extractLsb']
  by_cases b0 : i < 8
  · simp [b0, BitVec.getLsbD_eq_getElem, hi]
  · by_cases b1 : i < 16
    · have n : i - 8 < 8 := by omega
      have at_ : 8 + (i - 8) = i := by omega
      simp [b0, n, at_, BitVec.getLsbD_eq_getElem, hi]
    · by_cases b2 : i < 24
      · have n : ¬ i - 8 < 8 := by omega
        have m : i - 8 - 8 < 8 := by omega
        have at_ : 16 + (i - 8 - 8) = i := by omega
        simp [b0, n, m, at_, BitVec.getLsbD_eq_getElem, hi]
      · have n : ¬ i - 8 < 8 := by omega
        have m : ¬ i - 8 - 8 < 8 := by omega
        have l : i - 8 - 8 - 8 < 8 := by omega
        have at_ : 24 + (i - 8 - 8 - 8) = i := by omega
        simp [b0, n, m, l, at_, BitVec.getLsbD_eq_getElem, hi]

theorem bigEndian2_append (a b : UInt8) : bigEndian2 (a.toBitVec ++ b.toBitVec) = [a, b] := by
  have high : (a.toBitVec ++ b.toBitVec).extractLsb' 8 8 = a.toBitVec := BitVec.extractLsb'_append_eq_left
  have low : (a.toBitVec ++ b.toBitVec).extractLsb' 0 8 = b.toBitVec := BitVec.extractLsb'_append_eq_right
  rw [bigEndian2, high, low]

theorem bigEndian4_append (a b c d : UInt8) :
    bigEndian4 (a.toBitVec ++ b.toBitVec ++ c.toBitVec ++ d.toBitVec) = [a, b, c, d] := by
  have above : ∀ {v : Nat} (x : BitVec v) (y : UInt8) (k : Nat), 8 ≤ k →
      (x ++ y.toBitVec).extractLsb' k 8 = x.extractLsb' (k - 8) 8 :=
    fun _ _ _ h => BitVec.extractLsb'_append_eq_of_le h
  have first : (a.toBitVec ++ b.toBitVec).extractLsb' 8 8 = a.toBitVec := BitVec.extractLsb'_append_eq_left
  have last : ∀ {v : Nat} (x : BitVec v) (y : UInt8), (x ++ y.toBitVec).extractLsb' 0 8 = y.toBitVec :=
    fun _ _ => BitVec.extractLsb'_append_eq_right
  rw [bigEndian4, above _ d 24 (by decide), above _ c 16 (by decide), first, above _ d 16 (by decide),
    above _ c 8 (by decide), last, above _ d 8 (by decide), last, last]

end bits

theorem switchCase_labels : ∀ c ∈ PcCmd.all, ∀ k < c.labels.length,
    switchCase (c.code + UInt8.ofNat k) = (c.labels[k]?).map (c, ·) := by decide

theorem stages_active : ∀ c ∈ PcCmd.all, ∀ k < c.labels.length,
    c.code + UInt8.ofNat k ≠ 0 ∧ c.code + UInt8.ofNat k ≠ 1 := by decide

theorem PcCmd.mem_all (c : PcCmd) : c ∈ all := by
  cases c <;> decide

theorem PcCmd.mem_commands (c : PcCmd) : c.code ∈ commands :=
  List.mem_append_left _ (List.mem_map_of_mem c.mem_all)

theorem switchCase_label {c : PcCmd} {k : Nat} {l : CaseLabel} (h : c.labels[k]? = some l) :
    switchCase (c.code + UInt8.ofNat k) = some (c, l) ∧
      c.code + UInt8.ofNat k ≠ 0 ∧ c.code + UInt8.ofNat k ≠ 1 := by
  have lt : k < c.labels.length := (List.getElem?_eq_some_iff.mp h).1
  refine ⟨?_, stages_active c c.mem_all k lt⟩
  rw [switchCase_labels c c.mem_all k lt, h]
  rfl

namespace CommState

variable {ecm : Bool} {s : CommState} {c : PcCmd} {k : Nat}

@[simp] theorem gbRxStg_store (s : CommState) (bIn : UInt8) (a : RxArg) :
    (s.store bIn a).gbRxStg = s.gbRxStg + 1 := by
  unfold store
  split <;> rfl

@[simp] theorem acts_store (s : CommState) (bIn : UInt8) (a : RxArg) : (s.store bIn a).acts = s.acts := by
  unfold store
  split <;> rfl

theorem commByte_arg (hs : s.gbRxStg = c.code + UInt8.ofNat k) {a : RxArg} (h : c.labels[k]? = some (.arg a))
    (bIn : UInt8) : s.commByte bIn ecm = s.store bIn a := by
  obtain ⟨label, zero, one⟩ := switchCase_label h
  rw [commByte, hs, if_neg zero, if_neg one, label]

theorem commByte_etx (hs : s.gbRxStg = c.code + UInt8.ofNat k) (h : c.labels[k]? = some .etx) (bIn : UInt8) :
    s.commByte bIn ecm =
      if bIn = pcEtx then { s with acts := s.acts ++ (s.exec c).map UartAct.run }.setEnd else s.errProc := by
  obtain ⟨label, zero, one⟩ := switchCase_label h
  rw [commByte, hs, if_neg zero, if_neg one, label]

/-- The bytes of the arguments, from the labels on. -/
def fill : List CaseLabel → List UInt8 → CommState → CommState
  | .arg a :: ls, b :: bs, s => fill ls bs (s.store b a)
  | _, _, s => s

theorem labels_args (h : k < c.len) : ∃ a, c.labels[k]? = some (.arg a) := by
  have args : ∀ c ∈ PcCmd.all, ∀ k < c.len, ∃ a ∈ c.args, c.labels[k]? = some (.arg a) := by decide
  obtain ⟨a, _, ha⟩ := args c c.mem_all k h
  exact ⟨a, ha⟩

theorem labels_len (c : PcCmd) : c.labels[c.len]? = some .etx := by
  cases c <;> rfl

theorem comm_args (bs : List UInt8) (hk : k + bs.length ≤ c.len) (hs : s.gbRxStg = c.code + UInt8.ofNat k) :
    comm ecm s bs = fill (c.labels.drop k) bs s ∧
      (comm ecm s bs).gbRxStg = c.code + UInt8.ofNat (k + bs.length) ∧ (comm ecm s bs).acts = s.acts := by
  induction bs generalizing k s with
  | nil =>
    refine ⟨?_, hs, rfl⟩
    unfold fill
    split
    · contradiction
    · rfl
  | cons b bs ih =>
    rw [List.length_cons] at hk
    obtain ⟨a, ha⟩ := labels_args (show k < c.len by omega)
    have byte : s.commByte b ecm = s.store b a := commByte_arg hs ha b
    have next : (s.store b a).gbRxStg = c.code + UInt8.ofNat (k + 1) := by
      rw [gbRxStg_store, hs, UInt8.ofNat_add, ← UInt8.add_assoc]
      rfl
    obtain ⟨filled, stage, acts⟩ := ih (by omega) next
    have drop : c.labels.drop k = .arg a :: c.labels.drop (k + 1) := by
      obtain ⟨lt, get⟩ := List.getElem?_eq_some_iff.mp ha
      rw [List.drop_eq_getElem_cons lt, get]
    change comm ecm (s.commByte b ecm) bs = _ ∧ (comm ecm (s.commByte b ecm) bs).gbRxStg = _ ∧
      (comm ecm (s.commByte b ecm) bs).acts = _
    rw [byte, drop, fill, filled.symm]
    refine ⟨rfl, ?_, acts.trans (acts_store s b a)⟩
    rw [stage, List.length_cons, Nat.add_right_comm]
    rfl

theorem comm_append (ecm : Bool) (s : CommState) (bs bs' : List UInt8) :
    comm ecm s (bs ++ bs') = comm ecm (comm ecm s bs) bs' :=
  List.foldl_append

theorem comm_stx (hs : s.gbRxStg = 0) : s.commByte pcStx ecm = s.stage 1 := by
  rw [commByte, hs, if_pos rfl, if_pos rfl]
  rfl

theorem comm_command (hs : s.gbRxStg = 1) {b : UInt8} (h : b ∈ commands) : s.commByte b ecm = s.stage b := by
  rw [commByte, hs, if_neg (by decide), if_pos rfl, if_pos h]

variable (ecm) in
/-- A frame up to its last byte. -/
theorem comm_begun (hs : s.gbRxStg = 0) (c : PcCmd) (args : List UInt8) (len : args.length ≤ c.len) :
    comm ecm s (pcStx :: c.code :: args) = fill c.labels args (s.stage c.code) ∧
      (comm ecm s (pcStx :: c.code :: args)).gbRxStg = c.code + UInt8.ofNat args.length ∧
      (comm ecm s (pcStx :: c.code :: args)).acts = s.acts := by
  have start : comm ecm s (pcStx :: c.code :: args) = comm ecm (s.stage c.code) args := by
    change comm ecm ((s.commByte pcStx ecm).commByte c.code ecm) args = _
    rw [comm_stx hs, comm_command rfl c.mem_commands]
    rfl
  have stage : (s.stage c.code).gbRxStg = c.code + UInt8.ofNat 0 := (UInt8.add_zero _).symm
  rw [start]
  obtain ⟨filled, stage, acts⟩ := comm_args args (by omega) stage
  rw [List.drop_zero] at filled
  rw [Nat.zero_add] at stage
  exact ⟨filled, stage, acts⟩

/-- The last byte of a frame. -/
theorem comm_ended (hs : s.gbRxStg = 0) (c : PcCmd) (args : List UInt8) (len : args.length = c.len) (b : UInt8) :
    comm ecm s (pcStx :: c.code :: args ++ [b]) =
      let t := fill c.labels args (s.stage c.code)
      if b = pcEtx then { t with acts := s.acts ++ (t.exec c).map UartAct.run }.setEnd else t.errProc := by
  obtain ⟨filled, stage, acts⟩ := comm_begun ecm hs c args (Nat.le_of_eq len)
  rw [comm_append]
  rw [len] at stage
  change (comm ecm s (pcStx :: c.code :: args)).commByte b ecm = _
  rw [commByte_etx stage (labels_len c), acts, filled]

@[simp] theorem gptMsgShell_fill (ls : List CaseLabel) (bs : List UInt8) (s : CommState) :
    (fill ls bs s).gptMsgShell = s.gptMsgShell := by
  induction ls generalizing bs s with
  | nil =>
    cases bs <;> rfl
  | cons l ls ih =>
    cases l with
    | etx =>
      cases bs <;> rfl
    | arg a =>
      cases bs with
      | nil => rfl
      | cons b bs =>
        rw [fill, ih]
        unfold store
        split <;> rfl

theorem exec_fill (f : UartFrame) (s : CommState) : (fill f.cmd.labels f.args s).exec f.cmd = [f.call] := by
  cases f with
  | regw addr data =>
    exact congrArg₂ (fun a d => [UartCmd.uartRxAddr1 a d]) (shift2 s.gwRxAddr addr) (shift4 s.gnRxData data)
  | regr addr => exact congrArg (fun a => [UartCmd.uartRxAddr0 a]) (shift2 s.gwRxAddr addr)
  | key data => rfl
  | park data => exact congrArg (fun d => [UartCmd.uartRxParK d]) (shift4 s.gnRxData data)
  | parw addr data => exact congrArg (fun a => [UartCmd.uartRxPar1 a _]) (shift2 s.gwRxAddr addr)
  | parr addr => exact congrArg (fun a => [UartCmd.uartRxPar0 a]) (shift2 s.gwRxAddr addr)
  | eepw => rfl
  | eepr => rfl

theorem length_frame (f : UartFrame) : f.args.length = f.cmd.len := by
  cases f <;> rfl

theorem comm_frame (hs : s.gbRxStg = 0) (f : UartFrame) :
    comm ecm s f.bytes = { s with
      gbRxStg := 0, gwRxAddr := 0, gnRxData := 0, acts := s.acts ++ [.run f.call] } := by
  rw [UartFrame.bytes, comm_ended hs f.cmd f.args (length_frame f)]
  simp only [if_true, exec_fill, setEnd, gptMsgShell_fill]
  rfl

/-- The bytes since the parser was last idle, and its stage. -/
inductive Begun (ecm : Bool) : List UInt8 → UInt8 → Prop
  | idle : Begun ecm [] 0
  | started : Begun ecm [pcStx] 1
  | command (c : PcCmd) : args.length ≤ c.len →
      Begun ecm (pcStx :: c.code :: args) (c.code + UInt8.ofNat args.length)
  | unhandled : b ∈ unhandled → ¬ (ecm = true ∧ b = pcCmdStr) → Begun ecm [pcStx, b] b
  | string : ecm = true → Begun ecm (pcStx :: pcCmdStr :: text) pcCmdStr

theorem unhandled_stage : ∀ b ∈ unhandled, switchCase b = none ∧ b ≠ 0 ∧ b ≠ 1 := by decide +kernel

theorem commByte_unhandled {b : UInt8} (hs : s.gbRxStg = b) (h : b ∈ unhandled)
    (not_str : ¬ (ecm = true ∧ b = pcCmdStr)) (bIn : UInt8) : s.commByte bIn ecm = s.errProc := by
  obtain ⟨none, zero, one⟩ := unhandled_stage b h
  rw [commByte, hs, if_neg zero, if_neg one, none]
  exact if_neg not_str

theorem commByte_str (hs : s.gbRxStg = pcCmdStr) (h : ecm = true) (bIn : UInt8) :
    s.commByte bIn ecm = s.shell bIn := by
  obtain ⟨none, zero, one⟩ := unhandled_stage pcCmdStr (by decide)
  rw [commByte, hs, if_neg zero, if_neg one, none]
  exact if_pos ⟨h, rfl⟩

theorem commByte_wrong (hs : s.gbRxStg = 1) {b : UInt8} (h : b ∉ commands) : s.commByte b ecm = s.errProc := by
  rw [commByte, hs, if_neg (by decide), if_pos rfl, if_neg h]

theorem commByte_noise (hs : s.gbRxStg = 0) {b : UInt8} (h : b ≠ pcStx) : s.commByte b ecm = s := by
  rw [commByte, if_pos hs, if_neg h]

theorem shell_stage (s : CommState) (b : UInt8) : (s.shell b).gbRxStg = 0 ∨ (s.shell b).gbRxStg = s.gbRxStg := by
  unfold shell
  simp only
  split
  · exact .inl rfl
  · split
    · exact .inr rfl
    · exact .inr rfl

/-- What is begun goes on or is over. -/
theorem Begun.step {recent : List UInt8} (h : Begun ecm recent s.gbRxStg) (b : UInt8) :
    (s.commByte b ecm).gbRxStg = 0 ∨ Begun ecm (recent ++ [b]) (s.commByte b ecm).gbRxStg := by
  generalize hs : s.gbRxStg = stg at h
  cases h with
  | idle =>
    by_cases e : b = pcStx
    · rw [e, comm_stx hs]
      exact .inr .started
    · rw [commByte_noise hs e]
      exact .inl hs
  | started =>
    by_cases mem : b ∈ commands
    · rw [comm_command hs mem]
      right
      rcases List.mem_append.mp mem with known | other
      · obtain ⟨c, _, rfl⟩ := List.mem_map.mp known
        have begun : Begun ecm (pcStx :: c.code :: []) (c.code + UInt8.ofNat 0) := .command c (Nat.zero_le _)
        have zero : c.code + UInt8.ofNat 0 = c.code := UInt8.add_zero _
        rw [zero] at begun
        exact begun
      · by_cases str : ecm = true ∧ b = pcCmdStr
        · rw [str.2]
          exact .string str.1
        · exact .unhandled other str
    · rw [commByte_wrong hs mem]
      exact .inl rfl
  | @command args c len =>
    rcases Nat.lt_or_ge args.length c.len with more | full
    · obtain ⟨a, ha⟩ := labels_args more
      rw [commByte_arg hs ha b, gbRxStg_store, hs, UInt8.add_assoc]
      right
      have begun : Begun ecm (pcStx :: c.code :: (args ++ [b])) (c.code + UInt8.ofNat (args ++ [b]).length) :=
        .command c (by rw [List.length_append]; exact more)
      rw [List.length_append, UInt8.ofNat_add] at begun
      exact begun
    · have last : args.length = c.len := Nat.le_antisymm len full
      rw [last] at hs
      rw [commByte_etx hs (labels_len c)]
      left
      split
      · rfl
      · rfl
  | unhandled mem not_str =>
    rw [commByte_unhandled hs mem not_str]
    exact .inl rfl
  | string on =>
    rw [commByte_str hs on]
    rcases shell_stage s b with zero | same
    · exact .inl zero
    · right
      rw [same, hs]
      exact .string on

theorem comm_snoc (ecm : Bool) (s : CommState) (bs : List UInt8) (b : UInt8) :
    comm ecm s (bs ++ [b]) = (comm ecm s bs).commByte b ecm :=
  comm_append ecm s bs [b]

variable (ecm) in
/-- Every stream ends in what is begun since the parser was last idle. -/
theorem begun (hs : s.gbRxStg = 0) (bs : List UInt8) : ∃ before recent, bs = before ++ recent ∧
    (comm ecm s before).gbRxStg = 0 ∧ Begun ecm recent (comm ecm s bs).gbRxStg := by
  induction bs using List.reverseRecOn with
  | nil => exact ⟨[], [], rfl, hs, hs ▸ .idle⟩
  | append_singleton bs b ih =>
    obtain ⟨before, recent, rfl, idle, begun⟩ := ih
    rw [comm_snoc]
    rcases begun.step b with over_ | goes
    · refine ⟨before ++ recent ++ [b], [], (List.append_nil _).symm, ?_, over_ ▸ .idle⟩
      rw [comm_snoc]
      exact over_
    · exact ⟨before, recent ++ [b], List.append_assoc _ _ _, idle, goes⟩

theorem comm_chunks (ecm : Bool) (s : CommState) (chunks : List (List UInt8)) :
    chunks.foldl (comm ecm) s = comm ecm s chunks.flatten := by
  induction chunks generalizing s with
  | nil => rfl
  | cons bs chunks ih => rw [List.foldl_cons, ih, List.flatten_cons, comm_append]

/-- Bytes that complete a command are those of a frame. -/
theorem exists_frame (c : PcCmd) (args : List UInt8) (len : args.length = c.len) :
    ∃ f : UartFrame, f.cmd = c ∧ f.args = args := by
  cases c with
  | regw =>
    match args, len with
    | [a, b, d, e, f, g], _ =>
      refine ⟨.regw (a.toBitVec ++ b.toBitVec) (d.toBitVec ++ e.toBitVec ++ f.toBitVec ++ g.toBitVec), rfl, ?_⟩
      rw [UartFrame.args, bigEndian2_append, bigEndian4_append]
      rfl
  | regr =>
    match args, len with
    | [a, b], _ => exact ⟨.regr (a.toBitVec ++ b.toBitVec), rfl, bigEndian2_append a b⟩
  | key =>
    match args, len with
    | [a], _ => exact ⟨.key a.toBitVec, rfl, rfl⟩
  | park =>
    match args, len with
    | [d, e, f, g], _ =>
      exact ⟨.park (d.toBitVec ++ e.toBitVec ++ f.toBitVec ++ g.toBitVec), rfl, bigEndian4_append d e f g⟩
  | parw =>
    match args, len with
    | [a, b, d], _ =>
      refine ⟨.parw (a.toBitVec ++ b.toBitVec) d.toBitVec, rfl, ?_⟩
      rw [UartFrame.args, bigEndian2_append]
      rfl
  | parr =>
    match args, len with
    | [a, b], _ => exact ⟨.parr (a.toBitVec ++ b.toBitVec), rfl, bigEndian2_append a b⟩
  | eepw =>
    match args, len with
    | [], _ => exact ⟨.eepw, rfl, rfl⟩
  | eepr =>
    match args, len with
    | [], _ => exact ⟨.eepr, rfl, rfl⟩

theorem acts_ne {s t : CommState} {a a' : UartAct} (h : t.acts = s.acts ++ [a']) (ne : a' ≠ a) :
    t.acts ≠ s.acts ++ [a] := by
  rw [h]
  intro same
  exact ne (List.head_eq_of_cons_eq (List.append_cancel_left same))

theorem acts_same {s t : CommState} {a : UartAct} (h : t.acts = s.acts) : t.acts ≠ s.acts ++ [a] := by
  rw [h]
  exact fun same => List.cons_ne_nil a [] (List.append_right_eq_self.mp same.symm)

theorem shell_runs_nothing (s : CommState) (b : UInt8) (call : UartCmd) :
    (s.shell b).acts ≠ s.acts ++ [.run call] := by
  unfold shell
  simp only
  split
  · exact acts_ne rfl nofun
  · split
    · exact acts_ne rfl nofun
    · exact acts_same rfl

/-- A call is made by the last byte of a frame that began while the parser was idle. -/
theorem run_frame (hs : s.gbRxStg = 0) {bs : List UInt8} {b : UInt8} {call : UartCmd}
    (h : (comm ecm s (bs ++ [b])).acts = (comm ecm s bs).acts ++ [.run call]) :
    ∃ before f, bs ++ [b] = before ++ UartFrame.bytes f ∧ (comm ecm s before).gbRxStg = 0 ∧ call = f.call := by
  obtain ⟨before, recent, rfl, idle, begun⟩ := begun ecm hs bs
  rw [comm_snoc] at h
  generalize ht : comm ecm s (before ++ recent) = t at h begun
  generalize hstg : t.gbRxStg = stg at begun
  cases begun with
  | idle =>
    by_cases e : b = pcStx
    · rw [e, comm_stx hstg] at h
      exact absurd h (acts_same rfl)
    · rw [commByte_noise hstg e] at h
      exact absurd h (acts_same rfl)
  | started =>
    by_cases mem : b ∈ commands
    · rw [comm_command hstg mem] at h
      exact absurd h (acts_same rfl)
    · rw [commByte_wrong hstg mem] at h
      exact absurd h (acts_ne rfl nofun)
  | @command args c len =>
    rcases Nat.lt_or_ge args.length c.len with more | full
    · obtain ⟨a, ha⟩ := labels_args more
      rw [commByte_arg hstg ha b] at h
      exact absurd h (acts_same (acts_store t b a))
    · have last : args.length = c.len := Nat.le_antisymm len full
      obtain ⟨f, rfl, rfl⟩ := exists_frame c args last
      have filled := (comm_begun ecm idle f.cmd f.args len).1
      rw [← comm_append, ht] at filled
      rw [last] at hstg
      rw [commByte_etx hstg (labels_len f.cmd)] at h
      split at h
      next etx =>
        refine ⟨before, f, ?_, idle, ?_⟩
        · rw [etx, List.append_assoc]
          rfl
        · change t.acts ++ (t.exec f.cmd).map UartAct.run = _ at h
          rw [filled, exec_fill] at h
          have same := List.head_eq_of_cons_eq (List.append_cancel_left h)
          exact (UartAct.run.inj same).symm
      next => exact absurd h (acts_ne rfl nofun)
  | unhandled mem not_str =>
    rw [commByte_unhandled hstg mem not_str] at h
    exact absurd h (acts_ne rfl nofun)
  | string on =>
    rw [commByte_str hstg on] at h
    exact absurd h (shell_runs_nothing t b call)

/-- What the parser does from a state in which it is idle. -/
structure Parses (ecm : Bool) (t : CommState) : Prop where
  frame : ∀ (f : UartFrame) (chunks : List (List UInt8)), chunks.flatten = f.bytes →
    chunks.foldl (comm ecm) t = { t with
      gbRxStg := 0, gwRxAddr := 0, gnRxData := 0, acts := t.acts ++ [.run f.call] }
  noise : ∀ b ≠ pcStx, t.commByte b ecm = t
  wrong : ∀ b ∉ commands, (comm ecm t [pcStx, b]).gbRxStg = 0 ∧
    (comm ecm t [pcStx, b]).acts = t.acts ++ [.uartTxErr]
  unhandled : ∀ b ∈ unhandled, ¬ (ecm = true ∧ b = pcCmdStr) → ∀ b',
    (comm ecm t [pcStx, b, b']).gbRxStg = 0 ∧ (comm ecm t [pcStx, b, b']).acts = t.acts ++ [.uartTxErr]
  ending : ∀ (c : PcCmd) (args : List UInt8) (b : UInt8), args.length = c.len → b ≠ pcEtx →
    (comm ecm t (pcStx :: c.code :: args ++ [b])).gbRxStg = 0 ∧
      (comm ecm t (pcStx :: c.code :: args ++ [b])).acts = t.acts ++ [.uartTxErr]

theorem parses (ht : s.gbRxStg = 0) : Parses ecm s where
  frame f chunks h := by
    rw [comm_chunks, h]
    exact comm_frame ht f
  noise b h := commByte_noise ht h
  wrong b h := by
    have step : comm ecm s [pcStx, b] = (s.stage 1).errProc := by
      change (s.commByte pcStx ecm).commByte b ecm = _
      rw [comm_stx ht, commByte_wrong rfl h]
    rw [step]
    exact ⟨rfl, rfl⟩
  unhandled b h not_str b' := by
    have step : comm ecm s [pcStx, b, b'] = ((s.stage 1).stage b).errProc := by
      change ((s.commByte pcStx ecm).commByte b ecm).commByte b' ecm = _
      rw [comm_stx ht, comm_command rfl (List.mem_append_right _ h), commByte_unhandled rfl h not_str]
    rw [step]
    exact ⟨rfl, rfl⟩
  ending c args b len h := by
    have filled := comm_begun ecm ht c args (Nat.le_of_eq len)
    rw [comm_ended ht c args len b]
    simp only [if_neg h]
    exact ⟨rfl, congrArg (· ++ [UartAct.uartTxErr]) (filled.1 ▸ filled.2.2)⟩

/-- Whatever came before, in whatever chunks: the stage is that of what is begun, an idle parser
executes the next frame with its values and refuses what is none, and a call is made by a frame only. -/
theorem comm_frames (ecm : Bool) (s : CommState) (hs : s.gbRxStg = 0) (chunks : List (List UInt8)) :
    let t := chunks.foldl (comm ecm) s
    (∃ before recent, chunks.flatten = before ++ recent ∧ (comm ecm s before).gbRxStg = 0 ∧
      Begun ecm recent t.gbRxStg) ∧
    (t.gbRxStg = 0 → Parses ecm t) ∧
    ∀ b call, (t.commByte b ecm).acts = t.acts ++ [.run call] →
      ∃ before f, chunks.flatten ++ [b] = before ++ UartFrame.bytes f ∧
        (comm ecm s before).gbRxStg = 0 ∧ call = f.call := by
  simp only [comm_chunks]
  refine ⟨begun _ hs _, parses, fun b call h => ?_⟩
  rw [← comm_snoc] at h
  exact run_frame hs h

theorem comm_frames_regw :
    Parses false ([[0x02, 0x10, 0x80], [0x00, 1, 2, 3, 4, 0x03]].foldl (comm false)
      ⟨0, 7, 9, ⟨0, 0, 3, fun _ _ => 0⟩, []⟩) :=
  (comm_frames false ⟨0, 7, 9, ⟨0, 0, 3, fun _ _ => 0⟩, []⟩ rfl _).2.1 (by decide)

end CommState

end En675.Uart
