import En675.Lib.Ring

/-! The serial protocol of `Comm` (`uart_string.c`, `dev_device.h`), one byte a step. -/

namespace En675.Uart

open Lib

def pcStx : UInt8 := 0x02
def pcEtx : UInt8 := 0x03

/-- The commands that have a `SetCase`. -/
inductive PcCmd where
  | regw
  | regr
  | key
  | park
  | parw
  | parr
  | eepw
  | eepr
  deriving DecidableEq

inductive RxVal where
  | gwRxAddr
  | gnRxData
  deriving DecidableEq

structure RxArg where
  val : RxVal
  bytes : Nat
  deriving DecidableEq

inductive CaseLabel where
  | arg (a : RxArg)
  | etx
  deriving DecidableEq

namespace PcCmd

def all : List PcCmd := [.regw, .regr, .key, .park, .parw, .parr, .eepw, .eepr]

/-- The `PC_CMD_` codes. -/
def code : PcCmd → UInt8
  | .regw => 0x10
  | .regr => 0x20
  | .key => 0x30
  | .parw => 0x50
  | .parr => 0x58
  | .eepw => 0x60
  | .eepr => 0x61
  | .park => 0x68

def args : PcCmd → List RxArg
  | .regw => [⟨.gwRxAddr, 2⟩, ⟨.gnRxData, 4⟩]
  | .regr => [⟨.gwRxAddr, 2⟩]
  | .key => [⟨.gnRxData, 1⟩]
  | .park => [⟨.gnRxData, 4⟩]
  | .parw => [⟨.gwRxAddr, 2⟩, ⟨.gnRxData, 1⟩]
  | .parr => [⟨.gwRxAddr, 2⟩]
  | .eepw => []
  | .eepr => []

/-- The labels of `SetCase`, from the command code on. -/
def labels (c : PcCmd) : List CaseLabel :=
  c.args.flatMap (fun a => List.replicate a.bytes (.arg a)) ++ [.etx]

def len (c : PcCmd) : Nat := c.labels.length - 1

end PcCmd

/-- The codes without a case of their own; `PC_CMD_STR` has one with `__ECM_STRING__`. -/
def pcCmdAwbi : UInt8 := 0xaa
def pcCmdStr : UInt8 := 0xb0
def pcCmdIni : UInt8 := 0xe0
def pcCmdAck : UInt8 := 0xf0
def pcCmdDown : UInt8 := 0xf8

def unhandled : List UInt8 := [pcCmdAwbi, pcCmdIni, pcCmdAck, pcCmdDown, pcCmdStr]

def commands : List UInt8 := PcCmd.all.map PcCmd.code ++ unhandled

/-- The labels that the `SetCase` macros expand to. -/
def setCases : List (UInt8 × PcCmd × CaseLabel) :=
  PcCmd.all.flatMap fun c => c.labels.mapIdx fun k l => (c.code + UInt8.ofNat k, c, l)

def switchCase (gbRxStg : UInt8) : Option (PcCmd × CaseLabel) := setCases.lookup gbRxStg

/-- What `Comm` calls, with the globals that the callee reads; the digit is `aiWrite`. -/
inductive UartCmd where
  | uartRxAddr1 (gwRxAddr : BitVec 16) (gnRxData : BitVec 32)
  | uartRxAddr0 (gwRxAddr : BitVec 16)
  | key (gnRxData : BitVec 32)
  | uartRxParK (gnRxData : BitVec 32)
  | uartRxPar1 (gwRxAddr : BitVec 16) (gnRxData : BitVec 32)
  | uartRxPar0 (gwRxAddr : BitVec 16)
  | uartTxParSave
  | uartTxParRead
  deriving DecidableEq

inductive UartAct where
  | run (c : UartCmd)
  | uartTxErr
  | overIn (bIn : UInt8)
  | shellRx
  deriving DecidableEq

/-- `gptMsgShell`, the lines of the console. -/
structure ShellMsg where
  tail : Nat
  index : Nat
  totNum : Nat
  arg : Nat → Nat → UInt8

def msgShellMaxlen : Nat := 63

structure CommState where
  gbRxStg : UInt8
  gwRxAddr : BitVec 16
  gnRxData : BitVec 32
  gptMsgShell : ShellMsg
  acts : List UartAct

/-- Nothing assigns it. -/
def gnI2cOn : Nat := 0

namespace CommState

variable (s : CommState) (bIn : UInt8)

def stage (gbRxStg : UInt8) : CommState := { s with gbRxStg }

def setEnd : CommState := { s with gbRxStg := 0, gwRxAddr := 0, gnRxData := 0 }

def errProc : CommState := { s with acts := s.acts ++ [.uartTxErr], gbRxStg := 0 }

/-- `Case1` assigns the byte, `Case2` and `Case4` shift it in. -/
def store (a : RxArg) : CommState :=
  match a.val, a.bytes with
  | .gwRxAddr, 1 => { s with gwRxAddr := bIn.toBitVec.setWidth 16, gbRxStg := s.gbRxStg + 1 }
  | .gnRxData, 1 => { s with gnRxData := bIn.toBitVec.setWidth 32, gbRxStg := s.gbRxStg + 1 }
  | .gwRxAddr, _ =>
    { s with gwRxAddr := (s.gwRxAddr <<< 8) ||| bIn.toBitVec.setWidth 16, gbRxStg := s.gbRxStg + 1 }
  | .gnRxData, _ =>
    { s with gnRxData := (s.gnRxData <<< 8) ||| bIn.toBitVec.setWidth 32, gbRxStg := s.gbRxStg + 1 }

/-- The code of a command at its `PC_ETX`. -/
def exec : PcCmd → List UartCmd
  | .regw => if gnI2cOn = 0 then [.uartRxAddr1 s.gwRxAddr s.gnRxData] else []
  | .regr => [.uartRxAddr0 s.gwRxAddr]
  | .key => [.key s.gnRxData]
  | .park => if gnI2cOn = 0 then [.uartRxParK s.gnRxData] else []
  | .parw => if gnI2cOn = 0 then [.uartRxPar1 s.gwRxAddr s.gnRxData] else []
  | .parr => [.uartRxPar0 s.gwRxAddr]
  | .eepw => [.uartTxParSave]
  | .eepr => [.uartTxParRead]

/-- The case of `PC_CMD_STR` with `__ECM_STRING__`. -/
def shell : CommState :=
  let m := s.gptMsgShell
  if m.index ≠ 0 ∧ bIn = pcEtx then
    { s.setEnd with
      gptMsgShell := { m with index := 0, tail := RingQueue.next m.totNum m.tail }
      acts := s.acts ++ [.shellRx] }
  else if m.index = msgShellMaxlen then
    { s with
      gptMsgShell := { m with arg := Function.update m.arg m.tail (Function.update (m.arg m.tail) 0 (m.arg m.tail 0 - 1)) }
      acts := s.acts ++ [.overIn bIn] }
  else
    { s with
      gptMsgShell := { m with
        arg := Function.update m.arg m.tail (Function.update (m.arg m.tail) m.index bIn)
        index := m.index + 1 } }

/-- One byte of `Comm`; `ecm` is `__ECM_STRING__`. -/
def commByte (ecm : Bool) : CommState :=
  if s.gbRxStg = 0 then
    if bIn = pcStx then s.stage (s.gbRxStg + 1) else s
  else if s.gbRxStg = 1 then
    if bIn ∈ commands then s.stage bIn else s.errProc
  else
    match switchCase s.gbRxStg with
    | some (_, .arg a) => s.store bIn a
    | some (c, .etx) =>
      if bIn = pcEtx then { s with acts := s.acts ++ (s.exec c).map UartAct.run }.setEnd else s.errProc
    | none => if ecm ∧ s.gbRxStg = pcCmdStr then s.shell bIn else s.errProc

/-- `Comm` on the bytes that it finds in the queue. -/
def comm (ecm : Bool) (s : CommState) (bytes : List UInt8) : CommState :=
  bytes.foldl (fun s bIn => s.commByte bIn ecm) s

end CommState

/-- The frames, with the values of their bytes. -/
inductive UartFrame where
  | regw (addr : BitVec 16) (data : BitVec 32)
  | regr (addr : BitVec 16)
  | key (data : BitVec 8)
  | park (data : BitVec 32)
  | parw (addr : BitVec 16) (data : BitVec 8)
  | parr (addr : BitVec 16)
  | eepw
  | eepr

def bigEndian2 (x : BitVec 16) : List UInt8 := [⟨x.extractLsb' 8 8⟩, ⟨x.extractLsb' 0 8⟩]

def bigEndian4 (x : BitVec 32) : List UInt8 :=
  [⟨x.extractLsb' 24 8⟩, ⟨x.extractLsb' 16 8⟩, ⟨x.extractLsb' 8 8⟩, ⟨x.extractLsb' 0 8⟩]

namespace UartFrame

def cmd : UartFrame → PcCmd
  | .regw _ _ => .regw
  | .regr _ => .regr
  | .key _ => .key
  | .park _ => .park
  | .parw _ _ => .parw
  | .parr _ => .parr
  | .eepw => .eepw
  | .eepr => .eepr

def args : UartFrame → List UInt8
  | .regw addr data => bigEndian2 addr ++ bigEndian4 data
  | .regr addr => bigEndian2 addr
  | .key data => [⟨data⟩]
  | .park data => bigEndian4 data
  | .parw addr data => bigEndian2 addr ++ [⟨data⟩]
  | .parr addr => bigEndian2 addr
  | .eepw => []
  | .eepr => []

def bytes (f : UartFrame) : List UInt8 := pcStx :: f.cmd.code :: f.args ++ [pcEtx]

/-- The call that the frame stands for. -/
def call : UartFrame → UartCmd
  | .regw addr data => .uartRxAddr1 addr data
  | .regr addr => .uartRxAddr0 addr
  | .key data => .key (data.setWidth 32)
  | .park data => .uartRxParK data
  | .parw addr data => .uartRxPar1 addr (data.setWidth 32)
  | .parr addr => .uartRxPar0 addr
  | .eepw => .uartTxParSave
  | .eepr => .uartTxParRead

end UartFrame

end En675.Uart
