import En675.Lib.Bytes
import En675.Lib.CString

/-! The settings a web page sends (`App_EN675CGIHandler`, `cgissi_en675.c`), with the options this
build leaves in: the setters work on the bytes of gtUser, gtNetwork and gtSystem.  A C string is
the list of its octets without the NUL; `ipaddr_addr` is a parameter. -/

namespace En675.Http

open Lib

/-- A string as a pointer to it shows it. -/
abbrev CStr := { s : List UInt8 // 0 ∉ s }

def userSize : Nat := 248
def networkSize : Nat := 660
def systemSize : Nat := 64

/-- Where the three objects are. -/
structure Layout where
  user : Nat
  network : Nat
  system : Nat
  user_network : user + userSize ≤ network ∨ network + networkSize ≤ user
  user_system : user + userSize ≤ system ∨ system + systemSize ≤ user
  network_system : network + networkSize ≤ system ∨ system + systemSize ≤ network

section fields

inductive IpField where
  | u32IpAddr | u32NetMask | u32Gateway | u32DnsSvr0 | u32DnsSvr1
  deriving DecidableEq

/-- The settings stored as a UINT.  `portnumRTSP` is a WORD, the last member of its structure. -/
inductive IntField where
  | u1UseDhcp | portnumRTSP | nTimeSummer | nTimeZone
  deriving DecidableEq

inductive StrField where
  | strDeviceId | strDeviceName
  deriving DecidableEq

inductive DateField where
  | nYear | nMonth | nDay | nHour | nMin | nSec
  deriving DecidableEq

variable (L : Layout)

def IpField.addr : IpField → Nat
  | .u32IpAddr => L.network + 260
  | .u32NetMask => L.network + 264
  | .u32Gateway => L.network + 268
  | .u32DnsSvr0 => L.network + 272
  | .u32DnsSvr1 => L.network + 276

def IntField.addr : IntField → Nat
  | .u1UseDhcp => L.network + 280
  | .portnumRTSP => L.network + 656
  | .nTimeSummer => L.user + 92
  | .nTimeZone => L.user + 96

def StrField.addr : StrField → Nat
  | .strDeviceId => L.user + 8
  | .strDeviceName => L.user + 24

def macAddr : Nat := L.system + 20

def StrField.size : StrField → Nat
  | .strDeviceId => 16
  | .strDeviceName => 64

/-- The bytes a setting has of its own. -/
def IntField.size : IntField → Nat
  | .portnumRTSP => 2
  | _ => 4

def IntField.nMax : IntField → Nat
  | .u1UseDhcp | .nTimeSummer => 1
  | .portnumRTSP => 0xFFFF
  | .nTimeZone => 28

def IntField.nMin : IntField → Nat := fun _ => 0

def DateField.upper : DateField → Nat
  | .nYear => 2100
  | .nMonth => 12
  | .nDay => 31
  | .nHour => 23
  | .nMin | .nSec => 59

def DateField.lower : DateField → Nat
  | .nYear => 1970
  | .nMonth | .nDay => 1
  | .nHour | .nMin | .nSec => 0

end fields

section flags

def uinOk : Nat := 0x00000001
def uinUrTimezone : Nat := 0x00000002
def uinUrDatetime : Nat := 0x00000004

def uinNwIntMac : Nat := 0x00000001
def uinNwIntDhcp : Nat := 0x00000040

def uinStreamPort : Nat := 0x01000000

def IpField.flag : IpField → Nat
  | .u32IpAddr => 0x00000002
  | .u32NetMask => 0x00000004
  | .u32Gateway => 0x00000008
  | .u32DnsSvr0 => 0x00000010
  | .u32DnsSvr1 => 0x00000020

def IntField.msgType : IntField → Nat
  | .u1UseDhcp | .portnumRTSP => uinOk
  | .nTimeSummer | .nTimeZone => uinUrTimezone

def IntField.ethFlag : IntField → Nat
  | .u1UseDhcp => uinNwIntDhcp
  | _ => 0

def IntField.videoFlag : IntField → Nat
  | .portnumRTSP => uinStreamPort
  | _ => 0

end flags

section entries

def readUint (m : Mem) (a : Nat) : Nat := readBE (m.read a 4).reverse

def writeUint (m : Mem) (a n : Nat) : Mem := m.write a (be 4 n).reverse

/-- A value as the setters clamp it: `none` if it is what the setting holds. -/
def clampEntry (old value nMax nMin : Nat) : Option Nat :=
  if old ≠ value then
    let (nMax, nMin) := if nMax < nMin then (nMin, nMax) else (nMax, nMin)
    some (if value < nMin then nMin else if value > nMax then nMax else value)
  else none

/-- `atoi`, stored to a UINT. -/
def uintOf (pcValue : CStr) : Nat := (atoi pcValue % 2 ^ 32).toNat

def isHex (b : UInt8) : Bool := isDigit b || (65 ≤ b && b ≤ 70) || (97 ≤ b && b ≤ 102)

def hexDigit (b : UInt8) : Nat :=
  if isDigit b then b.toNat - 48 else if b ≤ 70 then b.toNat - 55 else b.toNat - 87

/-- `strtol(s, NULL, 16)`. -/
def strtolHex (s : List UInt8) : Int :=
  let (neg, s) := scanSign (s.dropWhile isSpace)
  let s := if s.take 2 = [48, 120] ∨ s.take 2 = [48, 88] then s.drop 2 else s
  clampLong neg ((s.takeWhile isHex).foldl (fun n d => n * 16 + hexDigit d) 0)

variable (m : Mem) (a : Nat) (pcValue : CStr)

def cgiEntryIpchang (ipaddrAddr : List UInt8 → Nat) : Option Mem :=
  let un32TempValue := ipaddrAddr pcValue % 2 ^ 32
  if un32TempValue = 0xFFFFFFFF then none
  else if readUint m a ≠ un32TempValue then some (writeUint m a un32TempValue) else none

def cgiEntryIntegerMaxMin (nMax nMin : Nat) : Option Mem :=
  (clampEntry (readUint m a) (uintOf pcValue) nMax nMin).map (writeUint m a)

def cgiEntryHexinteger8MaxMin (nMax nMin : Nat) : Option Mem :=
  (clampEntry (m a).toNat (strtolHex pcValue % 256).toNat nMax nMin).map fun n =>
    m.write a [UInt8.ofNat n]

/-- `strcmp` and `strcpy`, which has no bound. -/
def cgiEntryString : Option Mem :=
  if m.read a (pcValue.1.length + 1) ≠ pcValue.1 ++ [0] then some (m.write a (pcValue.1 ++ [0]))
  else none

end entries

inductive Param where
  | btOK
  | ip (f : IpField)
  | int (f : IntField)
  | mac (i : Fin 6)
  | str (f : StrField)
  | date (f : DateField)
  | other

/-- The names the handler compares with, in its order. -/
def names : List (String × Param) :=
  [("btOK", .btOK),
   ("n_t_ip", .ip .u32IpAddr), ("n_t_sn", .ip .u32NetMask), ("n_t_gw", .ip .u32Gateway),
   ("n_t_dns0", .ip .u32DnsSvr0), ("n_t_dns1", .ip .u32DnsSvr1), ("n_t_dhcp", .int .u1UseDhcp),
   ("n_t_mac0", .mac 0), ("n_t_mac1", .mac 1), ("n_t_mac2", .mac 2), ("n_t_mac3", .mac 3),
   ("n_t_mac4", .mac 4), ("n_t_mac5", .mac 5),
   ("n_u_id", .str .strDeviceId), ("n_u_name", .str .strDeviceName),
   ("n_r_port", .int .portnumRTSP),
   ("s_s_uy", .date .nYear), ("s_s_um", .date .nMonth), ("s_s_ud", .date .nDay),
   ("s_s_uh", .date .nHour), ("s_s_ui", .date .nMin), ("s_s_us", .date .nSec),
   ("s_s_st", .int .nTimeSummer), ("s_s_tz", .int .nTimeZone)]

def paramOf (pcParam : CStr) : Param :=
  ((names.find? fun n => pcParam.1 = ascii n.1).map Prod.snd).getD .other

/-- The index a `s_i_kik` parameter names, as the UINT `rtspd_connect_kick` takes. -/
def kickOf (pcParam : CStr) : Option Nat :=
  if (ascii "s_i_kik").isPrefixOf pcParam then
    (scanInt (pcParam.1.drop 7)).map fun r => (r.1 % 2 ^ 32).toNat
  else none

/-- The handler's variables, and the calls of `rtspd_connect_kick`. -/
structure Cgi where
  mem : Mem
  un32GetValue : Nat
  unEthernetIpChangeFlag : Nat
  unVideoChangeFlag : Nat
  date : DateField → Nat
  kicks : List Nat

section handler

variable (L : Layout) (ipaddrAddr : List UInt8 → Nat)

def Cgi.start (m : Mem) : Cgi := ⟨m, 0, 0, 0, fun _ => 0, []⟩

/-- What a setter that returns ENX_OK leaves, and nothing if it does not. -/
def Cgi.set (s : Cgi) (msgType ethFlag videoFlag : Nat) : Option Mem → Cgi
  | none => s
  | some m =>
    { s with
      mem := m
      un32GetValue := s.un32GetValue ||| msgType
      unEthernetIpChangeFlag := s.unEthernetIpChangeFlag ||| ethFlag
      unVideoChangeFlag := s.unVideoChangeFlag ||| videoFlag }

def Cgi.setDate (s : Cgi) (f : DateField) : Option Nat → Cgi
  | none => s
  | some n =>
    { s with date := Function.update s.date f n, un32GetValue := s.un32GetValue ||| uinUrDatetime }

/-- One turn of the loop over the parameters. -/
def Cgi.param (s : Cgi) (pcParam pcValue : CStr) : Cgi :=
  match paramOf pcParam with
  | .btOK => s
  | .ip f => s.set uinOk f.flag 0 (cgiEntryIpchang s.mem (f.addr L) pcValue ipaddrAddr)
  | .int f => s.set f.msgType f.ethFlag f.videoFlag
      (cgiEntryIntegerMaxMin s.mem (f.addr L) pcValue f.nMax f.nMin)
  | .mac i => s.set uinOk uinNwIntMac 0
      (cgiEntryHexinteger8MaxMin s.mem (macAddr L + i) pcValue 0xFF 0)
  | .str f => s.set uinOk 0 0 (cgiEntryString s.mem (f.addr L) pcValue)
  | .date f => s.setDate f (clampEntry (s.date f) (uintOf pcValue) f.upper f.lower)
  | .other => { s with kicks := s.kicks ++ (kickOf pcParam).toList }

def Cgi.params (s : Cgi) (ps : List (CStr × CStr)) : Cgi :=
  ps.foldl (fun s p => s.param L ipaddrAddr p.1 p.2) s

/-- `set_devicetime`, as far as it checks: the date it goes on with. -/
def setDevicetime (date : DateField → Nat) : Option (DateField → Nat) :=
  if date .nYear < 1970 ∨ date .nYear > 2030 then none
  else if date .nMonth < 1 ∨ date .nMonth > 12 then none
  else if date .nDay < 1 ∨ date .nDay > 31 then none
  else if date .nHour > 23 then none
  else if date .nMin > 59 then none
  else if date .nSec > 59 then none
  else some date

inductive Area where
  | user | network | system

/-- What the handler does once the parameters are through. -/
structure CgiDone where
  mem : Mem
  ipchange : Option Nat
  timeZone : Option Nat
  deviceTime : Option (DateField → Nat)
  kicks : List Nat
  saves : List Area
  url : String

def Cgi.finish (s : Cgi) : CgiDone :=
  let un32Check := s.unEthernetIpChangeFlag
  let (saves, url) :=
    if un32Check &&& IpField.flag .u32IpAddr ≠ 0 then ([], "/network_submit1.html")
    else if un32Check &&& uinNwIntDhcp ≠ 0 ∧ readUint s.mem (IntField.addr L .u1UseDhcp) = 1 then
      ([], "/network_submit2.html")
    else if un32Check &&& uinNwIntMac ≠ 0 then ([Area.system], "/system_reboot_cmd.html")
    else ([], "/submit.html")
  { mem := s.mem
    ipchange := if un32Check ≠ 0 then some un32Check else none
    timeZone := if s.un32GetValue &&& uinUrTimezone ≠ 0 then
        some (readUint s.mem (IntField.addr L .nTimeZone)) else none
    deviceTime := if s.un32GetValue &&& uinUrDatetime ≠ 0 then setDevicetime s.date else none
    kicks := s.kicks
    saves := [.user, .network] ++ saves
    url := url }

def appEN675CGIHandler (m : Mem) (ps : List (CStr × CStr)) : CgiDone :=
  ((Cgi.start m).params L ipaddrAddr ps).finish L

end handler

end En675.Http
