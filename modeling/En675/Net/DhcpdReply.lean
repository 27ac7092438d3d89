import Mathlib.Data.List.Flatten
import En675.Net.DhcpdSafe

/-! What a client reads in the answers of the server: the fields of its own message, and the options that the server
has been configured with. -/

namespace En675.Net.Dhcpd

open Lib

section memory

variable {m : Mem} {p a n : Nat} {bs : List UInt8}

end memory

section packet

variable {cfg : ServerConfig} {m old : Mem} {type : UInt8} {l : List Tlv} {o : Tlv} {a i n p t yiaddr : Nat}

end packet

section answers

variable {cfg : ServerConfig} {s : Server} {d : Datagram} {now n : Nat} {leases leases' : List OfferedAddr}
  {out : Outcome} {packet : Mem}

end answers

section results

variable {cfg : ServerConfig} {s : Server} {d : Datagram} {leases : List OfferedAddr} {out : Outcome} {os : List Tlv}
  {type : UInt8} {a t : Nat} {reply : Mem}

end results

end En675.Net.Dhcpd
