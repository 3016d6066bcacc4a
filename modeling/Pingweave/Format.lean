import Mathlib.Algebra.Ring.Nat
import Mathlib.Data.List.Basic

/-!
# Constants and message formats

The constants of `macro.hpp` that the modelled code reads, and the message and address types
of `format.hpp`. A union with a raw byte view is the structure it overlays.
-/

namespace Pingweave
set_option autoImplicit false

/-- Strings are the lists of their characters. -/
abbrev Text := List Char

instance : LawfulBEq Text := inferInstance

def NUM_BUFFER : Nat := 256
def BATCH_CQE : Nat := 16
def IPC_MESSAGE_SIZE : Nat := 2097152
def IPC_BUFFER_SIZE : Nat := 64
def PINGWEAVE_TABLE_EXPIRY_TIME_RDMA_MS : Nat := 1000
def PINGWEAVE_TABLE_EXPIRY_TIME_TCP_MS : Nat := 1000
def PINGWEAVE_TABLE_EXPIRY_TIME_UDP_MS : Nat := 1000

/-- `1ULL << 32`, the factor that clock differences are taken modulo. -/
def PINGWEAVE_TIME_CALC_MODULO : UInt64 := 4294967296

def PINGWEAVE_OPCODE_PONG : UInt32 := 1
def PINGWEAVE_OPCODE_ACK : UInt32 := 2

/-- The work request id of every ACK, `NUM_BUFFER * 4`. -/
def PINGWEAVE_WRID_PONG_ACK : UInt64 := 1024

inductive PingResult where
  | success
  | failure
  | weird
  deriving DecidableEq, Repr

structure IbvGid where
  subnet_prefix : UInt64
  interface_id : UInt64
  deriving DecidableEq, Repr, Inhabited

structure RdmaAddr where
  qpn : UInt32
  gid : IbvGid
  lid : UInt32
  deriving DecidableEq, Repr, Inhabited

/-- A PING; `time` is written by the server on arrival. -/
structure RdmaPingmsg where
  pingid : UInt64
  qpn : UInt32
  gid : IbvGid
  lid : UInt32
  time : UInt64
  deriving DecidableEq, Repr, Inhabited

/-- The address a PING asks to be answered at. -/
def RdmaPingmsg.addr (m : RdmaPingmsg) : RdmaAddr := ⟨m.qpn, m.gid, m.lid⟩

/-- A PONG or an ACK, told apart by `opcode`. -/
structure RdmaPongmsg where
  opcode : UInt32
  pingid : UInt64
  server_delay : UInt64
  deriving DecidableEq, Repr, Inhabited

structure RdmaResultMsg where
  pingid : UInt64
  dstip : UInt32
  time_ping_send : UInt64
  client_delay : UInt64
  network_delay : UInt64
  server_delay : UInt64
  result : PingResult
  deriving DecidableEq, Repr

structure TcpUdpResultMsg where
  pingid : UInt64
  dstip : UInt32
  time_ping_send : UInt64
  network_delay : UInt64
  result : PingResult
  deriving DecidableEq, Repr

end Pingweave
