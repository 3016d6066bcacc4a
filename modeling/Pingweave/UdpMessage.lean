import Pingweave.Address
import Pingweave.Common
import Pingweave.Library.LittleEndian

/-!
# The messages of the UDP ping

`tcpudp_pingmsg_t` of `format.hpp` as it lies in memory on a 64-bit host, where the compiler aligns
`pingid` at 8 and pads the whole to 24 bytes, with `send_udp_message` and `receive_udp_message` of
`tcpudp_common.cpp`. The sender leaves the bytes between the fields as they are on its stack.
-/

namespace Pingweave
open LittleEndian
set_option autoImplicit false

def PINGWEAVE_UDP_PORT_CLIENT : UInt16 := 33335
def PINGWEAVE_UDP_PORT_SERVER : UInt16 := 33336

structure TcpUdpPingmsg where
  prefix_ : UInt32
  pingid : UInt64
  pad : UInt32
  deriving DecidableEq, Repr

structure Datagram where
  src : UInt32
  dst : UInt32
  dst_port : UInt16
  payload : List UInt8
  deriving DecidableEq, Repr

namespace TcpUdpPingmsg

/-- `sizeof(tcpudp_pingmsg_t)` -/
def size : Nat := 24

/-- The bytes of a message; `hole` and `tail` are what lies between and behind its fields. -/
def raw (m : TcpUdpPingmsg) (hole tail : UInt32) : List UInt8 :=
  bytes 4 m.prefix_.toNat ++ bytes 4 hole.toNat ++ bytes 8 m.pingid.toNat ++ bytes 4 m.pad.toNat ++
    bytes 4 tail.toNat

/-- The `memcpy` into a message. -/
def ofRaw (buffer : List UInt8) : TcpUdpPingmsg where
  prefix_ := UInt32.ofNat (value (buffer.take 4))
  pingid := UInt64.ofNat (value ((buffer.drop 8).take 8))
  pad := UInt32.ofNat (value ((buffer.drop 16).take 4))

end TcpUdpPingmsg

/-- `none` where the address is malformed. The socket is bound to `src`. -/
def sendUdpMessage (src : UInt32) (dst_ip : Text) (dst_port : UInt16) (pingid : UInt64)
    (hole tail : UInt32) : Option Datagram :=
  match inetPton dst_ip with
  | none => none
  | some dst =>
    let msg : TcpUdpPingmsg := { prefix_ := 0, pingid := pingid, pad := 0 }
    some ⟨src, dst, dst_port, msg.raw hole tail⟩

/-- `recvfrom` drops what does not fit into the buffer. -/
def receiveUdpMessage (payload : List UInt8) : Option UInt64 :=
  let buffer := payload.take TcpUdpPingmsg.size
  if buffer.length ≠ TcpUdpPingmsg.size then none
  else
    let ping_msg := TcpUdpPingmsg.ofRaw buffer
    if ping_msg.prefix_ ≠ 0 ∨ ping_msg.pad ≠ 0 then none
    else if ping_msg.pingid = 0 then none
    else some ping_msg.pingid

namespace TcpUdpPingmsg

@[simp] theorem length_raw (m : TcpUdpPingmsg) (hole tail : UInt32) : (m.raw hole tail).length = size := by
  simp only [raw, List.length_append, length_bytes]
  rfl

theorem value_bytes_32 (x : UInt32) : UInt32.ofNat (value (bytes 4 x.toNat)) = x := by
  have hx : x.toNat < 256 ^ 4 := x.toNat_lt
  rw [value_bytes, Nat.mod_eq_of_lt hx, UInt32.ofNat_toNat]

theorem value_bytes_64 (x : UInt64) : UInt64.ofNat (value (bytes 8 x.toNat)) = x := by
  have hx : x.toNat < 256 ^ 8 := x.toNat_lt
  rw [value_bytes, Nat.mod_eq_of_lt hx, UInt64.ofNat_toNat]

theorem bytes_value_32 {bs : List UInt8} (h : bs.length = 4) :
    bytes 4 (UInt32.ofNat (value bs)).toNat = bs := by
  have hbound := value_lt bs
  rw [h] at hbound
  have hlt : value bs < 2 ^ 32 := hbound
  rw [UInt32.toNat_ofNat', Nat.mod_eq_of_lt hlt, ← h, bytes_value]

theorem bytes_value_64 {bs : List UInt8} (h : bs.length = 8) :
    bytes 8 (UInt64.ofNat (value bs)).toNat = bs := by
  have hbound := value_lt bs
  rw [h] at hbound
  have hlt : value bs < 2 ^ 64 := hbound
  rw [UInt64.toNat_ofNat', Nat.mod_eq_of_lt hlt, ← h, bytes_value]

/-- The fields as `ofRaw` cuts them out. -/
theorem fields_raw (m : TcpUdpPingmsg) (hole tail : UInt32) :
    (m.raw hole tail).take 4 = bytes 4 m.prefix_.toNat ∧
      ((m.raw hole tail).drop 8).take 8 = bytes 8 m.pingid.toNat ∧
      ((m.raw hole tail).drop 16).take 4 = bytes 4 m.pad.toNat := by
  rw [raw, List.append_assoc, List.append_assoc, List.append_assoc]
  refine ⟨List.take_left' (length_bytes 4 _), ?_, ?_⟩
  · rw [← List.append_assoc, List.drop_left' (by rw [List.length_append, length_bytes, length_bytes])]
    exact List.take_left' (length_bytes 8 _)
  · rw [← List.append_assoc, ← List.append_assoc, List.drop_left'
      (by rw [List.length_append, List.length_append, length_bytes, length_bytes, length_bytes])]
    exact List.take_left' (length_bytes 4 _)

/-- A message is read back whatever lies between its fields. -/
theorem ofRaw_raw (m : TcpUdpPingmsg) (hole tail : UInt32) : ofRaw (m.raw hole tail) = m := by
  obtain ⟨hpre, hpingid, hpad⟩ := fields_raw m hole tail
  rw [ofRaw, hpre, hpingid, hpad, value_bytes_32, value_bytes_64, value_bytes_32]

/-- Any 24 bytes are a message. -/
theorem raw_ofRaw {buffer : List UInt8} (h : buffer.length = size) :
    ∃ hole tail, (ofRaw buffer).raw hole tail = buffer := by
  have hcut : ∀ i n, i + n ≤ size → ((buffer.drop i).take n).length = n := by
    intro i n hin
    rw [List.length_take, List.length_drop, h]
    omega
  have hfirst : (buffer.take 4).length = 4 := hcut 0 4 (by decide)
  refine ⟨UInt32.ofNat (value ((buffer.drop 4).take 4)), UInt32.ofNat (value ((buffer.drop 20).take 4)), ?_⟩
  calc (ofRaw buffer).raw _ _
    _ = buffer.take 4 ++ (buffer.drop 4).take 4 ++ (buffer.drop 8).take 8 ++ (buffer.drop 16).take 4 ++
        (buffer.drop 20).take 4 := by
      rw [raw, ofRaw, bytes_value_32 hfirst, bytes_value_32 (hcut 4 4 (by decide)),
        bytes_value_64 (hcut 8 8 (by decide)), bytes_value_32 (hcut 16 4 (by decide)),
        bytes_value_32 (hcut 20 4 (by decide))]
    _ = buffer := by
      rw [← List.take_add, ← List.take_add, ← List.take_add, ← List.take_add]
      exact List.take_of_length_le (Nat.le_of_eq h)

end TcpUdpPingmsg

/-- What arrives of a datagram that begins with the bytes of a message. -/
theorem receiveUdpMessage_raw (m : TcpUdpPingmsg) (hole tail : UInt32) (rest : List UInt8) :
    receiveUdpMessage (m.raw hole tail ++ rest) =
      if m.prefix_ = 0 ∧ m.pad = 0 ∧ m.pingid ≠ 0 then some m.pingid else none := by
  have htake : (m.raw hole tail ++ rest).take TcpUdpPingmsg.size = m.raw hole tail :=
    List.take_left' (m.length_raw hole tail)
  rw [receiveUdpMessage, htake]
  dsimp only
  rw [m.length_raw, TcpUdpPingmsg.ofRaw_raw, if_neg (not_not.mpr rfl)]
  by_cases hpre : m.prefix_ = 0
  · by_cases hpad : m.pad = 0
    · simp [hpre, hpad]
    · simp [hpad]
  · simp [hpre]

/-- The receiver accepts exactly the datagrams that begin with what a sender sends for some
non-zero pingid, and reads that pingid. -/
theorem receiveUdpMessage_eq_some {payload : List UInt8} {pingid : UInt64} :
    receiveUdpMessage payload = some pingid ↔ pingid ≠ 0 ∧ ∃ hole tail rest,
      payload = TcpUdpPingmsg.raw ⟨0, pingid, 0⟩ hole tail ++ rest := by
  constructor
  · intro h
    by_cases hlen : (payload.take TcpUdpPingmsg.size).length = TcpUdpPingmsg.size
    · obtain ⟨m, hole, tail, rest, hsplit⟩ : ∃ (m : TcpUdpPingmsg) (hole tail : UInt32) (rest : List UInt8),
          payload = m.raw hole tail ++ rest := by
        obtain ⟨hole, tail, hraw⟩ := TcpUdpPingmsg.raw_ofRaw hlen
        refine ⟨.ofRaw (payload.take TcpUdpPingmsg.size), hole, tail, payload.drop TcpUdpPingmsg.size, ?_⟩
        rw [hraw, List.take_append_drop]
      obtain ⟨prefix_, id, pad⟩ := m
      rw [hsplit, receiveUdpMessage_raw] at h
      split at h
      · rename_i hok
        obtain ⟨rfl, rfl, hne⟩ := hok
        cases h
        exact ⟨hne, hole, tail, rest, hsplit⟩
      · cases h
    · rw [receiveUdpMessage] at h
      dsimp only at h
      rw [if_pos hlen] at h
      cases h
  · rintro ⟨hne, hole, tail, rest, rfl⟩
    rw [receiveUdpMessage_raw, if_pos ⟨rfl, rfl, hne⟩]

/-- Sending to a well-formed address is undone by receiving, unless the pingid is zero. -/
theorem receive_send {src : UInt32} {dst_ip : Text} {dst_port : UInt16} {pingid : UInt64}
    {hole tail : UInt32} {d : Datagram}
    (h : sendUdpMessage src dst_ip dst_port pingid hole tail = some d) :
    inetPton dst_ip = some d.dst ∧ d.src = src ∧ d.dst_port = dst_port ∧
      receiveUdpMessage d.payload = if pingid = 0 then none else some pingid := by
  rw [sendUdpMessage] at h
  split at h
  · cases h
  · rename_i dst hdst
    cases h
    refine ⟨hdst, rfl, rfl, ?_⟩
    have hraw := receiveUdpMessage_raw ⟨0, pingid, 0⟩ hole tail []
    rw [List.append_nil] at hraw
    rw [hraw]
    by_cases hne : pingid = 0
    · simp [hne]
    · simp [hne]

end Pingweave
