import Pingweave.Address
import Pingweave.Common
import Pingweave.Library.ExpiryTable

/-!
# The RDMA ping table

`RdmaPinginfoMap` of `rdma_ping_info.hpp`. Every public operation holds the table's mutex from
its first to its last line, so an operation is one step here. The clocks an operation reads are
its arguments, and the log lines are left out.
-/

namespace Pingweave
open ExpiryTable
set_option autoImplicit false

def PINGWEAVE_MASK_INIT : Nat := 0
def PINGWEAVE_MASK_RECV_PING_CQE : Nat := 1
def PINGWEAVE_MASK_RECV_PONG : Nat := 2
def PINGWEAVE_MASK_RECV_ACK : Nat := 4

def PINGWEAVE_MASK_RECV : Nat :=
  PINGWEAVE_MASK_RECV_PING_CQE ||| PINGWEAVE_MASK_RECV_PONG ||| PINGWEAVE_MASK_RECV_ACK

structure RdmaPinginfo where
  pingid : UInt64
  qpn : UInt32
  gid : IbvGid
  lid : UInt32
  dstip : Text
  time_ping_send : UInt64
  client_delay : UInt64
  network_delay : UInt64
  server_delay : UInt64
  recv_cnt : UInt32
  recv_bitmap : Nat
  deriving DecidableEq, Repr

/-- The entry `insert` stores: `client_delay` holds the steady time of the PING for now. -/
def newPinginfo (msg : RdmaPingmsg) (dstip : Text) (system_ns : UInt64) (steady_now : TimePoint) :
    RdmaPinginfo where
  pingid := msg.pingid
  qpn := msg.qpn
  gid := msg.gid
  lid := msg.lid
  dstip := dstip
  time_ping_send := system_ns
  client_delay := convertClockToNs steady_now
  network_delay := 0
  server_delay := 0
  recv_cnt := 0
  recv_bitmap := PINGWEAVE_MASK_INIT

namespace RdmaPinginfo

/-- The entry after the completion of its PING at `x`. -/
def recvPingCqe (x : UInt64) (v : RdmaPinginfo) : RdmaPinginfo :=
  { v with
    network_delay :=
      -- a PONG that came first left its own completion time here
      if v.network_delay = 0 then x
      else calcTimeDeltaWithModulo x v.network_delay PINGWEAVE_TIME_CALC_MODULO
    recv_bitmap := v.recv_bitmap ||| PINGWEAVE_MASK_RECV_PING_CQE
    recv_cnt := v.recv_cnt + 1 }

def recvPong (recv_time cqe_time : UInt64) (v : RdmaPinginfo) : RdmaPinginfo :=
  { v with
    client_delay := calcTimeDeltaWithModulo v.client_delay recv_time PINGWEAVE_TIME_CALC_MODULO
    network_delay :=
      if v.network_delay ≠ 0 then
        calcTimeDeltaWithModulo v.network_delay cqe_time PINGWEAVE_TIME_CALC_MODULO
      else cqe_time
    recv_bitmap := v.recv_bitmap ||| PINGWEAVE_MASK_RECV_PONG
    recv_cnt := v.recv_cnt + 1 }

def recvAck (server_delay : UInt64) (v : RdmaPinginfo) : RdmaPinginfo :=
  { v with
    server_delay := server_delay
    recv_bitmap := v.recv_bitmap ||| PINGWEAVE_MASK_RECV_ACK
    recv_cnt := v.recv_cnt + 1 }

theorem recvPingCqe_frame (x : UInt64) (v : RdmaPinginfo) :
    (v.recvPingCqe x).pingid = v.pingid ∧ (v.recvPingCqe x).dstip = v.dstip ∧
      (v.recvPingCqe x).time_ping_send = v.time_ping_send := by
  rw [recvPingCqe]
  exact ⟨rfl, rfl, rfl⟩

theorem recvPong_frame (recv_time cqe_time : UInt64) (v : RdmaPinginfo) :
    (v.recvPong recv_time cqe_time).pingid = v.pingid ∧
      (v.recvPong recv_time cqe_time).dstip = v.dstip ∧
      (v.recvPong recv_time cqe_time).time_ping_send = v.time_ping_send := by
  rw [recvPong]
  exact ⟨rfl, rfl, rfl⟩

theorem recvAck_frame (server_delay : UInt64) (v : RdmaPinginfo) :
    (v.recvAck server_delay).pingid = v.pingid ∧ (v.recvAck server_delay).dstip = v.dstip ∧
      (v.recvAck server_delay).time_ping_send = v.time_ping_send :=
  ⟨rfl, rfl, rfl⟩

/-- The SUCCESS or WEIRD message that `logging` sends out. -/
def report (v : RdmaPinginfo) : RdmaResultMsg where
  pingid := v.pingid
  dstip := ip2uint v.dstip
  time_ping_send := v.time_ping_send
  client_delay := v.client_delay - v.network_delay
  network_delay :=
    if v.network_delay > v.server_delay then v.network_delay - v.server_delay else v.network_delay
  server_delay := v.server_delay
  result := if v.network_delay ≤ v.server_delay then .weird else .success

/-- The FAILURE message of an expired entry, unless it has three events already. -/
def expireReport (v : RdmaPinginfo) : Option RdmaResultMsg :=
  if v.recv_cnt ≥ 3 then none
  else some ⟨v.pingid, ip2uint v.dstip, v.time_ping_send, 0, 0, 0, .failure⟩

end RdmaPinginfo

structure RdmaPinginfoMap where
  table : Table UInt64 RdmaPinginfo
  threshold_ms : Nat

namespace RdmaPinginfoMap

abbrev Call := TableCall RdmaPinginfoMap RdmaResultMsg

def init (threshold_ms : Nat) : RdmaPinginfoMap := ⟨Table.empty, threshold_ms⟩

def find (t : RdmaPinginfoMap) (key : UInt64) : Option (Entry RdmaPinginfo) := t.table.find key

def stale (t : RdmaPinginfoMap) (now : TimePoint) (e : Entry RdmaPinginfo) : Bool :=
  t.threshold_ms ≤ elapsedMs now e.timestamp

/-- The entries that `expireEntries` takes out, oldest first. -/
def expired (t : RdmaPinginfoMap) (now : TimePoint) : List (UInt64 × Entry RdmaPinginfo) :=
  (t.table.expire (t.stale now)).2

/-- The table, the number of removed entries and the messages sent out. -/
def expireEntries (t : RdmaPinginfoMap) (now : TimePoint) :
    RdmaPinginfoMap × Nat × List RdmaResultMsg :=
  ({ t with table := (t.table.expire (t.stale now)).1 }, (t.expired now).length,
    (t.expired now).filterMap fun p => p.2.value.expireReport)

def remove (t : RdmaPinginfoMap) (key : UInt64) : RdmaPinginfoMap :=
  { t with table := (t.table.remove key).1 }

def insert (t : RdmaPinginfoMap) (key : UInt64) (msg : RdmaPingmsg) (dstip : Text)
    (now steady_now : TimePoint) (system_ns : UInt64) : Call :=
  let r := t.expireEntries now
  match r.1.find key with
  | some _ => ⟨r.1, false, r.2.2⟩
  | none =>
    ⟨{ r.1 with
        table := r.1.table.emplace key (newPinginfo msg dstip system_ns steady_now) steady_now },
      true, r.2.2⟩

def get (t : RdmaPinginfoMap) (key : UInt64) : Option RdmaPinginfo := (t.find key).map Entry.value

def logging (t : RdmaPinginfoMap) (ping_info : RdmaPinginfo) :
    RdmaPinginfoMap × List RdmaResultMsg :=
  if ping_info.recv_bitmap = PINGWEAVE_MASK_RECV then
    if ping_info.recv_cnt ≠ 3 then (t.remove ping_info.pingid, [])
    else (t.remove ping_info.pingid, [ping_info.report])
  else (t, [])

/-- The shape of the three update operations: change the entry in place, then `logging`. -/
def updateEntry (t : RdmaPinginfoMap) (key : UInt64) (receive : RdmaPinginfo → RdmaPinginfo) : Call :=
  match t.find key with
  | none => ⟨t, false, []⟩
  | some e =>
    let r := ({ t with table := t.table.assign key (receive e.value) } : RdmaPinginfoMap).logging
      (receive e.value)
    ⟨r.1, true, r.2⟩

def updatePingCqeTime (t : RdmaPinginfoMap) (key x : UInt64) : Call :=
  t.updateEntry key (RdmaPinginfo.recvPingCqe x)

def updatePongInfo (t : RdmaPinginfoMap) (key recv_time cqe_time : UInt64) : Call :=
  t.updateEntry key (RdmaPinginfo.recvPong recv_time cqe_time)

def updateAckInfo (t : RdmaPinginfoMap) (key server_delay : UInt64) : Call :=
  t.updateEntry key (RdmaPinginfo.recvAck server_delay)

/-- `size` expires first; `empty` is the same call. -/
def size (t : RdmaPinginfoMap) (now : TimePoint) : RdmaPinginfoMap × Nat × List RdmaResultMsg :=
  let r := t.expireEntries now
  (r.1, r.1.table.map.keys.card, r.2.2)

section Find
variable (t : RdmaPinginfoMap)

@[simp] theorem find_init (threshold_ms : Nat) (key : UInt64) : (init threshold_ms).find key = none :=
  Table.find_empty key

theorem find_remove_self (key : UInt64) : (t.remove key).find key = none :=
  Table.find_remove_self t.table key

theorem find_remove_ne {key key' : UInt64} (h : key' ≠ key) : (t.remove key).find key' = t.find key' :=
  Table.find_remove_ne t.table h

theorem find_expireEntries_or (now : TimePoint) (key : UInt64) (e : Entry RdmaPinginfo) :
    t.find key = some e ↔ (t.expireEntries now).1.find key = some e ∨ (key, e) ∈ t.expired now :=
  Table.find_expire_or (t.stale now) t.table key e

theorem find_expireEntries_of_mem {now : TimePoint} {key : UInt64} {e : Entry RdmaPinginfo}
    (h : (key, e) ∈ t.expired now) : (t.expireEntries now).1.find key = none :=
  Table.find_expire_of_mem h

theorem expired_nodup (now : TimePoint) : ((t.expired now).map Prod.fst).Nodup :=
  Table.expired_nodup t.table

end Find
end RdmaPinginfoMap
end Pingweave
