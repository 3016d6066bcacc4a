import Pingweave.Address
import Pingweave.Common
import Pingweave.Library.ExpiryTable

/-!
# The TCP/UDP ping table

`TcpUdpPinginfoMap` of `tcpudp_ping_info.hpp`. As in the RDMA table every public operation
holds the mutex throughout, and the clocks it reads are its arguments.
-/

namespace Pingweave
open ExpiryTable
set_option autoImplicit false

structure TcpUdpPinginfo where
  pingid : UInt64
  dstip : Text
  time_ping_send : UInt64
  network_delay : UInt64
  deriving DecidableEq, Repr

namespace TcpUdpPinginfo

/-- The SUCCESS message; `network_delay` has held the steady time of the insert so far. -/
def success (v : TcpUdpPinginfo) (recv_time : UInt64) : TcpUdpResultMsg where
  pingid := v.pingid
  dstip := ip2uint v.dstip
  time_ping_send := v.time_ping_send
  network_delay := calcTimeDeltaWithBitwrap v.network_delay recv_time 18446744073709551615
  result := .success

def failure (v : TcpUdpPinginfo) : TcpUdpResultMsg where
  pingid := v.pingid
  dstip := ip2uint v.dstip
  time_ping_send := v.time_ping_send
  network_delay := 0
  result := .failure

end TcpUdpPinginfo

structure TcpUdpPinginfoMap where
  table : Table UInt64 TcpUdpPinginfo
  threshold_ms : Nat

namespace TcpUdpPinginfoMap

abbrev Call := TableCall TcpUdpPinginfoMap TcpUdpResultMsg

def init (threshold_ms : Nat) : TcpUdpPinginfoMap := ⟨Table.empty, threshold_ms⟩

def find (t : TcpUdpPinginfoMap) (key : UInt64) : Option (Entry TcpUdpPinginfo) := t.table.find key

def get (t : TcpUdpPinginfoMap) (key : UInt64) : Option TcpUdpPinginfo :=
  (t.find key).map Entry.value

def stale (t : TcpUdpPinginfoMap) (now : TimePoint) (e : Entry TcpUdpPinginfo) : Bool :=
  t.threshold_ms ≤ elapsedMs now e.timestamp

/-- The entries that `expireEntries` takes out, oldest first. -/
def expired (t : TcpUdpPinginfoMap) (now : TimePoint) : List (UInt64 × Entry TcpUdpPinginfo) :=
  (t.table.expire (t.stale now)).2

/-- The table, the number of removed entries and the messages sent out. -/
def expireEntries (t : TcpUdpPinginfoMap) (now : TimePoint) :
    TcpUdpPinginfoMap × Nat × List TcpUdpResultMsg :=
  ({ t with table := (t.table.expire (t.stale now)).1 }, (t.expired now).length,
    (t.expired now).map fun p => p.2.value.failure)

def remove (t : TcpUdpPinginfoMap) (key : UInt64) : TcpUdpPinginfoMap :=
  { t with table := (t.table.remove key).1 }

def insert (t : TcpUdpPinginfoMap) (key pingid : UInt64) (dstip : Text)
    (now steady_now : TimePoint) (system_ns : UInt64) : Call :=
  let r := t.expireEntries now
  match r.1.find key with
  | some _ => ⟨r.1, false, r.2.2⟩
  | none =>
    ⟨{ r.1 with
        table := r.1.table.emplace key ⟨pingid, dstip, system_ns, convertClockToNs steady_now⟩
          steady_now }, true, r.2.2⟩

def updatePongInfo (t : TcpUdpPinginfoMap) (key recv_time : UInt64) : Call :=
  match t.find key with
  | none => ⟨t, false, []⟩
  | some e => ⟨t.remove e.value.pingid, true, [e.value.success recv_time]⟩

section Find
variable (t : TcpUdpPinginfoMap)

theorem get_eq_some {key : UInt64} {v : TcpUdpPinginfo} :
    t.get key = some v ↔ ∃ e, t.find key = some e ∧ e.value = v := by
  rw [get, Option.map_eq_some_iff]

@[simp] theorem get_init (threshold_ms : Nat) (key : UInt64) : (init threshold_ms).get key = none := by
  rw [get, find, init, Table.find_empty]
  rfl

theorem find_of_mem_expired {now : TimePoint} {p : UInt64 × Entry TcpUdpPinginfo}
    (h : p ∈ t.expired now) : t.find p.1 = some p.2 :=
  Table.find_of_mem_expired h

theorem expired_nodup (now : TimePoint) : ((t.expired now).map Prod.fst).Nodup :=
  Table.expired_nodup t.table

/-- Expiry keeps exactly the entries it does not take out. -/
theorem get_expireEntries (now : TimePoint) (key : UInt64) (v : TcpUdpPinginfo) :
    (t.expireEntries now).1.get key = some v ↔
      t.get key = some v ∧ key ∉ (t.expired now).map Prod.fst := by
  constructor
  · intro h
    obtain ⟨e, he, hv⟩ := (get_eq_some _).mp h
    refine ⟨t.get_eq_some.mpr ⟨e, Table.find_of_find_expire he, hv⟩, ?_⟩
    intro hmem
    obtain ⟨⟨_, d⟩, hd, rfl⟩ := List.mem_map.mp hmem
    have hnone := Table.find_expire_of_mem hd
    exact absurd (he.symm.trans hnone) (Option.some_ne_none e)
  · rintro ⟨h, hnot⟩
    obtain ⟨e, he, hv⟩ := t.get_eq_some.mp h
    refine (get_eq_some _).mpr ⟨e, ?_, hv⟩
    rcases (Table.find_expire_or (t.stale now) t.table key e).mp he with hkept | hgone
    · exact hkept
    · exact absurd (List.mem_map_of_mem hgone) hnot

theorem get_remove (key key' : UInt64) (v : TcpUdpPinginfo) :
    (t.remove key).get key' = some v ↔ t.get key' = some v ∧ key' ∉ [key] := by
  rw [List.mem_singleton]
  by_cases hk : key' = key
  · subst hk
    have hnone : (t.remove key').get key' = none := by
      rw [get, find, remove, Table.find_remove_self]
      rfl
    simp [hnone]
  · have hsame : (t.remove key).get key' = t.get key' := by
      rw [get, find, remove, Table.find_remove_ne t.table hk]
      rfl
    simp [hsame, hk]

end Find

section Insert
variable (t : TcpUdpPinginfoMap) (key pingid : UInt64) (dstip : Text) (now steady_now : TimePoint)
  (system_ns : UInt64)

theorem insert_ret : (t.insert key pingid dstip now steady_now system_ns).ret =
    ((t.expireEntries now).1.get key).isNone := by
  cases h : (t.expireEntries now).1.find key <;> simp [insert, get, h]

theorem insert_enqueued : (t.insert key pingid dstip now steady_now system_ns).enqueued =
    (t.expired now).map fun p => p.2.value.failure := by
  cases h : (t.expireEntries now).1.find key <;> simp only [insert, h] <;> rfl

theorem get_insert (key' : UInt64) :
    (t.insert key pingid dstip now steady_now system_ns).table.get key' =
      if (t.insert key pingid dstip now steady_now system_ns).ret = true ∧ key' = key then
        some ⟨pingid, dstip, system_ns, convertClockToNs steady_now⟩
      else (t.expireEntries now).1.get key' := by
  cases h : (t.expireEntries now).1.find key with
  | some e => simp only [insert, h, Bool.false_eq_true, false_and, if_false]
  | none =>
    simp only [insert, h, true_and]
    by_cases hk : key' = key
    · rw [if_pos hk, hk, get, find, Table.find_emplace_self]
      rfl
    · rw [if_neg hk, get, find, Table.find_emplace_ne _ _ _ hk]
      rfl

end Insert

end TcpUdpPinginfoMap
end Pingweave
