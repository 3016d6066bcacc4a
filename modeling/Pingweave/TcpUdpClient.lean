import Pingweave.Library.Runs
import Pingweave.TcpUdpPingInfo

/-!
# The TCP and UDP clients

The threads of `udp_client.cpp` and `tcp_client.cpp` around one ping table, the inter-thread
queue and the result histories. The two clients differ in who calls the table: UDP inserts in
the tx thread and takes PONGs in the rx thread, TCP does both in `send_tcp_message`. Their
result threads are the same.
-/

namespace Pingweave
open ExpiryTable TcpUdpPinginfoMap
set_option autoImplicit false

structure TcpUdpResultInfo where
  n_success : UInt32 := 0
  n_failure : UInt32 := 0
  n_weird : UInt32 := 0
  ts_start : UInt64 := 0
  ts_end : UInt64 := 0
  network_delays : List UInt64 := []
  deriving DecidableEq, Repr

/-- What the result thread does to the history of a message's destination. -/
def TcpUdpResultInfo.record (info : TcpUdpResultInfo) (m : TcpUdpResultMsg) : TcpUdpResultInfo :=
  let stamped : TcpUdpResultInfo :=
    { info with
      ts_start := if info.ts_start = 0 then m.time_ping_send else info.ts_start
      ts_end := m.time_ping_send }
  match m.result with
  | .success =>
    { stamped with
      n_success := stamped.n_success + 1
      network_delays := stamped.network_delays ++ [m.network_delay] }
  | .failure => { stamped with n_failure := stamped.n_failure + 1 }
  | .weird => { stamped with n_weird := stamped.n_weird + 1 }

/-- `dstip2result` -/
abbrev TcpUdpHistory := Finmap fun _ : UInt32 => TcpUdpResultInfo

namespace TcpUdpHistory

/-- `dstip2result[dstip]`, where a missing entry starts as a default one. -/
def entryAt (h : TcpUdpHistory) (dstip : UInt32) : TcpUdpResultInfo := (h.lookup dstip).getD {}

def record (h : TcpUdpHistory) (m : TcpUdpResultMsg) : TcpUdpHistory :=
  h.insert m.dstip ((h.entryAt m.dstip).record m)

end TcpUdpHistory

namespace TcpUdpClient

/-- What became of a successful insert. -/
inductive Fate where
  | inTable
  | answered (recv_time : UInt64)
  | expired
  deriving DecidableEq, Repr

/-- A successful insert and its fate. -/
structure Ping where
  pingid : UInt64
  dstip : Text
  time_ping_send : UInt64
  insert_time : UInt64
  fate : Fate
  deriving DecidableEq, Repr

namespace Ping

/-- The table entry of the insert. -/
def entry (p : Ping) : TcpUdpPinginfo := ⟨p.pingid, p.dstip, p.time_ping_send, p.insert_time⟩

def dst (p : Ping) : UInt32 := ip2uint p.dstip

/-- The message that the ping's fate calls for. -/
def result (p : Ping) : Option TcpUdpResultMsg :=
  match p.fate with
  | .inTable => none
  | .answered recv_time =>
    some ⟨p.pingid, p.dst, p.time_ping_send, recv_time - p.insert_time, .success⟩
  | .expired => some ⟨p.pingid, p.dst, p.time_ping_send, 0, .failure⟩

end Ping

/-- The pings of the list that are still in the table, those under `keys` gone with `fate`. -/
def retire (keys : List UInt64) (fate : Fate) (pings : List Ping) : List Ping :=
  pings.map fun p => if p.fate = .inTable ∧ p.pingid ∈ keys then { p with fate := fate } else p

/-- The `key` of a table operation is the pingid. The result thread's step is one turn of its
loop, with or without a message, and `now` the clock that it reads for the report. -/
inductive Action where
  | insert (pingid : UInt64) (dstip : Text) (now steady_now : TimePoint) (system_ns : UInt64)
  | pong (pingid recv_time : UInt64)
  | result (dequeues : Bool) (now : TimePoint)
  deriving DecidableEq, Repr

def Action.insertId : Action → Option UInt64
  | .insert pingid _ _ _ _ => some pingid
  | _ => none

end TcpUdpClient

/-- The state of a client. `pings` records the successful inserts, `counted` the messages the
result thread has taken, and `reports` the histories it has sent off. -/
structure TcpUdpClient where
  table : TcpUdpPinginfoMap
  queue : List TcpUdpResultMsg
  dstip2result : TcpUdpHistory
  last_report_time : TimePoint
  reports : List TcpUdpHistory
  pings : List TcpUdpClient.Ping
  counted : List TcpUdpResultMsg

namespace TcpUdpClient

def init (threshold_ms : Nat) (start : TimePoint) : TcpUdpClient where
  table := TcpUdpPinginfoMap.init threshold_ms
  queue := []
  dstip2result := ∅
  last_report_time := start
  reports := []
  pings := []
  counted := []

def insert (c : TcpUdpClient) (pingid : UInt64) (dstip : Text) (now steady_now : TimePoint)
    (system_ns : UInt64) : TcpUdpClient :=
  let call := c.table.insert pingid pingid dstip now steady_now system_ns
  { c with
    table := call.table
    queue := c.queue ++ call.enqueued
    pings := retire ((c.table.expired now).map Prod.fst) .expired c.pings ++
      if call.ret then [⟨pingid, dstip, system_ns, convertClockToNs steady_now, .inTable⟩] else [] }

def pong (c : TcpUdpClient) (pingid recv_time : UInt64) : TcpUdpClient :=
  let call := c.table.updatePongInfo pingid recv_time
  { c with
    table := call.table
    queue := c.queue ++ call.enqueued
    pings := if call.ret then retire [pingid] (.answered recv_time) c.pings else c.pings }

/-- `wait_dequeue_timed` returned a message. -/
def dequeue (c : TcpUdpClient) : TcpUdpClient :=
  match c.queue with
  | [] => c
  | m :: rest =>
    { c with
      queue := rest
      dstip2result := c.dstip2result.record m
      counted := c.counted ++ [m] }

/-- The check of the report interval at the end of a turn. -/
def checkReport (report_interval_ms : Int) (c : TcpUdpClient) (now : TimePoint) : TcpUdpClient :=
  if report_interval_ms ≤ elapsedMs now c.last_report_time then
    { c with
      reports := c.reports ++ [c.dstip2result]
      dstip2result := ∅
      last_report_time := now }
  else c

def step (report_interval_ms : Int) (c : TcpUdpClient) : Action → TcpUdpClient
  | .insert pingid dstip now steady_now system_ns => c.insert pingid dstip now steady_now system_ns
  | .pong pingid recv_time => c.pong pingid recv_time
  | .result dequeues now =>
    checkReport report_interval_ms (if dequeues then c.dequeue else c) now

abbrev run (report_interval_ms : Int) (c : TcpUdpClient) (as : List Action) : TcpUdpClient :=
  Runs.run (step report_interval_ms) c as

def openPings (pings : List Ping) : List Ping := pings.filter fun p => p.fate = .inTable

theorem Ping.result_inTable {p : Ping} (h : p.fate = .inTable) : p.result = none := by
  rw [Ping.result, h]

/-- An open ping that goes leaves the open ones, and its message joins the others. -/
theorem openPings_retire (keys : List UInt64) {fate : Fate} (hf : fate ≠ .inTable) (pings : List Ping) :
    openPings (retire keys fate pings) = (openPings pings).filter fun p => p.pingid ∉ keys := by
  induction pings with
  | nil => rfl
  | cons p pings ih =>
    rw [openPings, retire] at ih
    rw [openPings, openPings, retire, List.map_cons, List.filter_cons, ih]
    by_cases hopen : p.fate = .inTable
    · by_cases hk : p.pingid ∈ keys
      · simp [openPings, hopen, hk, hf]
      · simp [openPings, hopen, hk]
    · simp [openPings, hopen]

theorem results_retire (keys : List UInt64) (fate : Fate) (pings : List Ping) :
    ((retire keys fate pings).filterMap Ping.result).Perm
      (pings.filterMap Ping.result ++
        ((openPings pings).filter fun p => p.pingid ∈ keys).filterMap fun p =>
          Ping.result { p with fate := fate }) := by
  induction pings with
  | nil => exact List.Perm.refl []
  | cons p pings ih =>
    by_cases hopen : p.fate = .inTable
    · by_cases hk : p.pingid ∈ keys
      · have hgone : retire keys fate (p :: pings) = { p with fate := fate } :: retire keys fate pings := by
          rw [retire, List.map_cons, if_pos ⟨hopen, hk⟩, retire]
        have hfilter : (openPings (p :: pings)).filter (fun p => p.pingid ∈ keys) =
            p :: (openPings pings).filter fun p => p.pingid ∈ keys := by
          simp [openPings, hopen, hk]
        rw [hgone, hfilter, List.filterMap_cons, List.filterMap_cons, List.filterMap_cons,
          Ping.result_inTable hopen]
        cases Ping.result { p with fate := fate } with
        | none => exact ih
        | some m => exact (ih.cons m).trans List.perm_middle.symm
      · have hsame : retire keys fate (p :: pings) = p :: retire keys fate pings := by
          rw [retire, List.map_cons, if_neg (fun h => hk h.2), retire]
        have hfilter : (openPings (p :: pings)).filter (fun p => p.pingid ∈ keys) =
            (openPings pings).filter fun p => p.pingid ∈ keys := by
          simp [openPings, hopen, hk]
        rw [hsame, hfilter, List.filterMap_cons, List.filterMap_cons, Ping.result_inTable hopen]
        exact ih
    · have hsame : retire keys fate (p :: pings) = p :: retire keys fate pings := by
        rw [retire, List.map_cons, if_neg (fun h => hopen h.1), retire]
      have hfilter : openPings (p :: pings) = openPings pings := by
        simp [openPings, hopen]
      rw [hsame, hfilter, List.filterMap_cons, List.filterMap_cons]
      cases p.result with
      | none => exact ih
      | some m => exact ih.cons m

structure Held (t : TcpUdpPinginfoMap) (pings : List Ping) : Prop where
  ids : ((openPings pings).map Ping.pingid).Nodup
  entries : ∀ key v, t.get key = some v ↔ ∃ p ∈ openPings pings, p.pingid = key ∧ p.entry = v

namespace Held
variable {t : TcpUdpPinginfoMap} {pings : List Ping}

theorem pingid (h : Held t pings) {key : UInt64} {v : TcpUdpPinginfo} (hv : t.get key = some v) :
    v.pingid = key := by
  obtain ⟨p, -, hp, rfl⟩ := (h.entries key v).mp hv
  exact hp

/-- Entries that leave the table take their open pings with them. -/
theorem retire (h : Held t pings) {t' : TcpUdpPinginfoMap} {keys : List UInt64} {fate : Fate}
    (hf : fate ≠ .inTable)
    (hkept : ∀ key v, t'.get key = some v ↔ t.get key = some v ∧ key ∉ keys) :
    Held t' (TcpUdpClient.retire keys fate pings) where
  ids := by
    rw [openPings_retire keys hf]
    exact h.ids.sublist (List.filter_sublist.map Ping.pingid)
  entries := by
    intro key v
    rw [hkept, h.entries, openPings_retire keys hf]
    constructor
    · rintro ⟨⟨p, hp, hkey, hv⟩, hnot⟩
      exact ⟨p, List.mem_filter.mpr ⟨hp, decide_eq_true (hkey ▸ hnot)⟩, hkey, hv⟩
    · rintro ⟨p, hp, hkey, hv⟩
      obtain ⟨hmem, hnot⟩ := List.mem_filter.mp hp
      exact ⟨⟨p, hmem, hkey, hv⟩, hkey ▸ of_decide_eq_true hnot⟩

theorem open_new (h : Held t pings) {t' : TcpUdpPinginfoMap} {p : Ping} (hp : p.fate = .inTable)
    (hnone : t.get p.pingid = none)
    (hget : ∀ key, t'.get key = if key = p.pingid then some p.entry else t.get key) :
    Held t' (pings ++ [p]) := by
  have hopen : openPings (pings ++ [p]) = openPings pings ++ [p] := by
    rw [openPings, List.filter_append, List.filter_cons_of_pos (by simp [hp]), List.filter_nil, openPings]
  have hnew : ∀ q ∈ openPings pings, q.pingid ≠ p.pingid := by
    intro q hq heq
    have hsome := (h.entries q.pingid q.entry).mpr ⟨q, hq, rfl, rfl⟩
    rw [heq, hnone] at hsome
    cases hsome
  constructor
  · rw [hopen, List.map_append, List.nodup_append]
    refine ⟨h.ids, List.nodup_singleton _, ?_⟩
    rintro _ ha b hb rfl
    obtain ⟨q, hq, hqid⟩ := List.mem_map.mp ha
    rw [List.map_singleton, List.mem_singleton] at hb
    exact hnew q hq (hqid.trans hb)
  · intro key v
    rw [hget, hopen]
    split
    · rename_i hk
      rw [hk, Option.some.injEq]
      constructor
      · rintro rfl
        exact ⟨p, List.mem_append_right _ List.mem_cons_self, rfl, rfl⟩
      · rintro ⟨q, hq, hqid, rfl⟩
        rcases List.mem_append.mp hq with hold | hlast
        · exact absurd hqid (hnew q hold)
        · rw [List.mem_singleton.mp hlast]
    · rename_i hk
      rw [h.entries]
      constructor
      · rintro ⟨q, hq, hqv⟩
        exact ⟨q, List.mem_append_left _ hq, hqv⟩
      · rintro ⟨q, hq, hqid, hqv⟩
        rcases List.mem_append.mp hq with hold | hlast
        · exact ⟨q, hold, hqid, hqv⟩
        · rw [List.mem_singleton.mp hlast] at hqid
          exact absurd hqid.symm hk

/-- The open pings under the keys of some entries are these entries. -/
theorem gone_perm (h : Held t pings) {gone : List (UInt64 × Entry TcpUdpPinginfo)}
    (hnodup : (gone.map Prod.fst).Nodup) (hfind : ∀ q ∈ gone, t.find q.1 = some q.2) :
    (((openPings pings).filter fun p => p.pingid ∈ gone.map Prod.fst).map Ping.entry).Perm
      (gone.map fun q => q.2.value) := by
  have hids : ∀ q ∈ gone, q.2.value.pingid = q.1 := by
    intro q hq
    exact h.pingid (t.get_eq_some.mpr ⟨q.2, hfind q hq, rfl⟩)
  apply (List.perm_ext_iff_of_nodup ?_ ?_).mpr
  · intro v
    constructor
    · intro hv
      obtain ⟨p, hp, rfl⟩ := List.mem_map.mp hv
      obtain ⟨hopen, hkey⟩ := List.mem_filter.mp hp
      obtain ⟨q, hq, hqid⟩ := List.mem_map.mp (of_decide_eq_true hkey)
      have hget := (h.entries q.1 p.entry).mpr ⟨p, hopen, hqid.symm, rfl⟩
      obtain ⟨e, he, hev⟩ := t.get_eq_some.mp hget
      rw [hfind q hq] at he
      cases he
      exact hev ▸ List.mem_map_of_mem hq
    · intro hv
      obtain ⟨q, hq, rfl⟩ := List.mem_map.mp hv
      obtain ⟨p, hopen, hkey, hp⟩ :=
        (h.entries q.1 q.2.value).mp (t.get_eq_some.mpr ⟨q.2, hfind q hq, rfl⟩)
      refine List.mem_map.mpr ⟨p, List.mem_filter.mpr ⟨hopen, decide_eq_true ?_⟩, hp⟩
      exact hkey ▸ List.mem_map_of_mem hq
  · apply List.Nodup.of_map TcpUdpPinginfo.pingid
    rw [List.map_map]
    exact h.ids.sublist (List.filter_sublist.map Ping.pingid)
  · apply List.Nodup.of_map TcpUdpPinginfo.pingid
    rw [List.map_map]
    refine (List.map_congr_left ?_ : _ = gone.map Prod.fst) ▸ hnodup
    exact hids

end Held

end TcpUdpClient
end Pingweave
