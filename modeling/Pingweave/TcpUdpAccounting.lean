import Mathlib.Algebra.BigOperators.Group.List.Basic
import Pingweave.TcpUdpClient

/-!
# Accounting for the results of the TCP and UDP clients

A successful insert goes from the table through the queue into a history, and from there into
a report. Nothing is lost or counted twice on the way, in any run that leaves the counters of
the histories within their 32 bits.
-/

namespace Pingweave
open ExpiryTable TcpUdpPinginfoMap
set_option autoImplicit false

/-- The counter that the message increments is at its maximum. -/
def TcpUdpResultInfo.full (info : TcpUdpResultInfo) (m : TcpUdpResultMsg) : Bool :=
  match m.result with
  | .success => info.n_success = 4294967295
  | .failure => info.n_failure = 4294967295
  | .weird => info.n_weird = 4294967295

namespace TcpUdpResultMsg

def counts (m : TcpUdpResultMsg) (result : PingResult) (dst : UInt32) : Bool :=
  m.dstip = dst ∧ m.result = result

end TcpUdpResultMsg

theorem toNat_add_one {n : UInt32} (h : n ≠ 4294967295) : (n + 1).toNat = n.toNat + 1 := by
  have hlt := n.toNat_lt
  have hne : n.toNat ≠ 4294967295 := fun heq => h (UInt32.toNat_inj.mp heq)
  simp only [UInt32.toNat_add, UInt32.reduceToNat]
  omega

namespace TcpUdpResultInfo
variable {info : TcpUdpResultInfo} {m : TcpUdpResultMsg}

theorem record_n_success (h : info.full m = false) :
    (info.record m).n_success.toNat = info.n_success.toNat + if m.result = .success then 1 else 0 := by
  cases hr : m.result with
  | success =>
    simp only [full, hr, decide_eq_false_iff_not] at h
    simpa [record, hr] using toNat_add_one h
  | failure => simp [record, hr]
  | weird => simp [record, hr]

theorem record_n_failure (h : info.full m = false) :
    (info.record m).n_failure.toNat = info.n_failure.toNat + if m.result = .failure then 1 else 0 := by
  cases hr : m.result with
  | failure =>
    simp only [full, hr, decide_eq_false_iff_not] at h
    simpa [record, hr] using toNat_add_one h
  | success => simp [record, hr]
  | weird => simp [record, hr]

theorem record_network_delays (info : TcpUdpResultInfo) (m : TcpUdpResultMsg) :
    (info.record m).network_delays =
      info.network_delays ++ if m.result = .success then [m.network_delay] else [] := by
  cases hr : m.result <;> simp [record, hr]

end TcpUdpResultInfo

namespace TcpUdpHistory

@[simp] theorem entryAt_empty (dst : UInt32) : entryAt ∅ dst = {} := by
  rw [entryAt, Finmap.lookup_empty]
  rfl

theorem entryAt_record (h : TcpUdpHistory) (m : TcpUdpResultMsg) (dst : UInt32) :
    (h.record m).entryAt dst = if m.dstip = dst then (h.entryAt dst).record m else h.entryAt dst := by
  split
  · rename_i hd
    subst hd
    rw [entryAt, record, Finmap.lookup_insert]
    rfl
  · rename_i hd
    rw [entryAt, record, Finmap.lookup_insert_of_ne _ (Ne.symm hd)]
    rfl

end TcpUdpHistory

namespace TcpUdpClient

def histories (c : TcpUdpClient) : List TcpUdpHistory := c.reports ++ [c.dstip2result]

def inserted (c : TcpUdpClient) (dst : UInt32) : Nat := c.pings.countP fun p => p.dst = dst

def inTable (c : TcpUdpClient) (dst : UInt32) : Nat :=
  (c.table.table.map.keys.filter fun key =>
    (c.table.get key).any fun v => ip2uint v.dstip = dst).card

def inQueue (c : TcpUdpClient) (dst : UInt32) : Nat := c.queue.countP fun m => m.dstip = dst

/-- The histories hold exactly the counted messages. -/
structure Tallied (hs : List TcpUdpHistory) (counted : List TcpUdpResultMsg) : Prop where
  successes : ∀ dst, (hs.map fun h => (h.entryAt dst).n_success.toNat).sum =
    counted.countP fun m => m.counts .success dst
  failures : ∀ dst, (hs.map fun h => (h.entryAt dst).n_failure.toNat).sum =
    counted.countP fun m => m.counts .failure dst
  delays : ∀ dst, (hs.flatMap fun h => (h.entryAt dst).network_delays) =
    (counted.filter fun m => m.counts .success dst).map TcpUdpResultMsg.network_delay
  lengths : ∀ h ∈ hs, ∀ dst, (h.entryAt dst).network_delays.length = (h.entryAt dst).n_success.toNat

/-- Every successful insert is in one place only, and ends up where its fate says. -/
structure Conserved (c : TcpUdpClient) : Prop where
  balance : ∀ dst, c.inserted dst = c.inTable dst + c.inQueue dst +
    (c.histories.map fun h => (h.entryAt dst).n_success.toNat + (h.entryAt dst).n_failure.toNat).sum
  entries : ∀ key v, c.table.get key = some v ↔
    ∃ p ∈ c.pings, p.fate = .inTable ∧ p.pingid = key ∧ p.entry = v
  once : (c.pings.filterMap Ping.result).Perm (c.counted ++ c.queue)
  tallied : Tallied c.histories c.counted

namespace Tallied

/-- A message that does not wrap its counter is added to the tally of the last history. -/
theorem record {rs : List TcpUdpHistory} {h : TcpUdpHistory} {counted : List TcpUdpResultMsg}
    {m : TcpUdpResultMsg} (ht : Tallied (rs ++ [h]) counted)
    (hfits : (h.entryAt m.dstip).full m = false) : Tallied (rs ++ [h.record m]) (counted ++ [m]) where
  successes := by
    intro dst
    have hold := ht.successes dst
    rw [List.map_append, List.sum_append, List.map_singleton, List.sum_singleton] at hold ⊢
    rw [List.countP_append, List.countP_singleton, ← hold, TcpUdpHistory.entryAt_record,
      TcpUdpResultMsg.counts]
    by_cases hd : m.dstip = dst
    · subst hd
      rw [if_pos rfl, TcpUdpResultInfo.record_n_success hfits]
      simp [Nat.add_assoc]
    · simp [hd]
  failures := by
    intro dst
    have hold := ht.failures dst
    rw [List.map_append, List.sum_append, List.map_singleton, List.sum_singleton] at hold ⊢
    rw [List.countP_append, List.countP_singleton, ← hold, TcpUdpHistory.entryAt_record,
      TcpUdpResultMsg.counts]
    by_cases hd : m.dstip = dst
    · subst hd
      rw [if_pos rfl, TcpUdpResultInfo.record_n_failure hfits]
      simp [Nat.add_assoc]
    · simp [hd]
  delays := by
    intro dst
    have hold := ht.delays dst
    rw [List.flatMap_append, List.flatMap_singleton] at hold ⊢
    rw [List.filter_append, List.map_append, ← hold, TcpUdpHistory.entryAt_record, List.append_assoc]
    by_cases hd : m.dstip = dst
    · subst hd
      rw [if_pos rfl, TcpUdpResultInfo.record_network_delays]
      by_cases hr : m.result = .success <;> simp [TcpUdpResultMsg.counts, hr]
    · simp [TcpUdpResultMsg.counts, hd]
  lengths := by
    intro h' hh' dst
    rcases List.mem_append.mp hh' with hold | hlast
    · exact ht.lengths h' (List.mem_append_left _ hold) dst
    · have hlen := ht.lengths h (List.mem_append_right _ List.mem_cons_self) dst
      rw [List.mem_singleton.mp hlast, TcpUdpHistory.entryAt_record]
      split
      · rename_i hd
        subst hd
        rw [TcpUdpResultInfo.record_network_delays, TcpUdpResultInfo.record_n_success hfits,
          List.length_append, hlen]
        split <;> rfl
      · exact hlen

theorem clear {hs : List TcpUdpHistory} {counted : List TcpUdpResultMsg} (ht : Tallied hs counted) :
    Tallied (hs ++ [∅]) counted where
  successes := by
    intro dst
    rw [List.map_append, List.sum_append, ht.successes]
    simp
  failures := by
    intro dst
    rw [List.map_append, List.sum_append, ht.failures]
    simp
  delays := by
    intro dst
    rw [List.flatMap_append, ht.delays]
    simp
  lengths := by
    intro h hh dst
    rcases List.mem_append.mp hh with hold | hlast
    · exact ht.lengths h hold dst
    · rw [List.mem_singleton.mp hlast]
      simp

end Tallied

namespace Held
variable {t : TcpUdpPinginfoMap} {pings : List Ping}

/-- Entries that leave the table turn into the messages that their fate calls for. -/
theorem results_perm (h : Held t pings) {gone : List (UInt64 × Entry TcpUdpPinginfo)}
    (hnodup : (gone.map Prod.fst).Nodup) (hfind : ∀ q ∈ gone, t.find q.1 = some q.2) {fate : Fate}
    (msg : TcpUdpPinginfo → TcpUdpResultMsg)
    (hmsg : ∀ p : Ping, Ping.result { p with fate := fate } = some (msg p.entry)) :
    ((TcpUdpClient.retire (gone.map Prod.fst) fate pings).filterMap Ping.result).Perm
      (pings.filterMap Ping.result ++ gone.map fun q => msg q.2.value) := by
  apply (results_retire (gone.map Prod.fst) fate pings).trans
  apply List.Perm.append_left
  have hmap : (fun p : Ping => Ping.result { p with fate := fate }) = fun p => some (msg p.entry) :=
    funext hmsg
  have hgone := (h.gone_perm hnodup hfind).map msg
  rw [List.map_map, List.map_map] at hgone
  rw [hmap, List.filterMap_eq_map']
  exact hgone

theorem congr (h : Held t pings) {t' : TcpUdpPinginfoMap} (hget : ∀ key, t'.get key = t.get key) :
    Held t' pings :=
  ⟨h.ids, fun key v => by rw [hget, h.entries]⟩

end Held

/-- The invariant of the client. -/
structure Ok (c : TcpUdpClient) : Prop where
  held : Held c.table c.pings
  once : (c.pings.filterMap Ping.result).Perm (c.counted ++ c.queue)
  tallied : Tallied c.histories c.counted

theorem init_ok (threshold_ms : Nat) (start : TimePoint) : (init threshold_ms start).Ok where
  held := ⟨List.nodup_nil, by simp [init, openPings]⟩
  once := List.Perm.refl []
  tallied := (⟨fun _ => rfl, fun _ => rfl, fun _ => rfl, by simp⟩ : Tallied [] []).clear

/-- A turn that takes a message does not wrap the counter it increments. -/
def NoWrap (c : TcpUdpClient) : Action → Prop
  | .result true _ => ∀ m ∈ c.queue.head?, (c.dstip2result.entryAt m.dstip).full m = false
  | _ => True

namespace Ok
variable {c : TcpUdpClient}

theorem insert (h : c.Ok) (pingid : UInt64) (dstip : Text) (now steady_now : TimePoint)
    (system_ns : UInt64) : (c.insert pingid dstip now steady_now system_ns).Ok := by
  have hheld : Held (c.table.expireEntries now).1
      (retire ((c.table.expired now).map Prod.fst) .expired c.pings) :=
    h.held.retire (by decide) (c.table.get_expireEntries now)
  have honce : ((retire ((c.table.expired now).map Prod.fst) .expired c.pings).filterMap
      Ping.result).Perm (c.counted ++ (c.queue ++ (c.table.expired now).map fun q => q.2.value.failure)) := by
    rw [← List.append_assoc]
    exact (h.held.results_perm (c.table.expired_nodup now)
      (fun q hq => c.table.find_of_mem_expired hq) TcpUdpPinginfo.failure (fun p => rfl)).trans (h.once.append_right _)
  have hget := c.table.get_insert pingid pingid dstip now steady_now system_ns
  have hret := c.table.insert_ret pingid pingid dstip now steady_now system_ns
  refine ⟨?_, ?_, h.tallied⟩
  · rw [TcpUdpClient.insert]
    cases hr : (c.table.insert pingid pingid dstip now steady_now system_ns).ret with
    | true =>
      rw [hr] at hret
      refine hheld.open_new rfl (Option.isNone_iff_eq_none.mp hret.symm) ?_
      intro key
      rw [hget, hr]
      simp only [true_and]
      rfl
    | false =>
      simp only [Bool.false_eq_true, if_false, List.append_nil]
      refine hheld.congr ?_
      intro key
      rw [hget, hr]
      simp only [Bool.false_eq_true, false_and, if_false]
  · rw [TcpUdpClient.insert]
    simp only [insert_enqueued]
    rw [List.filterMap_append]
    cases (c.table.insert pingid pingid dstip now steady_now system_ns).ret with
    | true =>
      rw [if_pos rfl, List.filterMap_cons_none (Ping.result_inTable rfl), List.filterMap_nil,
        List.append_nil]
      exact honce
    | false =>
      rw [if_neg Bool.false_ne_true, List.filterMap_nil, List.append_nil]
      exact honce

theorem pong (h : c.Ok) (pingid recv_time : UInt64) : (c.pong pingid recv_time).Ok := by
  cases hf : c.table.find pingid with
  | none =>
    have hsame : c.pong pingid recv_time = c := by
      simp [TcpUdpClient.pong, updatePongInfo, hf]
    rw [hsame]
    exact h
  | some e =>
    have hid : e.value.pingid = pingid := h.held.pingid (c.table.get_eq_some.mpr ⟨e, hf, rfl⟩)
    have hmsg : ∀ p : Ping, Ping.result { p with fate := .answered recv_time } =
        some (p.entry.success recv_time) := by
      intro p
      rw [TcpUdpPinginfo.success, calcTimeDeltaWithBitwrap_max]
      rfl
    have hfind : ∀ q ∈ [(pingid, e)], c.table.find q.1 = some q.2 := by
      intro q hq
      rw [List.mem_singleton.mp hq]
      exact hf
    have hnodup : ([(pingid, e)].map Prod.fst).Nodup := List.nodup_singleton pingid
    have hperm := h.held.results_perm hnodup hfind (fun v => v.success recv_time) hmsg
    refine ⟨?_, ?_, h.tallied⟩
    · simp only [TcpUdpClient.pong, updatePongInfo, hf, if_true, hid]
      exact h.held.retire (by simp) (c.table.get_remove pingid)
    · simp only [TcpUdpClient.pong, updatePongInfo, hf, if_true]
      rw [← List.append_assoc]
      exact hperm.trans (h.once.append_right _)

theorem dequeue (h : c.Ok)
    (hfits : ∀ m ∈ c.queue.head?, (c.dstip2result.entryAt m.dstip).full m = false) : c.dequeue.Ok := by
  unfold TcpUdpClient.dequeue
  cases hq : c.queue with
  | nil => exact h
  | cons m rest =>
    rw [hq] at hfits
    refine ⟨h.held, ?_, h.tallied.record (hfits m rfl)⟩
    have honce := h.once
    rw [hq] at honce
    simpa using honce

theorem checkReport (h : c.Ok) (report_interval_ms : Int) (now : TimePoint) :
    (checkReport report_interval_ms c now).Ok := by
  unfold TcpUdpClient.checkReport
  split
  · exact ⟨h.held, h.once, h.tallied.clear⟩
  · exact h

theorem step (h : c.Ok) (report_interval_ms : Int) {a : Action} (hfits : c.NoWrap a) :
    (step report_interval_ms c a).Ok := by
  cases a with
  | insert pingid dstip now steady_now system_ns => exact h.insert pingid dstip now steady_now system_ns
  | pong pingid recv_time => exact h.pong pingid recv_time
  | result dequeues now =>
    cases dequeues with
    | false => exact h.checkReport report_interval_ms now
    | true => exact (h.dequeue hfits).checkReport report_interval_ms now

end Ok

theorem Ping.result_dst {p : Ping} {m : TcpUdpResultMsg} (h : p.result = some m) : m.dstip = p.dst := by
  unfold Ping.result at h
  split at h <;> cases h <;> rfl

theorem Ping.result_ne_weird {p : Ping} {m : TcpUdpResultMsg} (h : p.result = some m) :
    m.result ≠ .weird := by
  unfold Ping.result at h
  split at h <;> cases h <;> exact PingResult.noConfusion

theorem Ping.result_eq_none {p : Ping} : p.result = none ↔ p.fate = .inTable := by
  unfold Ping.result
  split <;> simp_all

/-- Pings are open or have their message out. -/
theorem countP_pings (pings : List Ping) (dst : UInt32) :
    pings.countP (fun p => p.dst = dst) = (openPings pings).countP (fun p => p.dst = dst) +
      (pings.filterMap Ping.result).countP fun m => m.dstip = dst := by
  induction pings with
  | nil => rfl
  | cons p pings ih =>
    rw [openPings] at ih
    rw [List.countP_cons, ih, openPings, List.filter_cons]
    cases hr : p.result with
    | none =>
      have hopen := Ping.result_eq_none.mp hr
      rw [List.filterMap_cons_none hr, if_pos (decide_eq_true hopen), List.countP_cons]
      omega
    | some m =>
      have hclosed : ¬decide (p.fate = .inTable) = true := by
        intro hopen
        rw [Ping.result_inTable (of_decide_eq_true hopen)] at hr
        cases hr
      rw [List.filterMap_cons_some hr, if_neg hclosed, List.countP_cons, Ping.result_dst hr]
      omega

theorem countP_messages (dst : UInt32) {ms : List TcpUdpResultMsg} (h : ∀ m ∈ ms, m.result ≠ .weird) :
    ms.countP (fun m => m.dstip = dst) =
      ms.countP (fun m => m.counts .success dst) + ms.countP fun m => m.counts .failure dst := by
  induction ms with
  | nil => rfl
  | cons m ms ih =>
    have hm := h m List.mem_cons_self
    rw [List.countP_cons, List.countP_cons, List.countP_cons,
      ih fun m' hm' => h m' (List.mem_cons_of_mem m hm')]
    cases hr : m.result with
    | success => simp [TcpUdpResultMsg.counts, hr]; omega
    | failure => simp [TcpUdpResultMsg.counts, hr]; omega
    | weird => exact absurd hr hm

/-- The open pings for a destination are its entries in the table. -/
theorem Held.inTable_eq {c : TcpUdpClient} (h : Held c.table c.pings) (dst : UInt32) :
    c.inTable dst = (openPings c.pings).countP fun p => p.dst = dst := by
  have hkeys : c.table.table.map.keys.filter (fun key =>
      (c.table.get key).any fun v => ip2uint v.dstip = dst) =
      (((openPings c.pings).filter fun p => p.dst = dst).map Ping.pingid).toFinset := by
    ext key
    rw [Finset.mem_filter, List.mem_toFinset, List.mem_map, Finmap.mem_keys, Finmap.mem_iff]
    constructor
    · rintro ⟨-, hany⟩
      obtain ⟨v, hv, hdst⟩ := (Option.any_eq_true _ _).mp hany
      obtain ⟨p, hp, hkey, rfl⟩ := (h.entries key v).mp hv
      exact ⟨p, List.mem_filter.mpr ⟨hp, hdst⟩, hkey⟩
    · rintro ⟨p, hp, rfl⟩
      obtain ⟨hopen, hdst⟩ := List.mem_filter.mp hp
      have hget := (h.entries p.pingid p.entry).mpr ⟨p, hopen, rfl, rfl⟩
      obtain ⟨e, he, -⟩ := c.table.get_eq_some.mp hget
      refine ⟨⟨e, he⟩, ?_⟩
      rw [hget]
      exact hdst
  rw [inTable, hkeys, List.toFinset_card_of_nodup, List.length_map, List.countP_eq_length_filter]
  exact h.ids.sublist (List.filter_sublist.map Ping.pingid)

theorem Ok.conserved {c : TcpUdpClient} (h : c.Ok) : c.Conserved where
  balance := by
    intro dst
    have hquiet : ∀ m ∈ c.counted, m.result ≠ .weird := by
      intro m hm
      obtain ⟨p, -, hp⟩ := List.mem_filterMap.mp (h.once.mem_iff.mpr (List.mem_append_left _ hm))
      exact Ping.result_ne_weird hp
    have hsent := h.once.countP_eq fun m => decide (m.dstip = dst)
    rw [List.countP_append] at hsent
    rw [inserted, countP_pings, ← h.held.inTable_eq, hsent, countP_messages dst hquiet, inQueue,
      List.sum_map_add, h.tallied.successes, h.tallied.failures]
    omega
  entries := by
    intro key v
    rw [h.held.entries]
    simp [openPings, and_assoc]
  once := h.once
  tallied := h.tallied

instance (c : TcpUdpClient) (a : Action) : Decidable (c.NoWrap a) :=
  match a with
  | .result true _ => inferInstanceAs (Decidable (∀ m ∈ c.queue.head?, _))
  | .result false _ => isTrue trivial
  | .insert _ _ _ _ _ => isTrue trivial
  | .pong _ _ => isTrue trivial

/-- Round `i` of a client at 10.0.0.1: a ping to 10.0.0.2 that is answered and counted at once. -/
def round (i : Nat) : List Action :=
  [.insert (makePingid 16777226 (UInt32.ofNat i)) ['1', '0', '.', '0', '.', '0', '.', '2'] 0 0 5,
    .pong (makePingid 16777226 (UInt32.ofNat i)) 9, .result true 0]

def rounds (n : Nat) : List Action := (List.range n).flatMap round

/-- Between two rounds everything has been counted, as a success. -/
structure Settled (c : TcpUdpClient) (n : Nat) : Prop where
  table : ∀ key, c.table.get key = none
  queue : c.queue = []
  reports : c.reports = []
  last_report_time : c.last_report_time = 0
  inserted : c.inserted 33554442 = n
  n_failure : (c.dstip2result.entryAt 33554442).n_failure = 0

end TcpUdpClient
end Pingweave
