import Pingweave.Library.ExpiryOrder
import Pingweave.Library.Runs
import Pingweave.RdmaPingMsg
import Pingweave.RdmaPingOps
import Pingweave.TcpUdpPingInfo

/-!
# The three ping tables under a clock that does not run back

`PingMsgMap`, `RdmaPinginfoMap` and `TcpUdpPinginfoMap` keep their map and their key list in
step and in the order of the time stamps, so their expiry finds every stale entry at the front.
-/

namespace Pingweave
open ExpiryTable
set_option autoImplicit false

universe u v

namespace PingMsgMap

/-- The operations that can change the table; `get`, `empty` and `size` only read it. -/
inductive Op where
  | insert (key : UInt64) (value : RdmaPingmsg) (now steady_now : TimePoint)
  | remove (key : UInt64)
  deriving DecidableEq, Repr

def Op.clocks : Op → List TimePoint
  | .insert _ _ now steady_now => [now, steady_now]
  | .remove _ => []

def apply (t : PingMsgMap) : Op → PingMsgMap
  | .insert key value now steady_now => (t.insert key value now steady_now).1
  | .remove key => (t.remove key).1

end PingMsgMap

namespace RdmaPinginfoMap

def Op.clocks : Op → List TimePoint
  | .insert _ _ now steady_now _ => [now, steady_now]
  | .update _ _ => []
  | .probe now => [now]

end RdmaPinginfoMap

namespace TcpUdpPinginfoMap

/-- The operations, with the pingid as the key; `probe` stands for `empty` and `size`, which
expire entries, and `get` only reads. -/
inductive Op where
  | insert (pingid : UInt64) (dstip : Text) (now steady_now : TimePoint) (system_ns : UInt64)
  | pong (pingid recv_time : UInt64)
  | probe (now : TimePoint)
  deriving DecidableEq, Repr

def Op.clocks : Op → List TimePoint
  | .insert _ _ now steady_now _ => [now, steady_now]
  | .pong _ _ => []
  | .probe now => [now]

def apply (t : TcpUdpPinginfoMap) : Op → TcpUdpPinginfoMap
  | .insert pingid dstip now steady_now system_ns =>
    (t.insert pingid pingid dstip now steady_now system_ns).table
  | .pong pingid recv_time => (t.updatePongInfo pingid recv_time).table
  | .probe now => (t.expireEntries now).1

end TcpUdpPinginfoMap

/-- The entries that are at least `threshold_ms` old in whole milliseconds. -/
def aged {V : Type v} (threshold_ms : Nat) (now : TimePoint) (e : Entry V) : Bool :=
  threshold_ms ≤ elapsedMs now e.timestamp

/-- `expireEntries` at `now`: what it takes out, in which order, and what it leaves. -/
structure ExpiresAged {V : Type v} (threshold_ms : Nat) (t : Table UInt64 V) (now : TimePoint) : Prop where
  removed : ∀ key e, (key, e) ∈ (t.expire (aged threshold_ms now)).2 ↔
    t.find key = some e ∧ threshold_ms ≤ elapsedMs now e.timestamp
  kept : ∀ key e, (t.expire (aged threshold_ms now)).1.find key = some e ↔
    t.find key = some e ∧ elapsedMs now e.timestamp < threshold_ms
  order : ∃ gone, t.keyList = gone ++ (t.expire (aged threshold_ms now)).1.keyList ∧
    (t.expire (aged threshold_ms now)).2.map Prod.fst = gone.map Node.key
  no_skip : ¬Table.LoopSkips (aged threshold_ms now) t.keyList t.map

/-- The list and the map list the same keys, and the list is in the order of insertion and of the
time stamps. -/
structure Represented {V : Type v} (threshold_ms : Nat) (t : Table UInt64 V) : Prop where
  nodup : (t.keyList.map Node.key).Nodup
  keys : ∀ key, key ∈ t.keyList.map Node.key ↔ (t.find key).isSome
  listIter : ∀ key e, t.find key = some e → ⟨e.listIter, key⟩ ∈ t.keyList
  insertion : t.keyList.Pairwise fun m n => m.id < n.id
  sorted : t.keyList.Pairwise fun m n =>
    ∀ d e, t.find m.key = some d → t.find n.key = some e → d.timestamp ≤ e.timestamp
  expires : ∀ now, ExpiresAged threshold_ms t now

/-- A well-formed table whose time stamps are clock readings of the past. -/
structure InOrder {V : Type v} (t : Table UInt64 V) (past : List TimePoint) : Prop where
  wf : t.Wf
  stamps : ∀ key e, t.find key = some e → e.timestamp ∈ past

theorem aged_mono {V : Type v} (threshold_ms : Nat) (now : TimePoint) (d e : Entry V)
    (hle : d.timestamp ≤ e.timestamp) (he : aged threshold_ms now e = true) :
    aged threshold_ms now d = true := by
  have hage : elapsedMs now e.timestamp ≤ elapsedMs now d.timestamp :=
    Nat.div_le_div_right (Nat.sub_le_sub_left hle now)
  exact decide_eq_true (Nat.le_trans (of_decide_eq_true he) hage)

namespace InOrder
variable {V : Type v} {t : Table UInt64 V} {past : List TimePoint}

theorem represented (h : InOrder t past) (threshold_ms : Nat) : Represented threshold_ms t where
  nodup := h.wf.keys
  keys := h.wf.mem_keys
  listIter := fun _ _ he => h.wf.node_mem he
  insertion := h.wf.ids
  sorted := h.wf.sorted
  expires := by
    intro now
    obtain ⟨hsplit, -, hskip⟩ := h.wf.expire_split (aged threshold_ms now)
    refine ⟨?_, ?_, hsplit, hskip⟩
    · intro key e
      rw [h.wf.mem_expired_iff _ (aged_mono threshold_ms now), aged, decide_eq_true_eq]
    · intro key e
      rw [h.wf.find_expire_iff _ (aged_mono threshold_ms now), aged, decide_eq_false_iff_not, Nat.not_le]

theorem empty : InOrder (Table.empty : Table UInt64 V) [] where
  wf := Table.wf_empty
  stamps := by
    intro key e he
    rw [Table.find_empty] at he
    cases he

theorem mono (h : InOrder t past) (more : List TimePoint) : InOrder t (past ++ more) :=
  ⟨h.wf, fun key e he => List.mem_append_left _ (h.stamps key e he)⟩

theorem expire (h : InOrder t past) (stale : Entry V → Bool) : InOrder (t.expire stale).1 past :=
  ⟨h.wf.expire stale, fun key e he => h.stamps key e (Table.find_of_find_expire he)⟩

theorem remove (h : InOrder t past) (key : UInt64) : InOrder (t.remove key).1 past :=
  ⟨h.wf.remove key, fun key' e he => h.stamps key' e ((Table.find_remove t key key' e).mp he).1⟩

theorem assign (h : InOrder t past) (key : UInt64) (value : V) : InOrder (t.assign key value) past where
  wf := h.wf.assign key value
  stamps := by
    intro key' e he
    rw [Table.find_assign] at he
    obtain ⟨d, hd, rfl⟩ := Option.map_eq_some_iff.mp he
    have hpast := h.stamps key' d hd
    split <;> exact hpast

theorem emplace (h : InOrder t past) {key : UInt64} (hnone : t.find key = none) (value : V)
    {now steady_now : TimePoint} (hclock : (past ++ [now, steady_now]).Pairwise (· ≤ ·)) :
    InOrder (t.emplace key value steady_now) (past ++ [now, steady_now]) where
  wf := by
    refine h.wf.emplace hnone value ?_
    intro k e he
    exact (List.pairwise_append.mp hclock).2.2 _ (h.stamps k e he) steady_now (by simp)
  stamps := by
    intro key' e he
    by_cases hk : key' = key
    · subst hk
      rw [Table.find_emplace_self] at he
      cases he
      simp
    · rw [Table.find_emplace_ne t value steady_now hk] at he
      exact List.mem_append_left _ (h.stamps key' e he)

end InOrder

/-- What every operation keeps, given its clock readings, holds after every run. -/
theorem inOrder_run {V : Type v} {σ : Type u} {α : Type} (table : σ → Table UInt64 V) (step : σ → α → σ)
    (clocks : α → List TimePoint) {s : σ} (hs : InOrder (table s) [])
    (hstep : ∀ s a past, InOrder (table s) past → (past ++ clocks a).Pairwise (· ≤ ·) →
      InOrder (table (step s a)) (past ++ clocks a))
    (as : List α) (hclock : (as.flatMap clocks).Pairwise (· ≤ ·)) :
    InOrder (table (Runs.run step s as)) (as.flatMap clocks) := by
  induction as using List.reverseRecOn with
  | nil => exact hs
  | append_singleton as a ih =>
    rw [List.flatMap_append, List.flatMap_singleton] at hclock ⊢
    rw [Runs.run_concat]
    exact hstep _ a _ (ih (List.pairwise_append.mp hclock).1) hclock

theorem PingMsgMap.inOrder_apply (t : PingMsgMap) (op : Op) (past : List TimePoint)
    (h : InOrder t.table past) (hclock : (past ++ op.clocks).Pairwise (· ≤ ·)) :
    InOrder (t.apply op).table (past ++ op.clocks) := by
  cases op with
  | insert key value now steady_now =>
    have hx : InOrder (t.expireEntries now).table past := h.expire _
    cases hf : (t.expireEntries now).find key with
    | some e =>
      simp only [apply, PingMsgMap.insert, hf]
      exact hx.mono _
    | none =>
      simp only [apply, PingMsgMap.insert, hf]
      exact hx.emplace hf value hclock
  | remove key => exact (h.remove key).mono _

theorem RdmaPinginfoMap.inOrder_updateEntry (t : RdmaPinginfoMap) (key : UInt64)
    (receive : RdmaPinginfo → RdmaPinginfo) {past : List TimePoint} (h : InOrder t.table past) :
    InOrder (t.updateEntry key receive).table.table past := by
  unfold updateEntry
  split
  · exact h
  · rename_i e he
    have ha : InOrder (t.table.assign key (receive e.value)) past := h.assign key _
    simp only [logging]
    split
    · split <;> exact ha.remove _
    · exact ha

theorem RdmaPinginfoMap.inOrder_apply (t : RdmaPinginfoMap) (op : Op) (past : List TimePoint)
    (h : InOrder t.table past) (hclock : (past ++ op.clocks).Pairwise (· ≤ ·)) :
    InOrder (t.apply op).table.table (past ++ op.clocks) := by
  cases op with
  | insert msg dstip now steady_now system_ns =>
    have hx : InOrder (t.expireEntries now).1.table past := h.expire _
    cases hf : (t.expireEntries now).1.find msg.pingid with
    | some e =>
      simp only [apply, RdmaPinginfoMap.insert, hf]
      exact hx.mono _
    | none =>
      simp only [apply, RdmaPinginfoMap.insert, hf]
      exact hx.emplace hf _ hclock
  | update key event =>
    refine InOrder.mono ?_ _
    cases event <;> exact inOrder_updateEntry t key _ h
  | probe now => exact (h.expire _).mono _

theorem TcpUdpPinginfoMap.inOrder_apply (t : TcpUdpPinginfoMap) (op : Op) (past : List TimePoint)
    (h : InOrder t.table past) (hclock : (past ++ op.clocks).Pairwise (· ≤ ·)) :
    InOrder (t.apply op).table (past ++ op.clocks) := by
  cases op with
  | insert pingid dstip now steady_now system_ns =>
    have hx : InOrder (t.expireEntries now).1.table past := h.expire _
    cases hf : (t.expireEntries now).1.find pingid with
    | some e =>
      simp only [apply, TcpUdpPinginfoMap.insert, hf]
      exact hx.mono _
    | none =>
      simp only [apply, TcpUdpPinginfoMap.insert, hf]
      exact hx.emplace hf _ hclock
  | pong pingid recv_time =>
    simp only [apply, updatePongInfo]
    split
    · exact h.mono _
    · exact (h.remove _).mono _
  | probe now => exact (h.expire _).mono _

theorem PingMsgMap.threshold_apply (t : PingMsgMap) (op : Op) : (t.apply op).threshold_ms = t.threshold_ms := by
  cases op with
  | insert key value now steady_now =>
    simp only [apply, PingMsgMap.insert]
    split <;> rfl
  | remove key => rfl

theorem RdmaPinginfoMap.threshold_updateEntry (t : RdmaPinginfoMap) (key : UInt64)
    (receive : RdmaPinginfo → RdmaPinginfo) :
    (t.updateEntry key receive).table.threshold_ms = t.threshold_ms := by
  unfold updateEntry
  split
  · rfl
  · simp only [logging]
    split
    · split <;> rfl
    · rfl

theorem RdmaPinginfoMap.threshold_apply (t : RdmaPinginfoMap) (op : Op) :
    (t.apply op).table.threshold_ms = t.threshold_ms := by
  cases op with
  | insert msg dstip now steady_now system_ns =>
    simp only [apply, RdmaPinginfoMap.insert]
    split <;> rfl
  | update key event => cases event <;> exact threshold_updateEntry t key _
  | probe now => rfl

theorem TcpUdpPinginfoMap.threshold_apply (t : TcpUdpPinginfoMap) (op : Op) :
    (t.apply op).threshold_ms = t.threshold_ms := by
  cases op with
  | insert pingid dstip now steady_now system_ns =>
    simp only [apply, TcpUdpPinginfoMap.insert]
    split <;> rfl
  | pong pingid recv_time =>
    simp only [apply, updatePongInfo]
    split <;> rfl
  | probe now => rfl

theorem threshold_run {σ : Type u} {α : Type} (threshold : σ → Nat) (step : σ → α → σ)
    (hstep : ∀ s a, threshold (step s a) = threshold s) (s : σ) (as : List α) :
    threshold (Runs.run step s as) = threshold s := by
  induction as generalizing s with
  | nil => rfl
  | cons a as ih => rw [Runs.run_cons, ih, hstep]

/-- In every state that a table reaches under a clock that does not run back, the list and the
map are in step and in order, and `expireEntries` takes out exactly the entries that are old
enough. -/
theorem tables_represented (threshold_ms : Nat) :
    (∀ ops : List PingMsgMap.Op, (ops.flatMap PingMsgMap.Op.clocks).Pairwise (· ≤ ·) →
      let t := Runs.run PingMsgMap.apply (PingMsgMap.init threshold_ms) ops
      Represented threshold_ms t.table ∧
        ∀ now, (t.expireEntries now).table = (t.table.expire (aged threshold_ms now)).1) ∧
    (∀ ops : List RdmaPinginfoMap.Op, (ops.flatMap RdmaPinginfoMap.Op.clocks).Pairwise (· ≤ ·) →
      let t := Runs.run (fun t op => (t.apply op).table) (RdmaPinginfoMap.init threshold_ms) ops
      Represented threshold_ms t.table ∧
        ∀ now, (t.expireEntries now).1.table = (t.table.expire (aged threshold_ms now)).1) ∧
    ∀ ops : List TcpUdpPinginfoMap.Op, (ops.flatMap TcpUdpPinginfoMap.Op.clocks).Pairwise (· ≤ ·) →
      let t := Runs.run TcpUdpPinginfoMap.apply (TcpUdpPinginfoMap.init threshold_ms) ops
      Represented threshold_ms t.table ∧
        ∀ now, (t.expireEntries now).1.table = (t.table.expire (aged threshold_ms now)).1 := by
  refine ⟨?_, ?_, ?_⟩
  · intro ops hclock
    refine ⟨?_, ?_⟩
    · exact (inOrder_run PingMsgMap.table PingMsgMap.apply PingMsgMap.Op.clocks InOrder.empty
        PingMsgMap.inOrder_apply ops hclock).represented threshold_ms
    · have hthreshold := threshold_run PingMsgMap.threshold_ms PingMsgMap.apply PingMsgMap.threshold_apply
        (PingMsgMap.init threshold_ms) ops
      intro now
      exact congrArg (fun n => (Table.expire (aged n now) _).1) hthreshold
  · intro ops hclock
    refine ⟨?_, ?_⟩
    · exact (inOrder_run RdmaPinginfoMap.table (fun t op => (t.apply op).table) RdmaPinginfoMap.Op.clocks
        InOrder.empty RdmaPinginfoMap.inOrder_apply ops hclock).represented threshold_ms
    · have hthreshold := threshold_run RdmaPinginfoMap.threshold_ms (fun t op => (t.apply op).table)
        RdmaPinginfoMap.threshold_apply (RdmaPinginfoMap.init threshold_ms) ops
      intro now
      exact congrArg (fun n => (Table.expire (aged n now) _).1) hthreshold
  · intro ops hclock
    refine ⟨?_, ?_⟩
    · exact (inOrder_run TcpUdpPinginfoMap.table TcpUdpPinginfoMap.apply TcpUdpPinginfoMap.Op.clocks
        InOrder.empty TcpUdpPinginfoMap.inOrder_apply ops hclock).represented threshold_ms
    · have hthreshold := threshold_run TcpUdpPinginfoMap.threshold_ms TcpUdpPinginfoMap.apply
        TcpUdpPinginfoMap.threshold_apply (TcpUdpPinginfoMap.init threshold_ms) ops
      intro now
      exact congrArg (fun n => (Table.expire (aged n now) _).1) hthreshold

/-- Two entries in each table, the second inserted when the first has expired. -/
theorem tables_represented_example :
    Represented 1000 (Runs.run PingMsgMap.apply (PingMsgMap.init 1000)
      [.insert 1 default 0 5, .insert 2 default 2000000000 2000000005]).table ∧
    Represented 1000 (Runs.run (fun t op => (t.apply op).table) (RdmaPinginfoMap.init 1000)
      [.insert ⟨1, 17, default, 0, 0⟩ [] 0 5 7, .update 1 (.cqe 9), .probe 2000000000]).table ∧
    Represented 1000 (Runs.run TcpUdpPinginfoMap.apply (TcpUdpPinginfoMap.init 1000)
      [.insert 1 [] 0 5 7, .pong 1 9, .insert 2 [] 2000000000 2000000005 8]).table :=
  ⟨((tables_represented 1000).1 _ (by decide)).1, ((tables_represented 1000).2.1 _ (by decide)).1,
    ((tables_represented 1000).2.2 _ (by decide)).1⟩

end Pingweave
