import Pingweave.RdmaPingInfo
import Pingweave.Library.Runs

/-!
# Operations of the RDMA ping table, one pingid at a time

A run of the table is a list of its operations. Beside the table a book keeps one life for
every successful insert, with the events its entry received, the results sent out for it, and
whether it expired. `Outcome` says what one operation can do to one entry.
-/

namespace Pingweave
namespace RdmaPinginfoMap
open ExpiryTable
set_option autoImplicit false

inductive Event where
  | cqe (x : UInt64)
  | pong (recv_time cqe_time : UInt64)
  | ack (server_delay : UInt64)
  deriving DecidableEq, Repr

inductive Kind where
  | cqe
  | pong
  | ack
  deriving DecidableEq, Repr

namespace Event

def kind : Event → Kind
  | cqe _ => .cqe
  | pong _ _ => .pong
  | ack _ => .ack

def receive : Event → RdmaPinginfo → RdmaPinginfo
  | cqe x => RdmaPinginfo.recvPingCqe x
  | pong recv_time cqe_time => RdmaPinginfo.recvPong recv_time cqe_time
  | ack server_delay => RdmaPinginfo.recvAck server_delay

end Event

/-- The operations of the table; `insert` is called with the pingid of its message as the key. -/
inductive Op where
  | insert (msg : RdmaPingmsg) (dstip : Text) (now steady_now : TimePoint) (system_ns : UInt64)
  | update (key : UInt64) (event : Event)
  | probe (now : TimePoint)
  deriving DecidableEq, Repr

def apply (t : RdmaPinginfoMap) : Op → Call
  | .insert msg dstip now steady_now system_ns =>
    t.insert msg.pingid msg dstip now steady_now system_ns
  | .update key (.cqe x) => t.updatePingCqeTime key x
  | .update key (.pong recv_time cqe_time) => t.updatePongInfo key recv_time cqe_time
  | .update key (.ack server_delay) => t.updateAckInfo key server_delay
  | .probe now => ⟨(t.size now).1, true, (t.size now).2.2⟩

/-- The entries an operation takes out because they are stale. -/
def Op.expires (t : RdmaPinginfoMap) : Op → List (UInt64 × Entry RdmaPinginfo)
  | .insert _ _ now _ _ => t.expired now
  | .update _ _ => []
  | .probe now => t.expired now

/-- The event an operation brings to the entry of `pingid`. -/
def Op.eventFor (pingid : UInt64) : Op → List Event
  | .update key event => if key = pingid then [event] else []
  | _ => []

theorem mem_eventFor {op : Op} {p : UInt64} {e : Event} :
    e ∈ op.eventFor p ↔ op = .update p e := by
  cases op with
  | update key event =>
    simp only [Op.eventFor, Op.update.injEq]
    by_cases hk : key = p
    · rw [if_pos hk, List.mem_singleton]
      exact ⟨fun h => ⟨hk, h.symm⟩, fun h => h.2.symm⟩
    · rw [if_neg hk]
      exact ⟨fun h => absurd h List.not_mem_nil, fun h => absurd h.1 hk⟩
  | insert msg dstip now steady_now system_ns => simp [Op.eventFor]
  | probe now => simp [Op.eventFor]

def received (v : RdmaPinginfo) (events : List Event) : RdmaPinginfo :=
  events.foldl (fun v e => e.receive v) v

/-- One successful insert and what became of it. -/
structure Life where
  first : RdmaPinginfo
  events : List Event
  results : List RdmaResultMsg
  expired : Bool
  deriving DecidableEq, Repr

namespace Life

def pingid (l : Life) : UInt64 := l.first.pingid

/-- The entry after the events received so far. -/
def value (l : Life) : RdmaPinginfo := received l.first l.events

/-- The entry of life `i`, while it is in the table. -/
def held (t : RdmaPinginfoMap) (i : Nat) (l : Life) : Option (Entry RdmaPinginfo) :=
  (t.find l.pingid).filter fun e => e.listIter = i

def observe (t : RdmaPinginfoMap) (op : Op) (i : Nat) (l : Life) : Life :=
  if (l.held t i).isSome then
    { l with
      events := l.events ++ op.eventFor l.pingid
      results := l.results ++ (t.apply op).enqueued.filter fun r => r.pingid = l.pingid
      expired := decide (l.pingid ∈ (op.expires t).map Prod.fst) }
  else l

end Life

structure Book where
  table : RdmaPinginfoMap
  lives : List Life
  enqueued : List RdmaResultMsg

namespace Book

def init (threshold_ms : Nat) : Book := ⟨RdmaPinginfoMap.init threshold_ms, [], []⟩

/-- The life that an operation opens. -/
def opened (t : RdmaPinginfoMap) : Op → List Life
  | .insert msg dstip now steady_now system_ns =>
    if (t.insert msg.pingid msg dstip now steady_now system_ns).ret then
      [⟨newPinginfo msg dstip system_ns steady_now, [], [], false⟩]
    else []
  | _ => []

def step (b : Book) (op : Op) : Book where
  table := (b.table.apply op).table
  lives := b.lives.mapIdx (fun i l => l.observe b.table op i) ++ opened b.table op
  enqueued := b.enqueued ++ (b.table.apply op).enqueued

end Book

section Values

theorem receive_frame (e : Event) (v : RdmaPinginfo) :
    (e.receive v).pingid = v.pingid ∧ (e.receive v).dstip = v.dstip ∧
      (e.receive v).time_ping_send = v.time_ping_send := by
  cases e with
  | cqe x => exact RdmaPinginfo.recvPingCqe_frame x v
  | pong recv_time cqe_time => exact RdmaPinginfo.recvPong_frame recv_time cqe_time v
  | ack server_delay => exact RdmaPinginfo.recvAck_frame server_delay v

def Kind.mask : Kind → Nat
  | .cqe => PINGWEAVE_MASK_RECV_PING_CQE
  | .pong => PINGWEAVE_MASK_RECV_PONG
  | .ack => PINGWEAVE_MASK_RECV_ACK

@[simp] theorem receive_recv_cnt (e : Event) (v : RdmaPinginfo) :
    (e.receive v).recv_cnt = v.recv_cnt + 1 := by
  cases e <;> rfl

@[simp] theorem receive_recv_bitmap (e : Event) (v : RdmaPinginfo) :
    (e.receive v).recv_bitmap = v.recv_bitmap ||| e.kind.mask := by
  cases e <;> rfl

@[simp] theorem received_pingid (v : RdmaPinginfo) (events : List Event) :
    (received v events).pingid = v.pingid := by
  induction events generalizing v with
  | nil => rfl
  | cons e events ih => exact (ih (e.receive v)).trans (receive_frame e v).1

end Values

def Keyed (t : RdmaPinginfoMap) : Prop :=
  ∀ key e, t.find key = some e → e.value.pingid = key

section Operations
variable {t : RdmaPinginfoMap}

theorem apply_update (t : RdmaPinginfoMap) (key : UInt64) (event : Event) :
    t.apply (.update key event) = t.updateEntry key event.receive := by
  cases event <;> rfl

theorem find_expireEntries (now : TimePoint) {p : UInt64} {e : Entry RdmaPinginfo}
    (h : t.find p = some e) :
    ((p, e) ∈ t.expired now ∧ (t.expireEntries now).1.find p = none) ∨
    (p ∉ (t.expired now).map Prod.fst ∧ (t.expireEntries now).1.find p = some e) := by
  rcases (t.find_expireEntries_or now p e).mp h with hkeep | hout
  · refine Or.inr ⟨?_, hkeep⟩
    intro hp
    obtain ⟨⟨_, d⟩, hd, rfl⟩ := List.mem_map.mp hp
    rw [find_expireEntries_of_mem t hd] at hkeep
    cases hkeep
  · exact Or.inl ⟨hout, find_expireEntries_of_mem t hout⟩

theorem find_expireEntries_none (now : TimePoint) {p : UInt64} (h : t.find p = none) :
    (t.expireEntries now).1.find p = none ∧ p ∉ (t.expired now).map Prod.fst := by
  constructor
  · rw [Option.eq_none_iff_forall_ne_some]
    intro e he
    rw [(t.find_expireEntries_or now p e).mpr (Or.inl he)] at h
    cases h
  · intro hp
    obtain ⟨⟨_, d⟩, hd, rfl⟩ := List.mem_map.mp hp
    rw [(t.find_expireEntries_or now _ d).mpr (Or.inr hd)] at h
    cases h

theorem expireReport_pingid {v : RdmaPinginfo} {r : RdmaResultMsg} (h : v.expireReport = some r) :
    r.pingid = v.pingid := by
  unfold RdmaPinginfo.expireReport at h
  split at h
  · cases h
  · cases h
    rfl

/-- Of the messages that expiry sends out, at most the one of `p` itself carries pingid `p`. -/
theorem filter_expire_messages {l : List (UInt64 × Entry RdmaPinginfo)} {p : UInt64}
    (hl : ∀ q ∈ l, q.2.value.pingid = q.1) (hp : p ∉ l.map Prod.fst) :
    (l.filterMap fun q => q.2.value.expireReport).filter (fun r => r.pingid = p) = [] := by
  rw [List.filter_eq_nil_iff]
  intro r hr
  obtain ⟨q, hq, hqr⟩ := List.mem_filterMap.mp hr
  have hpid := (expireReport_pingid hqr).trans (hl q hq)
  intro hrp
  exact hp (List.mem_map.mpr ⟨q, hq, hpid.symm.trans (of_decide_eq_true hrp)⟩)

theorem filter_expire_messages_of_mem {l : List (UInt64 × Entry RdmaPinginfo)} {p : UInt64}
    {e : Entry RdmaPinginfo} (hl : ∀ q ∈ l, q.2.value.pingid = q.1) (hd : (l.map Prod.fst).Nodup)
    (hp : (p, e) ∈ l) :
    (l.filterMap fun q => q.2.value.expireReport).filter (fun r => r.pingid = p) =
      e.value.expireReport.toList := by
  induction l with
  | nil => cases hp
  | cons q l ih =>
    rw [List.map_cons, List.nodup_cons] at hd
    have hl' : ∀ q' ∈ l, q'.2.value.pingid = q'.1 := fun q' hq' => hl q' (List.mem_cons_of_mem q hq')
    rcases List.mem_cons.mp hp with rfl | hmem
    · have hrest := filter_expire_messages hl' hd.1
      cases hr : e.value.expireReport with
      | none => simpa only [List.filterMap_cons, hr, Option.toList_none] using hrest
      | some r =>
        have hpid := (expireReport_pingid hr).trans (hl (p, e) List.mem_cons_self)
        simp only [List.filterMap_cons, hr, List.filter_cons, hpid, decide_true, if_true, hrest,
          Option.toList_some]
    · have hne : q.1 ≠ p := by
        rintro rfl
        exact hd.1 (List.mem_map.mpr ⟨_, hmem, rfl⟩)
      cases hr : q.2.value.expireReport with
      | none => simpa only [List.filterMap_cons, hr] using ih hl' hd.2 hmem
      | some r =>
        have hpid := (expireReport_pingid hr).trans (hl q List.mem_cons_self)
        have hrp : ¬ r.pingid = p := fun h => hne (hpid.symm.trans h)
        simpa only [List.filterMap_cons, hr, List.filter_cons, hrp, decide_false,
          Bool.false_eq_true, if_false] using ih hl' hd.2 hmem

theorem expired_keyed (hk : t.Keyed) (now : TimePoint) :
    ∀ q ∈ t.expired now, q.2.value.pingid = q.1 :=
  fun q hq => hk q.1 q.2 ((t.find_expireEntries_or now q.1 q.2).mpr (Or.inr hq))

theorem find_updateEntry_ne {key p : UInt64} (receive : RdmaPinginfo → RdmaPinginfo)
    (hpid : ∀ v, (receive v).pingid = v.pingid) (hk : t.Keyed) (h : p ≠ key) :
    (t.updateEntry key receive).table.find p = t.find p := by
  unfold updateEntry
  cases he : t.find key with
  | none => rfl
  | some e =>
    have hkey : (receive e.value).pingid = key := (hpid e.value).trans (hk key e he)
    simp only [logging, hkey]
    have hassign : ({ t with table := t.table.assign key (receive e.value) } : RdmaPinginfoMap).find p
        = t.find p := Table.find_assign_ne t.table (receive e.value) h
    split
    · split
      · exact (find_remove_ne _ h).trans hassign
      · exact (find_remove_ne _ h).trans hassign
    · exact hassign

/-- An event leaves the entry open, with its new value and no message, as long as one of the
three kinds is missing; the event that completes the bitmap takes the entry out. -/
theorem updateEntry_cases {key : UInt64} {e : Entry RdmaPinginfo}
    (receive : RdmaPinginfo → RdmaPinginfo) (hpid : ∀ v, (receive v).pingid = v.pingid)
    (hk : t.Keyed) (he : t.find key = some e) :
    ((receive e.value).recv_bitmap ≠ PINGWEAVE_MASK_RECV ∧
      (t.updateEntry key receive).table.find key = some { e with value := receive e.value } ∧
      (t.updateEntry key receive).enqueued = []) ∨
    ((receive e.value).recv_bitmap = PINGWEAVE_MASK_RECV ∧
      (t.updateEntry key receive).table.find key = none ∧
      (t.updateEntry key receive).enqueued =
        if (receive e.value).recv_cnt = 3 then [(receive e.value).report] else []) := by
  have hkey : (receive e.value).pingid = key := (hpid e.value).trans (hk key e he)
  by_cases hb : (receive e.value).recv_bitmap = PINGWEAVE_MASK_RECV
  · refine Or.inr ⟨hb, ?_, ?_⟩
    · simp only [updateEntry, he, logging, hb, if_true, hkey]
      split
      · exact find_remove_self _ key
      · exact find_remove_self _ key
    · by_cases hc : (receive e.value).recv_cnt = 3
      · simp [updateEntry, he, logging, hb, hc]
      · simp [updateEntry, he, logging, hb, hc]
  · refine Or.inl ⟨hb, ?_, ?_⟩
    · simp only [updateEntry, he, logging, hb, if_false]
      exact Table.find_assign_self he (receive e.value)
    · simp [updateEntry, he, logging, hb]

theorem filter_updateEntry_ne {key p : UInt64} (receive : RdmaPinginfo → RdmaPinginfo)
    (hpid : ∀ v, (receive v).pingid = v.pingid) (hk : t.Keyed) (h : p ≠ key) :
    (t.updateEntry key receive).enqueued.filter (fun r => r.pingid = p) = [] := by
  cases he : t.find key with
  | none => simp only [updateEntry, he, List.filter_nil]
  | some e =>
    have hkey : (receive e.value).pingid = key := (hpid e.value).trans (hk key e he)
    rcases updateEntry_cases receive hpid hk he with ⟨-, -, hmsg⟩ | ⟨-, -, hmsg⟩
    · rw [hmsg, List.filter_nil]
    · rw [hmsg, List.filter_eq_nil_iff]
      intro r hr
      split at hr
      · rw [List.mem_singleton] at hr
        subst hr
        intro hrp
        exact h ((of_decide_eq_true hrp).symm.trans hkey)
      · cases hr

theorem updateEntry_none {key : UInt64} (receive : RdmaPinginfo → RdmaPinginfo)
    (h : t.find key = none) : t.updateEntry key receive = ⟨t, false, []⟩ := by
  simp only [updateEntry, h]

theorem nextId_updateEntry (t : RdmaPinginfoMap) (key : UInt64)
    (receive : RdmaPinginfo → RdmaPinginfo) :
    (t.updateEntry key receive).table.table.nextId = t.table.nextId := by
  unfold updateEntry logging
  split
  · rfl
  · simp only []
    split
    · split <;> simp [remove]
    · exact Table.nextId_assign _ _ _

theorem insert_some {key : UInt64} {msg : RdmaPingmsg} {dstip : Text} {now steady_now : TimePoint}
    {system_ns : UInt64} {e : Entry RdmaPinginfo} (h : (t.expireEntries now).1.find key = some e) :
    t.insert key msg dstip now steady_now system_ns =
      ⟨(t.expireEntries now).1, false, (t.expireEntries now).2.2⟩ := by
  simp only [insert, h]

theorem insert_none {key : UInt64} {msg : RdmaPingmsg} {dstip : Text} {now steady_now : TimePoint}
    {system_ns : UInt64} (h : (t.expireEntries now).1.find key = none) :
    t.insert key msg dstip now steady_now system_ns =
      ⟨{ (t.expireEntries now).1 with
          table := (t.expireEntries now).1.table.emplace key
            (newPinginfo msg dstip system_ns steady_now) steady_now },
        true, (t.expireEntries now).2.2⟩ := by
  simp only [insert, h]

/-- An entry that an operation has just created, for the life it opens. -/
def New (t : RdmaPinginfoMap) (op : Op) (p : UInt64) (e : Entry RdmaPinginfo) : Prop :=
  e.listIter = t.table.nextId ∧ ∃ l, Book.opened t op = [l] ∧ l.pingid = p ∧ e.value = l.first

theorem find_insert_cases {msg : RdmaPingmsg} {dstip : Text} {now steady_now : TimePoint}
    {system_ns : UInt64} {p : UInt64} {e : Entry RdmaPinginfo}
    (h : (t.apply (.insert msg dstip now steady_now system_ns)).table.find p = some e) :
    (t.expireEntries now).1.find p = some e ∨
    ((t.expireEntries now).1.find p = none ∧
      t.New (.insert msg dstip now steady_now system_ns) p e) := by
  cases hm : (t.expireEntries now).1.find msg.pingid with
  | some d =>
    simp only [apply, insert_some hm] at h
    exact Or.inl h
  | none =>
    simp only [apply, insert_none hm] at h
    by_cases hp : p = msg.pingid
    · subst hp
      have hfind := Table.find_emplace_self (t.expireEntries now).1.table msg.pingid
        (newPinginfo msg dstip system_ns steady_now) steady_now
      have he : _ = e := Option.some.inj (hfind.symm.trans h)
      subst he
      refine Or.inr ⟨hm, rfl, ⟨newPinginfo msg dstip system_ns steady_now, [], [], false⟩, ?_, rfl, rfl⟩
      simp only [Book.opened, insert_none hm, if_true]
    · exact Or.inl ((Table.find_emplace_ne _ _ _ hp).symm.trans h)

theorem find_insert_of_some {msg : RdmaPingmsg} {dstip : Text} {now steady_now : TimePoint}
    {system_ns : UInt64} {p : UInt64} {e : Entry RdmaPinginfo}
    (h : (t.expireEntries now).1.find p = some e) :
    (t.apply (.insert msg dstip now steady_now system_ns)).table.find p = some e := by
  cases hm : (t.expireEntries now).1.find msg.pingid with
  | some d =>
    simp only [apply, insert_some hm]
    exact h
  | none =>
    simp only [apply, insert_none hm]
    have hp : p ≠ msg.pingid := by
      rintro rfl
      rw [hm] at h
      cases h
    exact (Table.find_emplace_ne _ _ _ hp).trans h

theorem enqueued_insert (t : RdmaPinginfoMap) (msg : RdmaPingmsg) (dstip : Text)
    (now steady_now : TimePoint) (system_ns : UInt64) :
    (t.apply (.insert msg dstip now steady_now system_ns)).enqueued = (t.expireEntries now).2.2 := by
  cases hm : (t.expireEntries now).1.find msg.pingid with
  | some d => simp only [apply, insert_some hm]
  | none => simp only [apply, insert_none hm]

theorem nextId_apply (t : RdmaPinginfoMap) (op : Op) :
    (t.apply op).table.table.nextId = t.table.nextId + (Book.opened t op).length := by
  cases op with
  | insert msg dstip now steady_now system_ns =>
    cases hm : (t.expireEntries now).1.find msg.pingid with
    | some d =>
      simp only [apply, Book.opened, insert_some hm, Bool.false_eq_true, if_false, List.length_nil]
      rfl
    | none =>
      simp only [apply, Book.opened, insert_none hm, if_true, List.length_singleton]
      rfl
  | update key event => rw [apply_update, nextId_updateEntry]; rfl
  | probe now => rfl

theorem find_opened {op : Op} {l : Life} (h : Book.opened t op = [l]) :
    ∃ e, (t.apply op).table.find l.pingid = some e ∧ e.listIter = t.table.nextId := by
  cases op with
  | insert msg dstip now steady_now system_ns =>
    cases hm : (t.expireEntries now).1.find msg.pingid with
    | some d => simp [Book.opened, insert_some hm] at h
    | none =>
      simp only [Book.opened, insert_none hm, if_true, List.cons.injEq, and_true] at h
      subst h
      simp only [apply, insert_none hm]
      exact ⟨_, Table.find_emplace_self _ _ _ _, rfl⟩
  | update key event => cases h
  | probe now => cases h

/-- What one operation does under a pingid that has no entry. -/
theorem apply_none (hk : t.Keyed) {p : UInt64} (h : t.find p = none) (op : Op) :
    (t.apply op).enqueued.filter (fun r => r.pingid = p) = [] ∧
      ∀ e, (t.apply op).table.find p = some e → t.New op p e := by
  cases op with
  | insert msg dstip now steady_now system_ns =>
    have hx := find_expireEntries_none now h
    constructor
    · rw [enqueued_insert]
      exact filter_expire_messages (expired_keyed hk now) hx.2
    · intro e he
      rcases find_insert_cases he with hold | hnew
      · rw [hx.1] at hold
        cases hold
      · exact hnew.2
  | update key event =>
    rw [apply_update]
    by_cases hp : p = key
    · subst hp
      rw [updateEntry_none event.receive h]
      refine ⟨rfl, ?_⟩
      intro e he
      rw [h] at he
      cases he
    · rw [find_updateEntry_ne event.receive (fun v => (receive_frame event v).1) hk hp]
      refine ⟨filter_updateEntry_ne event.receive (fun v => (receive_frame event v).1) hk hp, ?_⟩
      intro e he
      rw [h] at he
      cases he
  | probe now =>
    have hx := find_expireEntries_none now h
    constructor
    · exact filter_expire_messages (expired_keyed hk now) hx.2
    · intro e he
      have he' : (t.expireEntries now).1.find p = some e := he
      rw [hx.1] at he'
      cases he'

/-- What one operation does to the open entry `e` of `p`: it expires, it stays open with the
value its events give it, or its bitmap is completed. -/
inductive Outcome (t : RdmaPinginfoMap) (op : Op) (p : UInt64) (e : Entry RdmaPinginfo) : Prop
  | expired (out : p ∈ (op.expires t).map Prod.fst) (quiet : op.eventFor p = [])
      (sent : (t.apply op).enqueued.filter (fun r => r.pingid = p) = e.value.expireReport.toList)
      (after : ∀ e', (t.apply op).table.find p = some e' → t.New op p e')
  | kept (stays : p ∉ (op.expires t).map Prod.fst)
      (missing : (received e.value (op.eventFor p)).recv_bitmap ≠ PINGWEAVE_MASK_RECV)
      (sent : (t.apply op).enqueued.filter (fun r => r.pingid = p) = [])
      (after : (t.apply op).table.find p = some { e with value := received e.value (op.eventFor p) })
  | completed (stays : p ∉ (op.expires t).map Prod.fst)
      (complete : (received e.value (op.eventFor p)).recv_bitmap = PINGWEAVE_MASK_RECV)
      (sent : (t.apply op).enqueued.filter (fun r => r.pingid = p) =
        if (received e.value (op.eventFor p)).recv_cnt = 3 then
          [(received e.value (op.eventFor p)).report] else [])
      (after : (t.apply op).table.find p = none)

theorem apply_some (hk : t.Keyed) {p : UInt64} {e : Entry RdmaPinginfo} (h : t.find p = some e)
    (hopen : e.value.recv_bitmap ≠ PINGWEAVE_MASK_RECV) (op : Op) : t.Outcome op p e := by
  cases op with
  | insert msg dstip now steady_now system_ns =>
    rcases find_expireEntries now h with ⟨hout, hgone⟩ | ⟨hstay, hkeep⟩
    · refine .expired (List.mem_map.mpr ⟨_, hout, rfl⟩) rfl ?_ ?_
      · rw [enqueued_insert]
        exact filter_expire_messages_of_mem (expired_keyed hk now) (t.expired_nodup now) hout
      · intro e' he'
        rcases find_insert_cases he' with hold | hnew
        · rw [hgone] at hold
          cases hold
        · exact hnew.2
    · refine .kept hstay hopen ?_ (find_insert_of_some hkeep)
      rw [enqueued_insert]
      exact filter_expire_messages (expired_keyed hk now) hstay
  | update key event =>
    have hpid := fun v => (receive_frame event v).1
    by_cases hp : p = key
    · subst hp
      have hev : Op.eventFor p (.update p event) = [event] := if_pos rfl
      have hval : received e.value [event] = event.receive e.value := rfl
      rcases updateEntry_cases event.receive hpid hk h with ⟨hb, hfind, hmsg⟩ | ⟨hb, hfind, hmsg⟩
      · refine .kept List.not_mem_nil ?_ ?_ ?_
        · rwa [hev, hval]
        · rw [apply_update, hmsg, List.filter_nil]
        · rwa [hev, hval, apply_update]
      · refine .completed List.not_mem_nil ?_ ?_ ?_
        · rwa [hev, hval]
        · rw [hev, hval, apply_update, hmsg]
          split
          · have hrp : ((event.receive e.value).report).pingid = p :=
              (hpid e.value).trans (hk p e h)
            simp only [List.filter_cons, hrp, decide_true, if_true, List.filter_nil]
          · rfl
        · rwa [apply_update]
    · have hev : Op.eventFor p (.update key event) = [] := if_neg fun hkp => hp hkp.symm
      refine .kept List.not_mem_nil ?_ ?_ ?_
      · rwa [hev]
      · rw [apply_update]
        exact filter_updateEntry_ne event.receive hpid hk hp
      · rw [hev, apply_update, find_updateEntry_ne event.receive hpid hk hp]
        exact h
  | probe now =>
    rcases find_expireEntries now h with ⟨hout, hgone⟩ | ⟨hstay, hkeep⟩
    · refine .expired (List.mem_map.mpr ⟨_, hout, rfl⟩) rfl ?_ ?_
      · exact filter_expire_messages_of_mem (expired_keyed hk now) (t.expired_nodup now) hout
      · intro e' he'
        have hold : (t.expireEntries now).1.find p = some e' := he'
        rw [hgone] at hold
        cases hold
    · exact .kept hstay hopen (filter_expire_messages (expired_keyed hk now) hstay) hkeep

end Operations

end RdmaPinginfoMap
end Pingweave
