import Mathlib.Data.List.Permutation
import Pingweave.RdmaAccounting

/-!
# The order of the three events of a ping

`network_delay` holds a raw time, a difference or nothing at all, and 0 stands for nothing. So
the result does not depend on the order of the events unless one of the two raw times is 0.
-/

namespace Pingweave
namespace RdmaPinginfoMap
open ExpiryTable
set_option autoImplicit false

/-- The result of a ping in closed form, from its insert and the times of its three events. -/
def closedForm (first : RdmaPinginfo) (x r c s : UInt64) : RdmaResultMsg :=
  let client := (r - first.client_delay) % 4294967296
  let network := (c - x) % 4294967296
  { pingid := first.pingid
    dstip := ip2uint first.dstip
    time_ping_send := first.time_ping_send
    client_delay := client - network
    network_delay := if network > s then network - s else network
    server_delay := s
    result := if network > s then .success else .weird }

/-- In every run, a ping inserted at `t0` that receives each of the three events once, in any
order, has the closed form as its only result. -/
def OrderIndependent (t0 x r c s : UInt64) : Prop :=
  ∀ (threshold_ms : Nat) (ops : List Op) (i : Nat) (l : Life),
    (Book.run threshold_ms ops).lives[i]? = some l → l.first.client_delay = t0 →
    l.events.Perm [.cqe x, .pong r c, .ack s] → l.results = [closedForm l.first x r c s]

theorem perm_triple_cases {α : Type} {a b c : α} {l : List α} (h : l.Perm [a, b, c]) :
    l = [a, b, c] ∨ l = [b, a, c] ∨ l = [b, c, a] ∨ l = [a, c, b] ∨ l = [c, a, b] ∨ l = [c, b, a] := by
  have hm := List.mem_permutations'.mpr h
  simpa [List.permutations', List.permutations'Aux, or_assoc] using hm

/-- The network time that the entry ends up with. -/
def networkAfter (cqeFirst : Bool) (x c : UInt64) : UInt64 :=
  if cqeFirst then if x = 0 then c else (c - x) % 4294967296
  else if c = 0 then x else (c - x) % 4294967296

/-- Whether the ping completion comes before the PONG. -/
def cqeFirst (events : List Event) : Bool :=
  (events.filter fun e => e.kind ≠ .ack).head?.any fun e => e.kind = .cqe

theorem value_of_triple {first : RdmaPinginfo} (hnet : first.network_delay = 0)
    {events : List Event} {x r c s : UInt64} (h : events.Perm [.cqe x, .pong r c, .ack s]) :
    (received first events).client_delay = (r - first.client_delay) % 4294967296 ∧
      (received first events).network_delay = networkAfter (cqeFirst events) x c ∧
      (received first events).server_delay = s := by
  rcases perm_triple_cases h with rfl | rfl | rfl | rfl | rfl | rfl <;>
    simp [received, Event.receive, RdmaPinginfo.recvPingCqe, RdmaPinginfo.recvPong,
      RdmaPinginfo.recvAck, calcTimeDeltaWithModulo_eq, hnet, networkAfter, cqeFirst, Event.kind]

theorem received_frame (v : RdmaPinginfo) (events : List Event) :
    (received v events).pingid = v.pingid ∧ (received v events).dstip = v.dstip ∧
      (received v events).time_ping_send = v.time_ping_send := by
  induction events generalizing v with
  | nil => exact ⟨rfl, rfl, rfl⟩
  | cons e events ih =>
    obtain ⟨h1, h2, h3⟩ := receive_frame e v
    obtain ⟨i1, i2, i3⟩ := ih (e.receive v)
    exact ⟨i1.trans h1, i2.trans h2, i3.trans h3⟩

theorem toNat_modulo (a : UInt64) : (a % 4294967296).toNat = a.toNat % 4294967296 := rfl

theorem networkAfter_true (x c : UInt64) :
    networkAfter true x c = (c - x) % 4294967296 ↔ (x = 0 → c < 4294967296) := by
  unfold networkAfter
  by_cases hx : x = 0
  · subst hx
    have hlt : c < 4294967296 ↔ c.toNat < 4294967296 := UInt64.lt_iff_toNat_lt
    simp only [if_true, UInt64.sub_zero, true_imp_iff]
    rw [hlt, ← UInt64.toNat_inj, toNat_modulo]
    omega
  · simp [hx]

theorem networkAfter_false (x c : UInt64) :
    networkAfter false x c = (c - x) % 4294967296 ↔ (c = 0 → x = 0 ∨ x = 2147483648) := by
  unfold networkAfter
  by_cases hc : c = 0
  · subst hc
    have hx := x.toNat_lt
    have hzero : x = 0 ↔ x.toNat = 0 := UInt64.toNat_inj.symm
    have hhalf : x = 2147483648 ↔ x.toNat = 2147483648 := UInt64.toNat_inj.symm
    have hsub : (0 - x).toNat = (2 ^ 64 - x.toNat + 0) % 2 ^ 64 := UInt64.toNat_sub 0 x
    simp only [Bool.false_eq_true, if_false, if_true, true_imp_iff]
    rw [hzero, hhalf, ← UInt64.toNat_inj, toNat_modulo, hsub]
    omega
  · simp [hc]

theorem sub_left_cancel {a b c : UInt64} (h : a - b = a - c) : b = c := by
  have ha := a.toNat_lt
  have hb := b.toNat_lt
  have hc := c.toNat_lt
  rw [← UInt64.toNat_inj] at h ⊢
  rw [UInt64.toNat_sub, UInt64.toNat_sub] at h
  omega

/-- The result has the closed form exactly when the entry's network time is the difference. -/
theorem report_eq_closedForm {first : RdmaPinginfo} (hnet : first.network_delay = 0)
    {events : List Event} {x r c s : UInt64} (h : events.Perm [.cqe x, .pong r c, .ack s]) :
    (received first events).report = closedForm first x r c s ↔
      networkAfter (cqeFirst events) x c = (c - x) % 4294967296 := by
  obtain ⟨hclient, hnetwork, hserver⟩ := value_of_triple hnet h
  obtain ⟨hpid, hdst, htime⟩ := received_frame first events
  constructor
  · intro heq
    have hsub := congrArg RdmaResultMsg.client_delay heq
    simp only [RdmaPinginfo.report, closedForm, hclient, hnetwork] at hsub
    exact sub_left_cancel hsub
  · intro hN
    rw [hN] at hnetwork
    simp only [RdmaPinginfo.report, closedForm, hclient, hnetwork, hserver, hpid, hdst, htime,
      RdmaResultMsg.mk.injEq, true_and]
    by_cases hs : (c - x) % 4294967296 > s
    · rw [if_pos hs, if_neg (UInt64.not_le.mpr hs)]
    · rw [if_neg hs, if_pos (UInt64.not_lt.mp hs)]

theorem each_once_of_triple {l : Life} {x r c s : UInt64}
    (h : l.events.Perm [.cqe x, .pong r c, .ack s]) (k : Kind) : l.times k = 1 := by
  rw [Life.times, (h.map Event.kind).count_eq]
  cases k <;> rfl

/-- An event for an entry in the table is added to its life, and the entry stays in the table
unless the event completes the bitmap. -/
theorem Book.Ok.update_held {b : Book} (h : b.Ok) {i : Nat} {l : Life} (hl : b.lives[i]? = some l)
    (hheld : (l.held b.table i).isSome) (event : Event) :
    ∃ l', (b.step (.update l.pingid event)).lives[i]? = some l' ∧ l'.first = l.first ∧
      l'.events = l.events ++ [event] ∧
      (l'.value.recv_bitmap ≠ PINGWEAVE_MASK_RECV →
        (l'.held (b.step (.update l.pingid event)).table i).isSome) := by
  obtain ⟨e, hentry⟩ := Option.isSome_iff_exists.mp hheld
  have hobs : l.observe b.table (.update l.pingid event) i = _ := Life.observe_of_some hentry
  refine ⟨_, Book.getElem?_step_observe _ hl, Life.observe_first _ _ _ _, ?_, ?_⟩
  · rw [hobs]
    exact congrArg (l.events ++ ·) (if_pos rfl)
  · intro hmissing
    rcases h.observe_cases (.update l.pingid event) hl with ⟨-, d, hd, hdi, -⟩ | ⟨hclosed, -⟩
    · have hentry' : (l.observe b.table (.update l.pingid event) i).held
          (b.step (.update l.pingid event)).table i = some d :=
        Life.held_eq_some.mpr ⟨by rw [Life.observe_pingid]; exact hd, hdi⟩
      rw [hentry']
      rfl
    · rcases hclosed with ⟨-, hcomplete, -⟩ | ⟨hexp, -, -⟩
      · exact absurd hcomplete hmissing
      · rw [hobs] at hexp
        cases hexp

theorem Book.insert_held (threshold_ms : Nat) (msg : RdmaPingmsg) (dstip : Text)
    (now steady_now : TimePoint) (system_ns : UInt64) :
    ∃ l, (Book.run threshold_ms [.insert msg dstip now steady_now system_ns]).lives[0]? = some l ∧
      l.first = newPinginfo msg dstip system_ns steady_now ∧ l.events = [] ∧
      (l.held (Book.run threshold_ms [.insert msg dstip now steady_now system_ns]).table 0).isSome := by
  have hempty := (find_expireEntries_none now (find_init threshold_ms msg.pingid)).1
  have hopened : Book.opened (RdmaPinginfoMap.init threshold_ms)
      (.insert msg dstip now steady_now system_ns) =
        [⟨newPinginfo msg dstip system_ns steady_now, [], [], false⟩] := by
    simp only [Book.opened, insert_none hempty, if_true]
  obtain ⟨e, he, hei⟩ := find_opened hopened
  refine ⟨⟨newPinginfo msg dstip system_ns steady_now, [], [], false⟩, ?_, rfl, rfl, ?_⟩
  · have hstep : (Book.init threshold_ms).lives.length = 0 := rfl
    exact hstep ▸ Book.getElem?_step_opened hopened
  · have hentry : Life.held (Book.run threshold_ms
        [.insert msg dstip now steady_now system_ns]).table 0
        ⟨newPinginfo msg dstip system_ns steady_now, [], [], false⟩ = some e :=
      Life.held_eq_some.mpr ⟨he, hei⟩
    rw [hentry]
    rfl

theorem two_events_missing {first : RdmaPinginfo} (hbm : first.recv_bitmap = 0) {events : List Event}
    (hlen : events.length ≤ 2) : (received first events).recv_bitmap ≠ PINGWEAVE_MASK_RECV := by
  rw [received_recv_bitmap, hbm, Nat.zero_or, Ne, bitmapOf_eq_recv]
  rintro ⟨hc, hp, ha⟩
  have hsum := length_kinds (events.map Event.kind)
  have := List.count_pos_iff.mpr hc
  have := List.count_pos_iff.mpr hp
  have := List.count_pos_iff.mpr ha
  rw [List.length_map] at hsum
  omega

/-- Every triple of events can be what a ping inserted at any time receives. -/
theorem Book.exists_life (msg : RdmaPingmsg) (dstip : Text) (steady_now : TimePoint)
    (system_ns : UInt64) (e1 e2 e3 : Event) :
    ∃ ops l, (Book.run 1000 ops).lives[0]? = some l ∧
      l.first = newPinginfo msg dstip system_ns steady_now ∧ l.events = [e1, e2, e3] := by
  obtain ⟨l0, hl0, hf0, hev0, hh0⟩ := Book.insert_held 1000 msg dstip steady_now steady_now system_ns
  have hok := Book.run_ok 1000 [.insert msg dstip steady_now steady_now system_ns]
  obtain ⟨l1, hl1, hf1, hev1, hh1⟩ := hok.update_held hl0 hh0 e1
  rw [hev0, List.nil_append] at hev1
  have hbm : ∀ l : Life, l.first = newPinginfo msg dstip system_ns steady_now →
      l.events.length ≤ 2 → l.value.recv_bitmap ≠ PINGWEAVE_MASK_RECV := by
    intro l hf hlen
    exact two_events_missing (by rw [hf]; rfl) hlen
  obtain ⟨l2, hl2, hf2, hev2, hh2⟩ := (hok.step _).update_held hl1
    (hh1 (hbm l1 (hf1.trans hf0) (by rw [hev1]; exact Nat.le_succ 1))) e2
  rw [hev1] at hev2
  obtain ⟨l3, hl3, hf3, hev3, -⟩ := ((hok.step _).step _).update_held hl2
    (hh2 (hbm l2 (hf2.trans (hf1.trans hf0)) (by rw [hev2]; exact Nat.le_refl 2))) e3
  rw [hev2] at hev3
  exact ⟨[.insert msg dstip steady_now steady_now system_ns, .update l0.pingid e1,
    .update l1.pingid e2, .update l2.pingid e3], l3, hl3, hf3.trans (hf2.trans (hf1.trans hf0)), hev3⟩

/-- The order matters exactly for the raw times that look like an unset field: a completion time
0 with a PONG time from `2^32` on, or a PONG time 0 that is not the negative of the completion
time modulo `2^32`. -/
theorem orderIndependent_iff (t0 x r c s : UInt64) :
    OrderIndependent t0 x r c s ↔
      (x = 0 → c < 4294967296) ∧ (c = 0 → x = 0 ∨ x = 2147483648) := by
  constructor
  · intro h
    have hforced : ∀ e1 e2 e3, [e1, e2, e3].Perm [.cqe x, .pong r c, .ack s] →
        networkAfter (cqeFirst [e1, e2, e3]) x c = (c - x) % 4294967296 := by
      intro e1 e2 e3 hperm
      obtain ⟨ops, l, hl, hf, hev⟩ := Book.exists_life default [] t0.toNat 0 e1 e2 e3
      have ht0 : l.first.client_delay = t0 := by
        rw [hf]
        exact UInt64.ofNat_toNat
      have hlp : l.events.Perm [.cqe x, .pong r c, .ack s] := by rwa [hev]
      have hres := h 1000 ops 0 l hl ht0 hlp
      rw [(Book.run_ok 1000 ops).results_of_each_once hl (each_once_of_triple hlp),
        List.singleton_inj, Life.value] at hres
      have hN := (report_eq_closedForm (by rw [hf]; rfl) hlp).mp hres
      rwa [hev] at hN
    constructor
    · exact (networkAfter_true x c).mp (hforced (.cqe x) (.pong r c) (.ack s) (List.Perm.refl _))
    · exact (networkAfter_false x c).mp
        (hforced (.pong r c) (.cqe x) (.ack s) (List.Perm.swap _ _ _))
  · rintro ⟨hx, hc⟩ threshold_ms ops i l hl - hperm
    have hok := Book.run_ok threshold_ms ops
    have hnet := (hok.fresh l (List.mem_of_getElem? hl)).network_delay
    rw [hok.results_of_each_once hl (each_once_of_triple hperm), Life.value,
      List.singleton_inj, report_eq_closedForm hnet hperm]
    cases cqeFirst l.events with
    | true => exact (networkAfter_true x c).mpr hx
    | false => exact (networkAfter_false x c).mpr hc

/-- A ping whose PONG comes first and is stamped 0. -/
def pongAtZeroOps : List Op :=
  [.insert ⟨4294967297, 17, default, 0, 0⟩ [] 1000 1000 5, .update 4294967297 (.pong 9000 0),
    .update 4294967297 (.cqe 5000), .update 4294967297 (.ack 100)]

theorem not_orderIndependent : ¬ ∀ t0 x r c s, OrderIndependent t0 x r c s := by
  intro h
  have hlife : (Book.run 1000 pongAtZeroOps).lives[0]? =
      some ⟨newPinginfo ⟨4294967297, 17, default, 0, 0⟩ [] 5 1000,
        [.pong 9000 0, .cqe 5000, .ack 100],
        [⟨4294967297, 0, 5, 3000, 4900, 100, .success⟩], false⟩ := by
    decide +kernel
  have hres := h 1000 5000 9000 0 100 1000 pongAtZeroOps 0 _ hlife rfl (List.Perm.swap _ _ _)
  revert hres
  decide

end RdmaPinginfoMap
end Pingweave
