import Pingweave.Library.Runs
import Pingweave.RdmaServer

/-!
# What a server's answers can be traced to

Two invariants of a server. Each PING it receives is carried through its stages at most as often
as it was received, so that an ACK needs a completed PONG of its own; and every PONG and ACK is
addressed and stamped from a PING that was received.
-/

namespace Pingweave
namespace RdmaServer
set_option autoImplicit false

def Tx.pingids : Tx → List UInt64
  | .inserted ping_msg => [ping_msg.pingid]
  | .copied wr => [wr.wr_id]
  | _ => []

/-- The pingid whose completed PONG the completion thread is about to acknowledge. -/
def TxCqe.pingids : TxCqe → List UInt64
  | .polled wr_id _ => [wr_id]
  | .found _ wr_id _ => [wr_id]
  | .copied wr _ => [wr.msg.pingid]
  | _ => []

def Event.completedId : Event → Option UInt64
  | .pongCompleted pingid _ => some pingid
  | _ => none

def Event.ackedId : Event → Option UInt64
  | .ackPosted pingid _ _ _ => some pingid
  | _ => none

/-- How often `p` is in a stage up to the completion of its PONG. -/
def upstream (s : RdmaServer) (p : UInt64) : Nat :=
  (s.queue.map RdmaPingmsg.pingid).count p + s.tx.pingids.count p +
    (s.sendQueue.map SendWr.wr_id).count p + (s.transmitted.map SendWr.wr_id).count p +
    s.cq.count p + (s.log.filterMap Event.completedId).count p

/-- How often `p` is being acknowledged or has been. -/
def downstream (s : RdmaServer) (p : UInt64) : Nat :=
  s.txCqe.pingids.count p + (s.log.filterMap Event.ackedId).count p

structure Counted (s : RdmaServer) : Prop where
  upstream : ∀ p, p ≠ PINGWEAVE_WRID_PONG_ACK →
    s.upstream p ≤ (s.received.map RdmaPingmsg.pingid).count p
  downstream : ∀ p, s.downstream p ≤ (s.log.filterMap Event.completedId).count p
  notAck : PINGWEAVE_WRID_PONG_ACK ∉ s.log.filterMap Event.completedId
  ackWr : ∀ wr wr_id, s.txCqe = .copied wr wr_id → wr.wr_id = PINGWEAVE_WRID_PONG_ACK

theorem counted_init : init.Counted where
  upstream := fun _ _ => Nat.zero_le _
  downstream := fun _ => Nat.zero_le _
  notAck := List.not_mem_nil
  ackWr := by
    intro wr wr_id h
    cases h

section Counts
variable {inetNtop : IbvGid → Text} {s s' : RdmaServer} {a : Action}

/-- A step moves a pingid along the stages; only a received PING adds one. -/
theorem upstream_step (hstep : Step inetNtop s a s')
    (hackWr : ∀ wr wr_id, s.txCqe = .copied wr wr_id → wr.wr_id = PINGWEAVE_WRID_PONG_ACK)
    {p : UInt64} (hp : p ≠ PINGWEAVE_WRID_PONG_ACK) :
    s'.upstream p + (s.received.map RdmaPingmsg.pingid).count p ≤
      s.upstream p + (s'.received.map RdmaPingmsg.pingid).count p := by
  cases hstep with
  | receive ping_msg cqe_time =>
    simp only [RdmaServer.upstream, List.map_append, List.count_append, List.map_cons, List.map_nil]
    omega
  | dequeue now steady_now ping_msg rest idle queued =>
    simp only [RdmaServer.upstream, idle, queued, Tx.pingids, List.map_cons, List.count_cons, List.count_nil]
    omega
  | copyPong stack created ping_msg ctx ah inserted handle =>
    simp only [RdmaServer.upstream, inserted, Tx.pingids]
    exact Nat.le_refl _
  | copyPongFailed stack created ping_msg ctx inserted handle =>
    simp only [RdmaServer.upstream, Tx.pingids, List.count_nil]
    omega
  | postPong wr copied =>
    have hdone : [Event.pongPosted wr.msg.pingid wr.ah.attr wr.remote_qpn].filterMap
      Event.completedId = [] := rfl
    simp only [RdmaServer.upstream, copied, Tx.pingids, List.map_append, List.map_cons,
      List.map_nil, List.count_append, List.filterMap_append, hdone, List.count_nil]
    omega
  | postPongFailed wr copied =>
    simp only [RdmaServer.upstream, Tx.pingids, List.count_nil]
    omega
  | transmit wr rest posted =>
    simp only [RdmaServer.upstream, posted, List.map_append, List.map_cons, List.map_nil,
      List.count_append, List.count_cons, List.count_nil]
    omega
  | complete ok wr rest sent =>
    cases ok with
    | true =>
      simp only [RdmaServer.upstream, sent, if_true, List.map_cons, List.count_append,
        List.count_cons, List.count_nil]
      omega
    | false =>
      simp only [RdmaServer.upstream, sent, Bool.false_eq_true, if_false, List.map_cons,
        List.count_cons]
      omega
  | pollAck cqe_time rest idle completed =>
    simp only [RdmaServer.upstream, completed, List.count_cons]
    omega
  | pollPong cqe_time wr_id rest idle completed isPong =>
    have hlog : [Event.pongCompleted wr_id cqe_time].filterMap Event.completedId = [wr_id] := rfl
    simp only [RdmaServer.upstream, completed, List.count_cons, List.filterMap_append, hlog,
      List.count_append, List.count_nil]
    omega
  | postAck wr wr_id copied =>
    have hdone : [Event.ackPosted wr.msg.pingid wr.ah.attr wr.remote_qpn wr.msg.server_delay].filterMap
      Event.completedId = [] := rfl
    -- an ACK in the send queue is not counted
    have hne : [wr.wr_id].count p = 0 := by
      rw [hackWr wr wr_id copied, List.count_eq_zero, List.mem_singleton]
      exact hp
    simp only [RdmaServer.upstream, List.map_append, List.map_cons, List.map_nil,
      List.count_append, List.filterMap_append, hne, hdone, List.count_nil]
    omega
  | found | missing | copyAck | copyAckFailed | postAckFailed | remove => exact Nat.le_refl _

/-- Only a completed PONG adds to what is being acknowledged. -/
theorem downstream_step (hstep : Step inetNtop s a s') (p : UInt64) :
    s'.downstream p + (s.log.filterMap Event.completedId).count p ≤
      s.downstream p + (s'.log.filterMap Event.completedId).count p := by
  cases hstep with
  | postPong wr copied =>
    have hdone : [Event.pongPosted wr.msg.pingid wr.ah.attr wr.remote_qpn].filterMap
      Event.completedId = [] := rfl
    have hack : [Event.pongPosted wr.msg.pingid wr.ah.attr wr.remote_qpn].filterMap
      Event.ackedId = [] := rfl
    simp only [RdmaServer.downstream, List.filterMap_append, hdone, hack, List.append_nil]
    exact Nat.le_refl _
  | pollPong cqe_time wr_id rest idle completed isPong =>
    have hlog : [Event.pongCompleted wr_id cqe_time].filterMap Event.completedId = [wr_id] := rfl
    have hack : [Event.pongCompleted wr_id cqe_time].filterMap Event.ackedId = [] := rfl
    simp only [RdmaServer.downstream, idle, TxCqe.pingids, List.filterMap_append, hlog, hack,
      List.count_append, List.count_nil]
    omega
  | found wr_id cqe_time ping_msg polled stored =>
    simp only [RdmaServer.downstream, polled, TxCqe.pingids]
    exact Nat.le_refl _
  | copyAck stack created ping_msg wr_id cqe_time ctx ah found handle =>
    simp only [RdmaServer.downstream, found, TxCqe.pingids, ackMsg]
    exact Nat.le_refl _
  | postAck wr wr_id copied =>
    have hdone : [Event.ackPosted wr.msg.pingid wr.ah.attr wr.remote_qpn wr.msg.server_delay].filterMap
      Event.completedId = [] := rfl
    have hack : [Event.ackPosted wr.msg.pingid wr.ah.attr wr.remote_qpn wr.msg.server_delay].filterMap
      Event.ackedId = [wr.msg.pingid] := rfl
    simp only [RdmaServer.downstream, copied, TxCqe.pingids, List.filterMap_append, hdone, hack,
      List.count_append, List.count_nil]
    omega
  | missing | copyAckFailed | postAckFailed | remove =>
    simp only [RdmaServer.downstream, TxCqe.pingids, List.count_nil]
    omega
  | receive | dequeue | copyPong | copyPongFailed | postPongFailed | transmit | complete | pollAck =>
    exact Nat.le_refl _

theorem notAck_step (hstep : Step inetNtop s a s')
    (h : PINGWEAVE_WRID_PONG_ACK ∉ s.log.filterMap Event.completedId) :
    PINGWEAVE_WRID_PONG_ACK ∉ s'.log.filterMap Event.completedId := by
  cases hstep with
  | pollPong cqe_time wr_id rest idle completed isPong =>
    rw [List.filterMap_append, List.mem_append, not_or]
    exact ⟨h, fun hm => isPong (List.mem_singleton.mp hm).symm⟩
  | postPong wr copied =>
    rw [List.filterMap_append, List.mem_append, not_or]
    exact ⟨h, List.not_mem_nil⟩
  | postAck wr wr_id copied =>
    rw [List.filterMap_append, List.mem_append, not_or]
    exact ⟨h, List.not_mem_nil⟩
  | _ => exact h

theorem ackWr_step (hstep : Step inetNtop s a s')
    (h : ∀ wr wr_id, s.txCqe = .copied wr wr_id → wr.wr_id = PINGWEAVE_WRID_PONG_ACK) :
    ∀ wr wr_id, s'.txCqe = .copied wr wr_id → wr.wr_id = PINGWEAVE_WRID_PONG_ACK := by
  intro wr wr_id hw
  cases hstep with
  | copyAck =>
    cases hw
    rfl
  | pollPong | found | missing | copyAckFailed | postAck | postAckFailed | remove => cases hw
  | receive | dequeue | copyPong | copyPongFailed | postPong | postPongFailed | transmit | complete | pollAck =>
    exact h wr wr_id hw

theorem Counted.step (h : s.Counted) (a : Action) : (step inetNtop s a).Counted := by
  rcases step_cases s a with heq | hstep
  · rwa [heq]
  refine ⟨?_, ?_, notAck_step hstep h.notAck, ackWr_step hstep h.ackWr⟩
  · intro p hp
    have hu := h.upstream p hp
    have hmoved := upstream_step hstep h.ackWr hp
    omega
  · intro p
    have hd := h.downstream p
    have hmoved := downstream_step hstep p
    omega

end Counts

section Traces
variable (inetNtop : IbvGid → Text) (R : List RdmaPingmsg) (L : List Event)

def Addressed (m : RdmaPingmsg) (dst : AhAttr) (qpn : UInt32) : Prop :=
  dst = ahAttr m.addr ∧ qpn = m.qpn

def PongTraced (pingid : UInt64) (dst : AhAttr) (qpn : UInt32) : Prop :=
  ∃ m ∈ R, m.pingid = pingid ∧ Addressed m dst qpn

/-- An ACK for `pingid` that answers a received PING after the completion of its PONG. -/
def AckTraced (pingid : UInt64) (dst : AhAttr) (qpn : UInt32) (server_delay : UInt64) : Prop :=
  ∃ m ∈ R, ∃ q, m.pingid = pingid ∧ Addressed m dst qpn ∧ .pongCompleted pingid q ∈ L ∧
    server_delay = (q - m.time) % 4294967296

def TxTraced : Tx → Prop
  | .inserted ping_msg => ping_msg ∈ R
  | .copied wr => wr.msg.opcode = PINGWEAVE_OPCODE_PONG ∧
      PongTraced R wr.msg.pingid wr.ah.attr wr.remote_qpn
  | _ => True

def TxCqeTraced : TxCqe → Prop
  | .polled wr_id cqe_time => .pongCompleted wr_id cqe_time ∈ L
  | .found ping_msg wr_id cqe_time =>
      ping_msg ∈ R ∧ ping_msg.pingid = wr_id ∧ .pongCompleted wr_id cqe_time ∈ L
  | .copied wr _ => AckTraced R L wr.msg.pingid wr.ah.attr wr.remote_qpn wr.msg.server_delay
  | _ => True

def EventTraced : Event → Prop
  | .pongPosted pingid dst qpn => PongTraced R pingid dst qpn
  | .pongCompleted _ _ => True
  | .ackPosted pingid dst qpn server_delay => AckTraced R L pingid dst qpn server_delay

def SendTraced (wr : SendWr) : Prop :=
  wr.msg.opcode = PINGWEAVE_OPCODE_ACK →
    .ackPosted wr.msg.pingid wr.ah.attr wr.remote_qpn wr.msg.server_delay ∈ L

structure Traced (s : RdmaServer) : Prop where
  fits : ∀ m ∈ R, AhContext.Fits inetNtop m.gid
  ah : s.ah.Sound inetNtop
  queue : ∀ m ∈ s.queue, m ∈ R
  table : s.table.All fun key m => m ∈ R ∧ m.pingid = key
  tx : TxTraced R s.tx
  txCqe : TxCqeTraced R L s.txCqe
  sends : ∀ wr ∈ s.sendQueue, SendTraced L wr
  log : ∀ (n : Nat) (e : Event), L[n]? = some e → EventTraced R (L.take n) e

end Traces

section Growth
variable {R R' : List RdmaPingmsg} {L L' : List Event}

theorem PongTraced.mono {pingid : UInt64} {dst : AhAttr} {qpn : UInt32} (hR : R ⊆ R')
    (h : PongTraced R pingid dst qpn) : PongTraced R' pingid dst qpn := by
  obtain ⟨m, hm, hp⟩ := h
  exact ⟨m, hR hm, hp⟩

theorem AckTraced.mono {pingid : UInt64} {dst : AhAttr} {qpn : UInt32} {server_delay : UInt64}
    (hR : R ⊆ R') (hL : L ⊆ L') (h : AckTraced R L pingid dst qpn server_delay) :
    AckTraced R' L' pingid dst qpn server_delay := by
  obtain ⟨m, hm, q, hp, hdst, hq, hd⟩ := h
  exact ⟨m, hR hm, q, hp, hdst, hL hq, hd⟩

theorem TxTraced.mono {tx : Tx} (hR : R ⊆ R') (h : TxTraced R tx) : TxTraced R' tx := by
  cases tx with
  | inserted ping_msg => exact hR h
  | copied wr => exact ⟨h.1, h.2.mono hR⟩
  | _ => trivial

theorem TxCqeTraced.mono {txCqe : TxCqe} (hR : R ⊆ R') (hL : L ⊆ L') (h : TxCqeTraced R L txCqe) :
    TxCqeTraced R' L' txCqe := by
  cases txCqe with
  | polled wr_id cqe_time => exact hL h
  | found ping_msg wr_id cqe_time => exact ⟨hR h.1, h.2.1, hL h.2.2⟩
  | copied wr wr_id => exact AckTraced.mono hR hL h
  | _ => trivial

theorem EventTraced.mono {e : Event} (hR : R ⊆ R') (hL : L ⊆ L') (h : EventTraced R L e) :
    EventTraced R' L' e := by
  cases e with
  | pongPosted pingid dst qpn => exact PongTraced.mono hR h
  | pongCompleted pingid cqe_time => trivial
  | ackPosted pingid dst qpn server_delay => exact AckTraced.mono hR hL h

theorem Traced.receive {inetNtop : IbvGid → Text} {s : RdmaServer} (h : s.Traced inetNtop R L)
    {m : RdmaPingmsg} (hm : AhContext.Fits inetNtop m.gid) : s.Traced inetNtop (R ++ [m]) L := by
  have hR : R ⊆ R ++ [m] := List.subset_append_left R [m]
  have hL : L ⊆ L := List.Subset.refl L
  refine ⟨?_, h.ah, fun m' hm' => hR (h.queue m' hm'), h.table.mono fun key m' hm' => ⟨hR hm'.1, hm'.2⟩,
    h.tx.mono hR, h.txCqe.mono hR hL, h.sends, fun n e he => (h.log n e he).mono hR (List.Subset.refl _)⟩
  intro m' hm'
  rcases List.mem_append.mp hm' with hold | hnew
  · exact h.fits m' hold
  · rw [List.mem_singleton.mp hnew]
    exact hm

theorem Traced.logged {inetNtop : IbvGid → Text} {s : RdmaServer} (h : s.Traced inetNtop R L)
    {e : Event} (he : EventTraced R L e) : s.Traced inetNtop R (L ++ [e]) := by
  have hR : R ⊆ R := List.Subset.refl R
  have hL : L ⊆ L ++ [e] := List.subset_append_left L [e]
  refine ⟨h.fits, h.ah, h.queue, h.table, h.tx, h.txCqe.mono hR hL,
    fun wr hwr hack => hL (h.sends wr hwr hack), ?_⟩
  intro n e' he'
  rw [List.getElem?_append] at he'
  split at he'
  · rename_i hn
    rw [List.take_append_of_le_length (Nat.le_of_lt hn)]
    exact h.log n e' he'
  · rename_i hn
    have hz : n - L.length = 0 := by
      have := (List.getElem?_eq_some_iff.mp he').1
      rw [List.length_singleton] at this
      omega
    rw [hz, List.getElem?_cons_zero, Option.some.injEq] at he'
    have hlen : n = L.length := by omega
    rw [hlen, List.take_left', ← he']
    · exact he
    · rfl

end Growth

theorem traced_init (inetNtop : IbvGid → Text) : init.Traced inetNtop [] [] where
  fits := by
    intro m hm
    cases hm
  ah := AhContext.sound_init
  queue := by
    intro m hm
    cases hm
  table := PingMsgMap.all_init _
  tx := trivial
  txCqe := trivial
  sends := by
    intro wr hwr
    cases hwr
  log := by
    intro n e he
    rw [List.getElem?_nil] at he
    cases he

/-- A PING is only received when the text of its GID fits into the buffer of `parsed_gid`. -/
def FitsOnReceive (inetNtop : IbvGid → Text) : Action → Prop
  | .receive ping_msg _ => AhContext.Fits inetNtop ping_msg.gid
  | _ => True

theorem Traced.handle {inetNtop : IbvGid → Text} (hinj : Function.Injective inetNtop) {s : RdmaServer}
    {R : List RdmaPingmsg} {L : List Event} (h : s.Traced inetNtop R L) {m : RdmaPingmsg} (hm : m ∈ R)
    {stack : Text} {created : Bool} {ctx : AhContext} {r : Option AddressHandle}
    (handle : s.ah.getOrCreateAh inetNtop m.addr stack created = (ctx, r)) :
    ctx.Sound inetNtop ∧ ∀ ah, r = some ah → ah.attr = ahAttr m.addr := by
  have hsound := AhContext.getOrCreateAh_sound hinj h.ah m.addr (h.fits m hm) stack created
  rwa [handle] at hsound

theorem Traced.step {inetNtop : IbvGid → Text} (hinj : Function.Injective inetNtop) {s : RdmaServer}
    (h : s.Traced inetNtop s.received s.log) {a : Action} (hfit : FitsOnReceive inetNtop a) :
    (step inetNtop s a).Traced inetNtop (step inetNtop s a).received (step inetNtop s a).log := by
  rcases step_cases s a with heq | hstep
  · rwa [heq]
  generalize RdmaServer.step inetNtop s a = s' at hstep
  cases hstep with
  | receive ping_msg cqe_time =>
    have hr := h.receive (m := { ping_msg with time := cqe_time }) hfit
    refine ⟨hr.fits, hr.ah, ?_, hr.table, hr.tx, hr.txCqe, hr.sends, hr.log⟩
    intro m hm
    rcases List.mem_append.mp hm with hold | hnew
    · exact hr.queue m hold
    · exact List.mem_append_right _ hnew
  | dequeue now steady_now ping_msg rest idle queued =>
    have hm : ping_msg ∈ s.received := h.queue ping_msg (by rw [queued]; exact List.mem_cons_self)
    refine ⟨h.fits, h.ah, ?_, h.table.insert ⟨hm, rfl⟩ now steady_now, hm, h.txCqe, h.sends, h.log⟩
    intro m hrest
    exact h.queue m (by rw [queued]; exact List.mem_cons_of_mem ping_msg hrest)
  | copyPong stack created ping_msg ctx ah inserted handle =>
    have hm : ping_msg ∈ s.received := by
      have htx := h.tx
      rwa [inserted] at htx
    obtain ⟨hsound, hattr⟩ := h.handle hinj hm handle
    exact ⟨h.fits, hsound, h.queue, h.table, ⟨rfl, ping_msg, hm, rfl, hattr ah rfl, rfl⟩, h.txCqe,
      h.sends, h.log⟩
  | copyPongFailed stack created ping_msg ctx inserted handle =>
    have hm : ping_msg ∈ s.received := by
      have htx := h.tx
      rwa [inserted] at htx
    obtain ⟨hsound, -⟩ := h.handle hinj hm handle
    exact ⟨h.fits, hsound, h.queue, h.table, trivial, h.txCqe, h.sends, h.log⟩
  | postPong wr copied =>
    have hw : TxTraced s.received (.copied wr) := by
      have htx := h.tx
      rwa [copied] at htx
    have hl := h.logged (e := .pongPosted wr.msg.pingid wr.ah.attr wr.remote_qpn) hw.2
    refine ⟨hl.fits, hl.ah, hl.queue, hl.table, trivial, hl.txCqe, ?_, hl.log⟩
    intro w hwr
    rcases List.mem_append.mp hwr with hold | hnew
    · exact hl.sends w hold
    · rw [List.mem_singleton.mp hnew]
      intro hack
      rw [hw.1] at hack
      exact absurd hack (by decide)
  | postPongFailed wr copied =>
    exact ⟨h.fits, h.ah, h.queue, h.table, trivial, h.txCqe, h.sends, h.log⟩
  | transmit wr rest posted =>
    refine ⟨h.fits, h.ah, h.queue, h.table, h.tx, h.txCqe, ?_, h.log⟩
    intro w hwr
    exact h.sends w (by rw [posted]; exact List.mem_cons_of_mem wr hwr)
  | complete ok wr rest sent =>
    exact ⟨h.fits, h.ah, h.queue, h.table, h.tx, h.txCqe, h.sends, h.log⟩
  | pollAck cqe_time rest idle completed =>
    exact ⟨h.fits, h.ah, h.queue, h.table, h.tx, h.txCqe, h.sends, h.log⟩
  | pollPong cqe_time wr_id rest idle completed isPong =>
    have hl := h.logged (e := .pongCompleted wr_id cqe_time) trivial
    exact ⟨hl.fits, hl.ah, hl.queue, hl.table, hl.tx, List.mem_append_right _ List.mem_cons_self,
      hl.sends, hl.log⟩
  | found wr_id cqe_time ping_msg polled stored =>
    have hq : TxCqeTraced s.received s.log (.polled wr_id cqe_time) := polled ▸ h.txCqe
    obtain ⟨hm, hp⟩ := h.table.get stored
    exact ⟨h.fits, h.ah, h.queue, h.table, h.tx, ⟨hm, hp, hq⟩, h.sends, h.log⟩
  | missing wr_id cqe_time polled gone =>
    exact ⟨h.fits, h.ah, h.queue, h.table, h.tx, trivial, h.sends, h.log⟩
  | copyAck stack created ping_msg wr_id cqe_time ctx ah found handle =>
    have hf : TxCqeTraced s.received s.log (.found ping_msg wr_id cqe_time) := found ▸ h.txCqe
    obtain ⟨hm, hp, hq⟩ := hf
    obtain ⟨hsound, hattr⟩ := h.handle hinj hm handle
    refine ⟨h.fits, hsound, h.queue, h.table, h.tx, ?_, h.sends, h.log⟩
    exact ⟨ping_msg, hm, cqe_time, hp, ⟨hattr ah rfl, rfl⟩, hq, calcTimeDeltaWithModulo_eq _ _⟩
  | copyAckFailed stack created ping_msg wr_id cqe_time ctx found handle =>
    have hf : TxCqeTraced s.received s.log (.found ping_msg wr_id cqe_time) := found ▸ h.txCqe
    obtain ⟨hsound, -⟩ := h.handle hinj hf.1 handle
    exact ⟨h.fits, hsound, h.queue, h.table, h.tx, trivial, h.sends, h.log⟩
  | postAck wr wr_id copied =>
    have hc : TxCqeTraced s.received s.log (.copied wr wr_id) := copied ▸ h.txCqe
    have hl := h.logged (e := .ackPosted wr.msg.pingid wr.ah.attr wr.remote_qpn wr.msg.server_delay) hc
    refine ⟨hl.fits, hl.ah, hl.queue, hl.table, hl.tx, trivial, ?_, hl.log⟩
    intro w hwr
    rcases List.mem_append.mp hwr with hold | hnew
    · exact hl.sends w hold
    · rw [List.mem_singleton.mp hnew]
      intro _
      exact List.mem_append_right _ List.mem_cons_self
  | postAckFailed wr wr_id copied =>
    exact ⟨h.fits, h.ah, h.queue, h.table, h.tx, trivial, h.sends, h.log⟩
  | remove wr_id answered =>
    exact ⟨h.fits, h.ah, h.queue, h.table.remove wr_id, h.tx, trivial, h.sends, h.log⟩

/-- The log only grows, and PINGs are recorded only when they are received. -/
theorem step_frame (inetNtop : IbvGid → Text) (s : RdmaServer) (a : Action) :
    s.log ⊆ (step inetNtop s a).log ∧
      ((∀ ping_msg cqe_time, a ≠ .receive ping_msg cqe_time) →
        (step inetNtop s a).received = s.received) := by
  rcases step_cases s a with heq | hstep
  · rw [heq]
    exact ⟨List.Subset.refl _, fun _ => rfl⟩
  generalize RdmaServer.step inetNtop s a = s' at hstep
  cases hstep with
  | receive ping_msg cqe_time =>
    exact ⟨List.Subset.refl _, fun h => absurd rfl (h ping_msg cqe_time)⟩
  | postPong wr copied => exact ⟨List.subset_append_left _ _, fun _ => rfl⟩
  | pollPong cqe_time wr_id rest idle completed isPong =>
    exact ⟨List.subset_append_left _ _, fun _ => rfl⟩
  | postAck wr wr_id copied => exact ⟨List.subset_append_left _ _, fun _ => rfl⟩
  | _ => exact ⟨List.Subset.refl _, fun _ => rfl⟩

end RdmaServer
end Pingweave
