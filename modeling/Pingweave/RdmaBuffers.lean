import Pingweave.Address
import Pingweave.Library.Runs
import Pingweave.RdmaServer

/-!
# The send buffers of a server

A PING is answered through one send buffer, chosen by the low byte of its pingid: first its PONG
and then its ACK are copied there. The buffer is in use from the time the tx thread takes the PING
up until its ACK has completed.
-/

namespace Pingweave
namespace RdmaServer
set_option autoImplicit false

def Tx.bufs : Tx → List Nat
  | .inserted ping_msg => [bufIdx ping_msg.pingid]
  | .copied wr => [wr.buf_idx]
  | _ => []

def TxCqe.bufs : TxCqe → List Nat
  | .polled wr_id _ => [bufIdx wr_id]
  | .found _ wr_id _ => [bufIdx wr_id]
  | .copied wr _ => [wr.buf_idx]
  | _ => []

/-- The work requests that have been posted and have not completed. -/
def outstanding (s : RdmaServer) : List SendWr := s.transmitted ++ s.sendQueue

/-- The buffers of the PINGs that are being answered. -/
def inUse (s : RdmaServer) : List Nat :=
  s.tx.bufs ++ s.txCqe.bufs ++ s.outstanding.map SendWr.buf_idx ++
    (s.cq.filter fun wr_id => wr_id ≠ PINGWEAVE_WRID_PONG_ACK).map bufIdx

section Statements
variable (inetNtop : IbvGid → Text)

/-- The buffer that an action copies a message into. -/
def copiedBuf (s : RdmaServer) : Action → Option Nat
  | .copyPong stack created =>
    match s.tx with
    | .inserted ping_msg =>
      (copyToBuf inetNtop s ping_msg.addr (pongMsg ping_msg.pingid) (bufIdx ping_msg.pingid)
        ping_msg.pingid stack created).2.map SendWr.buf_idx
    | _ => none
  | .copyAck stack created =>
    match s.txCqe with
    | .found ping_msg wr_id cqe_time =>
      (copyToBuf inetNtop s ping_msg.addr (ackMsg ping_msg wr_id cqe_time) (bufIdx wr_id)
        PINGWEAVE_WRID_PONG_ACK stack created).2.map SendWr.buf_idx
    | _ => none
  | _ => none

/-- No message is copied into the buffer of an outstanding work request. -/
def NotOverwritten (s : RdmaServer) (a : Action) : Prop :=
  ∀ i, copiedBuf inetNtop s a = some i → ∀ wr ∈ s.outstanding, wr.buf_idx ≠ i

/-- Every work request was transmitted with the bytes of its message. -/
def Faithful (s : RdmaServer) : Prop := ∀ e ∈ s.wire, e.2 = e.1.msg

/-- A PING is only taken up when its buffer is not in use. -/
def FreeOnDequeue (s : RdmaServer) : Action → Prop
  | .dequeue _ _ => s.tx = .idle → ∀ ping_msg ∈ s.queue.head?, bufIdx ping_msg.pingid ∉ s.inUse
  | _ => True

instance (s : RdmaServer) (a : Action) : Decidable (FreeOnDequeue s a) :=
  match a with
  | .dequeue _ _ => inferInstanceAs (Decidable (_ → ∀ ping_msg ∈ s.queue.head?, _))
  | .receive _ _ | .copyPong _ _ | .postPong _ | .transmit | .complete _ | .pollTx _ | .lookup
  | .copyAck _ _ | .postAck _ | .remove => inferInstanceAs (Decidable True)

end Statements

/-- A work request uses the buffer of its id, unless it is an ACK. -/
def Indexed (wr : SendWr) : Prop :=
  wr.wr_id ≠ PINGWEAVE_WRID_PONG_ACK → wr.buf_idx = bufIdx wr.wr_id

structure Exclusive (s : RdmaServer) : Prop where
  once : ∀ i, s.inUse.count i ≤ 1
  outstanding : ∀ wr ∈ s.outstanding, Indexed wr
  queued : ∀ wr ∈ s.sendQueue, s.buf wr.buf_idx = wr.msg
  tx : ∀ wr, s.tx = .copied wr → Indexed wr ∧ s.buf wr.buf_idx = wr.msg
  txCqe : ∀ wr wr_id, s.txCqe = .copied wr wr_id → Indexed wr ∧ s.buf wr.buf_idx = wr.msg
  faithful : s.Faithful

theorem count_inUse (s : RdmaServer) (i : Nat) :
    s.inUse.count i = s.tx.bufs.count i + s.txCqe.bufs.count i +
      (s.transmitted.map SendWr.buf_idx).count i + (s.sendQueue.map SendWr.buf_idx).count i +
      ((s.cq.filter fun wr_id => wr_id ≠ PINGWEAVE_WRID_PONG_ACK).map bufIdx).count i := by
  simp only [inUse, RdmaServer.outstanding, List.map_append, List.count_append]
  omega

theorem exclusive_init : init.Exclusive where
  once := fun _ => Nat.zero_le 1
  outstanding := by
    intro wr hwr
    cases hwr
  queued := by
    intro wr hwr
    cases hwr
  tx := by
    intro wr h
    cases h
  txCqe := by
    intro wr wr_id h
    cases h
  faithful := by
    intro e he
    cases he

theorem Exclusive.not_both {s : RdmaServer} (h : s.Exclusive) {i : Nat} (htx : i ∈ s.tx.bufs) :
    i ∉ s.txCqe.bufs := by
  intro hcqe
  have honce := h.once i
  have hpos := List.count_pos_iff.mpr htx
  have hpos' := List.count_pos_iff.mpr hcqe
  simp only [inUse, List.count_append] at honce
  omega

/-- The NIC does not use a buffer that a thread holds. -/
theorem Exclusive.not_outstanding {s : RdmaServer} (h : s.Exclusive) {i : Nat}
    (hi : i ∈ s.tx.bufs ++ s.txCqe.bufs) : ∀ wr ∈ s.outstanding, wr.buf_idx ≠ i := by
  rintro wr hwr rfl
  have honce := h.once wr.buf_idx
  have hpos := List.count_pos_iff.mpr hi
  have hpos' := List.count_pos_iff.mpr (List.mem_map_of_mem (f := SendWr.buf_idx) hwr)
  simp only [inUse, List.count_append] at honce hpos
  omega

theorem Exclusive.tx_alone {s : RdmaServer} (h : s.Exclusive) {i : Nat} (hi : i ∈ s.tx.bufs) :
    i ∉ s.txCqe.bufs ∧ ∀ wr ∈ s.outstanding, wr.buf_idx ≠ i :=
  ⟨h.not_both hi, h.not_outstanding (List.mem_append_left _ hi)⟩

theorem Exclusive.txCqe_alone {s : RdmaServer} (h : s.Exclusive) {i : Nat} (hi : i ∈ s.txCqe.bufs) :
    i ∉ s.tx.bufs ∧ ∀ wr ∈ s.outstanding, wr.buf_idx ≠ i :=
  ⟨fun htx => h.not_both htx hi, h.not_outstanding (List.mem_append_right _ hi)⟩

theorem Exclusive.stopTx {s : RdmaServer} (h : s.Exclusive) : { s with tx := .stopped }.Exclusive := by
  refine ⟨?_, h.outstanding, h.queued, ?_, h.txCqe, h.faithful⟩
  · intro i
    have hi := h.once i
    rw [count_inUse] at hi ⊢
    simp only [Tx.bufs, List.count_nil] at hi ⊢
    omega
  · intro wr hw
    cases hw

theorem Exclusive.withTxCqe {s : RdmaServer} (h : s.Exclusive) {t : TxCqe}
    (hbufs : t.bufs.Sublist s.txCqe.bufs) (ht : ∀ wr wr_id, t ≠ .copied wr wr_id) :
    { s with txCqe := t }.Exclusive := by
  refine ⟨?_, h.outstanding, h.queued, h.tx, ?_, h.faithful⟩
  · intro i
    have hi := h.once i
    have hle := hbufs.count_le i
    rw [count_inUse] at hi ⊢
    simp only [] at hi ⊢
    omega
  · intro wr wr_id hw
    exact absurd hw (ht wr wr_id)

theorem Exclusive.enqueue {s : RdmaServer} (h : s.Exclusive) {wr : SendWr}
    (hwr : Indexed wr ∧ s.buf wr.buf_idx = wr.msg) :
    (∀ w ∈ s.transmitted ++ (s.sendQueue ++ [wr]), Indexed w) ∧
      ∀ w ∈ s.sendQueue ++ [wr], s.buf w.buf_idx = w.msg := by
  refine ⟨?_, ?_⟩
  · intro w hw
    rw [← List.append_assoc] at hw
    rcases List.mem_append.mp hw with hold | hnew
    · exact h.outstanding w hold
    · rw [List.mem_singleton.mp hnew]
      exact hwr.1
  · intro w hw
    rcases List.mem_append.mp hw with hold | hnew
    · exact h.queued w hold
    · rw [List.mem_singleton.mp hnew]
      exact hwr.2

theorem Exclusive.dequeue {s : RdmaServer} (h : s.Exclusive) {ping_msg : RdmaPingmsg} (idle : s.tx = .idle)
    (hnot : bufIdx ping_msg.pingid ∉ s.inUse) : { s with tx := .inserted ping_msg }.Exclusive := by
  refine ⟨?_, h.outstanding, h.queued, ?_, h.txCqe, h.faithful⟩
  · intro i
    have hi := h.once i
    rw [count_inUse] at hi ⊢
    by_cases hb : i = bufIdx ping_msg.pingid
    · have hzero := List.count_eq_zero_of_not_mem hnot
      rw [← hb, count_inUse] at hzero
      simp only [Tx.bufs, idle, hb, List.count_cons, List.count_nil, beq_self_eq_true, if_true] at hzero ⊢
      omega
    · have hne : [bufIdx ping_msg.pingid].count i = 0 := by
        rw [List.count_eq_zero, List.mem_singleton]
        exact hb
      simp only [Tx.bufs, hne, idle, List.count_nil] at hi ⊢
      omega
  · intro wr hw
    cases hw

/-- The tx thread writes its message into the buffer that it holds. -/
theorem Exclusive.copyPong {s : RdmaServer} (h : s.Exclusive) {ping_msg : RdmaPingmsg}
    (inserted : s.tx = .inserted ping_msg) (msg : RdmaPongmsg) (ah : AddressHandle) :
    { s with
      buf := Function.update s.buf (bufIdx ping_msg.pingid) msg
      tx := .copied ⟨ping_msg.pingid, bufIdx ping_msg.pingid, ah, ping_msg.qpn, msg⟩ }.Exclusive := by
  have hheld : bufIdx ping_msg.pingid ∈ s.tx.bufs := by
    rw [inserted]
    exact List.mem_cons_self
  obtain ⟨hcqe, hout⟩ := h.tx_alone hheld
  refine ⟨?_, h.outstanding, ?_, ?_, ?_, h.faithful⟩
  · intro i
    have hi := h.once i
    rw [count_inUse] at hi ⊢
    simpa only [Tx.bufs, inserted] using hi
  · intro wr hwr
    have hne := hout wr (List.mem_append_right _ hwr)
    exact (Function.update_of_ne hne _ _).trans (h.queued wr hwr)
  · intro wr hw
    cases hw
    exact ⟨fun _ => rfl, Function.update_self _ _ _⟩
  · intro wr wr_id hw
    obtain ⟨hidx, hbuf⟩ := h.txCqe wr wr_id hw
    have hne : wr.buf_idx ≠ bufIdx ping_msg.pingid := by
      intro heq
      rw [show s.txCqe = .copied wr wr_id from hw] at hcqe
      exact hcqe (heq ▸ List.mem_cons_self)
    exact ⟨hidx, (Function.update_of_ne hne _ _).trans hbuf⟩

theorem Exclusive.copyAck {s : RdmaServer} (h : s.Exclusive) {ping_msg : RdmaPingmsg} {wr_id cqe_time : UInt64}
    (found : s.txCqe = .found ping_msg wr_id cqe_time) (msg : RdmaPongmsg) (ah : AddressHandle) :
    { s with
      buf := Function.update s.buf (bufIdx wr_id) msg
      txCqe := .copied ⟨PINGWEAVE_WRID_PONG_ACK, bufIdx wr_id, ah, ping_msg.qpn, msg⟩ wr_id }.Exclusive := by
  have hheld : bufIdx wr_id ∈ s.txCqe.bufs := by
    rw [found]
    exact List.mem_cons_self
  obtain ⟨htx, hout⟩ := h.txCqe_alone hheld
  refine ⟨?_, h.outstanding, ?_, ?_, ?_, h.faithful⟩
  · intro i
    have hi := h.once i
    rw [count_inUse] at hi ⊢
    simpa only [TxCqe.bufs, found] using hi
  · intro wr hwr
    have hne := hout wr (List.mem_append_right _ hwr)
    exact (Function.update_of_ne hne _ _).trans (h.queued wr hwr)
  · intro wr hw
    obtain ⟨hidx, hbuf⟩ := h.tx wr hw
    have hne : wr.buf_idx ≠ bufIdx wr_id := by
      intro heq
      rw [show s.tx = .copied wr from hw] at htx
      exact htx (heq ▸ List.mem_cons_self)
    exact ⟨hidx, (Function.update_of_ne hne _ _).trans hbuf⟩
  · intro wr p hw
    cases hw
    exact ⟨fun hne => absurd rfl hne, Function.update_self _ _ _⟩

/-- A posted buffer passes from its thread to the NIC. -/
theorem Exclusive.postPong {s : RdmaServer} (h : s.Exclusive) {wr : SendWr} (copied : s.tx = .copied wr) :
    { s with sendQueue := s.sendQueue ++ [wr], tx := .idle }.Exclusive := by
  obtain ⟨hout, hqueued⟩ := h.enqueue (h.tx wr copied)
  refine ⟨?_, hout, hqueued, ?_, h.txCqe, h.faithful⟩
  · intro i
    have hi := h.once i
    rw [count_inUse] at hi ⊢
    simp only [Tx.bufs, copied, List.map_append, List.map_cons, List.map_nil, List.count_append,
      List.count_nil] at hi ⊢
    omega
  · intro w hw
    cases hw

theorem Exclusive.postAck {s : RdmaServer} (h : s.Exclusive) {wr : SendWr} {wr_id : UInt64}
    (copied : s.txCqe = .copied wr wr_id) :
    { s with sendQueue := s.sendQueue ++ [wr], txCqe := .answered wr_id }.Exclusive := by
  obtain ⟨hout, hqueued⟩ := h.enqueue (h.txCqe wr wr_id copied)
  refine ⟨?_, hout, hqueued, h.tx, ?_, h.faithful⟩
  · intro i
    have hi := h.once i
    rw [count_inUse] at hi ⊢
    simp only [TxCqe.bufs, copied, List.map_append, List.map_cons, List.map_nil, List.count_append,
      List.count_nil] at hi ⊢
    omega
  · intro w p hw
    cases hw

theorem Exclusive.transmit {s : RdmaServer} (h : s.Exclusive) {wr : SendWr} {rest : List SendWr}
    (posted : s.sendQueue = wr :: rest) :
    { s with
      sendQueue := rest
      transmitted := s.transmitted ++ [wr]
      wire := s.wire ++ [(wr, s.buf wr.buf_idx)] }.Exclusive := by
  have hmem : ∀ w ∈ rest, w ∈ s.sendQueue := by
    intro w hw
    rw [posted]
    exact List.mem_cons_of_mem wr hw
  have hfirst : wr ∈ s.sendQueue := by
    rw [posted]
    exact List.mem_cons_self
  refine ⟨?_, ?_, fun w hw => h.queued w (hmem w hw), h.tx, h.txCqe, ?_⟩
  · intro i
    have hi := h.once i
    rw [count_inUse] at hi ⊢
    simp only [posted, List.map_append, List.map_cons, List.map_nil, List.count_append,
      List.count_cons, List.count_nil] at hi ⊢
    omega
  · intro w hw
    apply h.outstanding
    rw [RdmaServer.outstanding, posted]
    simpa only [RdmaServer.outstanding, List.append_assoc, List.singleton_append] using hw
  · intro e he
    rcases List.mem_append.mp he with hold | hnew
    · exact h.faithful e hold
    · rw [List.mem_singleton.mp hnew]
      exact h.queued wr hfirst

/-- A completed work request leaves its buffer to its completion entry, if it has one. -/
theorem Exclusive.complete {s : RdmaServer} (h : s.Exclusive) {wr : SendWr} {rest : List SendWr}
    (sent : s.transmitted = wr :: rest) (ok : Bool) :
    { s with transmitted := rest, cq := if ok then s.cq ++ [wr.wr_id] else s.cq }.Exclusive := by
  have hfirst : wr ∈ s.outstanding := by
    rw [RdmaServer.outstanding, sent]
    exact List.mem_cons_self
  have hwr : Indexed wr := h.outstanding wr hfirst
  refine ⟨?_, ?_, h.queued, h.tx, h.txCqe, h.faithful⟩
  · intro i
    have hi := h.once i
    rw [count_inUse] at hi ⊢
    cases ok with
    | false =>
      simp only [sent, List.map_cons, List.count_cons, Bool.false_eq_true, if_false] at hi ⊢
      omega
    | true =>
      by_cases hack : wr.wr_id = PINGWEAVE_WRID_PONG_ACK
      · simp only [sent, List.map_cons, List.count_cons, if_true, List.filter_append, hack,
          List.filter_cons, List.filter_nil, ne_eq, not_true_eq_false, decide_false,
          Bool.false_eq_true, if_false, List.append_nil] at hi ⊢
        omega
      · simp only [sent, List.map_cons, List.map_nil, List.count_cons, List.count_append, if_true,
          List.filter_append, hack, List.filter_cons, List.filter_nil, ne_eq, not_false_eq_true,
          decide_true, List.map_append, hwr hack, List.count_nil] at hi ⊢
        omega
  · intro w hw
    apply h.outstanding
    rw [RdmaServer.outstanding, sent]
    exact List.mem_cons_of_mem wr hw

theorem Exclusive.pollAck {s : RdmaServer} (h : s.Exclusive) {rest : List UInt64}
    (completed : s.cq = PINGWEAVE_WRID_PONG_ACK :: rest) : { s with cq := rest }.Exclusive := by
  refine ⟨?_, h.outstanding, h.queued, h.tx, h.txCqe, h.faithful⟩
  intro i
  have hi := h.once i
  rw [count_inUse] at hi ⊢
  simpa only [completed, List.filter_cons, ne_eq, not_true_eq_false, decide_false,
    Bool.false_eq_true, if_false] using hi

theorem Exclusive.pollPong {s : RdmaServer} (h : s.Exclusive) {wr_id : UInt64} {rest : List UInt64}
    (idle : s.txCqe = .idle) (completed : s.cq = wr_id :: rest) (isPong : wr_id ≠ PINGWEAVE_WRID_PONG_ACK)
    (cqe_time : UInt64) : { s with cq := rest, txCqe := .polled wr_id cqe_time }.Exclusive := by
  refine ⟨?_, h.outstanding, h.queued, h.tx, ?_, h.faithful⟩
  · intro i
    have hi := h.once i
    rw [count_inUse] at hi ⊢
    simp only [TxCqe.bufs, idle, completed, List.filter_cons, ne_eq, isPong, not_false_eq_true,
      decide_true, if_true, List.map_cons, List.count_cons, List.count_nil] at hi ⊢
    omega
  · intro w p hw
    cases hw

/-- The fields that `Exclusive` does not read may change. -/
theorem Exclusive.congr {s s' : RdmaServer} (h : s.Exclusive)
    (heq : s' = { s with queue := s'.queue, table := s'.table, ah := s'.ah, received := s'.received, log := s'.log }) :
    s'.Exclusive := by
  rw [heq]
  exact ⟨h.once, h.outstanding, h.queued, h.tx, h.txCqe, h.faithful⟩

theorem Exclusive.step {inetNtop : IbvGid → Text} {s : RdmaServer} (h : s.Exclusive) {a : Action}
    (hfree : FreeOnDequeue s a) : (step inetNtop s a).Exclusive := by
  rcases step_cases s a with heq | hstep
  · rwa [heq]
  generalize RdmaServer.step inetNtop s a = s' at hstep
  cases hstep with
  | receive ping_msg cqe_time => exact h.congr rfl
  | dequeue now steady_now ping_msg rest idle queued =>
    have hnot : bufIdx ping_msg.pingid ∉ s.inUse := hfree idle ping_msg (by rw [queued]; rfl)
    exact (h.dequeue idle hnot).congr rfl
  | copyPong stack created ping_msg ctx ah inserted handle => exact (h.copyPong inserted _ ah).congr rfl
  | copyPongFailed stack created ping_msg ctx inserted handle => exact h.stopTx.congr rfl
  | postPong wr copied => exact (h.postPong copied).congr rfl
  | postPongFailed wr copied => exact h.stopTx
  | transmit wr rest posted => exact h.transmit posted
  | complete ok wr rest sent => exact h.complete sent ok
  | pollAck cqe_time rest idle completed => exact h.pollAck completed
  | pollPong cqe_time wr_id rest idle completed isPong =>
    exact (h.pollPong idle completed isPong cqe_time).congr rfl
  | found wr_id cqe_time ping_msg polled stored =>
    refine h.withTxCqe ?_ fun wr p hw => (by cases hw)
    rw [polled]
    exact List.Sublist.refl _
  | missing wr_id cqe_time polled gone =>
    exact h.withTxCqe (List.nil_sublist _) fun wr p hw => (by cases hw)
  | copyAck stack created ping_msg wr_id cqe_time ctx ah found handle => exact (h.copyAck found _ ah).congr rfl
  | copyAckFailed stack created ping_msg wr_id cqe_time ctx found handle =>
    have hs : { s with txCqe := .stopped }.Exclusive :=
      h.withTxCqe (List.nil_sublist _) fun wr p hw => (by cases hw)
    exact hs.congr rfl
  | postAck wr wr_id copied => exact (h.postAck copied).congr rfl
  | postAckFailed wr wr_id copied =>
    exact h.withTxCqe (List.nil_sublist _) fun wr p hw => (by cases hw)
  | remove wr_id answered =>
    have hs : { s with txCqe := .idle }.Exclusive :=
      h.withTxCqe (List.nil_sublist _) fun wr p hw => (by cases hw)
    exact hs.congr rfl

theorem copyToBuf_buf_idx {inetNtop : IbvGid → Text} {s : RdmaServer} {rem_dest : RdmaAddr}
    {msg : RdmaPongmsg} {buf_idx i : Nat} {wr_id : UInt64} {stack : Text} {created : Bool}
    (h : (copyToBuf inetNtop s rem_dest msg buf_idx wr_id stack created).2.map SendWr.buf_idx =
      some i) : i = buf_idx := by
  obtain ⟨wr, hwr, rfl⟩ := Option.map_eq_some_iff.mp h
  unfold copyToBuf at hwr
  simp only [] at hwr
  split at hwr
  · cases hwr
  · cases hwr
    rfl

/-- A message is only copied into the buffer that the copying thread holds. -/
theorem Exclusive.notOverwritten {inetNtop : IbvGid → Text} {s : RdmaServer} (h : s.Exclusive)
    (a : Action) : NotOverwritten inetNtop s a := by
  intro i hi
  cases a with
  | copyPong stack created =>
    cases htx : s.tx with
    | inserted ping_msg =>
      simp only [copiedBuf, htx] at hi
      rw [copyToBuf_buf_idx hi]
      exact (h.tx_alone (by rw [htx]; exact List.mem_cons_self)).2
    | _ =>
      simp only [copiedBuf, htx] at hi
      cases hi
  | copyAck stack created =>
    cases hcqe : s.txCqe with
    | found ping_msg wr_id cqe_time =>
      simp only [copiedBuf, hcqe] at hi
      rw [copyToBuf_buf_idx hi]
      exact (h.txCqe_alone (by rw [hcqe]; exact List.mem_cons_self)).2
    | _ =>
      simp only [copiedBuf, hcqe] at hi
      cases hi
  | _ => cases hi

/-- In a run in which PINGs are only taken up when their buffer is free, no buffer is overwritten
while it is used by the NIC, and every message is transmitted as it was posted. -/
theorem buffers_intact (inetNtop : IbvGid → Text) (as : List Action)
    (hfree : Runs.Along (step inetNtop) FreeOnDequeue init as) :
    Runs.Along (step inetNtop) (NotOverwritten inetNtop) init as ∧
      (Runs.run (step inetNtop) init as).Faithful := by
  have hstep : ∀ s a, s.Exclusive → FreeOnDequeue s a → (step inetNtop s a).Exclusive :=
    fun _ _ h hf => h.step hf
  have hend : (Runs.run (step inetNtop) init as).Exclusive :=
    Runs.run_invariant_along hstep exclusive_init hfree
  exact ⟨Runs.along_of_invariant hstep (fun _ a h _ => h.notOverwritten a) exclusive_init hfree,
    hend.faithful⟩

/-- A PING with uid 0 from the address with the given last octet. -/
def firstPing (octet : UInt32) : RdmaPingmsg :=
  ⟨makePingid (quad 10 0 0 octet) 0, 7, ⟨0x20010db800010002, 0x3000400050006⟩, 0, 0⟩

/-- The steps from taking up a PING to the posting of its PONG. -/
def answerActions : List Action := [.dequeue 0 0, .copyPong [] true, .postPong true]

/-- Two PINGs with one buffer, the second taken up after the ACK for the first has completed. -/
def inTurnActions : List Action :=
  [.receive (firstPing 1) 100, .receive (firstPing 2) 150] ++ answerActions ++
    [.transmit, .complete true, .pollTx 250, .lookup, .copyAck [] true, .postAck true, .transmit,
      .complete true, .remove] ++ answerActions ++ [.transmit]

theorem buffers_intact_inTurn :
    (Runs.run (step plainNtop) init inTurnActions).wire.length = 3 ∧
      Runs.Along (step plainNtop) (NotOverwritten plainNtop) init inTurnActions ∧
      (Runs.run (step plainNtop) init inTurnActions).Faithful :=
  ⟨by decide +kernel, buffers_intact plainNtop inTurnActions (by decide +kernel)⟩

/-- The second PONG is copied while the first is still to be transmitted. -/
def overlapActions : List Action :=
  [.receive (firstPing 1) 100, .receive (firstPing 2) 150] ++ answerActions ++ answerActions ++
    [.transmit]

theorem not_buffers_intact : ¬ ∀ as : List Action,
    Runs.Along (step plainNtop) (NotOverwritten plainNtop) init as ∧
      (Runs.run (step plainNtop) init as).Faithful := by
  intro h
  have hfaithful := (h overlapActions).2
  have hwire : (Runs.run (step plainNtop) init overlapActions).wire.map
      (fun e => (e.1.msg.pingid.toNat, e.2.pingid.toNat)) =
        [((firstPing 1).pingid.toNat, (firstPing 2).pingid.toNat)] := by
    decide +kernel
  obtain ⟨e, he, hpingids⟩ := List.mem_map.mp (hwire ▸ List.mem_cons_self)
  rw [hfaithful e he, Prod.mk.injEq] at hpingids
  exact absurd (hpingids.1.symm.trans hpingids.2) (by decide)

end RdmaServer
end Pingweave
