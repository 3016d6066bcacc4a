import Pingweave.RdmaAccounting

/-!
# The RDMA client

The tx scheduler, tx completion and rx threads of `rdma_client.cpp` around one ping table. A
thread's state says where it stands between two accesses to what it shares with the others:
the table, the send queue and the clock. The steps of the NIC are actions of their own.
-/

namespace Pingweave
open RdmaPinginfoMap
set_option autoImplicit false

structure RdmaClientConfig where
  ipv4 : Text
  rx_addr : RdmaAddr
  rnic_hw_ts : Bool
  deriving DecidableEq, Repr

namespace RdmaClient

/-- The tx scheduler thread: after the insert, after `post_send` and after reading the clock. -/
inductive TxSched where
  | idle
  | inserted (msg : RdmaPingmsg)
  | posted (pingid : UInt64)
  | stamped (pingid cqe_time : UInt64)
  deriving DecidableEq, Repr

/-- The rx thread: between stamping a received message and handling it. -/
inductive Rx where
  | idle
  | received (msg : RdmaPongmsg) (recv_time cqe_time : UInt64)
  deriving DecidableEq, Repr

inductive Action where
  | insert (dst_ip : Text) (now steady_now : TimePoint) (system_ns : UInt64)
  | postSend (ok : Bool)
  | stamp (now : TimePoint)
  | updatePingCqe
  | transmit (ok : Bool)
  | pollTx (cqe_time : UInt64)
  | receive (msg : RdmaPongmsg) (now : TimePoint) (completion_ts : UInt64)
  | handle
  deriving DecidableEq, Repr

end RdmaClient

/-- The state of a client. `sendQueue` holds the posted work requests, `txCq` the ids of the
completed ones, and `enqueued` all messages ever handed to the result thread. `calls` and
`issued` record the table operations and the pingids so far. -/
structure RdmaClient where
  table : RdmaPinginfoMap
  ping_uid : UInt32
  txSched : RdmaClient.TxSched
  rx : RdmaClient.Rx
  sendQueue : List RdmaPingmsg
  txCq : List UInt64
  enqueued : List RdmaResultMsg
  calls : List Op
  issued : List UInt64

namespace RdmaClient

def init : RdmaClient where
  table := RdmaPinginfoMap.init PINGWEAVE_TABLE_EXPIRY_TIME_RDMA_MS
  ping_uid := 0
  txSched := .idle
  rx := .idle
  sendQueue := []
  txCq := []
  enqueued := []
  calls := []
  issued := []

def call (c : RdmaClient) (op : Op) : RdmaClient :=
  { c with
    table := (c.table.apply op).table
    enqueued := c.enqueued ++ (c.table.apply op).enqueued
    calls := c.calls ++ [op] }

/-- The PING that the scheduler thread creates next. -/
def nextPing (cfg : RdmaClientConfig) (c : RdmaClient) : RdmaPingmsg where
  pingid := makePingid (ip2uint cfg.ipv4) c.ping_uid
  qpn := cfg.rx_addr.qpn
  gid := cfg.rx_addr.gid
  lid := cfg.rx_addr.lid
  time := 0

def handleReceivedMessage (c : RdmaClient) (msg : RdmaPongmsg) (recv_time cqe_time : UInt64) :
    RdmaClient :=
  if msg.opcode = PINGWEAVE_OPCODE_PONG then c.call (.update msg.pingid (.pong recv_time cqe_time))
  else if msg.opcode = PINGWEAVE_OPCODE_ACK then
    c.call (.update msg.pingid (.ack msg.server_delay))
  else c

def step (cfg : RdmaClientConfig) (c : RdmaClient) : Action → RdmaClient
  | .insert dst_ip now steady_now system_ns =>
    match c.txSched with
    | .idle =>
      let msg := nextPing cfg c
      -- a failed insert is only logged: the PING is sent all the same
      { c.call (.insert msg dst_ip now steady_now system_ns) with
        ping_uid := c.ping_uid + 1
        txSched := .inserted msg
        issued := c.issued ++ [msg.pingid] }
    | _ => c
  | .postSend ok =>
    match c.txSched with
    | .inserted msg =>
      if ok then
        { c with
          sendQueue := c.sendQueue ++ [msg]
          txSched := if cfg.rnic_hw_ts then .idle else .posted msg.pingid }
      else { c with txSched := .idle }
    | _ => c
  | .stamp now =>
    match c.txSched with
    | .posted pingid => { c with txSched := .stamped pingid (convertClockToNs now) }
    | _ => c
  | .updatePingCqe =>
    match c.txSched with
    | .stamped pingid cqe_time =>
      { c.call (.update pingid (.cqe cqe_time)) with txSched := .idle }
    | _ => c
  | .transmit ok =>
    match c.sendQueue with
    | msg :: rest =>
      { c with sendQueue := rest, txCq := if ok then c.txCq ++ [msg.pingid] else c.txCq }
    | [] => c
  | .pollTx cqe_time =>
    match c.txCq with
    | wr_id :: rest =>
      if cfg.rnic_hw_ts then { c.call (.update wr_id (.cqe cqe_time)) with txCq := rest }
      else { c with txCq := rest }
    | [] => c
  | .receive msg now completion_ts =>
    match c.rx with
    | .idle =>
      let recv_time := convertClockToNs now
      { c with rx := .received msg recv_time (if cfg.rnic_hw_ts then completion_ts else recv_time) }
    | _ => c
  | .handle =>
    match c.rx with
    | .received msg recv_time cqe_time =>
      { c.handleReceivedMessage msg recv_time cqe_time with rx := .idle }
    | .idle => c

inductive Step (cfg : RdmaClientConfig) (c : RdmaClient) : Action → RdmaClient → Prop
  | insert (dst_ip : Text) (now steady_now : TimePoint) (system_ns : UInt64)
      (idle : c.txSched = .idle) :
      Step cfg c (.insert dst_ip now steady_now system_ns)
        { c.call (.insert (nextPing cfg c) dst_ip now steady_now system_ns) with
          ping_uid := c.ping_uid + 1
          txSched := .inserted (nextPing cfg c)
          issued := c.issued ++ [(nextPing cfg c).pingid] }
  | sent (msg : RdmaPingmsg) (inserted : c.txSched = .inserted msg) :
      Step cfg c (.postSend true)
        { c with
          sendQueue := c.sendQueue ++ [msg]
          txSched := if cfg.rnic_hw_ts then .idle else .posted msg.pingid }
  | sendFailed (msg : RdmaPingmsg) (inserted : c.txSched = .inserted msg) :
      Step cfg c (.postSend false) { c with txSched := .idle }
  | stamp (now : TimePoint) (pingid : UInt64) (posted : c.txSched = .posted pingid) :
      Step cfg c (.stamp now) { c with txSched := .stamped pingid (convertClockToNs now) }
  | updatePingCqe (pingid cqe_time : UInt64) (stamped : c.txSched = .stamped pingid cqe_time) :
      Step cfg c .updatePingCqe { c.call (.update pingid (.cqe cqe_time)) with txSched := .idle }
  | transmit (ok : Bool) (msg : RdmaPingmsg) (rest : List RdmaPingmsg)
      (queued : c.sendQueue = msg :: rest) :
      Step cfg c (.transmit ok)
        { c with sendQueue := rest, txCq := if ok then c.txCq ++ [msg.pingid] else c.txCq }
  | pollHw (cqe_time wr_id : UInt64) (rest : List UInt64) (hw : cfg.rnic_hw_ts = true)
      (completed : c.txCq = wr_id :: rest) :
      Step cfg c (.pollTx cqe_time) { c.call (.update wr_id (.cqe cqe_time)) with txCq := rest }
  | pollSw (cqe_time wr_id : UInt64) (rest : List UInt64) (sw : cfg.rnic_hw_ts = false)
      (completed : c.txCq = wr_id :: rest) : Step cfg c (.pollTx cqe_time) { c with txCq := rest }
  | receive (msg : RdmaPongmsg) (now : TimePoint) (completion_ts : UInt64) (idle : c.rx = .idle) :
      Step cfg c (.receive msg now completion_ts)
        { c with
          rx := .received msg (convertClockToNs now)
            (if cfg.rnic_hw_ts then completion_ts else convertClockToNs now) }
  | pong (msg : RdmaPongmsg) (recv_time cqe_time : UInt64)
      (received : c.rx = .received msg recv_time cqe_time) (isPong : msg.opcode = PINGWEAVE_OPCODE_PONG) :
      Step cfg c .handle
        { c.call (.update msg.pingid (.pong recv_time cqe_time)) with rx := .idle }
  | ack (msg : RdmaPongmsg) (recv_time cqe_time : UInt64)
      (received : c.rx = .received msg recv_time cqe_time) (isAck : msg.opcode = PINGWEAVE_OPCODE_ACK) :
      Step cfg c .handle { c.call (.update msg.pingid (.ack msg.server_delay)) with rx := .idle }
  | unknown (msg : RdmaPongmsg) (recv_time cqe_time : UInt64)
      (received : c.rx = .received msg recv_time cqe_time) : Step cfg c .handle { c with rx := .idle }

theorem step_cases (cfg : RdmaClientConfig) (c : RdmaClient) (a : Action) :
    step cfg c a = c ∨ Step cfg c a (step cfg c a) := by
  cases a with
  | insert dst_ip now steady_now system_ns =>
    cases h : c.txSched <;> simp only [step, h, true_or]
    exact Or.inr (.insert dst_ip now steady_now system_ns h)
  | postSend ok =>
    cases h : c.txSched with
    | inserted msg =>
      cases ok with
      | true => simp only [step, h, if_true]; exact Or.inr (.sent msg h)
      | false => simp only [step, h, Bool.false_eq_true, if_false]; exact Or.inr (.sendFailed msg h)
    | _ => simp only [step, h, true_or]
  | stamp now =>
    cases h : c.txSched <;> simp only [step, h, true_or]
    exact Or.inr (.stamp now _ h)
  | updatePingCqe =>
    cases h : c.txSched <;> simp only [step, h, true_or]
    exact Or.inr (.updatePingCqe _ _ h)
  | transmit ok =>
    cases h : c.sendQueue <;> simp only [step, h, true_or]
    exact Or.inr (.transmit ok _ _ h)
  | pollTx cqe_time =>
    cases h : c.txCq with
    | nil => simp only [step, h, true_or]
    | cons wr_id rest =>
      cases hw : cfg.rnic_hw_ts with
      | true => simp only [step, h, hw, if_true]; exact Or.inr (.pollHw cqe_time wr_id rest hw h)
      | false =>
        simp only [step, h, hw, Bool.false_eq_true, if_false]
        exact Or.inr (.pollSw cqe_time wr_id rest hw h)
  | receive msg now completion_ts =>
    cases h : c.rx <;> simp only [step, h, true_or]
    exact Or.inr (.receive msg now completion_ts h)
  | handle =>
    cases h : c.rx with
    | idle => simp only [step, h, true_or]
    | received msg recv_time cqe_time =>
      simp only [step, h, handleReceivedMessage]
      by_cases hp : msg.opcode = PINGWEAVE_OPCODE_PONG
      · rw [if_pos hp]
        exact Or.inr (.pong msg recv_time cqe_time h hp)
      · rw [if_neg hp]
        by_cases ha : msg.opcode = PINGWEAVE_OPCODE_ACK
        · rw [if_pos ha]
          exact Or.inr (.ack msg recv_time cqe_time h ha)
        · rw [if_neg ha]
          exact Or.inr (.unknown msg recv_time cqe_time h)

theorem step_induction {P : RdmaClient → Prop} {cfg : RdmaClientConfig} {c : RdmaClient} {a : Action}
    (h : P c) (preserved : ∀ c', Step cfg c a c' → P c') : P (step cfg c a) := by
  rcases step_cases cfg c a with heq | hstep
  · rwa [heq]
  · exact preserved _ hstep

/-- The book of the table operations so far. -/
def book (c : RdmaClient) : Book := Book.run PINGWEAVE_TABLE_EXPIRY_TIME_RDMA_MS c.calls

/-- The client's table and results are those of its book. -/
structure Booked (c : RdmaClient) : Prop where
  table : c.table = c.book.table
  enqueued : c.enqueued = c.book.enqueued

theorem book_call (c : RdmaClient) (op : Op) : (c.call op).book = c.book.step op :=
  Runs.run_concat Book.step _ c.calls op

theorem Booked.call {c : RdmaClient} (h : c.Booked) (op : Op) : (c.call op).Booked where
  table := by
    rw [book_call, Book.step, ← h.table]
    rfl
  enqueued := by
    rw [book_call, Book.step, ← h.table, ← h.enqueued]
    rfl

theorem booked_init : init.Booked := ⟨rfl, rfl⟩

theorem Booked.step {cfg : RdmaClientConfig} {c : RdmaClient} (h : c.Booked) (a : Action) :
    (step cfg c a).Booked := by
  refine step_induction h fun c' hstep => ?_
  cases hstep with
  | insert dst_ip now steady_now system_ns idle =>
    have hcall := h.call (.insert (nextPing cfg c) dst_ip now steady_now system_ns)
    exact ⟨hcall.table, hcall.enqueued⟩
  | updatePingCqe pingid cqe_time stamped =>
    have hcall := h.call (.update pingid (.cqe cqe_time))
    exact ⟨hcall.table, hcall.enqueued⟩
  | pollHw cqe_time wr_id rest hw completed =>
    have hcall := h.call (.update wr_id (.cqe cqe_time))
    exact ⟨hcall.table, hcall.enqueued⟩
  | pong msg recv_time cqe_time received isPong =>
    have hcall := h.call (.update msg.pingid (.pong recv_time cqe_time))
    exact ⟨hcall.table, hcall.enqueued⟩
  | ack msg recv_time cqe_time received isAck =>
    have hcall := h.call (.update msg.pingid (.ack msg.server_delay))
    exact ⟨hcall.table, hcall.enqueued⟩
  | _ => exact ⟨h.table, h.enqueued⟩

end RdmaClient
end Pingweave
