import Pingweave.AddressHandle
import Pingweave.RdmaPingMsg

/-!
# The RDMA server

The rx, tx and tx completion threads of `rdma_server.cpp` around one internal queue, one ping
table and one send context. `post_send` is two steps, since the other sending thread can run
between its copy into the send buffer and `ibv_post_send`. The NIC works through the posted
requests in order, reads the buffer when it transmits, and completes them in order. A thread
that throws stops.
-/

namespace Pingweave
set_option autoImplicit false

/-- A work request posted by `post_send`, with the message it was posted with. -/
structure SendWr where
  wr_id : UInt64
  buf_idx : Nat
  ah : AddressHandle
  remote_qpn : UInt32
  msg : RdmaPongmsg
  deriving DecidableEq, Repr

namespace RdmaServer

inductive Tx where
  | idle
  | inserted (ping_msg : RdmaPingmsg)
  | copied (wr : SendWr)
  | stopped
  deriving DecidableEq, Repr

inductive TxCqe where
  | idle
  | polled (wr_id cqe_time : UInt64)
  | found (ping_msg : RdmaPingmsg) (wr_id cqe_time : UInt64)
  | copied (wr : SendWr) (wr_id : UInt64)
  | answered (wr_id : UInt64)
  | stopped
  deriving DecidableEq, Repr

inductive Event where
  | pongPosted (pingid : UInt64) (dst : AhAttr) (qpn : UInt32)
  | pongCompleted (pingid cqe_time : UInt64)
  | ackPosted (pingid : UInt64) (dst : AhAttr) (qpn : UInt32) (server_delay : UInt64)
  deriving DecidableEq, Repr

inductive Action where
  | receive (ping_msg : RdmaPingmsg) (cqe_time : UInt64)
  | dequeue (now steady_now : TimePoint)
  | copyPong (stack : Text) (created : Bool)
  | postPong (ok : Bool)
  | transmit
  | complete (ok : Bool)
  | pollTx (cqe_time : UInt64)
  | lookup
  | copyAck (stack : Text) (created : Bool)
  | postAck (ok : Bool)
  | remove
  deriving DecidableEq, Repr

end RdmaServer

/-- The state of a server. `sendQueue` holds the posted requests that the NIC has not transmitted,
`transmitted` those it has not completed, `cq` the ids of the completed ones. `received` records
the PINGs with their arrival times, `log` the PONGs and ACKs, and `wire` every transmission with
the bytes that were read from the buffer. -/
structure RdmaServer where
  queue : List RdmaPingmsg
  table : PingMsgMap
  ah : AhContext
  buf : Nat → RdmaPongmsg
  tx : RdmaServer.Tx
  txCqe : RdmaServer.TxCqe
  sendQueue : List SendWr
  transmitted : List SendWr
  cq : List UInt64
  received : List RdmaPingmsg
  log : List RdmaServer.Event
  wire : List (SendWr × RdmaPongmsg)

namespace RdmaServer

def init : RdmaServer where
  queue := []
  table := PingMsgMap.init PINGWEAVE_TABLE_EXPIRY_TIME_RDMA_MS
  ah := AhContext.init
  buf := fun _ => default
  tx := .idle
  txCqe := .idle
  sendQueue := []
  transmitted := []
  cq := []
  received := []
  log := []
  wire := []

def pongMsg (pingid : UInt64) : RdmaPongmsg := ⟨PINGWEAVE_OPCODE_PONG, pingid, 0⟩

def ackMsg (ping_msg : RdmaPingmsg) (wr_id cqe_time : UInt64) : RdmaPongmsg :=
  ⟨PINGWEAVE_OPCODE_ACK, wr_id,
    calcTimeDeltaWithModulo ping_msg.time cqe_time PINGWEAVE_TIME_CALC_MODULO⟩

/-- `pingid % ctx->buf.size()` -/
def bufIdx (pingid : UInt64) : Nat := pingid.toNat % NUM_BUFFER

section Steps
variable (inetNtop : IbvGid → Text)

/-- `post_send` up to the copy into the buffer. -/
def copyToBuf (s : RdmaServer) (rem_dest : RdmaAddr) (msg : RdmaPongmsg) (buf_idx : Nat)
    (wr_id : UInt64) (stack : Text) (created : Bool) : RdmaServer × Option SendWr :=
  let r := s.ah.getOrCreateAh inetNtop rem_dest stack created
  match r.2 with
  | none => ({ s with ah := r.1 }, none)
  | some ah =>
    ({ s with ah := r.1, buf := Function.update s.buf buf_idx msg },
      some ⟨wr_id, buf_idx, ah, rem_dest.qpn, msg⟩)

def step (s : RdmaServer) : Action → RdmaServer
  | .receive ping_msg cqe_time =>
    let ping_msg := { ping_msg with time := cqe_time }
    { s with queue := s.queue ++ [ping_msg], received := s.received ++ [ping_msg] }
  | .dequeue now steady_now =>
    match s.tx, s.queue with
    | .idle, ping_msg :: rest =>
      -- a failed insert is only logged
      { s with
        queue := rest
        table := (s.table.insert ping_msg.pingid ping_msg now steady_now).1
        tx := .inserted ping_msg }
    | _, _ => s
  | .copyPong stack created =>
    match s.tx with
    | .inserted ping_msg =>
      let r := copyToBuf inetNtop s ping_msg.addr (pongMsg ping_msg.pingid) (bufIdx ping_msg.pingid)
        ping_msg.pingid stack created
      match r.2 with
      | none => { r.1 with tx := .stopped }
      | some wr => { r.1 with tx := .copied wr }
    | _ => s
  | .postPong ok =>
    match s.tx with
    | .copied wr =>
      if ok then
        { s with
          sendQueue := s.sendQueue ++ [wr]
          tx := .idle
          log := s.log ++ [.pongPosted wr.msg.pingid wr.ah.attr wr.remote_qpn] }
      else { s with tx := .stopped }
    | _ => s
  | .transmit =>
    match s.sendQueue with
    | wr :: rest =>
      { s with
        sendQueue := rest
        transmitted := s.transmitted ++ [wr]
        wire := s.wire ++ [(wr, s.buf wr.buf_idx)] }
    | [] => s
  | .complete ok =>
    match s.transmitted with
    | wr :: rest =>
      -- a completion with an error status is only logged when it is polled
      { s with transmitted := rest, cq := if ok then s.cq ++ [wr.wr_id] else s.cq }
    | [] => s
  | .pollTx cqe_time =>
    match s.txCqe, s.cq with
    | .idle, wr_id :: rest =>
      if wr_id = PINGWEAVE_WRID_PONG_ACK then { s with cq := rest }
      else
        { s with
          cq := rest
          txCqe := .polled wr_id cqe_time
          log := s.log ++ [.pongCompleted wr_id cqe_time] }
    | _, _ => s
  | .lookup =>
    match s.txCqe with
    | .polled wr_id cqe_time =>
      match s.table.get wr_id with
      | some ping_msg => { s with txCqe := .found ping_msg wr_id cqe_time }
      | none => { s with txCqe := .answered wr_id }
    | _ => s
  | .copyAck stack created =>
    match s.txCqe with
    | .found ping_msg wr_id cqe_time =>
      let r := copyToBuf inetNtop s ping_msg.addr (ackMsg ping_msg wr_id cqe_time) (bufIdx wr_id)
        PINGWEAVE_WRID_PONG_ACK stack created
      match r.2 with
      | none => { r.1 with txCqe := .stopped }
      | some wr => { r.1 with txCqe := .copied wr wr_id }
    | _ => s
  | .postAck ok =>
    match s.txCqe with
    | .copied wr wr_id =>
      if ok then
        { s with
          sendQueue := s.sendQueue ++ [wr]
          txCqe := .answered wr_id
          log := s.log ++ [.ackPosted wr.msg.pingid wr.ah.attr wr.remote_qpn wr.msg.server_delay] }
      else { s with txCqe := .stopped }
    | _ => s
  | .remove =>
    match s.txCqe with
    | .answered wr_id => { s with table := (s.table.remove wr_id).1, txCqe := .idle }
    | _ => s

inductive Step (s : RdmaServer) : Action → RdmaServer → Prop
  | receive (ping_msg : RdmaPingmsg) (cqe_time : UInt64) :
      Step s (.receive ping_msg cqe_time)
        { s with
          queue := s.queue ++ [{ ping_msg with time := cqe_time }]
          received := s.received ++ [{ ping_msg with time := cqe_time }] }
  | dequeue (now steady_now : TimePoint) (ping_msg : RdmaPingmsg) (rest : List RdmaPingmsg)
      (idle : s.tx = .idle) (queued : s.queue = ping_msg :: rest) :
      Step s (.dequeue now steady_now)
        { s with
          queue := rest
          table := (s.table.insert ping_msg.pingid ping_msg now steady_now).1
          tx := .inserted ping_msg }
  | copyPong (stack : Text) (created : Bool) (ping_msg : RdmaPingmsg) (ctx : AhContext)
      (ah : AddressHandle) (inserted : s.tx = .inserted ping_msg)
      (handle : s.ah.getOrCreateAh inetNtop ping_msg.addr stack created = (ctx, some ah)) :
      Step s (.copyPong stack created)
        { s with
          ah := ctx
          buf := Function.update s.buf (bufIdx ping_msg.pingid) (pongMsg ping_msg.pingid)
          tx := .copied ⟨ping_msg.pingid, bufIdx ping_msg.pingid, ah, ping_msg.qpn,
            pongMsg ping_msg.pingid⟩ }
  | copyPongFailed (stack : Text) (created : Bool) (ping_msg : RdmaPingmsg) (ctx : AhContext)
      (inserted : s.tx = .inserted ping_msg)
      (handle : s.ah.getOrCreateAh inetNtop ping_msg.addr stack created = (ctx, none)) :
      Step s (.copyPong stack created) { s with ah := ctx, tx := .stopped }
  | postPong (wr : SendWr) (copied : s.tx = .copied wr) :
      Step s (.postPong true)
        { s with
          sendQueue := s.sendQueue ++ [wr]
          tx := .idle
          log := s.log ++ [.pongPosted wr.msg.pingid wr.ah.attr wr.remote_qpn] }
  | postPongFailed (wr : SendWr) (copied : s.tx = .copied wr) :
      Step s (.postPong false) { s with tx := .stopped }
  | transmit (wr : SendWr) (rest : List SendWr) (posted : s.sendQueue = wr :: rest) :
      Step s .transmit
        { s with
          sendQueue := rest
          transmitted := s.transmitted ++ [wr]
          wire := s.wire ++ [(wr, s.buf wr.buf_idx)] }
  | complete (ok : Bool) (wr : SendWr) (rest : List SendWr) (sent : s.transmitted = wr :: rest) :
      Step s (.complete ok)
        { s with transmitted := rest, cq := if ok then s.cq ++ [wr.wr_id] else s.cq }
  | pollAck (cqe_time : UInt64) (rest : List UInt64) (idle : s.txCqe = .idle)
      (completed : s.cq = PINGWEAVE_WRID_PONG_ACK :: rest) :
      Step s (.pollTx cqe_time) { s with cq := rest }
  | pollPong (cqe_time wr_id : UInt64) (rest : List UInt64) (idle : s.txCqe = .idle)
      (completed : s.cq = wr_id :: rest) (isPong : wr_id ≠ PINGWEAVE_WRID_PONG_ACK) :
      Step s (.pollTx cqe_time)
        { s with
          cq := rest
          txCqe := .polled wr_id cqe_time
          log := s.log ++ [.pongCompleted wr_id cqe_time] }
  | found (wr_id cqe_time : UInt64) (ping_msg : RdmaPingmsg) (polled : s.txCqe = .polled wr_id cqe_time)
      (stored : s.table.get wr_id = some ping_msg) :
      Step s .lookup { s with txCqe := .found ping_msg wr_id cqe_time }
  | missing (wr_id cqe_time : UInt64) (polled : s.txCqe = .polled wr_id cqe_time)
      (gone : s.table.get wr_id = none) : Step s .lookup { s with txCqe := .answered wr_id }
  | copyAck (stack : Text) (created : Bool) (ping_msg : RdmaPingmsg) (wr_id cqe_time : UInt64)
      (ctx : AhContext) (ah : AddressHandle) (found : s.txCqe = .found ping_msg wr_id cqe_time)
      (handle : s.ah.getOrCreateAh inetNtop ping_msg.addr stack created = (ctx, some ah)) :
      Step s (.copyAck stack created)
        { s with
          ah := ctx
          buf := Function.update s.buf (bufIdx wr_id) (ackMsg ping_msg wr_id cqe_time)
          txCqe := .copied ⟨PINGWEAVE_WRID_PONG_ACK, bufIdx wr_id, ah, ping_msg.qpn,
            ackMsg ping_msg wr_id cqe_time⟩ wr_id }
  | copyAckFailed (stack : Text) (created : Bool) (ping_msg : RdmaPingmsg) (wr_id cqe_time : UInt64)
      (ctx : AhContext) (found : s.txCqe = .found ping_msg wr_id cqe_time)
      (handle : s.ah.getOrCreateAh inetNtop ping_msg.addr stack created = (ctx, none)) :
      Step s (.copyAck stack created) { s with ah := ctx, txCqe := .stopped }
  | postAck (wr : SendWr) (wr_id : UInt64) (copied : s.txCqe = .copied wr wr_id) :
      Step s (.postAck true)
        { s with
          sendQueue := s.sendQueue ++ [wr]
          txCqe := .answered wr_id
          log := s.log ++ [.ackPosted wr.msg.pingid wr.ah.attr wr.remote_qpn wr.msg.server_delay] }
  | postAckFailed (wr : SendWr) (wr_id : UInt64) (copied : s.txCqe = .copied wr wr_id) :
      Step s (.postAck false) { s with txCqe := .stopped }
  | remove (wr_id : UInt64) (answered : s.txCqe = .answered wr_id) :
      Step s .remove { s with table := (s.table.remove wr_id).1, txCqe := .idle }

variable {inetNtop} in
theorem step_cases (s : RdmaServer) (a : Action) :
    step inetNtop s a = s ∨ Step inetNtop s a (step inetNtop s a) := by
  cases a with
  | receive ping_msg cqe_time => exact Or.inr (.receive ping_msg cqe_time)
  | dequeue now steady_now =>
    cases h : s.tx with
    | idle =>
      cases hq : s.queue with
      | nil => simp only [step, h, hq, true_or]
      | cons ping_msg rest =>
        simp only [step, h, hq]
        exact Or.inr (.dequeue now steady_now ping_msg rest h hq)
    | _ => simp only [step, h, true_or]
  | copyPong stack created =>
    cases h : s.tx with
    | inserted ping_msg =>
      rcases hr : s.ah.getOrCreateAh inetNtop ping_msg.addr stack created with ⟨ctx, ah⟩
      cases ah with
      | none =>
        simp only [step, h, copyToBuf, hr]
        exact Or.inr (.copyPongFailed stack created ping_msg ctx h hr)
      | some ah =>
        simp only [step, h, copyToBuf, hr]
        exact Or.inr (.copyPong stack created ping_msg ctx ah h hr)
    | _ => simp only [step, h, true_or]
  | postPong ok =>
    cases h : s.tx with
    | copied wr =>
      cases ok with
      | true => simp only [step, h, if_true]; exact Or.inr (.postPong wr h)
      | false => simp only [step, h, Bool.false_eq_true, if_false]; exact Or.inr (.postPongFailed wr h)
    | _ => simp only [step, h, true_or]
  | transmit =>
    cases h : s.sendQueue with
    | nil => simp only [step, h, true_or]
    | cons wr rest => simp only [step, h]; exact Or.inr (.transmit wr rest h)
  | complete ok =>
    cases h : s.transmitted with
    | nil => simp only [step, h, true_or]
    | cons wr rest => simp only [step, h]; exact Or.inr (.complete ok wr rest h)
  | pollTx cqe_time =>
    cases h : s.txCqe with
    | idle =>
      cases hq : s.cq with
      | nil => simp only [step, h, hq, true_or]
      | cons wr_id rest =>
        simp only [step, h, hq]
        by_cases ha : wr_id = PINGWEAVE_WRID_PONG_ACK
        · rw [if_pos ha, ← h]
          exact Or.inr (.pollAck cqe_time rest h (ha ▸ hq))
        · rw [if_neg ha]
          exact Or.inr (.pollPong cqe_time wr_id rest h hq ha)
    | _ => simp only [step, h, true_or]
  | lookup =>
    cases h : s.txCqe with
    | polled wr_id cqe_time =>
      cases hg : s.table.get wr_id with
      | none => simp only [step, h, hg]; exact Or.inr (.missing wr_id cqe_time h hg)
      | some ping_msg => simp only [step, h, hg]; exact Or.inr (.found wr_id cqe_time ping_msg h hg)
    | _ => simp only [step, h, true_or]
  | copyAck stack created =>
    cases h : s.txCqe with
    | found ping_msg wr_id cqe_time =>
      rcases hr : s.ah.getOrCreateAh inetNtop ping_msg.addr stack created with ⟨ctx, ah⟩
      cases ah with
      | none =>
        simp only [step, h, copyToBuf, hr]
        exact Or.inr (.copyAckFailed stack created ping_msg wr_id cqe_time ctx h hr)
      | some ah =>
        simp only [step, h, copyToBuf, hr]
        exact Or.inr (.copyAck stack created ping_msg wr_id cqe_time ctx ah h hr)
    | _ => simp only [step, h, true_or]
  | postAck ok =>
    cases h : s.txCqe with
    | copied wr wr_id =>
      cases ok with
      | true => simp only [step, h, if_true]; exact Or.inr (.postAck wr wr_id h)
      | false =>
        simp only [step, h, Bool.false_eq_true, if_false]
        exact Or.inr (.postAckFailed wr wr_id h)
    | _ => simp only [step, h, true_or]
  | remove =>
    cases h : s.txCqe with
    | answered wr_id => simp only [step, h]; exact Or.inr (.remove wr_id h)
    | _ => simp only [step, h, true_or]

end Steps

end RdmaServer
end Pingweave
