import Pingweave.RdmaClient

/-!
# What a client's results can be traced to

The pingids that a client issues are numbered and each is inserted once; the delay in a SUCCESS
or WEIRD result comes from an ACK that the rx thread handled for the same pingid.
-/

namespace Pingweave
namespace RdmaClient
open RdmaPinginfoMap
set_option autoImplicit false

/-- The pingid of the `n`-th PING, counted from 0. -/
def pingidAt (cfg : RdmaClientConfig) (n : Nat) : UInt64 :=
  makePingid (ip2uint cfg.ipv4) (UInt32.ofNat n)

/-- The PINGs that the client has created and not yet handed to the network. -/
def pipeline (c : RdmaClient) : List RdmaPingmsg :=
  (match c.txSched with
    | .inserted msg => [msg]
    | _ => []) ++ c.sendQueue

structure Issued (cfg : RdmaClientConfig) (c : RdmaClient) : Prop where
  uid : c.ping_uid = UInt32.ofNat c.issued.length
  issued : c.issued = (List.range c.issued.length).map (pingidAt cfg)
  inserts : c.calls.filterMap Op.insertId = c.issued
  pipeline : ∀ msg ∈ c.pipeline, msg.gid = cfg.rx_addr.gid ∧ ∃ u,
    msg.pingid = makePingid (ip2uint cfg.ipv4) u

theorem issued_init (cfg : RdmaClientConfig) : Issued cfg init where
  uid := rfl
  issued := rfl
  inserts := rfl
  pipeline := by
    intro msg hmsg
    cases hmsg

theorem Issued.of_same {cfg : RdmaClientConfig} {c c' : RdmaClient} (h : Issued cfg c)
    (huid : c'.ping_uid = c.ping_uid) (hissued : c'.issued = c.issued)
    (hcalls : c'.calls.filterMap Op.insertId = c.calls.filterMap Op.insertId)
    (hpipe : ∀ msg ∈ c'.pipeline, msg ∈ c.pipeline) : Issued cfg c' where
  uid := by rw [huid, hissued, h.uid]
  issued := by rw [hissued]; exact h.issued
  inserts := by rw [hcalls, hissued, h.inserts]
  pipeline := fun msg hmsg => h.pipeline msg (hpipe msg hmsg)

theorem inserts_update (c : RdmaClient) (key : UInt64) (event : Event) :
    (c.call (.update key event)).calls.filterMap Op.insertId = c.calls.filterMap Op.insertId := by
  have hnone : [Op.update key event].filterMap Op.insertId = [] := rfl
  rw [call, List.filterMap_append, hnone, List.append_nil]

theorem Issued.step {cfg : RdmaClientConfig} {c : RdmaClient} (h : Issued cfg c) (a : Action) :
    Issued cfg (step cfg c a) := by
  refine step_induction h fun c' hstep => ?_
  cases hstep with
  | insert dst_ip now steady_now system_ns idle =>
    have hpid : (nextPing cfg c).pingid = pingidAt cfg c.issued.length := by
      rw [nextPing, pingidAt, h.uid]
    refine ⟨?_, ?_, ?_, ?_⟩
    · simp only [List.length_append, List.length_singleton]
      rw [UInt32.ofNat_add, ← h.uid]
      rfl
    · simp only [List.length_append, List.length_singleton]
      rw [List.range_succ, List.map_append, ← h.issued, List.map_singleton, hpid]
    · have hone : [Op.insert (nextPing cfg c) dst_ip now steady_now system_ns].filterMap Op.insertId =
          [(nextPing cfg c).pingid] := rfl
      rw [call, List.filterMap_append, h.inserts, hone]
    · intro msg hmsg
      rcases List.mem_append.mp hmsg with hnew | hold
      · rw [List.mem_singleton.mp hnew]
        exact ⟨rfl, c.ping_uid, rfl⟩
      · exact h.pipeline msg (List.mem_append_right _ hold)
  | sent msg inserted =>
    refine h.of_same rfl rfl rfl ?_
    intro m hm
    have hq : m ∈ c.sendQueue ++ [msg] := by
      rcases List.mem_append.mp hm with htx | hq
      · cases hw : cfg.rnic_hw_ts <;> simp [hw] at htx
      · exact hq
    rw [RdmaClient.pipeline, inserted]
    rcases List.mem_append.mp hq with hold | hnew
    · exact List.mem_append_right _ hold
    · exact List.mem_append_left _ hnew
  | sendFailed msg inserted =>
    exact h.of_same rfl rfl rfl fun m hm => List.mem_append_right _ hm
  | stamp now pingid posted =>
    exact h.of_same rfl rfl rfl fun m hm => List.mem_append_right _ hm
  | updatePingCqe pingid cqe_time stamped =>
    exact h.of_same rfl rfl (inserts_update c pingid _) fun m hm => List.mem_append_right _ hm
  | transmit ok msg rest queued =>
    refine h.of_same rfl rfl rfl ?_
    intro m hm
    rcases List.mem_append.mp hm with htx | hq
    · exact List.mem_append_left _ htx
    · refine List.mem_append_right _ ?_
      rw [queued]
      exact List.mem_cons_of_mem msg hq
  | pollHw cqe_time wr_id rest hw completed =>
    exact h.of_same rfl rfl (inserts_update c wr_id _) fun m hm => hm
  | pollSw cqe_time wr_id rest sw completed => exact h.of_same rfl rfl rfl fun m hm => hm
  | receive msg now completion_ts idle => exact h.of_same rfl rfl rfl fun m hm => hm
  | pong msg recv_time cqe_time received isPong =>
    exact h.of_same rfl rfl (inserts_update c msg.pingid _) fun m hm => hm
  | ack msg recv_time cqe_time received isAck =>
    exact h.of_same rfl rfl (inserts_update c msg.pingid _) fun m hm => hm
  | unknown msg recv_time cqe_time received => exact h.of_same rfl rfl rfl fun m hm => hm

/-- Fewer than `2^32` PINGs have distinct pingids. -/
theorem Issued.nodup {cfg : RdmaClientConfig} {c : RdmaClient} (h : Issued cfg c)
    (hlen : c.issued.length < 2 ^ 32) : c.issued.Nodup := by
  rw [h.issued]
  refine List.Nodup.map_on ?_ List.nodup_range
  intro m hm n hn heq
  rw [List.mem_range] at hm hn
  have huid := (makePingid_inj heq).2
  have hnat := congrArg UInt32.toNat huid
  rwa [UInt32.toNat_ofNat_of_lt' (Nat.lt_trans hm hlen),
    UInt32.toNat_ofNat_of_lt' (Nat.lt_trans hn hlen)] at hnat

/-- Every ACK that the client has handled or is handling carries a delay that `E` vouches for. -/
structure Acked (E : UInt64 → UInt64 → Prop) (c : RdmaClient) : Prop where
  calls : ∀ p d, .update p (.ack d) ∈ c.calls → E p d
  rx : ∀ msg recv_time cqe_time, c.rx = .received msg recv_time cqe_time →
    msg.opcode = PINGWEAVE_OPCODE_ACK → E msg.pingid msg.server_delay

theorem acked_init (E : UInt64 → UInt64 → Prop) : Acked E init where
  calls := by
    intro p d h
    cases h
  rx := by
    intro msg r q h
    cases h

theorem Acked.mono {E E' : UInt64 → UInt64 → Prop} {c : RdmaClient} (h : Acked E c)
    (hE : ∀ p d, E p d → E' p d) : Acked E' c where
  calls := fun p d hmem => hE p d (h.calls p d hmem)
  rx := fun msg r q hrx hack => hE _ _ (h.rx msg r q hrx hack)

theorem Acked.call {E : UInt64 → UInt64 → Prop} {c : RdmaClient} (h : Acked E c) {op : Op}
    (hop : ∀ p d, op = .update p (.ack d) → E p d) :
    ∀ p d, .update p (.ack d) ∈ (c.call op).calls → E p d := by
  intro p d hmem
  rcases List.mem_append.mp hmem with hold | hnew
  · exact h.calls p d hold
  · exact hop p d (List.mem_singleton.mp hnew).symm

theorem Acked.step {E : UInt64 → UInt64 → Prop} {cfg : RdmaClientConfig} {c : RdmaClient}
    (h : Acked E c) {a : Action}
    (hmsg : ∀ msg now ts, a = .receive msg now ts → msg.opcode = PINGWEAVE_OPCODE_ACK →
      E msg.pingid msg.server_delay) : Acked E (step cfg c a) := by
  refine step_induction h fun c' hstep => ?_
  cases hstep with
  | insert dst_ip now steady_now system_ns idle =>
    exact ⟨h.call fun p d hop => Op.noConfusion hop, h.rx⟩
  | updatePingCqe pingid cqe_time stamped =>
    exact ⟨h.call fun p d hop => (by cases hop), h.rx⟩
  | pollHw cqe_time wr_id rest hw completed =>
    exact ⟨h.call fun p d hop => (by cases hop), h.rx⟩
  | receive msg now completion_ts idle =>
    refine ⟨h.calls, ?_⟩
    intro m r q hrx hack
    cases hrx
    exact hmsg msg now completion_ts rfl hack
  | pong msg recv_time cqe_time received isPong =>
    refine ⟨h.call fun p d hop => (by cases hop), ?_⟩
    intro m r q hrx
    cases hrx
  | ack msg recv_time cqe_time received isAck =>
    refine ⟨h.call fun p d hop => ?_, ?_⟩
    · cases hop
      exact h.rx msg recv_time cqe_time received isAck
    · intro m r q hrx
      cases hrx
  | unknown msg recv_time cqe_time received =>
    refine ⟨h.calls, ?_⟩
    intro m r q hrx
    cases hrx
  | _ => exact ⟨h.calls, h.rx⟩

end RdmaClient
end Pingweave
