import Pingweave.RdmaClientTrace
import Pingweave.RdmaServerTrace

/-!
# The RDMA ping protocol

Any clients and any servers over a network that may drop, delay and reorder messages, but
neither duplicates nor alters them, with NICs that transmit what was posted. A message in
flight may be handed to any server or client, so nothing below rests on routing.
-/

namespace Pingweave
set_option autoImplicit false

/-- Clients with distinct non-zero addresses. -/
structure Deployment (ι : Type) where
  client : ι → RdmaClientConfig
  distinct : Function.Injective fun i => ip2uint (client i).ipv4
  nonzero : ∀ i, ip2uint (client i).ipv4 ≠ 0

/-- The parties and the messages in flight; `delivered` records which server got which PING. -/
structure RdmaSystem (ι κ : Type) where
  clients : ι → RdmaClient
  servers : κ → RdmaServer
  pings : List RdmaPingmsg
  replies : List RdmaPongmsg
  delivered : List (κ × RdmaPingmsg)

namespace RdmaSystem

/-- `client` and `server` are the steps of a party other than receiving; the other actions are
the network's, which picks a message in flight by its position. -/
inductive Action (ι κ : Type) where
  | client (i : ι) (a : RdmaClient.Action)
  | server (k : κ) (a : RdmaServer.Action)
  | deliverPing (k : κ) (n : Nat) (cqe_time : UInt64)
  | losePing (n : Nat)
  | deliverReply (i : ι) (n : Nat) (now : TimePoint) (completion_ts : UInt64)
  | loseReply (n : Nat)

section Steps
variable {ι κ : Type} [DecidableEq ι] [DecidableEq κ]

def init : RdmaSystem ι κ where
  clients := fun _ => RdmaClient.init
  servers := fun _ => RdmaServer.init
  pings := []
  replies := []
  delivered := []

/-- The PINGs that a step of a client puts on the wire. -/
def clientSends (c : RdmaClient) : RdmaClient.Action → List RdmaPingmsg
  | .transmit true => c.sendQueue.head?.toList
  | _ => []

/-- The PONGs and ACKs that a step of a server puts on the wire. -/
def serverSends (s : RdmaServer) : RdmaServer.Action → List RdmaPongmsg
  | .transmit => (s.sendQueue.head?.map SendWr.msg).toList
  | _ => []

def step (inetNtop : IbvGid → Text) (D : Deployment ι) (s : RdmaSystem ι κ) :
    Action ι κ → RdmaSystem ι κ
  | .client _ (.receive _ _ _) => s
  | .client i a =>
    { s with
      clients := Function.update s.clients i (RdmaClient.step (D.client i) (s.clients i) a)
      pings := s.pings ++ clientSends (s.clients i) a }
  | .server _ (.receive _ _) => s
  | .server k a =>
    { s with
      servers := Function.update s.servers k (RdmaServer.step inetNtop (s.servers k) a)
      replies := s.replies ++ serverSends (s.servers k) a }
  | .deliverPing k n cqe_time =>
    match s.pings[n]? with
    | some msg =>
      { s with
        servers := Function.update s.servers k
          (RdmaServer.step inetNtop (s.servers k) (.receive msg cqe_time))
        pings := s.pings.eraseIdx n
        delivered := s.delivered ++ [(k, { msg with time := cqe_time })] }
    | none => s
  | .losePing n => { s with pings := s.pings.eraseIdx n }
  | .deliverReply i n now completion_ts =>
    match s.replies[n]?, (s.clients i).rx with
    | some msg, .idle =>
      { s with
        clients := Function.update s.clients i
          (RdmaClient.step (D.client i) (s.clients i) (.receive msg now completion_ts))
        replies := s.replies.eraseIdx n }
    | _, _ => s
  | .loseReply n => { s with replies := s.replies.eraseIdx n }

def run (inetNtop : IbvGid → Text) (D : Deployment ι) (as : List (Action ι κ)) : RdmaSystem ι κ :=
  Runs.run (step inetNtop D) init as

end Steps

section Agreement
variable {ι κ : Type}

end Agreement

section Invariant
variable {ι κ : Type}

/-- The delay `d` has been posted in an ACK for `p`. -/
def Vouched (s : RdmaSystem ι κ) (p d : UInt64) : Prop :=
  ∃ k dst qpn, .ackPosted p dst qpn d ∈ (s.servers k).log

/-- `p` is a pingid of client `i`. -/
def Owned (D : Deployment ι) (i : ι) (p : UInt64) : Prop :=
  ∃ u, p = makePingid (ip2uint (D.client i).ipv4) u

/-- How often client `i`'s pingid `p` is on its way to a server or has been delivered. -/
def inFlight (s : RdmaSystem ι κ) (i : ι) (p : UInt64) : Nat :=
  ((s.clients i).pipeline.map RdmaPingmsg.pingid).count p +
    (s.pings.map RdmaPingmsg.pingid).count p + (s.delivered.map fun d => d.2.pingid).count p

variable {inetNtop : IbvGid → Text} {D : Deployment ι} {s : RdmaSystem ι κ}

theorem Vouched.mono {s' : RdmaSystem ι κ} (hlog : ∀ k, (s.servers k).log ⊆ (s'.servers k).log)
    {p d : UInt64} (h : s.Vouched p d) : s'.Vouched p d := by
  obtain ⟨k, dst, qpn, hmem⟩ := h
  exact ⟨k, dst, qpn, hlog k hmem⟩

theorem mem_clientSends {c : RdmaClient} {a : RdmaClient.Action} {m : RdmaPingmsg}
    (h : m ∈ clientSends c a) : m ∈ c.pipeline := by
  unfold clientSends at h
  split at h
  · cases hq : c.sendQueue with
    | nil =>
      rw [hq] at h
      cases h
    | cons msg rest =>
      rw [hq] at h
      rw [RdmaClient.pipeline, hq, List.mem_singleton.mp h]
      exact List.mem_append_right _ List.mem_cons_self
  · cases h

theorem mem_serverSends {t : RdmaServer} {a : RdmaServer.Action} {m : RdmaPongmsg}
    (h : m ∈ serverSends t a) : ∃ wr ∈ t.sendQueue, m = wr.msg := by
  unfold serverSends at h
  split at h
  · cases hq : t.sendQueue with
    | nil =>
      rw [hq] at h
      cases h
    | cons wr rest =>
      rw [hq] at h
      exact ⟨wr, List.mem_cons_self, List.mem_singleton.mp h⟩
  · cases h

/-- A PING leaves the pipeline when it is put on the wire, and enters it when it is issued. -/
theorem pipeline_step (cfg : RdmaClientConfig) (c : RdmaClient) (a : RdmaClient.Action) (p : UInt64) :
    ((RdmaClient.step cfg c a).pipeline.map RdmaPingmsg.pingid).count p +
        ((clientSends c a).map RdmaPingmsg.pingid).count p + c.issued.count p ≤
      (c.pipeline.map RdmaPingmsg.pingid).count p + (RdmaClient.step cfg c a).issued.count p := by
  by_cases ht : a = .transmit true
  · subst ht
    cases hq : c.sendQueue with
    | nil => simp [RdmaClient.step, clientSends, hq]
    | cons msg rest =>
      simp only [RdmaClient.step, clientSends, hq, RdmaClient.pipeline, List.map_append,
        List.map_cons, List.count_append, List.count_cons, List.head?_cons, Option.toList_some,
        List.map_nil, List.count_nil]
      omega
  · have hnone : clientSends c a = [] := by
      unfold clientSends
      split
      · exact absurd rfl ht
      · rfl
    rw [hnone, List.map_nil, List.count_nil, Nat.add_zero]
    rcases RdmaClient.step_cases cfg c a with heq | hstep
    · rw [heq]
    generalize RdmaClient.step cfg c a = c' at hstep
    cases hstep with
    | insert dst_ip now steady_now system_ns idle =>
      simp only [RdmaClient.pipeline, idle, RdmaClient.call, List.map_append, List.map_cons,
        List.map_nil, List.nil_append, List.count_append]
      omega
    | sent msg inserted =>
      cases hw : cfg.rnic_hw_ts <;>
        simp only [RdmaClient.pipeline, inserted, if_true, Bool.false_eq_true, if_false,
          List.map_append, List.map_cons, List.map_nil, List.nil_append, List.count_append] <;>
        omega
    | sendFailed msg inserted =>
      simp only [RdmaClient.pipeline, List.map_append, List.count_append, List.map_nil, List.count_nil]
      omega
    | stamp now pingid posted =>
      simp only [RdmaClient.pipeline, List.map_append, List.count_append, List.map_nil, List.count_nil]
      omega
    | updatePingCqe pingid cqe_time stamped =>
      simp only [RdmaClient.pipeline, RdmaClient.call, List.map_append, List.count_append,
        List.map_nil, List.count_nil]
      omega
    | transmit ok msg rest queued =>
      simp only [RdmaClient.pipeline, queued, List.map_append, List.count_append, List.map_cons,
        List.count_cons]
      omega
    | _ => exact Nat.le_refl _

variable [DecidableEq κ]

theorem log_update {t : RdmaServer} (k : κ) (hlog : (s.servers k).log ⊆ t.log) :
    ∀ j, (s.servers j).log ⊆ (Function.update s.servers k t j).log := by
  rw [Function.forall_update_iff _ fun j t => (s.servers j).log ⊆ RdmaServer.log t]
  exact ⟨hlog, fun j _ => List.Subset.refl _⟩

structure Inv (inetNtop : IbvGid → Text) (D : Deployment ι) (s : RdmaSystem ι κ) : Prop where
  booked : ∀ i, (s.clients i).Booked
  issued : ∀ i, (s.clients i).Issued (D.client i)
  acked : ∀ i, (s.clients i).Acked s.Vouched
  counted : ∀ k, (s.servers k).Counted
  traced : ∀ k, (s.servers k).Traced inetNtop (s.servers k).received (s.servers k).log
  replies : ∀ m ∈ s.replies, m.opcode = PINGWEAVE_OPCODE_ACK → s.Vouched m.pingid m.server_delay
  arrived : ∀ k, (s.servers k).received = (s.delivered.filter fun d => d.1 = k).map Prod.snd
  flow : ∀ i p, Owned D i p → s.inFlight i p ≤ (s.clients i).issued.count p
  pings : ∀ m ∈ s.pings, AhContext.Fits inetNtop m.gid ∧ ∃ i, Owned D i m.pingid
  owners : ∀ d ∈ s.delivered, ∃ i, Owned D i d.2.pingid

theorem inv_init : Inv inetNtop D (init : RdmaSystem ι κ) where
  booked := fun _ => RdmaClient.booked_init
  issued := fun i => RdmaClient.issued_init (D.client i)
  acked := fun _ => RdmaClient.acked_init _
  counted := fun _ => RdmaServer.counted_init
  traced := fun _ => RdmaServer.traced_init inetNtop
  replies := by
    intro m hm
    cases hm
  arrived := fun _ => rfl
  flow := fun _ _ _ => Nat.zero_le _
  pings := by
    intro m hm
    cases hm
  owners := by
    intro d hd
    cases hd

namespace Inv

theorem drop (h : Inv inetNtop D s) {pings : List RdmaPingmsg} {replies : List RdmaPongmsg}
    (hpings : pings.Sublist s.pings) (hreplies : replies ⊆ s.replies) :
    Inv inetNtop D { s with pings := pings, replies := replies } := by
  refine ⟨h.booked, h.issued, h.acked, h.counted, h.traced, fun m hm => h.replies m (hreplies hm),
    h.arrived, ?_, fun m hm => h.pings m (hpings.subset hm), h.owners⟩
  intro i p hp
  have hf := h.flow i p hp
  have hle := (hpings.map RdmaPingmsg.pingid).count_le p
  simp only [inFlight] at hf ⊢
  omega

theorem server (h : Inv inetNtop D s) (hinj : Function.Injective inetNtop) (k : κ)
    (a : RdmaServer.Action) (ha : ∀ msg t, a ≠ .receive msg t) :
    Inv inetNtop D { s with
      servers := Function.update s.servers k (RdmaServer.step inetNtop (s.servers k) a)
      replies := s.replies ++ serverSends (s.servers k) a } := by
  obtain ⟨hlog, hreceived⟩ := RdmaServer.step_frame inetNtop (s.servers k) a
  have hgrow := log_update (s := s) k hlog
  refine ⟨h.booked, h.issued, fun i => (h.acked i).mono fun p d hv => hv.mono hgrow, ?_, ?_, ?_, ?_,
    h.flow, h.pings, h.owners⟩
  · rw [Function.forall_update_iff _ fun _ t => RdmaServer.Counted t]
    exact ⟨(h.counted k).step a, fun j _ => h.counted j⟩
  · rw [Function.forall_update_iff _ fun _ t => RdmaServer.Traced inetNtop t.received t.log t]
    refine ⟨(h.traced k).step hinj ?_, fun j _ => h.traced j⟩
    cases a with
    | receive msg t => exact absurd rfl (ha msg t)
    | _ => trivial
  · intro m hm hack
    rcases List.mem_append.mp hm with hold | hnew
    · exact (h.replies m hold hack).mono hgrow
    · obtain ⟨wr, hwr, rfl⟩ := mem_serverSends hnew
      have hposted : s.Vouched wr.msg.pingid wr.msg.server_delay :=
        ⟨k, wr.ah.attr, wr.remote_qpn, (h.traced k).sends wr hwr hack⟩
      exact hposted.mono hgrow
  · rw [Function.forall_update_iff _ fun j t =>
      RdmaServer.received t = (s.delivered.filter fun d => d.1 = j).map Prod.snd]
    exact ⟨(hreceived ha).trans (h.arrived k), fun j _ => h.arrived j⟩

theorem deliverPing (h : Inv inetNtop D s) (hinj : Function.Injective inetNtop) (k : κ) (n : Nat)
    (msg : RdmaPingmsg) (hmsg : s.pings[n]? = some msg) (cqe_time : UInt64) :
    Inv inetNtop D { s with
      servers := Function.update s.servers k
        (RdmaServer.step inetNtop (s.servers k) (.receive msg cqe_time))
      pings := s.pings.eraseIdx n
      delivered := s.delivered ++ [(k, { msg with time := cqe_time })] } := by
  have hgrow := log_update (s := s) k
    (t := RdmaServer.step inetNtop (s.servers k) (.receive msg cqe_time)) (List.Subset.refl _)
  obtain ⟨hfits, howned⟩ := h.pings msg (List.mem_of_getElem? hmsg)
  refine ⟨h.booked, h.issued, fun i => (h.acked i).mono fun p d hv => hv.mono hgrow, ?_, ?_,
    fun m hm hack => (h.replies m hm hack).mono hgrow, ?_, ?_,
    fun m hm => h.pings m (List.mem_of_mem_eraseIdx hm), ?_⟩
  · rw [Function.forall_update_iff _ fun _ t => RdmaServer.Counted t]
    exact ⟨(h.counted k).step _, fun j _ => h.counted j⟩
  · rw [Function.forall_update_iff _ fun _ t => RdmaServer.Traced inetNtop t.received t.log t]
    exact ⟨(h.traced k).step hinj hfits, fun j _ => h.traced j⟩
  · simp only [List.filter_append, List.map_append]
    rw [Function.forall_update_iff _ fun j (t : RdmaServer) => t.received =
      (s.delivered.filter fun d => d.1 = j).map Prod.snd ++
        ([(k, ({ msg with time := cqe_time } : RdmaPingmsg))].filter fun d => d.1 = j).map Prod.snd]
    refine ⟨?_, fun j hj => ?_⟩
    · rw [List.filter_cons_of_pos (by simp), ← h.arrived k]
      rfl
    · rw [List.filter_cons_of_neg (by simpa using Ne.symm hj), h.arrived j]
      exact (List.append_nil _).symm
  · intro i p hp
    have hf := h.flow i p hp
    obtain ⟨hn, rfl⟩ := List.getElem?_eq_some_iff.mp hmsg
    have hcount := ((List.getElem_cons_eraseIdx_perm hn).map RdmaPingmsg.pingid).count_eq p
    simp only [inFlight, List.map_append, List.map_cons, List.map_nil, List.count_append,
      List.count_cons, List.count_nil] at hf hcount ⊢
    omega
  · intro d hd
    rcases List.mem_append.mp hd with hold | hnew
    · exact h.owners d hold
    · rw [List.mem_singleton.mp hnew]
      exact howned

section Consequences
variable (h : Inv inetNtop D s) (hsent : ∀ i, (s.clients i).issued.length < 2 ^ 32)
include h hsent

end Consequences

variable [DecidableEq ι]

theorem client (h : Inv inetNtop D s) (hfits : ∀ i, AhContext.Fits inetNtop (D.client i).rx_addr.gid)
    (i : ι) (a : RdmaClient.Action)
    (hmsg : ∀ msg now ts, a = .receive msg now ts → msg.opcode = PINGWEAVE_OPCODE_ACK →
      s.Vouched msg.pingid msg.server_delay) :
    Inv inetNtop D { s with
      clients := Function.update s.clients i (RdmaClient.step (D.client i) (s.clients i) a)
      pings := s.pings ++ clientSends (s.clients i) a } := by
  have hsends : ∀ m ∈ clientSends (s.clients i) a, m.gid = (D.client i).rx_addr.gid ∧
      Owned D i m.pingid := fun m hm => (h.issued i).pipeline m (mem_clientSends hm)
  refine ⟨?_, ?_, ?_, h.counted, h.traced, h.replies, h.arrived, ?_, ?_, h.owners⟩
  · rw [Function.forall_update_iff _ fun _ c => RdmaClient.Booked c]
    exact ⟨(h.booked i).step a, fun j _ => h.booked j⟩
  · rw [Function.forall_update_iff _ fun j c => RdmaClient.Issued (D.client j) c]
    exact ⟨(h.issued i).step a, fun j _ => h.issued j⟩
  · exact (Function.forall_update_iff _ fun _ c => RdmaClient.Acked s.Vouched c).mpr
      ⟨(h.acked i).step hmsg, fun j _ => h.acked j⟩
  · intro j p hp
    have hf := h.flow j p hp
    simp only [inFlight, List.map_append, List.count_append] at hf ⊢
    by_cases hj : j = i
    · subst hj
      have hstep := pipeline_step (D.client j) (s.clients j) a p
      rw [Function.update_self]
      omega
    · have hnone : ((clientSends (s.clients i) a).map RdmaPingmsg.pingid).count p = 0 := by
        -- the PINGs of another client carry another address
        rw [List.count_eq_zero]
        intro hmap
        obtain ⟨m, hmem, rfl⟩ := List.mem_map.mp hmap
        obtain ⟨u, hu⟩ := hp
        obtain ⟨v, hv⟩ := (hsends m hmem).2
        exact hj (D.distinct (makePingid_inj (hu.symm.trans hv)).1)
      rw [Function.update_of_ne hj, hnone]
      omega
  · intro m hm
    rcases List.mem_append.mp hm with hold | hnew
    · exact h.pings m hold
    · obtain ⟨hgid, howned⟩ := hsends m hnew
      exact ⟨hgid ▸ hfits i, i, howned⟩

theorem step (h : Inv inetNtop D s) (hinj : Function.Injective inetNtop)
    (hfits : ∀ i, AhContext.Fits inetNtop (D.client i).rx_addr.gid) (a : Action ι κ) :
    Inv inetNtop D (step inetNtop D s a) := by
  cases a with
  | client i a =>
    cases a with
    | receive msg now ts => exact h
    | _ => exact h.client hfits i _ fun msg now ts hr => by cases hr
  | server k a =>
    cases a with
    | receive msg t => exact h
    | _ => exact h.server hinj k _ fun msg t hr => by cases hr
  | deliverPing k n cqe_time =>
    cases hm : s.pings[n]? with
    | none => simpa only [RdmaSystem.step, hm] using h
    | some msg =>
      simp only [RdmaSystem.step, hm]
      exact h.deliverPing hinj k n msg hm cqe_time
  | losePing n => exact h.drop (List.eraseIdx_sublist _ n) (List.Subset.refl _)
  | deliverReply i n now completion_ts =>
    cases hm : s.replies[n]? with
    | none => simpa only [RdmaSystem.step, hm] using h
    | some msg =>
      cases hrx : (s.clients i).rx with
      | received _ _ _ => simpa only [RdmaSystem.step, hm, hrx] using h
      | idle =>
        simp only [RdmaSystem.step, hm, hrx]
        have hc := h.client hfits i (.receive msg now completion_ts) fun m _ _ hr hack => by
          cases hr
          exact h.replies msg (List.mem_of_getElem? hm) hack
        exact hc.drop (List.sublist_append_left _ _) (List.eraseIdx_subset)
  | loseReply n => exact h.drop (List.Sublist.refl _) List.eraseIdx_subset

theorem run (hinj : Function.Injective inetNtop)
    (hfits : ∀ i, AhContext.Fits inetNtop (D.client i).rx_addr.gid) (as : List (Action ι κ)) :
    Inv inetNtop D (run inetNtop D as) :=
  Runs.run_invariant (fun _ a hs => hs.step hinj hfits a) inv_init as

end Inv

end Invariant

section Protocol
variable {ι κ : Type} [DecidableEq ι] [DecidableEq κ]

end Protocol

end RdmaSystem
end Pingweave
