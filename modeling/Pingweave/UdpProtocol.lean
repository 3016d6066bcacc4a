import Mathlib.Logic.Function.Basic
import Pingweave.TcpUdpClient
import Pingweave.UdpMessage

/-!
# The UDP ping protocol

Clients of `udp_client.cpp` and servers of `udp_server.cpp` over a network that may lose, delay,
reorder and duplicate datagrams, but neither forges nor alters them. A host may run both, with one
address; the ports keep them apart. A client process may be restarted, which empties its table and
sets its `ping_uid` back to zero.
-/

namespace Pingweave
set_option autoImplicit false

/-- What a client process holds. `tx` is the PING between the insert and the send of the tx
thread. -/
structure UdpClient where
  client : TcpUdpClient
  ping_uid : UInt32
  tx : Option (Text × UInt64)

def UdpClient.start (start : TimePoint) : UdpClient where
  client := TcpUdpClient.init PINGWEAVE_TABLE_EXPIRY_TIME_UDP_MS start
  ping_uid := 0
  tx := none

/-- The hosts. `make_ctx` refuses a malformed address, and two sockets cannot share one. -/
structure UdpDeployment (ι κ : Type) where
  ipv4 : ι → Text
  server : κ → Text
  report_interval_ms : ι → Int
  bound : ∀ i, (inetPton (ipv4 i)).isSome
  served : ∀ k, (inetPton (server k)).isSome
  distinct : Function.Injective fun i => ip2uint (ipv4 i)

/-- A turn of a tx thread: the PING to `dst_addr` that the scheduler called for. -/
structure UdpPing (ι : Type) where
  client : ι
  pingid : UInt64
  dst_addr : Text
  deriving DecidableEq, Repr

/-- A PING that a server has received and answered. -/
structure UdpEcho (κ : Type) where
  server : κ
  sender : UInt32
  pingid : UInt64
  deriving DecidableEq, Repr

/-- The clients and the datagrams that have been sent; the network may deliver any of them, any
number of times. -/
structure UdpSystem (ι κ : Type) where
  clients : ι → UdpClient
  network : List Datagram
  attempted : List (UdpPing ι)
  echoed : List (UdpEcho κ)

namespace UdpSystem

/-- `hole` and `tail` are the stack bytes that a message takes along, and `sent` whether `sendto`
sends it. -/
inductive Action (ι κ : Type) where
  | ping (i : ι) (dst_addr : Text) (now steady_now : TimePoint) (system_ns : UInt64)
  | send (i : ι) (sent : Bool) (hole tail : UInt32)
  | pong (i : ι) (n : Nat) (recv_time : UInt64)
  | result (i : ι) (dequeues : Bool) (now : TimePoint)
  | restart (i : ι) (start : TimePoint)
  | serve (k : κ) (n : Nat) (sent : Bool) (hole tail : UInt32)

section Steps
variable {ι κ : Type} [DecidableEq ι]

def init (start : ι → TimePoint) : UdpSystem ι κ where
  clients := fun i => UdpClient.start (start i)
  network := []
  attempted := []
  echoed := []

def step (D : UdpDeployment ι κ) (s : UdpSystem ι κ) : Action ι κ → UdpSystem ι κ
  | .ping i dst_addr now steady_now system_ns =>
    let c := s.clients i
    match c.tx with
    | none =>
      let pingid := makePingid (ip2uint (D.ipv4 i)) c.ping_uid
      { s with
        clients := Function.update s.clients i
          { client := c.client.insert pingid dst_addr now steady_now system_ns
            ping_uid := c.ping_uid + 1
            tx := some (dst_addr, pingid) }
        attempted := s.attempted ++ [⟨i, pingid, dst_addr⟩] }
    | some _ => s
  | .send i sent hole tail =>
    match (s.clients i).tx with
    | none => s
    | some (dst_addr, pingid) =>
      let message := sendUdpMessage (ip2uint (D.ipv4 i)) dst_addr PINGWEAVE_UDP_PORT_SERVER pingid hole tail
      { s with
        clients := Function.update s.clients i { s.clients i with tx := none }
        network := s.network ++ if sent then message.toList else [] }
  | .pong i n recv_time =>
    match s.network[n]? with
    | none => s
    | some d =>
      if d.dst = ip2uint (D.ipv4 i) ∧ d.dst_port = PINGWEAVE_UDP_PORT_CLIENT then
        match receiveUdpMessage d.payload with
        | none => s
        | some pingid =>
          { s with
            clients := Function.update s.clients i
              { s.clients i with client := (s.clients i).client.pong pingid recv_time } }
      else s
  | .result i dequeues now =>
    { s with
      clients := Function.update s.clients i
        { s.clients i with
          client := TcpUdpClient.step (D.report_interval_ms i) (s.clients i).client (.result dequeues now) } }
  | .restart i start => { s with clients := Function.update s.clients i (UdpClient.start start) }
  | .serve k n sent hole tail =>
    match s.network[n]? with
    | none => s
    | some d =>
      if d.dst = ip2uint (D.server k) ∧ d.dst_port = PINGWEAVE_UDP_PORT_SERVER then
        match receiveUdpMessage d.payload with
        | none => s
        | some pingid =>
          let message := sendUdpMessage (ip2uint (D.server k)) (uint2ip d.src) PINGWEAVE_UDP_PORT_CLIENT
            pingid hole tail
          { s with
            network := s.network ++ if sent then message.toList else []
            echoed := s.echoed ++ [⟨k, d.src, pingid⟩] }
      else s

abbrev run (D : UdpDeployment ι κ) (s : UdpSystem ι κ) (as : List (Action ι κ)) : UdpSystem ι κ :=
  Runs.run (step D) s as

end Steps

section Invariant
variable {ι κ : Type} (D : UdpDeployment ι κ)

/-- Where a datagram comes from: a PING from a turn of a tx thread, a PONG from an echo. -/
inductive Stems (s : UdpSystem ι κ) (d : Datagram) : Prop where
  | ping (p : UdpPing ι) (attempted : p ∈ s.attempted) (port : d.dst_port = PINGWEAVE_UDP_PORT_SERVER)
      (src : d.src = ip2uint (D.ipv4 p.client)) (dst : inetPton p.dst_addr = some d.dst)
      (payload : ∀ pingid, receiveUdpMessage d.payload = some pingid → pingid = p.pingid)
  | pong (e : UdpEcho κ) (echoed : e ∈ s.echoed) (port : d.dst_port = PINGWEAVE_UDP_PORT_CLIENT)
      (dst : d.dst = e.sender)
      (payload : ∀ pingid, receiveUdpMessage d.payload = some pingid → pingid = e.pingid)

/-- The echo answers a PING that the client had sent to the server's address. -/
structure Answers (s : UdpSystem ι κ) (i : ι) (pingid : UInt64) (e : UdpEcho κ) (p : UdpPing ι) : Prop where
  echoed : e ∈ s.echoed
  sender : e.sender = ip2uint (D.ipv4 i)
  attempted : p ∈ s.attempted
  client : p.client = i
  ids : e.pingid = pingid ∧ p.pingid = pingid
  address : inetPton p.dst_addr = some (ip2uint (D.server e.server))

/-- A message stands for a PING of the client to the message's destination, and some PING with its
pingid has been answered. -/
def Accounts (s : UdpSystem ι κ) (i : ι) (m : TcpUdpResultMsg) : Prop :=
  (∃ e p, Answers D s i m.pingid e p) ∧
    ∃ p ∈ s.attempted, p.client = i ∧ p.pingid = m.pingid ∧ ip2uint p.dst_addr = m.dstip

structure Inv (s : UdpSystem ι κ) : Prop where
  network : ∀ d ∈ s.network, Stems D s d
  tx : ∀ i dst_addr pingid, (s.clients i).tx = some (dst_addr, pingid) →
    ⟨i, pingid, dst_addr⟩ ∈ s.attempted
  table : ∀ i key v, (s.clients i).client.table.get key = some v →
    v.pingid = key ∧ ⟨i, key, v.dstip⟩ ∈ s.attempted
  echoed : ∀ e ∈ s.echoed, ∃ i p, Answers D s i e.pingid e p
  successes : ∀ i, ∀ m ∈ (s.clients i).client.counted ++ (s.clients i).client.queue, m.result = .success →
    Accounts D s i m

/-- What has happened stays. -/
structure Grows (s s' : UdpSystem ι κ) : Prop where
  attempted : s.attempted ⊆ s'.attempted
  echoed : s.echoed ⊆ s'.echoed

variable {D} {s s' : UdpSystem ι κ}

theorem Stems.mono (hg : Grows s s') {d : Datagram} (h : Stems D s d) : Stems D s' d := by
  cases h with
  | ping p attempted port src dst payload => exact .ping p (hg.attempted attempted) port src dst payload
  | pong e echoed port dst payload => exact .pong e (hg.echoed echoed) port dst payload

theorem Answers.mono (hg : Grows s s') {i : ι} {pingid : UInt64} {e : UdpEcho κ} {p : UdpPing ι}
    (h : Answers D s i pingid e p) : Answers D s' i pingid e p :=
  ⟨hg.echoed h.echoed, h.sender, hg.attempted h.attempted, h.client, h.ids, h.address⟩

theorem Accounts.mono (hg : Grows s s') {i : ι} {m : TcpUdpResultMsg} (h : Accounts D s i m) :
    Accounts D s' i m := by
  obtain ⟨⟨e, p, hans⟩, q, hq, hqs⟩ := h
  exact ⟨⟨e, p, hans.mono hg⟩, q, hg.attempted hq, hqs⟩

theorem inv_init (start : ι → TimePoint) : Inv D (init start) where
  network := fun _ hd => absurd hd List.not_mem_nil
  tx := fun _ _ _ htx => nomatch htx
  table := by
    intro i key v hv
    cases (TcpUdpPinginfoMap.get_init _ key).symm.trans hv
  echoed := fun _ he => absurd he List.not_mem_nil
  successes := fun _ _ hm => absurd hm List.not_mem_nil

/-- A PONG for a client's pingid is an answer to it. -/
theorem Inv.answers (h : Inv D s) {i : ι} {d : Datagram} (hd : d ∈ s.network) (hdst : d.dst = ip2uint (D.ipv4 i))
    (hport : d.dst_port = PINGWEAVE_UDP_PORT_CLIENT) {pingid : UInt64}
    (hread : receiveUdpMessage d.payload = some pingid) : ∃ e p, Answers D s i pingid e p := by
  cases h.network d hd with
  | ping p attempted port src dst payload =>
    rw [hport] at port
    exact absurd port (by decide)
  | pong e echoed port dst payload =>
    obtain ⟨j, p, hans⟩ := h.echoed e echoed
    have hid := payload pingid hread
    have hij : j = i := by
      apply D.distinct
      dsimp only
      rw [← hans.sender, ← dst, hdst]
    rw [← hid, hij] at hans
    exact ⟨e, p, hans⟩

variable [DecidableEq ι]

/-- A step of a client whose table and messages come from what the client had and has sent. -/
theorem Inv.client (h : Inv D s) (i : ι) {c : UdpClient} (hclients : s'.clients = Function.update s.clients i c)
    (hatt : s.attempted ⊆ s'.attempted) (hecho : s'.echoed = s.echoed)
    (hnet : ∀ d ∈ s'.network, d ∈ s.network ∨ Stems D s' d)
    (htx : ∀ dst_addr pingid, c.tx = some (dst_addr, pingid) → ⟨i, pingid, dst_addr⟩ ∈ s'.attempted)
    (htable : ∀ key v, c.client.table.get key = some v →
      (s.clients i).client.table.get key = some v ∨ v.pingid = key ∧ ⟨i, key, v.dstip⟩ ∈ s'.attempted)
    (hsuccesses : ∀ m ∈ c.client.counted ++ c.client.queue, m.result = .success →
      m ∈ (s.clients i).client.counted ++ (s.clients i).client.queue ∨ Accounts D s' i m) : Inv D s' := by
  have hg : Grows s s' := ⟨hatt, fun e he => hecho ▸ he⟩
  constructor
  · intro d hd
    rcases hnet d hd with hold | hnew
    · exact (h.network d hold).mono hg
    · exact hnew
  · rw [hclients, Function.forall_update_iff _ fun j (t : UdpClient) => ∀ dst_addr pingid,
      t.tx = some (dst_addr, pingid) → ⟨j, pingid, dst_addr⟩ ∈ s'.attempted]
    exact ⟨htx, fun j _ dst_addr pingid hj => hatt (h.tx j dst_addr pingid hj)⟩
  · rw [hclients, Function.forall_update_iff _ fun j (t : UdpClient) => ∀ key v,
      t.client.table.get key = some v → v.pingid = key ∧ ⟨j, key, v.dstip⟩ ∈ s'.attempted]
    refine ⟨fun key v hv => ?_, fun j _ key v hv => ?_⟩
    · rcases htable key v hv with hold | hnew
      · obtain ⟨hkey, hmem⟩ := h.table i key v hold
        exact ⟨hkey, hatt hmem⟩
      · exact hnew
    · obtain ⟨hkey, hmem⟩ := h.table j key v hv
      exact ⟨hkey, hatt hmem⟩
  · intro e he
    rw [hecho] at he
    obtain ⟨j, p, hans⟩ := h.echoed e he
    exact ⟨j, p, hans.mono hg⟩
  · rw [hclients, Function.forall_update_iff _ fun j (t : UdpClient) =>
      ∀ m ∈ t.client.counted ++ t.client.queue, m.result = .success → Accounts D s' j m]
    refine ⟨fun m hm hr => ?_, fun j _ m hm hr => (h.successes j m hm hr).mono hg⟩
    rcases hsuccesses m hm hr with hold | hnew
    · exact (h.successes i m hold hr).mono hg
    · exact hnew

theorem failure_ne_success (v : TcpUdpPinginfo) : v.failure.result ≠ .success := nofun

/-- A turn of the result thread moves a message at most from the queue to the counted ones. -/
theorem result_keeps (report_interval_ms : Int) (c : TcpUdpClient) (dequeues : Bool) (now : TimePoint) :
    (TcpUdpClient.step report_interval_ms c (.result dequeues now)).table = c.table ∧
      (TcpUdpClient.step report_interval_ms c (.result dequeues now)).counted ++
        (TcpUdpClient.step report_interval_ms c (.result dequeues now)).queue = c.counted ++ c.queue := by
  have hreport : ∀ c : TcpUdpClient, (TcpUdpClient.checkReport report_interval_ms c now).table = c.table ∧
      (TcpUdpClient.checkReport report_interval_ms c now).counted = c.counted ∧
      (TcpUdpClient.checkReport report_interval_ms c now).queue = c.queue := by
    intro c
    rw [TcpUdpClient.checkReport]
    split
    · exact ⟨rfl, rfl, rfl⟩
    · exact ⟨rfl, rfl, rfl⟩
  rw [TcpUdpClient.step]
  obtain ⟨htable, hcounted, hqueue⟩ := hreport (if dequeues = true then c.dequeue else c)
  rw [htable, hcounted, hqueue]
  split
  · rw [TcpUdpClient.dequeue]
    split
    · exact ⟨rfl, rfl⟩
    · rename_i m rest hq
      refine ⟨rfl, ?_⟩
      rw [hq, List.append_assoc, List.singleton_append]
  · exact ⟨rfl, rfl⟩

namespace Inv

theorem ping (h : Inv D s) (i : ι) (dst_addr : Text) (now steady_now : TimePoint) (system_ns : UInt64) :
    Inv D (step D s (.ping i dst_addr now steady_now system_ns)) := by
  rw [step]
  dsimp only
  split
  · refine h.client i rfl (List.subset_append_left _ _) rfl (fun d hd => Or.inl hd) ?_ ?_ ?_
    · intro dst_addr' pingid htx
      cases htx
      exact List.mem_append_right _ List.mem_cons_self
    · intro key v hv
      dsimp only [TcpUdpClient.insert] at hv
      rw [TcpUdpPinginfoMap.get_insert] at hv
      split at hv
      · rename_i hnew
        cases hv
        exact Or.inr ⟨hnew.2.symm, hnew.2 ▸ List.mem_append_right _ List.mem_cons_self⟩
      · exact Or.inl ((TcpUdpPinginfoMap.get_expireEntries _ now key v).mp hv).1
    · intro m hm hr
      dsimp only [TcpUdpClient.insert] at hm
      rw [TcpUdpPinginfoMap.insert_enqueued, ← List.append_assoc] at hm
      rcases List.mem_append.mp hm with hold | hgone
      · exact Or.inl hold
      · obtain ⟨q, -, rfl⟩ := List.mem_map.mp hgone
        exact absurd hr (failure_ne_success q.2.value)
  · exact h

theorem send (h : Inv D s) (i : ι) (sent : Bool) (hole tail : UInt32) :
    Inv D (step D s (.send i sent hole tail)) := by
  rw [step]
  dsimp only
  split
  · exact h
  · rename_i dst_addr pingid htx
    refine h.client i rfl (List.Subset.refl _) rfl ?_ nofun (fun key v hv => Or.inl hv)
      (fun m hm hr => Or.inl hm)
    intro d hd
    rcases List.mem_append.mp hd with hold | hnew
    · exact Or.inl hold
    · cases sent with
      | false => cases hnew
      | true =>
        obtain ⟨hdst, hsrc, hport, hpayload⟩ := receive_send (Option.mem_toList.mp hnew)
        refine Or.inr (.ping ⟨i, pingid, dst_addr⟩ (h.tx i dst_addr pingid htx) hport hsrc hdst ?_)
        intro pingid' hread
        rw [hpayload] at hread
        split at hread
        · cases hread
        · exact (Option.some.inj hread).symm

theorem pong (h : Inv D s) (i : ι) (n : Nat) (recv_time : UInt64) :
    Inv D (step D s (.pong i n recv_time)) := by
  rw [step]
  dsimp only
  split
  · exact h
  · rename_i d hd
    split
    · rename_i hto
      obtain ⟨hdst, hport⟩ := hto
      split
      · exact h
      · rename_i pingid hread
        obtain ⟨e, p, hans⟩ := h.answers (List.mem_of_getElem? hd) hdst hport hread
        refine h.client i rfl (List.Subset.refl _) rfl (fun d hd => Or.inl hd)
          (fun dst_addr pingid' htx => h.tx i dst_addr pingid' htx) ?_ ?_
        · intro key v hv
          left
          dsimp only [TcpUdpClient.pong, TcpUdpPinginfoMap.updatePongInfo] at hv
          split at hv
          · exact hv
          · exact ((TcpUdpPinginfoMap.get_remove _ _ key v).mp hv).1
        · intro m hm hr
          dsimp only [TcpUdpClient.pong, TcpUdpPinginfoMap.updatePongInfo] at hm
          split at hm
          · rw [List.append_nil] at hm
            exact Or.inl hm
          · rename_i entry hfind
            rw [← List.append_assoc] at hm
            rcases List.mem_append.mp hm with hold | hnew
            · exact Or.inl hold
            · right
              obtain ⟨hkey, hmem⟩ := h.table i pingid entry.value
                ((TcpUdpPinginfoMap.get_eq_some _).mpr ⟨entry, hfind, rfl⟩)
              rw [List.mem_singleton.mp hnew]
              refine ⟨⟨e, p, ?_⟩, ⟨i, pingid, entry.value.dstip⟩, hmem, rfl, hkey.symm, rfl⟩
              rw [TcpUdpPinginfo.success, hkey]
              exact ⟨hans.echoed, hans.sender, hans.attempted, hans.client, hans.ids, hans.address⟩
    · exact h

theorem result (h : Inv D s) (i : ι) (dequeues : Bool) (now : TimePoint) :
    Inv D (step D s (.result i dequeues now)) := by
  obtain ⟨htable, hmsgs⟩ := result_keeps (D.report_interval_ms i) (s.clients i).client dequeues now
  refine h.client i rfl (List.Subset.refl _) rfl (fun d hd => Or.inl hd)
    (fun dst_addr pingid htx => h.tx i dst_addr pingid htx) ?_ ?_
  · intro key v hv
    rw [htable] at hv
    exact Or.inl hv
  · intro m hm hr
    rw [hmsgs] at hm
    exact Or.inl hm

theorem restart (h : Inv D s) (i : ι) (start : TimePoint) : Inv D (step D s (.restart i start)) := by
  refine h.client i rfl (List.Subset.refl _) rfl (fun d hd => Or.inl hd) nofun ?_ nofun
  intro key v hv
  cases (TcpUdpPinginfoMap.get_init _ key).symm.trans hv

theorem serve (h : Inv D s) (k : κ) (n : Nat) (sent : Bool) (hole tail : UInt32) :
    Inv D (step D s (.serve k n sent hole tail)) := by
  rw [step]
  dsimp only
  split
  · exact h
  · rename_i d hd
    split
    · rename_i hto
      obtain ⟨hdst, hport⟩ := hto
      split
      · exact h
      · rename_i pingid hread
        cases h.network d (List.mem_of_getElem? hd) with
        | pong e echoed port dst payload =>
          rw [hport] at port
          exact absurd port (by decide)
        | ping p attempted port src dst payload =>
          have hid := payload pingid hread
          have hg : Grows s { s with
              network := s.network ++ if sent then (sendUdpMessage (ip2uint (D.server k)) (uint2ip d.src)
                PINGWEAVE_UDP_PORT_CLIENT pingid hole tail).toList else []
              echoed := s.echoed ++ [⟨k, d.src, pingid⟩] } :=
            ⟨List.Subset.refl _, List.subset_append_left _ _⟩
          refine ⟨?_, h.tx, h.table, ?_, ?_⟩
          · intro d' hd'
            rcases List.mem_append.mp hd' with hold | hnew
            · exact (h.network d' hold).mono hg
            · cases sent with
              | false => cases hnew
              | true =>
                obtain ⟨hto, -, hport', hpayload⟩ := receive_send (Option.mem_toList.mp hnew)
                rw [inetPton_uint2ip, Option.some.injEq] at hto
                refine .pong ⟨k, d.src, pingid⟩ (List.mem_append_right _ List.mem_cons_self) hport' hto.symm ?_
                intro pingid' hread'
                rw [hpayload] at hread'
                split at hread'
                · cases hread'
                · exact (Option.some.inj hread').symm
          · intro e he
            rcases List.mem_append.mp he with hold | hnew
            · obtain ⟨j, q, hans⟩ := h.echoed e hold
              exact ⟨j, q, hans.mono hg⟩
            · rw [List.mem_singleton.mp hnew]
              refine ⟨p.client, p, List.mem_append_right _ List.mem_cons_self, src, attempted, rfl,
                ⟨rfl, hid.symm⟩, ?_⟩
              rw [dst, hdst]
          · intro j m hm hr
            exact (h.successes j m hm hr).mono hg
    · exact h

theorem step (h : Inv D s) (a : Action ι κ) : Inv D (step D s a) := by
  cases a with
  | ping i dst_addr now steady_now system_ns => exact h.ping i dst_addr now steady_now system_ns
  | send i sent hole tail => exact h.send i sent hole tail
  | pong i n recv_time => exact h.pong i n recv_time
  | result i dequeues now => exact h.result i dequeues now
  | restart i start => exact h.restart i start
  | serve k n sent hole tail => exact h.serve k n sent hole tail

theorem run (h : Inv D s) (as : List (Action ι κ)) : Inv D (run D s as) :=
  Runs.run_invariant (fun _ a hs => hs.step a) h as

end Inv
end Invariant

section Numbers
variable {ι κ : Type} [DecidableEq ι]

def Action.pings (i : ι) : Action ι κ → Bool
  | .ping j _ _ _ _ => j = i
  | _ => false

def Action.restarts (i : ι) : Action ι κ → Bool
  | .restart j _ => j = i
  | _ => false

/-- The pingids of a client's turns, in order. -/
def pingids (s : UdpSystem ι κ) (i : ι) : List UInt64 :=
  (s.attempted.filter fun p => p.client = i).map UdpPing.pingid

/-- The client has numbered its PINGs from zero on. -/
structure Numbered (D : UdpDeployment ι κ) (i : ι) (n : Nat) (s : UdpSystem ι κ) : Prop where
  pingids : s.pingids i = (List.range n).map fun u => makePingid (ip2uint (D.ipv4 i)) (UInt32.ofNat u)
  ping_uid : (s.clients i).ping_uid = UInt32.ofNat n

variable {D : UdpDeployment ι κ} {i : ι} {n : Nat} {s : UdpSystem ι κ}

/-- A step that makes no new PING keeps the numbers. -/
theorem Numbered.same (h : Numbered D i n s) {s' : UdpSystem ι κ} (hatt : s'.attempted = s.attempted)
    (huid : (s'.clients i).ping_uid = (s.clients i).ping_uid) : Numbered D i n s' :=
  ⟨by rw [UdpSystem.pingids, hatt]; exact h.pingids, huid.trans h.ping_uid⟩

theorem ping_uid_update {j : ι} {c : UdpClient} (h : j = i → c.ping_uid = (s.clients i).ping_uid) :
    (Function.update s.clients j c i).ping_uid = (s.clients i).ping_uid := by
  by_cases hj : j = i
  · rw [hj, Function.update_self, h hj]
  · rw [Function.update_of_ne (Ne.symm hj)]

theorem Numbered.step (h : Numbered D i n s) (a : Action ι κ) (ha : a.restarts i = false) :
    ∃ n', n' ≤ n + (a.pings i).toNat ∧ Numbered D i n' (step D s a) := by
  have hsame : ∀ s' : UdpSystem ι κ, s'.attempted = s.attempted →
      (s'.clients i).ping_uid = (s.clients i).ping_uid →
      ∃ n', n' ≤ n + (a.pings i).toNat ∧ Numbered D i n' s' :=
    fun s' hatt huid => ⟨n, Nat.le_add_right _ _, h.same hatt huid⟩
  cases a with
  | ping j dst_addr now steady_now system_ns =>
    rw [UdpSystem.step]
    dsimp only
    split
    · by_cases hj : j = i
      · subst hj
        refine ⟨n + 1, by simp [Action.pings], ?_, ?_⟩
        · have hids := h.pingids
          rw [UdpSystem.pingids] at hids ⊢
          rw [List.filter_append, List.map_append, hids, List.range_succ, List.map_append, h.ping_uid]
          simp
        · dsimp only
          rw [Function.update_self]
          dsimp only
          rw [h.ping_uid, UInt32.ofNat_add]
          rfl
      · refine ⟨n, Nat.le_add_right _ _, ?_, ?_⟩
        · rw [UdpSystem.pingids, List.filter_append, List.filter_cons_of_neg (by simpa using hj), List.filter_nil,
            List.append_nil]
          exact h.pingids
        · dsimp only
          rw [Function.update_of_ne (Ne.symm hj)]
          exact h.ping_uid
    · exact hsame s rfl rfl
  | send j sent hole tail =>
    rw [UdpSystem.step]
    dsimp only
    split
    · exact hsame s rfl rfl
    · exact hsame _ rfl (ping_uid_update fun hj => by rw [hj])
  | pong j m recv_time =>
    rw [UdpSystem.step]
    dsimp only
    split
    · exact hsame s rfl rfl
    · split
      · split
        · exact hsame s rfl rfl
        · exact hsame _ rfl (ping_uid_update fun hj => by rw [hj])
      · exact hsame s rfl rfl
  | result j dequeues now => exact hsame _ rfl (ping_uid_update fun hj => by rw [hj])
  | restart j start =>
    have hj : j ≠ i := of_decide_eq_false ha
    exact hsame _ rfl (ping_uid_update fun heq => absurd heq hj)
  | serve k m sent hole tail =>
    rw [UdpSystem.step]
    dsimp only
    split
    · exact hsame s rfl rfl
    · split
      · split
        · exact hsame s rfl rfl
        · exact hsame _ rfl rfl
      · exact hsame s rfl rfl

theorem Numbered.run {as : List (Action ι κ)} (h : Numbered D i n s) (ha : ∀ a ∈ as, a.restarts i = false) :
    ∃ n', n' ≤ n + as.countP (Action.pings i) ∧ Numbered D i n' (run D s as) := by
  induction as generalizing s n with
  | nil => exact ⟨n, Nat.le_refl _, h⟩
  | cons a as ih =>
    obtain ⟨n', hle, hstep⟩ := h.step a (ha a List.mem_cons_self)
    obtain ⟨n'', hle', hrun⟩ := ih hstep fun b hb => ha b (List.mem_cons_of_mem a hb)
    refine ⟨n'', ?_, hrun⟩
    rw [List.countP_cons]
    cases hp : a.pings i with
    | true => simp only [hp, Bool.toNat_true, if_true] at hle ⊢; omega
    | false => simp only [hp, Bool.toNat_false, Bool.false_eq_true, if_false] at hle ⊢; omega

theorem Numbered.nodup (h : Numbered D i n s) (hn : n ≤ 2 ^ 32) : (s.pingids i).Nodup := by
  rw [h.pingids]
  refine List.Nodup.map_on ?_ List.nodup_range
  intro u hu v hv heq
  have hlow := congrArg UInt32.toNat (makePingid_inj heq).2
  rw [UInt32.toNat_ofNat', UInt32.toNat_ofNat', Nat.mod_eq_of_lt, Nat.mod_eq_of_lt] at hlow
  · exact hlow
  · exact Nat.lt_of_lt_of_le (List.mem_range.mp hv) hn
  · exact Nat.lt_of_lt_of_le (List.mem_range.mp hu) hn

/-- A pingid that the client uses once has one destination. -/
theorem eq_of_pingid (hnodup : (s.pingids i).Nodup) {p q : UdpPing ι} (hp : p ∈ s.attempted)
    (hq : q ∈ s.attempted) (hpi : p.client = i) (hqi : q.client = i) (hid : p.pingid = q.pingid) : p = q :=
  List.inj_on_of_nodup_map hnodup (List.mem_filter.mpr ⟨hp, decide_eq_true hpi⟩)
    (List.mem_filter.mpr ⟨hq, decide_eq_true hqi⟩) hid

/-- The SUCCESS messages that a client has made. -/
def successes (s : UdpSystem ι κ) (i : ι) : List TcpUdpResultMsg :=
  ((s.clients i).client.counted ++ (s.clients i).client.queue).filter fun m => m.result = .success

/-- Every SUCCESS goes back to a PING that the client had sent and a server at its destination
received and answered. -/
def AllAnswered (D : UdpDeployment ι κ) (s : UdpSystem ι κ) : Prop :=
  ∀ i, ∀ m ∈ s.successes i, ∃ e p, Answers D s i m.pingid e p

theorem all_answered (D : UdpDeployment ι κ) (start : ι → TimePoint) (as : List (Action ι κ)) :
    AllAnswered D (run D (init start) as) := by
  intro i m hm
  obtain ⟨hmem, hr⟩ := List.mem_filter.mp hm
  exact (((inv_init start).run as).successes i m hmem (of_decide_eq_true hr)).1

/-- As long as a client has not been restarted nor used a pingid twice, the server that answered is
the one that the SUCCESS is for. -/
theorem answered_by_destination (D : UdpDeployment ι κ) (start : ι → TimePoint) (as : List (Action ι κ))
    (i : ι) (hrestart : ∀ a ∈ as, a.restarts i = false) (hfew : as.countP (Action.pings i) ≤ 2 ^ 32) :
    ∀ m ∈ (run D (init start) as).successes i, ∃ e p, Answers D (run D (init start) as) i m.pingid e p ∧
      ip2uint (D.server e.server) = m.dstip := by
  have hinv : Inv D (run D (init start) as) := (inv_init start).run as
  have hzero : Numbered D i 0 (init start) := ⟨rfl, rfl⟩
  obtain ⟨n, hn, hnum⟩ := hzero.run hrestart
  have hnodup := hnum.nodup (by omega)
  intro m hm
  obtain ⟨hmem, hr⟩ := List.mem_filter.mp hm
  obtain ⟨⟨e, p, hans⟩, q, hq, hqi, hid, hdst⟩ := hinv.successes i m hmem (of_decide_eq_true hr)
  have hpq : p = q := eq_of_pingid hnodup hans.attempted hq hans.client hqi (hans.ids.2.trans hid.symm)
  refine ⟨e, p, hans, ?_⟩
  rw [← hdst, ← hpq]
  exact (congrArg (Option.getD · 0) hans.address).symm

end Numbers

section Restart

def twoServers : UdpDeployment Unit Bool where
  ipv4 := fun _ => ['1', '0', '.', '0', '.', '0', '.', '1']
  server := fun k => if k then ['1', '0', '.', '0', '.', '0', '.', '2'] else ['1', '0', '.', '0', '.', '0', '.', '3']
  report_interval_ms := fun _ => 10000
  bound := fun _ => by decide +kernel
  served := by decide +kernel
  distinct := fun _ _ _ => rfl

/-- A ping to 10.0.0.2, whose PONG is on its way back. -/
def underWay : List (Action Unit Bool) :=
  [.ping () ['1', '0', '.', '0', '.', '0', '.', '2'] 0 0 5, .send () true 1 2, .serve true 0 true 3 4]

def pinged : List (Action Unit Bool) := underWay ++ [.pong () 1 7]

theorem answered_by_destination_pinged :
    (run twoServers (init fun _ => 0) pinged).successes () ≠ [] ∧
      ∀ m ∈ (run twoServers (init fun _ => 0) pinged).successes (),
        ∃ e p, Answers twoServers (run twoServers (init fun _ => 0) pinged) () m.pingid e p ∧
          ip2uint (twoServers.server e.server) = m.dstip :=
  ⟨by decide +kernel, answered_by_destination twoServers (fun _ => 0) pinged () (by decide) (by decide)⟩

/-- The client is restarted while that PONG is on its way, and pings 10.0.0.3. -/
def restarted : UdpSystem Unit Bool :=
  run twoServers (init fun _ => 0) (underWay ++ [.restart () 9,
    .ping () ['1', '0', '.', '0', '.', '0', '.', '3'] 10 10 15, .pong () 1 20])

/-- It takes the PONG of 10.0.0.2 for one of 10.0.0.3, which has answered nothing. -/
theorem restarted_client_confuses_servers :
    ∃ m ∈ restarted.successes (), m.dstip = ip2uint (twoServers.server false) ∧
      ∀ e ∈ restarted.echoed, e.server = true := by
  decide +kernel

end Restart
end UdpSystem
end Pingweave
