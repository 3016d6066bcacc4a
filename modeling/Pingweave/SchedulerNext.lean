import Pingweave.IniParser
import Pingweave.Library.RoundRobin
import Pingweave.PinglistServers
import Pingweave.SchedulerCache

/-!
# The next address to ping

The constructor and `next` of the two schedulers. `next` reloads the addresses after the load
interval and hands out one address after each ping interval, going round the list. A call reads the
clock twice; it comes with the files that a load finds.
-/

namespace Pingweave
set_option autoImplicit false

namespace MsgScheduler

/-- A reading of `steady_clock`, a nanosecond count that its signed 64-bit type holds. -/
abbrev SteadyTime := Fin 9223372036854775808

/-- `duration_cast<seconds>(now - last).count()` -/
def elapsedSec (now last : SteadyTime) : Int := ((now.val : Int) - last.val).tdiv 1000000000

/-- `duration_cast<microseconds>(now - last).count()` -/
def elapsedUs (now last : SteadyTime) : Int := ((now.val : Int) - last.val).tdiv 1000

structure Call (ι : Type) where
  load_now : SteadyTime
  ping_now : SteadyTime
  files : ι

end MsgScheduler

open MsgScheduler

/-- A scheduler with what `next` reads besides the addresses. -/
structure PingScheduler (α : Type) extends MsgScheduler α where
  load_config_interval_sec : Int
  last_ping_time : SteadyTime
  last_load_time : SteadyTime

/-- What a call of `next` leaves and returns; `result` is there for `PINGWEAVE_SUCCESS`. -/
structure NextReturn (α : Type) where
  scheduler : PingScheduler α
  result : Option α
  time_sleep_us : UInt64

namespace PingScheduler
variable {α ι : Type}

def TARGET_PROTOCOLS : List Text := [keyIb, keyRoce, keyTcp, keyUdp]

/-- `"interval_send_ping_" + protocol + "_microsec"` -/
def interval_param (protocol : Text) : Text :=
  "interval_send_ping_".toList ++ protocol ++ "_microsec".toList

def interval_sync_pinglist_sec : Text := "interval_sync_pinglist_sec".toList

/-- The constructor; `none` is the exit for an unknown protocol. -/
def init (file : Option IniParser) (ip protocol : Text) (ping_time load_time : SteadyTime) :
    Option (PingScheduler α) :=
  if protocol ∈ TARGET_PROTOCOLS then
    some
      { ipaddr := ip
        protocol := protocol
        addr_idx := 0
        addressInfo := []
        load_yaml_retry_cnt := 0
        inter_ping_interval_us := 1000
        interval_send_ping_microsec := (getIntParamFromIni file (interval_param protocol)).getD 1000000
        load_config_interval_sec := (getIntParamFromIni file interval_sync_pinglist_sec).getD 10
        last_ping_time := ping_time
        last_load_time := load_time }
  else none

/-- The check whether the load interval has passed. -/
def Due (s : PingScheduler α) (c : Call ι) : Prop :=
  elapsedSec c.load_now s.last_load_time > s.load_config_interval_sec

instance (s : PingScheduler α) (c : Call ι) : Decidable (s.Due c) := inferInstanceAs (Decidable (_ < _))

/-- The check whether the ping interval has passed; the elapsed time is converted to `uint64_t`. -/
def Ready (s : PingScheduler α) (c : Call ι) : Prop :=
  UInt64.ofInt (elapsedUs c.ping_now s.last_ping_time) ≥ s.inter_ping_interval_us

instance (s : PingScheduler α) (c : Call ι) : Decidable (s.Ready c) := inferInstanceAs (Decidable (_ ≤ _))

section Next
variable (load : MsgScheduler α → ι → MsgScheduler α) (idle_us : UInt64)

/-- The first half of `next`. -/
def sync (s : PingScheduler α) (c : Call ι) : PingScheduler α :=
  if s.Due c then { s with toMsgScheduler := load s.toMsgScheduler c.files, last_load_time := c.load_now } else s

/-- `next` with the loader of the scheduler and its sleep time when there is no address. -/
def next (s : PingScheduler α) (c : Call ι) : NextReturn α :=
  let s := s.sync load c
  if s.Ready c then
    -- the index exists unless the list is empty
    match s.addressInfo[s.addr_idx % s.addressInfo.length]? with
    | some a =>
      { scheduler := { s with addr_idx := (s.addr_idx + 1) % s.addressInfo.length, last_ping_time := c.ping_now }
        result := some a
        time_sleep_us := 0 }
    | none => ⟨{ s with last_ping_time := c.ping_now }, none, idle_us⟩
  else ⟨s, none, s.inter_ping_interval_us - UInt64.ofInt (elapsedUs c.ping_now s.last_ping_time)⟩

end Next

section Runs
variable (next : PingScheduler α → Call ι → NextReturn α)

def step (s : PingScheduler α) (c : Call ι) : PingScheduler α := (next s c).scheduler

def run (s : PingScheduler α) (calls : List (Call ι)) : PingScheduler α := Runs.run (step next) s calls

/-- The addresses that the successful calls of a run return. -/
def successes (s : PingScheduler α) : List (Call ι) → List α
  | [] => []
  | c :: calls => (next s c).result.toList ++ successes (step next s c) calls

/-- If the call loads, it loads `l`. -/
def Yields (l : List α) (s : PingScheduler α) (c : Call ι) : Prop := s.Due c → (step next s c).addressInfo = l

instance [DecidableEq α] (l : List α) (s : PingScheduler α) (c : Call ι) : Decidable (Yields next l s c) :=
  inferInstanceAs (Decidable (_ → _))

/-- The call does not load unless the cursor is at the head of the list. -/
def AtHead (s : PingScheduler α) (c : Call ι) : Prop := s.Due c → s.addr_idx = 0

/-- As many successes in a row as there are addresses return each of them, if no load between the
first and the last of them finds the cursor away from the head. -/
def ServesInTurn (l : List α) (s : PingScheduler α) : Prop :=
  ∀ (before : List (Call ι)) (first : Call ι) (rest : List (Call ι)),
    Runs.Along (step next) (Yields next l) s (before ++ first :: rest) →
    (next (run next s before) first).result.isSome →
    Runs.Along (step next) AtHead (step next (run next s before) first) rest →
    (successes next (run next s before) (first :: rest)).length = l.length →
    (successes next (run next s before) (first :: rest)).Perm l

end Runs
end PingScheduler

def TcpUdpMsgScheduler.next : PingScheduler Text → Call (Option Yaml) → NextReturn Text :=
  PingScheduler.next loadAddressInfo 100000

def RdmaMsgScheduler.next : PingScheduler RdmaAddressTuple → Call Files → NextReturn RdmaAddressTuple :=
  PingScheduler.next load 1000000

namespace PingScheduler
variable {α ι : Type} {load : MsgScheduler α → ι → MsgScheduler α} {idle_us : UInt64}

theorem next_of_ready {s : PingScheduler α} {c : Call ι} (hready : (s.sync load c).Ready c) {a : α}
    (hget : (s.sync load c).addressInfo[(s.sync load c).addr_idx % (s.sync load c).addressInfo.length]? = some a) :
    s.next load idle_us c =
      { scheduler :=
          { s.sync load c with
            addr_idx := ((s.sync load c).addr_idx + 1) % (s.sync load c).addressInfo.length
            last_ping_time := c.ping_now }
        result := some a
        time_sleep_us := 0 } := by
  simp only [next, if_pos hready, hget]

theorem next_of_not_ready {s : PingScheduler α} {c : Call ι} (hready : ¬ (s.sync load c).Ready c) :
    s.next load idle_us c = ⟨s.sync load c, none, (s.sync load c).inter_ping_interval_us -
      UInt64.ofInt (elapsedUs c.ping_now (s.sync load c).last_ping_time)⟩ := by
  simp only [next, if_neg hready]

theorem getElem?_cursor {l : List α} (hl : l ≠ []) (i : Nat) : ∃ a, l[i % l.length]? = some a :=
  ⟨_, List.getElem?_eq_getElem (Nat.mod_lt i (List.length_pos_iff.mpr hl))⟩

/-- A load of a scheduler puts the cursor at the head. -/
def Rewinds (load : MsgScheduler α → ι → MsgScheduler α) : Prop := ∀ s files, (load s files).addr_idx = 0

/-- The turn of the cursor that a call is. -/
def turn (load : MsgScheduler α → ι → MsgScheduler α) (idle_us : UInt64) (s : PingScheduler α) (c : Call ι) :
    RoundRobin.Turn :=
  ⟨s.Due c, (s.next load idle_us c).result.isSome⟩

def turns (load : MsgScheduler α → ι → MsgScheduler α) (idle_us : UInt64) (s : PingScheduler α) :
    List (Call ι) → List RoundRobin.Turn
  | [] => []
  | c :: calls => s.turn load idle_us c :: turns load idle_us (step (next load idle_us) s c) calls

theorem next_addressInfo (s : PingScheduler α) (c : Call ι) :
    (step (next load idle_us) s c).addressInfo = (s.sync load c).addressInfo := by
  simp only [step, next]
  split
  · split <;> rfl
  · rfl

theorem result_of_addressInfo_nil {s : PingScheduler α} {c : Call ι} (hnil : (s.sync load c).addressInfo = []) :
    (s.next load idle_us c).result = none := by
  simp only [next, hnil]
  split <;> rfl

theorem sync_addr_idx (hload : Rewinds load) (s : PingScheduler α) (c : Call ι) :
    (s.sync load c).addr_idx = RoundRobin.start s.addr_idx (s.turn load idle_us c) := by
  unfold sync RoundRobin.start turn
  by_cases hdue : s.Due c
  · simp [hdue, hload s.toMsgScheduler c.files]
  · simp [hdue]

/-- A call that finds or loads the addresses `l` is a turn of the cursor over them. -/
theorem next_turn (hload : Rewinds load) {l : List α} (hl : l ≠ []) {s : PingScheduler α} {c : Call ι}
    (hafter : (step (next load idle_us) s c).addressInfo = l) :
    (step (next load idle_us) s c).addr_idx = RoundRobin.step l s.addr_idx (s.turn load idle_us c) ∧
      (s.next load idle_us c).result.toList = RoundRobin.served l s.addr_idx [s.turn load idle_us c] := by
  have hidx : (s.sync load c).addr_idx = RoundRobin.start s.addr_idx (s.turn load idle_us c) :=
    sync_addr_idx hload s c
  rw [next_addressInfo] at hafter
  by_cases hready : (s.sync load c).Ready c
  · obtain ⟨a, hget⟩ := getElem?_cursor hl (s.sync load c).addr_idx
    have hnext : s.next load idle_us c = _ := next_of_ready hready (hafter.symm ▸ hget)
    have hserve : (s.turn load idle_us c).serve = true := by rw [turn, hnext]; rfl
    constructor
    · rw [step, hnext, RoundRobin.step, hserve, if_pos rfl, ← hidx, hafter]
    · rw [hidx] at hget
      simp [RoundRobin.served, hnext, hserve, hget]
  · have hnext : s.next load idle_us c = _ := next_of_not_ready hready
    have hserve : (s.turn load idle_us c).serve = false := by rw [turn, hnext]; rfl
    constructor
    · rw [step, hnext, RoundRobin.step, hserve, if_neg Bool.false_ne_true, ← hidx]
    · simp [RoundRobin.served, hnext, hserve]

theorem Yields.keeps {l : List α} {s : PingScheduler α} {c : Call ι}
    (hyields : Yields (next load idle_us) l s c) (hs : s.addressInfo = l) :
    (step (next load idle_us) s c).addressInfo = l := by
  by_cases hdue : s.Due c
  · exact hyields hdue
  · rw [next_addressInfo, sync, if_neg hdue]
    exact hs

/-- What a run returns is what the cursor serves. -/
theorem successes_eq_served (hload : Rewinds load) {l : List α} (hl : l ≠ []) {s : PingScheduler α}
    (hs : s.addressInfo = l) {calls : List (Call ι)}
    (hyields : Runs.Along (step (next load idle_us)) (Yields (next load idle_us) l) s calls) :
    successes (next load idle_us) s calls = RoundRobin.served l s.addr_idx (s.turns load idle_us calls) := by
  induction calls generalizing s with
  | nil => rfl
  | cons c calls ih =>
    have hafter := hyields.1.keeps hs
    obtain ⟨hidx, hresult⟩ := next_turn hload hl hafter
    rw [successes, turns, RoundRobin.served_cons, hresult, ih hafter hyields.2, hidx]

theorem undisturbed_of_atHead (hload : Rewinds load) {l : List α} (hl : l ≠ []) {s : PingScheduler α}
    (hs : s.addressInfo = l) {calls : List (Call ι)}
    (hyields : Runs.Along (step (next load idle_us)) (Yields (next load idle_us) l) s calls)
    (hhead : Runs.Along (step (next load idle_us)) AtHead s calls) :
    Runs.Along (RoundRobin.step l) RoundRobin.Undisturbed s.addr_idx (s.turns load idle_us calls) := by
  induction calls generalizing s with
  | nil => trivial
  | cons c calls ih =>
    have hafter := hyields.1.keeps hs
    refine ⟨fun hrestart => hhead.1 (of_decide_eq_true hrestart), ?_⟩
    rw [← (next_turn hload hl hafter).1]
    exact ih hafter hyields.2 hhead.2

/-- Until the first load a scheduler has no address. -/
theorem addressInfo_run {l : List α} {s : PingScheduler α} (hs : s.addressInfo = []) {calls : List (Call ι)}
    (hyields : Runs.Along (step (next load idle_us)) (Yields (next load idle_us) l) s calls) :
    (run (next load idle_us) s calls).addressInfo = [] ∨ (run (next load idle_us) s calls).addressInfo = l := by
  refine Runs.run_invariant_along (P := fun t => t.addressInfo = [] ∨ t.addressInfo = l) ?_ (Or.inl hs) hyields
  intro t c ht hc
  by_cases hdue : t.Due c
  · exact Or.inr (hc hdue)
  · rw [next_addressInfo, sync, if_neg hdue]
    exact ht

theorem servesInTurn (hload : Rewinds load) {l : List α} (hl : l ≠ []) {s : PingScheduler α}
    (hs : s.addressInfo = []) : ServesInTurn (next load idle_us) l s := by
  intro before first rest hyields hfirst hhead hlen
  have hbefore := addressInfo_run hs (Runs.along_append.mp hyields).1
  obtain ⟨hyfirst, hyrest⟩ := (Runs.along_append.mp hyields).2
  have hafter : (step (next load idle_us) (run (next load idle_us) s before) first).addressInfo = l := by
    rcases hbefore with hnil | hsome
    · by_cases hdue : (run (next load idle_us) s before).Due first
      · exact hyfirst hdue
      · rw [result_of_addressInfo_nil (by rw [sync, if_neg hdue]; exact hnil)] at hfirst
        cases hfirst
    · exact hyfirst.keeps hsome
  obtain ⟨hidx, hresult⟩ := next_turn hload hl hafter
  have hserved : successes (next load idle_us) (run (next load idle_us) s before) (first :: rest) =
      RoundRobin.served l (run (next load idle_us) s before).addr_idx
        (turns load idle_us (run (next load idle_us) s before) (first :: rest)) := by
    rw [successes, turns, RoundRobin.served_cons, hresult, successes_eq_served hload hl hafter hyrest, hidx]
  rw [hserved] at hlen ⊢
  refine RoundRobin.served_perm hl ?_ hlen
  rw [← hidx]
  exact undisturbed_of_atHead hload hl hafter hyrest hhead

theorem addressInfo_init {file : Option IniParser} {ip protocol : Text} {ping_time load_time : SteadyTime}
    {s : PingScheduler α} (h : init file ip protocol ping_time load_time = some s) : s.addressInfo = [] := by
  unfold init at h
  split at h
  · cases h
    rfl
  · cases h

end PingScheduler

theorem MsgScheduler.reload_addr_idx {α : Type} {ip : α → Text} (s : MsgScheduler α)
    (r : Option (NewAddresses α ip × Bool)) : (s.reload r).addr_idx = 0 := by
  have hfailed : ∀ t : MsgScheduler α, t.failed.addr_idx = t.addr_idx := by
    intro t
    unfold MsgScheduler.failed
    split <;> rfl
  unfold reload
  split
  · exact hfailed _
  · simp only [renew]
    split
    · rfl
    · exact hfailed _

theorem TcpUdpMsgScheduler.rewinds : PingScheduler.Rewinds loadAddressInfo := by
  intro s pinglist
  rw [loadAddressInfo_eq, reload_addr_idx]

theorem RdmaMsgScheduler.rewinds : PingScheduler.Rewinds RdmaMsgScheduler.load := by
  intro s files
  rw [load_eq, reload_addr_idx]

open PingScheduler

/-- Both schedulers go round the list that their loads yield, whatever the intervals and the clock
are. A load sets the cursor back, so a round that a load interrupts starts over. -/
theorem schedulers_serve_in_turn (file : Option IniParser) (ip protocol rdmaProtocol : Text)
    (ping_time load_time : SteadyTime)
    {tcp : PingScheduler Text} (htcp : init file ip protocol ping_time load_time = some tcp)
    {ips : List Text} (hips : ips ≠ []) {rdma : PingScheduler RdmaAddressTuple}
    (hrdma : init file ip rdmaProtocol ping_time load_time = some rdma)
    {addresses : List RdmaAddressTuple} (haddresses : addresses ≠ []) :
    ServesInTurn TcpUdpMsgScheduler.next ips tcp ∧ ServesInTurn RdmaMsgScheduler.next addresses rdma :=
  ⟨servesInTurn TcpUdpMsgScheduler.rewinds hips (addressInfo_init htcp),
    servesInTurn RdmaMsgScheduler.rewinds haddresses (addressInfo_init hrdma)⟩

/-- A scheduler with the default intervals. -/
def started (α : Type) (protocol : Text) : PingScheduler α :=
  ⟨⟨['1'], protocol, 0, [], 0, 1000, 1000000⟩, 10, 0, 0⟩

theorem schedulers_serve_in_turn_started :
    ServesInTurn TcpUdpMsgScheduler.next [['1'], ['2']] (started Text keyTcp) ∧
      ServesInTurn RdmaMsgScheduler.next [⟨['1'], ['g'], 0, 9⟩] (started RdmaAddressTuple keyRoce) :=
  schedulers_serve_in_turn none ['1'] keyTcp keyRoce 0 0 rfl (List.cons_ne_nil _ _) rfl (List.cons_ne_nil _ _)

/-- A call at a second of the clock, when the mesh holds `1` and `2`. -/
def callAt (sec : SteadyTime) : Call (Option Yaml) :=
  ⟨sec, sec, some (meshPinglist (.sequence [ipNode '1', ipNode '2']))⟩

/-- Two calls that both load return the first address twice. -/
theorem not_schedulers_serve_in_turn :
    ¬ ((∀ (file : Option IniParser) (ip protocol : Text) (ping_time load_time : SteadyTime)
          (tcp : PingScheduler Text), init file ip protocol ping_time load_time = some tcp →
        ∀ (ips : List Text), ips ≠ [] → ∀ before first rest,
          Runs.Along (step TcpUdpMsgScheduler.next) (Yields TcpUdpMsgScheduler.next ips) tcp
            (before ++ first :: rest) →
          (TcpUdpMsgScheduler.next (run TcpUdpMsgScheduler.next tcp before) first).result.isSome →
          (successes TcpUdpMsgScheduler.next (run TcpUdpMsgScheduler.next tcp before) (first :: rest)).length =
            ips.length →
          (successes TcpUdpMsgScheduler.next (run TcpUdpMsgScheduler.next tcp before) (first :: rest)).Perm ips) ∧
      ∀ (file : Option IniParser) (ip protocol : Text) (ping_time load_time : SteadyTime)
          (rdma : PingScheduler RdmaAddressTuple), init file ip protocol ping_time load_time = some rdma →
        ∀ (addresses : List RdmaAddressTuple), addresses ≠ [] → ∀ before first rest,
          Runs.Along (step RdmaMsgScheduler.next) (Yields RdmaMsgScheduler.next addresses) rdma
            (before ++ first :: rest) →
          (RdmaMsgScheduler.next (run RdmaMsgScheduler.next rdma before) first).result.isSome →
          (successes RdmaMsgScheduler.next (run RdmaMsgScheduler.next rdma before) (first :: rest)).length =
            addresses.length →
          (successes RdmaMsgScheduler.next (run RdmaMsgScheduler.next rdma before) (first :: rest)).Perm addresses) := by
  rintro ⟨htcp, -⟩
  have hperm := htcp none ['1'] keyTcp 0 0 (started Text keyTcp) rfl [['1'], ['2']] (List.cons_ne_nil _ _) []
    (callAt 11000000000) [callAt 22000000000] (by decide +kernel) (by decide +kernel) (by decide +kernel)
  have hserved : successes TcpUdpMsgScheduler.next (run TcpUdpMsgScheduler.next (started Text keyTcp) [])
      [callAt 11000000000, callAt 22000000000] = [['1'], ['1']] := by
    decide +kernel
  rw [hserved] at hperm
  revert hperm
  decide

end Pingweave
