import Pingweave.Library.Runs
import Pingweave.MsgScheduler

/-!
# The cached addresses of a scheduler when loads fail

What the retry counter is for: a failed load keeps the addresses, and the third failure in a row
drops them. The schedulers do so when a file does not parse. A traversal that throws goes through
the code that installs the new list first.
-/

namespace Pingweave
set_option autoImplicit false

namespace MsgScheduler

/-- A list of addresses that survives two failed loads. -/
structure Cache (α : Type) where
  addressInfo : List α
  inARow : Nat

namespace Cache
variable {α : Type}

def load (c : Cache α) : Option (List α) → Cache α
  | some l => ⟨l, 0⟩
  | none => if c.inARow + 1 = MAX_RETRY_LOAD_YAML then ⟨[], 0⟩ else ⟨c.addressInfo, c.inARow + 1⟩

end Cache

variable {α : Type} {ip : α → Text}

/-- A load of either scheduler, with what its `try` blocks make of the parsed files. -/
def reload (s : MsgScheduler α) (r : Option (NewAddresses α ip × Bool)) : MsgScheduler α :=
  let s : MsgScheduler α := { s with addr_idx := 0 }
  match r with
  | none => s.failed
  | some r => s.renew r

/-- The new list of a load that does not fail. -/
def outcome (r : Option (NewAddresses α ip × Bool)) : Option (List α) :=
  r.bind fun r => if r.2 then some r.1.addressInfoNew else none

/-- No `try` block throws. -/
def Traversed (r : Option (NewAddresses α ip × Bool)) : Prop := ∀ x, r = some x → x.2 = true

instance (r : Option (NewAddresses α ip × Bool)) : Decidable (Traversed r) :=
  match r with
  | none => isTrue fun _ h => by cases h
  | some y => decidable_of_iff (y.2 = true) ⟨fun h _ hx => Option.some.inj hx ▸ h, fun h => h y rfl⟩

/-- The scheduler holds what the cache holds. -/
structure Caches (s : MsgScheduler α) (c : Cache α) : Prop where
  addressInfo : s.addressInfo = c.addressInfo
  retries : s.load_yaml_retry_cnt = c.inARow
  few : c.inARow < MAX_RETRY_LOAD_YAML

theorem Caches.failed {s : MsgScheduler α} {c : Cache α} (h : Caches s c) : Caches s.failed (c.load none) := by
  have hcnt := h.retries
  have hfew := h.few
  unfold MsgScheduler.failed Cache.load
  by_cases hlast : c.inARow + 1 = MAX_RETRY_LOAD_YAML
  · have hge : s.load_yaml_retry_cnt + 1 ≥ MAX_RETRY_LOAD_YAML := by omega
    simp only [if_pos hge, if_pos hlast]
    exact ⟨rfl, rfl, Nat.zero_lt_succ 2⟩
  · have hge : ¬ s.load_yaml_retry_cnt + 1 ≥ MAX_RETRY_LOAD_YAML := by omega
    simp only [if_neg hge, if_neg hlast]
    exact ⟨h.addressInfo, congrArg (· + 1) hcnt, Nat.lt_of_le_of_ne hfew hlast⟩

/-- A load whose traversal does not throw does what the cache does. -/
theorem Caches.reload {s : MsgScheduler α} {c : Cache α} (h : Caches s c) {r : Option (NewAddresses α ip × Bool)}
    (hr : Traversed r) : Caches (s.reload r) (c.load (outcome r)) := by
  cases r with
  | none => exact Caches.failed ⟨h.addressInfo, h.retries, h.few⟩
  | some r =>
    have hok := hr r rfl
    simp only [MsgScheduler.reload, renew, outcome, Option.bind_some, hok, if_true, Cache.load]
    exact ⟨rfl, rfl, Nat.zero_lt_succ 2⟩

@[simp] theorem reload_config (s : MsgScheduler α) (r : Option (NewAddresses α ip × Bool)) :
    (s.reload r).protocol = s.protocol ∧ (s.reload r).ipaddr = s.ipaddr := by
  have hfailed : ∀ t : MsgScheduler α, t.failed.protocol = t.protocol ∧ t.failed.ipaddr = t.ipaddr := by
    intro t
    unfold MsgScheduler.failed
    split <;> exact ⟨rfl, rfl⟩
  unfold reload
  split
  · exact hfailed _
  · simp only [renew]
    split
    · exact ⟨rfl, rfl⟩
    · exact hfailed _

/-- Along loads that are reloads of the files as parsed for the scheduler's protocol and IP, and
whose traversals do not throw, the scheduler is the cache. -/
theorem run_caches {ι : Type} {load : MsgScheduler α → ι → MsgScheduler α}
    {parsed : Text → Text → ι → Option (NewAddresses α ip × Bool)}
    (hload : ∀ s files, load s files = s.reload (parsed s.protocol s.ipaddr files))
    {s : MsgScheduler α} (hfresh : s.load_yaml_retry_cnt = 0) {loads : List ι}
    (hloads : ∀ files ∈ loads, Traversed (parsed s.protocol s.ipaddr files)) :
    Caches (Runs.run load s loads) (Runs.run Cache.load ⟨s.addressInfo, 0⟩
      (loads.map fun files => outcome (parsed s.protocol s.ipaddr files))) := by
  have hstart : Caches s ⟨s.addressInfo, 0⟩ := ⟨rfl, hfresh, Nat.zero_lt_succ 2⟩
  have hguard : Runs.Along load (fun _ files => Traversed (parsed s.protocol s.ipaddr files)) s loads :=
    Runs.along_of_forall_mem fun _ => hloads
  refine (Runs.run_simulation (R := fun t c => Caches t c ∧ t.protocol = s.protocol ∧ t.ipaddr = s.ipaddr)
    ?_ ⟨hstart, rfl, rfl⟩ hguard).1
  rintro t c files ⟨h, hprotocol, hipaddr⟩ hfiles
  obtain ⟨hp, hi⟩ := t.reload_config (parsed s.protocol s.ipaddr files)
  rw [hload, hprotocol, hipaddr]
  exact ⟨h.reload hfiles, hp.trans hprotocol, hi.trans hipaddr⟩

end MsgScheduler

open MsgScheduler

namespace TcpUdpMsgScheduler

def parsed (protocol ipaddr : Text) (pinglist : Option Yaml) : Option (Addresses × Bool) :=
  pinglist.map fun tree => collect tree protocol ipaddr

theorem loadAddressInfo_eq (s : TcpUdpMsgScheduler) (pinglist : Option Yaml) :
    s.loadAddressInfo pinglist = s.reload (parsed s.protocol s.ipaddr pinglist) := by
  cases pinglist <;> rfl

/-- After the loads the scheduler has what the cache has after their outcomes. -/
def KeepsCache (s : TcpUdpMsgScheduler) (loads : List (Option Yaml)) : Prop :=
  (Runs.run loadAddressInfo s loads).addressInfo =
    (Runs.run Cache.load ⟨s.addressInfo, 0⟩
      (loads.map fun pinglist => outcome (parsed s.protocol s.ipaddr pinglist))).addressInfo

end TcpUdpMsgScheduler

namespace RdmaMsgScheduler

/-- The files of a load: the pinglist and the address store. -/
abbrev Files := Option Yaml × Option Yaml

def load (s : RdmaMsgScheduler) (files : Files) : RdmaMsgScheduler := s.loadAddressInfo files.1 files.2

def parsed (protocol ipaddr : Text) (files : Files) : Option (Addresses × Bool) :=
  files.1.bind fun tree => files.2.map fun store => collect tree store protocol ipaddr

theorem load_eq (s : RdmaMsgScheduler) (files : Files) :
    s.load files = s.reload (parsed s.protocol s.ipaddr files) := by
  obtain ⟨pinglist, store⟩ := files
  cases pinglist <;> cases store <;> rfl

def KeepsCache (s : RdmaMsgScheduler) (loads : List Files) : Prop :=
  (Runs.run load s loads).addressInfo =
    (Runs.run Cache.load ⟨s.addressInfo, 0⟩
      (loads.map fun files => outcome (parsed s.protocol s.ipaddr files))).addressInfo

end RdmaMsgScheduler

/-- In runs whose loads succeed or fail to parse, both schedulers keep their addresses over failed
loads, drop them at the third failure in a row, and install the new list otherwise. -/
theorem failed_loads_keep_cache (tcp : TcpUdpMsgScheduler) (pinglists : List (Option Yaml))
    (rdma : RdmaMsgScheduler) (loads : List RdmaMsgScheduler.Files) :
    (tcp.load_yaml_retry_cnt = 0 →
      (∀ pinglist ∈ pinglists, Traversed (TcpUdpMsgScheduler.parsed tcp.protocol tcp.ipaddr pinglist)) →
      TcpUdpMsgScheduler.KeepsCache tcp pinglists) ∧
    (rdma.load_yaml_retry_cnt = 0 →
      (∀ files ∈ loads, Traversed (RdmaMsgScheduler.parsed rdma.protocol rdma.ipaddr files)) →
      RdmaMsgScheduler.KeepsCache rdma loads) := by
  constructor
  · intro hfresh hloads
    exact (run_caches TcpUdpMsgScheduler.loadAddressInfo_eq hfresh hloads).addressInfo
  · intro hfresh hloads
    exact (run_caches RdmaMsgScheduler.load_eq hfresh hloads).addressInfo

/-- A scheduler of `1` that has the address of `2`. -/
def cachedScheduler : TcpUdpMsgScheduler := ⟨['1'], ['p'], 1, [['2']], 0, 1000, 1000000⟩

def cachedRdmaScheduler : RdmaMsgScheduler :=
  ⟨['1'], ['p'], 1, [⟨['2'], ['g'], 0, 9⟩], 0, 1000, 1000000⟩

/-- One mesh group of the protocol. -/
def oneGroupPinglist (ips : List Yaml) : Yaml :=
  .mapping [(.string keyMesh, .mapping [(.string ['p'], .mapping [(.int 0, .sequence ips)])])]

/-- Parse errors around a good load. -/
theorem failed_loads_keep_cache_parse :
    TcpUdpMsgScheduler.KeepsCache cachedScheduler
      [none, none, some (oneGroupPinglist [.scalar (.string ['1']), .scalar (.string ['3'])]), none] ∧
    RdmaMsgScheduler.KeepsCache cachedRdmaScheduler
      [(some (oneGroupPinglist []), none), (none, none), (some (oneGroupPinglist []), some (.mapping [])),
        (none, none)] :=
  have hcaches := failed_loads_keep_cache cachedScheduler
    [none, none, some (oneGroupPinglist [.scalar (.string ['1']), .scalar (.string ['3'])]), none]
    cachedRdmaScheduler
    [(some (oneGroupPinglist []), none), (none, none), (some (oneGroupPinglist []), some (.mapping [])),
      (none, none)]
  ⟨hcaches.1 rfl (by decide +kernel), hcaches.2 rfl (by decide +kernel)⟩

/-- A mesh group in which a number follows the scheduler's own IP. -/
def brokenPinglist : Yaml := oneGroupPinglist [.scalar (.string ['1']), .scalar (.int 5)]

/-- The failed load replaces the cached address by the part of the list before the number. -/
theorem not_failed_loads_keep_cache :
    ¬ ((∀ (s : TcpUdpMsgScheduler) (loads : List (Option Yaml)), s.load_yaml_retry_cnt = 0 →
        TcpUdpMsgScheduler.KeepsCache s loads) ∧
      ∀ (s : RdmaMsgScheduler) (loads : List RdmaMsgScheduler.Files), s.load_yaml_retry_cnt = 0 →
        RdmaMsgScheduler.KeepsCache s loads) := by
  intro h
  have hkeeps := h.1 cachedScheduler [some brokenPinglist] rfl
  have hcode : (Runs.run TcpUdpMsgScheduler.loadAddressInfo cachedScheduler [some brokenPinglist]).addressInfo =
      [['1']] := by
    decide +kernel
  have hcache : (Runs.run Cache.load ⟨cachedScheduler.addressInfo, 0⟩ ([some brokenPinglist].map fun pinglist =>
      outcome (TcpUdpMsgScheduler.parsed cachedScheduler.protocol cachedScheduler.ipaddr pinglist))).addressInfo =
        [['2']] := by
    decide +kernel
  rw [TcpUdpMsgScheduler.KeepsCache, hcode, hcache] at hkeeps
  revert hkeeps
  decide

end Pingweave
