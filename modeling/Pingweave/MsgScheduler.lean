import Mathlib.Data.Finset.Insert
import Pingweave.Library.TryLoop
import Pingweave.Yaml

/-!
# The message schedulers

`load_address_info` of `TcpUdpMsgScheduler` and `RdmaMsgScheduler`. The YAML files come in as what
`deserialize` makes of them, `none` where it throws. A function with a `Bool` gives the state at
its end or at the exception, and whether it came to its end.
-/

namespace Pingweave
open TryLoop
set_option autoImplicit false

universe u

/-- The keys of the pinglist that the code names. -/
def keyMesh : Text := ['m', 'e', 's', 'h']
def keyArrow : Text := ['a', 'r', 'r', 'o', 'w']
def keySrc : Text := ['s', 'r', 'c']
def keyDst : Text := ['d', 's', 't']

namespace MsgScheduler

def MAX_RETRY_LOAD_YAML : Nat := 3

/-- `addressInfoNew` and `addressIpNew`, the set that filters duplicates. -/
structure NewAddresses (α : Type) (ip : α → Text) where
  addressInfoNew : List α
  addressIpNew : Finset Text
  nodup : (addressInfoNew.map ip).Nodup
  known : ∀ a ∈ addressInfoNew, ip a ∈ addressIpNew

namespace NewAddresses
variable {α : Type} {ip : α → Text}

def empty : NewAddresses α ip := ⟨[], ∅, List.nodup_nil, fun _ ha => absurd ha List.not_mem_nil⟩

/-- Enter `x` into the set unless it is there, then read its address, which may throw, and append
it. -/
def add (s : NewAddresses α ip) (x : Text) (read : Option { a : α // ip a = x }) : NewAddresses α ip × Bool :=
  if h : x ∈ s.addressIpNew then (s, true)
  else
    match read with
    | none =>
      ({ s with
          addressIpNew := insert x s.addressIpNew
          known := fun a ha => Finset.mem_insert_of_mem (s.known a ha) }, false)
    | some a =>
      ({ addressInfoNew := s.addressInfoNew ++ [a.1]
         addressIpNew := insert x s.addressIpNew
         nodup := by
          rw [List.map_append, List.map_singleton, List.nodup_append]
          refine ⟨s.nodup, List.nodup_singleton _, ?_⟩
          intro y hy z hz hyz
          obtain ⟨b, hb, rfl⟩ := List.mem_map.mp hy
          rw [List.mem_singleton.mp hz, a.2] at hyz
          exact h (hyz ▸ s.known b hb)
         known := by
          intro b hb
          rcases List.mem_append.mp hb with hold | hnew
          · exact Finset.mem_insert_of_mem (s.known b hold)
          · rw [List.mem_singleton.mp hnew, a.2]
            exact Finset.mem_insert_self x _ }, true)

end NewAddresses

section Traversal
variable {σ : Type u} (push : σ → Text → σ)

/-- The loop that looks for `ipaddr` in a list of IPs and stops there; `none` when it meets a node
before that is not a string. -/
def findIp (ipaddr : Text) : List Yaml → Option Bool
  | [] => some false
  | ip :: rest =>
    match ip.stringRef with
    | none => none
    | some srcip => if srcip = ipaddr then some true else findIp ipaddr rest

/-- Push every IP of a list. -/
def pushAll (s : σ) (ips : List Yaml) : σ × Bool :=
  forEach (fun s ip =>
    match ip.stringRef with
    | none => (s, false)
    | some targetIp => (push s targetIp, true)) s ips

/-- A mesh group: all its IPs are targets if `ipaddr` is among them. -/
def meshGroup (ipaddr : Text) (s : σ) (group : Yaml) : σ × Bool :=
  match group.range with
  | none => (s, false)
  | some ips =>
    match findIp ipaddr ips with
    | none => (s, false)
    | some false => (s, true)
    | some true => pushAll push s ips

/-- An arrow group: the IPs of `dst` are targets if `ipaddr` is in `src`. -/
def arrowGroup (ipaddr : Text) (s : σ) (group : Yaml) : σ × Bool :=
  match group.lookup keySrc, group.lookup keyDst with
  | some src, some dst =>
    match src.range with
    | none => (s, false)
    | some ips =>
      match findIp ipaddr ips with
      | none => (s, false)
      | some false => (s, true)
      | some true =>
        match dst.range with
        | none => (s, false)
        | some dstips => pushAll push s dstips
  -- both are required; the group is skipped
  | _, _ => (s, true)

/-- The loop over the groups of `pinglist[category][protocol]`, if there are any. -/
def eachGroup (category protocol : Text) (body : σ → Yaml → σ × Bool) (pinglist : Yaml) (s : σ) : σ × Bool :=
  match (pinglist.lookup category).bind (Yaml.lookup protocol) with
  | none => (s, true)
  | some groups =>
    if groups.isNull then (s, true)
    else
      match groups.range with
      | none => (s, false)
      | some l => forEach body s l

def meshIps (pinglist : Yaml) (protocol ipaddr : Text) : σ → σ × Bool :=
  eachGroup keyMesh protocol (meshGroup push ipaddr) pinglist

def arrowIps (pinglist : Yaml) (protocol ipaddr : Text) : σ → σ × Bool :=
  eachGroup keyArrow protocol (arrowGroup push ipaddr) pinglist

end Traversal
end MsgScheduler

open MsgScheduler

/-- The state of a scheduler that `load_address_info` reads and writes. -/
structure MsgScheduler (α : Type) where
  ipaddr : Text
  protocol : Text
  addr_idx : Nat
  addressInfo : List α
  load_yaml_retry_cnt : Nat
  inter_ping_interval_us : UInt64
  interval_send_ping_microsec : Int

namespace MsgScheduler
variable {α : Type} {ip : α → Text}

/-- The code behind the label `failed`. -/
def failed (s : MsgScheduler α) : MsgScheduler α :=
  if s.load_yaml_retry_cnt + 1 ≥ MAX_RETRY_LOAD_YAML then
    { s with addressInfo := [], load_yaml_retry_cnt := 0 }
  else { s with load_yaml_retry_cnt := s.load_yaml_retry_cnt + 1 }

/-- What follows the two `try` blocks: install the new list, then fall through to `failed` if one
of them has thrown. -/
def renew (s : MsgScheduler α) (r : NewAddresses α ip × Bool) : MsgScheduler α :=
  let s : MsgScheduler α :=
    { s with
      addressInfo := r.1.addressInfoNew
      load_yaml_retry_cnt := 0
      inter_ping_interval_us :=
        if r.1.addressInfoNew ≠ [] then
          UInt64.ofInt s.interval_send_ping_microsec / UInt64.ofNat r.1.addressInfoNew.length
        else 1000000 }
  if r.2 then s else s.failed

end MsgScheduler

/-- The scheduler of the TCP and UDP clients; an address is an IP. -/
abbrev TcpUdpMsgScheduler := MsgScheduler Text

namespace TcpUdpMsgScheduler

abbrev Addresses := NewAddresses Text id

def push (s : Addresses) (targetIp : Text) : Addresses := (s.add targetIp (some ⟨targetIp, rfl⟩)).1

/-- Both `try` blocks; the second one runs in any case. -/
def collect (pinglist : Yaml) (protocol ipaddr : Text) : Addresses × Bool :=
  let mesh := meshIps push pinglist protocol ipaddr NewAddresses.empty
  let arrow := arrowIps push pinglist protocol ipaddr mesh.1
  (arrow.1, mesh.2 && arrow.2)

def loadAddressInfo (s : TcpUdpMsgScheduler) (pinglist : Option Yaml) : TcpUdpMsgScheduler :=
  let s : TcpUdpMsgScheduler := { s with addr_idx := 0 }
  match pinglist with
  | none => s.failed
  | some pinglist => s.renew (collect pinglist s.protocol s.ipaddr)

end TcpUdpMsgScheduler

/-- An element of `rdmaAddressInfo_t`: IP, GID, LID and QPN. -/
structure RdmaAddressTuple where
  ip : Text
  gid : Text
  lid : UInt32
  qpn : UInt32
  deriving DecidableEq, Repr

/-- The scheduler of the RDMA client. -/
abbrev RdmaMsgScheduler := MsgScheduler RdmaAddressTuple

namespace RdmaMsgScheduler

abbrev Addresses := NewAddresses RdmaAddressTuple RdmaAddressTuple.ip

/-- The IP of an entry of the address store. -/
def entryIp (it : Yaml) : Option Text := (it.index 0).bind Yaml.stringRef

/-- The address of an entry, with the casts to `uint32_t`. -/
def entryTuple (ip : Text) (it : Yaml) : Option { a : RdmaAddressTuple // a.ip = ip } := do
  let gid ← (it.index 1).bind Yaml.stringRef
  let lid ← (it.index 2).bind Yaml.integerRef
  let qpn ← (it.index 3).bind Yaml.integerRef
  return ⟨⟨ip, gid, UInt32.ofInt lid, UInt32.ofInt qpn⟩, rfl⟩

/-- Take the address of a store entry if its IP is relevant. -/
def updateEntry (relevantIps : List Text) (s : Addresses) (it : Yaml) : Addresses × Bool :=
  match entryIp it with
  | none => (s, false)
  | some ip => if ip ∈ relevantIps then s.add ip (entryTuple ip it) else (s, true)

/-- The loop over the address store. -/
def updateAddresses (addressStore : Yaml) (relevantIps : List Text) (s : Addresses) : Addresses × Bool :=
  match addressStore.range with
  | none => (s, false)
  | some entries => forEach (updateEntry relevantIps) s entries

/-- One `try` block: the relevant IPs of one category, then their addresses. -/
def collectCategory (ips : List Text → List Text × Bool) (addressStore : Yaml) (s : Addresses) : Addresses × Bool :=
  let relevantIps := ips []
  if relevantIps.2 then updateAddresses addressStore relevantIps.1 s else (s, false)

/-- `relevantIps.push_back` -/
def push (relevantIps : List Text) (targetIp : Text) : List Text := relevantIps ++ [targetIp]

def collect (pinglist addressStore : Yaml) (protocol ipaddr : Text) : Addresses × Bool :=
  let mesh := collectCategory (meshIps push pinglist protocol ipaddr) addressStore NewAddresses.empty
  let arrow := collectCategory (arrowIps push pinglist protocol ipaddr) addressStore mesh.1
  (arrow.1, mesh.2 && arrow.2)

def loadAddressInfo (s : RdmaMsgScheduler) (pinglist addressStore : Option Yaml) : RdmaMsgScheduler :=
  let s : RdmaMsgScheduler := { s with addr_idx := 0 }
  match pinglist with
  | none => s.failed
  | some pinglist =>
    match addressStore with
    | none => s.failed
    | some addressStore => s.renew (collect pinglist addressStore s.protocol s.ipaddr)

end RdmaMsgScheduler
end Pingweave
