import Pingweave.Library.Runs
import Pingweave.PyText
import Pingweave.SchedulerTargets
import Pingweave.WireGid

/-!
# How an RDMA server's address reaches the clients

The server writes `save_device_info`, the agent posts it (`send_gid_files`), the web server of the
controller stores and serves it (`post_address`, `get_address_store`), and the client's scheduler
loads it. JSON and YAML give back the scalars that were written; a mapping may come back in another
order.
-/

namespace Pingweave
open MsgScheduler TryLoop
set_option autoImplicit false

/-- The file that `save_device_info` writes; `now` is the text of the current time. -/
def deviceInfoFile (wired_gid : Text) (lid : UInt16) (qp_num : UInt32) (now : Text) : Text :=
  wired_gid ++ '\n' :: (Nat.toDigits 10 lid.toNat ++ '\n' :: (Nat.toDigits 10 qp_num.toNat ++ '\n' :: now))

/-- The characters at which `str.splitlines` splits. -/
def isLineBreak (c : Char) : Bool :=
  let n := c.toNat
  (10 ≤ n && n ≤ 13) || (28 ≤ n && n ≤ 30) || n == 133 || n == 8232 || n == 8233

def splitlines : Text → List Text
  | [] => []
  | '\r' :: '\n' :: rest => [] :: splitlines rest
  | c :: rest =>
    if isLineBreak c then [] :: splitlines rest
    else
      match splitlines rest with
      | [] => [[c]]
      | line :: lines => (c :: line) :: lines

/-- The body of a POST: a JSON object, in which a key may be missing. -/
structure AddressData where
  ip_address : Option Text
  gid : Option Text
  lid : Option Text
  qpn : Option Text
  dtime : Option Text
  deriving DecidableEq

/-- What `send_gid_files` posts for a file; `none` when it skips the file. -/
def sendGidFile (filename contents : Text) : Option AddressData :=
  if filename.count '.' = 3 then
    match splitlines contents with
    | [gid, lid, qpn, times] => some ⟨some filename, some gid, some lid, some qpn, some times⟩
    | _ => none
  else none

/-- A value of `address_store`. -/
structure AddressEntry where
  ip_address : Text
  gid : Text
  lid : Int
  qpn : Int
  dtime : Text
  utime : Int

/-- `address_store`, a dict with the IP as key, and `address_store_checkpoint`. -/
structure AddressStore where
  entries : List AddressEntry
  nodup : (entries.map AddressEntry.ip_address).Nodup
  checkpoint : Int

namespace AddressStore

/-- `address_store[ip_address] = ..` -/
def put (s : AddressStore) (e : AddressEntry) : AddressStore :=
  if h : ∃ e' ∈ s.entries, e'.ip_address = e.ip_address then
    { s with
      entries := s.entries.map fun e' => if e'.ip_address = e.ip_address then e else e'
      nodup := by
        rw [List.map_map]
        refine (List.map_congr_left fun e' _ => ?_) ▸ s.nodup
        by_cases he : e'.ip_address = e.ip_address
        · simp [he]
        · simp [he] }
  else
    { s with
      entries := s.entries ++ [e]
      nodup := by
        rw [List.map_append, List.map_singleton, List.nodup_append]
        refine ⟨s.nodup, List.nodup_singleton _, ?_⟩
        intro x hx y hy hxy
        obtain ⟨e', he', rfl⟩ := List.mem_map.mp hx
        exact h ⟨e', he', hxy.trans (List.mem_singleton.mp hy)⟩ }

def clear (s : AddressStore) : AddressStore := { s with entries := [], nodup := List.nodup_nil }

/-- `post_address` at the time `utime`: the store and the status of the answer. -/
def postAddress (s : AddressStore) (data : AddressData) (utime : Int) : AddressStore × Nat :=
  match data with
  | ⟨some ip_address, some gid, some lid, some qpn, some dtime⟩ =>
    if ip_address ≠ [] ∧ gid ≠ [] ∧ lid ≠ [] ∧ qpn ≠ [] ∧ dtime ≠ [] then
      match pyInt lid, pyInt qpn with
      | some lid, some qpn =>
        let s := s.put ⟨ip_address, gid, lid, qpn, dtime, utime⟩
        (if s.entries.length > 10000 then s.clear else s, 200)
      | _, _ => (s, 500)
    else (s, 400)
  | _ => (s, 400)

/-- `get_address_store`: the store, and the entries of the answer. -/
def getAddressStore (s : AddressStore) (current_time : Int) : AddressStore × List AddressEntry :=
  let s : AddressStore :=
    if s.checkpoint + 60 < current_time then
      { entries := s.entries.filter fun e => ¬ e.utime + 300 < current_time
        nodup := (List.filter_sublist.map AddressEntry.ip_address).nodup s.nodup
        checkpoint := current_time }
    else s
  (s, s.entries)

end AddressStore

/-- An entry as it is served, without `utime`. -/
def AddressEntry.served (e : AddressEntry) : Scalar × Yaml :=
  (.string e.ip_address, .sequence [.scalar (.string e.ip_address), .scalar (.string e.gid), .scalar (.int e.lid),
    .scalar (.int e.qpn), .scalar (.string e.dtime)])

inductive WebRequest where
  | post (data : AddressData) (utime : Int)
  | get (current_time : Int)

def AddressStore.handle (s : AddressStore) : WebRequest → AddressStore
  | .post data utime => (s.postAddress data utime).1
  | .get current_time => (s.getAddressStore current_time).1

/-- The address that the client pings, from what the scheduler hands out. -/
def dstAddr (v32 : UInt32) (a : RdmaAddressTuple) : RdmaAddr := ⟨a.qpn, wireGidToGid v32 a.gid, a.lid⟩

section Lines

theorem splitlines_cons {c : Char} (hc : isLineBreak c = false) (rest : Text) :
    splitlines (c :: rest) =
      match splitlines rest with
      | [] => [[c]]
      | line :: lines => (c :: line) :: lines := by
  rw [splitlines]
  · simp only [hc, Bool.false_eq_true, if_false]
  · rintro rest' rfl -
    exact absurd hc (by decide)

theorem splitlines_append {line : Text} (h : ∀ c ∈ line, isLineBreak c = false) (rest : Text) :
    splitlines (line ++ '\n' :: rest) = line :: splitlines rest := by
  induction line with
  | nil => rw [List.nil_append, splitlines] <;> simp [isLineBreak]
  | cons c line ih =>
    rw [List.cons_append, splitlines_cons (h c List.mem_cons_self),
      ih fun d hd => h d (List.mem_cons_of_mem c hd)]

theorem splitlines_single {line : Text} (hne : line ≠ []) (h : ∀ c ∈ line, isLineBreak c = false) :
    splitlines line = [line] := by
  induction line with
  | nil => exact absurd rfl hne
  | cons c line ih =>
    rw [splitlines_cons (h c List.mem_cons_self)]
    cases line with
    | nil => rw [splitlines]
    | cons d line => rw [ih (List.cons_ne_nil d line) fun e he => h e (List.mem_cons_of_mem c he)]

theorem isLineBreak_of_isPySpace {c : Char} (h : isPySpace c = false) : isLineBreak c = false := by
  simp only [isPySpace, isLineBreak] at *
  simp at h ⊢
  omega

theorem isLineBreak_toDigits {n : Nat} {c : Char} (h : c ∈ Nat.toDigits 10 n) : isLineBreak c = false :=
  isLineBreak_of_isPySpace (isPySpace_of_isDigit (isDigit_of_mem_toDigits h))

end Lines

section File
variable (gid : IbvGid) (lid : UInt16) (qpn n : UInt32) (time : Text)

/-- What the agent of the host with the IP `uint2ip n` posts. -/
def serverData : AddressData :=
  ⟨some (uint2ip n), some (gidToWireGid gid), some (Nat.toDigits 10 lid.toNat), some (Nat.toDigits 10 qpn.toNat),
    some time⟩

theorem gidToWireGid_spec : (gidToWireGid gid).length = 32 ∧ ∀ c ∈ gidToWireGid gid, HexDigits.isLower c = true := by
  have hcount : ((wordsOfRaw (rawGid gid)).map swapBytes).length = 4 := rfl
  constructor
  · match hwords : (wordsOfRaw (rawGid gid)).map swapBytes, hcount with
    | [w0, w1, w2, w3], _ =>
      rw [gidToWireGid, hwords]
      simp only [List.flatMap_cons, List.flatMap_nil, List.length_append, length_sprintfHex, List.length_nil]
  · intro c hc
    obtain ⟨word, -, hword⟩ := List.mem_flatMap.mp hc
    rw [sprintfHex_eq] at hword
    exact HexDigits.isLower_of_mem_padded hword

theorem gidToWireGid_ne_nil : gidToWireGid gid ≠ [] := by
  intro hnil
  have hlen := (gidToWireGid_spec gid).1
  rw [hnil] at hlen
  cases hlen

theorem isLineBreak_gidToWireGid : ∀ c ∈ gidToWireGid gid, isLineBreak c = false := by
  intro c hc
  have hlower := (gidToWireGid_spec gid).2 c hc
  simp [HexDigits.isLower, isLineBreak, Char.le_def, UInt32.le_iff_toNat_le] at hlower ⊢
  omega

theorem splitlines_deviceInfoFile {time : Text} (hne : time ≠ []) (hline : ∀ c ∈ time, isLineBreak c = false) :
    splitlines (deviceInfoFile (gidToWireGid gid) lid qpn time) =
      [gidToWireGid gid, Nat.toDigits 10 lid.toNat, Nat.toDigits 10 qpn.toNat, time] := by
  rw [deviceInfoFile, splitlines_append (isLineBreak_gidToWireGid gid),
    splitlines_append fun c hc => isLineBreak_toDigits hc, splitlines_append fun c hc => isLineBreak_toDigits hc,
    splitlines_single hne hline]

theorem count_uint2ip : (uint2ip n).count '.' = 3 := by
  have hzero : ∀ b, (octetText b).count '.' = 0 := fun b => List.count_eq_zero_of_not_mem (dot_not_mem_octetText b)
  simp only [uint2ip, ipOctets, List.map_cons, List.map_nil, List.intercalate_cons_cons,
    List.intercalate_singleton, List.count_append, hzero]
  rfl

theorem uint2ip_ne_nil : uint2ip n ≠ [] := by
  intro hnil
  have hcount := count_uint2ip n
  rw [hnil] at hcount
  cases hcount

/-- The agent posts what the server wrote. -/
theorem sendGidFile_deviceInfoFile {time : Text} (hne : time ≠ []) (hline : ∀ c ∈ time, isLineBreak c = false) :
    sendGidFile (uint2ip n) (deviceInfoFile (gidToWireGid gid) lid qpn time) =
      some (serverData gid lid qpn n time) := by
  unfold sendGidFile
  rw [if_pos (count_uint2ip n), splitlines_deviceInfoFile gid lid qpn hne hline]
  rfl

theorem postAddress_serverData {time : Text} (hne : time ≠ []) (s : AddressStore) (utime : Int) :
    s.postAddress (serverData gid lid qpn n time) utime =
      (let s := s.put ⟨uint2ip n, gidToWireGid gid, lid.toNat, qpn.toNat, time, utime⟩
       if s.entries.length > 10000 then s.clear else s, 200) := by
  simp only [AddressStore.postAddress, serverData, pyInt_toDigits]
  rw [if_pos ⟨uint2ip_ne_nil n, gidToWireGid_ne_nil gid, Nat.toDigits_ne_nil, Nat.toDigits_ne_nil, hne⟩]
  rfl

end File

namespace AddressStore

theorem mem_put {s : AddressStore} {e e' : AddressEntry} (h : e' ∈ (s.put e).entries) :
    e' = e ∨ (e' ∈ s.entries ∧ e'.ip_address ≠ e.ip_address) := by
  unfold put at h
  split at h
  · obtain ⟨e₀, he₀, rfl⟩ := List.mem_map.mp h
    by_cases hip : e₀.ip_address = e.ip_address
    · exact Or.inl (if_pos hip)
    · rw [if_neg hip]
      exact Or.inr ⟨he₀, hip⟩
  · rename_i hnew
    rcases List.mem_append.mp h with hold | hlast
    · exact Or.inr ⟨hold, fun hip => hnew ⟨e', hold, hip⟩⟩
    · exact Or.inl (List.mem_singleton.mp hlast)

theorem put_mem (s : AddressStore) (e : AddressEntry) : e ∈ (s.put e).entries := by
  unfold put
  split
  · rename_i hold
    obtain ⟨e', he', hip⟩ := hold
    exact List.mem_map.mpr ⟨e', he', if_pos hip⟩
  · exact List.mem_append_right s.entries List.mem_cons_self

theorem length_put_le (s : AddressStore) (e : AddressEntry) : (s.put e).entries.length ≤ s.entries.length + 1 := by
  unfold put
  split
  · rw [List.length_map]
    exact Nat.le_succ _
  · rw [List.length_append, List.length_singleton]

theorem get_mem {s : AddressStore} {e : AddressEntry} (h : e ∈ s.entries) {now : Int} (hrecent : now ≤ e.utime + 300) :
    e ∈ (s.getAddressStore now).2 := by
  simp only [getAddressStore]
  split
  · refine List.mem_filter.mpr ⟨h, ?_⟩
    simpa using hrecent
  · exact h

/-- The entry of `ip`, if there is one, has these numbers. -/
def Publishes (ip gid : Text) (lid qpn : Int) (s : AddressStore) : Prop :=
  ∀ e ∈ s.entries, e.ip_address = ip → e.gid = gid ∧ e.lid = lid ∧ e.qpn = qpn

section Publishes
variable {ip gid : Text} {lid qpn : Int} {s : AddressStore}

theorem Publishes.clear : s.clear.Publishes ip gid lid qpn := fun _ he => absurd he List.not_mem_nil

theorem Publishes.put (h : s.Publishes ip gid lid qpn) {e : AddressEntry}
    (he : e.ip_address = ip → e.gid = gid ∧ e.lid = lid ∧ e.qpn = qpn) : (s.put e).Publishes ip gid lid qpn := by
  intro e' he' hip
  rcases mem_put he' with rfl | ⟨hold, -⟩
  · exact he hip
  · exact h e' hold hip

theorem publishes_put (s : AddressStore) (e : AddressEntry) : (s.put e).Publishes e.ip_address e.gid e.lid e.qpn := by
  intro e' he' hip
  rcases mem_put he' with rfl | ⟨-, hne⟩
  · exact ⟨rfl, rfl, rfl⟩
  · exact absurd hip hne

theorem Publishes.get (h : s.Publishes ip gid lid qpn) (current_time : Int) :
    (s.getAddressStore current_time).1.Publishes ip gid lid qpn := by
  intro e he hip
  simp only [getAddressStore] at he
  split at he
  · exact h e (List.mem_filter.mp he).1 hip
  · exact h e he hip

/-- A post of another address, or the same post again, leaves what is published for `ip`. -/
theorem Publishes.post (h : s.Publishes ip gid lid qpn) {data : AddressData}
    (hdata : data.ip_address = some ip →
      data.gid = some gid ∧ data.lid.bind pyInt = some lid ∧ data.qpn.bind pyInt = some qpn) (utime : Int) :
    (s.postAddress data utime).1.Publishes ip gid lid qpn := by
  unfold postAddress
  split
  · split
    · split
      · rename_i lid' qpn' hlid hqpn
        simp only []
        split
        · exact Publishes.clear
        · apply h.put
          intro hip
          obtain ⟨hg, hl, hq⟩ := hdata (congrArg some hip)
          exact ⟨Option.some.inj hg, Option.some.inj (hlid.symm.trans hl), Option.some.inj (hqpn.symm.trans hq)⟩
      · exact h
    · exact h
  · exact h

end Publishes

end AddressStore

namespace RdmaMsgScheduler

/-- What the loops keep: every address is that of an entry of the store. -/
theorem collect_fromEntries (pinglist : Yaml) (addressStore : Yaml) (protocol ipaddr : Text) :
    ∀ a ∈ (collect pinglist addressStore protocol ipaddr).1.addressInfoNew,
      ∃ it ∈ addressStore.range.getD [], entryIp it = some a.ip ∧ entryTuple a.ip it = some ⟨a, rfl⟩ := by
  let P (s : Addresses) : Prop := ∀ a ∈ s.addressInfoNew,
    ∃ it ∈ addressStore.range.getD [], entryIp it = some a.ip ∧ entryTuple a.ip it = some ⟨a, rfl⟩
  have hstep : ∀ relevantIps, ∀ s : Addresses, ∀ it ∈ addressStore.range.getD [], P s →
      P (updateEntry relevantIps s it).1 := by
    intro relevantIps s it hit hs
    unfold updateEntry
    split
    · exact hs
    · rename_i hip
      split
      · unfold NewAddresses.add
        split
        · exact hs
        · split
          · exact hs
          · rename_i a hread
            intro b hb
            rcases List.mem_append.mp hb with hold | hnew
            · exact hs b hold
            · obtain ⟨a, rfl⟩ := a
              obtain rfl : b = a := List.mem_singleton.mp hnew
              exact ⟨it, hit, hip, hread⟩
      · exact hs
  have hcategory : ∀ ips (s : Addresses), P s → P (collectCategory ips addressStore s).1 := by
    intro ips s hs
    simp only [collectCategory]
    split
    · unfold updateAddresses
      split
      · exact hs
      · rename_i entries hrange
        rw [hrange] at hstep
        exact forEach_invariant (hstep _) hs
    · exact hs
  exact hcategory _ _ (hcategory _ _ fun a ha => absurd ha List.not_mem_nil)

theorem mem_loadAddressInfo {rdma : RdmaMsgScheduler} {pinglist addressStore : Yaml} {a : RdmaAddressTuple}
    (h : a ∈ (rdma.loadAddressInfo (some pinglist) (some addressStore)).addressInfo) :
    a ∈ (collect pinglist addressStore rdma.protocol rdma.ipaddr).1.addressInfoNew := by
  simp only [loadAddressInfo, renew] at h
  split at h
  · exact h
  · simp only [failed] at h
    split at h
    · cases h
    · exact h

end RdmaMsgScheduler

/-- The file that the client loads: the entries of an answer, in any order. -/
def ServedAs (entries : List AddressEntry) (addressStore : Yaml) : Prop :=
  ∃ served, served.Perm (entries.map AddressEntry.served) ∧ addressStore = .mapping served

section Load
variable {entries : List AddressEntry} {addressStore : Yaml}

theorem mem_range_of_servedAs (h : ServedAs entries addressStore) (it : Yaml) :
    it ∈ addressStore.range.getD [] ↔ ∃ e ∈ entries, e.served.2 = it := by
  obtain ⟨served, hperm, rfl⟩ := h
  have hvalues := (hperm.map Prod.snd).mem_iff (a := it)
  rw [List.map_map, List.mem_map (l := entries)] at hvalues
  exact hvalues

theorem wellFormed_of_servedAs (h : ServedAs entries addressStore) : RdmaMsgScheduler.WellFormed addressStore := by
  have hmem := mem_range_of_servedAs h
  obtain ⟨served, -, rfl⟩ := h
  refine ⟨served.map Prod.snd, rfl, ?_⟩
  intro it hit
  obtain ⟨e, -, rfl⟩ := (hmem it).mp hit
  exact ⟨e.ip_address, rfl, rfl⟩

theorem mem_storeIps_of_servedAs (h : ServedAs entries addressStore) (x : Text) :
    x ∈ RdmaMsgScheduler.storeIps addressStore ↔ x ∈ entries.map AddressEntry.ip_address := by
  rw [RdmaMsgScheduler.storeIps, List.mem_filterMap, List.mem_map]
  constructor
  · rintro ⟨it, hit, hip⟩
    obtain ⟨e, he, rfl⟩ := (mem_range_of_servedAs h it).mp hit
    exact ⟨e, he, Option.some.inj hip⟩
  · rintro ⟨e, he, rfl⟩
    exact ⟨e.served.2, (mem_range_of_servedAs h _).mpr ⟨e, he, rfl⟩, rfl⟩

theorem loaded_of_servedAs (h : ServedAs entries addressStore) {rdma : RdmaMsgScheduler} {pinglist : Yaml}
    {a : RdmaAddressTuple} (ha : a ∈ (rdma.loadAddressInfo (some pinglist) (some addressStore)).addressInfo) :
    ∃ e ∈ entries, a = ⟨e.ip_address, e.gid, UInt32.ofInt e.lid, UInt32.ofInt e.qpn⟩ := by
  obtain ⟨it, hit, hip, htuple⟩ :=
    RdmaMsgScheduler.collect_fromEntries _ _ _ _ a (RdmaMsgScheduler.mem_loadAddressInfo ha)
  obtain ⟨e, he, rfl⟩ := (mem_range_of_servedAs h it).mp hit
  have heq : (⟨a.ip, e.gid, UInt32.ofInt e.lid, UInt32.ofInt e.qpn⟩ : RdmaAddressTuple) = a :=
    congrArg Subtype.val (Option.some.inj htuple)
  refine ⟨e, he, ?_⟩
  rw [Option.some.inj hip]
  exact heq.symm

/-- A served target is loaded from a pinglist that raises no exception. -/
theorem loaded_of_target (h : ServedAs entries addressStore) {rdma : RdmaMsgScheduler} {pinglist : Yaml}
    (hpinglist : (TcpUdpMsgScheduler.collect pinglist rdma.protocol rdma.ipaddr).2 = true) {ip : Text}
    (htarget : ip ∈ targets pinglist rdma.protocol rdma.ipaddr) (hip : ip ∈ entries.map AddressEntry.ip_address) :
    ∃ a ∈ (rdma.loadAddressInfo (some pinglist) (some addressStore)).addressInfo, a.ip = ip := by
  have hok := RdmaMsgScheduler.collect_wellFormed hpinglist (wellFormed_of_servedAs h)
  have hinfo : (rdma.loadAddressInfo (some pinglist) (some addressStore)).addressInfo =
      (RdmaMsgScheduler.collect pinglist addressStore rdma.protocol rdma.ipaddr).1.addressInfoNew :=
    addressInfo_renew _ hok
  rw [hinfo]
  apply List.mem_map.mp
  exact ((RdmaMsgScheduler.collect_ok hok).ips ip).mpr ⟨htarget, (mem_storeIps_of_servedAs h ip).mpr hip⟩

end Load

theorem ofInt_natCast (n : Nat) : UInt32.ofInt n = UInt32.ofNat n := by
  apply UInt32.toNat_inj.mp
  rw [UInt32.ofInt, UInt32.toNat_ofNat', UInt32.toNat_ofNat']
  omega

/-- A post under the IP of `data` is a post of `data`. -/
def OwnPosts (data : AddressData) : WebRequest → Prop
  | .post data' _ => data'.ip_address = data.ip_address → data' = data
  | .get _ => True

section Publication
variable (gid : IbvGid) (lid : UInt16) (qpn n : UInt32) {time : Text}

theorem published_post (hne : time ≠ []) (s : AddressStore) (utime : Int) :
    (s.postAddress (serverData gid lid qpn n time) utime).1.Publishes (uint2ip n) (gidToWireGid gid) lid.toNat
      qpn.toNat := by
  rw [postAddress_serverData gid lid qpn n hne]
  simp only []
  split
  · exact AddressStore.Publishes.clear
  · exact AddressStore.publishes_put s _

theorem published_run {s : AddressStore} (h : s.Publishes (uint2ip n) (gidToWireGid gid) lid.toNat qpn.toNat)
    {requests : List WebRequest} (hown : ∀ r ∈ requests, OwnPosts (serverData gid lid qpn n time) r) :
    (Runs.run AddressStore.handle s requests).Publishes (uint2ip n) (gidToWireGid gid) lid.toNat qpn.toNat := by
  refine Runs.run_invariant_along ?_ h (Runs.along_of_forall_mem (G := fun _ r => OwnPosts _ r) fun _ => hown)
  intro s r hs hr
  cases r with
  | get current_time => exact hs.get current_time
  | post data utime =>
    refine hs.post ?_ utime
    intro hip
    rw [hr hip]
    exact ⟨rfl, pyInt_toDigits lid.toNat, pyInt_toDigits qpn.toNat⟩

/-- Unless the store overflows or the entry has expired, the server's entry is served. -/
theorem served_post (hne : time ≠ []) {s : AddressStore} (hroom : s.entries.length < 10000) {utime now : Int}
    (hrecent : now ≤ utime + 300) :
    uint2ip n ∈ (((s.postAddress (serverData gid lid qpn n time) utime).1.getAddressStore now).2.map
      AddressEntry.ip_address) := by
  let e : AddressEntry := ⟨uint2ip n, gidToWireGid gid, lid.toNat, qpn.toNat, time, utime⟩
  have hlen := AddressStore.length_put_le s e
  have hkept : ¬ (s.put e).entries.length > 10000 := by omega
  have hstore : (s.postAddress (serverData gid lid qpn n time) utime).1 = s.put e := by
    rw [postAddress_serverData gid lid qpn n hne]
    exact if_neg hkept
  rw [hstore]
  exact List.mem_map.mpr ⟨e, AddressStore.get_mem (AddressStore.put_mem s e) hrecent, rfl⟩

/-- The GID, LID and QPN that a server writes are those that every client loads for its IP. -/
theorem address_round_trip (v32 : UInt32) (hne : time ≠ []) (hline : ∀ c ∈ time, isLineBreak c = false) :
    -- the two functions on GIDs
    wireGidToGid v32 (gidToWireGid gid) = gid ∧
    (∀ wgid : Text, wgid.length = 32 → (∀ c ∈ wgid, HexDigits.isLower c = true) →
      gidToWireGid (wireGidToGid v32 wgid) = wgid) ∧
    -- the agent's post, and its answer
    sendGidFile (uint2ip n) (deviceInfoFile (gidToWireGid gid) lid qpn time) =
      some (serverData gid lid qpn n time) ∧
    ∀ (s : AddressStore) (utime : Int),
      (s.postAddress (serverData gid lid qpn n time) utime).2 = 200 ∧
      (s.entries.length < 10000 → ∀ now ≤ utime + 300, uint2ip n ∈
        (((s.postAddress (serverData gid lid qpn n time) utime).1.getAddressStore now).2.map
          AddressEntry.ip_address)) ∧
      -- what a client loads from any later answer
      ∀ requests, (∀ r ∈ requests, OwnPosts (serverData gid lid qpn n time) r) → ∀ (now : Int) (addressStore : Yaml),
        let entries := ((Runs.run AddressStore.handle (s.postAddress (serverData gid lid qpn n time) utime).1
          requests).getAddressStore now).2
        ServedAs entries addressStore → ∀ (rdma : RdmaMsgScheduler) (pinglist : Yaml),
          let info := (rdma.loadAddressInfo (some pinglist) (some addressStore)).addressInfo
          (∀ a ∈ info, a.ip = uint2ip n → dstAddr v32 a = ⟨qpn, gid, lid.toUInt32⟩) ∧
          ((TcpUdpMsgScheduler.collect pinglist rdma.protocol rdma.ipaddr).2 = true →
            uint2ip n ∈ targets pinglist rdma.protocol rdma.ipaddr →
            uint2ip n ∈ entries.map AddressEntry.ip_address → ∃ a ∈ info, a.ip = uint2ip n) := by
  refine ⟨wireGidToGid_gidToWireGid v32 gid, gidToWireGid_wireGidToGid v32,
    sendGidFile_deviceInfoFile gid lid qpn n hne hline, ?_⟩
  intro s utime
  refine ⟨?_, fun hroom now hrecent => served_post gid lid qpn n hne hroom hrecent, ?_⟩
  · rw [postAddress_serverData gid lid qpn n hne]
  · intro requests hown now addressStore entries hserved rdma pinglist info
    refine ⟨?_, fun hok htarget hip => loaded_of_target hserved hok htarget hip⟩
    intro a ha hip
    have hpublished := (published_run gid lid qpn n (published_post gid lid qpn n hne s utime) hown).get now
    obtain ⟨e, he, rfl⟩ := loaded_of_servedAs hserved ha
    obtain ⟨hgid, hlid, hqpn⟩ := hpublished e he hip
    have hlid32 : UInt32.ofInt e.lid = lid.toUInt32 := by
      rw [hlid, ofInt_natCast]
      simp
    have hqpn32 : UInt32.ofInt e.qpn = qpn := by
      rw [hqpn, ofInt_natCast, UInt32.ofNat_toNat]
    rw [dstAddr, hgid, hlid32, hqpn32, wireGidToGid_gidToWireGid]

end Publication

/-- The server 10.0.0.1 with LID 0. -/
theorem address_round_trip_lidZero :
    let gid : IbvGid := ⟨0, 0xffff0a000001⟩
    let data := serverData gid 0 7 0x100000a ['n', 'o', 'w']
    wireGidToGid 0 (gidToWireGid gid) = gid ∧
    sendGidFile (uint2ip 0x100000a) (deviceInfoFile (gidToWireGid gid) 0 7 ['n', 'o', 'w']) = some data ∧
    ∀ (s : AddressStore) (utime : Int), (s.postAddress data utime).2 = 200 := by
  intro gid data
  have hline : ∀ c ∈ ['n', 'o', 'w'], isLineBreak c = false := by
    simp only [List.forall_mem_cons]
    exact ⟨by decide, by decide, by decide, List.forall_mem_nil _⟩
  obtain ⟨hgid, -, hfile, hpost⟩ :=
    address_round_trip gid 0 7 0x100000a 0 (List.cons_ne_nil 'n' ['o', 'w']) hline
  exact ⟨hgid, hfile, fun s utime => (hpost s utime).1⟩

end Pingweave
