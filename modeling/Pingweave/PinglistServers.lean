import Pingweave.SchedulerTargets

/-!
# Which servers a host runs

`get_my_addr_from_pinglist` of `common.py` and the part of the main loop of `pingweave.py` that
keeps a process for every address it finds. Where the source returns `False` there is `none` here.
The host serves every TCP and UDP target that is one of its own addresses.
-/

namespace Pingweave
open MsgScheduler
set_option autoImplicit false

section Fold
universe u v
variable {σ : Type u} {α : Type v} {f : σ → α → Option σ} {P : σ → Prop}

theorem foldlM_keeps (keeps : ∀ s a s', f s a = some s' → P s → P s') {l : List α} {s s' : σ}
    (h : l.foldlM f s = some s') (hs : P s) : P s' := by
  induction l generalizing s with
  | nil =>
    cases h
    exact hs
  | cons a l ih =>
    rw [List.foldlM_cons] at h
    obtain ⟨t, ht, hl⟩ := Option.bind_eq_some_iff.mp h
    exact ih hl (keeps s a t ht hs)

/-- What the step of one element brings about, and every step keeps, holds after the fold. -/
theorem foldlM_reaches (keeps : ∀ s a s', f s a = some s' → P s → P s') {l : List α} {a : α} (ha : a ∈ l)
    (reaches : ∀ s s', f s a = some s' → P s') {s s' : σ} (h : l.foldlM f s = some s') : P s' := by
  induction l generalizing s with
  | nil => cases ha
  | cons b l ih =>
    rw [List.foldlM_cons] at h
    obtain ⟨t, ht, hl⟩ := Option.bind_eq_some_iff.mp h
    rcases List.mem_cons.mp ha with rfl | hmem
    · exact foldlM_keeps keeps hl (reaches s t ht)
    · exact ih hmem hl

end Fold

def keyTcp : Text := ['t', 'c', 'p']
def keyUdp : Text := ['u', 'd', 'p']
def keyRoce : Text := ['r', 'o', 'c', 'e']
def keyIb : Text := ['i', 'b']

def TARGET_PROTOCOLS : List Text := [keyRoce, keyIb, keyTcp, keyUdp]

/-- The set of addresses of each protocol. -/
abbrev Records := List (Text × List Text)

namespace Records

def init : Records := TARGET_PROTOCOLS.map fun protocol => (protocol, [])

/-- `protocol in records` -/
def has (records : Records) (protocol : Scalar) : Bool := records.any fun r => .string r.1 = protocol

/-- `records[protocol].add(ip)`, where the protocol is a key. -/
def add (records : Records) (protocol : Scalar) (ip : Text) : Records :=
  records.map fun r => if .string r.1 = protocol then (r.1, r.2.insert ip) else r

end Records

section Pinglist
variable (local_ips : List Text)

/-- The body of the loops over an IP list. A list or dict cannot be looked up in a set, and an
unknown protocol has no entry in `records`. -/
def recordIp (protocol : Scalar) (records : Records) : Yaml → Option Records
  | .scalar (.string ip) =>
    if ip ∈ local_ips then
      if records.has protocol then some (records.add protocol ip) else none
    else some records
  | .scalar _ => some records
  | _ => none

def recordIpList (protocol : Scalar) (records : Records) (ip_list : Yaml) : Option Records :=
  ip_list.iter.bind fun ips => ips.foldlM (recordIp local_ips protocol) records

/-- One group of `mesh`. -/
def recordMesh (protocol : Scalar) (records : Records) (group : Scalar × Yaml) : Option Records :=
  if group.2.truthy then recordIpList local_ips protocol records group.2 else some records

/-- One group of `arrow`; the lists of other node types count too. -/
def recordArrow (protocol : Scalar) (records : Records) (group : Scalar × Yaml) : Option Records :=
  group.2.items.bind fun nodes =>
    nodes.foldlM (fun records node => recordIpList local_ips protocol records node.2) records

def recordProtocol (category : Scalar) (records : Records) (entry : Scalar × Yaml) : Option Records :=
  if entry.2.truthy then
    entry.2.items.bind fun groups =>
      groups.foldlM
        (if category = .string keyMesh then recordMesh local_ips entry.1 else recordArrow local_ips entry.1)
        records
  else some records

def recordCategory (records : Records) (entry : Scalar × Yaml) : Option Records :=
  if entry.1 = .string keyMesh ∨ entry.1 = .string keyArrow then
    if entry.2.truthy then
      entry.2.items.bind fun protocols => protocols.foldlM (recordProtocol local_ips entry.1) records
    else some records
  else some records

/-- The file: `none` when it does not exist, `some none` when `safe_load` throws. -/
def getMyAddrFromPinglist (pinglist : Option (Option Yaml)) : Option Records :=
  match pinglist with
  | none => some Records.init
  | some none => none
  | some (some pinglist) =>
    if pinglist.truthy then
      match pinglist.items with
      | none => some Records.init
      | some categories => categories.foldlM (recordCategory local_ips) Records.init
    else some Records.init

end Pinglist

/-- A process of the main loop: IP, program and protocol. -/
abbrev ProcessKey := Text × Text × Text

def name_tcp_server : Text := "tcp_server".toList
def name_tcp_client : Text := "tcp_client".toList
def name_udp_server : Text := "udp_server".toList
def name_udp_client : Text := "udp_client".toList
def name_roce_server : Text := "roce_server".toList
def name_roce_client : Text := "roce_client".toList
def name_ib_server : Text := "ib_server".toList
def name_ib_client : Text := "ib_client".toList

def protocol_to_process_names : List (Text × List Text) :=
  [(keyTcp, [name_tcp_server, name_tcp_client]), (keyUdp, [name_udp_server, name_udp_client]),
    (keyRoce, [name_roce_server, name_roce_client]), (keyIb, [name_ib_server, name_ib_client])]

/-- The keys that the loop over the found addresses visits. -/
def processKeys (myaddr : Records) : List ProcessKey :=
  myaddr.flatMap fun r => r.2.flatMap fun ip =>
    ((protocol_to_process_names.lookup r.1).getD []).map fun pname => (ip, pname, r.1)

/-- The processes of the C++ programs that run after one round of the main loop: those that ran
and are still wanted, and a new one for every other key. -/
def runningAfter (myaddr : Records) (local_ips : List Text) (running : List ProcessKey) : List ProcessKey :=
  let kept := running.filter fun key =>
    myaddr.any (fun r => r.1 = key.2.2 ∧ key.1 ∈ r.2) && key.1 ∈ local_ips
  kept ++ (processKeys myaddr).filter fun key => key ∉ kept

def Records.Recorded (records : Records) (protocol ip : Text) : Prop :=
  ∃ ips, (protocol, ips) ∈ records ∧ ip ∈ ips

section Keeps
variable {local_ips : List Text} {P : Records → Prop}
variable (hadd : ∀ (records : Records) (protocol : Scalar) (ip : Text), P records → P (records.add protocol ip))
include hadd

theorem recordIp_keeps (protocol : Scalar) (records : Records) (ip : Yaml) (records' : Records)
    (h : recordIp local_ips protocol records ip = some records') (hrec : P records) : P records' := by
  unfold recordIp at h
  split at h
  · split at h
    · split at h
      · cases h
        exact hadd _ _ _ hrec
      · cases h
    · cases h
      exact hrec
  · cases h
    exact hrec
  · cases h

theorem recordIpList_keeps (protocol : Scalar) (records : Records) (ip_list : Yaml) (records' : Records)
    (h : recordIpList local_ips protocol records ip_list = some records') (hrec : P records) : P records' := by
  obtain ⟨ips, -, hfold⟩ := Option.bind_eq_some_iff.mp h
  exact foldlM_keeps (recordIp_keeps hadd protocol) hfold hrec

theorem recordMesh_keeps (protocol : Scalar) (records : Records) (group : Scalar × Yaml) (records' : Records)
    (h : recordMesh local_ips protocol records group = some records') (hrec : P records) : P records' := by
  unfold recordMesh at h
  split at h
  · exact recordIpList_keeps hadd _ _ _ _ h hrec
  · cases h
    exact hrec

theorem recordArrow_keeps (protocol : Scalar) (records : Records) (group : Scalar × Yaml) (records' : Records)
    (h : recordArrow local_ips protocol records group = some records') (hrec : P records) : P records' := by
  obtain ⟨nodes, -, hfold⟩ := Option.bind_eq_some_iff.mp h
  exact foldlM_keeps (fun s node s' => recordIpList_keeps hadd protocol s node.2 s') hfold hrec

theorem recordProtocol_keeps (category : Scalar) (records : Records) (entry : Scalar × Yaml) (records' : Records)
    (h : recordProtocol local_ips category records entry = some records') (hrec : P records) : P records' := by
  unfold recordProtocol at h
  split at h
  · obtain ⟨groups, -, hfold⟩ := Option.bind_eq_some_iff.mp h
    refine foldlM_keeps (P := P) ?_ hfold hrec
    intro s group s' hs hrec
    split at hs
    · exact recordMesh_keeps hadd _ _ _ _ hs hrec
    · exact recordArrow_keeps hadd _ _ _ _ hs hrec
  · cases h
    exact hrec

theorem recordCategory_keeps (records : Records) (entry : Scalar × Yaml) (records' : Records)
    (h : recordCategory local_ips records entry = some records') (hrec : P records) : P records' := by
  unfold recordCategory at h
  split at h
  · split at h
    · obtain ⟨protocols, -, hfold⟩ := Option.bind_eq_some_iff.mp h
      exact foldlM_keeps (recordProtocol_keeps hadd entry.1) hfold hrec
    · cases h
      exact hrec
  · cases h
    exact hrec

theorem getMyAddrFromPinglist_keeps {pinglist : Option (Option Yaml)} {records : Records}
    (h : getMyAddrFromPinglist local_ips pinglist = some records) (hinit : P Records.init) : P records := by
  unfold getMyAddrFromPinglist at h
  split at h
  · cases h
    exact hinit
  · cases h
  · split at h
    · split at h
      · cases h
        exact hinit
      · exact foldlM_keeps (recordCategory_keeps hadd) h hinit
    · cases h
      exact hinit

end Keeps

theorem add_keys (records : Records) (protocol : Scalar) (ip : Text) :
    (records.add protocol ip).map Prod.fst = records.map Prod.fst := by
  unfold Records.add
  rw [List.map_map]
  refine List.map_congr_left fun r _ => ?_
  rw [Function.comp_apply]
  split
  · rfl
  · rfl

theorem loaded_keys {local_ips : List Text} {pinglist : Option (Option Yaml)} {records : Records}
    (h : getMyAddrFromPinglist local_ips pinglist = some records) : records.map Prod.fst = TARGET_PROTOCOLS :=
  getMyAddrFromPinglist_keeps (P := fun records => records.map Prod.fst = TARGET_PROTOCOLS)
    (fun records protocol ip hkeys => (add_keys records protocol ip).trans hkeys) h rfl

section Recorded
variable {local_ips : List Text} {p b : Text}

theorem recorded_add (records : Records) (protocol : Scalar) (ip : Text) (h : records.Recorded p b) :
    (records.add protocol ip).Recorded p b := by
  obtain ⟨ips, hmem, hb⟩ := h
  by_cases hp : .string p = protocol
  · refine ⟨ips.insert ip, ?_, List.mem_insert_of_mem hb⟩
    exact List.mem_map.mpr ⟨(p, ips), hmem, if_pos hp⟩
  · refine ⟨ips, ?_, hb⟩
    exact List.mem_map.mpr ⟨(p, ips), hmem, if_neg hp⟩

theorem recordIp_reaches (hlocal : b ∈ local_ips) (records records' : Records)
    (h : recordIp local_ips (.string p) records (.scalar (.string b)) = some records') :
    records'.Recorded p b := by
  simp only [recordIp, if_pos hlocal] at h
  split at h
  · rename_i hhas
    cases h
    obtain ⟨⟨q, ips⟩, hmem, hq⟩ := List.any_eq_true.mp hhas
    obtain rfl : q = p := Scalar.string.inj (of_decide_eq_true hq)
    exact ⟨ips.insert b, List.mem_map.mpr ⟨(q, ips), hmem, if_pos rfl⟩, List.mem_insert_self⟩
  · cases h

/-- A sequence is read element by element on both sides. -/
theorem recordIpList_reaches (hlocal : b ∈ local_ips) {ip_list : Yaml} (hb : b ∈ ip_list.strings)
    (hseq : ∀ entries, ip_list ≠ .mapping entries) (records records' : Records)
    (h : recordIpList local_ips (.string p) records ip_list = some records') : records'.Recorded p b := by
  obtain ⟨ips, hips, hfold⟩ := Option.bind_eq_some_iff.mp h
  cases ip_list with
  | scalar s => cases hb
  | mapping entries => exact absurd rfl (hseq entries)
  | sequence items =>
    cases hips
    obtain ⟨ip, hmem, hip⟩ := List.mem_filterMap.mp hb
    have heq : ip = .scalar (.string b) := by
      unfold Yaml.stringRef at hip
      split at hip
      · cases hip
        rfl
      · cases hip
    exact foldlM_reaches (recordIp_keeps recorded_add _) hmem
      (fun s s' hs => recordIp_reaches hlocal s s' (heq ▸ hs)) hfold

end Recorded

/-- The IP lists that the TCP and UDP scheduler may take targets from are no mappings. -/
structure ListsAreSequences (pinglist : Yaml) (protocol : Text) : Prop where
  mesh : ∀ group ∈ pinglist.groups keyMesh protocol, ∀ entries, group ≠ .mapping entries
  arrow : ∀ group ∈ pinglist.groups keyArrow protocol, ∀ dst, group.lookup keyDst = some dst →
    ∀ entries, dst ≠ .mapping entries

section Served
variable {local_ips : List Text} {p b : Text} {pinglist : Yaml}

/-- A group of a category is the value of an entry that the Python loops reach. -/
theorem mem_groups {category : Text} {group : Yaml} (h : group ∈ pinglist.groups category p) :
    ∃ categories protocols groups, pinglist = .mapping categories ∧
      (.string category, .mapping protocols) ∈ categories ∧ (.string p, groups) ∈ protocols ∧
      ∃ l, groups.range = some l ∧ group ∈ l := by
  unfold Yaml.groups at h
  cases hc : pinglist.lookup category with
  | none => simp [hc] at h
  | some protocols =>
    cases hp : protocols.lookup p with
    | none => simp [hc, hp] at h
    | some groups =>
      cases hr : groups.range with
      | none => simp [hc, hp, hr] at h
      | some l =>
        simp only [hc, hp, hr, Option.bind_some, Option.getD_some] at h
        obtain ⟨categories, hcat, hmemc⟩ := Yaml.lookup_eq_some hc
        obtain ⟨entries, rfl, hmemp⟩ := Yaml.lookup_eq_some hp
        exact ⟨categories, entries, groups, hcat, hmemc, hmemp, l, hr, h⟩

theorem truthy_mapping {entries : List (Scalar × Yaml)} {e : Scalar × Yaml} (h : e ∈ entries) :
    (Yaml.mapping entries).truthy = true := by
  cases entries with
  | nil => cases h
  | cons a l => rfl

theorem recorded_of_group {category : Text} (hcat : category = keyMesh ∨ category = keyArrow) {group : Yaml}
    (hgroup : group ∈ pinglist.groups category p)
    (reaches : ∀ (k : Scalar) (records records' : Records),
      (if Scalar.string category = .string keyMesh then recordMesh local_ips (.string p)
        else recordArrow local_ips (.string p)) records (k, group) = some records' → records'.Recorded p b)
    {records : Records} (h : getMyAddrFromPinglist local_ips (some (some pinglist)) = some records) :
    records.Recorded p b := by
  obtain ⟨categories, protocols, groups, rfl, hmemc, hmemp, l, hrange, hmem⟩ := mem_groups hgroup
  simp only [getMyAddrFromPinglist, truthy_mapping hmemc, if_true, Yaml.items] at h
  refine foldlM_reaches (recordCategory_keeps recorded_add) hmemc ?_ h
  intro s s' hs
  have hcat' : Scalar.string category = .string keyMesh ∨ Scalar.string category = .string keyArrow :=
    hcat.imp (congrArg Scalar.string) (congrArg Scalar.string)
  simp only [recordCategory, if_pos hcat', truthy_mapping hmemp, if_true, Yaml.items, Option.bind_some] at hs
  refine foldlM_reaches (recordProtocol_keeps recorded_add _) hmemp ?_ hs
  intro t t' ht
  cases groups with
  | scalar x => cases hrange
  | sequence items =>
    -- the C++ side takes a sequence of groups, the Python side fails on it
    cases hrange
    have htruthy : (Yaml.sequence l).truthy = true := by
      cases l with
      | nil => cases hmem
      | cons a l => rfl
    simp [recordProtocol, htruthy, Yaml.items] at ht
  | mapping entries =>
    cases hrange
    obtain ⟨⟨k, v⟩, hentry, rfl⟩ := List.mem_map.mp hmem
    simp only [recordProtocol, truthy_mapping hentry, if_true, Yaml.items, Option.bind_some] at ht
    refine foldlM_reaches (P := fun records => records.Recorded p b) ?_ hentry (reaches k) ht
    intro r group r' hr hrec
    split at hr
    · exact recordMesh_keeps recorded_add _ _ _ _ hr hrec
    · exact recordArrow_keeps recorded_add _ _ _ _ hr hrec

theorem recorded_of_target (hseq : ListsAreSequences pinglist p) (hlocal : b ∈ local_ips) {ipaddr : Text}
    (hb : b ∈ targets pinglist p ipaddr) {records : Records}
    (h : getMyAddrFromPinglist local_ips (some (some pinglist)) = some records) : records.Recorded p b := by
  rcases List.mem_append.mp hb with hmesh | harrow
  · obtain ⟨group, hgroup, hin⟩ := List.mem_flatMap.mp hmesh
    split at hin
    · refine recorded_of_group (Or.inl rfl) hgroup ?_ h
      intro k s s' hs
      rw [if_pos rfl] at hs
      unfold recordMesh at hs
      split at hs
      · exact recordIpList_reaches hlocal hin (hseq.mesh group hgroup) s s' hs
      · rename_i hfalse
        exfalso
        cases group with
        | scalar x => cases hin
        | mapping entries => exact hseq.mesh _ hgroup entries rfl
        | sequence items =>
          cases items with
          | nil => cases hin
          | cons a l => exact hfalse rfl
    · cases hin
  · obtain ⟨group, hgroup, hin⟩ := List.mem_flatMap.mp harrow
    unfold arrowDsts at hin
    split at hin
    · rename_i src dst _ hdst
      split at hin
      · refine recorded_of_group (Or.inr rfl) hgroup ?_ h
        intro k s s' hs
        rw [if_neg (by decide)] at hs
        obtain ⟨nodes, hnodes, hfold⟩ := Option.bind_eq_some_iff.mp hs
        obtain ⟨entries, rfl, hmem⟩ := Yaml.lookup_eq_some hdst
        cases hnodes
        refine foldlM_reaches (fun s node s' => recordIpList_keeps recorded_add (.string p) s node.2 s') hmem ?_ hfold
        exact recordIpList_reaches hlocal hin (hseq.arrow _ hgroup dst hdst)
      · cases hin
    · cases hin

theorem mem_runningAfter {records : Records} (h : records.Recorded p b) {pname : Text}
    (hname : pname ∈ (protocol_to_process_names.lookup p).getD []) (running : List ProcessKey) :
    (b, pname, p) ∈ runningAfter records local_ips running := by
  obtain ⟨ips, hmem, hb⟩ := h
  have hkey : (b, pname, p) ∈ processKeys records :=
    List.mem_flatMap.mpr ⟨(p, ips), hmem, List.mem_flatMap.mpr ⟨b, hb, List.mem_map.mpr ⟨pname, hname, rfl⟩⟩⟩
  unfold runningAfter
  rw [List.mem_append, List.mem_filter (p := fun key => decide _), decide_eq_true_eq]
  by_cases hkept : (b, pname, p) ∈ running.filter fun key =>
      records.any (fun r => r.1 = key.2.2 ∧ key.1 ∈ r.2) && key.1 ∈ local_ips
  · exact Or.inl hkept
  · exact Or.inr ⟨hkey, hkept⟩

end Served

def serverOf (protocol : Text) : Text := if protocol = keyTcp then name_tcp_server else name_udp_server

/-- A target of the TCP and UDP scheduler that is one of the host's addresses is among the addresses
that the host finds, and its server runs after every round of the main loop. -/
theorem targets_served (pinglist : Yaml) (tcp : TcpUdpMsgScheduler)
    (hprotocol : tcp.protocol = keyTcp ∨ tcp.protocol = keyUdp) (hseq : ListsAreSequences pinglist tcp.protocol)
    (hload : (TcpUdpMsgScheduler.collect pinglist tcp.protocol tcp.ipaddr).2 = true) (b : Text)
    (hb : b ∈ (tcp.loadAddressInfo (some pinglist)).addressInfo) (local_ips : List Text) (hlocal : b ∈ local_ips)
    {records : Records} (h : getMyAddrFromPinglist local_ips (some (some pinglist)) = some records) :
    records.Recorded tcp.protocol b ∧
      ∀ running, (b, serverOf tcp.protocol, tcp.protocol) ∈ runningAfter records local_ips running := by
  have hinfo : (tcp.loadAddressInfo (some pinglist)).addressInfo =
      (targets pinglist tcp.protocol tcp.ipaddr).eraseDups :=
    (addressInfo_renew _ hload).trans (TcpUdpMsgScheduler.collect_ok hload)
  have htarget : b ∈ targets pinglist tcp.protocol tcp.ipaddr := by
    rw [← List.mem_eraseDups, ← hinfo]
    exact hb
  have hrec := recorded_of_target hseq hlocal htarget h
  refine ⟨hrec, fun running => mem_runningAfter hrec ?_ running⟩
  rcases hprotocol with hp | hp
  · rw [hp]
    exact List.mem_cons_self
  · rw [hp]
    exact List.mem_cons_self

/-- One mesh group for TCP, given as `group`. -/
def meshPinglist (group : Yaml) : Yaml :=
  .mapping [(.string keyMesh, .mapping [(.string keyTcp, .mapping [(.int 0, group)])])]

def ipNode (c : Char) : Yaml := .scalar (.string [c])

def tcpScheduler : TcpUdpMsgScheduler := ⟨['1'], keyTcp, 0, [], 0, 1000, 1000000⟩

theorem targets_served_mesh :
    let records : Records := Records.init.add (.string keyTcp) ['2']
    records.Recorded keyTcp ['2'] ∧
      ∀ running, (['2'], name_tcp_server, keyTcp) ∈ runningAfter records [['2']] running := by
  refine targets_served (meshPinglist (.sequence [ipNode '1', ipNode '2'])) tcpScheduler (Or.inl rfl) ?_
    (by decide +kernel) ['2'] (by decide +kernel) [['2']] List.mem_cons_self ?_
  · constructor
    · intro group hgroup entries heq
      subst heq
      cases hgroup with
      | tail _ h => cases h
    · intro group hgroup
      cases hgroup
  · rfl

/-- Of a group that is a mapping the scheduler takes the values and Python the keys. -/
theorem not_targets_served :
    ¬ ∀ (pinglist : Yaml) (tcp : TcpUdpMsgScheduler) (b : Text) (local_ips : List Text) (records : Records),
      tcp.protocol = keyTcp ∨ tcp.protocol = keyUdp →
      (TcpUdpMsgScheduler.collect pinglist tcp.protocol tcp.ipaddr).2 = true →
      b ∈ (tcp.loadAddressInfo (some pinglist)).addressInfo → b ∈ local_ips →
      getMyAddrFromPinglist local_ips (some (some pinglist)) = some records →
      records.Recorded tcp.protocol b := by
  intro hserved
  obtain ⟨ips, hmem, hb⟩ := hserved
    (meshPinglist (.mapping [(.string ['x'], ipNode '1'), (.string ['y'], ipNode '2')])) tcpScheduler ['2'] [['2']]
    Records.init (Or.inl rfl) (by decide +kernel) (by decide +kernel) List.mem_cons_self rfl
  have hempty : ∀ r ∈ Records.init, r.2 = [] := by decide
  have hips : ips = [] := hempty _ hmem
  rw [hips] at hb
  cases hb

end Pingweave
