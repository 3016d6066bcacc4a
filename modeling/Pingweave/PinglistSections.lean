import Pingweave.Library.CollectLoop
import Pingweave.PinglistServers

/-!
# Unknown sections of the pinglist

What `get_my_addr_from_pinglist` finds in a pinglist whose `mesh` and `arrow` are nested mappings
ending in lists of IPs. It says that it skips a protocol or a node type that it does not know, but
goes on to read it.
-/

namespace Pingweave
open MsgScheduler CollectLoop
set_option autoImplicit false

namespace Yaml

def Entry (y : Yaml) (key : Scalar) (z : Yaml) : Prop := ∃ entries, y = mapping entries ∧ (key, z) ∈ entries

def Lists (y : Yaml) (ip : Text) : Prop := ∃ items, y = sequence items ∧ scalar (.string ip) ∈ items

def IpList (y : Yaml) : Prop := ∃ ips : List Text, y = sequence (ips.map fun ip => scalar (.string ip))

/-- A mapping to values with `P`. -/
def MapsTo (P : Yaml → Prop) (y : Yaml) : Prop := ∃ entries, y = mapping entries ∧ ∀ e ∈ entries, P e.2

end Yaml

/-- A pinglist whose known categories have the right depth. -/
structure Nested (pinglist : Yaml) : Prop where
  categories : ∃ categories, pinglist = .mapping categories
  mesh : ∀ protocols, pinglist.Entry (.string keyMesh) protocols → protocols.MapsTo (Yaml.MapsTo Yaml.IpList)
  arrow : ∀ protocols, pinglist.Entry (.string keyArrow) protocols →
    protocols.MapsTo (Yaml.MapsTo (Yaml.MapsTo Yaml.IpList))

def InMesh (pinglist : Yaml) (protocol : Scalar) (ip : Text) : Prop :=
  ∃ protocols groups group ip_list, pinglist.Entry (.string keyMesh) protocols ∧ protocols.Entry protocol groups ∧
    groups.Entry group ip_list ∧ ip_list.Lists ip

def InArrow (pinglist : Yaml) (protocol node_type : Scalar) (ip : Text) : Prop :=
  ∃ protocols groups group nodes ip_list, pinglist.Entry (.string keyArrow) protocols ∧
    protocols.Entry protocol groups ∧ groups.Entry group nodes ∧ nodes.Entry node_type ip_list ∧ ip_list.Lists ip

/-- The known sections of a protocol have the IP. -/
def Selected (pinglist : Yaml) (protocol ip : Text) : Prop :=
  InMesh pinglist (.string protocol) ip ∨ InArrow pinglist (.string protocol) (.string keySrc) ip ∨
    InArrow pinglist (.string protocol) (.string keyDst) ip

/-- The load succeeds with the selected IPs of the host. -/
def LoadsSelected (local_ips : List Text) (pinglist : Yaml) : Prop :=
  ∃ records, getMyAddrFromPinglist local_ips (some (some pinglist)) = some records ∧
    records.map Prod.fst = TARGET_PROTOCOLS ∧
    ∀ protocol ∈ TARGET_PROTOCOLS, ∀ ip, records.Recorded protocol ip ↔ ip ∈ local_ips ∧ Selected pinglist protocol ip

/-- No IP of the host stands in a section that is not known, unless the known sections of the same
protocol have it too. -/
structure NoLocalSkipped (local_ips : List Text) (pinglist : Yaml) : Prop where
  protocols : ∀ protocol : Scalar, (∀ p ∈ TARGET_PROTOCOLS, protocol ≠ .string p) → ∀ ip ∈ local_ips,
    ¬ InMesh pinglist protocol ip ∧ ∀ node_type, ¬ InArrow pinglist protocol node_type ip
  node_types : ∀ protocol ∈ TARGET_PROTOCOLS, ∀ ip ∈ local_ips, ∀ node_type,
    InArrow pinglist (.string protocol) node_type ip → Selected pinglist protocol ip

/-- The table of `get_my_addr_from_pinglist` as a collector of protocols and IPs. -/
def collector (local_ips : List Text) : Collector Records (Scalar × Text) where
  valid records := records.map Prod.fst = TARGET_PROTOCOLS
  content records := {v | ∃ p, v.1 = .string p ∧ records.Recorded p v.2}
  wanted := {v | v.2 ∈ local_ips}
  bad := {v | v.2 ∈ local_ips ∧ ∀ p ∈ TARGET_PROTOCOLS, v.1 ≠ .string p}

section Loops
variable {local_ips : List Text} {protocol : Scalar}

theorem has_iff {records : Records} (hvalid : records.map Prod.fst = TARGET_PROTOCOLS) :
    records.has protocol = true ↔ ∃ p ∈ TARGET_PROTOCOLS, protocol = .string p := by
  rw [Records.has, List.any_eq_true, ← hvalid]
  constructor
  · rintro ⟨r, hr, heq⟩
    exact ⟨r.1, List.mem_map_of_mem hr, (of_decide_eq_true heq).symm⟩
  · rintro ⟨p, hp, rfl⟩
    obtain ⟨r, hr, rfl⟩ := List.mem_map.mp hp
    exact ⟨r, hr, decide_eq_true rfl⟩

theorem recorded_add_iff {records : Records} (hvalid : records.map Prod.fst = TARGET_PROTOCOLS) {p : Text}
    (hp : p ∈ TARGET_PROTOCOLS) (ip q b : Text) :
    (records.add (.string p) ip).Recorded q b ↔ records.Recorded q b ∨ q = p ∧ b = ip := by
  constructor
  · rintro ⟨ips, hmem, hb⟩
    obtain ⟨r, hr, heq⟩ := List.mem_map.mp hmem
    split at heq
    · rename_i hkey
      cases heq
      rcases List.mem_insert_iff.mp hb with rfl | hold
      · exact Or.inr ⟨Scalar.string.inj hkey, rfl⟩
      · exact Or.inl ⟨r.2, hr, hold⟩
    · cases heq
      exact Or.inl ⟨ips, hr, hb⟩
  · rintro (hold | ⟨rfl, rfl⟩)
    · exact recorded_add records _ _ hold
    · rw [← hvalid] at hp
      obtain ⟨r, hr, rfl⟩ := List.mem_map.mp hp
      exact ⟨r.2.insert b, List.mem_map.mpr ⟨r, hr, if_pos rfl⟩, List.mem_insert_self⟩

theorem collects_recordIp (ip : Text) :
    Collects (collector local_ips) (fun records => recordIp local_ips protocol records (.scalar (.string ip)))
      {(protocol, ip)} := by
  constructor
  · intro hbad records hvalid
    obtain ⟨v, rfl, hlocal, hunknown⟩ := hbad
    have hhas : ¬ records.has protocol = true := by
      rw [has_iff hvalid]
      rintro ⟨p, hp, rfl⟩
      exact hunknown p hp rfl
    simp only [recordIp]
    rw [if_pos hlocal, if_neg hhas]
  · intro hgood records hvalid
    by_cases hlocal : ip ∈ local_ips
    · have hknown : ∃ p ∈ TARGET_PROTOCOLS, protocol = .string p := by
        by_contra hunknown
        exact hgood _ rfl ⟨hlocal, fun p hp heq => hunknown ⟨p, hp, heq⟩⟩
      obtain ⟨p, hp, rfl⟩ := hknown
      refine ⟨records.add (.string p) ip, ?_, (add_keys records _ ip).trans hvalid, ?_⟩
      · simp only [recordIp]
        rw [if_pos hlocal, if_pos ((has_iff hvalid).mpr ⟨p, hp, rfl⟩)]
      · ext ⟨q, b⟩
        simp only [collector, Set.mem_ofPred_eq, Set.mem_union, Set.mem_inter_iff, Set.mem_singleton_iff, Prod.mk.injEq]
        constructor
        · rintro ⟨q, rfl, hrec⟩
          rcases (recorded_add_iff hvalid hp ip q b).mp hrec with hold | ⟨rfl, rfl⟩
          · exact Or.inl ⟨q, rfl, hold⟩
          · exact Or.inr ⟨⟨rfl, rfl⟩, hlocal⟩
        · rintro (⟨q, rfl, hold⟩ | ⟨⟨rfl, rfl⟩, -⟩)
          · exact ⟨q, rfl, (recorded_add_iff hvalid hp ip q b).mpr (Or.inl hold)⟩
          · exact ⟨p, rfl, (recorded_add_iff hvalid hp b p b).mpr (Or.inr ⟨rfl, rfl⟩)⟩
    · refine ⟨records, ?_, hvalid, ?_⟩
      · simp only [recordIp]
        rw [if_neg hlocal]
      · have hnone : ({(protocol, ip)} : Set (Scalar × Text)) ∩ (collector local_ips).wanted = ∅ := by
          rw [Set.singleton_inter_eq_empty]
          exact hlocal
        rw [hnone, Set.union_empty]

theorem collects_recordIpList {ip_list : Yaml} (hlist : ip_list.IpList) :
    Collects (collector local_ips) (fun records => recordIpList local_ips protocol records ip_list)
      {v | v.1 = protocol ∧ ip_list.Lists v.2} := by
  obtain ⟨ips, rfl⟩ := hlist
  refine (collects_foldlM (l := ips) (V := fun ip => {(protocol, ip)}) fun ip _ => collects_recordIp ip).congr ?_ ?_
  · intro records _
    exact List.foldlM_map
  · ext ⟨q, b⟩
    constructor
    · rintro ⟨ip, hip, heq⟩
      cases heq
      exact ⟨rfl, _, rfl, List.mem_map_of_mem hip⟩
    · rintro ⟨rfl, items, heq, hmem⟩
      cases heq
      obtain ⟨ip, hip, hsame⟩ := List.mem_map.mp hmem
      cases hsame
      exact ⟨_, hip, rfl⟩

/-- The loop over the entries of a mapping. -/
theorem collects_entries {f : Records → Scalar × Yaml → Option Records} {P : Yaml → Prop} {y : Yaml}
    {V : Scalar → Yaml → Set (Scalar × Text)} (hy : y.MapsTo P)
    (hbody : ∀ key z, y.Entry key z → P z → Collects (collector local_ips) (fun records => f records (key, z)) (V key z)) :
    Collects (collector local_ips) (fun records => y.items.bind fun entries => entries.foldlM f records)
      {v | ∃ key z, y.Entry key z ∧ v ∈ V key z} := by
  obtain ⟨entries, rfl, hvalues⟩ := hy
  refine (collects_foldlM (l := entries) (V := fun e => V e.1 e.2)
    fun e he => hbody e.1 e.2 ⟨entries, rfl, he⟩ (hvalues e he)).congr (fun _ _ => rfl) ?_
  ext v
  constructor
  · rintro ⟨e, he, hv⟩
    exact ⟨e.1, e.2, ⟨entries, rfl, he⟩, hv⟩
  · rintro ⟨key, z, ⟨entries', heq, he⟩, hv⟩
    cases heq
    exact ⟨(key, z), he, hv⟩

/-- Data that does not count as true has nothing to visit. -/
theorem collects_truthy {y : Yaml} {body : Records → Option Records} {V : Set (Scalar × Text)}
    (h : Collects (collector local_ips) body V) (hfalse : y.truthy = false → body = some) :
    Collects (collector local_ips) (fun records => if y.truthy then body records else some records) V := by
  refine h.congr ?_ rfl
  intro records _
  by_cases htrue : y.truthy = true
  · exact if_pos htrue
  · rw [if_neg htrue, hfalse (Bool.eq_false_iff.mpr htrue)]

theorem skip_of_mapping {f : Records → Scalar × Yaml → Option Records} {P : Yaml → Prop} {y : Yaml}
    (hy : y.MapsTo P) (hfalse : y.truthy = false) :
    (fun records => y.items.bind fun entries => entries.foldlM f records) = some := by
  obtain ⟨entries, rfl, -⟩ := hy
  cases entries with
  | nil => rfl
  | cons e rest => cases hfalse

theorem collects_recordMesh {group : Scalar × Yaml} (hlist : group.2.IpList) :
    Collects (collector local_ips) (fun records => recordMesh local_ips protocol records group)
      {v | v.1 = protocol ∧ group.2.Lists v.2} := by
  apply collects_truthy (collects_recordIpList hlist)
  intro hfalse
  obtain ⟨ips, heq⟩ := hlist
  rw [heq] at hfalse ⊢
  cases ips with
  | nil => rfl
  | cons ip ips => cases hfalse

theorem collects_recordArrow {group : Scalar × Yaml} (hnodes : group.2.MapsTo Yaml.IpList) :
    Collects (collector local_ips) (fun records => recordArrow local_ips protocol records group)
      {v | ∃ node_type ip_list, group.2.Entry node_type ip_list ∧ v.1 = protocol ∧ ip_list.Lists v.2} :=
  collects_entries hnodes fun _ _ _ hlist => collects_recordIpList hlist

theorem collects_mesh {entry : Scalar × Yaml} (hgroups : entry.2.MapsTo Yaml.IpList) :
    Collects (collector local_ips) (fun records => recordProtocol local_ips (.string keyMesh) records entry)
      {v | ∃ group ip_list, entry.2.Entry group ip_list ∧ v.1 = entry.1 ∧ ip_list.Lists v.2} := by
  refine collects_truthy (collects_entries hgroups fun group ip_list _ hlist => ?_) (skip_of_mapping hgroups)
  exact collects_recordMesh hlist

theorem collects_arrow {entry : Scalar × Yaml} (hgroups : entry.2.MapsTo (Yaml.MapsTo Yaml.IpList)) :
    Collects (collector local_ips) (fun records => recordProtocol local_ips (.string keyArrow) records entry)
      {v | ∃ group nodes, entry.2.Entry group nodes ∧
        ∃ node_type ip_list, nodes.Entry node_type ip_list ∧ v.1 = entry.1 ∧ ip_list.Lists v.2} := by
  refine collects_truthy (collects_entries hgroups fun group nodes _ hnodes => ?_) (skip_of_mapping hgroups)
  exact collects_recordArrow hnodes

/-- What the loops visit under an entry of the pinglist. -/
def categoryVisits (category : Scalar) (protocols : Yaml) : Set (Scalar × Text) :=
  {v | category = .string keyMesh ∧ ∃ protocol groups, protocols.Entry protocol groups ∧
        ∃ group ip_list, groups.Entry group ip_list ∧ v.1 = protocol ∧ ip_list.Lists v.2} ∪
    {v | category = .string keyArrow ∧ ∃ protocol groups, protocols.Entry protocol groups ∧
        ∃ group nodes, groups.Entry group nodes ∧
          ∃ node_type ip_list, nodes.Entry node_type ip_list ∧ v.1 = protocol ∧ ip_list.Lists v.2}

theorem collects_recordCategory {entry : Scalar × Yaml}
    (hmesh : entry.1 = .string keyMesh → entry.2.MapsTo (Yaml.MapsTo Yaml.IpList))
    (harrow : entry.1 = .string keyArrow → entry.2.MapsTo (Yaml.MapsTo (Yaml.MapsTo Yaml.IpList))) :
    Collects (collector local_ips) (fun records => recordCategory local_ips records entry)
      (categoryVisits entry.1 entry.2) := by
  obtain ⟨category, protocols⟩ := entry
  have hdiffer : Scalar.string keyMesh ≠ .string keyArrow := by decide
  by_cases hm : category = .string keyMesh
  · subst hm
    refine (collects_truthy (collects_entries (hmesh rfl) fun protocol groups _ hgroups =>
      collects_mesh hgroups) (skip_of_mapping (hmesh rfl))).congr ?_ ?_
    · intro records _
      exact if_pos (Or.inl rfl)
    · ext v
      constructor
      · exact fun hv => Or.inl ⟨rfl, hv⟩
      · rintro (⟨-, hv⟩ | ⟨heq, -⟩)
        · exact hv
        · exact absurd heq hdiffer
  · by_cases ha : category = .string keyArrow
    · subst ha
      refine (collects_truthy (collects_entries (harrow rfl) fun protocol groups _ hgroups =>
        collects_arrow hgroups) (skip_of_mapping (harrow rfl))).congr ?_ ?_
      · intro records _
        exact if_pos (Or.inr rfl)
      · ext v
        constructor
        · exact fun hv => Or.inr ⟨rfl, hv⟩
        · rintro (⟨heq, -⟩ | ⟨-, hv⟩)
          · exact absurd heq hm
          · exact hv
    · refine collects_skip.congr ?_ ?_
      · intro records _
        exact if_neg (not_or.mpr ⟨hm, ha⟩)
      · ext v
        refine iff_of_false (Set.notMem_empty v) ?_
        rintro (⟨heq, -⟩ | ⟨heq, -⟩)
        · exact hm heq
        · exact ha heq

end Loops

section Load
variable {local_ips : List Text} {pinglist : Yaml}

def visits (pinglist : Yaml) : Set (Scalar × Text) :=
  {v | InMesh pinglist v.1 v.2 ∨ ∃ node_type, InArrow pinglist v.1 node_type v.2}

theorem mem_visits {v : Scalar × Text} :
    v ∈ visits pinglist ↔ ∃ category protocols, pinglist.Entry category protocols ∧
      v ∈ categoryVisits category protocols := by
  constructor
  · rintro (⟨protocols, groups, group, ip_list, hc, hp, hg, hl⟩ |
      ⟨node_type, protocols, groups, group, nodes, ip_list, hc, hp, hg, hn, hl⟩)
    · exact ⟨_, protocols, hc, Or.inl ⟨rfl, v.1, groups, hp, group, ip_list, hg, rfl, hl⟩⟩
    · exact ⟨_, protocols, hc, Or.inr ⟨rfl, v.1, groups, hp, group, nodes, hg, node_type, ip_list, hn, rfl, hl⟩⟩
  · rintro ⟨category, protocols, hc, ⟨rfl, protocol, groups, hp, group, ip_list, hg, rfl, hl⟩ |
      ⟨rfl, protocol, groups, hp, group, nodes, hg, node_type, ip_list, hn, rfl, hl⟩⟩
    · exact Or.inl ⟨protocols, groups, group, ip_list, hc, hp, hg, hl⟩
    · exact Or.inr ⟨node_type, protocols, groups, group, nodes, ip_list, hc, hp, hg, hn, hl⟩

/-- The whole load collects what stands in any section of `mesh` and `arrow`. -/
theorem collects_load (local_ips : List Text) (h : Nested pinglist) :
    ∃ body, Collects (collector local_ips) body (visits pinglist) ∧
      getMyAddrFromPinglist local_ips (some (some pinglist)) = body Records.init := by
  obtain ⟨categories, rfl⟩ := h.categories
  refine ⟨fun records => categories.foldlM (recordCategory local_ips) records, ?_, ?_⟩
  · refine (collects_foldlM (l := categories) (V := fun e => categoryVisits e.1 e.2) fun e he => ?_).congr
      (fun _ _ => rfl) ?_
    · apply collects_recordCategory
      · intro hkey
        exact h.mesh e.2 ⟨categories, rfl, hkey ▸ he⟩
      · intro hkey
        exact h.arrow e.2 ⟨categories, rfl, hkey ▸ he⟩
    · ext v
      rw [mem_visits]
      constructor
      · rintro ⟨e, he, hv⟩
        exact ⟨e.1, e.2, ⟨categories, rfl, he⟩, hv⟩
      · rintro ⟨category, protocols, ⟨entries, heq, he⟩, hv⟩
        cases heq
        exact ⟨(category, protocols), he, hv⟩
  · cases categories with
    | nil => rfl
    | cons e rest => rfl

theorem init_valid : (collector local_ips).valid Records.init := rfl

theorem not_recorded_init (p b : Text) : ¬ Records.init.Recorded p b := by
  rintro ⟨ips, hmem, hb⟩
  obtain ⟨protocol, -, heq⟩ := List.mem_map.mp hmem
  cases heq
  cases hb

/-- A load succeeds if no IP of the host stands under an unknown protocol. -/
theorem load_isSome_iff (h : Nested pinglist) :
    (getMyAddrFromPinglist local_ips (some (some pinglist))).isSome = true ↔
      ∀ v ∈ visits pinglist, v.2 ∈ local_ips → ∃ p ∈ TARGET_PROTOCOLS, v.1 = .string p := by
  obtain ⟨body, hcollects, heq⟩ := collects_load local_ips h
  rw [heq, hcollects.isSome_iff init_valid]
  constructor
  · intro hgood v hv hlocal
    by_contra hunknown
    exact hgood v hv ⟨hlocal, fun p hp hp' => hunknown ⟨p, hp, hp'⟩⟩
  · rintro hknown v hv ⟨hlocal, hunknown⟩
    obtain ⟨p, hp, hp'⟩ := hknown v hv hlocal
    exact hunknown p hp hp'

theorem load_recorded_iff (h : Nested pinglist) {records : Records}
    (hload : getMyAddrFromPinglist local_ips (some (some pinglist)) = some records) (p b : Text) :
    records.Recorded p b ↔ b ∈ local_ips ∧ (.string p, b) ∈ visits pinglist := by
  obtain ⟨body, hcollects, heq⟩ := collects_load local_ips h
  have hcontent := hcollects.content_eq init_valid (heq.symm.trans hload)
  have hmem : (.string p, b) ∈ (collector local_ips).content records ↔ records.Recorded p b := by
    constructor
    · rintro ⟨q, hq, hrec⟩
      cases hq
      exact hrec
    · exact fun hrec => ⟨p, rfl, hrec⟩
  rw [← hmem, hcontent]
  constructor
  · rintro (⟨q, -, hrec⟩ | ⟨hv, hlocal⟩)
    · exact absurd hrec (not_recorded_init q b)
    · exact ⟨hlocal, hv⟩
  · rintro ⟨hlocal, hv⟩
    exact Or.inr ⟨hv, hlocal⟩

end Load

theorem visits_of_selected {pinglist : Yaml} {p b : Text} (h : Selected pinglist p b) :
    (.string p, b) ∈ visits pinglist := by
  rcases h with hmesh | hsrc | hdst
  · exact Or.inl hmesh
  · exact Or.inr ⟨_, hsrc⟩
  · exact Or.inr ⟨_, hdst⟩

/-- The load returns the selected IPs exactly if no IP of the host stands only in a section that is
not known. -/
theorem loadsSelected_iff (local_ips : List Text) (pinglist : Yaml) (h : Nested pinglist) :
    LoadsSelected local_ips pinglist ↔ NoLocalSkipped local_ips pinglist := by
  constructor
  · rintro ⟨records, hload, -, hselected⟩
    have hknown := (load_isSome_iff h).mp (Option.isSome_iff_exists.mpr ⟨records, hload⟩)
    constructor
    · intro protocol hunknown ip hlocal
      have hnot : (protocol, ip) ∉ visits pinglist := by
        intro hv
        obtain ⟨p, hp, heq⟩ := hknown _ hv hlocal
        exact hunknown p hp heq
      exact ⟨fun hmesh => hnot (Or.inl hmesh), fun node_type harrow => hnot (Or.inr ⟨node_type, harrow⟩)⟩
    · intro p hp ip hlocal node_type harrow
      have hrec := (load_recorded_iff h hload p ip).mpr ⟨hlocal, Or.inr ⟨node_type, harrow⟩⟩
      exact ((hselected p hp ip).mp hrec).2
  · intro hskipped
    have hsome : (getMyAddrFromPinglist local_ips (some (some pinglist))).isSome = true := by
      rw [load_isSome_iff h]
      intro v hv hlocal
      by_contra hunknown
      obtain ⟨hmesh, harrow⟩ :=
        hskipped.protocols v.1 (fun p hp heq => hunknown ⟨p, hp, heq⟩) v.2 hlocal
      rcases hv with hin | ⟨node_type, hin⟩
      · exact hmesh hin
      · exact harrow node_type hin
    obtain ⟨records, hload⟩ := Option.isSome_iff_exists.mp hsome
    refine ⟨records, hload, loaded_keys hload, fun p hp ip => ?_⟩
    rw [load_recorded_iff h hload]
    refine and_congr_right fun hlocal => ⟨?_, visits_of_selected⟩
    rintro (hmesh | ⟨node_type, harrow⟩)
    · exact Or.inl hmesh
    · exact hskipped.node_types p hp ip hlocal node_type harrow

/-- A TCP group and a group of a protocol that is not known. -/
def unknownPinglist (c : Char) : Yaml :=
  .mapping [(.string keyMesh, .mapping [(.string keyTcp, .mapping [(.int 0, .sequence [ipNode '1'])]),
    (.string ['x'], .mapping [(.int 0, .sequence [ipNode c])])])]

theorem nested_unknownPinglist (c : Char) : Nested (unknownPinglist c) := by
  have hlist (c : Char) : (Yaml.sequence [ipNode c]).IpList := ⟨[[c]], rfl⟩
  refine ⟨⟨_, rfl⟩, ?_, ?_⟩
  · rintro protocols ⟨categories, heq, he⟩
    cases heq
    cases List.mem_singleton.mp he
    refine ⟨_, rfl, ?_⟩
    intro e he
    rcases List.mem_pair.mp he with rfl | rfl
    · exact ⟨_, rfl, List.forall_mem_singleton.mpr (hlist '1')⟩
    · exact ⟨_, rfl, List.forall_mem_singleton.mpr (hlist c)⟩
  · rintro protocols ⟨categories, heq, he⟩
    cases heq
    cases List.mem_singleton.mp he

theorem loadsSelected_iff_unknown : LoadsSelected [['1']] (unknownPinglist '2') := by
  apply (loadsSelected_iff [['1']] (unknownPinglist '2') (nested_unknownPinglist '2')).mpr
  have harrow : ∀ protocol node_type ip, ¬ InArrow (unknownPinglist '2') protocol node_type ip := by
    rintro protocol node_type ip ⟨protocols, groups, group, nodes, ip_list, ⟨categories, heq, he⟩, -⟩
    cases heq
    cases List.mem_singleton.mp he
  constructor
  · intro protocol hunknown ip hlocal
    refine ⟨?_, fun node_type => harrow protocol node_type ip⟩
    rintro ⟨protocols, groups, group, ip_list, ⟨categories, heq, he⟩, ⟨entries, heq', hp⟩, ⟨lists, heq'', hg⟩,
      ⟨items, hitems, hip⟩⟩
    cases heq
    cases List.mem_singleton.mp he
    cases heq'
    rcases List.mem_pair.mp hp with hp | hp
    · cases hp
      exact hunknown keyTcp (by decide) rfl
    · cases hp
      cases heq''
      cases List.mem_singleton.mp hg
      cases hitems
      cases List.mem_singleton.mp hip
      cases List.mem_singleton.mp hlocal
  · intro protocol _ ip _ node_type hin
    exact absurd hin (harrow (.string protocol) node_type ip)

/-- An IP of the host under a protocol that is not known fails the load. -/
theorem not_loadsSelected :
    ¬ ∀ (local_ips : List Text) (pinglist : Yaml), Nested pinglist → LoadsSelected local_ips pinglist := by
  intro hall
  obtain ⟨records, hload, -⟩ := hall [['1']] (unknownPinglist '1') (nested_unknownPinglist '1')
  have hfails : getMyAddrFromPinglist [['1']] (some (some (unknownPinglist '1'))) = none := by
    decide +kernel
  rw [hfails] at hload
  cases hload

end Pingweave
