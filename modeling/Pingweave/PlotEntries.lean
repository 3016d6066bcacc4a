import Pingweave.Library.CollectLoop
import Pingweave.PlotTemplates

/-!
# Entries of the heatmap plotter

What step 3 writes into the templates. The map from IPs to groups is one for all protocols, and the
templates are per protocol: a group that two IPs have in common may be a group of another protocol.
-/

namespace Pingweave.HeatmapPlotter
open CollectLoop
set_option autoImplicit false

/-- `"{proto},{src},{dst}"` -/
def entryKey (proto src dst : Text) : Text := proto ++ ',' :: recordKey src dst

section Keys

theorem count_recordKey (src dst : Text) : (recordKey src dst).count ',' = src.count ',' + dst.count ',' + 1 := by
  rw [recordKey, List.count_append, List.count_cons_self, Nat.add_assoc]

theorem recordKey_inj {src dst src' dst' : Text} (hsrc : ',' ∉ src) (hdst : ',' ∉ dst)
    (h : recordKey src dst = recordKey src' dst') : src = src' ∧ dst = dst' := by
  have hcount : src'.count ',' = 0 ∧ dst'.count ',' = 0 := by
    have heq := congrArg (List.count ',') h
    rw [count_recordKey, count_recordKey, List.count_eq_zero.mpr hsrc, List.count_eq_zero.mpr hdst] at heq
    omega
  have hsplit := congrArg (List.splitOn ',') h
  rw [recordKey_splitOn hsrc hdst,
    recordKey_splitOn (List.count_eq_zero.mp hcount.1) (List.count_eq_zero.mp hcount.2)] at hsplit
  injection hsplit with hs hrest
  injection hrest with hd
  exact ⟨hs, hd⟩

theorem entryKey_splitOn {proto src dst : Text} (hproto : ',' ∉ proto) (hsrc : ',' ∉ src) (hdst : ',' ∉ dst) :
    (entryKey proto src dst).splitOn ',' = [proto, src, dst] := by
  rw [entryKey, List.splitOn_append_cons_self_of_not_mem hproto, recordKey_splitOn hsrc hdst]

theorem entryKey_inj {proto src dst proto' src' dst' : Text} (hproto : ',' ∉ proto) (hsrc : ',' ∉ src)
    (hdst : ',' ∉ dst) (h : entryKey proto src dst = entryKey proto' src' dst') :
    proto = proto' ∧ src = src' ∧ dst = dst' := by
  have hcount : proto'.count ',' = 0 ∧ src'.count ',' = 0 ∧ dst'.count ',' = 0 := by
    have heq := congrArg (List.count ',') h
    rw [entryKey, entryKey, List.count_append, List.count_append, List.count_cons_self, List.count_cons_self,
      count_recordKey, count_recordKey, List.count_eq_zero.mpr hproto, List.count_eq_zero.mpr hsrc,
      List.count_eq_zero.mpr hdst] at heq
    omega
  obtain ⟨hp, hs, hd⟩ := hcount
  have hsplit := congrArg (List.splitOn ',') h
  rw [entryKey_splitOn hproto hsrc hdst,
    entryKey_splitOn (List.count_eq_zero.mp hp) (List.count_eq_zero.mp hs) (List.count_eq_zero.mp hd)] at hsplit
  injection hsplit with hp hrest
  injection hrest with hs hrest
  injection hrest with hd
  exact ⟨hp, hs, hd⟩

end Keys

section Entries
variable {Group : Type} [DecidableEq Group]

def cell (t : Tables Group) (proto : Scalar) (group : Group) (key : Text) : Option (Option (List Text)) :=
  match Dict.at2 t.records proto group with
  | some (.template cells) => cells.lookup key
  | _ => none

/-- The entry for the pair with this key, if there is one. -/
def entryOf (redis : Redis) (proto : Scalar) (key : Text) : Option (List Text) :=
  match proto with
  | .string name => (redis.store (name ++ ',' :: key)).map (List.splitOn ',')
  | _ => none

/-- Entries of pairs with a recent time, each of which some scan returns. -/
structure RecentEntries (strptime : Text → Option DateTime) (redis : Redis) (scans : Scans) : Prop where
  scanned : ∀ key, (redis.store key).isSome = true ↔ ∃ scan ∈ scans, key ∈ scan.2
  keys : ∀ key, (redis.store key).isSome = true →
    ∃ proto ∈ pinglist_protocol, ∃ src dst, ',' ∉ src ∧ ',' ∉ dst ∧ key = entryKey proto src dst
  recent : ∀ scan ∈ scans, ∀ key ∈ scan.2, ∀ value, redis.store key = some value →
    ∃ ts measure_time, (value.splitOn ',')[1]? = some ts ∧ strptime (ts.take 26) = some measure_time ∧
      tooOld scan.1 measure_time = false

/-- Steps 2 and 3 go through and leave in every cell its entry. -/
def FillsCells (strptime : Text → Option DateTime) (redis : Redis) (scans : Scans) (mesh : Mesh Group) : Prop :=
  ∃ t, readEntries strptime redis scans (prepare mesh) = some t ∧
    ∀ proto group ip_list, Dict.at2 mesh proto group = some ip_list → ∀ src ∈ ip_list, ∀ dst ∈ ip_list,
      cell t proto group (recordKey src dst) = some (entryOf redis proto (recordKey src dst))

/-- The group of some protocol lists the IP. -/
def Listed (mesh : Mesh Group) (ip : Text) (group : Group) : Prop :=
  ∃ proto ip_list, Dict.at2 mesh proto group = some ip_list ∧ ip ∈ ip_list

/-- The key is taken for a stream, or the value for an error. -/
def Skips (redis : Redis) (key : Text) : Prop :=
  contains REDIS_STREAM_PREFIX key = true ∨ ∃ value, redis.store key = some value ∧ contains "WRONGTYPE".toList value = true

/-- Where two IPs of an entry have a group in common, its protocol is in the mesh and has them both in
that group, if it has the group. What step 3 skips belongs to no pair of a group. -/
structure EntriesFit (redis : Redis) (mesh : Mesh Group) : Prop where
  read : ∀ proto src dst, (redis.store (entryKey proto src dst)).isSome = true → ¬ Skips redis (entryKey proto src dst) →
    ∀ group, Listed mesh src group → Listed mesh dst group →
      .string proto ∈ mesh ∧
        ∀ ip_list, Dict.at2 mesh (.string proto) group = some ip_list → src ∈ ip_list ∧ dst ∈ ip_list
  skipped : ∀ proto src dst, (redis.store (entryKey proto src dst)).isSome = true →
    Skips redis (entryKey proto src dst) → ∀ group ip_list, Dict.at2 mesh (.string proto) group = some ip_list →
      src ∈ ip_list → dst ∉ ip_list

def IsPair (ip_list : List Text) (key : Text) : Prop := ∃ src ∈ ip_list, ∃ dst ∈ ip_list, key = recordKey src dst

/-! ### One group -/

/-- The tables while step 3 runs. -/
structure Filling (redis : Redis) (mesh : Mesh Group) (t : Tables Group) : Prop where
  mapped : t.map_ip_to_groups = (prepare mesh).map_ip_to_groups
  protocols : ∀ proto, proto ∈ t.records ↔ proto ∈ mesh
  absent : ∀ proto group, Dict.at2 mesh proto group = none → Dict.at2 t.records proto group = none
  present : ∀ proto group ip_list, Dict.at2 mesh proto group = some ip_list →
    ∃ cells, Dict.at2 t.records proto group = some (.template cells) ∧ ∀ key, key ∈ cells ↔ IsPair ip_list key
  values : ∀ proto group key value, cell t proto group key = some (some value) → entryOf redis proto key = some value

/-- The tables as a collector of the cells that hold an entry. -/
def cellCollector (redis : Redis) (mesh : Mesh Group) : Collector (Tables Group) (Text × Group × Text) where
  valid := Filling redis mesh
  content t := {v | ∃ value, cell t (.string v.1) v.2.1 v.2.2 = some (some value)}
  wanted := {v | (Dict.at2 mesh (.string v.1) v.2.1).isSome = true}
  bad := {v | .string v.1 ∈ mesh → ∃ ip_list, Dict.at2 mesh (.string v.1) v.2.1 = some ip_list ∧ ¬ IsPair ip_list v.2.2}

section Group
variable {redis : Redis} {mesh : Mesh Group} {t : Tables Group} {proto record_key : Text} {value_splits : List Text}
  {group : Group}

theorem insertGroup_of_notMem (h : .string proto ∉ t.records) :
    insertGroup proto record_key value_splits t group = none := by
  rw [insertGroup, AList.lookup_eq_none.mpr h]

theorem insertGroup_of_none (hmem : .string proto ∈ t.records) (h : Dict.at2 t.records (.string proto) group = none) :
    insertGroup proto record_key value_splits t group = some t := by
  obtain ⟨groups, hgroups⟩ := Option.isSome_iff_exists.mp (AList.lookup_isSome.mpr hmem)
  rw [Dict.at2, hgroups, Option.bind_some] at h
  rw [insertGroup, hgroups]
  simp only [h]

theorem insertGroup_of_template {cells : Dict Text (Option (List Text))}
    (h : Dict.at2 t.records (.string proto) group = some (.template cells)) :
    insertGroup proto record_key value_splits t group =
      if record_key ∈ cells then
        some { t with
          records := Dict.set2 t.records (.string proto) group (.template (cells.replace record_key (some value_splits))) }
      else none := by
  rw [Dict.at2, Option.bind_eq_some_iff] at h
  obtain ⟨groups, hgroups, hcells⟩ := h
  rw [insertGroup, hgroups]
  simp only [hcells]

/-- One cell holds the entry now, and the others are as they were. -/
theorem cell_set {cells : Dict Text (Option (List Text))}
    (h : Dict.at2 t.records (.string proto) group = some (.template cells)) (hkey : record_key ∈ cells)
    (proto' : Scalar) (group' : Group) (key' : Text) :
    cell { t with
        records := Dict.set2 t.records (.string proto) group (.template (cells.replace record_key (some value_splits))) }
      proto' group' key' =
      if proto' = .string proto ∧ group' = group ∧ key' = record_key then some (some value_splits)
      else cell t proto' group' key' := by
  have hthere : (Dict.at2 t.records (.string proto) group).isSome = true := by
    rw [h]
    rfl
  unfold cell
  rw [Dict.at2_set2 hthere]
  by_cases hsame : proto' = .string proto ∧ group' = group
  · obtain ⟨rfl, rfl⟩ := hsame
    rw [if_pos ⟨rfl, rfl⟩, h]
    show (cells.replace record_key (some value_splits)).lookup key' = _
    rw [Dict.lookup_replace]
    refine if_congr ?_ rfl rfl
    rw [and_iff_left hkey, and_iff_right rfl, and_iff_right rfl]
  · rw [if_neg hsame, if_neg fun hall => hsame ⟨hall.1, hall.2.1⟩]

theorem collects_insertGroup (hentry : entryOf redis (.string proto) record_key = some value_splits) :
    Collects (cellCollector redis mesh) (fun t => insertGroup proto record_key value_splits t group)
      {(proto, group, record_key)} := by
  constructor
  · rintro ⟨v, rfl, hbad⟩ t hfill
    by_cases hproto : .string proto ∈ mesh
    · obtain ⟨ip_list, hmesh, hpair⟩ := hbad hproto
      obtain ⟨cells, hcells, hkeys⟩ := hfill.present _ _ _ hmesh
      rw [insertGroup_of_template hcells, if_neg]
      rw [hkeys]
      exact hpair
    · exact insertGroup_of_notMem fun h => hproto ((hfill.protocols _).mp h)
  · intro hgood t hfill
    have hproto : .string proto ∈ mesh := by
      by_contra hnot
      exact hgood _ rfl fun h => absurd h hnot
    cases hmesh : Dict.at2 mesh (.string proto) group with
    | none =>
      refine ⟨t, insertGroup_of_none ((hfill.protocols _).mpr hproto) (hfill.absent _ _ hmesh), hfill, ?_⟩
      have hnone : ({(proto, group, record_key)} : Set (Text × Group × Text)) ∩ (cellCollector redis mesh).wanted = ∅ := by
        rw [Set.singleton_inter_eq_empty]
        intro hwanted
        have hsome : (Dict.at2 mesh (.string proto) group).isSome = true := hwanted
        rw [hmesh] at hsome
        cases hsome
      rw [hnone, Set.union_empty]
    | some ip_list =>
      have hpair : IsPair ip_list record_key := by
        by_contra hnot
        exact hgood _ rfl fun _ => ⟨ip_list, hmesh, hnot⟩
      obtain ⟨cells, hcells, hkeys⟩ := hfill.present _ _ _ hmesh
      have hkey : record_key ∈ cells := (hkeys record_key).mpr hpair
      have hthere : (Dict.at2 t.records (.string proto) group).isSome = true := by
        rw [hcells]
        rfl
      refine ⟨_, (insertGroup_of_template hcells).trans (if_pos hkey), ?_, ?_⟩
      · constructor
        · exact hfill.mapped
        · intro proto'
          rw [Dict.mem_set2]
          exact hfill.protocols proto'
        · intro proto' group' hnone
          rw [Dict.at2_set2 hthere, if_neg]
          · exact hfill.absent proto' group' hnone
          · rintro ⟨rfl, rfl⟩
            rw [hmesh] at hnone
            cases hnone
        · intro proto' group' ip_list' hmesh'
          rw [Dict.at2_set2 hthere]
          by_cases hsame : proto' = .string proto ∧ group' = group
          · obtain ⟨rfl, rfl⟩ := hsame
            cases hmesh.symm.trans hmesh'
            refine ⟨_, if_pos ⟨rfl, rfl⟩, fun key => ?_⟩
            rw [AList.mem_replace]
            exact hkeys key
          · rw [if_neg hsame]
            exact hfill.present proto' group' ip_list' hmesh'
        · intro proto' group' key' value' hcell
          rw [cell_set hcells hkey] at hcell
          split at hcell
          · rename_i hsame
            obtain ⟨rfl, rfl, rfl⟩ := hsame
            cases hcell
            exact hentry
          · exact hfill.values proto' group' key' value' hcell
      · ext ⟨proto', group', key'⟩
        show (∃ value, cell _ (.string proto') group' key' = some (some value)) ↔ _
        simp only [cell_set hcells hkey]
        by_cases hsame : proto' = proto ∧ group' = group ∧ key' = record_key
        · obtain ⟨rfl, rfl, rfl⟩ := hsame
          refine iff_of_true ⟨value_splits, if_pos ⟨rfl, rfl, rfl⟩⟩ (Or.inr ⟨rfl, ?_⟩)
          show (Dict.at2 mesh (.string proto') group').isSome = true
          rw [hmesh]
          rfl
        · have hother : ¬ (Scalar.string proto' = .string proto ∧ group' = group ∧ key' = record_key) :=
            fun h => hsame ⟨Scalar.string.inj h.1, h.2⟩
          simp only [if_neg hother]
          constructor
          · exact fun hcell => Or.inl hcell
          · rintro (hcell | ⟨heq, -⟩)
            · exact hcell
            · cases heq
              exact absurd ⟨rfl, rfl, rfl⟩ hsame

end Group

/-! ### All entries -/

section Scan
variable {strptime : Text → Option DateTime} {redis : Redis} {scans : Scans} {mesh : Mesh Group}

/-- The mesh has no empty group. -/
def NoneEmpty (mesh : Mesh Group) : Prop :=
  ∀ proto group ip_list, Dict.at2 mesh proto group = some ip_list → ip_list ≠ []

theorem reached_of_noneEmpty (hmesh : NoneEmpty mesh) {proto : Scalar} {group : Group} {ip_list : List Text}
    (h : Dict.at2 mesh proto group = some ip_list) : (proto, group) ∈ Reached mesh := by
  have hbehind : NoneBehindEmpty mesh := by
    intro proto' groups hlookup
    refine List.pairwise_of_forall_mem_list fun a ha b _ hempty => ?_
    exact absurd hempty (hmesh proto' a.1 a.2 (at2_eq_some.mpr ⟨groups, hlookup, ha⟩))
  exact noneBehindEmpty_iff.mp hbehind proto group ip_list h (hmesh proto group ip_list h)

theorem mem_groupsOf_iff (hmesh : NoneEmpty mesh) {ip : Text} {group : Group} :
    group ∈ groupsOf (prepare mesh) ip ↔ Listed mesh ip group := by
  rw [prepared_prepare.mapped]
  constructor
  · rintro ⟨proto, ip_list, h, -, hip⟩
    exact ⟨proto, ip_list, h, hip⟩
  · rintro ⟨proto, ip_list, h, hip⟩
    exact ⟨proto, ip_list, h, reached_of_noneEmpty hmesh h, hip⟩

theorem cell_prepare (hmesh : NoneEmpty mesh) {proto : Scalar} {group : Group} {key : Text} {value : Option (List Text)}
    (h : cell (prepare mesh) proto group key = some value) : value = none := by
  unfold cell at h
  cases hat : Dict.at2 mesh proto group with
  | none =>
    rw [prepared_prepare.absent proto group hat] at h
    cases h
  | some ip_list =>
    rw [prepared_prepare.filled proto group ip_list hat (reached_of_noneEmpty hmesh hat)] at h
    exact (lookup_template.mp h).1

theorem filling_prepare (redis : Redis) (hmesh : NoneEmpty mesh) : Filling redis mesh (prepare mesh) := by
  constructor
  · rfl
  · exact prepared_prepare.protocols
  · exact prepared_prepare.absent
  · intro proto group ip_list hat
    refine ⟨_, prepared_prepare.filled proto group ip_list hat (reached_of_noneEmpty hmesh hat), fun key => ?_⟩
    rw [← AList.lookup_isSome, Option.isSome_iff_exists]
    constructor
    · rintro ⟨value, hvalue⟩
      exact (lookup_template.mp hvalue).2
    · exact fun hpair => ⟨none, lookup_template.mpr ⟨rfl, hpair⟩⟩
  · intro proto group key value hcell
    cases cell_prepare hmesh hcell

/-- The cells that step 3 turns to for the key of an entry. -/
def pairVisits (mesh : Mesh Group) (proto src dst : Text) : Set (Text × Group × Text) :=
  {v | v.1 = proto ∧ v.2.2 = recordKey src dst ∧ Listed mesh src v.2.1 ∧ Listed mesh dst v.2.1}

theorem collects_insertEntry (hmesh : NoneEmpty mesh) {proto src dst : Text} (hproto : proto ∈ pinglist_protocol)
    {value_splits : List Text} (hentry : entryOf redis (.string proto) (recordKey src dst) = some value_splits) :
    Collects (cellCollector redis mesh) (fun t => insertEntry t proto src dst value_splits)
      (pairVisits mesh proto src dst) := by
  refine (collects_foldlM
    (l := (groupsOf (prepare mesh) src).filter fun group => group ∈ groupsOf (prepare mesh) dst)
    (V := fun group => {(proto, group, recordKey src dst)}) fun group _ => collects_insertGroup hentry).congr ?_ ?_
  · intro t hfill
    have hgroups (ip : Text) : groupsOf t ip = groupsOf (prepare mesh) ip := by
      rw [groupsOf, hfill.mapped]
      rfl
    rw [insertEntry, if_pos hproto, hgroups, hgroups]
  · ext ⟨proto', group', key'⟩
    constructor
    · rintro ⟨group, hgroup, heq⟩
      cases heq
      obtain ⟨hsrc, hdst⟩ := List.mem_filter.mp hgroup
      exact ⟨rfl, rfl, (mem_groupsOf_iff hmesh).mp hsrc, (mem_groupsOf_iff hmesh).mp (of_decide_eq_true hdst)⟩
    · rintro ⟨rfl, rfl, hsrc, hdst⟩
      refine ⟨group', List.mem_filter.mpr ⟨(mem_groupsOf_iff hmesh).mpr hsrc, ?_⟩, rfl⟩
      exact decide_eq_true ((mem_groupsOf_iff hmesh).mpr hdst)

theorem comma_notMem {proto : Text} (hproto : proto ∈ pinglist_protocol) : ',' ∉ proto := by
  have hall : ∀ p ∈ pinglist_protocol, ',' ∉ p := by decide
  exact hall proto hproto

def keyVisits (redis : Redis) (mesh : Mesh Group) (key : Text) : Set (Text × Group × Text) :=
  {v | ¬ Skips redis key ∧ ∃ src dst, key = entryKey v.1 src dst ∧ v ∈ pairVisits mesh v.1 src dst}

theorem collects_readKey (hmesh : NoneEmpty mesh) (hentries : RecentEntries strptime redis scans)
    {scan : DateTime × List Text} (hscan : scan ∈ scans) {key : Text} (hkey : key ∈ scan.2) :
    Collects (cellCollector redis mesh) (fun t => readKey strptime redis scan.1 t key) (keyVisits redis mesh key) := by
  have hsome : (redis.store key).isSome = true := (hentries.scanned key).mpr ⟨scan, hscan, hkey⟩
  obtain ⟨value, hvalue⟩ := Option.isSome_iff_exists.mp hsome
  by_cases hskips : Skips redis key
  · refine collects_skip.congr ?_ ?_
    · intro t _
      rw [readKey]
      by_cases hstream : contains REDIS_STREAM_PREFIX key = true
      · rw [if_pos hstream]
      · rcases hskips with h | ⟨value', hvalue', hwrong⟩
        · exact absurd h hstream
        · cases hvalue.symm.trans hvalue'
          rw [if_neg hstream, hvalue]
          exact if_pos hwrong
    · ext v
      exact iff_of_false (Set.notMem_empty v) fun hv => hv.1 hskips
  · obtain ⟨hstream, hnone⟩ := not_or.mp hskips
    have hwrong : ¬ contains "WRONGTYPE".toList value = true := fun h => hnone ⟨value, hvalue, h⟩
    obtain ⟨proto, hproto, src, dst, hsrc, hdst, rfl⟩ := hentries.keys key hsome
    obtain ⟨ts, measure_time, hts, htime, hrecent⟩ := hentries.recent scan hscan _ hkey value hvalue
    have hentry : entryOf redis (.string proto) (recordKey src dst) = some (value.splitOn ',') := by
      show (redis.store (entryKey proto src dst)).map (List.splitOn ',') = _
      rw [hvalue, Option.map_some]
    refine (collects_insertEntry hmesh hproto hentry).congr ?_ ?_
    · intro t _
      rw [readKey, if_neg hstream, hvalue]
      simp only [if_neg hwrong, hts, htime, hrecent, entryKey_splitOn (comma_notMem hproto) hsrc hdst]
      rfl
    · ext v
      constructor
      · rintro ⟨hv, hrest⟩
        exact ⟨hskips, src, dst, by rw [hv], rfl, hrest⟩
      · rintro ⟨-, src', dst', heq, -, hrest⟩
        obtain ⟨hp, rfl, rfl⟩ := entryKey_inj (comma_notMem hproto) hsrc hdst heq
        exact ⟨hp.symm, hrest⟩

def scanVisits (redis : Redis) (mesh : Mesh Group) (scans : Scans) : Set (Text × Group × Text) :=
  {v | ∃ scan ∈ scans, ∃ key ∈ scan.2, v ∈ keyVisits redis mesh key}

theorem collects_readEntries (hmesh : NoneEmpty mesh) (hentries : RecentEntries strptime redis scans) :
    Collects (cellCollector redis mesh) (readEntries strptime redis scans) (scanVisits redis mesh scans) := by
  have hscans : ∀ scan ∈ scans, Collects (cellCollector redis mesh)
      (fun t => scan.2.foldlM (readKey strptime redis scan.1) t) {v | ∃ key ∈ scan.2, v ∈ keyVisits redis mesh key} :=
    fun scan hscan => collects_foldlM fun key hkey => collects_readKey hmesh hentries hscan hkey
  exact collects_foldlM hscans

theorem mem_scanVisits (hentries : RecentEntries strptime redis scans) {proto key : Text} {group : Group} :
    (proto, group, key) ∈ scanVisits redis mesh scans ↔
      ∃ src dst, key = recordKey src dst ∧ (redis.store (entryKey proto src dst)).isSome = true ∧
        ¬ Skips redis (entryKey proto src dst) ∧ Listed mesh src group ∧ Listed mesh dst group := by
  constructor
  · rintro ⟨scan, hscan, key', hkey, hskips, src, dst, rfl, -, rfl, hsrc, hdst⟩
    exact ⟨src, dst, rfl, (hentries.scanned _).mpr ⟨scan, hscan, hkey⟩, hskips, hsrc, hdst⟩
  · rintro ⟨src, dst, rfl, hsome, hskips, hsrc, hdst⟩
    obtain ⟨scan, hscan, hkey⟩ := (hentries.scanned _).mp hsome
    exact ⟨scan, hscan, _, hkey, hskips, src, dst, rfl, rfl, rfl, hsrc, hdst⟩

/-- The key of an entry is one of a pair of IPs in one way only. -/
theorem commas_of_entry (hentries : RecentEntries strptime redis scans) {proto src dst : Text}
    (hsome : (redis.store (entryKey proto src dst)).isSome = true) : ',' ∉ src ∧ ',' ∉ dst := by
  obtain ⟨proto', hproto, src', dst', hsrc, hdst, heq⟩ := hentries.keys _ hsome
  obtain ⟨-, rfl, rfl⟩ := entryKey_inj (comma_notMem hproto) hsrc hdst heq.symm
  exact ⟨hsrc, hdst⟩

theorem entriesFit_of_fillsCells (hmesh : NoneEmpty mesh) (hentries : RecentEntries strptime redis scans)
    (h : FillsCells strptime redis scans mesh) : EntriesFit redis mesh := by
  obtain ⟨t, hread, hcells⟩ := h
  have hcollects := collects_readEntries hmesh hentries
  have hfill := filling_prepare redis hmesh
  constructor
  · intro proto src dst hsome hskips group hsrc hdst
    have hgood : ∀ v ∈ scanVisits redis mesh scans, v ∉ (cellCollector redis mesh).bad := by
      rw [← hcollects.isSome_iff hfill, hread]
      rfl
    have hvisited : (proto, group, recordKey src dst) ∈ scanVisits redis mesh scans :=
      (mem_scanVisits hentries).mpr ⟨src, dst, rfl, hsome, hskips, hsrc, hdst⟩
    have hnot := hgood _ hvisited
    have hproto : .string proto ∈ mesh := by
      by_contra hproto
      exact hnot fun h => absurd h hproto
    refine ⟨hproto, fun ip_list hat => ?_⟩
    obtain ⟨s, hs, d, hd, heq⟩ : IsPair ip_list (recordKey src dst) := by
      by_contra hpair
      exact hnot fun _ => ⟨ip_list, hat, hpair⟩
    obtain ⟨hsrc', hdst'⟩ := commas_of_entry hentries hsome
    obtain ⟨rfl, rfl⟩ := recordKey_inj hsrc' hdst' heq
    exact ⟨hs, hd⟩
  · intro proto src dst hsome hskips group ip_list hat hsrc hdst
    obtain ⟨value, hvalue⟩ := Option.isSome_iff_exists.mp hsome
    have hentry : entryOf redis (.string proto) (recordKey src dst) = some (value.splitOn ',') := by
      show (redis.store (entryKey proto src dst)).map (List.splitOn ',') = _
      rw [hvalue, Option.map_some]
    have hcell := hcells (.string proto) group ip_list hat src hsrc dst hdst
    rw [hentry] at hcell
    have hcontent : (proto, group, recordKey src dst) ∈ (cellCollector redis mesh).content t := ⟨_, hcell⟩
    rw [hcollects.content_eq hfill hread] at hcontent
    rcases hcontent with ⟨value', hbefore⟩ | ⟨hvisited, -⟩
    · cases cell_prepare hmesh hbefore
    · obtain ⟨src', dst', heq, -, hread', -⟩ := (mem_scanVisits hentries).mp hvisited
      rw [entryKey, ← heq] at hread'
      exact hread' hskips

theorem fillsCells_of_entriesFit (hmesh : NoneEmpty mesh) (hentries : RecentEntries strptime redis scans)
    (h : EntriesFit redis mesh) : FillsCells strptime redis scans mesh := by
  have hcollects := collects_readEntries hmesh hentries
  have hgood : ∀ v ∈ scanVisits redis mesh scans, v ∉ (cellCollector redis mesh).bad := by
    rintro ⟨proto, group, key⟩ hvisited hbad
    obtain ⟨src, dst, rfl, hsome, hskips, hsrc, hdst⟩ := (mem_scanVisits hentries).mp hvisited
    obtain ⟨hproto, hmembers⟩ := h.read proto src dst hsome hskips group hsrc hdst
    obtain ⟨ip_list, hat, hpair⟩ := hbad hproto
    obtain ⟨hs, hd⟩ := hmembers ip_list hat
    exact hpair ⟨src, hs, dst, hd, rfl⟩
  obtain ⟨t, hread, hfill, hcontent⟩ := hcollects.adds hgood (prepare mesh) (filling_prepare redis hmesh)
  refine ⟨t, hread, fun proto group ip_list hat src hsrc dst hdst => ?_⟩
  obtain ⟨cells, hcells, hkeys⟩ := hfill.present proto group ip_list hat
  have hthere : recordKey src dst ∈ cells := (hkeys _).mpr ⟨src, hsrc, dst, hdst, rfl⟩
  obtain ⟨value, hvalue⟩ := Option.isSome_iff_exists.mp (AList.lookup_isSome.mpr hthere)
  have hcell : cell t proto group (recordKey src dst) = some value := by
    rw [cell, hcells]
    exact hvalue
  rw [hcell]
  cases value with
  | some entry => rw [hfill.values proto group _ entry hcell]
  | none =>
    -- an entry that was there would have been written
    cases hentry : entryOf redis proto (recordKey src dst) with
    | none => rfl
    | some entry =>
      exfalso
      cases proto with
      | string name =>
        have hsome : (redis.store (entryKey name src dst)).isSome = true := by
          obtain ⟨value, hvalue, -⟩ := Option.map_eq_some_iff.mp hentry
          exact Option.isSome_iff_exists.mpr ⟨value, hvalue⟩
        have hskips : ¬ Skips redis (entryKey name src dst) :=
          fun hskips => h.skipped name src dst hsome hskips group ip_list hat hsrc hdst
        have hvisited : (name, group, recordKey src dst) ∈ scanVisits redis mesh scans :=
          (mem_scanVisits hentries).mpr
            ⟨src, dst, rfl, hsome, hskips, ⟨_, ip_list, hat, hsrc⟩, ⟨_, ip_list, hat, hdst⟩⟩
        have hwanted : (name, group, recordKey src dst) ∈ (cellCollector redis mesh).wanted :=
          Option.isSome_iff_exists.mpr ⟨ip_list, hat⟩
        obtain ⟨written, hwritten⟩ : (name, group, recordKey src dst) ∈ (cellCollector redis mesh).content t := by
          rw [hcontent]
          exact Or.inr ⟨hvisited, hwanted⟩
        rw [hcell] at hwritten
        cases hwritten
      | _ => cases hentry

end Scan

/-- Steps 2 and 3 fill the cells of every pair with its entry exactly if the entries fit the mesh. -/
theorem fillsCells_iff (strptime : Text → Option DateTime) (redis : Redis) (scans : Scans) (mesh : Mesh Group)
    (hmesh : NoneEmpty mesh) (hentries : RecentEntries strptime redis scans) :
    FillsCells strptime redis scans mesh ↔ EntriesFit redis mesh := by
  constructor
  · exact entriesFit_of_fillsCells hmesh hentries
  · exact fillsCells_of_entriesFit hmesh hentries

end Entries

/-! ### One entry -/

def measuredAt : Text := "2024-11-25 10:00:00.000000".toList

def entryValue : Text := "0,".toList ++ measuredAt

def measureTime : DateTime := 63868125600000000

def oneEntry (key : Text) : Redis := ⟨fun k => if k = key then some entryValue else none, []⟩

theorem oneEntry_store (key k : Text) : (oneEntry key).store k = if k = key then some entryValue else none := rfl

theorem oneEntry_isSome {key k : Text} (h : ((oneEntry key).store k).isSome = true) : k = key := by
  by_contra hne
  rw [oneEntry_store, if_neg hne] at h
  cases h

theorem recentEntries_oneEntry {proto src dst : Text} (hproto : proto ∈ pinglist_protocol) (hsrc : ',' ∉ src)
    (hdst : ',' ∉ dst) :
    RecentEntries strptimeMicros (oneEntry (entryKey proto src dst)) [(measureTime, [entryKey proto src dst])] := by
  constructor
  · intro key
    constructor
    · intro hsome
      exact ⟨_, List.mem_singleton_self _, List.mem_singleton.mpr (oneEntry_isSome hsome)⟩
    · rintro ⟨scan, hscan, hkey⟩
      cases List.mem_singleton.mp hscan
      cases List.mem_singleton.mp hkey
      rw [oneEntry_store, if_pos rfl]
      rfl
  · intro key hsome
    exact ⟨proto, hproto, src, dst, hsrc, hdst, oneEntry_isSome hsome⟩
  · intro scan hscan key hkey value hvalue
    cases List.mem_singleton.mp hscan
    cases List.mem_singleton.mp hkey
    rw [oneEntry_store, if_pos rfl] at hvalue
    cases hvalue
    have hrecent : tooOld measureTime measureTime = false := by decide
    exact ⟨measuredAt, measureTime, by decide +kernel, by decide +kernel, hrecent⟩

def pairGroups : Dict Text (List Text) := AList.singleton groupA [['1'], ['2']]

def otherGroups : Dict Text (List Text) := AList.singleton groupA [['1'], ['3']]

/-- The group of TCP has the IPs 1 and 2, the one of UDP with the same name has 1 and 3. -/
def twoProtocols : Mesh Text :=
  ⟨[⟨.string "tcp".toList, pairGroups⟩, ⟨.string "udp".toList, otherGroups⟩], by
    rw [List.NodupKeys]
    decide⟩

theorem fillsCells_iff_pair :
    FillsCells strptimeMicros (oneEntry (entryKey "tcp".toList ['1'] ['2']))
      [(measureTime, [entryKey "tcp".toList ['1'] ['2']])] (oneProtocol "tcp".toList pairGroups) := by
  refine (fillsCells_iff strptimeMicros (oneEntry (entryKey "tcp".toList ['1'] ['2']))
    [(measureTime, [entryKey "tcp".toList ['1'] ['2']])] (oneProtocol "tcp".toList pairGroups) ?_
    (recentEntries_oneEntry (by decide) (by decide) (by decide))).mpr ?_
  · intro proto group ip_list hat
    obtain ⟨groups, hlookup, hmem⟩ := at2_eq_some.mp hat
    obtain ⟨-, rfl⟩ := lookup_oneProtocol hlookup
    cases List.mem_singleton.mp hmem
    decide
  · constructor
    · intro proto src dst hsome hskips group hsrc hdst
      obtain ⟨rfl, rfl, rfl⟩ := entryKey_inj (by decide) (by decide) (by decide) (oneEntry_isSome hsome).symm
      refine ⟨by decide, fun ip_list hat => ?_⟩
      obtain ⟨groups, hlookup, hmem⟩ := at2_eq_some.mp hat
      obtain ⟨-, rfl⟩ := lookup_oneProtocol hlookup
      cases List.mem_singleton.mp hmem
      exact ⟨by decide, by decide⟩
    · intro proto src dst hsome hskips
      obtain ⟨rfl, rfl, rfl⟩ := entryKey_inj (by decide) (by decide) (by decide) (oneEntry_isSome hsome).symm
      exfalso
      rcases hskips with hstream | ⟨value, hvalue, hwrong⟩
      · exact absurd hstream (by decide +kernel)
      · rw [oneEntry_store, if_pos rfl] at hvalue
        cases hvalue
        exact absurd hwrong (by decide +kernel)

/-- The IPs of a UDP entry have the group of TCP in common. -/
theorem not_fillsCells :
    ¬ ∀ (strptime : Text → Option DateTime) (redis : Redis) (scans : Scans) (mesh : Mesh Text),
      NoneEmpty mesh → RecentEntries strptime redis scans → FillsCells strptime redis scans mesh := by
  intro hall
  have hmesh : NoneEmpty twoProtocols := by
    intro proto group ip_list hat
    obtain ⟨groups, hlookup, hmem⟩ := at2_eq_some.mp hat
    rcases List.mem_pair.mp (Dict.mem_entries_iff.mpr hlookup) with heq | heq
    · cases heq
      cases List.mem_singleton.mp hmem
      decide
    · cases heq
      cases List.mem_singleton.mp hmem
      decide
  obtain ⟨t, hread, -⟩ := hall strptimeMicros (oneEntry (entryKey "udp".toList ['1'] ['2']))
    [(measureTime, [entryKey "udp".toList ['1'] ['2']])] twoProtocols hmesh
    (recentEntries_oneEntry (by decide) (by decide) (by decide))
  have hraises : (readEntries strptimeMicros (oneEntry (entryKey "udp".toList ['1'] ['2']))
      [(measureTime, [entryKey "udp".toList ['1'] ['2']])] (prepare twoProtocols)).isSome = false := by
    decide +kernel
  rw [hread] at hraises
  cases hraises

end Pingweave.HeatmapPlotter
