import Mathlib.Data.Set.Insert
import Pingweave.PlotRecords

/-!
# Templates of the heatmap plotter

What step 2 leaves in the tables. The loop over the groups of a protocol ends at the first empty
one, so that every group behind it keeps its list.
-/

namespace Pingweave.HeatmapPlotter
set_option autoImplicit false

section Prefix
variable {Group : Type}

/-- The groups of `l` that the loop comes to. -/
def reachedOf (proto : Scalar) (l : List ((_ : Group) × List Text)) : Set (Scalar × Group) :=
  {k | k.1 = proto ∧ ∃ ip_list, ⟨k.2, ip_list⟩ ∈ l.takeWhile fun e => e.2 ≠ []}

theorem reachedOf_of_empty {proto : Scalar} {e : (_ : Group) × List Text} (hempty : e.2 = [])
    (rest : List ((_ : Group) × List Text)) : reachedOf proto (e :: rest) = ∅ := by
  rw [reachedOf, List.takeWhile_cons_of_neg (by simpa using hempty)]
  ext k
  refine iff_of_false ?_ (Set.notMem_empty k)
  rintro ⟨-, ip_list, hmem⟩
  cases hmem

theorem reachedOf_cons {proto : Scalar} {e : (_ : Group) × List Text} (hempty : e.2 ≠ [])
    (rest : List ((_ : Group) × List Text)) :
    reachedOf proto (e :: rest) = insert (proto, e.1) (reachedOf proto rest) := by
  rw [reachedOf, List.takeWhile_cons_of_pos (by simpa using hempty)]
  ext ⟨proto', group⟩
  constructor
  · rintro ⟨rfl, ip_list, hmem⟩
    rcases List.mem_cons.mp hmem with rfl | hrest
    · exact Or.inl rfl
    · exact Or.inr ⟨rfl, ip_list, hrest⟩
  · rintro (heq | ⟨rfl, ip_list, hrest⟩)
    · cases heq
      exact ⟨rfl, e.2, List.mem_cons_self⟩
    · exact ⟨rfl, ip_list, List.mem_cons_of_mem _ hrest⟩

/-- Every group that is not empty is reached if none of them stands behind an empty one. -/
theorem mem_takeWhile_iff {l : List ((_ : Group) × List Text)} (hnodup : l.Nodup) :
    (l.Pairwise fun a b => a.2 = [] → b.2 = []) ↔ ∀ e ∈ l, e.2 ≠ [] → e ∈ l.takeWhile fun e => e.2 ≠ [] := by
  induction l with
  | nil => exact iff_of_true List.Pairwise.nil fun e he => nomatch he
  | cons a l ih =>
    obtain ⟨hnotMem, hrest⟩ := List.nodup_cons.mp hnodup
    rw [List.pairwise_cons]
    by_cases hempty : a.2 = []
    · rw [List.takeWhile_cons_of_neg (by simpa using hempty)]
      constructor
      · rintro ⟨hhead, -⟩ e he hne
        rcases List.mem_cons.mp he with rfl | he
        · exact absurd hempty hne
        · exact absurd (hhead e he hempty) hne
      · intro hall
        have hempties : ∀ b ∈ l, b.2 = [] := by
          intro b hb
          by_contra hne
          exact List.not_mem_nil (hall b (List.mem_cons_of_mem a hb) hne)
        exact ⟨fun b hb _ => hempties b hb, List.pairwise_of_forall_mem_list fun _ _ b hb _ => hempties b hb⟩
    · rw [List.takeWhile_cons_of_pos (by simpa using hempty), and_iff_right fun b _ h => absurd h hempty, ih hrest]
      constructor
      · intro hall e he hne
        rcases List.mem_cons.mp he with rfl | he
        · exact List.mem_cons_self
        · exact List.mem_cons_of_mem a (hall e he hne)
      · intro hall e he hne
        rcases List.mem_cons.mp (hall e (List.mem_cons_of_mem a he) hne) with rfl | hmem
        · exact absurd he hnotMem
        · exact hmem

end Prefix

section Step2
variable {Group : Type} [DecidableEq Group] {mesh : Mesh Group}

/-- The groups that step 2 comes to. -/
def Reached (mesh : Mesh Group) : Set (Scalar × Group) :=
  {k | ∃ groups ip_list, mesh.lookup k.1 = some groups ∧
    ⟨k.2, ip_list⟩ ∈ groups.entries.takeWhile fun e => e.2 ≠ []}

/-- No group that is not empty stands behind an empty one of the same protocol. -/
def NoneBehindEmpty (mesh : Mesh Group) : Prop :=
  ∀ proto groups, mesh.lookup proto = some groups →
    groups.entries.Pairwise fun a b => a.2 = [] → b.2 = []

/-- The tables after the groups `done`. -/
structure Prepared (mesh : Mesh Group) (done : Set (Scalar × Group)) (t : Tables Group) : Prop where
  protocols : ∀ proto, proto ∈ t.records ↔ proto ∈ mesh
  absent : ∀ proto group, Dict.at2 mesh proto group = none → Dict.at2 t.records proto group = none
  copied : ∀ proto group ip_list, Dict.at2 mesh proto group = some ip_list → (proto, group) ∉ done →
    Dict.at2 t.records proto group = some (.raw ip_list)
  filled : ∀ proto group ip_list, Dict.at2 mesh proto group = some ip_list → (proto, group) ∈ done →
    Dict.at2 t.records proto group = some (template ip_list)
  mapped : ∀ ip group, group ∈ groupsOf t ip ↔
    ∃ proto ip_list, Dict.at2 mesh proto group = some ip_list ∧ (proto, group) ∈ done ∧ ip ∈ ip_list

theorem at2_eq_some {proto : Scalar} {group : Group} {ip_list : List Text} :
    Dict.at2 mesh proto group = some ip_list ↔
      ∃ groups, mesh.lookup proto = some groups ∧ ⟨group, ip_list⟩ ∈ groups.entries := by
  rw [Dict.at2, Option.bind_eq_some_iff]
  simp only [Dict.mem_entries_iff]

theorem prepared_copy : Prepared mesh ∅ ⟨Dict.mapValues (Dict.mapValues .raw) mesh, ∅⟩ := by
  have hat (proto : Scalar) (group : Group) :
      Dict.at2 (Dict.mapValues (Dict.mapValues GroupData.raw) mesh) proto group =
        (Dict.at2 mesh proto group).map .raw := by
    unfold Dict.at2
    rw [Dict.lookup_mapValues]
    cases mesh.lookup proto with
    | none => rfl
    | some groups => exact Dict.lookup_mapValues _ _ _
  constructor
  · intro proto
    rw [← AList.lookup_isSome, Dict.lookup_mapValues, Option.isSome_map, AList.lookup_isSome]
  · intro proto group hnone
    rw [hat, hnone, Option.map_none]
  · intro proto group ip_list hmesh _
    rw [hat, hmesh, Option.map_some]
  · intro proto group ip_list _ hdone
    exact absurd hdone (Set.notMem_empty _)
  · intro ip group
    refine iff_of_false List.not_mem_nil ?_
    rintro ⟨proto, ip_list, -, hdone, -⟩
    exact Set.notMem_empty _ hdone

theorem mem_groupsOf_addGroup (t : Tables Group) (group group' : Group) (ip ip' : Text) :
    group' ∈ groupsOf (addGroup group t ip) ip' ↔ group' ∈ groupsOf t ip' ∨ group' = group ∧ ip' = ip := by
  unfold addGroup groupsOf
  by_cases hip : ip' = ip
  · subst hip
    rw [AList.lookup_insert, Option.getD_some, List.mem_insert_iff, or_comm, and_iff_left rfl]
  · rw [AList.lookup_insert_ne hip]
    exact (or_iff_left fun h => hip h.2).symm

theorem mem_groupsOf_addGroups (t : Tables Group) (group group' : Group) (ips : List Text) (ip' : Text) :
    group' ∈ groupsOf (ips.foldl (addGroup group) t) ip' ↔ group' ∈ groupsOf t ip' ∨ group' = group ∧ ip' ∈ ips := by
  induction ips generalizing t with
  | nil =>
    refine (or_iff_left ?_).symm
    rintro ⟨-, hmem⟩
    cases hmem
  | cons ip ips ih =>
    rw [List.foldl_cons, ih, mem_groupsOf_addGroup, List.mem_cons, or_assoc, ← and_or_left]

theorem addGroups_records (t : Tables Group) (group : Group) (ips : List Text) :
    (ips.foldl (addGroup group) t).records = t.records := by
  induction ips generalizing t with
  | nil => rfl
  | cons ip ips ih => exact ih (addGroup group t ip)

theorem prepared_prepareGroup {done : Set (Scalar × Group)} {t : Tables Group} (hprep : Prepared mesh done t)
    {proto : Scalar} {group : Group} {ip_list : List Text} (hmesh : Dict.at2 mesh proto group = some ip_list) :
    Prepared mesh (insert (proto, group) done) (prepareGroup proto t group ip_list) := by
  have hrecords : (prepareGroup proto t group ip_list).records =
      Dict.set2 t.records proto group (template ip_list) := addGroups_records _ _ _
  have hthere : (Dict.at2 t.records proto group).isSome = true := by
    by_cases hdone : (proto, group) ∈ done
    · rw [hprep.filled proto group ip_list hmesh hdone]
      rfl
    · rw [hprep.copied proto group ip_list hmesh hdone]
      rfl
  have hat (proto' : Scalar) (group' : Group) :
      Dict.at2 (prepareGroup proto t group ip_list).records proto' group' =
        if proto' = proto ∧ group' = group then some (template ip_list) else Dict.at2 t.records proto' group' := by
    rw [hrecords]
    exact Dict.at2_set2 hthere proto' group' (template ip_list)
  constructor
  · intro proto'
    rw [hrecords, Dict.mem_set2]
    exact hprep.protocols proto'
  · intro proto' group' hnone
    rw [hat, if_neg]
    · exact hprep.absent proto' group' hnone
    · rintro ⟨rfl, rfl⟩
      rw [hmesh] at hnone
      cases hnone
  · intro proto' group' ip_list' hmesh' hdone
    rw [hat, if_neg]
    · exact hprep.copied proto' group' ip_list' hmesh' fun h => hdone (Set.mem_insert_of_mem _ h)
    · rintro ⟨rfl, rfl⟩
      exact hdone (Set.mem_insert _ _)
  · intro proto' group' ip_list' hmesh' hdone
    rw [hat]
    by_cases hsame : proto' = proto ∧ group' = group
    · obtain ⟨rfl, rfl⟩ := hsame
      rw [hmesh] at hmesh'
      cases hmesh'
      exact if_pos ⟨rfl, rfl⟩
    · rw [if_neg hsame]
      rcases hdone with heq | hdone
      · cases heq
        exact absurd ⟨rfl, rfl⟩ hsame
      · exact hprep.filled proto' group' ip_list' hmesh' hdone
  · intro ip group'
    have hgroups : group' ∈ groupsOf (prepareGroup proto t group ip_list) ip ↔
        group' ∈ groupsOf t ip ∨ group' = group ∧ ip ∈ ip_list := mem_groupsOf_addGroups _ _ _ _ _
    rw [hgroups, hprep.mapped]
    constructor
    · rintro (⟨proto', ip_list', hmesh', hdone, hip⟩ | ⟨rfl, hip⟩)
      · exact ⟨proto', ip_list', hmesh', Set.mem_insert_of_mem _ hdone, hip⟩
      · exact ⟨proto, ip_list, hmesh, Set.mem_insert _ _, hip⟩
    · rintro ⟨proto', ip_list', hmesh', heq | hdone, hip⟩
      · cases heq
        rw [hmesh] at hmesh'
        cases hmesh'
        exact Or.inr ⟨rfl, hip⟩
      · exact Or.inl ⟨proto', ip_list', hmesh', hdone, hip⟩

theorem prepared_prepareGroups {done : Set (Scalar × Group)} {t : Tables Group} (hprep : Prepared mesh done t)
    {proto : Scalar} {l : List ((_ : Group) × List Text)} (hmesh : ∀ e ∈ l, Dict.at2 mesh proto e.1 = some e.2) :
    Prepared mesh (done ∪ reachedOf proto l) (prepareGroups proto t l) := by
  induction l generalizing done t with
  | nil =>
    have hnone : reachedOf proto ([] : List ((_ : Group) × List Text)) = ∅ := by
      ext k
      simp [reachedOf]
    rw [hnone, Set.union_empty]
    exact hprep
  | cons e rest ih =>
    obtain ⟨hhead, hrest⟩ := List.forall_mem_cons.mp hmesh
    by_cases hempty : e.2 = []
    · rw [reachedOf_of_empty hempty, Set.union_empty, prepareGroups, if_pos hempty]
      exact hprep
    · rw [reachedOf_cons hempty, prepareGroups, if_neg hempty, Set.union_insert, ← Set.insert_union]
      exact ih (prepared_prepareGroup hprep hhead) hrest

theorem prepared_foldl {done : Set (Scalar × Group)} {t : Tables Group} (hprep : Prepared mesh done t)
    {l : List ((_ : Scalar) × Dict Group (List Text))} (hmesh : ∀ e ∈ l, mesh.lookup e.1 = some e.2) :
    Prepared mesh (done ∪ {k | ∃ e ∈ l, k ∈ reachedOf e.1 e.2.entries})
      (l.foldl (fun t e => prepareGroups e.1 t e.2.entries) t) := by
  induction l generalizing done t with
  | nil =>
    have hnone : {k : Scalar × Group | ∃ e ∈ ([] : List ((_ : Scalar) × Dict Group (List Text))),
        k ∈ reachedOf e.1 e.2.entries} = ∅ := by
      ext k
      simp
    rw [hnone, Set.union_empty]
    exact hprep
  | cons e l ih =>
    obtain ⟨hhead, hrest⟩ := List.forall_mem_cons.mp hmesh
    have hunion : {k | ∃ e' ∈ e :: l, k ∈ reachedOf e'.1 e'.2.entries} =
        reachedOf e.1 e.2.entries ∪ {k | ∃ e' ∈ l, k ∈ reachedOf e'.1 e'.2.entries} := by
      ext k
      simp
    rw [hunion, ← Set.union_assoc, List.foldl_cons]
    refine ih (prepared_prepareGroups hprep fun g hg => ?_) hrest
    exact at2_eq_some.mpr ⟨e.2, hhead, hg⟩

/-- Step 2 fills the groups that it comes to and leaves the others as they were copied. -/
theorem prepared_prepare : Prepared mesh (Reached mesh) (prepare mesh) := by
  have hreached : ∅ ∪ {k | ∃ e ∈ mesh.entries, k ∈ reachedOf e.1 e.2.entries} = Reached mesh := by
    rw [Set.empty_union]
    ext k
    constructor
    · rintro ⟨e, he, heq, ip_list, hmem⟩
      exact ⟨e.2, ip_list, heq ▸ Dict.mem_entries_iff.mp he, hmem⟩
    · rintro ⟨groups, ip_list, hlookup, hmem⟩
      exact ⟨⟨k.1, groups⟩, Dict.mem_entries_iff.mpr hlookup, rfl, ip_list, hmem⟩
  rw [← hreached]
  exact prepared_foldl prepared_copy fun e he => Dict.mem_entries_iff.mp he

theorem mem_reached_iff {proto : Scalar} {groups : Dict Group (List Text)} (hlookup : mesh.lookup proto = some groups)
    {group : Group} {ip_list : List Text} (hmem : ⟨group, ip_list⟩ ∈ groups.entries) :
    (proto, group) ∈ Reached mesh ↔ ⟨group, ip_list⟩ ∈ groups.entries.takeWhile fun e => e.2 ≠ [] := by
  constructor
  · rintro ⟨groups', ip_list', hlookup', htake⟩
    cases hlookup.symm.trans hlookup'
    have hmem' : ⟨group, ip_list'⟩ ∈ groups.entries := (List.takeWhile_prefix _).subset htake
    rw [Dict.mem_entries_iff] at hmem hmem'
    cases hmem.symm.trans hmem'
    exact htake
  · exact fun htake => ⟨groups, ip_list, hlookup, htake⟩

theorem ne_nil_of_reached {proto : Scalar} {group : Group} {ip_list : List Text}
    (hmesh : Dict.at2 mesh proto group = some ip_list) (hreached : (proto, group) ∈ Reached mesh) : ip_list ≠ [] := by
  obtain ⟨groups, hlookup, hmem⟩ := at2_eq_some.mp hmesh
  have htake := List.mem_takeWhile_imp ((mem_reached_iff hlookup hmem).mp hreached)
  exact of_decide_eq_true htake

theorem noneBehindEmpty_iff : NoneBehindEmpty mesh ↔
    ∀ proto group ip_list, Dict.at2 mesh proto group = some ip_list → ip_list ≠ [] → (proto, group) ∈ Reached mesh := by
  constructor
  · intro hnone proto group ip_list hmesh hne
    obtain ⟨groups, hlookup, hmem⟩ := at2_eq_some.mp hmesh
    rw [mem_reached_iff hlookup hmem]
    exact (mem_takeWhile_iff groups.nodupKeys.nodup).mp (hnone proto groups hlookup) _ hmem hne
  · intro hreached proto groups hlookup
    rw [mem_takeWhile_iff groups.nodupKeys.nodup]
    rintro ⟨group, ip_list⟩ hmem hne
    rw [← mem_reached_iff hlookup hmem]
    exact hreached proto group ip_list (at2_eq_some.mpr ⟨groups, hlookup, hmem⟩) hne

end Step2

/-! ### Empty groups -/

section Plots
variable {Group : Type}

section Groups
variable {plotHeatmapValue : PlotType → List PingRecord → Text → Text → Text} {str : Group → Text}

theorem processProtocolGroup_isSome {protocol : Scalar} {group : Group} {data : GroupData}
    (h : ∀ name plot_type, (plotHeatmap plotHeatmapValue data name plot_type).isSome = true) :
    (processProtocolGroup plotHeatmapValue str protocol group data).isSome = true := by
  unfold processProtocolGroup
  split
  · split
    · exact h _ _
    · rfl
  · rfl

theorem processProtocolGroup_empty (protocol : Scalar) (group : Group) :
    processProtocolGroup plotHeatmapValue str protocol group (.raw []) = some [] := by
  unfold processProtocolGroup
  split
  · split
    · rfl
    · rfl
  · rfl

end Groups

variable [DecidableEq Group]

/-- Every group has its template and its IPs, and step 4 plots every group and none for an empty one. -/
structure EmptyGroupsHarmless (mesh : Mesh Group) : Prop where
  templates : ∀ proto group ip_list, Dict.at2 mesh proto group = some ip_list → ip_list ≠ [] →
    ∃ cells, Dict.at2 (prepare mesh).records proto group = some (.template cells) ∧
      ∀ key value, cells.lookup key = some value ↔
        value = none ∧ ∃ src ∈ ip_list, ∃ dst ∈ ip_list, key = recordKey src dst
  mapped : ∀ proto group ip_list, Dict.at2 mesh proto group = some ip_list → ∀ ip ∈ ip_list,
    group ∈ groupsOf (prepare mesh) ip
  plots : ∀ plotHeatmapValue str, (plot plotHeatmapValue str (prepare mesh)).isSome = true
  empty : ∀ plotHeatmapValue str proto group data, Dict.at2 mesh proto group = some [] →
    Dict.at2 (prepare mesh).records proto group = some data →
    processProtocolGroup plotHeatmapValue str proto group data = some []

/-- The IPs are texts that `prepare_record` finds again in a key. -/
def NoCommas (mesh : Mesh Group) : Prop :=
  ∀ proto group ip_list, Dict.at2 mesh proto group = some ip_list → ∀ ip ∈ ip_list, ',' ∉ ip

theorem recordKey_splitOn {src dst : Text} (hsrc : ',' ∉ src) (hdst : ',' ∉ dst) :
    (recordKey src dst).splitOn ',' = [src, dst] := by
  rw [recordKey, List.splitOn_append_cons_self_of_not_mem hsrc, List.splitOn_eq_singleton hdst]

theorem lookup_template {ip_list : List Text} {key : Text} {value : Option (List Text)} :
    (Dict.ofKeys (none : Option (List Text))
        (ip_list.flatMap fun src => ip_list.map fun dst => recordKey src dst)).lookup key = some value ↔
      value = none ∧ ∃ src ∈ ip_list, ∃ dst ∈ ip_list, key = recordKey src dst := by
  rw [Dict.lookup_ofKeys_eq_some, and_comm]
  refine and_congr_right fun _ => ?_
  constructor
  · intro hmem
    obtain ⟨src, hsrc, hmem⟩ := List.mem_flatMap.mp hmem
    obtain ⟨dst, hdst, rfl⟩ := List.mem_map.mp hmem
    exact ⟨src, hsrc, dst, hdst, rfl⟩
  · rintro ⟨src, hsrc, dst, hdst, rfl⟩
    exact List.mem_flatMap.mpr ⟨src, hsrc, List.mem_map.mpr ⟨dst, hdst, rfl⟩⟩

theorem mapM_isSome {α β : Type} {f : α → Option β} {l : List α} (h : ∀ a ∈ l, (f a).isSome = true) :
    (l.mapM f).isSome = true := by
  induction l with
  | nil => rfl
  | cons a l ih =>
    obtain ⟨hhead, hrest⟩ := List.forall_mem_cons.mp h
    obtain ⟨b, hb⟩ := Option.isSome_iff_exists.mp hhead
    obtain ⟨bs, hbs⟩ := Option.isSome_iff_exists.mp (ih hrest)
    rw [List.mapM_cons, hb, hbs]
    rfl

section Groups
variable {plotHeatmapValue : PlotType → List PingRecord → Text → Text → Text} {str : Group → Text}

theorem plotHeatmap_template {ip_list : List Text} (hcommas : ∀ ip ∈ ip_list, ',' ∉ ip) (name : Text)
    (plot_type : PlotType) : (plotHeatmap plotHeatmapValue (template ip_list) name plot_type).isSome = true := by
  unfold template plotHeatmap
  split
  · rename_i h
    cases h
  · rename_i h
    cases h
  · rename_i cells heq
    cases heq
    split
    · rfl
    · have hrecords : ∀ e ∈ (Dict.ofKeys (none : Option (List Text))
          (ip_list.flatMap fun src => ip_list.map fun dst => recordKey src dst)).entries,
          (prepareRecord e.1 (e.2.getD []) plot_type).isSome = true := by
        intro e he
        obtain ⟨hnone, src, hsrc, dst, hdst, hkey⟩ := lookup_template.mp (Dict.mem_entries_iff.mp he)
        rw [hnone, hkey, prepareRecord, recordKey_splitOn (hcommas src hsrc) (hcommas dst hdst)]
        rfl
      obtain ⟨records, hmapM⟩ := Option.isSome_iff_exists.mp (mapM_isSome hrecords)
      rw [hmapM]
      rfl

theorem foldlM_isSome {α σ : Type} {f : σ → α → Option σ} {l : List α} (h : ∀ a ∈ l, ∀ s, (f s a).isSome = true)
    (s : σ) : (l.foldlM f s).isSome = true := by
  induction l generalizing s with
  | nil => rfl
  | cons a l ih =>
    obtain ⟨hhead, hrest⟩ := List.forall_mem_cons.mp h
    obtain ⟨s', hs'⟩ := Option.isSome_iff_exists.mp (hhead s)
    rw [List.foldlM_cons, hs']
    exact ih hrest s'

theorem plot_isSome {t : Tables Group}
    (h : ∀ proto group data, Dict.at2 t.records proto group = some data →
      (processProtocolGroup plotHeatmapValue str proto group data).isSome = true) :
    (plot plotHeatmapValue str t).isSome = true := by
  refine foldlM_isSome (fun e he files => foldlM_isSome (fun g hg files => ?_) files) []
  rw [Option.isSome_map]
  apply h
  rw [Dict.at2, Dict.mem_entries_iff.mp he]
  exact Dict.mem_entries_iff.mp hg

end Groups

/-- An empty group harms none exactly if every group behind it is empty too. -/
theorem emptyGroupsHarmless_iff (mesh : Mesh Group) (hcommas : NoCommas mesh) :
    EmptyGroupsHarmless mesh ↔ NoneBehindEmpty mesh := by
  have hprep : Prepared mesh (Reached mesh) (prepare mesh) := prepared_prepare
  rw [noneBehindEmpty_iff]
  constructor
  · intro h proto group ip_list hmesh hne
    by_contra hnot
    obtain ⟨cells, hcells, -⟩ := h.templates proto group ip_list hmesh hne
    rw [hprep.copied proto group ip_list hmesh hnot] at hcells
    cases hcells
  · intro hreached
    -- what stands for a group after step 2
    have hdata : ∀ proto group data, Dict.at2 (prepare mesh).records proto group = some data →
        ∃ ip_list, Dict.at2 mesh proto group = some ip_list ∧
          (ip_list ≠ [] ∧ data = template ip_list ∨ ip_list = [] ∧ data = .raw []) := by
      intro proto group data hat
      cases hmesh : Dict.at2 mesh proto group with
      | none =>
        rw [hprep.absent proto group hmesh] at hat
        cases hat
      | some ip_list =>
        refine ⟨ip_list, rfl, ?_⟩
        by_cases hdone : (proto, group) ∈ Reached mesh
        · rw [hprep.filled proto group ip_list hmesh hdone] at hat
          exact Or.inl ⟨ne_nil_of_reached hmesh hdone, (Option.some.inj hat).symm⟩
        · have hempty : ip_list = [] := by
            by_contra hne
            exact hdone (hreached proto group ip_list hmesh hne)
          rw [hprep.copied proto group ip_list hmesh hdone, hempty] at hat
          exact Or.inr ⟨hempty, (Option.some.inj hat).symm⟩
    constructor
    · intro proto group ip_list hmesh hne
      refine ⟨_, hprep.filled proto group ip_list hmesh (hreached proto group ip_list hmesh hne), ?_⟩
      exact fun key value => lookup_template
    · intro proto group ip_list hmesh ip hip
      have hne : ip_list ≠ [] := List.ne_nil_of_mem hip
      exact (hprep.mapped ip group).mpr ⟨proto, ip_list, hmesh, hreached proto group ip_list hmesh hne, hip⟩
    · intro plotHeatmapValue str
      apply plot_isSome
      intro proto group data hat
      obtain ⟨ip_list, hmesh, ⟨-, rfl⟩ | ⟨-, rfl⟩⟩ := hdata proto group data hat
      · exact processProtocolGroup_isSome fun name plot_type =>
          plotHeatmap_template (hcommas proto group ip_list hmesh) name plot_type
      · exact processProtocolGroup_isSome fun name plot_type => rfl
    · intro plotHeatmapValue str proto group data hmesh hat
      obtain ⟨ip_list, hmesh', ⟨hne, rfl⟩ | ⟨-, rfl⟩⟩ := hdata proto group data hat
      · cases hmesh.symm.trans hmesh'
        exact absurd rfl hne
      · exact processProtocolGroup_empty proto group

end Plots

/-- A mesh with groups for one protocol. -/
def oneProtocol (name : Text) (groups : Dict Text (List Text)) : Mesh Text := AList.singleton (.string name) groups

theorem lookup_oneProtocol {name : Text} {groups groups' : Dict Text (List Text)} {proto : Scalar}
    (h : (oneProtocol name groups).lookup proto = some groups') : proto = .string name ∧ groups' = groups := by
  rw [← Dict.mem_entries_iff] at h
  cases List.mem_singleton.mp h
  exact ⟨rfl, rfl⟩

theorem noCommas_oneProtocol {name : Text} {groups : Dict Text (List Text)}
    (h : ∀ e ∈ groups.entries, ∀ ip ∈ e.2, ',' ∉ ip) : NoCommas (oneProtocol name groups) := by
  intro proto group ip_list hmesh ip hip
  obtain ⟨groups', hlookup, hmem⟩ := at2_eq_some.mp hmesh
  obtain ⟨-, rfl⟩ := lookup_oneProtocol hlookup
  exact h _ hmem ip hip

def groupA : Text := ['a']

def groupB : Text := ['b']

def emptyLast : Dict Text (List Text) := ⟨[⟨groupA, [['1']]⟩, ⟨groupB, []⟩], by
  rw [List.NodupKeys]
  decide⟩

def emptyFirst : Dict Text (List Text) := ⟨[⟨groupA, []⟩, ⟨groupB, [['1']]⟩], by
  rw [List.NodupKeys]
  decide⟩

theorem emptyGroupsHarmless_iff_emptyLast : EmptyGroupsHarmless (oneProtocol "tcp".toList emptyLast) := by
  refine (emptyGroupsHarmless_iff (oneProtocol "tcp".toList emptyLast) (noCommas_oneProtocol (by decide))).mpr ?_
  intro proto groups hlookup
  obtain ⟨-, rfl⟩ := lookup_oneProtocol hlookup
  decide

/-- The group behind the empty one has no cells to go over. -/
theorem not_emptyGroupsHarmless : ¬ ∀ mesh : Mesh Text, NoCommas mesh → EmptyGroupsHarmless mesh := by
  intro hall
  have hplots := (hall (oneProtocol "tcp".toList emptyFirst) (noCommas_oneProtocol (by decide))).plots
    (fun _ _ _ _ => []) id
  have hraises : (plot (fun _ _ _ _ => []) id (prepare (oneProtocol "tcp".toList emptyFirst))).isSome = false := by
    decide +kernel
  exact Bool.noConfusion (hraises.symm.trans hplots)

end Pingweave.HeatmapPlotter
