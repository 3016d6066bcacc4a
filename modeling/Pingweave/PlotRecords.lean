import Pingweave.Collector
import Pingweave.HeatmapPlotter
import Pingweave.Library.Dict
import Pingweave.Yaml

/-!
# A cycle of the heatmap plotter

Steps 2 to 4 of `pingweave_heatmap_plotter`: the template of every mesh group with the map from IPs
to groups, the entries of the Redis server, and the plots. A Python exception is `none`; it ends the
cycle. Group names are of any type.
-/

namespace Pingweave.HeatmapPlotter
open Collector
set_option autoImplicit false

def INTERVAL_PLOTTER_FILTER_OLD_DATA_SEC : Nat := 120

def REDIS_STREAM_PREFIX : Text := "redis_pingweave".toList

def pinglist_protocol : List Text := ["udp".toList, "tcp".toList, "roce".toList, "ib".toList]

/-- `"{src},{dst}"` -/
def recordKey (src dst : Text) : Text := src ++ ',' :: dst

/-- `needle in text` -/
def contains (needle text : Text) : Bool :=
  (List.range (text.length + 1)).any fun i => needle.isPrefixOf (text.drop i)

/-- What stands for a group in `records`: its list as copied from the pinglist, or the cells of its
pairs, `None` where there is no entry. -/
inductive GroupData where
  | raw (ip_list : List Text)
  | template (cells : Dict Text (Option (List Text)))

section Cycle
variable {Group : Type} [DecidableEq Group]

/-- `pinglist_in_memory["mesh"]` -/
abbrev Mesh (Group : Type) := Dict Scalar (Dict Group (List Text))

structure Tables (Group : Type) where
  records : Dict Scalar (Dict Group GroupData)
  map_ip_to_groups : Dict Text (List Group)

/-! ### Step 2 -/

def template (ip_list : List Text) : GroupData :=
  .template (Dict.ofKeys none (ip_list.flatMap fun src => ip_list.map fun dst => recordKey src dst))

/-- `map_ip_to_groups.get(ip, set())` -/
def groupsOf (t : Tables Group) (ip : Text) : List Group := (t.map_ip_to_groups.lookup ip).getD []

def addGroup (group : Group) (t : Tables Group) (ip : Text) : Tables Group :=
  { t with map_ip_to_groups := t.map_ip_to_groups.insert ip ((groupsOf t ip).insert group) }

def prepareGroup (proto : Scalar) (t : Tables Group) (group : Group) (ip_list : List Text) : Tables Group :=
  ip_list.foldl (addGroup group) { t with records := Dict.set2 t.records proto group (template ip_list) }

/-- The loop over the groups of a protocol; an empty group ends it. -/
def prepareGroups (proto : Scalar) : Tables Group → List ((_ : Group) × List Text) → Tables Group
  | t, [] => t
  | t, e :: rest => if e.2 = [] then t else prepareGroups proto (prepareGroup proto t e.1 e.2) rest

/-- `records` begins as a deep copy. -/
def prepare (mesh : Mesh Group) : Tables Group :=
  mesh.entries.foldl (fun t e => prepareGroups e.1 t e.2.entries)
    ⟨Dict.mapValues (Dict.mapValues .raw) mesh, ∅⟩

/-! ### Step 3 -/

/-- The body of the loop over `common_groups`. `records[proto]` raises where there is no protocol, and
a list does not take a pair. -/
def insertGroup (proto record_key : Text) (value_splits : List Text) (t : Tables Group) (group : Group) :
    Option (Tables Group) :=
  match t.records.lookup (.string proto) with
  | none => none
  | some groups =>
    match groups.lookup group with
    | none => some t
    | some (.raw _) => none
    | some (.template cells) =>
      if record_key ∈ cells then
        some { t with
          records := Dict.set2 t.records (.string proto) group (.template (cells.replace record_key (some value_splits))) }
      else none

def insertEntry (t : Tables Group) (proto src dst : Text) (value_splits : List Text) : Option (Tables Group) :=
  if proto ∈ pinglist_protocol then
    ((groupsOf t src).filter fun group => group ∈ groupsOf t dst).foldlM
      (insertGroup proto (recordKey src dst) value_splits) t
  else none

/-- The seconds between the two times are more than the interval. -/
def tooOld (current_time measure_time : DateTime) : Bool :=
  INTERVAL_PLOTTER_FILTER_OLD_DATA_SEC * 1000000 < (current_time - measure_time) + (measure_time - current_time)

section Entries
variable (strptime : Text → Option DateTime) (redis : Redis)

/-- The body of the loop over the keys of a scan. -/
def readKey (current_time : DateTime) (t : Tables Group) (key : Text) : Option (Tables Group) :=
  if contains REDIS_STREAM_PREFIX key then some t
  else
    match redis.store key with
    | none => some t
    | some value =>
      if contains "WRONGTYPE".toList value then some t
      else
        match (value.splitOn ',')[1]? with
        | none => none
        | some ts =>
          match strptime (ts.take 26) with
          | none => some t
          | some measure_time =>
            if tooOld current_time measure_time then some t
            else
              match key.splitOn ',' with
              | [proto, src, dst] => insertEntry t proto src dst (value.splitOn ',')
              | _ => none

/-- The keys of every scan with the time at which it began. -/
abbrev Scans := List (DateTime × List Text)

def readEntries (scans : Scans) (t : Tables Group) : Option (Tables Group) :=
  scans.foldlM (fun t scan => scan.2.foldlM (readKey strptime redis scan.1) t) t

end Entries

/-! ### Step 4 -/

def metrics : List Text :=
  ["network_p50".toList, "network_p95".toList, "network_p99".toList, "failure_ratio".toList, "weird_ratio".toList]

section Plots
variable (plotHeatmapValue : PlotType → List PingRecord → Text → Text → Text) (str : Group → Text)

/-- `plot_heatmap_value` catches every exception and then returns an empty path. A list that is not
empty has no `items()`. -/
def plotHeatmap (data : GroupData) (category_group_name : Text) (plot_type : PlotType) : Option (List Text) :=
  match data with
  | .raw [] => some []
  | .raw _ => none
  | .template cells =>
    if cells.entries.isEmpty then some []
    else do
      let records ← cells.entries.mapM fun e => prepareRecord e.1 (e.2.getD []) plot_type
      some (metrics.filterMap fun metric =>
        if plotHeatmapValue plot_type records metric (category_group_name ++ '_' :: metric) = [] then none
        else some (category_group_name ++ '_' :: metric))

def processProtocolGroup (protocol : Scalar) (group : Group) (data : GroupData) : Option (List Text) :=
  match protocol with
  | .string name =>
    match plotType name with
    | some plot_type => plotHeatmap plotHeatmapValue data (name ++ '_' :: str group) plot_type
    | none => some []
  | _ => some []

def plot (t : Tables Group) : Option (List Text) :=
  t.records.entries.foldlM
    (fun files e => e.2.entries.foldlM
      (fun files g => (processProtocolGroup plotHeatmapValue str e.1 g.1 g.2).map (files ++ ·)) files) []

end Plots
end Cycle
end Pingweave.HeatmapPlotter
