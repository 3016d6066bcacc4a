import Pingweave.Library.Pattern
import Pingweave.PlotRecords

/-!
# The names of the plots

A plot is named `f"{protocol}_{group}_{metric}"`, and `index()` of `ctrl_webserver.py` reads the parts
back from the file name. No protocol has an underscore and every metric has one, so that whatever
stands between them is the group.
-/

namespace Pingweave
open Pattern
set_option autoImplicit false

namespace HeatmapPlotter

/-- `f"{protocol}_{group}_{metric}"` -/
def plotName (protocol group metric : Text) : Text := protocol ++ '_' :: (group ++ '_' :: metric)

def htmlExt : Text := ".html".toList
def pngExt : Text := ".png".toList
def summaryExt : Text := ".summary".toList

/-- Without the ending of any of the three files of a plot. -/
def Plain (s : Text) : Prop := ∀ ext ∈ [htmlExt, pngExt, summaryExt], ¬ ext <:+: s

instance (s : Text) : Decidable (Plain s) :=
  inferInstanceAs (Decidable (∀ ext ∈ [htmlExt, pngExt, summaryExt], ¬ ext <:+: s))

def PlotName (p : Text) : Prop :=
  ∃ protocol ∈ pinglist_protocol, ∃ group, ∃ metric ∈ metrics, p = plotName protocol group metric

theorem metric_splitOn {metric : Text} (h : metric ∈ metrics) :
    ∃ m₁ m₂, metric.splitOn '_' = [m₁, m₂] ∧ metric = m₁ ++ '_' :: m₂ := by
  have hall : ∀ metric ∈ metrics, ∃ m ∈ metrics.map (·.splitOn '_'), metric.splitOn '_' = m ∧ m.length = 2 := by
    decide
  obtain ⟨m, -, hm, hlength⟩ := hall metric h
  obtain ⟨m₁, m₂, rfl⟩ := List.length_eq_two.mp hlength
  refine ⟨m₁, m₂, hm, ?_⟩
  have hjoin : ['_'].intercalate (metric.splitOn '_') = metric := List.intercalate_splitOn '_'
  rw [hm, List.intercalate_cons_cons, List.intercalate_singleton] at hjoin
  rw [← hjoin, List.append_assoc, List.singleton_append]

theorem protocol_splitOn {protocol : Text} (h : protocol ∈ pinglist_protocol) : '_' ∉ protocol := by
  have hall : ∀ protocol ∈ pinglist_protocol, '_' ∉ protocol := by decide
  exact hall protocol h

theorem plotName_splitOn {protocol metric : Text} (group : Text) (hprotocol : protocol ∈ pinglist_protocol)
    (hmetric : metric ∈ metrics) : ∃ m₁ m₂, metric = m₁ ++ '_' :: m₂ ∧
      (plotName protocol group metric).splitOn '_' = protocol :: (group.splitOn '_' ++ [m₁, m₂]) := by
  obtain ⟨m₁, m₂, hm, hjoin⟩ := metric_splitOn hmetric
  refine ⟨m₁, m₂, hjoin, ?_⟩
  rw [plotName, List.splitOn_append_cons_self_of_not_mem (protocol_splitOn hprotocol), List.splitOn_append_cons_self, hm]

theorem plotName_inj {protocol protocol' group group' metric metric' : Text}
    (hprotocol : protocol ∈ pinglist_protocol) (hprotocol' : protocol' ∈ pinglist_protocol)
    (hmetric : metric ∈ metrics) (hmetric' : metric' ∈ metrics)
    (h : plotName protocol group metric = plotName protocol' group' metric') :
    protocol = protocol' ∧ group = group' ∧ metric = metric' := by
  obtain ⟨m₁, m₂, hm, hsplit⟩ := plotName_splitOn group hprotocol hmetric
  obtain ⟨m₁', m₂', hm', hsplit'⟩ := plotName_splitOn group' hprotocol' hmetric'
  rw [h, hsplit'] at hsplit
  injection hsplit with hp hrest
  obtain ⟨hg, hms⟩ := List.append_inj' hrest rfl
  injection hms with h₁ hms
  injection hms with h₂ _
  have hgroup := congrArg (List.intercalate ['_']) hg
  rw [List.intercalate_splitOn, List.intercalate_splitOn] at hgroup
  exact ⟨hp.symm, hgroup.symm, by rw [hm, hm', h₁, h₂]⟩

theorem ext_spec {ext : Text} (h : ext ∈ [htmlExt, pngExt, summaryExt]) :
    ∃ rest, ext = '.' :: rest ∧ '.' ∉ rest ∧ '_' ∉ ext := by
  have hall : ∀ ext ∈ [htmlExt, pngExt, summaryExt], ext = '.' :: ext.tail ∧ '.' ∉ ext.tail ∧ '_' ∉ ext := by
    decide
  exact ⟨ext.tail, hall ext h⟩

theorem plain_plotName {protocol group metric : Text} (hprotocol : protocol ∈ pinglist_protocol)
    (hgroup : Plain group) (hmetric : metric ∈ metrics) : Plain (plotName protocol group metric) := by
  intro ext hext hin
  obtain ⟨rest, hmark, -, hunder⟩ := ext_spec hext
  have hdot : ∀ s : Text, '.' ∉ s → ¬ ext <:+: s := by
    intro s hs hin
    exact hs (hin.subset (hmark ▸ List.mem_cons_self))
  have hprotocols : ∀ protocol ∈ pinglist_protocol, '.' ∉ protocol := by decide
  have hmetrics : ∀ metric ∈ metrics, '.' ∉ metric := by decide
  rw [plotName, infix_append_cons hunder, infix_append_cons hunder] at hin
  rcases hin with h | h | h
  · exact hdot protocol (hprotocols protocol hprotocol) h
  · exact hgroup ext hext h
  · exact hdot metric (hmetrics metric hmetric) h

theorem cut_ext {ext p : Text} (hext : ext ∈ [htmlExt, pngExt, summaryExt]) (hp : Plain p) :
    cut ext (p ++ ext) = p := by
  obtain ⟨rest, rfl, hdot, -⟩ := ext_spec hext
  have hcut := cut_append (s := p) (t := []) hdot (hp _ hext)
  rw [List.append_nil] at hcut
  exact hcut

theorem replace_ext {ext p : Text} (hext : ext ∈ [htmlExt, pngExt, summaryExt]) (hp : Plain p) (new : Text) :
    replace ext new (p ++ ext) = p ++ new := by
  obtain ⟨rest, rfl, hdot, -⟩ := ext_spec hext
  exact replace_append new hdot (hp _ hext)

/-! ### The plots that a round submits -/

section Futures
variable {Group : Type} (str : Group → Text)

/-- What the futures of step 4 are to plot, in the order in which they are submitted; `none` is an
exception before the first plot. -/
def futures (t : Tables Group) : List (Option (List Text)) :=
  t.records.entries.flatMap fun e => e.2.entries.map fun g =>
    processProtocolGroup (fun _ _ _ name => name) str e.1 g.1 g.2

/-- The plots of a future. -/
def plotsOf (proto : Scalar) (group : Group) (data : GroupData) : List Text :=
  (processProtocolGroup (fun _ _ _ name => name) str proto group data).getD []

variable [DecidableEq Group]

/-- The names of a group's plots do not run into those of another group. -/
structure WellNamed (t : Tables Group) : Prop where
  plain : ∀ proto groups, t.records.lookup proto = some groups → ∀ group ∈ groups, Plain (str group)
  distinct : ∀ proto groups, t.records.lookup proto = some groups → ∀ group ∈ groups, ∀ group' ∈ groups,
    str group = str group' → group = group'

variable {str}

theorem mem_protocols_of_plotType {name : Text} (h : (plotType name).isSome) : name ∈ pinglist_protocol := by
  unfold plotType at h
  split at h
  · rename_i hname
    rcases hname with rfl | rfl <;> decide
  · split at h
    · rename_i hname
      rcases hname with rfl | rfl <;> decide
    · cases h

section Plots
omit [DecidableEq Group]

theorem plotsOf_eq (str : Group → Text) (proto : Scalar) (group : Group) (data : GroupData) :
    plotsOf str proto group data = [] ∨ ∃ protocol ∈ pinglist_protocol, proto = .string protocol ∧
      plotsOf str proto group data = metrics.map (plotName protocol (str group)) := by
  unfold plotsOf processProtocolGroup
  split
  · rename_i protocol
    split
    · rename_i plot_type hplot
      unfold plotHeatmap
      split
      · exact .inl rfl
      · exact .inl rfl
      · split
        · exact .inl rfl
        · rename_i cells _
          cases hrecords : cells.entries.mapM fun e => prepareRecord e.1 (e.2.getD []) plot_type with
          | none => exact .inl rfl
          | some records =>
            right
            refine ⟨protocol, mem_protocols_of_plotType (hplot ▸ rfl), rfl, ?_⟩
            rw [Option.bind_eq_bind, Option.bind_some, Option.getD_some, ← List.filterMap_eq_map]
            congr 1
            funext metric
            rw [List.append_assoc, List.cons_append, Function.comp, if_neg (by simp)]
            rfl
    · exact .inl rfl
  · exact .inl rfl

theorem mem_plotsOf {proto : Scalar} {group : Group} {data : GroupData} {p : Text}
    (h : p ∈ plotsOf str proto group data) : ∃ protocol ∈ pinglist_protocol, proto = .string protocol ∧
      ∃ metric ∈ metrics, p = plotName protocol (str group) metric := by
  rcases plotsOf_eq str proto group data with hnil | ⟨protocol, hprotocol, hproto, heq⟩
  · rw [hnil] at h
    cases h
  · rw [heq] at h
    obtain ⟨metric, hmetric, rfl⟩ := List.mem_map.mp h
    exact ⟨protocol, hprotocol, hproto, metric, hmetric, rfl⟩

theorem plotsOf_nodup (proto : Scalar) (group : Group) (data : GroupData) :
    (plotsOf str proto group data).Nodup := by
  rcases plotsOf_eq str proto group data with hnil | ⟨protocol, hprotocol, -, heq⟩
  · rw [hnil]
    exact List.nodup_nil
  · rw [heq]
    refine List.Nodup.map_on ?_ (by decide)
    intro metric hmetric metric' hmetric' hname
    exact (plotName_inj hprotocol hprotocol hmetric hmetric' hname).2.2

theorem futures_plots (t : Tables Group) : (futures str t).flatMap (·.getD []) =
    t.records.entries.flatMap fun e => e.2.entries.flatMap fun g => plotsOf str e.1 g.1 g.2 := by
  rw [futures, List.flatMap_assoc]
  congr 1
  funext e
  rw [List.flatMap_map]
  rfl

end Plots

variable {t : Tables Group}

theorem mem_futures {p : Text} (h : p ∈ (futures str t).flatMap (·.getD [])) :
    ∃ proto groups, t.records.lookup proto = some groups ∧ ∃ group data, groups.lookup group = some data ∧
      p ∈ plotsOf str proto group data := by
  rw [futures_plots] at h
  obtain ⟨e, he, h⟩ := List.mem_flatMap.mp h
  obtain ⟨g, hg, h⟩ := List.mem_flatMap.mp h
  exact ⟨e.1, e.2, Dict.mem_entries_iff.mp he, g.1, g.2, Dict.mem_entries_iff.mp hg, h⟩

namespace WellNamed

theorem named (h : WellNamed str t) {p : Text} (hp : p ∈ (futures str t).flatMap (·.getD [])) :
    Plain p ∧ PlotName p := by
  obtain ⟨proto, groups, hgroups, group, data, hdata, hp⟩ := mem_futures hp
  obtain ⟨protocol, hprotocol, -, metric, hmetric, rfl⟩ := mem_plotsOf hp
  have hmem : group ∈ groups := AList.lookup_isSome.mp (hdata ▸ rfl)
  exact ⟨plain_plotName hprotocol (h.plain proto groups hgroups group hmem) hmetric,
    protocol, hprotocol, str group, metric, hmetric, rfl⟩

omit [DecidableEq Group] in
theorem nodup (h : WellNamed str t) : ((futures str t).flatMap (·.getD [])).Nodup := by
  rw [futures_plots, List.nodup_flatMap]
  constructor
  · intro e he
    rw [List.nodup_flatMap]
    constructor
    · intro g hg
      exact plotsOf_nodup e.1 g.1 g.2
    · refine List.Pairwise.imp_of_mem ?_ (List.nodupKeys_iff_pairwise.mp e.2.nodupKeys)
      intro g g' hg hg' hne p hp hp'
      obtain ⟨protocol, hprotocol, hproto, metric, hmetric, rfl⟩ := mem_plotsOf hp
      obtain ⟨protocol', hprotocol', hproto', metric', hmetric', hname⟩ := mem_plotsOf hp'
      have hgroup := (plotName_inj hprotocol hprotocol' hmetric hmetric' hname).2.1
      have hmem : ∀ g ∈ e.2.entries, g.1 ∈ e.2 := fun g hg => List.mem_map_of_mem hg
      exact hne (h.distinct e.1 e.2 (Dict.mem_entries_iff.mp he) g.1 (hmem g hg) g'.1 (hmem g' hg') hgroup)
  · refine List.Pairwise.imp_of_mem ?_ (List.nodupKeys_iff_pairwise.mp t.records.nodupKeys)
    intro e e' he he' hne p hp hp'
    obtain ⟨g, hg, hp⟩ := List.mem_flatMap.mp hp
    obtain ⟨g', hg', hp'⟩ := List.mem_flatMap.mp hp'
    obtain ⟨protocol, hprotocol, hproto, metric, hmetric, rfl⟩ := mem_plotsOf hp
    obtain ⟨protocol', hprotocol', hproto', metric', hmetric', hname⟩ := mem_plotsOf hp'
    have hsame := (plotName_inj hprotocol hprotocol' hmetric hmetric' hname).1
    exact hne (by rw [hproto, hproto', hsame])

end WellNamed
end Futures
end HeatmapPlotter
end Pingweave
