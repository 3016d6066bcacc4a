import Pingweave.Library.LastWriter
import Pingweave.PlotHeatmap
import Pingweave.ReportRoundTrip

/-!
# From the reports to the heatmaps

Reports of any hosts, which the collector takes one after the other, and a cycle of the plotter
after that. A result has the key of its pair; under each key the newest is stored, and its cell is
drawn from it if a scan comes across it in time.
-/

namespace Pingweave
open Collector HeatmapPlotter LastWriter
set_option autoImplicit false

/-- The results of a report tick. -/
structure Report where
  protocol : Text
  srcip : Text
  results : List DestResult

/-- A result with the report that it came in. -/
structure SentResult where
  protocol : Text
  srcip : Text
  result : DestResult

def Report.sent (report : Report) : List SentResult :=
  report.results.map fun x => ⟨report.protocol, report.srcip, x⟩

section Reports
variable (strptime : Text → Option DateTime) (timestampNsToString : UInt64 → Text)

def Report.lines (report : Report) : List Text :=
  messageLines (aggResult (report.results.map (DestResult.line timestampNsToString report.srcip)))

namespace SentResult

def key (s : SentResult) : Text := s.result.key s.protocol s.srcip

def line (s : SentResult) : Text := s.result.line timestampNsToString s.srcip

def value (s : SentResult) : Text := lineValue (s.result.lineFields timestampNsToString s.srcip)

def time (s : SentResult) : DateTime := (strptime ((timestampNsToString s.result.ts_end).take 26)).getD 0

/-- A result of a client: its protocol is the one of its kind, and its last time stamp parses. -/
structure Proper (s : SentResult) : Prop where
  kind : s.result.Of s.protocol
  src : (inetPton s.srcip).isSome
  dst : (inetPton s.result.dstip).isSome
  stamp : ∃ ts, strptime ((timestampNsToString s.result.ts_end).take 26) = some ts ∧ 0 < ts

/-- No result of the pair was sent that ends later. -/
structure Newest (sent : List SentResult) (s : SentResult) : Prop where
  mem : s ∈ sent
  greatest : ∀ o ∈ sent, o.key = s.key → o.time strptime timestampNsToString ≤ s.time strptime timestampNsToString

end SentResult

/-- The characters of `%Y-%m-%d %H:%M:%S` and of the nanoseconds behind it. -/
def StampText : Prop := ∀ t, ∀ c ∈ timestampNsToString t, c.isDigit ∨ c ∈ ['-', ' ', ':', '.']

end Reports

/-! ### What is stored -/

section Store
variable {strptime : Text → Option DateTime} {timestampNsToString : UInt64 → Text} {s : SentResult}

theorem StampText.notMem (h : StampText timestampNsToString) {c : Char} (hdigit : c.isDigit = false)
    (hc : c ∉ ['-', ' ', ':', '.']) (t : UInt64) : c ∉ timestampNsToString t := by
  intro hmem
  rcases h t c hmem with hd | hd
  · rw [hdigit] at hd
    cases hd
  · exact hc hd

namespace SentResult

theorem Proper.notMem_fields (h : s.Proper strptime timestampNsToString) (htext : StampText timestampNsToString)
    {c : Char} (hdigit : c.isDigit = false) (hc : c ∉ ['-', ' ', ':', '.']) (hclient : c ∉ "client".toList)
    (hnetwork : c ∉ "network".toList) (hserver : c ∉ "server".toList) :
    ∀ f ∈ s.result.lineFields timestampNsToString s.srcip, c ∉ f := by
  have hdot : c ≠ '.' := by
    rintro rfl
    exact hc (by decide)
  exact DestResult.not_mem_lineFields hdigit hdot hclient hnetwork hserver h.src h.dst
    (htext.notMem hdigit hc _) (htext.notMem hdigit hc _)

theorem Proper.fields_line (h : s.Proper strptime timestampNsToString) (htext : StampText timestampNsToString) :
    fields (s.line timestampNsToString) = s.result.lineFields timestampNsToString s.srcip :=
  DestResult.fields_line h.src h.dst (htext.notMem (by decide) (by decide) _) (htext.notMem (by decide) (by decide) _)

theorem Proper.comma (h : s.Proper strptime timestampNsToString) (htext : StampText timestampNsToString) :
    ∀ f ∈ s.result.lineFields timestampNsToString s.srcip, ',' ∉ f :=
  h.notMem_fields htext (by decide) (by decide) (by decide) (by decide) (by decide)

theorem Proper.newTsEnd (h : s.Proper strptime timestampNsToString) :
    newTsEnd strptime (s.result.lineFields timestampNsToString s.srcip) = some (s.time strptime timestampNsToString) := by
  obtain ⟨ts, hts, -⟩ := h.stamp
  rw [DestResult.newTsEnd_lineFields, time, hts, Option.getD_some]

theorem Proper.taken (h : s.Proper strptime timestampNsToString) (htext : StampText timestampNsToString) :
    Taken strptime s.protocol (s.line timestampNsToString) (s.time strptime timestampNsToString) := by
  constructor
  · rw [h.fields_line htext]
    exact h.newTsEnd
  · rw [h.fields_line htext, checkStream, DestResult.n_failure_lineFields,
      DestResult.networkMeanLat_lineFields _ _ h.kind]
    rfl

theorem Proper.lineKey (h : s.Proper strptime timestampNsToString) (htext : StampText timestampNsToString) :
    lineKey s.protocol (fields (s.line timestampNsToString)) = s.key := by
  rw [h.fields_line htext, DestResult.lineKey_lineFields, key]

end SentResult

/-- A register with the newest result for each key. -/
abbrev SentRegisters := Registers Text SentResult DateTime

section Holds
variable (strptime timestampNsToString)

def writeSent : SentRegisters → SentResult → SentRegisters :=
  write SentResult.key (SentResult.time strptime timestampNsToString)

/-- What is under a key, and what its register has. -/
inductive Stored (key : Text) : Option Text → DateTime × Option SentResult → Prop
  | never : Stored key none (0, none)
  | result (s : SentResult) (proper : s.Proper strptime timestampNsToString) (ofKey : s.key = key) :
      Stored key (some (s.value timestampNsToString)) (s.time strptime timestampNsToString, some s)

def Holds (r : Redis) (regs : SentRegisters) : Prop :=
  ∀ key, Stored strptime timestampNsToString key (r.store key) (regs key)

end Holds

variable {r : Redis} {regs : SentRegisters}

theorem Holds.currTsEnd (h : Holds strptime timestampNsToString r regs) (htext : StampText timestampNsToString)
    (key : Text) : currTsEnd strptime (r.store key) = some (regs key).1 := by
  have hkey := h key
  generalize r.store key = value, regs key = reg at hkey
  cases hkey with
  | never => rfl
  | result s proper ofKey => exact currTsEnd_lineValue strptime (proper.comma htext) proper.newTsEnd

/-- The turn for a line writes the result to the register of its pair. -/
theorem Holds.turn (h : Holds strptime timestampNsToString r regs) (htext : StampText timestampNsToString)
    (hs : s.Proper strptime timestampNsToString) :
    (processLine strptime r s.protocol (s.line timestampNsToString)).2 = true ∧
      Holds strptime timestampNsToString (processLine strptime r s.protocol (s.line timestampNsToString)).1
        (writeSent strptime timestampNsToString regs s) := by
  obtain ⟨hgo, hstore⟩ := processLine_of_taken (hs.taken htext) (h.currTsEnd htext _)
  rw [hs.lineKey htext, hs.fields_line htext] at hstore
  refine ⟨hgo, fun key => ?_⟩
  rw [hstore, writeSent]
  by_cases hkey : s.key = key
  · subst hkey
    rw [write_self]
    split
    · rename_i hlt
      rw [Function.update_self]
      exact .result s hs rfl
    · exact h s.key
  · rw [write_of_ne _ _ hkey]
    split
    · rw [Function.update_of_ne (Ne.symm hkey)]
      exact h key
    · exact h key

theorem Holds.results (h : Holds strptime timestampNsToString r regs) (htext : StampText timestampNsToString)
    (protocol srcip : Text) {results : List DestResult}
    (hproper : ∀ x ∈ results, SentResult.Proper strptime timestampNsToString ⟨protocol, srcip, x⟩) :
    Holds strptime timestampNsToString
      (processCollectedMessage strptime r protocol (results.map (DestResult.line timestampNsToString srcip)))
      (Runs.run (writeSent strptime timestampNsToString) regs (results.map fun x => ⟨protocol, srcip, x⟩)) := by
  induction results generalizing r regs with
  | nil => exact h
  | cons x results ih =>
    obtain ⟨hgo, hturn⟩ := h.turn htext (hproper x List.mem_cons_self)
    rw [List.map_cons, processCollectedMessage_cons]
    change (processLine strptime r protocol (x.line timestampNsToString srcip)).2 = true at hgo
    rw [if_pos hgo]
    exact ih hturn fun y hy => hproper y (List.mem_cons_of_mem x hy)

theorem lines_nil (timestampNsToString : UInt64 → Text) (strptime : Text → Option DateTime) (r : Redis)
    (protocol srcip : Text) :
    processCollectedMessage strptime r protocol (Report.lines timestampNsToString ⟨protocol, srcip, []⟩) = r := by
  have hlines : Report.lines timestampNsToString ⟨protocol, srcip, []⟩ = [[]] := rfl
  have hshort : (fields []).length < 3 := by decide
  rw [hlines, processCollectedMessage_cons, processLine_short hshort]
  rfl

theorem lines_eq (htext : StampText timestampNsToString) {report : Report} (hne : report.results ≠ [])
    (hproper : ∀ s ∈ report.sent, s.Proper strptime timestampNsToString) :
    report.lines timestampNsToString = report.results.map (DestResult.line timestampNsToString report.srcip) := by
  have hsent : ∀ x ∈ report.results, SentResult.Proper strptime timestampNsToString ⟨report.protocol, report.srcip, x⟩ :=
    fun x hx => hproper _ (List.mem_map_of_mem hx)
  apply messageLines_aggResult
  · exact fun hnil => hne (List.map_eq_nil_iff.mp hnil)
  · intro l hl
    obtain ⟨x, hx, rfl⟩ := List.mem_map.mp hl
    exact DestResult.line_trimmed timestampNsToString (hsent x hx).src x
  · intro l hl
    obtain ⟨x, hx, rfl⟩ := List.mem_map.mp hl
    rw [DestResult.line_eq]
    exact not_mem_intercalate (by decide)
      ((hsent x hx).notMem_fields htext (by decide) (by decide) (by decide) (by decide) (by decide))

theorem Holds.report (h : Holds strptime timestampNsToString r regs) (htext : StampText timestampNsToString)
    {report : Report} (hproper : ∀ s ∈ report.sent, s.Proper strptime timestampNsToString) :
    Holds strptime timestampNsToString
      (processCollectedMessage strptime r report.protocol (report.lines timestampNsToString))
      (Runs.run (writeSent strptime timestampNsToString) regs report.sent) := by
  obtain ⟨protocol, srcip, results⟩ := report
  cases results with
  | nil =>
    rw [lines_nil]
    exact h
  | cons x results =>
    rw [lines_eq htext (List.cons_ne_nil _ _) hproper]
    exact h.results htext protocol srcip fun y hy => hproper _ (List.mem_map_of_mem hy)

theorem Holds.reports (h : Holds strptime timestampNsToString r regs) (htext : StampText timestampNsToString)
    {reports : List Report} (hproper : ∀ s ∈ reports.flatMap Report.sent, s.Proper strptime timestampNsToString) :
    Holds strptime timestampNsToString
      (Runs.run (fun r report => processCollectedMessage strptime r report.protocol (report.lines timestampNsToString))
        r reports)
      (Runs.run (writeSent strptime timestampNsToString) regs (reports.flatMap Report.sent)) := by
  induction reports generalizing r regs with
  | nil => exact h
  | cons report reports ih =>
    rw [List.flatMap_cons, Runs.run_append, Runs.run_cons]
    refine ih (h.report htext fun s hs => ?_) fun s hs => ?_
    · exact hproper s (List.mem_append_left _ hs)
    · exact hproper s (List.mem_append_right _ hs)

end Store

namespace HeatmapPlotter

/-! ### What a cycle takes from the store -/

section Recent
variable (strptime : Text → Option DateTime) (redis : Redis) (scans : Scans)

variable {strptime redis scans}

variable {Group : Type} [DecidableEq Group]

end Recent

end HeatmapPlotter

/-! ### What is drawn -/

section Draw
variable (strptime : Text → Option DateTime) (timestampNsToString : UInt64 → Text)

/-- Some scan returns the key of the result while it is recent. -/
def SentResult.Found (scans : Scans) (s : SentResult) : Prop :=
  ∃ scan ∈ scans, s.key ∈ scan.2 ∧ tooOld scan.1 (s.time strptime timestampNsToString) = false

/-- What there is to draw for a key. -/
inductive ToDraw (sent : List SentResult) (scans : Scans) (key : Text) : Option SentResult → Prop
  | nothing (notFound : ∀ s : SentResult, s.Newest strptime timestampNsToString sent → s.key = key →
      ¬ s.Found strptime timestampNsToString scans) : ToDraw sent scans key none
  | result (s : SentResult) (newest : s.Newest strptime timestampNsToString sent) (ofKey : s.key = key)
      (found : s.Found strptime timestampNsToString scans) : ToDraw sent scans key (some s)

/-- The entry of the cell. -/
def drawnEntry (s : Option SentResult) : Option (List Text) :=
  s.map fun s => (s.value timestampNsToString).splitOn ','

/-- The record that is drawn for a pair. -/
def drawnRecord (src dst : Text) (plot_type : PlotType) : Option SentResult → PingRecord
  | none => prepareDefaultRecord src dst plot_type
  | some s => s.result.record timestampNsToString s.srcip

/-- The pair of the result has groups in common only where its protocol has them too. -/
def SentResult.Fits {Group : Type} [DecidableEq Group] (mesh : Mesh Group) (s : SentResult) : Prop :=
  ∀ group, Listed mesh s.srcip group → Listed mesh s.result.dstip group →
    .string s.protocol ∈ mesh ∧ ∀ ip_list, Dict.at2 mesh (.string s.protocol) group = some ip_list →
      s.srcip ∈ ip_list ∧ s.result.dstip ∈ ip_list

end Draw

section Main
variable {strptime : Text → Option DateTime} {timestampNsToString : UInt64 → Text} {s : SentResult}

namespace SentResult

theorem Proper.protocol_mem (h : s.Proper strptime timestampNsToString) : s.protocol ∈ pinglist_protocol := by
  have hkind := h.kind
  cases hresult : s.result with
  | rdma dstip info client_stat network_stat server_stat =>
    rw [hresult] at hkind
    rcases hkind with hp | hp
    · rw [hp]
      decide
    · rw [hp]
      decide
  | tcpudp dstip info network_stat =>
    rw [hresult] at hkind
    rcases hkind with hp | hp
    · rw [hp]
      decide
    · rw [hp]
      decide

theorem Proper.ips_comma (h : s.Proper strptime timestampNsToString) : ',' ∉ s.srcip ∧ ',' ∉ s.result.dstip :=
  ⟨not_mem_dotted_quad h.src (by decide) (by decide), not_mem_dotted_quad h.dst (by decide) (by decide)⟩

theorem Proper.value_splitOn (h : s.Proper strptime timestampNsToString) (htext : StampText timestampNsToString) :
    (s.value timestampNsToString).splitOn ',' = (s.result.lineFields timestampNsToString s.srcip).drop 2 := by
  refine splitOn_lineValue (h.comma htext) ?_
  cases s.result with
  | rdma dstip info client_stat network_stat server_stat => exact Nat.le_add_left 3 _
  | tcpudp dstip info network_stat => exact Nat.le_add_left 3 _

theorem Proper.counts (h : s.Proper strptime timestampNsToString) (htext : StampText timestampNsToString) :
    Counts ((s.value timestampNsToString).splitOn ',') := by
  rw [h.value_splitOn htext]
  have hdecimal : ∀ i ∈ [2, 3, 4], ∃ n,
      ((s.result.lineFields timestampNsToString s.srcip).drop 2)[i]? = some (decimal n) := by
    intro i hi
    cases s.result <;> simp only [List.mem_cons, List.not_mem_nil, or_false] at hi <;> rcases hi with rfl | rfl | rfl <;>
      exact ⟨_, rfl⟩
  intro i hi n hn
  obtain ⟨m, hm⟩ := hdecimal i hi
  rw [hm, Option.bind_some, decimal, pyInt_toDigits] at hn
  cases hn
  exact Int.natCast_nonneg m

end SentResult

section Stored
variable {reports : List Report}

end Stored

section Group
variable {Group : Type} [DecidableEq Group] {mesh : Mesh Group} {reports : List Report} {scans : Scans}

variable {sent : List SentResult} {protocol src dst : Text} {plot_type : PlotType} {drawn : Option SentResult}

/-- The plotter makes the record of the result out of its entry. -/
theorem ToDraw.prepareRecord (h : ToDraw strptime timestampNsToString sent scans (entryKey protocol src dst) drawn)
    (htext : StampText timestampNsToString) (hproper : ∀ s ∈ sent, s.Proper strptime timestampNsToString)
    (hplot : plotType protocol = some plot_type) (hsrc : ',' ∉ src) (hdst : ',' ∉ dst) :
    HeatmapPlotter.prepareRecord (recordKey src dst) ((drawnEntry timestampNsToString drawn).getD []) plot_type =
      some (drawnRecord timestampNsToString src dst plot_type drawn) := by
  cases h with
  | nothing notFound =>
    show HeatmapPlotter.prepareRecord (recordKey src dst) [] plot_type = some (prepareDefaultRecord src dst plot_type)
    rw [HeatmapPlotter.prepareRecord, recordKey_splitOn hsrc hdst]
    rfl
  | result s newest ofKey found =>
    have hs := hproper s newest.mem
    obtain ⟨rfl, rfl, rfl⟩ := entryKey_inj (comma_notMem hs.protocol_mem) hs.ips_comma.1 hs.ips_comma.2 ofKey
    obtain ⟨plot_type', hplot', hrecord⟩ :=
      DestResult.prepareRecord_lineFields timestampNsToString hs.src hs.dst hs.kind
    rw [hplot] at hplot'
    cases hplot'
    rw [drawnEntry, Option.map_some, Option.getD_some, hs.value_splitOn htext]
    exact hrecord

theorem ToDraw.counts {key : Text} (h : ToDraw strptime timestampNsToString sent scans key drawn)
    (htext : StampText timestampNsToString) (hproper : ∀ s ∈ sent, s.Proper strptime timestampNsToString)
    {value : List Text} (hvalue : drawnEntry timestampNsToString drawn = some value) : Counts value := by
  cases h with
  | nothing notFound => cases hvalue
  | result s newest ofKey found =>
    cases hvalue
    exact (hproper s newest.mem).counts htext

end Group
end Main

end Pingweave
