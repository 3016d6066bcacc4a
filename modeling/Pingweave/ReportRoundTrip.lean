import Pingweave.Collector
import Pingweave.HeatmapPlotter
import Pingweave.Reports

/-!
# From the result threads to the heatmaps

A report line goes through the collector into Redis and from there to the plotter. Both sides
know its fields by their positions only.
-/

namespace Pingweave
open Collector HeatmapPlotter
set_option autoImplicit false

/-- The results for one destination at a report tick. -/
inductive DestResult where
  | rdma (dstip : Text) (result_info : RdmaResultInfo) (client_stat network_stat server_stat : ResultStat)
  | tcpudp (dstip : Text) (result_info : TcpUdpResultInfo) (network_stat : ResultStat)

namespace DestResult

def dstip : DestResult → Text
  | rdma dstip _ _ _ _ => dstip
  | tcpudp dstip _ _ => dstip

def ts_start : DestResult → UInt64
  | rdma _ info _ _ _ => info.ts_start
  | tcpudp _ info _ => info.ts_start

def ts_end : DestResult → UInt64
  | rdma _ info _ _ _ => info.ts_end
  | tcpudp _ info _ => info.ts_end

def n_success : DestResult → UInt32
  | rdma _ info _ _ _ => info.n_success
  | tcpudp _ info _ => info.n_success

def n_failure : DestResult → UInt32
  | rdma _ info _ _ _ => info.n_failure
  | tcpudp _ info _ => info.n_failure

def n_weird : DestResult → UInt32
  | rdma _ info _ _ _ => info.n_weird
  | tcpudp _ info _ => info.n_weird

def networkStat : DestResult → ResultStat
  | rdma _ _ _ network_stat _ => network_stat
  | tcpudp _ _ network_stat => network_stat

/-- The client and the server statistics of an RDMA result. -/
def hostStats : DestResult → Option (ResultStat × ResultStat)
  | rdma _ _ client_stat _ server_stat => some (client_stat, server_stat)
  | tcpudp _ _ _ => none

/-- The protocols whose clients have results of this kind. -/
def Of (protocol : Text) : DestResult → Prop
  | rdma _ _ _ _ _ => protocol = ['r', 'o', 'c', 'e'] ∨ protocol = ['i', 'b']
  | tcpudp _ _ _ => protocol = ['t', 'c', 'p'] ∨ protocol = ['u', 'd', 'p']

section Line
variable (timestampNsToString : UInt64 → Text) (srcip : Text)

def lineFields : DestResult → List Text
  | rdma dstip info client_stat network_stat server_stat =>
    rdmaResultFields timestampNsToString srcip dstip info client_stat network_stat server_stat
  | tcpudp dstip info network_stat =>
    tcpudpResultFields timestampNsToString srcip dstip info network_stat

/-- The line that the result thread writes. -/
def line : DestResult → Text
  | rdma dstip info client_stat network_stat server_stat =>
    convertRdmaResultToStr timestampNsToString srcip dstip info client_stat network_stat server_stat
  | tcpudp dstip info network_stat =>
    convertTcpudpResultToStr timestampNsToString srcip dstip info network_stat

end Line
end DestResult

def statPercentiles (s : ResultStat) : Percentiles :=
  ⟨s.percentile_50.toNat, s.percentile_95.toNat, s.percentile_99.toNat⟩

/-- The record that a result should come out as. -/
def DestResult.record (timestampNsToString : UInt64 → Text) (srcip : Text) (x : DestResult) : PingRecord :=
  let ratios := calculateRatios x.n_success.toNat x.n_failure.toNat x.n_weird.toNat
  ⟨srcip, x.dstip, ratios.1, ratios.2, statPercentiles x.networkStat,
    x.hostStats.map fun s => (statPercentiles s.1, statPercentiles s.2),
    timestampNsToString x.ts_start, timestampNsToString x.ts_end⟩

/-- The Redis key of the results of a destination. -/
def DestResult.key (protocol srcip : Text) (x : DestResult) : Text :=
  protocol ++ ',' :: (srcip ++ ',' :: x.dstip)

/-- What the collector leaves for a result, and what it compares with its thresholds. -/
structure RoundTrip (timestampNsToString : UInt64 → Text) (protocol srcip : Text) (r : Redis)
    (x : DestResult) : Prop where
  plotted : ∃ value plot_type, r.store (x.key protocol srcip) = some value ∧
    plotType protocol = some plot_type ∧
    prepareRecord (srcip ++ ',' :: x.dstip) (value.splitOn ',') plot_type =
      some (x.record timestampNsToString srcip)
  n_failure : (fields (x.line timestampNsToString srcip))[5]?.bind pyInt = some (x.n_failure.toNat : Int)
  network_mean : networkMeanLat protocol (fields (x.line timestampNsToString srcip)) =
    some (some (x.networkStat.mean.toNat : Int))

theorem isDigit_of_inetOctet {s : Text} {n : UInt32} (h : inetOctet s = some n) : ∀ c ∈ s, c.isDigit := by
  unfold inetOctet at h
  split at h
  · rename_i hs
    exact fun c hc => List.all_eq_true.mp hs.2.1 c hc
  · cases h

theorem dotted_quad_chars {ip : Text} (h : (inetPton ip).isSome) :
    ip ≠ [] ∧ ∀ c ∈ ip, c.isDigit ∨ c = '.' := by
  have hoctets : ∀ f ∈ ip.splitOn '.', ∃ n, inetOctet f = some n := by
    unfold inetPton at h
    split at h
    · rename_i a b c d hmap
      intro f hf
      have hmem := List.mem_map_of_mem (f := inetOctet) hf
      rw [hmap] at hmem
      simp only [List.mem_cons, List.not_mem_nil, or_false] at hmem
      rcases hmem with hmem | hmem | hmem | hmem <;> exact ⟨_, hmem⟩
    · cases h
  constructor
  · rintro rfl
    cases h
  · intro c hc
    by_cases hdot : c = '.'
    · exact Or.inr hdot
    · obtain ⟨f, hf, hcf⟩ := mem_splitOn_of_mem hc hdot
      obtain ⟨n, hn⟩ := hoctets f hf
      exact Or.inl (isDigit_of_inetOctet hn c hcf)

theorem not_mem_dotted_quad {ip : Text} (h : (inetPton ip).isSome) {c : Char} (hdigit : c.isDigit = false)
    (hdot : c ≠ '.') : c ∉ ip := by
  intro hc
  rcases (dotted_quad_chars h).2 c hc with hd | hd
  · rw [hdigit] at hd
    cases hd
  · exact hdot hd

theorem isPySpace_dotted_quad {ip : Text} (h : (inetPton ip).isSome) :
    ∀ c ∈ ip, isPySpace c = false := by
  intro c hc
  rcases (dotted_quad_chars h).2 c hc with hd | rfl
  · exact isPySpace_of_isDigit hd
  · decide

theorem not_mem_decimal {c : Char} (hdigit : c.isDigit = false) (n : Nat) : c ∉ decimal n := by
  intro hc
  rw [isDigit_of_mem_toDigits hc] at hdigit
  cases hdigit

theorem not_mem_statFields {c : Char} (hdigit : c.isDigit = false) {label : Text} (hlabel : c ∉ label)
    (s : ResultStat) : ∀ f ∈ statFields label s, c ∉ f := by
  intro f hf
  simp only [statFields, List.mem_cons, List.not_mem_nil, or_false] at hf
  rcases hf with rfl | rfl | rfl | rfl | rfl | rfl
  · exact hlabel
  all_goals exact not_mem_decimal hdigit _

theorem not_mem_countFields {c : Char} (hdigit : c.isDigit = false) (a b d : UInt32) :
    ∀ f ∈ countFields a b d, c ∉ f := by
  intro f hf
  simp only [countFields, List.mem_cons, List.not_mem_nil, or_false] at hf
  rcases hf with rfl | rfl | rfl <;> exact not_mem_decimal hdigit _

namespace DestResult
variable {timestampNsToString : UInt64 → Text} {protocol srcip : Text} {x : DestResult}

theorem line_eq (timestampNsToString : UInt64 → Text) (srcip : Text) (x : DestResult) :
    x.line timestampNsToString srcip = List.intercalate [','] (x.lineFields timestampNsToString srcip) := by
  cases x <;> rfl

/-- A character that no field can contain; the separators are such. -/
theorem not_mem_lineFields {c : Char} (hdigit : c.isDigit = false) (hdot : c ≠ '.')
    (hclient : c ∉ "client".toList) (hnetwork : c ∉ "network".toList) (hserver : c ∉ "server".toList)
    (hsrc : (inetPton srcip).isSome) (hdst : (inetPton x.dstip).isSome)
    (hstart : c ∉ timestampNsToString x.ts_start) (hend : c ∉ timestampNsToString x.ts_end) :
    ∀ f ∈ x.lineFields timestampNsToString srcip, c ∉ f := by
  have hs := not_mem_dotted_quad hsrc hdigit hdot
  have hd := not_mem_dotted_quad hdst hdigit hdot
  intro f hf
  cases x with
  | rdma dstip info client_stat network_stat server_stat =>
    simp only [lineFields, rdmaResultFields, List.mem_append, List.mem_cons, List.not_mem_nil,
      or_false] at hf
    rcases hf with (((hf | hf) | hf) | hf) | hf
    · rcases hf with rfl | rfl | rfl | rfl <;> assumption
    · exact not_mem_countFields hdigit _ _ _ f hf
    · exact not_mem_statFields hdigit hclient _ f hf
    · exact not_mem_statFields hdigit hnetwork _ f hf
    · exact not_mem_statFields hdigit hserver _ f hf
  | tcpudp dstip info network_stat =>
    simp only [lineFields, tcpudpResultFields, List.mem_append, List.mem_cons, List.not_mem_nil,
      or_false] at hf
    rcases hf with (hf | hf) | hf
    · rcases hf with rfl | rfl | rfl | rfl <;> assumption
    · exact not_mem_countFields hdigit _ _ _ f hf
    · exact not_mem_statFields hdigit hnetwork _ f hf

theorem lineFields_ne_nil (x : DestResult) : x.lineFields timestampNsToString srcip ≠ [] := by
  cases x <;> exact List.cons_ne_nil _ _

theorem line_trimmed (timestampNsToString : UInt64 → Text) (hsrc : (inetPton srcip).isSome) (x : DestResult) :
    Trimmed (x.line timestampNsToString srcip) ∧ x.line timestampNsToString srcip ≠ [] := by
  have hfirst : ∀ c ∈ srcip.head?, isPySpace c = false := fun c hc =>
    isPySpace_dotted_quad hsrc c (List.mem_of_mem_head? hc)
  have hlast : ∀ n, ∀ c ∈ (decimal n).getLast?, isPySpace c = false := fun n c hc =>
    isPySpace_of_isDigit (isDigit_of_mem_toDigits (List.mem_of_mem_getLast? hc))
  have hne := (dotted_quad_chars hsrc).1
  have hline : ∃ fs n, x.lineFields timestampNsToString srcip = srcip :: (fs ++ [decimal n]) := by
    cases x with
    | rdma dstip info client_stat network_stat server_stat =>
      exact ⟨_ :: _ :: _ :: _ :: _ :: _ :: _ :: _ :: _ :: _ :: _ :: _ :: _ :: _ :: _ :: _ :: _ :: _ :: _ ::
        _ :: _ :: _ :: _ :: [], _, rfl⟩
    | tcpudp dstip info network_stat =>
      exact ⟨_ :: _ :: _ :: _ :: _ :: _ :: _ :: _ :: _ :: _ :: _ :: [], _, rfl⟩
  obtain ⟨fs, n, hfs⟩ := hline
  rw [line_eq, hfs]
  refine ⟨trimmed_intercalate [','] fs hne Nat.toDigits_ne_nil hfirst (hlast n), ?_⟩
  intro hnil
  have hhead := head?_intercalate [','] (fs ++ [decimal n]) hne
  rw [hnil, List.head?_nil] at hhead
  exact hne (List.head?_eq_none_iff.mp hhead.symm)

/-- The collector gets back the fields that the line was made of. -/
theorem fields_line (hsrc : (inetPton srcip).isSome) (hdst : (inetPton x.dstip).isSome)
    (hstart : ',' ∉ timestampNsToString x.ts_start) (hend : ',' ∉ timestampNsToString x.ts_end) :
    fields (x.line timestampNsToString srcip) = x.lineFields timestampNsToString srcip := by
  have htrim := (line_trimmed timestampNsToString hsrc x).1
  rw [fields, strip_eq_self htrim, line_eq]
  apply List.splitOn_intercalate
  · exact not_mem_lineFields (by decide) (by decide) (by decide) (by decide) (by decide) hsrc hdst hstart hend
  · exact lineFields_ne_nil x

theorem lineKey_lineFields (timestampNsToString : UInt64 → Text) (protocol srcip : Text) (x : DestResult) :
    lineKey protocol (x.lineFields timestampNsToString srcip) = x.key protocol srcip := by
  have htake : (x.lineFields timestampNsToString srcip).take 2 = [srcip, x.dstip] := by
    cases x <;> rfl
  rw [lineKey, htake, List.intercalate_cons_cons, List.intercalate_singleton, List.append_assoc,
    List.singleton_append, key]

/-- The plotter reads the record off the stored value. -/
theorem prepareRecord_lineFields (timestampNsToString : UInt64 → Text)
    (hsrc : (inetPton srcip).isSome) (hdst : (inetPton x.dstip).isSome)
    (hkind : x.Of protocol) :
    ∃ plot_type, plotType protocol = some plot_type ∧
      prepareRecord (srcip ++ ',' :: x.dstip) ((x.lineFields timestampNsToString srcip).drop 2) plot_type =
        some (x.record timestampNsToString srcip) := by
  have hs : ',' ∉ srcip := not_mem_dotted_quad hsrc (by decide) (by decide)
  have hd : ',' ∉ x.dstip := not_mem_dotted_quad hdst (by decide) (by decide)
  have hkey : (srcip ++ ',' :: x.dstip).splitOn ',' = [srcip, x.dstip] := by
    rw [List.splitOn_append_cons_self_of_not_mem hs, List.splitOn_eq_singleton hd]
  cases x with
  | rdma dstip info client_stat network_stat server_stat =>
    have hplot : plotType protocol = some .rdma := by
      rcases hkind with rfl | rfl <;> rfl
    refine ⟨.rdma, hplot, ?_⟩
    simp only [prepareRecord, hkey]
    simp [lineFields, rdmaResultFields, countFields, statFields, decimal, percentilesAt, pyInt_toDigits,
      pyFloat_toDigits, record, statPercentiles, n_success, n_failure, n_weird, networkStat, hostStats,
      DestResult.dstip, ts_start, ts_end]
  | tcpudp dstip info network_stat =>
    have hplot : plotType protocol = some .tcpudp := by
      rcases hkind with rfl | rfl <;> rfl
    refine ⟨.tcpudp, hplot, ?_⟩
    simp only [prepareRecord, hkey]
    simp [lineFields, tcpudpResultFields, countFields, statFields, decimal, percentilesAt, pyInt_toDigits,
      pyFloat_toDigits, record, statPercentiles, n_success, n_failure, n_weird, networkStat, hostStats,
      DestResult.dstip, ts_start, ts_end]

theorem n_failure_lineFields (timestampNsToString : UInt64 → Text) (srcip : Text) (x : DestResult) :
    (x.lineFields timestampNsToString srcip)[5]?.bind pyInt = some (x.n_failure.toNat : Int) := by
  cases x <;> exact pyInt_toDigits _

theorem networkMeanLat_lineFields (timestampNsToString : UInt64 → Text) (srcip : Text)
    (hkind : x.Of protocol) : networkMeanLat protocol (x.lineFields timestampNsToString srcip) =
      some (some (x.networkStat.mean.toNat : Int)) := by
  cases x with
  | rdma dstip info client_stat network_stat server_stat =>
    have hmean : (lineFields timestampNsToString srcip
        (.rdma dstip info client_stat network_stat server_stat))[14]?.bind pyInt =
        some (network_stat.mean.toNat : Int) := pyInt_toDigits _
    have hrdma : protocol = ['r', 'o', 'c', 'e'] ∨ protocol = ['i', 'b'] := hkind
    rw [networkMeanLat, if_pos hrdma, hmean]
    rfl
  | tcpudp dstip info network_stat =>
    have hother : ¬(protocol = ['r', 'o', 'c', 'e'] ∨ protocol = ['i', 'b']) := by
      rcases hkind with rfl | rfl <;> decide
    have hmean : (lineFields timestampNsToString srcip (.tcpudp dstip info network_stat))[8]?.bind pyInt =
        some (network_stat.mean.toNat : Int) := pyInt_toDigits _
    have htcpudp : protocol = ['t', 'c', 'p'] ∨ protocol = ['u', 'd', 'p'] := hkind
    rw [networkMeanLat, if_neg hother, if_pos htcpudp, hmean]
    rfl

theorem newTsEnd_lineFields (strptime : Text → Option DateTime) (timestampNsToString : UInt64 → Text)
    (srcip : Text) (x : DestResult) : newTsEnd strptime (x.lineFields timestampNsToString srcip) =
      strptime ((timestampNsToString x.ts_end).take 26) := by
  cases x <;> rfl

end DestResult

/-- The collector splits the report into its lines again. -/
theorem messageLines_aggResult {lines : List Text} (hne : lines ≠ [])
    (htrim : ∀ l ∈ lines, Trimmed l ∧ l ≠ []) (hnewline : ∀ l ∈ lines, '\n' ∉ l) :
    messageLines (aggResult lines) = lines := by
  have hagg : aggResult lines = List.intercalate ['\n'] lines ++ ['\n'] := by
    clear htrim hnewline
    induction lines with
    | nil => exact absurd rfl hne
    | cons l lines ih =>
      cases lines with
      | nil => simp [aggResult]
      | cons l' lines =>
        rw [aggResult, List.flatMap_cons, ← aggResult, ih (List.cons_ne_nil _ _),
          List.intercalate_cons_cons]
        simp only [List.append_assoc]
  have hedges : Trimmed (List.intercalate ['\n'] lines) := by
    obtain ⟨l, rest, rfl⟩ := List.exists_cons_of_ne_nil hne
    have hl := htrim l List.mem_cons_self
    constructor
    · rw [head?_intercalate ['\n'] rest hl.2]
      exact hl.1.1
    · rcases List.eq_nil_or_concat (l :: rest) with hnil | ⟨init, last, hcat⟩
      · cases hnil
      · have hlast := htrim last (by rw [hcat]; simp)
        rw [hcat, List.concat_eq_append, getLast?_intercalate ['\n'] init hlast.2]
        exact hlast.1.2
  rw [messageLines, hagg, strip_append hedges (List.forall_mem_singleton.mpr (by decide))]
  exact List.splitOn_intercalate _ hnewline hne

theorem store_of_newer (strptime : Text → Option DateTime) {protocol : Text} {lines : List Text} {r : Redis}
    (hkeys : (lines.map fun l => lineKey protocol (fields l)).Nodup)
    (hnewer : ∀ l ∈ lines, ∃ ts cur, Taken strptime protocol l ts ∧
      currTsEnd strptime (r.store (lineKey protocol (fields l))) = some cur ∧ cur < ts) :
    (∀ l ∈ lines, (processCollectedMessage strptime r protocol lines).store (lineKey protocol (fields l)) =
      some (lineValue (fields l))) ∧
    ∀ key, key ∉ (lines.map fun l => lineKey protocol (fields l)) →
      (processCollectedMessage strptime r protocol lines).store key = r.store key := by
  induction lines generalizing r with
  | nil => exact ⟨fun l hl => absurd hl List.not_mem_nil, fun _ _ => rfl⟩
  | cons line lines ih =>
    obtain ⟨ts, cur, htaken, hcur, hlt⟩ := hnewer line List.mem_cons_self
    obtain ⟨hgo, hstore⟩ := processLine_of_taken htaken hcur
    rw [if_pos hlt] at hstore
    rw [List.map_cons, List.nodup_cons] at hkeys
    have hstep : processCollectedMessage strptime r protocol (line :: lines) =
        processCollectedMessage strptime (processLine strptime r protocol line).1 protocol lines := by
      rw [processCollectedMessage_cons, if_pos hgo]
    have hother : ∀ l ∈ lines, lineKey protocol (fields l) ≠ lineKey protocol (fields line) := by
      intro l hl heq
      exact hkeys.1 (heq ▸ List.mem_map_of_mem hl)
    obtain ⟨hstored, hframe⟩ := ih hkeys.2 (r := (processLine strptime r protocol line).1) (by
      intro l hl
      obtain ⟨ts', cur', htaken', hcur', hlt'⟩ := hnewer l (List.mem_cons_of_mem _ hl)
      refine ⟨ts', cur', htaken', ?_, hlt'⟩
      rw [hstore, Function.update_of_ne (hother l hl)]
      exact hcur')
    rw [hstep]
    constructor
    · intro l hl
      rcases List.mem_cons.mp hl with rfl | hl
      · rw [hframe _ hkeys.1, hstore, Function.update_self]
      · exact hstored l hl
    · intro key hkey
      rw [List.map_cons, List.mem_cons, not_or] at hkey
      rw [hframe key hkey.2, hstore, Function.update_of_ne hkey.1]

/-- Everything that a report says about a destination comes out at the plotter and at the
thresholds, once its time stamp parses and is newer than the one stored. -/
theorem report_round_trip (strptime : Text → Option DateTime) (timestampNsToString : UInt64 → Text)
    (r : Redis) (protocol srcip : Text) (results : List DestResult)
    (hkind : ∀ x ∈ results, x.Of protocol) (hsrc : (inetPton srcip).isSome)
    (hdst : ∀ x ∈ results, (inetPton x.dstip).isSome) (hdistinct : (results.map DestResult.dstip).Nodup)
    (htext : ∀ x ∈ results, ∀ t ∈ [x.ts_start, x.ts_end],
      ',' ∉ timestampNsToString t ∧ '\n' ∉ timestampNsToString t)
    (hnewer : ∀ x ∈ results, ∃ ts cur, strptime ((timestampNsToString x.ts_end).take 26) = some ts ∧
      currTsEnd strptime (r.store (x.key protocol srcip)) = some cur ∧ cur < ts) :
    ∀ x ∈ results, RoundTrip timestampNsToString protocol srcip
      (processCollectedMessage strptime r protocol
        (messageLines (aggResult (results.map (DestResult.line timestampNsToString srcip))))) x := by
  have hstart : ∀ x ∈ results, ',' ∉ timestampNsToString x.ts_start ∧ '\n' ∉ timestampNsToString x.ts_start :=
    fun x hx => htext x hx _ List.mem_cons_self
  have hend : ∀ x ∈ results, ',' ∉ timestampNsToString x.ts_end ∧ '\n' ∉ timestampNsToString x.ts_end :=
    fun x hx => htext x hx _ (List.mem_cons_of_mem _ List.mem_cons_self)
  have hfields : ∀ x ∈ results,
      fields (x.line timestampNsToString srcip) = x.lineFields timestampNsToString srcip :=
    fun x hx => DestResult.fields_line hsrc (hdst x hx) (hstart x hx).1 (hend x hx).1
  have hkey : ∀ x ∈ results,
      lineKey protocol (fields (x.line timestampNsToString srcip)) = x.key protocol srcip := by
    intro x hx
    rw [hfields x hx, DestResult.lineKey_lineFields]
  intro x hx
  have hlines : messageLines (aggResult (results.map (DestResult.line timestampNsToString srcip))) =
      results.map (DestResult.line timestampNsToString srcip) := by
    apply messageLines_aggResult
    · exact List.ne_nil_of_mem (List.mem_map_of_mem hx)
    · intro l hl
      obtain ⟨y, -, rfl⟩ := List.mem_map.mp hl
      exact DestResult.line_trimmed timestampNsToString hsrc y
    · intro l hl
      obtain ⟨y, hy, rfl⟩ := List.mem_map.mp hl
      rw [DestResult.line_eq]
      exact not_mem_intercalate (by decide) (DestResult.not_mem_lineFields (by decide) (by decide)
        (by decide) (by decide) (by decide) hsrc (hdst y hy) (hstart y hy).2 (hend y hy).2)
  rw [hlines]
  have hkeys : ((results.map (DestResult.line timestampNsToString srcip)).map
      fun l => lineKey protocol (fields l)).Nodup := by
    rw [List.map_map]
    have hmap : results.map ((fun l => lineKey protocol (fields l)) ∘
        DestResult.line timestampNsToString srcip) =
        (results.map DestResult.dstip).map fun d => protocol ++ ',' :: (srcip ++ ',' :: d) := by
      rw [List.map_map]
      exact List.map_congr_left hkey
    rw [hmap]
    apply hdistinct.map
    intro d d' hd
    exact (List.cons.inj (List.append_cancel_left (List.cons.inj (List.append_cancel_left hd)).2)).2
  have hstored := (store_of_newer strptime (r := r) hkeys (by
    intro l hl
    obtain ⟨y, hy, rfl⟩ := List.mem_map.mp hl
    obtain ⟨ts, cur, hts, hcur, hlt⟩ := hnewer y hy
    refine ⟨ts, cur, ⟨?_, ?_⟩, ?_, hlt⟩
    · rw [hfields y hy, DestResult.newTsEnd_lineFields]
      exact hts
    · rw [hfields y hy, checkStream, DestResult.n_failure_lineFields,
        DestResult.networkMeanLat_lineFields _ _ (hkind y hy)]
      rfl
    · rw [hkey y hy]
      exact hcur)).1 _ (List.mem_map_of_mem hx)
  rw [hkey x hx, hfields x hx] at hstored
  obtain ⟨plot_type, hplot, hrecord⟩ := DestResult.prepareRecord_lineFields
    timestampNsToString hsrc (hdst x hx) (hkind x hx)
  have hcomma : ∀ f ∈ x.lineFields timestampNsToString srcip, ',' ∉ f :=
    DestResult.not_mem_lineFields (by decide) (by decide) (by decide) (by decide) (by decide) hsrc
      (hdst x hx) (hstart x hx).1 (hend x hx).1
  have hlen : 3 ≤ (x.lineFields timestampNsToString srcip).length := by
    cases x <;> simp [DestResult.lineFields, rdmaResultFields, tcpudpResultFields]
  refine ⟨⟨_, plot_type, hstored, hplot, ?_⟩, ?_, ?_⟩
  · rw [splitOn_lineValue hcomma hlen, hrecord]
  · rw [hfields x hx, DestResult.n_failure_lineFields]
  · rw [hfields x hx, DestResult.networkMeanLat_lineFields _ _ (hkind x hx)]

/-- The address 10.0.0.1. -/
def exampleSrc : Text := ['1', '0', '.', '0', '.', '0', '.', '1']

/-- A TCP result for 10.0.0.2. -/
def exampleResult : DestResult :=
  .tcpudp ['1', '0', '.', '0', '.', '0', '.', '2'] ⟨3, 1, 0, 7, 8, [20, 30, 25]⟩ ⟨25, 30, 25, 30, 30⟩

def exampleTimestamp : Text :=
  ['2', '0', '2', '4', '-', '1', '2', '-', '0', '1', ' ', '1', '0', ':', '0', '0', ':', '0', '0', '.', '0',
    '0', '0', '0', '0', '0', '0', '0', '1']

theorem exampleResult_of : exampleResult.Of ['t', 'c', 'p'] := Or.inl rfl

theorem exampleSrc_isSome : (inetPton exampleSrc).isSome := by decide +kernel

theorem exampleResult_dstip_isSome : (inetPton exampleResult.dstip).isSome := by decide +kernel

theorem report_round_trip_example :
    RoundTrip (fun _ => exampleTimestamp) ['t', 'c', 'p'] exampleSrc
      (processCollectedMessage strptimeMicros emptyRedis ['t', 'c', 'p'] (messageLines (aggResult
        ([exampleResult].map (DestResult.line (fun _ => exampleTimestamp) exampleSrc))))) exampleResult := by
  refine report_round_trip strptimeMicros (fun _ => exampleTimestamp) emptyRedis ['t', 'c', 'p'] exampleSrc
    [exampleResult] ?_ exampleSrc_isSome ?_ ?_ ?_ ?_ exampleResult List.mem_cons_self
  · intro x hx
    rw [List.mem_singleton.mp hx]
    exact exampleResult_of
  · intro x hx
    rw [List.mem_singleton.mp hx]
    exact exampleResult_dstip_isSome
  · exact List.nodup_singleton _
  · intro x _ t _
    exact ⟨by decide, by decide⟩
  · intro x _
    have hparse : strptimeMicros (exampleTimestamp.take 26) = some 63868644000000000 := by decide +kernel
    exact ⟨63868644000000000, 0, hparse, rfl, by decide⟩

/-- A time stamp that does not parse ends the call before anything is stored. -/
theorem not_report_round_trip :
    exampleResult.Of ['t', 'c', 'p'] ∧ (inetPton exampleSrc).isSome ∧
      (inetPton exampleResult.dstip).isSome ∧ ',' ∉ ['x'] ∧ '\n' ∉ ['x'] ∧
      ¬RoundTrip (fun _ => ['x']) ['t', 'c', 'p'] exampleSrc
        (processCollectedMessage strptimeMicros emptyRedis ['t', 'c', 'p'] (messageLines (aggResult
          ([exampleResult].map (DestResult.line (fun _ => ['x']) exampleSrc))))) exampleResult := by
  refine ⟨exampleResult_of, exampleSrc_isSome, exampleResult_dstip_isSome, by decide, by decide, ?_⟩
  intro h
  obtain ⟨value, -, hstored, -⟩ := h.plotted
  have hline : fields (exampleResult.line (fun _ => ['x']) exampleSrc) =
      exampleResult.lineFields (fun _ => ['x']) exampleSrc :=
    DestResult.fields_line exampleSrc_isSome exampleResult_dstip_isSome (by decide) (by decide)
  have hlines : messageLines (aggResult ([exampleResult].map (DestResult.line (fun _ => ['x']) exampleSrc))) =
      [exampleResult.line (fun _ => ['x']) exampleSrc] := by
    apply messageLines_aggResult
    · exact List.cons_ne_nil _ _
    · intro l hl
      rw [List.mem_singleton.mp hl]
      exact DestResult.line_trimmed _ exampleSrc_isSome _
    · intro l hl
      rw [List.mem_singleton.mp hl, DestResult.line_eq]
      exact not_mem_intercalate (by decide) (DestResult.not_mem_lineFields (by decide) (by decide)
        (by decide) (by decide) (by decide) exampleSrc_isSome exampleResult_dstip_isSome (by decide)
        (by decide))
  have hstamp : newTsEnd strptimeMicros (fields (exampleResult.line (fun _ => ['x']) exampleSrc)) = none := by
    rw [hline, DestResult.newTsEnd_lineFields]
    decide +kernel
  have hnone : processCollectedMessage strptimeMicros emptyRedis ['t', 'c', 'p']
      [exampleResult.line (fun _ => ['x']) exampleSrc] = emptyRedis := by
    rw [processCollectedMessage_cons, processLine_of_stamp_none hstamp, processCollectedMessage, ite_self]
  rw [hlines, hnone] at hstored
  cases hstored

end Pingweave
