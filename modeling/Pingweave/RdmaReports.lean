import Mathlib.Algebra.Order.Field.Rat
import Pingweave.RdmaSoftwareStamps
import Pingweave.ReportRoundTrip

/-!
# The reports of the RDMA client

The result thread of `rdma_client.cpp` behind the other threads, the report lines that it writes,
and what the plotter shows for them: the network percentiles of a report are zero if and only if no
ping of its window succeeded.
-/

namespace Pingweave
open ExpiryTable RdmaPinginfoMap Collector HeatmapPlotter
open RdmaClient (exampleConfig exampleDstip examplePingid)
set_option autoImplicit false

/-- The fields of `struct tm` that the time stamps show, `year` with the century. -/
structure Tm where
  year : Nat
  month : Nat
  day : Nat
  hour : Nat
  minute : Nat
  second : Nat

def zeroPadded (width n : Nat) : Text := List.leftpad width '0' (Nat.toDigits 10 n)

/-- `strftime` with `%Y-%m-%d %H:%M:%S`. -/
def strftime (tm : Tm) : Text :=
  decimal tm.year ++ '-' :: zeroPadded 2 tm.month ++ '-' :: zeroPadded 2 tm.day ++ ' ' :: zeroPadded 2 tm.hour ++
    ':' :: zeroPadded 2 tm.minute ++ ':' :: zeroPadded 2 tm.second

/-- `timestamp_ns_to_string`, given what `localtime` makes of a number of seconds. -/
def timestampNsToString (localtime : Nat → Tm) (timestamp_ns : UInt64) : Text :=
  strftime (localtime (timestamp_ns.toNat / 1000000000)) ++
    '.' :: zeroPadded 9 (timestamp_ns.toNat % 1000000000)

/-- What the result thread does to the history of a message's destination. -/
def RdmaResultInfo.record (info : RdmaResultInfo) (m : RdmaResultMsg) : RdmaResultInfo :=
  let stamped : RdmaResultInfo :=
    { info with
      ts_start := if info.ts_start = 0 then m.time_ping_send else info.ts_start
      ts_end := m.time_ping_send }
  match m.result with
  | .success =>
    { stamped with
      n_success := stamped.n_success + 1
      client_delays := stamped.client_delays ++ [m.client_delay]
      network_delays := stamped.network_delays ++ [m.network_delay]
      server_delays := stamped.server_delays ++ [m.server_delay] }
  | .failure => { stamped with n_failure := stamped.n_failure + 1 }
  | .weird => { stamped with n_weird := stamped.n_weird + 1 }

/-- `dstip2result` -/
abbrev RdmaHistory := Finmap fun _ : UInt32 => RdmaResultInfo

namespace RdmaHistory

/-- `dstip2result[dstip]`, where a missing entry starts as a default one. -/
def entryAt (h : RdmaHistory) (dstip : UInt32) : RdmaResultInfo := (h.lookup dstip).getD {}

def record (h : RdmaHistory) (m : RdmaResultMsg) : RdmaHistory :=
  h.insert m.dstip ((h.entryAt m.dstip).record m)

end RdmaHistory

/-- A report that was sent off, and the messages of its window. -/
structure RdmaReport where
  window : List RdmaResultMsg
  history : RdmaHistory

/-- The client with its result thread. The queue between them holds what `client.enqueued` has from
position `taken` on; `window` records what was taken since the last report. -/
structure RdmaResultThread where
  client : RdmaClient
  taken : Nat
  dstip2result : RdmaHistory
  last_report_time : TimePoint
  window : List RdmaResultMsg
  reports : List RdmaReport

namespace RdmaResultThread

/-- A step of the other threads, or one turn of the loop, with or without a message, where `now` is
the clock that it reads for the report. -/
inductive Action where
  | client (a : RdmaClient.Action)
  | turn (dequeues : Bool) (now : TimePoint)
  deriving DecidableEq, Repr

def init (start : TimePoint) : RdmaResultThread := ⟨RdmaClient.init, 0, ∅, start, [], []⟩

/-- `wait_dequeue_timed` returned a message. -/
def dequeue (s : RdmaResultThread) : RdmaResultThread :=
  match s.client.enqueued[s.taken]? with
  | none => s
  | some m =>
    { s with
      taken := s.taken + 1
      dstip2result := s.dstip2result.record m
      window := s.window ++ [m] }

/-- The check of the report interval at the end of a turn. -/
def checkReport (report_interval_ms : Int) (s : RdmaResultThread) (now : TimePoint) : RdmaResultThread :=
  if report_interval_ms ≤ elapsedMs now s.last_report_time then
    { s with
      reports := s.reports ++ [⟨s.window, s.dstip2result⟩]
      dstip2result := ∅
      window := []
      last_report_time := now }
  else s

def step (cfg : RdmaClientConfig) (report_interval_ms : Int) (s : RdmaResultThread) : Action → RdmaResultThread
  | .client a => { s with client := RdmaClient.step cfg s.client a }
  | .turn dequeues now => checkReport report_interval_ms (if dequeues then s.dequeue else s) now

abbrev run (cfg : RdmaClientConfig) (report_interval_ms : Int) (s : RdmaResultThread) (as : List Action) :
    RdmaResultThread :=
  Runs.run (step cfg report_interval_ms) s as

end RdmaResultThread

/-- The line of a destination in a report. -/
def reportLine (localtime : Nat → Tm) (ipv4 : Text) (dstip : UInt32) (result_info : RdmaResultInfo) : Text :=
  convertRdmaResultToStr (timestampNsToString localtime) ipv4 (uint2ip dstip) result_info
    (calcResultStats result_info.client_delays) (calcResultStats result_info.network_delays)
    (calcResultStats result_info.server_delays)

section Text

theorem isDigit_of_mem_zeroPadded {width n : Nat} {c : Char} (h : c ∈ zeroPadded width n) : c.isDigit := by
  rcases List.mem_append.mp h with hpad | hdigit
  · rw [List.eq_of_mem_replicate hpad]
    rfl
  · exact isDigit_of_mem_toDigits hdigit

theorem comma_not_mem_timestamp (localtime : Nat → Tm) (timestamp_ns : UInt64) :
    ',' ∉ timestampNsToString localtime timestamp_ns := by
  have hpad : ∀ width n, ',' ∉ zeroPadded width n := by
    intro width n hmem
    exact absurd (isDigit_of_mem_zeroPadded hmem) (by decide)
  have hyear : ∀ n, ',' ∉ decimal n := not_mem_decimal (by decide)
  simp [timestampNsToString, strftime, hpad, hyear]

end Text

def succeeded (window : List RdmaResultMsg) (dstip : UInt32) : List RdmaResultMsg :=
  window.filter fun m => m.dstip = dstip ∧ m.result = .success

/-- An entry counts and keeps the successes `ms`, and takes nothing else in. -/
structure RdmaResultInfo.Tallies (info : RdmaResultInfo) (ms : List RdmaResultMsg) : Prop where
  n_success : info.n_success = UInt32.ofNat ms.length
  client_delays : info.client_delays = ms.map RdmaResultMsg.client_delay
  network_delays : info.network_delays = ms.map RdmaResultMsg.network_delay
  server_delays : info.server_delays = ms.map RdmaResultMsg.server_delay

namespace RdmaResultInfo.Tallies
variable {info : RdmaResultInfo} {ms : List RdmaResultMsg} {m : RdmaResultMsg}

theorem success (h : info.Tallies ms) (hr : m.result = .success) : (info.record m).Tallies (ms ++ [m]) where
  n_success := by
    rw [List.length_append, List.length_singleton, UInt32.ofNat_add, ← h.n_success]
    simp [record, hr]
  client_delays := by
    rw [List.map_append, ← h.client_delays]
    simp [record, hr]
  network_delays := by
    rw [List.map_append, ← h.network_delays]
    simp [record, hr]
  server_delays := by
    rw [List.map_append, ← h.server_delays]
    simp [record, hr]

theorem other (h : info.Tallies ms) (hr : m.result ≠ .success) : (info.record m).Tallies ms := by
  cases hm : m.result with
  | success => exact absurd hm hr
  | failure =>
    simp only [record, hm]
    exact ⟨h.n_success, h.client_delays, h.network_delays, h.server_delays⟩
  | weird =>
    simp only [record, hm]
    exact ⟨h.n_success, h.client_delays, h.network_delays, h.server_delays⟩

end RdmaResultInfo.Tallies

namespace RdmaHistory

/-- Every destination's entry tallies the successes that the window has for it. -/
def Tallies (history : RdmaHistory) (window : List RdmaResultMsg) : Prop :=
  ∀ dst, (history.entryAt dst).Tallies (succeeded window dst)

theorem tallies_nil : Tallies ∅ [] := fun _ => ⟨rfl, rfl, rfl, rfl⟩

theorem entryAt_record (h : RdmaHistory) (m : RdmaResultMsg) (dst : UInt32) :
    (h.record m).entryAt dst = if m.dstip = dst then (h.entryAt dst).record m else h.entryAt dst := by
  split
  · rename_i hd
    subst hd
    rw [entryAt, record, Finmap.lookup_insert]
    rfl
  · rename_i hd
    rw [entryAt, record, Finmap.lookup_insert_of_ne _ (Ne.symm hd)]
    rfl

theorem Tallies.record {history : RdmaHistory} {window : List RdmaResultMsg} (h : history.Tallies window)
    (m : RdmaResultMsg) : (history.record m).Tallies (window ++ [m]) := by
  intro dst
  have hd := h dst
  rw [entryAt_record]
  by_cases hm : m.dstip = dst
  · rw [if_pos hm]
    by_cases hr : m.result = .success
    · have hnew : succeeded (window ++ [m]) dst = succeeded window dst ++ [m] := by
        simp [succeeded, hm, hr]
      rw [hnew]
      exact hd.success hr
    · have hsame : succeeded (window ++ [m]) dst = succeeded window dst := by
        simp [succeeded, hr]
      rw [hsame]
      exact hd.other hr
  · have hsame : succeeded (window ++ [m]) dst = succeeded window dst := by
      simp [succeeded, hm]
    rw [if_neg hm, hsame]
    exact hd

end RdmaHistory

/-- A success has taken more time on the network than at the server. -/
theorem network_delay_pos {c : RdmaClient} (h : c.Booked) {m : RdmaResultMsg} (hm : m ∈ c.enqueued)
    (hr : m.result = .success) : 0 < m.network_delay := by
  have hok : c.book.Ok := Book.run_ok _ _
  rw [h.enqueued] at hm
  obtain ⟨l, hl, hml⟩ := List.mem_flatMap.mp ((Book.enqueued_perm _ _).mem_iff.mp hm)
  obtain ⟨i, hi⟩ := List.mem_iff_getElem?.mp hl
  cases hheld : l.held c.book.table i with
  | some e =>
    rw [(hok.live i l hi (hheld ▸ rfl)).quiet] at hml
    cases hml
  | none =>
    cases hok.gone i l hi hheld with
    | completed unexpired complete sent =>
      rw [sent] at hml
      split at hml
      · obtain rfl := List.mem_singleton.mp hml
        simp only [RdmaPinginfo.report] at hr ⊢
        split at hr
        · cases hr
        · rename_i hlt
          have hgt : l.value.network_delay > l.value.server_delay := UInt64.not_le.mp hlt
          rw [if_pos hgt, UInt64.lt_iff_toNat_lt, UInt64.toNat_sub_of_le _ _ (UInt64.le_of_lt hgt)]
          have hnat := UInt64.lt_iff_toNat_lt.mp hgt
          simp only [UInt64.reduceToNat]
          omega
      · cases hml
    | expired out missing sent =>
      rw [sent, Option.mem_toList] at hml
      unfold RdmaPinginfo.expireReport at hml
      split at hml
      · cases hml
      · cases hml
        cases hr

namespace RdmaResultThread

/-- The invariant of the result thread: what it tallies are messages of the client. -/
structure Ok (s : RdmaResultThread) : Prop where
  booked : s.client.Booked
  window : s.dstip2result.Tallies s.window
  sent : ∀ m ∈ s.window, m ∈ s.client.enqueued
  reports : ∀ r ∈ s.reports, r.history.Tallies r.window ∧ ∀ m ∈ r.window, m ∈ s.client.enqueued

theorem init_ok (start : TimePoint) : (init start).Ok where
  booked := RdmaClient.booked_init
  window := RdmaHistory.tallies_nil
  sent := fun _ hm => absurd hm List.not_mem_nil
  reports := fun _ hr => absurd hr List.not_mem_nil

namespace Ok
variable {s : RdmaResultThread}

theorem dequeue (h : s.Ok) : s.dequeue.Ok := by
  unfold RdmaResultThread.dequeue
  split
  · exact h
  · rename_i m hm
    refine ⟨h.booked, h.window.record m, ?_, h.reports⟩
    intro m' hm'
    rcases List.mem_append.mp hm' with hold | hlast
    · exact h.sent m' hold
    · rw [List.mem_singleton.mp hlast]
      exact List.mem_of_getElem? hm

theorem checkReport (h : s.Ok) (report_interval_ms : Int) (now : TimePoint) :
    (s.checkReport report_interval_ms now).Ok := by
  unfold RdmaResultThread.checkReport
  split
  · refine ⟨h.booked, RdmaHistory.tallies_nil, fun _ hm => absurd hm List.not_mem_nil, ?_⟩
    intro r hr
    rcases List.mem_append.mp hr with hold | hlast
    · exact h.reports r hold
    · rw [List.mem_singleton.mp hlast]
      exact ⟨h.window, h.sent⟩
  · exact h

theorem client (h : s.Ok) (cfg : RdmaClientConfig) (a : RdmaClient.Action) :
    Ok { s with client := RdmaClient.step cfg s.client a } := by
  have hmem : ∀ m ∈ s.client.enqueued, m ∈ (RdmaClient.step cfg s.client a).enqueued := by
    refine RdmaClient.step_induction (P := fun c => ∀ m ∈ s.client.enqueued, m ∈ c.enqueued) (fun _ hm => hm) ?_
    intro c' hstep m hm
    cases hstep <;> first | exact hm | exact List.mem_append_left _ hm
  exact ⟨h.booked.step a, h.window, fun m hm => hmem m (h.sent m hm),
    fun r hr => ⟨(h.reports r hr).1, fun m hm => hmem m ((h.reports r hr).2 m hm)⟩⟩

theorem step (h : s.Ok) (cfg : RdmaClientConfig) (report_interval_ms : Int) (a : Action) :
    (RdmaResultThread.step cfg report_interval_ms s a).Ok := by
  cases a with
  | client a => exact h.client cfg a
  | turn dequeues now =>
    cases dequeues with
    | true => exact h.dequeue.checkReport report_interval_ms now
    | false => exact h.checkReport report_interval_ms now

end Ok

theorem run_ok (cfg : RdmaClientConfig) (report_interval_ms : Int) (start : TimePoint) (as : List Action) :
    (run cfg report_interval_ms (init start) as).Ok :=
  Runs.run_invariant (fun _ a h => h.step cfg report_interval_ms a) (init_ok start) as

end RdmaResultThread

/-- The plotter reads the network percentiles of the report off the stored line. -/
theorem prepareRecord_reportLine (localtime : Nat → Tm) {ipv4 : Text} (hsrc : (inetPton ipv4).isSome)
    (dstip : UInt32) (info : RdmaResultInfo) :
    ∃ record, prepareRecord (ipv4 ++ ',' :: uint2ip dstip)
        ((lineValue (fields (reportLine localtime ipv4 dstip info))).splitOn ',') .rdma = some record ∧
      record.network = statPercentiles (calcResultStats info.network_delays) := by
  let x : DestResult := .rdma (uint2ip dstip) info (calcResultStats info.client_delays)
    (calcResultStats info.network_delays) (calcResultStats info.server_delays)
  have hdst : (inetPton x.dstip).isSome := Option.isSome_iff_exists.mpr ⟨dstip, inetPton_uint2ip dstip⟩
  have hstart := comma_not_mem_timestamp localtime x.ts_start
  have hend := comma_not_mem_timestamp localtime x.ts_end
  have hline : reportLine localtime ipv4 dstip info = x.line (timestampNsToString localtime) ipv4 := rfl
  have hfields := DestResult.fields_line hsrc hdst hstart hend
  have hcomma : ∀ f ∈ x.lineFields (timestampNsToString localtime) ipv4, ',' ∉ f :=
    DestResult.not_mem_lineFields (by decide) (by decide) (by decide) (by decide) (by decide) hsrc hdst hstart hend
  have hlen : 3 ≤ (x.lineFields (timestampNsToString localtime) ipv4).length := by
    simp [x, DestResult.lineFields, rdmaResultFields]
  have hkind : x.Of ['i', 'b'] := Or.inr rfl
  obtain ⟨plot_type, hplot, hrecord⟩ := DestResult.prepareRecord_lineFields (timestampNsToString localtime) hsrc
    hdst hkind
  cases hplot
  have hdstip : x.dstip = uint2ip dstip := rfl
  rw [hdstip] at hrecord
  rw [hline, hfields, splitOn_lineValue hcomma hlen]
  exact ⟨_, hrecord, rfl⟩

/-- Whatever the steps are, only the delay zero has the colour of a failure. -/
theorem colorIndex_failure_iff (n : Nat) (step0 step1 step2 : Rat) :
    mapValueToColorIndexPingDelay n step0 step1 step2 = some 1 ↔ n = 0 := by
  unfold mapValueToColorIndexPingDelay
  have hnonneg : (0 : Rat) ≤ n := Nat.cast_nonneg n
  have hnot : ¬ (n : Rat) ≤ -1 := by
    intro hle
    have hlt : (-1 : Rat) < 0 := by decide
    exact absurd (hnonneg.trans hle) (not_le.mpr hlt)
  rw [if_neg hnot]
  by_cases hn : n = 0
  · subst hn
    rw [if_pos ⟨by decide, le_refl _⟩]
    simp
  · have hpos : ¬ (n : Rat) ≤ 0 := by
      rw [not_le, Nat.cast_pos]
      exact Nat.pos_of_ne_zero hn
    rw [if_neg fun h => hpos h.2]
    refine iff_of_false ?_ hn
    split
    · decide
    · split
      · decide
      · split
        · decide
        · split <;> decide

/-- What the plotter shows for a destination of a report. -/
structure ShowsSuccesses (r : RdmaReport) (dstip : UInt32) (network : Percentiles) : Prop where
  noSuccess : succeeded r.window dstip = [] → network = ⟨0, 0, 0⟩
  someSuccess : succeeded r.window dstip ≠ [] → 1 ≤ network.p50 ∧ 1 ≤ network.p95 ∧ 1 ≤ network.p99
  failureColor : ∀ step0 step1 step2 : Rat, ∀ value ∈ [network.p50, network.p95, network.p99],
    (mapValueToColorIndexPingDelay value step0 step1 step2 = some 1 ↔ succeeded r.window dstip = [])

/-- The percentiles of a sample of positive delays are positive. -/
theorem showsSuccesses_of_delays {r : RdmaReport} {dstip : UInt32} {delays : List UInt64}
    (hdelays : delays = (succeeded r.window dstip).map RdmaResultMsg.network_delay) (hpos : ∀ d ∈ delays, 0 < d) :
    ShowsSuccesses r dstip (statPercentiles (calcResultStats delays)) := by
  have hnil : succeeded r.window dstip = [] ↔ delays = [] := by
    rw [hdelays, List.map_eq_nil_iff]
  by_cases hd : delays = []
  · subst hd
    have hzero : statPercentiles (calcResultStats []) = ⟨0, 0, 0⟩ := rfl
    rw [hzero]
    refine ⟨fun _ => rfl, fun hne => absurd (hnil.mpr rfl) hne, ?_⟩
    intro step0 step1 step2 value hvalue
    have hv : value = (0 : Nat) := by
      simp only [List.mem_cons, List.not_mem_nil, or_false, or_self] at hvalue
      exact hvalue
    rw [hv, colorIndex_failure_iff 0]
    exact iff_of_true rfl (hnil.mpr rfl)
  · have hmem := calcResultStats_mem hd
    have hnat : ∀ d ∈ delays, 1 ≤ d.toNat := fun d hmemd => UInt64.lt_iff_toNat_lt.mp (hpos d hmemd)
    have h50 := hnat _ hmem.1
    have h95 := hnat _ hmem.2.1
    have h99 := hnat _ hmem.2.2
    refine ⟨fun hempty => absurd (hnil.mp hempty) hd, fun _ => ?_, ?_⟩
    · exact ⟨Nat.one_le_cast.mpr h50, Nat.one_le_cast.mpr h95, Nat.one_le_cast.mpr h99⟩
    · intro step0 step1 step2 value hvalue
      have hcolor : ∀ n : Nat, 1 ≤ n →
          (mapValueToColorIndexPingDelay n step0 step1 step2 = some 1 ↔ succeeded r.window dstip = []) := by
        intro n hn
        rw [colorIndex_failure_iff n, hnil]
        exact iff_of_false (Nat.ne_of_gt hn) hd
      simp only [List.mem_cons, List.not_mem_nil, or_false, statPercentiles] at hvalue
      rcases hvalue with rfl | rfl | rfl
      · exact hcolor _ h50
      · exact hcolor _ h95
      · exact hcolor _ h99

/-- What the plotter shows for a report of a client in good order. -/
theorem RdmaResultThread.Ok.shows {s : RdmaResultThread} (h : s.Ok) {ipv4 : Text} (hsrc : (inetPton ipv4).isSome)
    (localtime : Nat → Tm) {r : RdmaReport} (hr : r ∈ s.reports) {dstip : UInt32} {info : RdmaResultInfo}
    (hinfo : r.history.lookup dstip = some info) :
    info.Tallies (succeeded r.window dstip) ∧
    ∃ record, prepareRecord (ipv4 ++ ',' :: uint2ip dstip)
        ((lineValue (fields (reportLine localtime ipv4 dstip info))).splitOn ',') .rdma = some record ∧
      ShowsSuccesses r dstip record.network := by
  obtain ⟨htallies, hsent⟩ := h.reports r hr
  have hentry : r.history.entryAt dstip = info := by
    rw [RdmaHistory.entryAt, hinfo, Option.getD_some]
  have ht : info.Tallies (succeeded r.window dstip) := hentry ▸ htallies dstip
  obtain ⟨record, hrecord, hnetwork⟩ := prepareRecord_reportLine localtime hsrc dstip info
  refine ⟨ht, record, hrecord, ?_⟩
  rw [hnetwork]
  apply showsSuccesses_of_delays ht.network_delays
  intro d hd
  rw [ht.network_delays] at hd
  obtain ⟨m, hm, rfl⟩ := List.mem_map.mp hd
  obtain ⟨hwindow, hsuccess⟩ := List.mem_filter.mp hm
  exact network_delay_pos h.booked (hsent m hwindow) (of_decide_eq_true hsuccess).2

/-- In every run, the network percentiles that the plotter reads off a report are zero if and only
if no ping of the window succeeded for the destination; WEIRD results have no part in them. -/
theorem zero_delay_iff_no_success (cfg : RdmaClientConfig) (hsrc : (inetPton cfg.ipv4).isSome)
    (localtime : Nat → Tm) (report_interval_ms : Int) (start : TimePoint) (as : List RdmaResultThread.Action) :
    ∀ r ∈ (RdmaResultThread.run cfg report_interval_ms (RdmaResultThread.init start) as).reports,
      ∀ dstip info, r.history.lookup dstip = some info →
        info.Tallies (succeeded r.window dstip) ∧
        ((succeeded r.window dstip).length < 4294967296 → (info.n_success = 0 ↔ succeeded r.window dstip = [])) ∧
        ∃ record, prepareRecord (cfg.ipv4 ++ ',' :: uint2ip dstip)
            ((lineValue (fields (reportLine localtime cfg.ipv4 dstip info))).splitOn ',') .rdma = some record ∧
          ShowsSuccesses r dstip record.network := by
  intro r hr dstip info hinfo
  have hok := RdmaResultThread.run_ok cfg report_interval_ms start as
  obtain ⟨ht, hrecord⟩ := hok.shows hsrc localtime hr hinfo
  refine ⟨ht, ?_, hrecord⟩
  intro hlt
  have hn := congrArg UInt32.toNat ht.n_success
  rw [UInt32.toNat_ofNat_of_lt' hlt] at hn
  rw [← List.length_eq_zero_iff, ← hn]
  exact ⟨fun h => congrArg UInt32.toNat h, fun h => UInt32.toNat_inj.mp h⟩

/-- One PING to 10.0.0.2, its completion, its PONG and its ACK, and the turn that takes the result. -/
def answeredPing (pingid : UInt64) : List RdmaResultThread.Action :=
  [.client (.insert exampleDstip 0 0 5), .client (.postSend true), .client (.stamp 100), .client .updatePingCqe,
    .client (.transmit true), .client (.pollTx 0), .client (.receive ⟨PINGWEAVE_OPCODE_PONG, pingid, 0⟩ 200 0),
    .client .handle, .client (.receive ⟨PINGWEAVE_OPCODE_ACK, pingid, 30⟩ 300 0), .client .handle, .turn true 0]

/-- That PING and a report. -/
def answeredActions : List RdmaResultThread.Action := answeredPing examplePingid ++ [.turn false 10000000000]

def answeredRun : RdmaResultThread :=
  RdmaResultThread.run exampleConfig 10000 (RdmaResultThread.init 0) answeredActions

theorem zero_delay_iff_no_success_answered :
    ∃ r ∈ answeredRun.reports, ∃ info, r.history.lookup (ip2uint exampleDstip) = some info ∧
      (succeeded r.window (ip2uint exampleDstip)).length = 1 ∧ info.n_success ≠ 0 ∧
      ∃ record, prepareRecord (exampleConfig.ipv4 ++ ',' :: uint2ip (ip2uint exampleDstip))
          ((lineValue (fields (reportLine (fun _ => ⟨1970, 1, 1, 0, 0, 0⟩) exampleConfig.ipv4 (ip2uint exampleDstip)
            info))).splitOn ',') .rdma = some record ∧
        1 ≤ record.network.p50 ∧ 1 ≤ record.network.p95 ∧ 1 ≤ record.network.p99 := by
  have hsrc : (inetPton exampleConfig.ipv4).isSome := by decide +kernel
  have hlookup : (answeredRun.reports.head?.bind fun r => r.history.lookup (ip2uint exampleDstip)).isSome := by
    decide +kernel
  have hone : (answeredRun.reports.head?.map fun r => (succeeded r.window (ip2uint exampleDstip)).length) =
      some 1 := by
    decide +kernel
  cases hreports : answeredRun.reports with
  | nil =>
    rw [hreports] at hone
    cases hone
  | cons r rest =>
    rw [hreports, List.head?_cons, Option.map_some, Option.some.injEq] at hone
    rw [hreports, List.head?_cons, Option.bind_some] at hlookup
    obtain ⟨info, hinfo⟩ := Option.isSome_iff_exists.mp hlookup
    have hr : r ∈ answeredRun.reports := by
      rw [hreports]
      exact List.mem_cons_self
    obtain ⟨-, hn, record, hrecord, hshows⟩ := zero_delay_iff_no_success exampleConfig hsrc
      (fun _ => ⟨1970, 1, 1, 0, 0, 0⟩) 10000 0 answeredActions r hr (ip2uint exampleDstip) info hinfo
    have hsome : succeeded r.window (ip2uint exampleDstip) ≠ [] := by
      intro hnil
      rw [hnil] at hone
      cases hone
    have hlt : (succeeded r.window (ip2uint exampleDstip)).length < 4294967296 := by
      rw [hone]
      decide
    exact ⟨r, List.mem_cons_self, info, hinfo, hone, fun hzero => hsome ((hn hlt).mp hzero), record, hrecord,
      hshows.someSuccess hsome⟩

section Wrap

/-- The table has the entry `v` of `p` and no other. -/
structure OnlyEntry (t : RdmaPinginfoMap) (p : UInt64) (v : RdmaPinginfo) : Prop where
  entry : t.get p = some v
  others : ∀ key, key ≠ p → t.find key = none

variable {t : RdmaPinginfoMap}

theorem onlyEntry_insert (hempty : ∀ key, t.find key = none) (msg : RdmaPingmsg) :
    OnlyEntry (t.apply (.insert msg exampleDstip 0 0 5)).table msg.pingid (newPinginfo msg exampleDstip 5 0) ∧
      (t.apply (.insert msg exampleDstip 0 0 5)).enqueued = [] := by
  have hnone : ∀ key, (t.expireEntries 0).1.find key = none := fun key => (find_expireEntries_none 0 (hempty key)).1
  have hexpired : t.expired 0 = [] := by
    rw [List.eq_nil_iff_forall_not_mem]
    rintro ⟨key, e⟩ hmem
    have hsome := (t.find_expireEntries_or 0 key e).mpr (Or.inr hmem)
    rw [hempty] at hsome
    cases hsome
  refine ⟨⟨?_, ?_⟩, ?_⟩
  · simp only [apply, insert_none (hnone msg.pingid), RdmaPinginfoMap.get]
    exact congrArg (Option.map Entry.value) (Table.find_emplace_self _ _ _ _)
  · intro key hkey
    simp only [apply, insert_none (hnone msg.pingid)]
    exact (Table.find_emplace_ne _ _ _ hkey).trans (hnone key)
  · rw [enqueued_insert]
    simp only [expireEntries, hexpired, List.filterMap_nil]

theorem onlyEntry_update (hk : t.Keyed) {p : UInt64} {v : RdmaPinginfo} (h : OnlyEntry t p v) (event : Event) :
    ((event.receive v).recv_bitmap ≠ PINGWEAVE_MASK_RECV →
      OnlyEntry (t.apply (.update p event)).table p (event.receive v) ∧ (t.apply (.update p event)).enqueued = []) ∧
    ((event.receive v).recv_bitmap = PINGWEAVE_MASK_RECV → (event.receive v).recv_cnt = 3 →
      (∀ key, (t.apply (.update p event)).table.find key = none) ∧
        (t.apply (.update p event)).enqueued = [(event.receive v).report]) := by
  have hpid := fun v => (receive_frame event v).1
  have hothers : ∀ key, key ≠ p → (t.updateEntry p event.receive).table.find key = none :=
    fun key hkey => (find_updateEntry_ne event.receive hpid hk hkey).trans (h.others key hkey)
  obtain ⟨e, he, rfl⟩ := Option.map_eq_some_iff.mp h.entry
  rw [apply_update]
  rcases updateEntry_cases event.receive hpid hk he with ⟨hb, hfind, hmsg⟩ | ⟨hb, hfind, hmsg⟩
  · refine ⟨fun _ => ⟨⟨?_, hothers⟩, hmsg⟩, fun hfull => absurd hfull hb⟩
    rw [RdmaPinginfoMap.get, hfind]
    rfl
  · refine ⟨fun hmissing => absurd hb hmissing, fun _ hcnt => ⟨?_, ?_⟩⟩
    · intro key
      by_cases hkey : key = p
      · rw [hkey, hfind]
      · exact hothers key hkey
    · rw [hmsg, if_pos hcnt]

/-- The entry of the PING after its three events. -/
def answeredEntry (msg : RdmaPingmsg) : RdmaPinginfo :=
  (((newPinginfo msg exampleDstip 5 0).recvPingCqe 100).recvPong 200 200).recvAck 30

theorem answeredEntry_report (msg : RdmaPingmsg) :
    (answeredEntry msg).report.result = .success ∧ (answeredEntry msg).report.dstip = ip2uint exampleDstip := by
  have hdelta : calcTimeDeltaWithModulo 100 200 PINGWEAVE_TIME_CALC_MODULO = 100 := by decide
  have hnetwork : (answeredEntry msg).network_delay = 100 := by
    simp [answeredEntry, RdmaPinginfo.recvAck, RdmaPinginfo.recvPong, RdmaPinginfo.recvPingCqe, newPinginfo, hdelta]
  have hserver : (answeredEntry msg).server_delay = 30 := rfl
  constructor
  · have hlt : ¬ (100 : UInt64) ≤ 30 := by decide
    simp only [RdmaPinginfo.report, hnetwork, hserver]
    exact if_neg hlt
  · simp [RdmaPinginfo.report, answeredEntry, RdmaPinginfo.recvAck, RdmaPinginfo.recvPong, RdmaPinginfo.recvPingCqe,
      newPinginfo]

/-- A client that waits for its next turn, with no PING on its way. -/
structure RdmaClient.Waiting (c : RdmaClient) : Prop where
  booked : c.Booked
  table : ∀ key, c.table.find key = none
  txSched : c.txSched = .idle
  rx : c.rx = .idle
  sendQueue : c.sendQueue = []
  txCq : c.txCq = []

/-- The table operations of an answered PING. -/
def RdmaClient.answer (c : RdmaClient) : RdmaClient :=
  let msg := nextPing exampleConfig c
  (((c.call (.insert msg exampleDstip 0 0 5)).call (.update msg.pingid (.cqe 100))).call
    (.update msg.pingid (.pong 200 200))).call (.update msg.pingid (.ack 30))

/-- They leave the table empty, and one SUCCESS goes out. -/
theorem RdmaClient.Waiting.answer {c : RdmaClient} (h : c.Waiting) :
    c.answer.Booked ∧ (∀ key, c.answer.table.find key = none) ∧
      c.answer.enqueued = c.enqueued ++ [(answeredEntry (nextPing exampleConfig c)).report] := by
  have keyed : ∀ c : RdmaClient, c.Booked → c.table.Keyed := by
    intro c hc
    rw [hc.table]
    exact (Book.run_ok _ _).keyed
  unfold RdmaClient.answer
  generalize nextPing exampleConfig c = msg
  have hbits : ∀ v : RdmaPinginfo,
      ((Event.cqe 100).receive v).recv_bitmap = v.recv_bitmap ||| PINGWEAVE_MASK_RECV_PING_CQE ∧
      ((Event.pong 200 200).receive v).recv_bitmap = v.recv_bitmap ||| PINGWEAVE_MASK_RECV_PONG ∧
      ((Event.ack 30).receive v).recv_bitmap = v.recv_bitmap ||| PINGWEAVE_MASK_RECV_ACK :=
    fun _ => ⟨rfl, rfl, rfl⟩
  have hinit : (newPinginfo msg exampleDstip 5 0).recv_bitmap = PINGWEAVE_MASK_INIT := rfl
  have hcnt : (answeredEntry msg).recv_cnt = 3 := rfl
  -- after the insert
  obtain ⟨h1, hmsg1⟩ := onlyEntry_insert h.table msg
  have hb1 := h.booked.call (.insert msg exampleDstip 0 0 5)
  -- after the completion of the PING
  obtain ⟨h2, hmsg2⟩ := (onlyEntry_update (keyed _ hb1) h1 (.cqe 100)).1 (by
    rw [(hbits _).1, hinit]
    decide)
  have hb2 := hb1.call (.update msg.pingid (.cqe 100))
  -- after the PONG
  obtain ⟨h3, hmsg3⟩ := (onlyEntry_update (keyed _ hb2) h2 (.pong 200 200)).1 (by
    rw [(hbits _).2.1, (hbits _).1, hinit]
    decide)
  have hb3 := hb2.call (.update msg.pingid (.pong 200 200))
  -- the ACK completes the entry
  obtain ⟨h4, hmsg4⟩ := (onlyEntry_update (keyed _ hb3) h3 (.ack 30)).2 (by
    rw [(hbits _).2.2, (hbits _).2.1, (hbits _).1, hinit]
    rfl) hcnt
  have hb4 := hb3.call (.update msg.pingid (.ack 30))
  simp only [RdmaClient.call] at h4 hb4 hmsg2 hmsg3 hmsg4 ⊢
  refine ⟨hb4, h4, ?_⟩
  rw [hmsg1, hmsg2, hmsg3, hmsg4, List.append_nil, List.append_nil, List.append_nil]
  rfl

namespace RdmaResultThread

/-- Everything has been taken, and `n` pings to 10.0.0.2 have succeeded since the last report. -/
structure Settled (s : RdmaResultThread) (n : Nat) : Prop where
  waiting : s.client.Waiting
  taken : s.taken = s.client.enqueued.length
  last_report_time : s.last_report_time = 0
  succeeded : (succeeded s.window (ip2uint exampleDstip)).length = n

theorem run_answeredPing {s : RdmaResultThread} (h : s.client.Waiting) :
    run exampleConfig 10000 s (answeredPing (RdmaClient.nextPing exampleConfig s.client).pingid) =
      checkReport 10000 (dequeue { s with
        client := { s.client.answer with
          ping_uid := s.client.ping_uid + 1
          issued := s.client.issued ++ [(RdmaClient.nextPing exampleConfig s.client).pingid] } }) 0 := by
  obtain ⟨⟨table, ping_uid, txSched, rx, sendQueue, txCq, enqueued, calls, issued⟩, taken, history, last, window,
    reports⟩ := s
  obtain ⟨-, -, htx, hrx, hsq, hcq⟩ := h
  simp only at htx hrx hsq hcq
  subst htx hrx hsq hcq
  rfl

theorem settled_answeredPing {s : RdmaResultThread} {n : Nat} (h : s.Settled n) :
    (run exampleConfig 10000 s (answeredPing (RdmaClient.nextPing exampleConfig s.client).pingid)).Settled (n + 1) := by
  obtain ⟨hbooked, htable, henqueued⟩ := h.waiting.answer
  have hreport := answeredEntry_report (RdmaClient.nextPing exampleConfig s.client)
  have hnext : s.client.answer.enqueued[s.taken]? =
      some (answeredEntry (RdmaClient.nextPing exampleConfig s.client)).report := by
    rw [henqueued, h.taken, List.getElem?_concat_length]
  have helapsed : ¬ (10000 : Int) ≤ elapsedMs 0 s.last_report_time := by
    rw [h.last_report_time]
    decide
  rw [run_answeredPing h.waiting]
  simp only [dequeue, hnext, checkReport, if_neg helapsed]
  refine ⟨⟨⟨hbooked.table, hbooked.enqueued⟩, htable, h.waiting.txSched, h.waiting.rx, h.waiting.sendQueue,
    h.waiting.txCq⟩, ?_, h.last_report_time, ?_⟩
  · simp only [henqueued, List.length_append, List.length_singleton, h.taken]
  · have hsucceeded := h.succeeded
    simp only [Pingweave.succeeded, List.filter_append, List.length_append] at hsucceeded ⊢
    rw [hsucceeded, List.filter_cons_of_pos (by simp [hreport.1, hreport.2])]
    rfl

/-- Any number of pings can succeed between two reports. -/
theorem exists_settled (n : Nat) : ∃ as, (run exampleConfig 10000 (init 0) as).Settled n := by
  induction n with
  | zero =>
    refine ⟨[], ⟨⟨RdmaClient.booked_init, ?_, rfl, rfl, rfl, rfl⟩, rfl, rfl, rfl⟩⟩
    exact fun key => find_init _ key
  | succ n ih =>
    obtain ⟨as, has⟩ := ih
    obtain ⟨s, hrun⟩ : ∃ s, Runs.run (step exampleConfig 10000) (init 0) as = s := ⟨_, rfl⟩
    rw [run, hrun] at has
    refine ⟨as ++ answeredPing (RdmaClient.nextPing exampleConfig s.client).pingid, ?_⟩
    rw [run, Runs.run_append, hrun]
    exact settled_answeredPing has

theorem exists_report (n : Nat) (hn : 0 < n) : ∃ as, ∃ r ∈ (run exampleConfig 10000 (init 0) as).reports,
    ∃ info, r.history.lookup (ip2uint exampleDstip) = some info ∧
      (Pingweave.succeeded r.window (ip2uint exampleDstip)).length = n := by
  obtain ⟨as, hs⟩ := exists_settled n
  have hok := run_ok exampleConfig 10000 0 as
  obtain ⟨s, hrun⟩ : ∃ s, Runs.run (step exampleConfig 10000) (init 0) as = s := ⟨_, rfl⟩
  rw [run, hrun] at hs hok
  refine ⟨as ++ [.turn false 10000000000], ⟨s.window, s.dstip2result⟩, ?_, ?_⟩
  · have helapsed : (10000 : Int) ≤ elapsedMs 10000000000 s.last_report_time := by
      rw [hs.last_report_time]
      decide
    rw [run, Runs.run_append, hrun]
    simp only [Runs.run_cons, Runs.run_nil, step, Bool.false_eq_true, if_false, checkReport, if_pos helapsed]
    exact List.mem_append_right _ List.mem_cons_self
  · cases hlookup : s.dstip2result.lookup (ip2uint exampleDstip) with
    | some info => exact ⟨info, rfl, hs.succeeded⟩
    | none =>
      exfalso
      have hdelays := (hok.window (ip2uint exampleDstip)).network_delays
      rw [RdmaHistory.entryAt, hlookup, Option.getD_none] at hdelays
      have hlen := congrArg List.length hdelays
      rw [List.length_map, hs.succeeded] at hlen
      exact Nat.ne_of_gt hn hlen.symm

end RdmaResultThread

end Wrap

/-- After `2^32` successes in one window the report has `n_success` zero and positive percentiles. -/
theorem not_zero_delay_iff_n_success :
    ¬ ∀ (as : List RdmaResultThread.Action),
      ∀ r ∈ (RdmaResultThread.run exampleConfig 10000 (RdmaResultThread.init 0) as).reports,
        ∀ dstip info, r.history.lookup dstip = some info → info.n_success = 0 →
          ∃ record, prepareRecord (exampleConfig.ipv4 ++ ',' :: uint2ip dstip)
            ((lineValue (fields (reportLine (fun _ => ⟨1970, 1, 1, 0, 0, 0⟩) exampleConfig.ipv4 dstip info))).splitOn
              ',') .rdma = some record ∧ record.network = ⟨0, 0, 0⟩ := by
  intro hzero
  obtain ⟨as, r, hr, info, hinfo, hlen⟩ := RdmaResultThread.exists_report (2 ^ 32) (by decide)
  have hsrc : (inetPton exampleConfig.ipv4).isSome := by decide +kernel
  obtain ⟨ht, record, hrecord, hshows⟩ := (RdmaResultThread.run_ok exampleConfig 10000 0 as).shows hsrc
    (fun _ => ⟨1970, 1, 1, 0, 0, 0⟩) hr hinfo
  have hwrapped : info.n_success = 0 := by
    rw [ht.n_success, hlen]
    rfl
  obtain ⟨record', hrecord', hnetwork⟩ := hzero as r hr _ info hinfo hwrapped
  have hsome : succeeded r.window (ip2uint exampleDstip) ≠ [] := by
    intro hempty
    rw [hempty] at hlen
    cases hlen
  rw [hrecord] at hrecord'
  cases hrecord'
  have hpos := (hshows.someSuccess hsome).1
  rw [hnetwork] at hpos
  exact absurd hpos (by decide)

end Pingweave
