import Pingweave.TcpUdpClient

/-!
# Result statistics and report lines

`calc_result_stats` of `common.cpp`, and the report lines of `rdma_common.cpp` and
`tcpudp_common.cpp`. The text of a time stamp depends on the time zone of the host, so
`timestamp_ns_to_string` is an argument of the encoders.
-/

namespace Pingweave
set_option autoImplicit false

structure ResultStat where
  mean : UInt64
  max : UInt64
  percentile_50 : UInt64
  percentile_95 : UInt64
  percentile_99 : UInt64
  deriving DecidableEq, Repr

structure RdmaResultInfo where
  n_success : UInt32 := 0
  n_failure : UInt32 := 0
  n_weird : UInt32 := 0
  ts_start : UInt64 := 0
  ts_end : UInt64 := 0
  server_delays : List UInt64 := []
  network_delays : List UInt64 := []
  client_delays : List UInt64 := []
  deriving DecidableEq, Repr

def percentile (sorted_delays : List UInt64) (p : Nat) : UInt64 :=
  sorted_delays.getD (sorted_delays.length * p / 100) 0

def calcResultStats (delays : List UInt64) : ResultStat :=
  if delays = [] then ⟨0, 0, 0, 0, 0⟩
  else
    let sum := delays.foldl (fun acc d => acc + d) 0
    let mean := sum / UInt64.ofNat delays.length
    let max := delays.foldl (fun m d => if m < d then d else m) 0
    let sorted_delays := delays.mergeSort fun a b => a ≤ b
    ⟨mean, max, percentile sorted_delays 50, percentile sorted_delays 95, percentile sorted_delays 99⟩

/-- `operator<<` on an unsigned integer. -/
def decimal (n : Nat) : Text := Nat.toDigits 10 n

def statFields (label : Text) (s : ResultStat) : List Text :=
  [label, decimal s.mean.toNat, decimal s.max.toNat, decimal s.percentile_50.toNat,
    decimal s.percentile_95.toNat, decimal s.percentile_99.toNat]

def countFields (n_success n_failure n_weird : UInt32) : List Text :=
  [decimal n_success.toNat, decimal n_failure.toNat, decimal n_weird.toNat]

section Lines
variable (timestampNsToString : UInt64 → Text)

def rdmaResultFields (srcip dstip : Text) (result_info : RdmaResultInfo)
    (client_stat network_stat server_stat : ResultStat) : List Text :=
  [srcip, dstip, timestampNsToString result_info.ts_start, timestampNsToString result_info.ts_end] ++
    countFields result_info.n_success result_info.n_failure result_info.n_weird ++
    statFields "client".toList client_stat ++ statFields "network".toList network_stat ++
    statFields "server".toList server_stat

def convertRdmaResultToStr (srcip dstip : Text) (result_info : RdmaResultInfo)
    (client_stat network_stat server_stat : ResultStat) : Text :=
  List.intercalate [',']
    (rdmaResultFields timestampNsToString srcip dstip result_info client_stat network_stat server_stat)

def tcpudpResultFields (srcip dstip : Text) (result_info : TcpUdpResultInfo)
    (network_stat : ResultStat) : List Text :=
  [srcip, dstip, timestampNsToString result_info.ts_start, timestampNsToString result_info.ts_end] ++
    countFields result_info.n_success result_info.n_failure result_info.n_weird ++
    statFields "network".toList network_stat

def convertTcpudpResultToStr (srcip dstip : Text) (result_info : TcpUdpResultInfo)
    (network_stat : ResultStat) : Text :=
  List.intercalate [',']
    (tcpudpResultFields timestampNsToString srcip dstip result_info network_stat)

end Lines

/-- `agg_result`: every line with a newline behind it. -/
def aggResult (lines : List Text) : Text := lines.flatMap fun line => line ++ ['\n']

theorem percentile_mem {delays : List UInt64} (h : delays ≠ []) {p : Nat} (hp : p < 100) :
    percentile (delays.mergeSort fun a b => a ≤ b) p ∈ delays := by
  have hperm := List.mergeSort_perm delays fun a b => decide (a ≤ b)
  have hpos := List.length_pos_iff.mpr h
  have hlt : (delays.mergeSort fun a b => a ≤ b).length * p / 100 <
      (delays.mergeSort fun a b => a ≤ b).length := by
    rw [hperm.length_eq]
    apply Nat.div_lt_of_lt_mul
    have hle := Nat.mul_lt_mul_of_pos_left hp hpos
    omega
  rw [percentile, List.getD_eq_getElem?_getD, List.getElem?_eq_getElem hlt, Option.getD_some]
  exact hperm.mem_iff.mp (List.getElem_mem hlt)

theorem calcResultStats_mem {delays : List UInt64} (h : delays ≠ []) :
    (calcResultStats delays).percentile_50 ∈ delays ∧
      (calcResultStats delays).percentile_95 ∈ delays ∧
      (calcResultStats delays).percentile_99 ∈ delays := by
  rw [calcResultStats, if_neg h]
  exact ⟨percentile_mem h (by decide), percentile_mem h (by decide), percentile_mem h (by decide)⟩

end Pingweave
