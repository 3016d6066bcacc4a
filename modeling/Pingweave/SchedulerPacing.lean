import Pingweave.SchedulerNext

/-!
# The pace of the pings

The interval between two pings is the configured number, an `int`, divided by the number of
addresses, a `size_t`: the quotient is taken in `uint64_t`. Only `-1` is refused when the
configuration is read.
-/

namespace Pingweave
set_option autoImplicit false

open MsgScheduler

namespace PingScheduler
variable {α ι : Type}

section Paced
variable (next : PingScheduler α → Call ι → NextReturn α)

/-- Calls at times that do not decrease, none of which loads. -/
structure Steady (s : PingScheduler α) (calls : List (Call ι)) : Prop where
  unloaded : Runs.Along (step next) (fun s c => ¬ s.Due c) s calls
  ordered : (s.last_ping_time :: calls.map Call.ping_now).Pairwise fun t u => t.val ≤ u.val

/-- What pacing means from a state on. -/
structure Paced (s : PingScheduler α) : Prop where
  divided : (s.inter_ping_interval_us.toNat * s.addressInfo.length : Int) ≤ s.interval_send_ping_microsec
  spaced : ∀ before c between d, Steady next s (before ++ c :: (between ++ [d])) →
    (next (run next s before) c).result.isSome →
    (next (run next s (before ++ c :: between)) d).result.isSome →
    c.ping_now.val + s.inter_ping_interval_us.toNat * 1000 ≤ d.ping_now.val
  /-- Too soon: the subtraction that gives the sleep time does not wrap. -/
  remaining : ∀ before c, Steady next s (before ++ [c]) → ¬ (run next s before).Ready c →
    ((next (run next s before) c).time_sleep_us.toNat : Int) +
      elapsedUs c.ping_now (run next s before).last_ping_time = s.inter_ping_interval_us.toNat
  bounded : ∀ before c, Steady next s (before ++ [c]) →
    (next (run next s before) c).time_sleep_us.toNat ≤ max s.inter_ping_interval_us.toNat 1000000
  rested : ∀ before c between d, Steady next s (before ++ c :: (between ++ [d])) →
    ¬ (run next s before).Ready c →
    successes next (run next s before) (c :: between) = [] →
    c.ping_now.val + (next (run next s before) c).time_sleep_us.toNat * 1000 ≤ d.ping_now.val →
    (run next s (before ++ c :: between)).Ready d

end Paced

theorem toNat_ofInt {x : Int} (hnonneg : 0 ≤ x) (hlt : x < 18446744073709551616) :
    ((UInt64.ofInt x).toNat : Int) = x := by
  simp only [UInt64.ofInt, UInt64.toNat_ofNat']
  omega

theorem elapsedUs_eq {now last : SteadyTime} (h : last.val ≤ now.val) :
    elapsedUs now last = ((now.val - last.val) / 1000 : Nat) := by
  rw [elapsedUs, Int.tdiv_eq_ediv_of_nonneg (by omega)]
  omega

theorem toNat_elapsedUs {now last : SteadyTime} (h : last.val ≤ now.val) :
    (UInt64.ofInt (elapsedUs now last)).toNat = (now.val - last.val) / 1000 := by
  have hnow := now.isLt
  rw [elapsedUs_eq h]
  have heq := toNat_ofInt (x := ((now.val - last.val) / 1000 : Nat)) (by omega) (by omega)
  omega

theorem ready_iff {s : PingScheduler α} {c : Call ι} (h : s.last_ping_time.val ≤ c.ping_now.val) :
    s.Ready c ↔ s.inter_ping_interval_us.toNat ≤ (c.ping_now.val - s.last_ping_time.val) / 1000 := by
  rw [Ready, ge_iff_le, UInt64.le_iff_toNat_le, toNat_elapsedUs h]

variable {load : MsgScheduler α → ι → MsgScheduler α} {idle_us : UInt64}

/-- A call without a load that succeeds. -/
structure Sent (next : PingScheduler α → Call ι → NextReturn α) (s : PingScheduler α) (c : Call ι) : Prop where
  ready : s.Ready c
  result : (next s c).result.isSome
  time_sleep_us : (next s c).time_sleep_us = 0
  addressInfo : (step next s c).addressInfo = s.addressInfo
  interval : (step next s c).inter_ping_interval_us = s.inter_ping_interval_us
  last_ping_time : (step next s c).last_ping_time = c.ping_now

/-- A call that comes too soon. -/
structure Refused (next : PingScheduler α → Call ι → NextReturn α) (s : PingScheduler α) (c : Call ι) : Prop where
  not_ready : ¬ s.Ready c
  result : (next s c).result = none
  time_sleep_us : (next s c).time_sleep_us =
    s.inter_ping_interval_us - UInt64.ofInt (elapsedUs c.ping_now s.last_ping_time)
  unchanged : step next s c = s

theorem sent_or_refused (load : MsgScheduler α → ι → MsgScheduler α) (idle_us : UInt64) {s : PingScheduler α}
    {c : Call ι} (hdue : ¬ s.Due c) (hne : s.addressInfo ≠ []) :
    Sent (next load idle_us) s c ∨ Refused (next load idle_us) s c := by
  have hsync : s.sync load c = s := if_neg hdue
  by_cases hready : s.Ready c
  · obtain ⟨a, hget⟩ := getElem?_cursor hne s.addr_idx
    have hnext : s.next load idle_us c = _ :=
      next_of_ready (by rw [hsync]; exact hready) (by rw [hsync]; exact hget)
    rw [hsync] at hnext
    left
    constructor
    · exact hready
    all_goals simp only [step, hnext, Option.isSome_some]
  · have hnext : s.next load idle_us c = _ := next_of_not_ready (by rw [hsync]; exact hready)
    rw [hsync] at hnext
    right
    constructor
    · exact hready
    all_goals simp only [step, hnext]

/-- The state `t` has the addresses and the interval of `s`. -/
structure SamePace (s t : PingScheduler α) : Prop where
  addressInfo : t.addressInfo = s.addressInfo
  interval : t.inter_ping_interval_us = s.inter_ping_interval_us

theorem SamePace.step {s t : PingScheduler α} (h : SamePace s t) (hne : s.addressInfo ≠ []) {c : Call ι}
    (hdue : ¬ t.Due c) : SamePace s (step (next load idle_us) t c) := by
  have hne' : t.addressInfo ≠ [] := by rw [h.addressInfo]; exact hne
  rcases sent_or_refused load idle_us hdue hne' with hsent | hrefused
  · exact ⟨hsent.addressInfo.trans h.addressInfo, hsent.interval.trans h.interval⟩
  · rw [hrefused.unchanged]
    exact h

theorem samePace_run {s : PingScheduler α} (hne : s.addressInfo ≠ []) {calls : List (Call ι)}
    (hcalls : Runs.Along (PingScheduler.step (next load idle_us)) (fun s c => ¬ s.Due c) s calls) :
    SamePace s (run (next load idle_us) s calls) :=
  Runs.run_invariant_along (P := SamePace s) (fun _ _ h hdue => h.step hne hdue) ⟨rfl, rfl⟩ hcalls

/-- The last ping was sent at one of the calls or before them. -/
theorem last_ping_time_run {s : PingScheduler α} (hne : s.addressInfo ≠ []) {calls : List (Call ι)}
    (hcalls : Runs.Along (PingScheduler.step (next load idle_us)) (fun s c => ¬ s.Due c) s calls) :
    (run (next load idle_us) s calls).last_ping_time ∈ s.last_ping_time :: calls.map Call.ping_now := by
  induction calls generalizing s with
  | nil => exact List.mem_cons_self
  | cons c calls ih =>
    rw [run, Runs.run_cons, List.map_cons]
    rcases sent_or_refused load idle_us hcalls.1 hne with hsent | hrefused
    · have hmem := ih (by rw [hsent.addressInfo]; exact hne) hcalls.2
      rw [hsent.last_ping_time] at hmem
      exact List.mem_cons_of_mem _ hmem
    · have hmem := ih (by rw [hrefused.unchanged]; exact hne) hcalls.2
      rw [hrefused.unchanged] at hmem ⊢
      rcases List.mem_cons.mp hmem with hlast | hlater
      · rw [← hlast]
        exact List.mem_cons_self
      · exact List.mem_cons_of_mem _ (List.mem_cons_of_mem _ hlater)

/-- As long as no call succeeds nothing changes. -/
theorem run_of_no_success {s : PingScheduler α} (hne : s.addressInfo ≠ []) {calls : List (Call ι)}
    (hcalls : Runs.Along (PingScheduler.step (next load idle_us)) (fun s c => ¬ s.Due c) s calls)
    (hnone : successes (next load idle_us) s calls = []) : run (next load idle_us) s calls = s := by
  induction calls with
  | nil => rfl
  | cons c calls ih =>
    obtain ⟨hfirst, hrest⟩ := List.append_eq_nil_iff.mp hnone
    rcases sent_or_refused load idle_us hcalls.1 hne with hsent | hrefused
    · have hsome := hsent.result
      rw [Option.toList_eq_nil_iff.mp hfirst] at hsome
      cases hsome
    · have hafter := hcalls.2
      rw [hrefused.unchanged] at hrest hafter
      rw [run, Runs.run_cons, hrefused.unchanged]
      exact ih hafter hrest

theorem run_append_cons (next : PingScheduler α → Call ι → NextReturn α) (s : PingScheduler α)
    (before : List (Call ι)) (c : Call ι) (after : List (Call ι)) :
    run next s (before ++ c :: after) = run next (PingScheduler.step next (run next s before) c) after := by
  rw [run, Runs.run_append, Runs.run_cons]
  rfl

section Steady
variable {s : PingScheduler α} {before : List (Call ι)} {c : Call ι}

theorem Steady.left {after : List (Call ι)} (h : Steady (next load idle_us) s (before ++ after)) :
    Steady (next load idle_us) s before := by
  refine ⟨(Runs.along_append.mp h.unloaded).1, ?_⟩
  have hordered := h.ordered
  rw [List.map_append, ← List.cons_append] at hordered
  exact (List.pairwise_append.mp hordered).1

theorem Steady.right {after : List (Call ι)} (h : Steady (next load idle_us) s (before ++ c :: after))
    (hlast : (PingScheduler.step (next load idle_us) (run (next load idle_us) s before) c).last_ping_time =
      c.ping_now) :
    Steady (next load idle_us) (PingScheduler.step (next load idle_us) (run (next load idle_us) s before) c) after := by
  refine ⟨(Runs.along_append.mp h.unloaded).2.2, ?_⟩
  have hordered := h.ordered
  rw [List.map_append, List.map_cons, ← List.cons_append] at hordered
  rw [hlast]
  exact (List.pairwise_append.mp hordered).2.1

variable (hne : s.addressInfo ≠ [])
include hne

/-- Before a call of a steady run: the pace is that of the start, and the last ping is not later. -/
theorem Steady.state_before {after : List (Call ι)} (h : Steady (next load idle_us) s (before ++ c :: after)) :
    SamePace s (run (next load idle_us) s before) ∧ ¬ (run (next load idle_us) s before).Due c ∧
      (run (next load idle_us) s before).last_ping_time.val ≤ c.ping_now.val := by
  obtain ⟨hbefore, hc, -⟩ := Runs.along_append.mp h.unloaded
  refine ⟨samePace_run hne hbefore, hc, ?_⟩
  have hordered := h.ordered
  rw [List.map_append, List.map_cons, ← List.cons_append] at hordered
  exact (List.pairwise_append.mp hordered).2.2 _ (last_ping_time_run hne hbefore) _ List.mem_cons_self

theorem Steady.time_sleep_us (h : Steady (next load idle_us) s (before ++ [c]))
    (hnot : ¬ (run (next load idle_us) s before).Ready c) :
    (next load idle_us (run (next load idle_us) s before) c).time_sleep_us.toNat +
      (c.ping_now.val - (run (next load idle_us) s before).last_ping_time.val) / 1000 =
        s.inter_ping_interval_us.toNat := by
  obtain ⟨hpace, hdue, hlast⟩ := h.state_before hne
  have hne' : (run (next load idle_us) s before).addressInfo ≠ [] := by rw [hpace.addressInfo]; exact hne
  rcases sent_or_refused load idle_us hdue hne' with hsent | hrefused
  · exact absurd hsent.ready hnot
  · rw [ready_iff hlast, hpace.interval, Nat.not_le] at hnot
    rw [hrefused.time_sleep_us, UInt64.toNat_sub_of_le, toNat_elapsedUs hlast, hpace.interval]
    · omega
    · rw [UInt64.le_iff_toNat_le, toNat_elapsedUs hlast, hpace.interval]
      omega

theorem Steady.bounded (h : Steady (next load idle_us) s (before ++ [c])) :
    (next load idle_us (run (next load idle_us) s before) c).time_sleep_us.toNat ≤
      max s.inter_ping_interval_us.toNat 1000000 := by
  obtain ⟨hpace, hdue, -⟩ := h.state_before hne
  have hne' : (run (next load idle_us) s before).addressInfo ≠ [] := by rw [hpace.addressInfo]; exact hne
  rcases sent_or_refused load idle_us hdue hne' with hsent | hrefused
  · rw [hsent.time_sleep_us]
    exact Nat.zero_le _
  · have hsum := h.time_sleep_us hne hrefused.not_ready
    omega

/-- A success comes one interval after the last ping before the run, or later. -/
theorem Steady.success_ge (h : Steady (next load idle_us) s (before ++ [c]))
    (hc : (next load idle_us (run (next load idle_us) s before) c).result.isSome) :
    s.last_ping_time.val + s.inter_ping_interval_us.toNat * 1000 ≤ c.ping_now.val := by
  obtain ⟨hpace, hdue, hlast⟩ := h.state_before hne
  have hne' : (run (next load idle_us) s before).addressInfo ≠ [] := by rw [hpace.addressInfo]; exact hne
  have hge : s.last_ping_time.val ≤ (run (next load idle_us) s before).last_ping_time.val := by
    have hordered := h.left.ordered
    rcases List.mem_cons.mp (last_ping_time_run hne h.left.unloaded) with hsame | hlater
    · exact Nat.le_of_eq (congrArg Fin.val hsame.symm)
    · exact (List.pairwise_cons.mp hordered).1 _ hlater
  rcases sent_or_refused load idle_us hdue hne' with hsent | hrefused
  · have hready := (ready_iff hlast).mp hsent.ready
    rw [hpace.interval] at hready
    omega
  · rw [hrefused.result] at hc
    cases hc

theorem Steady.spaced {between : List (Call ι)} {d : Call ι}
    (h : Steady (next load idle_us) s (before ++ c :: (between ++ [d])))
    (hc : (next load idle_us (run (next load idle_us) s before) c).result.isSome)
    (hd : (next load idle_us (run (next load idle_us) s (before ++ c :: between)) d).result.isSome) :
    c.ping_now.val + s.inter_ping_interval_us.toNat * 1000 ≤ d.ping_now.val := by
  obtain ⟨hpace, hdue, -⟩ := h.state_before hne
  have hne' : (run (next load idle_us) s before).addressInfo ≠ [] := by rw [hpace.addressInfo]; exact hne
  rcases sent_or_refused load idle_us hdue hne' with hsent | hrefused
  · rw [run_append_cons] at hd
    have hge := (h.right hsent.last_ping_time).success_ge (by rw [hsent.addressInfo]; exact hne') hd
    rw [hsent.last_ping_time, hsent.interval, hpace.interval] at hge
    exact hge
  · rw [hrefused.result] at hc
    cases hc

theorem Steady.rested {between : List (Call ι)} {d : Call ι}
    (h : Steady (next load idle_us) s (before ++ c :: (between ++ [d])))
    (hnot : ¬ (run (next load idle_us) s before).Ready c)
    (hnone : successes (next load idle_us) (run (next load idle_us) s before) (c :: between) = [])
    (hwait : c.ping_now.val + (next load idle_us (run (next load idle_us) s before) c).time_sleep_us.toNat * 1000 ≤
      d.ping_now.val) :
    (run (next load idle_us) s (before ++ c :: between)).Ready d := by
  obtain ⟨hpace, -, hlast⟩ := h.state_before hne
  have hne' : (run (next load idle_us) s before).addressInfo ≠ [] := by rw [hpace.addressInfo]; exact hne
  have hsplit : Steady (next load idle_us) s ((before ++ [c]) ++ (between ++ [d])) := by
    rwa [List.append_assoc]
  have hsum := hsplit.left.time_sleep_us hne hnot
  rw [← List.cons_append] at h
  have hrun : run (next load idle_us) s (before ++ c :: between) = run (next load idle_us) s before := by
    rw [run, Runs.run_append]
    have hbetween := (Runs.along_append.mp h.unloaded).2
    exact run_of_no_success hne' (Runs.along_append.mp hbetween).1 hnone
  rw [hrun, ready_iff (by omega), hpace.interval]
  omega

end Steady
end PingScheduler

namespace MsgScheduler
variable {α : Type} {ip : α → Text}

/-- The interval belongs to the addresses, for the configured number `interval`. -/
structure Configured (interval : Int) (s : MsgScheduler α) : Prop where
  configured : s.interval_send_ping_microsec = interval
  divided : s.addressInfo ≠ [] →
    s.inter_ping_interval_us = UInt64.ofInt interval / UInt64.ofNat s.addressInfo.length

theorem Configured.failed {interval : Int} {s : MsgScheduler α} (h : s.Configured interval) :
    s.failed.Configured interval := by
  unfold MsgScheduler.failed
  split
  · exact ⟨h.configured, fun hne => absurd rfl hne⟩
  · exact ⟨h.configured, h.divided⟩

theorem Configured.reload {interval : Int} {s : MsgScheduler α} (h : s.Configured interval)
    (r : Option (NewAddresses α ip × Bool)) : (s.reload r).Configured interval := by
  cases r with
  | none => exact Configured.failed ⟨h.configured, h.divided⟩
  | some r =>
    simp only [MsgScheduler.reload, renew]
    split
    · refine ⟨h.configured, fun hne => ?_⟩
      rw [← h.configured]
      exact if_pos hne
    · refine Configured.failed ⟨h.configured, fun hne => ?_⟩
      rw [← h.configured]
      exact if_pos hne

end MsgScheduler

namespace PingScheduler
variable {α ι : Type} {load : MsgScheduler α → ι → MsgScheduler α} {idle_us : UInt64} {interval : Int}

theorem configured_next (hload : ∀ s files, s.Configured interval → (load s files).Configured interval)
    {s : PingScheduler α} (h : s.Configured interval) (c : Call ι) :
    (step (next load idle_us) s c).Configured interval := by
  have hsync : (s.sync load c).Configured interval := by
    unfold sync
    split
    · exact hload _ _ h
    · exact h
  simp only [step, next]
  split
  · split
    · exact ⟨hsync.configured, hsync.divided⟩
    · exact hsync
  · exact hsync

theorem configured_init {file : Option IniParser} {ip protocol : Text} {ping_time load_time : SteadyTime}
    {s : PingScheduler α} (h : init file ip protocol ping_time load_time = some s)
    (hinterval : getIntParamFromIni file (interval_param protocol) = some interval) : s.Configured interval := by
  unfold init at h
  split at h
  · cases h
    exact ⟨by rw [hinterval]; rfl, fun hne => absurd rfl hne⟩
  · cases h

/-- A scheduler with addresses paces its pings if and only if the configured number is not negative. -/
theorem paced_iff {s : PingScheduler α} (h : s.Configured interval) (hint : interval ≤ 2147483647)
    (hne : s.addressInfo ≠ []) (hsize : s.addressInfo.length < 18446744073709551616) :
    Paced (next load idle_us) s ↔ 0 ≤ interval := by
  have hpos : 0 < s.addressInfo.length := List.length_pos_iff.mpr hne
  constructor
  · intro hpaced
    have hdivided := hpaced.divided
    rw [h.configured] at hdivided
    have := Int.mul_nonneg (Int.natCast_nonneg s.inter_ping_interval_us.toNat)
      (Int.natCast_nonneg s.addressInfo.length)
    omega
  · intro hnonneg
    refine ⟨?_, ?_, ?_, ?_, ?_⟩
    · obtain ⟨n, rfl⟩ := Int.eq_ofNat_of_zero_le hnonneg
      have hinterval : (UInt64.ofInt n).toNat = n := Int.ofNat.inj (toNat_ofInt hnonneg (by omega))
      have hlength : (UInt64.ofNat s.addressInfo.length).toNat = s.addressInfo.length :=
        UInt64.toNat_ofNat_of_lt hsize
      rw [h.divided hne, UInt64.toNat_div, hlength, h.configured, hinterval]
      exact_mod_cast Nat.div_mul_le_self n s.addressInfo.length
    · exact fun before c between d hsteady hc hd => hsteady.spaced hne hc hd
    · intro before c hsteady hnot
      have hsum := hsteady.time_sleep_us hne hnot
      rw [elapsedUs_eq (hsteady.state_before hne).2.2]
      omega
    · exact fun before c hsteady => hsteady.bounded hne
    · exact fun before c between d hsteady hnot hnone hwait => hsteady.rested hne hnot hnone hwait

theorem configured_run (hload : ∀ s files, s.Configured interval → (load s files).Configured interval)
    {file : Option IniParser} {ip protocol : Text} {ping_time load_time : SteadyTime} {s : PingScheduler α}
    (h : init file ip protocol ping_time load_time = some s)
    (hinterval : getIntParamFromIni file (interval_param protocol) = some interval) (calls : List (Call ι)) :
    (run (next load idle_us) s calls).Configured interval :=
  Runs.run_invariant (P := fun t : PingScheduler α => t.Configured interval)
    (fun _ c ht => configured_next hload ht c) (configured_init h hinterval) calls

end PingScheduler

theorem IniParser.toInt_le {value n : Int} (h : toInt value = some n) : n ≤ 2147483647 := by
  unfold toInt at h
  split at h
  · rename_i hrange
    cases h
    exact hrange.2
  · cases h

theorem IniParser.stoi_le {s : Text} {n : Int} (h : stoi s = some n) : n ≤ 2147483647 := by
  simp only [stoi] at h
  split at h
  · cases h
  · exact toInt_le h

theorem getIntParamFromIni_le {file : Option IniParser} {key : Text} {n : Int}
    (h : getIntParamFromIni file key = some n) : n ≤ 2147483647 := by
  obtain ⟨parser, -, hvalue⟩ := Option.bind_eq_some_iff.mp h
  simp only [getIntValueFromIni] at hvalue
  split at hvalue
  · cases hvalue
  · cases hvalue
    unfold IniParser.getInt
    cases hstoi : IniParser.stoi (parser.get sectParam key) with
    | none => decide
    | some n => exact IniParser.stoi_le hstoi

open PingScheduler

/-- After any run, a scheduler that has addresses paces its pings if and only if the configured
number is not negative. -/
theorem pacing_iff (file : Option IniParser) (ip protocol rdmaProtocol : Text) (ping_time load_time : SteadyTime)
    {interval : Int} (hinterval : getIntParamFromIni file (interval_param protocol) = some interval)
    {tcp : PingScheduler Text} (htcp : init file ip protocol ping_time load_time = some tcp)
    (calls : List (Call (Option Yaml)))
    (hips : (run TcpUdpMsgScheduler.next tcp calls).addressInfo ≠ [])
    (hsize : (run TcpUdpMsgScheduler.next tcp calls).addressInfo.length < 18446744073709551616)
    {rdmaInterval : Int} (hrdmaInterval : getIntParamFromIni file (interval_param rdmaProtocol) = some rdmaInterval)
    {rdma : PingScheduler RdmaAddressTuple} (hrdma : init file ip rdmaProtocol ping_time load_time = some rdma)
    (rdmaCalls : List (Call RdmaMsgScheduler.Files))
    (haddresses : (run RdmaMsgScheduler.next rdma rdmaCalls).addressInfo ≠ [])
    (hrdmaSize : (run RdmaMsgScheduler.next rdma rdmaCalls).addressInfo.length < 18446744073709551616) :
    (Paced TcpUdpMsgScheduler.next (run TcpUdpMsgScheduler.next tcp calls) ↔ 0 ≤ interval) ∧
      (Paced RdmaMsgScheduler.next (run RdmaMsgScheduler.next rdma rdmaCalls) ↔ 0 ≤ rdmaInterval) := by
  constructor
  · refine paced_iff (configured_run ?_ htcp hinterval calls) (getIntParamFromIni_le hinterval) hips hsize
    intro s pinglist hs
    rw [TcpUdpMsgScheduler.loadAddressInfo_eq]
    exact hs.reload _
  · refine paced_iff (configured_run ?_ hrdma hrdmaInterval rdmaCalls) (getIntParamFromIni_le hrdmaInterval)
      haddresses hrdmaSize
    intro s files hs
    rw [RdmaMsgScheduler.load_eq]
    exact hs.reload _

/-- The same number for every parameter. -/
def constantIni (value : Text) : IniParser := ⟨fun _ _ => some value⟩

def constantStarted (α : Type) (protocol : Text) (value : Int) : PingScheduler α :=
  { started α protocol with interval_send_ping_microsec := value, load_config_interval_sec := value }

/-- A mesh of `1` alone, whose RDMA address is known. -/
def rdmaFiles : RdmaMsgScheduler.Files :=
  (some (.mapping [(.string keyMesh, .mapping [(.string keyRoce, .mapping [(.int 0, .sequence [ipNode '1'])])])]),
    some (.mapping [(.string ['1'], .sequence [ipNode '1', ipNode 'g', .scalar (.int 0), .scalar (.int 9)])]))

theorem pacing_iff_seven :
    (Paced TcpUdpMsgScheduler.next
        (run TcpUdpMsgScheduler.next (constantStarted Text keyTcp 7) [callAt 11000000000]) ↔ (0 : Int) ≤ 7) ∧
      (Paced RdmaMsgScheduler.next
        (run RdmaMsgScheduler.next (constantStarted RdmaAddressTuple keyRoce 7)
          [⟨11000000000, 11000000000, rdmaFiles⟩]) ↔ (0 : Int) ≤ 7) :=
  pacing_iff (some (constantIni ['7'])) ['1'] keyTcp keyRoce 0 0 (by decide +kernel) rfl [callAt 11000000000]
    (by decide +kernel) (by decide +kernel) (by decide +kernel) rfl [⟨11000000000, 11000000000, rdmaFiles⟩]
    (by decide +kernel) (by decide +kernel)

/-- The number `-2` is accepted, and the interval becomes more than 292000 years. -/
theorem not_pacing :
    ¬ ∀ (file : Option IniParser) (ip protocol rdmaProtocol : Text) (ping_time load_time : SteadyTime)
        (interval rdmaInterval : Int) (tcp : PingScheduler Text) (calls : List (Call (Option Yaml)))
        (rdma : PingScheduler RdmaAddressTuple) (rdmaCalls : List (Call RdmaMsgScheduler.Files)),
      getIntParamFromIni file (interval_param protocol) = some interval →
      init file ip protocol ping_time load_time = some tcp →
      (run TcpUdpMsgScheduler.next tcp calls).addressInfo ≠ [] →
      (run TcpUdpMsgScheduler.next tcp calls).addressInfo.length < 18446744073709551616 →
      getIntParamFromIni file (interval_param rdmaProtocol) = some rdmaInterval →
      init file ip rdmaProtocol ping_time load_time = some rdma →
      (run RdmaMsgScheduler.next rdma rdmaCalls).addressInfo ≠ [] →
      (run RdmaMsgScheduler.next rdma rdmaCalls).addressInfo.length < 18446744073709551616 →
      Paced TcpUdpMsgScheduler.next (run TcpUdpMsgScheduler.next tcp calls) ∧
        Paced RdmaMsgScheduler.next (run RdmaMsgScheduler.next rdma rdmaCalls) := by
  intro hpaced
  have htcp := (hpaced (some (constantIni ['-', '2'])) ['1'] keyTcp keyRoce 0 0 (-2) (-2)
    (constantStarted Text keyTcp (-2)) [callAt 11000000000] (constantStarted RdmaAddressTuple keyRoce (-2))
    [⟨11000000000, 11000000000, rdmaFiles⟩] (by decide +kernel) rfl (by decide +kernel) (by decide +kernel)
    (by decide +kernel) rfl (by decide +kernel) (by decide +kernel)).1.divided
  revert htcp
  decide +kernel

end Pingweave
