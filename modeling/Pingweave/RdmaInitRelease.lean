import Mathlib.Data.List.Perm.Basic
import Pingweave.RdmaInit

/-!
# What a failed init_ctx releases

Each label of `init_ctx` releases what has been acquired before control can get there, except
where a buffer fails: then the buffers before it stay registered.
-/

namespace Pingweave
set_option autoImplicit false

open Ledger

namespace RdmaInit

section Buffers
variable {o : Outcomes}

def Outcomes.registers (o : Outcomes) (i : Nat) : Bool := o.posix_memalign i && o.ibv_reg_mr i

/-- What one buffer holds, in the order of acquisition. -/
def bufferResources (i : Nat) : List Resource := [.memory i, .mr i]

/-- What `n` buffers from index `i` on hold. -/
def buffersResources (i n : Nat) : List Resource := (List.range' i n).flatMap bufferResources

theorem buffersResources_succ (i n : Nat) :
    buffersResources i (n + 1) = bufferResources i ++ buffersResources (i + 1) n := by
  simp [buffersResources, List.range'_succ]

/-- A buffer once it is registered. -/
def registered : Buffer := ⟨true, MESSAGE_SIZE + GRH_SIZE, true⟩

theorem allocateAndRegisterBuffer_of_registers {i : Nat} (h : o.registers i = true) (buffer : Buffer) :
    allocateAndRegisterBuffer o i buffer (MESSAGE_SIZE + GRH_SIZE) =
      (registered, true, (bufferResources i).map .acquire) := by
  obtain ⟨halloc, hreg⟩ := Bool.and_eq_true_iff.mp h
  simp [allocateAndRegisterBuffer, halloc, hreg, registered, bufferResources]

/-- A buffer that fails leaves nothing behind. -/
theorem allocateAndRegisterBuffer_of_fails {i : Nat} (h : o.registers i = false) (buffer : Buffer)
    (held : Multiset Resource) :
    let r := allocateAndRegisterBuffer o i buffer (MESSAGE_SIZE + GRH_SIZE)
    r.2.1 = false ∧ settle held r.2.2 = some held ∧ (acquired r.2.2).Sublist (bufferResources i) := by
  cases halloc : o.posix_memalign i with
  | false => simp [allocateAndRegisterBuffer, halloc, acquired]
  | true =>
    have hreg : o.ibv_reg_mr i = false := by simpa [Outcomes.registers, halloc] using h
    simp [allocateAndRegisterBuffer, halloc, hreg, acquired, bufferResources]

theorem registerBuffers_of_all {i : Nat} {buf : List Buffer}
    (h : ∀ j ∈ List.range' i buf.length, o.registers j = true) :
    registerBuffers o i buf =
      (List.replicate buf.length registered, true,
        (buffersResources i buf.length).map .acquire) := by
  induction buf generalizing i with
  | nil => rfl
  | cons buffer rest ih =>
    rw [List.length_cons, List.range'_succ, List.forall_mem_cons] at h
    have hrest := ih h.2
    rw [registerBuffers, allocateAndRegisterBuffer_of_registers h.1, List.length_cons,
      buffersResources_succ, List.map_append, List.replicate_succ]
    simp only [isFailure_toInt, Bool.not_true, Bool.false_eq_true, if_false, hrest]

/-- When a buffer fails, those before it stay registered. -/
theorem registerBuffers_of_fails {i : Nat} {buf : List Buffer}
    (h : ¬ ∀ j ∈ List.range' i buf.length, o.registers j = true) (held : Multiset Resource) :
    let r := registerBuffers o i buf
    r.2.1 = false ∧
      settle held r.2.2 =
        some ((((List.range' i buf.length).takeWhile o.registers).flatMap bufferResources :
          List Resource) + held) := by
  induction buf generalizing i held with
  | nil => simp at h
  | cons buffer rest ih =>
    rw [List.length_cons, List.range'_succ, List.forall_mem_cons] at h
    simp only [registerBuffers, List.length_cons, List.range'_succ, List.takeWhile_cons]
    cases hi : o.registers i with
    | false =>
      obtain ⟨hret, hsettle, -⟩ := allocateAndRegisterBuffer_of_fails hi buffer held
      simp only [hret, isFailure_toInt, Bool.not_false, if_true, true_and, hsettle,
        Bool.false_eq_true, if_false, List.flatMap_nil, Multiset.coe_nil, zero_add]
    | true =>
      obtain ⟨hret, hsettle⟩ := ih (fun hall => h ⟨hi, hall⟩) (bufferResources i + held)
      rw [allocateAndRegisterBuffer_of_registers hi]
      simp only [isFailure_toInt, Bool.not_true, Bool.false_eq_true, if_false, if_true, hret,
        true_and, settle_acquires, hsettle, List.flatMap_cons, ← Multiset.coe_add]
      rw [← add_assoc, add_comm (bufferResources i : Multiset Resource)]

theorem acquired_registerBuffers (i : Nat) (buf : List Buffer) :
    (acquired (registerBuffers o i buf).2.2).Sublist (buffersResources i buf.length) := by
  induction buf generalizing i with
  | nil => simp [registerBuffers, acquired]
  | cons buffer rest ih =>
    rw [List.length_cons, buffersResources_succ]
    simp only [registerBuffers]
    cases hi : o.registers i with
    | false =>
      obtain ⟨hret, -, hsub⟩ := allocateAndRegisterBuffer_of_fails hi buffer 0
      simp only [hret, isFailure_toInt, Bool.not_false, if_true]
      exact hsub.trans (List.sublist_append_left _ _)
    | true =>
      rw [allocateAndRegisterBuffer_of_registers hi]
      simp only [isFailure_toInt, Bool.not_true, Bool.false_eq_true, if_false, acquired_append,
        acquired_acquires]
      exact (List.Sublist.refl _).append (ih (i + 1))

/-- What the loop at `clean_mr` releases when every buffer is registered. -/
theorem releaseBuffers_replicate (i n : Nat) :
    ∃ rs, (buffersResources i n).Perm rs ∧
      releaseBuffers i (List.replicate n registered) = rs.map .release := by
  induction n generalizing i with
  | zero => exact ⟨[], .refl _, rfl⟩
  | succ n ih =>
    obtain ⟨rs, hperm, hlog⟩ := ih (i + 1)
    refine ⟨.mr i :: .memory i :: rs, ?_, ?_⟩
    · rw [buffersResources_succ]
      exact (List.Perm.swap _ _ _).trans ((hperm.cons _).cons _)
    · simp [List.replicate_succ, releaseBuffers, registered] at hlog ⊢
      exact hlog

end Buffers

/-! Each label of the ladder releases what is held when control gets there, and `left` stays. -/

section Ladder
variable {held left : Multiset Resource} {ctx : RdmaContext} {log : List (Entry Resource)} {n : Nat}

theorem settle_cleanDevice (h : settle held log = some (.device ::ₘ left)) :
    settle held (cleanDevice ctx log).log = some left := by
  rw [cleanDevice, settle_append_of h, settle_release, settle_nil]

theorem settle_cleanCompChannel (hchannel : ctx.channel = true)
    (h : settle held log = some (.channel ::ₘ .device ::ₘ left)) :
    settle held (cleanCompChannel ctx log).log = some left := by
  apply settle_cleanDevice
  rw [hchannel, if_pos rfl, settle_append_of h, settle_release, settle_nil]

theorem settle_cleanPd (hchannel : ctx.channel = true)
    (h : settle held log = some (.pd ::ₘ .channel ::ₘ .device ::ₘ left)) :
    settle held (cleanPd ctx log).log = some left := by
  apply settle_cleanCompChannel hchannel
  rw [settle_append_of h, settle_release, settle_nil]

/-- What a context with `n` buffers holds before it has a CQ. -/
def heldAtCq (n : Nat) : Multiset Resource := buffersResources 0 n + {.pd, .channel, .device}

theorem settle_cleanMr (hchannel : ctx.channel = true) (hbuf : ctx.buf = List.replicate n registered)
    (h : settle held log = some (heldAtCq n)) :
    settle held (cleanMr ctx log).log = some 0 := by
  obtain ⟨rs, hperm, hlog⟩ := releaseBuffers_replicate 0 n
  apply settle_cleanPd hchannel
  rw [hbuf, hlog, settle_append_of h, heldAtCq, ← List.append_nil (rs.map Entry.release),
    settle_releases_perm hperm, settle_nil]
  rfl

theorem settle_cleanCq (hchannel : ctx.channel = true) (hbuf : ctx.buf = List.replicate n registered)
    (h : settle held log = some (.cq ::ₘ heldAtCq n)) :
    settle held (cleanCq ctx log).log = some 0 := by
  apply settle_cleanMr hchannel hbuf
  rw [settle_append_of h, settle_release, settle_nil]

theorem settle_cleanQp (hchannel : ctx.channel = true) (hbuf : ctx.buf = List.replicate n registered)
    (h : settle held log = some (.qp ::ₘ .cq ::ₘ heldAtCq n)) :
    settle held (cleanQp ctx log).log = some 0 := by
  apply settle_cleanCq hchannel hbuf
  rw [settle_append_of h, settle_release, settle_nil]

end Ladder

/-- A call that has set up its context exactly when `succeeds`, and has otherwise failed with
`left` still held of what `held` and its log say. -/
structure Ends (held : Multiset Resource) (call : InitCall) (succeeds : Prop)
    (left : Multiset Resource) : Prop where
  success : succeeds → call.ret = PINGWEAVE_SUCCESS
  failure : ¬ succeeds → call.ret = PINGWEAVE_FAILURE ∧ settle held call.log = some left

section Blocks
variable {o : Outcomes} {held : Multiset Resource} {ctx : RdmaContext}
  {log : List (Entry Resource)} {n : Nat}

theorem modifyQp_ends (hchannel : ctx.channel = true)
    (hbuf : ctx.buf = List.replicate n registered)
    (h : settle held log = some (.qp ::ₘ .cq ::ₘ heldAtCq n)) :
    Ends held (modifyQp o ctx log) (o.modify_to_init = true) 0 where
  success hmodify := by simp [modifyQp, hmodify]
  failure hmodify := by
    rw [modifyQp, if_pos (by simpa using hmodify)]
    exact ⟨rfl, settle_cleanQp hchannel hbuf h⟩

theorem createQp_ends (hchannel : ctx.channel = true)
    (hbuf : ctx.buf = List.replicate n registered)
    (h : settle held log = some (.cq ::ₘ heldAtCq n)) :
    Ends held (createQp o ctx log) (o.ibv_create_qp = true ∧ o.modify_to_init = true) 0 := by
  cases hqp : o.ibv_create_qp with
  | false =>
    simp only [createQp, hqp, Bool.not_false, if_true]
    exact ⟨fun hs => absurd hs.1 Bool.false_ne_true, fun _ => ⟨rfl, settle_cleanCq hchannel hbuf h⟩⟩
  | true =>
    have hqp' : settle held (log ++ [.acquire .qp]) = some (.qp ::ₘ .cq ::ₘ heldAtCq n) := by
      rw [settle_append_of h, settle_acquire, settle_nil]
    simp only [createQp, hqp, Bool.not_true, Bool.false_eq_true, if_false, true_and]
    exact modifyQp_ends (by split <;> exact hchannel) (by split <;> exact hbuf) hqp'

/-- The call that creates the CQ, with and without timestamps. -/
def Outcomes.createsCq (o : Outcomes) (rnic_hw_ts : Bool) : Bool :=
  if rnic_hw_ts then o.ibv_create_cq_ex else o.ibv_create_cq

theorem createCq_ends (hchannel : ctx.channel = true)
    (hbuf : ctx.buf = List.replicate n registered) (h : settle held log = some (heldAtCq n)) :
    Ends held (createCq o ctx log)
      (o.createsCq ctx.rnic_hw_ts = true ∧ o.ibv_create_qp = true ∧ o.modify_to_init = true) 0 := by
  rw [createCq, ← Outcomes.createsCq]
  cases hcq : o.createsCq ctx.rnic_hw_ts with
  | false =>
    exact ⟨fun hs => absurd hs.1 Bool.false_ne_true, fun _ => ⟨rfl, settle_cleanMr hchannel hbuf h⟩⟩
  | true =>
    have hcq' : settle held (log ++ [.acquire .cq]) = some (.cq ::ₘ heldAtCq n) := by
      rw [settle_append_of h, settle_acquire, settle_nil]
    simp only [Bool.not_true, Bool.false_eq_true, if_false, true_and]
    exact createQp_ends hchannel hbuf hcq'

/-- What is left when a buffer fails: the buffers before it. -/
def Outcomes.leaked (o : Outcomes) (n : Nat) : List Resource :=
  if ∀ i ∈ List.range' 0 n, o.registers i = true then []
  else ((List.range' 0 n).takeWhile o.registers).flatMap bufferResources

theorem allocateBuffers_ends (hchannel : ctx.channel = true) (hbuf : ctx.buf.length = n)
    (h : settle held log = some {.pd, .channel, .device}) :
    Ends held (allocateBuffers o ctx log)
      ((∀ i ∈ List.range' 0 n, o.registers i = true) ∧ o.createsCq ctx.rnic_hw_ts = true ∧
        o.ibv_create_qp = true ∧ o.modify_to_init = true)
      (o.leaked n) := by
  subst hbuf
  by_cases hall : ∀ i ∈ List.range' 0 ctx.buf.length, o.registers i = true
  · rw [Outcomes.leaked, if_pos hall, allocateBuffers, registerBuffers_of_all hall]
    have hlog : settle held (log ++ (buffersResources 0 ctx.buf.length).map .acquire) =
        some (heldAtCq ctx.buf.length) := by
      rw [settle_append_of h, ← List.append_nil (List.map _ _), settle_acquires, settle_nil, heldAtCq]
    have hends : Ends held (createCq o { ctx with buf := List.replicate ctx.buf.length registered }
        (log ++ (buffersResources 0 ctx.buf.length).map .acquire)) _ 0 :=
      createCq_ends hchannel rfl hlog
    exact ⟨fun hs => hends.success hs.2, fun hs => hends.failure fun hrest => hs ⟨hall, hrest⟩⟩
  · obtain ⟨hret, hsettle⟩ := registerBuffers_of_fails hall {.pd, .channel, .device}
    rw [Outcomes.leaked, if_neg hall, allocateBuffers]
    simp only [hret, Bool.not_false, if_true]
    refine ⟨fun hs => absurd hs.1 hall, fun _ => ⟨rfl, settle_cleanPd hchannel ?_⟩⟩
    rw [settle_append_of h, hsettle, add_comm]
    rfl

theorem allocatePd_ends (hchannel : ctx.channel = true) (hbuf : ctx.buf.length = n)
    (h : settle held log = some {.channel, .device}) :
    Ends held (allocatePd o ctx log)
      (o.ibv_alloc_pd = true ∧ (∀ i ∈ List.range' 0 n, o.registers i = true) ∧
        o.createsCq ctx.rnic_hw_ts = true ∧ o.ibv_create_qp = true ∧ o.modify_to_init = true)
      (if o.ibv_alloc_pd then o.leaked n else 0) := by
  cases hpd : o.ibv_alloc_pd with
  | false =>
    simp only [allocatePd, hpd, Bool.not_false, if_true]
    exact ⟨fun hs => absurd hs.1 Bool.false_ne_true,
      fun _ => ⟨rfl, settle_cleanCompChannel hchannel h⟩⟩
  | true =>
    have hpd' : settle held (log ++ [.acquire .pd]) = some {.pd, .channel, .device} := by
      rw [settle_append_of h, settle_acquire, settle_nil]
      rfl
    simp only [allocatePd, hpd, Bool.not_true, Bool.false_eq_true, if_false, if_true, true_and]
    exact allocateBuffers_ends hchannel hbuf hpd'

theorem createCompChannel_ends (hbuf : ctx.buf.length = n) :
    Ends {.device} (createCompChannel o ctx [])
      (o.ibv_create_comp_channel = true ∧ o.ibv_alloc_pd = true ∧
        (∀ i ∈ List.range' 0 n, o.registers i = true) ∧ o.createsCq ctx.rnic_hw_ts = true ∧
        o.ibv_create_qp = true ∧ o.modify_to_init = true)
      (if o.ibv_create_comp_channel ∧ o.ibv_alloc_pd then o.leaked n else 0) := by
  cases hchannel : o.ibv_create_comp_channel with
  | false =>
    simp only [createCompChannel, hchannel, Bool.not_false, if_true]
    exact ⟨fun hs => absurd hs.1 Bool.false_ne_true, fun _ => ⟨rfl, settle_cleanDevice rfl⟩⟩
  | true =>
    simp only [createCompChannel, hchannel, Bool.not_true, Bool.false_eq_true, if_false, true_and]
    exact allocatePd_ends rfl hbuf rfl

/-- The calls up to the allocation of the buffers succeed. -/
structure Outcomes.ReachesBuffers (o : Outcomes) : Prop where
  port : ∃ phys_port_cnt, o.ibv_query_device = some phys_port_cnt ∧
    ∃ port, 1 ≤ port ∧ port ≤ phys_port_cnt ∧ o.port_state port = some IBV_PORT_ACTIVE
  gid : ∃ gid_table_size, o.gid_tbl_len = some gid_table_size ∧
    ∃ i : Nat, i < gid_table_size ∧ ∃ gid_str, o.ibv_query_gid i = some gid_str ∧ Usable gid_str
  channel : o.ibv_create_comp_channel = true
  pd : o.ibv_alloc_pd = true

/-- Timestamps are taken by the RNIC. -/
def Outcomes.timestamps (o : Outcomes) : Bool := o.ibv_query_device_ex.any fun mask => mask ≠ 0

structure Outcomes.InitSucceeds (o : Outcomes) : Prop extends o.ReachesBuffers where
  buffers : ∀ i < NUM_BUFFER, o.registers i = true
  cq : o.createsCq o.timestamps = true
  qp : o.ibv_create_qp = true
  modify : o.modify_to_init = true

theorem length_resizeBuf (buf : List Buffer) : (resizeBuf buf).length = NUM_BUFFER := by
  simp only [resizeBuf, List.length_append, List.length_take, List.length_replicate]
  omega

theorem queryTimestamping_buf (ctx : RdmaContext) : (queryTimestamping o ctx).buf = ctx.buf := by
  unfold queryTimestamping
  split
  · rfl
  · split <;> rfl

theorem queryTimestamping_rnic_hw_ts (hoff : ctx.rnic_hw_ts = false) :
    (queryTimestamping o ctx).rnic_hw_ts = o.timestamps := by
  unfold queryTimestamping Outcomes.timestamps
  cases o.ibv_query_device_ex with
  | none => simpa using hoff
  | some mask => by_cases h : mask = 0 <;> simp [h, hoff]

theorem reachesBuffers_iff (o : Outcomes) :
    o.ReachesBuffers ↔
      0 ≤ findActivePort o ∧ 0 ≤ getGidTableIndex o ∧
        o.ibv_create_comp_channel = true ∧ o.ibv_alloc_pd = true := by
  rw [findActivePort_nonneg_iff, getGidTableIndex_nonneg_iff]
  exact ⟨fun ⟨hport, hgid, hchannel, hpd⟩ => ⟨hport, hgid, hchannel, hpd⟩,
    fun ⟨hport, hgid, hchannel, hpd⟩ => ⟨hport, hgid, hchannel, hpd⟩⟩

open Classical in
theorem initCtx_ends (o : Outcomes) (ctx : RdmaContext) :
    Ends {.device} (initCtx o ctx) o.InitSucceeds
      (if o.ReachesBuffers then o.leaked NUM_BUFFER else 0) := by
  by_cases hfound : 0 ≤ findActivePort o ∧ 0 ≤ getGidTableIndex o
  · have hreaches : o.ReachesBuffers ↔ o.ibv_create_comp_channel = true ∧ o.ibv_alloc_pd = true := by
      rw [reachesBuffers_iff, ← and_assoc, and_iff_right hfound]
    have hsucceeds : o.InitSucceeds ↔
        o.ibv_create_comp_channel = true ∧ o.ibv_alloc_pd = true ∧
          (∀ i ∈ List.range' 0 NUM_BUFFER, o.registers i = true) ∧
            o.createsCq o.timestamps = true ∧ o.ibv_create_qp = true ∧ o.modify_to_init = true := by
      constructor
      · rintro ⟨hreach, hbuffers, hcq, hqp, hmodify⟩
        refine ⟨hreach.channel, hreach.pd, fun i hi => hbuffers i ?_, hcq, hqp, hmodify⟩
        simpa using hi
      · rintro ⟨hchannel, hpd, hbuffers, hcq, hqp, hmodify⟩
        exact ⟨hreaches.mpr ⟨hchannel, hpd⟩, fun i hi => hbuffers i (by simpa using hi), hcq, hqp, hmodify⟩
    rw [hsucceeds, if_congr hreaches rfl rfl]
    simp only [initCtx, if_neg (not_lt.mpr hfound.1), if_neg (not_lt.mpr hfound.2)]
    have htimestamps : (queryTimestamping o { ctx with
        rnic_hw_ts := false, send_flags := IBV_SEND_SIGNALED, buf := resizeBuf ctx.buf }).rnic_hw_ts =
          o.timestamps := queryTimestamping_rnic_hw_ts rfl
    rw [← htimestamps]
    apply createCompChannel_ends
    rw [queryTimestamping_buf, length_resizeBuf]
  · have hnot : ¬ o.ReachesBuffers := by
      rw [reachesBuffers_iff, ← and_assoc]
      exact fun h => hfound h.1
    rw [if_neg hnot]
    refine ⟨fun hs => absurd hs.toReachesBuffers hnot, fun _ => ?_⟩
    simp only [initCtx]
    split
    · exact ⟨rfl, settle_cleanDevice rfl⟩
    · split
      · exact ⟨rfl, settle_cleanDevice rfl⟩
      · exact absurd ⟨by omega, by omega⟩ hfound

end Blocks

/-! No resource is acquired twice. -/

section Acquired
variable (o : Outcomes) (ctx : RdmaContext) (log : List (Entry Resource))

theorem acquired_releaseBuffers (i : Nat) (buf : List Buffer) :
    acquired (releaseBuffers i buf) = [] := by
  induction buf generalizing i with
  | nil => rfl
  | cons buffer rest ih =>
    simp only [releaseBuffers, acquired_append, ih, List.append_nil]
    cases buffer.mr <;> cases buffer.addr <;> rfl

theorem acquired_cleanCompChannel :
    acquired (cleanCompChannel ctx log).log = acquired log := by
  simp only [cleanCompChannel, cleanDevice, acquired_append]
  split <;> simp [acquired]

theorem acquired_cleanPd : acquired (cleanPd ctx log).log = acquired log := by
  simp [cleanPd, acquired_cleanCompChannel, acquired]

theorem acquired_cleanMr : acquired (cleanMr ctx log).log = acquired log := by
  simp [cleanMr, acquired_cleanPd, acquired_releaseBuffers]

theorem acquired_cleanCq : acquired (cleanCq ctx log).log = acquired log := by
  simp [cleanCq, acquired_cleanMr, acquired]

theorem acquired_modifyQp : acquired (modifyQp o ctx log).log = acquired log := by
  unfold modifyQp
  split
  · simp [cleanQp, acquired_cleanCq, acquired]
  · rfl

theorem acquired_createQp :
    (acquired (createQp o ctx log).log).Sublist (acquired log ++ [.qp]) := by
  unfold createQp
  split
  · rw [acquired_cleanCq]
    exact List.sublist_append_left _ _
  · simp [acquired_modifyQp, acquired]

theorem acquired_createCq :
    (acquired (createCq o ctx log).log).Sublist (acquired log ++ [.cq, .qp]) := by
  rw [createCq, ← Outcomes.createsCq]
  split
  · rw [acquired_cleanMr]
    exact List.sublist_append_left _ _
  · have hsub := acquired_createQp o ctx (log ++ [.acquire .cq])
    rw [acquired_append, List.append_assoc] at hsub
    exact hsub

variable {ctx} {n : Nat} (hbuf : ctx.buf.length = n)
include hbuf

theorem acquired_allocateBuffers :
    (acquired (allocateBuffers o ctx log).log).Sublist
      (acquired log ++ (buffersResources 0 n ++ [.cq, .qp])) := by
  have hbuffers := acquired_registerBuffers (o := o) 0 ctx.buf
  rw [hbuf] at hbuffers
  simp only [allocateBuffers]
  split
  · rw [acquired_cleanPd, acquired_append]
    exact (List.Sublist.refl _).append (hbuffers.trans (List.sublist_append_left _ _))
  · refine (acquired_createCq _ _ _).trans ?_
    rw [acquired_append, List.append_assoc]
    exact (List.Sublist.refl _).append (hbuffers.append (List.Sublist.refl _))

theorem acquired_allocatePd :
    (acquired (allocatePd o ctx log).log).Sublist
      (acquired log ++ .pd :: (buffersResources 0 n ++ [.cq, .qp])) := by
  unfold allocatePd
  split
  · rw [acquired_cleanCompChannel]
    exact List.sublist_append_left _ _
  · have hsub := acquired_allocateBuffers o (log ++ [.acquire .pd]) hbuf
    rw [acquired_append, List.append_assoc] at hsub
    exact hsub

theorem acquired_createCompChannel :
    (acquired (createCompChannel o ctx []).log).Sublist
      (.channel :: .pd :: (buffersResources 0 n ++ [.cq, .qp])) := by
  unfold createCompChannel
  split
  · exact List.nil_sublist _
  · exact acquired_allocatePd o [.acquire .channel] hbuf

omit hbuf in
theorem acquired_initCtx (ctx : RdmaContext) :
    (acquired (initCtx o ctx).log).Sublist
      (.channel :: .pd :: (buffersResources 0 NUM_BUFFER ++ [.cq, .qp])) := by
  simp only [initCtx]
  split
  · exact List.nil_sublist _
  · split
    · exact List.nil_sublist _
    · apply acquired_createCompChannel
      rw [queryTimestamping_buf, length_resizeBuf]

end Acquired

theorem mem_buffersResources {i n : Nat} {r : Resource} (h : r ∈ buffersResources i n) :
    ∃ j, i ≤ j ∧ (r = .memory j ∨ r = .mr j) := by
  obtain ⟨j, hj, hr⟩ := List.mem_flatMap.mp h
  exact ⟨j, (List.mem_range'_1.mp hj).1, by simpa [bufferResources] using hr⟩

theorem nodup_buffersResources (i n : Nat) : (buffersResources i n).Nodup := by
  induction n generalizing i with
  | zero => exact List.nodup_nil
  | succ n ih =>
    rw [buffersResources_succ]
    refine List.Nodup.append (by simp [bufferResources]) (ih (i + 1)) ?_
    intro r hr hrest
    obtain ⟨j, hj, hj'⟩ := mem_buffersResources hrest
    have : j = i := by
      rcases hj' with rfl | rfl <;> simpa [bufferResources] using hr
    omega

theorem nodup_initCtx (o : Outcomes) (ctx : RdmaContext) :
    (({.device} : Multiset Resource) + acquired (initCtx o ctx).log).Nodup := by
  have hnot : ∀ r : Resource, (∀ j, r ≠ .memory j) → (∀ j, r ≠ .mr j) →
      r ∉ buffersResources 0 NUM_BUFFER := by
    intro r hmemory hmr hmem
    obtain ⟨j, -, rfl | rfl⟩ := mem_buffersResources hmem
    · exact hmemory j rfl
    · exact hmr j rfl
  have hbuffers : (buffersResources 0 NUM_BUFFER ++ [Resource.cq, .qp]).Nodup := by
    refine (nodup_buffersResources 0 NUM_BUFFER).append (by simp) ?_
    intro r hr hlast
    rcases List.mem_pair.mp hlast with rfl | rfl <;> exact hnot _ (by simp) (by simp) hr
  have hall : (Resource.device :: .channel :: .pd ::
      (buffersResources 0 NUM_BUFFER ++ [.cq, .qp])).Nodup := by
    simp [hbuffers, hnot]
  exact Multiset.coe_nodup.mpr (hall.sublist ((acquired_initCtx o ctx).cons_cons _))

theorem leaked_eq_nil_iff (o : Outcomes) {n : Nat} (hpos : 0 < n) :
    o.leaked n = [] ↔ (∀ i < n, o.registers i = true) ∨ o.registers 0 = false := by
  have hall : (∀ i ∈ List.range' 0 n, o.registers i = true) ↔ ∀ i < n, o.registers i = true := by
    simp
  obtain ⟨m, rfl⟩ := Nat.exists_eq_add_one.mpr hpos
  unfold Outcomes.leaked
  split
  · rename_i h
    exact ⟨fun _ => .inl (hall.mp h), fun _ => rfl⟩
  · rename_i h
    rw [hall] at h
    rw [or_iff_right h, List.range'_succ, List.takeWhile_cons]
    cases o.registers 0 <;> simp [bufferResources]

/-- No buffer after the first is the first to fail. -/
def Outcomes.BuffersClean (o : Outcomes) : Prop :=
  o.ReachesBuffers → (∀ i < NUM_BUFFER, o.registers i = true) ∨ o.registers 0 = false

open Classical in
theorem initCtx_releasedOnce_iff (o : Outcomes) (ctx : RdmaContext) :
    ((initCtx o ctx).ret = PINGWEAVE_FAILURE →
        ReleasedOnce {Resource.device} (initCtx o ctx).log) ↔ o.BuffersClean := by
  have hends := initCtx_ends o ctx
  by_cases hs : o.InitSucceeds
  · have hret : (initCtx o ctx).ret ≠ PINGWEAVE_FAILURE := by
      rw [hends.success hs]
      decide
    exact ⟨fun _ _ => .inl hs.buffers, fun _ h => absurd h hret⟩
  · obtain ⟨hret, hsettle⟩ := hends.failure hs
    rw [releasedOnce_iff (nodup_initCtx o ctx) hsettle, Outcomes.BuffersClean,
      ← leaked_eq_nil_iff o (n := NUM_BUFFER) (by decide)]
    by_cases hreach : o.ReachesBuffers
    · simp [hret, hreach]
    · simp [hreach]

end RdmaInit
end Pingweave
