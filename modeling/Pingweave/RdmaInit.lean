import Pingweave.IniParser
import Pingweave.Library.Ledger

/-!
# Setting up the RDMA contexts

`init_ctx`, `prepare_ctx`, `make_ctx` and `initialize_contexts` of `rdma_common.cpp`, with the
functions that they call. How each call to the verbs library, to the allocator and to the search
for the device turns out is given; a log records what is acquired and released. Calls that
release something have their results ignored, as in the source.
-/

namespace Pingweave
set_option autoImplicit false

open Ledger

def PINGWEAVE_SUCCESS : Int := 1
def PINGWEAVE_FAILURE : Int := 0

def isFailure (retval : Int) : Bool := retval = PINGWEAVE_FAILURE

@[simp] theorem isFailure_success : isFailure PINGWEAVE_SUCCESS = false := rfl

@[simp] theorem isFailure_failure : isFailure PINGWEAVE_FAILURE = true := rfl

theorem isFailure_toInt (b : Bool) : isFailure b.toInt = !b := by cases b <;> rfl

def MESSAGE_SIZE : Nat := 64

/-- `sizeof(ibv_grh)`. -/
def GRH_SIZE : Nat := 40

def IBV_PORT_ACTIVE : Nat := 4
def IBV_SEND_SIGNALED : Nat := 2
def IBV_SEND_INLINE : Nat := 8

namespace RdmaInit

/-- What a context acquires. Each of its buffers has memory and a memory region. -/
inductive Resource where
  | device
  | channel
  | pd
  | memory (i : Nat)
  | mr (i : Nat)
  | cq
  | qp
  deriving DecidableEq, Repr

/-- `addr` and `mr` say whether the pointers are set. -/
structure Buffer where
  addr : Bool
  length : Nat
  mr : Bool
  deriving DecidableEq, Repr

structure RdmaContext where
  channel : Bool
  buf : List Buffer
  gid_index : Int
  ipv4 : Text
  rnic_hw_ts : Bool
  send_flags : Nat
  active_port : Int
  is_rx : Bool
  completion_timestamp_mask : UInt64
  protocol : Text
  traffic_class : Int
  deriving Repr

/-- How the calls for one context turn out; `false` and `none` are failures. The calls that
answer a query have the part of the answer that is used. -/
structure Outcomes where
  get_context_by_ip : Bool
  /-- `completion_timestamp_mask` -/
  ibv_query_device_ex : Option UInt64
  /-- `phys_port_cnt` -/
  ibv_query_device : Option Nat
  /-- `ibv_query_port` in `find_active_port`: the state of the port -/
  port_state : Nat → Option Nat
  /-- `ibv_query_port` in `get_gid_table_index` -/
  gid_tbl_len : Option Int
  /-- The GIDs of the table, in the text of `parsed_gid` -/
  ibv_query_gid : Nat → Option Text
  ibv_create_comp_channel : Bool
  ibv_alloc_pd : Bool
  posix_memalign : Nat → Bool
  ibv_reg_mr : Nat → Bool
  ibv_create_cq_ex : Bool
  ibv_create_cq : Bool
  ibv_create_qp : Bool
  max_inline_data : Nat
  modify_to_init : Bool
  modify_to_rtr : Bool
  modify_to_rts : Bool
  /-- `ibv_query_gid` in `make_ctx` -/
  query_own_gid : Bool

/-- What a call of `init_ctx` leaves: the returned code, the context and the log. -/
structure InitCall where
  ret : Int
  ctx : RdmaContext
  log : List (Entry Resource)

section Functions
variable (o : Outcomes)

def findActivePort : Int :=
  match o.ibv_query_device with
  | none => -1
  | some phys_port_cnt =>
    match (List.range' 1 phys_port_cnt).find? fun port => o.port_state port = some IBV_PORT_ACTIVE with
    | some port => port
    | none => -1

/-- The loop of `get_gid_table_index` over the indices below `n`, from the last one down, with
`gid_index` and `preferred_gid_index`. -/
def scanGids : Nat → Int → Int → Int × Int
  | 0, gid_index, preferred_gid_index => (gid_index, preferred_gid_index)
  | i + 1, gid_index, preferred_gid_index =>
    match o.ibv_query_gid i with
    | none => scanGids i gid_index preferred_gid_index
    | some gid_str =>
      if gid_str = [] ∨ gid_str = [':', ':'] then scanGids i gid_index preferred_gid_index
      else
        let preferred :=
          if "::ffff:".toList.isPrefixOf gid_str ∧ preferred_gid_index = -1 then (i : Int)
          else preferred_gid_index
        if gid_str = "fe80::".toList then scanGids i gid_index preferred
        else scanGids i (if gid_index = -1 then i else gid_index) preferred

def getGidTableIndex : Int :=
  match o.gid_tbl_len with
  | none => -1
  | some gid_table_size =>
    if gid_table_size ≤ 0 then -1
    else
      let r := scanGids o gid_table_size.toNat (-1) (-1)
      if r.2 ≠ -1 then r.2 else r.1

/-- The new buffer, what is returned, and the log, for the buffer with index `i`. -/
def allocateAndRegisterBuffer (i : Nat) (buffer : Buffer) (size : Nat) :
    Buffer × Bool × List (Entry Resource) :=
  if !o.posix_memalign i then (buffer, false, [])
  else if !o.ibv_reg_mr i then
    -- the freed address stays in the buffer
    (⟨true, size, false⟩, false, [.acquire (.memory i), .release (.memory i)])
  else (⟨true, size, true⟩, true, [.acquire (.memory i), .acquire (.mr i)])

/-- The loop of `init_ctx` over the buffers, from index `i` on. -/
def registerBuffers (i : Nat) : List Buffer → List Buffer × Bool × List (Entry Resource)
  | [] => ([], true, [])
  | buffer :: rest =>
    let r := allocateAndRegisterBuffer o i buffer (MESSAGE_SIZE + GRH_SIZE)
    if isFailure r.2.1.toInt then (r.1 :: rest, false, r.2.2)
    else
      let s := registerBuffers (i + 1) rest
      (r.1 :: s.1, s.2.1, r.2.2 ++ s.2.2)

/-- The loop at `clean_mr`. -/
def releaseBuffers (i : Nat) : List Buffer → List (Entry Resource)
  | [] => []
  | buffer :: rest =>
    (if buffer.mr then [.release (.mr i)] else []) ++
      ((if buffer.addr then [.release (.memory i)] else []) ++ releaseBuffers (i + 1) rest)

def cleanDevice (ctx : RdmaContext) (log : List (Entry Resource)) : InitCall :=
  ⟨PINGWEAVE_FAILURE, ctx, log ++ [.release .device]⟩

def cleanCompChannel (ctx : RdmaContext) (log : List (Entry Resource)) : InitCall :=
  cleanDevice ctx (log ++ if ctx.channel then [.release .channel] else [])

def cleanPd (ctx : RdmaContext) (log : List (Entry Resource)) : InitCall :=
  cleanCompChannel ctx (log ++ [.release .pd])

def cleanMr (ctx : RdmaContext) (log : List (Entry Resource)) : InitCall :=
  cleanPd ctx (log ++ releaseBuffers 0 ctx.buf)

def cleanCq (ctx : RdmaContext) (log : List (Entry Resource)) : InitCall :=
  cleanMr ctx (log ++ [.release .cq])

def cleanQp (ctx : RdmaContext) (log : List (Entry Resource)) : InitCall :=
  cleanCq ctx (log ++ [.release .qp])

/-- The blocks of `init_ctx` from here on, each with what follows it. -/
def modifyQp (ctx : RdmaContext) (log : List (Entry Resource)) : InitCall :=
  if !o.modify_to_init then cleanQp ctx log else ⟨PINGWEAVE_SUCCESS, ctx, log⟩

def createQp (ctx : RdmaContext) (log : List (Entry Resource)) : InitCall :=
  if !o.ibv_create_qp then cleanCq ctx log
  else
    let ctx := if MESSAGE_SIZE + GRH_SIZE ≤ o.max_inline_data then
        { ctx with send_flags := ctx.send_flags ||| IBV_SEND_INLINE } else ctx
    modifyQp o ctx (log ++ [.acquire .qp])

def createCq (ctx : RdmaContext) (log : List (Entry Resource)) : InitCall :=
  if !(if ctx.rnic_hw_ts then o.ibv_create_cq_ex else o.ibv_create_cq) then cleanMr ctx log
  else createQp o ctx (log ++ [.acquire .cq])

def allocateBuffers (ctx : RdmaContext) (log : List (Entry Resource)) : InitCall :=
  let r := registerBuffers o 0 ctx.buf
  if !r.2.1 then cleanPd { ctx with buf := r.1 } (log ++ r.2.2)
  else createCq o { ctx with buf := r.1 } (log ++ r.2.2)

def allocatePd (ctx : RdmaContext) (log : List (Entry Resource)) : InitCall :=
  if !o.ibv_alloc_pd then cleanCompChannel ctx log
  else allocateBuffers o ctx (log ++ [.acquire .pd])

def createCompChannel (ctx : RdmaContext) (log : List (Entry Resource)) : InitCall :=
  if !o.ibv_create_comp_channel then cleanDevice { ctx with channel := false } log
  else allocatePd o { ctx with channel := true } (log ++ [.acquire .channel])

/-- `ctx->buf.resize(NUM_BUFFER)`. -/
def resizeBuf (buf : List Buffer) : List Buffer :=
  buf.take NUM_BUFFER ++ List.replicate (NUM_BUFFER - buf.length) ⟨false, 0, false⟩

/-- The query of the RNIC for timestamps. -/
def queryTimestamping (ctx : RdmaContext) : RdmaContext :=
  match o.ibv_query_device_ex with
  | none => ctx
  | some mask =>
    if mask = 0 then { ctx with completion_timestamp_mask := 18446744073709551615 }
    else { ctx with rnic_hw_ts := true, completion_timestamp_mask := mask }

def initCtx (ctx : RdmaContext) : InitCall :=
  let ctx := queryTimestamping o
    { ctx with rnic_hw_ts := false, send_flags := IBV_SEND_SIGNALED, buf := resizeBuf ctx.buf }
  let active_port := findActivePort o
  if active_port < 0 then cleanDevice ctx []
  else
    let gid_index := getGidTableIndex o
    if gid_index < 0 then cleanDevice { ctx with active_port := active_port } []
    else createCompChannel o { ctx with active_port := active_port, gid_index := gid_index } []

def prepareCtx : Int :=
  if !o.modify_to_rtr then PINGWEAVE_FAILURE
  else if !o.modify_to_rts then PINGWEAVE_FAILURE
  else PINGWEAVE_SUCCESS

/-- An exception is an error with its text. -/
def getTrafficClass (file : Option IniParser) (ctx : RdmaContext) : Except Text (Int × RdmaContext) :=
  let fromIni (key : Text) : Int × RdmaContext :=
    match getIntParamFromIni file key with
    | some value => (PINGWEAVE_SUCCESS, { ctx with traffic_class := value })
    | none => (PINGWEAVE_FAILURE, { ctx with traffic_class := 0 })
  if ctx.protocol = ['i', 'b'] then .ok (fromIni "traffic_class_ib".toList)
  else if ctx.protocol = ['r', 'o', 'c', 'e'] then .ok (fromIni "traffic_class_roce".toList)
  else .error "Invalid protocol type - must be either ib or roce".toList

/-- What a call of `make_ctx` leaves, with the call of `init_ctx` in it if there is one. -/
structure MakeCall where
  ret : Except Text Int
  ctx : RdmaContext
  initCall : Option InitCall

def makeCtx (file : Option IniParser) (ctx : RdmaContext) (ipv4 protocol : Text) (is_rx : Bool) :
    MakeCall :=
  let ctx := { ctx with ipv4 := ipv4, is_rx := is_rx, protocol := protocol }
  if !o.get_context_by_ip then ⟨.ok PINGWEAVE_FAILURE, ctx, none⟩
  else
    let init := initCtx o ctx
    if isFailure init.ret then ⟨.ok PINGWEAVE_FAILURE, init.ctx, some init⟩
    else if isFailure (prepareCtx o) then ⟨.ok PINGWEAVE_FAILURE, init.ctx, some init⟩
    else if !o.query_own_gid then ⟨.ok PINGWEAVE_FAILURE, init.ctx, some init⟩
    else
      match getTrafficClass file init.ctx with
      | .error e => ⟨.error e, init.ctx, some init⟩
      | .ok r => ⟨.ok PINGWEAVE_SUCCESS, r.2, some init⟩

end Functions

/-- What a call of `initialize_contexts` returns, and its calls of `make_ctx`. -/
structure InitializeCall where
  ret : Except Text Int
  made : List MakeCall

def initializeContexts (tx rx : Outcomes) (file : Option IniParser) (ctx_tx ctx_rx : RdmaContext)
    (ipv4 protocol : Text) : InitializeCall :=
  let madeTx := makeCtx tx file ctx_tx ipv4 protocol false
  match madeTx.ret with
  | .error e => ⟨.error e, [madeTx]⟩
  | .ok ret =>
    if isFailure ret then ⟨.ok PINGWEAVE_FAILURE, [madeTx]⟩
    else
      let madeRx := makeCtx rx file ctx_rx ipv4 protocol true
      match madeRx.ret with
      | .error e => ⟨.error e, [madeTx, madeRx]⟩
      | .ok ret =>
        if isFailure ret then ⟨.ok true.toInt, [madeTx, madeRx]⟩  -- `return true`
        else ⟨.ok PINGWEAVE_SUCCESS, [madeTx, madeRx]⟩

section Queries
variable {o : Outcomes}

theorem findActivePort_nonneg_iff :
    0 ≤ findActivePort o ↔
      ∃ phys_port_cnt, o.ibv_query_device = some phys_port_cnt ∧
        ∃ port, 1 ≤ port ∧ port ≤ phys_port_cnt ∧ o.port_state port = some IBV_PORT_ACTIVE := by
  unfold findActivePort
  cases hdevice : o.ibv_query_device with
  | none => simp
  | some phys_port_cnt =>
    simp only [Option.some.injEq, exists_eq_left']
    cases hfind : (List.range' 1 phys_port_cnt).find? fun port =>
        o.port_state port = some IBV_PORT_ACTIVE with
    | none =>
      have hnone := List.find?_eq_none.mp hfind
      refine ⟨fun h => absurd h (by simp), ?_⟩
      rintro ⟨port, hlow, hhigh, hactive⟩
      have hmem : port ∈ List.range' 1 phys_port_cnt := List.mem_range'_1.mpr ⟨hlow, by omega⟩
      exact absurd (by simp [hactive]) (hnone port hmem)
    | some port =>
      have hactive := List.find?_some hfind
      have hmem := List.mem_range'_1.mp (List.mem_of_find?_eq_some hfind)
      refine ⟨fun _ => ⟨port, hmem.1, by omega, by simpa using hactive⟩, fun _ => ?_⟩
      exact Int.natCast_nonneg port

/-- The greatest index below `n` with the property, or -1. -/
def lastIndex (P : Nat → Bool) : Nat → Int
  | 0 => -1
  | i + 1 => if P i then i else lastIndex P i

theorem lastIndex_cases (P : Nat → Bool) (n : Nat) :
    (lastIndex P n = -1 ∧ ∀ i < n, P i = false) ∨
      (0 ≤ lastIndex P n ∧ ∃ i < n, P i = true) := by
  induction n with
  | zero => exact .inl ⟨rfl, by omega⟩
  | succ n ih =>
    cases hn : P n with
    | true => exact .inr ⟨by simp [lastIndex, hn], n, by omega, hn⟩
    | false =>
      simp only [lastIndex, hn, Bool.false_eq_true, if_false]
      rcases ih with ⟨hnone, hall⟩ | ⟨hsome, i, hi, hP⟩
      · refine .inl ⟨hnone, fun i hi => ?_⟩
        rcases Nat.lt_succ_iff_lt_or_eq.mp hi with hlt | rfl
        · exact hall i hlt
        · exact hn
      · exact .inr ⟨hsome, i, by omega, hP⟩

/-- A GID that `get_gid_table_index` falls back to. -/
def Usable (gid_str : Text) : Prop :=
  gid_str ≠ [] ∧ gid_str ≠ [':', ':'] ∧ gid_str ≠ "fe80::".toList

instance (gid_str : Text) : Decidable (Usable gid_str) := inferInstanceAs (Decidable (_ ∧ _ ∧ _))

def Outcomes.usableGid (o : Outcomes) (i : Nat) : Bool := (o.ibv_query_gid i).any fun t => Usable t

def Outcomes.preferredGid (o : Outcomes) (i : Nat) : Bool :=
  (o.ibv_query_gid i).any fun t => "::ffff:".toList.isPrefixOf t

theorem usable_of_preferred {t : Text} (h : "::ffff:".toList.isPrefixOf t = true) : Usable t := by
  obtain ⟨rest, rfl⟩ := List.isPrefixOf_iff_prefix.mp h
  refine ⟨?_, ?_, ?_⟩ <;> simp

/-- The loop leaves the last usable index and the last preferred one. -/
theorem scanGids_eq (n : Nat) (gid_index preferred_gid_index : Int) :
    scanGids o n gid_index preferred_gid_index =
      (if gid_index = -1 then lastIndex o.usableGid n else gid_index,
        if preferred_gid_index = -1 then lastIndex o.preferredGid n else preferred_gid_index) := by
  induction n generalizing gid_index preferred_gid_index with
  | zero => simp +contextual [scanGids, lastIndex]
  | succ n ih =>
    have hn : (n : Int) ≠ -1 := by omega
    rw [scanGids, lastIndex, lastIndex]
    cases hgid : o.ibv_query_gid n with
    | none =>
      have husable : o.usableGid n = false := by simp [Outcomes.usableGid, hgid]
      have hpreferred : o.preferredGid n = false := by simp [Outcomes.preferredGid, hgid]
      simp only [husable, hpreferred, Bool.false_eq_true, if_false, ih]
    | some t =>
      have husable : o.usableGid n = decide (Usable t) := by simp [Outcomes.usableGid, hgid]
      have hpreferred : o.preferredGid n = "::ffff:".toList.isPrefixOf t := by
        simp [Outcomes.preferredGid, hgid]
      by_cases hu : Usable t
      · -- an index is taken where none has been taken yet
        have hempty : ¬ (t = [] ∨ t = [':', ':']) := by
          rintro (h | h)
          · exact hu.1 h
          · exact hu.2.1 h
        simp only [husable, hpreferred, hu, hempty, hu.2.2, decide_true, if_true, if_false, ih]
        by_cases hg : gid_index = -1 <;> by_cases hp : preferred_gid_index = -1 <;>
          cases "::ffff:".toList.isPrefixOf t <;> simp [hg, hp, hn]
      · have hnot : "::ffff:".toList.isPrefixOf t = false := by
          rw [← Bool.not_eq_true]
          exact fun h => hu (usable_of_preferred h)
        have hskip : ¬ (t = [] ∨ t = [':', ':']) → t = "fe80::".toList := by
          intro hempty
          by_contra hne
          exact hu ⟨fun h => hempty (.inl h), fun h => hempty (.inr h), hne⟩
        simp only [husable, hpreferred, hu, hnot, decide_false, Bool.false_eq_true, false_and,
          if_false, ih]
        split
        · rfl
        · rename_i hempty
          rw [if_pos (hskip hempty)]

/-- The last GID with the prefix for IPv4 addresses is chosen, and without one the last usable
GID. -/
theorem getGidTableIndex_eq {gid_table_size : Int} (h : o.gid_tbl_len = some gid_table_size)
    (hpos : 0 < gid_table_size) :
    getGidTableIndex o =
      if lastIndex o.preferredGid gid_table_size.toNat ≠ -1 then
        lastIndex o.preferredGid gid_table_size.toNat
      else lastIndex o.usableGid gid_table_size.toNat := by
  simp only [getGidTableIndex, h, scanGids_eq, if_true, if_neg (not_le.mpr hpos)]

theorem getGidTableIndex_nonneg_iff :
    0 ≤ getGidTableIndex o ↔
      ∃ gid_table_size, o.gid_tbl_len = some gid_table_size ∧
        ∃ i : Nat, i < gid_table_size ∧ ∃ gid_str, o.ibv_query_gid i = some gid_str ∧ Usable gid_str := by
  cases hlen : o.gid_tbl_len with
  | none => simp [getGidTableIndex, hlen]
  | some size =>
    simp only [Option.some.injEq, exists_eq_left']
    have husable : ∀ i, o.usableGid i = true ↔ ∃ t, o.ibv_query_gid i = some t ∧ Usable t := by
      simp [Outcomes.usableGid, Option.any_eq_true]
    have hpreferred : ∀ i, o.preferredGid i = true → o.usableGid i = true := by
      intro i h
      obtain ⟨t, ht, hprefix⟩ := (Option.any_eq_true _ _).mp h
      exact (husable i).mpr ⟨t, ht, usable_of_preferred hprefix⟩
    simp only [← husable]
    by_cases hpos : 0 < size
    · rw [getGidTableIndex_eq hlen hpos]
      rcases lastIndex_cases o.preferredGid size.toNat with ⟨hnone, -⟩ | ⟨hsome, i, hi, hpref⟩
      · rw [if_neg (by simp [hnone])]
        rcases lastIndex_cases o.usableGid size.toNat with ⟨hlast, hall⟩ | ⟨hlast, i, hi, hu⟩
        · refine ⟨fun h => by omega, ?_⟩
          rintro ⟨i, hi, hu⟩
          have := hall i (by omega)
          simp [hu] at this
        · exact ⟨fun _ => ⟨i, by omega, hu⟩, fun _ => hlast⟩
      · rw [if_pos (by omega)]
        exact ⟨fun _ => ⟨i, by omega, hpreferred i hpref⟩, fun _ => hsome⟩
    · refine ⟨fun h => ?_, fun ⟨i, hi, _⟩ => by omega⟩
      simp [getGidTableIndex, hlen, not_lt.mp hpos] at h

end Queries

end RdmaInit
end Pingweave
