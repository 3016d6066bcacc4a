import Pingweave.RdmaInitRelease

/-!
# Initialising both RDMA contexts

When `make_ctx` succeeds, and when `initialize_contexts` fails cleanly.
-/

namespace Pingweave
set_option autoImplicit false

open Ledger

namespace RdmaInit

/-- Every call for the context succeeds. -/
structure Outcomes.Complete (o : Outcomes) : Prop extends o.InitSucceeds where
  context : o.get_context_by_ip = true
  rtr : o.modify_to_rtr = true
  rts : o.modify_to_rts = true
  own : o.query_own_gid = true

def ValidProtocol (protocol : Text) : Prop := protocol = ['i', 'b'] ∨ protocol = ['r', 'o', 'c', 'e']

theorem prepareCtx_eq (o : Outcomes) :
    prepareCtx o = if o.modify_to_rtr ∧ o.modify_to_rts then PINGWEAVE_SUCCESS else PINGWEAVE_FAILURE := by
  unfold prepareCtx
  cases o.modify_to_rtr <;> cases o.modify_to_rts <;> rfl

section MakeCtx
variable (o : Outcomes) (file : Option IniParser) (ctx : RdmaContext) (ipv4 protocol : Text)
  (is_rx : Bool)

theorem protocol_createQp (log : List (Entry Resource)) :
    (createQp o ctx log).ctx.protocol = ctx.protocol := by
  unfold createQp
  split
  · rfl
  · unfold modifyQp
    split
    · split <;> rfl
    · split <;> rfl

theorem protocol_createCq (log : List (Entry Resource)) :
    (createCq o ctx log).ctx.protocol = ctx.protocol := by
  rw [createCq, ← Outcomes.createsCq]
  split
  · rfl
  · exact protocol_createQp o ctx _

theorem protocol_createCompChannel (log : List (Entry Resource)) :
    (createCompChannel o ctx log).ctx.protocol = ctx.protocol := by
  unfold createCompChannel
  split
  · rfl
  · unfold allocatePd
    split
    · rfl
    · simp only [allocateBuffers]
      split
      · rfl
      · rw [protocol_createCq]

theorem protocol_queryTimestamping : (queryTimestamping o ctx).protocol = ctx.protocol := by
  unfold queryTimestamping
  split
  · rfl
  · split <;> rfl

theorem protocol_initCtx : (initCtx o ctx).ctx.protocol = ctx.protocol := by
  simp only [initCtx]
  split
  · exact protocol_queryTimestamping _ _
  · split
    · exact protocol_queryTimestamping _ _
    · rw [protocol_createCompChannel]
      exact protocol_queryTimestamping _ _

theorem makeCtx_initCall :
    (makeCtx o file ctx ipv4 protocol is_rx).initCall =
      if o.get_context_by_ip then
        some (initCtx o { ctx with ipv4 := ipv4, is_rx := is_rx, protocol := protocol })
      else none := by
  unfold makeCtx
  cases o.get_context_by_ip with
  | false => rfl
  | true =>
    simp only [Bool.not_true, Bool.false_eq_true, if_false, if_true]
    split
    · rfl
    · split
      · rfl
      · split
        · rfl
        · split <;> rfl

theorem getTrafficClass_of_valid {ctx : RdmaContext} (h : ValidProtocol ctx.protocol) :
    ∃ r, getTrafficClass file ctx = .ok r := by
  rcases h with h | h <;> simp [getTrafficClass, h]

theorem getTrafficClass_of_invalid {ctx : RdmaContext} (h : ¬ ValidProtocol ctx.protocol) :
    ∃ e, getTrafficClass file ctx = .error e := by
  obtain ⟨hib, hroce⟩ := not_or.mp h
  simp [getTrafficClass, hib, hroce]

theorem makeCtx_of_incomplete (h : ¬ o.Complete) :
    (makeCtx o file ctx ipv4 protocol is_rx).ret = .ok PINGWEAVE_FAILURE := by
  unfold makeCtx
  cases hcontext : o.get_context_by_ip with
  | false => rfl
  | true =>
    simp only [Bool.not_true, Bool.false_eq_true, if_false]
    by_cases hinit : o.InitSucceeds
    · simp only [(initCtx_ends o _).success hinit, isFailure_success, Bool.false_eq_true, if_false,
        prepareCtx_eq]
      by_cases hprepare : o.modify_to_rtr = true ∧ o.modify_to_rts = true
      · have hown : o.query_own_gid = false := by
          rw [← Bool.not_eq_true]
          exact fun hown => h ⟨hinit, hcontext, hprepare.1, hprepare.2, hown⟩
        simp only [if_pos hprepare, isFailure_success, hown, Bool.false_eq_true, if_false,
          Bool.not_false, if_true]
      · simp only [if_neg hprepare, isFailure_failure, if_true]
    · simp only [((initCtx_ends o _).failure hinit).1, isFailure_failure, if_true]

/-- When every call succeeds, the protocol decides. -/
theorem makeCtx_of_complete (h : o.Complete) :
    (ValidProtocol protocol →
      (makeCtx o file ctx ipv4 protocol is_rx).ret = .ok PINGWEAVE_SUCCESS) ∧
    (¬ ValidProtocol protocol → ∃ e, (makeCtx o file ctx ipv4 protocol is_rx).ret = .error e) := by
  have hret : ∀ start, (initCtx o start).ret = PINGWEAVE_SUCCESS :=
    fun start => (initCtx_ends o start).success h.toInitSucceeds
  have hprepare : prepareCtx o = PINGWEAVE_SUCCESS := by
    rw [prepareCtx_eq, if_pos ⟨h.rtr, h.rts⟩]
  simp only [makeCtx, h.context, hret, hprepare, h.own, Bool.not_true, isFailure_success,
    Bool.false_eq_true, if_false]
  have hprotocol : (initCtx o { ctx with ipv4 := ipv4, is_rx := is_rx, protocol := protocol }).ctx.protocol =
      protocol := protocol_initCtx _ _
  constructor
  · intro hvalid
    rw [← hprotocol] at hvalid
    obtain ⟨r, hr⟩ := getTrafficClass_of_valid file hvalid
    rw [hr]
  · intro hinvalid
    rw [← hprotocol] at hinvalid
    obtain ⟨e, he⟩ := getTrafficClass_of_invalid file hinvalid
    exact ⟨e, by rw [he]⟩

end MakeCtx

section InitializeContexts
variable (tx rx : Outcomes) (file : Option IniParser) (ctx_tx ctx_rx : RdmaContext)
  (ipv4 protocol : Text)

/-- The initialisation fails cleanly: success is returned only for two contexts that are made,
and a call of `init_ctx` that fails has given back the device and what it has acquired. -/
structure FailsCleanly : Prop where
  bothMade : (initializeContexts tx rx file ctx_tx ctx_rx ipv4 protocol).ret = .ok PINGWEAVE_SUCCESS →
    (makeCtx tx file ctx_tx ipv4 protocol false).ret = .ok PINGWEAVE_SUCCESS ∧
      (makeCtx rx file ctx_rx ipv4 protocol true).ret = .ok PINGWEAVE_SUCCESS
  released : ∀ made ∈ (initializeContexts tx rx file ctx_tx ctx_rx ipv4 protocol).made,
    ∀ init ∈ made.initCall, init.ret = PINGWEAVE_FAILURE →
      ReleasedOnce {Resource.device} init.log

variable {tx rx file ctx_tx ctx_rx ipv4 protocol}

/-- Once the TX context is made, the call returns 1 whether or not the RX context is. -/
theorem initializeContexts_of_tx (hmade : (makeCtx tx file ctx_tx ipv4 protocol false).ret = .ok PINGWEAVE_SUCCESS)
    {ret : Int} (hrx : (makeCtx rx file ctx_rx ipv4 protocol true).ret = .ok ret) :
    initializeContexts tx rx file ctx_tx ctx_rx ipv4 protocol =
      ⟨.ok PINGWEAVE_SUCCESS,
        [makeCtx tx file ctx_tx ipv4 protocol false, makeCtx rx file ctx_rx ipv4 protocol true]⟩ := by
  simp only [initializeContexts, hmade, hrx, isFailure_success, Bool.false_eq_true, if_false]
  split <;> rfl

variable (rx ctx_rx) in
/-- When the TX context is not made, there is no RX context. -/
theorem initializeContexts_of_not_tx
    (hnot : ∀ ret, (makeCtx tx file ctx_tx ipv4 protocol false).ret = .ok ret →
      ret = PINGWEAVE_FAILURE) :
    (initializeContexts tx rx file ctx_tx ctx_rx ipv4 protocol).ret ≠ .ok PINGWEAVE_SUCCESS ∧
      (initializeContexts tx rx file ctx_tx ctx_rx ipv4 protocol).made =
        [makeCtx tx file ctx_tx ipv4 protocol false] := by
  cases hmade : (makeCtx tx file ctx_tx ipv4 protocol false).ret with
  | error e => simp [initializeContexts, hmade]
  | ok ret =>
    obtain rfl := hnot ret hmade
    simp only [initializeContexts, hmade, isFailure_failure, if_true, and_true]
    simp [PINGWEAVE_FAILURE, PINGWEAVE_SUCCESS]

/-- The calls of `init_ctx` that one call of `make_ctx` makes. -/
theorem makeCtx_released_iff (o : Outcomes) (file : Option IniParser) (ctx : RdmaContext)
    (ipv4 protocol : Text) (is_rx : Bool) :
    (∀ init ∈ (makeCtx o file ctx ipv4 protocol is_rx).initCall,
        init.ret = PINGWEAVE_FAILURE → ReleasedOnce {Resource.device} init.log) ↔
      (o.get_context_by_ip = true → o.BuffersClean) := by
  rw [makeCtx_initCall]
  cases o.get_context_by_ip with
  | false => simp
  | true => simp [initCtx_releasedOnce_iff]

/-- The initialisation fails cleanly exactly when the calls for the RX context succeed if those
for the TX context do, and no buffer of the TX context after its first is the first to fail. -/
theorem fails_cleanly_iff (tx rx : Outcomes) (file : Option IniParser)
    (ctx_tx ctx_rx : RdmaContext) (ipv4 protocol : Text) :
    FailsCleanly tx rx file ctx_tx ctx_rx ipv4 protocol ↔
      (tx.Complete → ValidProtocol protocol → rx.Complete) ∧
        (tx.get_context_by_ip = true → tx.BuffersClean) := by
  have htx := makeCtx_released_iff tx file ctx_tx ipv4 protocol false
  have hrx := makeCtx_released_iff rx file ctx_rx ipv4 protocol true
  by_cases hmade : tx.Complete ∧ ValidProtocol protocol
  · obtain ⟨hcomplete, hvalid⟩ := hmade
    have hmadeTx := (makeCtx_of_complete tx file ctx_tx ipv4 protocol false hcomplete).1 hvalid
    have hcleanTx : tx.BuffersClean := fun _ => .inl hcomplete.buffers
    by_cases hrest : rx.Complete
    · have hmadeRx := (makeCtx_of_complete rx file ctx_rx ipv4 protocol true hrest).1 hvalid
      refine ⟨fun _ => ⟨fun _ _ => hrest, fun _ => hcleanTx⟩, fun _ => ⟨fun _ => ⟨hmadeTx, hmadeRx⟩, ?_⟩⟩
      rw [initializeContexts_of_tx hmadeTx hmadeRx, List.forall_mem_cons, List.forall_mem_singleton]
      exact ⟨htx.mpr fun _ => hcleanTx, hrx.mpr fun _ _ => .inl hrest.buffers⟩
    · have hmadeRx := makeCtx_of_incomplete rx file ctx_rx ipv4 protocol true hrest
      refine ⟨fun h => ?_, fun h => absurd (h.1 hcomplete hvalid) hrest⟩
      have hboth := h.bothMade (by rw [initializeContexts_of_tx hmadeTx hmadeRx])
      rw [hmadeRx] at hboth
      exact absurd hboth.2 (by simp [PINGWEAVE_FAILURE, PINGWEAVE_SUCCESS])
  · have hnot : ∀ ret, (makeCtx tx file ctx_tx ipv4 protocol false).ret = .ok ret →
        ret = PINGWEAVE_FAILURE := by
      by_cases hcomplete : tx.Complete
      · obtain ⟨e, he⟩ := (makeCtx_of_complete tx file ctx_tx ipv4 protocol false hcomplete).2
          fun hvalid => hmade ⟨hcomplete, hvalid⟩
        simp [he]
      · rw [makeCtx_of_incomplete tx file ctx_tx ipv4 protocol false hcomplete]
        simp [eq_comm]
    obtain ⟨hret, hcalls⟩ := initializeContexts_of_not_tx rx ctx_rx hnot
    constructor
    · intro h
      refine ⟨fun hcomplete hvalid => absurd ⟨hcomplete, hvalid⟩ hmade, htx.mp ?_⟩
      have hreleased := h.released
      rw [hcalls, List.forall_mem_singleton] at hreleased
      exact hreleased
    · rintro ⟨-, hclean⟩
      refine ⟨fun h => absurd h hret, ?_⟩
      rw [hcalls, List.forall_mem_singleton]
      exact htx.mpr hclean

/-- A device with one active port and one GID, on which every call succeeds. -/
def allSucceed : Outcomes where
  get_context_by_ip := true
  ibv_query_device_ex := some 0
  ibv_query_device := some 1
  port_state _ := some IBV_PORT_ACTIVE
  gid_tbl_len := some 1
  ibv_query_gid _ := some ['f', 'e', '8', '0', ':', ':', '1']
  ibv_create_comp_channel := true
  ibv_alloc_pd := true
  posix_memalign _ := true
  ibv_reg_mr _ := true
  ibv_create_cq_ex := true
  ibv_create_cq := true
  ibv_create_qp := true
  max_inline_data := 0
  modify_to_init := true
  modify_to_rtr := true
  modify_to_rts := true
  query_own_gid := true

def emptyContext : RdmaContext where
  channel := false
  buf := []
  gid_index := 0
  ipv4 := []
  rnic_hw_ts := false
  send_flags := 0
  active_port := 0
  is_rx := false
  completion_timestamp_mask := 0
  protocol := []
  traffic_class := 0

theorem reachesBuffers_allSucceed : allSucceed.ReachesBuffers where
  port := ⟨1, rfl, 1, by omega, by omega, rfl⟩
  gid := ⟨1, rfl, 0, by omega, _, rfl, by decide⟩
  channel := rfl
  pd := rfl

theorem complete_allSucceed : allSucceed.Complete :=
  ⟨⟨reachesBuffers_allSucceed, fun _ _ => rfl, rfl, rfl, rfl⟩, rfl, rfl, rfl, rfl⟩

/-- The RX device is not found, and buffer 1 of the TX context is not registered. -/
theorem not_fails_cleanly :
    ¬ FailsCleanly allSucceed { allSucceed with get_context_by_ip := false } none emptyContext
        emptyContext [] ['i', 'b'] ∧
      ¬ FailsCleanly { allSucceed with ibv_reg_mr := fun i => i ≠ 1 } allSucceed none emptyContext
        emptyContext [] ['i', 'b'] := by
  constructor
  · intro h
    have hmadeTx := (makeCtx_of_complete allSucceed none emptyContext [] ['i', 'b'] false
      complete_allSucceed).1 (.inl rfl)
    have hmadeRx : (makeCtx { allSucceed with get_context_by_ip := false } none emptyContext []
        ['i', 'b'] true).ret = .ok PINGWEAVE_FAILURE := rfl
    have hboth := h.bothMade (by rw [initializeContexts_of_tx hmadeTx hmadeRx])
    rw [hmadeRx] at hboth
    exact absurd hboth.2 (by simp [PINGWEAVE_FAILURE, PINGWEAVE_SUCCESS])
  · intro h
    have hnot : ¬ Outcomes.Complete { allSucceed with ibv_reg_mr := fun i => i ≠ 1 } := by
      intro hcomplete
      exact absurd (hcomplete.buffers 1 (by decide)) (by decide)
    have hmade := makeCtx_of_incomplete _ none emptyContext [] ['i', 'b'] false hnot
    obtain ⟨-, hcalls⟩ := initializeContexts_of_not_tx allSucceed emptyContext
      (fun ret hret => (Except.ok.inj (hmade.symm.trans hret)).symm)
    have hreleased := h.released
    rw [hcalls, List.forall_mem_singleton, makeCtx_released_iff] at hreleased
    rcases hreleased rfl ⟨reachesBuffers_allSucceed.port, reachesBuffers_allSucceed.gid, rfl, rfl⟩ with
      hall | hfirst
    · exact absurd (hall 1 (by decide)) (by decide)
    · exact absurd hfirst (by decide)

end InitializeContexts

end RdmaInit
end Pingweave
