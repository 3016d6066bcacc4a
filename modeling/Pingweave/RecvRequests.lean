import Mathlib.Data.List.Nodup
import Mathlib.Logic.Function.Basic
import Pingweave.Format
import Pingweave.Library.Runs

/-!
# The RECV requests of an RX queue

`client_process_rx_cqe` and `server_process_rx_cqe`, which take completed RECV requests off the
completion queue, and `post_recv`. A request carries the index of its buffer. The NIC completes
requests at any time; every `ibv_post_recv` and `ibv_req_notify_cq` succeeds.
-/

namespace Pingweave
set_option autoImplicit false

def IBV_WC_SUCCESS : UInt32 := 0
def IBV_WC_RECV : UInt32 := 128
def RX_DEPTH : Nat := 1

/-- A completion. -/
structure IbvWc where
  status : UInt32
  wr_id : Nat
  opcode : UInt32
  deriving DecidableEq, Repr

/-- The rx thread: outside the function, at the head of its loop with the completions it has
polled, before the `memcpy` of a message, between this and `post_recv`, and before it hands the
message on. -/
inductive RxPc (μ : Type) where
  | waiting
  | loop (wc_array : List IbvWc)
  | received (wc : IbvWc) (wc_array : List IbvWc)
  | copied (wc : IbvWc) (msg : μ) (wc_array : List IbvWc)
  | posted (msg : μ) (wc_array : List IbvWc)
  | failed

/-- The RX context with its `num` buffers. `received` and `copied` list the messages that the NIC
has put into buffers and those that the thread has copied out, `dropped` the requests of the
completions that it has passed over. -/
structure RxContext (μ : Type) where
  num : Nat
  buf : Nat → μ
  outstanding : List Nat
  cq : List IbvWc
  pc : RxPc μ
  received : List μ
  copied : List μ
  handled : List μ
  dropped : List Nat

namespace RxContext
variable {μ : Type}

inductive Action (μ : Type) where
  | complete (wr_id : Nat) (status opcode : UInt32) (message : μ)
  | thread (cqe_time : UInt64)

/-- `post_recv`, which posts `n` requests for one buffer. -/
def postRecv (s : RxContext μ) (wr_id n : Nat) : RxContext μ :=
  { s with outstanding := s.outstanding ++ List.replicate n wr_id }

/-- The context when the thread has posted a request for each buffer. -/
def start (num : Nat) (buf : Nat → μ) : RxContext μ :=
  (List.range num).foldl (fun s i => s.postRecv i RX_DEPTH) ⟨num, buf, [], [], .waiting, [], [], [], []⟩

/-- The NIC takes an outstanding request and puts a message into its buffer. -/
def complete (s : RxContext μ) (wr_id : Nat) (status opcode : UInt32) (message : μ) : RxContext μ :=
  if wr_id ∈ s.outstanding then
    { s with
      outstanding := s.outstanding.erase wr_id
      buf := Function.update s.buf (wr_id % s.num) message
      cq := s.cq ++ [⟨status, wr_id, opcode⟩]
      received := if status = IBV_WC_SUCCESS then s.received ++ [message] else s.received }
  else s

/-- The next completions: one with `rnic_hw_ts`, a batch otherwise. -/
def poll (rnic_hw_ts : Bool) (s : RxContext μ) : RxContext μ :=
  let n := if rnic_hw_ts then 1 else BATCH_CQE
  { s with pc := .loop (s.cq.take n), cq := s.cq.drop n }

/-- What the loop does with a completion before it copies a message. -/
def examine (s : RxContext μ) (wc : IbvWc) (wc_array : List IbvWc) : RxContext μ :=
  if wc.status ≠ IBV_WC_SUCCESS then { s with pc := .loop wc_array, dropped := s.dropped ++ [wc.wr_id] }
  else if wc.opcode = IBV_WC_RECV then { s with pc := .received wc wc_array }
  else { s with pc := .failed, dropped := s.dropped ++ wc.wr_id :: wc_array.map IbvWc.wr_id }

/-- The next step of the thread; `stamp` is what it does to the message with the time stamp. -/
def advance (stamp : UInt64 → μ → μ) (rnic_hw_ts : Bool) (s : RxContext μ) (cqe_time : UInt64) : RxContext μ :=
  match s.pc with
  | .waiting => if s.cq = [] then { s with pc := .failed } else s.poll rnic_hw_ts
  | .loop [] => if rnic_hw_ts ∧ s.cq ≠ [] then s.poll rnic_hw_ts else { s with pc := .waiting }
  | .loop (wc :: wc_array) => s.examine wc wc_array
  | .received wc wc_array =>
    let msg := s.buf wc.wr_id
    { s with pc := .copied wc (stamp cqe_time msg) wc_array, copied := s.copied ++ [msg] }
  | .copied wc msg wc_array => { s.postRecv wc.wr_id 1 with pc := .posted msg wc_array }
  | .posted msg wc_array => { s with pc := .loop wc_array, handled := s.handled ++ [msg] }
  | .failed => s

def step (stamp : UInt64 → μ → μ) (rnic_hw_ts : Bool) (s : RxContext μ) : Action μ → RxContext μ
  | .complete wr_id status opcode message => s.complete wr_id status opcode message
  | .thread cqe_time => s.advance stamp rnic_hw_ts cqe_time

/-- The client hands the message to `handle_received_message` as it is. -/
def clientProcessRxCqe : Bool → RxContext RdmaPongmsg → Action RdmaPongmsg → RxContext RdmaPongmsg :=
  step fun _ pong_msg => pong_msg

/-- The server enqueues the message with the time stamp. -/
def serverProcessRxCqe : Bool → RxContext RdmaPingmsg → Action RdmaPingmsg → RxContext RdmaPingmsg :=
  step fun cqe_time ping_msg => { ping_msg with time := cqe_time }

/-- The completions whose request the thread still has to see to, in the order in which it does. -/
def inHand : RxPc μ → List IbvWc
  | .waiting | .failed => []
  | .loop wc_array | .posted _ wc_array => wc_array
  | .received wc wc_array | .copied wc _ wc_array => wc :: wc_array

def successes (wcs : List IbvWc) : List IbvWc := wcs.filter fun wc => wc.status = IBV_WC_SUCCESS

/-- Those of them whose message it has not copied. -/
def toCopy : RxPc μ → List IbvWc
  | .waiting | .failed => []
  | .loop wc_array | .posted _ wc_array | .copied _ _ wc_array => successes wc_array
  | .received wc wc_array => wc :: successes wc_array

def unhandled (s : RxContext μ) : List Nat := (inHand s.pc ++ s.cq).map IbvWc.wr_id

/-- The buffers with a message that the thread has not copied. -/
def uncopied (s : RxContext μ) : List Nat := (toCopy s.pc ++ successes s.cq).map IbvWc.wr_id

/-- Each buffer has one request, outstanding, completed or dropped, and the messages that are not
copied are still in their buffers. -/
structure Inv (s : RxContext μ) : Prop where
  once : ∀ i, s.outstanding.count i + s.unhandled.count i + s.dropped.count i = (List.range s.num).count i
  intact : s.pc = .failed ∨ s.received = s.copied ++ s.uncopied.map s.buf

theorem uncopied_subset (s : RxContext μ) : s.uncopied ⊆ s.unhandled := by
  have hsub : ∀ wcs : List IbvWc, successes wcs ⊆ wcs := fun _ _ h => List.mem_of_mem_filter h
  have hcopy : toCopy s.pc ⊆ inHand s.pc := by
    cases s.pc with
    | waiting | failed => exact List.Subset.refl _
    | received wc wc_array => exact List.cons_subset_cons wc (hsub wc_array)
    | copied wc msg wc_array => exact List.subset_cons_of_subset wc (hsub wc_array)
    | _ => exact hsub _
  apply List.map_subset
  intro wc hwc
  rcases List.mem_append.mp hwc with hpc | hcq
  · exact List.mem_append_left _ (hcopy hpc)
  · exact List.mem_append_right _ (hsub _ hcq)

theorem start_eq (num : Nat) (buf : Nat → μ) :
    start num buf = ⟨num, buf, List.range num, [], .waiting, [], [], [], []⟩ := by
  have hfold : ∀ (l : List Nat) (s : RxContext μ),
      l.foldl (fun s i => s.postRecv i RX_DEPTH) s = { s with outstanding := s.outstanding ++ l } := by
    intro l
    induction l with
    | nil =>
      intro s
      rw [List.foldl_nil, List.append_nil]
    | cons i l ih =>
      intro s
      rw [List.foldl_cons, ih, postRecv]
      simp [RX_DEPTH]
  rw [start, hfold, List.nil_append]

theorem inv_start (num : Nat) (buf : Nat → μ) : (start num buf).Inv := by
  rw [start_eq]
  constructor
  · simp [unhandled, inHand]
  · exact Or.inr rfl

section Step
variable {s : RxContext μ}

/-- A buffer that is posted holds no message that has to be copied. -/
theorem Inv.not_uncopied (h : s.Inv) {i : Nat} (hi : i ∈ s.outstanding) : i ∉ s.uncopied := by
  intro hcopy
  have hout := List.count_pos_iff.mpr hi
  have hwait := List.count_pos_iff.mpr (s.uncopied_subset hcopy)
  have hrange := List.nodup_iff_count_le_one.mp (List.nodup_range (n := s.num)) i
  have honce := h.once i
  omega

theorem Inv.lt_num (h : s.Inv) {i : Nat} (hi : i ∈ s.outstanding) : i < s.num := by
  have hout := List.count_pos_iff.mpr hi
  have honce := h.once i
  exact List.mem_range.mp (List.count_pos_iff.mp (by omega))

theorem Inv.complete (h : s.Inv) (wr_id : Nat) (status opcode : UInt32) (message : μ) :
    (s.complete wr_id status opcode message).Inv := by
  unfold RxContext.complete
  split
  · rename_i hmem
    constructor
    · intro i
      have hpos := List.count_pos_iff.mpr hmem
      have honce := h.once i
      simp only [unhandled, List.map_append, List.map_cons, List.map_nil, List.count_append, List.count_erase,
        List.count_singleton] at honce ⊢
      by_cases hi : wr_id = i
      · subst hi
        simp only [beq_self_eq_true, if_true]
        omega
      · have hne : (wr_id == i) = false := beq_false_of_ne hi
        simp only [hne, Bool.false_eq_true, if_false]
        omega
    · refine h.intact.imp id fun hintact => ?_
      have hmod : wr_id % s.num = wr_id := Nat.mod_eq_of_lt (h.lt_num hmem)
      have hkept : s.uncopied.map (Function.update s.buf wr_id message) = s.uncopied.map s.buf := by
        apply List.map_congr_left
        intro i hi
        refine Function.update_of_ne ?_ _ _
        rintro rfl
        exact h.not_uncopied hmem hi
      by_cases hok : status = IBV_WC_SUCCESS
      · have hnew : successes (s.cq ++ [⟨status, wr_id, opcode⟩]) = successes s.cq ++ [⟨status, wr_id, opcode⟩] := by
          simp [successes, hok]
        simp only [uncopied, List.map_append] at hintact hkept
        simp only [uncopied, hnew, hmod, if_pos hok, hintact, ← hkept, List.map_append, List.map_cons, List.map_nil,
          Function.update_self, List.append_assoc]
      · have hnew : successes (s.cq ++ [⟨status, wr_id, opcode⟩]) = successes s.cq := by
          simp [successes, hok]
        simp only [uncopied, hnew, hmod, if_neg hok] at hintact hkept ⊢
        rw [hintact, hkept]
  · exact h

/-- The invariant only speaks of these values. -/
theorem Inv.congr (h : s.Inv) {s' : RxContext μ} (hnum : s'.num = s.num) (hbuf : s'.buf = s.buf)
    (hout : s'.outstanding = s.outstanding) (hunhandled : s'.unhandled = s.unhandled)
    (hdropped : s'.dropped = s.dropped) (huncopied : s'.uncopied = s.uncopied) (hreceived : s'.received = s.received)
    (hcopied : s'.copied = s.copied) (hpc : s.pc ≠ .failed) : s'.Inv := by
  constructor
  · intro i
    rw [hnum, hout, hunhandled, hdropped]
    exact h.once i
  · rw [hreceived, hcopied, huncopied, hbuf]
    exact Or.inr (h.intact.resolve_left hpc)

theorem Inv.poll (h : s.Inv) (rnic_hw_ts : Bool) (hhand : inHand s.pc = []) (hcopy : toCopy s.pc = [])
    (hpc : s.pc ≠ .failed) : (s.poll rnic_hw_ts).Inv := by
  refine h.congr rfl rfl rfl ?_ rfl ?_ rfl rfl hpc
  · rw [unhandled, unhandled, hhand, List.nil_append, RxContext.poll, inHand, List.take_append_drop]
  · rw [uncopied, uncopied, hcopy, List.nil_append, RxContext.poll, toCopy, successes, successes,
      ← List.filter_append, List.take_append_drop, successes]

theorem Inv.examine (h : s.Inv) {wc : IbvWc} {wc_array : List IbvWc} (hpc : s.pc = .loop (wc :: wc_array)) :
    (s.examine wc wc_array).Inv := by
  have hne : s.pc ≠ .failed := by rw [hpc]; exact fun heq => by cases heq
  have hintact := h.intact.resolve_left hne
  unfold RxContext.examine
  split
  · rename_i hstatus
    constructor
    · intro i
      have honce := h.once i
      simp only [unhandled, hpc, inHand, List.cons_append, List.map_cons, List.count_cons, List.count_append,
        List.count_nil] at honce ⊢
      omega
    · right
      simpa only [uncopied, hpc, toCopy, successes, List.filter_cons, hstatus, decide_false,
        Bool.false_eq_true, if_false] using hintact
  · rename_i hstatus
    split
    · refine h.congr rfl rfl rfl ?_ rfl ?_ rfl rfl hne
      · simp only [unhandled, hpc, inHand]
      · simp only [uncopied, hpc, toCopy, successes, List.filter_cons, not_not.mp hstatus, decide_true, if_true]
    · constructor
      · intro i
        have honce := h.once i
        simp only [unhandled, hpc, inHand, List.nil_append, List.cons_append, List.map_cons, List.map_append,
          List.count_cons, List.count_append] at honce ⊢
        omega
      · exact Or.inl rfl

theorem Inv.advance (h : s.Inv) (stamp : UInt64 → μ → μ) (rnic_hw_ts : Bool) (cqe_time : UInt64) :
    (s.advance stamp rnic_hw_ts cqe_time).Inv := by
  have honce := h.once
  have hintact := h.intact
  unfold RxContext.advance
  split
  · rename_i hpc
    split
    · constructor
      · simpa only [unhandled, hpc, inHand] using honce
      · exact Or.inl rfl
    · exact h.poll rnic_hw_ts (by rw [hpc]; rfl) (by rw [hpc]; rfl) (by rw [hpc]; exact fun heq => by cases heq)
  · rename_i hpc
    split
    · exact h.poll rnic_hw_ts (by rw [hpc]; rfl) (by rw [hpc]; rfl) (by rw [hpc]; exact fun heq => by cases heq)
    · constructor
      · simpa only [unhandled, hpc, inHand] using honce
      · right
        simpa [uncopied, hpc, toCopy, successes] using hintact
  · rename_i wc wc_array hpc
    exact h.examine hpc
  · rename_i wc wc_array hpc
    constructor
    · simpa only [unhandled, hpc, inHand] using honce
    · right
      simpa [uncopied, hpc, toCopy] using hintact
  · rename_i wc msg wc_array hpc
    constructor
    · intro i
      have hi := honce i
      simp only [unhandled, hpc, inHand, postRecv, List.replicate_one, List.cons_append, List.map_cons,
        List.count_append, List.count_cons, List.count_nil] at hi ⊢
      omega
    · right
      simpa [uncopied, hpc, toCopy, postRecv] using hintact
  · rename_i msg wc_array hpc
    constructor
    · simpa only [unhandled, hpc, inHand] using honce
    · right
      simpa [uncopied, hpc, toCopy] using hintact
  · exact h

theorem Inv.step (h : s.Inv) (stamp : UInt64 → μ → μ) (rnic_hw_ts : Bool) (a : Action μ) :
    (step stamp rnic_hw_ts s a).Inv := by
  cases a with
  | complete wr_id status opcode message => exact h.complete wr_id status opcode message
  | thread cqe_time => exact h.advance stamp rnic_hw_ts cqe_time

end Step

/-! ### Completions with an error status -/

/-- The completions that the thread has yet to examine. -/
def ahead : RxPc μ → List IbvWc
  | .waiting | .failed => []
  | .loop wc_array | .received _ wc_array | .copied _ _ wc_array | .posted _ wc_array => wc_array

def failures (wcs : List IbvWc) : Nat := wcs.countP fun wc => wc.status ≠ IBV_WC_SUCCESS

@[simp] theorem failures_nil : failures [] = 0 := rfl

@[simp] theorem failures_cons (wc : IbvWc) (wcs : List IbvWc) :
    failures (wc :: wcs) = failures wcs + if wc.status = IBV_WC_SUCCESS then 0 else 1 := by
  simp [failures, List.countP_cons]

@[simp] theorem failures_append (wcs wcs' : List IbvWc) :
    failures (wcs ++ wcs') = failures wcs + failures wcs' := List.countP_append

theorem failures_le_length (wcs : List IbvWc) : failures wcs ≤ wcs.length := List.countP_le_length

/-- How many requests are lost or will be. -/
def lost (s : RxContext μ) : Nat := s.dropped.length + failures (ahead s.pc) + failures s.cq

/-- A completion has the status of a success. -/
def Succeeds (s : RxContext μ) : Action μ → Prop
  | .complete wr_id status _ _ => wr_id ∈ s.outstanding → status = IBV_WC_SUCCESS
  | .thread _ => True

theorem lost_complete (s : RxContext μ) (wr_id : Nat) (status opcode : UInt32) (message : μ) :
    (s.complete wr_id status opcode message).lost =
      s.lost + if wr_id ∈ s.outstanding ∧ status ≠ IBV_WC_SUCCESS then 1 else 0 := by
  unfold complete
  by_cases hmem : wr_id ∈ s.outstanding
  · by_cases hok : status = IBV_WC_SUCCESS
    · simp [lost, hmem, hok]
    · simp [lost, hmem, hok, Nat.add_assoc]
  · simp [hmem]

theorem lost_poll (s : RxContext μ) (rnic_hw_ts : Bool) (hahead : ahead s.pc = []) :
    (s.poll rnic_hw_ts).lost = s.lost := by
  have hsplit : ∀ n, failures (s.cq.take n) + failures (s.cq.drop n) = failures s.cq := by
    intro n
    rw [← failures_append, List.take_append_drop]
  rw [lost, lost, hahead, failures_nil, poll, ahead, Nat.add_assoc, hsplit, Nat.add_zero]

theorem lost_examine {s : RxContext μ} {wc : IbvWc} {wc_array : List IbvWc} (hpc : s.pc = .loop (wc :: wc_array)) :
    s.lost ≤ (s.examine wc wc_array).lost ∧
      ((s.examine wc wc_array).pc = .failed ∨ (s.examine wc wc_array).lost = s.lost) := by
  have hlost : s.lost = s.dropped.length + failures (wc :: wc_array) + failures s.cq := by rw [lost, hpc, ahead]
  rw [hlost, failures_cons]
  unfold examine
  by_cases hok : wc.status = IBV_WC_SUCCESS
  · rw [if_neg (not_not.mpr hok), if_pos hok]
    split
    · exact ⟨Nat.le_refl _, Or.inr rfl⟩
    · have hle := failures_le_length wc_array
      refine ⟨?_, Or.inl rfl⟩
      simp only [lost, ahead, failures_nil, List.length_append, List.length_cons, List.length_map]
      omega
  · rw [if_pos hok, if_neg hok]
    simp only [lost, ahead, List.length_append, List.length_cons, List.length_nil]
    exact ⟨by omega, Or.inr (by omega)⟩

/-- A step of the thread loses nothing more, unless it throws. -/
theorem lost_advance (stamp : UInt64 → μ → μ) (rnic_hw_ts : Bool) (s : RxContext μ) (cqe_time : UInt64) :
    s.lost ≤ (s.advance stamp rnic_hw_ts cqe_time).lost ∧
      ((s.advance stamp rnic_hw_ts cqe_time).pc = .failed ∨
        (s.advance stamp rnic_hw_ts cqe_time).lost = s.lost) := by
  unfold advance
  split
  · rename_i hpc
    split
    · exact ⟨by rw [lost, lost, hpc]; exact Nat.le_refl _, Or.inl rfl⟩
    · rw [lost_poll s rnic_hw_ts (by rw [hpc]; rfl)]
      exact ⟨Nat.le_refl _, Or.inr rfl⟩
  · rename_i hpc
    split
    · rw [lost_poll s rnic_hw_ts (by rw [hpc]; rfl)]
      exact ⟨Nat.le_refl _, Or.inr rfl⟩
    · simp [lost, ahead, hpc]
  · rename_i wc wc_array hpc
    exact lost_examine hpc
  all_goals
    rename_i hpc
    simp [lost, ahead, hpc, postRecv]

theorem lost_step (stamp : UInt64 → μ → μ) (rnic_hw_ts : Bool) (s : RxContext μ) (a : Action μ) :
    s.lost ≤ (step stamp rnic_hw_ts s a).lost := by
  cases a with
  | complete wr_id status opcode message =>
    rw [step, lost_complete]
    exact Nat.le_add_right _ _
  | thread cqe_time => exact (lost_advance stamp rnic_hw_ts s cqe_time).1

theorem lost_run (stamp : UInt64 → μ → μ) (rnic_hw_ts : Bool) (s : RxContext μ) (as : List (Action μ)) :
    s.lost ≤ (Runs.run (step stamp rnic_hw_ts) s as).lost :=
  Runs.run_invariant (P := fun t => s.lost ≤ t.lost)
    (fun t a h => Nat.le_trans h (lost_step stamp rnic_hw_ts t a)) (Nat.le_refl _) as

theorem succeeds_of_lost {stamp : UInt64 → μ → μ} {rnic_hw_ts : Bool} {s : RxContext μ} {as : List (Action μ)}
    (h : (Runs.run (step stamp rnic_hw_ts) s as).lost = 0) : Runs.Along (step stamp rnic_hw_ts) Succeeds s as := by
  induction as generalizing s with
  | nil => trivial
  | cons a as ih =>
    have hle := lost_run stamp rnic_hw_ts (step stamp rnic_hw_ts s a) as
    rw [Runs.run_cons] at h
    refine ⟨?_, ih h⟩
    cases a with
    | complete wr_id status opcode message =>
      intro hmem
      by_contra hbad
      have hone : (step stamp rnic_hw_ts s (.complete wr_id status opcode message)).lost = s.lost + 1 := by
        rw [step, lost_complete, if_pos ⟨hmem, hbad⟩]
      omega
    | thread cqe_time => trivial

theorem lost_of_succeeds {stamp : UInt64 → μ → μ} {rnic_hw_ts : Bool} {s : RxContext μ} (hs : s.lost = 0)
    {as : List (Action μ)} (h : Runs.Along (step stamp rnic_hw_ts) Succeeds s as) :
    (Runs.run (step stamp rnic_hw_ts) s as).pc = .failed ∨ (Runs.run (step stamp rnic_hw_ts) s as).lost = 0 := by
  refine Runs.run_invariant_along (P := fun t => t.pc = .failed ∨ t.lost = 0) ?_ (Or.inr hs) h
  intro t a ht ha
  cases a with
  | complete wr_id status opcode message =>
    rcases ht with hfailed | hzero
    · left
      rw [step, complete]
      split <;> exact hfailed
    · right
      rw [step, lost_complete, hzero, if_neg fun hbad => hbad.2 (ha hbad.1)]
  | thread cqe_time =>
    rcases ht with hfailed | hzero
    · left
      rw [step, advance, hfailed]
      exact hfailed
    · exact (lost_advance stamp rnic_hw_ts t cqe_time).2.imp id fun heq => heq.trans hzero

/-- What is expected of a run of the rx thread: at its end there is one request for each buffer and
every message has been copied as it was received, and no buffer is ever posted while it holds a
message that has to be copied. -/
structure Restored (step : RxContext μ → Action μ → RxContext μ) (s : RxContext μ) (as : List (Action μ)) : Prop where
  outstanding : ∀ i < s.num, (Runs.run step s as).outstanding.count i = 1
  copied : (Runs.run step s as).copied = (Runs.run step s as).received
  copiedFirst : Runs.Along step (fun t a => ∀ i ∈ (step t a).outstanding, i ∉ (step t a).uncopied) s as

theorem step_num (stamp : UInt64 → μ → μ) (rnic_hw_ts : Bool) (s : RxContext μ) (a : Action μ) :
    (step stamp rnic_hw_ts s a).num = s.num := by
  cases a with
  | complete wr_id status opcode message =>
    simp only [step, complete]
    split <;> rfl
  | thread cqe_time =>
    simp only [step, advance]
    split
    · split <;> rfl
    · split <;> rfl
    · simp only [examine]
      split
      · rfl
      · split <;> rfl
    all_goals rfl

/-- When the thread has returned, each buffer has a request that is outstanding or dropped. -/
theorem Inv.returned {s : RxContext μ} (h : s.Inv) (hreturned : s.pc = .waiting) (hempty : s.cq = []) :
    (∀ i, s.outstanding.count i + s.dropped.count i = (List.range s.num).count i) ∧ s.copied = s.received := by
  have hunhandled : s.unhandled = [] := by rw [unhandled, hreturned, hempty]; rfl
  have huncopied : s.uncopied = [] := by rw [uncopied, hreturned, hempty]; rfl
  constructor
  · intro i
    have honce := h.once i
    rwa [hunhandled, List.count_nil, Nat.add_zero] at honce
  · rcases h.intact with hfailed | hintact
    · rw [hreturned] at hfailed
      cases hfailed
    · rw [hintact, huncopied, List.map_nil, List.append_nil]

theorem restored_iff (stamp : UInt64 → μ → μ) (rnic_hw_ts : Bool) (num : Nat) (buf : Nat → μ)
    {as : List (Action μ)} (hreturned : (Runs.run (step stamp rnic_hw_ts) (start num buf) as).pc = .waiting)
    (hempty : (Runs.run (step stamp rnic_hw_ts) (start num buf) as).cq = []) :
    Restored (step stamp rnic_hw_ts) (start num buf) as ↔
      Runs.Along (step stamp rnic_hw_ts) Succeeds (start num buf) as := by
  have hinv : (Runs.run (step stamp rnic_hw_ts) (start num buf) as).Inv :=
    Runs.run_invariant (fun _ a h => h.step stamp rnic_hw_ts a) (inv_start num buf) as
  have hnum : (Runs.run (step stamp rnic_hw_ts) (start num buf) as).num = (start num buf).num :=
    Runs.run_invariant (P := fun t => t.num = (start num buf).num)
      (fun t a h => (step_num stamp rnic_hw_ts t a).trans h) rfl as
  have hlost : (Runs.run (step stamp rnic_hw_ts) (start num buf) as).lost =
      (Runs.run (step stamp rnic_hw_ts) (start num buf) as).dropped.length := by
    rw [lost, hreturned, hempty]
    rfl
  obtain ⟨honce, hcopied⟩ := hinv.returned hreturned hempty
  have hrange : ∀ i < (start num buf).num, (List.range (start num buf).num).count i = 1 := fun i hi =>
    List.count_eq_one_of_mem List.nodup_range (List.mem_range.mpr hi)
  rw [hnum] at honce
  constructor
  · intro h
    apply succeeds_of_lost
    rw [hlost, List.length_eq_zero_iff, List.eq_nil_iff_forall_not_mem]
    intro i hi
    have hpos := List.count_pos_iff.mpr hi
    have hsum := honce i
    have hlt : i < (start num buf).num := List.mem_range.mp (List.count_pos_iff.mp (by omega))
    have hone := h.outstanding i hlt
    rw [hrange i hlt] at hsum
    omega
  · intro h
    have hdropped : (Runs.run (step stamp rnic_hw_ts) (start num buf) as).dropped = [] := by
      rcases lost_of_succeeds (by rw [start_eq]; rfl) h with hfailed | hzero
      · rw [hreturned] at hfailed
        cases hfailed
      · rwa [hlost, List.length_eq_zero_iff] at hzero
    refine ⟨fun i hi => ?_, hcopied, ?_⟩
    · have hsum := honce i
      rwa [hdropped, List.count_nil, Nat.add_zero, hrange i hi] at hsum
    · exact Runs.along_of_invariant (P := Inv) (G := fun _ _ => True) (fun t a ht _ => ht.step stamp rnic_hw_ts a)
        (fun t a ht _ _ hi => (ht.step stamp rnic_hw_ts a).not_uncopied hi) (inv_start num buf)
        (Runs.along_of_forall_mem fun _ _ _ => trivial)

/-- Whenever the rx thread of the client or the server has taken up all the completions, it has
restored the RECV requests if and only if each of these completions had the status of a success. -/
theorem recv_requests_restored_iff (rnic_hw_ts : Bool) (num : Nat)
    (pongs : Nat → RdmaPongmsg) {clientActions : List (Action RdmaPongmsg)}
    (hclient : (Runs.run (clientProcessRxCqe rnic_hw_ts) (start num pongs) clientActions).pc = .waiting)
    (hclientCq : (Runs.run (clientProcessRxCqe rnic_hw_ts) (start num pongs) clientActions).cq = [])
    (pings : Nat → RdmaPingmsg) {serverActions : List (Action RdmaPingmsg)}
    (hserver : (Runs.run (serverProcessRxCqe rnic_hw_ts) (start num pings) serverActions).pc = .waiting)
    (hserverCq : (Runs.run (serverProcessRxCqe rnic_hw_ts) (start num pings) serverActions).cq = []) :
    (Restored (clientProcessRxCqe rnic_hw_ts) (start num pongs) clientActions ↔
        Runs.Along (clientProcessRxCqe rnic_hw_ts) Succeeds (start num pongs) clientActions) ∧
      (Restored (serverProcessRxCqe rnic_hw_ts) (start num pings) serverActions ↔
        Runs.Along (serverProcessRxCqe rnic_hw_ts) Succeeds (start num pings) serverActions) :=
  ⟨restored_iff _ rnic_hw_ts num pongs hclient hclientCq, restored_iff _ rnic_hw_ts num pings hserver hserverCq⟩

/-- A completion and a call of the function that takes it up. -/
def oneCompletion {μ : Type} (status : UInt32) (message : μ) : List (Action μ) :=
  .complete 1 status IBV_WC_RECV message :: List.replicate (if status = IBV_WC_SUCCESS then 6 else 3) (.thread 7)

theorem recv_requests_restored_one :
    (Restored (clientProcessRxCqe true) (start 2 fun _ => default) (oneCompletion 0 default) ↔
        Runs.Along (clientProcessRxCqe true) Succeeds (start 2 fun _ => default) (oneCompletion 0 default)) ∧
      (Restored (serverProcessRxCqe true) (start 2 fun _ => default) (oneCompletion 5 default) ↔
        Runs.Along (serverProcessRxCqe true) Succeeds (start 2 fun _ => default) (oneCompletion 5 default)) :=
  recv_requests_restored_iff true 2 (fun _ => default) rfl rfl (fun _ => default) rfl rfl

/-- A single completion with an error leaves its buffer without a request. -/
theorem not_recv_requests_restored :
    ¬ ∀ (rnic_hw_ts : Bool) (num : Nat) (pongs : Nat → RdmaPongmsg) (as : List (Action RdmaPongmsg)),
      (Runs.run (clientProcessRxCqe rnic_hw_ts) (start num pongs) as).pc = .waiting →
      (Runs.run (clientProcessRxCqe rnic_hw_ts) (start num pongs) as).cq = [] →
      Restored (clientProcessRxCqe rnic_hw_ts) (start num pongs) as := by
  intro h
  have hone := (h true 2 (fun _ => default) (oneCompletion 5 default) rfl rfl).outstanding 1 (by decide)
  revert hone
  decide

end RxContext
end Pingweave
