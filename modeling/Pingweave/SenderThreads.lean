import Pingweave.Library.Dict
import Pingweave.Library.Runs
import Pingweave.PinglistServers
import Pingweave.PyText

/-!
# The threads that read the rings

The loop of `agent_sender()`: each round it removes the threads that have ended, tells those to stop
whose address is gone, and starts one for every shared-memory file that has none. A ring is made for
a single consumer, so what matters is that no ring has two live threads.
-/

namespace Pingweave
set_option autoImplicit false

/-- A thread that was started, and whether `stop_event` is set. -/
structure SenderThread where
  fname : Text
  protocol : Text
  ipv4 : Text
  stop_event : Bool
  alive : Bool
  deriving DecidableEq, Repr

/-- `files_running` holds the positions of the threads. An exception leaves the loop for good. -/
structure SenderMain where
  files_running : Dict Text Nat
  threads : List SenderThread
  raised : Bool

namespace SenderMain

/-- A round with the files that it lists and what `check_ip_active` says of the address of a file, to
the running ones first and then to the listed ones; or the end of a thread. -/
inductive Action where
  | round (file_list : List Text) (active activeLater : Text → Bool)
  | die (n : Nat)

def init : SenderMain := ⟨∅, [], false⟩

/-- `fname.strip().split("_")`, which the code takes apart into two. -/
def splitName (fname : Text) : Option (Text × Text) :=
  match (strip fname).splitOn '_' with
  | [protocol, ipv4] => some (protocol, ipv4)
  | _ => none

/-- The turn of the first loop for a running file; `none` is the exception of the unpacking. -/
def checkThread (active : Text → Bool) (threads : List SenderThread) (e : (_ : Text) × Nat) :
    Option (List SenderThread) :=
  match splitName e.1 with
  | none => none
  | some _ =>
    if active e.1 then some threads
    else some (threads.modify e.2 fun t => { t with stop_event := true })

/-- The turn of the second loop for a listed file. -/
def startThread (active : Text → Bool) (s : SenderMain) (fname : Text) : SenderMain :=
  match splitName fname with
  | none => s
  | some (protocol, ipv4) =>
    if active fname = false ∨ protocol ∉ TARGET_PROTOCOLS then s
    else if fname ∈ s.files_running then s
    else
      { s with
        files_running := s.files_running.assign fname s.threads.length
        threads := s.threads ++ [⟨fname, protocol, ipv4, false, true⟩] }

def isAlive (threads : List SenderThread) (n : Nat) : Bool := (threads[n]?).any SenderThread.alive

def round (s : SenderMain) (file_list : List Text) (active activeLater : Text → Bool) : SenderMain :=
  match s.files_running.entries.foldlM (checkThread active) s.threads with
  | none => { s with raised := true }
  | some threads =>
    file_list.foldl (startThread activeLater)
      { s with
        files_running := s.files_running.filterValues (isAlive s.threads)
        threads := threads }

def step (s : SenderMain) : Action → SenderMain
  | .round file_list active activeLater =>
    if s.raised then s else s.round file_list active activeLater
  | .die n => { s with threads := s.threads.modify n fun t => { t with alive := false } }

abbrev run (as : List Action) : SenderMain := Runs.run step init as

/-- What setting `stop_event` leaves alone. -/
def core (t : SenderThread) : Text × Text × Text × Bool := (t.fname, t.protocol, t.ipv4, t.alive)

structure Inv (s : SenderMain) : Prop where
  sound : s.raised = false
  listed : ∀ fname n, s.files_running.lookup fname = some n →
    ∃ t : SenderThread, s.threads[n]? = some t ∧ t.fname = fname
  named : ∀ (n : Nat) (t : SenderThread), s.threads[n]? = some t →
    splitName t.fname = some (t.protocol, t.ipv4) ∧ t.protocol ∈ TARGET_PROTOCOLS
  running : ∀ (n : Nat) (t : SenderThread), s.threads[n]? = some t → t.alive = true →
    s.files_running.lookup t.fname = some n

theorem init_inv : init.Inv := by
  refine ⟨rfl, ?_, ?_, ?_⟩
  · intro fname n hn
    cases hn
  · intro n t ht
    cases ht
  · intro n t ht
    cases ht

/-- Only `stop_event` may have been set. -/
structure Signalled (threads threads' : List SenderThread) : Prop where
  core : threads'.map core = threads.map core
  stop_event : ∀ (n : Nat) (t t' : SenderThread), threads[n]? = some t → threads'[n]? = some t' →
    t.stop_event = true → t'.stop_event = true

namespace Signalled
variable {threads threads' threads'' : List SenderThread}

theorem refl (threads : List SenderThread) : Signalled threads threads := by
  refine ⟨rfl, ?_⟩
  intro n t t' ht ht' hstop
  rw [ht] at ht'
  cases ht'
  exact hstop

theorem get (h : Signalled threads threads') {n : Nat} {t' : SenderThread} (ht' : threads'[n]? = some t') :
    ∃ t, threads[n]? = some t ∧ SenderMain.core t' = SenderMain.core t := by
  have hn := congrArg (fun l => l[n]?) h.core
  simp only [List.getElem?_map, ht', Option.map_some] at hn
  obtain ⟨t, ht, hcore⟩ := Option.map_eq_some_iff.mp hn.symm
  exact ⟨t, ht, hcore.symm⟩

theorem get' (h : Signalled threads threads') {n : Nat} {t : SenderThread} (ht : threads[n]? = some t) :
    ∃ t', threads'[n]? = some t' ∧ SenderMain.core t' = SenderMain.core t := by
  have hn := congrArg (fun l => l[n]?) h.core
  simp only [List.getElem?_map, ht, Option.map_some] at hn
  obtain ⟨t', ht', hcore⟩ := Option.map_eq_some_iff.mp hn
  exact ⟨t', ht', hcore⟩

theorem trans (h : Signalled threads threads') (h' : Signalled threads' threads'') : Signalled threads threads'' := by
  refine ⟨h'.core.trans h.core, ?_⟩
  intro n t t'' ht ht'' hstop
  obtain ⟨t', ht', -⟩ := h'.get ht''
  exact h'.stop_event n t' t'' ht' ht'' (h.stop_event n t t' ht ht' hstop)

theorem modify (threads : List SenderThread) (n : Nat) :
    Signalled threads (threads.modify n fun t => { t with stop_event := true }) := by
  constructor
  · apply List.ext_getElem?
    intro m
    rw [List.getElem?_map, List.getElem?_map, List.getElem?_modify, Option.map_eq_map, Option.map_map]
    congr 1
    funext t
    dsimp only [Function.comp]
    split
    · rfl
    · rfl
  · intro m t t' ht ht' hstop
    rw [List.getElem?_modify, ht, Option.map_eq_map, Option.map_some, Option.some_inj] at ht'
    split at ht'
    · subst ht'
      rfl
    · subst ht'
      exact hstop

end Signalled

theorem checkThread_eq_some (active : Text → Bool) (threads : List SenderThread) {e : (_ : Text) × Nat}
    (h : (splitName e.1).isSome) :
    ∃ threads', checkThread active threads e = some threads' ∧ Signalled threads threads' ∧
      (active e.1 = false → ∀ t' : SenderThread, threads'[e.2]? = some t' → t'.stop_event = true) := by
  obtain ⟨p, hp⟩ := Option.isSome_iff_exists.mp h
  unfold checkThread
  rw [hp]
  by_cases hactive : active e.1 = true
  · refine ⟨threads, if_pos hactive, Signalled.refl threads, ?_⟩
    intro hoff
    rw [hactive] at hoff
    cases hoff
  · refine ⟨_, if_neg hactive, Signalled.modify threads e.2, ?_⟩
    intro _ t' ht'
    rw [List.getElem?_modify] at ht'
    obtain ⟨t, -, heq⟩ := Option.map_eq_some_iff.mp ht'
    rw [if_pos rfl] at heq
    subst heq
    rfl

theorem checkThreads_eq_some (active : Text → Bool) (threads : List SenderThread) {l : List ((_ : Text) × Nat)}
    (h : ∀ e ∈ l, (splitName e.1).isSome) :
    ∃ threads', l.foldlM (checkThread active) threads = some threads' ∧ Signalled threads threads' ∧
      ∀ e ∈ l, active e.1 = false → ∀ t' : SenderThread, threads'[e.2]? = some t' → t'.stop_event = true := by
  induction l generalizing threads with
  | nil => exact ⟨threads, rfl, Signalled.refl threads, nofun⟩
  | cons e l ih =>
    obtain ⟨threads', hstep, hkept, hstop⟩ := checkThread_eq_some active threads (h e List.mem_cons_self)
    obtain ⟨threads'', hrest, hkept', hstops⟩ := ih threads' fun e he => h e (List.mem_cons_of_mem _ he)
    refine ⟨threads'', ?_, hkept.trans hkept', ?_⟩
    · rw [List.foldlM_cons, hstep]
      exact hrest
    · intro e' he' hoff t'' ht''
      rcases List.mem_cons.mp he' with rfl | he'
      · obtain ⟨t', ht', -⟩ := hkept'.get ht''
        exact hkept'.stop_event _ t' t'' ht' ht'' (hstop hoff t' ht')
      · exact hstops e' he' hoff t'' ht''

namespace Inv
variable {s : SenderMain}

theorem die (h : s.Inv) (n : Nat) : (s.step (.die n)).Inv := by
  have hget : ∀ (m : Nat) (t' : SenderThread), (s.step (.die n)).threads[m]? = some t' → ∃ t, s.threads[m]? = some t ∧
      t'.fname = t.fname ∧ t'.protocol = t.protocol ∧ t'.ipv4 = t.ipv4 ∧ (t'.alive = true → t.alive = true) := by
    intro m t' ht'
    dsimp only [step] at ht'
    rw [List.getElem?_modify] at ht'
    obtain ⟨t, ht, heq⟩ := Option.map_eq_some_iff.mp ht'
    refine ⟨t, ht, ?_⟩
    split at heq
    · subst heq
      exact ⟨rfl, rfl, rfl, nofun⟩
    · subst heq
      exact ⟨rfl, rfl, rfl, id⟩
  refine ⟨h.sound, ?_, ?_, ?_⟩
  · intro fname m hm
    obtain ⟨t, ht, hname⟩ := h.listed fname m hm
    dsimp only [step]
    rw [List.getElem?_modify, ht]
    refine ⟨_, rfl, ?_⟩
    split
    · exact hname
    · exact hname
  · intro m t' ht'
    obtain ⟨t, ht, hfname, hprotocol, hipv4, -⟩ := hget m t' ht'
    rw [hfname, hprotocol, hipv4]
    exact h.named m t ht
  · intro m t' ht' halive
    obtain ⟨t, ht, hfname, -, -, hal⟩ := hget m t' ht'
    rw [hfname]
    exact h.running m t ht (hal halive)

/-- The first loop with the removals behind it. -/
theorem sweep (h : s.Inv) {threads : List SenderThread} (hsig : Signalled s.threads threads) :
    Inv { s with
      files_running := s.files_running.filterValues (isAlive s.threads)
      threads := threads } := by
  refine ⟨h.sound, ?_, ?_, ?_⟩
  · intro fname n hn
    obtain ⟨hold, -⟩ := Dict.lookup_filterValues_eq_some.mp hn
    obtain ⟨t, ht, hname⟩ := h.listed fname n hold
    obtain ⟨t', ht', hcore⟩ := hsig.get' ht
    exact ⟨t', ht', (congrArg Prod.fst hcore).trans hname⟩
  · intro n t' ht'
    obtain ⟨t, ht, hcore⟩ := hsig.get ht'
    simp only [core, Prod.mk.injEq] at hcore
    obtain ⟨hfname, hprotocol, hipv4, -⟩ := hcore
    rw [hfname, hprotocol, hipv4]
    exact h.named n t ht
  · intro n t' ht' halive
    obtain ⟨t, ht, hcore⟩ := hsig.get ht'
    simp only [core, Prod.mk.injEq] at hcore
    obtain ⟨hfname, -, -, hal⟩ := hcore
    rw [hal] at halive
    rw [hfname]
    refine Dict.lookup_filterValues_eq_some.mpr ⟨h.running n t ht halive, ?_⟩
    rw [isAlive, ht]
    exact halive

theorem startThread (h : s.Inv) (active : Text → Bool) (fname : Text) : (s.startThread active fname).Inv := by
  unfold SenderMain.startThread
  cases hname : splitName fname with
  | none => exact h
  | some p =>
    obtain ⟨protocol, ipv4⟩ := p
    dsimp only
    split
    · exact h
    rename_i hok
    split
    · exact h
    rename_i hnew
    have hnone : s.files_running.lookup fname = none := AList.lookup_eq_none.mpr hnew
    have hget : ∀ (n : Nat) (t : SenderThread),
        (s.threads ++ [⟨fname, protocol, ipv4, false, true⟩])[n]? = some t →
        s.threads[n]? = some t ∨ n = s.threads.length ∧ t = ⟨fname, protocol, ipv4, false, true⟩ := by
      intro n t ht
      rw [List.getElem?_append] at ht
      split at ht
      · exact .inl ht
      · obtain ⟨hlt, heq⟩ := List.getElem?_eq_some_iff.mp ht
        rw [List.length_singleton] at hlt
        refine .inr ⟨by omega, ?_⟩
        rw [← heq, List.getElem_singleton]
    refine ⟨h.sound, ?_, ?_, ?_⟩
    · intro fname' n hn
      dsimp only at hn ⊢
      rw [Dict.lookup_assign] at hn
      split at hn
      · rename_i heq
        cases hn
        exact ⟨_, List.getElem?_concat_length, heq.symm⟩
      · obtain ⟨t, ht, htname⟩ := h.listed fname' n hn
        exact ⟨t, (List.getElem?_append_left (List.getElem?_eq_some_iff.mp ht).1).trans ht, htname⟩
    · intro n t ht
      rcases hget n t ht with hold | ⟨-, rfl⟩
      · exact h.named n t hold
      · exact ⟨hname, not_not.mp fun hbad => hok (.inr hbad)⟩
    · intro n t ht halive
      dsimp only
      rw [Dict.lookup_assign]
      rcases hget n t ht with hold | ⟨rfl, rfl⟩
      · have hrun := h.running n t hold halive
        have hne : t.fname ≠ fname := by
          intro heq
          rw [heq, hnone] at hrun
          cases hrun
        rw [if_neg hne]
        exact hrun
      · exact if_pos rfl

theorem startThreads (h : s.Inv) (active : Text → Bool) (file_list : List Text) :
    (file_list.foldl (SenderMain.startThread active) s).Inv := by
  induction file_list generalizing s with
  | nil => exact h
  | cons fname file_list ih => exact ih (h.startThread active fname)

/-- The first loop goes through: every running file has a name that comes apart. -/
theorem checkThreads (h : s.Inv) (active : Text → Bool) :
    ∃ threads, s.files_running.entries.foldlM (checkThread active) s.threads = some threads ∧
      Signalled s.threads threads ∧
      ∀ fname n, s.files_running.lookup fname = some n → active fname = false →
        ∀ t : SenderThread, threads[n]? = some t → t.stop_event = true := by
  have hsplit : ∀ e ∈ s.files_running.entries, (splitName e.1).isSome := by
    intro e he
    obtain ⟨t, ht, hname⟩ := h.listed e.1 e.2 (Dict.mem_entries_iff.mp he)
    rw [← hname, (h.named e.2 t ht).1]
    rfl
  obtain ⟨threads, hfold, hsig, hstop⟩ := checkThreads_eq_some active s.threads hsplit
  refine ⟨threads, hfold, hsig, ?_⟩
  intro fname n hn
  exact hstop ⟨fname, n⟩ (Dict.mem_entries_iff.mpr hn)

theorem round (h : s.Inv) (file_list : List Text) (active activeLater : Text → Bool) :
    (s.round file_list active activeLater).Inv := by
  obtain ⟨threads, hfold, hsig, -⟩ := h.checkThreads active
  unfold SenderMain.round
  rw [hfold]
  exact (h.sweep hsig).startThreads activeLater file_list

theorem step (h : s.Inv) (a : Action) : (s.step a).Inv := by
  cases a with
  | round file_list active activeLater =>
    unfold SenderMain.step
    dsimp only
    rw [if_neg (by rw [h.sound]; exact Bool.false_ne_true)]
    exact h.round file_list active activeLater
  | die n => exact h.die n

end Inv

/-- No running file has a thread that has ended. -/
def AllAlive (s : SenderMain) : Prop :=
  ∀ fname n, s.files_running.lookup fname = some n → isAlive s.threads n = true

/-- What the second loop keeps of what it finds. -/
structure Grows (s s' : SenderMain) : Prop where
  threads : s.threads <+: s'.threads
  files_running : ∀ fname, fname ∈ s.files_running → fname ∈ s'.files_running
  alive : s.AllAlive → s'.AllAlive

namespace Grows
variable {s s' s'' : SenderMain}

theorem refl (s : SenderMain) : Grows s s := ⟨List.prefix_rfl, fun _ => id, id⟩

theorem trans (h : Grows s s') (h' : Grows s' s'') : Grows s s'' :=
  ⟨h.threads.trans h'.threads, fun fname => h'.files_running fname ∘ h.files_running fname, h'.alive ∘ h.alive⟩

theorem startThread (s : SenderMain) (active : Text → Bool) (fname : Text) :
    Grows s (s.startThread active fname) := by
  unfold SenderMain.startThread
  cases splitName fname with
  | none => exact refl s
  | some p =>
    obtain ⟨protocol, ipv4⟩ := p
    dsimp only
    split
    · exact refl s
    split
    · exact refl s
    refine ⟨List.prefix_append s.threads _, ?_, ?_⟩
    · intro fname' hmem
      rw [← AList.lookup_isSome] at hmem ⊢
      dsimp only
      rw [Dict.lookup_assign]
      split
      · rfl
      · exact hmem
    · intro halive fname' n hn
      dsimp only at hn ⊢
      rw [Dict.lookup_assign] at hn
      split at hn
      · cases hn
        rw [isAlive, List.getElem?_concat_length]
        rfl
      · have hold := halive fname' n hn
        unfold isAlive at hold ⊢
        cases ht : s.threads[n]? with
        | none =>
          rw [ht] at hold
          cases hold
        | some t =>
          rw [ht] at hold
          rw [List.getElem?_append_left (List.getElem?_eq_some_iff.mp ht).1, ht]
          exact hold

theorem startThreads (s : SenderMain) (active : Text → Bool) (file_list : List Text) :
    Grows s (file_list.foldl (SenderMain.startThread active) s) := by
  induction file_list generalizing s with
  | nil => exact refl s
  | cons fname file_list ih => exact (startThread s active fname).trans (ih (s.startThread active fname))

end Grows

end SenderMain
end Pingweave
