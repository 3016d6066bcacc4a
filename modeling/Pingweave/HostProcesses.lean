import Mathlib.Logic.Function.Basic
import Pingweave.Supervisor

/-!
# The processes of a host

The main loop of `pingweave.py` with the processes that it starts. An entry of `running_processes`
stands for the process that was started last under its key; a process ends when it likes.
-/

namespace Pingweave
set_option autoImplicit false

structure Process where
  key : ProcessKey
  exited : Bool
  deriving DecidableEq, Repr

/-- The supervisor with all processes that it started, and which of them an entry stands for. -/
structure Host where
  supervisor : Supervisor
  processes : List Process
  handle : ProcessKey → Nat

/-- What a round finds, and the processes that end while it goes on. -/
structure Found where
  control_host : Text
  local_ips : List Text
  pinglist : Option (Option Yaml)
  starts : ProcessKey → Bool
  ends : Nat → Bool

namespace Host
open Supervisor

inductive Action where
  | exit (ends : Nat → Bool)
  | round (found : Found)
  /-- `KeyboardInterrupt` while the loop sleeps. -/
  | interrupt

def init : Host := ⟨Supervisor.init, [], fun _ => 0⟩

def exit (h : Host) (ends : Nat → Bool) : Host :=
  { h with processes := h.processes.mapIdx fun n p => if ends n then { p with exited := true } else p }

/-- The process with this number has not ended. -/
def Live (h : Host) (n : Nat) (p : Process) : Prop := h.processes[n]? = some p ∧ p.exited = false

/-- `poll() is not None` -/
def poll (h : Host) (key : ProcessKey) : Bool :=
  match h.processes[h.handle key]? with
  | none => false
  | some p => p.exited

def found (h : Host) (f : Found) : Round where
  control_host := f.control_host
  local_ips := f.local_ips
  pinglist := f.pinglist
  exited := h.poll
  exitedLater := (h.exit f.ends).poll
  starts := f.starts

def withRunning (h : Host) (running : Processes) : Host :=
  { h with supervisor := { h.supervisor with running_processes := running } }

def startProcess (r : Round) (h : Host) (key : ProcessKey) : Host :=
  let running := h.supervisor.running_processes
  if running.any fun e => e.1 = key ∧ e.2.isSome ∧ ¬ r.exitedLater key then h
  else if r.starts key then
    { h.withRunning (assign running key (some ⟨false⟩)) with
      processes := h.processes ++ [⟨key, false⟩]
      handle := Function.update h.handle key h.processes.length }
  else h.withRunning (assign running key none)

def leave (h : Host) (running : Processes) : Host :=
  { h with supervisor := { h.supervisor with running_processes := killAll running, aborted := true } }

def restart (h : Host) (r : Round) (myaddr : Option Records) : Host :=
  let t := terminate r myaddr h.supervisor.running_processes
  if t.2 then (startKeys r myaddr).foldl (startProcess r) (h.withRunning (popExited r t.1))
  else h.leave t.1

def withRetries (h : Host) (cntr : Int) : Host :=
  { h with supervisor := { h.supervisor with pinglist_yaml_load_retry_cntr := cntr } }

def round (h : Host) (f : Found) : Host :=
  let r := h.found f
  let h := h.exit f.ends
  let cntr := h.supervisor.pinglist_yaml_load_retry_cntr
  if h.supervisor.aborted then h
  else
    match loaded r with
    | some records => (h.withRetries 0).restart r (some records)
    | none => if 0 ≤ cntr ∧ cntr < 10 then h.withRetries (cntr + 1) else h.restart r none

def step (h : Host) : Action → Host
  | .exit ends => h.exit ends
  | .round f => h.round f
  | .interrupt => if h.supervisor.aborted then h else h.leave h.supervisor.running_processes

abbrev run (h : Host) (as : List Action) : Host := Runs.run step h as

/-! ### The supervisor in it -/

theorem startProcess_supervisor (r : Round) (h : Host) (key : ProcessKey) :
    (Host.startProcess r h key).supervisor =
      { h.supervisor with running_processes := Supervisor.startProcess r h.supervisor.running_processes key } := by
  unfold startProcess Supervisor.startProcess
  dsimp only
  split
  · rfl
  · split
    · rfl
    · rfl

theorem startProcesses_supervisor (r : Round) (h : Host) (keys : List ProcessKey) :
    (keys.foldl (startProcess r) h).supervisor =
      { h.supervisor with
        running_processes := keys.foldl (Supervisor.startProcess r) h.supervisor.running_processes } := by
  induction keys generalizing h with
  | nil => rfl
  | cons key keys ih => rw [List.foldl_cons, List.foldl_cons, ih, startProcess_supervisor]

theorem restart_supervisor (h : Host) (r : Round) (myaddr : Option Records) :
    (h.restart r myaddr).supervisor = h.supervisor.restart r myaddr := by
  unfold restart Supervisor.restart
  dsimp only
  split
  · exact startProcesses_supervisor r _ _
  · rfl

/-- A round of the host is a round of its supervisor. -/
theorem round_supervisor (h : Host) (f : Found) : (h.round f).supervisor = h.supervisor.round (h.found f) := by
  have hsame : (h.exit f.ends).supervisor = h.supervisor := rfl
  unfold round Supervisor.round
  dsimp only
  rw [hsame]
  by_cases haborted : h.supervisor.aborted = true
  · rw [if_pos haborted, if_pos haborted, hsame]
  · rw [if_neg haborted, if_neg haborted]
    cases loaded (h.found f) with
    | some records => exact restart_supervisor _ _ _
    | none =>
      dsimp only
      by_cases hretry : 0 ≤ h.supervisor.pinglist_yaml_load_retry_cntr ∧ h.supervisor.pinglist_yaml_load_retry_cntr < 10
      · rw [if_pos hretry, if_pos hretry]
        rfl
      · rw [if_neg hretry, if_neg hretry]
        exact restart_supervisor _ _ _

/-! ### What holds of all runs -/

/-- The keys are those of a dict, an entry stands for a process of its key, and every process that
has not ended has the entry of its key. -/
structure Inv (h : Host) : Prop where
  nodup : (h.supervisor.running_processes.map Prod.fst).Nodup
  known : ∀ e ∈ h.supervisor.running_processes, IsProtocol e.1 → e.1.2.2 ∈ TARGET_PROTOCOLS
  handled : ∀ e ∈ h.supervisor.running_processes, e.2.isSome = true →
    ∃ p, h.processes[h.handle e.1]? = some p ∧ p.key = e.1
  tracked : ∀ n p, h.Live n p →
    h.handle p.key = n ∧ ∃ proc, (p.key, some proc) ∈ h.supervisor.running_processes

section Relabel

/-- Only what is known of the processes differs. -/
abbrev Relabels (l l' : Processes) : Prop := List.Forall₂ (fun e e' => e'.1 = e.1 ∧ e'.2.isSome = e.2.isSome) l l'

theorem checkProcess_isSome {r : Round} {myaddr : Option Records} {e e' : ProcessKey × Option Popen}
    (h : checkProcess r myaddr e = some e') : e'.2.isSome = e.2.isSome := by
  obtain ⟨key, proc⟩ := e
  cases proc with
  | none =>
    cases h
    rfl
  | some proc =>
    rw [checkProcess_some] at h
    split at h
    · cases h
      rfl
    · split at h
      · cases h
        rfl
      · split at h
        · cases h
          rfl
        · obtain ⟨ips, -, rfl⟩ := Option.map_eq_some_iff.mp h
          rfl

theorem relabels_refl (l : Processes) : Relabels l l := List.forall₂_same.mpr fun _ _ => ⟨rfl, rfl⟩

theorem relabels_terminate (r : Round) (myaddr : Option Records) (l : Processes) :
    Relabels l (terminate r myaddr l).1 := by
  induction l with
  | nil => exact .nil
  | cons e l ih =>
    unfold terminate
    split
    · exact relabels_refl _
    · rename_i e' hcheck
      exact .cons ⟨checkProcess_fst hcheck, checkProcess_isSome hcheck⟩ ih

theorem relabels_killAll (l : Processes) : Relabels l (killAll l) := by
  induction l with
  | nil => exact .nil
  | cons e l ih =>
    obtain ⟨key, proc⟩ := e
    cases proc with
    | none => exact relabels_refl _
    | some proc => exact .cons ⟨rfl, rfl⟩ ih

theorem Relabels.keys {l l' : Processes} (h : Relabels l l') : l'.map Prod.fst = l.map Prod.fst := by
  induction h with
  | nil => rfl
  | cons he _ ih => rw [List.map_cons, List.map_cons, he.1, ih]

theorem Relabels.mem {l l' : Processes} (h : Relabels l l') {e : ProcessKey × Option Popen} (he : e ∈ l) :
    ∃ e' ∈ l', e'.1 = e.1 ∧ e'.2.isSome = e.2.isSome := by
  induction h with
  | nil => cases he
  | cons hab _ ih =>
    rcases List.mem_cons.mp he with rfl | he
    · exact ⟨_, List.mem_cons_self, hab⟩
    · obtain ⟨e', he', hsame⟩ := ih he
      exact ⟨e', List.mem_cons_of_mem _ he', hsame⟩

theorem Relabels.mem_of {l l' : Processes} (h : Relabels l l') {e' : ProcessKey × Option Popen} (he : e' ∈ l') :
    ∃ e ∈ l, e'.1 = e.1 ∧ e'.2.isSome = e.2.isSome := by
  induction h with
  | nil => cases he
  | cons hab _ ih =>
    rcases List.mem_cons.mp he with rfl | he
    · exact ⟨_, List.mem_cons_self, hab⟩
    · obtain ⟨e, he', hsame⟩ := ih he
      exact ⟨e, List.mem_cons_of_mem _ he', hsame⟩

theorem Inv.relabel {h : Host} (hinv : h.Inv) {s : Supervisor}
    (hl : Relabels h.supervisor.running_processes s.running_processes) : Inv { h with supervisor := s } := by
  refine ⟨?_, ?_, ?_, ?_⟩
  · show (s.running_processes.map Prod.fst).Nodup
    rw [hl.keys]
    exact hinv.nodup
  · intro e he
    obtain ⟨o, ho, hkey, -⟩ := hl.mem_of he
    rw [hkey]
    exact hinv.known o ho
  · intro e he hsome
    obtain ⟨o, ho, hkey, hsame⟩ := hl.mem_of he
    show ∃ p, h.processes[h.handle e.1]? = some p ∧ p.key = e.1
    rw [hkey]
    exact hinv.handled o ho (hsame ▸ hsome)
  · intro n p hp
    obtain ⟨hhandle, proc, hmem⟩ := hinv.tracked n p hp
    obtain ⟨⟨key, o⟩, ho, hkey, hsame⟩ := hl.mem hmem
    obtain ⟨proc', rfl⟩ := Option.isSome_iff_exists.mp (hsame.trans rfl)
    dsimp only at hkey
    subst hkey
    exact ⟨hhandle, proc', ho⟩

end Relabel

section Exit
variable {h : Host}

theorem live_of_exit {ends : Nat → Bool} {n : Nat} {p : Process} (hp : (h.exit ends).Live n p) : h.Live n p := by
  obtain ⟨hp, hlive⟩ := hp
  have hmap : (h.exit ends).processes[n]? = _ := List.getElem?_mapIdx
  rw [hp] at hmap
  obtain ⟨p₀, hp₀, heq⟩ := Option.map_eq_some_iff.mp hmap.symm
  split at heq
  · subst heq
    cases hlive
  · subst heq
    exact ⟨hp₀, hlive⟩

theorem getElem?_exit_of {ends : Nat → Bool} {n : Nat} {p : Process} (hp : h.processes[n]? = some p) :
    ∃ p' : Process, (h.exit ends).processes[n]? = some p' ∧ p'.key = p.key := by
  refine ⟨if ends n then { p with exited := true } else p, ?_, ?_⟩
  · show (h.processes.mapIdx _)[n]? = _
    rw [List.getElem?_mapIdx, hp]
    rfl
  · split
    · rfl
    · rfl

theorem Inv.exit (hinv : h.Inv) (ends : Nat → Bool) : (h.exit ends).Inv := by
  refine ⟨hinv.nodup, hinv.known, ?_, ?_⟩
  · intro e he hsome
    obtain ⟨p, hp, hkey⟩ := hinv.handled e he hsome
    obtain ⟨p', hp', hkey'⟩ := getElem?_exit_of hp
    exact ⟨p', hp', hkey'.trans hkey⟩
  · intro n p hp
    exact hinv.tracked n p (live_of_exit hp)

/-- `poll()` tells of a process that has not ended. -/
theorem Inv.poll_of_live (hinv : h.Inv) {n : Nat} {p : Process} (hp : h.Live n p) : h.poll p.key = false := by
  unfold Host.poll
  rw [(hinv.tracked n p hp).1, hp.1]
  exact hp.2

end Exit

section Start
variable {h : Host} {r : Round}

theorem Inv.popExited (hinv : h.Inv)
    (hpoll : ∀ n p, h.Live n p → r.exited p.key = false) :
    (h.withRunning (popExited r h.supervisor.running_processes)).Inv := by
  refine ⟨?_, ?_, ?_, ?_⟩
  · exact hinv.nodup.sublist (List.filter_sublist.map Prod.fst)
  · intro e he
    exact hinv.known e (mem_popExited.mp he).1
  · intro e he hsome
    exact hinv.handled e (mem_popExited.mp he).1 hsome
  · intro n p hp
    obtain ⟨hhandle, proc, hmem⟩ := hinv.tracked n p hp
    exact ⟨hhandle, proc, mem_popExited.mpr ⟨hmem, rfl, hpoll n p hp⟩⟩

theorem nodup_assign {running : Processes} (hnodup : (running.map Prod.fst).Nodup) (key : ProcessKey)
    (proc : Option Popen) : ((assign running key proc).map Prod.fst).Nodup := by
  unfold assign
  split
  · have hsame : (running.map fun e => if e.1 = key then (key, proc) else e).map Prod.fst = running.map Prod.fst := by
      rw [List.map_map]
      refine List.map_congr_left fun e _ => ?_
      rw [Function.comp_apply]
      split
      · rename_i heq
        exact heq.symm
      · rfl
    rw [hsame]
    exact hnodup
  · rename_i hany
    rw [List.map_append, List.map_singleton]
    refine hnodup.append (List.nodup_singleton key) ?_
    intro k hk hkey
    obtain rfl := List.mem_singleton.mp hkey
    obtain ⟨e, he, heq⟩ := List.mem_map.mp hk
    exact hany (List.any_eq_true.mpr ⟨e, he, decide_eq_true heq⟩)

/-- What the round finds when it comes to the key. -/
def Polled (h : Host) (r : Round) (key : ProcessKey) : Prop :=
  ∀ proc, (key, some proc) ∈ h.supervisor.running_processes → r.exitedLater key = h.poll key

/-- No process of the key goes on when the entry is replaced. -/
theorem Inv.replaced (hinv : h.Inv) {key : ProcessKey} (hpoll : h.Polled r key)
    (hnone : ¬ (h.supervisor.running_processes.any fun e => e.1 = key ∧ e.2.isSome ∧ ¬ r.exitedLater key) = true)
    {n : Nat} {p : Process} (hp : h.Live n p) : p.key ≠ key := by
  rintro rfl
  obtain ⟨-, proc, hmem⟩ := hinv.tracked n p hp
  apply hnone
  refine List.any_eq_true.mpr ⟨_, hmem, decide_eq_true ⟨rfl, rfl, ?_⟩⟩
  rw [hpoll proc hmem, hinv.poll_of_live hp]
  exact Bool.false_ne_true

theorem known_assign {running : Processes} (hknown : ∀ e ∈ running, IsProtocol e.1 → e.1.2.2 ∈ TARGET_PROTOCOLS)
    {key : ProcessKey} (hkey : IsProtocol key → key.2.2 ∈ TARGET_PROTOCOLS) (proc : Option Popen) :
    ∀ e ∈ assign running key proc, IsProtocol e.1 → e.1.2.2 ∈ TARGET_PROTOCOLS := by
  intro e he
  rcases mem_assign.mp he with rfl | ⟨he, -⟩
  · exact hkey
  · exact hknown e he

theorem Inv.startProcess (hinv : h.Inv) {key : ProcessKey} (hkey : IsProtocol key → key.2.2 ∈ TARGET_PROTOCOLS)
    (hpoll : h.Polled r key) : (Host.startProcess r h key).Inv := by
  unfold Host.startProcess
  dsimp only
  split
  · exact hinv
  · rename_i hnone
    have hother : ∀ n p, h.Live n p → p.key ≠ key := fun n p hp => hinv.replaced hpoll hnone hp
    split
    · refine ⟨nodup_assign hinv.nodup key _, known_assign hinv.known hkey _, ?_, ?_⟩
      · intro e he hsome
        show ∃ p, (h.processes ++ [⟨key, false⟩])[Function.update h.handle key h.processes.length e.1]? = some p ∧ _
        rcases mem_assign.mp he with rfl | ⟨he, hne⟩
        · refine ⟨⟨key, false⟩, ?_, rfl⟩
          rw [Function.update_self, List.getElem?_concat_length]
        · obtain ⟨p, hp, hkey⟩ := hinv.handled e he hsome
          refine ⟨p, ?_, hkey⟩
          rw [Function.update_of_ne hne, List.getElem?_append_left (List.getElem?_eq_some_iff.mp hp).1]
          exact hp
      · rintro n p ⟨hp, hlive⟩
        show Function.update h.handle key h.processes.length p.key = n ∧
          ∃ proc, (p.key, some proc) ∈ assign h.supervisor.running_processes key (some ⟨false⟩)
        change (h.processes ++ [⟨key, false⟩])[n]? = some p at hp
        rcases Nat.lt_or_ge n h.processes.length with hlt | hge
        · rw [List.getElem?_append_left hlt] at hp
          have hne := hother n p ⟨hp, hlive⟩
          obtain ⟨hhandle, proc, hmem⟩ := hinv.tracked n p ⟨hp, hlive⟩
          rw [Function.update_of_ne hne]
          exact ⟨hhandle, proc, mem_assign.mpr (.inr ⟨hmem, hne⟩)⟩
        · rw [List.getElem?_append_right hge] at hp
          obtain ⟨hlt, hnew⟩ := List.getElem?_eq_some_iff.mp hp
          have hn : n = h.processes.length := by
            rw [List.length_singleton] at hlt
            omega
          subst hn
          simp only [Nat.sub_self, List.getElem_singleton] at hnew
          subst hnew
          exact ⟨Function.update_self .., ⟨false⟩, mem_assign.mpr (.inl rfl)⟩
    · refine ⟨nodup_assign hinv.nodup key _, known_assign hinv.known hkey _, ?_, ?_⟩
      · intro e he hsome
        rcases mem_assign.mp he with rfl | ⟨he, -⟩
        · cases hsome
        · exact hinv.handled e he hsome
      · intro n p hp
        obtain ⟨hhandle, proc, hmem⟩ := hinv.tracked n p hp
        exact ⟨hhandle, proc, mem_assign.mpr (.inr ⟨hmem, hother n p hp⟩)⟩

theorem Live.startProcess {n : Nat} {p : Process} (hp : h.Live n p) (key : ProcessKey) :
    (Host.startProcess r h key).Live n p := by
  unfold Host.startProcess
  dsimp only
  split
  · exact hp
  · split
    · refine ⟨?_, hp.2⟩
      show (h.processes ++ [⟨key, false⟩])[n]? = some p
      rw [List.getElem?_append_left (List.getElem?_eq_some_iff.mp hp.1).1]
      exact hp.1
    · exact hp

/-- The start of another key does not touch what an entry stands for. -/
theorem Polled.startProcess {key key' : ProcessKey} (hpoll : h.Polled r key) (hinv : h.Inv) (hne : key ≠ key') :
    (Host.startProcess r h key').Polled r key := by
  unfold Host.startProcess
  dsimp only
  split
  · exact hpoll
  · split
    · intro proc hmem
      rcases mem_assign.mp hmem with heq | ⟨hmem, -⟩
      · exact absurd (Prod.mk.inj heq).1 hne
      · obtain ⟨p, hp, -⟩ := hinv.handled _ hmem rfl
        rw [hpoll proc hmem]
        unfold Host.poll
        show _ = match (h.processes ++ [⟨key', false⟩])[Function.update h.handle key' h.processes.length key]? with
          | none => false
          | some p => p.exited
        rw [Function.update_of_ne hne, List.getElem?_append_left (List.getElem?_eq_some_iff.mp hp).1]
    · intro proc hmem
      rcases mem_assign.mp hmem with heq | ⟨hmem, -⟩
      · exact absurd (Prod.mk.inj heq).1 hne
      · exact hpoll proc hmem

/-- After its turn the process of a key goes on, unless it could not be started. -/
theorem Inv.started (hinv : h.Inv) {key : ProcessKey} (hpoll : h.Polled r key) (hstarts : r.starts key = true) :
    ∃ n p, (Host.startProcess r h key).Live n p ∧ p.key = key := by
  unfold Host.startProcess
  dsimp only
  split
  · rename_i hany
    obtain ⟨⟨k, proc⟩, hmem, hlive⟩ := List.any_eq_true.mp hany
    obtain ⟨rfl, hsome, hnot⟩ := of_decide_eq_true hlive
    obtain ⟨proc, rfl⟩ := Option.isSome_iff_exists.mp hsome
    obtain ⟨p, hp, hkey⟩ := hinv.handled _ hmem rfl
    refine ⟨h.handle k, p, ⟨hp, ?_⟩, hkey⟩
    have hexited : r.exitedLater k = p.exited := by
      rw [hpoll proc hmem]
      unfold Host.poll
      rw [hp]
    exact hexited.symm.trans (Bool.eq_false_iff.mpr hnot)
  · refine ⟨h.processes.length, ⟨key, false⟩, ⟨?_, rfl⟩, rfl⟩
    exact List.getElem?_concat_length

theorem Inv.startProcesses (hinv : h.Inv) {keys : List ProcessKey} (hnodup : keys.Nodup)
    (hkeys : ∀ key ∈ keys, IsProtocol key → key.2.2 ∈ TARGET_PROTOCOLS) (hpoll : ∀ key ∈ keys, h.Polled r key) :
    (keys.foldl (Host.startProcess r) h).Inv ∧
      (∀ n p, h.Live n p → (keys.foldl (Host.startProcess r) h).Live n p) ∧
      ∀ key ∈ keys, r.starts key = true → ∃ n p, (keys.foldl (Host.startProcess r) h).Live n p ∧ p.key = key := by
  induction keys generalizing h with
  | nil => exact ⟨hinv, fun _ _ hp => hp, nofun⟩
  | cons key keys ih =>
    obtain ⟨hnot, hrest⟩ := List.nodup_cons.mp hnodup
    have hfirst := hinv.startProcess (hkeys key List.mem_cons_self) (hpoll key List.mem_cons_self)
    have hothers : ∀ key' ∈ keys, (Host.startProcess r h key).Polled r key' := by
      intro key' hkey'
      refine (hpoll key' (List.mem_cons_of_mem _ hkey')).startProcess hinv ?_
      rintro rfl
      exact hnot hkey'
    obtain ⟨hinv', hkept, hstarted⟩ := ih hfirst hrest (fun k hk => hkeys k (List.mem_cons_of_mem _ hk)) hothers
    refine ⟨hinv', fun n p hp => hkept n p (hp.startProcess key), ?_⟩
    intro key' hkey' hstarts
    rcases List.mem_cons.mp hkey' with rfl | hkey'
    · obtain ⟨n, p, hp, heq⟩ := hinv.started (hpoll key' List.mem_cons_self) hstarts
      exact ⟨n, p, hkept n p hp, heq⟩
    · exact hstarted key' hkey' hstarts

end Start

section Keys
variable {local_ips : List Text} {pinglist : Option (Option Yaml)} {records : Records}

theorem nodup_ips (h : getMyAddrFromPinglist local_ips pinglist = some records) : ∀ e ∈ records, e.2.Nodup := by
  refine getMyAddrFromPinglist_keeps (P := fun records => ∀ e ∈ records, e.2.Nodup) ?_ h ?_
  · intro records protocol ip hold e he
    obtain ⟨o, ho, rfl⟩ := List.mem_map.mp he
    split
    · exact (hold o ho).insert
    · exact hold o ho
  · intro e he
    obtain ⟨protocol, -, rfl⟩ := List.mem_map.mp he
    exact List.nodup_nil

theorem nodup_protocols (h : getMyAddrFromPinglist local_ips pinglist = some records) :
    (records.map Prod.fst).Nodup := by
  rw [loaded_keys h]
  decide

theorem mem_of_lookup {β : Type} {l : List (Text × β)} {key : Text} {b : β} (h : l.lookup key = some b) :
    (key, b) ∈ l := by
  obtain ⟨l₁, l₂, rfl, -⟩ := List.lookup_eq_some_iff.mp h
  exact List.mem_append_right _ List.mem_cons_self

theorem nodup_names (protocol : Text) : ((protocol_to_process_names.lookup protocol).getD []).Nodup := by
  have hall : ∀ e ∈ protocol_to_process_names, e.2.Nodup := by decide
  cases hnames : protocol_to_process_names.lookup protocol with
  | none => exact List.nodup_nil
  | some names => exact hall _ (mem_of_lookup hnames)

theorem mem_processKeys {key : ProcessKey} : key ∈ processKeys records ↔
    ∃ e ∈ records, key.1 ∈ e.2 ∧ key.2.1 ∈ (protocol_to_process_names.lookup e.1).getD [] ∧ key.2.2 = e.1 := by
  obtain ⟨ip, pname, protocol⟩ := key
  unfold processKeys
  simp only [List.mem_flatMap, List.mem_map, Prod.mk.injEq]
  constructor
  · rintro ⟨e, he, ip', hip, pname', hname, rfl, rfl, rfl⟩
    exact ⟨e, he, hip, hname, rfl⟩
  · rintro ⟨e, he, hip, hname, rfl⟩
    exact ⟨e, he, ip, hip, pname, hname, rfl, rfl, rfl⟩

theorem isProtocol_of_mem_processKeys {key : ProcessKey} (h : key ∈ processKeys records) : IsProtocol key := by
  have hall : ∀ e ∈ protocol_to_process_names, ∀ pname ∈ e.2, pname ≠ name_agent ∧ pname ≠ name_controller := by
    decide
  obtain ⟨e, -, -, hname, -⟩ := mem_processKeys.mp h
  cases hnames : protocol_to_process_names.lookup e.1 with
  | none =>
    rw [hnames] at hname
    cases hname
  | some names =>
    rw [hnames] at hname
    exact hall _ (mem_of_lookup hnames) _ hname

theorem nodup_processKeys (h : getMyAddrFromPinglist local_ips pinglist = some records) :
    (processKeys records).Nodup := by
  unfold processKeys
  refine List.nodup_flatMap.mpr ⟨?_, ?_⟩
  · intro e he
    refine List.nodup_flatMap.mpr ⟨?_, ?_⟩
    · intro ip _
      refine (nodup_names e.1).map fun a b hab => ?_
      exact (Prod.mk.inj (Prod.mk.inj hab).2).1
    · refine (nodup_ips h e he).imp fun {ip ip'} hne => ?_
      intro key hkey hkey'
      obtain ⟨_, -, rfl⟩ := List.mem_map.mp hkey
      obtain ⟨_, -, heq⟩ := List.mem_map.mp hkey'
      exact hne (Prod.mk.inj heq).1.symm
  · refine (List.pairwise_map.mp (nodup_protocols h)).imp fun {e e'} hne => ?_
    intro key hkey hkey'
    obtain ⟨_, -, hmem⟩ := List.mem_flatMap.mp hkey
    obtain ⟨_, -, hmem'⟩ := List.mem_flatMap.mp hkey'
    obtain ⟨_, -, rfl⟩ := List.mem_map.mp hmem
    obtain ⟨_, -, heq⟩ := List.mem_map.mp hmem'
    exact hne (Prod.mk.inj (Prod.mk.inj heq).2).2.symm

theorem nodup_startKeys {r : Round} {myaddr : Option Records} (h : ∀ records, myaddr = some records → loaded r = myaddr) :
    (startKeys r myaddr).Nodup := by
  have hprotocol : ∀ key ∈ (myaddr.map processKeys).getD [], IsProtocol key := by
    intro key hkey
    cases myaddr with
    | none => cases hkey
    | some records => exact isProtocol_of_mem_processKeys hkey
  have hrest : ((myaddr.map processKeys).getD []).Nodup := by
    cases hmyaddr : myaddr with
    | none => exact List.nodup_nil
    | some records =>
      have hload := h records hmyaddr
      rw [hmyaddr] at hload
      exact nodup_processKeys hload
  have hagent : (agentKey :: (myaddr.map processKeys).getD []).Nodup :=
    List.nodup_cons.mpr ⟨fun hmem => not_isProtocol_agentKey (hprotocol _ hmem), hrest⟩
  unfold startKeys
  split
  · refine List.nodup_cons.mpr ⟨fun hmem => ?_, hagent⟩
    rcases List.mem_cons.mp hmem with heq | hmem
    · exact agentKey_ne_controllerKey _ heq.symm
    · exact not_isProtocol_controllerKey _ (hprotocol _ hmem)
  · exact hagent

end Keys

section Round
variable {h : Host}

theorem known_startKeys {r : Round} {myaddr : Option Records}
    (hload : ∀ records, myaddr = some records → loaded r = myaddr) :
    ∀ key ∈ startKeys r myaddr, IsProtocol key → key.2.2 ∈ TARGET_PROTOCOLS := by
  intro key hkey hprotocol
  obtain ⟨records, rfl, hmem⟩ := mem_startKeys hkey hprotocol
  exact protocol_of_mem_processKeys (loaded_keys (hload records rfl)) hmem

theorem Inv.popped (hinv : h.Inv) {r : Round} (hexited : ∀ n p, h.Live n p → r.exited p.key = false)
    (myaddr : Option Records) :
    (h.withRunning (Supervisor.popExited r (terminate r myaddr h.supervisor.running_processes).1)).Inv := by
  have hterm := hinv.relabel (s := { h.supervisor with running_processes :=
    (terminate r myaddr h.supervisor.running_processes).1 }) (relabels_terminate r myaddr _)
  exact hterm.popExited hexited

theorem Inv.restart (hinv : h.Inv) {r : Round} {myaddr : Option Records}
    (hexited : ∀ n p, h.Live n p → r.exited p.key = false) (hexitedLater : r.exitedLater = h.poll)
    (hload : ∀ records, myaddr = some records → loaded r = myaddr) :
    (h.restart r myaddr).Inv ∧ ((terminate r myaddr h.supervisor.running_processes).2 = true →
      ∀ key ∈ startKeys r myaddr, r.starts key = true → ∃ n p, (h.restart r myaddr).Live n p ∧ p.key = key) := by
  unfold Host.restart
  dsimp only
  split
  · have hall := (hinv.popped hexited myaddr).startProcesses (nodup_startKeys hload) (known_startKeys hload)
      fun key _ _ _ => congrFun hexitedLater key
    exact ⟨hall.1, fun _ => hall.2.2⟩
  · rename_i hfailed
    refine ⟨?_, fun hok => absurd hok hfailed⟩
    have hterm := hinv.relabel (s := { h.supervisor with running_processes :=
      (terminate r myaddr h.supervisor.running_processes).1 }) (relabels_terminate r myaddr _)
    exact hterm.relabel (relabels_killAll _)

theorem Inv.round (hinv : h.Inv) (f : Found) : (h.round f).Inv := by
  have hexit := hinv.exit f.ends
  have hexited : ∀ n p, (h.exit f.ends).Live n p → (h.found f).exited p.key = false :=
    fun n p hp => hinv.poll_of_live (live_of_exit hp)
  unfold Host.round
  dsimp only
  split
  · exact hexit
  · split
    · rename_i records hrecords
      have hretries : ((h.exit f.ends).withRetries 0).Inv := hexit.relabel (relabels_refl _)
      exact (hretries.restart hexited rfl fun _ _ => hrecords).1
    · rename_i hnone
      split
      · exact hexit.relabel (relabels_refl _)
      · exact (hexit.restart hexited rfl fun _ _ => hnone).1

theorem Inv.step (hinv : h.Inv) (a : Action) : (h.step a).Inv := by
  cases a with
  | exit ends => exact hinv.exit ends
  | round f => exact hinv.round f
  | interrupt =>
    unfold Host.step
    dsimp only
    split
    · exact hinv
    · exact hinv.relabel (relabels_killAll _)

theorem init_inv : init.Inv := by
  refine ⟨List.nodup_nil, ?_, ?_, ?_⟩
  · intro e he
    cases he
  · intro e he
    cases he
  · rintro n p ⟨hp, -⟩
    change ([] : List Process)[n]? = some p at hp
    rw [List.getElem?_nil] at hp
    cases hp

/-- A pinglist that was loaded has all protocols, so that the loop goes through. -/
theorem Inv.terminate_ok (hinv : h.Inv) {r : Round} {records : Records} (hload : loaded r = some records) :
    (terminate r (some records) h.supervisor.running_processes).2 = true := by
  rw [terminate_ok_iff]
  intro e he
  by_cases halive : Alive r e
  · rw [checkProcess_of_alive halive, Option.bind_some, List.lookup_isSome_iff]
    have hprotocol := hinv.known e he halive.1
    rw [← loaded_keys hload] at hprotocol
    obtain ⟨entry, hentry, hkey⟩ := List.mem_map.mp hprotocol
    exact ⟨entry, hentry, beq_iff_eq.mpr hkey.symm⟩
  · obtain ⟨e', hcheck⟩ := checkProcess_of_not_alive halive
    rw [hcheck]
    rfl

/-- A process of a protocol that the round leaves alone is at an address of the pinglist. -/
theorem wanted_of_check {r : Round} {records : Records} {o : ProcessKey × Option Popen} {key : ProcessKey} {proc : Popen}
    (hcheck : checkProcess r (some records) o = some (key, some proc)) (hprotocol : IsProtocol key)
    (hexited : r.exited key = false) : proc = ⟨true⟩ ∨ ∃ ips, (key.2.2, ips) ∈ records ∧ key.1 ∈ ips := by
  obtain ⟨key', proc'⟩ := o
  cases proc' with
  | none => cases hcheck
  | some proc' =>
    obtain rfl : key = key' := checkProcess_fst hcheck
    have hnot : ¬ r.exited key = true := by
      rw [hexited]
      exact Bool.false_ne_true
    rw [checkProcess_some, if_neg hnot, if_neg hprotocol.1, if_neg hprotocol.2] at hcheck
    obtain ⟨ips, hips, heq⟩ := Option.map_eq_some_iff.mp hcheck
    have hproc := Option.some.inj (Prod.mk.inj heq).2
    by_cases hgone : key.1 ∉ ips ∨ key.1 ∉ r.local_ips
    · rw [if_pos hgone] at hproc
      exact .inl hproc.symm
    · exact .inr ⟨ips, mem_of_lookup hips, not_not.mp fun hnot => hgone (.inl hnot)⟩

end Round

/-- What a round brings about that loads the pinglist. -/
structure Served (h : Host) (f : Found) (records : Records) : Prop where
  goesOn : (h.round f).supervisor.aborted = false
  runs : ∀ key ∈ startKeys (h.found f) (some records), f.starts key = true →
    ∃ n p, (h.round f).Live n p ∧ p.key = key
  only : ∀ n p, (h.round f).Live n p → IsProtocol p.key →
    (p.key, some ⟨true⟩) ∈ (h.round f).supervisor.running_processes ∨
      ∃ ips, (p.key.2.2, ips) ∈ records ∧ p.key.1 ∈ ips

section Main
variable {h : Host}

theorem Inv.served (hinv : h.Inv) (hruns : h.supervisor.aborted = false) {f : Found} {records : Records}
    (hload : loaded (h.found f) = some records) : h.Served f records := by
  have hretries : ((h.exit f.ends).withRetries 0).Inv := (hinv.exit f.ends).relabel (relabels_refl _)
  have hround : h.round f = ((h.exit f.ends).withRetries 0).restart (h.found f) (some records) := by
    have hgoes : (h.exit f.ends).supervisor.aborted = false := hruns
    unfold Host.round
    dsimp only
    rw [hgoes, hload]
    rfl
  have hok := hretries.terminate_ok hload
  have hsupervisor := round_supervisor h f
  have hrestart : h.supervisor.round (h.found f) =
      { h.supervisor with pinglist_yaml_load_retry_cntr := 0 }.restart (h.found f) (some records) := by
    rw [Supervisor.round, if_neg (by rw [hruns]; exact Bool.false_ne_true), hload]
  refine ⟨?_, ?_, ?_⟩
  · rw [hsupervisor, hrestart]
    have hs : ({ h.supervisor with pinglist_yaml_load_retry_cntr := 0 } : Supervisor).aborted = false := hruns
    exact (restart_aborted hs).mpr hok
  · rw [hround]
    exact (hretries.restart (fun n p hp => hinv.poll_of_live (live_of_exit hp)) rfl fun _ _ => hload).2 hok
  · intro n p hp hprotocol
    obtain ⟨-, proc, hmem⟩ := (hinv.round f).tracked n p hp
    rw [hsupervisor, hrestart] at hmem ⊢
    rcases mem_restart hok hmem with ⟨o, -, hcheck, -, hexited⟩ | hkey
    · rcases wanted_of_check hcheck hprotocol hexited with rfl | hips
      · exact .inl hmem
      · exact .inr hips
    · obtain ⟨records', hrecords, hkey⟩ := mem_startKeys hkey hprotocol
      cases hrecords
      obtain ⟨e, he, hip, -, hkey⟩ := mem_processKeys.mp hkey
      refine .inr ⟨e.2, ?_, hip⟩
      rw [hkey]
      exact he

end Main
end Host
end Pingweave
