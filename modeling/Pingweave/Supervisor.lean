import Pingweave.Library.Runs
import Pingweave.PinglistServers

/-!
# The main loop on a host

One round of the main loop of `pingweave.py`: it loads the pinglist, ends the processes that are no
longer wanted and starts the ones that are. `exited` and `exitedLater` are the processes whose
`poll()` is not `None` while the round ends and while it starts processes. An exception leaves the
loop for good.
-/

namespace Pingweave
set_option autoImplicit false

def name_controller : Text := "pingweave_ctrl".toList
def name_agent : Text := "pingweave_agent".toList
def keyControl : Text := "control".toList

/-- A process that was started, and whether `kill()` was called on it. -/
structure Popen where
  killed : Bool
  deriving DecidableEq, Repr

/-- `running_processes`; the value is `none` where `Popen` failed. -/
abbrev Processes := List (ProcessKey × Option Popen)

/-- What a round finds. -/
structure Round where
  control_host : Text
  local_ips : List Text
  pinglist : Option (Option Yaml)
  exited : ProcessKey → Bool
  exitedLater : ProcessKey → Bool
  starts : ProcessKey → Bool

structure Supervisor where
  running_processes : Processes
  pinglist_yaml_load_retry_cntr : Int
  aborted : Bool

namespace Supervisor

def controllerKey (control_host : Text) : ProcessKey := (control_host, name_controller, keyControl)

def agentKey : ProcessKey := ("agent".toList, name_agent, keyControl)

/-- The body of the loop that ends processes; `none` is an exception: `myaddr` is `False` or lacks
the protocol. -/
def checkProcess (r : Round) (myaddr : Option Records) (e : ProcessKey × Option Popen) :
    Option (ProcessKey × Option Popen) :=
  match e.2 with
  | none => some e
  | some proc =>
    if r.exited e.1 then some e
    else if e.1.2.1 = name_agent then some e
    else if e.1.2.1 = name_controller then
      some (e.1, some (if e.1.1 ≠ r.control_host then ⟨true⟩ else proc))
    else
      match myaddr.bind fun records => records.lookup e.1.2.2 with
      | none => none
      | some ips => some (e.1, some (if e.1.1 ∉ ips ∨ e.1.1 ∉ r.local_ips then ⟨true⟩ else proc))

/-- The loop, up to its end or to the exception. -/
def terminate (r : Round) (myaddr : Option Records) : Processes → Processes × Bool
  | [] => ([], true)
  | e :: rest =>
    match checkProcess r myaddr e with
    | none => (e :: rest, false)
    | some e' => (e' :: (terminate r myaddr rest).1, (terminate r myaddr rest).2)

/-- `key_to_pop` -/
def popExited (r : Round) (running : Processes) : Processes :=
  running.filter fun e => e.2.isSome && !r.exited e.1

/-- `running_processes[key] = proc` -/
def assign (running : Processes) (key : ProcessKey) (proc : Option Popen) : Processes :=
  if running.any fun e => e.1 = key then running.map fun e => if e.1 = key then (key, proc) else e
  else running ++ [(key, proc)]

/-- Start the process of a key unless it is running. -/
def startProcess (r : Round) (running : Processes) (key : ProcessKey) : Processes :=
  if running.any fun e => e.1 = key ∧ e.2.isSome ∧ ¬ r.exitedLater key then running
  else assign running key (if r.starts key then some ⟨false⟩ else none)

/-- The keys in the order in which the round starts them. -/
def startKeys (r : Round) (myaddr : Option Records) : List ProcessKey :=
  (if r.control_host ∈ r.local_ips then [controllerKey r.control_host] else []) ++
    agentKey :: (myaddr.map processKeys).getD []

/-- The handler at the end of `main`; a missing process ends it. -/
def killAll : Processes → Processes
  | [] => []
  | (key, none) :: rest => (key, none) :: rest
  | (key, some _) :: rest => (key, some ⟨true⟩) :: killAll rest

/-- What follows the load. -/
def restart (s : Supervisor) (r : Round) (myaddr : Option Records) : Supervisor :=
  let t := terminate r myaddr s.running_processes
  if t.2 then { s with running_processes := (startKeys r myaddr).foldl (startProcess r) (popExited r t.1) }
  else { s with running_processes := killAll t.1, aborted := true }

def loaded (r : Round) : Option Records := getMyAddrFromPinglist r.local_ips r.pinglist

/-- One round. The dict that `get_my_addr_from_pinglist` returns has its protocols as keys, so it
counts as true. -/
def round (s : Supervisor) (r : Round) : Supervisor :=
  if s.aborted then s
  else
    match loaded r with
    | some records => { s with pinglist_yaml_load_retry_cntr := 0 }.restart r (some records)
    | none =>
      if 0 ≤ s.pinglist_yaml_load_retry_cntr ∧ s.pinglist_yaml_load_retry_cntr < 10 then
        { s with pinglist_yaml_load_retry_cntr := s.pinglist_yaml_load_retry_cntr + 1 }
      else s.restart r none

def init : Supervisor := ⟨[], -1, false⟩

/-! ### What is expected of a round -/

def IsProtocol (key : ProcessKey) : Prop := key.2.1 ≠ name_agent ∧ key.2.1 ≠ name_controller

instance (key : ProcessKey) : Decidable (IsProtocol key) := inferInstanceAs (Decidable (_ ∧ _))

/-- A protocol process that has not exited when the round checks it. -/
def Alive (r : Round) (e : ProcessKey × Option Popen) : Prop :=
  IsProtocol e.1 ∧ e.2.isSome = true ∧ r.exited e.1 = false

instance (r : Round) (e : ProcessKey × Option Popen) : Decidable (Alive r e) :=
  inferInstanceAs (Decidable (_ ∧ _ ∧ _))

/-- The round leaves the running process of the key alone, or starts one. -/
def Kept (r : Round) (running running' : Processes) (key : ProcessKey) : Prop :=
  (∃ proc, (key, some proc) ∈ running ∧ r.exitedLater key = false ∧ (key, some proc) ∈ running') ∨
    (key, if r.starts key then some ⟨false⟩ else none) ∈ running'

/-- The round does what it does with an empty pinglist. -/
structure AsEmpty (s : Supervisor) (r : Round) : Prop where
  same : (s.round r).running_processes = (s.round { r with pinglist := none }).running_processes
  kills : ∀ e ∈ s.running_processes, Alive r e → (e.1, some ⟨true⟩) ∈ (s.round r).running_processes
  startsNone : ∀ e ∈ (s.round r).running_processes, IsProtocol e.1 →
    e.2 = some ⟨true⟩ ∧ e.1 ∈ s.running_processes.map Prod.fst
  agent : Kept r s.running_processes (s.round r).running_processes agentKey
  controller : r.control_host ∈ r.local_ips →
    Kept r s.running_processes (s.round r).running_processes (controllerKey r.control_host)

/-- A supervisor with the number of loads that have failed in a row since the last success, if there
was one. -/
structure History where
  supervisor : Supervisor
  inARow : Option Nat

namespace History

def start : History := ⟨init, none⟩

def step (h : History) (r : Round) : History :=
  ⟨h.supervisor.round r, if (loaded r).isSome then some 0 else h.inARow.map (· + 1)⟩

structure Tolerates (h : History) (r : Round) : Prop where
  goesOn : (h.supervisor.round r).aborted = false
  leftAlone : loaded r = none → ∀ k, h.inARow = some k → k < 10 →
    (h.supervisor.round r).running_processes = h.supervisor.running_processes
  asEmpty : loaded r = none → ∀ k, h.inARow = some k → 10 ≤ k → h.supervisor.AsEmpty r

/-- When the retries are exhausted, no protocol process is alive. -/
def NoneAlive (h : History) (r : Round) : Prop :=
  loaded r = none → ∀ k, h.inARow = some k → 10 ≤ k → ∀ e ∈ h.supervisor.running_processes, ¬ Alive r e

end History

/-! ### One round -/

section Round
variable {r : Round}

theorem checkProcess_some (myaddr : Option Records) (key : ProcessKey) (proc : Popen) :
    checkProcess r myaddr (key, some proc) =
      if r.exited key then some (key, some proc)
      else if key.2.1 = name_agent then some (key, some proc)
      else if key.2.1 = name_controller then
        some (key, some (if key.1 ≠ r.control_host then ⟨true⟩ else proc))
      else
        (myaddr.bind fun records => records.lookup key.2.2).map fun ips =>
          (key, some (if key.1 ∉ ips ∨ key.1 ∉ r.local_ips then ⟨true⟩ else proc)) := by
  simp only [checkProcess]
  cases myaddr.bind fun records => records.lookup key.2.2 <;> rfl

theorem checkProcess_fst {myaddr : Option Records} {e e' : ProcessKey × Option Popen}
    (h : checkProcess r myaddr e = some e') : e'.1 = e.1 := by
  obtain ⟨key, proc⟩ := e
  cases proc with
  | none =>
    cases h
    rfl
  | some proc =>
    rw [checkProcess_some] at h
    split at h
    · cases h
      rfl
    · split at h
      · cases h
        rfl
      · split at h
        · cases h
          rfl
        · obtain ⟨ips, -, rfl⟩ := Option.map_eq_some_iff.mp h
          rfl

/-- For anything but a protocol process that is alive the pinglist does not matter. -/
theorem checkProcess_of_not_alive {e : ProcessKey × Option Popen} (h : ¬ Alive r e) :
    ∃ e', ∀ myaddr, checkProcess r myaddr e = some e' := by
  obtain ⟨key, proc⟩ := e
  cases proc with
  | none => exact ⟨_, fun _ => rfl⟩
  | some proc =>
    by_cases hexited : r.exited key = true
    · exact ⟨_, fun _ => by rw [checkProcess_some, if_pos hexited]⟩
    · by_cases hagent : key.2.1 = name_agent
      · exact ⟨_, fun _ => by rw [checkProcess_some, if_neg hexited, if_pos hagent]⟩
      · by_cases hcontroller : key.2.1 = name_controller
        · exact ⟨_, fun _ => by rw [checkProcess_some, if_neg hexited, if_neg hagent, if_pos hcontroller]⟩
        · exact absurd ⟨⟨hagent, hcontroller⟩, rfl, Bool.eq_false_iff.mpr hexited⟩ h

theorem checkProcess_of_alive {e : ProcessKey × Option Popen} (h : Alive r e) (myaddr : Option Records) :
    (checkProcess r myaddr e).isSome = (myaddr.bind fun records => records.lookup e.1.2.2).isSome := by
  obtain ⟨key, proc⟩ := e
  obtain ⟨⟨hagent, hcontroller⟩, hsome, hexited⟩ := h
  cases proc with
  | none => cases hsome
  | some proc =>
    have hnot : ¬ r.exited key = true := by rw [hexited]; exact Bool.false_ne_true
    rw [checkProcess_some, if_neg hnot, if_neg hagent, if_neg hcontroller, Option.isSome_map]

/-- The agent, and the controller on its own host, are not touched. -/
theorem checkProcess_of_kept {e : ProcessKey × Option Popen} (myaddr : Option Records)
    (h : e.1 = agentKey ∨ e.1 = controllerKey r.control_host) : checkProcess r myaddr e = some e := by
  obtain ⟨key, proc⟩ := e
  cases proc with
  | none => rfl
  | some proc =>
    rw [checkProcess_some]
    split
    · rfl
    · rcases h with rfl | rfl
      · exact if_pos rfl
      · have hne : ¬ (controllerKey r.control_host).2.1 = name_agent := by
          show ¬ name_controller = name_agent
          decide
        have hname : (controllerKey r.control_host).2.1 = name_controller := rfl
        have hip : ¬ (controllerKey r.control_host).1 ≠ r.control_host := not_not.mpr rfl
        rw [if_neg hne, if_pos hname, if_neg hip]

theorem terminate_ok_iff {myaddr : Option Records} {l : Processes} :
    (terminate r myaddr l).2 = true ↔ ∀ e ∈ l, (checkProcess r myaddr e).isSome = true := by
  induction l with
  | nil =>
    constructor
    · intro _ e he
      cases he
    · intro _
      rfl
  | cons e rest ih =>
    rw [List.forall_mem_cons]
    cases hcheck : checkProcess r myaddr e with
    | none => simp [terminate, hcheck]
    | some e' => simp [terminate, hcheck, ih]

theorem mem_terminate {myaddr : Option Records} {l : Processes} (hok : (terminate r myaddr l).2 = true)
    {e' : ProcessKey × Option Popen} :
    e' ∈ (terminate r myaddr l).1 ↔ ∃ e ∈ l, checkProcess r myaddr e = some e' := by
  induction l with
  | nil => simp [terminate]
  | cons e rest ih =>
    obtain ⟨hhead, hrest⟩ := List.forall_mem_cons.mp (terminate_ok_iff.mp hok)
    obtain ⟨c, hcheck⟩ := Option.isSome_iff_exists.mp hhead
    simp only [terminate, hcheck, List.mem_cons, ih (terminate_ok_iff.mpr hrest)]
    constructor
    · rintro (rfl | ⟨o, ho, heq⟩)
      · exact ⟨e, Or.inl rfl, hcheck⟩
      · exact ⟨o, Or.inr ho, heq⟩
    · rintro ⟨o, rfl | ho, heq⟩
      · rw [hcheck] at heq
        exact Or.inl (Option.some.inj heq).symm
      · exact Or.inr ⟨o, ho, heq⟩

theorem terminate_of_none_alive {l : Processes} (h : ∀ e ∈ l, ¬ Alive r e) (myaddr myaddr' : Option Records) :
    terminate r myaddr l = terminate r myaddr' l := by
  induction l with
  | nil => rfl
  | cons e rest ih =>
    obtain ⟨hhead, hrest⟩ := List.forall_mem_cons.mp h
    obtain ⟨c, hcheck⟩ := checkProcess_of_not_alive hhead
    rw [terminate, terminate, hcheck, hcheck, ih hrest]

/-- The processes are ended by what was loaded, not by the file. -/
theorem terminate_pinglist (pinglist : Option (Option Yaml)) {myaddr : Option Records} {l : Processes} :
    terminate { r with pinglist := pinglist } myaddr l = terminate r myaddr l := by
  induction l with
  | nil => rfl
  | cons e rest ih =>
    have hcheck : checkProcess { r with pinglist := pinglist } myaddr e = checkProcess r myaddr e := rfl
    rw [terminate, terminate, hcheck, ih]

theorem mem_assign {running : Processes} {key : ProcessKey} {proc : Option Popen} {e : ProcessKey × Option Popen} :
    e ∈ assign running key proc ↔ e = (key, proc) ∨ e ∈ running ∧ e.1 ≠ key := by
  unfold assign
  split
  · rename_i hany
    obtain ⟨o, ho, hkey⟩ := List.any_eq_true.mp hany
    rw [List.mem_map]
    constructor
    · rintro ⟨o', ho', rfl⟩
      by_cases heq : o'.1 = key
      · rw [if_pos heq]
        exact Or.inl rfl
      · rw [if_neg heq]
        exact Or.inr ⟨ho', heq⟩
    · rintro (rfl | ⟨he, hne⟩)
      · exact ⟨o, ho, if_pos (of_decide_eq_true hkey)⟩
      · exact ⟨e, he, if_neg hne⟩
  · rename_i hany
    rw [List.mem_append, List.mem_singleton]
    constructor
    · rintro (he | rfl)
      · refine Or.inr ⟨he, fun heq => hany (List.any_eq_true.mpr ⟨e, he, decide_eq_true heq⟩)⟩
      · exact Or.inl rfl
    · rintro (rfl | ⟨he, -⟩)
      · exact Or.inr rfl
      · exact Or.inl he

theorem mem_startProcess {running : Processes} {key : ProcessKey} {e : ProcessKey × Option Popen}
    (h : e ∈ startProcess r running key) : e ∈ running ∨ e.1 = key := by
  unfold startProcess at h
  split at h
  · exact Or.inl h
  · rcases mem_assign.mp h with rfl | ⟨he, -⟩
    · exact Or.inr rfl
    · exact Or.inl he

theorem startProcess_other {running : Processes} {key : ProcessKey} {e : ProcessKey × Option Popen}
    (hne : e.1 ≠ key) : e ∈ startProcess r running key ↔ e ∈ running := by
  unfold startProcess
  split
  · exact Iff.rfl
  · rw [mem_assign]
    constructor
    · rintro (rfl | ⟨he, -⟩)
      · exact absurd rfl hne
      · exact he
    · exact fun he => Or.inr ⟨he, hne⟩

theorem mem_startProcesses {keys : List ProcessKey} {running : Processes} {e : ProcessKey × Option Popen}
    (h : e ∈ keys.foldl (startProcess r) running) : e ∈ running ∨ e.1 ∈ keys := by
  induction keys generalizing running with
  | nil => exact Or.inl h
  | cons key keys ih =>
    rcases ih h with hfirst | hrest
    · rcases mem_startProcess hfirst with he | rfl
      · exact Or.inl he
      · exact Or.inr List.mem_cons_self
    · exact Or.inr (List.mem_cons_of_mem key hrest)

theorem startProcesses_other {keys : List ProcessKey} {running : Processes} {e : ProcessKey × Option Popen}
    (hne : e.1 ∉ keys) : e ∈ keys.foldl (startProcess r) running ↔ e ∈ running := by
  induction keys generalizing running with
  | nil => exact Iff.rfl
  | cons key keys ih =>
    rw [List.foldl_cons, ih fun h => hne (List.mem_cons_of_mem key h),
      startProcess_other fun heq => hne (heq ▸ List.mem_cons_self)]

/-- The process of a key is kept or started, if the keys behind it are others. -/
theorem kept_startProcess {running : Processes} (key : ProcessKey) {keys : List ProcessKey} (hkeys : key ∉ keys) :
    Kept r running (keys.foldl (startProcess r) (startProcess r running key)) key := by
  by_cases hlive : running.any (fun e => e.1 = key ∧ e.2.isSome ∧ ¬ r.exitedLater key) = true
  · obtain ⟨⟨k, proc⟩, he, hkey⟩ := List.any_eq_true.mp hlive
    obtain ⟨rfl, hsome, hnot⟩ := of_decide_eq_true hkey
    obtain ⟨proc, rfl⟩ := Option.isSome_iff_exists.mp hsome
    refine Or.inl ⟨proc, he, Bool.eq_false_iff.mpr hnot, (startProcesses_other hkeys).mpr ?_⟩
    rw [startProcess, if_pos hlive]
    exact he
  · refine Or.inr ((startProcesses_other hkeys).mpr ?_)
    rw [startProcess, if_neg hlive]
    exact mem_assign.mpr (Or.inl rfl)

theorem protocol_of_mem_processKeys {records : Records} (hkeys : records.map Prod.fst = TARGET_PROTOCOLS)
    {key : ProcessKey} (h : key ∈ processKeys records) : key.2.2 ∈ TARGET_PROTOCOLS := by
  obtain ⟨entry, hentry, hips⟩ := List.mem_flatMap.mp h
  obtain ⟨ip, -, hname⟩ := List.mem_flatMap.mp hips
  obtain ⟨pname, -, rfl⟩ := List.mem_map.mp hname
  rw [← hkeys]
  exact List.mem_map.mpr ⟨entry, hentry, rfl⟩

theorem not_isProtocol_agentKey : ¬ IsProtocol agentKey := fun h => h.1 rfl

theorem not_isProtocol_controllerKey (control_host : Text) : ¬ IsProtocol (controllerKey control_host) :=
  fun h => h.2 rfl

theorem mem_startKeys {myaddr : Option Records} {key : ProcessKey} (h : key ∈ startKeys r myaddr)
    (hprotocol : IsProtocol key) : ∃ records, myaddr = some records ∧ key ∈ processKeys records := by
  rcases List.mem_append.mp h with hcontroller | hrest
  · split at hcontroller
    · obtain rfl := List.mem_singleton.mp hcontroller
      exact absurd hprotocol (not_isProtocol_controllerKey _)
    · cases hcontroller
  · rcases List.mem_cons.mp hrest with rfl | hkey
    · exact absurd hprotocol not_isProtocol_agentKey
    · cases myaddr with
      | none => cases hkey
      | some records => exact ⟨records, rfl, hkey⟩

theorem mem_popExited {running : Processes} {e : ProcessKey × Option Popen} :
    e ∈ popExited r running ↔ e ∈ running ∧ e.2.isSome = true ∧ r.exited e.1 = false := by
  rw [popExited, List.mem_filter, Bool.and_eq_true, Bool.not_eq_true']

end Round

section Restart
variable {s : Supervisor} {r : Round} {myaddr : Option Records}

theorem restart_ok (hok : (terminate r myaddr s.running_processes).2 = true) :
    s.restart r myaddr =
      { s with running_processes := (startKeys r myaddr).foldl (startProcess r)
                  (popExited r (terminate r myaddr s.running_processes).1) } :=
  if_pos hok

theorem restart_aborted (hs : s.aborted = false) :
    (s.restart r myaddr).aborted = false ↔ (terminate r myaddr s.running_processes).2 = true := by
  by_cases hok : (terminate r myaddr s.running_processes).2 = true
  · rw [restart_ok hok]
    exact iff_of_true hs hok
  · have haborted : (s.restart r myaddr).aborted = true := by
      rw [restart, if_neg hok]
    rw [haborted]
    exact iff_of_false Bool.noConfusion hok

/-- What runs after a round ran before it or was started by it. -/
theorem mem_restart (hok : (terminate r myaddr s.running_processes).2 = true) {e : ProcessKey × Option Popen}
    (he : e ∈ (s.restart r myaddr).running_processes) :
    (∃ o ∈ s.running_processes, checkProcess r myaddr o = some e ∧ e.2.isSome = true ∧ r.exited e.1 = false) ∨
      e.1 ∈ startKeys r myaddr := by
  rw [restart_ok hok] at he
  rcases mem_startProcesses he with hpop | hkey
  · obtain ⟨hmem, hlive⟩ := mem_popExited.mp hpop
    obtain ⟨o, ho, hcheck⟩ := (mem_terminate hok).mp hmem
    exact Or.inl ⟨o, ho, hcheck, hlive⟩
  · exact Or.inr hkey

/-- Before a success only the agent and the controller run, so that nothing looks at the addresses. -/
theorem restart_of_none_alive (hs : s.aborted = false) (hnone : ∀ e ∈ s.running_processes, ¬ Alive r e) :
    (s.restart r myaddr).aborted = false := by
  rw [restart_aborted hs, terminate_ok_iff]
  intro e he
  obtain ⟨e', hcheck⟩ := checkProcess_of_not_alive (hnone e he)
  rw [hcheck]
  rfl

/-- A process that the round does not end is still there when the others are started. -/
theorem kept_of_popped (hok : (terminate r myaddr s.running_processes).2 = true) {key : ProcessKey}
    (hkey : key = agentKey ∨ key = controllerKey r.control_host) {running running' : Processes}
    (hbefore : ∀ proc, (key, some proc) ∈ running →
      (key, some proc) ∈ popExited r (terminate r myaddr s.running_processes).1)
    (h : Kept r running running' key) : Kept r s.running_processes running' key := by
  rcases h with ⟨proc, hmem, hlive, hmem'⟩ | hstarted
  · obtain ⟨o, ho, hcheck⟩ := (mem_terminate hok).mp (mem_popExited.mp (hbefore proc hmem)).1
    have hsame : o.1 = key := (checkProcess_fst hcheck).symm
    have ho' : o = (key, some proc) := by
      rw [checkProcess_of_kept myaddr (hsame.symm ▸ hkey)] at hcheck
      exact Option.some.inj hcheck
    exact Or.inl ⟨proc, ho' ▸ ho, hlive, hmem'⟩
  · exact Or.inr hstarted

theorem agentKey_ne_controllerKey (control_host : Text) : agentKey ≠ controllerKey control_host := by
  intro h
  have hname : name_agent = name_controller := congrArg (fun key : ProcessKey => key.2.1) h
  exact absurd hname (by decide)

/-- With an empty pinglist the agent is started last. -/
theorem kept_agent (hok : (terminate r none s.running_processes).2 = true) :
    Kept r s.running_processes (s.restart r none).running_processes agentKey := by
  rw [restart_ok hok]
  show Kept r s.running_processes ((startKeys r none).foldl (startProcess r) _) agentKey
  rw [startKeys, List.foldl_append]
  refine kept_of_popped hok (Or.inl rfl) ?_ (kept_startProcess agentKey List.not_mem_nil)
  intro proc hmem
  refine (startProcesses_other ?_).mp hmem
  intro hkey
  split at hkey
  · exact agentKey_ne_controllerKey _ (List.mem_singleton.mp hkey)
  · cases hkey

theorem kept_controller (hok : (terminate r none s.running_processes).2 = true) (hhost : r.control_host ∈ r.local_ips) :
    Kept r s.running_processes (s.restart r none).running_processes (controllerKey r.control_host) := by
  rw [restart_ok hok]
  show Kept r s.running_processes ((startKeys r none).foldl (startProcess r) _) _
  rw [startKeys, if_pos hhost, List.singleton_append, List.foldl_cons]
  refine kept_of_popped hok (Or.inr rfl) (fun _ hmem => hmem) (kept_startProcess (controllerKey r.control_host) ?_)
  intro hkey
  exact agentKey_ne_controllerKey _ (List.mem_singleton.mp hkey).symm

/-- A failed load after which no protocol process is alive is an empty pinglist. -/
theorem restart_none_eq (hs : s.aborted = false) (hnone : ∀ e ∈ s.running_processes, ¬ Alive r e) :
    (s.restart r none).running_processes = (s.round { r with pinglist := none }).running_processes := by
  have hround : s.round { r with pinglist := none } =
      { s with pinglist_yaml_load_retry_cntr := 0 }.restart { r with pinglist := none } (some Records.init) := by
    rw [round, hs]
    rfl
  have hterminate : terminate { r with pinglist := none } (some Records.init) s.running_processes =
      terminate r none s.running_processes :=
    (terminate_pinglist none).trans (terminate_of_none_alive hnone (some Records.init) none)
  have hok : (terminate r none s.running_processes).2 = true := by
    rw [← restart_aborted hs]
    exact restart_of_none_alive hs hnone
  have hok' : (terminate { r with pinglist := none } (some Records.init) s.running_processes).2 = true := by
    rw [hterminate]
    exact hok
  rw [hround, restart_ok hok, restart_ok (s := { s with pinglist_yaml_load_retry_cntr := 0 }) hok', hterminate]
  rfl

end Restart

/-! ### All rounds -/

namespace History

/-- The retry counter as a function of the failures in a row. -/
def retries : Option Nat → Int
  | none => -1
  | some k => (min k 10 : Nat)

structure Inv (h : History) : Prop where
  goesOn : h.supervisor.aborted = false
  counted : h.supervisor.pinglist_yaml_load_retry_cntr = retries h.inARow
  known : ∀ e ∈ h.supervisor.running_processes, IsProtocol e.1 → e.1.2.2 ∈ TARGET_PROTOCOLS
  first : h.inARow = none → ∀ e ∈ h.supervisor.running_processes, ¬ IsProtocol e.1

theorem inv_start : Inv start := by
  refine ⟨rfl, rfl, ?_, ?_⟩
  · intro e he
    cases he
  · intro _ e he
    cases he

section Round
variable {h : History} {r : Round}

theorem not_aborted (hinv : Inv h) : ¬ h.supervisor.aborted = true := by
  rw [hinv.goesOn]
  exact Bool.false_ne_true

theorem round_of_loaded (hinv : Inv h) {records : Records} (hload : loaded r = some records) :
    h.supervisor.round r = { h.supervisor with pinglist_yaml_load_retry_cntr := 0 }.restart r (some records) := by
  rw [round, if_neg (not_aborted hinv), hload]

/-- A failed load is retried when there was a success and fewer than ten failures since. -/
theorem round_of_failed (hinv : Inv h) (hload : loaded r = none) :
    h.supervisor.round r =
      if ∃ k, h.inARow = some k ∧ k < 10 then
        { h.supervisor with
          pinglist_yaml_load_retry_cntr := h.supervisor.pinglist_yaml_load_retry_cntr + 1 }
      else h.supervisor.restart r none := by
  rw [round, if_neg (not_aborted hinv), hload]
  refine if_congr ?_ rfl rfl
  rw [hinv.counted]
  cases h.inARow with
  | none => simp [retries]
  | some k =>
    simp only [retries, Option.some.injEq, exists_eq_left']
    omega

theorem terminate_of_loaded (hinv : Inv h) {records : Records} (hload : loaded r = some records) :
    (terminate r (some records) h.supervisor.running_processes).2 = true := by
  rw [terminate_ok_iff]
  intro e he
  by_cases halive : Alive r e
  · rw [checkProcess_of_alive halive, Option.bind_some, List.lookup_isSome_iff]
    have hprotocol := hinv.known e he halive.1
    rw [← loaded_keys hload] at hprotocol
    obtain ⟨entry, hentry, hkey⟩ := List.mem_map.mp hprotocol
    exact ⟨entry, hentry, beq_iff_eq.mpr hkey.symm⟩
  · obtain ⟨e', hcheck⟩ := checkProcess_of_not_alive halive
    rw [hcheck]
    rfl

/-- Without a load the round ends no protocol process before it fails on the first one. -/
theorem terminate_of_failed :
    (terminate r none h.supervisor.running_processes).2 = true ↔
      ∀ e ∈ h.supervisor.running_processes, ¬ Alive r e := by
  rw [terminate_ok_iff]
  constructor
  · intro hok e he halive
    have hsome := hok e he
    rw [checkProcess_of_alive halive] at hsome
    cases hsome
  · intro hnone e he
    obtain ⟨e', hcheck⟩ := checkProcess_of_not_alive (hnone e he)
    rw [hcheck]
    rfl

/-- A round either retries or goes through with what it loaded. -/
theorem round_cases (hinv : Inv h) (r : Round) :
    (∃ k, h.inARow = some k ∧ k < 10 ∧ loaded r = none ∧
      h.supervisor.round r =
        { h.supervisor with
          pinglist_yaml_load_retry_cntr := h.supervisor.pinglist_yaml_load_retry_cntr + 1 }) ∨
    ∃ s : Supervisor, s.running_processes = h.supervisor.running_processes ∧ s.aborted = false ∧
      s.pinglist_yaml_load_retry_cntr = retries (h.step r).inARow ∧
      (loaded r = none → ∀ k, h.inARow = some k → 10 ≤ k) ∧ h.supervisor.round r = s.restart r (loaded r) := by
  cases hload : loaded r with
  | some records =>
    refine Or.inr ⟨{ h.supervisor with pinglist_yaml_load_retry_cntr := 0 }, rfl, hinv.goesOn, ?_, ?_,
      round_of_loaded hinv hload⟩
    · rw [step, hload]
      rfl
    · intro hnone
      cases hnone
  | none =>
    have hround := round_of_failed hinv hload
    by_cases hretry : ∃ k, h.inARow = some k ∧ k < 10
    · rw [if_pos hretry] at hround
      obtain ⟨k, hrow, hk⟩ := hretry
      exact Or.inl ⟨k, hrow, hk, rfl, hround⟩
    · rw [if_neg hretry] at hround
      have hexhausted : ∀ k, h.inARow = some k → 10 ≤ k := fun k hrow => not_lt.mp fun hk => hretry ⟨k, hrow, hk⟩
      refine Or.inr ⟨h.supervisor, rfl, hinv.goesOn, ?_, fun _ => hexhausted, hround⟩
      rw [hinv.counted, step, hload]
      show retries h.inARow = retries (h.inARow.map (· + 1))
      cases hrow : h.inARow with
      | none => rfl
      | some k =>
        have hk := hexhausted k hrow
        simp only [retries, Option.map_some]
        omega

theorem inv_step (h : History) (r : Round) (hinv : Inv h) (hgoes : (h.supervisor.round r).aborted = false) :
    Inv (h.step r) := by
  rcases round_cases hinv r with ⟨k, hrow, hk, hload, hround⟩ | ⟨s, hsame, hs, hcounted, -, hround⟩
  · have hstep : h.step r = ⟨h.supervisor.round r, some (k + 1)⟩ := by
      rw [step, hload, hrow]
      rfl
    rw [hstep, hround]
    refine ⟨hinv.goesOn, ?_, hinv.known, fun hnone => nomatch hnone⟩
    show h.supervisor.pinglist_yaml_load_retry_cntr + 1 = retries (some (k + 1))
    rw [hinv.counted, hrow]
    simp only [retries]
    omega
  · have hok : (terminate r (loaded r) s.running_processes).2 = true := by
      rw [← restart_aborted hs, ← hround]
      exact hgoes
    -- a protocol process ran before, or an address was loaded for it
    have hfrom : ∀ e ∈ (h.step r).supervisor.running_processes, IsProtocol e.1 →
        (∃ o ∈ h.supervisor.running_processes, o.1 = e.1) ∨
          ∃ records, loaded r = some records ∧ e.1.2.2 ∈ TARGET_PROTOCOLS := by
      intro e he hprotocol
      have he' : e ∈ (s.restart r (loaded r)).running_processes := hround ▸ he
      rcases mem_restart hok he' with ⟨o, ho, hcheck, -⟩ | hkey
      · exact Or.inl ⟨o, hsame ▸ ho, (checkProcess_fst hcheck).symm⟩
      · obtain ⟨records, hload, hmem⟩ := mem_startKeys hkey hprotocol
        exact Or.inr ⟨records, hload, protocol_of_mem_processKeys (loaded_keys hload) hmem⟩
    refine ⟨hgoes, ?_, ?_, ?_⟩
    · show (h.supervisor.round r).pinglist_yaml_load_retry_cntr = _
      rw [hround, restart_ok hok]
      exact hcounted
    · intro e he hprotocol
      rcases hfrom e he hprotocol with ⟨o, ho, hkey⟩ | ⟨records, -, hmem⟩
      · rw [← hkey] at hprotocol ⊢
        exact hinv.known o ho hprotocol
      · exact hmem
    · intro hnone e he hprotocol
      have hnever : loaded r = none ∧ h.inARow = none := by
        unfold step at hnone
        cases hload : loaded r with
        | some records => rw [hload] at hnone; cases hnone
        | none =>
          rw [hload] at hnone
          exact ⟨rfl, Option.map_eq_none_iff.mp hnone⟩
      rcases hfrom e he hprotocol with ⟨o, ho, hkey⟩ | ⟨records, hload, -⟩
      · rw [← hkey] at hprotocol
        exact hinv.first hnever.2 o ho hprotocol
      · rw [hnever.1] at hload
        cases hload

/-- Under the invariant a round goes on unless the retries are exhausted and a protocol process is
alive. -/
theorem goesOn_iff (hinv : Inv h) : (h.supervisor.round r).aborted = false ↔ NoneAlive h r := by
  rcases round_cases hinv r with ⟨k, hrow, hk, hload, hround⟩ | ⟨s, hsame, hs, -, hexhausted, hround⟩
  · rw [hround]
    refine iff_of_true hinv.goesOn ?_
    intro _ k' hrow' hk'
    rw [hrow] at hrow'
    cases hrow'
    exact absurd hk' (not_le.mpr hk)
  · rw [hround, restart_aborted hs, hsame]
    cases hload : loaded r with
    | some records =>
      refine iff_of_true (terminate_of_loaded hinv hload) ?_
      intro hnone
      rw [hload] at hnone
      cases hnone
    | none =>
      rw [terminate_of_failed]
      constructor
      · exact fun hnone _ _ _ _ => hnone
      · intro hnone e he halive
        cases hrow : h.inARow with
        | none => exact hinv.first hrow e he halive.1
        | some k => exact hnone hload k hrow (hexhausted hload k hrow) e he halive

/-- With the retries exhausted and no protocol process alive the round is one with an empty pinglist. -/
theorem asEmpty_of_noneAlive (hinv : Inv h) (hload : loaded r = none) {k : Nat} (hrow : h.inARow = some k)
    (hk : 10 ≤ k) (hnone : NoneAlive h r) : h.supervisor.AsEmpty r := by
  have hdead := hnone hload k hrow hk
  have hok : (terminate r none h.supervisor.running_processes).2 = true := terminate_of_failed.mpr hdead
  have hround : h.supervisor.round r = h.supervisor.restart r none := by
    rw [round_of_failed hinv hload, if_neg]
    rintro ⟨k', hrow', hk'⟩
    rw [hrow] at hrow'
    cases hrow'
    exact absurd hk (not_le.mpr hk')
  constructor
  · rw [hround]
    exact restart_none_eq hinv.goesOn hdead
  · intro e he halive
    exact absurd halive (hdead e he)
  · intro e he hprotocol
    rw [hround] at he
    rcases mem_restart hok he with ⟨o, ho, hcheck, hlive⟩ | hkey
    · -- what is still alive after the loop was alive before it
      exfalso
      have hkey : e.1 = o.1 := checkProcess_fst hcheck
      apply hdead o ho
      refine ⟨hkey ▸ hprotocol, ?_, hkey ▸ hlive.2⟩
      cases hsome : o.2 with
      | some proc => rfl
      | none =>
        unfold checkProcess at hcheck
        rw [hsome] at hcheck
        cases hcheck
        rw [hsome] at hlive
        exact hlive.1
    · obtain ⟨records, hrecords, -⟩ := mem_startKeys hkey hprotocol
      cases hrecords
  · rw [hround]
    exact kept_agent hok
  · intro hhost
    rw [hround]
    exact kept_controller hok hhost

theorem tolerates_iff (h : History) (r : Round) (hinv : Inv h) : Tolerates h r ↔ NoneAlive h r := by
  constructor
  · exact fun htol => (goesOn_iff hinv).mp htol.goesOn
  · intro hnone
    refine ⟨(goesOn_iff hinv).mpr hnone, ?_, fun hload k hrow hk => asEmpty_of_noneAlive hinv hload hrow hk hnone⟩
    intro hload k hrow hk
    rw [round_of_failed hinv hload, if_pos ⟨k, hrow, hk⟩]

end Round
end History

/-- A supervisor goes on through any failed loads, with the processes of an empty pinglist once the
retries are exhausted, exactly if no protocol process is alive whenever they are. -/
theorem tolerates_failures_iff (rounds : List Round) :
    Runs.Along History.step History.Tolerates History.start rounds ↔
      Runs.Along History.step History.NoneAlive History.start rounds :=
  Runs.along_congr_of_kept (fun h r hinv htol => History.inv_step h r hinv htol.goesOn) History.tolerates_iff
    History.inv_start rounds

/-- A host with one TCP process, and a file that is not YAML. -/
def hostRound (pinglist : Option Yaml) : Round where
  control_host := ['9']
  local_ips := [['1']]
  pinglist := some pinglist
  exited := fun _ => false
  exitedLater := fun _ => false
  starts := fun _ => true

theorem not_tolerates_failures :
    ¬ ∀ rounds, Runs.Along History.step History.Tolerates History.start rounds := by
  intro hall
  have hrounds := hall (hostRound (some (meshPinglist (.sequence [ipNode '1']))) :: List.replicate 11 (hostRound none))
  have hlast := (Runs.along_iff.mp hrounds 11 (hostRound none) rfl).goesOn
  have haborted : ((Runs.run History.step History.start
      (hostRound (some (meshPinglist (.sequence [ipNode '1']))) :: List.replicate 10 (hostRound none))).supervisor.round
        (hostRound none)).aborted = true := by
    decide +kernel
  exact Bool.noConfusion (haborted.symm.trans hlast)

end Supervisor
end Pingweave
