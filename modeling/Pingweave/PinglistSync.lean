import Mathlib.Logic.Function.Basic
import Pingweave.PinglistReader

/-!
# The pinglist on its way to the agents

`read_pinglist` and `get_pinglist` of the web server and `fetch_data` of every agent. The file on the
controller is edited at any time; answers may be lost, and files of an agent may be left behind half
written. What a JSON body is read as is of any type, with the `==` of Python on it.
-/

namespace Pingweave.PinglistSync
set_option autoImplicit false

variable {K I : Type}

/-- The file of an agent. -/
inductive Download (K : Type) where
  | missing
  | unparseable
  | holds (k : K)

structure Agent (K : Type) where
  file : Download K
  retry_cntr : Nat

/-- What befalls a call that gets an answer: whether the existing file can be read, and what the
exceptions of the two dumps leave of the file, if there are any. -/
structure Disk (K : Type) where
  readable : Bool
  dump : Option (Download K)
  dumpEmpty : Option (Download K)

/-- How a call ends: with an early return, with the file as it was, with an empty pinglist, or with a
file that is half written. -/
inductive Outcome where
  | fetched
  | failed
  | emptied
  | torn
  deriving DecidableEq, Repr

section Fetch
variable (pyEq : K → K → Bool) (null empty : K)

/-- `existing_data` -/
def existingData : Download K → K
  | .holds k => k
  | _ => null

/-- What comes after the handlers. -/
def countFailure (a : Agent K) (disk : Disk K) (o : Outcome) : Agent K × Outcome :=
  if 3 < a.retry_cntr + 1 then
    match disk.dumpEmpty with
    | none => (⟨.holds empty, 0⟩, .emptied)
    | some left => (⟨left, 0⟩, .torn)
  else ({ a with retry_cntr := a.retry_cntr + 1 }, o)

def save (a : Agent K) (disk : Disk K) (parsed_data : K) : Agent K × Outcome :=
  match disk.dump with
  | none => (⟨.holds parsed_data, 0⟩, .fetched)
  | some left => countFailure empty { a with file := left } disk .torn

/-- The call with `response` as the parsed answer; `none` is an exception before that. -/
def fetchData (a : Agent K) (response : Option K) (disk : Disk K) : Agent K × Outcome :=
  match response with
  | none => countFailure empty a disk .failed
  | some parsed_data =>
    match a.file with
    | .missing => save empty a disk parsed_data
    | file =>
      if disk.readable = false then countFailure empty a disk .failed
      else if pyEq (existingData null file) parsed_data then ({ a with retry_cntr := 0 }, .fetched)
      else save empty a disk parsed_data

end Fetch

/-- Where the file of an agent comes from. -/
inductive Origin where
  | unknown
  | emptied
  | served (n : Nat)
  deriving DecidableEq, Repr

/-- An agent with the number of the pinglist in the answer that is on its way to it, and how many of
its calls failed since the last that did not. -/
structure Client (K : Type) where
  agent : Agent K
  answer : Option Nat
  origin : Origin
  failures : Nat

/-- The client when its call ended, which had this answer. -/
def Client.ended (c : Client K) (answer : Option Nat) (r : Agent K × Outcome) : Client K :=
  match r.2 with
  | .fetched => ⟨r.1, none, answer.elim .unknown .served, 0⟩
  | .failed => ⟨r.1, none, c.origin, c.failures + 1⟩
  | .emptied => ⟨r.1, none, .emptied, c.failures + 1⟩
  | .torn => ⟨r.1, none, .unknown, c.failures + 1⟩

/-- The pinglists that were in the memory of the web server are numbered, `past` has all but the
last. -/
structure State (I K : Type) where
  content : FileContent
  contents : List FileContent
  past : List Yaml
  memory : Yaml
  clients : I → Client K

inductive Action (I K : Type) where
  | edit (content : FileContent)
  | readPinglist
  | restartServer
  /-- `get_pinglist` for this agent. -/
  | getPinglist (i : I)
  /-- The call of the agent ends, with the answer or without. -/
  | fetch (i : I) (answered : Bool) (disk : Disk K)
  /-- The agent is started anew, with its files or without. -/
  | restartAgent (i : I) (kept : Bool)

namespace State

/-- The pinglist with this number. -/
def pinglist (s : State I K) (n : Nat) : Option Yaml := (s.past ++ [s.memory])[n]?

/-- The file on the controller and the files of the agents may be there already. -/
def init (content : FileContent) (file : I → Download K) : State I K where
  content := content
  contents := [content]
  past := []
  memory := PinglistReader.start
  clients := fun i => ⟨⟨file i, 0⟩, none, .unknown, 0⟩

section Steps
variable (json : Yaml → Option K) (pyEq : K → K → Bool) (null empty : K) [DecidableEq I]

def remember (s : State I K) (memory : Yaml) : State I K := { s with past := s.past ++ [s.memory], memory := memory }

def setClient (s : State I K) (i : I) (c : Client K) : State I K :=
  { s with clients := Function.update s.clients i c }

def fetch (s : State I K) (c : Client K) (answered : Bool) (disk : Disk K) : Client K :=
  let answer := if answered then c.answer else none
  c.ended answer (fetchData pyEq null empty c.agent (answer.bind fun n => (s.pinglist n).bind json) disk)

def step (s : State I K) : Action I K → State I K
  | .edit content => { s with content := content, contents := s.contents ++ [content] }
  | .readPinglist => s.remember (Webserver.readPinglist s.memory s.content)
  | .restartServer => s.remember PinglistReader.start
  | .getPinglist i => s.setClient i { s.clients i with answer := some s.past.length }
  | .fetch i answered disk => s.setClient i (s.fetch json pyEq null empty (s.clients i) answered disk)
  | .restartAgent i kept =>
    s.setClient i
      (if kept then { s.clients i with agent := ⟨(s.clients i).agent.file, 0⟩, answer := none }
      else { s.clients i with agent := ⟨.missing, 0⟩, answer := none, origin := .unknown })

abbrev run (s : State I K) (as : List (Action I K)) : State I K := Runs.run (step json pyEq null empty) s as

end Steps
end State

section Fetch
variable {pyEq : K → K → Bool} {null empty : K}

/-- What is known of a call by how it ended. -/
def Ended (pyEq : K → K → Bool) (null empty : K) (a : Agent K) (response : Option K) (r : Agent K × Outcome) : Prop :=
  match r.2 with
  | .fetched => r.1.retry_cntr = 0 ∧ ∃ k, response = some k ∧
      (existingData null r.1.file = k ∨ pyEq (existingData null r.1.file) k = true)
  | .failed => r.1.file = a.file ∧ r.1.retry_cntr = a.retry_cntr + 1 ∧ r.1.retry_cntr ≤ 3
  | .emptied => r.1.file = .holds empty ∧ r.1.retry_cntr = 0 ∧ 3 ≤ a.retry_cntr
  | .torn => r.1.retry_cntr ≤ 3 ∧ r.1.retry_cntr ≤ a.retry_cntr + 1

theorem ended_countFailure (a : Agent K) (response : Option K) (disk : Disk K) :
    Ended pyEq null empty a response (countFailure empty a disk .failed) := by
  unfold countFailure
  split
  · split
    · exact ⟨rfl, rfl, by omega⟩
    · exact ⟨Nat.zero_le _, Nat.zero_le _⟩
  · exact ⟨rfl, rfl, by dsimp only; omega⟩

theorem ended_save (a : Agent K) (disk : Disk K) (k : K) :
    Ended pyEq null empty a (some k) (save empty a disk k) := by
  unfold save
  split
  · exact ⟨rfl, k, rfl, .inl rfl⟩
  · unfold countFailure
    split
    · split
      · refine ⟨rfl, rfl, ?_⟩
        dsimp only at *
        omega
      · exact ⟨Nat.zero_le _, Nat.zero_le _⟩
    · refine ⟨?_, Nat.le_refl _⟩
      dsimp only at *
      omega

theorem ended_fetchData (a : Agent K) (response : Option K) (disk : Disk K) :
    Ended pyEq null empty a response (fetchData pyEq null empty a response disk) := by
  unfold fetchData
  split
  · exact ended_countFailure a none disk
  · rename_i k
    split
    · exact ended_save a disk k
    · rename_i hfile
      split
      · exact ended_countFailure a (some k) disk
      · split
        · rename_i hsame
          exact ⟨rfl, k, rfl, .inr hsame⟩
        · exact ended_save a disk k

end Fetch

namespace State

section Run
variable {json : Yaml → Option K} {pyEq : K → K → Bool} {null empty : K}

/-- The file of an agent is what its origin says: a pinglist with that number, as far as Python tells
them apart, or an empty one after four calls in a row that failed. -/
structure ClientInv (json : Yaml → Option K) (pyEq : K → K → Bool) (null empty : K) (s : State I K) (c : Client K) :
    Prop where
  retry : c.agent.retry_cntr ≤ 3
  failures : c.agent.retry_cntr ≤ c.failures
  answer : ∀ n, c.answer = some n → n ≤ s.past.length
  ordered : ∀ n, c.origin = .served n → n ≤ s.past.length ∧ ∀ m, c.answer = some m → n ≤ m
  served : ∀ n, c.origin = .served n → ∃ y k, s.pinglist n = some y ∧ json y = some k ∧
    (existingData null c.agent.file = k ∨ pyEq (existingData null c.agent.file) k = true)
  emptied : c.origin = .emptied → c.agent.file = .holds empty ∧ 4 ≤ c.failures

theorem ClientInv.ended {s : State I K} {c : Client K} (h : ClientInv json pyEq null empty s c) {answer : Option Nat}
    (hanswer : ∀ n, answer = some n → c.answer = some n) {r : Agent K × Outcome}
    (hended : Ended pyEq null empty c.agent (answer.bind fun n => (s.pinglist n).bind json) r) :
    ClientInv json pyEq null empty s (c.ended answer r) := by
  obtain ⟨a, o⟩ := r
  cases o with
  | fetched =>
    obtain ⟨hretry, k, hresponse, hfile⟩ := hended
    obtain ⟨n, rfl, hn⟩ := Option.bind_eq_some_iff.mp hresponse
    obtain ⟨y, hy, hk⟩ := Option.bind_eq_some_iff.mp hn
    refine ⟨hretry.le.trans (Nat.zero_le 3), hretry.le, fun _ => nofun, ?_, ?_, nofun⟩
    · rintro n' ⟨⟩
      exact ⟨h.answer n (hanswer n rfl), fun _ => nofun⟩
    · rintro n' ⟨⟩
      exact ⟨y, k, hy, hk, hfile⟩
  | failed =>
    obtain ⟨hfile, hretry, hle⟩ := hended
    refine ⟨hle, hretry.le.trans (Nat.succ_le_succ h.failures), fun _ => nofun, ?_, ?_, ?_⟩
    · exact fun n hn => ⟨(h.ordered n hn).1, fun _ => nofun⟩
    · intro n hn
      have hserved := h.served n hn
      rw [← hfile] at hserved
      exact hserved
    · intro hempty
      have hold := h.emptied hempty
      exact ⟨hfile.trans hold.1, hold.2.trans (Nat.le_succ _)⟩
  | emptied =>
    obtain ⟨hfile, hretry, hthree⟩ := hended
    refine ⟨hretry.le.trans (Nat.zero_le 3), hretry.le.trans (Nat.zero_le _), fun _ => nofun, nofun, nofun, ?_⟩
    exact fun _ => ⟨hfile, Nat.succ_le_succ (hthree.trans h.failures)⟩
  | torn =>
    obtain ⟨hle, hretry⟩ := hended
    exact ⟨hle, hretry.trans (Nat.succ_le_succ h.failures), fun _ => nofun, nofun, nofun, nofun⟩

theorem answer_of_answered {c : Client K} {answered : Bool} (n : Nat)
    (h : (if answered then c.answer else none) = some n) : c.answer = some n := by
  split at h
  · exact h
  · cases h

theorem ClientInv.fetch {s : State I K} {c : Client K} (h : ClientInv json pyEq null empty s c) (answered : Bool)
    (disk : Disk K) : ClientInv json pyEq null empty s (s.fetch json pyEq null empty c answered disk) :=
  h.ended answer_of_answered (ended_fetchData c.agent _ disk)

theorem ClientInv.getPinglist {s : State I K} {c : Client K} (h : ClientInv json pyEq null empty s c) :
    ClientInv json pyEq null empty s { c with answer := some s.past.length } := by
  refine { h with answer := ?_, ordered := ?_ }
  · rintro n ⟨⟩
    exact Nat.le_refl _
  · intro n hn
    refine ⟨(h.ordered n hn).1, ?_⟩
    rintro m ⟨⟩
    exact (h.ordered n hn).1

theorem ClientInv.restart {s : State I K} {c : Client K} (h : ClientInv json pyEq null empty s c) :
    ClientInv json pyEq null empty s { c with agent := ⟨c.agent.file, 0⟩, answer := none } where
  retry := Nat.zero_le 3
  failures := Nat.zero_le _
  answer := fun _ => nofun
  ordered := fun n hn => ⟨(h.ordered n hn).1, fun _ => nofun⟩
  served := h.served
  emptied := h.emptied

theorem clientInv_unknown (s : State I K) (file : Download K) (failures : Nat) :
    ClientInv json pyEq null empty s ⟨⟨file, 0⟩, none, .unknown, failures⟩ where
  retry := Nat.zero_le 3
  failures := Nat.zero_le _
  answer := fun _ => nofun
  ordered := nofun
  served := nofun
  emptied := nofun

/-- Numbers are given out once. -/
def Grows (s t : State I K) : Prop := s.past ++ [s.memory] <+: t.past ++ [t.memory]

theorem Grows.length_le {s t : State I K} (h : Grows s t) : s.past.length ≤ t.past.length := by
  have hle := List.IsPrefix.length_le h
  rw [List.length_append, List.length_append, List.length_singleton, List.length_singleton] at hle
  exact Nat.le_of_succ_le_succ hle

theorem Grows.pinglist {s t : State I K} (h : Grows s t) {n : Nat} {y : Yaml} (hy : s.pinglist n = some y) :
    t.pinglist n = some y := by
  obtain ⟨rest, hrest⟩ := h
  unfold State.pinglist at hy ⊢
  rw [← hrest, List.getElem?_append_left (List.getElem?_eq_some_iff.mp hy).1]
  exact hy

theorem Grows.clientInv {s t : State I K} (h : Grows s t) {c : Client K} (hc : ClientInv json pyEq null empty s c) :
    ClientInv json pyEq null empty t c := by
  refine { hc with answer := ?_, ordered := ?_, served := ?_ }
  · exact fun n hn => (hc.answer n hn).trans h.length_le
  · exact fun n hn => ⟨(hc.ordered n hn).1.trans h.length_le, (hc.ordered n hn).2⟩
  · intro n hn
    obtain ⟨y, k, hy, hk, hfile⟩ := hc.served n hn
    exact ⟨y, k, h.pinglist hy, hk, hfile⟩

/-- What the server has in memory was in the file once. -/
structure ServerInv (s : State I K) : Prop where
  content : s.content ∈ s.contents
  memory : ∀ y ∈ s.past ++ [s.memory], y = PinglistReader.start ∨ .parses y ∈ s.contents

theorem ServerInv.remember {s : State I K} (h : ServerInv s) {y : Yaml}
    (hy : y = PinglistReader.start ∨ .parses y ∈ s.contents) : ServerInv (s.remember y) := by
  refine ⟨h.content, fun z hz => ?_⟩
  rcases List.mem_append.mp hz with hz | hz
  · exact h.memory z hz
  · rw [List.mem_singleton.mp hz]
    exact hy

/-- What the client has or will have is not older than `m`. -/
structure Later (m : Nat) (s : State I K) (c : Client K) : Prop where
  past : m ≤ s.past.length
  answer : ∀ n, c.answer = some n → m ≤ n
  origin : ∀ n, c.origin = .served n → m ≤ n

theorem Later.ended {m : Nat} {s : State I K} {c : Client K} (h : Later m s c) {answer : Option Nat}
    (hanswer : ∀ n, answer = some n → c.answer = some n) (r : Agent K × Outcome) : Later m s (c.ended answer r) := by
  obtain ⟨a, o⟩ := r
  cases o with
  | fetched =>
    refine ⟨h.past, fun _ => nofun, fun n hn => ?_⟩
    cases hcases : answer with
    | none =>
      rw [hcases] at hn
      cases hn
    | some n' =>
      rw [hcases] at hn
      cases hn
      exact h.answer n (hanswer n hcases)
  | failed => exact ⟨h.past, fun _ => nofun, h.origin⟩
  | emptied => exact ⟨h.past, fun _ => nofun, nofun⟩
  | torn => exact ⟨h.past, fun _ => nofun, nofun⟩

theorem Later.fetch {m : Nat} {s : State I K} {c : Client K} (h : Later m s c) (answered : Bool) (disk : Disk K) :
    Later m s (s.fetch json pyEq null empty c answered disk) :=
  h.ended answer_of_answered _

/-- The file on the controller is left as it is, and the web server is not started anew. -/
def Undisturbed : Action I K → Prop
  | .edit _ => False
  | .restartServer => False
  | _ => True

/-- The action does not end the call of the agent. -/
def Spares (i : I) : Action I K → Prop
  | .fetch j _ _ => j ≠ i
  | .restartAgent j _ => j ≠ i
  | _ => True

/-- From this number on there is one pinglist. -/
structure Settled (y : Yaml) (m : Nat) (s : State I K) : Prop where
  content : s.content = .parses y
  memory : s.memory = y
  past : m ≤ s.past.length
  pinglist : ∀ n z, m ≤ n → s.pinglist n = some z → z = y

theorem Settled.remember {y : Yaml} {m : Nat} {s : State I K} (h : Settled y m s) : Settled y m (s.remember y) := by
  refine ⟨h.content, rfl, h.past.trans (List.length_append ▸ Nat.le_add_right _ _), fun n z hle hz => ?_⟩
  change (s.past ++ [s.memory] ++ [y])[n]? = some z at hz
  rcases Nat.lt_or_ge n (s.past ++ [s.memory]).length with hlt | hge
  · rw [List.getElem?_append_left hlt] at hz
    exact h.pinglist n z hle hz
  · rw [List.getElem?_append_right hge] at hz
    exact List.mem_singleton.mp (List.mem_of_getElem? hz)

variable [DecidableEq I]

theorem grows_step (s : State I K) (a : Action I K) : Grows s (s.step json pyEq null empty a) := by
  cases a with
  | readPinglist => exact List.prefix_append _ _
  | restartServer => exact List.prefix_append _ _
  | edit content => exact List.prefix_refl _
  | getPinglist i => exact List.prefix_refl _
  | fetch i answered disk => exact List.prefix_refl _
  | restartAgent i kept => exact List.prefix_refl _

theorem grows_run (s : State I K) (as : List (Action I K)) : Grows s (s.run json pyEq null empty as) :=
  Runs.run_invariant (P := Grows s) (fun t a h => List.IsPrefix.trans h (grows_step t a)) (List.prefix_refl _) as

/-- The client of a step is the only one that changes. -/
theorem clientInv_step {s : State I K} (h : ∀ i, ClientInv json pyEq null empty s (s.clients i)) (a : Action I K)
    (i : I) : ClientInv json pyEq null empty (s.step json pyEq null empty a) ((s.step json pyEq null empty a).clients i) := by
  refine (grows_step s a).clientInv ?_
  cases a with
  | edit content => exact h i
  | readPinglist => exact h i
  | restartServer => exact h i
  | getPinglist j =>
    show ClientInv json pyEq null empty s (Function.update s.clients j _ i)
    rcases eq_or_ne i j with rfl | hne
    · rw [Function.update_self]
      exact (h i).getPinglist
    · rw [Function.update_of_ne hne]
      exact h i
  | fetch j answered disk =>
    show ClientInv json pyEq null empty s (Function.update s.clients j _ i)
    rcases eq_or_ne i j with rfl | hne
    · rw [Function.update_self]
      exact (h i).fetch answered disk
    · rw [Function.update_of_ne hne]
      exact h i
  | restartAgent j kept =>
    show ClientInv json pyEq null empty s (Function.update s.clients j _ i)
    rcases eq_or_ne i j with rfl | hne
    · rw [Function.update_self]
      split
      · exact (h i).restart
      · exact clientInv_unknown s .missing _
    · rw [Function.update_of_ne hne]
      exact h i

theorem serverInv_step {s : State I K} (h : ServerInv s) (a : Action I K) :
    ServerInv (s.step json pyEq null empty a) := by
  cases a with
  | edit content =>
    refine ⟨List.mem_append_right _ (List.mem_singleton_self content), fun y hy => ?_⟩
    exact (h.memory y hy).imp_right fun hmem => List.mem_append_left _ hmem
  | readPinglist =>
    have hmemory := h.memory s.memory (List.mem_append_right _ (List.mem_singleton_self _))
    have hcontent := h.content
    refine h.remember ?_
    unfold Webserver.readPinglist
    split
    · exact hmemory
    · exact hmemory
    · rename_i y hparses
      split
      · exact hmemory
      · rw [hparses] at hcontent
        exact .inr hcontent
  | restartServer => exact h.remember (.inl rfl)
  | getPinglist i => exact ⟨h.content, h.memory⟩
  | fetch i answered disk => exact ⟨h.content, h.memory⟩
  | restartAgent i kept => exact ⟨h.content, h.memory⟩

/-- As Python compares it, the file is `k`. -/
def Holds (pyEq : K → K → Bool) (null k : K) (file : Download K) : Prop :=
  existingData null file = k ∨ pyEq (existingData null file) k = true

/-- Where the file of a client comes from. -/
def Traced (json : Yaml → Option K) (pyEq : K → K → Bool) (null empty : K) (s : State I K) (c : Client K) : Prop :=
  match c.origin with
  | .unknown => True
  | .emptied => c.agent.file = .holds empty ∧ 4 ≤ c.failures
  | .served n => ∃ y k, s.pinglist n = some y ∧ (y = PinglistReader.start ∨ .parses y ∈ s.contents) ∧
      json y = some k ∧ Holds pyEq null k c.agent.file

theorem clientInv_run (content : FileContent) (file : I → Download K) (as : List (Action I K)) (i : I) :
    ClientInv json pyEq null empty ((init content file).run json pyEq null empty as)
      (((init content file).run json pyEq null empty as).clients i) :=
  Runs.run_invariant (P := fun s : State I K => ∀ i, ClientInv json pyEq null empty s (s.clients i))
    (fun _ a h => clientInv_step h a) (fun i => clientInv_unknown _ (file i) 0) as i

theorem serverInv_run (content : FileContent) (file : I → Download K) (as : List (Action I K)) :
    ServerInv ((init content file).run json pyEq null empty as) := by
  refine Runs.run_invariant (P := ServerInv) (fun _ a h => serverInv_step h a) ?_ as
  refine ⟨List.mem_singleton_self content, fun y hy => .inl ?_⟩
  exact List.mem_singleton.mp hy

/-- No agent has a pinglist that the controller did not have, and none is emptied before its fourth
failed call in a row. -/
theorem traced (content : FileContent) (file : I → Download K) (as : List (Action I K)) (i : I) :
    Traced json pyEq null empty ((init content file).run json pyEq null empty as)
      (((init content file).run json pyEq null empty as).clients i) := by
  have hclient : ClientInv json pyEq null empty ((init content file).run json pyEq null empty as) _ :=
    clientInv_run content file as i
  have hserver : ServerInv ((init content file).run json pyEq null empty as) := serverInv_run content file as
  unfold Traced
  split
  · trivial
  · rename_i horigin
    exact hclient.emptied horigin
  · rename_i n horigin
    obtain ⟨y, k, hy, hk, hfile⟩ := hclient.served n horigin
    exact ⟨y, k, hy, hserver.memory y (List.mem_of_getElem? hy), hk, hfile⟩

theorem later_step {m : Nat} {s : State I K} {i : I} (h : Later m s (s.clients i)) (a : Action I K) :
    Later m (s.step json pyEq null empty a) ((s.step json pyEq null empty a).clients i) := by
  have hpast : m ≤ (s.step json pyEq null empty a).past.length := h.past.trans (grows_step s a).length_le
  cases a with
  | edit content => exact ⟨hpast, h.answer, h.origin⟩
  | readPinglist => exact ⟨hpast, h.answer, h.origin⟩
  | restartServer => exact ⟨hpast, h.answer, h.origin⟩
  | getPinglist j =>
    show Later m _ (Function.update s.clients j _ i)
    rcases eq_or_ne i j with rfl | hne
    · rw [Function.update_self]
      refine ⟨hpast, ?_, h.origin⟩
      rintro n ⟨⟩
      exact h.past
    · rw [Function.update_of_ne hne]
      exact ⟨hpast, h.answer, h.origin⟩
  | fetch j answered disk =>
    show Later m _ (Function.update s.clients j _ i)
    rcases eq_or_ne i j with rfl | hne
    · rw [Function.update_self]
      have hfetch : Later m s (s.fetch json pyEq null empty (s.clients i) answered disk) := h.fetch answered disk
      exact ⟨hpast, hfetch.answer, hfetch.origin⟩
    · rw [Function.update_of_ne hne]
      exact ⟨hpast, h.answer, h.origin⟩
  | restartAgent j kept =>
    show Later m _ (Function.update s.clients j _ i)
    rcases eq_or_ne i j with rfl | hne
    · rw [Function.update_self]
      split
      · exact ⟨hpast, fun _ => nofun, h.origin⟩
      · exact ⟨hpast, fun _ => nofun, nofun⟩
    · rw [Function.update_of_ne hne]
      exact ⟨hpast, h.answer, h.origin⟩

theorem later_run {m : Nat} {s : State I K} {i : I} (h : Later m s (s.clients i)) (as : List (Action I K)) :
    Later m (s.run json pyEq null empty as) ((s.run json pyEq null empty as).clients i) :=
  Runs.run_invariant (P := fun s : State I K => Later m s (s.clients i)) (fun _ a h => later_step h a) h as

theorem served_mono {s : State I K} {i : I} (hinv : ClientInv json pyEq null empty s (s.clients i))
    (as : List (Action I K)) {m n : Nat} (hm : (s.clients i).origin = .served m)
    (hn : ((s.run json pyEq null empty as).clients i).origin = .served n) : m ≤ n := by
  have hlater : Later m s (s.clients i) := by
    refine ⟨(hinv.ordered m hm).1, (hinv.ordered m hm).2, fun n' hn' => ?_⟩
    rw [hm] at hn'
    cases hn'
    exact Nat.le_refl m
  exact (later_run hlater as).origin n hn

/-- An agent never goes back to an older pinglist. -/
theorem in_order (content : FileContent) (file : I → Download K) (as bs : List (Action I K)) {i : I} {m n : Nat}
    (hm : (((init content file).run json pyEq null empty as).clients i).origin = .served m)
    (hn : (((init content file).run json pyEq null empty (as ++ bs)).clients i).origin = .served n) : m ≤ n := by
  rw [State.run, Runs.run_append] at hn
  exact served_mono (clientInv_run content file as i) bs hm hn

/-- Two pinglists, one after the other. -/
theorem in_order_edited :
    let get : List (Action Unit Yaml) := [.readPinglist, .getPinglist (), .fetch () true ⟨true, none, none⟩]
    let s := init (.parses (.mapping [])) fun _ : Unit => .missing
    let run := fun as => ((s.run some (fun _ _ => false) (.scalar .null) (.mapping []) as).clients ()).origin
    run get = .served 1 ∧ run (get ++ .edit (.parses (.sequence [])) :: get) = .served 2 ∧ 1 ≤ 2 := by
  intro get s run
  have hfirst : run get = .served 1 := rfl
  have hsecond : run (get ++ .edit (.parses (.sequence [])) :: get) = .served 2 := rfl
  exact ⟨hfirst, hsecond, in_order _ _ get _ hfirst hsecond⟩

theorem readPinglist_same (y : Yaml) : Webserver.readPinglist y (.parses y) = y := by
  unfold Webserver.readPinglist
  dsimp only
  split
  · rfl
  · rfl

theorem settled_step {y : Yaml} {m : Nat} {s : State I K} (h : Settled y m s) (a : Action I K) (ha : Undisturbed a) :
    Settled y m (s.step json pyEq null empty a) := by
  cases a with
  | edit content => exact absurd ha id
  | readPinglist =>
    show Settled y m (s.remember (Webserver.readPinglist s.memory s.content))
    rw [h.content, h.memory, readPinglist_same]
    exact h.remember
  | restartServer => exact absurd ha id
  | getPinglist i => exact ⟨h.content, h.memory, h.past, h.pinglist⟩
  | fetch i answered disk => exact ⟨h.content, h.memory, h.past, h.pinglist⟩
  | restartAgent i kept => exact ⟨h.content, h.memory, h.past, h.pinglist⟩

theorem settled_run {y : Yaml} {m : Nat} {s : State I K} (h : Settled y m s) {as : List (Action I K)}
    (has : ∀ a ∈ as, Undisturbed a) : Settled y m (s.run json pyEq null empty as) := by
  have hrun : Runs.Along (State.step json pyEq null empty) (fun _ a => Undisturbed a) s as :=
    Runs.along_of_forall_mem fun _ a ha => has a ha
  exact Runs.run_invariant_along (P := Settled y m) (fun _ a hs ha => settled_step hs a ha) h hrun

/-- A value with `clear()` gives way to what the file holds. -/
theorem settled_readPinglist {y : Yaml} {s : State I K} (hcontent : s.content = .parses y)
    (hclear : s.memory.clear ≠ none) :
    Settled y (s.past.length + 1) (s.step json pyEq null empty .readPinglist) := by
  have hread : Webserver.readPinglist s.memory s.content = y := by
    obtain ⟨cleared, hcleared⟩ := Option.ne_none_iff_exists'.mp hclear
    rw [hcontent]
    show PinglistReader.readPinglist .webserver s.memory (.parses y) = y
    exact PinglistReader.readPinglist_parses hcleared y
  show Settled y _ (s.remember (Webserver.readPinglist s.memory s.content))
  rw [hread]
  have hlength : (s.past ++ [s.memory]).length = s.past.length + 1 := List.length_append
  refine ⟨hcontent, rfl, hlength.ge, fun n z hle hz => ?_⟩
  change (s.past ++ [s.memory] ++ [y])[n]? = some z at hz
  rw [List.getElem?_append_right (hlength.le.trans hle)] at hz
  exact List.mem_singleton.mp (List.mem_of_getElem? hz)

/-- The answer on its way to the client has this number or a later one. -/
def Waiting (m : Nat) (c : Client K) : Prop := ∃ n, c.answer = some n ∧ m ≤ n

theorem waiting_step {m : Nat} {s : State I K} {i : I} (hpast : m ≤ s.past.length) (h : Waiting m (s.clients i))
    (a : Action I K) (ha : Spares i a) : Waiting m ((s.step json pyEq null empty a).clients i) := by
  cases a with
  | edit content => exact h
  | readPinglist => exact h
  | restartServer => exact h
  | getPinglist j =>
    show Waiting m (Function.update s.clients j _ i)
    rcases eq_or_ne i j with rfl | hne
    · rw [Function.update_self]
      exact ⟨s.past.length, rfl, hpast⟩
    · rw [Function.update_of_ne hne]
      exact h
  | fetch j answered disk =>
    show Waiting m (Function.update s.clients j _ i)
    rw [Function.update_of_ne (Ne.symm ha)]
    exact h
  | restartAgent j kept =>
    show Waiting m (Function.update s.clients j _ i)
    rw [Function.update_of_ne (Ne.symm ha)]
    exact h

theorem waiting_run {y : Yaml} {m : Nat} {s : State I K} {i : I} (hs : Settled y m s) (h : Waiting m (s.clients i))
    {as : List (Action I K)} (has : ∀ a ∈ as, Undisturbed a ∧ Spares i a) :
    Waiting m ((s.run json pyEq null empty as).clients i) := by
  have hrun : Runs.Along (State.step json pyEq null empty) (fun _ a => Undisturbed a ∧ Spares i a) s as :=
    Runs.along_of_forall_mem fun _ a ha => has a ha
  have hboth := Runs.run_invariant_along (P := fun s : State I K => Settled y m s ∧ Waiting m (s.clients i))
    (fun _ a hs ha => ⟨settled_step hs.1 a ha.1, waiting_step hs.1.past hs.2 a ha.2⟩) ⟨hs, h⟩ hrun
  exact hboth.2

/-- A call with an answer and a disk that works. -/
theorem fetchData_fetched (a : Agent K) (k : K) {disk : Disk K} (hreadable : disk.readable = true)
    (hdump : disk.dump = none) : (fetchData pyEq null empty a (some k) disk).2 = .fetched := by
  have hsave : (save empty a disk k).2 = .fetched := by
    unfold save
    rw [hdump]
  unfold fetchData
  dsimp only
  split
  · exact hsave
  · rw [if_neg (by rw [hreadable]; exact Bool.noConfusion)]
    split
    · rfl
    · exact hsave

theorem origin_fetch {y : Yaml} {m : Nat} {s : State I K} {i : I} {k : K} (hs : Settled y m s)
    (hpast : ∀ n, (s.clients i).answer = some n → n ≤ s.past.length) (h : Waiting m (s.clients i))
    (hjson : json y = some k) {disk : Disk K} (hreadable : disk.readable = true) (hdump : disk.dump = none) :
    ∃ n, m ≤ n ∧ ((s.step json pyEq null empty (.fetch i true disk)).clients i).origin = .served n := by
  obtain ⟨n, hanswer, hle⟩ := h
  refine ⟨n, hle, ?_⟩
  have hlt : n < (s.past ++ [s.memory]).length := by
    rw [List.length_append, List.length_singleton]
    exact Nat.lt_succ_of_le (hpast n hanswer)
  have hpinglist : s.pinglist n = some y := by
    have hsome : s.pinglist n = some (s.past ++ [s.memory])[n] := List.getElem?_eq_getElem hlt
    rw [hsome, hs.pinglist n _ hle hsome]
  show (Function.update s.clients i _ i).origin = .served n
  rw [Function.update_self]
  unfold State.fetch
  rw [if_pos rfl, hanswer]
  dsimp only
  rw [Option.bind_some, hpinglist, Option.bind_some, hjson]
  unfold Client.ended
  rw [fetchData_fetched (s.clients i).agent k hreadable hdump]
  rfl

/-- The file is read and goes to one agent, while the others go on. -/
def delivery (bs cs : List (Action I K)) (i : I) (disk : Disk K) : List (Action I K) :=
  .readPinglist :: bs ++ .getPinglist i :: cs ++ [.fetch i true disk]

theorem origin_delivery {s : State I K} {bs cs : List (Action I K)} {i : I} {y : Yaml} {k : K}
    (hinv : ∀ i, ClientInv json pyEq null empty s (s.clients i)) (hcontent : s.content = .parses y)
    (hclear : s.memory.clear ≠ none) (hjson : json y = some k) (hbs : ∀ a ∈ bs, Undisturbed a)
    (hcs : ∀ a ∈ cs, Undisturbed a ∧ Spares i a) {disk : Disk K} (hreadable : disk.readable = true)
    (hdump : disk.dump = none) :
    ∃ m n, Settled y m (s.run json pyEq null empty (delivery bs cs i disk)) ∧ m ≤ n ∧
      ((s.run json pyEq null empty (delivery bs cs i disk)).clients i).origin = .served n := by
  let s₁ := (s.step json pyEq null empty .readPinglist).run json pyEq null empty bs
  let s₂ := s₁.step json pyEq null empty (.getPinglist i)
  let s₃ := s₂.run json pyEq null empty cs
  have hrun : s.run json pyEq null empty (delivery bs cs i disk) = s₃.step json pyEq null empty (.fetch i true disk) := by
    rw [State.run, delivery, Runs.run_concat, Runs.run_append, Runs.run_cons, Runs.run_cons]
  have hinv₃ : ∀ j, ClientInv json pyEq null empty s₃ (s₃.clients j) := by
    have hall : ∀ j, ClientInv json pyEq null empty (s.run json pyEq null empty (.readPinglist :: bs ++ .getPinglist i :: cs))
        ((s.run json pyEq null empty (.readPinglist :: bs ++ .getPinglist i :: cs)).clients j) :=
      Runs.run_invariant (P := fun s : State I K => ∀ j, ClientInv json pyEq null empty s (s.clients j))
        (fun _ a h => clientInv_step h a) hinv _
    rw [State.run, Runs.run_append, Runs.run_cons, Runs.run_cons] at hall
    exact hall
  have hsettled₁ : Settled y (s.past.length + 1) s₁ := settled_run (settled_readPinglist hcontent hclear) hbs
  have hsettled₂ : Settled y (s.past.length + 1) s₂ := settled_step hsettled₁ _ trivial
  have hsettled₃ : Settled y (s.past.length + 1) s₃ := settled_run hsettled₂ fun a ha => (hcs a ha).1
  have hwaiting : Waiting (s.past.length + 1) (s₂.clients i) := by
    show Waiting _ (Function.update s₁.clients i _ i)
    rw [Function.update_self]
    exact ⟨s₁.past.length, rfl, hsettled₁.past⟩
  obtain ⟨n, hle, hserved⟩ :=
    origin_fetch hsettled₃ (hinv₃ i).answer (waiting_run hsettled₂ hwaiting hcs) hjson hreadable hdump
  rw [hrun]
  exact ⟨_, n, settled_step hsettled₃ _ trivial, hle, hserved⟩

/-- What the file on the controller holds reaches every agent whose call gets through, and stays. -/
theorem settled (content : FileContent) (file : I → Download K) (as bs cs ds : List (Action I K)) {i : I} {y : Yaml}
    {k : K} (hcontent : ((init content file).run json pyEq null empty as).content = .parses y)
    (hclear : ((init content file).run json pyEq null empty as).memory.clear ≠ none) (hjson : json y = some k)
    (hbs : ∀ a ∈ bs, Undisturbed a) (hcs : ∀ a ∈ cs, Undisturbed a ∧ Spares i a) (hds : ∀ a ∈ ds, Undisturbed a)
    {disk : Disk K} (hreadable : disk.readable = true) (hdump : disk.dump = none) :
    (∃ n, (((init content file).run json pyEq null empty (as ++ delivery bs cs i disk)).clients i).origin = .served n) ∧
      ∀ n, (((init content file).run json pyEq null empty (as ++ delivery bs cs i disk ++ ds)).clients i).origin =
        .served n → Holds pyEq null k
          (((init content file).run json pyEq null empty (as ++ delivery bs cs i disk ++ ds)).clients i).agent.file := by
  have hrun : (init content file).run json pyEq null empty (as ++ delivery bs cs i disk) =
      ((init content file).run json pyEq null empty as).run json pyEq null empty (delivery bs cs i disk) :=
    Runs.run_append ..
  obtain ⟨m, n, hsettled, hle, hserved⟩ := origin_delivery (fun j => clientInv_run content file as j) hcontent hclear
    hjson hbs hcs hreadable hdump
  rw [← hrun] at hsettled hserved
  refine ⟨⟨n, hserved⟩, fun n' hn' => ?_⟩
  have hafter : Settled y m ((init content file).run json pyEq null empty (as ++ delivery bs cs i disk ++ ds)) := by
    rw [State.run, Runs.run_append]
    exact settled_run hsettled hds
  obtain ⟨z, k', hz, hk', hfile⟩ := (clientInv_run content file (as ++ delivery bs cs i disk ++ ds) i).served n' hn'
  have hlater : m ≤ n' := by
    rw [State.run, Runs.run_append] at hn'
    exact hle.trans (served_mono (clientInv_run content file _ i) ds hserved hn')
  rw [hafter.pinglist n' z hlater hz, hjson] at hk'
  cases hk'
  exact hfile

/-- The other agent gets its answer while the first waits, and a later call of the first fails. -/
theorem settled_twoAgents :
    let disk : Disk Yaml := ⟨true, none, none⟩
    let s := init (.parses (.mapping [])) fun _ : Bool => .missing
    let run := s.run some (fun _ _ => false) (.scalar .null) (.mapping [])
    let got := [] ++ delivery [.getPinglist false] [.fetch false true disk] true disk
    (∃ n, ((run got).clients true).origin = .served n) ∧
      ∀ n, ((run (got ++ [.fetch true false disk])).clients true).origin = .served n →
        Holds (fun _ _ => false) (.scalar .null) (.mapping [])
          ((run (got ++ [.fetch true false disk])).clients true).agent.file :=
  settled _ _ [] _ _ _ rfl (fun h => by cases h) rfl (by simp [Undisturbed]) (by simp [Undisturbed, Spares])
    (by simp [Undisturbed]) rfl rfl

end Run
end State
end Pingweave.PinglistSync
