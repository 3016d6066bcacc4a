import Pingweave.Library.Runs
import Pingweave.PyText

/-!
# The collector

`process_collected_message` of `common.py`, first as one call and then as the steps that it takes
on the Redis server. A Python exception is `none`; it ends the call, and every caller ignores it.
`strptime` is any reading of time stamps as microseconds since `datetime.min`.
-/

namespace Pingweave
set_option autoImplicit false

/-- A `datetime`, in microseconds since `datetime.min`. -/
abbrev DateTime := Nat

def REDIS_THRES_N_FAILURE : Int := 0

def REDIS_THRES_AVG_NETWORK_LAT_NS : Int := 0

/-- The entries of the server, and the messages added to its streams. -/
structure Redis where
  store : Text → Option Text
  streams : List (Text × Text)

namespace Collector

def emptyRedis : Redis := ⟨fun _ => none, []⟩

/-- The lines of a message, `msg_str.strip().split("\n")`. -/
def messageLines (msg : Text) : List Text := (strip msg).splitOn '\n'

/-- `line.strip().split(",")` -/
def fields (line : Text) : List Text := (strip line).splitOn ','

def lineKey (protocol : Text) (data : List Text) : Text :=
  protocol ++ ',' :: List.intercalate [','] (data.take 2)

def lineValue (data : List Text) : Text := List.intercalate [','] (data.drop 2)

section Freshness
variable (strptime : Text → Option DateTime)

/-- `curr_ts_end`, from what the server returned for the key. -/
def currTsEnd : Option Text → Option DateTime
  | none => some 0
  | some [] => some 0
  | some raw => (raw.splitOn ',')[1]?.bind fun ts => strptime (ts.take 26)

def newTsEnd (data : List Text) : Option DateTime :=
  data[3]?.bind fun ts => strptime (ts.take 26)

def isNewer (curr_ts_end_raw : Option Text) (data : List Text) : Option Bool :=
  (currTsEnd strptime curr_ts_end_raw).bind fun curr_ts_end =>
    (newTsEnd strptime data).map fun new_ts_end => decide (curr_ts_end < new_ts_end)

end Freshness

/-- The mean network latency of a line; `none` inside for an unknown protocol. -/
def networkMeanLat (protocol : Text) (data : List Text) : Option (Option Int) :=
  if protocol = ['r', 'o', 'c', 'e'] ∨ protocol = ['i', 'b'] then (data[14]?.bind pyInt).map some
  else if protocol = ['t', 'c', 'p'] ∨ protocol = ['u', 'd', 'p'] then (data[8]?.bind pyInt).map some
  else some none

def checkStream (protocol : Text) (data : List Text) : Option Bool :=
  (data[5]?.bind pyInt).bind fun n_failure =>
    (networkMeanLat protocol data).map fun
      | none => false
      | some network_mean_lat => decide (n_failure > REDIS_THRES_N_FAILURE) ||
          decide (network_mean_lat > REDIS_THRES_AVG_NETWORK_LAT_NS)

def streamName (protocol : Text) : Text := "redis_pingweave_".toList ++ protocol

section Call
variable (strptime : Text → Option DateTime)

/-- One turn of the loop, and whether the loop goes on. -/
def processLine (r : Redis) (protocol line : Text) : Redis × Bool :=
  let data := fields line
  if data.length < 3 then (r, true)
  else
    let key := lineKey protocol data
    match isNewer strptime (r.store key) data with
    | none => (r, false)
    | some newer =>
      let r := if newer then { r with store := Function.update r.store key (some (lineValue data)) } else r
      match checkStream protocol data with
      | none => (r, false)
      | some true => ({ r with streams := r.streams ++ [(streamName protocol, line)] }, true)
      | some false => (r, true)

def processCollectedMessage (r : Redis) (protocol : Text) : List Text → Redis
  | [] => r
  | line :: results =>
    match processLine strptime r protocol line with
    | (r, true) => processCollectedMessage r protocol results
    | (r, false) => r

end Call

theorem comma_not_mem_fields (line : Text) : ∀ f ∈ fields line, ',' ∉ f :=
  not_mem_of_mem_splitOn ',' (strip line)

theorem splitOn_lineValue {data : List Text} (hcomma : ∀ f ∈ data, ',' ∉ f) (hlen : 3 ≤ data.length) :
    (lineValue data).splitOn ',' = data.drop 2 := by
  apply List.splitOn_intercalate
  · intro f hf
    exact hcomma f (List.mem_of_mem_drop hf)
  · intro hnil
    have hle := List.drop_eq_nil_iff.mp hnil
    omega

/-- What is stored for a line has the time stamp of the line. -/
theorem currTsEnd_lineValue (strptime : Text → Option DateTime) {data : List Text} {ts : DateTime}
    (hcomma : ∀ f ∈ data, ',' ∉ f) (hts : newTsEnd strptime data = some ts) :
    currTsEnd strptime (some (lineValue data)) = some ts := by
  have hlen : 3 < data.length := by
    by_contra hle
    rw [newTsEnd, List.getElem?_eq_none (Nat.not_lt.mp hle)] at hts
    cases hts
  have hsplit := splitOn_lineValue hcomma (Nat.le_of_lt hlen)
  have hraw : lineValue data ≠ [] := by
    intro hnil
    rw [hnil, List.splitOn_nil] at hsplit
    have hone := congrArg List.length hsplit
    rw [List.length_drop, List.length_singleton] at hone
    omega
  have hcurr : currTsEnd strptime (some (lineValue data)) =
      ((lineValue data).splitOn ',')[1]?.bind fun ts => strptime (ts.take 26) := by
    cases hv : lineValue data with
    | nil => exact absurd hv hraw
    | cons c rest => rfl
  rw [hcurr, hsplit, List.getElem?_drop]
  exact hts

theorem processCollectedMessage_cons (strptime : Text → Option DateTime) (r : Redis) (protocol line : Text)
    (results : List Text) : processCollectedMessage strptime r protocol (line :: results) =
      if (processLine strptime r protocol line).2 then
        processCollectedMessage strptime (processLine strptime r protocol line).1 protocol results
      else (processLine strptime r protocol line).1 := by
  rw [processCollectedMessage]
  split
  · rename_i h
    rw [h, if_pos rfl]
  · rename_i h
    rw [h, if_neg Bool.false_ne_true]

section Turn
variable {strptime : Text → Option DateTime} {r : Redis} {protocol line : Text}

theorem processLine_short (hlen : (fields line).length < 3) : processLine strptime r protocol line = (r, true) := by
  simp only [processLine, hlen, if_true]

theorem processLine_raised (hlen : ¬(fields line).length < 3)
    (hnone : isNewer strptime (r.store (lineKey protocol (fields line))) (fields line) = none) :
    processLine strptime r protocol line = (r, false) := by
  simp only [processLine, hlen, if_false, hnone]

/-- Once the time stamps are compared, the line is stored if it is newer and then checked for the
stream. -/
theorem processLine_compared (hlen : ¬(fields line).length < 3) {newer : Bool}
    (hnewer : isNewer strptime (r.store (lineKey protocol (fields line))) (fields line) = some newer) :
    processLine strptime r protocol line =
      (⟨if newer then Function.update r.store (lineKey protocol (fields line)) (some (lineValue (fields line)))
          else r.store,
        if checkStream protocol (fields line) = some true then r.streams ++ [(streamName protocol, line)]
          else r.streams⟩,
        (checkStream protocol (fields line)).isSome) := by
  cases hc : checkStream protocol (fields line) with
  | none => cases newer <;> simp [processLine, hlen, hnewer, hc]
  | some xadd => cases newer <;> cases xadd <;> simp [processLine, hlen, hnewer, hc]

end Turn

theorem isNewer_eq_some {strptime : Text → Option DateTime} {curr : Option Text} {data : List Text} {newer : Bool}
    (h : isNewer strptime curr data = some newer) :
    ∃ cur ts, currTsEnd strptime curr = some cur ∧ newTsEnd strptime data = some ts ∧
      newer = decide (cur < ts) := by
  obtain ⟨cur, hcur, hmap⟩ := Option.bind_eq_some_iff.mp h
  obtain ⟨ts, hts, hlt⟩ := Option.map_eq_some_iff.mp hmap
  exact ⟨cur, ts, hcur, hts, hlt.symm⟩

/-- A line that one turn of the loop takes in whole, with its time stamp. -/
structure Taken (strptime : Text → Option DateTime) (protocol line : Text) (ts : DateTime) : Prop where
  stamp : newTsEnd strptime (fields line) = some ts
  checked : (checkStream protocol (fields line)).isSome

theorem Taken.length {strptime : Text → Option DateTime} {protocol line : Text} {ts : DateTime}
    (h : Taken strptime protocol line ts) : 3 < (fields line).length := by
  by_contra hle
  have hts := h.stamp
  rw [newTsEnd, List.getElem?_eq_none (Nat.not_lt.mp hle)] at hts
  cases hts

theorem processLine_of_taken {strptime : Text → Option DateTime} {protocol line : Text}
    {ts cur : DateTime} (h : Taken strptime protocol line ts) {r : Redis}
    (hcur : currTsEnd strptime (r.store (lineKey protocol (fields line))) = some cur) :
    (processLine strptime r protocol line).2 = true ∧
      (processLine strptime r protocol line).1.store =
        if cur < ts then
          Function.update r.store (lineKey protocol (fields line)) (some (lineValue (fields line)))
        else r.store := by
  have hlen : ¬(fields line).length < 3 := by
    have := h.length
    omega
  have hnewer : isNewer strptime (r.store (lineKey protocol (fields line))) (fields line) =
      some (decide (cur < ts)) := by
    rw [isNewer, hcur, h.stamp]
    rfl
  rw [processLine_compared hlen hnewer]
  refine ⟨h.checked, ?_⟩
  simp only [decide_eq_true_eq]

/-- A line whose time stamp does not parse changes nothing, and ends the call if it has the
three fields that the loop asks for. -/
theorem processLine_of_stamp_none {strptime : Text → Option DateTime} {line : Text}
    (h : newTsEnd strptime (fields line) = none) (r : Redis) (protocol : Text) :
    processLine strptime r protocol line = (r, decide ((fields line).length < 3)) := by
  have hnewer : isNewer strptime (r.store (lineKey protocol (fields line))) (fields line) = none := by
    rw [isNewer, h]
    cases currTsEnd strptime (r.store (lineKey protocol (fields line))) <;> rfl
  by_cases hlen : (fields line).length < 3
  · rw [processLine_short hlen, decide_eq_true hlen]
  · rw [processLine_raised hlen hnewer, decide_eq_false hlen]

end Collector
end Pingweave
