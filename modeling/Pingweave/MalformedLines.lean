import Pingweave.Ingestion
import Pingweave.Library.TryLoop

/-!
# Malformed lines

What one line of a message does to the others. The loop of `process_collected_message` skips a line
with less than three fields. Any other bad line raises, if a field is bad that the loop reads, and
the handler stands around the loop, so the lines behind it are lost.
-/

namespace Pingweave
namespace Collector
set_option autoImplicit false

/-- The places of the counts and of the latency statistics in a line. -/
def numericFields (protocol : Text) : List Nat :=
  if protocol = ['r', 'o', 'c', 'e'] ∨ protocol = ['i', 'b'] then
    [4, 5, 6] ++ List.range' 8 5 ++ List.range' 14 5 ++ List.range' 20 5
  else if protocol = ['t', 'c', 'p'] ∨ protocol = ['u', 'd', 'p'] then [4, 5, 6] ++ List.range' 8 5
  else [4, 5, 6]

section Isolation
variable (strptime : Text → Option DateTime)

/-- Too few fields, a `ts_end` that does not parse or a number that is none. -/
def Malformed (protocol line : Text) : Prop :=
  (fields line).length < 3 ∨ newTsEnd strptime (fields line) = none ∨
    ∃ i ∈ numericFields protocol, (fields line)[i]?.bind pyInt = none

/-- The loop comes to the end of the lines of `pre`, and `s` is the server then. -/
def Reached (r : Redis) (protocol : Text) (pre : List Text) (s : Redis) : Prop :=
  TryLoop.forEach (fun r line => processLine strptime r protocol line) r pre = (s, true)

/-- The line `bad` stores nothing, and what the call stores is what it stores without it. -/
def Isolated (r : Redis) (protocol : Text) (pre : List Text) (bad : Text) (post : List Text) : Prop :=
  (∀ s, Reached strptime r protocol pre s → turn strptime protocol s bad = s) ∧
  processCollectedMessage strptime r protocol (pre ++ bad :: post) =
    processCollectedMessage strptime r protocol (pre ++ post)

/-- The line is skipped, raises before the store, or is neither newer nor due for the stream. -/
def LeavesAlone (s : Redis) (protocol line : Text) : Prop :=
  (fields line).length < 3 ∨
    isNewer strptime (s.store (lineKey protocol (fields line))) (fields line) = none ∨
    (isNewer strptime (s.store (lineKey protocol (fields line))) (fields line) = some false ∧
      checkStream protocol (fields line) ≠ some true)

/-- The line is skipped or raises nowhere. -/
def GoesOn (s : Redis) (protocol line : Text) : Prop :=
  (fields line).length < 3 ∨
    (isNewer strptime (s.store (lineKey protocol (fields line))) (fields line) ≠ none ∧
      checkStream protocol (fields line) ≠ none)

/-- Each line up to the first that raises leaves the server alone. -/
def Quiet (s : Redis) (protocol : Text) : List Text → Prop
  | [] => True
  | line :: results =>
    LeavesAlone strptime s protocol line ∧ (GoesOn strptime s protocol line → Quiet s protocol results)

/-- The server has not gone back: no stored time stamp is older and no stream is shorter. -/
structure NotBefore (r r' : Redis) : Prop where
  stamps : ∀ key cur, currTsEnd strptime (r.store key) = some cur →
    ∃ cur', currTsEnd strptime (r'.store key) = some cur' ∧ cur ≤ cur'
  streams : r.streams.length ≤ r'.streams.length

variable {strptime} {protocol : Text} {r s : Redis} {line : Text} {pre : List Text}

theorem processCollectedMessage_eq_forEach (strptime : Text → Option DateTime) (r : Redis) (protocol : Text)
    (results : List Text) : processCollectedMessage strptime r protocol results =
      (TryLoop.forEach (fun r line => processLine strptime r protocol line) r results).1 := by
  induction results generalizing r with
  | nil => rfl
  | cons line results ih =>
    rw [processCollectedMessage_cons, TryLoop.forEach]
    split
    · exact ih _
    · rfl

theorem processLine_goesOn_iff : (processLine strptime s protocol line).2 = true ↔ GoesOn strptime s protocol line := by
  unfold GoesOn
  by_cases hlen : (fields line).length < 3
  · simp [processLine_short hlen, hlen]
  · cases hnewer : isNewer strptime (s.store (lineKey protocol (fields line))) (fields line) with
    | none => simp [processLine_raised hlen hnewer, hlen]
    | some newer => simp [processLine_compared hlen hnewer, hlen, Option.isSome_iff_ne_none]

theorem LeavesAlone.turn_eq (h : LeavesAlone strptime s protocol line) : turn strptime protocol s line = s := by
  unfold turn
  by_cases hlen : (fields line).length < 3
  · rw [processLine_short hlen]
  · rcases h with hlt | hnone | ⟨hold, hc⟩
    · exact absurd hlt hlen
    · rw [processLine_raised hlen hnone]
    · rw [processLine_compared hlen hold, if_neg Bool.false_ne_true, if_neg hc]

theorem NotBefore.refl (r : Redis) : NotBefore strptime r r :=
  ⟨fun _ cur hcur => ⟨cur, hcur, Nat.le_refl cur⟩, Nat.le_refl _⟩

theorem NotBefore.trans {r' r'' : Redis} (h : NotBefore strptime r r') (h' : NotBefore strptime r' r'') :
    NotBefore strptime r r'' := by
  refine ⟨?_, Nat.le_trans h.streams h'.streams⟩
  intro key cur hcur
  obtain ⟨cur', hcur', hle⟩ := h.stamps key cur hcur
  obtain ⟨cur'', hcur'', hle'⟩ := h'.stamps key cur' hcur'
  exact ⟨cur'', hcur'', Nat.le_trans hle hle'⟩

theorem streams_turn (strptime : Text → Option DateTime) (protocol : Text) (r : Redis) (line : Text) :
    (turn strptime protocol r line).streams = r.streams ∨
      (turn strptime protocol r line).streams = r.streams ++ [(streamName protocol, line)] := by
  rcases turn_cases strptime protocol r line with hsame | ⟨cur, ts, -, -, hturn⟩
  · rw [hsame]
    exact Or.inl rfl
  · rw [hturn]
    by_cases hstream : checkStream protocol (fields line) = some true
    · exact Or.inr (if_pos hstream)
    · exact Or.inl (if_neg hstream)

theorem notBefore_turn (r : Redis) (protocol line : Text) :
    NotBefore strptime r (turn strptime protocol r line) := by
  refine ⟨fun key cur hcur => turn_stamp hcur protocol line, ?_⟩
  rcases streams_turn strptime protocol r line with hsame | hadded
  · rw [hsame]
  · rw [hadded, List.length_append]
    exact Nat.le_add_right _ _

theorem notBefore_process (strptime : Text → Option DateTime) (r : Redis) (protocol : Text) (results : List Text) :
    NotBefore strptime r (processCollectedMessage strptime r protocol results) := by
  rw [processCollectedMessage_eq_forEach]
  exact TryLoop.forEach_invariant (fun s line _ h => h.trans (notBefore_turn s protocol line)) (NotBefore.refl r)

/-- A line that does not leave the server alone stores a newer value or adds to a stream. -/
theorem turn_of_not_leavesAlone (h : ¬LeavesAlone strptime s protocol line) :
    (∃ key cur ts, currTsEnd strptime (s.store key) = some cur ∧
      currTsEnd strptime ((turn strptime protocol s line).store key) = some ts ∧ cur < ts) ∨
    s.streams.length < (turn strptime protocol s line).streams.length := by
  have hlen : ¬(fields line).length < 3 := fun hlt => h (Or.inl hlt)
  cases hnewer : isNewer strptime (s.store (lineKey protocol (fields line))) (fields line) with
  | none => exact absurd (Or.inr (Or.inl hnewer)) h
  | some newer =>
    cases newer with
    | false =>
      refine Or.inr ?_
      have hc : checkStream protocol (fields line) = some true := by
        by_contra hc
        exact h (Or.inr (Or.inr ⟨hnewer, hc⟩))
      simp only [turn, processLine_compared hlen hnewer, if_pos hc, List.length_append, List.length_singleton]
      exact Nat.lt_succ_self _
    | true =>
      refine Or.inl ?_
      obtain ⟨cur, ts, hcur, hts, hlt⟩ := isNewer_eq_some hnewer
      refine ⟨lineKey protocol (fields line), cur, ts, hcur, ?_, of_decide_eq_true hlt.symm⟩
      simp only [turn, processLine_compared hlen hnewer, if_true, Function.update_self]
      exact currTsEnd_lineValue strptime (comma_not_mem_fields line) hts

/-- What such a line has changed, no later line changes back. -/
theorem leavesAlone_of_notBefore (h : NotBefore strptime (turn strptime protocol s line) s) :
    LeavesAlone strptime s protocol line := by
  by_contra halone
  rcases turn_of_not_leavesAlone halone with ⟨key, cur, ts, hcur, hts, hlt⟩ | hlonger
  · obtain ⟨cur', hcur', hle⟩ := h.stamps key ts hts
    rw [hcur] at hcur'
    cases hcur'
    exact absurd hlt (Nat.not_lt.mpr hle)
  · exact absurd hlonger (Nat.not_lt.mpr h.streams)

theorem turn_eq_self_iff : turn strptime protocol s line = s ↔ LeavesAlone strptime s protocol line := by
  constructor
  · intro h
    apply leavesAlone_of_notBefore
    rw [h]
    exact NotBefore.refl s
  · exact LeavesAlone.turn_eq

/-- A call leaves the server as it was only if no line of it has changed anything. -/
theorem process_eq_self_iff (results : List Text) :
    processCollectedMessage strptime s protocol results = s ↔ Quiet strptime s protocol results := by
  induction results with
  | nil => exact ⟨fun _ => trivial, fun _ => rfl⟩
  | cons line results ih =>
    have hstep := processCollectedMessage_cons strptime s protocol line results
    constructor
    · intro h
      have halone : LeavesAlone strptime s protocol line := by
        apply leavesAlone_of_notBefore
        rw [hstep] at h
        split at h
        · have hrest := notBefore_process strptime (turn strptime protocol s line) protocol results
          rwa [turn, h] at hrest
        · rw [turn, h]
          exact NotBefore.refl s
      refine ⟨halone, fun hgo => ih.mp ?_⟩
      rw [hstep, if_pos (processLine_goesOn_iff.mpr hgo)] at h
      have hturn := halone.turn_eq
      rw [turn] at hturn
      rwa [hturn] at h
    · intro h
      obtain ⟨halone, hrest⟩ := h
      have hturn := halone.turn_eq
      rw [turn] at hturn
      rw [hstep, hturn]
      split
      · rename_i hgo
        exact ih.mpr (hrest (processLine_goesOn_iff.mp hgo))
      · rfl

theorem Reached.process_append (h : Reached strptime r protocol pre s) (results : List Text) :
    processCollectedMessage strptime r protocol (pre ++ results) =
      processCollectedMessage strptime s protocol results := by
  rw [processCollectedMessage_eq_forEach, processCollectedMessage_eq_forEach, TryLoop.forEach_append, h]
  rfl

theorem process_append_of_raised {results : List Text}
    (h : (TryLoop.forEach (fun r line => processLine strptime r protocol line) r pre).2 = false) :
    processCollectedMessage strptime r protocol (pre ++ results) = processCollectedMessage strptime r protocol pre := by
  rw [processCollectedMessage_eq_forEach, processCollectedMessage_eq_forEach, TryLoop.forEach_append, h,
    if_neg Bool.false_ne_true]

/-- A line does nothing to the others exactly if the loop does not come to it, or if it leaves the
server alone and either raises nowhere or has only such lines behind it as would change nothing. -/
theorem isolated_iff (strptime : Text → Option DateTime) (r : Redis) (protocol : Text) (pre : List Text)
    (bad : Text) (post : List Text) :
    Isolated strptime r protocol pre bad post ↔ ∀ s, Reached strptime r protocol pre s →
      LeavesAlone strptime s protocol bad ∧ (GoesOn strptime s protocol bad ∨ Quiet strptime s protocol post) := by
  constructor
  · rintro ⟨hstores, hsame⟩ s hs
    refine ⟨turn_eq_self_iff.mp (hstores s hs), ?_⟩
    by_cases hgo : GoesOn strptime s protocol bad
    · exact Or.inl hgo
    · refine Or.inr ?_
      rw [hs.process_append, hs.process_append, processCollectedMessage_cons,
        if_neg (mt processLine_goesOn_iff.mp hgo)] at hsame
      have hturn := hstores s hs
      rw [turn, hsame] at hturn
      exact process_eq_self_iff post |>.mp hturn
  · intro h
    refine ⟨fun s hs => (h s hs).1.turn_eq, ?_⟩
    cases hpre : (TryLoop.forEach (fun r line => processLine strptime r protocol line) r pre).2 with
    | false => rw [process_append_of_raised hpre, process_append_of_raised hpre]
    | true =>
      have hs : Reached strptime r protocol pre
          (TryLoop.forEach (fun r line => processLine strptime r protocol line) r pre).1 := Prod.ext rfl hpre
      obtain ⟨halone, hrest⟩ := h _ hs
      have hturn := halone.turn_eq
      rw [turn] at hturn
      rw [hs.process_append, hs.process_append, processCollectedMessage_cons, hturn]
      split
      · rfl
      · rename_i hgo
        rcases hrest with hgoes | hquiet
        · exact absurd (processLine_goesOn_iff.mpr hgoes) hgo
        · exact ((process_eq_self_iff post).mpr hquiet).symm

end Isolation

/-- A TCP report with a `ts_end` that is no time stamp. -/
def badStampLine : Text :=
  ['a', ',', 'b', ',', 's', ',', 'x', ',', '1', ',', '0', ',', '0', ',', 'n', ',', '5']

/-- The report behind a malformed line is lost. -/
theorem not_isolated :
    ¬∀ (r : Redis) (protocol : Text) (pre : List Text) (bad : Text) (post : List Text),
      Malformed strptimeMicros protocol bad → Isolated strptimeMicros r protocol pre bad post := by
  intro h
  have hstamp : newTsEnd strptimeMicros (fields badStampLine) = none := by decide +kernel
  have hts : newTsEnd strptimeMicros (fields (secondLine '1')) = some 63868644001000001 := by decide +kernel
  have htaken : Taken strptimeMicros ['t', 'c', 'p'] (secondLine '1') 63868644001000001 :=
    ⟨hts, by decide +kernel⟩
  have hsame := (h emptyRedis ['t', 'c', 'p'] [] badStampLine [secondLine '1'] (Or.inr (Or.inl hstamp))).2
  have hlen : ¬(fields badStampLine).length < 3 := by decide +kernel
  obtain ⟨hgo, hstore⟩ := processLine_of_taken htaken (r := emptyRedis) rfl
  rw [List.nil_append, List.nil_append, processCollectedMessage_cons, processLine_of_stamp_none hstamp,
    if_neg (by simpa using hlen), processCollectedMessage_cons, if_pos hgo] at hsame
  have hkey := congrArg (fun r => r.store (lineKey ['t', 'c', 'p'] (fields (secondLine '1')))) hsame
  simp only [processCollectedMessage, hstore, if_pos (show 0 < 63868644001000001 by decide),
    Function.update_self] at hkey
  cases hkey

end Collector
end Pingweave
