import Pingweave.Library.Runs
import Pingweave.Yaml

/-!
# Reading the pinglist into memory

The functions `read_pinglist` of `ctrl_webserver.py` and `ctrl_heatmap_plotter.py`. Both call
`clear()` on the value that the last call left, inside a handler for every exception.
-/

namespace Pingweave
set_option autoImplicit false

/-- What a call finds: no file, a file that `safe_load` throws on, or one that it reads. An empty file
reads as null. -/
inductive FileContent where
  | missing
  | unparseable
  | parses (y : Yaml)

/-- `x.clear()`, which a list and a dict have. -/
def Yaml.clear : Yaml → Option Yaml
  | .scalar _ => none
  | .sequence _ => some (.sequence [])
  | .mapping _ => some (.mapping [])

namespace Webserver

/-- The file is read first. -/
def readPinglist (pinglist_in_memory : Yaml) : FileContent → Yaml
  | .missing => pinglist_in_memory
  | .unparseable => pinglist_in_memory
  | .parses y =>
    match pinglist_in_memory.clear with
    | none => pinglist_in_memory
    | some _ => y

end Webserver

namespace HeatmapPlotter

def readPinglist (pinglist_in_memory : Yaml) (content : FileContent) : Yaml :=
  match pinglist_in_memory.clear with
  | none => pinglist_in_memory
  | some cleared =>
    match content with
    | .missing => cleared
    | .unparseable => cleared
    | .parses y => y

end HeatmapPlotter

namespace PinglistReader

inductive Program where
  | webserver
  | plotter
  deriving DecidableEq, Repr

def readPinglist : Program → Yaml → FileContent → Yaml
  | .webserver => Webserver.readPinglist
  | .plotter => HeatmapPlotter.readPinglist

/-- `pinglist_in_memory = {}` -/
def start : Yaml := .mapping []

def IsScalar : FileContent → Prop
  | .parses (.scalar _) => True
  | _ => False

def IsMapping : FileContent → Prop
  | .parses (.mapping _) => True
  | _ => False

/-- A mapping that is read is in memory afterwards. -/
def Recovers (program : Program) (m : Yaml) (content : FileContent) : Prop :=
  ∀ entries, content = .parses (.mapping entries) → readPinglist program m content = .mapping entries

section Reader
variable {program : Program} {m : Yaml}

/-- A value without `clear()` stays. -/
theorem readPinglist_stuck (hm : m.clear = none) (content : FileContent) : readPinglist program m content = m := by
  cases program with
  | webserver =>
    show Webserver.readPinglist m content = m
    cases content with
    | missing => rfl
    | unparseable => rfl
    | parses y => simp only [Webserver.readPinglist, hm]
  | plotter =>
    show HeatmapPlotter.readPinglist m content = m
    simp only [HeatmapPlotter.readPinglist, hm]

theorem readPinglist_parses {cleared : Yaml} (hm : m.clear = some cleared) (y : Yaml) :
    readPinglist program m (.parses y) = y := by
  cases program with
  | webserver =>
    show Webserver.readPinglist m (.parses y) = y
    simp only [Webserver.readPinglist, hm]
  | plotter =>
    show HeatmapPlotter.readPinglist m (.parses y) = y
    simp only [HeatmapPlotter.readPinglist, hm]

theorem clear_clear {cleared : Yaml} (hm : m.clear = some cleared) : cleared.clear = some cleared := by
  cases m with
  | scalar s => cases hm
  | sequence items =>
    cases hm
    rfl
  | mapping entries =>
    cases hm
    rfl

/-- Only a scalar that is read takes `clear()` away. -/
theorem clear_readPinglist {cleared : Yaml} (hm : m.clear = some cleared) (content : FileContent) :
    (readPinglist program m content).clear = none ↔ IsScalar content := by
  have hkept : ¬ m.clear = none := by
    rw [hm]
    exact Option.some_ne_none cleared
  have hcleared : ¬ cleared.clear = none := by
    rw [clear_clear hm]
    exact Option.some_ne_none cleared
  cases content with
  | missing =>
    cases program with
    | webserver => exact iff_of_false hkept id
    | plotter =>
      show (HeatmapPlotter.readPinglist m .missing).clear = none ↔ False
      simp only [HeatmapPlotter.readPinglist, hm]
      exact iff_of_false hcleared id
  | unparseable =>
    cases program with
    | webserver => exact iff_of_false hkept id
    | plotter =>
      show (HeatmapPlotter.readPinglist m .unparseable).clear = none ↔ False
      simp only [HeatmapPlotter.readPinglist, hm]
      exact iff_of_false hcleared id
  | parses y =>
    rw [readPinglist_parses hm]
    cases y with
    | scalar s => exact iff_of_true rfl trivial
    | sequence items => exact iff_of_false (Option.some_ne_none _) id
    | mapping entries => exact iff_of_false (Option.some_ne_none _) id

theorem recovers_of_clear {cleared : Yaml} (hm : m.clear = some cleared) (content : FileContent) :
    Recovers program m content := by
  rintro entries rfl
  exact readPinglist_parses hm _

theorem recovers_stuck_iff (hm : m.clear = none) {content : FileContent} :
    Recovers program m content ↔ ¬ IsMapping content := by
  constructor
  · intro hrecovers hmapping
    unfold IsMapping at hmapping
    split at hmapping
    · rename_i entries
      have hread := hrecovers entries rfl
      rw [readPinglist_stuck hm] at hread
      rw [hread] at hm
      cases hm
    · exact hmapping
  · rintro hnot entries rfl
    exact absurd trivial hnot

/-- Once the value is a scalar, no mapping may follow. -/
theorem along_stuck_iff (hm : m.clear = none) (contents : List FileContent) :
    Runs.Along (readPinglist program) (Recovers program) m contents ↔ ∀ content ∈ contents, ¬ IsMapping content := by
  induction contents with
  | nil => exact iff_of_true trivial fun content hc => nomatch hc
  | cons content contents ih =>
    rw [List.forall_mem_cons, Runs.Along, recovers_stuck_iff hm, readPinglist_stuck hm, ih]

theorem along_clear_iff {cleared : Yaml} (hm : m.clear = some cleared) (contents : List FileContent) :
    Runs.Along (readPinglist program) (Recovers program) m contents ↔
      contents.Pairwise fun a b => IsScalar a → ¬ IsMapping b := by
  induction contents generalizing m cleared with
  | nil => exact iff_of_true trivial List.Pairwise.nil
  | cons content contents ih =>
    rw [List.pairwise_cons, Runs.Along, and_iff_right (recovers_of_clear hm content)]
    by_cases hscalar : IsScalar content
    · rw [along_stuck_iff ((clear_readPinglist hm content).mpr hscalar)]
      constructor
      · intro hnone
        refine ⟨fun b hb _ => hnone b hb, ?_⟩
        exact List.pairwise_of_forall_mem_list fun a _ b hb _ => hnone b hb
      · exact fun hpair b hb => hpair.1 b hb hscalar
    · cases hnext : (readPinglist program m content).clear with
      | none => exact absurd ((clear_readPinglist hm content).mp hnext) hscalar
      | some cleared' =>
        rw [ih hnext]
        exact (and_iff_right fun b _ h => absurd h hscalar).symm

end Reader

/-- The memory follows every mapping exactly if none is read after a scalar. -/
theorem pinglist_recovers_iff (program : Program) (contents : List FileContent) :
    Runs.Along (readPinglist program) (Recovers program) start contents ↔
      contents.Pairwise fun a b => IsScalar a → ¬ IsMapping b :=
  along_clear_iff rfl contents

/-- Neither program comes back from one empty file. -/
theorem not_pinglist_recovers :
    (¬ ∀ contents, Runs.Along (readPinglist .webserver) (Recovers .webserver) start contents) ∧
      ¬ ∀ contents, Runs.Along (readPinglist .plotter) (Recovers .plotter) start contents := by
  constructor
  · intro hall
    have hafter := (hall [.parses (.scalar .null), .parses (.mapping [])]).2.1 [] rfl
    cases hafter
  · intro hall
    have hafter := (hall [.parses (.scalar .null), .parses (.mapping [])]).2.1 [] rfl
    cases hafter

end PinglistReader
end Pingweave
