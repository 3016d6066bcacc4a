import Pingweave.Library.Runs
import Pingweave.PlotDirectory
import Pingweave.PlotNames

/-!
# The rounds of the plotter

`pingweave_heatmap_plotter()` with the three files that `plot_heatmap_value` writes for each plot. The
plots of a round run at the same time, so their writes come in any order; each of them may fail at any
point. Whatever an iteration of the loop did, its `finally` clears the directories of all but
`new_file_list`, and the plotter may be started anew at any time.
-/

namespace Pingweave.HeatmapPlotter
open Pattern
set_option autoImplicit false

variable {α : Type}

/-- The files that are written, with what they hold. -/
inductive Progress (α : Type) where
  | waiting
  | html (html : α)
  | image (html image : α)
  | done (html image summary : α)
  | failed

structure Task (α : Type) where
  name : Text
  progress : Progress α

/-- A plot of which all three files are there. -/
structure Plot (α : Type) where
  name : Text
  html : α
  image : α
  summary : α

structure Board (α : Type) where
  html : Listing α
  image : Listing α
  summary : Listing α
  new_file_list : List Text
  tasks : List (Task α)
  /-- How many of the tasks belong to futures in front of the first one that raises. -/
  collected : Nat
  /-- Whether all the futures return. -/
  returned : Bool
  plotting : Bool

/-- What becomes of the writing of a file: all of it, or an exception that may leave a part behind. -/
abbrev Write (α : Type) := Except (Option α) α

/-- A name with a slash is one in a directory that is not there. -/
def openWrite (name : Text) (c : α) (l : Listing α) : Option (Listing α) :=
  if '/' ∈ name then none else l.put name c

def store (w : Write α) (name : Text) (l : Listing α) : Listing α × Option α :=
  match w with
  | .error none => (l, none)
  | .error (some c) => ((openWrite name c l).getD l, none)
  | .ok c =>
    match openWrite name c l with
    | none => (l, none)
    | some l' => (l', some c)

namespace Task

def finished (t : Task α) : Bool :=
  match t.progress with
  | .done _ _ _ => true
  | .failed => true
  | _ => false

/-- `plot_name if html_file else None` -/
def result (t : Task α) : Option (Plot α) :=
  match t.progress with
  | .done html image summary => some ⟨t.name, html, image, summary⟩
  | _ => none

end Task

namespace Board

section Steps
variable {Group : Type} (str : Group → Text)

inductive Action (Group α : Type) where
  /-- An iteration that plots nothing: it is not yet time, there is no mesh, or reading the entries
  raised. -/
  | rest
  /-- Step 4 with these records. -/
  | submit (t : Tables Group)
  /-- The next file of a plot. -/
  | work (n : Nat) (w : Write α)
  /-- The end of step 4, when every plot has ended, and step 5. -/
  | collect
  | restart

def clear (b : Board α) : Board α :=
  { b with
    html := b.html.clearDirectoryConditional b.new_file_list "html".toList
    image := b.image.clearDirectoryConditional b.new_file_list "png".toList
    summary := b.summary.clearDirectoryConditional b.new_file_list "summary".toList }

/-- The next step of `plot_heatmap_value`. -/
def write (b : Board α) (n : Nat) (t : Task α) (w : Write α) : Board α :=
  match t.progress with
  | .waiting =>
    let s := store w (t.name ++ htmlExt) b.html
    { b with
      html := s.1
      tasks := b.tasks.set n { t with progress := s.2.elim .failed .html } }
  | .html html =>
    let s := store w (t.name ++ pngExt) b.image
    { b with
      image := s.1
      tasks := b.tasks.set n { t with progress := s.2.elim .failed (.image html) } }
  | .image html image =>
    let s := store w (t.name ++ summaryExt) b.summary
    { b with
      summary := s.1
      tasks := b.tasks.set n { t with progress := s.2.elim .failed (.done html image) } }
  | _ => b

/-- The plots that the dashboard is to show. -/
def plots (b : Board α) : List (Plot α) := b.tasks.filterMap Task.result

/-- The loop over the futures extends `new_file_list` until one of them raises; then step 5 is left
out. -/
def collect (b : Board α) : Board α :=
  let b' := { b with
    new_file_list := ((b.tasks.take b.collected).filterMap Task.result).map Plot.name
    tasks := b.tasks.take b.collected
    plotting := false }
  if b.returned then b'.clear.clear else b'.clear

def step (b : Board α) : Action Group α → Board α
  | .rest => if b.plotting then b else b.clear
  | .submit t =>
    if b.plotting then b
    else
      { b with
        new_file_list := []
        tasks := ((futures str t).flatMap (·.getD [])).map fun name => ⟨name, .waiting⟩
        collected := (((futures str t).takeWhile Option.isSome).flatMap (·.getD [])).length
        returned := (futures str t).all Option.isSome
        plotting := true }
  | .work n w =>
    match b.tasks[n]? with
    | some t => b.write n t w
    | none => b
  | .collect => if b.plotting = true ∧ b.tasks.all Task.finished = true then b.collect else b
  | .restart =>
    { b with
      new_file_list := []
      tasks := []
      plotting := false }

abbrev run (b : Board α) (as : List (Action Group α)) : Board α := Runs.run (step str) b as

end Steps
end Board
end Pingweave.HeatmapPlotter
