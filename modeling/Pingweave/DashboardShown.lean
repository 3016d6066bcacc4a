import Pingweave.Dashboard

/-!
# What the directories hold between two rounds

The three files of every plot that was drawn in the last round, and nothing else.
-/

namespace Pingweave.HeatmapPlotter
open Pattern
set_option autoImplicit false

variable {α : Type}

/-- The directory holds these files and nothing else. -/
structure Exactly (l : Listing α) (files : List (Text × α)) : Prop where
  flat : l.Flat
  nodup : l.names.Nodup
  file : ∀ name c, l.file? name = some c ↔ (name, c) ∈ files

section Store
variable {w : Write α} {name : Text} {l : Listing α}

theorem store_cases (w : Write α) (name : Text) (l : Listing α) :
    (store w name l).1 = l ∧ (store w name l).2 = none ∨
      ∃ c, l.put name c = some (store w name l).1 ∧
        ((store w name l).2 = none ∨ (store w name l).2 = some c) := by
  have hput : ∀ c l', openWrite name c l = some l' → l.put name c = some l' := by
    intro c l' h
    unfold openWrite at h
    split at h
    · cases h
    · exact h
  unfold store
  split
  · exact .inl ⟨rfl, rfl⟩
  · rename_i c
    cases hopen : openWrite name c l with
    | none => exact .inl ⟨rfl, rfl⟩
    | some l' => exact .inr ⟨c, hput c l' hopen, .inl rfl⟩
  · rename_i c
    cases hopen : openWrite name c l with
    | none => exact .inl ⟨rfl, rfl⟩
    | some l' => exact .inr ⟨c, hput c l' hopen, .inr rfl⟩

theorem file?_store_of_ne {n : Text} (hne : name ≠ n) : (store w name l).1.file? n = l.file? n := by
  rcases store_cases w name l with ⟨heq, -⟩ | ⟨c, hput, -⟩
  · rw [heq]
  · rw [Listing.file?_put hput, if_neg hne]

theorem file?_store_of_some {c : α} (h : (store w name l).2 = some c) : (store w name l).1.file? name = some c := by
  rcases store_cases w name l with ⟨-, hnone⟩ | ⟨c', hput, hc⟩
  · rw [hnone] at h
    cases h
  · rw [Listing.file?_put hput, if_pos rfl]
    rcases hc with hc | hc
    · rw [hc] at h
      cases h
    · rw [← hc]
      exact h

theorem tidy_store {ext p : Text} (hext : ext ∈ [htmlExt, pngExt, summaryExt]) (hp : Plain p)
    (htidy : l.Tidy PlotName ext) : (store w (p ++ ext) l).1.Tidy PlotName ext := by
  rcases store_cases w (p ++ ext) l with ⟨heq, -⟩ | ⟨c, hput, -⟩
  · rw [heq]
    exact htidy
  · refine Listing.tidy_put hput ?_ htidy
    intro _
    rw [cut_ext hext hp]

end Store

/-- A directory with these files is cleared of all else. -/
theorem exactly_clear {file_format : Text} (hext : '.' :: file_format ∈ [htmlExt, pngExt, summaryExt])
    {l : Listing α} (htidy : l.Tidy PlotName ('.' :: file_format)) (files : List (Text × α))
    (hnamed : ∀ f ∈ files, Plain f.1 ∧ PlotName f.1)
    (hfile : ∀ f ∈ files, l.file? (f.1 ++ '.' :: file_format) = some f.2) :
    Exactly (l.clearDirectoryConditional (files.map Prod.fst) file_format)
      (files.map fun f => (f.1 ++ '.' :: file_format, f.2)) := by
  have hexcept : ∀ name ∈ files.map Prod.fst, PlotName name := by
    intro name hname
    obtain ⟨f, hf, rfl⟩ := List.mem_map.mp hname
    exact (hnamed f hf).2
  refine ⟨Listing.flat_clear htidy hexcept, Listing.nodup_of_tidy (Listing.tidy_clear htidy hexcept), ?_⟩
  intro name c
  rw [Listing.file?_clear htidy hexcept]
  constructor
  · intro h
    split at h
    · rename_i hmem
      obtain ⟨f, hf, hcut⟩ := List.mem_map.mp hmem
      have hname := Listing.name_of_tidy htidy h (hexcept _ hmem)
      rw [← hcut] at hname
      rw [hname, hfile f hf] at h
      refine List.mem_map.mpr ⟨f, hf, ?_⟩
      rw [hname, Option.some.inj h]
    · cases h
  · intro h
    obtain ⟨f, hf, heq⟩ := List.mem_map.mp h
    cases heq
    rw [cut_ext hext (hnamed f hf).1, if_pos (List.mem_map_of_mem hf)]
    exact hfile f hf

namespace Board

/-- The files of the task are there as far as it got. -/
def Drawn (b : Board α) (t : Task α) : Prop :=
  match t.progress with
  | .html html => b.html.file? (t.name ++ htmlExt) = some html
  | .image html image =>
    b.html.file? (t.name ++ htmlExt) = some html ∧ b.image.file? (t.name ++ pngExt) = some image
  | .done html image summary =>
    b.html.file? (t.name ++ htmlExt) = some html ∧ b.image.file? (t.name ++ pngExt) = some image ∧
      b.summary.file? (t.name ++ summaryExt) = some summary
  | _ => True

/-- The directories hold the files of the plots. -/
structure Shown (b : Board α) : Prop where
  html : Exactly b.html (b.plots.map fun p => (p.name ++ htmlExt, p.html))
  image : Exactly b.image (b.plots.map fun p => (p.name ++ pngExt, p.image))
  summary : Exactly b.summary (b.plots.map fun p => (p.name ++ summaryExt, p.summary))

structure Inv (b : Board α) : Prop where
  html : b.html.Tidy PlotName htmlExt
  image : b.image.Tidy PlotName pngExt
  summary : b.summary.Tidy PlotName summaryExt
  named : ∀ t ∈ b.tasks, Plain t.name ∧ PlotName t.name
  nodup : (b.tasks.map Task.name).Nodup
  drawn : ∀ t ∈ b.tasks, b.Drawn t
  listed : b.plotting = false → b.new_file_list = b.plots.map Plot.name
  finished : b.plotting = false → ∀ t ∈ b.tasks, t.finished = true

section Plots
variable {b : Board α}

theorem mem_plots {p : Plot α} : p ∈ b.plots ↔ ⟨p.name, .done p.html p.image p.summary⟩ ∈ b.tasks := by
  unfold plots
  rw [List.mem_filterMap]
  constructor
  · rintro ⟨⟨name, progress⟩, ht, hp⟩
    cases progress with
    | done html image summary =>
      cases hp
      exact ht
    | waiting => cases hp
    | html html => cases hp
    | image html image => cases hp
    | failed => cases hp
  · intro h
    exact ⟨_, h, rfl⟩

theorem Inv.plot (h : b.Inv) {p : Plot α} (hp : p ∈ b.plots) :
    (Plain p.name ∧ PlotName p.name) ∧ b.html.file? (p.name ++ htmlExt) = some p.html ∧
      b.image.file? (p.name ++ pngExt) = some p.image ∧ b.summary.file? (p.name ++ summaryExt) = some p.summary :=
  ⟨h.named _ (mem_plots.mp hp), h.drawn _ (mem_plots.mp hp)⟩

theorem Inv.clear_shown (h : b.Inv) (hidle : b.plotting = false) : b.clear.Shown := by
  have hdir : ∀ (l : Listing α) (file_format : Text) (content : Plot α → α),
      '.' :: file_format ∈ [htmlExt, pngExt, summaryExt] → l.Tidy PlotName ('.' :: file_format) →
      (∀ p ∈ b.plots, l.file? (p.name ++ '.' :: file_format) = some (content p)) →
      Exactly (l.clearDirectoryConditional b.new_file_list file_format)
        (b.plots.map fun p => (p.name ++ '.' :: file_format, content p)) := by
    intro l file_format content hext htidy hfile
    have hfiles := exactly_clear hext htidy (b.plots.map fun p => (p.name, content p)) ?_ ?_
    · rw [List.map_map, List.map_map] at hfiles
      rw [h.listed hidle]
      exact hfiles
    · intro f hf
      obtain ⟨p, hp, rfl⟩ := List.mem_map.mp hf
      exact (h.plot hp).1
    · intro f hf
      obtain ⟨p, hp, rfl⟩ := List.mem_map.mp hf
      exact hfile p hp
  constructor
  · exact hdir b.html "html".toList Plot.html (by decide) h.html fun p hp => (h.plot hp).2.1
  · exact hdir b.image "png".toList Plot.image (by decide) h.image fun p hp => (h.plot hp).2.2.1
  · exact hdir b.summary "summary".toList Plot.summary (by decide) h.summary fun p hp => (h.plot hp).2.2.2

theorem Inv.listed_named (h : b.Inv) (hidle : b.plotting = false) : ∀ name ∈ b.new_file_list, PlotName name := by
  intro name hname
  rw [h.listed hidle] at hname
  obtain ⟨p, hp, rfl⟩ := List.mem_map.mp hname
  exact (h.plot hp).1.2

theorem Shown.drawn (h : b.Shown) {t : Task α} (ht : t ∈ b.tasks) (hfinished : t.finished = true) : b.Drawn t := by
  obtain ⟨name, progress⟩ := t
  cases progress with
  | done html image summary =>
    have hp : (⟨name, html, image, summary⟩ : Plot α) ∈ b.plots := mem_plots.mpr ht
    refine ⟨?_, ?_, ?_⟩
    · exact (h.html.file _ _).mpr (List.mem_map.mpr ⟨_, hp, rfl⟩)
    · exact (h.image.file _ _).mpr (List.mem_map.mpr ⟨_, hp, rfl⟩)
    · exact (h.summary.file _ _).mpr (List.mem_map.mpr ⟨_, hp, rfl⟩)
  | failed => trivial
  | waiting => cases hfinished
  | html html => cases hfinished
  | image html image => cases hfinished

theorem Inv.clear (h : b.Inv) (hidle : b.plotting = false) : b.clear.Inv := by
  have hexcept := h.listed_named hidle
  refine ⟨?_, ?_, ?_, h.named, h.nodup, ?_, h.listed, h.finished⟩
  · exact Listing.tidy_clear h.html hexcept
  · exact Listing.tidy_clear h.image hexcept
  · exact Listing.tidy_clear h.summary hexcept
  · intro t ht
    exact (h.clear_shown hidle).drawn ht (h.finished hidle t ht)

end Plots

section Write
variable {b b' : Board α}

theorem Drawn.congr {t : Task α} (h : b.Drawn t) (hhtml : b'.html.file? (t.name ++ htmlExt) = b.html.file? (t.name ++ htmlExt))
    (himage : b'.image.file? (t.name ++ pngExt) = b.image.file? (t.name ++ pngExt))
    (hsummary : b'.summary.file? (t.name ++ summaryExt) = b.summary.file? (t.name ++ summaryExt)) : b'.Drawn t := by
  unfold Drawn at h ⊢
  rw [hhtml, himage, hsummary]
  exact h

theorem map_name_set {l : List (Task α)} {n : Nat} {t t' : Task α} (ht : l[n]? = some t) (hname : t'.name = t.name) :
    (l.set n t').map Task.name = l.map Task.name := by
  apply List.ext_getElem?
  intro m
  rw [List.getElem?_map, List.getElem?_map, List.getElem?_set]
  by_cases hm : n = m
  · subst hm
    rw [if_pos rfl, if_pos (List.getElem?_eq_some_iff.mp ht).1, ht, Option.map_some, Option.map_some, hname]
  · rw [if_neg hm]

theorem mem_set {l : List (Task α)} (hnodup : (l.map Task.name).Nodup) {n : Nat} {t t' u : Task α}
    (ht : l[n]? = some t) (hu : u ∈ l.set n t') : u = t' ∨ u ∈ l ∧ u.name ≠ t.name := by
  obtain ⟨m, hm⟩ := List.mem_iff_getElem?.mp hu
  rw [List.getElem?_set] at hm
  by_cases hnm : n = m
  · left
    rw [if_pos hnm, if_pos (List.getElem?_eq_some_iff.mp ht).1] at hm
    exact (Option.some.inj hm).symm
  · right
    rw [if_neg hnm] at hm
    refine ⟨List.mem_of_getElem? hm, ?_⟩
    intro hname
    have hlt : n < (l.map Task.name).length := by
      rw [List.length_map]
      exact (List.getElem?_eq_some_iff.mp ht).1
    refine hnm ((List.getElem?_inj hlt hnodup).mp ?_)
    rw [List.getElem?_map, List.getElem?_map, ht, hm, Option.map_some, Option.map_some, hname]

/-- The files of other names are as they were. -/
structure Apart (b b' : Board α) (name : Text) : Prop where
  html : ∀ n, n ≠ name ++ htmlExt → b'.html.file? n = b.html.file? n
  image : ∀ n, n ≠ name ++ pngExt → b'.image.file? n = b.image.file? n
  summary : ∀ n, n ≠ name ++ summaryExt → b'.summary.file? n = b.summary.file? n

/-- One task has gone on. -/
theorem Inv.advance (h : b.Inv) {n : Nat} {t t' : Task α} (ht : b.tasks[n]? = some t)
    (htasks : b'.tasks = b.tasks.set n t') (hname : t'.name = t.name) (hplotting : b'.plotting = true)
    (hhtml : b'.html.Tidy PlotName htmlExt) (himage : b'.image.Tidy PlotName pngExt)
    (hsummary : b'.summary.Tidy PlotName summaryExt) (hapart : Apart b b' t.name) (hdrawn : b'.Drawn t') : b'.Inv := by
  refine ⟨hhtml, himage, hsummary, ?_, ?_, ?_, ?_, ?_⟩
  · intro u hu
    rw [htasks] at hu
    rcases mem_set h.nodup ht hu with rfl | ⟨hu, -⟩
    · rw [hname]
      exact h.named t (List.mem_of_getElem? ht)
    · exact h.named u hu
  · rw [htasks, map_name_set ht hname]
    exact h.nodup
  · intro u hu
    rw [htasks] at hu
    rcases mem_set h.nodup ht hu with rfl | ⟨hu, hne⟩
    · exact hdrawn
    · have hfile : ∀ ext, u.name ++ ext ≠ t.name ++ ext := fun ext heq => hne (List.append_cancel_right heq)
      exact (h.drawn u hu).congr (hapart.html _ (hfile htmlExt)) (hapart.image _ (hfile pngExt))
        (hapart.summary _ (hfile summaryExt))
  · intro hidle
    rw [hplotting] at hidle
    cases hidle
  · intro hidle
    rw [hplotting] at hidle
    cases hidle

theorem Inv.plotting_of_busy (h : b.Inv) {t : Task α} (ht : t ∈ b.tasks) (hbusy : t.finished = false) :
    b.plotting = true := by
  cases hplotting : b.plotting with
  | true => rfl
  | false =>
    rw [h.finished hplotting t ht] at hbusy
    cases hbusy

theorem Inv.write (h : b.Inv) {n : Nat} {t : Task α} (ht : b.tasks[n]? = some t) (w : Write α) : (b.write n t w).Inv := by
  have hmem := List.mem_of_getElem? ht
  have hplain := (h.named t hmem).1
  have hdrawn := h.drawn t hmem
  have hbusy := h.plotting_of_busy hmem
  obtain ⟨name, progress⟩ := t
  cases progress with
  | waiting =>
    refine h.advance ht rfl rfl (hbusy rfl) (tidy_store (by decide) hplain h.html) h.image h.summary
      ⟨fun n hn => file?_store_of_ne hn.symm, fun _ _ => rfl, fun _ _ => rfl⟩ ?_
    cases hstore : (store w (name ++ htmlExt) b.html).2 with
    | none => trivial
    | some c => exact file?_store_of_some hstore
  | html html =>
    refine h.advance ht rfl rfl (hbusy rfl) h.html (tidy_store (by decide) hplain h.image) h.summary
      ⟨fun _ _ => rfl, fun n hn => file?_store_of_ne hn.symm, fun _ _ => rfl⟩ ?_
    cases hstore : (store w (name ++ pngExt) b.image).2 with
    | none => trivial
    | some c => exact ⟨hdrawn, file?_store_of_some hstore⟩
  | image html image =>
    refine h.advance ht rfl rfl (hbusy rfl) h.html h.image (tidy_store (by decide) hplain h.summary)
      ⟨fun _ _ => rfl, fun _ _ => rfl, fun n hn => file?_store_of_ne hn.symm⟩ ?_
    cases hstore : (store w (name ++ summaryExt) b.summary).2 with
    | none => trivial
    | some c => exact ⟨hdrawn.1, hdrawn.2, file?_store_of_some hstore⟩
  | done html image summary => exact h
  | failed => exact h

end Write

section Step
variable {Group : Type} {str : Group → Text} {b : Board α}

theorem Inv.submit [DecidableEq Group] (h : b.Inv) {t : Tables Group} (ht : WellNamed str t) :
    (b.step str (.submit t : Action Group α)).Inv := by
  unfold step
  dsimp only
  split
  · exact h
  have hname : ∀ names : List Text, (names.map fun name => (⟨name, .waiting⟩ : Task α)).map Task.name = names := by
    intro names
    rw [List.map_map]
    exact List.map_id names
  refine ⟨h.html, h.image, h.summary, ?_, ?_, ?_, ?_, ?_⟩
  · intro u hu
    obtain ⟨name, hmem, rfl⟩ := List.mem_map.mp hu
    exact ht.named hmem
  · dsimp only
    rw [hname]
    exact ht.nodup
  · intro u hu
    obtain ⟨name, hmem, rfl⟩ := List.mem_map.mp hu
    trivial
  · intro hidle
    cases hidle
  · intro hidle
    cases hidle

theorem Inv.restart (h : b.Inv) : (b.step str (.restart : Action Group α)).Inv :=
  ⟨h.html, h.image, h.summary, nofun, List.nodup_nil, nofun, fun _ => rfl, nofun⟩

theorem Inv.collect (h : b.Inv) (hall : b.tasks.all Task.finished = true) : b.collect.Inv ∧ b.collect.Shown := by
  have hmem : ∀ t ∈ b.tasks.take b.collected, t ∈ b.tasks := fun t ht => List.mem_of_mem_take ht
  have htaken : Inv { b with
      new_file_list := ((b.tasks.take b.collected).filterMap Task.result).map Plot.name
      tasks := b.tasks.take b.collected
      plotting := false } := by
    refine ⟨h.html, h.image, h.summary, fun t ht => h.named t (hmem t ht), ?_, fun t ht => h.drawn t (hmem t ht),
      fun _ => rfl, fun _ t ht => List.all_eq_true.mp hall t (hmem t ht)⟩
    dsimp only
    rw [List.map_take]
    exact h.nodup.sublist (List.take_sublist _ _)
  unfold Board.collect
  dsimp only
  split
  · have hcleared := htaken.clear rfl
    exact ⟨hcleared.clear rfl, hcleared.clear_shown rfl⟩
  · exact ⟨htaken.clear rfl, htaken.clear_shown rfl⟩

/-- The records that are plotted have groups with proper names. -/
def Proper [DecidableEq Group] (str : Group → Text) : Action Group α → Prop
  | .submit t => WellNamed str t
  | _ => True

theorem Inv.step [DecidableEq Group] (h : b.Inv) {a : Action Group α} (ha : Proper str a) : (b.step str a).Inv := by
  cases a with
  | rest =>
    unfold Board.step
    dsimp only
    split
    · exact h
    · rename_i hidle
      exact h.clear (eq_false_of_ne_true hidle)
  | submit t => exact h.submit ha
  | work n w =>
    unfold Board.step
    dsimp only
    split
    · rename_i t ht
      exact h.write ht w
    · exact h
  | collect =>
    unfold Board.step
    dsimp only
    split
    · rename_i hdone
      exact (h.collect hdone.2).1
    · exact h
  | restart => exact h.restart

end Step
end Board
end Pingweave.HeatmapPlotter
