import Mathlib.Data.Char
import Mathlib.Data.List.Lex
import Pingweave.DashboardShown
import Pingweave.Library.Dict

/-!
# The page of the dashboard

`index()` of `ctrl_webserver.py`: the files in `HTML_DIR` in tabs by protocol and group, each with the
text of its summary and the path of its image.
-/

namespace Pingweave.HeatmapPlotter
open Pattern
set_option autoImplicit false

/-- The protocol, the group and the measure that a file name is taken for. -/
def classify (fname : Text) : Text × Text × Text :=
  let name_only := replace htmlExt [] fname
  let tokens := name_only.splitOn '_'
  if tokens.length < 3 then ("others".toList, "others".toList, name_only)
  else
    let middle_tokens := (tokens.take (tokens.length - 2)).drop 1
    (tokens.headD [], if middle_tokens = [] then "no_group".toList else ['_'].intercalate middle_tokens,
      ['_'].intercalate (tokens.drop (tokens.length - 2)))

abbrev Grouped := Dict Text (Dict Text (List (Text × Text)))

/-- The files of a group, none if it is not there. -/
def filesAt (grouped_files : Grouped) (protocol group_name : Text) : List (Text × Text) :=
  (Dict.at2 grouped_files protocol group_name).getD []

def addFile (grouped_files : Grouped) (fname : Text) : Grouped :=
  let c := classify fname
  Dict.assign2 grouped_files c.1 c.2.1 (filesAt grouped_files c.1 c.2.1 ++ [(fname, c.2.2)])

/-- What the page has of a file. Without a summary it says that there is none. -/
structure Item (α : Type) where
  fname : Text
  measure : Text
  summary_text : Option α
  png_path : Text

namespace Board
variable {α : Type} (b : Board α)

def htmlFiles : List Text := b.html.names.filter fun fname => htmlExt.isSuffixOf fname

def groupedFiles : Grouped := b.htmlFiles.foldl addFile ∅

def item (f : Text × Text) : Item α where
  fname := f.1
  measure := f.2
  summary_text := b.summary.file? (replace htmlExt summaryExt f.1)
  png_path := replace htmlExt [] f.1 ++ pngExt

def sorted (keys : List Text) : List Text := keys.mergeSort fun s t => decide (s ≤ t)

/-- The tabs of the page. -/
def index : List (Text × List (Text × List (Item α))) :=
  (sorted b.groupedFiles.keys).map fun protocol =>
    let group_dict := (b.groupedFiles.lookup protocol).getD ∅
    (protocol, (sorted group_dict.keys).map fun group_name =>
      (group_name, (((group_dict.lookup group_name).getD []).mergeSort fun x y => decide (x.2 ≤ y.2)).map b.item))

/-- Everything on the page, with the tabs that it is in. -/
def displayed : List (Text × Text × Item α) :=
  b.index.flatMap fun tab => tab.2.flatMap fun pill => pill.2.map fun e => (tab.1, pill.1, e)

end Board

/-! ### Grouping -/

theorem filesAt_addFile (grouped_files : Grouped) (fname protocol group_name : Text) :
    filesAt (addFile grouped_files fname) protocol group_name = filesAt grouped_files protocol group_name ++
      if protocol = (classify fname).1 ∧ group_name = (classify fname).2.1 then [(fname, (classify fname).2.2)]
      else [] := by
  unfold filesAt addFile
  dsimp only
  rw [Dict.at2_assign2]
  split
  · rename_i h
    rw [Option.getD_some, h.1, h.2]
    rfl
  · rw [List.append_nil]

theorem filesAt_foldl (grouped_files : Grouped) (files : List Text) (protocol group_name : Text) :
    filesAt (files.foldl addFile grouped_files) protocol group_name = filesAt grouped_files protocol group_name ++
      (files.filter fun fname => protocol = (classify fname).1 ∧ group_name = (classify fname).2.1).map
        fun fname => (fname, (classify fname).2.2) := by
  induction files generalizing grouped_files with
  | nil => exact (List.append_nil _).symm
  | cons fname files ih =>
    rw [List.foldl_cons, ih, filesAt_addFile, List.append_assoc, List.filter_cons]
    by_cases h : protocol = (classify fname).1 ∧ group_name = (classify fname).2.1
    · rw [if_pos h, if_pos (decide_eq_true h)]
      rfl
    · rw [if_neg h, if_neg (by simpa using h)]
      rfl

namespace Board
variable {α : Type} (b : Board α)

theorem filesAt_groupedFiles (protocol group_name : Text) : filesAt b.groupedFiles protocol group_name =
    (b.htmlFiles.filter fun fname => protocol = (classify fname).1 ∧ group_name = (classify fname).2.1).map
      fun fname => (fname, (classify fname).2.2) :=
  filesAt_foldl ∅ b.htmlFiles protocol group_name

theorem filesAt_eq (grouped_files : Grouped) (protocol group_name : Text) :
    filesAt grouped_files protocol group_name =
      (((grouped_files.lookup protocol).getD ∅).lookup group_name).getD [] := by
  unfold filesAt Dict.at2
  cases grouped_files.lookup protocol with
  | none => rfl
  | some groups => rfl

theorem mem_displayed_iff_filesAt {protocol group_name : Text} {e : Item α} :
    (protocol, group_name, e) ∈ b.displayed ↔ ∃ f ∈ filesAt b.groupedFiles protocol group_name, e = b.item f := by
  constructor
  · intro h
    obtain ⟨tab, htab, h⟩ := List.mem_flatMap.mp h
    obtain ⟨protocol', -, rfl⟩ := List.mem_map.mp htab
    obtain ⟨pill, hpill, h⟩ := List.mem_flatMap.mp h
    obtain ⟨group', -, rfl⟩ := List.mem_map.mp hpill
    obtain ⟨e', he', heq⟩ := List.mem_map.mp h
    cases heq
    obtain ⟨f, hf, rfl⟩ := List.mem_map.mp he'
    refine ⟨f, ?_, rfl⟩
    rw [filesAt_eq]
    exact List.mem_mergeSort.mp hf
  · rintro ⟨f, hf, rfl⟩
    rw [filesAt_eq] at hf
    have hgroup : group_name ∈ ((b.groupedFiles.lookup protocol).getD ∅).keys := by
      refine AList.mem_keys.mp (AList.lookup_isSome.mp ?_)
      cases hlookup : ((b.groupedFiles.lookup protocol).getD ∅).lookup group_name with
      | none =>
        rw [hlookup] at hf
        cases hf
      | some files => rfl
    have hprotocol : protocol ∈ b.groupedFiles.keys := by
      refine AList.mem_keys.mp (AList.lookup_isSome.mp ?_)
      cases hlookup : b.groupedFiles.lookup protocol with
      | none =>
        rw [hlookup] at hgroup
        cases hgroup
      | some groups => rfl
    refine List.mem_flatMap.mpr ⟨_, List.mem_map.mpr ⟨protocol, List.mem_mergeSort.mpr hprotocol, rfl⟩, ?_⟩
    refine List.mem_flatMap.mpr ⟨_, List.mem_map.mpr ⟨group_name, List.mem_mergeSort.mpr hgroup, rfl⟩, ?_⟩
    exact List.mem_map.mpr ⟨_, List.mem_map.mpr ⟨f, List.mem_mergeSort.mpr hf, rfl⟩, rfl⟩

theorem mem_displayed {protocol group_name : Text} {e : Item α} : (protocol, group_name, e) ∈ b.displayed ↔
    ∃ fname ∈ b.htmlFiles, ∃ measure, classify fname = (protocol, group_name, measure) ∧ e = b.item (fname, measure) := by
  rw [mem_displayed_iff_filesAt, filesAt_groupedFiles]
  constructor
  · rintro ⟨f, hf, rfl⟩
    obtain ⟨fname, hfname, rfl⟩ := List.mem_map.mp hf
    obtain ⟨hmem, hclass⟩ := List.mem_filter.mp hfname
    obtain ⟨hprotocol, hgroup⟩ := of_decide_eq_true hclass
    exact ⟨fname, hmem, (classify fname).2.2, by rw [hprotocol, hgroup], rfl⟩
  · rintro ⟨fname, hmem, measure, hclass, rfl⟩
    refine ⟨(fname, measure), List.mem_map.mpr ⟨fname, List.mem_filter.mpr ⟨hmem, ?_⟩, ?_⟩, rfl⟩
    · rw [hclass]
      exact decide_eq_true ⟨rfl, rfl⟩
    · rw [hclass]

/-- A file is on the page once. -/
theorem nodup_displayed (h : b.html.names.Nodup) : b.displayed.Nodup := by
  have hsorted : ∀ keys : List Text, keys.Nodup → (sorted keys).Nodup := fun keys hkeys =>
    (List.mergeSort_perm keys _).nodup_iff.mpr hkeys
  unfold displayed index
  rw [List.flatMap_map, List.nodup_flatMap]
  constructor
  · intro protocol _
    dsimp only
    rw [List.flatMap_map, List.nodup_flatMap]
    constructor
    · intro group_name _
      dsimp only
      rw [List.map_map, ← filesAt_eq, filesAt_groupedFiles]
      refine List.Nodup.map_on ?_ ((List.mergeSort_perm _ _).nodup_iff.mpr ?_)
      · intro f _ f' _ heq
        simp only [Function.comp, item, Prod.mk.injEq, Item.mk.injEq, true_and] at heq
        exact Prod.ext heq.1 heq.2.1
      · refine List.Nodup.map_on ?_ ((h.filter _).filter _)
        intro fname _ fname' _ heq
        exact congrArg Prod.fst heq
    · refine List.Pairwise.imp ?_ (hsorted _ (AList.keys_nodup _))
      intro group_name group_name' hne x hx hx'
      obtain ⟨e, -, rfl⟩ := List.mem_map.mp hx
      obtain ⟨e', -, heq⟩ := List.mem_map.mp hx'
      exact hne (congrArg (fun x => x.2.1) heq).symm
  · refine List.Pairwise.imp ?_ (hsorted _ (AList.keys_nodup _))
    intro protocol protocol' hne x hx hx'
    obtain ⟨pill, -, hx⟩ := List.mem_flatMap.mp hx
    obtain ⟨e, -, rfl⟩ := List.mem_map.mp hx
    obtain ⟨pill', -, hx'⟩ := List.mem_flatMap.mp hx'
    obtain ⟨e', -, heq⟩ := List.mem_map.mp hx'
    exact hne (congrArg Prod.fst heq).symm

end Board

/-! ### What is on the page -/

theorem classify_plotName {protocol group metric : Text} (hprotocol : protocol ∈ pinglist_protocol)
    (hplain : Plain (plotName protocol group metric)) (hmetric : metric ∈ metrics) :
    classify (plotName protocol group metric ++ htmlExt) = (protocol, group, metric) := by
  obtain ⟨m₁, m₂, hm, hsplit⟩ := plotName_splitOn group hprotocol hmetric
  have hext : htmlExt ∈ [htmlExt, pngExt, summaryExt] := List.mem_cons_self
  have hname := replace_ext hext hplain []
  rw [List.append_nil] at hname
  obtain ⟨g, groups, hg⟩ := List.exists_cons_of_ne_nil (List.splitOn_ne_nil '_' group)
  have hgroup : ['_'].intercalate (group.splitOn '_') = group := List.intercalate_splitOn '_'
  rw [hg] at hgroup
  have hlength : (protocol :: (g :: groups ++ [m₁, m₂])).length - 2 = (protocol :: g :: groups).length := by
    simp
  unfold classify
  dsimp only
  rw [hname, hsplit, hg, if_neg (by simp), hlength, ← List.cons_append, List.take_left, List.drop_left]
  rw [List.cons_append, List.headD_cons, List.drop_succ_cons, List.drop_zero, if_neg (List.cons_ne_nil g groups), hgroup, List.intercalate_cons_cons, List.intercalate_singleton, hm,
    List.append_assoc, List.singleton_append]

namespace Board
variable {α : Type} {b : Board α}

/-- Every plot of the last round is on the page under its protocol, its group and its metric, with its
own summary and image, and nothing else is. -/
structure Displayed (b : Board α) : Prop where
  shown : b.Shown
  nodup : b.displayed.Nodup
  item : ∀ protocol group_name (e : Item α), (protocol, group_name, e) ∈ b.displayed ↔
    protocol ∈ pinglist_protocol ∧ e.measure ∈ metrics ∧ ∃ p ∈ b.plots,
      p.name = plotName protocol group_name e.measure ∧ e.fname = p.name ++ htmlExt ∧
      e.summary_text = some p.summary ∧ e.png_path = p.name ++ pngExt

theorem Shown.mem_htmlFiles (h : b.Shown) {fname : Text} : fname ∈ b.htmlFiles ↔
    ∃ p ∈ b.plots, fname = p.name ++ htmlExt := by
  unfold htmlFiles
  rw [List.mem_filter, Listing.mem_names h.html.flat]
  constructor
  · rintro ⟨⟨c, hc⟩, -⟩
    obtain ⟨p, hp, heq⟩ := List.mem_map.mp ((h.html.file fname c).mp hc)
    exact ⟨p, hp, (congrArg Prod.fst heq).symm⟩
  · rintro ⟨p, hp, rfl⟩
    refine ⟨⟨p.html, (h.html.file _ _).mpr (List.mem_map_of_mem hp)⟩, ?_⟩
    exact List.isSuffixOf_iff_suffix.mpr (List.suffix_append p.name htmlExt)

theorem Shown.item_eq (h : b.Shown) {p : Plot α} (hp : p ∈ b.plots) (hplain : Plain p.name) (measure : Text) :
    b.item (p.name ++ htmlExt, measure) = ⟨p.name ++ htmlExt, measure, some p.summary, p.name ++ pngExt⟩ := by
  have hext : htmlExt ∈ [htmlExt, pngExt, summaryExt] := List.mem_cons_self
  have hsummary : b.summary.file? (p.name ++ summaryExt) = some p.summary :=
    (h.summary.file _ _).mpr (List.mem_map_of_mem hp)
  unfold item
  rw [replace_ext hext hplain, replace_ext hext hplain, hsummary, List.append_nil]

theorem Inv.displayed (h : b.Inv) (hshown : b.Shown) : b.Displayed := by
  refine ⟨hshown, b.nodup_displayed hshown.html.nodup, ?_⟩
  intro protocol group_name e
  rw [mem_displayed]
  constructor
  · rintro ⟨fname, hfname, measure, hclass, rfl⟩
    obtain ⟨p, hp, rfl⟩ := hshown.mem_htmlFiles.mp hfname
    obtain ⟨⟨hplain, protocol', hprotocol', group', metric, hmetric, hname⟩, -⟩ := h.plot hp
    rw [hname, classify_plotName hprotocol' (hname ▸ hplain) hmetric] at hclass
    cases hclass
    rw [hshown.item_eq hp hplain]
    exact ⟨hprotocol', hmetric, p, hp, hname, rfl, rfl, rfl⟩
  · rintro ⟨hprotocol, hmetric, p, hp, hname, hfname, hsummary, hpng⟩
    have hplain := (h.plot hp).1.1
    refine ⟨p.name ++ htmlExt, hshown.mem_htmlFiles.mpr ⟨p, hp, rfl⟩, e.measure, ?_, ?_⟩
    · rw [hname]
      exact classify_plotName hprotocol (hname ▸ hplain) hmetric
    · rw [hshown.item_eq hp hplain]
      obtain ⟨fname, measure, summary_text, png_path⟩ := e
      dsimp only at hfname hsummary hpng ⊢
      rw [hfname, hsummary, hpng]

/-- The directories as the plotter finds them when it is started. -/
def start (html image summary : Listing α) : Board α := ⟨html, image, summary, [], [], 0, true, false⟩

end Board
end Pingweave.HeatmapPlotter
