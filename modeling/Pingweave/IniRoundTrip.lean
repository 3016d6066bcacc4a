import Mathlib.Logic.Function.Basic
import Pingweave.IniParser
import Pingweave.Library.Dict
import Pingweave.Library.Lines

/-!
# Writing and loading pingweave.ini

`load` of `IniParser`, and what it makes of a file that lists sections with their keys and
values. Such a file may be decorated with blank lines, comments and blanks at the ends of its
lines.
-/

namespace Pingweave
set_option autoImplicit false

open Lines

namespace IniParser

/-- The characters that `trim` takes away. -/
def whitespace : Text := [' ', '\t', '\n', '\r', '\x0c', '\x0b']

def isWhitespace (c : Char) : Bool := whitespace.contains c

def trim (str : Text) : Text := Lines.trim isWhitespace str

/-- The characters that start a comment. -/
def isCommentMark (c : Char) : Bool := c = ';' || c = '#'

/-- The loop of `load`: the current section, and `config_`. -/
structure Loading where
  sect : Text
  config_ : Text → Text → Option Text

/-- The value without a comment after it. -/
def dropComment (value : Text) : Text :=
  if value.any isCommentMark then trim (value.takeWhile fun c => !isCommentMark c) else value

namespace Loading

/-- `config_[section][key] = value`. -/
def assign (s : Loading) (key value : Text) : Loading :=
  { s with config_ := Function.update s.config_ s.sect (Function.update (s.config_ s.sect) key (some value)) }

/-- The body of the loop for a line that is neither empty nor a comment. -/
def loadContent (s : Loading) (line : Text) : Loading :=
  if line.head? = some '[' ∧ line.getLast? = some ']' then
    { s with sect := (line.drop 1).take (line.length - 2) }
  else if '=' ∉ line then s
  else
    let key := trim (line.takeWhile fun c => c ≠ '=')
    let value := trim ((line.dropWhile fun c => c ≠ '=').drop 1)
    s.assign key (dropComment value)

def loadLine (s : Loading) (line : Text) : Loading :=
  match trim line with
  | [] => s
  | c :: rest => if isCommentMark c then s else s.loadContent (c :: rest)

end Loading

/-- `none` for a file that cannot be opened. -/
def load (file : Option Text) : Option IniParser :=
  file.map fun text =>
    ⟨((lines '\n' text).foldl Loading.loadLine ⟨[], fun _ _ => none⟩).config_⟩

end IniParser

namespace Ini
open IniParser

/-- Sections with their names, each with its keys and values, in the order in which they are
written. A name or a key may come more than once. -/
abbrev Document := List (Text × List (Text × Text))

structure ValidKey (key : Text) : Prop where
  nonempty : key ≠ []
  trimmed : Trimmed isWhitespace key
  oneLine : '\n' ∉ key
  noEquals : '=' ∉ key
  head : ∀ c ∈ key.head?, c ≠ '[' ∧ c ≠ ';' ∧ c ≠ '#'

structure ValidValue (value : Text) : Prop where
  trimmed : Trimmed isWhitespace value
  oneLine : '\n' ∉ value
  noMark : ';' ∉ value ∧ '#' ∉ value

/-- The texts that can be written; nothing but a newline is ruled out in a section's name. -/
structure ValidDocument (doc : Document) : Prop where
  name : ∀ s ∈ doc, '\n' ∉ s.1
  key : ∀ s ∈ doc, ∀ e ∈ s.2, ValidKey e.1
  value : ∀ s ∈ doc, ∀ e ∈ s.2, ValidValue e.2

/-- Blanks within a line, which may be a carriage return at its end. -/
def Blank (s : Text) : Prop := ∀ c ∈ s, isWhitespace c = true ∧ c ≠ '\n'

/-- What a line says. -/
inductive Content where
  | sect (name : Text)
  | entry (key value : Text)

/-- A line of the file, with its decoration. A note is a comment after a value, with its mark first. -/
inductive Line where
  | blank (space : Text)
  | comment (indent : Text) (mark : Char) (remark : Text)
  | sect (indent name trailing : Text)
  | entry (indent key value trailing : Text) (note : Option (Char × Text))

namespace Line

def text : Line → Text
  | .blank space => space
  | .comment indent mark remark => indent ++ mark :: remark
  | .sect indent name trailing => indent ++ '[' :: (name ++ ']' :: trailing)
  | .entry indent key value trailing none => indent ++ (key ++ ([' ', '=', ' '] ++ (value ++ trailing)))
  | .entry indent key value trailing (some (mark, remark)) =>
    indent ++ (key ++ ([' ', '=', ' '] ++ (value ++ (trailing ++ mark :: remark))))

/-- The decoration is made of blanks and comments. -/
def Decorated : Line → Prop
  | .blank space => Blank space
  | .comment indent mark remark => Blank indent ∧ isCommentMark mark = true ∧ '\n' ∉ remark
  | .sect indent _ trailing => Blank indent ∧ Blank trailing
  | .entry indent _ _ trailing note =>
    Blank indent ∧ Blank trailing ∧ ∀ c ∈ note, isCommentMark c.1 = true ∧ '\n' ∉ c.2

def content : Line → Option Content
  | .blank _ => none
  | .comment _ _ _ => none
  | .sect _ name _ => some (.sect name)
  | .entry _ key value _ _ => some (.entry key value)

end Line

def Document.contents (doc : Document) : List Content :=
  doc.flatMap fun s => .sect s.1 :: s.2.map fun e => .entry e.1 e.2

/-- The text is that of decorated lines with the contents of the document, with or without a
newline at the end. -/
def Writes (doc : Document) (text : Text) : Prop :=
  ∃ ls : List Line, (∀ l ∈ ls, l.Decorated) ∧ ls.filterMap Line.content = doc.contents ∧
    (text = unlines '\n' (ls.map Line.text) ∨ text ++ ['\n'] = unlines '\n' (ls.map Line.text))

/-- The assignments in the order in which they are written: section, key, and value. -/
def Document.assignments (doc : Document) : List ((Text × Text) × Text) :=
  doc.flatMap fun s => s.2.map fun e => ((s.1, e.1), e.2)

/-- The value that a list of assignments gives last. -/
def lastAssigned (assignments : List ((Text × Text) × Text)) (sect key : Text) : Option Text :=
  (assignments.reverse.find? fun a => a.1 = (sect, key)).map Prod.snd

/-- The document of a map of maps. -/
def ofDict (m : Dict Text (Dict Text Text)) : Document :=
  m.entries.map fun s => (s.1, s.2.entries.map fun e => (e.1, e.2))

section Lines
variable (s : Loading)

theorem blank_forall {t : Text} (h : Blank t) : ∀ c ∈ t, isWhitespace c = true := fun c hc => (h c hc).1

theorem isWhitespace_of_mark {c : Char} (h : isCommentMark c = true) : isWhitespace c = false := by
  have hc : c = ';' ∨ c = '#' := by simpa [isCommentMark] using h
  rcases hc with rfl | rfl <;> decide

theorem loadLine_of_blank {line : Text} (h : Blank line) : s.loadLine line = s := by
  have htrim : IniParser.trim line = [] := trim_blank (blank_forall h)
  rw [Loading.loadLine, htrim]

/-- Only what follows the indentation counts. -/
theorem trim_indent {indent : Text} (h : Blank indent) (t : Text) :
    IniParser.trim (indent ++ t) = IniParser.trim t :=
  trim_prepend (blank_forall h) t

theorem loadLine_of_comment {indent remark : Text} {mark : Char} (hindent : Blank indent)
    (hmark : isCommentMark mark = true) : s.loadLine (indent ++ mark :: remark) = s := by
  have htrim : IniParser.trim (indent ++ mark :: remark) = mark :: remark.rdropWhile isWhitespace := by
    rw [trim_indent hindent]
    exact trim_append_cons (isWhitespace_of_mark hmark) [] remark
  rw [Loading.loadLine, htrim]
  simp [hmark]

theorem loadLine_of_sect {indent name trailing : Text} (hindent : Blank indent)
    (htrailing : Blank trailing) :
    s.loadLine (indent ++ '[' :: (name ++ ']' :: trailing)) = { s with sect := name } := by
  have htrim : IniParser.trim (indent ++ '[' :: (name ++ ']' :: trailing)) = '[' :: (name ++ [']']) := by
    rw [trim_indent hindent, IniParser.trim]
    have hopen := trim_append_cons (p := isWhitespace) (c := '[') (by decide) [] (name ++ ']' :: trailing)
    rw [List.nil_append] at hopen
    rw [hopen, rdropWhile_append_cons (by decide), List.rdropWhile_eq_nil_iff.mpr (blank_forall htrailing)]
    rfl
  rw [Loading.loadLine, htrim]
  have hlast : ('[' :: (name ++ [']'])).getLast? = some ']' := by
    rw [← List.cons_append, List.getLast?_concat]
  simp [Loading.loadContent, isCommentMark, hlast]

theorem loadLine_of_assignment {indent key : Text} (hindent : Blank indent) (hkey : ValidKey key)
    (rest : Text) :
    s.loadLine (indent ++ (key ++ ([' ', '=', ' '] ++ rest))) =
      s.assign key (dropComment (IniParser.trim rest)) := by
  have hspace : ∀ c ∈ [' '], isWhitespace c = true := List.forall_mem_singleton.mpr (by decide)
  have hkept : ∀ c ∈ key ++ [' '], decide (c ≠ '=') = true := by
    intro c hc
    rcases List.mem_append.mp hc with hc | hc
    · exact decide_eq_true fun heq => hkey.noEquals (heq ▸ hc)
    · rw [List.mem_singleton.mp hc]
      decide
  have htrim : IniParser.trim (indent ++ (key ++ ([' ', '=', ' '] ++ rest))) =
      (key ++ [' ']) ++ '=' :: (' ' :: rest).rdropWhile isWhitespace := by
    have hsplit : key ++ ([' ', '=', ' '] ++ rest) = (key ++ [' ']) ++ '=' :: (' ' :: rest) := by simp
    rw [trim_indent hindent, hsplit, IniParser.trim, trim_append_cons (by decide),
      dropWhile_of_trimmed hkey.trimmed hkey.nonempty]
  have hvalue : IniParser.trim ((' ' :: rest).rdropWhile isWhitespace) = IniParser.trim rest := by
    rw [IniParser.trim, trim_rdropWhile]
    exact trim_prepend hspace rest
  have htake : IniParser.trim (key ++ [' ']) = key := trim_append hkey.trimmed hspace
  have hcontent : s.loadContent ((key ++ [' ']) ++ '=' :: (' ' :: rest).rdropWhile isWhitespace) =
      s.assign key (dropComment (IniParser.trim rest)) := by
    have hhead : ((key ++ [' ']) ++ '=' :: (' ' :: rest).rdropWhile isWhitespace).head? ≠ some '[' := by
      rw [List.append_assoc, List.head?_append_of_ne_nil _ hkey.nonempty]
      exact fun h => (hkey.head '[' h).1 rfl
    simp only [Loading.loadContent]
    rw [if_neg fun h => hhead h.1, if_neg (by simp), List.takeWhile_append_of_pos hkept,
      List.takeWhile_cons_of_neg (by decide), List.append_nil, htake, List.dropWhile_append_of_pos hkept,
      List.dropWhile_cons_of_neg (by decide), List.drop_one, List.tail_cons, hvalue]
  rw [← hcontent, Loading.loadLine, htrim]
  cases key with
  | nil => exact absurd rfl hkey.nonempty
  | cons c key =>
    have hmark : isCommentMark c = false := by
      have hhead := hkey.head c rfl
      simp [isCommentMark, hhead.2]
    simp [hmark]

theorem not_mark_of_valid {value : Text} (h : ValidValue value) : ∀ c ∈ value, isCommentMark c = false := by
  intro c hc
  have hsemicolon : c ≠ ';' := fun heq => h.noMark.1 (heq ▸ hc)
  have hhash : c ≠ '#' := fun heq => h.noMark.2 (heq ▸ hc)
  simp [isCommentMark, hsemicolon, hhash]

theorem not_mark_of_blank {t : Text} (h : Blank t) : ∀ c ∈ t, isCommentMark c = false := by
  intro c hc
  rw [← Bool.not_eq_true]
  intro hmark
  have hspace := (h c hc).1
  rw [isWhitespace_of_mark hmark] at hspace
  exact Bool.false_ne_true hspace

theorem dropComment_of_valid {value : Text} (h : ValidValue value) : dropComment value = value := by
  have hnone : value.any isCommentMark = false := by
    simpa using not_mark_of_valid h
  rw [dropComment, hnone]
  rfl

theorem dropComment_note {value trailing remark : Text} {mark : Char} (hvalue : ValidValue value)
    (htrailing : Blank trailing) (hmark : isCommentMark mark = true) :
    dropComment (IniParser.trim (value ++ (trailing ++ mark :: remark))) = value := by
  have htrim : IniParser.trim (value ++ (trailing ++ mark :: remark)) =
      (value ++ trailing).dropWhile isWhitespace ++ mark :: remark.rdropWhile isWhitespace := by
    rw [← List.append_assoc, IniParser.trim, trim_append_cons (isWhitespace_of_mark hmark)]
  have hkept : ∀ c ∈ (value ++ trailing).dropWhile isWhitespace, (!isCommentMark c) = true := by
    intro c hc
    rw [Bool.not_eq_true']
    rcases List.mem_append.mp ((List.dropWhile_sublist _).subset hc) with hc | hc
    · exact not_mark_of_valid hvalue c hc
    · exact not_mark_of_blank htrailing c hc
  rw [htrim, dropComment, if_pos (by simp [hmark]), List.takeWhile_append_of_pos hkept,
    List.takeWhile_cons_of_neg (by simp [hmark]), List.append_nil, IniParser.trim, trim_dropWhile]
  exact trim_append hvalue.trimmed (blank_forall htrailing)

/-- What a line with these contents does. -/
def Content.effect (s : Loading) : Content → Loading
  | .sect name => { s with sect := name }
  | .entry key value => s.assign key value

/-- Keys and values that can be written. -/
def Content.Valid : Content → Prop
  | .sect name => '\n' ∉ name
  | .entry key value => ValidKey key ∧ ValidValue value

/-- A line has the effect of its contents. -/
theorem loadLine_text {l : Line} (hl : l.Decorated) (hvalid : ∀ c ∈ l.content, c.Valid) :
    s.loadLine l.text = (l.content.map (Content.effect s)).getD s := by
  cases l with
  | blank space => exact loadLine_of_blank s hl
  | comment indent mark remark => exact loadLine_of_comment s hl.1 hl.2.1
  | sect indent name trailing => exact loadLine_of_sect s hl.1 hl.2
  | entry indent key value trailing note =>
    obtain ⟨hkey, hvalue⟩ := hvalid _ rfl
    obtain ⟨hindent, htrailing, hnote⟩ := hl
    cases note with
    | none =>
      have htrim : IniParser.trim (value ++ trailing) = value :=
        trim_append hvalue.trimmed (blank_forall htrailing)
      rw [Line.text, loadLine_of_assignment s hindent hkey, htrim, dropComment_of_valid hvalue]
      rfl
    | some note =>
      rw [Line.text, loadLine_of_assignment s hindent hkey,
        dropComment_note hvalue htrailing (hnote note rfl).1]
      rfl

theorem foldl_loadLine {ls : List Line} (hls : ∀ l ∈ ls, l.Decorated)
    (hvalid : ∀ c ∈ ls.filterMap Line.content, c.Valid) :
    (ls.map Line.text).foldl Loading.loadLine s = (ls.filterMap Line.content).foldl Content.effect s := by
  induction ls generalizing s with
  | nil => rfl
  | cons l ls ih =>
    obtain ⟨hl, hrest⟩ := List.forall_mem_cons.mp hls
    rw [List.map_cons, List.foldl_cons]
    cases hcontent : l.content with
    | none =>
      have hstep := loadLine_text s hl (by rw [hcontent]; exact fun c hc => nomatch hc)
      rw [List.filterMap_cons_none hcontent] at hvalid ⊢
      rw [hstep, hcontent]
      exact ih s hrest hvalid
    | some c =>
      rw [List.filterMap_cons_some hcontent] at hvalid ⊢
      obtain ⟨hc, hvalid⟩ := List.forall_mem_cons.mp hvalid
      have hstep := loadLine_text s hl (by rw [hcontent]; rintro d ⟨⟩; exact hc)
      rw [hstep, hcontent]
      exact ih (c.effect s) hrest hvalid

end Lines

theorem newline_not_mem_text {l : Line} (hl : l.Decorated) (hvalid : ∀ c ∈ l.content, c.Valid) :
    '\n' ∉ l.text := by
  have hblank : ∀ {t : Text}, Blank t → '\n' ∉ t := fun ht hmem => (ht _ hmem).2 rfl
  have hmark : ∀ {c : Char}, isCommentMark c = true → '\n' ≠ c := by
    rintro c hc rfl
    exact absurd hc (by decide)
  cases l with
  | blank space => exact hblank hl
  | comment indent mark remark =>
    simp [Line.text, hblank hl.1, hmark hl.2.1, hl.2.2]
  | sect indent name trailing =>
    have hname : '\n' ∉ name := hvalid _ rfl
    simp [Line.text, hblank hl.1, hname, hblank hl.2]
  | entry indent key value trailing note =>
    obtain ⟨hkey, hvalue⟩ := hvalid _ rfl
    obtain ⟨hindent, htrailing, hnote⟩ := hl
    cases note with
    | none => simp [Line.text, hblank hindent, hkey.oneLine, hvalue.oneLine, hblank htrailing]
    | some note =>
      obtain ⟨hm, hremark⟩ := hnote note rfl
      simp [Line.text, hblank hindent, hkey.oneLine, hvalue.oneLine, hblank htrailing, hmark hm, hremark]

theorem valid_contents {doc : Document} (h : ValidDocument doc) : ∀ c ∈ doc.contents, c.Valid := by
  intro c hc
  obtain ⟨s, hs, hc⟩ := List.mem_flatMap.mp hc
  rcases List.mem_cons.mp hc with rfl | hc
  · exact h.name s hs
  · obtain ⟨e, he, rfl⟩ := List.mem_map.mp hc
    exact ⟨h.key s hs e he, h.value s hs e he⟩

theorem lastAssigned_append (a b : List ((Text × Text) × Text)) (sect key : Text) :
    lastAssigned (a ++ b) sect key = (lastAssigned b sect key).or (lastAssigned a sect key) := by
  rw [lastAssigned, List.reverse_append, List.find?_append, Option.map_or]
  rfl

theorem lastAssigned_cons (a : (Text × Text) × Text) (b : List ((Text × Text) × Text)) (sect key : Text) :
    lastAssigned (a :: b) sect key = (lastAssigned b sect key).or (lastAssigned [a] sect key) :=
  lastAssigned_append [a] b sect key

theorem lastAssigned_singleton (a : (Text × Text) × Text) (sect key : Text) :
    lastAssigned [a] sect key = if a.1 = (sect, key) then some a.2 else none := by
  by_cases h : a.1 = (sect, key) <;> simp [lastAssigned, h]

theorem config_assign (s : Loading) (key value sect' key' : Text) :
    (s.assign key value).config_ sect' key' =
      (lastAssigned [((s.sect, key), value)] sect' key').or (s.config_ sect' key') := by
  rw [lastAssigned_singleton]
  by_cases hsect : sect' = s.sect
  · subst hsect
    by_cases hkey : key' = key
    · simp [Loading.assign, hkey]
    · simp [Loading.assign, hkey, Ne.symm hkey]
  · simp [Loading.assign, hsect, Ne.symm hsect]

/-- The entries of one section. -/
theorem foldl_entries (s : Loading) (entries : List (Text × Text)) (sect key : Text) :
    ((entries.map fun e => Content.entry e.1 e.2).foldl Content.effect s).config_ sect key =
      (lastAssigned (entries.map fun e => ((s.sect, e.1), e.2)) sect key).or (s.config_ sect key) := by
  induction entries generalizing s with
  | nil => rfl
  | cons e entries ih =>
    rw [List.map_cons, List.foldl_cons, ih, Content.effect, config_assign, List.map_cons,
      lastAssigned_cons _ (entries.map _), Option.or_assoc]
    rfl

theorem foldl_contents (s : Loading) (doc : Document) (sect key : Text) :
    (doc.contents.foldl Content.effect s).config_ sect key =
      (lastAssigned doc.assignments sect key).or (s.config_ sect key) := by
  induction doc generalizing s with
  | nil => rfl
  | cons x doc ih =>
    have hcontents : Document.contents (x :: doc) =
        .sect x.1 :: ((x.2.map fun e => .entry e.1 e.2) ++ Document.contents doc) := by
      simp [Document.contents]
    have hassignments : Document.assignments (x :: doc) =
        (x.2.map fun e => ((x.1, e.1), e.2)) ++ Document.assignments doc := by
      simp [Document.assignments]
    rw [hcontents, List.foldl_cons, List.foldl_append, ih, foldl_entries, hassignments,
      lastAssigned_append, Option.or_assoc]
    rfl

/-- Lines with nothing in them have no effect. -/
theorem foldl_lines_append_empty (s : Loading) (ls : List Text) :
    (ls ++ [[]]).foldl Loading.loadLine s = ls.foldl Loading.loadLine s := by
  rw [List.foldl_append]
  rfl

theorem load_written {doc : Document} (hvalid : ValidDocument doc) {text : Text} (h : Writes doc text) :
    load (some text) = some ⟨(doc.contents.foldl Content.effect ⟨[], fun _ _ => none⟩).config_⟩ := by
  obtain ⟨ls, hls, hcontents, htext⟩ := h
  have hcontent : ∀ c ∈ ls.filterMap Line.content, c.Valid := by
    rw [hcontents]
    exact valid_contents hvalid
  have hlines : lines '\n' (unlines '\n' (ls.map Line.text)) = ls.map Line.text := by
    refine lines_unlines fun t ht => ?_
    obtain ⟨l, hl, rfl⟩ := List.mem_map.mp ht
    exact newline_not_mem_text (hls l hl) fun c hc => hcontent c (List.mem_filterMap.mpr ⟨l, hl, hc⟩)
  have hfold : ∀ s : Loading, (lines '\n' text).foldl Loading.loadLine s =
      doc.contents.foldl Content.effect s := by
    intro s
    rw [← hcontents, ← foldl_loadLine s hls hcontent, ← hlines]
    rcases htext with rfl | htext
    · rfl
    · rw [← htext]
      rcases lines_append_singleton '\n' text with heq | heq
      · rw [heq]
      · rw [heq, foldl_lines_append_empty]
  rw [load, Option.map_some, hfold]

/-- The assignments of a map of maps are its pairs. -/
theorem mem_assignments_ofDict (m : Dict Text (Dict Text Text)) (sect key value : Text) :
    ((sect, key), value) ∈ (ofDict m).assignments ↔
      ((m.lookup sect).bind fun entries => entries.lookup key) = some value := by
  rw [Option.bind_eq_some_iff]
  constructor
  · intro hmem
    obtain ⟨s, hs, he⟩ := List.mem_flatMap.mp hmem
    obtain ⟨s, hs', rfl⟩ := List.mem_map.mp hs
    obtain ⟨e, he, heq⟩ := List.mem_map.mp he
    obtain ⟨e, he', rfl⟩ := List.mem_map.mp he
    cases heq
    exact ⟨s.2, Dict.mem_entries_iff.mp hs', Dict.mem_entries_iff.mp he'⟩
  · rintro ⟨entries, hsect, hkey⟩
    refine List.mem_flatMap.mpr ⟨_, List.mem_map.mpr ⟨_, Dict.mem_entries_iff.mpr hsect, rfl⟩, ?_⟩
    exact List.mem_map.mpr ⟨_, List.mem_map.mpr ⟨_, Dict.mem_entries_iff.mpr hkey, rfl⟩, rfl⟩

theorem lastAssigned_ofDict (m : Dict Text (Dict Text Text)) (sect key : Text) :
    lastAssigned (ofDict m).assignments sect key =
      (m.lookup sect).bind fun entries => entries.lookup key := by
  cases hfind : (ofDict m).assignments.reverse.find? fun a => a.1 = (sect, key) with
  | none =>
    have hnone := List.find?_eq_none.mp hfind
    rw [lastAssigned, hfind, Option.map_none]
    refine (Option.eq_none_iff_forall_ne_some.mpr fun value hvalue => ?_).symm
    have hmem := (mem_assignments_ofDict m sect key value).mpr hvalue
    exact absurd (by simp) (hnone _ (List.mem_reverse.mpr hmem))
  | some a =>
    obtain ⟨pair, value⟩ := a
    obtain rfl : pair = (sect, key) := by simpa using List.find?_some hfind
    have hmem := List.mem_reverse.mp (List.mem_of_find?_eq_some hfind)
    rw [lastAssigned, hfind, (mem_assignments_ofDict m sect key value).mp hmem]
    rfl

/-- Loading a document that has been written gives the value assigned last for every section and
key, and the empty text where there is none; for a map of maps that is its value. -/
theorem load_round_trip {doc : Document} (hvalid : ValidDocument doc) {text : Text}
    (h : Writes doc text) :
    ∃ parser, load (some text) = some parser ∧
      (∀ sect key, parser.get sect key = (lastAssigned doc.assignments sect key).getD []) ∧
      ∀ m : Dict Text (Dict Text Text), doc = ofDict m → ∀ sect key,
        parser.get sect key = ((m.lookup sect).bind fun entries => entries.lookup key).getD [] := by
  refine ⟨_, load_written hvalid h, ?_⟩
  have hget : ∀ sect key,
      IniParser.get ⟨(doc.contents.foldl Content.effect ⟨[], fun _ _ => none⟩).config_⟩ sect key =
        (lastAssigned doc.assignments sect key).getD [] := by
    intro sect key
    simp only [IniParser.get, foldl_contents, Option.or_none]
  refine ⟨hget, ?_⟩
  rintro m rfl sect key
  rw [hget, lastAssigned_ofDict]

/-- The section `p` with the keys `a` and `b`, the second with an empty value. -/
def exampleDict : Dict Text (Dict Text Text) :=
  ⟨[⟨['p'], ⟨[⟨['a'], ['1', '=']⟩, ⟨['b'], []⟩], by simp [List.NodupKeys]⟩⟩],
    by simp [List.NodupKeys]⟩

def exampleText : Text := " #=\n\r\n\t[p] \n a = 1=;x\nb = \r".toList

theorem valid_exampleDict : ValidDocument (ofDict exampleDict) := by
  have htrimmed : ∀ {t : Text} {c d : Char}, t.head? = some c → t.getLast? = some d →
      isWhitespace c = false → isWhitespace d = false → Trimmed isWhitespace t := by
    intro t c d hhead hlast hc hd
    constructor
    · rw [hhead]
      rintro _ ⟨⟩
      exact hc
    · rw [hlast]
      rintro _ ⟨⟩
      exact hd
  have hkey : ∀ c : Char, isWhitespace c = false → c ≠ '\n' ∧ c ≠ '=' →
      c ≠ '[' ∧ c ≠ ';' ∧ c ≠ '#' → ValidKey [c] := by
    intro c hc hne hhead
    refine ⟨List.cons_ne_nil c [], htrimmed rfl rfl hc hc, ?_, ?_, ?_⟩
    · simp [Ne.symm hne.1]
    · simp [Ne.symm hne.2]
    · rintro _ ⟨⟩
      exact hhead
  have hempty : ValidValue [] :=
    ⟨⟨fun c hc => (nomatch hc), fun c hc => (nomatch hc)⟩, by decide, by decide⟩
  have hvalue : ValidValue ['1', '='] :=
    ⟨htrimmed rfl rfl (by decide) (by decide), by decide, by decide⟩
  have hdoc : ofDict exampleDict = [(['p'], [(['a'], ['1', '=']), (['b'], [])])] := rfl
  rw [hdoc]
  constructor
  · simp
  · rw [List.forall_mem_singleton, List.forall_mem_cons, List.forall_mem_singleton]
    exact ⟨hkey 'a' (by decide) (by decide) (by decide), hkey 'b' (by decide) (by decide) (by decide)⟩
  · rw [List.forall_mem_singleton, List.forall_mem_cons, List.forall_mem_singleton]
    exact ⟨hvalue, hempty⟩

theorem writes_exampleText : Writes (ofDict exampleDict) exampleText := by
  refine ⟨[.comment [' '] '#' ['='], .blank ['\r'], .sect ['\t'] ['p'] [' '],
    .entry [' '] ['a'] ['1', '='] [] (some (';', ['x'])), .entry [] ['b'] [] ['\r'] none], ?_, rfl,
    .inr (by decide)⟩
  have hblank : ∀ c : Char, isWhitespace c = true → c ≠ '\n' → Blank [c] := by
    rintro c hc hne d hd
    rw [List.mem_singleton.mp hd]
    exact ⟨hc, hne⟩
  have hnil : Blank [] := fun c hc => absurd hc List.not_mem_nil
  simp only [List.forall_mem_cons, List.not_mem_nil, false_implies, implies_true, and_true]
  refine ⟨⟨hblank _ (by decide) (by decide), by decide, by decide⟩, hblank _ (by decide) (by decide),
    ⟨hblank _ (by decide) (by decide), hblank _ (by decide) (by decide)⟩,
    ⟨hblank _ (by decide) (by decide), hnil, ?_⟩, hnil, hblank _ (by decide) (by decide), ?_⟩
  · rintro c ⟨⟩
    exact ⟨by decide, by decide⟩
  · exact fun c hc => nomatch hc

theorem load_round_trip_example :
    ∃ parser, load (some exampleText) = some parser ∧ parser.get ['p'] ['a'] = ['1', '='] ∧
      parser.get ['p'] ['b'] = [] ∧ parser.get ['q'] ['a'] = [] := by
  obtain ⟨parser, hload, -, hget⟩ := load_round_trip valid_exampleDict writes_exampleText
  refine ⟨parser, hload, ?_, ?_, ?_⟩ <;> rw [hget exampleDict rfl] <;> decide

end Ini

end Pingweave
