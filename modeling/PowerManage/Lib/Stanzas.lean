import PowerManage.Lib.Sections

/-!
# Texts of stanzas

Most configuration files are a list of stanzas, and a stanza is a list of fields `name, value`.  The
formats differ in what a single line says: `Item` lists what that can be, a format is a function from
lines to items, and `read` makes stanzas of the items.

* `deb822Item`: stanzas end at a blank line, fields are `Name: value`, names in any case, and a line
  that begins with a blank goes on with the value above.
* `iniItem`: stanzas begin with `[name]`, fields are `name=value`.
* `confItem`: as `iniItem`, but white space at either end of a line is nothing, and a name may stand
  alone.

White space is that of ASCII.
-/

namespace Stanzas

open Sections List

def isBlank (c : Char) : Bool := c = ' ' || (9 ≤ c.toNat && c.toNat ≤ 13)

def strip (s : Str) : Str := (s.dropWhile isBlank).rdropWhile isBlank

abbrev Field := Str × Str

/-- What a line is. -/
inductive Item
  | skip
  | gap
  | header (name : Str)
  | field (name value : Str)
  | more (text : Str)
  | bad
deriving DecidableEq

/-- A stanza with its fields in order. -/
structure Stanza where
  name : Option Str
  fields : List Field
deriving DecidableEq

def Stanza.get (st : Stanza) (name : Str) : List Str :=
  st.fields.filterMap fun f => if f.1 = name then some f.2 else none

def Stanza.push (st : Stanza) (f : Field) : Stanza := ⟨st.name, st.fields ++ [f]⟩

def Stanza.extend (st : Stanza) (text : Str) : Option Stanza :=
  st.fields.getLast?.map fun f =>
    ⟨st.name, st.fields.dropLast ++ [(f.1, f.2 ++ '\n' :: text)]⟩

/-- The stanzas of the items, after those of `cur`. -/
def read : Option Stanza → List Item → Option (List Stanza)
  | cur, [] => some cur.toList
  | cur, .skip :: is => read cur is
  | cur, .gap :: is => (read none is).map (cur.toList ++ ·)
  | cur, .header name :: is => (read (some ⟨some name, []⟩) is).map (cur.toList ++ ·)
  | cur, .field name value :: is => read (some ((cur.getD ⟨none, []⟩).push (name, value))) is
  | cur, .more text :: is => (cur.bind (·.extend text)).bind fun st => read (some st) is
  | _, .bad :: _ => none

def stanzas (item : Line → Item) (s : Str) : Option (List Stanza) :=
  read none ((lines s).map item)

abbrev Directive := Str × List Str

/-- The stanzas of a text, where the value of a field is split into a list as `split` says. -/
def readWith (item : Line → Item) (split : Str → Str → List Str)
    (text : Str) : Option (List (Option Str × List Directive)) :=
  (stanzas item text).map fun sts =>
    sts.map fun st => (st.name, st.fields.map fun f => (f.1, split f.1 f.2))

/-! ## Formats -/

/-- A line of a `.sources` file. -/
def deb822Item (l : Line) : Item :=
  if l.all isBlank then .gap
  else if l.head? = some '#' then .skip
  else if l.head?.any isBlank then .more (strip l)
  else
    match Text.cut ':' l with
    | some (name, value) => .field (name.map Text.toLower) (strip value)
    | none => .bad

/-- A line of an INI file as dnf reads it. -/
def iniItem (l : Line) : Item :=
  if l.all isBlank then .skip
  else if l.head? = some '#' ∨ l.head? = some ';' then .skip
  else if l.head?.any isBlank then .more (strip l)
  else if l.head? = some '[' then
    match Text.cut ']' l.tail with
    | some (name, _) => .header name
    | none => .bad
  else
    match Text.cut '=' l with
    | some (name, value) => .field (strip name) (strip value)
    | none => .bad

/-- A line of `pacman.conf`. -/
def confItem (l : Line) : Item :=
  if strip l = [] ∨ (strip l).head? = some '#' then .skip
  else if (strip l).head? = some '[' ∧ (strip l).getLast? = some ']' then
    .header (strip l).tail.dropLast
  else
    match Text.cut '=' (strip l) with
    | some (name, value) => .field (strip name) (strip value)
    | none => .field (strip l) []

/-! ## White space -/

variable {c : Char} {name s : Str}

theorem isBlank_iff : isBlank c = true ↔ c = ' ' ∨ 9 ≤ c.toNat ∧ c.toNat ≤ 13 := by
  simp [isBlank]

theorem toNat_of_isBlank (h : isBlank c = true) : c.toNat ≤ 32 := by
  rcases isBlank_iff.mp h with rfl | h
  · decide
  · omega

theorem isBlank_of_lt (h : 32 < c.toNat) : isBlank c = false :=
  Bool.eq_false_iff.mpr fun hblank => absurd (toNat_of_isBlank hblank) (by omega)

theorem words_strip {sep : Char → Bool} (hsep : ∀ c, isBlank c = true → sep c = true)
    (s : Str) : Text.words sep (strip s) = Text.words sep s := by
  rw [strip, Text.words_rdropWhile hsep, Text.words_dropWhile hsep]

theorem strip_cons (hc : isBlank c = true) (s : Str) : strip (c :: s) = strip s := by
  rw [strip, dropWhile_cons_of_pos hc, ← strip]

theorem strip_concat (hc : isBlank c = true) (s : Str) : strip (s ++ [c]) = strip s :=
  Text.trim_concat hc s

theorem isBlank_head_strip (h : (strip s).head? = some c) : isBlank c = false := by
  obtain ⟨t, ht⟩ := rdropWhile_prefix isBlank (s.dropWhile isBlank)
  have hhead : (s.dropWhile isBlank).head? = some c := by
    rw [← ht, head?_append, ← strip, h, Option.some_or]
  have hnot := head?_dropWhile_not isBlank s
  rwa [hhead] at hnot

theorem dropWhile_isBlank (hhead : ∀ c ∈ s.head?, isBlank c = false) :
    s.dropWhile isBlank = s := by
  cases s with
  | nil => rfl
  | cons c s => exact dropWhile_cons_of_neg (by simpa using hhead c rfl)

theorem strip_eq_self (hhead : ∀ c ∈ s.head?, isBlank c = false)
    (hlast : ∀ c ∈ s.getLast?, isBlank c = false) : strip s = s := by
  rw [strip, dropWhile_isBlank hhead]
  rcases eq_nil_or_concat' s with rfl | ⟨t, c, rfl⟩
  · rfl
  · exact rdropWhile_concat_neg _ _ _ (by simpa using hlast c (by simp))

theorem strip_of_forall (h : ∀ c ∈ s, isBlank c = false) : strip s = s :=
  strip_eq_self (fun c hc => h c (mem_of_head? hc)) fun c hc => h c (mem_of_getLast? hc)

theorem strip_rdropWhile (s : Str) : strip (s.rdropWhile isBlank) = strip s := by
  induction s using reverseRecOn with
  | nil => rfl
  | append_singleton s d ih =>
    by_cases hd : isBlank d = true
    · rw [rdropWhile_concat_pos _ _ _ hd, strip_concat hd, ih]
    · rw [rdropWhile_concat_neg _ _ _ hd]

theorem rdropWhile_append_cons {d : Char} (hd : isBlank d = false) (u v : Str) :
    (u ++ d :: v).rdropWhile isBlank = u ++ d :: v.rdropWhile isBlank := by
  induction v using reverseRecOn with
  | nil => exact rdropWhile_concat_neg _ _ _ (Bool.eq_false_iff.mp hd)
  | append_singleton v e ih =>
    have hassoc : u ++ d :: (v ++ [e]) = (u ++ d :: v) ++ [e] := by simp
    rw [hassoc]
    by_cases he : isBlank e = true
    · rw [rdropWhile_concat_pos _ _ _ he, rdropWhile_concat_pos _ _ _ he, ih]
    · rw [rdropWhile_concat_neg _ _ _ he, rdropWhile_concat_neg _ _ _ he, hassoc]

/-! ## Reading -/

theorem read_field_none (f : Field) (is : List Item) :
    read none (.field f.1 f.2 :: is) = read (some ⟨none, []⟩) (.field f.1 f.2 :: is) := rfl

theorem read_fields (st : Stanza) (fs : List Field) (is : List Item) :
    read (some st) (fs.map (fun f => .field f.1 f.2) ++ is) =
      read (some ⟨st.name, st.fields ++ fs⟩) is := by
  induction fs generalizing st with
  | nil => rw [append_nil]; rfl
  | cons f fs ih =>
    rw [map_cons, cons_append, read, Option.getD_some, ih, Stanza.push, append_assoc,
      singleton_append]

theorem read_none_fields {fs : List Field} (hne : fs ≠ []) (is : List Item) :
    read none (fs.map (fun f => .field f.1 f.2) ++ is) = read (some ⟨none, fs⟩) is := by
  obtain ⟨f, fs, rfl⟩ := exists_cons_of_ne_nil hne
  have hfirst := read_fields ⟨none, []⟩ (f :: fs) is
  rw [map_cons, cons_append] at hfirst ⊢
  rw [read_field_none, hfirst, nil_append]

/-! ## Lines -/

theorem all_isBlank_cons (hc : isBlank c = false) (s : Str) : (c :: s).all isBlank = false := by
  rw [all_cons, hc, Bool.false_and]

theorem deb822Item_comment (s : Str) : deb822Item ('#' :: s) = .skip := by
  simp [deb822Item, isBlank]

/-- A name that a line can begin with: the separator is not in it, and it is not taken for anything
else. -/
def isName (sep : Char) (others : Str) (name : Str) : Bool :=
  name.head?.any (fun c => !isBlank c && !others.contains c) && !name.contains sep

theorem isName_iff {sep : Char} {others : Str} :
    isName sep others name = true ↔
      (∃ c s, name = c :: s ∧ isBlank c = false ∧ c ∉ others) ∧ sep ∉ name := by
  cases name <;> simp [isName]

theorem deb822Item_field (h : isName ':' ['#'] name = true) (value : Str) :
    deb822Item (name ++ ':' :: value) = .field (name.map Text.toLower) (strip value) := by
  obtain ⟨⟨c, s, rfl, hc, hhash⟩, hname⟩ := isName_iff.mp h
  rw [deb822Item, cons_append, all_isBlank_cons hc, head?_cons, Option.any_some, hc,
    if_neg (by decide), if_neg (by simpa using hhash), if_neg (by decide), ← cons_append,
    Text.cut_append hname]

theorem iniItem_header (hname : ']' ∉ name) : iniItem (header name) = .header name := by
  have hcut : Text.cut ']' (name ++ [']']) = some (name, []) := Text.cut_append hname []
  simp [iniItem, header, isBlank, hcut]

theorem iniItem_field (h : isName '=' ['#', ';', '['] name = true) (value : Str) :
    iniItem (name ++ '=' :: value) = .field (strip name) (strip value) := by
  obtain ⟨⟨c, s, rfl, hc, hplain⟩, hname⟩ := isName_iff.mp h
  rw [iniItem, cons_append, all_isBlank_cons hc, head?_cons, Option.any_some, hc,
    if_neg (by decide), if_neg (by simp_all), if_neg (by decide), if_neg (by simp_all),
    ← cons_append, Text.cut_append hname]

theorem confItem_header (name : Str) : confItem (header name) = .header name := by
  have hstrip : strip (header name) = header name := by
    refine strip_eq_self (fun c hc => ?_) fun c hc => ?_
    · cases hc
      decide
    · rw [header, ← cons_append, getLast?_concat] at hc
      cases hc
      decide
  have hends : (header name).head? = some '[' ∧ (header name).getLast? = some ']' := by
    rw [header, ← cons_append, getLast?_concat]
    exact ⟨rfl, rfl⟩
  rw [confItem, hstrip, if_pos hends]
  simp [header]

theorem confItem_field (h : isName '=' ['#', '['] name = true) (value : Str) :
    confItem (name ++ '=' :: value) = .field (strip name) (strip value) := by
  obtain ⟨⟨c, s, rfl, hc, hplain⟩, hname⟩ := isName_iff.mp h
  have hstrip : strip (c :: s ++ '=' :: value) = c :: s ++ '=' :: value.rdropWhile isBlank := by
    rw [strip, cons_append, dropWhile_cons_of_neg (by simpa using hc), ← cons_append,
      rdropWhile_append_cons (by decide)]
  rw [confItem, hstrip, if_neg (by simp_all), if_neg (by simp_all), Text.cut_append hname]
  simp only [strip_rdropWhile]

theorem confItem_spaced
    (hname : isName '=' ['#', '['] (name ++ [' ']) = true ∧ strip (name ++ [' ']) = name)
    (value : Str) : confItem (name ++ ' ' :: '=' :: ' ' :: value) = .field name (strip value) := by
  have hline : name ++ ' ' :: '=' :: ' ' :: value = (name ++ [' ']) ++ '=' :: ' ' :: value := by
    simp
  rw [hline, confItem_field hname.1, hname.2, strip_cons (by decide)]

/-! ## Stanzas that have been written -/

section

variable {item : Line → Item} {split : Str → Str → List Str}
  {render : Field → Line} {fs : List Field} {ds : List Directive}

/-- The line that is made of a field is read as the directive. -/
def Written (item : Line → Item) (split : Str → Str → List Str)
    (render : Field → Line) (f : Field) (d : Directive) : Prop :=
  '\n' ∉ render f ∧
    ∃ name value, item (render f) = .field name value ∧ d = (name, split name value)

theorem read_skips {skipped : List Line} (h : ∀ l ∈ skipped, item l = .skip) (cur : Option Stanza)
    (is : List Item) :
    read cur (skipped.map item ++ is) = read cur is := by
  induction skipped with
  | nil => rfl
  | cons l ls ih =>
    rw [forall_mem_cons] at h
    rw [map_cons, h.1, cons_append, read, ih h.2]

theorem exists_fields (h : Forall₂ (Written item split render) fs ds) :
    ∃ gs : List Field, (fs.map render).map item = gs.map (fun g => .field g.1 g.2) ∧
      ds = gs.map fun g => (g.1, split g.1 g.2) := by
  induction h with
  | nil => exact ⟨[], rfl, rfl⟩
  | cons hf _ ih =>
    obtain ⟨-, name, value, hitem, rfl⟩ := hf
    obtain ⟨gs, hitems, rfl⟩ := ih
    refine ⟨(name, value) :: gs, ?_, rfl⟩
    rw [map_cons, map_cons, hitem, hitems, map_cons]

theorem notMem_of_written (h : Forall₂ (Written item split render) fs ds) :
    ∀ l ∈ fs.map render, '\n' ∉ l := by
  induction h with
  | nil => simp
  | cons hf _ ih => exact forall_mem_cons.mpr ⟨hf.1, ih⟩

theorem readWith_fields (skipped : List Line)
    (h : Forall₂ (Written item split render) fs ds) (hne : ds ≠ [])
    (hskipped : ∀ l ∈ skipped, '\n' ∉ l ∧ item l = .skip) (hend : item [] = .gap) :
    readWith item split (unlines (skipped ++ fs.map render)) = some [(none, ds)] := by
  have hlines : ∀ l ∈ skipped ++ fs.map render, '\n' ∉ l :=
    forall_mem_append.mpr ⟨fun l hl => (hskipped l hl).1, notMem_of_written h⟩
  obtain ⟨gs, hitems, rfl⟩ := exists_fields h
  have hne' : gs ≠ [] := by simpa using hne
  rw [readWith, stanzas, lines_unlines hlines, map_append, map_append, append_assoc,
    read_skips fun l hl => (hskipped l hl).2, hitems, read_none_fields hne', map_singleton,
    hend]
  rfl

theorem readWith_header (skipped : List Line) {l : Line} (hl : item l = .header name)
    (hline : '\n' ∉ l) (h : Forall₂ (Written item split render) fs ds)
    (hskipped : ∀ l ∈ skipped, '\n' ∉ l ∧ item l = .skip) (hend : item [] = .skip) :
    readWith item split (unlines (skipped ++ l :: fs.map render)) = some [(some name, ds)] := by
  have hlines : ∀ x ∈ skipped ++ l :: fs.map render, '\n' ∉ x :=
    forall_mem_append.mpr ⟨fun x hx => (hskipped x hx).1,
      forall_mem_cons.mpr ⟨hline, notMem_of_written h⟩⟩
  obtain ⟨gs, hitems, rfl⟩ := exists_fields h
  rw [readWith, stanzas, lines_unlines hlines, map_append, map_append, append_assoc,
    read_skips fun l hl => (hskipped l hl).2, map_cons, hl, hitems, cons_append, read,
    read_fields, map_singleton, hend]
  rfl

/-- The lines of a stanza, with these lines for its name and its fields. -/
def stanzaLines (render : Field → Line) (st : Stanza) : List Line :=
  (st.name.map header).toList ++ st.fields.map render

/-- The stanza is read from the lines that it is written on. -/
structure Legible (item : Line → Item) (render : Field → Line) (st : Stanza) : Prop where
  name : ∃ name, st.name = some name ∧ item (header name) = .header name
  fields : ∀ f ∈ st.fields, item (render f) = .field f.1 f.2

theorem map_item_stanzaLines {st : Stanza} (h : Legible item render st) :
    ∃ name, st.name = some name ∧ (stanzaLines render st).map item =
      .header name :: st.fields.map fun f => .field f.1 f.2 := by
  obtain ⟨name, hname, hheader⟩ := h.name
  refine ⟨name, hname, ?_⟩
  rw [stanzaLines, hname, Option.map_some, Option.toList_some, singleton_append, map_cons,
    hheader, map_map]
  exact congrArg _ (map_congr_left h.fields)

theorem read_stanzaLines {st : Stanza} (h : Legible item render st) (cur : Option Stanza)
    (is : List Item) :
    read cur ((stanzaLines render st).map item ++ is) =
      (read (some st) is).map (cur.toList ++ ·) := by
  obtain ⟨name, hname, hitems⟩ := map_item_stanzaLines h
  rw [hitems, cons_append, read, read_fields, nil_append, ← hname]

theorem read_spaced {sts : List Stanza} (h : ∀ st ∈ sts, Legible item render st)
    (hend : item [] = .skip) (cur : Option Stanza) :
    read cur ((sts.flatMap (fun st => [] :: stanzaLines render st) ++ [[]]).map item) =
      some (cur.toList ++ sts) := by
  induction sts generalizing cur with
  | nil =>
    rw [flatMap_nil, nil_append, map_singleton, hend, append_nil]
    rfl
  | cons st sts ih =>
    rw [forall_mem_cons] at h
    rw [flatMap_cons, append_assoc, cons_append, map_cons, hend, read,
      map_append, read_stanzaLines h.1, ih h.2]
    rfl

theorem forall₂_ite {α β : Type} {R : α → β → Prop} {p : Prop} [Decidable p] {as as' : List α}
    {bs bs' : List β} (h : p → Forall₂ R as bs) (h' : ¬p → Forall₂ R as' bs') :
    Forall₂ R (if p then as else as') (if p then bs else bs') := by
  split_ifs with hp
  · exact h hp
  · exact h' hp

end

end Stanzas
