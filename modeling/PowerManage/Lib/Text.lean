import PowerManage.Lib.PathName

/-!
# Text

String functions over lists of characters, beside those of `PathName`: case, quoting, splitting at
white space and at line ends, decimal numbers, and the lexical `base` and `clean` of path names that
need not be absolute.

What is written word by word and line by line is read back the same way (`map_fields_lines`), and
so are a number (`readDecimal_decimal`) and what is written before and after a mark (`cut_append`).
-/

namespace Text

open PathName

/-- The lower case of a character: that of ASCII letters, and of the two others that have an ASCII
letter for it. -/
def toLower (c : Char) : Char :=
  if c = '\u0130' then 'i' else if c = '\u212a' then 'k' else c.toLower

/-- The upper case of a character: that of ASCII letters, and of the two others that have an ASCII
letter for it. -/
def toUpper (c : Char) : Char :=
  if c = '\u0131' then 'I' else if c = '\u017f' then 'S' else c.toUpper

def hasSuffix (s suf : Str) : Bool := suf.isSuffixOf s

def trim (s set : Str) : Str := (s.dropWhile (· ∈ set)).rdropWhile (· ∈ set)

def fields (s : Str) : List Str := (s.splitOnP isSpace).filter (· ≠ [])

def lines (s : Str) : List Str := (s.splitOn '\n').filter (· ≠ [])

def contains (s sub : Str) : Bool := s.tails.any fun t => hasPrefix t sub

/-- How `%q` writes a character. -/
def quoteChar (c : Char) : Str :=
  if c = '"' ∨ c = '\\' then ['\\', c]
  else if c = '\n' then ['\\', 'n']
  else if c = '\r' then ['\\', 'r']
  else if c = '\t' then ['\\', 't']
  else if c = '\x07' then ['\\', 'a']
  else if c = '\x08' then ['\\', 'b']
  else if c = '\x0c' then ['\\', 'f']
  else if c = '\x0b' then ['\\', 'v']
  else if c.toNat < 32 ∨ c.toNat = 127 then
    ['\\', 'x', Nat.digitChar (c.toNat / 16), Nat.digitChar (c.toNat % 16)]
  else [c]

def quote (s : Str) : Str := ['"'] ++ s.flatMap quoteChar ++ ['"']

/-! ## Words and lines -/

/-- A word: not empty, and no white space in it. -/
def IsWord (w : Str) : Prop := w ≠ [] ∧ ∀ c ∈ w, isSpace c = false

instance (w : Str) : Decidable (IsWord w) :=
  decidable_of_iff (w ≠ [] ∧ w.all (fun c => !isSpace c) = true) (by simp [IsWord])

variable {s sub u v w : Str} {c : Char} {ws : List Str} {p : Char → Bool}

theorem IsWord.append (hw : IsWord w) (hv : IsWord v) : IsWord (w ++ v) :=
  ⟨fun h => hw.1 (List.append_eq_nil_iff.mp h).1,
    fun c hc => (List.mem_append.mp hc).elim (hw.2 c) (hv.2 c)⟩

theorem toNat_of_isSpace (h : isSpace c = true) : c.toNat ≤ 32 ∨ 133 ≤ c.toNat := by
  simp only [isSpace, Bool.or_eq_true, Bool.and_eq_true, decide_eq_true_eq, or_assoc] at h
  rcases h with rfl | rfl | rfl | rfl | rfl | rfl | rfl | rfl | rfl | ⟨h, -⟩ | rfl | rfl | rfl |
    rfl | rfl
  case inr.inr.inr.inr.inr.inr.inr.inr.inr.inl => exact .inr (le_trans (by decide) h)
  all_goals decide

theorem toNat_of_isAlphanum (h : c.isAlphanum = true) : 48 ≤ c.toNat ∧ c.toNat ≤ 122 := by
  simp only [Char.isAlphanum, Char.isAlpha, Char.isUpper, Char.isLower, Char.isDigit,
    Bool.or_eq_true, Bool.and_eq_true, decide_eq_true_eq, ge_iff_le, UInt32.le_iff_toNat_le] at h
  have hA : 'A'.val.toNat = 65 := rfl
  have hZ : 'Z'.val.toNat = 90 := rfl
  have ha : 'a'.val.toNat = 97 := rfl
  have hz : 'z'.val.toNat = 122 := rfl
  have hzero : '0'.val.toNat = 48 := rfl
  have hnine : '9'.val.toNat = 57 := rfl
  have hc : c.toNat = c.val.toNat := rfl
  omega

theorem hasSuffix_append (s suf : Str) : hasSuffix (s ++ suf) suf = true :=
  List.isSuffixOf_iff_suffix.mpr (List.suffix_append s suf)

theorem trimSuffix_append (s suf : Str) : trimSuffix (s ++ suf) suf = s := by
  rw [trimSuffix, if_pos (List.isSuffixOf_iff_suffix.mpr (List.suffix_append s suf)),
    List.length_append, Nat.add_sub_cancel, List.take_left]

section words

def words (sep : Char → Bool) (s : Str) : List Str :=
  (s.splitOnP sep).filter (· ≠ [])

variable {sep : Char → Bool}

theorem words_append_cons (s u : Str) (hc : sep c = true) :
    words sep (s ++ c :: u) = words sep s ++ words sep u := by
  rw [words, List.splitOnP_append_cons s u hc, List.filter_append]
  rfl

theorem words_word (hne : w ≠ []) (hw : ∀ c ∈ w, sep c = false) : words sep w = [w] := by
  rw [words, List.splitOnP_eq_singleton hw, List.filter_cons_of_pos (by simpa using hne)]
  rfl

theorem words_intercalate (hblank : sep ' ' = true)
    (h : ∀ w ∈ ws, w ≠ [] ∧ ∀ c ∈ w, sep c = false) : words sep ([' '].intercalate ws) = ws := by
  induction ws with
  | nil => rfl
  | cons w ws ih =>
    have hw := h w (List.mem_cons_self ..)
    cases ws with
    | nil => rw [List.intercalate_singleton]; exact words_word hw.1 hw.2
    | cons v vs =>
      rw [List.intercalate_cons_cons, List.append_assoc, List.singleton_append,
        words_append_cons w _ hblank, words_word hw.1 hw.2,
        ih fun x hx => h x (List.mem_cons_of_mem w hx)]
      rfl

theorem sep_of_mem_splitOnP {l : Str} (h : l ∈ s.splitOnP sep) : ∀ c ∈ l, sep c = false := by
  induction s generalizing l with
  | nil => simp_all
  | cons d s ih =>
    rw [List.splitOnP_cons_eq_if_modifyHead] at h
    split_ifs at h with hd
    · rcases List.mem_cons.mp h with rfl | h
      · simp
      · exact ih h
    cases hs : s.splitOnP sep with
    | nil => exact absurd hs (List.splitOnP_ne_nil _ _)
    | cons l' ls =>
      rw [hs] at h ih
      rcases List.mem_cons.mp h with rfl | h
      · exact List.forall_mem_cons.mpr ⟨by simpa using hd, ih List.mem_cons_self⟩
      · exact ih (List.mem_cons_of_mem _ h)

theorem sep_of_mem_words (h : w ∈ words sep s) : ∀ c ∈ w, sep c = false :=
  sep_of_mem_splitOnP (List.mem_filter.mp h).1

theorem notMem_of_mem_splitOn {l : Str} (h : l ∈ s.splitOn c) : c ∉ l := by
  intro hc
  have hsep := sep_of_mem_splitOnP h c hc
  simp at hsep

theorem words_eq_singleton_iff : words sep s = [s] ↔ s ≠ [] ∧ ∀ c ∈ s, sep c = false := by
  constructor
  · intro h
    have hmem : s ∈ words sep s := h ▸ List.mem_singleton_self s
    exact ⟨by simpa using (List.mem_filter.mp hmem).2, sep_of_mem_words hmem⟩
  · exact fun h => words_word h.1 h.2

theorem words_cons (hc : sep c = true) (s : Str) : words sep (c :: s) = words sep s :=
  words_append_cons [] s hc

theorem words_concat (hc : sep c = true) (s : Str) : words sep (s ++ [c]) = words sep s := by
  rw [words_append_cons s [] hc]
  exact List.append_nil _

theorem words_dropWhile (hp : ∀ c, p c = true → sep c = true) (s : Str) :
    words sep (s.dropWhile p) = words sep s := by
  induction s with
  | nil => rfl
  | cons c s ih =>
    rw [List.dropWhile_cons]
    split_ifs with hc
    · rw [ih, words_cons (hp c hc)]
    · rfl

theorem words_rdropWhile (hp : ∀ c, p c = true → sep c = true) (s : Str) :
    words sep (s.rdropWhile p) = words sep s := by
  induction s using List.reverseRecOn with
  | nil => rfl
  | append_singleton s c ih =>
    by_cases hc : p c = true
    · rw [List.rdropWhile_concat_pos p s c hc, ih, words_concat (hp c hc)]
    · rw [List.rdropWhile_concat_neg p s c hc]

end words

theorem fields_append_cons (s u : Str) (hc : isSpace c = true) :
    fields (s ++ c :: u) = fields s ++ fields u :=
  words_append_cons s u hc

theorem fields_intercalate (h : ∀ w ∈ ws, IsWord w) : fields ([' '].intercalate ws) = ws :=
  words_intercalate (by decide) h

theorem dropWhile_isSpace_of_isWord (h : IsWord w) (u : Str) :
    (w ++ u).dropWhile isSpace = w ++ u := by
  cases w with
  | nil => exact absurd rfl h.1
  | cons c t =>
    have hc := h.2 c (List.mem_cons_self ..)
    rw [List.cons_append, List.dropWhile_cons, if_neg (Bool.eq_false_iff.mp hc)]

theorem rdropWhile_isSpace_of_isWord (h : IsWord w) : w.rdropWhile isSpace = w := by
  rcases List.eq_nil_or_concat' w with rfl | ⟨t, c, rfl⟩
  · rfl
  · have hc := h.2 c (List.mem_append_right t (List.mem_singleton_self c))
    exact List.rdropWhile_concat_neg _ _ _ (Bool.eq_false_iff.mp hc)

theorem trimSpace_of_isWord (h : IsWord w) : trimSpace w = w := by
  have hhead := dropWhile_isSpace_of_isWord h []
  rw [List.append_nil] at hhead
  rw [trimSpace, hhead, rdropWhile_isSpace_of_isWord h]

theorem trimSpace_line (h : IsWord w) : trimSpace (w ++ ['\n']) = w := by
  rw [trimSpace, dropWhile_isSpace_of_isWord h, List.rdropWhile_concat_pos _ _ _ (by decide),
    rdropWhile_isSpace_of_isWord h]

theorem fields_line (h : ∀ w ∈ ws, IsWord w) : fields ([' '].intercalate ws ++ ['\n']) = ws := by
  rw [fields_append_cons _ [] (by decide), fields_intercalate h]
  exact List.append_nil ws

theorem mem_intercalate {sep : Char} {ls : List Str} (h : c ∈ [sep].intercalate ls) :
    c = sep ∨ ∃ l ∈ ls, c ∈ l := by
  induction ls with
  | nil => cases h
  | cons l ls ih =>
    cases ls with
    | nil =>
      rw [List.intercalate_singleton] at h
      exact .inr ⟨l, List.mem_singleton_self l, h⟩
    | cons l' ls =>
      rw [List.intercalate_cons_cons, List.mem_append, List.mem_append, List.mem_singleton] at h
      rcases h with (h | h) | h
      · exact .inr ⟨l, List.mem_cons_self .., h⟩
      · exact .inl h
      · refine (ih h).imp_right ?_
        rintro ⟨x, hx, hc⟩
        exact ⟨x, List.mem_cons_of_mem l hx, hc⟩

theorem newline_notMem_intercalate (h : ∀ w ∈ ws, IsWord w) : '\n' ∉ [' '].intercalate ws := by
  intro hn
  rcases mem_intercalate hn with hn | ⟨w, hw, hn⟩
  · exact absurd hn (by decide)
  · exact absurd ((h w hw).2 _ hn) (by decide)

theorem intercalate_ne_nil (hne : ws ≠ []) (h : ∀ w ∈ ws, IsWord w) :
    [' '].intercalate ws ≠ [] := by
  intro hnil
  have hfields := fields_intercalate h
  rw [hnil] at hfields
  exact hne hfields.symm

def writeLines (ls : List (List Str)) : Str :=
  ls.flatMap fun ws => [' '].intercalate ws ++ ['\n']

theorem map_fields_lines {ls : List (List Str)}
    (h : ∀ ws ∈ ls, ws ≠ [] ∧ ∀ w ∈ ws, IsWord w) : (lines (writeLines ls)).map fields = ls := by
  have hline : ∀ {l : Str}, l ≠ [] → '\n' ∉ l → ∀ s : Str,
      lines (l ++ '\n' :: s) = l :: lines s := by
    intro l hl hn s
    have hsplit : l.splitOnP (· == '\n') = [l] := List.splitOnP_eq_singleton fun c hc => by
      simpa using fun h : c = '\n' => hn (h ▸ hc)
    rw [lines, List.splitOn, List.splitOnP_append_cons l s (by decide), hsplit,
      List.singleton_append, List.filter_cons_of_pos (by simpa using hl)]
    rfl
  induction ls with
  | nil => rfl
  | cons ws ls ih =>
    obtain ⟨hne, hws⟩ := h ws (List.mem_cons_self ..)
    rw [writeLines, List.flatMap_cons, ← writeLines, List.append_assoc, List.singleton_append,
      hline (intercalate_ne_nil hne hws) (newline_notMem_intercalate hws), List.map_cons,
      fields_intercalate hws, ih fun x hx => h x (List.mem_cons_of_mem ws hx)]

def ascii (s : Str) : List UInt8 := s.map fun c => UInt8.ofNat c.toNat

/-! ## Numbers -/

def decimal (n : Nat) : Str := Nat.toDigits 10 n

def decimalInt (n : Int) : Str := if n < 0 then '-' :: decimal n.natAbs else decimal n.toNat

theorem decimalInt_of_pos {n : Int} (h : n > 0) : decimalInt n = decimal n.toNat := by
  rw [decimalInt, if_neg (by omega)]

def readDecimal (w : Str) : Option Nat :=
  if w ≠ [] ∧ w.all Char.isDigit then some (Nat.ofDigitChars 10 w 0) else none

theorem isDigit_of_mem_decimal {n : Nat} (h : c ∈ decimal n) : c.isDigit = true :=
  Nat.isDigit_of_mem_toDigits (by decide) (by decide) h

@[simp] theorem readDecimal_decimal (n : Nat) : readDecimal (decimal n) = some n := by
  have hdigits : (decimal n).all Char.isDigit = true :=
    List.all_eq_true.mpr fun c hc => isDigit_of_mem_decimal hc
  rw [readDecimal, if_pos ⟨Nat.toDigits_ne_nil, hdigits⟩, decimal, Nat.ofDigitChars_ten_toDigits]

theorem isWord_decimal (n : Nat) : IsWord (decimal n) := by
  refine ⟨Nat.toDigits_ne_nil, fun c hc => Bool.eq_false_iff.mpr fun hspace => ?_⟩
  have hdigit := isDigit_of_mem_decimal hc
  have hfar := toNat_of_isSpace hspace
  rw [Char.isDigit_iff_toNat] at hdigit
  have hzero : '0'.toNat = 48 := rfl
  have hnine : '9'.toNat = 57 := rfl
  omega

/-- `strconv.Atoi`, for integers of 64 bits. -/
def atoi : Str → Option Int
  | '-' :: w => (readDecimal w).bind fun n => if n ≤ 2 ^ 63 then some (-n) else none
  | '+' :: w => (readDecimal w).bind fun n => if n < 2 ^ 63 then some n else none
  | w => (readDecimal w).bind fun n => if n < 2 ^ 63 then some n else none

theorem atoi_decimal (n : Nat) :
    atoi (decimal n) = if n < 2 ^ 63 then some (n : Int) else none := by
  have hread := readDecimal_decimal n
  have hdigit : ∀ c ∈ decimal n, c.isDigit = true := fun c hc => isDigit_of_mem_decimal hc
  cases hd : decimal n with
  | nil => exact absurd hd Nat.toDigits_ne_nil
  | cons c w =>
    have hc : c.isDigit = true := hdigit c (hd ▸ List.mem_cons_self ..)
    have hminus : c ≠ '-' := by rintro rfl; exact absurd hc (by decide)
    have hplus : c ≠ '+' := by rintro rfl; exact absurd hc (by decide)
    rw [hd] at hread
    unfold atoi
    split
    · rename_i heq
      exact absurd (List.cons.inj heq).1 hminus
    · rename_i heq
      exact absurd (List.cons.inj heq).1 hplus
    · rw [hread, Option.bind_some]

/-! ## Substrings -/

theorem contains_iff : contains s sub = true ↔ sub <:+: s := by
  rw [contains, List.any_eq_true]
  constructor
  · rintro ⟨t, ht, hpre⟩
    rw [hasPrefix, List.isPrefixOf_iff_prefix] at hpre
    exact hpre.isInfix.trans ((List.mem_tails _ _).mp ht).isInfix
  · rintro ⟨u, v, rfl⟩
    refine ⟨sub ++ v, (List.mem_tails _ _).mpr ⟨u, by rw [List.append_assoc]⟩, ?_⟩
    rw [hasPrefix, List.isPrefixOf_iff_prefix]
    exact List.prefix_append sub v

theorem isInfix_append_cons {sep : Char} (hsep : sep ∉ sub) :
    sub <:+: u ++ sep :: v ↔ sub <:+: u ∨ sub <:+: v := by
  constructor
  · rintro ⟨a, b, h⟩
    rcases List.append_eq_append_iff.mp h with ⟨c, rfl, -⟩ | ⟨c, hc, hb⟩
    · exact .inl ⟨a, c, rfl⟩
    cases c with
    | nil =>
      rw [List.append_nil] at hc
      exact .inl ⟨a, [], by rw [List.append_nil, hc]⟩
    | cons x c =>
      obtain ⟨rfl, hv⟩ := List.cons.inj hb
      rcases List.append_eq_append_iff.mp hc with ⟨d, -, hd⟩ | ⟨d, -, hd⟩
      · rw [hd] at hsep
        exact absurd (List.mem_append_right d (List.mem_cons_self ..)) hsep
      cases d with
      | nil =>
        rw [List.nil_append] at hd
        rw [← hd] at hsep
        exact absurd (List.mem_cons_self ..) hsep
      | cons y d =>
        obtain ⟨-, hc'⟩ := List.cons.inj hd
        exact .inr ⟨d, b, by rw [hv, hc']; rfl⟩
  · rintro (h | h)
    · exact h.trans (List.prefix_append u _).isInfix
    · exact h.trans ((List.suffix_cons sep v).trans (List.suffix_append u _)).isInfix

theorem isInfix_intercalate {sep : Char} (hne : sub ≠ []) (hsep : sep ∉ sub) {ls : List Str} :
    sub <:+: [sep].intercalate ls ↔ ∃ l ∈ ls, sub <:+: l := by
  induction ls with
  | nil => simpa using hne
  | cons l ls ih =>
    cases ls with
    | nil => simp [List.intercalate_singleton]
    | cons l' ls =>
      rw [List.intercalate_cons_cons, List.append_assoc, List.singleton_append,
        isInfix_append_cons hsep, ih]
      exact (List.exists_mem_cons_iff _ _ _).symm

/-! ## Cutting -/

/-- What stands before and after the first `c`. -/
def cut (c : Char) (s : Str) : Option (Str × Str) :=
  match s.dropWhile (· ≠ c) with
  | [] => none
  | _ :: rest => some (s.takeWhile (· ≠ c), rest)

theorem cut_of_notMem (h : c ∉ s) : cut c s = none := by
  have hall : s.dropWhile (· ≠ c) = [] := by
    rw [List.dropWhile_eq_nil_iff]
    intro x hx
    rw [decide_eq_true_eq]
    rintro rfl
    exact h hx
  rw [cut, hall]

theorem cut_append (h : c ∉ u) (v : Str) : cut c (u ++ c :: v) = some (u, v) := by
  have hall : ∀ x ∈ u, decide (x ≠ c) = true := by
    intro x hx
    rw [decide_eq_true_eq]
    rintro rfl
    exact h hx
  rw [cut, List.dropWhile_append_of_pos hall, List.takeWhile_append_of_pos hall,
    List.dropWhile_cons_of_neg (by simp), List.takeWhile_cons_of_neg (by simp), List.append_nil]

theorem append_of_cut (h : cut c s = some (u, v)) : s = u ++ c :: v := by
  unfold cut at h
  split at h
  · cases h
  rename_i x rest hdrop
  cases h
  obtain rfl : x = c := by
    have hnot := List.head?_dropWhile_not (fun y => decide (y ≠ c)) s
    rw [hdrop] at hnot
    simpa using hnot
  rw [← hdrop, List.takeWhile_append_dropWhile]

theorem notMem_of_cut (h : cut c s = none) : c ∉ s := by
  intro hmem
  unfold cut at h
  split at h
  · rename_i hdrop
    have hne := List.dropWhile_eq_nil_iff.mp hdrop c hmem
    rw [decide_eq_true_eq] at hne
    exact hne rfl
  · cases h

/-! ## White space -/

def solid (s : Str) : Str := s.filter fun c => !isSpace c

theorem solid_append (s u : Str) : solid (s ++ u) = solid s ++ solid u :=
  List.filter_append ..

/-- Strings with the same words are the same up to white space. -/
theorem flatten_fields (s : Str) : (fields s).flatten = solid s := by
  have hfilter : ∀ ls : List Str, (ls.filter (· ≠ [])).flatten = ls.flatten := by
    intro ls
    induction ls with
    | nil => rfl
    | cons l ls ih =>
      by_cases hl : l = []
      · rw [List.filter_cons_of_neg (by simp [hl]), ih, hl]
        rfl
      · rw [List.filter_cons_of_pos (by simp [hl]), List.flatten_cons, ih, List.flatten_cons]
  rw [fields, hfilter]
  induction s with
  | nil => rfl
  | cons c s ih =>
    rw [List.splitOnP_cons_eq_if_modifyHead]
    split
    · rename_i hc
      rw [List.flatten_cons, ih, solid, solid, List.filter_cons_of_neg (by simp [hc])]
      rfl
    rename_i hc
    rw [solid, List.filter_cons_of_pos (by simp [hc]), ← solid, ← ih]
    cases hs : s.splitOnP isSpace with
    | nil => exact absurd hs (List.splitOnP_ne_nil _ s)
    | cons l ls => rfl

theorem rdropWhile_cons_of_neg (hc : p c = false) (s : Str) :
    (c :: s).rdropWhile p = c :: s.rdropWhile p := by
  induction s using List.reverseRecOn with
  | nil => simp [hc]
  | append_singleton s x ih =>
    rw [← List.cons_append, List.rdropWhile_concat, List.rdropWhile_concat, ih]
    split <;> rfl

theorem rdropWhile_append_of_neg (hw : ∀ c ∈ w, p c = false) (s : Str) :
    (w ++ s).rdropWhile p = w ++ s.rdropWhile p := by
  induction w with
  | nil => rfl
  | cons c w ih =>
    rw [List.forall_mem_cons] at hw
    rw [List.cons_append, rdropWhile_cons_of_neg hw.1, ih hw.2, List.cons_append]

theorem trim_concat (hc : p c = true) (s : Str) :
    ((s ++ [c]).dropWhile p).rdropWhile p = (s.dropWhile p).rdropWhile p := by
  by_cases hall : ∀ d ∈ s, p d = true
  · have hall' : ∀ d ∈ s ++ [c], p d = true := by
      simpa [or_imp, forall_and, hc] using hall
    rw [List.dropWhile_eq_nil_iff.mpr hall, List.dropWhile_eq_nil_iff.mpr hall']
  · have hne : s.dropWhile p ≠ [] := fun hnil => hall (List.dropWhile_eq_nil_iff.mp hnil)
    rw [List.dropWhile_append, if_neg (by simpa using hne), List.rdropWhile_concat_pos _ _ _ hc]

theorem trimSpace_concat (hc : isSpace c = true) (s : Str) : trimSpace (s ++ [c]) = trimSpace s :=
  trim_concat hc s

theorem solid_rdropWhile (s : Str) : solid (s.rdropWhile isSpace) = solid s := by
  induction s using List.reverseRecOn with
  | nil => rfl
  | append_singleton s x ih =>
    rw [List.rdropWhile_concat]
    split
    · rename_i hx
      rw [ih]
      simp [solid, hx]
    · rfl

theorem solid_dropWhile (s : Str) : solid (s.dropWhile isSpace) = solid s := by
  induction s with
  | nil => rfl
  | cons c s ih =>
    rw [List.dropWhile_cons]
    split
    · rename_i hc
      rw [ih, solid, solid, List.filter_cons_of_neg (by simp [hc])]
    · rfl

theorem isSpace_head_dropWhile (h : (s.dropWhile isSpace).head? = some c) : isSpace c = false := by
  have hnot := List.head?_dropWhile_not isSpace s
  rw [h] at hnot
  exact hnot

theorem isSpace_of_trimSpace :
    (∀ c, (trimSpace s).head? = some c → isSpace c = false) ∧
      ∀ c, (trimSpace s).getLast? = some c → isSpace c = false := by
  constructor
  · intro c hc
    obtain ⟨t, ht⟩ := List.rdropWhile_prefix isSpace (s.dropWhile isSpace)
    apply isSpace_head_dropWhile
    rw [← ht, List.head?_append]
    change ((trimSpace s).head?.or _) = _
    rw [hc]
    rfl
  · intro c hc
    have hne : trimSpace s ≠ [] := by
      intro hnil
      rw [hnil] at hc
      cases hc
    have hlast := List.rdropWhile_last_not isSpace (s.dropWhile isSpace) hne
    rw [List.getLast?_eq_some_getLast hne, Option.some_inj] at hc
    subst hc
    exact Bool.eq_false_iff.mpr hlast

theorem trimSpace_eq_self_iff :
    trimSpace s = s ↔ (∀ c, s.head? = some c → isSpace c = false) ∧
      ∀ c, s.getLast? = some c → isSpace c = false := by
  constructor
  · intro h
    rw [← h]
    exact isSpace_of_trimSpace
  · rintro ⟨hhead, hlast⟩
    have hdrop : s.dropWhile isSpace = s := by
      cases s with
      | nil => rfl
      | cons c s => rw [List.dropWhile_cons_of_neg (by rw [hhead c rfl]; decide)]
    rw [trimSpace, hdrop, List.rdropWhile_eq_self_iff]
    intro hne
    rw [hlast _ (List.getLast?_eq_some_getLast hne)]
    decide

/-! ## Path names -/

def base (s : Str) : Str :=
  if s = [] then ['.']
  else
    let last := ((s.rdropWhile (· = '/')).reverse.takeWhile (· ≠ '/')).reverse
    if last = [] then ['/'] else last

/-- One component of a relative path name, on top of the clean path so far. -/
def pushRel (p : List Name) (c : Name) : List Name :=
  if c = [] ∨ c = dot then p
  else if c = dotDot then
    match p.getLast? with
    | none => [dotDot]
    | some last => if last = dotDot then p ++ [dotDot] else p.dropLast
  else p ++ [c]

/-- `filepath.Clean` -/
def clean (s : Str) : Str :=
  if isAbs s then spell (cleanAbs s)
  else
    match (components s).foldl pushRel [] with
    | [] => ['.']
    | cs => ['/'].intercalate cs

end Text
