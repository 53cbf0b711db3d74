import PowerManage.Firewall.Ufw
import PowerManage.Exec.Capture

/-!
# `ufw status numbered`

What `ufw` prints about its rules, and what the backend reads in it.  A line is

    [ 1] 22/tcp                     ALLOW IN    Anywhere                   # acme:ssh

with the number, the To column, the action, the From column, behind it `(log)` or `(out)` where that
applies, and the comment, if there is one.  A column is one word or more: an address and then a port,
or a `(v6)` at the end.  That the words have no blank and no `#` in them, and that no word of the To
column but the first looks like an action, is part of an entry.

`readStatusRule_line` is what the regular expression makes of a line, for every entry: it takes those
with a comment whose To column is a single word, and no others.  The runner cuts the status at its
cap, so that the backend sees the first entries only (`shown`).
-/

namespace PowerManage.Firewall

open PathName Text Interaction Regex Sections List Function

/-- What ufw does with a packet. -/
inductive UfwVerb
  | allow
  | deny
  | reject
  | limit
deriving DecidableEq

def UfwVerb.word : UfwVerb → Str
  | .allow => "ALLOW"
  | .deny => "DENY"
  | .reject => "REJECT"
  | .limit => "LIMIT"

/-- Which packets a rule is for; those of `ufw route` are forwarded. -/
inductive UfwDirection
  | incoming
  | outgoing
  | forwarded
deriving DecidableEq

def UfwDirection.word : UfwDirection → Str
  | .incoming => "IN"
  | .outgoing => "OUT"
  | .forwarded => "FWD"

/-- Whether a rule logs new connections, or all packets. -/
inductive UfwLog
  | log
  | logAll
deriving DecidableEq

def UfwLog.word : UfwLog → Str
  | .log => "log"
  | .logAll => "log-all"

/-- A word of a column. -/
def IsCell (w : Str) : Prop := IsWord w ∧ '#' ∉ w

/-- A comment as it is kept: one line, with nothing to trim. -/
structure IsComment (s : Str) : Prop where
  newline : '\n' ∉ s
  head : ∃ c t, s = c :: t ∧ isBlank c = false
  last : ∃ t c, s = t ++ [c] ∧ isBlank c = false

instance decidableIsComment (s : Str) : Decidable (IsComment s) :=
  decidable_of_iff ('\n' ∉ s ∧ s.head?.any (fun c => !isBlank c) ∧
      s.getLast?.any fun c => !isBlank c) <| by
    simp only [Option.any_eq_true, List.head?_eq_some_iff, List.getLast?_eq_some_iff,
      Bool.not_eq_true']
    constructor
    · rintro ⟨hnewline, ⟨c, ⟨t, hhead⟩, hc⟩, d, ⟨u, hlast⟩, hd⟩
      exact ⟨hnewline, ⟨c, t, hhead, hc⟩, ⟨u, d, hlast, hd⟩⟩
    · rintro ⟨hnewline, ⟨c, t, hhead, hc⟩, ⟨u, d, hlast, hd⟩⟩
      exact ⟨hnewline, ⟨c, ⟨t, hhead⟩, hc⟩, d, ⟨u, hlast⟩, hd⟩

/-- A rule of `ufw`, as it is listed.  A rule without a comment has the empty one. -/
structure UfwEntry where
  toCells : List Str
  verb : UfwVerb
  direction : UfwDirection
  fromCells : List Str
  log : Option UfwLog
  comment : Str
  to_ne : toCells ≠ []
  to_cell : ∀ w ∈ toCells, IsCell w
  to_tail : ∀ w ∈ toCells.tail, ∀ v : UfwVerb, ¬ v.word <+: w
  from_ne : fromCells ≠ []
  from_cell : ∀ w ∈ fromCells, IsCell w
  comment_ok : comment = [] ∨ IsComment comment
deriving DecidableEq

def padLeft (n : Nat) (w : Str) : Str := List.replicate (n - w.length) ' ' ++ w

def padRight (n : Nat) (w : Str) : Str := w ++ List.replicate (n - w.length) ' '

def unwords (ws : List Str) : Str := [' '].intercalate ws

namespace UfwEntry

variable (e : UfwEntry)

def action : Str := e.verb.word ++ [' '] ++ e.direction.word

/-- What a numbered line has behind the From column. -/
def attribs : Str :=
  match e.log, e.direction with
  | none, .outgoing => "(out)"
  | none, _ => []
  | some l, .outgoing => "(" ++ l.word ++ ", out)"
  | some l, _ => "(" ++ l.word ++ ")"

/-- The line of an entry that has the number `n`. -/
def line (n : Nat) : Str :=
  "[".toList ++ padLeft 2 (decimal n) ++ "] ".toList ++ padRight 26 (unwords e.toCells) ++ [' '] ++
    padRight 12 e.action ++ padRight 26 (unwords e.fromCells) ++
    (if e.attribs = [] then [] else ' ' :: e.attribs) ++
    (if e.comment = [] then [] else " # ".toList ++ e.comment)

end UfwEntry

def statusHeader : List Str :=
  ["Status: active", "", "     To                         Action      From",
    "     --                         ------      ----"].map String.toList

def entryLines (es : List UfwEntry) : List Str :=
  (es.zipIdx 1).map fun x => x.1.line x.2

/-- What `ufw` prints when it is active. -/
def statusText (es : List UfwEntry) : Str := unlines (statusHeader ++ entryLines es)

/-! ## Blanks -/

variable {c : Char} {id ns s t w : Str} {es : List UfwEntry}

theorem isSpace_of_isBlank (h : isBlank c = true) : isSpace c = true := by
  simp only [isBlank, Bool.or_eq_true, decide_eq_true_eq] at h
  rcases h with (((rfl | rfl) | rfl) | rfl) | rfl <;> decide

theorem isBlank_of_isWord (h : IsWord w) : ∀ c ∈ w, isBlank c = false := by
  intro c hc
  rw [Bool.eq_false_iff]
  intro hblank
  have hspace := h.2 c hc
  rw [isSpace_of_isBlank hblank] at hspace
  cases hspace

theorem isBlank_of_isDigit (h : c.isDigit = true) : isBlank c = false := by
  rw [Bool.eq_false_iff]
  intro hblank
  simp only [isBlank, Bool.or_eq_true, decide_eq_true_eq] at hblank
  rcases hblank with (((rfl | rfl) | rfl) | rfl) | rfl <;> exact absurd h (by decide)

/-- Blanks between two columns. -/
def IsGap (u : Str) : Prop := u ≠ [] ∧ ∀ c ∈ u, isBlank c = true

theorem isGap_replicate_append (n : Nat) : IsGap (replicate n ' ' ++ [' ']) := by
  refine ⟨by simp, fun c hc => ?_⟩
  rcases mem_append.mp hc with hc | hc
  · rw [(mem_replicate.mp hc).2]
    rfl
  · rw [mem_singleton.mp hc]
    rfl

/-! ## The pieces of a line -/

def final (pre : List Str) : Cont (List Str) :=
  fun caps u => if u = [] then some (pre ++ caps) else none

theorem final_cons (pre : List Str) (x : Str) :
    (fun caps => final pre (x :: caps)) = final (pre ++ [x]) := by
  funext caps u
  rw [final, final, append_assoc]
  rfl

theorem avoids_ufwActionPart : Avoids ufwActionPart isBlank := by
  refine ((avoids_oneOf ?_).group).seq _
  simp only [forall_mem_cons]
  exact ⟨⟨_, _, rfl, rfl⟩, ⟨_, _, rfl, rfl⟩, ⟨_, _, rfl, rfl⟩, ⟨_, _, rfl, rfl⟩,
    forall_mem_nil _⟩

theorem fullMatch_start {sp₀ ds sp₁ sp₂ : Str} (hsp₀ : ∀ c ∈ sp₀, isBlank c = true)
    (hds : ds ≠ [] ∧ ∀ c ∈ ds, c.isDigit = true) (hsp₁ : IsGap sp₁) (hw : IsWord w)
    (hsp₂ : IsGap sp₂) (ht : Stops isBlank t) :
    ufwStatusRuleRE.fullMatch
        ("[" ++ (sp₀ ++ (ds ++ ("]" ++ (sp₁ ++ (w ++ (sp₂ ++ t))))))) =
      exec ufwActionPart (final [ds, w]) t := by
  have hword := isBlank_of_isWord hw
  have hdigit : ∀ c ∈ ds, isBlank c = false := fun c hc => isBlank_of_isDigit (hds.2 c hc)
  have hclose : Stops Char.isDigit ("]" ++ (sp₁ ++ (w ++ (sp₂ ++ t)))) := stops_cons rfl
  have hgap : Stops (fun c => !isBlank c) (sp₂ ++ t) :=
    stops_append hsp₂.1 (fun c hc => by rw [hsp₂.2 c hc]; rfl) t
  rw [fullMatch, ufwStatusRuleRE, blanks, exec_word_seq,
    exec_star_seq ?_ hsp₀ (stops_append hds.1 hdigit _), exec_group_plus_seq ?_ hds.1 hds.2 hclose,
    exec_word_seq, exec_plus_seq ?_ hsp₁.1 hsp₁.2 (stops_append hw.1 hword _),
    exec_group_plus_seq ?_ hw.1 (fun c hc => by rw [hword c hc]; rfl) hgap,
    exec_plus_seq avoids_ufwActionPart hsp₂.1 hsp₂.2 ht]
  · rfl
  · exact (avoids_plus fun c hc => by simpa using hc).seq _
  · exact (avoids_plus fun c hc => by rw [hc]; rfl).group.seq _
  · exact (avoids_word _ rfl).seq _
  · refine (avoids_plus fun c hc => ?_).group.seq _
    rw [Bool.eq_false_iff]
    intro hd
    rw [isBlank_of_isDigit hd] at hc
    cases hc

theorem exists_first_nonblank (h : ∃ c ∈ s, isBlank c = false) :
    ∃ u c t, s = u ++ c :: t ∧ (∀ d ∈ u, isBlank d = true) ∧ isBlank c = false := by
  induction s with
  | nil =>
    obtain ⟨c, hc, -⟩ := h
    cases hc
  | cons d s ih =>
    cases hd : isBlank d with
    | false => exact ⟨[], d, s, rfl, forall_mem_nil _, hd⟩
    | true =>
      obtain ⟨c, hc, hblank⟩ := h
      rcases mem_cons.mp hc with rfl | hc
      · rw [hd] at hblank
        cases hblank
      · obtain ⟨u, c', t, rfl, hu, hc'⟩ := ih ⟨c, hc, hblank⟩
        exact ⟨d :: u, c', t, rfl, forall_mem_cons.mpr ⟨hd, hu⟩, hc'⟩

theorem IsComment.nonblank_of_cut {v v' : Str} (h : IsComment s) (hcut : s = v ++ c :: v') :
    ∃ d ∈ c :: v', isBlank d = false := by
  obtain ⟨t, d, rfl, hd⟩ := h.last
  have hlast := congrArg getLast? hcut
  rw [getLast?_append_cons, getLast?_append_cons] at hlast
  exact ⟨d, mem_of_getLast? hlast.symm, hd⟩

theorem IsComment.ne_nil (h : IsComment s) : s ≠ [] := by
  obtain ⟨c, t, rfl, -⟩ := h.head
  exact cons_ne_nil c t

theorem IsComment.stops (h : IsComment s) (t : Str) : Stops isBlank (s ++ t) := by
  obtain ⟨c, u, rfl, hc⟩ := h.head
  exact stops_cons hc

theorem IsComment.not_newline (h : IsComment s) : ∀ c ∈ s, decide (c ≠ '\n') = true := by
  intro c hc
  rw [decide_eq_true_eq]
  rintro rfl
  exact h.newline hc

theorem exec_ufwCommentPart (pre : List Str) {sp comment : Str}
    (hsp : ∀ c ∈ sp, isBlank c = true) (hc : IsComment comment) :
    exec ufwCommentPart (final pre) (sp ++ ("#" ++ ([' '] ++ comment))) =
      some (pre ++ [comment]) := by
  have hword : Avoids (word "#") isBlank := avoids_word _ rfl
  have hstop : Stops isBlank ("#" ++ ([' '] ++ comment)) := stops_cons rfl
  rw [ufwCommentPart, exec_star_seq (hword.seq _) hsp hstop, exec_word_seq]
  have hstart := hc.stops []
  have hgroup := exec_group_plus_seq_lazy (b := star isBlank true) (k := final pre) (t := [])
    (r := pre ++ [comment]) hc.ne_nil hc.not_newline ?_ rfl
  · rw [append_nil] at hgroup hstart
    exact exec_star_seq_greedy (by simp [isBlank]) hstart hgroup
  · -- A shorter capture leaves something that is not blank.
    intro v d v' _ hcut
    cases hrest : exec (star isBlank true) (fun caps => final pre (v :: caps)) (d :: v' ++ []) with
    | none => rfl
    | some r =>
      obtain ⟨u, t, -, heq, ⟨hu, rfl⟩, hk⟩ := exists_of_exec hrest
      have hnil : t = [] := by
        by_contra hne
        rw [final, if_neg hne] at hk
        cases hk
      rw [hnil, append_nil, append_nil] at heq
      obtain ⟨x, hx, hblank⟩ := hc.nonblank_of_cut hcut
      rw [hu x (heq ▸ hx)] at hblank
      cases hblank

variable {β : Type} (k : Cont β)

theorem exec_ufwCommentPart_none (hs : ∃ c ∈ s, isBlank c = false)
    (hash : '#' ∉ s) : exec ufwCommentPart k (s ++ t) = none := by
  obtain ⟨u, c, v, rfl, hu, hc⟩ := exists_first_nonblank hs
  have hword : Avoids (word "#") isBlank := avoids_word _ rfl
  have hne : '#' ≠ c := by
    rintro rfl
    exact hash (mem_append_right u (mem_cons_self ..))
  rw [ufwCommentPart, append_assoc, cons_append,
    exec_star_seq (hword.seq _) hu (stops_cons hc), exec_seq]
  exact exec_word_of_ne hne

theorem exec_ufwVerbPart (v : UfwVerb) (t : Str) :
    exec ufwVerbPart k (v.word ++ t) = k [] t := by
  cases v <;> exact exec_oneOf (by decide) (by decide)

theorem exec_ufwVerbPart_none (h : ∀ v : UfwVerb, ¬ v.word <+: s) : exec ufwVerbPart k s = none := by
  refine exec_oneOf_of_not_start ?_
  simp only [forall_mem_cons]
  exact ⟨h .allow, h .deny, h .reject, h .limit, forall_mem_nil _⟩

/-- The From column and the comment. -/
theorem exec_ufwFromPart (pre : List Str) {source sp comment : Str} (hsource : IsComment source)
    (hhash : '#' ∉ source) (hsp : ∀ c ∈ sp, isBlank c = true) (hcomment : IsComment comment) :
    exec (seq (group (plus (fun c => decide (c ≠ '\n')) false)) ufwCommentPart)
        (final pre) (source ++ (sp ++ ("#" ++ ([' '] ++ comment)))) =
      some (pre ++ [source, comment]) := by
  refine exec_group_plus_seq_lazy hsource.ne_nil hsource.not_newline ?_ ?_
  · intro u c u' _ hcut
    refine exec_ufwCommentPart_none _ (hsource.nonblank_of_cut hcut) fun hmem => hhash ?_
    rw [hcut]
    exact mem_append_right u hmem
  · rw [final_cons, exec_ufwCommentPart _ hsp hcomment]
    simp

theorem IsComment.append {u : Str} (hs : IsComment s) (hu : '\n' ∉ u) (ht : IsComment t) :
    IsComment (s ++ (u ++ t)) := by
  refine ⟨?_, ?_, ?_⟩
  · simp only [mem_append, not_or]
    exact ⟨hs.newline, hu, ht.newline⟩
  · obtain ⟨c, s', rfl, hc⟩ := hs.head
    exact ⟨c, _, rfl, hc⟩
  · obtain ⟨t', c, rfl, hc⟩ := ht.last
    exact ⟨s ++ (u ++ t'), c, by simp only [append_assoc], hc⟩

theorem avoids_direction : Avoids (oneOf "IN" ["OUT"]) isBlank := by
  refine avoids_oneOf ?_
  simp only [forall_mem_cons]
  exact ⟨⟨_, _, rfl, rfl⟩, ⟨_, _, rfl, rfl⟩, forall_mem_nil _⟩

theorem exec_direction {d : UfwDirection} (hd : d ≠ .forwarded) (t : Str) :
    exec (oneOf "IN" ["OUT"]) k (d.word ++ t) = k [] t := by
  cases d with
  | forwarded => exact absurd rfl hd
  | incoming => exact exec_oneOf (by decide) (by decide)
  | outgoing => exact exec_oneOf (by decide) (by decide)

theorem exec_direction_forwarded (t : Str) :
    exec (oneOf "IN" ["OUT"]) k (UfwDirection.forwarded.word ++ t) = none := by
  refine exec_oneOf_of_not_start ?_
  simp only [forall_mem_cons]
  exact ⟨fun h => absurd (cons_prefix_cons.mp h).1 (by decide),
    fun h => absurd (cons_prefix_cons.mp h).1 (by decide), forall_mem_nil _⟩

/-- The From column as it is captured: `FWD` is taken for a part of it. -/
def fromColumn (d : UfwDirection) (gap source : Str) : Str :=
  if d = .forwarded then d.word ++ (gap ++ source) else source

theorem exec_ufwActionPart (pre : List Str) (v : UfwVerb) (d : UfwDirection)
    {gap source sp comment : Str} (hgap : IsGap gap) (hsource : IsComment source)
    (hcolumn : IsComment (fromColumn d gap source)) (hhash : '#' ∉ fromColumn d gap source)
    (hsp : ∀ c ∈ sp, isBlank c = true) (hcomment : IsComment comment) :
    exec ufwActionPart (final pre)
        (v.word ++ ([' '] ++ (d.word ++ (gap ++ (source ++ (sp ++ ("#" ++ ([' '] ++ comment)))))))) =
      some (pre ++ [v.word, fromColumn d gap source, comment]) := by
  have hblank : ∀ c ∈ [' '], isBlank c = true := by simp [isBlank]
  have hstop : ∀ t, Stops isBlank (d.word ++ t) := fun t => by cases d <;> exact stops_cons rfl
  have hcapture := exec_ufwFromPart (pre ++ [v.word]) hcolumn hhash hsp hcomment
  rw [← final_cons, append_assoc, singleton_append] at hcapture
  rw [ufwActionPart, exec_seq, exec, exec_ufwVerbPart, take_consumed]
  by_cases hd : d = .forwarded
  · -- The expression knows no such direction, and the word goes to the column.
    rw [fromColumn, if_pos hd, append_assoc, append_assoc] at hcapture
    rw [fromColumn, if_pos hd, exec_seq, exec_opt, blanks,
      exec_plus_seq avoids_direction (cons_ne_nil _ _) hblank (hstop _), hd,
      exec_direction_forwarded, Option.none_or, ← hd]
    exact exec_plus_seq_greedy (cons_ne_nil _ _) hblank (hstop _) hcapture
  · rw [fromColumn, if_neg hd] at hcapture ⊢
    refine exec_opt_seq ?_
    rw [exec_seq, blanks, exec_plus_seq avoids_direction (cons_ne_nil _ _) hblank (hstop _),
      exec_direction _ hd]
    exact exec_plus_seq_greedy hgap.1 hgap.2 (hsource.stops _) hcapture

/-! ## Lines -/

theorem hash_notMem_unwords {ws : List Str} (h : ∀ w ∈ ws, IsCell w) :
    '#' ∉ unwords ws := by
  intro hmem
  rcases mem_intercalate hmem with hmem | ⟨w, hw, hmem⟩
  · exact absurd hmem (by decide)
  · exact (h w hw).2 hmem

theorem IsCell.isComment (h : IsCell w) : IsComment w where
  newline hn := absurd (h.1.2 _ hn) (by decide)
  head := by
    cases w with
    | nil => exact absurd rfl h.1.1
    | cons c t => exact ⟨c, t, rfl, isBlank_of_isWord h.1 c (mem_cons_self ..)⟩
  last := by
    rcases eq_nil_or_concat' w with rfl | ⟨t, c, rfl⟩
    · exact absurd rfl h.1.1
    · have hmem : c ∈ t ++ [c] := mem_append_right t (mem_singleton_self c)
      exact ⟨t, c, rfl, isBlank_of_isWord h.1 c hmem⟩

theorem unwords_cons_cons (w w' : Str) (ws : List Str) :
    unwords (w :: w' :: ws) = w ++ ([' '] ++ unwords (w' :: ws)) := by
  rw [unwords, intercalate_cons_cons, append_assoc]
  rfl

theorem isComment_unwords {ws : List Str} (h : ∀ x ∈ w :: ws, IsCell x) :
    IsComment (unwords (w :: ws)) := by
  induction ws generalizing w with
  | nil =>
    rw [unwords, intercalate_singleton]
    exact (h w (mem_singleton_self w)).isComment
  | cons w' ws ih =>
    obtain ⟨hw, hws⟩ := forall_mem_cons.mp h
    rw [unwords_cons_cons]
    exact hw.isComment.append (by decide) (ih hws)

namespace UfwEntry

variable (e : UfwEntry) (n : Nat)

theorem isComment_from : IsComment (unwords e.fromCells) := by
  have hne := e.from_ne
  have hcell := e.from_cell
  cases hfrom : e.fromCells with
  | nil => exact absurd hfrom hne
  | cons w ws =>
    rw [hfrom] at hcell
    exact isComment_unwords hcell

theorem attribs_cases : e.attribs = [] ∨ IsComment e.attribs ∧ '#' ∉ e.attribs := by
  unfold attribs
  split
  · exact .inr (by decide)
  · exact .inl rfl
  · rename_i l _ _
    cases l <;> exact .inr (by decide)
  · rename_i l _ _
    cases l <;> exact .inr (by decide)

/-- The blanks that fill up a column of this width. -/
def pad (width : Nat) (w : Str) : Str := List.replicate (width - w.length) ' '

theorem isBlank_pad {width : Nat} {w : Str} : ∀ c ∈ pad width w, isBlank c = true := fun c hc =>
  (isGap_replicate_append _).2 c (mem_append_left _ hc)

theorem isGap_pad_action : IsGap (pad 12 e.action) := by
  have hpos : 0 < 12 - e.action.length := by
    unfold action
    cases e.verb <;> cases e.direction <;> decide
  refine ⟨fun hnil => ?_, isBlank_pad⟩
  have hlength := congrArg length hnil
  rw [pad, length_replicate, length_nil] at hlength
  omega

/-- The From column with what is behind it. -/
def source : Str :=
  unwords e.fromCells ++
    if e.attribs = [] then [] else pad 26 (unwords e.fromCells) ++ [' '] ++ e.attribs

def sourcePad : Str := if e.attribs = [] then pad 26 (unwords e.fromCells) else []

def column : Str := fromColumn e.direction (pad 12 e.action) e.source

theorem newline_notMem_pad {width : Nat} {w : Str} : '\n' ∉ pad width w := fun h =>
  absurd (mem_replicate.mp h).2 (by decide)

theorem hash_notMem_pad {width : Nat} {w : Str} : '#' ∉ pad width w := fun h =>
  absurd (mem_replicate.mp h).2 (by decide)

theorem isComment_source : IsComment e.source := by
  unfold source
  split
  · rw [append_nil]
    exact e.isComment_from
  · rename_i hne
    refine e.isComment_from.append ?_ (e.attribs_cases.resolve_left hne).1
    rw [mem_append, not_or]
    exact ⟨newline_notMem_pad, by decide⟩

theorem hash_notMem_source : '#' ∉ e.source := by
  unfold source
  rw [mem_append, not_or]
  refine ⟨hash_notMem_unwords e.from_cell, ?_⟩
  split
  · exact not_mem_nil
  · rename_i hne
    simp only [mem_append, not_or]
    exact ⟨⟨hash_notMem_pad, by decide⟩, (e.attribs_cases.resolve_left hne).2⟩

theorem isComment_column : IsComment e.column := by
  unfold column fromColumn
  split
  · have hword : IsComment e.direction.word := by cases e.direction <;> decide
    exact hword.append newline_notMem_pad e.isComment_source
  · exact e.isComment_source

theorem hash_notMem_column : '#' ∉ e.column := by
  unfold column fromColumn
  split
  · simp only [mem_append, not_or]
    exact ⟨by cases e.direction <;> decide, hash_notMem_pad, e.hash_notMem_source⟩
  · exact e.hash_notMem_source

def afterTo : Str :=
  e.verb.word ++ ([' '] ++ (e.direction.word ++ (pad 12 e.action ++ (e.source ++ (e.sourcePad ++
    (if e.comment = [] then [] else [' '] ++ ("#".toList ++ ([' '] ++ e.comment))))))))

theorem line_eq :
    e.line n = "[" ++ (pad 2 (decimal n) ++ (decimal n ++ ("]" ++ ([' '] ++ (unwords e.toCells ++
      ((pad 26 (unwords e.toCells) ++ [' ']) ++ e.afterTo)))))) := by
  have hclose : "] " = "]" ++ [' '] := by decide
  have hmark : " # " = [' '] ++ "#" ++ [' '] := by decide
  have hsource : padRight 26 (unwords e.fromCells) ++
      (if e.attribs = [] then [] else ' ' :: e.attribs) = e.source ++ e.sourcePad := by
    unfold source sourcePad padRight pad
    split <;> simp
  rw [line, hclose, hmark, append_assoc _ (padRight 26 (unwords e.fromCells)), hsource]
  simp only [padLeft, padRight, afterTo, action, pad, append_assoc]

theorem notMem_line {c : Char} (hmark : c ∉ "[] ".toList) (hdigit : c.isDigit = false)
    (haction : c ∉ e.action) (hto : c ∉ unwords e.toCells) (hsource : c ∉ e.source)
    (hcomment : c ∉ if e.comment = [] then [] else [' '] ++ ("#".toList ++ ([' '] ++ e.comment))) :
    c ∉ e.line n := by
  have hnum : c ∉ decimal n := by
    intro hmem
    rw [isDigit_of_mem_decimal hmem] at hdigit
    cases hdigit
  have hpad : ∀ width w, c ∉ pad width w := by
    rintro width w hmem
    rw [(mem_replicate.mp hmem).2] at hmark
    exact hmark (by decide)
  have hsourcePad : c ∉ e.sourcePad := by
    unfold sourcePad
    split
    · exact hpad _ _
    · exact not_mem_nil
  have hopen : c ∉ "[".toList := fun hmem => hmark (by simp_all)
  have hclose : c ∉ "]".toList := fun hmem => hmark (by simp_all)
  have hspace : c ∉ [' '] := fun hmem => hmark (by simp_all)
  rw [line_eq, afterTo]
  simp only [action, mem_append, not_or] at haction ⊢
  exact ⟨hopen, hpad _ _, hnum, hclose, hspace, hto, ⟨hpad _ _, hspace⟩, haction.1.1, hspace,
    haction.2, hpad _ _, hsource, hsourcePad, hcomment⟩

theorem hash_notMem_line (h : e.comment = []) : '#' ∉ e.line n := by
  refine e.notMem_line n (by decide) rfl ?_ (hash_notMem_unwords e.to_cell) e.hash_notMem_source
    (by rw [if_pos h]; exact not_mem_nil)
  unfold action
  cases e.verb <;> cases e.direction <;> decide

theorem newline_notMem_line : '\n' ∉ e.line n := by
  refine e.notMem_line n (by decide) rfl ?_
    (newline_notMem_intercalate fun w hw => (e.to_cell w hw).1) e.isComment_source.newline ?_
  · unfold action
    cases e.verb <;> cases e.direction <;> decide
  · rcases e.comment_ok with hnil | hcomment
    · rw [if_pos hnil]
      exact not_mem_nil
    · rw [if_neg hcomment.ne_nil]
      simp only [mem_append, not_or]
      exact ⟨by decide, by decide, by decide, hcomment.newline⟩

theorem line_concat (h : IsComment e.comment) :
    ∃ t c, e.line n = t ++ [c] ∧ isBlank c = false := by
  obtain ⟨t, c, heq, hc⟩ := h.last
  rw [line, if_neg h.ne_nil, heq, ← append_assoc, ← append_assoc]
  exact ⟨_, c, rfl, hc⟩

theorem trimEnd_line (h : IsComment e.comment) : trimEnd (e.line n) = e.line n := by
  obtain ⟨t, c, heq, hc⟩ := e.line_concat n h
  rw [heq, trimEnd, rdropWhile_concat_neg]
  intro hblank
  rw [Bool.or_eq_true, decide_eq_true_eq, decide_eq_true_eq] at hblank
  rcases hblank with rfl | rfl <;> exact absurd hc (by decide)

theorem stops_afterTo : Stops isBlank e.afterTo := by
  rw [afterTo]
  cases e.verb <;> exact stops_cons rfl

theorem exec_afterTo (h : IsComment e.comment) (pre : List Str) :
    exec ufwActionPart (final pre) e.afterTo =
      some (pre ++ [e.verb.word, e.column, e.comment]) := by
  rw [afterTo, if_neg h.ne_nil, ← append_assoc e.sourcePad]
  refine exec_ufwActionPart pre e.verb e.direction e.isGap_pad_action e.isComment_source
    e.isComment_column e.hash_notMem_column (fun c hc => ?_) h
  rcases mem_append.mp hc with hc | hc
  · unfold sourcePad at hc
    split at hc
    · exact isBlank_pad c hc
    · cases hc
  · rw [mem_singleton.mp hc]
    rfl

end UfwEntry

theorem prefix_of_prefix_append {v : Str} (hv : ' ' ∉ v) (h : v <+: w ++ ' ' :: t) : v <+: w := by
  rcases prefix_or_prefix_of_prefix h (prefix_append w (' ' :: t)) with h' | ⟨r, rfl⟩
  · exact h'
  cases r with
  | nil => rw [append_nil]
  | cons c r =>
    rw [prefix_append_right_inj, cons_prefix_cons] at h
    rw [h.1] at hv
    exact absurd (mem_append_right w (mem_cons_self ..)) hv

theorem exec_ufwActionPart_none (ws : List Str)
    (hw : ∀ v : UfwVerb, ¬ v.word <+: w) :
    exec ufwActionPart k (unwords (w :: ws) ++ ' ' :: t) = none := by
  have hcut : ∃ t', unwords (w :: ws) ++ ' ' :: t = w ++ ' ' :: t' := by
    cases ws with
    | nil => exact ⟨t, by rw [unwords, intercalate_singleton]⟩
    | cons w' ws => exact ⟨_, by rw [unwords_cons_cons, append_assoc]; rfl⟩
  obtain ⟨t', ht'⟩ := hcut
  rw [ht']
  refine exec_ufwVerbPart_none _ fun v hpre => hw v (prefix_of_prefix_append ?_ hpre)
  cases v <;> decide

theorem needs_hash : Needs ufwStatusRuleRE '#' := by
  have hcomment : Needs ufwCommentPart '#' :=
    ((needs_word (mem_singleton_self '#')).seq_left _).seq_right _
  have haction : Needs ufwActionPart '#' :=
    (((hcomment.seq_right _).seq_right _).seq_right _).seq_right _
  exact ((((((haction.seq_right _).seq_right _).seq_right _).seq_right _).seq_right _).seq_right
    _).seq_right _

/-- The columns of a line, if it has a comment and its To column is a single word. -/
def UfwEntry.seen (e : UfwEntry) (n : Nat) : Option StatusRule :=
  match e.toCells with
  | [w] =>
    if e.comment = [] then none
    else some ⟨decimal n, w, e.verb.word, e.column, e.comment⟩
  | _ => none

theorem UfwEntry.seen_of_comment_eq_nil {e : UfwEntry} (h : e.comment = []) (n : Nat) :
    e.seen n = none := by
  unfold seen
  split
  · rw [if_pos h]
  · rfl

theorem readStatusRule_of_hash {l : Str} (h : '#' ∉ l) : readStatusRule (trimEnd l) = none := by
  have hhash : '#' ∉ trimEnd l := fun hmem => h (( rdropWhile_prefix _ _).subset hmem)
  rw [readStatusRule, needs_hash.fullMatch_eq_none hhash]

theorem readStatusRule_line (e : UfwEntry) (n : Nat) :
    readStatusRule (trimEnd (e.line n)) = e.seen n := by
  rcases e.comment_ok with hnil | hcomment
  · rw [readStatusRule_of_hash (e.hash_notMem_line n hnil), UfwEntry.seen_of_comment_eq_nil hnil]
  have hdigits : decimal n ≠ [] ∧ ∀ c ∈ decimal n, c.isDigit = true :=
    ⟨(isWord_decimal n).1, fun c hc => isDigit_of_mem_decimal hc⟩
  have hblank : IsGap [' '] := ⟨cons_ne_nil _ _, by simp [isBlank]⟩
  have hcells := e.to_cell
  have htail := e.to_tail
  rw [e.trimEnd_line n hcomment, readStatusRule, e.line_eq n, UfwEntry.seen]
  cases hto : e.toCells with
  | nil => exact absurd hto e.to_ne
  | cons w ws =>
    rw [hto] at hcells htail
    have hw := (hcells w (mem_cons_self ..)).1
    cases ws with
    | nil =>
      have hpad : IsGap (UfwEntry.pad 26 w ++ [' ']) := isGap_replicate_append _
      rw [unwords, intercalate_singleton, fullMatch_start UfwEntry.isBlank_pad hdigits hblank hw
        hpad e.stops_afterTo, e.exec_afterTo hcomment]
      exact (if_neg hcomment.ne_nil).symm
    | cons w' ws =>
      -- Behind the first word comes one that is no action.
      have hrest := (isComment_unwords (forall_mem_cons.mp hcells).2).stops
      have hnone := htail w' (mem_cons_self ..)
      rw [unwords_cons_cons, append_assoc, append_assoc,
        fullMatch_start UfwEntry.isBlank_pad hdigits hblank hw hblank (hrest _), UfwEntry.pad,
        ← replicate_succ', replicate_succ, cons_append, exec_ufwActionPart_none _ ws hnone]

/-! ## The whole status -/

/-- The status is within the runner's cap. -/
def Within (es : List UfwEntry) : Prop :=
  Exec.total byteCount (statusHeader ++ entryLines es) ≤ Exec.maxOutputBytes

instance decidableWithin (es : List UfwEntry) : Decidable (Within es) :=
  inferInstanceAs (Decidable (_ ≤ _))

/-- The entries of which the runner keeps the lines. -/
def shown (es : List UfwEntry) : List UfwEntry :=
  es.take ((Exec.kept byteCount 0 (statusHeader ++ entryLines es)).length - statusHeader.length)

theorem newline_notMem_statusLine {l : Str} (h : l ∈ statusHeader ++ entryLines es) : '\n' ∉ l := by
  rcases mem_append.mp h with h | h
  · have hheader : ∀ x ∈ statusHeader, '\n' ∉ x := by decide
    exact hheader l h
  · obtain ⟨x, -, rfl⟩ := mem_map.mp h
    exact x.1.newline_notMem_line x.2

theorem entryLines_take (n : Nat) : entryLines (es.take n) = (entryLines es).take n := by
  refine ext_getElem? fun i => ?_
  simp only [entryLines, getElem?_map, getElem?_zipIdx, getElem?_take]
  split <;> rfl

theorem kept_status (es : List UfwEntry) :
    Exec.kept byteCount 0 (statusHeader ++ entryLines es) = statusHeader ++ entryLines (shown es) := by
  have hpre : Exec.kept byteCount 0 (statusHeader ++ entryLines es) <+: _ := Exec.kept_prefix ..
  have hheader : statusHeader <+: Exec.kept byteCount 0 (statusHeader ++ entryLines es) :=
    Exec.prefix_kept (prefix_append ..) (by decide +kernel)
  rw [shown, entryLines_take]
  have htake := prefix_iff_eq_take.mp hpre
  rw [take_append, take_of_length_le hheader.length_le] at htake
  exact htake

theorem shown_initial (es : List UfwEntry) : shown es <+: es := take_prefix ..

theorem length_shown_lt (es : List UfwEntry) : (shown es).length < 2 ^ 63 := by
  have hkept : 0 + Exec.total byteCount (Exec.kept byteCount 0 (statusHeader ++ entryLines es)) ≤ _ :=
    Exec.total_kept_le (Nat.zero_le _) _
  have hlength := Exec.length_le_total byteCount (entryLines (shown es))
  rw [kept_status, Exec.total_append] at hkept
  have hlines : (entryLines (shown es)).length = (shown es).length := by
    rw [entryLines, length_map, length_zipIdx]
  rw [hlines] at hlength
  have hcap : Exec.maxOutputBytes < 2 ^ 63 := by decide
  omega

theorem statusLines_stdout (es : List UfwEntry) :
    statusLines (Exec.stdout (statusText es)) =
      (statusHeader ++ entryLines (shown es) ++ [] ::
        if Within es then [] else [Exec.truncated]).map trimEnd := by
  have hkept : ∀ l ∈ statusHeader ++ entryLines (shown es), '\n' ∉ l := fun l hl =>
    newline_notMem_statusLine hl
  rw [statusLines, statusText, Exec.stdout_unlines fun l hl => newline_notMem_statusLine hl,
    kept_status]
  refine congrArg (map trimEnd) ?_
  by_cases h : Within es
  · rw [if_pos h, if_neg (not_lt.mpr h), append_nil]
    exact lines_unlines hkept
  · rw [if_neg h, if_pos (not_le.mp h)]
    refine (lines_append _ _).trans ?_
    rw [lines_unlines hkept, append_assoc]
    rfl

theorem filterMap_status (f : StatusRule → Option β) (es : List UfwEntry) :
    (statusLines (Exec.stdout (statusText es))).filterMap (fun l => (readStatusRule l).bind f) =
      ((shown es).zipIdx 1).filterMap fun x => (x.1.seen x.2).bind f := by
  have hnone : ∀ ls : List Str, (∀ l ∈ ls, '#' ∉ l) →
      ls.filterMap ((fun l => (readStatusRule l).bind f) ∘ trimEnd) = [] := by
    intro ls hls
    refine filterMap_eq_nil_iff.mpr fun l hl => ?_
    rw [comp_apply, readStatusRule_of_hash (hls l hl), Option.bind_none]
  have hend : ∀ l ∈ [] :: if Within es then [] else [Exec.truncated], '#' ∉ l := by
    split <;> decide
  rw [statusLines_stdout, filterMap_map, filterMap_append, filterMap_append, hnone _ (by decide),
    hnone _ hend, nil_append, append_nil, entryLines, filterMap_map]
  refine filterMap_congr fun x _ => ?_
  rw [comp_apply, comp_apply, readStatusRule_line]

/-! ## What the backend reads -/

/-- An entry is known to the backend if its To column is a single word. -/
def UfwEntry.Visible (e : UfwEntry) : Prop := e.toCells.length = 1

instance decidableVisible (e : UfwEntry) : Decidable e.Visible :=
  inferInstanceAs (Decidable (_ = _))

def UfwEntry.parse (ns : Str) (e : UfwEntry) : Option Rule :=
  (e.seen 0).bind (ufwParseLine ns)

theorem ufwParseLine_seen (ns : Str) (e : UfwEntry) (n : Nat) :
    (e.seen n).bind (ufwParseLine ns) = e.parse ns := by
  unfold UfwEntry.parse UfwEntry.seen
  split
  · split <;> rfl
  · rfl

theorem ufwParseStatus_stdout
    (h : contains (Exec.stdout (statusText es)) "Status: inactive" = false) :
    ufwParseStatus (Exec.stdout (statusText es)) ns = (shown es).filterMap (UfwEntry.parse ns) := by
  rw [ufwParseStatus, if_neg (Bool.eq_false_iff.mp h), filterMap_status]
  simp only [ufwParseLine_seen]
  have hmap := filterMap_map (f := Prod.fst) (g := UfwEntry.parse ns) (l := (shown es).zipIdx 1)
  rw [zipIdx_map_fst] at hmap
  exact hmap.symm

/-- An entry that is found when a comment is looked up. -/
def UfwEntry.Found (ident : Str) (e : UfwEntry) : Prop := e.Visible ∧ e.comment = ident

instance decidableFound (ident : Str) (e : UfwEntry) : Decidable (e.Found ident) :=
  inferInstanceAs (Decidable (_ ∧ _))

theorem seen_bind_number {ident : Str} (hident : ident ≠ []) (e : UfwEntry) (n : Nat) :
    ((e.seen n).bind fun m => if m.comment = ident then atoi m.num else none) =
      if e.Found ident then atoi (decimal n) else none := by
  unfold UfwEntry.seen
  split
  · rename_i w hto
    have hvisible : e.Visible := by rw [UfwEntry.Visible, hto]; rfl
    by_cases hcomment : e.comment = ident
    · have hne : e.comment ≠ [] := fun h => hident (hcomment.symm.trans h)
      rw [if_neg hne, Option.bind_some, if_pos hcomment, if_pos ⟨hvisible, hcomment⟩]
    have hnot : ¬ e.Found ident := fun h => hcomment h.2
    split
    · rfl
    · rw [Option.bind_some, if_neg hcomment]
  · rename_i hto
    have hnot : ¬ e.Found ident := by
      rintro ⟨hlength, -⟩
      obtain ⟨w, hw⟩ := length_eq_one_iff.mp hlength
      exact hto w hw
    rw [if_neg hnot, Option.bind_none]

theorem ufwFindRuleNumber_stdout (es : List UfwEntry) :
    ufwFindRuleNumber (Exec.stdout (statusText es)) ns id =
      ((shown es).zipIdx 1).findSome? fun x =>
        if x.1.Found (ufwCommentIdentity ns id) then atoi (decimal x.2) else none := by
  have hident : ufwCommentIdentity ns id ≠ [] := by simp [ufwCommentIdentity]
  rw [ufwFindRuleNumber, ← head?_filterMap, filterMap_status, head?_filterMap]
  simp only [seen_bind_number hident]

theorem findSome?_of_not_found {ident : Str} {es : List UfwEntry} (n : Nat)
    (h : ∀ e ∈ es, ¬ e.Found ident) :
    ((es.zipIdx n).findSome? fun x =>
      if x.1.Found ident then atoi (decimal x.2) else none) = none := by
  rw [findSome?_eq_none_iff]
  rintro ⟨x, n⟩ hmem
  exact if_neg (h x (fst_mem_of_mem_zipIdx hmem))

/-- The lookup finds the first entry that is shown and has the comment in a line that can be read,
if there is one. -/
theorem ufwFindRuleNumber_spec (ns id : Str) (es : List UfwEntry) :
    (ufwFindRuleNumber (Exec.stdout (statusText es)) ns id = none ∧
        ∀ e ∈ shown es, ¬ e.Found (ufwCommentIdentity ns id)) ∨
      ∃ pre e post, es = pre ++ e :: post ∧ e.Found (ufwCommentIdentity ns id) ∧
        ufwFindRuleNumber (Exec.stdout (statusText es)) ns id =
          some ((pre.length + 1 : Nat) : Int) := by
  rw [ufwFindRuleNumber_stdout]
  cases hfind : (shown es).find? fun e => decide (e.Found (ufwCommentIdentity ns id)) with
  | none =>
    have hnone : ∀ e ∈ shown es, ¬ e.Found (ufwCommentIdentity ns id) := fun e he hfound =>
      find?_eq_none.mp hfind e he (decide_eq_true hfound)
    exact .inl ⟨findSome?_of_not_found 1 hnone, hnone⟩
  | some e =>
    obtain ⟨he, pre, post, hshown, hpre⟩ := find?_eq_some_iff_append.mp hfind
    have hpre' : ∀ x ∈ pre, ¬ x.Found (ufwCommentIdentity ns id) := by
      intro x hx
      have hnot := hpre x hx
      rwa [Bool.not_eq_true', decide_eq_false_iff_not] at hnot
    have hroom := length_shown_lt es
    obtain ⟨rest, hrest⟩ := shown_initial es
    rw [hshown, length_append, length_cons] at hroom
    rw [hshown, append_assoc] at hrest
    refine .inr ⟨pre, e, post ++ rest, hrest.symm, of_decide_eq_true he, ?_⟩
    rw [hshown, zipIdx_append, findSome?_append, findSome?_of_not_found 1 hpre', Option.none_or,
      zipIdx_cons, findSome?_cons, if_pos (of_decide_eq_true he), atoi_decimal, add_comm 1,
      if_pos (by omega)]

end PowerManage.Firewall
