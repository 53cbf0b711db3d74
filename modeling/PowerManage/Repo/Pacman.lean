import PowerManage.Lib.Sections
import PowerManage.Lib.Transition
import PowerManage.Repo.Validate

/-!
# Repositories in pacman.conf

`Apply` takes the section of a repository out of `/etc/pacman.conf`, if the text contains its header,
and appends it again; `Remove` takes it out.  Which sections pacman asks first is decided by their
order in the file.

An `Apply` of a repository that is configured already therefore moves its section to the end, past
those that were applied after it, and a `Remove` reports a change whenever the header is anywhere in
the text, also in a comment (`moved_section`).  `declarative_iff` says when a call does what it should
in any state that calls can lead to.
-/

namespace PowerManage.Repo.Pacman

open PathName Sections Transition List

/-! ## The editor -/

/-- The section of this name is left out. -/
def removeLines (name : Str) : Bool → List Line → List Line
  | _, [] => []
  | inSection, l :: ls =>
    if trimSpace l = header name then removeLines name true ls
    else if inSection && !bracket l then removeLines name true ls
    else l :: removeLines name false ls

def removePacmanSection (content name : Str) : Str :=
  join (removeLines name false (lines content))

def sectionText (name : Str) (c : PacmanConfig) : Str :=
  '\n' :: header name ++ "\n" ++
    (if c.sigLevel ≠ [] then "SigLevel = " ++ c.sigLevel ++ "\n" else []) ++
    "Server = " ++ c.server ++ "\n"

def mentions (confStr name : Str) : Bool := Text.contains confStr (header name)

def newConf (confStr name : Str) (c : PacmanConfig) : Str :=
  (if mentions confStr name then removePacmanSection confStr name else confStr) ++ sectionText name c

/-- What a call reports. -/
structure Outcome where
  stdout : Str
  changed : Bool
deriving DecidableEq

/-- What `pacman -Sy` printed, and how it failed, if it did. -/
structure Sync where
  stdout : Str
  err : Option Str
deriving DecidableEq

def Sync.log (y : Sync) : Str :=
  y.stdout ++ y.err.elim [] fun err =>
    "warning: failed to sync repository database: ".toList ++ err ++ "\n".toList

variable (conf : Option Str)

/-- `applyPacman` on the file, which may be absent. -/
def applyPacman (name : Str) (c : PacmanConfig) (sync : Sync) :
    Outcome × Option Str :=
  let confStr := conf.getD []
  if newConf confStr name c = confStr then
    (⟨"repository " ++ name ++ " already configured\n", false⟩, conf)
  else
    (⟨"configured repository: " ++ name ++ "\n" ++ sync.log, true⟩,
      some (newConf confStr name c))

def removePacman (name : Str) : Outcome × Option Str :=
  let confStr := conf.getD []
  if mentions confStr name = false then
    (⟨"repository " ++ name ++ " not found, nothing to remove\n", false⟩, conf)
  else
    (⟨"removed repository: " ++ name ++ "\n", true⟩,
      some (removePacmanSection confStr name))

/-! ## Histories of calls -/

/-- The calls of the manager. -/
inductive Call
  | apply (name : Str) (c : PacmanConfig) (sync : Sync)
  | remove (name : Str)
deriving DecidableEq

def Call.name : Call → Str
  | .apply name _ _ | .remove name => name

def Call.accepted (parse : UrlParser) : Call → Bool
  | .apply name c _ =>
    ((validateName name).or ((validatePacmanName name).or (validatePacman parse c))).isNone
  | .remove name => ((validateName name).or (validatePacmanName name)).isNone

def Call.run : Call → Outcome × Option Str
  | .apply name c sync => applyPacman conf name c sync
  | .remove name => removePacman conf name

/-- The configuration, and what callers have asked for. -/
structure State where
  conf : Option Str
  /-- The values that a repository has been configured with, if it has not been removed since. -/
  applied : Str → Option PacmanConfig

def State.text (s : State) : Str := s.conf.getD []

def State.lines (s : State) : List Line := Sections.lines s.text

def after (s : State) (call : Call) : State where
  conf := (call.run s.conf).2
  applied := Function.update s.applied call.name
    (match call with
    | .apply _ c _ => some c
    | .remove _ => none)

def step (parse : UrlParser) (s : State) (call : Call) : Option State :=
  if call.accepted parse then some (after s call) else none

def initial : State := ⟨conf, fun _ => none⟩

/-! ## What should hold -/

/-- What each call promises. -/
structure Declarative (s : State) (call : Call) : Prop where
  changed : (call.run s.conf).1.changed = true ↔ (after s call).conf ≠ s.conf
  again : ∀ name c sync, call = .apply name c sync → s.applied name = some c →
    (after s call).conf = s.conf
  kept : (others call.name none s.lines).Sublist (others call.name none (after s call).lines)
  order : OnlyNamed call.name (headers s.lines) (headers (after s call).lines)

/-- A header that the text mentions heads a section, and an applied repository has no section yet or
the last one. -/
def Orderly (s : State) : Call → Prop
  | .remove name => mentions s.text name = true → name ∈ headers s.lines
  | .apply name c _ => name ∈ headers s.lines →
      (headers s.lines).getLast? = some name ∧
        (s.applied name = some c → s.lines.head?.bind headerName ≠ some name)

/-! ## What taking out a section does -/

variable {n : Str} {parse : UrlParser} {sync : Sync} {call : Call}

section

variable {name content : Str} {c : PacmanConfig} {ls : List Line}

theorem removeLines_append (h : name ∉ headers ls) (ls' : List Line) :
    removeLines name false (ls ++ ls') = ls ++ removeLines name false ls' := by
  induction ls with
  | nil => rfl
  | cons l ls ih =>
    rw [mem_headers_iff, exists_mem_cons_iff, not_or, ← mem_headers_iff] at h
    rw [cons_append, removeLines, if_neg fun htrim => h.1 (headerName_eq_some_iff.mpr htrim),
      Bool.false_and, if_neg (by decide), ih h.2, cons_append]

theorem removeLines_of_notMem (h : name ∉ headers ls) : removeLines name false ls = ls := by
  simpa [removeLines] using removeLines_append h []

theorem removeLines_cons_header (name : Str) (b : Bool) (ls : List Line) :
    removeLines name b (header name :: ls) = removeLines name true ls := by
  rw [removeLines, if_pos (headerName_eq_some_iff.mp (headerName_header name))]

theorem removeLines_true_of_not_bracket (h : ∀ l ∈ ls, bracket l = false) :
    removeLines name true ls = [] := by
  induction ls with
  | nil => rfl
  | cons l ls ih =>
    have hrest := ih fun x hx => h x (mem_cons_of_mem l hx)
    rw [removeLines, h l (mem_cons_self ..), hrest]
    simp

theorem removeLines_sublist (name : Str) (b : Bool) (ls : List Line) :
    (removeLines name b ls).Sublist ls := by
  induction ls generalizing b with
  | nil => exact .slnil
  | cons l ls ih =>
    rw [removeLines]
    split_ifs
    · exact (ih true).cons l
    · exact (ih true).cons l
    · exact (ih false).cons_cons l

theorem headers_removeLines (name : Str) (b : Bool) (ls : List Line) :
    headers (removeLines name b ls) = (headers ls).filter (· ≠ name) := by
  induction ls generalizing b with
  | nil => rfl
  | cons l ls ih =>
    rw [removeLines]
    split_ifs with hheader hskip
    · have hname := headerName_eq_some_iff.mpr hheader
      rw [ih, headers, headers, filterMap_cons_some hname, filter_cons_of_neg (by simp)]
    · rw [Bool.and_eq_true, Bool.not_eq_true'] at hskip
      rw [ih, headers, headers, filterMap_cons_none (headerName_of_not_bracket hskip.2)]
    cases hname : headerName l with
    | none => rw [headers, headers, filterMap_cons_none hname, filterMap_cons_none hname,
        ← headers, ih, headers]
    | some n =>
      have hne : n ≠ name := by
        rintro rfl
        exact hheader (headerName_eq_some_iff.mp hname)
      rw [headers, headers, filterMap_cons_some hname, filterMap_cons_some hname,
        filter_cons_of_pos (by simpa using hne), ← headers, ih, headers]

theorem others_removeLines (name : Str) (ls : List Line) {cur cur' : Option Str}
    {b : Bool} (h : cur ≠ some name → cur' = cur ∧ b = false) :
    (others name cur ls).Sublist (others name cur' (removeLines name b ls)) := by
  induction ls generalizing cur cur' b with
  | nil => exact nil_sublist _
  | cons l ls ih =>
    by_cases hheader : trimSpace l = header name
    · -- the header goes, and the section with it
      have hname := headerName_eq_some_iff.mpr hheader
      rw [removeLines, if_pos hheader, others, labelled, hname, Option.some_or,
        filter_cons_of_neg (by simp)]
      exact ih fun hne => absurd rfl hne
    · rw [removeLines, if_neg hheader]
      cases hname : headerName l with
      | some n =>
        -- another section begins
        have hne : some n ≠ some name := by
          rw [← hname]
          exact fun heq => hheader (headerName_eq_some_iff.mp heq)
        rw [bracket_of_headerName hname, Bool.not_true, Bool.and_false, if_neg (by decide), others,
          others, labelled, labelled, hname, Option.some_or, Option.some_or,
          filter_cons_of_pos (by simpa using hne), filter_cons_of_pos (by simpa using hne)]
        exact (ih fun _ => ⟨rfl, rfl⟩).cons_cons _
      | none =>
        by_cases hcur : cur = some name
        · -- the line is in the section itself, and goes or stays
          rw [others_cons_none hname, if_neg (not_not.mpr hcur)]
          split_ifs
          · exact ih fun hne => absurd hcur hne
          rw [others_cons_none hname]
          split_ifs
          · exact (ih fun hne => absurd hcur hne).cons _
          · exact ih fun hne => absurd hcur hne
        · obtain ⟨rfl, rfl⟩ := h hcur
          rw [Bool.false_and, if_neg (by decide), others_cons_none hname, others_cons_none hname,
            if_pos hcur, if_pos hcur]
          exact (ih fun _ => ⟨rfl, rfl⟩).cons_cons _

theorem lines_removePacmanSection (content name : Str) :
    lines (removePacmanSection content name) =
      if removeLines name false (lines content) = [] then [[]]
      else removeLines name false (lines content) := by
  split_ifs with hnil
  · rw [removePacmanSection, hnil]
    rfl
  · refine lines_join (fun l hl => ?_) hnil
    exact notMem_of_mem_lines ((removeLines_sublist _ _ _).subset hl)

def base (content name : Str) : Str :=
  if mentions content name then removePacmanSection content name else content

theorem notMem_of_not_mentions (hname : '\n' ∉ name) (h : mentions content name = false) :
    name ∉ headers (lines content) := by
  intro hmem
  have hcontains := Text.contains_iff.mpr (isInfix_of_mem_headers hname hmem)
  rw [mentions] at h
  rw [h] at hcontains
  cases hcontains

theorem headers_base (hname : '\n' ∉ name) (content : Str) :
    headers (lines (base content name)) =
      (headers (lines content)).filter (· ≠ name) := by
  unfold base
  split_ifs with hmentions
  · rw [← headers_removeLines name false, lines_removePacmanSection]
    split_ifs with hnil
    · rw [hnil]
      rfl
    · rfl
  · refine (filter_eq_self.mpr fun n hn => decide_eq_true ?_).symm
    rintro rfl
    exact notMem_of_not_mentions hname (by simpa using hmentions) hn

theorem others_base (content name : Str) :
    (others name none (lines content)).Sublist
      (others name none (lines (base content name))) := by
  unfold base
  split_ifs with hmentions
  · have hsub : (others name none (lines content)).Sublist
        (others name none (removeLines name false (lines content))) :=
      others_removeLines name _ fun _ => ⟨rfl, rfl⟩
    rw [lines_removePacmanSection]
    split_ifs with hnil
    · rw [hnil] at hsub
      rw [sublist_nil.mp hsub]
      exact nil_sublist _
    · exact hsub
  · exact .refl _

/-! ## The section that is written -/

/-- The lines of a section that `Apply` has written, after its header. -/
def body (c : PacmanConfig) : List Line :=
  (if c.sigLevel ≠ [] then ["SigLevel = " ++ c.sigLevel] else []) ++
    ["Server = " ++ c.server, []]

theorem bracket_of_mem_body {l : Line} (h : l ∈ body c) : bracket l = false := by
  have hS : ∀ t : Str, bracket ('S' :: t) = false := fun t => bracket_cons (by decide) t
  rcases mem_append.mp h with h | h
  · split_ifs at h
    · rw [mem_singleton.mp h]
      exact hS _
    · cases h
  · rcases mem_cons.mp h with rfl | h
    · exact hS _
    · rw [mem_singleton.mp h]
      rfl

theorem sectionText_eq (name : Str) (c : PacmanConfig) :
    sectionText name c = '\n' :: join (header name :: body c) := by
  unfold sectionText body join
  split_ifs <;> simp [intercalate_cons_cons]

/-- No value has a line end in it. -/
structure Lineless (name : Str) (c : PacmanConfig) : Prop where
  name : '\n' ∉ name
  sigLevel : '\n' ∉ c.sigLevel
  server : '\n' ∉ c.server

theorem Lineless.notMem (h : Lineless name c) : ∀ l ∈ header name :: body c, '\n' ∉ l := by
  have hname : '\n' ∉ header name := by simpa [header] using h.name
  have hserver : '\n' ∉ "Server = " ++ c.server := by simpa using h.server
  have hsig : '\n' ∉ "SigLevel = " ++ c.sigLevel := by simpa using h.sigLevel
  rw [body]
  split_ifs <;> simp_all

theorem lines_newConf (h : Lineless name c) (content : Str) :
    lines (newConf content name c) =
      lines (base content name) ++ header name :: body c := by
  have hsection : lines (join (header name :: body c)) = header name :: body c :=
    lines_join h.notMem (cons_ne_nil _ _)
  rw [newConf, ← base, sectionText_eq, lines_append, hsection]

@[simp] theorem headers_body (c : PacmanConfig) : headers (body c) = [] :=
  filterMap_eq_nil_iff.mpr fun _ hl => headerName_of_not_bracket (bracket_of_mem_body hl)

theorem headers_section (name : Str) (c : PacmanConfig) :
    headers (header name :: body c) = [name] := by
  rw [headers, filterMap_cons_some (headerName_header name), ← headers, headers_body]

theorem headers_newConf (h : Lineless name c) (content : Str) :
    headers (lines (newConf content name c)) =
      (headers (lines content)).filter (· ≠ name) ++ [name] := by
  rw [lines_newConf h, headers_append, headers_base h.name, headers_section]

/-! ## Where the section of a configured repository is -/

/-- Whatever follows the section, another header follows it first, and every bracket after it is a
header's. -/
structure Tail (v : List Line) : Prop where
  head : ∀ l ∈ v.head?, (headerName l).isSome
  bracket : ∀ l ∈ v, bracket l = true → (headerName l).isSome

/-- The section is in the text as it was written, and is the only one of its name. -/
def Placed (name : Str) (c : PacmanConfig) (ls : List Line) : Prop :=
  ∃ u v, ls = u ++ (header name :: body c) ++ v ∧ name ∉ headers u ∧ name ∉ headers v ∧ Tail v

theorem removeLines_append_header (hne : n ≠ name) (b : Bool) (u w : List Line) :
    removeLines name b (u ++ header n :: w) =
      removeLines name b u ++ header n :: removeLines name false w := by
  induction u generalizing b with
  | nil =>
    have hheader : ¬ trimSpace (header n) = header name := fun htrim => by
      have hname := headerName_eq_some_iff.mpr htrim
      rw [headerName_header, Option.some_inj] at hname
      exact hne hname
    have hbracket : bracket (header n) = true := bracket_of_headerName (headerName_header n)
    have hkept : removeLines name b (header n :: w) = header n :: removeLines name false w := by
      rw [removeLines, if_neg hheader, hbracket, Bool.not_true, Bool.and_false, if_neg (by decide)]
    exact hkept
  | cons l u ih =>
    rw [cons_append, removeLines, removeLines]
    split_ifs
    · exact ih true
    · exact ih true
    · rw [ih false, cons_append]

theorem removeLines_head (hls : ∀ l ∈ ls, bracket l = true → (headerName l).isSome) :
    ∀ l ∈ (removeLines name true ls).head?, (headerName l).isSome := by
  induction ls with
  | nil =>
    intro l hl
    cases hl
  | cons x ls ih =>
    have hrest := ih fun l hl => hls l (mem_cons_of_mem x hl)
    rw [removeLines]
    split_ifs with hheader hskip
    · exact hrest
    · exact hrest
    intro l hl
    cases hl
    rw [Bool.true_and, Bool.not_eq_true', Bool.not_eq_false] at hskip
    exact hls x (mem_cons_self ..) hskip

theorem Tail.removeLines {v : List Line} (h : Tail v) (name : Str) :
    Tail (removeLines name false v) := by
  refine ⟨?_, fun l hl => h.bracket l ((removeLines_sublist _ _ _).subset hl)⟩
  cases v with
  | nil =>
    intro l hl
    cases hl
  | cons x v =>
    rw [Pacman.removeLines, Bool.false_and, if_neg Bool.false_ne_true]
    split_ifs
    · exact removeLines_head fun l hl => h.bracket l (mem_cons_of_mem x hl)
    · exact h.head

theorem Placed.removeLines (hne : n ≠ name) (h : Placed n c ls) :
    Placed n c (removeLines name false ls) := by
  obtain ⟨u, v, rfl, hu, hv, htail⟩ := h
  refine ⟨Pacman.removeLines name false u, Pacman.removeLines name false v, ?_, ?_, ?_,
    htail.removeLines name⟩
  · rw [append_assoc, cons_append, removeLines_append_header hne,
      removeLines_append (by simp), append_assoc, cons_append]
  all_goals
    rw [headers_removeLines]
    exact fun hmem => by simp_all

theorem Placed.base (hne : n ≠ name) (h : Placed n c (lines content)) :
    Placed n c (lines (base content name)) := by
  have hremoved := h.removeLines hne
  rw [Pacman.base]
  split_ifs
  · rw [lines_removePacmanSection, if_neg]
    · exact hremoved
    · obtain ⟨u, v, heq, -⟩ := hremoved
      rw [heq]
      simp
  · exact h

theorem Placed.append {d : PacmanConfig} (hne : n ≠ name) (h : Placed n c ls) :
    Placed n c (ls ++ header name :: body d) := by
  obtain ⟨u, v, rfl, hu, hv, htail⟩ := h
  refine ⟨u, v ++ header name :: body d, by simp, hu, ?_, ?_, ?_⟩
  · rw [headers_append, headers_section, mem_append, mem_singleton]
    exact not_or.mpr ⟨hv, hne⟩
  · intro l hl
    cases v with
    | nil =>
      cases hl
      rw [headerName_header]
      rfl
    | cons x v => exact htail.head l hl
  · intro l hl hbracket
    rcases mem_append.mp hl with hl | hl
    · exact htail.bracket l hl hbracket
    rcases mem_cons.mp hl with rfl | hl
    · rw [headerName_header]
      rfl
    · rw [bracket_of_mem_body hl] at hbracket
      cases hbracket

theorem placed_newConf (h : Lineless name c) (content : Str) :
    Placed name c (lines (newConf content name c)) := by
  refine ⟨lines (base content name), [], ?_, ?_, not_mem_nil, ?_, ?_⟩
  · rw [lines_newConf h, append_nil]
  · rw [headers_base h.name]
    simp
  all_goals
    intro l hl
    cases hl

/-! ## Histories -/

theorem lineless_of_accepted (h : (Call.apply name c sync).accepted parse = true) :
    Lineless name c := by
  simp only [Call.accepted, Option.isNone_iff_eq_none, Option.or_eq_none_iff] at h
  obtain ⟨hname, -, hpacman⟩ := h
  obtain ⟨hcontrol, -, hurl⟩ := of_validatePacman hpacman
  refine ⟨notMem_of_validName (validName_of_validateName hname) (by decide), ?_, ?_⟩
  · exact fun hmem => absurd (of_rejectControl hcontrol _ hmem).1 (by decide)
  · have hctrl := (of_validateRepoBaseURL hurl).2.1
    exact fun hmem => absurd (notMem_of_hasCtrlOrSpace hctrl _ hmem).1 (by decide)

theorem notMem_of_accepted (h : call.accepted parse = true) : '\n' ∉ call.name := by
  cases call with
  | apply name c sync => exact (lineless_of_accepted h).name
  | remove name =>
    simp only [Call.accepted, Option.isNone_iff_eq_none, Option.or_eq_none_iff] at h
    exact notMem_of_validName (validName_of_validateName h.1) (by decide)

variable {s : State}

theorem text_apply (s : State) (name : Str) (c : PacmanConfig) (sync : Sync) :
    (after s (.apply name c sync)).text = newConf s.text name c := by
  simp only [after, Call.run, applyPacman]
  split_ifs with heq
  · exact heq.symm
  · rfl

theorem text_remove (s : State) (name : Str) :
    (after s (.remove name)).text = base s.text name := by
  simp only [State.text, after, Call.run, removePacman, base]
  by_cases hmentions : mentions (s.conf.getD []) name = true <;> simp [hmentions]

/-- Every repository that is configured has its section in the file. -/
def Inv (s : State) : Prop := ∀ name c, s.applied name = some c → Placed name c s.lines

theorem inv_after (hcall : call.accepted parse = true) (h : Inv s) : Inv (after s call) := by
  intro n d hn
  by_cases hname : n = call.name
  · -- the section has just been written
    subst hname
    cases call with
    | remove name => simp [after] at hn
    | apply name c sync =>
      obtain rfl : c = d := by simpa [after] using hn
      rw [State.lines, text_apply]
      exact placed_newConf (lineless_of_accepted hcall) s.text
  · have hbefore : Placed n d (lines s.text) := by
      have hsame : (after s call).applied n = s.applied n := Function.update_of_ne hname _ _
      exact h n d (hsame ▸ hn)
    cases call with
    | remove name =>
      rw [State.lines, text_remove]
      exact hbefore.base hname
    | apply name c sync =>
      rw [State.lines, text_apply, lines_newConf (lineless_of_accepted hcall)]
      exact (hbefore.base hname).append hname

theorem inv_of_exec {conf : Option Str} {calls : List Call}
    (h : exec (step parse) (initial conf) calls = some s) : Inv s := by
  refine exec_induction (fun s call t hstep hs => ?_) h fun name c hnone => ?_
  · rw [step] at hstep
    split_ifs at hstep with hcall
    cases hstep
    exact inv_after hcall hs
  · cases hnone

/-! ## When a call is declarative -/

theorem kept_after (s : State) (hcall : call.accepted parse = true) :
    (others call.name none s.lines).Sublist (others call.name none (after s call).lines) := by
  cases call with
  | remove name =>
    rw [State.lines, State.lines, text_remove]
    exact others_base s.text name
  | apply name c sync =>
    rw [State.lines, State.lines, text_apply, lines_newConf (lineless_of_accepted hcall)]
    exact (others_base s.text name).trans (others_append ..)

theorem conf_remove_iff (hname : '\n' ∉ name) (hmentions : mentions s.text name = true) :
    (after s (.remove name)).conf ≠ s.conf ↔ name ∈ headers s.lines := by
  have hafter : (after s (.remove name)).conf = some (removePacmanSection s.text name) := by
    rw [State.text] at hmentions ⊢
    simp [after, Call.run, removePacman, hmentions]
  have hsome : s.conf = some s.text := by
    cases hconf : s.conf with
    | some t => rw [State.text, hconf, Option.getD_some]
    | none =>
      rw [State.text, hconf] at hmentions
      exact absurd (infix_nil.mp (Text.contains_iff.mp hmentions)) (cons_ne_nil _ _)
  rw [hafter, hsome, Ne, Option.some_inj, not_iff_comm]
  constructor
  · intro hmem
    rw [removePacmanSection, ← State.lines, removeLines_of_notMem hmem, State.lines, join_lines]
  · intro heq hmem
    have hheaders := headers_base hname s.text
    rw [base, if_pos hmentions, heq] at hheaders
    rw [State.lines, hheaders] at hmem
    simp at hmem

theorem declarative_remove_iff (hname : '\n' ∉ name)
    (hcall : (Call.remove name).accepted parse = true) :
    Declarative s (.remove name) ↔ Orderly s (.remove name) := by
  have hchanged : ((Call.remove name).run s.conf).1.changed = mentions s.text name := by
    simp only [Call.run, removePacman]
    split_ifs with hmentions
    · exact hmentions.symm
    · exact (Bool.not_eq_false _ ▸ hmentions).symm
  have horder : OnlyNamed name (headers s.lines) (headers (after s (.remove name)).lines) := by
    rw [State.lines, State.lines, text_remove, headers_base hname]
    exact onlyNamed_filter ..
  constructor
  · intro h hmentions
    exact (conf_remove_iff hname hmentions).mp (h.changed.mp (hchanged.trans hmentions))
  · intro h
    refine ⟨?_, fun _ _ _ hcall => Call.noConfusion hcall, kept_after s hcall, horder⟩
    rw [hchanged]
    cases hmentions : mentions s.text name with
    | true => simpa using (conf_remove_iff hname hmentions).mpr (h hmentions)
    | false =>
      rw [State.text] at hmentions
      simp [after, Call.run, removePacman, hmentions]

theorem changed_apply (s : State) (name : Str) (c : PacmanConfig) (sync : Sync) :
    ((Call.apply name c sync).run s.conf).1.changed = true ↔
      (after s (.apply name c sync)).conf ≠ s.conf := by
  simp only [after, Call.run, applyPacman]
  split_ifs with heq
  · simp
  · exact iff_of_true rfl fun hconf => heq (congrArg (Option.getD · []) hconf)

theorem newConf_of_last (hc : Lineless name c) {u : List Line}
    (hlines : s.lines = u ++ header name :: body c) (hu : name ∉ headers u) :
    newConf s.text name c = s.text ↔ u ≠ [] := by
  have hmem : name ∈ headers s.lines := by
    rw [hlines, headers_append, headers_section]
    simp
  have hmentions : mentions s.text name = true :=
    Text.contains_iff.mpr (isInfix_of_mem_headers hc.name hmem)
  have hremoved : removeLines name false s.lines = u := by
    have hbody : removeLines name true (body c) = [] :=
      removeLines_true_of_not_bracket fun l hl => bracket_of_mem_body hl
    rw [hlines, removeLines_append hu, removeLines_cons_header, hbody, append_nil]
  have hbase : lines (base s.text name) = if u = [] then [[]] else u := by
    rw [base, if_pos hmentions, lines_removePacmanSection, ← State.lines, hremoved]
  have hiff : newConf s.text name c = s.text ↔
      lines (newConf s.text name c) = lines s.text := by
    refine ⟨congrArg _, fun heq => ?_⟩
    rw [← join_lines (newConf s.text name c), heq, join_lines]
  rw [hiff, lines_newConf hc, ← State.lines, hlines, hbase]
  split_ifs with hnil
  · simp [hnil]
  · simpa using hnil

theorem last_of_placed (h : Placed name c ls) (hlast : (headers ls).getLast? = some name) :
    ∃ u, ls = u ++ header name :: body c ∧ name ∉ headers u := by
  obtain ⟨u, v, rfl, hu, hv, htail⟩ := h
  cases v with
  | nil => exact ⟨u, append_nil _, hu⟩
  | cons x v =>
    -- a header follows, and the last one is not of this name
    obtain ⟨n, hn⟩ := Option.isSome_iff_exists.mp (htail.head x rfl)
    have hne : headers (x :: v) ≠ [] := by
      rw [headers, filterMap_cons_some hn]
      exact cons_ne_nil _ _
    rw [headers_append, getLast?_append_of_ne_nil _ hne] at hlast
    exact absurd (mem_of_getLast? hlast) hv

theorem head_of_notMem {u : List Line} (hu : name ∉ headers u) :
    (u ++ header name :: body c).head?.bind headerName ≠ some name ↔ u ≠ [] := by
  cases u with
  | nil => simp
  | cons l u =>
    refine iff_of_true (fun hname => hu ?_) (cons_ne_nil _ _)
    exact mem_headers_iff.mpr ⟨l, mem_cons_self .., hname⟩

theorem mem_headers_of_placed (h : Placed name c ls) : name ∈ headers ls := by
  obtain ⟨u, v, rfl, -⟩ := h
  rw [headers_append, headers_append, headers_section]
  simp

theorem again_iff (h : Inv s) (hc : Lineless name c)
    (hlast : (headers s.lines).getLast? = some name) (happlied : s.applied name = some c) :
    (after s (.apply name c sync)).conf = s.conf ↔ s.lines.head?.bind headerName ≠ some name := by
  obtain ⟨u, hlines, hu⟩ := last_of_placed (h name c happlied) hlast
  rw [hlines, head_of_notMem hu, ← newConf_of_last hc hlines hu]
  simp only [after, Call.run, applyPacman]
  split_ifs with heq
  · exact iff_of_true rfl heq
  · exact iff_of_false (fun hconf => heq (congrArg (Option.getD · []) hconf)) heq

theorem declarative_apply_iff (h : Inv s) (hcall : (Call.apply name c sync).accepted parse = true) :
    Declarative s (.apply name c sync) ↔ Orderly s (.apply name c sync) := by
  have hc := lineless_of_accepted hcall
  have horder : OnlyNamed name (headers s.lines) (headers (after s (.apply name c sync)).lines) ↔
      name ∉ headers s.lines ∨ (headers s.lines).getLast? = some name := by
    rw [State.lines, State.lines, text_apply, headers_newConf hc]
    exact onlyNamed_concat_iff
  constructor
  · intro hdecl hmem
    have hlast := (horder.mp hdecl.order).resolve_left (not_not.mpr hmem)
    exact ⟨hlast, fun happlied =>
      (again_iff h hc hlast happlied).mp (hdecl.again name c sync rfl happlied)⟩
  · intro hord
    refine ⟨changed_apply s name c sync, ?_, kept_after s hcall, ?_⟩
    · intro n d sync' heq happlied
      cases heq
      obtain ⟨hlast, hhead⟩ := hord (mem_headers_of_placed (h name c happlied))
      exact (again_iff h hc hlast happlied).mpr (hhead happlied)
    · exact horder.mpr (or_iff_not_imp_left.mpr fun hmem => (hord (not_not.mp hmem)).1)

/-- In any state that accepted calls lead to from any file, a call is declarative if and only if it
finds the file in order for it. -/
theorem declarative_iff {parse : UrlParser} {conf : Option Str} {calls : List Call}
    (h : exec (step parse) (initial conf) calls = some s) {call : Call}
    (hcall : call.accepted parse = true) : Declarative s call ↔ Orderly s call := by
  cases call with
  | remove name => exact declarative_remove_iff (notMem_of_accepted hcall) hcall
  | apply name c sync => exact declarative_apply_iff (inv_of_exec h) hcall

end

/-! ## A section that moves -/

def toyParse : UrlParser := fun path => .ok ⟨"https", "mirror", false, path⟩

def applyExtra : Call := .apply "extra" ⟨"https://mirror/extra", []⟩ ⟨[], none⟩

def applyLocal : Call := .apply "local" ⟨"https://mirror/local", []⟩ ⟨[], none⟩

/-- Applied again with its own values, a repository goes behind the one that was applied after it;
and a removal that finds the header in a comment only reports a change and makes none. -/
theorem moved_section :
    (∃ s, exec (step toyParse) (initial none) [applyExtra, applyLocal] = some s ∧
      applyExtra.accepted toyParse = true ∧
      headers s.lines = ["extra".toList, "local"] ∧
      headers (after s applyExtra).lines = ["local".toList, "extra"] ∧
      ¬ Declarative s applyExtra) ∧
    ¬ Declarative (initial (some "# see [extra]")) (.remove "extra") := by
  constructor
  · refine ⟨after (after (initial none) applyExtra) applyLocal, rfl, by decide +kernel,
      by decide +kernel, by decide +kernel, fun h => ?_⟩
    have hsame := h.again _ _ _ rfl (by decide +kernel)
    revert hsame
    decide +kernel
  · intro h
    have hchanged := h.changed
    revert hchanged
    decide +kernel

/-- A repository is added to another one. -/
theorem appended_section :
    exec (step toyParse) (initial none) [applyExtra] = some (after (initial none) applyExtra) ∧
      Declarative (after (initial none) applyExtra) applyLocal := by
  have hrun : exec (step toyParse) (initial none) [applyExtra] =
      some (after (initial none) applyExtra) := by
    rfl
  refine ⟨hrun, (declarative_iff hrun (by decide +kernel)).mpr ?_⟩
  intro hmem
  revert hmem
  decide +kernel

end PowerManage.Repo.Pacman
