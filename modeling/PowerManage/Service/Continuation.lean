import PowerManage.Service.UnitContent
import PowerManage.Lib.Transition

/-!
# Two readings of continuation lines

The policy joins lines first and looks for comments afterwards, systemd the other way round; and
they do not agree on which lines are continued.  What that makes of a text depends only on the
*shape* of its lines: whether a line is a comment, and whether it ends in backslashes, and how.

`policy_sees_iff` says for which sequences of shapes the policy sees every text as systemd does.
They are those an automaton accepts (`next`): no comment inside a continuation, none that ends in an
odd number of backslashes before anything but comments, and no other line on whose continuation the
two disagree.
-/

namespace PowerManage.Service

open PathName Text Transition List

/-! ## Shapes -/

/-- How a line ends, for the policy and for systemd. -/
inductive Ending
  | plain
  | continued
  /-- An odd number of backslashes and then blanks: only the policy continues it. -/
  | folded
  /-- An even number of backslashes: only systemd continues it. -/
  | escaped
deriving DecidableEq

/-- What of a line decides how it is joined. -/
structure Shape where
  comment : Bool
  ending : Ending
deriving DecidableEq

def Ending.joined : Ending → Bool
  | .continued | .folded => true
  | .plain | .escaped => false

def endingOf (l : Str) : Ending :=
  if trailingBackslashes (trimRight l) % 2 = 1 then
    if l.getLast? = some '\\' then .continued else .folded
  else if l.getLast? = some '\\' then .escaped
  else .plain

def shapeOf (l : Str) : Shape := ⟨isComment l, endingOf l⟩

def shapesOf (content : Str) : List Shape := (physicalLines content).map shapeOf

/-- Where the two readers are. -/
inductive Reading
  | between
  | inside
  /-- The policy in a comment it takes for continued, systemd at the start of a line. -/
  | skipping
deriving DecidableEq

/-- How both readers go on after a line, if they agree. -/
def next : Reading → Shape → Option Reading
  | .between, ⟨true, e⟩ | .skipping, ⟨true, e⟩ =>
    some (if e.joined then .skipping else .between)
  | .between, ⟨false, .plain⟩ | .inside, ⟨false, .plain⟩ => some .between
  | .between, ⟨false, .continued⟩ | .inside, ⟨false, .continued⟩ => some .inside
  | _, _ => none

/-- The policy and systemd join the same lines, comments apart. -/
def WellContinued (shapes : List Shape) : Prop := (exec next .between shapes).isSome = true

instance (shapes : List Shape) : Decidable (WellContinued shapes) := by
  unfold WellContinued
  infer_instance

/-! ## Comments -/

variable {l : Str}

theorem isComment_iff : isComment l = true ↔
    ∃ b c z, l = b ++ c :: z ∧ (∀ x ∈ b, isSpace x = true) ∧ (c = '#' ∨ c = ';') := by
  constructor
  · intro h
    have hsplit := takeWhile_append_dropWhile (p := isSpace) (l := l)
    cases hd : l.dropWhile isSpace with
    | nil => simp [isComment, hd] at h
    | cons c z =>
      rw [hd] at hsplit
      refine ⟨_, c, z, hsplit.symm, fun x hx => mem_takeWhile_imp hx, ?_⟩
      simpa [isComment, hd] using h
  · rintro ⟨b, c, z, rfl, hb, hc⟩
    have hnot : isSpace c = false := by rcases hc with rfl | rfl <;> decide
    have hd : (b ++ c :: z).dropWhile isSpace = c :: z := by
      rw [dropWhile_append, dropWhile_eq_nil_iff.mpr hb]
      simp [hnot]
    simp [isComment, hd, hc]

variable {x : Str} {r : Reading} {pc ps : Option Str}

theorem isComment_append (h : isComment l = true) : isComment (l ++ x) = true := by
  obtain ⟨b, c, z, rfl, hb, hc⟩ := isComment_iff.mp h
  exact isComment_iff.mpr ⟨b, c, z ++ x, by simp, hb, hc⟩

theorem directive_of_comment (h : isComment l = true) : directive l = none := by
  have htrim : isComment (trimSpace l) = true := by
    obtain ⟨b, c, z, rfl, hb, hc⟩ := isComment_iff.mp h
    have hnot : isSpace c = false := by rcases hc with rfl | rfl <;> decide
    have hd : (b ++ c :: z).dropWhile isSpace = c :: z := by
      rw [dropWhile_append, dropWhile_eq_nil_iff.mpr hb]
      simp [hnot]
    rw [trimSpace, hd, rdropWhile_cons_of_neg hnot]
    exact isComment_iff.mpr ⟨[], c, _, rfl, by simp, hc⟩
  exact if_pos (.inr htrim)

theorem trimRight_of_last (h : l.getLast? = some '\\') : trimRight l = l := by
  rw [trimRight, rdropWhile_eq_self_iff]
  intro hl
  rw [getLast?_eq_some_getLast hl, Option.some_inj] at h
  rw [h]
  decide

theorem exists_trimRight (h : trailingBackslashes (trimRight l) % 2 = 1) :
    ∃ x, trimRight l = x ++ ['\\'] := by
  rcases (trimRight l).eq_nil_or_concat with hnil | ⟨x, c, hx⟩
  · rw [hnil] at h
    cases h
  rw [concat_eq_append] at hx
  by_cases hc : c = '\\'
  · exact ⟨x, by rw [hx, hc]⟩
  · rw [hx, trailingBackslashes] at h
    simp [hc] at h

theorem isComment_joined (h : isComment l = true)
    (hodd : trailingBackslashes (trimRight l) % 2 = 1) :
    isComment (trimRight l).dropLast = true := by
  obtain ⟨x, hx⟩ := exists_trimRight hodd
  obtain ⟨b, c, z, hl, hb, hc⟩ := isComment_iff.mp h
  have hne : b ++ [c] ≠ x ++ ['\\'] := by
    intro heq
    obtain ⟨-, hc'⟩ := append_inj' heq rfl
    rcases hc with rfl | rfl <;> cases hc'
  have hstart : b ++ [c] <+: l := ⟨z, by rw [hl]; simp⟩
  have htrim : x ++ ['\\'] <+: l := hx ▸ rdropWhile_prefix _ l
  rw [hx, dropLast_concat]
  rcases prefix_or_prefix_of_prefix hstart htrim with hp | hp
  · rcases prefix_concat_iff.mp hp with heq | ⟨w, rfl⟩
    · exact absurd heq hne
    · exact isComment_iff.mpr ⟨b, c, w, by simp, hb, hc⟩
  · rcases prefix_concat_iff.mp hp with heq | hp
    · exact absurd heq.symm hne
    · exact absurd (hb '\\' (hp.subset (by simp))) (by decide)

/-! ## One line -/

def Ending.read : Ending → Bool
  | .continued | .escaped => true
  | .plain | .folded => false

section

variable {l : Str} {ls : List Str} {pending : Option Str}

theorem joined_endingOf :
    (endingOf l).joined = true ↔ trailingBackslashes (trimRight l) % 2 = 1 := by
  unfold endingOf
  split <;> split <;> simp_all [Ending.joined]

theorem read_endingOf : (endingOf l).read = true ↔ l.getLast? = some '\\' := by
  unfold endingOf
  split <;> split <;> simp_all [Ending.read]

theorem joinFrom_joined (h : (endingOf l).joined = true) :
    joinFrom pending (l :: ls) =
      joinFrom (some (pending.getD [] ++ (trimRight l).dropLast ++ [' '])) ls := by
  rw [joinFrom]
  exact if_pos (joined_endingOf.mp h)

theorem joinFrom_emit (h : (endingOf l).joined = false) :
    joinFrom pending (l :: ls) = (pending.getD [] ++ l) :: joinFrom none ls := by
  rw [joinFrom]
  exact if_neg fun hodd => by simp [joined_endingOf.mpr hodd] at h

theorem systemdFrom_comment (h : isComment l = true) :
    systemdFrom pending (l :: ls) = systemdFrom pending ls := by
  rw [systemdFrom, if_pos h]

theorem systemdFrom_read (h : isComment l = false) (hread : (endingOf l).read = true) :
    systemdFrom pending (l :: ls) =
      systemdFrom (some (pending.getD [] ++ l.dropLast ++ [' '])) ls := by
  rw [systemdFrom, if_neg (by simp [h]), if_pos (read_endingOf.mp hread)]

theorem systemdFrom_emit (h : isComment l = false) (hread : (endingOf l).read = false) :
    systemdFrom pending (l :: ls) = (pending.getD [] ++ l) :: systemdFrom none ls := by
  rw [systemdFrom, if_neg (by simp [h]), if_neg fun hlast => ?_]
  simp [read_endingOf.mpr hlast] at hread

/-- The pending lines of both readings; `Q` is what is known of a continued line so far. -/
inductive Together (Q : Str → Prop) :
    Reading → Option Str → Option Str → Prop
  | between : Together Q .between none none
  | inside (p : Str) (h : Q p) : Together Q .inside (some p) (some p)
  | skipping (c : Str) (h : isComment c = true) : Together Q .skipping (some c) none

theorem comment_step {Q : Str → Prop} {c : Str} (hl : isComment l = true)
    (hc : c = [] ∨ isComment c = true) (hpending : pending.getD [] = c) :
    ∃ ec pc, (∀ ls, joinFrom pending (l :: ls) = ec ++ joinFrom pc ls) ∧
      ec.filterMap directive = [] ∧
      Together Q (if (endingOf l).joined then .skipping else .between) pc none := by
  have hstart : ∀ {x}, isComment x = true → isComment (pending.getD [] ++ x) = true := by
    intro x hx
    rw [hpending]
    rcases hc with rfl | hc
    · exact hx
    · exact isComment_append hc
  cases hj : (endingOf l).joined with
  | true =>
    refine ⟨[], _, fun ls => joinFrom_joined hj, rfl, .skipping _ ?_⟩
    exact isComment_append (hstart (isComment_joined hl (joined_endingOf.mp hj)))
  | false =>
    refine ⟨[pending.getD [] ++ l], none, fun ls => joinFrom_emit hj, ?_, .between⟩
    simp [directive_of_comment (hstart hl)]

/-- Both readings come to new pending lines, and the logical lines they end hold the same
directives. -/
def Advances (Q : Str → Prop) (l : Str) (pc ps : Option Str) (r' : Reading) : Prop :=
  ∃ ec es pc' ps', (∀ ls, joinFrom pc (l :: ls) = ec ++ joinFrom pc' ls) ∧
    (∀ ls, systemdFrom ps (l :: ls) = es ++ systemdFrom ps' ls) ∧
    ec.filterMap directive = es.filterMap directive ∧ Together Q r' pc' ps'

theorem Together.step {Q : Str → Prop} {r' : Reading} (h : Together Q r pc ps)
    (hnext : next r (shapeOf l) = some r')
    (hfirst : shapeOf l = ⟨false, .continued⟩ → Q (l.dropLast ++ [' ']))
    (happend : ∀ p x, Q p → Q (p ++ x)) : Advances Q l pc ps r' := by
  cases hl : isComment l with
  | true =>
    have hskip : ∀ {c}, c = [] ∨ isComment c = true → pc.getD [] = c → ps = none →
        r' = (if (endingOf l).joined then .skipping else .between) → Advances Q l pc ps r' := by
      rintro c hc hpending rfl rfl
      obtain ⟨ec, pc', hjoin, hnone, htogether⟩ := comment_step hl hc hpending
      exact ⟨ec, [], pc', none, hjoin, fun ls => systemdFrom_comment hl, hnone, htogether⟩
    rw [shapeOf, hl] at hnext
    cases h with
    | between => exact hskip (.inl rfl) rfl rfl (Option.some.inj hnext).symm
    | skipping c hc => exact hskip (.inr hc) rfl rfl (Option.some.inj hnext).symm
    | inside p hp => cases hnext
  | false =>
    rw [shapeOf, hl] at hnext hfirst
    have hsame : ∀ p, pc = p → ps = p → (∀ q, p = some q → Q q) →
        next .between ⟨false, endingOf l⟩ = some r' → Advances Q l pc ps r' := by
      rintro p rfl rfl hQ hnext
      cases he : endingOf l with
      | plain =>
        rw [he] at hnext
        cases hnext
        exact ⟨[_], [_], none, none, fun ls => joinFrom_emit (by rw [he]; rfl),
          fun ls => systemdFrom_emit hl (by rw [he]; rfl), rfl, .between⟩
      | continued =>
        rw [he] at hnext
        cases hnext
        have hread : (endingOf l).read = true := by rw [he]; rfl
        refine ⟨[], [], _, _, fun ls => joinFrom_joined (by rw [he]; rfl),
          fun ls => systemdFrom_read hl hread, rfl, ?_⟩
        rw [trimRight_of_last (read_endingOf.mp hread)]
        refine .inside _ ?_
        cases ps with
        | none => exact hfirst (by rw [he])
        | some q =>
          rw [append_assoc]
          exact happend _ _ (hQ q rfl)
      | folded | escaped =>
        rw [he] at hnext
        cases hnext
    cases h with
    | between => exact hsame none rfl rfl nofun hnext
    | inside p hp =>
      refine hsame (some p) rfl rfl (fun q hq => Option.some.inj hq ▸ hp) (Eq.trans ?_ hnext)
      cases endingOf l <;> rfl
    | skipping c hc => cases he : endingOf l <;> rw [he] at hnext <;> cases hnext

theorem Together.directives {r' : Reading} (h : Together (fun _ => True) r pc ps)
    (hrun : exec next r (ls.map shapeOf) = some r') :
    (joinFrom pc ls).filterMap directive = (systemdFrom ps ls).filterMap directive := by
  induction ls generalizing r pc ps with
  | nil =>
    cases h with
    | between => rfl
    | inside p hp => rfl
    | skipping c hc => simp [joinFrom, systemdFrom, directive_of_comment hc]
  | cons l ls ih =>
    obtain ⟨r₁, hnext, hrest⟩ := exec_cons_eq_some.mp hrun
    obtain ⟨ec, es, pc', ps', hjoin, hread, hsame, h'⟩ :=
      h.step hnext (fun _ => trivial) fun _ _ _ => trivial
    rw [hjoin, hread, filterMap_append, filterMap_append, hsame, ih h' hrest]

end

/-! ## The policy and systemd -/

def Directive.folded (d : Directive) : Str × List Str := (d.key, fields d.value)

/-- The policy sees the directives as systemd does, and refuses the text when it would refuse one.
-/
def Sees (content : Str) : Prop :=
  (examined content).map Directive.folded = (executed content).map Directive.folded ∧
    (validateUnitContent content = .ok () → ∀ d ∈ executed content, validateDirective d = .ok ())

theorem validateUnitContent_ok {content : Str} (h : validateUnitContent content = .ok ()) :
    ∀ d ∈ examined content, validateDirective d = .ok () := by
  unfold validateUnitContent at h
  generalize examined content = ds at h ⊢
  induction ds with
  | nil => simp
  | cons d ds ih =>
    change (validateDirective d >>= fun _ => ds.forM validateDirective) = .ok () at h
    cases hd : validateDirective d with
    | error e =>
      rw [hd] at h
      cases h
    | ok u =>
      rw [hd] at h
      rintro d' (_ | ⟨_, hmem⟩)
      · exact hd
      · exact ih h d' hmem

theorem sees_of_wellContinued {content : Str} (h : WellContinued (shapesOf content)) :
    Sees content := by
  obtain ⟨r, hr⟩ := Option.isSome_iff_exists.mp h
  have hsame : examined content = executed content := Together.between.directives hr
  refine ⟨by rw [hsame], fun hok => ?_⟩
  rw [← hsame]
  exact validateUnitContent_ok hok

/-! ## Texts of every shape -/

def Ending.sample : Ending → Str
  | .plain => []
  | .continued => ['\\']
  | .folded => ['\\', ' ']
  | .escaped => ['\\', '\\']

def Shape.sample (key : Char) (s : Shape) : Str :=
  (if s.comment then ['#'] else [key, '=', 'x']) ++ s.ending.sample

theorem shapeOf_sample {key : Char} (hkey : key = 'K' ∨ key = 'Z') (s : Shape) :
    shapeOf (s.sample key) = s ∧ '\n' ∉ s.sample key := by
  obtain ⟨comment, ending⟩ := s
  rcases hkey with rfl | rfl <;> cases comment <;> cases ending <;> decide

theorem directive_key {key : Char} (hkey : key = 'K' ∨ key = 'Z') (v : Str) :
    ∃ value, directive (key :: '=' :: v) = some ⟨[toLower key], value⟩ ∧ solid value = solid v := by
  have hspace : isSpace key = false := by rcases hkey with rfl | rfl <;> decide
  have htrim : trimSpace (key :: '=' :: v) = key :: '=' :: v.rdropWhile isSpace := by
    rw [trimSpace, dropWhile_cons_of_neg (by simp [hspace]), rdropWhile_cons_of_neg hspace,
      rdropWhile_cons_of_neg (by decide)]
  have hsolid : solid (trimSpace (v.rdropWhile isSpace)) = solid v := by
    rw [trimSpace, solid_rdropWhile, solid_dropWhile, solid_rdropWhile]
  refine ⟨trimSpace (v.rdropWhile isSpace), ?_, hsolid⟩
  rw [directive, htrim]
  rcases hkey with rfl | rfl <;> rfl

def foldedOf (ls : List Str) : List (Str × List Str) :=
  (ls.filterMap directive).map Directive.folded

theorem foldedOf_append (ls ms : List Str) :
    foldedOf (ls ++ ms) = foldedOf ls ++ foldedOf ms := by
  rw [foldedOf, filterMap_append, map_append]
  rfl

theorem solid_eq_of_foldedOf {v w : Str} {ls ms : List Str}
    (h : foldedOf (('K' :: '=' :: v) :: ls) = foldedOf (('K' :: '=' :: w) :: ms)) :
    solid v = solid w := by
  obtain ⟨x, hx, hxv⟩ := directive_key (.inl rfl) v
  obtain ⟨y, hy, hyw⟩ := directive_key (.inl rfl) w
  rw [foldedOf, foldedOf, filterMap_cons_some hx, filterMap_cons_some hy, map_cons,
    map_cons, cons.injEq] at h
  have hfields : fields x = fields y := congrArg Prod.snd h.1
  rw [← hxv, ← hyw, ← flatten_fields, ← flatten_fields, hfields]

/-! ## How samples are read -/

def Shape.first (key : Char) (s : Shape) : Char := if s.comment then '#' else key

section

variable {key : Char} (s : Shape)

theorem endingOf_sample (hkey : key = 'K' ∨ key = 'Z') : endingOf (s.sample key) = s.ending :=
  congrArg Shape.ending (shapeOf_sample hkey s).1

theorem isComment_sample (hkey : key = 'K' ∨ key = 'Z') : isComment (s.sample key) = s.comment :=
  congrArg Shape.comment (shapeOf_sample hkey s).1

theorem sample_eq (key : Char) : ∃ y, s.sample key = s.first key :: y := by
  obtain ⟨comment, ending⟩ := s
  cases comment <;> exact ⟨_, rfl⟩

theorem trimRight_sample (hkey : key = 'K' ∨ key = 'Z') (hj : s.ending.joined = true) :
    (trimRight (s.sample key)).dropLast = if s.comment then ['#'] else [key, '=', 'x'] := by
  obtain ⟨comment, ending⟩ := s
  rcases hkey with rfl | rfl <;> cases comment <;> cases ending <;> first | decide | cases hj

theorem dropLast_sample (hc : s.comment = false) (hr : s.ending.read = true) :
    (s.sample key).dropLast = [key, '=', 'x'] ++ s.ending.sample.dropLast := by
  obtain ⟨comment, ending⟩ := s
  cases comment with
  | true => cases hc
  | false => cases ending <;> first | rfl | cases hr

end

theorem joinFrom_pending (p : Str) (ls : List Str) :
    ∃ x tail, joinFrom (some p) ls = (p ++ x) :: tail := by
  induction ls generalizing p with
  | nil => exact ⟨[], [], by simp [joinFrom]⟩
  | cons l ls ih =>
    cases hj : (endingOf l).joined with
    | true =>
      obtain ⟨x, tail, hx⟩ := ih (p ++ (trimRight l).dropLast ++ [' '])
      refine ⟨(trimRight l).dropLast ++ [' '] ++ x, tail, ?_⟩
      rw [joinFrom_joined hj]
      simpa using hx
    | false => exact ⟨_, _, joinFrom_emit hj⟩

theorem systemdFrom_pending (p : Str) (ls : List Str) :
    ∃ x tail, systemdFrom (some p) ls = (p ++ x) :: tail := by
  induction ls generalizing p with
  | nil => exact ⟨[], [], by simp [systemdFrom]⟩
  | cons l ls ih =>
    cases hc : isComment l with
    | true =>
      rw [systemdFrom_comment hc]
      exact ih p
    | false =>
      cases hr : (endingOf l).read with
      | true =>
        obtain ⟨x, tail, hx⟩ := ih (p ++ l.dropLast ++ [' '])
        refine ⟨l.dropLast ++ [' '] ++ x, tail, ?_⟩
        rw [systemdFrom_read hc hr]
        simpa using hx
      | false => exact ⟨_, _, systemdFrom_emit hc hr⟩

theorem joinFrom_sample (p : Str) (ss : List Shape) :
    ∃ x tail, joinFrom (some p) (ss.map (Shape.sample 'K')) = (p ++ x) :: tail ∧
      (x = [] ∨ ∃ s y, x = Shape.first 'K' s :: y) := by
  cases ss with
  | nil => exact ⟨[], [], by simp [joinFrom], .inl rfl⟩
  | cons s ss =>
    have hend := endingOf_sample s (.inl rfl)
    rw [map_cons]
    cases hj : s.ending.joined with
    | true =>
      obtain ⟨x, tail, hx⟩ := joinFrom_pending (p ++ (trimRight (s.sample 'K')).dropLast ++ [' '])
        (ss.map (Shape.sample 'K'))
      refine ⟨(trimRight (s.sample 'K')).dropLast ++ [' '] ++ x, tail, ?_, .inr ⟨s, ?_⟩⟩
      · rw [joinFrom_joined (hend ▸ hj)]
        simpa using hx
      · rw [trimRight_sample s (.inl rfl) hj, Shape.first]
        cases s.comment <;> exact ⟨_, rfl⟩
    | false =>
      obtain ⟨y, hy⟩ := sample_eq s 'K'
      exact ⟨s.sample 'K', _, joinFrom_emit (hend ▸ hj), .inr ⟨s, y, hy⟩⟩

theorem systemdFrom_sample (p : Str) (ss : List Shape) :
    ∃ x tail, systemdFrom (some p) (ss.map (Shape.sample 'K')) = (p ++ x) :: tail ∧
      (x = [] ∨ ∃ y, x = 'K' :: y) := by
  induction ss with
  | nil => exact ⟨[], [], by simp [systemdFrom], .inl rfl⟩
  | cons s ss ih =>
    have hcomment := isComment_sample s (.inl rfl)
    have hend := endingOf_sample s (.inl rfl)
    rw [map_cons]
    cases hc : s.comment with
    | true =>
      rw [systemdFrom_comment (hcomment.trans hc)]
      exact ih
    | false =>
      cases hr : s.ending.read with
      | true =>
        obtain ⟨x, tail, hx⟩ := systemdFrom_pending (p ++ (s.sample 'K').dropLast ++ [' '])
          (ss.map (Shape.sample 'K'))
        refine ⟨(s.sample 'K').dropLast ++ [' '] ++ x, tail, ?_, .inr ?_⟩
        · rw [systemdFrom_read (hcomment.trans hc) (hend ▸ hr)]
          simpa using hx
        · rw [dropLast_sample s hc hr]
          exact ⟨_, rfl⟩
      | false =>
        obtain ⟨y, hy⟩ := sample_eq s 'K'
        rw [Shape.first, hc] at hy
        exact ⟨s.sample 'K', _, systemdFrom_emit (hcomment.trans hc) (hend ▸ hr), .inr ⟨y, hy⟩⟩

/-- A line that sets the key. -/
def Keyed (p : Str) : Prop := ∃ v, p = 'K' :: '=' :: v

theorem Keyed.append {p : Str} (h : Keyed p) (x : Str) : Keyed (p ++ x) := by
  obtain ⟨v, rfl⟩ := h
  exact ⟨v ++ x, rfl⟩

/-- A comment, or a directive with the key of the samples. -/
def Known (l : Str) : Prop := isComment l = true ∨ Keyed l

theorem Known.append {l : Str} (h : Known l) (x : Str) : Known (l ++ x) :=
  h.imp isComment_append (·.append x)

theorem Known.key {l : Str} {d : Directive} (h : Known l) (hd : directive l = some d) :
    d.key = ['k'] := by
  rcases h with hl | ⟨v, rfl⟩
  · rw [directive_of_comment hl] at hd
    cases hd
  · obtain ⟨value, hvalue, -⟩ := directive_key (.inl rfl) v
    rw [hvalue] at hd
    cases hd
    rfl

theorem known_sample (s : Shape) : Known (s.sample 'K') := by
  obtain ⟨comment, ending⟩ := s
  cases comment with
  | true => exact .inl (isComment_sample _ (.inl rfl))
  | false => exact .inr ⟨_, rfl⟩

theorem key_of_mem_joinFrom {pending : Option Str} {ss : List Shape} {d : Directive}
    (hpending : ∀ p, pending = some p → Known p)
    (hd : d ∈ (joinFrom pending (ss.map (Shape.sample 'K'))).filterMap directive) :
    d.key = ['k'] := by
  induction ss generalizing pending with
  | nil =>
    cases pending with
    | none => cases hd
    | some p =>
      obtain ⟨l, hl, hdir⟩ := mem_filterMap.mp hd
      cases mem_singleton.mp hl
      exact (hpending p rfl).key hdir
  | cons s ss ih =>
    have hstart : ∀ {x}, Known x → Known (pending.getD [] ++ x) := by
      intro x hx
      cases pending with
      | none => exact hx
      | some p => exact (hpending p rfl).append x
    rw [map_cons] at hd
    cases hj : (endingOf (s.sample 'K')).joined with
    | true =>
      rw [joinFrom_joined hj,
        trimRight_sample s (.inl rfl) (endingOf_sample s (.inl rfl) ▸ hj)] at hd
      refine ih (fun p hp => ?_) hd
      cases hp
      refine (hstart ?_).append _
      cases s.comment with
      | true => exact .inl (by decide)
      | false => exact .inr ⟨_, rfl⟩
    | false =>
      rw [joinFrom_emit hj, filterMap_cons] at hd
      cases hdir : directive (pending.getD [] ++ s.sample 'K') with
      | none =>
        rw [hdir] at hd
        exact ih (fun p hp => by cases hp) hd
      | some d' =>
        rw [hdir] at hd
        rcases mem_cons.mp hd with rfl | hmem
        · exact (hstart (known_sample s)).key hdir
        · exact ih (fun p hp => by cases hp) hmem

/-! ## Where the readings part -/

theorem foldedOf_ne {p y : Str} {ls ms : List Str} (hp : Keyed p) (hxy : solid x ≠ solid y) :
    foldedOf ((p ++ x) :: ls) ≠ foldedOf ((p ++ y) :: ms) := by
  obtain ⟨v, rfl⟩ := hp
  intro h
  have hsolid : solid (v ++ x) = solid (v ++ y) := solid_eq_of_foldedOf h
  rw [solid_append, solid_append, append_right_inj] at hsolid
  exact hxy hsolid

theorem solid_first {c : Char} (hc : isSpace c = false) (y : Str) :
    solid (c :: y) = c :: solid y := filter_cons_of_pos (by simp [hc])

theorem solid_ne_backslash (h : x = [] ∨ ∃ s y, x = Shape.first 'K' s :: y) : solid x ≠ ['\\'] := by
  rcases h with rfl | ⟨s, y, rfl⟩
  · decide
  · rw [Shape.first]
    cases s.comment <;> rw [solid_first (by decide)] <;> simp

section

variable {p : Option Str} {ss : List Shape}

theorem keyed_getD (hp : ∀ q, p = some q → Keyed q) (x : Str) :
    Keyed (p.getD [] ++ 'K' :: '=' :: x) := by
  cases p with
  | none => exact ⟨x, rfl⟩
  | some q => exact (hp q rfl).append _

/-- Backslash and blanks: the policy goes on, systemd ends the line. -/
theorem folded_parts (hp : ∀ q, p = some q → Keyed q) :
    foldedOf (joinFrom p (Shape.sample 'K' ⟨false, .folded⟩ :: ss.map (Shape.sample 'K'))) ≠
      foldedOf (systemdFrom p
        (Shape.sample 'K' ⟨false, .folded⟩ :: ss.map (Shape.sample 'K'))) := by
  have hjoin : ∀ ls, joinFrom p (Shape.sample 'K' ⟨false, .folded⟩ :: ls) =
      joinFrom (some (p.getD [] ++ ['K', '=', 'x'] ++ [' '])) ls := fun _ => joinFrom_joined rfl
  have hread : ∀ ls, systemdFrom p (Shape.sample 'K' ⟨false, .folded⟩ :: ls) =
      (p.getD [] ++ ['K', '=', 'x'] ++ ['\\', ' ']) :: systemdFrom none ls := fun _ => by
    rw [systemdFrom_emit (by decide) (by decide), append_assoc]
    rfl
  obtain ⟨x, tail, hx, hstart⟩ := joinFrom_sample (p.getD [] ++ ['K', '=', 'x'] ++ [' ']) ss
  rw [hjoin, hread, hx, append_assoc _ [' ']]
  exact foldedOf_ne (keyed_getD hp _) (solid_ne_backslash (x := x) hstart)

/-- An even number of backslashes: systemd goes on, the policy ends the line. -/
theorem escaped_parts (hp : ∀ q, p = some q → Keyed q) :
    foldedOf (joinFrom p (Shape.sample 'K' ⟨false, .escaped⟩ :: ss.map (Shape.sample 'K'))) ≠
      foldedOf (systemdFrom p
        (Shape.sample 'K' ⟨false, .escaped⟩ :: ss.map (Shape.sample 'K'))) := by
  have hjoin : ∀ ls, joinFrom p (Shape.sample 'K' ⟨false, .escaped⟩ :: ls) =
      (p.getD [] ++ ['K', '=', 'x', '\\'] ++ ['\\']) :: joinFrom none ls := fun _ => by
    rw [joinFrom_emit (by decide), append_assoc]
    rfl
  have hread : ∀ ls, systemdFrom p (Shape.sample 'K' ⟨false, .escaped⟩ :: ls) =
      systemdFrom (some (p.getD [] ++ ['K', '=', 'x', '\\'] ++ [' '])) ls := fun _ =>
    systemdFrom_read (by decide) (by decide)
  obtain ⟨x, tail, hx, hstart⟩ :=
    systemdFrom_sample (p.getD [] ++ ['K', '=', 'x', '\\'] ++ [' ']) ss
  rw [hjoin, hread, hx, append_assoc _ [' ']]
  refine foldedOf_ne (keyed_getD hp _) (Ne.symm (solid_ne_backslash (x := x) ?_))
  exact hstart.imp id fun ⟨y, hy⟩ => ⟨⟨false, .plain⟩, y, hy⟩

/-- A comment in a continuation: the policy takes it into the directive, systemd drops it. -/
theorem comment_parts {q : Str} {ending : Ending} (hq : Keyed q) :
    foldedOf (joinFrom (some q) (Shape.sample 'K' ⟨true, ending⟩ :: ss.map (Shape.sample 'K'))) ≠
      foldedOf (systemdFrom (some q)
        (Shape.sample 'K' ⟨true, ending⟩ :: ss.map (Shape.sample 'K'))) := by
  have hend : endingOf (Shape.sample 'K' ⟨true, ending⟩) = ending :=
    endingOf_sample ⟨true, ending⟩ (.inl rfl)
  have hjoin : ∃ y tail, joinFrom (some q)
      (Shape.sample 'K' ⟨true, ending⟩ :: ss.map (Shape.sample 'K')) = (q ++ '#' :: y) :: tail := by
    cases hj : (endingOf (Shape.sample 'K' ⟨true, ending⟩)).joined with
    | true =>
      rw [joinFrom_joined hj]
      rw [hend] at hj
      rw [trimRight_sample ⟨true, ending⟩ (.inl rfl) hj]
      obtain ⟨x, tail, hx⟩ := joinFrom_pending (q ++ ['#'] ++ [' ']) (ss.map (Shape.sample 'K'))
      refine ⟨[' '] ++ x, tail, hx.trans ?_⟩
      rw [append_assoc, append_assoc]
      rfl
    | false => exact ⟨ending.sample, _, joinFrom_emit hj⟩
  obtain ⟨y, tail, hy⟩ := hjoin
  obtain ⟨x, tail', hx, hstart⟩ := systemdFrom_sample q ss
  rw [systemdFrom_comment (isComment_sample ⟨true, ending⟩ (.inl rfl)), hy, hx]
  refine foldedOf_ne hq ?_
  rw [solid_first (by decide)]
  rcases hstart with rfl | ⟨z, rfl⟩
  · exact cons_ne_nil _ _
  · rw [solid_first (by decide)]
    simp

/-- A directive after a comment that ends in a backslash: systemd reads it, the policy does not. -/
theorem skipped_parts {c : Str} {ending : Ending} (hc : isComment c = true) :
    foldedOf (joinFrom (some c) (Shape.sample 'Z' ⟨false, ending⟩ :: ss.map (Shape.sample 'K'))) ≠
      foldedOf (systemdFrom none
        (Shape.sample 'Z' ⟨false, ending⟩ :: ss.map (Shape.sample 'K'))) := by
  have hcomment : isComment (Shape.sample 'Z' ⟨false, ending⟩) = false :=
    isComment_sample ⟨false, ending⟩ (.inr rfl)
  have hread : ∃ v tail, systemdFrom none
      (Shape.sample 'Z' ⟨false, ending⟩ :: ss.map (Shape.sample 'K')) = ('Z' :: '=' :: v) :: tail := by
    cases hr : (endingOf (Shape.sample 'Z' ⟨false, ending⟩)).read with
    | true =>
      rw [systemdFrom_read hcomment hr]
      rw [endingOf_sample ⟨false, ending⟩ (.inr rfl)] at hr
      rw [dropLast_sample ⟨false, ending⟩ rfl hr]
      obtain ⟨x, tail, hx⟩ := systemdFrom_pending
        (Option.getD none [] ++ (['Z', '=', 'x'] ++ ending.sample.dropLast) ++ [' '])
        (ss.map (Shape.sample 'K'))
      exact ⟨_, tail, hx⟩
    | false => exact ⟨_, _, systemdFrom_emit hcomment hr⟩
  have hkeys : ∀ d ∈ (joinFrom (some c)
      (Shape.sample 'Z' ⟨false, ending⟩ :: ss.map (Shape.sample 'K'))).filterMap directive,
      d.key = ['k'] := by
    intro d hd
    cases hj : (endingOf (Shape.sample 'Z' ⟨false, ending⟩)).joined with
    | true =>
      rw [joinFrom_joined hj, append_assoc] at hd
      refine key_of_mem_joinFrom (fun p hp => ?_) hd
      cases hp
      exact .inl (isComment_append hc)
    | false =>
      rw [joinFrom_emit hj, Option.getD_some,
        filterMap_cons_none (directive_of_comment (isComment_append hc))] at hd
      refine key_of_mem_joinFrom (fun p hp => ?_) hd
      cases hp
  obtain ⟨v, tail, hv⟩ := hread
  obtain ⟨value, hvalue, -⟩ := directive_key (.inr rfl) v
  intro h
  have hmem : Directive.folded ⟨[toLower 'Z'], value⟩ ∈ foldedOf (systemdFrom none
      (Shape.sample 'Z' ⟨false, ending⟩ :: ss.map (Shape.sample 'K'))) := by
    rw [hv, foldedOf, filterMap_cons_some hvalue]
    exact mem_cons_self
  rw [← h] at hmem
  obtain ⟨d, hd, hfold⟩ := mem_map.mp hmem
  have hkey : d.key = [toLower 'Z'] := congrArg Prod.fst hfold
  rw [hkeys d hd] at hkey
  exact absurd hkey (by decide)

end

theorem parts_now {s : Shape} (h : Together Keyed r pc ps) (hbad : next r s = none)
    (ss : List Shape) :
    ∃ key, (key = 'K' ∨ key = 'Z') ∧
      foldedOf (joinFrom pc (s.sample key :: ss.map (Shape.sample 'K'))) ≠
        foldedOf (systemdFrom ps (s.sample key :: ss.map (Shape.sample 'K'))) := by
  obtain ⟨comment, ending⟩ := s
  cases h with
  | between =>
    cases comment with
    | true => cases hbad
    | false =>
      cases ending with
      | plain | continued => cases hbad
      | folded => exact ⟨'K', .inl rfl, folded_parts nofun⟩
      | escaped => exact ⟨'K', .inl rfl, escaped_parts nofun⟩
  | inside p hp =>
    have hkeyed : ∀ q, some p = some q → Keyed q := fun q hq => Option.some.inj hq ▸ hp
    cases comment with
    | true => exact ⟨'K', .inl rfl, comment_parts hp⟩
    | false =>
      cases ending with
      | plain | continued => cases hbad
      | folded => exact ⟨'K', .inl rfl, folded_parts hkeyed⟩
      | escaped => exact ⟨'K', .inl rfl, escaped_parts hkeyed⟩
  | skipping c hc =>
    cases comment with
    | true => cases hbad
    | false => exact ⟨'Z', .inr rfl, skipped_parts hc⟩

/-- Lines of these shapes hold different directives for the two. -/
theorem Together.parts {shapes : List Shape} (h : Together Keyed r pc ps)
    (hrun : exec next r shapes = none) :
    ∃ ls, ls.map shapeOf = shapes ∧ (∀ l ∈ ls, '\n' ∉ l) ∧ ls ≠ [] ∧
      foldedOf (joinFrom pc ls) ≠ foldedOf (systemdFrom ps ls) := by
  induction shapes generalizing r pc ps with
  | nil => cases hrun
  | cons s ss ih =>
    have hsample : shapeOf ∘ Shape.sample 'K' = id :=
      funext fun s => (shapeOf_sample (.inl rfl) s).1
    rw [exec] at hrun
    cases hnext : next r s with
    | none =>
      obtain ⟨key, hkey, hne⟩ := parts_now h hnext ss
      refine ⟨s.sample key :: ss.map (Shape.sample 'K'), ?_, ?_, cons_ne_nil _ _, hne⟩
      · rw [map_cons, (shapeOf_sample hkey s).1, map_map, hsample, map_id]
      · intro l hl
        rcases mem_cons.mp hl with rfl | hl
        · exact (shapeOf_sample hkey s).2
        · obtain ⟨s', -, rfl⟩ := mem_map.mp hl
          exact (shapeOf_sample (.inl rfl) s').2
    | some r' =>
      rw [hnext] at hrun
      have hs := shapeOf_sample (.inl rfl) s
      obtain ⟨ec, es, pc', ps', hjoin, hread, hsame, h'⟩ :=
        h.step (l := s.sample 'K') (by rw [hs.1]; exact hnext)
          (fun hshape => by
            rw [hs.1] at hshape
            subst hshape
            exact ⟨_, rfl⟩)
          fun p x hp => hp.append x
      obtain ⟨ls, hls, hlines, -, hne⟩ := ih h' hrun
      refine ⟨s.sample 'K' :: ls, by rw [map_cons, hs.1, hls], ?_, cons_ne_nil _ _, ?_⟩
      · rintro l (_ | ⟨_, hl⟩)
        · exact hs.2
        · exact hlines l hl
      · rw [hjoin, hread, foldedOf_append, foldedOf_append, foldedOf, hsame]
        exact fun heq => hne (append_cancel_left heq)

/-- Of every unit with these lines the policy sees each directive that systemd sees, exactly if the
two join the same lines. -/
theorem policy_sees_iff (shapes : List Shape) :
    (∀ content, shapesOf content = shapes → Sees content) ↔ WellContinued shapes := by
  constructor
  · intro h
    by_contra hbad
    obtain ⟨ls, hls, hlines, hnil, hne⟩ :=
      Together.between.parts (Option.not_isSome_iff_eq_none.mp hbad)
    have hphysical : physicalLines (['\n'].intercalate ls) = ls :=
      splitOn_intercalate '\n' hlines hnil
    have hsees := (h (['\n'].intercalate ls) (by rw [shapesOf, hphysical, hls])).1
    rw [examined, executed, joinContinuationLines, systemdLines, hphysical] at hsees
    exact hne hsees
  · rintro h content rfl
    exact sees_of_wellContinued h

/-- A comment that ends in a backslash: the policy takes the command after it for a part of the
comment, and accepts the text. -/
theorem comment_hides_directive :
    let content := "# c \\\nExecStart=/bin/sh -c x".toList
    examined content = [] ∧
      executed content = [⟨"execstart", "/bin/sh -c x"⟩] ∧
      validateUnitContent content = .ok () ∧
      validateDirective ⟨"execstart", "/bin/sh -c x"⟩ ≠ .ok () ∧
      ¬Sees content := by
  have hexamined : examined "# c \\\nExecStart=/bin/sh -c x" = [] := by decide +kernel
  have hexecuted : executed "# c \\\nExecStart=/bin/sh -c x" =
      [⟨"execstart", "/bin/sh -c x"⟩] := by decide +kernel
  refine ⟨hexamined, hexecuted, ?_, by decide +kernel, fun h => ?_⟩
  · rfl
  · have := h.1
    cases this

end PowerManage.Service
