import PowerManage.Lib.Crash
import PowerManage.Lib.Resolve
import PowerManage.Fs.Protected
import PowerManage.Fs.Manager

/-!
# Removing a directory and following no link

`removeDirSecure` opens the directories above the one it is to remove, one by one and without
following links, and then goes down in the same way: it asks what an entry is, opens a directory,
removes what it has in it, and unlinks.  Everything is done from an open directory with a name of one
component.

The kernel here is more general than that.  It takes names with slashes, follows the links on the way
and keeps a list of those it followed, and a list of the entries it unlinked; every call may fail.
On a tree nobody else changes, `Secure` is what a call has done when it returns.  While somebody
replaces entries by links between any two calls, `Unled` holds at any moment: no link has been
followed, and what has been unlinked was in the directory or was the directory.
-/

namespace PowerManage.Fs.RemoveDir

open Interaction Interaction.Prog PathName FileTree List Function
open Text (base quote clean_abs isAbs_spell isAbs_clean_rel components_append_slash
  slash_not_mem_of_mem_cleanAbs)

/-! ## The functions -/

/-- What `fstatat` tells apart. -/
inductive Kind
  | dir
  | link
  | other
deriving DecidableEq

/-- The calls of `RemoveDir`; an open directory is named by its path. -/
inductive Call
  | ctxErr
  /-- with `O_DIRECTORY`, and with or without `O_NOFOLLOW` -/
  | openat (h : Path) (name : Str) (nofollow : Bool)
  | fstatat (h : Path) (name : Str) (nofollow : Bool)
  | readdirnames (h : Path)
  /-- with or without `AT_REMOVEDIR` -/
  | unlinkat (h : Path) (name : Str) (removeDir : Bool)
  | close (h : Path)
deriving DecidableEq

def Reply : Call → Type
  | .ctxErr => Option Str
  | .openat _ _ _ => Option Path
  | .fstatat _ _ _ => Option Kind
  | .readdirnames _ => Option (List Name)
  | .unlinkat _ _ _ | .close _ => Bool

abbrev Program := Prog Call Reply

/-- How a removal has ended. -/
inductive Outcome
  | removed
  | failed (text : Str)
  | outOfFuel
deriving DecidableEq

abbrev Done := Program Outcome

/-- The loop of `openNoFollowChain`. -/
def openComponents (dir : Str) : Path → List Name → Program (Except Str Path)
  | fd, [] => .ret (.ok fd)
  | fd, comp :: rest =>
    if comp = [] ∨ comp = dot then openComponents dir fd rest
    else
      .ask (.openat fd comp true) fun (next : Option Path) =>
        .ask (.close fd) fun _ =>
          match next with
          | none => .ret (.error ("open component " ++ quote comp ++ " of " ++ dir ++
              " without following symlinks: "))
          | some next => openComponents dir next rest

def trimSlash (s : Str) : Str := if s.head? = some '/' then s.tail else s

/-- One directory after the other, through no link. -/
def openNoFollowChain (dir : Str) : Program (Except Str Path) :=
  .ask (.openat [] ['/'] true) fun (fd : Option Path) =>
    match fd with
    | none => .ret (.error "open /: ")
    | some fd =>
      if Text.clean dir = ['/'] then .ret (.ok fd)
      else openComponents dir fd (components (trimSlash (Text.clean dir)))

/-- The loop over the children, which stops at the first that cannot be removed. -/
def removeEach (remove : Name → Done) : List Name → Done
  | [] => .ret .removed
  | child :: rest =>
    if child = dot ∨ child = dotDot then removeEach remove rest
    else (remove child).bind fun r =>
      match r with
      | .removed => removeEach remove rest
      | r => .ret r

def unlink (dirfd : Path) (name : Str) (removeDir : Bool) (text : Str) : Done :=
  .ask (.unlinkat dirfd name removeDir) fun (ok : Bool) =>
    if ok then .ret .removed else .ret (.failed (text ++ name ++ ": "))

/-- The end of `removeAtRecursive` on a directory, after its children. -/
def finishDir (dirfd : Path) (name : Str) (cfd : Path) (r : Outcome) : Done :=
  .ask (.close cfd) fun (ok : Bool) =>
    match r with
    | .removed =>
      if ok then unlink dirfd name true "rmdir "
      else .ret (.failed ("close dir " ++ name ++ ": "))
    | r => .ret r

/-- What is in a directory, then the directory; links are unlinked. -/
def removeAtRecursive : Nat → Path → Str → Done
  | 0, _, _ => .ret .outOfFuel
  | fuel + 1, dirfd, name =>
    .ask .ctxErr fun (err : Option Str) =>
      match err with
      | some e => .ret (.failed e)
      | none =>
        .ask (.fstatat dirfd name true) fun (st : Option Kind) =>
          match st with
          | none => .ret (.failed ("stat " ++ name ++ ": "))
          | some .link | some .other => unlink dirfd name false "unlink "
          | some .dir =>
            .ask (.openat dirfd name true) fun (cfd : Option Path) =>
              match cfd with
              | none => .ret (.failed ("open dir " ++ name ++ ": "))
              | some cfd =>
                .ask (.readdirnames cfd) fun (children : Option (List Name)) =>
                  match children with
                  | none => .ask (.close cfd) fun _ =>
                      .ret (.failed ("read dir " ++ name ++ ": "))
                  | some children =>
                    (removeEach (removeAtRecursive fuel cfd) children).bind
                      (finishDir dirfd name cfd)

/-- `removeDirSecure`, once the parent is open. -/
def removeFrom (fuel : Nat) (path : Str) (pfd : Path) : Done :=
  .ask (.fstatat pfd (base path) true) fun (st : Option Kind) =>
    match st with
    | none => .ret (.failed ("stat " ++ path ++ ": "))
    | some .link => .ret (.failed ("refusing to remove symlink " ++ path))
    | some .other => .ret (.failed ("refusing to remove non-directory " ++ path))
    | some .dir => removeAtRecursive fuel pfd (base path)

def removeDirSecure (fuel : Nat) (path : Str) : Done :=
  (openNoFollowChain (dirOf path)).bind fun pfd =>
    match pfd with
    | .error e => .ret (.failed e)
    | .ok pfd => (removeFrom fuel path pfd).bind fun r => .ask (.close pfd) fun _ => .ret r

/-! ## The kernel -/

/-- The tree, with the links that were followed and the entries that were unlinked. -/
structure Sys where
  tree : Tree
  followed : List Path
  unlinked : List Path

/-- What stands at a path, links not followed. -/
def kindAt (t : Tree) (p : Path) : Option Kind :=
  if p = [] then some .dir
  else
    match t p with
    | some (.dir _) => some .dir
    | some (.link _) => some .link
    | some (.file _) => some .other
    | none => none

/-- Where `unlinkat` succeeds: an empty directory, or anything that is none. -/
def Unlinkable (t : Tree) (removeDir : Bool) (p : Path) : Prop :=
  p ≠ [] ∧
    match removeDir with
    | true => kindAt t p = some .dir ∧ ∀ n, t (p ++ [n]) = none
    | false => kindAt t p = some .link ∨ kindAt t p = some .other

def Sys.follow (s : Sys) (links : List Path) : Sys := { s with followed := s.followed ++ links }

def Sys.unlink (s : Sys) (p : Path) : Sys :=
  { s with tree := Function.update s.tree p none, unlinked := s.unlinked ++ [p] }

/-- How a call may be answered, and what it does.  A call may fail at any time. -/
def Kernel (s : Sys) : (q : Call) → Reply q → Sys → Prop
  | .ctxErr, _, s' => s' = s
  | .openat h name nofollow, reply, s' =>
    s' = s.follow (resolveAt s.tree nofollow h name).2 ∧
      ∀ p, reply = some p →
        (resolveAt s.tree nofollow h name).1 = some p ∧ kindAt s.tree p = some .dir
  | .fstatat h name nofollow, reply, s' =>
    s' = s.follow (resolveAt s.tree nofollow h name).2 ∧
      ∀ k, reply = some k →
        ∃ p, (resolveAt s.tree nofollow h name).1 = some p ∧ kindAt s.tree p = some k
  | .readdirnames h, reply, s' =>
    s' = s ∧ ∀ names, reply = some names → names.Nodup ∧ (∀ n ∈ names, Single n) ∧
      ∀ n, n ∈ names ↔ s.tree (h ++ [n]) ≠ none
  | .unlinkat h name _, false, s' => s' = s.follow (resolveAt s.tree true h name).2
  | .unlinkat h name removeDir, true, s' =>
    ∃ p, (resolveAt s.tree true h name).1 = some p ∧ Unlinkable s.tree removeDir p ∧
      s' = (s.follow (resolveAt s.tree true h name).2).unlink p
  | .close _, _, s' => s' = s

def plant (t : Tree) (links : List (Path × Str)) : Tree :=
  links.foldl (fun t l => put t l.1 (.link l.2)) t

/-- A call before which somebody has put links. -/
def Hostile (s : Sys) (q : Call) (reply : Reply q) (s' : Sys) : Prop :=
  ∃ links, Kernel { s with tree := plant s.tree links } q reply s'

/-! ## Between two calls of somebody else -/

/-- No link has been followed, and all that has been unlinked is at or below `top`. -/
structure Unled (top : Path) (s : Sys) : Prop where
  followed : s.followed = []
  unlinked : ∀ p ∈ s.unlinked, top <+: p

variable {top h q : Path} {name : Str} {s s' : Sys} {t : Tree}

theorem follow_nil (s : Sys) : s.follow [] = s := by
  rw [Sys.follow, append_nil]

theorem Unled.unlink (hs : Unled top s) (hq : top <+: q) : Unled top (s.unlink q) := by
  refine ⟨hs.followed, fun p hp => ?_⟩
  rcases mem_append.mp hp with hp | hp
  · exact hs.unlinked p hp
  · rw [mem_singleton.mp hp]
    exact hq

theorem Unled.plant (hs : Unled top s) (links : List (Path × Str)) :
    Unled top { s with tree := plant s.tree links } :=
  ⟨hs.followed, hs.unlinked⟩

section Led

variable (hlead : Leads h name q)
include hlead

theorem kernel_openat {reply : Option Path} (hk : Kernel s (.openat h name true) reply s') :
    s' = s ∧ ∀ p, reply = some p → p = q ∧ kindAt s.tree q = some .dir := by
  obtain ⟨rfl, hreply⟩ := hk
  rw [hlead s.tree, follow_nil]
  refine ⟨rfl, fun p hp => ?_⟩
  obtain ⟨hpath, hdir⟩ := hreply p hp
  rw [hlead s.tree] at hpath
  cases hpath
  exact ⟨rfl, hdir⟩

theorem kernel_fstatat {reply : Option Kind} (hk : Kernel s (.fstatat h name true) reply s') :
    s' = s ∧ ∀ k, reply = some k → kindAt s.tree q = some k := by
  obtain ⟨rfl, hreply⟩ := hk
  rw [hlead s.tree, follow_nil]
  refine ⟨rfl, fun k hk => ?_⟩
  obtain ⟨p, hpath, hkind⟩ := hreply k hk
  rw [hlead s.tree] at hpath
  cases hpath
  exact hkind

theorem kernel_unlinkat {removeDir ok : Bool} (hk : Kernel s (.unlinkat h name removeDir) ok s') :
    (ok = false ∧ s' = s) ∨ (ok = true ∧ Unlinkable s.tree removeDir q ∧ s' = s.unlink q) := by
  cases ok with
  | false =>
    cases hk
    rw [hlead s.tree, follow_nil]
    exact .inl ⟨rfl, rfl⟩
  | true =>
    obtain ⟨p, hpath, hun, rfl⟩ := hk
    rw [hlead s.tree] at hpath
    cases hpath
    rw [hlead s.tree, follow_nil]
    exact .inr ⟨rfl, hun, rfl⟩

end Led

/-- A triple under which links may appear at any moment. -/
abbrev Held {α : Type} (top : Path) (p : Program α) (R : α → Prop) : Prop :=
  CrashTriple Hostile (Unled top) p (Unled top) fun a s => Unled top s ∧ R a

theorem held_ret {α : Type} {a : α} {R : α → Prop} (ha : R a) : Held top (.ret a) R :=
  .ret (fun _ hs => hs) fun _ hs => ⟨hs, ha⟩

theorem held_ask {α : Type} {c : Call} {k : Reply c → Program α} {R : α → Prop}
    {K : Reply c → Prop} (hc : ∀ s x s', Unled top s → Kernel s c x s' → Unled top s' ∧ K x)
    (hk : ∀ x, K x → Held top (k x) R) : Held top (.ask c k) R := by
  refine .ask (fun x s => Unled top s ∧ K x) (fun _ hs => hs) ?_ fun x => ?_
  · rintro s x s' hs ⟨links, hkernel⟩
    exact hc _ x s' (hs.plant links) hkernel
  · exact .of_forall fun s hs => (hk x hs.2).imp (fun u hu => by rw [hu]; exact hs.1) (fun _ hs => hs)
      fun _ _ hs => hs

theorem held_bind {α β : Type} {p : Program α} {f : α → Program β} {R : α → Prop} {S : β → Prop}
    (hp : Held top p R) (hf : ∀ a, R a → Held top (f a) S) : Held top (p.bind f) S := by
  refine CrashTriple.bind hp fun a => ?_
  exact .of_forall fun s hs => (hf a hs.2).imp (fun u hu => by rw [hu]; exact hs.1) (fun _ hs => hs)
    fun _ _ hs => hs

theorem held_close {α : Type} {k : Bool → Program α} {R : α → Prop} (fd : Path)
    (hk : ∀ ok, Held top (k ok) R) : Held top (.ask (.close fd) k : Program α) R :=
  held_ask (fun s x s' hs hkernel => ⟨by rw [show s' = s from hkernel]; exact hs, trivial⟩)
    fun ok _ => hk ok

theorem held_unlink (hlead : Leads h name q) (hq : top <+: q) (removeDir : Bool)
    (text : Str) : Held top (unlink h name removeDir text) fun _ => True := by
  refine held_ask (K := fun _ => True) (fun s ok s' hs hkernel => ⟨?_, trivial⟩) ?_
  · rcases kernel_unlinkat hlead hkernel with ⟨-, rfl⟩ | ⟨-, -, rfl⟩
    · exact hs
    · exact hs.unlink hq
  · rintro (_ | _) - <;> exact held_ret trivial

theorem held_removeEach {remove : Name → Done} {names : List Name}
    (hremove : ∀ n ∈ names, Held top (remove n) fun _ => True) :
    Held top (removeEach remove names) fun _ => True := by
  induction names with
  | nil => exact held_ret trivial
  | cons n names ih =>
    have hrest := ih fun m hm => hremove m (mem_cons_of_mem n hm)
    rw [removeEach]
    split_ifs
    · exact hrest
    refine held_bind (hremove n mem_cons_self) ?_
    rintro (_ | _ | _) -
    · exact hrest
    · exact held_ret trivial
    · exact held_ret trivial

theorem held_removeAtRecursive (fuel : Nat) (hlead : Leads h name q) (hq : top <+: q) :
    Held top (removeAtRecursive fuel h name) fun _ => True := by
  induction fuel generalizing h name q with
  | zero => exact held_ret trivial
  | succ fuel ih =>
    refine held_ask (K := fun _ => True)
      (fun s x s' hs hkernel => ⟨by rw [show s' = s from hkernel]; exact hs, trivial⟩) ?_
    rintro (_ | e) -
    swap
    · exact held_ret trivial
    refine held_ask (K := fun _ => True) (fun s x s' hs hkernel => ⟨?_, trivial⟩) ?_
    · rw [(kernel_fstatat hlead hkernel).1]
      exact hs
    rintro (_ | _ | _ | _) -
    · exact held_ret trivial
    · -- a directory: what is opened is the directory the name leads to
      refine held_ask (K := fun (r : Option Path) => ∀ p, r = some p → p = q)
        (fun s x s' hs hkernel => ?_) ?_
      · obtain ⟨rfl, hreply⟩ := kernel_openat hlead hkernel
        exact ⟨hs, fun p hp => (hreply p hp).1⟩
      rintro (_ | cfd) hcfd
      · exact held_ret trivial
      obtain rfl := hcfd cfd rfl
      refine held_ask (K := fun (r : Option (List Name)) => ∀ names, r = some names →
        ∀ n ∈ names, Single n) (fun s x s' hs hkernel => ?_) ?_
      · obtain ⟨rfl, hreply⟩ := hkernel
        exact ⟨hs, fun names hnames => (hreply names hnames).2.1⟩
      rintro (_ | names) hnames
      · exact held_close _ fun _ => held_ret trivial
      refine held_bind (held_removeEach fun n hn => ?_) fun r _ => held_close _ fun ok => ?_
      · exact ih (leads_of_single (hnames names rfl n hn) _) (hq.trans (prefix_append _ _))
      · cases r with
        | removed =>
          cases ok with
          | false => exact held_ret trivial
          | true => exact held_unlink hlead hq true _
        | failed | outOfFuel => exact held_ret trivial
    · exact held_unlink hlead hq false _
    · exact held_unlink hlead hq false _

/-! ## The directories above -/

theorem held_openComponents (dir : Str) {comps : List Name} (hcomps : ∀ c ∈ comps, Single c)
    (fd : Path) :
    Held top (openComponents dir fd comps) fun r => ∀ p, r = .ok p → p = fd ++ comps := by
  induction comps generalizing fd with
  | nil =>
    refine held_ret fun p hp => ?_
    cases hp
    exact (append_nil fd).symm
  | cons c comps ih =>
    have hc := hcomps c mem_cons_self
    rw [openComponents, if_neg fun h => h.elim hc.1.1 hc.1.2.1]
    refine held_ask (K := fun (r : Option Path) => ∀ p, r = some p → p = fd ++ [c])
      (fun s x s' hs hkernel => ?_) ?_
    · obtain ⟨rfl, hreply⟩ := kernel_openat (leads_of_single hc fd) hkernel
      exact ⟨hs, fun p hp => (hreply p hp).1⟩
    rintro (_ | next) hnext
    · exact held_close _ fun _ => held_ret fun p hp => by cases hp
    obtain rfl := hnext next rfl
    have hrest := ih (fun d hd => hcomps d (mem_cons_of_mem c hd)) (fd ++ [c])
    rw [append_assoc] at hrest
    exact held_close _ fun _ => hrest

/-- Every component of the path is a directory, and no link. -/
def AllDirs (t : Tree) (p : Path) : Prop := ∀ x, x ≠ [] → x <+: p → kindAt t x = some .dir

theorem allDirs_nil (t : Tree) : AllDirs t [] := by
  intro x hne hx
  exact absurd (prefix_nil.mp hx) hne

variable {p : Path}

theorem AllDirs.concat {c : Name} (h : AllDirs t p) (hc : kindAt t (p ++ [c]) = some .dir) :
    AllDirs t (p ++ [c]) := by
  intro x hne hx
  rcases prefix_concat_iff.mp hx with rfl | hx
  · exact hc
  · exact h x hne hx

theorem quiet_openComponents (dir : Str) {comps : List Name} (hcomps : ∀ c ∈ comps, Single c)
    {fd : Path} (hfd : AllDirs t fd) :
    Triple Kernel (fun s => s.tree = t) (openComponents dir fd comps) fun r s =>
      s.tree = t ∧ ∀ p, r = .ok p → p = fd ++ comps ∧ AllDirs t p := by
  induction comps generalizing fd with
  | nil =>
    refine .ret fun s hs => ⟨hs, fun p hp => ?_⟩
    cases hp
    exact ⟨(append_nil fd).symm, hfd⟩
  | cons c comps ih =>
    have hc := hcomps c mem_cons_self
    rw [openComponents, if_neg fun h => h.elim hc.1.1 hc.1.2.1]
    refine .ask (fun (r : Option Path) s => s.tree = t ∧ ∀ p, r = some p →
      p = fd ++ [c] ∧ kindAt t (fd ++ [c]) = some .dir) ?_ ?_
    · rintro s r s' rfl hkernel
      obtain ⟨rfl, hreply⟩ := kernel_openat (leads_of_single hc fd) hkernel
      exact ⟨rfl, hreply⟩
    intro next
    refine Triple.ask_same (fun s x s' hkernel => hkernel) fun _ => ?_
    cases next with
    | none => exact .ret fun s hs => ⟨hs.1, fun p hp => by cases hp⟩
    | some next =>
      intro s r s' hs hrun
      obtain ⟨rfl, hdir⟩ := hs.2 next rfl
      rw [append_cons]
      exact ih (fun d hd => hcomps d (mem_cons_of_mem c hd)) (hfd.concat hdir) s r s' hs.1 hrun

/-! ## The text of a path -/

theorem clean_spell (hp : ∀ c ∈ p, Single c) : Text.clean (spell p) = spell p := by
  rw [clean_abs (isAbs_spell p), cleanAbs_spell hp]

theorem spell_concat (p : Path) (c : Name) :
    spell (p ++ [c]) = (p.flatMap fun d => '/' :: d) ++ '/' :: c := by
  simp [spell]

theorem spell_eq_slash_iff (hp : ∀ c ∈ p, Single c) : spell p = ['/'] ↔ p = [] := by
  constructor
  · intro h
    have hclean := cleanAbs_spell hp
    rw [h] at hclean
    exact hclean.symm
  · rintro rfl
    rfl

theorem base_spell {c : Name} (hc : Single c) : base (spell (p ++ [c])) = c := by
  obtain ⟨⟨hne, -⟩, hslash⟩ := hc
  have hlast : ((p.flatMap fun d => '/' :: d) ++ '/' :: c).rdropWhile (· = '/') =
      (p.flatMap fun d => '/' :: d) ++ '/' :: c := by
    rw [rdropWhile_eq_self_iff]
    intro hnil
    rw [getLast_append_of_right_ne_nil _ _ (by simp), getLast_cons hne]
    have hmem := getLast_mem hne
    simp only [decide_eq_true_eq]
    intro heq
    exact hslash (heq ▸ hmem)
  have htake : (((p.flatMap fun d => '/' :: d) ++ '/' :: c).reverse.takeWhile (· ≠ '/')) =
      c.reverse := by
    rw [reverse_append, reverse_cons, append_assoc,
      takeWhile_append_of_pos (fun x hx => ?_)]
    · simp
    · simp only [decide_eq_true_eq]
      rintro rfl
      exact hslash (mem_reverse.mp hx)
  rw [base, spell_concat, hlast, htake, reverse_reverse, if_neg (by simp), if_neg hne]

theorem dirOf_spell {c : Name} (hp : ∀ d ∈ p, Single d) (hc : '/' ∉ c) :
    dirOf (spell (p ++ [c])) = spell p := by
  have hdrop : ((p.flatMap fun d => '/' :: d) ++ '/' :: c).rdropWhile (· ≠ '/') =
      (p.flatMap fun d => '/' :: d) ++ ['/'] := by
    have hall : ∀ x ∈ c.reverse, decide (x ≠ '/') = true := by
      intro x hx
      simp only [decide_eq_true_eq]
      rintro rfl
      exact hc (mem_reverse.mp hx)
    rw [append_cons, rdropWhile, reverse_append, dropWhile_append_of_pos hall,
      ← rdropWhile, rdropWhile_concat_neg _ _ _ (by simp)]
  have habs : isAbs ((p.flatMap fun d => '/' :: d) ++ ['/']) = true := by
    cases p <;> simp [isAbs]
  -- the slash at the end is one more component, and an empty one
  have hcomps : cleanAbs ((p.flatMap fun d => '/' :: d) ++ ['/']) = p := by
    by_cases hne : p = []
    · subst hne
      rfl
    · have hspell : (p.flatMap fun d => '/' :: d) = spell p := (if_neg hne).symm
      rw [hspell, cleanAbs, components_append_slash, foldl_append]
      exact cleanAbs_spell hp
  rw [dirOf, spell_concat, hdrop, Text.clean, if_pos habs, hcomps]

theorem components_trimSlash (hp : ∀ c ∈ p, Single c) (hne : p ≠ []) :
    components (trimSlash (Text.clean (spell p))) = p := by
  obtain ⟨rest, hrest⟩ : ∃ rest, spell p = '/' :: rest := by
    obtain ⟨c, q, rfl⟩ := exists_cons_of_ne_nil hne
    exact ⟨c ++ q.flatMap fun d => '/' :: d, by simp [spell]⟩
  have hcs := components_spell hne fun c hc => (hp c hc).2
  rw [hrest, show components ('/' :: rest) = [] :: components rest from
    components_append_slash [] rest] at hcs
  rw [clean_spell hp, hrest]
  exact (cons.inj hcs).2

theorem held_openNoFollowChain (hp : ∀ c ∈ p, Single c) :
    Held top (openNoFollowChain (spell p)) fun r => ∀ x, r = .ok x → x = p := by
  refine held_ask (K := fun (r : Option Path) => ∀ x, r = some x → x = [])
    (fun s x s' hs hkernel => ?_) ?_
  · obtain ⟨rfl, hreply⟩ := kernel_openat (leads_root []) hkernel
    exact ⟨hs, fun x hx => (hreply x hx).1⟩
  rintro (_ | fd) hfd
  · exact held_ret fun x hx => by cases hx
  obtain rfl := hfd fd rfl
  split_ifs with hroot
  · rw [clean_spell hp, spell_eq_slash_iff hp] at hroot
    refine held_ret fun x hx => ?_
    cases hx
    exact hroot.symm
  have hne : p ≠ [] := by
    rintro rfl
    exact hroot rfl
  rw [components_trimSlash hp hne]
  exact held_openComponents _ hp []

theorem quiet_openNoFollowChain (hp : ∀ c ∈ p, Single c) :
    Triple Kernel (fun s => s.tree = t) (openNoFollowChain (spell p)) fun r s =>
      s.tree = t ∧ ∀ x, r = .ok x → x = p ∧ AllDirs t x := by
  refine .ask (fun (r : Option Path) s => s.tree = t ∧ ∀ x, r = some x → x = []) ?_ ?_
  · rintro s r s' rfl hkernel
    obtain ⟨rfl, hreply⟩ := kernel_openat (leads_root []) hkernel
    exact ⟨rfl, fun x hx => (hreply x hx).1⟩
  rintro (_ | fd)
  · exact .ret fun s hs => ⟨hs.1, fun x hx => by cases hx⟩
  intro s r s' hs hrun
  obtain ⟨hs, hfd⟩ := hs
  obtain rfl := hfd fd rfl
  revert hrun
  split_ifs with hroot
  · intro hrun
    obtain ⟨rfl, rfl⟩ := runs_ret_iff.mp hrun
    rw [clean_spell hp, spell_eq_slash_iff hp] at hroot
    refine ⟨hs, fun x hx => ?_⟩
    cases hx
    exact ⟨hroot.symm, allDirs_nil t⟩
  · intro hrun
    have hne : p ≠ [] := by
      rintro rfl
      exact hroot rfl
    rw [components_trimSlash hp hne] at hrun
    exact quiet_openComponents _ hp (allDirs_nil t) s r s' hs hrun

/-! ## A tree nobody else changes -/

/-- Entries are gone from `S` only, and none has changed. -/
structure Pruned (S : Path → Prop) (t t' : Tree) : Prop where
  outside : ∀ x, ¬S x → t' x = t x
  shrinks : ∀ x, t' x = none ∨ t' x = t x
  closed : Closed t'

section Pruning

variable {S S' : Path → Prop} {t' t'' : Tree} {B : Nat}

theorem pruned_refl (hclosed : Closed t) : Pruned S t t :=
  ⟨fun _ _ => rfl, fun _ => .inr rfl, hclosed⟩

theorem Pruned.mono (h : Pruned S t t') (hS : ∀ x, S x → S' x) : Pruned S' t t' :=
  ⟨fun x hx => h.outside x fun hSx => hx (hS x hSx), h.shrinks, h.closed⟩

theorem Pruned.trans (h : Pruned S t t') (h' : Pruned S t' t'') : Pruned S t t'' where
  outside x hx := (h'.outside x hx).trans (h.outside x hx)
  shrinks x := by
    rcases h'.shrinks x with hx | hx
    · exact .inl hx
    · rw [hx]
      exact h.shrinks x
  closed := h'.closed

theorem Pruned.bound (h : Pruned S t t') (hB : ∀ x, t x ≠ none → x.length ≤ B) :
    ∀ x, t' x ≠ none → x.length ≤ B := by
  intro x hx
  rcases h.shrinks x with hnone | hsame
  · exact absurd hnone hx
  · rw [hsame] at hx
    exact hB x hx

variable {removeDir : Bool}

theorem none_of_unlinkable (hclosed : Closed t) (h : Unlinkable t removeDir q)
    (n : Name) : t (q ++ [n]) = none := by
  cases removeDir with
  | true => exact h.2.2 n
  | false =>
    by_contra hne
    obtain ⟨w, hw⟩ := hclosed q n hne
    have hkind := h.2
    simp [kindAt, hw] at hkind

theorem pruned_unlink (hclosed : Closed t) (h : Unlinkable t removeDir q) :
    Pruned (q <+: ·) t (update t q none) where
  outside x hx := by
    have hne : x ≠ q := by
      rintro rfl
      exact hx prefix_rfl
    exact update_of_ne hne ..
  shrinks x := by
    by_cases hx : x = q
    · rw [hx, update_self]
      exact .inl rfl
    · exact .inr (update_of_ne hx ..)
  closed p c hne := by
    by_cases hpc : p ++ [c] = q
    · rw [hpc, update_self] at hne
      exact absurd rfl hne
    rw [update_of_ne hpc] at hne
    have hp : p ≠ q := by
      rintro rfl
      exact hne (none_of_unlinkable hclosed h c)
    rw [update_of_ne hp]
    exact hclosed p c hne

theorem gone_unlink (hclosed : Closed t) (h : Unlinkable t removeDir q) :
    ∀ x, q <+: x → update t q none x = none := by
  rintro x ⟨rest, rfl⟩
  cases rest with
  | nil => rw [append_nil, update_self]
  | cons n rest =>
    have hne : q ++ n :: rest ≠ q := by simp
    rw [update_of_ne hne, append_cons]
    exact hclosed.none_below (none_of_unlinkable hclosed h n) rest

/-- What a call that removes `q` has done when it returns. -/
structure Cleared (q : Path) (t : Tree) (r : Outcome) (t' : Tree) : Prop where
  pruned : Pruned (q <+: ·) t t'
  removed : r = .removed → ∀ x, q <+: x → t' x = none
  ends : r ≠ .outOfFuel

theorem cleared_failed (text : Str) (h : Pruned (q <+: ·) t t') :
    Cleared q t (.failed text) t' :=
  ⟨h, by simp, by simp⟩

theorem quiet_unlink (hlead : Leads h name q) (removeDir : Bool) (text : Str)
    (hpruned : Pruned (q <+: ·) t t') :
    Triple Kernel (fun s => s.tree = t') (unlink h name removeDir text)
      fun r s => Cleared q t r s.tree := by
  refine .ask (fun (ok : Bool) s => Pruned (q <+: ·) t s.tree ∧
    (ok = true → ∀ x, q <+: x → s.tree x = none)) ?_ ?_
  · rintro s ok s' rfl hkernel
    rcases kernel_unlinkat hlead hkernel with ⟨rfl, rfl⟩ | ⟨-, hun, rfl⟩
    · exact ⟨hpruned, fun hok => by cases hok⟩
    · exact ⟨hpruned.trans (pruned_unlink hpruned.closed hun),
        fun _ => gone_unlink hpruned.closed hun⟩
  · rintro (_ | _)
    · exact .ret fun s hs => cleared_failed _ hs.1
    · exact .ret fun s hs => ⟨hs.1, fun _ => hs.2 rfl, by simp⟩

theorem quiet_removeEach {remove : Name → Done} {names : List Name} (hclosed : Closed t)
    (hnodup : names.Nodup) (hnames : ∀ n ∈ names, t (q ++ [n]) ≠ none)
    (hB : ∀ x, t x ≠ none → x.length ≤ B)
    (hremove : ∀ n ∈ names, ∀ t, Closed t → (∀ x, t x ≠ none → x.length ≤ B) →
      t (q ++ [n]) ≠ none →
      Triple Kernel (fun s => s.tree = t) (remove n) fun r s => Cleared (q ++ [n]) t r s.tree) :
    Triple Kernel (fun s => s.tree = t) (removeEach remove names) fun r s =>
      Pruned (fun x => ∃ n ∈ names, q ++ [n] <+: x) t s.tree ∧ r ≠ .outOfFuel := by
  induction names generalizing t with
  | nil =>
    refine .ret ?_
    rintro s rfl
    exact ⟨pruned_refl hclosed, by simp⟩
  | cons n names ih =>
    obtain ⟨hn, hnodup⟩ := nodup_cons.mp hnodup
    rw [removeEach]
    split_ifs with hdots
    · -- the kernel does not list these two
      refine (ih hclosed hnodup (fun m hm => hnames m (mem_cons_of_mem n hm)) hB
        fun m hm => hremove m (mem_cons_of_mem n hm)).imp (fun _ hs => hs) fun r s hs => ?_
      refine ⟨hs.1.mono ?_, hs.2⟩
      rintro x ⟨m, hm, hx⟩
      exact ⟨m, mem_cons_of_mem n hm, hx⟩
    refine (hremove n mem_cons_self t hclosed hB (hnames n mem_cons_self)).bind ?_
    have hfirst : ∀ x, q ++ [n] <+: x → ∃ m ∈ n :: names, q ++ [m] <+: x := fun x hx =>
      ⟨n, mem_cons_self, hx⟩
    rintro (_ | text | _)
    · intro s r s' hs hrun
      -- what is left to remove is where it was
      have hkept : ∀ m ∈ names, s.tree (q ++ [m]) ≠ none := by
        intro m hm
        rw [hs.pruned.outside]
        · exact hnames m (mem_cons_of_mem n hm)
        · intro hx
          have heq := hx.eq_of_length (by simp)
          rw [append_cancel_left_eq] at heq
          cases heq
          exact hn hm
      have hrest := ih hs.pruned.closed hnodup hkept (hs.pruned.bound hB)
        (fun m hm => hremove m (mem_cons_of_mem n hm)) s r s' rfl hrun
      refine ⟨(hs.pruned.mono hfirst).trans (hrest.1.mono ?_), hrest.2⟩
      rintro x ⟨m, hm, hx⟩
      exact ⟨m, mem_cons_of_mem n hm, hx⟩
    · exact .ret fun s hs => ⟨hs.pruned.mono hfirst, by simp⟩
    · exact .ret fun s hs => absurd rfl hs.ends

theorem quiet_finishDir (hlead : Leads h name q) (cfd : Path) (r : Outcome) :
    Triple Kernel (fun s => Pruned (q <+: ·) t s.tree ∧ r ≠ .outOfFuel)
      (finishDir h name cfd r) fun r s => Cleared q t r s.tree := by
  refine Triple.ask_same (fun s x s' hkernel => hkernel) fun ok => ?_
  cases r with
  | removed =>
    cases ok with
    | false => exact .ret fun s hs => cleared_failed _ hs.1
    | true => exact fun s r s' hs hrun => quiet_unlink hlead true _ hs.1 s r s' rfl hrun
  | failed text => exact .ret fun s hs => cleared_failed _ hs.1
  | outOfFuel => exact .ret fun s hs => absurd rfl hs.2

theorem quiet_removeAtRecursive {fuel : Nat} (hclosed : Closed t)
    (hB : ∀ x, t x ≠ none → x.length ≤ B) (hlead : Leads h name q) (hfuel : fuel ≠ 0)
    (hdeep : B < fuel + q.length) :
    Triple Kernel (fun s => s.tree = t) (removeAtRecursive fuel h name)
      fun r s => Cleared q t r s.tree := by
  induction fuel generalizing h name q t with
  | zero => exact absurd rfl hfuel
  | succ fuel ih =>
    have hsame : ∀ s : Sys, s.tree = t → Pruned (q <+: ·) t s.tree := by
      rintro s rfl
      exact pruned_refl hclosed
    refine Triple.ask_same (fun s x s' hkernel => hkernel) ?_
    rintro (_ | e)
    swap
    · exact .ret fun s hs => cleared_failed e (hsame s hs)
    refine Triple.ask_same (fun s x s' hkernel => (kernel_fstatat hlead hkernel).1) ?_
    rintro (_ | _ | _ | _)
    · exact .ret fun s hs => cleared_failed _ (hsame s hs)
    · refine .ask (fun (r : Option Path) s => s.tree = t ∧ ∀ p, r = some p → p = q) ?_ ?_
      · rintro s r s' rfl hkernel
        obtain ⟨rfl, hreply⟩ := kernel_openat hlead hkernel
        exact ⟨rfl, fun p hp => (hreply p hp).1⟩
      rintro (_ | cfd)
      · exact .ret fun s hs => cleared_failed _ (hsame s hs.1)
      refine .ask (fun (r : Option (List Name)) s => s.tree = t ∧ cfd = q ∧ ∀ names, r = some names →
        names.Nodup ∧ (∀ n ∈ names, Single n) ∧ ∀ n ∈ names, t (q ++ [n]) ≠ none) ?_ ?_
      · rintro s r s' ⟨rfl, hcfd⟩ ⟨rfl, hreply⟩
        obtain rfl := hcfd cfd rfl
        refine ⟨rfl, rfl, fun names hnames => ?_⟩
        obtain ⟨hnodup, hsingle, hmem⟩ := hreply names hnames
        exact ⟨hnodup, hsingle, fun n hn => (hmem n).mp hn⟩
      rintro (_ | names)
      · exact Triple.ask_same (fun s x s' hkernel => hkernel) fun _ =>
          .ret fun s hs => cleared_failed _ (hsame s hs.1)
      intro s r s' hs hrun
      obtain ⟨hs, rfl, hreply⟩ := hs
      obtain ⟨hnodup, hsingle, hnames⟩ := hreply names rfl
      obtain ⟨r₁, s₁, hloop, hend⟩ := runs_bind_iff.mp hrun
      have heach := quiet_removeEach hclosed hnodup hnames hB (fun n hn u hu hBu hne => ?_)
        s r₁ s₁ hs hloop
      · refine quiet_finishDir hlead cfd r₁ s₁ r s' ⟨heach.1.mono ?_, heach.2⟩ hend
        rintro x ⟨n, -, hx⟩
        exact (prefix_append cfd [n]).trans hx
      · -- a child is one level further down, and there
        have hlen := hBu _ hne
        rw [length_append, length_singleton] at hlen
        refine ih hu hBu (leads_of_single (hsingle n hn) cfd) (by omega) ?_
        rw [length_append, length_singleton]
        omega
    · exact quiet_unlink hlead false _ (pruned_refl hclosed)
    · exact quiet_unlink hlead false _ (pruned_refl hclosed)

end Pruning

/-! ## The whole call -/

/-- A tree that has finitely many entries, each in a directory. -/
structure FiniteTree where
  tree : Tree
  nodes : List Path
  mem_nodes : ∀ x, tree x ≠ none → x ∈ nodes
  closed : Closed tree

def FiniteTree.depth (T : FiniteTree) : Nat := (T.nodes.map List.length).foldr max 0

theorem length_le_foldr_max {nodes : List Path} {x : Path} (hx : x ∈ nodes) :
    x.length ≤ (nodes.map length).foldr max 0 := by
  induction nodes with
  | nil => cases hx
  | cons y nodes ih =>
    rcases mem_cons.mp hx with rfl | hx
    · exact le_max_left ..
    · exact (ih hx).trans (le_max_right ..)

theorem FiniteTree.length_le_depth (T : FiniteTree) (x : Path) (hx : T.tree x ≠ none) :
    x.length ≤ T.depth :=
  length_le_foldr_max (T.mem_nodes x hx)

/-- An absolute path that is clean is spelled from its components. -/
structure CleanPath (path : Str) (p : Path) : Prop where
  text : path = spell p
  single : ∀ c ∈ p, Single c

variable {path : Str}

theorem cleanPath_of_clean (habs : isAbs path = true)
    (hclean : Text.clean path = path) : CleanPath path (cleanAbs path) where
  text := by
    rw [← clean_abs habs, hclean]
  single c hc := ⟨proper_of_mem_cleanAbs c hc, slash_not_mem_of_mem_cleanAbs c hc⟩

theorem CleanPath.split {p : Path} (h : CleanPath path p) :
    ∃ parent, dirOf path = spell parent ∧ (∀ c ∈ parent, Single c) ∧ parent <+: p ∧
      (∀ x, x ≠ [] → x <+: p → x <+: parent ∨ x = p) ∧ Leads parent (base path) p := by
  obtain ⟨rfl, hp⟩ := h
  rcases eq_nil_or_concat' p with rfl | ⟨parent, c, rfl⟩
  · exact ⟨[], rfl, by simp, prefix_rfl, fun x _ hx => .inl hx, leads_root []⟩
  have hparent : ∀ d ∈ parent, Single d := fun d hd => hp d (by simp [hd])
  have hc : Single c := hp c (by simp)
  refine ⟨parent, dirOf_spell hparent hc.2, hparent, prefix_append .., fun x _ hx => ?_, ?_⟩
  · exact (prefix_concat_iff.mp hx).symm
  · rw [base_spell hc]
    exact leads_of_single hc parent

/-- What a call has done on a tree that nobody else changes, when it returns. -/
structure Secure (p : Path) (t : Tree) (r : Outcome) (s : Sys) : Prop where
  unled : Unled p s
  /-- nothing else is removed, whether the call fails or not -/
  outside : ∀ x, ¬p <+: x → s.tree x = t x
  removed : r = .removed → ∀ x, p <+: x → s.tree x = none
  /-- a component that is a link, or anything but a directory -/
  refused : (∃ x, x ≠ [] ∧ x <+: p ∧ ∀ w, t x ≠ some (.dir w)) →
    (∃ text, r = .failed text) ∧ s.tree = t
  ends : r ≠ .outOfFuel

theorem held_removeDirSecure {p : Path} (h : CleanPath path p) (fuel : Nat) :
    Held p (removeDirSecure fuel path) fun _ => True := by
  obtain ⟨parent, hdir, hsingle, -, -, hlead⟩ := h.split
  rw [removeDirSecure, hdir]
  refine held_bind (held_openNoFollowChain hsingle) ?_
  rintro (e | pfd) hpfd
  · exact held_ret trivial
  obtain rfl := hpfd pfd rfl
  refine held_bind (R := fun _ => True) ?_ fun r _ => held_close _ fun _ => held_ret trivial
  refine held_ask (K := fun _ => True) (fun s x s' hs hkernel => ⟨?_, trivial⟩) ?_
  · rw [(kernel_fstatat hlead hkernel).1]
    exact hs
  rintro (_ | _ | _ | _) -
  · exact held_ret trivial
  · exact held_removeAtRecursive fuel hlead prefix_rfl
  · exact held_ret trivial
  · exact held_ret trivial

theorem dir_of_kindAt {x : Path} (hne : x ≠ []) (h : kindAt t x = some .dir) :
    ∃ w, t x = some (.dir w) := by
  rw [kindAt, if_neg hne] at h
  split at h
  · exact ⟨_, by assumption⟩
  · cases h
  · cases h
  · cases h

/-- Until the whole chain has been seen to be directories, nothing is removed. -/
theorem quiet_removeDirSecure {p : Path} (h : CleanPath path p)
    (T : FiniteTree) {fuel : Nat} (hfuel : T.depth < fuel) :
    Triple Kernel (fun s => s.tree = T.tree) (removeDirSecure fuel path) fun r s =>
      Cleared p T.tree r s.tree ∧ (AllDirs T.tree p ∨ (∃ text, r = .failed text) ∧
        s.tree = T.tree) := by
  obtain ⟨parent, hdir, hsingle, hprefix, hcover, hlead⟩ := h.split
  have hfail : ∀ text (s : Sys), s.tree = T.tree → Cleared p T.tree (.failed text) s.tree ∧
      (AllDirs T.tree p ∨ (∃ text', Outcome.failed text = .failed text') ∧ s.tree = T.tree) := by
    intro text s hs
    exact ⟨cleared_failed text (by rw [hs]; exact pruned_refl T.closed), .inr ⟨⟨text, rfl⟩, hs⟩⟩
  rw [removeDirSecure, hdir]
  refine (quiet_openNoFollowChain hsingle).bind ?_
  rintro (e | pfd)
  · exact .ret fun s hs => hfail e s hs.1
  refine Triple.bind (R := fun r s => Cleared p T.tree r s.tree ∧ (AllDirs T.tree p ∨
    (∃ text, r = .failed text) ∧ s.tree = T.tree)) ?_ fun r =>
      Triple.ask_same (fun s x s' hkernel => hkernel) fun _ => .ret fun s hs => hs
  intro s r s' hs hrun
  obtain ⟨hs, hpfd⟩ := hs
  obtain ⟨rfl, hdirs⟩ := hpfd pfd rfl
  obtain ⟨st, s₁, hkernel, hrun⟩ := runs_ask_iff.mp hrun
  obtain ⟨rfl, hkind⟩ := kernel_fstatat hlead hkernel
  cases st with
  | none =>
    obtain ⟨rfl, rfl⟩ := runs_ret_iff.mp hrun
    exact hfail _ s' hs
  | some k =>
    cases k with
    | link | other =>
      obtain ⟨rfl, rfl⟩ := runs_ret_iff.mp hrun
      exact hfail _ s' hs
    | dir =>
      have hall : AllDirs T.tree p := by
        intro x hne hx
        rcases hcover x hne hx with hx | rfl
        · exact hdirs x hne hx
        · rw [← hs]
          exact hkind .dir rfl
      refine ⟨?_, .inl hall⟩
      exact quiet_removeAtRecursive T.closed T.length_le_depth hlead (by omega) (by omega) s₁ r s' hs
        hrun

theorem hostile_of_kernel {c : Call} {x : Reply c} (h : Kernel s c x s') : Hostile s c x s' :=
  ⟨[], h⟩

theorem secure_of_runs {p : Path} (h : CleanPath path p) (T : FiniteTree)
    {fuel : Nat} (hfuel : T.depth < fuel) {r : Outcome}
    (hrun : Runs Kernel (removeDirSecure fuel path) ⟨T.tree, [], []⟩ r s) :
    Secure p T.tree r s := by
  obtain ⟨hcleared, hchain⟩ := quiet_removeDirSecure h T hfuel _ r s rfl hrun
  have hhostile := hrun.map (f := id) fun _ _ _ _ hkernel => hostile_of_kernel hkernel
  have hunled := (held_removeDirSecure h fuel).post _ r s ⟨rfl, by simp⟩ hhostile
  refine ⟨hunled.1, hcleared.pruned.outside, hcleared.removed, ?_, hcleared.ends⟩
  rintro ⟨x, hne, hx, hnot⟩
  rcases hchain with hall | hfail
  · obtain ⟨w, hw⟩ := dir_of_kindAt hne (hall x hne hx)
    exact absurd hw (hnot w)
  · exact hfail

/-- For every absolute clean path: a call that returns no error has removed the directory and all
below it and nothing else, and one that fails has followed no link; if a component is no directory,
it fails and removes nothing. And whatever links appear between the calls, none is followed, and
everything unlinked is at the path or below it. -/
theorem removes_exactly (T : FiniteTree) (path : Str) (fuel : Nat)
    (habs : isAbs path = true) (hclean : Text.clean path = path) (hfuel : T.depth < fuel) :
    (∀ r s, Runs Kernel (removeDirSecure fuel path) ⟨T.tree, [], []⟩ r s →
      Secure (cleanAbs path) T.tree r s) ∧
    ∀ s, Visits Hostile (removeDirSecure fuel path) ⟨T.tree, [], []⟩ s →
      Unled (cleanAbs path) s := by
  have hpath := cleanPath_of_clean habs hclean
  refine ⟨fun r s hrun => secure_of_runs hpath T hfuel hrun, fun s hvisit => ?_⟩
  exact (held_removeDirSecure hpath fuel).crash _ s ⟨rfl, by simp⟩ hvisit

/-! ### A directory with a link out of it -/

def entries : List (String × FileTree.Node) :=
  [("/", .dir true), ("/etc", .dir true), ("/etc/passwd", .file [1]), ("/srv", .dir true),
    ("/srv/app", .dir true), ("/srv/app/conf", .link "/etc")]

theorem mem_of_treeOf {entries : List (String × FileTree.Node)} {x : Path} (hx : treeOf entries x ≠ none) :
    x ∈ entries.map fun e => cleanAbs e.1.toList := by
  obtain ⟨n, hn⟩ := Option.ne_none_iff_exists'.mp hx
  obtain ⟨e, he, -⟩ := Option.map_eq_some_iff.mp hn
  have hpath : cleanAbs e.1.toList = x := by simpa using find?_some he
  exact mem_map.mpr ⟨e, mem_of_find?_eq_some he, hpath⟩

def appTree : FiniteTree where
  tree := treeOf entries
  nodes := entries.map fun e => cleanAbs e.1.toList
  mem_nodes _ hx := mem_of_treeOf hx
  closed := closed_treeOf (by decide +kernel)

def app : Path := ["srv", "app"]

def conf : Name := "conf"

theorem eq_conf_of_entry {n : Name} (hn : treeOf entries (app ++ [n]) ≠ none) : n = conf := by
  have hmem := mem_of_treeOf hn
  rw [show (entries.map fun e => cleanAbs e.1.toList) =
    [[], ["etc".toList], ["etc", "passwd"], ["srv"], app, app ++ [conf]] by
      decide +kernel] at hmem
  simpa [app] using hmem

theorem kernel_openat_of_dir (hlead : Leads h name q) (hdir : kindAt s.tree q = some .dir) :
    Kernel s (.openat h name true) (some q) s := by
  refine ⟨by rw [hlead s.tree, follow_nil], fun p hp => ?_⟩
  cases hp
  exact ⟨by rw [hlead s.tree], hdir⟩

theorem kernel_fstatat_of_kind {k : Kind} (hlead : Leads h name q) (hk : kindAt s.tree q = some k) :
    Kernel s (.fstatat h name true) (some k) s := by
  refine ⟨by rw [hlead s.tree, follow_nil], fun k' hk' => ?_⟩
  cases hk'
  exact ⟨q, by rw [hlead s.tree], hk⟩

theorem kernel_unlinkat_of_unlinkable {removeDir : Bool} (hlead : Leads h name q)
    (hun : Unlinkable s.tree removeDir q) :
    Kernel s (.unlinkat h name removeDir) true (s.unlink q) :=
  ⟨q, by rw [hlead s.tree], hun, by rw [hlead s.tree, follow_nil]⟩

def before : Sys := ⟨appTree.tree, [], []⟩

def between : Sys := before.unlink (app ++ [conf])

theorem app_empty_between (n : Name) : between.tree (app ++ [n]) = none := by
  by_cases hn : n = conf
  · rw [hn]
    exact update_self (app ++ [conf]) none appTree.tree
  have hne : app ++ [n] ≠ app ++ [conf] := by simpa using hn
  refine (update_of_ne hne none appTree.tree).trans ?_
  by_contra hentry
  exact hn (eq_conf_of_entry hentry)

theorem runs_conf : Runs Kernel (removeAtRecursive 3 app conf) before .removed between := by
  have hlead : Leads app conf (app ++ [conf]) := leads_of_single (by decide) app
  have hctx : Kernel before .ctxErr none before := rfl
  refine .ask hctx (.ask (kernel_fstatat_of_kind hlead (k := .link) (by decide +kernel)) ?_)
  refine .ask (kernel_unlinkat_of_unlinkable hlead ?_) (.ret _ _)
  exact ⟨by decide, .inl (by decide +kernel)⟩

theorem runs_app :
    Runs Kernel (removeAtRecursive 4 ["srv"] "app") before .removed
      (between.unlink app) := by
  have hlead : Leads ["srv"] "app" app := leads_of_single (by decide) _
  have hctx : Kernel before .ctxErr none before := rfl
  have hread : Kernel before (.readdirnames app) (some [conf]) before := by
    refine ⟨rfl, fun names hnames => ?_⟩
    cases hnames
    refine ⟨by decide, by decide, fun n => ⟨fun hn => ?_, fun hn => ?_⟩⟩
    · rw [mem_singleton.mp hn]
      decide +kernel
    · exact mem_singleton.mpr (eq_conf_of_entry hn)
  have hclose : Kernel between (.close app) true between := rfl
  have hdir : kindAt before.tree app = some .dir := by decide +kernel
  refine .ask hctx (.ask (kernel_fstatat_of_kind hlead hdir) ?_)
  refine .ask (kernel_openat_of_dir hlead hdir) (.ask hread ?_)
  refine runs_bind_iff.mpr ⟨.removed, between, ?_, .ask hclose ?_⟩
  · exact runs_bind_iff.mpr ⟨.removed, between, runs_conf, .ret _ _⟩
  · refine .ask (kernel_unlinkat_of_unlinkable hlead ⟨by decide, ?_, app_empty_between⟩) (.ret _ _)
    decide +kernel

theorem runs_removeDirSecure :
    Runs Kernel (removeDirSecure 4 "/srv/app") before .removed (between.unlink app) := by
  have hclose : ∀ (s : Sys) fd, Kernel s (.close fd) true s := fun _ _ => rfl
  have hsrv : Leads [] "srv" ["srv"] := leads_of_single (by decide) []
  have hlead : Leads ["srv"] "app" app := leads_of_single (by decide) _
  refine runs_bind_iff.mpr ⟨.ok ["srv"], before, ?_, ?_⟩
  · refine .ask (kernel_openat_of_dir (leads_root []) rfl) ?_
    refine .ask (kernel_openat_of_dir hsrv (by decide +kernel)) ?_
    exact .ask (hclose _ _) (.ret _ _)
  · refine runs_bind_iff.mpr ⟨.removed, between.unlink app, ?_, .ask (hclose _ _) (.ret _ _)⟩
    exact .ask (kernel_fstatat_of_kind hlead (k := .dir) (by decide +kernel)) runs_app

/-- The directory goes with the link in it, and what the link names stays. -/
theorem removes_app :
    ∃ s, Runs Kernel (removeDirSecure 4 "/srv/app") ⟨appTree.tree, [], []⟩ .removed s ∧
      s.tree app = none ∧ s.tree ["etc", "passwd"] = some (.file [1]) ∧
      s.followed = [] := by
  have hsecure := (removes_exactly appTree "/srv/app" 4 rfl (by decide +kernel)
    (by decide +kernel)).1 _ _ runs_removeDirSecure
  refine ⟨_, runs_removeDirSecure, hsecure.removed rfl app (by decide +kernel), ?_,
    hsecure.unled.followed⟩
  decide +kernel

/-! ## `RemoveDir` -/

/-- `RemoveDir`, where the runner is direct. -/
def removeDir (getwd : Option WorkDir) (fuel : Nat) (path : Str) :
    Program (Except FsError Outcome) :=
  match validatePath path with
  | some e => .ret (.error e)
  | none =>
    let clean := Text.clean path
    if isAbs clean = false then
      .ret (.error (.other ("path must be absolute: " ++ path)))
    else if isUnderProtectedPrefix getwd clean = true then
      .ret (.error (.other ("refusing to remove protected path: " ++ clean)))
    else (removeDirSecure fuel clean).bind fun r => .ret (.ok r)

/-- It removes what the path names once it is cleaned, with the same care, and nothing under a
protected prefix. -/
theorem removeDir_secure (getwd : Option WorkDir) (T : FiniteTree) {fuel : Nat}
    (hfuel : T.depth < fuel) {path : Str} {r : Except FsError Outcome}
    (hrun : Runs Kernel (removeDir getwd fuel path) ⟨T.tree, [], []⟩ r s) :
    (∃ e, r = .error e ∧ s.tree = T.tree) ∨
      ∃ out, r = .ok out ∧ Secure (cleanAbs path) T.tree out s ∧
        Remote.isUnderProtectedPrefix (cleanAbs path) = false := by
  rw [removeDir] at hrun
  split at hrun
  · obtain ⟨rfl, rfl⟩ := runs_ret_iff.mp hrun
    exact .inl ⟨_, rfl, rfl⟩
  dsimp only at hrun
  split_ifs at hrun with habs hprotected
  · obtain ⟨rfl, rfl⟩ := runs_ret_iff.mp hrun
    exact .inl ⟨_, rfl, rfl⟩
  · obtain ⟨rfl, rfl⟩ := runs_ret_iff.mp hrun
    exact .inl ⟨_, rfl, rfl⟩
  obtain ⟨out, s', hremove, hret⟩ := runs_bind_iff.mp hrun
  obtain ⟨rfl, rfl⟩ := runs_ret_iff.mp hret
  have hpath : isAbs path = true := by
    by_contra hrel
    exact habs (isAbs_clean_rel (Bool.eq_false_iff.mpr hrel))
  have hsingle : ∀ c ∈ cleanAbs path, Single c := fun c hc =>
    ⟨proper_of_mem_cleanAbs c hc, slash_not_mem_of_mem_cleanAbs c hc⟩
  rw [clean_abs hpath] at hremove hprotected
  refine .inr ⟨out, rfl, secure_of_runs ⟨rfl, hsingle⟩ T hfuel hremove, ?_⟩
  rw [isUnderProtectedPrefix_abs (isAbs_spell _), cleanAbs_spell hsingle] at hprotected
  exact Bool.eq_false_iff.mpr hprotected

/-- A directory by a path that is not clean. -/
theorem removeDir_app :
    ∃ s, Runs Kernel (removeDir none 4 "/srv//app/.") ⟨appTree.tree, [], []⟩ (.ok .removed) s ∧
      s.tree app = none := by
  have hrun : Runs Kernel (removeDir none 4 "/srv//app/.") before (.ok .removed) _ :=
    runs_bind_iff.mpr ⟨.removed, between.unlink app, runs_removeDirSecure, .ret _ _⟩
  obtain ⟨e, ⟨⟩, -⟩ | ⟨out, ⟨⟩, hsecure, -⟩ := removeDir_secure none appTree (by decide +kernel) hrun
  exact ⟨_, hrun, hsecure.removed rfl app (by decide +kernel)⟩

end PowerManage.Fs.RemoveDir
