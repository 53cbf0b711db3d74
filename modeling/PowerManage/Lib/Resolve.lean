import PowerManage.Lib.TreeEdit
import PowerManage.Lib.Clean

/-!
# Resolution from an open directory

The calls of the `at` family take an open directory and a name.  The name is resolved component by
component from there, or from the root if it is absolute; links on the way are followed, and one in
the last place too unless the caller asks for it not to be.  `resolveAt` is where a name leads and
which links were followed.

An open directory is known by the path it had when it was opened.  It stays open when its entry is
replaced, so that nothing is said here about the node at that path itself.

`Leads h name q` says that a name leads to `q` through no link, whatever the tree: a single component
does (`leads_of_single`), and so does the root (`leads_root`).
-/

namespace FileTree

open PathName

variable {t : Tree}

/-- A resolution up to the first link that is to be followed, which is left to `onLink`. -/
def resolveSeg (t : Tree) (nofollow : Bool)
    (onLink : Path → Path → List Name → Option Path × List Path) :
    Path → List Name → Option Path × List Path
  | cur, [] => (some cur, [])
  | cur, c :: rest =>
    if c = [] ∨ c = dot then resolveSeg t nofollow onLink cur rest
    else if c = dotDot then resolveSeg t nofollow onLink cur.dropLast rest
    else
      match t (cur ++ [c]) with
      | some (.link target) =>
        if rest = [] ∧ nofollow = true then (some (cur ++ [c]), [])
        else onLink (cur ++ [c]) (if isAbs target then [] else cur) (components target ++ rest)
      | some (.dir _) => resolveSeg t nofollow onLink (cur ++ [c]) rest
      | _ => if rest = [] then (some (cur ++ [c]), []) else (none, [])

/-- With so many links to follow at most. -/
def resolve (t : Tree) (nofollow : Bool) : Nat → Path → List Name → Option Path × List Path
  | 0 => resolveSeg t nofollow fun l _ _ => (none, [l])
  | n + 1 => resolveSeg t nofollow fun l cur rest =>
      let r := resolve t nofollow n cur rest
      (r.1, l :: r.2)

def maxLinks : Nat := 40

def resolveAt (t : Tree) (nofollow : Bool) (h : Path) (name : Str) :
    Option Path × List Path :=
  resolve t nofollow maxLinks (if isAbs name then [] else h) (components name)

/-- In every tree the name leads from the directory to `q`, and through no link. -/
def Leads (h : Path) (name : Str) (q : Path) : Prop :=
  ∀ t, resolveAt t true h name = (some q, [])

/-- A name as a directory has it. -/
def Single (c : Name) : Prop := Proper c ∧ '/' ∉ c

instance (c : Name) : Decidable (Single c) := inferInstanceAs (Decidable (_ ∧ _))

theorem leads_of_single {c : Name} (hc : Single c) (h : Path) : Leads h c (h ++ [c]) := by
  intro t
  obtain ⟨⟨hne, hdot, hdotDot⟩, hslash⟩ := hc
  have habs : isAbs c = false := by
    cases c with
    | nil => rfl
    | cons x c =>
      have hx : x ≠ '/' := fun hx => hslash (by simp [hx])
      simpa [isAbs] using hx
  have hcs : components c = [c] := List.splitOn_eq_singleton hslash
  rw [resolveAt, habs, hcs, maxLinks, resolve]
  simp only [if_false, resolveSeg, hne, hdot, hdotDot, or_self]
  split <;> simp

theorem leads_root (h : Path) : Leads h ['/'] [] := by
  intro t
  rfl

end FileTree
