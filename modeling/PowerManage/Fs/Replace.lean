import PowerManage.Lib.Crash
import PowerManage.Fs.Manager

/-!
# Replacing a file, call by call

`safeReplaceFile` writes a temporary file and renames it; `safeBackupAndReplace` writes a copy of the
present file first, in the same way.  Here the two are taken apart into their system calls, on a disk
of directory entries and of the files they name: an entry may be a link, a file may have several
names, a call may fail at any time and a write in the middle, and the machine may go down between two
calls.

A file that was there before is never written to.  All that changes is an entry, and it is changed by
a rename of a file that is complete: `Replacing` says so of one replacement, and `never_bricks` of
the two together.
-/

namespace PowerManage.Fs.Replace

open Interaction Interaction.Prog PathName Text FileMode Function

abbrev Name := Str

/-! ## The disk -/

/-- What a name stands for. -/
inductive Entry
  | file (ino : Nat)
  | link (target : Name)
  | dir
  | special
deriving DecidableEq

/-- A file, whatever its names. -/
structure Inode where
  content : Bytes
  mode : Mode
deriving DecidableEq

/-- Names, and the files behind them. -/
structure Disk where
  entry : Name → Option Entry
  inode : Nat → Option Inode

namespace Disk

def content (d : Disk) (path : Name) : Option Bytes :=
  match d.entry path with
  | some (.file i) => (d.inode i).map (·.content)
  | _ => none

def withTemp (d : Disk) (tmp : Name) (i : Nat) (f : Inode) : Disk :=
  ⟨Function.update d.entry tmp (some (.file i)), Function.update d.inode i (some f)⟩

def modify (d : Disk) (i : Nat) (g : Inode → Inode) : Disk :=
  { d with inode := Function.update d.inode i ((d.inode i).map g) }

def remove (d : Disk) (path : Name) : Disk := { d with entry := Function.update d.entry path none }

def move (d : Disk) (old new : Name) : Disk :=
  { d with entry := Function.update (Function.update d.entry new (d.entry old)) old none }

/-- `rename(2)`: between two names of one file it does nothing. -/
def rename (d : Disk) (old new : Name) : Disk :=
  match d.entry old, d.entry new with
  | some (.file i), some (.file j) => if i = j then d else d.move old new
  | _, _ => d.move old new

end Disk

/-! ## Calls -/

/-- Calls on an open file. -/
inductive FdOp
  | write (data : Bytes)
  | chmod (perm : Mode)
  | sync
  | close
deriving DecidableEq

/-- The calls of a replacement. -/
inductive Question
  /-- `os.CreateTemp`, with what its name starts with -/
  | createTemp (dir start : Name)
  /-- `os.OpenFile` with `O_RDWR|O_NOFOLLOW` -/
  | openTemp (tmp : Name)
  | onFd (op : FdOp) (fd : Nat)
  | rename (old new : Name)
  /-- `renameat2` with `RENAME_NOREPLACE` -/
  | renameNoReplace (old new : Name)
  | lstat (path : Name)
  | remove (path : Name)
  | syncDir (dir : Name)
  /-- `os.OpenFile` with `O_RDONLY|O_NOFOLLOW` -/
  | openCurrent (path : Name)
  | statOpen (fd : Option Nat)
  | readAll (fd : Option Nat)
  | closeCurrent (fd : Option Nat)
deriving DecidableEq

/-- What opening the present file has given. -/
inductive Opened
  | file (ino : Nat)
  | other
  | notExist
  | failed
deriving DecidableEq

/-- How a rename that replaces nothing has ended. -/
inductive NoReplace
  | done
  /-- `EEXIST` -/
  | taken
  /-- `ENOSYS` or `EINVAL` -/
  | unsupported
  | failed
deriving DecidableEq

/-- Whether there is something at a name. -/
inductive Lstat
  | found
  | notExist
  | failed
deriving DecidableEq

def Answer : Question → Type
  | .createTemp _ _ => Option Name
  | .openTemp _ => Option Nat
  | .onFd _ _ | .rename _ _ | .remove _ | .syncDir _ | .closeCurrent _ => Bool
  | .renameNoReplace _ _ => NoReplace
  | .lstat _ => Lstat
  | .openCurrent _ => Opened
  | .statOpen _ => Option Bool
  | .readAll _ => Option Bytes

abbrev Program := Prog Question Answer

abbrev Done := Program (Option Str)

/-! ## The functions -/

def fromTo (oldPath newPath : Name) : Str :=
  oldPath ++ " -> " ++ newPath ++ ": "

def osRename (oldPath newPath : Name) : Done :=
  .ask (.rename oldPath newPath) fun (ok : Bool) =>
    if ok then .ret none else .ret (some ("rename " ++ fromTo oldPath newPath))

/-- A rename that replaces nothing, where the kernel has one. -/
def safeRename (oldPath newPath : Name) (removeExisting : Bool) : Done :=
  let exists_ := "rename " ++ fromTo oldPath newPath ++ "destination exists"
  if removeExisting then osRename oldPath newPath
  else
    .ask (.renameNoReplace oldPath newPath) fun (r : NoReplace) =>
      match r with
      | .done => .ret none
      | .taken => .ret (some exists_)
      | .failed => .ret (some ("renameat2 " ++ fromTo oldPath newPath))
      | .unsupported =>
        .ask (.lstat newPath) fun (r : Lstat) =>
          match r with
          | .found => .ret (some exists_)
          | .failed => .ret (some ("lstat " ++ newPath ++ ": "))
          | .notExist => osRename oldPath newPath

def cleanup (tmpPath : Name) (text : Str) : Done :=
  .ask (.remove tmpPath) fun _ => .ret (some text)

/-- The temporary file is given up: it is closed, unless that is what failed, and removed. -/
def abandon (tmpPath : Name) (fd : Nat) (op : FdOp) (text : Str) : Done :=
  if op = .close then cleanup tmpPath text
  else .ask (.onFd .close fd) fun _ => cleanup tmpPath text

def inOrder (tmpPath : Name) (fd : Nat) : List (FdOp × Str) → Done → Done
  | [], rest => rest
  | (op, text) :: ops, rest =>
    .ask (.onFd op fd) fun (ok : Bool) =>
      if ok then inOrder tmpPath fd ops rest else abandon tmpPath fd op text

/-- What is done to the temporary file before it is renamed, with the texts of the errors. -/
def tempOps (data : Bytes) (perm : Mode) : List (FdOp × Str) :=
  [(.write data, "write temp: "), (.chmod perm, "chmod temp: "),
    (.sync, "fsync temp: "), (.close, "close temp: ")]

/-- Through a temporary file, which is removed if a call fails. -/
def safeReplaceFile (path : Name) (data : Bytes) (perm : Mode) (removeExisting : Bool) : Done :=
  .ask (.createTemp (dirOf path) ('.' :: base path ++ ".tmp-")) fun (r : Option Name) =>
    match r with
    | none => .ret (some "create temp: ")
    | some tmpPath =>
      .ask (.openTemp tmpPath) fun (r : Option Nat) =>
        match r with
        | none => cleanup tmpPath "reopen temp with O_NOFOLLOW: "
        | some fd =>
          inOrder tmpPath fd (tempOps data perm)
            ((safeRename tmpPath path removeExisting).bind fun err =>
              match err with
              | some text => cleanup tmpPath text
              | none => .ask (.syncDir (dirOf path)) fun _ => .ret none)

/-- The part of `safeBackupAndReplace` that comes after the present file has been opened. -/
def backUpOpen (path backupPath : Name) (newContent : Bytes) (perm : Mode)
    (removeExistingBackup : Bool) (fd : Option Nat) : Done :=
  .ask (.statOpen fd) fun (r : Option Bool) =>
    match r with
    | none => .ask (.closeCurrent fd) fun _ =>
        .ret (some ("stat current " ++ path ++ ": "))
    | some false => .ask (.closeCurrent fd) fun _ =>
        .ret (some ("refusing to back up non-regular file " ++ path))
    | some true =>
      .ask (.readAll fd) fun (r : Option Bytes) =>
        match r with
        | none => .ask (.closeCurrent fd) fun _ =>
            .ret (some ("read current " ++ path ++ " for backup: "))
        | some current =>
          .ask (.closeCurrent fd) fun (ok : Bool) =>
            if ok then
              (safeReplaceFile backupPath current perm removeExistingBackup).bind fun err =>
                match err with
                | some text =>
                  .ret (some ("backup current to " ++ backupPath ++ ": " ++ text))
                | none => safeReplaceFile path newContent perm true
            else .ret (some ("close current " ++ path ++ ": "))

/-- The present file is copied before it is replaced. -/
def safeBackupAndReplace (path backupPath : Name) (newContent : Bytes) (perm : Mode)
    (removeExistingBackup : Bool) : Done :=
  .ask (.openCurrent path) fun (r : Opened) =>
    match r with
    | .notExist => safeReplaceFile path newContent perm true
    | .failed => .ret (some ("open current " ++ path ++ " for backup: "))
    | .other => backUpOpen path backupPath newContent perm removeExistingBackup none
    | .file fd => backUpOpen path backupPath newContent perm removeExistingBackup (some fd)

/-! ## What the calls do -/

def overwrite (w old : Bytes) : Bytes := w ++ old.drop w.length

def FdOp.apply : FdOp → Inode → Inode
  | .write data, f => { f with content := overwrite data f.content }
  | .chmod perm, f => { f with mode := perm }
  | .sync, f | .close, f => f

def FdOp.Breaks : FdOp → Inode → Inode → Prop
  | .write data, f, g => ∃ w, w <+: data ∧ g = { f with content := overwrite w f.content }
  | .chmod _, f, g | .sync, f, g | .close, f, g => g = f

/-- Neither the name nor the number is in use, and the name is none of those that matter. -/
structure Fresh (paths : List Name) (d : Disk) (tmp : Name) (i : Nat) : Prop where
  entry : d.entry tmp = none
  notMem : tmp ∉ paths
  inode : d.inode i = none
  unused : ∀ n, d.entry n ≠ some (.file i)

/-- How a call may be answered, and what the disk is like after it.  Every call may fail. -/
def Answers (paths : List Name) (d : Disk) : (q : Question) → Answer q → Disk → Prop
  | .createTemp _ _, none, d' => d' = d
  | .createTemp _ _, some tmp, d' =>
    ∃ i, Fresh paths d tmp i ∧ d' = d.withTemp tmp i ⟨[], 0o600#32⟩
  | .openTemp _, none, d' => d' = d
  | .openTemp tmp, some fd, d' => d.entry tmp = some (.file fd) ∧ d' = d
  | .onFd op fd, true, d' => d' = d.modify fd op.apply
  | .onFd op fd, false, d' =>
    d' = d ∨ ∃ f g, d.inode fd = some f ∧ op.Breaks f g ∧ d' = d.modify fd fun _ => g
  | .rename old new, true, d' =>
    d.entry old ≠ none ∧ d.entry new ≠ some .dir ∧ d' = d.rename old new
  | .renameNoReplace old new, .done, d' =>
    d.entry old ≠ none ∧ d.entry new = none ∧ d' = d.rename old new
  | .renameNoReplace _ new, .taken, d' => d.entry new ≠ none ∧ d' = d
  | .lstat path, .found, d' => d.entry path ≠ none ∧ d' = d
  | .lstat path, .notExist, d' => d.entry path = none ∧ d' = d
  | .remove path, true, d' => d' = d.remove path
  | .openCurrent path, .file i, d' => d.entry path = some (.file i) ∧ d' = d
  | .openCurrent path, .other, d' =>
    (d.entry path = some .dir ∨ d.entry path = some .special) ∧ d' = d
  | .openCurrent path, .notExist, d' => d.entry path = none ∧ d' = d
  | .statOpen fd, some regular, d' => regular = fd.isSome ∧ d' = d
  | .readAll fd, some c, d' => (∃ i f, fd = some i ∧ d.inode i = some f ∧ f.content = c) ∧ d' = d
  | .rename _ _, false, d' | .renameNoReplace _ _, .unsupported, d'
  | .renameNoReplace _ _, .failed, d' | .lstat _, .failed, d' | .remove _, false, d'
  | .syncDir _, _, d' | .openCurrent _, .failed, d' | .statOpen _, none, d' | .readAll _, none, d'
  | .closeCurrent _, _, d' => d' = d

/-! ## One replacement -/

variable {paths : List Name} {d d₁ : Disk} {tmp p : Name} {i : Nat} {f g : Inode}

/-- There is a regular file with this content and mode. -/
def Disk.Holds (d : Disk) (path : Name) (f : Inode) : Prop :=
  ∃ i, d.entry path = some (.file i) ∧ d.inode i = some f

/-- No file that was there has changed, and no entry but that at `p`, which is the same or names the
complete `f`. -/
structure Replacing (paths : List Name) (d₁ : Disk) (p : Name) (f : Inode) (d : Disk) : Prop where
  inode : ∀ i g, d₁.inode i = some g → d.inode i = some g
  entry : ∀ n, n ≠ p → n ∈ paths ∨ d₁.entry n ≠ none → d.entry n = d₁.entry n
  target : d.entry p = d₁.entry p ∨ d.Holds p f

theorem replacing_refl (paths : List Name) (d : Disk) (p : Name) (f : Inode) :
    Replacing paths d p f d :=
  ⟨fun _ _ h => h, fun _ _ _ => rfl, .inl rfl⟩

variable {n : Name}

theorem Fresh.ne (h : Fresh paths d tmp i) (hn : n ∈ paths ∨ d.entry n ≠ none) : n ≠ tmp := by
  rintro rfl
  rcases hn with hn | hn
  · exact h.notMem hn
  · exact hn h.entry

theorem Fresh.ino_ne (h : Fresh paths d tmp i) {j : Nat} (hj : d.inode j = some g) : j ≠ i := by
  rintro rfl
  rw [h.inode] at hj
  cases hj

theorem Fresh.inode_withTemp (h : Fresh paths d tmp i) {j : Nat} (hj : d.inode j = some g) :
    (d.withTemp tmp i f).inode j = some g :=
  (update_of_ne (h.ino_ne hj) ..).trans hj

theorem entry_withTemp (hn : n ≠ tmp) : (d.withTemp tmp i f).entry n = d.entry n :=
  update_of_ne hn ..

@[simp] theorem entry_withTemp_self : (d.withTemp tmp i f).entry tmp = some (.file i) :=
  update_self ..

@[simp] theorem inode_withTemp_self : (d.withTemp tmp i f).inode i = some f :=
  update_self ..

theorem entry_remove (hn : n ≠ p) : (d.remove p).entry n = d.entry n :=
  update_of_ne hn ..

theorem entry_move {old new : Name} (hne : new ≠ old) : (d.move old new).entry new = d.entry old :=
  (update_of_ne hne ..).trans (update_self ..)

theorem entry_move_of_ne {old new : Name} (hold : n ≠ old) (hnew : n ≠ new) :
    (d.move old new).entry n = d.entry n :=
  (update_of_ne hold ..).trans (update_of_ne hnew ..)

theorem Fresh.replacing (h : Fresh paths d₁ tmp i) (hp : p ∈ paths) (g : Inode) :
    Replacing paths d₁ p f (d₁.withTemp tmp i g) where
  inode _ _ hj := h.inode_withTemp hj
  entry _ _ hn := entry_withTemp (h.ne hn)
  target := .inl (entry_withTemp (h.ne (.inl hp)))

theorem Fresh.replacing_remove (h : Fresh paths d₁ tmp i) (hp : p ∈ paths) (g : Inode) :
    Replacing paths d₁ p f ((d₁.withTemp tmp i g).remove tmp) := by
  have hsame : ∀ n, n ≠ tmp → ((d₁.withTemp tmp i g).remove tmp).entry n = d₁.entry n := by
    intro n hn
    rw [entry_remove hn, entry_withTemp hn]
  exact ⟨fun _ _ hj => h.inode_withTemp hj, fun n _ hn => hsame n (h.ne hn),
    .inl (hsame p (h.ne (.inl hp)))⟩

/-- The new file is nowhere else, so that the rename does move it. -/
theorem Fresh.rename_eq (h : Fresh paths d₁ tmp i) (hp : p ∈ paths) :
    (d₁.withTemp tmp i f).rename tmp p = (d₁.withTemp tmp i f).move tmp p := by
  rw [Disk.rename, entry_withTemp_self, entry_withTemp (h.ne (.inl hp))]
  split
  · rename_i j k hj hk
    cases hj
    rw [if_neg]
    rintro rfl
    exact h.unused p hk
  · rfl

theorem Fresh.holds_rename (h : Fresh paths d₁ tmp i) (hp : p ∈ paths) :
    ((d₁.withTemp tmp i f).rename tmp p).Holds p f := by
  refine ⟨i, ?_, ?_⟩
  · rw [h.rename_eq hp, entry_move (h.ne (.inl hp)), entry_withTemp_self]
  · rw [h.rename_eq hp]
    exact @inode_withTemp_self d₁ tmp i f

theorem Fresh.replacing_rename (h : Fresh paths d₁ tmp i) (hp : p ∈ paths) :
    Replacing paths d₁ p f ((d₁.withTemp tmp i f).rename tmp p) where
  inode j g hj := by
    rw [h.rename_eq hp]
    exact h.inode_withTemp hj
  entry n hne hn := by
    rw [h.rename_eq hp, entry_move_of_ne (h.ne hn) hne, entry_withTemp (h.ne hn)]
  target := .inr (h.holds_rename hp)

theorem modify_withTemp (k : Inode → Inode) :
    (d.withTemp tmp i f).modify i k = d.withTemp tmp i (k f) := by
  rw [Disk.modify, Disk.withTemp, Disk.withTemp]
  simp

theorem foldl_tempOps (data : Bytes) (perm mode : Mode) :
    ((tempOps data perm).map Prod.fst).foldl (fun f op => op.apply f) ⟨[], mode⟩ = ⟨data, perm⟩ := by
  simp [tempOps, FdOp.apply, overwrite]

/-- The disk is as it was, with the temporary file. -/
def Has (paths : List Name) (d₁ : Disk) (tmp : Name) (i : Nat) (f : Inode) (d : Disk) : Prop :=
  Fresh paths d₁ tmp i ∧ d = d₁.withTemp tmp i f

/-- The temporary file is there, with some content. -/
def HasSome (paths : List Name) (d₁ : Disk) (tmp : Name) (d : Disk) : Prop :=
  ∃ i f, Has paths d₁ tmp i f d

theorem HasSome.replacing (h : HasSome paths d₁ tmp d) (hp : p ∈ paths) :
    Replacing paths d₁ p f d := by
  obtain ⟨i, g, hfresh, rfl⟩ := h
  exact hfresh.replacing hp g

/-- A replacement that has ended: without an error the file is there. -/
def Replaced (paths : List Name) (d₁ : Disk) (p : Name) (f : Inode) (err : Option Str)
    (d : Disk) : Prop :=
  Replacing paths d₁ p f d ∧ (err = none → d.Holds p f)

theorem has_onFd {op : FdOp} {ok : Bool} {d' : Disk} (h : Has paths d₁ tmp i f d)
    (hd' : Answers paths d (.onFd op i) ok d') : ∃ g, Has paths d₁ tmp i g d' := by
  obtain ⟨hfresh, rfl⟩ := h
  cases ok with
  | true => exact ⟨op.apply f, hfresh, hd'.trans (modify_withTemp _)⟩
  | false =>
    rcases hd' with rfl | ⟨g, g', -, -, rfl⟩
    · exact ⟨f, hfresh, rfl⟩
    · exact ⟨g', hfresh, modify_withTemp _⟩

section
variable (hp : p ∈ paths)
include hp

theorem cleanup_triple (text : Str) :
    CrashTriple (Answers paths) (HasSome paths d₁ tmp) (cleanup tmp text) (Replacing paths d₁ p f)
      (Replaced paths d₁ p f) := by
  refine .ask (fun _ => Replacing paths d₁ p f) (fun d h => h.replacing hp) ?_ fun _ =>
    .ret (fun _ h => h) fun _ h => ⟨h, fun hnone => by cases hnone⟩
  rintro d (_ | _) d' ⟨i, g, hfresh, rfl⟩ hd'
  · cases hd'
    exact hfresh.replacing hp g
  · cases hd'
    exact hfresh.replacing_remove hp g

theorem abandon_triple (op : FdOp) (text : Str) :
    CrashTriple (Answers paths) (fun d => ∃ f', Has paths d₁ tmp i f' d) (abandon tmp i op text)
      (Replacing paths d₁ p f) (Replaced paths d₁ p f) := by
  have hsome : ∀ d, (∃ f', Has paths d₁ tmp i f' d) → HasSome paths d₁ tmp d := by
    rintro d ⟨f', h⟩
    exact ⟨i, f', h⟩
  rw [abandon]
  split_ifs
  · exact (cleanup_triple hp text).imp hsome (fun _ h => h) fun _ _ h => h
  refine .ask (fun _ => HasSome paths d₁ tmp) (fun d h => (hsome d h).replacing hp) ?_
    fun _ => cleanup_triple hp text
  rintro d ok d' ⟨f', h⟩ hd'
  exact hsome d' (has_onFd h hd')

theorem inOrder_triple {rest : Done} (ops : List (FdOp × Str)) {f' : Inode}
    (hrest : CrashTriple (Answers paths)
      (Has paths d₁ tmp i ((ops.map Prod.fst).foldl (fun f op => op.apply f) f')) rest
      (Replacing paths d₁ p f) (Replaced paths d₁ p f)) :
    CrashTriple (Answers paths) (Has paths d₁ tmp i f') (inOrder tmp i ops rest)
      (Replacing paths d₁ p f) (Replaced paths d₁ p f) := by
  induction ops generalizing f' with
  | nil => exact hrest
  | cons o ops ih =>
    obtain ⟨op, text⟩ := o
    refine .ask
      (fun (ok : Bool) d => if ok then Has paths d₁ tmp i (op.apply f') d
        else ∃ g, Has paths d₁ tmp i g d)
      (fun d h => HasSome.replacing ⟨i, f', h⟩ hp) ?_ ?_
    · rintro d (_ | _) d' h hd'
      · exact has_onFd h hd'
      · obtain ⟨hfresh, rfl⟩ := h
        exact ⟨hfresh, hd'.trans (modify_withTemp _)⟩
    · rintro (_ | _)
      · exact abandon_triple hp op text
      · exact ih hrest

/-- After a rename the file is there; without one the disk is as it was. -/
def Renamed (paths : List Name) (d₁ : Disk) (tmp : Name) (i : Nat) (p : Name) (f : Inode)
    (err : Option Str) (d : Disk) : Prop :=
  match err with
  | none => Replacing paths d₁ p f d ∧ d.Holds p f
  | some _ => Has paths d₁ tmp i f d

theorem osRename_triple :
    CrashTriple (Answers paths) (Has paths d₁ tmp i f) (osRename tmp p) (Replacing paths d₁ p f)
      (Renamed paths d₁ tmp i p f) := by
  refine .ask (fun (ok : Bool) => Renamed paths d₁ tmp i p f (if ok then none else some []))
    (fun d h => HasSome.replacing ⟨i, f, h⟩ hp) ?_ ?_
  · rintro d (_ | _) d' h hd'
    · cases hd'
      exact h
    · obtain ⟨hfresh, rfl⟩ := h
      obtain ⟨-, -, rfl⟩ := hd'
      exact ⟨hfresh.replacing_rename hp, hfresh.holds_rename hp⟩
  · rintro (_ | _)
    · exact .ret (fun d h => HasSome.replacing ⟨i, f, h⟩ hp) fun _ h => h
    · exact .ret (fun d h => h.1) fun _ h => h

theorem safeRename_triple (removeExisting : Bool) :
    CrashTriple (Answers paths) (Has paths d₁ tmp i f) (safeRename tmp p removeExisting)
      (Replacing paths d₁ p f) (Renamed paths d₁ tmp i p f) := by
  have hC : ∀ d, Has paths d₁ tmp i f d → Replacing paths d₁ p f d := fun d h =>
    HasSome.replacing ⟨i, f, h⟩ hp
  have hfail : ∀ text, CrashTriple (Answers paths) (Has paths d₁ tmp i f) (.ret (some text) : Done)
      (Replacing paths d₁ p f) (Renamed paths d₁ tmp i p f) := fun _ => .ret hC fun _ h => h
  rw [safeRename]
  split_ifs
  · exact osRename_triple hp
  refine .ask (fun (r : NoReplace) => Renamed paths d₁ tmp i p f (if r = .done then none else some []))
    hC ?_ ?_
  · rintro d (_ | _ | _ | _) d' h hd'
    · obtain ⟨hfresh, rfl⟩ := h
      obtain ⟨-, -, rfl⟩ := hd'
      exact ⟨hfresh.replacing_rename hp, hfresh.holds_rename hp⟩
    · obtain ⟨-, rfl⟩ := hd'
      exact h
    · cases hd'
      exact h
    · cases hd'
      exact h
  · rintro (_ | _ | _ | _)
    · exact .ret (fun _ h => h.1) fun _ h => h
    · exact hfail _
    · -- the fallback looks first and renames then
      refine .ask (fun _ => Has paths d₁ tmp i f) hC ?_ ?_
      · rintro d (_ | _ | _) d' h hd'
        · obtain ⟨-, rfl⟩ := hd'
          exact h
        · obtain ⟨-, rfl⟩ := hd'
          exact h
        · cases hd'
          exact h
      · rintro (_ | _ | _)
        · exact hfail _
        · exact osRename_triple hp
        · exact hfail _
    · exact hfail _

theorem safeReplaceFile_triple (data : Bytes) (perm : Mode) (removeExisting : Bool) :
    CrashTriple (Answers paths) (· = d₁) (safeReplaceFile p data perm removeExisting)
      (Replacing paths d₁ p ⟨data, perm⟩) (Replaced paths d₁ p ⟨data, perm⟩) := by
  have hrefl : ∀ d, d = d₁ → Replacing paths d₁ p ⟨data, perm⟩ d := by
    rintro d rfl
    exact replacing_refl ..
  refine .ask (fun (r : Option Name) d => match r with
      | none => d = d₁
      | some tmp => ∃ i, Has paths d₁ tmp i ⟨[], 0o600#32⟩ d) hrefl ?_ ?_
  · rintro d (_ | tmp) d' rfl hd'
    · exact hd'
    · exact hd'
  rintro (_ | tmp)
  · exact .ret hrefl fun d h => ⟨hrefl d h, fun hnone => by cases hnone⟩
  -- the file that is opened is the one that was made
  refine .of_forall ?_
  rintro d ⟨i, hfresh, rfl⟩
  refine .ask (fun (r : Option Nat) d => Has paths d₁ tmp i ⟨[], 0o600#32⟩ d ∧ ∀ fd, r = some fd → fd = i)
    ?_ ?_ ?_
  · rintro d rfl
    exact hfresh.replacing hp _
  · rintro d (_ | fd) d' rfl hd'
    · cases hd'
      exact ⟨⟨hfresh, rfl⟩, fun fd h => by cases h⟩
    · obtain ⟨hentry, rfl⟩ := hd'
      rw [entry_withTemp_self] at hentry
      cases hentry
      exact ⟨⟨hfresh, rfl⟩, fun fd h => by cases h; rfl⟩
  rintro (_ | fd)
  · exact (cleanup_triple hp _).imp (fun d h => ⟨i, _, h.1⟩) (fun _ h => h) fun _ _ h => h
  refine .of_forall ?_
  rintro d ⟨h, hfd⟩
  obtain rfl := hfd fd rfl
  refine (inOrder_triple hp _ ?_).imp (fun d' hd' => by rw [hd']; exact h) (fun _ h => h) fun _ _ h => h
  rw [foldl_tempOps]
  refine (safeRename_triple hp removeExisting).bind ?_
  rintro (_ | text)
  · refine .ask (fun _ d => Replacing paths d₁ p ⟨data, perm⟩ d ∧ d.Holds p ⟨data, perm⟩)
      (fun _ h => h.1) ?_ fun _ => .ret (fun _ h => h.1) fun _ h => ⟨h.1, fun _ => h.2⟩
    rintro d _ d' h hd'
    cases hd'
    exact h
  · exact (cleanup_triple hp text).imp (fun d h => ⟨fd, _, h⟩) (fun _ h => h) fun _ _ h => h

end

/-! ## The copy and the replacement -/

variable {d₀ : Disk} {path backupPath : Name} {newContent c : Bytes} {perm : Mode}

theorem content_of_holds (h : d.Holds p f) : d.content p = some f.content := by
  obtain ⟨i, hentry, hinode⟩ := h
  rw [Disk.content, hentry]
  simp [hinode]

theorem content_eq_some_iff :
    d.content p = some c ↔ ∃ i f, d.entry p = some (.file i) ∧ d.inode i = some f ∧ f.content = c := by
  constructor
  · intro h
    rw [Disk.content] at h
    split at h
    · rename_i i hentry
      obtain ⟨f, hinode, hc⟩ := Option.map_eq_some_iff.mp h
      exact ⟨i, f, hentry, hinode, hc⟩
    · cases h
  · rintro ⟨i, f, hentry, hinode, rfl⟩
    exact content_of_holds ⟨i, hentry, hinode⟩

/-- The disk at any moment of `safeBackupAndReplace`, against the disk before it. -/
structure Unbricked (path backupPath : Name) (newContent : Bytes) (d₀ d : Disk) : Prop where
  /-- a regular file is complete, in its old or in its new form -/
  whole : ∀ c, d₀.content path = some c → d.content path = some c ∨ d.content path = some newContent
  /-- where there was nothing there is nothing, or the complete new file -/
  absent : d₀.entry path = none → d.entry path = none ∨ d.content path = some newContent
  /-- a link, a directory or another thing stays as it is -/
  refused : d₀.entry path ≠ none → d₀.content path = none → d.entry path = d₀.entry path
  /-- no file that was there is changed, under whatever name it may be reached -/
  inode : ∀ i f, d₀.inode i = some f → d.inode i = some f
  elsewhere : ∀ n, n ≠ path → n ≠ backupPath → d₀.entry n ≠ none → d.entry n = d₀.entry n

theorem unbricked_refl (path backupPath : Name) (newContent : Bytes) (d : Disk) :
    Unbricked path backupPath newContent d d :=
  ⟨fun _ h => .inl h, fun h => .inl h, fun _ _ => rfl, fun _ _ h => h, fun _ _ _ _ => rfl⟩

theorem Replacing.content_eq (h : Replacing paths d₁ p f d) (hn : d.entry n = d₁.entry n)
    (hc : d₁.content n = some c) : d.content n = some c := by
  obtain ⟨i, g, hentry, hinode, rfl⟩ := content_eq_some_iff.mp hc
  exact content_of_holds ⟨i, hn.trans hentry, h.inode i g hinode⟩

theorem Replacing.entry_of_pair (h : Replacing [path, backupPath] d₁ p f d) (hn : n ≠ path)
    (hn' : n ≠ backupPath) (hp : p = path ∨ p = backupPath) (hsome : d₁.entry n ≠ none) :
    d.entry n = d₁.entry n := by
  refine h.entry n ?_ (.inr hsome)
  rcases hp with rfl | rfl
  · exact hn
  · exact hn'

theorem unbricked_of_absent (hnone : d₀.entry path = none)
    (h : Replacing [path, backupPath] d₀ path ⟨newContent, perm⟩ d) :
    Unbricked path backupPath newContent d₀ d where
  whole c hc := by
    rw [Disk.content, hnone] at hc
    cases hc
  absent _ := by
    rcases h.target with hsame | hnew
    · exact .inl (hsame.trans hnone)
    · exact .inr (content_of_holds hnew)
  refused hsome := absurd hnone hsome
  inode := h.inode
  elsewhere _ hn hn' hsome := h.entry_of_pair hn hn' (.inl rfl) hsome

/-- While the copy is written the file is there, even if the copy should take its place. -/
theorem content_of_copying (hc : d₀.content path = some c)
    (h : Replacing [path, backupPath] d₀ backupPath ⟨c, perm⟩ d) : d.content path = some c := by
  by_cases hne : path = backupPath
  · subst hne
    rcases h.target with hsame | hcopy
    · exact h.content_eq hsame hc
    · exact content_of_holds hcopy
  · exact h.content_eq (h.entry path hne (.inl (by simp))) hc

theorem unbricked_of_copying (hc : d₀.content path = some c)
    (h : Replacing [path, backupPath] d₀ backupPath ⟨c, perm⟩ d) :
    Unbricked path backupPath newContent d₀ d where
  whole c' hc' := by
    rw [hc] at hc'
    cases hc'
    exact .inl (content_of_copying hc h)
  absent hnone := by
    rw [Disk.content, hnone] at hc
    cases hc
  refused _ hnone := by
    rw [hc] at hnone
    cases hnone
  inode := h.inode
  elsewhere _ hn hn' hsome := h.entry_of_pair hn hn' (.inr rfl) hsome

theorem unbricked_of_replacing (hc : d₀.content path = some c)
    (hcopy : Replacing [path, backupPath] d₀ backupPath ⟨c, perm⟩ d₁)
    (h : Replacing [path, backupPath] d₁ path ⟨newContent, perm⟩ d) :
    Unbricked path backupPath newContent d₀ d where
  whole c' hc' := by
    rw [hc] at hc'
    cases hc'
    rcases h.target with hsame | hnew
    · exact .inl (h.content_eq hsame (content_of_copying hc hcopy))
    · exact .inr (content_of_holds hnew)
  absent hnone := by
    rw [Disk.content, hnone] at hc
    cases hc
  refused _ hnone := by
    rw [hc] at hnone
    cases hnone
  inode i f hf := h.inode i f (hcopy.inode i f hf)
  elsewhere n hn hn' hsome := by
    have heq := hcopy.entry_of_pair hn hn' (.inr rfl) hsome
    rw [← heq] at hsome
    exact (h.entry_of_pair hn hn' (.inl rfl) hsome).trans heq

/-- The new file is in its place, and a file that was there before is in the backup. -/
structure Updated (path backupPath : Name) (newContent : Bytes) (perm : Mode) (d₀ d : Disk) :
    Prop where
  new : d.Holds path ⟨newContent, perm⟩
  old : path ≠ backupPath → ∀ c, d₀.content path = some c → d.Holds backupPath ⟨c, perm⟩
  regular : d₀.entry path = none ∨ ∃ c, d₀.content path = some c

theorem updated_of_replacing (hc : d₀.content path = some c)
    (hcopy : Replaced [path, backupPath] d₀ backupPath ⟨c, perm⟩ none d₁)
    (h : Replaced [path, backupPath] d₁ path ⟨newContent, perm⟩ none d) :
    Updated path backupPath newContent perm d₀ d where
  new := h.2 rfl
  old hne c' hc' := by
    rw [hc] at hc'
    cases hc'
    obtain ⟨i, hentry, hinode⟩ := hcopy.2 rfl
    refine ⟨i, ?_, h.1.inode i _ hinode⟩
    rw [h.1.entry backupPath (Ne.symm hne) (.inl (by simp)), hentry]
  regular := .inr ⟨c, hc⟩

/-- Not bricked; and updated, if there was no error. -/
def Outcome (path backupPath : Name) (newContent : Bytes) (perm : Mode) (d₀ : Disk)
    (err : Option Str) (d : Disk) : Prop :=
  Unbricked path backupPath newContent d₀ d ∧
    (err = none → Updated path backupPath newContent perm d₀ d)

theorem refusal_triple (text : Str) :
    CrashTriple (Answers [path, backupPath]) (· = d₀) (.ret (some text) : Done)
      (Unbricked path backupPath newContent d₀) (Outcome path backupPath newContent perm d₀) := by
  have hrefl : ∀ d, d = d₀ → Unbricked path backupPath newContent d₀ d := by
    rintro d rfl
    exact unbricked_refl ..
  exact .ret hrefl fun d h => ⟨hrefl d h, fun hnone => by cases hnone⟩

theorem closing_triple (fd : Option Nat) {k : Bool → Done}
    (hk : ∀ ok, CrashTriple (Answers [path, backupPath]) (· = d₀) (k ok)
      (Unbricked path backupPath newContent d₀) (Outcome path backupPath newContent perm d₀)) :
    CrashTriple (Answers [path, backupPath]) (· = d₀) (.ask (.closeCurrent fd) k : Done)
      (Unbricked path backupPath newContent d₀) (Outcome path backupPath newContent perm d₀) := by
  refine .ask (fun _ d => d = d₀) ?_ ?_ hk
  · rintro d rfl
    exact unbricked_refl ..
  · rintro d _ d' rfl hd'
    exact hd'

theorem copy_triple (hc : d₀.content path = some c) (removeExistingBackup : Bool) :
    CrashTriple (Answers [path, backupPath]) (· = d₀)
      ((safeReplaceFile backupPath c perm removeExistingBackup).bind fun err =>
        match err with
        | some text => .ret (some ("backup current to " ++ backupPath ++ ": " ++ text))
        | none => safeReplaceFile path newContent perm true)
      (Unbricked path backupPath newContent d₀) (Outcome path backupPath newContent perm d₀) := by
  refine ((safeReplaceFile_triple (by simp) c perm removeExistingBackup).imp (fun _ h => h)
    (fun d h => unbricked_of_copying hc h) fun _ _ h => h).bind ?_
  rintro (_ | text)
  · refine .of_forall fun d₁ hd₁ => ?_
    exact (safeReplaceFile_triple (by simp) newContent perm true).imp (fun _ h => h)
      (fun d h => unbricked_of_replacing hc hd₁.1 h)
      fun err d h => ⟨unbricked_of_replacing hc hd₁.1 h.1, fun hnone => by
        rw [hnone] at h
        exact updated_of_replacing hc hd₁ h⟩
  · exact .ret (fun d h => unbricked_of_copying hc h.1)
      fun d h => ⟨unbricked_of_copying hc h.1, fun hnone => by cases hnone⟩

theorem backUpOpen_triple (removeExistingBackup : Bool) {fd : Option Nat}
    (hfd : ∀ i, fd = some i → d₀.entry path = some (.file i)) :
    CrashTriple (Answers [path, backupPath]) (· = d₀)
      (backUpOpen path backupPath newContent perm removeExistingBackup fd)
      (Unbricked path backupPath newContent d₀) (Outcome path backupPath newContent perm d₀) := by
  have hrefl : ∀ d, d = d₀ → Unbricked path backupPath newContent d₀ d := by
    rintro d rfl
    exact unbricked_refl ..
  refine .ask (fun _ d => d = d₀) hrefl ?_ ?_
  · rintro d (_ | regular) d' rfl hd'
    · exact hd'
    · exact hd'.2
  rintro (_ | _ | _)
  · exact closing_triple fd fun _ => refusal_triple _
  · exact closing_triple fd fun _ => refusal_triple _
  refine .ask (fun (r : Option Bytes) d => d = d₀ ∧ ∀ c, r = some c → d₀.content path = some c)
    hrefl ?_ ?_
  · rintro d (_ | c) d' rfl hd'
    · cases hd'
      exact ⟨rfl, fun c hc => by cases hc⟩
    · obtain ⟨⟨i, f, hi, hinode, rfl⟩, rfl⟩ := hd'
      refine ⟨rfl, fun c hc => ?_⟩
      cases hc
      exact content_of_holds ⟨i, hfd i hi, hinode⟩
  rintro (_ | c)
  · refine (closing_triple fd fun _ => refusal_triple _).imp (fun d h => h.1) (fun _ h => h)
      fun _ _ h => h
  · refine .of_forall ?_
    rintro d ⟨rfl, hc⟩
    refine closing_triple fd ?_
    rintro (_ | _)
    · exact refusal_triple _
    · exact copy_triple (hc c rfl) removeExistingBackup

theorem safeBackupAndReplace_triple (removeExistingBackup : Bool) :
    CrashTriple (Answers [path, backupPath]) (· = d₀)
      (safeBackupAndReplace path backupPath newContent perm removeExistingBackup)
      (Unbricked path backupPath newContent d₀) (Outcome path backupPath newContent perm d₀) := by
  refine .ask (fun (r : Opened) d => d = d₀ ∧ match r with
      | .file i => d₀.entry path = some (.file i)
      | .notExist => d₀.entry path = none
      | .other | .failed => True) ?_ ?_ ?_
  · rintro d rfl
    exact unbricked_refl ..
  · rintro d (i | _ | _ | _) d' rfl hd'
    · exact ⟨hd'.2, hd'.1⟩
    · exact ⟨hd'.2, trivial⟩
    · exact ⟨hd'.2, hd'.1⟩
    · exact ⟨hd', trivial⟩
  rintro (i | _ | _ | _)
  · refine .of_forall ?_
    rintro d ⟨rfl, hentry⟩
    refine backUpOpen_triple removeExistingBackup fun j hj => ?_
    cases hj
    exact hentry
  · exact (backUpOpen_triple removeExistingBackup fun j hj => by cases hj).imp (fun d h => h.1)
      (fun _ h => h) fun _ _ h => h
  · refine .of_forall ?_
    rintro d ⟨rfl, hnone⟩
    refine (safeReplaceFile_triple (by simp) newContent perm true).imp (fun _ h => h)
      (fun d h => unbricked_of_absent hnone h)
      fun err d' h => ⟨unbricked_of_absent hnone h.1, fun herr => ⟨h.2 herr, ?_, .inl hnone⟩⟩
    intro _ c hc
    rw [Disk.content, hnone] at hc
    cases hc
  · exact (refusal_triple _).imp (fun d h => h.1) (fun _ h => h) fun _ _ h => h

theorem safeReplaceFile_runs {data : Bytes} (hp : p ∈ paths) (hfresh : Fresh paths d tmp i)
    (hdir : d.entry p ≠ some .dir) :
    Runs (Answers paths) (safeReplaceFile p data perm true) d none
      ((d.withTemp tmp i ⟨data, perm⟩).rename tmp p) := by
  have happly : ∀ f (op : FdOp), Answers paths (d.withTemp tmp i f) (.onFd op i) true
      (d.withTemp tmp i (op.apply f)) := fun f op => (modify_withTemp op.apply).symm
  have hfile : FdOp.apply (.chmod perm) (FdOp.apply (.write data) ⟨[], 0o600#32⟩) = ⟨data, perm⟩ := by
    simp [FdOp.apply, overwrite]
  have hrename : Answers paths (d.withTemp tmp i ⟨data, perm⟩) (.rename tmp p) true
      ((d.withTemp tmp i ⟨data, perm⟩).rename tmp p) := by
    refine ⟨?_, ?_, rfl⟩
    · rw [entry_withTemp_self]
      exact Option.some_ne_none _
    · rwa [entry_withTemp (hfresh.ne (.inl hp))]
  have hcreate : ∀ dir start, Answers paths d (.createTemp dir start) (some tmp)
      (d.withTemp tmp i ⟨[], 0o600#32⟩) := fun _ _ => ⟨i, hfresh, rfl⟩
  have hopen : Answers paths (d.withTemp tmp i ⟨[], 0o600#32⟩) (.openTemp tmp) (some i)
      (d.withTemp tmp i ⟨[], 0o600#32⟩) := ⟨entry_withTemp_self, rfl⟩
  have hsync : ∀ d' dir, Answers paths d' (.syncDir dir) true d' := fun _ _ => rfl
  refine .ask (hcreate _ _) (.ask hopen ?_)
  refine .ask (happly _ (.write data)) (.ask (happly _ (.chmod perm)) ?_)
  rw [hfile]
  refine .ask (happly _ .sync) (.ask (happly _ .close) (.ask hrename ?_))
  exact .ask (hsync _ _) (.ret _ _)

def bin : Name := "/usr/bin/agent"

def bak : Name := "/usr/bin/agent.bak"

def shadow : Name := "/etc/shadow"

def oldAgent : Inode := ⟨[1], 0o755#32⟩

def secret : Inode := ⟨[2], 0o600#32⟩

def planted : Disk where
  entry n := if n = bin then some (.file 0) else if n = bak then some (.link shadow)
    else if n = shadow then some (.file 1) else none
  inode i := if i = 0 then some oldAgent else if i = 1 then some secret else none

def tmp₁ : Name := "/usr/bin/.agent.bak.tmp-1"

def tmp₂ : Name := "/usr/bin/.agent.tmp-2"

def copied : Disk := (planted.withTemp tmp₁ 2 ⟨[1], 0o755#32⟩).rename tmp₁ bak

theorem fresh_planted : Fresh [bin, bak] planted tmp₁ 2 where
  entry := by decide
  notMem := by decide
  inode := rfl
  unused n := by
    unfold planted
    dsimp only
    split_ifs <;> decide

theorem fresh_copied : Fresh [bin, bak] copied tmp₂ 3 := by
  have hmove : copied = (planted.withTemp tmp₁ 2 ⟨[1], 0o755#32⟩).move tmp₁ bak :=
    fresh_planted.rename_eq (by decide)
  rw [hmove]
  refine ⟨by decide, by decide, rfl, fun n => ?_⟩
  by_cases htmp : n = tmp₁
  · rw [htmp]
    decide
  by_cases hbak : n = bak
  · rw [hbak]
    decide
  rw [entry_move_of_ne htmp hbak, entry_withTemp htmp]
  unfold planted
  dsimp only
  split_ifs <;> decide

theorem runs_planted :
    Runs (Answers [bin, bak]) (safeBackupAndReplace bin bak [3] 0o755#32 true) planted none
      ((copied.withTemp tmp₂ 3 ⟨[3], 0o755#32⟩).rename tmp₂ bin) := by
  have hopen : Answers [bin, bak] planted (.openCurrent bin) (.file 0) planted := ⟨rfl, rfl⟩
  have hstat : Answers [bin, bak] planted (.statOpen (some 0)) (some true) planted := ⟨rfl, rfl⟩
  have hread : Answers [bin, bak] planted (.readAll (some 0)) (some [1]) planted :=
    ⟨⟨0, oldAgent, rfl, rfl, rfl⟩, rfl⟩
  have hclose : Answers [bin, bak] planted (.closeCurrent (some 0)) true planted := rfl
  refine .ask hopen (.ask hstat (.ask hread (.ask hclose (runs_bind_iff.mpr ⟨none, copied, ?_, ?_⟩))))
  · exact safeReplaceFile_runs (by decide) fresh_planted (by decide)
  · exact safeReplaceFile_runs (by decide) fresh_copied (by decide)

end PowerManage.Fs.Replace
