import PowerManage.Fs.Write

/-!
# Reading back what was written

On the direct backend `ReadFile` reads the file.  On the others it is the output of `cat`, which the
runner captures up to `MaxOutputBytes`: of a longer file a caller gets the first lines and a note,
and no error (`long_file`).  `reads_back_iff` says that this is the only difference for contents that
end with a line end.
-/

namespace PowerManage.Fs

open Text Interaction Exec

variable {E : Env} {h h' : Host} {os os' : List (Option Str)}

/-- Reading gives these bytes or an error, whichever calls fail. -/
def ReadsBack (E : Env) (b : Backend) (path : Str) (data : Bytes) (h : Host) : Prop :=
  ∀ os r h' os', Ends E (readFile b path) h os r h' os' → r = .ok data ∨ ∃ e, r = .error e

variable {path : Str} {data : Bytes}

theorem readsBack_direct (hc : h.content E path = some data) : ReadsBack E .direct path data h := by
  intro os r h' os' hrun
  unfold readFile at hrun
  split at hrun
  · obtain ⟨rfl, -, -⟩ := ends_ret hrun
    exact .inr ⟨_, rfl⟩
  have hanswer : h.answer E (.readFile path) = some (.ok data, h) := by
    simp only [Host.answer, hc]
  obtain ⟨os₁, -, hrun₁⟩ | ⟨e, os₁, -, hrun₁⟩ := ends_ask hanswer hrun
  · obtain ⟨rfl, -, -⟩ := ends_ret hrun₁
    exact .inl rfl
  · obtain ⟨rfl, -, -⟩ := ends_ret hrun₁
    exact .inr ⟨_, rfl⟩

theorem readsBack_escalated_iff {b : Backend} (hb : b ≠ .direct)
    (hpath : validatePath path = none) (hc : h.content E path = some data) :
    ReadsBack E b path data h ↔ stdoutBytes data = data := by
  have hanswer : h.answer E (.run "cat" ["--", path]) =
      some (.ok ⟨0, stdoutBytes data, []⟩, h) := by
    simp [Host.answer, Host.cat, hc]
  have hread : ∀ {os r h' os'}, Ends E (readFile b path) h os r h' os' →
      r = .ok (stdoutBytes data) ∨ ∃ e, r = .error e := by
    intro os r h' os' hrun
    rw [readFile, hpath] at hrun
    simp only [if_neg hb] at hrun
    obtain ⟨os₁, -, hrun₁⟩ | ⟨e, os₁, -, hrun₁⟩ := ends_ask hanswer hrun
    · obtain ⟨rfl, -, -⟩ := ends_ret hrun₁
      exact .inl rfl
    · obtain ⟨rfl, -, -⟩ := ends_ret hrun₁
      exact .inr ⟨_, rfl⟩
  constructor
  · intro hall
    have hrun : Ends E (readFile b path) h [none] (.ok (stdoutBytes data)) h [] := by
      rw [readFile, hpath]
      simp only [if_neg hb]
      rw [Ends, Prog.run, Prog.faulty, hanswer]
      rfl
    rcases hall _ _ _ _ hrun with heq | ⟨e, heq⟩
    · exact Except.ok.inj heq
    · cases heq
  · intro heq os r h' os' hrun
    exact heq.symm ▸ hread hrun

theorem content_of_writeFile {b : Backend} {ctx : Option Str} {opts : WriteOptions}
    (hrun : Ends E (writeFile b E.names ctx path data opts) h os none h' os') :
    validatePath path = none ∧ h'.content E path = some data := by
  obtain ⟨haccepted, heq⟩ | ⟨-, e, heq⟩ := writeFile_cases b E.names ctx path data opts
  · refine ⟨haccepted.target, ?_⟩
    rw [heq] at hrun
    split_ifs at hrun
    · obtain ⟨err, h₁, os₁, hreplace, hown⟩ := ends_bind.mp hrun
      obtain ⟨rfl, hreplaced, -⟩ | ⟨herr, -⟩ := replaceDirect_cases hreplace
      · obtain ⟨-, -, ids, -, hnode⟩ | ⟨herr, -⟩ := setOwner_cases hreplaced.target rfl hown
        · have hfile : h'.node (E.abs path) = some (.file { newFile E data opts.perm with ids }) := by
            rw [hnode, Function.update_self]
          exact content_of_file hreplaced.leaf hfile
        · exact absurd rfl herr
      · cases err with
        | none => exact absurd rfl herr
        | some e => cases (ends_ret hown).1
    · obtain ⟨-, hmoved⟩ | ⟨herr, -⟩ := writeEscalated_cases hrun
      · obtain ⟨ids, -, hnode⟩ := hmoved.node
        have hfile : h'.node (E.abs path) = some (.file ⟨data, FileMode.syscallMode opts.perm, ids⟩) := by
          rw [hnode, Function.update_self]
        exact content_of_file hmoved.leaf hfile
      · exact absurd rfl herr
  · rw [heq] at hrun
    cases (ends_ret hrun).1

/-- After a write that has succeeded, the direct and the escalated backends read back what was
written or fail, if and only if it is within the cap of the runner. -/
theorem reads_back_iff {b : Backend} {ctx : Option Str} {path : Str} {data : Bytes}
    {opts : WriteOptions} (hb : b ≠ .direct) (hdata : Terminated data)
    (hrun : Ends E (writeFile b E.names ctx path data opts) h os none h' os') :
    (ReadsBack E .direct path data h' ∧ ReadsBack E b path data h') ↔
      data.length ≤ maxOutputBytes := by
  obtain ⟨hpath, hcontent⟩ := content_of_writeFile hrun
  rw [and_iff_right (readsBack_direct hcontent), readsBack_escalated_iff hb hpath hcontent,
    stdoutBytes_eq_self_iff hdata]

/-! ## A long file -/

def plainly : WriteOptions := ⟨0, [], [], []⟩

theorem ends_write (data : Bytes) :
    ∃ h', Ends testEnv (writeFile .withSudo testEnv.names none appConf data plainly) testHost
      (List.replicate 7 none) none h' [] :=
  ⟨_, rfl⟩

def emptyLines : Bytes := List.replicate (maxOutputBytes + 1) 10

theorem terminated_emptyLines : Terminated emptyLines :=
  .inr (by rw [emptyLines, List.getLast?_replicate, if_neg (Nat.succ_ne_zero _)])

/-- A file over the cap. -/
theorem long_file : ∃ h', Ends testEnv (writeFile .withSudo testEnv.names none appConf emptyLines
      plainly) testHost (List.replicate 7 none) none h' [] ∧
    ReadsBack testEnv .direct appConf emptyLines h' ∧
    ¬ReadsBack testEnv .withSudo appConf emptyLines h' := by
  obtain ⟨h', hrun⟩ := ends_write emptyLines
  obtain ⟨hpath, hcontent⟩ := content_of_writeFile hrun
  refine ⟨h', hrun, readsBack_direct hcontent, fun hback => ?_⟩
  have heq := (readsBack_escalated_iff (fun h => by cases h) hpath hcontent).mp hback
  have hle := (stdoutBytes_eq_self_iff terminated_emptyLines).mp heq
  rw [emptyLines, List.length_replicate] at hle
  omega

/-- A file within the cap. -/
theorem short_file : ∃ h', Ends testEnv (writeFile .withSudo testEnv.names none appConf [104, 10]
      plainly) testHost (List.replicate 7 none) none h' [] ∧
    ReadsBack testEnv .withSudo appConf [104, 10] h' := by
  obtain ⟨h', hrun⟩ := ends_write [104, 10]
  exact ⟨h', hrun, ((reads_back_iff (fun h => by cases h) (.inr rfl) hrun).mpr (by decide)).2⟩

end PowerManage.Fs
