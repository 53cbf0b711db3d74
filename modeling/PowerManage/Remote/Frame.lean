import PowerManage.Remote.S3
import PowerManage.Remote.Git

/-!
# What a fetch leaves alone

Every fetch writes at its destination and at a few temporary siblings of it, and nowhere else: the
tree at a path that is apart from all of these is the same afterwards, whether the fetch succeeds or
where it fails.  One lemma for each function of the model, bottom up; `p` is the path.
-/

namespace PowerManage.Remote

open PathName FileTree Text List

variable {maxBytes : Int} {io : Faults} {src : S3Source} {b : Bucket} {G : GoGit}

section

variable {W : World} {t : Tree} {d : Dest} {p : Path}

theorem Dest.dropLast_sibling (suffix : Str) : (d.sibling suffix).dropLast = d.parent :=
  dropLast_concat

theorem Dest.dropLast_path : d.path.dropLast = d.dir := dropLast_concat

theorem Dest.not_prefix_parent (h : Apart d.path p) : ¬p <+: d.parent := by
  unfold Dest.parent
  split
  · exact h.2
  · exact d.dropLast_path ▸ h.not_prefix_dropLast

theorem below_of_eq {α : Type} {x : α × Tree} {result : α} {t' u : Tree} (hx : x = (result, t'))
    (h : below x.2 p = u) : below t' p = u := by
  subst hx
  exact h

/-! ## Single files -/

theorem below_removeTmp {tmp : Path} {fails : Bool} (h : Apart tmp p) :
    below (removeTmp t tmp fails) p = below t p := by
  rw [removeTmp]
  split
  · rfl
  · exact below_erase h

theorem streamToTmp_below {tmp : Path} {body : Body} {io : StreamFaults} (h : Apart tmp p) :
    below (streamToTmp t tmp body maxBytes io).2 p = below t p := by
  have hput : ∀ {t' : Tree} {n : Node}, below t' p = below t p →
      below (put t' tmp n) p = below t p :=
    fun ht => (below_put h.2).trans ht
  unfold streamToTmp
  split
  · rfl
  split
  · rename_i n _
    cases hm : mkdirAll t (tmp.dropLast.take n) with
    | none => rfl
    | some t' =>
      refine below_mkdirAll hm fun hp => h.not_prefix_dropLast ?_
      exact hp.trans ( take_prefix n _)
  · split
    · rfl
    · rename_i t' hm
      have ht' := below_mkdirAll hm h.not_prefix_dropLast
      split
      · exact ht'
      dsimp only
      split
      · exact (below_removeTmp h).trans (hput ht')
      split
      · exact (below_removeTmp h).trans (hput ht')
      · split
        · exact (below_removeTmp h).trans (hput ht')
        · exact hput ht'

theorem installFile_below {revision : Str} {checksum : Option Bytes} {r : Response}
    (hd : Apart d.path p) (htmp : Apart (d.sibling (tmpSuffix io.stream.suffix)) p) :
    below (installFile W revision checksum maxBytes t d r io).tree p = below t p := by
  unfold installFile
  dsimp only
  split
  · rename_i hs
    exact below_of_eq hs (streamToTmp_below htmp)
  rename_i hs
  have ht := below_of_eq hs (streamToTmp_below htmp)
  split
  · exact (below_removeTmp htmp).trans ht
  · split
    · exact (below_removeTmp htmp).trans ht
    · split <;> exact (below_rename htmp hd).trans ht

/-! ## Archives -/

theorem swapStaging_below {revision : Str} {staging : Path} {done : Tree → Outcome}
    (hdone : ∀ t, (done t).tree = t) (hd : Apart d.path p) (hstaging : Apart staging p) :
    below (swapStaging revision t d staging io done).tree p = below t p := by
  have hdir : ¬p <+: d.parent := Dest.not_prefix_parent hd
  have herase : ∀ {gone}, below (erase t d.path gone) p = below t p := below_erase hd
  unfold swapStaging
  dsimp only
  split
  · exact (below_erase hstaging).trans herase
  have hclear : ∀ b : Bool, below (if b then erase t d.path fun _ => true else t) p =
      below t p := by
    intro b
    cases b
    · rfl
    · exact herase
  split
  · exact (below_erase hstaging).trans (hclear _)
  rename_i t' hm
  have ht' : below t' p = below t p :=
    (below_mkdirAll (Option.ite_none_left_eq_some.mp hm).2 hdir).trans (hclear _)
  split
  · exact (below_erase hstaging).trans ht'
  have hrename := (below_rename hstaging hd).trans ht'
  split
  · exact hrename
  · rw [hdone]
    exact hrename

theorem fetchArchive_below {src : HTTPSource} {srv : Server} (hd : Apart d.path p)
    (htmp : Apart (d.sibling (".dl" ++ tmpSuffix io.stream.suffix)) p)
    (hstaging : Apart (d.sibling (".staging" ++ tmpSuffix io.stagingSuffix)) p) :
    below (fetchArchive W src t d srv io).tree p = below t p := by
  unfold fetchArchive
  split
  · rfl
  split
  · rfl
  split
  · rfl
  dsimp only
  split
  · rfl
  split
  · rfl
  split
  · rename_i hs
    exact below_of_eq hs (streamToTmp_below htmp)
  rename_i hs
  have ht := below_of_eq hs (streamToTmp_below htmp)
  split
  · exact (below_removeTmp htmp).trans ht
  split
  · exact (below_removeTmp htmp).trans ht
  rename_i t' hm
  have ht' : below t' p = below t p :=
    (below_mkdirAll (Option.ite_none_left_eq_some.mp hm).2 hstaging.2).trans ht
  split
  · exact (below_removeTmp htmp).trans ((below_erase hstaging).trans ht')
  · refine (below_removeTmp htmp).trans ?_
    exact (swapStaging_below (fun _ => rfl) hd hstaging).trans
      ((below_graft hstaging).trans ht')

theorem fetchFile_below {src : HTTPSource} {srv : Server} (hd : Apart d.path p)
    (htmp : Apart (d.sibling (tmpSuffix io.stream.suffix)) p) :
    below (fetchFile W src t d srv io).tree p = below t p := by
  unfold fetchFile
  split
  · rfl
  · split
    · rfl
    · exact installFile_below hd htmp

theorem getObject_below (hd : Apart d.path p)
    (htmp : Apart (d.sibling (tmpSuffix io.stream.suffix)) p) :
    below (match openObject src b with
      | .error e => Outcome.failed src.revision t e
      | .ok r => installFile W src.revision none defaultHTTPMaxBytes t d r io).tree p =
      below t p := by
  split
  · rfl
  · exact installFile_below hd htmp

theorem fetchObject_below (hd : Apart d.path p)
    (htmp : Apart (d.sibling (tmpSuffix io.stream.suffix)) p) :
    below (fetchObject W src t d b io).tree p = below t p := by
  unfold fetchObject
  dsimp only
  split
  · rfl
  split
  · exact getObject_below hd htmp
  split
  · rfl
  · rfl
  · exact getObject_below hd htmp

/-! ## Prefixes -/

theorem Dest.ofPath_path {q : Path} (h : q ≠ []) : (Dest.ofPath q).path = q := by
  rw [Dest.ofPath, getLastD_eq_getLast?, getLast?_eq_some_getLast h]
  exact dropLast_append_getLast h

theorem apart_object {q : Path} {suffix : Str} (hd : Apart d.path p)
    (htmp : Apart ((Dest.ofPath d.path).sibling suffix) p) (hq : d.path <+: q) :
    Apart (Dest.ofPath q).path p ∧ Apart ((Dest.ofPath q).sibling suffix) p := by
  obtain ⟨rel, rfl⟩ := hq
  rcases rel.eq_nil_or_concat with rfl | ⟨rel, name, rfl⟩
  · rw [append_nil, Dest.ofPath_path (by simp [Dest.path])]
    exact ⟨hd, htmp⟩
  rw [concat_eq_append, ← append_assoc]
  have hof : Dest.ofPath (d.path ++ rel ++ [name]) = ⟨d.path ++ rel, name, false⟩ := by
    rw [Dest.ofPath, dropLast_concat, getLastD_concat]
  rw [hof]
  refine ⟨hd.of_prefix ?_, hd.of_prefix ?_⟩ <;>
    exact (prefix_append _ _).trans (prefix_append _ _)

theorem streamObjectToFile_below {out : Dest} {body : Body} {io : ObjectFaults}
    (hout : Apart out.path p) (htmp : Apart (out.sibling (tmpSuffix io.stream.suffix)) p) :
    below (streamObjectToFile t out body maxBytes io).2 p = below t p := by
  unfold streamObjectToFile
  split
  · rfl
  rename_i t₁ hm
  have ht₁ : below t₁ p = below t p :=
    below_mkdirAll (Option.ite_none_left_eq_some.mp hm).2 (out.dropLast_path ▸ hout.not_prefix_dropLast)
  dsimp only
  split
  · rename_i hs
    exact (below_of_eq hs (streamToTmp_below htmp)).trans ht₁
  rename_i hs
  have ht₂ := (below_of_eq hs (streamToTmp_below htmp)).trans ht₁
  split
  · exact (below_removeTmp htmp).trans ht₂
  · exact (below_rename htmp hout).trans ht₂

theorem syncObjects_below {io : Nat → ObjectFaults} {i : Nat} {done : Synced}
    {objs : List S3Object} (hd : Apart d.path p)
    (htmp : ∀ i, Apart ((Dest.ofPath d.path).sibling (tmpSuffix (io i).stream.suffix)) p) :
    below (syncObjects src d b io i t done objs).2 p = below t p := by
  induction objs generalizing i t done with
  | nil => rfl
  | cons obj objs ih =>
    rw [syncObjects]
    split
    · rfl
    dsimp only
    split
    · rfl
    rename_i hwithin
    rw [not_not] at hwithin
    obtain ⟨hout, htmp'⟩ := apart_object hd (htmp i) hwithin
    split
    · rfl
    split
    · rename_i hs
      exact below_of_eq hs (streamObjectToFile_below hout htmp')
    · rename_i hs
      exact ih.trans (below_of_eq hs (streamObjectToFile_below hout htmp'))

theorem pruneTo_below {recordedDests : Finset Path} {keep : List Str} {io : PruneFaults}
    (hd : Apart d.path p) : below (pruneTo t recordedDests d keep io).2 p = below t p := by
  unfold pruneTo
  split
  · rfl
  split
  · rfl
  · rfl
  · split <;> exact below_erase hd

theorem fetchPrefix_below {recordedDests : Finset Path} {io : PrefixFaults} (hd : Apart d.path p)
    (htmp : ∀ i, Apart ((Dest.ofPath d.path).sibling (tmpSuffix (io.object i).stream.suffix)) p) :
    below (fetchPrefix W src t recordedDests d b io).tree p = below t p := by
  unfold fetchPrefix
  split
  · rfl
  split
  · rfl
  dsimp only
  split
  · rfl
  split
  · rfl
  rename_i t₁ hm
  have ht₁ : below t₁ p = below t p :=
    below_mkdirAll (Option.ite_none_left_eq_some.mp hm).2 hd.2
  split
  · rename_i hs
    exact (below_of_eq hs (syncObjects_below hd htmp)).trans ht₁
  rename_i done t₂ hs
  have ht₂ := (below_of_eq hs (syncObjects_below hd htmp)).trans ht₁
  have hprune : ∀ {e t₃}, (if src.cfg.prune then
      pruneTo t₂ recordedDests d done.relPaths io.prune else (none, t₂)) = (e, t₃) →
      below t₃ p = below t p := by
    intro e t₃ h
    split at h
    · exact (below_of_eq h (pruneTo_below hd)).trans ht₂
    · cases h
      exact ht₂
  split
  · rename_i hs
    exact hprune hs
  · rename_i hs
    split <;> exact hprune hs

/-! ## Checkouts -/

theorem openOrClone_below {cfg : GitConfig} {io : GitFaults} (hd : Apart d.path p) :
    below (openOrClone G cfg t d io).2 p = below t p := by
  have hdir : ¬p <+: d.parent := Dest.not_prefix_parent hd
  unfold openOrClone
  split
  · split <;> rfl
  split
  · rfl
  rename_i t₁ hm
  have ht₁ : below t₁ p = below t p :=
    below_mkdirAll (Option.ite_none_left_eq_some.mp hm).2 hdir
  split
  · exact (below_erase hd).trans ((below_graft hd).trans ht₁)
  · exact (below_graft hd).trans ht₁

theorem cloneOrSync_below {cfg : GitConfig} {io : GitFaults} (hd : Apart d.path p) :
    below (cloneOrSync G cfg t d io).2 p = below t p := by
  unfold cloneOrSync
  dsimp only
  split
  · rename_i hs
    exact below_of_eq hs (openOrClone_below hd)
  rename_i fresh t₁ hs
  have ht₁ := below_of_eq hs (openOrClone_below hd)
  have hgraft : ∀ {u}, below (graft t₁ d.path u) p = below t p := (below_graft hd).trans ht₁
  have hnuke : ∀ {u} (b : Bool), below (if b then erase (graft t₁ d.path u) d.path
      (fun q => !io.left q) else graft t₁ d.path u) p = below t p := by
    intro u b
    cases b
    · exact hgraft
    · exact (below_erase hd).trans hgraft
  split
  · exact hgraft
  split
  · exact hnuke fresh
  split
  · exact hgraft
  split
  · exact hgraft
  · split
    · exact hnuke fresh
    · exact hgraft

theorem fetchGit_below {src : GitSource} {io : GitFaults} (hd : Apart d.path p) :
    below (fetchGit src t d G io).tree p = below t p := by
  have hsync : ∀ {result t₁}, cloneOrSync G src.cfg t d io = (result, t₁) →
      below t₁ p = below t p := fun hs => below_of_eq hs (cloneOrSync_below hd)
  unfold fetchGit
  repeat' split
  all_goals first
    | rfl
    | exact hsync ‹_›

end

end PowerManage.Remote
