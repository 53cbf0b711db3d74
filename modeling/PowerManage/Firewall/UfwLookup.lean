import PowerManage.Firewall.UfwHost

/-!
# Looking a rule up in ufw

A rule is known by the comment of its line.  `delete_of_found` is what the lookup and the deletion
after it come to: one entry with the comment is gone, and all others are where they were.
-/

namespace PowerManage.Firewall

open PathName Text Interaction List Option

theorem ufwParseStatus_of_contains {status : Str}
    (h : contains status "Status: inactive" = true) (ns : Str) :
    ufwParseStatus status ns = [] :=
  if_pos h

/-! ## Entries with a comment -/

/-- The entries that have the comment `c`. -/
def carrying (c : Str) (es : List UfwEntry) : List UfwEntry :=
  es.filter fun e => decide (e.comment = c)

variable {c id ns : Str} {es : List UfwEntry} {e : UfwEntry}

theorem carrying_append (c : Str) (es es' : List UfwEntry) :
    carrying c (es ++ es') = carrying c es ++ carrying c es' :=
  filter_append ..

theorem carrying_eq_nil : carrying c es = [] ↔ ∀ e ∈ es, e.comment ≠ c := by
  rw [carrying, filter_eq_nil_iff]
  simp only [decide_eq_true_eq]

theorem length_carrying_cons {pre post : List UfwEntry} (he : e.comment = c) :
    (carrying c (pre ++ e :: post)).length = (carrying c (pre ++ post)).length + 1 := by
  have hcons : carrying c (e :: post) = e :: carrying c post :=
    filter_cons_of_pos (decide_eq_true he)
  rw [carrying_append, carrying_append, hcons, length_append, length_append, length_cons, add_assoc]

theorem id_ufwParseToColumn (col : Str) (rule : Rule) :
    (ufwParseToColumn col rule).id = rule.id := by
  unfold ufwParseToColumn
  dsimp only
  repeat' split
  all_goals rfl

theorem UfwEntry.comment_of_parse {rule : Rule} (h : e.parse ns = some rule) :
    e.comment = ufwCommentIdentity ns rule.id := by
  obtain ⟨m, hm, hline⟩ := bind_eq_some_iff.mp h
  have hcomment : m.comment = e.comment := by
    unfold UfwEntry.seen at hm
    split at hm
    · obtain ⟨-, heq⟩ := ite_none_left_eq_some.mp hm
      cases heq
      rfl
    · cases hm
  unfold ufwParseLine at hline
  dsimp only at hline
  split at hline
  · rename_i hstart
    have hid : rule.id = m.comment.drop (ns ++ ":").length := by
      split at hline <;> cases hline <;> exact id_ufwParseToColumn _ _
    obtain ⟨t, ht⟩ := isPrefixOf_iff_prefix.mp hstart
    rw [← hcomment, hid, ← ht, drop_left]
    rfl
  · cases hline

/-! ## The lookup -/

namespace UfwHost

variable {st st' : UfwHost} {num : Int}

theorem entries_delete (h : st.delete num = some st') :
    st'.entries = st.entries.eraseIdx (num.toNat - 1) := by
  obtain ⟨-, h⟩ := ite_none_right_eq_some.mp h
  split at h
  · rename_i hlt
    cases h
    exact (eraseIdx_append_of_lt_length hlt _).symm
  · rename_i hge
    cases h
    exact (eraseIdx_append_of_length_le (not_lt.mp hge) _).symm

theorem status_of_active (h : st.active = true) :
    st.status = Exec.stdout (statusText st.entries) := if_pos h

theorem active_of_found (h : ufwFindRuleNumber st.status ns id = some num) : st.active = true := by
  by_contra hoff
  rw [status, if_neg hoff] at h
  cases h

/-- What is left when a rule has been looked up and what was found is deleted. -/
def cleared (st : UfwHost) (ns id : Str) : UfwHost :=
  ((ufwFindRuleNumber st.status ns id).bind st.delete).getD st

theorem cleared_of_none (h : ufwFindRuleNumber st.status ns id = none) : st.cleared ns id = st := by
  rw [cleared, h]
  rfl

theorem delete_of_found (h : ufwFindRuleNumber st.status ns id = some num) :
    st.delete num = some (st.cleared ns id) ∧
      ∃ pre e post, st.entries = pre ++ e :: post ∧ num.toNat - 1 = pre.length ∧
        e.comment = ufwCommentIdentity ns id ∧ (st.cleared ns id).entries = pre ++ post := by
  have hfind := h
  rw [status_of_active (active_of_found h)] at hfind
  obtain ⟨hnone, -⟩ | ⟨pre, e, post, heq, hfound, hsome⟩ := ufwFindRuleNumber_spec ns id st.entries
  · rw [hnone] at hfind
    cases hfind
  · obtain rfl := some_inj.mp (hsome.symm.trans hfind)
    have hlength : st.entries.length = pre.length + (post.length + 1) := by
      rw [heq, length_append, length_cons]
    obtain ⟨st', hdelete⟩ : ∃ st', st.delete ((pre.length + 1 : Nat) : Int) = some st' := by
      unfold delete
      rw [if_pos (by omega)]
      split <;> exact ⟨_, rfl⟩
    have hcleared : st.cleared ns id = st' := by
      rw [cleared, h, bind_some, hdelete, getD_some]
    have hindex : ((pre.length + 1 : Nat) : Int).toNat - 1 = pre.length := by omega
    refine ⟨by rw [hcleared, hdelete], pre, e, post, heq, hindex, hfound.2, ?_⟩
    rw [hcleared, entries_delete hdelete, hindex, heq, eraseIdx_append_of_length_le (le_refl _),
      Nat.sub_self, eraseIdx_cons_zero]

end UfwHost

/-! An active `ufw` without rules. -/

def emptyUfw : UfwHost := ⟨true, true, [], []⟩

end PowerManage.Firewall
