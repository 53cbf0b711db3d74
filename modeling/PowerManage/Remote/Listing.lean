import PowerManage.Remote.S3

/-!
# Paging through a listing

How many requests `listObjects` sends.  After each page it has ended, or it has gathered some objects
and asks for the next page (`goesOn`); `gathered` is what it has when it sends a request, if it comes
to send it, over an endless supply of answers.

A listing ends by an error, by a page that says so, or by having too many objects.  A page without
objects brings none of these nearer, so an endpoint that keeps sending such pages is asked for ever
(`endless_listing`).
-/

namespace PowerManage.Remote

open List

abbrev Answers := Nat → Except Str Page

/-- The objects after a page, if the listing goes on with another request. -/
def goesOn (answer : Except Str Page) (all : List S3Object) : Option (List S3Object) :=
  match answer with
  | .error _ => none
  | .ok page =>
    if forbidden page.status then none
    else if page.status < 200 ∨ page.status ≥ 300 then none
    else
      match page.decoded with
      | .error _ => none
      | .ok parsed =>
        if (all ++ parsed.contents).length > maxPrefixObjects then none
        else if !parsed.isTruncated || parsed.nextContinuationToken = [] then none
        else some (all ++ parsed.contents)

/-- The objects that the listing has when it sends the request after `n` others, if it does. -/
def gathered (answers : Answers) : Nat → Option (List S3Object)
  | 0 => some []
  | n + 1 => (gathered answers n).bind (goesOn (answers n))

/-- The listing comes to request `n`. -/
def Sends (answers : Answers) (n : Nat) : Prop := (gathered answers n).isSome = true

instance (answers : Answers) (n : Nat) : Decidable (Sends answers n) :=
  inferInstanceAs (Decidable (_ = _))

/-- A page that asks to be followed by another has objects. -/
def HasObjects (answer : Except Str Page) : Prop :=
  ∀ page, answer = .ok page → ∀ parsed, page.decoded = .ok parsed →
    parsed.isTruncated = true → parsed.nextContinuationToken ≠ [] → parsed.contents ≠ []

variable {cfg : S3Config} {bucketURL : Str} {answer : Except Str Page}
  {all all' : List S3Object} {answers : Answers} {n : Nat}

theorem listObjects_cons (cfg : S3Config) (bucketURL : Str) (answer : Except Str Page)
    (all : List S3Object) :
    ∃ last, ∀ pages, listObjects cfg bucketURL (answer :: pages) all =
      (goesOn answer all).elim last (listObjects cfg bucketURL pages) := by
  unfold goesOn
  cases answer with
  | error text => exact ⟨_, fun _ => rfl⟩
  | ok page =>
    simp only [listObjects]
    split_ifs
    · exact ⟨_, fun _ => rfl⟩
    · exact ⟨_, fun _ => rfl⟩
    cases page.decoded with
    | error text => exact ⟨_, fun _ => rfl⟩
    | ok parsed =>
      dsimp only
      split_ifs
      · exact ⟨_, fun _ => rfl⟩
      · exact ⟨_, fun _ => rfl⟩
      · exact ⟨.ok [], fun _ => rfl⟩

theorem listObjects_of_goesOn (h : goesOn answer all = some all')
    (pages : List (Except Str Page)) :
    listObjects cfg bucketURL (answer :: pages) all = listObjects cfg bucketURL pages all' := by
  obtain ⟨last, hcons⟩ := listObjects_cons cfg bucketURL answer all
  rw [hcons, h]
  rfl

/-- **`listObjects` over the answers has what `gathered` says when it comes to a request.** -/
theorem listObjects_gathered (h : gathered answers n = some all)
    (pages : List (Except Str Page)) :
    listObjects cfg bucketURL ((range n).map answers ++ pages) [] =
      listObjects cfg bucketURL pages all := by
  induction n generalizing all pages with
  | zero =>
    cases h
    rfl
  | succ n ih =>
    obtain ⟨before, hbefore, hon⟩ := Option.bind_eq_some_iff.mp h
    rw [range_succ, map_append, append_assoc, map_singleton,
      singleton_append, ih hbefore, listObjects_of_goesOn hon]

theorem goesOn_length (h : goesOn answer all = some all') (hobjects : HasObjects answer) :
    all.length < all'.length ∧ all'.length ≤ maxPrefixObjects := by
  unfold goesOn at h
  cases answer with
  | error text => cases h
  | ok page =>
    dsimp only at h
    split at h
    · cases h
    split at h
    · cases h
    cases hdecoded : page.decoded with
    | error text =>
      rw [hdecoded] at h
      cases h
    | ok parsed =>
      rw [hdecoded] at h
      dsimp only at h
      split at h
      · cases h
      next hmany =>
      split at h
      · cases h
      next hlast =>
      cases h
      rw [Bool.or_eq_true, not_or, Bool.not_eq_true', Bool.not_eq_false, decide_eq_true_eq] at hlast
      have hpos : 0 < parsed.contents.length :=
        length_pos_iff.mpr (hobjects page rfl parsed hdecoded hlast.1 hlast.2)
      rw [length_append] at hmany ⊢
      omega

theorem le_of_gathered (hobjects : ∀ i, HasObjects (answers i))
    (h : gathered answers n = some all) : n ≤ all.length := by
  induction n generalizing all with
  | zero => exact Nat.zero_le _
  | succ n ih =>
    obtain ⟨before, hbefore, hon⟩ := Option.bind_eq_some_iff.mp h
    have hlength := goesOn_length hon (hobjects n)
    have hn := ih hbefore
    omega

/-- **If every page that asks to be followed by another has an object, a listing sends at most
`maxPrefixObjects + 1` requests.** -/
theorem requests_le (answers : Answers) (hobjects : ∀ i, HasObjects (answers i)) (n : Nat)
    (h : Sends answers n) : n < maxPrefixObjects + 1 := by
  obtain ⟨all, hall⟩ := Option.isSome_iff_exists.mp h
  have hn := le_of_gathered hobjects hall
  cases n with
  | zero => omega
  | succ n =>
    obtain ⟨before, -, hon⟩ := Option.bind_eq_some_iff.mp hall
    have hlength := (goesOn_length hon (hobjects n)).2
    omega

def emptyPage : Page := ⟨200, .ok ⟨true, "next", []⟩⟩

/-- There is no number of requests that an endpoint cannot make a listing exceed. -/
theorem endless_listing : ¬∃ bound, ∀ (answers : Answers) (n : Nat), Sends answers n → n < bound := by
  rintro ⟨bound, hbound⟩
  have hsends : ∀ n, gathered (fun _ => .ok emptyPage) n = some [] := by
    intro n
    induction n with
    | zero => rfl
    | succ n ih =>
      rw [gathered, ih]
      decide
  have hsent : Sends (fun _ => .ok emptyPage) bound := by
    rw [Sends, hsends]
    rfl
  exact absurd (hbound _ bound hsent) (lt_irrefl bound)

def fullPage : Page := ⟨200, .ok ⟨true, "next", [⟨"docs/a", []⟩]⟩⟩

/-- An endpoint that repeats one object is asked twice, and then again. -/
theorem repeated_object : Sends (fun _ => .ok fullPage) 2 ∧ 2 < maxPrefixObjects + 1 := by
  have hobjects : ∀ i : Nat, HasObjects ((fun _ => .ok fullPage : Answers) i) := by
    intro i page hpage parsed hparsed
    cases hpage
    cases hparsed
    exact fun _ _ => by decide
  exact ⟨by decide, requests_le _ hobjects 2 (by decide)⟩

end PowerManage.Remote
