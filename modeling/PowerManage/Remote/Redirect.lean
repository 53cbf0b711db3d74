import PowerManage.Remote.Http

/-!
# Redirects

`redirectPolicy`, the `CheckRedirect` of every client of the package, and what a client sends under
it.  The client asks it before each hop, with the requests that have been sent; a hop that it refuses
is the end, and so is one to a scheme that the transport does not know.  What an origin answers can
make any sequence of targets.

The check looks at two neighbouring requests.  What holds of all requests (`Kept`) is kept by every
hop (`Kept.hop`) and so by every chain of them: **`redirects_kept`**.
-/

namespace PowerManage.Remote

open PathName Text List

/-- What `url.Parse` makes of a text. -/
structure URL where
  scheme : Str
  user : Bool
  host : Str
  path : Str
  fragment : Str
deriving DecidableEq

/-- Which redirects are followed. -/
inductive RedirectPolicy
  | sameOrigin
  | none
  | crossOrigin
  | other (n : Int)
deriving DecidableEq

def https : Str := "https"

def http : Str := "http"

/-- `parseHTTPURL`, given `url.Parse`. -/
def parseHTTPURL (parse : Str → Except Str URL) (raw : Str) :
    Except FetchError URL :=
  if trimSpace raw = [] then .error (.invalidConfig "url is empty")
  else if '\x00' ∈ raw ∨ '\n' ∈ raw ∨ '\r' ∈ raw then
    .error (.invalidConfig "url contains control characters")
  else
    match parse raw with
    | .error text => .error (.invalidConfig text)
    | .ok u =>
      if u.scheme = [] then .error (.invalidConfig "url is not absolute")
      else if u.scheme ≠ https ∧ u.scheme ≠ http then
        .error (.invalidConfig ("scheme " ++ quote u.scheme ++
          " not supported (https or http only)"))
      else if u.user then .error (.invalidConfig "url must not include userinfo")
      else if u.fragment ≠ [] then
        .error (.invalidConfig "url must not include a fragment")
      else if u.host = [] then .error (.invalidConfig "url has no host")
      else .ok u

def hopText (src dst : URL) : Str :=
  src.scheme ++ "://" ++ src.host ++ " -> " ++ dst.scheme ++ "://" ++ dst.host

/-- `redirectPolicy`: why the request is not sent after those before it, if so. -/
def redirectPolicy (p : RedirectPolicy) (req : URL) (via : List URL) : Option FetchError :=
  match via.getLast? with
  | Option.none => Option.none
  | some last =>
    if last.scheme = https ∧ req.scheme = http then
      some (.invalidConfig ("refusing scheme downgrade " ++ hopText last req))
    else
      match p with
      | .none =>
        some (.invalidConfig ("refusing redirect (policy: none) " ++ hopText last req))
      | .other n =>
        some (.invalidConfig ("unknown redirect policy " ++ decimalInt n))
      | .sameOrigin =>
        if req.scheme ≠ last.scheme ∨ req.host ≠ last.host then
          some (.invalidConfig ("refusing cross-origin redirect " ++ hopText last req))
        else if via.length ≥ 10 then some (.invalidConfig "stopped after 10 redirects")
        else Option.none
      | .crossOrigin =>
        if via.length ≥ 10 then some (.invalidConfig "stopped after 10 redirects")
        else Option.none

/-! ## The client -/

/-- The requests after a redirect, if it is followed. -/
def hop (p : RedirectPolicy) (sent : List URL) (target : URL) : Option (List URL) :=
  match redirectPolicy p target sent with
  | some _ => Option.none
  | Option.none =>
    if target.scheme = https ∨ target.scheme = http then some (sent ++ [target]) else Option.none

/-- The requests that a chain of answers leads to. -/
def followAll (p : RedirectPolicy) : List URL → List URL → List URL
  | sent, [] => sent
  | sent, target :: targets =>
    match hop p sent target with
    | some sent' => followAll p sent' targets
    | Option.none => sent

/-- The requests of a source with this URL, whose origin answers with these targets. -/
def requests (parse : Str → Except Str URL) (p : RedirectPolicy) (raw : Str)
    (targets : List URL) : List URL :=
  match parseHTTPURL parse raw with
  | .error _ => []
  | .ok first => followAll p [first] targets

/-! ## What holds of all requests -/

/-- No step from TLS to plain HTTP. -/
def NotDowngraded (a b : URL) : Prop := ¬(a.scheme = https ∧ b.scheme = http)

/-- What the requests of one download keep to. -/
structure Kept (p : RedirectPolicy) (sent : List URL) : Prop where
  scheme : ∀ u ∈ sent, u.scheme = https ∨ u.scheme = http
  none : p = .none → sent.length ≤ 1
  sameOrigin : p = .sameOrigin →
    ∀ u ∈ sent, ∀ v ∈ sent.head?, u.scheme = v.scheme ∧ u.host = v.host
  secure : sent.Pairwise NotDowngraded
  unknown : ∀ n, p = .other n → sent.length ≤ 1
  bounded : sent.length ≤ 10

variable {p : RedirectPolicy} {sent sent' targets : List URL} {target last : URL}

theorem hop_eq_some (hlast : sent.getLast? = some last) (h : hop p sent target = some sent') :
    sent' = sent ++ [target] ∧ (target.scheme = https ∨ target.scheme = http) ∧
      NotDowngraded last target ∧ sent.length < 10 ∧
      (p = .crossOrigin ∨
        p = .sameOrigin ∧ target.scheme = last.scheme ∧ target.host = last.host) := by
  unfold hop redirectPolicy at h
  rw [hlast] at h
  dsimp only at h
  by_cases hdown : last.scheme = https ∧ target.scheme = http
  · rw [if_pos hdown] at h
    cases h
  rw [if_neg hdown] at h
  cases p with
  | none => cases h
  | other n => cases h
  | sameOrigin =>
    by_cases horigin : target.scheme ≠ last.scheme ∨ target.host ≠ last.host
    · rw [if_pos horigin] at h
      cases h
    by_cases hten : sent.length ≥ 10
    · rw [if_neg horigin, if_pos hten] at h
      cases h
    rw [if_neg horigin, if_neg hten] at h
    rw [Option.ite_none_right_eq_some, Option.some_inj] at h
    rw [not_or, not_not, not_not] at horigin
    exact ⟨h.2.symm, h.1, hdown, by omega, .inr ⟨rfl, horigin⟩⟩
  | crossOrigin =>
    by_cases hten : sent.length ≥ 10
    · rw [if_pos hten] at h
      cases h
    rw [if_neg hten] at h
    rw [Option.ite_none_right_eq_some, Option.some_inj] at h
    exact ⟨h.2.symm, h.1, hdown, by omega, .inl rfl⟩

theorem Kept.secure_concat (hkept : Kept p sent) (hlast : sent.getLast? = some last)
    (htarget : NotDowngraded last target) : ∀ u ∈ sent, NotDowngraded u target := by
  rintro u hu ⟨husecure, hclear⟩
  obtain ⟨init, rfl⟩ := getLast?_eq_some_iff.mp hlast
  have hpairs := (pairwise_append.mp hkept.secure).2.2
  have hlastClear : last.scheme = http := by
    have hscheme := hkept.scheme last (by simp)
    exact hscheme.resolve_left fun hsecure => htarget ⟨hsecure, hclear⟩
  rcases mem_append.mp hu with hu | hu
  · exact hpairs u hu last (mem_singleton_self last) ⟨husecure, hlastClear⟩
  · rw [mem_singleton.mp hu] at husecure
    exact htarget ⟨husecure, hclear⟩

/-- **Every hop keeps it.** -/
theorem Kept.hop (hkept : Kept p sent) (hlast : sent.getLast? = some last)
    (h : hop p sent target = some sent') : Kept p sent' := by
  obtain ⟨rfl, hscheme, hsecure, hten, hpolicy⟩ := hop_eq_some hlast h
  have hmem : last ∈ sent := mem_of_getLast? hlast
  refine ⟨?_, ?_, ?_, ?_, ?_, ?_⟩
  · rw [forall_mem_append, forall_mem_singleton]
    exact ⟨hkept.scheme, hscheme⟩
  · rintro rfl
    simp at hpolicy
  · intro hsame u hu v hv
    obtain ⟨hs, hh⟩ : target.scheme = last.scheme ∧ target.host = last.host := by
      rcases hpolicy with hcross | ⟨-, horigin⟩
      · rw [hcross] at hsame
        cases hsame
      · exact horigin
    have hv' : v ∈ sent.head? := by
      rwa [head?_append_of_ne_nil _ (ne_nil_of_mem hmem)] at hv
    rcases mem_append.mp hu with hu | hu
    · exact hkept.sameOrigin hsame u hu v hv'
    · rw [mem_singleton.mp hu, hs, hh]
      exact hkept.sameOrigin hsame last hmem v hv'
  · rw [pairwise_append]
    refine ⟨hkept.secure, pairwise_singleton _ _, fun u hu w hw => ?_⟩
    rw [mem_singleton.mp hw]
    exact hkept.secure_concat hlast hsecure u hu
  · rintro n rfl
    simp at hpolicy
  · rw [length_append, length_singleton]
    omega

theorem Kept.followAll (hkept : Kept p sent) (hne : sent ≠ []) :
    Kept p (followAll p sent targets) := by
  induction targets generalizing sent with
  | nil => exact hkept
  | cons target targets ih =>
    have hlast := getLast?_eq_some_getLast hne
    rw [Remote.followAll]
    cases hhop : Remote.hop p sent target with
    | none => exact hkept
    | some sent' =>
      refine ih (hkept.hop hlast hhop) ?_
      rw [(hop_eq_some hlast hhop).1]
      simp

theorem scheme_of_parseHTTPURL {parse : Str → Except Str URL} {raw : Str}
    {u : URL} (h : parseHTTPURL parse raw = .ok u) : u.scheme = https ∨ u.scheme = http := by
  unfold parseHTTPURL at h
  split at h
  · cases h
  split at h
  · cases h
  cases hparse : parse raw with
  | error text =>
    rw [hparse] at h
    cases h
  | ok u' =>
    rw [hparse] at h
    dsimp only at h
    split at h
    · cases h
    split at h
    · cases h
    have hu : u' = u := by
      split at h
      · cases h
      split at h
      · cases h
      split at h
      · cases h
      cases h
      rfl
    rw [← hu]
    tauto

theorem kept_singleton {first : URL} (h : first.scheme = https ∨ first.scheme = http) :
    Kept p [first] where
  scheme := forall_mem_singleton.mpr h
  none _ := le_refl _
  sameOrigin _ u hu v hv := by
    rw [mem_singleton.mp hu]
    cases hv
    exact ⟨rfl, rfl⟩
  secure := pairwise_singleton _ _
  unknown _ _ := le_refl _
  bounded := by simp

/-- **Whatever an origin answers, the requests of a source keep to its policy:** none follows the
first without one that allows it, all are to its origin under the default, none is in the clear
after a secure one, and there are at most ten. -/
theorem redirects_kept (parse : Str → Except Str URL) (p : RedirectPolicy)
    (raw : Str) (targets : List URL) : Kept p (requests parse p raw targets) := by
  unfold requests
  cases hparse : parseHTTPURL parse raw with
  | error e => exact ⟨by simp, by simp, by simp, .nil, by simp, by simp⟩
  | ok first => exact (kept_singleton (scheme_of_parseHTTPURL hparse)).followAll (by simp)

end PowerManage.Remote
