import PowerManage.Client.Pending

/-!
# Correlated requests get their own answer or a definite failure

What the client's callers, readers and `Close` keep up between them is stated per request id
(`Entry`): an entry is in the map exactly between `registerPending` and either `unregisterPending`
or `Close`; a request that is on a stream is on the current one, or its channel has been closed;
what the channel holds is all that was ever handed to the request until the caller takes it.  Every
step keeps this for every id (`step_entry`), and `correlated_requests` reads the guarantees to
callers off it.

`deliverPending` looks the channel up under `pendingMu` and sends after releasing it.  A `Close` in
between closes the channel under its hands, which `receiver_crash` runs.
-/

namespace PowerManage.Client.Pending

open Transition List Function

/-! ## What holds for one request -/

def handedTo (id : String) (tr : List Event) : List Frame :=
  tr.filterMap fun e => match e with
    | .handed i f => if i = id then some f else none
    | _ => none

@[simp] theorem handedTo_append (id : String) (tr tr' : List Event) :
    handedTo id (tr ++ tr') = handedTo id tr ++ handedTo id tr' := filterMap_append

def Phase.stream? : Phase → Option Nat
  | .sending st | .waiting st => some st
  | _ => none

def Phase.result? : Phase → Option Result
  | .leaving r | .inUnregister r | .returned r => some r
  | _ => none

def Phase.listed : Phase → Bool
  | .registered | .sending _ | .waiting _ | .leaving _ | .inUnregister _ => true
  | _ => false

def Phase.early : Phase → Bool
  | .fresh | .registering | .inRegister => true
  | _ => false

/-- The stream a caller would be sending on: none once `Close` has let go of the map. -/
def State.live (s : State) : Option Nat := if s.closer = .closing then none else s.stream

/-- What holds between a request, its entry in the map and its channel. -/
structure Entry (P : Config) (s : State) (id : String) : Prop where
  isOpen : id ∈ s.pendingRequests → (s.chan id).closed = false
  kept : (s.requests id).phase.listed = true → id ∈ s.pendingRequests ∨ (s.chan id).closed = true
  listed : id ∈ s.pendingRequests → (s.requests id).phase.listed = true
  notEarly : (s.chan id).closed = true → (s.requests id).phase.early = false
  /-- Until the caller takes it, the channel holds all that was ever handed to the request. -/
  unread : (s.requests id).phase.result? = none →
    handedTo id s.trace = (s.chan id).buf.toList
  filled : ∀ f, (s.chan id).buf = some f → f ∈ handedTo id s.trace
  honest : ∀ r, (s.requests id).phase.result? = some (.response r) →
    ∃ f, (handedTo id s.trace).head? = some f ∧
      decode P (s.requests id).method (some f.msg) = .response r
  own : ∀ f ∈ handedTo id s.trace, f.msg.id = id
  onStream : ∀ st, (s.requests id).phase.stream? = some st →
    (s.chan id).closed = true ∨ s.live = some st

theorem entry_init (P : Config) (id : String) : Entry P init id where
  isOpen := fun h => absurd h (Finset.notMem_empty id)
  kept := nofun
  listed := fun h => absurd h (Finset.notMem_empty id)
  notEarly := nofun
  unread := fun _ => rfl
  filled := nofun
  honest := nofun
  own := nofun
  onStream := nofun

variable {a : Action} {f : Frame} {src : Source} {found : Bool} {n : Nat} {as : List Action}

section

variable {P : Config} {s t : State} {id : String}

theorem Entry.congr (h : Entry P s id) (hreq : t.requests id = s.requests id)
    (hchan : t.chan id = s.chan id) (hpend : id ∈ t.pendingRequests ↔ id ∈ s.pendingRequests)
    (htrace : handedTo id t.trace = handedTo id s.trace)
    (hlive : ∀ st, (s.requests id).phase.stream? = some st →
      (s.chan id).closed = true ∨ t.live = some st) : Entry P t id where
  isOpen := by rw [hpend, hchan]; exact h.isOpen
  kept := by rw [hpend, hchan, hreq]; exact h.kept
  listed := by rw [hpend, hreq]; exact h.listed
  notEarly := by rw [hchan, hreq]; exact h.notEarly
  unread := by rw [hchan, hreq, htrace]; exact h.unread
  filled := by rw [hchan, htrace]; exact h.filled
  honest := by rw [hreq, htrace]; exact h.honest
  own := by rw [htrace]; exact h.own
  onStream := by rw [hchan, hreq]; exact hlive

/-! ## Steps of a caller -/

theorem caller_frame {a : CallerAct} (h : s.caller P id a = some t) :
    t.trace = s.trace ∧ t.stream = s.stream ∧ t.closer = s.closer ∧
      t.deliverers = s.deliverers ∧ t.nextSeq = s.nextSeq ∧
      ∀ i, i ≠ id → t.requests i = s.requests i ∧ t.chan i = s.chan i ∧
        (i ∈ t.pendingRequests ↔ i ∈ s.pendingRequests) := by
  unfold State.caller at h
  split at h <;> (try split at h) <;> (try split at h) <;> cases h <;>
    simp +contextual [State.setPhase, State.setChan, update_of_ne]

@[simp] theorem setPhase_requests_self (p : Phase) :
    (s.setPhase id p).requests id = ⟨(s.requests id).method, p⟩ := update_self ..

/-- The caller may only forget that it has not read its channel, and get onto a stream that is live.
-/
theorem Entry.advance (h : Entry P s id) {p : Phase}
    (hlisted : p.listed = (s.requests id).phase.listed)
    (hearly : p.early = true → (s.requests id).phase.early = true)
    (hresult : p.result? = none → (s.requests id).phase.result? = none)
    (hresponse : ∀ r, p.result? = some (.response r) →
      (s.requests id).phase.result? = some (.response r))
    (hstream : ∀ st, p.stream? = some st →
      (s.requests id).phase.stream? = some st ∨ s.live = some st) (mu : Bool) :
    Entry P { s.setPhase id p with pendingMu := mu } id where
  isOpen := h.isOpen
  kept := by
    rw [setPhase_requests_self, hlisted]
    exact h.kept
  listed := by
    rw [setPhase_requests_self, hlisted]
    exact h.listed
  notEarly := by
    rw [setPhase_requests_self]
    intro hc
    have hne := h.notEarly hc
    cases he : p.early with
    | false => rfl
    | true => rw [hearly he] at hne; cases hne
  unread := by
    rw [setPhase_requests_self]
    exact fun hr => h.unread (hresult hr)
  filled := h.filled
  honest := by
    rw [setPhase_requests_self]
    exact fun r hr => h.honest r (hresponse r hr)
  own := h.own
  onStream := by
    rw [setPhase_requests_self]
    intro st hst
    rcases hstream st hst with hold | hlive
    · exact h.onStream st hold
    · exact .inr hlive

theorem Entry.start (h : Entry P s id) (hp : (s.requests id).phase = .fresh) (k : ResponseKind)
    {p : Phase} (hnew : p = .registering ∨ ∃ e, p = .returned (.failure e)) :
    Entry P { s with requests := update s.requests id ⟨k, p⟩ } id := by
  have hout : id ∉ s.pendingRequests := fun hin => by simpa [hp, Phase.listed] using h.listed hin
  have hopen : (s.chan id).closed = false := by
    cases hc : (s.chan id).closed with
    | false => rfl
    | true => simpa [hp, Phase.early] using h.notEarly hc
  have hempty := h.unread (by rw [hp]; rfl)
  refine ⟨h.isOpen, ?_, fun hin => absurd hin hout, fun hc => ?_, fun _ => hempty,
    h.filled, ?_, h.own, ?_⟩
  · rcases hnew with rfl | ⟨e, rfl⟩ <;> simp [Phase.listed]
  · rw [hopen] at hc; cases hc
  · rcases hnew with rfl | ⟨e, rfl⟩ <;> simp [Phase.result?]
  · rcases hnew with rfl | ⟨e, rfl⟩ <;> simp [Phase.stream?]

theorem Entry.register (h : Entry P s id) (hp : (s.requests id).phase = .inRegister) :
    Entry P { s.setPhase id .registered with
      pendingMu := false, pendingRequests := insert id s.pendingRequests } id := by
  have hopen : (s.chan id).closed = false := by
    cases hc : (s.chan id).closed with
    | false => rfl
    | true => simpa [hp, Phase.early] using h.notEarly hc
  refine ⟨fun _ => hopen, fun _ => .inl (Finset.mem_insert_self ..), fun _ => ?_, fun _ => ?_,
    fun _ => h.unread (by rw [hp]; rfl), h.filled, ?_, h.own, ?_⟩ <;>
    simp [Phase.listed, Phase.early, Phase.result?, Phase.stream?]

theorem Entry.unregister (h : Entry P s id) {r : Result}
    (hp : (s.requests id).phase = .inUnregister r) :
    Entry P { s.setPhase id (.returned r) with
      pendingMu := false, pendingRequests := s.pendingRequests.erase id } id := by
  have hout : id ∉ s.pendingRequests.erase id := Finset.notMem_erase id _
  refine ⟨fun hin => absurd hin hout, ?_, fun hin => absurd hin hout, fun _ => ?_, ?_, h.filled, ?_,
    h.own, ?_⟩
  · simp [Phase.listed]
  · simp [Phase.early]
  · simp [Phase.result?]
  · rw [setPhase_requests_self]
    exact fun r' hr => h.honest r' (by rw [hp]; exact hr)
  · simp [Phase.stream?]

theorem Entry.take (h : Entry P s id) {st : Nat} (hp : (s.requests id).phase = .waiting st)
    (hbuf : (s.chan id).buf = some f) :
    Entry P ((s.setPhase id (.leaving (decode P (s.requests id).method (some f.msg)))).setChan id
      ⟨none, (s.chan id).closed⟩) id := by
  have hhanded : handedTo id s.trace = [f] := by
    rw [h.unread (by rw [hp]; rfl), hbuf]; rfl
  have hlisted := h.kept (by rw [hp]; rfl)
  refine ⟨?_, fun _ => ?_, fun _ => ?_, fun _ => ?_, ?_, ?_, ?_, h.own, ?_⟩
  · simpa [State.setChan, State.setPhase] using h.isOpen
  · simpa [State.setChan, State.setPhase] using hlisted
  · simp [State.setChan, Phase.listed]
  · simp [State.setChan, Phase.early]
  · simp [State.setChan, Phase.result?]
  · simp [State.setChan]
  · intro r hr
    refine ⟨f, ?_, ?_⟩
    · change (handedTo id s.trace).head? = some f
      rw [hhanded]; rfl
    · simpa [State.setChan, Phase.result?] using hr
  · simp [State.setChan, Phase.stream?]

theorem caller_own (h : Entry P s id) {a : CallerAct} (ht : s.caller P id a = some t) :
    Entry P t id := by
  unfold State.caller at ht
  split at ht
  case h_1 k rotations hp =>
    cases ht
    refine h.start hp k ?_
    split
    · exact .inr ⟨_, rfl⟩
    · exact .inl rfl
  case h_2 hp =>
    split at ht <;> cases ht
    refine h.advance ?_ ?_ ?_ ?_ ?_ true <;>
      simp [hp, Phase.listed, Phase.early, Phase.result?, Phase.stream?]
  case h_3 hp => cases ht; exact h.register hp
  case h_4 hp =>
    split at ht
    case isTrue hidle =>
      cases ht
      have hlive : s.live = s.stream := if_neg (by rw [hidle]; nofun)
      cases hst : s.stream <;> refine h.advance ?_ ?_ ?_ ?_ ?_ s.pendingMu <;>
        simp [hp, hlive, hst, Phase.listed, Phase.early, Phase.result?, Phase.stream?]
    case isFalse => cases ht
  case h_5 st hp | h_6 err st hp | h_8 err st hp =>
    cases ht
    refine h.advance ?_ ?_ ?_ ?_ ?_ s.pendingMu <;>
      simp +contextual [hp, Phase.listed, Phase.early, Phase.result?, Phase.stream?]
  case h_7 st hp =>
    split at ht
    case h_1 f hbuf => cases ht; exact h.take hp hbuf
    case h_2 =>
      split at ht <;> cases ht
      refine h.advance ?_ ?_ ?_ ?_ ?_ s.pendingMu <;>
        simp [hp, decode, Phase.listed, Phase.early, Phase.result?, Phase.stream?]
  case h_9 r hp =>
    split at ht <;> cases ht
    refine h.advance ?_ ?_ ?_ ?_ ?_ true <;>
      simp [hp, Phase.listed, Phase.early, Phase.result?, Phase.stream?]
  case h_10 r hp => cases ht; exact h.unregister hp
  case h_11 => cases ht

theorem caller_entry {i : String} (hi : Entry P s i) (h : Entry P s id) {a : CallerAct}
    (ht : s.caller P id a = some t) : Entry P t i := by
  by_cases heq : i = id
  · subst heq
    exact caller_own h ht
  obtain ⟨htrace, hstream, hcloser, -, -, hrest⟩ := caller_frame ht
  obtain ⟨hreq, hchan, hpend⟩ := hrest i heq
  refine hi.congr hreq hchan hpend (by rw [htrace]) fun st hst => ?_
  rw [State.live, hstream, hcloser]
  exact hi.onStream st hst

/-! ## Steps of the readers and of `Close` -/

theorem Entry.hand (h : Entry P s f.msg.id) (hbuf : (s.chan f.msg.id).buf = none) :
    Entry P ((s.setChan f.msg.id ⟨some f, (s.chan f.msg.id).closed⟩).emit (.handed f.msg.id f))
      f.msg.id := by
  have htrace : handedTo f.msg.id (s.trace ++ [.handed f.msg.id f]) =
      handedTo f.msg.id s.trace ++ [f] := by simp [handedTo]
  refine ⟨?_, ?_, h.listed, ?_, fun hr => ?_, ?_, fun r hr => ?_, fun g hg => ?_, ?_⟩
  · simpa [State.setChan, State.emit] using h.isOpen
  · simpa [State.setChan, State.emit] using h.kept
  · simpa [State.setChan, State.emit] using h.notEarly
  · have hempty : handedTo f.msg.id s.trace = [] := by rw [h.unread hr, hbuf]; rfl
    simp [State.setChan, State.emit, htrace, hempty]
  · simp [State.setChan, State.emit, htrace]
  · obtain ⟨g, hg, hdec⟩ := h.honest r hr
    refine ⟨g, ?_, hdec⟩
    simp only [State.setChan, State.emit, htrace, head?_append, hg, Option.some_or]
  · simp only [State.setChan, State.emit, htrace, mem_append, mem_singleton] at hg
    rcases hg with hg | rfl
    · exact h.own g hg
    · rfl
  · intro st hst
    rcases h.onStream st hst with hclosed | hlive
    · exact .inl (by simpa [State.setChan, State.emit] using hclosed)
    · exact .inr hlive

/-- Of the trace, entries depend only on what was handed out. -/
theorem Entry.frame (h : Entry P s id) (d : Nat → Deliverer) (mu : Bool) (k : Nat) (c : Bool)
    {tr : List Event} (htr : handedTo id tr = handedTo id s.trace) :
    Entry P { s with deliverers := d, pendingMu := mu, nextSeq := k, crashed := c, trace := tr }
      id :=
  h.congr rfl rfl Iff.rfl htr fun st hst => h.onStream st hst

theorem deliver_entry (hf : Entry P s f.msg.id) (h : Entry P s id) :
    Entry P (s.deliver P src f found) id := by
  have hsame : ∀ e, handedTo id [e] = [] → ∀ c, Entry P { s.emit e with crashed := c } id :=
    fun e he c => h.frame s.deliverers s.pendingMu s.nextSeq c
      ((handedTo_append ..).trans (by rw [he, append_nil]))
  unfold State.deliver
  split
  · split
    · exact hsame _ rfl _
    · split
      · rename_i hbuf
        by_cases hid : id = f.msg.id
        · subst hid
          exact hf.hand hbuf
        · refine h.congr rfl (update_of_ne hid _ _) Iff.rfl ?_ fun st hst =>
            h.onStream st hst
          simp [State.setChan, State.emit, handedTo, Ne.symm hid]
      · exact hsame _ rfl s.crashed
  · split
    · exact hsame _ rfl s.crashed
    · exact h

theorem deliverer_entry (h : ∀ i, Entry P s i) {a : DelivererAct}
    (ht : s.deliverer P n a = some t) : Entry P t id := by
  unfold State.deliverer at ht
  split at ht
  · cases ht
    exact (h id).frame _ s.pendingMu (s.nextSeq + 1) s.crashed rfl
  · split at ht <;> cases ht
    exact (h id).frame _ true s.nextSeq s.crashed rfl
  · cases ht
    exact (h id).frame _ false s.nextSeq s.crashed (by simp [State.setDeliverer, State.emit, handedTo])
  · cases ht
    have hset : ∀ i, Entry P (s.setDeliverer n .idle) i :=
      fun i => (h i).frame _ s.pendingMu s.nextSeq s.crashed rfl
    exact deliver_entry (hset _) (hset id)
  · cases ht

theorem Entry.cancel (h : Entry P s id) (hin : id ∈ s.pendingRequests) :
    Entry P { s.setChan id ⟨(s.chan id).buf, true⟩ with
      pendingRequests := s.pendingRequests.erase id } id := by
  have hout : id ∉ s.pendingRequests.erase id := Finset.notMem_erase id _
  have hclosed : ((s.setChan id ⟨(s.chan id).buf, true⟩).chan id).closed = true := by
    simp [State.setChan]
  refine ⟨fun hi => absurd hi hout, fun _ => .inr hclosed, fun hi => absurd hi hout, fun _ => ?_,
    ?_, ?_, h.honest, h.own, fun _ _ => .inl hclosed⟩
  · have hl := h.listed hin
    simp only [State.setChan]
    cases hp : (s.requests id).phase <;> simp_all [Phase.listed, Phase.early]
  · simpa [State.setChan] using h.unread
  · simpa [State.setChan] using h.filled

theorem close_entry (h : ∀ i, Entry P s i) {a : CloserAct} (ht : s.close a = some t) :
    Entry P t id := by
  unfold State.close at ht
  split at ht
  case h_1 hc =>
    cases ht
    split
    · exact h id
    · refine (h id).congr rfl rfl Iff.rfl rfl fun st hst => ?_
      simpa [State.live, hc] using (h id).onStream st hst
  case h_2 hc =>
    split at ht <;> cases ht
    refine (h id).congr rfl rfl Iff.rfl rfl fun st hst => ?_
    simpa [State.live, hc] using (h id).onStream st hst
  case h_3 i hc =>
    split at ht
    · rename_i hin
      cases ht
      by_cases hid : id = i
      · subst hid
        exact (h id).cancel hin
      · refine (h id).congr rfl (update_of_ne hid _ _) ?_ rfl fun st hst =>
          (h id).onStream st hst
        simp [hid]
    · cases ht
  case h_4 hc =>
    split at ht
    · rename_i hempty
      cases ht
      -- the map is empty, so whoever is on a stream has had its channel closed
      refine (h id).congr rfl rfl Iff.rfl rfl fun st hst => .inl ?_
      have hlisted : (s.requests id).phase.listed = true := by
        cases hp : (s.requests id).phase <;> simp_all [Phase.stream?, Phase.listed]
      simpa [hempty] using (h id).kept hlisted
    · cases ht
  case h_5 hc =>
    cases ht
    refine (h id).congr rfl rfl Iff.rfl rfl fun st hst => ?_
    have := (h id).onStream st hst
    simpa [State.live, hc] using this
  case h_6 => cases ht

theorem connect_entry (h : Entry P s id) (ht : s.connect = some t) : Entry P t id := by
  unfold State.connect at ht
  split at ht
  case isFalse => cases ht
  case isTrue hc =>
    cases ht
    split
    · exact h
    rename_i hst
    refine h.congr rfl rfl Iff.rfl rfl fun st hst' => ?_
    -- there was no stream to be on
    rcases h.onStream st hst' with hclosed | hlive
    · exact .inl hclosed
    · rw [State.live, if_neg (by rw [hc]; nofun)] at hlive
      simp [hlive] at hst

theorem step_eq_some (ht : step P s a = some t) :
    s.crashed = false ∧
      match a with
      | .caller id a => s.caller P id a = some t
      | .deliverer n a => s.deliverer P n a = some t
      | .closer a => s.close a = some t
      | .connect => s.connect = some t := by
  unfold step at ht
  split at ht
  · cases ht
  · rename_i hcrash
    refine ⟨by simpa using hcrash, ?_⟩
    cases a <;> exact ht

theorem step_entry (h : ∀ i, Entry P s i) (ht : step P s a = some t) : ∀ i, Entry P t i := by
  intro i
  have hact := (step_eq_some ht).2
  cases a with
  | caller id a => exact caller_entry (h i) (h id) hact
  | deliverer n a => exact deliverer_entry h hact
  | closer a => exact close_entry h hact
  | connect => exact connect_entry (h i) hact

theorem exec_entry (h : exec (step P) init as = some s) (i : String) : Entry P s i :=
  exec_induction (I := fun s => ∀ i, Entry P s i) (fun _ _ _ ht hs => step_entry hs ht) h
    (entry_init P) i

/-! ## Frames are looked up once -/

def Deliverer.frame? : Deliverer → Option Frame
  | .idle => none
  | .delivering _ f | .lookingUp _ f | .lookedUp _ f _ => some f

/-- Two readers never work on the same read, and each read is looked up at most once. -/
structure Readers (s : State) : Prop where
  fresh : ∀ n f, (s.deliverers n).frame? = some f → f.seq < s.nextSeq
  distinct : ∀ n n' f f', (s.deliverers n).frame? = some f → (s.deliverers n').frame? = some f' →
    f.seq = f'.seq → n = n'
  past : ∀ f b, Event.lookup f b ∈ s.trace → f.seq < s.nextSeq
  notYet : ∀ n src f, s.deliverers n = .delivering src f ∨ s.deliverers n = .lookingUp src f →
    ∀ g b, Event.lookup g b ∈ s.trace → g.seq ≠ f.seq
  lookedUp : ∀ n src f b, s.deliverers n = .lookedUp src f b → Event.lookup f b ∈ s.trace
  once : ∀ f b g b', Event.lookup f b ∈ s.trace → Event.lookup g b' ∈ s.trace →
    f.seq = g.seq → b = b'
  /-- `OnError` gets the frames whose lookup found nothing. -/
  onError : ∀ f, Event.onError f ∈ s.trace → Event.lookup f false ∈ s.trace

theorem readers_init : Readers init := by
  constructor <;> simp [init, Deliverer.frame?]

theorem Readers.congr (h : Readers s) (hd : t.deliverers = s.deliverers)
    (hn : t.nextSeq = s.nextSeq) (htr : t.trace = s.trace) : Readers t where
  fresh := by rw [hd, hn]; exact h.fresh
  distinct := by rw [hd]; exact h.distinct
  past := by rw [hn, htr]; exact h.past
  notYet := by rw [hd, htr]; exact h.notYet
  lookedUp := by rw [hd, htr]; exact h.lookedUp
  once := by rw [htr]; exact h.once
  onError := by rw [htr]; exact h.onError

theorem Readers.advance (h : Readers s) {d : Deliverer}
    (hframe : ∀ f, d.frame? = some f → (s.deliverers n).frame? = some f)
    (hlater : ∀ src f, d = .delivering src f ∨ d = .lookingUp src f →
      s.deliverers n = .delivering src f ∨ s.deliverers n = .lookingUp src f)
    (hlooked : ∀ src f b, d = .lookedUp src f b → Event.lookup f b ∈ s.trace) :
    Readers (s.setDeliverer n d) := by
  have hset : ∀ m f, ((s.setDeliverer n d).deliverers m).frame? = some f →
      (s.deliverers m).frame? = some f := by
    intro m f hm
    by_cases hmn : m = n
    · subst hmn
      exact hframe f (by simpa [State.setDeliverer] using hm)
    · simpa [State.setDeliverer, hmn] using hm
  refine ⟨fun m f hm => h.fresh m f (hset m f hm),
    fun m m' f f' hm hm' => h.distinct m m' f f' (hset m f hm) (hset m' f' hm'), h.past,
    fun m src f hm => ?_, fun m src f b hm => ?_, h.once, h.onError⟩
  · by_cases hmn : m = n
    · subst hmn
      exact h.notYet m src f (hlater src f (by simpa [State.setDeliverer] using hm))
    · exact h.notYet m src f (by simpa [State.setDeliverer, hmn] using hm)
  · by_cases hmn : m = n
    · subst hmn
      exact hlooked src f b (by simpa [State.setDeliverer] using hm)
    · exact h.lookedUp m src f b (by simpa [State.setDeliverer, hmn] using hm)

theorem Readers.emit (h : Readers s) {e : Event} (hlookup : ∀ f b, e ≠ .lookup f b)
    (herror : ∀ f, e = .onError f → Event.lookup f false ∈ s.trace) : Readers (s.emit e) := by
  have hold : ∀ {f b}, Event.lookup f b ∈ (s.emit e).trace → Event.lookup f b ∈ s.trace := by
    intro f b hmem
    rcases mem_append.mp hmem with hmem | hmem
    · exact hmem
    · exact absurd (mem_singleton.mp hmem).symm (hlookup f b)
  refine ⟨h.fresh, h.distinct, fun f b hm => h.past f b (hold hm),
    fun n src f hn g b hm => h.notYet n src f hn g b (hold hm),
    fun n src f b hn => mem_append_left _ (h.lookedUp n src f b hn),
    fun f b g b' hf hg => h.once f b g b' (hold hf) (hold hg), fun f hf => ?_⟩
  refine mem_append_left _ ?_
  rcases mem_append.mp hf with hf | hf
  · exact h.onError f hf
  · exact herror f (mem_singleton.mp hf).symm

theorem Readers.receive (h : Readers s) {m : ServerMessage} :
    Readers { s.setDeliverer n (.delivering src ⟨s.nextSeq, m⟩) with
      nextSeq := s.nextSeq + 1 } := by
  have hcase : ∀ k f, ((s.setDeliverer n (.delivering src ⟨s.nextSeq, m⟩)).deliverers k).frame?
      = some f → (k = n ∧ f.seq = s.nextSeq) ∨ (s.deliverers k).frame? = some f := by
    intro k f hk
    by_cases hkn : k = n
    · subst hkn
      simp only [State.setDeliverer, update_self, Deliverer.frame?,
        Option.some.injEq] at hk
      exact .inl ⟨rfl, hk ▸ rfl⟩
    · exact .inr (by simpa [State.setDeliverer, hkn] using hk)
  refine ⟨fun k f hk => ?_, fun k k' f f' hk hk' hseq => ?_,
    fun f b hf => (h.past f b hf).trans (Nat.lt_succ_self _), fun k src' f hk g b hg => ?_,
    fun k src' f b hk => ?_, h.once, h.onError⟩
  · rcases hcase k f hk with ⟨-, hseq⟩ | hold
    · simp [hseq]
    · exact (h.fresh k f hold).trans (Nat.lt_succ_self _)
  · rcases hcase k f hk with ⟨rfl, hf⟩ | hold <;> rcases hcase k' f' hk' with ⟨rfl, hf'⟩ | hold'
    · rfl
    · have := h.fresh k' f' hold'
      omega
    · have := h.fresh k f hold
      omega
    · exact h.distinct k k' f f' hold hold' hseq
  · by_cases hkn : k = n
    · subst hkn
      have hlt := h.past g b hg
      simp only [State.setDeliverer, update_self, Deliverer.delivering.injEq,
        reduceCtorEq, or_false] at hk
      rw [← hk.2]
      exact ne_of_lt hlt
    · exact h.notYet k src' f (by simpa [State.setDeliverer, hkn] using hk) g b hg
  · by_cases hkn : k = n
    · subst hkn
      simp [State.setDeliverer] at hk
    · exact h.lookedUp k src' f b (by simpa [State.setDeliverer, hkn] using hk)

theorem Readers.lookup (h : Readers s) (hn : s.deliverers n = .lookingUp src f) (b : Bool) :
    Readers ((s.emit (.lookup f b)).setDeliverer n (.lookedUp src f b)) := by
  have hmem : ∀ {g c}, Event.lookup g c ∈ s.trace ++ [.lookup f b] →
      Event.lookup g c ∈ s.trace ∨ (g = f ∧ c = b) := by simp
  have hne := h.notYet n src f (.inr hn)
  have hframe : (s.deliverers n).frame? = some f := by rw [hn]; rfl
  have hset : ∀ m g, (((s.emit (.lookup f b)).setDeliverer n (.lookedUp src f b)).deliverers
      m).frame? = some g → (s.deliverers m).frame? = some g := by
    intro m g hm
    by_cases hmn : m = n
    · subst hmn
      rw [hframe]
      simpa [State.setDeliverer, Deliverer.frame?] using hm
    · simpa [State.setDeliverer, State.emit, hmn] using hm
  refine ⟨fun m g hm => h.fresh m g (hset m g hm),
    fun m m' g g' hm hm' => h.distinct m m' g g' (hset m g hm) (hset m' g' hm'),
    fun g c hg => ?_, fun m src' g hm g' c hg' => ?_, fun m src' g c hm => ?_,
    fun g c g' c' hg hg' hseq => ?_, fun g hg => ?_⟩
  · rcases hmem hg with hg | ⟨rfl, -⟩
    · exact h.past g c hg
    · exact h.fresh n g hframe
  · by_cases hmn : m = n
    · subst hmn
      simp [State.setDeliverer] at hm
    · have hm' : s.deliverers m = .delivering src' g ∨ s.deliverers m = .lookingUp src' g := by
        simpa [State.setDeliverer, State.emit, hmn] using hm
      rcases hmem hg' with hg' | ⟨rfl, -⟩
      · exact h.notYet m src' g hm' g' c hg'
      · intro hseq
        refine hmn (h.distinct m n g g' ?_ hframe hseq.symm)
        rcases hm' with hm' | hm' <;> rw [hm'] <;> rfl
  · by_cases hmn : m = n
    · subst hmn
      simp only [State.setDeliverer, update_self] at hm
      obtain ⟨-, rfl, rfl⟩ := hm
      exact mem_append_right _ (mem_singleton.mpr rfl)
    · exact mem_append_left _ (h.lookedUp m src' g c (by
        simpa [State.setDeliverer, State.emit, hmn] using hm))
  · rcases hmem hg with hold | ⟨rfl, rfl⟩ <;> rcases hmem hg' with hold' | ⟨rfl, rfl⟩
    · exact h.once g c g' c' hold hold' hseq
    · exact absurd hseq (hne g c hold)
    · exact absurd hseq.symm (hne g' c' hold')
    · rfl
  · refine mem_append_left _ (h.onError g ?_)
    simpa [State.setDeliverer, State.emit] using hg

theorem deliver_readers (h : Readers s) (hf : Event.lookup f found ∈ s.trace) :
    Readers (s.deliver P src f found) := by
  unfold State.deliver
  split
  · split
    · exact (h.emit (e := .sendOnClosed src f) nofun nofun).congr rfl rfl rfl
    · split
      · exact (h.emit (e := .handed f.msg.id f) nofun nofun).congr rfl rfl rfl
      · exact h.emit nofun nofun
  · rename_i hfound
    rw [Bool.not_eq_true] at hfound
    subst hfound
    split
    · refine h.emit nofun fun g hg => ?_
      cases hg
      exact hf
    · exact h

theorem deliverer_readers (h : Readers s) {a : DelivererAct} (ht : s.deliverer P n a = some t) :
    Readers t := by
  unfold State.deliverer at ht
  split at ht
  case h_1 src m hn =>
    cases ht
    split
    · exact h.receive
    have hidle := h.advance (n := n) (d := .idle) nofun (by simp) nofun
    exact ⟨fun k f hk => (hidle.fresh k f hk).trans (Nat.lt_succ_self _), hidle.distinct,
      fun f b hf => (h.past f b hf).trans (Nat.lt_succ_self _), hidle.notYet, hidle.lookedUp,
      h.once, h.onError⟩
  case h_2 src f hn =>
    split at ht <;> cases ht
    refine (h.advance (n := n) (d := .lookingUp src f) ?_ ?_ nofun).congr rfl rfl rfl
    · rw [hn]; exact fun _ hf => hf
    · rintro src' f' (hd | hd) <;> cases hd
      exact .inl hn
  case h_3 src f hn =>
    cases ht
    exact (h.lookup hn _).congr rfl rfl rfl
  case h_4 src f found hn =>
    cases ht
    have hidle := h.advance (n := n) (d := .idle) nofun (by simp) nofun
    exact deliver_readers hidle (h.lookedUp n src f found hn)
  case h_5 => cases ht

theorem close_frame {a : CloserAct} (ht : s.close a = some t) :
    t.deliverers = s.deliverers ∧ t.nextSeq = s.nextSeq ∧ t.trace = s.trace ∧
      t.requests = s.requests := by
  unfold State.close at ht
  split at ht <;> (try split at ht) <;> cases ht <;> exact ⟨rfl, rfl, rfl, rfl⟩

theorem connect_frame (ht : s.connect = some t) :
    t.deliverers = s.deliverers ∧ t.nextSeq = s.nextSeq ∧ t.trace = s.trace ∧ t.chan = s.chan ∧
      t.requests = s.requests ∧ t.pendingRequests = s.pendingRequests := by
  unfold State.connect at ht
  split at ht <;> cases ht
  split <;> exact ⟨rfl, rfl, rfl, rfl, rfl, rfl⟩

theorem step_readers (h : Readers s) (ht : step P s a = some t) : Readers t := by
  have hact := (step_eq_some ht).2
  cases a with
  | caller id a =>
    obtain ⟨htr, -, -, hd, hn, -⟩ := caller_frame hact
    exact h.congr hd hn htr
  | deliverer n a => exact deliverer_readers h hact
  | closer a =>
    obtain ⟨hd, hn, htr, -⟩ := close_frame hact
    exact h.congr hd hn htr
  | connect =>
    obtain ⟨hd, hn, htr, -⟩ := connect_frame hact
    exact h.congr hd hn htr

theorem exec_readers (h : exec (step P) init as = some s) : Readers s :=
  exec_induction (I := Readers) (fun _ _ _ ht hs => step_readers hs ht) h readers_init

/-! ## What stays -/

theorem deliver_frame (s : State) (src : Source) (f : Frame) (found : Bool) :
    (s.deliver P src f found).deliverers = s.deliverers ∧
      s.trace <+: (s.deliver P src f found).trace ∧
      ∀ id, ((s.deliver P src f found).chan id).closed = (s.chan id).closed := by
  unfold State.deliver
  split
  · split
    · exact ⟨rfl, prefix_append .., fun _ => rfl⟩
    split
    · refine ⟨rfl, prefix_append .., fun id => ?_⟩
      by_cases hf : id = f.msg.id
      · subst hf; simp [State.setChan, State.emit]
      · simp [State.setChan, State.emit, hf]
    · exact ⟨rfl, prefix_append .., fun _ => rfl⟩
  · split
    · exact ⟨rfl, prefix_append .., fun _ => rfl⟩
    · exact ⟨rfl, prefix_refl _, fun _ => rfl⟩

theorem deliverer_frame {a : DelivererAct} (ht : s.deliverer P n a = some t) :
    (∀ m, m ≠ n → t.deliverers m = s.deliverers m) ∧ s.trace <+: t.trace ∧
      ∀ id, (t.chan id).closed = (s.chan id).closed := by
  unfold State.deliverer at ht
  split at ht
  · cases ht
    exact ⟨fun m hm => update_of_ne hm .., prefix_refl _, fun _ => rfl⟩
  · split at ht <;> cases ht
    exact ⟨fun m hm => update_of_ne hm .., prefix_refl _, fun _ => rfl⟩
  · cases ht
    exact ⟨fun m hm => update_of_ne hm .., prefix_append .., fun _ => rfl⟩
  · cases ht
    obtain ⟨hd, htr, hc⟩ := deliver_frame (P := P) (s.setDeliverer n .idle) _ _ _
    exact ⟨fun m hm => (congrFun hd m).trans (update_of_ne hm ..), htr, hc⟩
  · cases ht

theorem step_trace (ht : step P s a = some t) : s.trace <+: t.trace := by
  replace ht := (step_eq_some ht).2
  cases a with
  | caller id a => rw [(caller_frame ht).1]
  | closer a => rw [(close_frame ht).2.2.1]
  | connect => rw [(connect_frame ht).2.2.1]
  | deliverer n a => exact (deliverer_frame ht).2.1

theorem step_closed_eq (ht : step P s a = some t) (ha : a ≠ .closer (.cancel id)) :
    (t.chan id).closed = (s.chan id).closed := by
  replace ht := (step_eq_some ht).2
  cases a with
  | caller i a =>
    by_cases hi : id = i
    · subst hi
      simp only [State.caller] at ht
      split at ht <;> (try split at ht) <;> (try split at ht) <;> cases ht <;>
        simp [State.setPhase, State.setChan]
    · rw [((caller_frame ht).2.2.2.2.2 id hi).2.1]
  | deliverer n a => exact (deliverer_frame ht).2.2 id
  | closer a =>
    simp only [State.close] at ht
    split at ht <;> (try split at ht) <;> cases ht <;> try rfl
    rename_i i _ _
    have hi : id ≠ i := fun h => ha (by rw [h])
    simp [State.setChan, hi]
  | connect => rw [(connect_frame ht).2.2.2.1]

theorem cancel_closed (ht : step P s (.closer (.cancel id)) = some t) :
    (t.chan id).closed = true ∧ t.deliverers = s.deliverers ∧ t.crashed = false := by
  obtain ⟨hcrash, ht⟩ := step_eq_some ht
  cases hc : s.closer <;> simp only [State.close, hc] at ht <;> try cases ht
  split at ht <;> cases ht
  simpa [State.setChan] using hcrash

theorem step_closed (ht : step P s a = some t) (hc : (s.chan id).closed = true) :
    (t.chan id).closed = true := by
  by_cases ha : a = .closer (.cancel id)
  · subst ha
    exact (cancel_closed ht).1
  · rw [step_closed_eq ht ha]
    exact hc

/-! ## Correlated errors -/

/-- A frame whose lookup found its entry: about to be sent, in the channel, behind another, or
overtaken by `Close`. -/
def Routed (s : State) (n : Nat) (src : Source) (f : Frame) : Prop :=
  s.deliverers n = .lookedUp src f true ∨ f ∈ handedTo f.msg.id s.trace ∨
    (Event.dropped f ∈ s.trace ∧ handedTo f.msg.id s.trace ≠ []) ∨
    (s.chan f.msg.id).closed = true

theorem deliver_routed (h : Entry P s f.msg.id) : Routed (s.deliver P src f true) n src f := by
  right
  unfold State.deliver
  rw [if_pos rfl]
  split
  · rename_i hc
    exact .inr (.inr hc)
  split
  · simp [State.emit, handedTo]
  rename_i g hbuf
  refine .inr (.inl ⟨mem_append_right _ (mem_singleton.mpr rfl), ?_⟩)
  have hg := h.filled g hbuf
  simp only [State.emit, handedTo_append]
  exact append_ne_nil_of_left_ne_nil (ne_nil_of_mem hg) _

theorem step_other (ht : step P s a = some t) (ha : ¬∃ b, a = .deliverer n b) :
    t.deliverers n = s.deliverers n := by
  replace ht := (step_eq_some ht).2
  cases a with
  | caller i b => rw [(caller_frame ht).2.2.2.1]
  | deliverer m b =>
    refine (deliverer_frame ht).1 n fun hnm => ha ⟨b, ?_⟩
    rw [hnm]
  | closer b => rw [(close_frame ht).1]
  | connect => rw [(connect_frame ht).1]

theorem step_routed (he : ∀ i, Entry P s i) (h : Routed s n src f) (ht : step P s a = some t) :
    Routed t n src f := by
  obtain ⟨l, hl⟩ := step_trace ht
  have hmono : ∀ {g}, g ∈ handedTo f.msg.id s.trace → g ∈ handedTo f.msg.id t.trace := by
    intro g hg
    rw [← hl, handedTo_append]
    exact mem_append_left _ hg
  rcases h with hn | hh | ⟨hd, hh⟩ | hc
  · by_cases ha : ∃ b, a = .deliverer n b
    · obtain ⟨b, rfl⟩ := ha
      replace ht := (step_eq_some ht).2
      simp only [State.deliverer, hn] at ht
      cases b <;> cases ht
      exact deliver_routed ((he _).frame _ s.pendingMu s.nextSeq s.crashed rfl)
    · exact .inl ((step_other ht ha).trans hn)
  · exact .inr (.inl (hmono hh))
  · obtain ⟨g, hg⟩ := exists_mem_of_ne_nil _ hh
    refine .inr (.inr (.inl ⟨?_, ne_nil_of_mem (hmono hg)⟩))
    rw [← hl]
    exact mem_append_left _ hd
  · exact .inr (.inr (.inr (step_closed ht hc)))

/-- A frame whose entry is registered when it is looked up is routed to its caller from then on. -/
theorem correlated_frame {bs : List Action} (hs : exec (step P) init as = some s)
    (hn : s.deliverers n = .lookingUp src f) (hin : f.msg.id ∈ s.pendingRequests)
    (ht : exec (step P) s (.deliverer n .unlock :: bs) = some t) :
    Event.onError f ∉ t.trace ∧ Routed t n src f := by
  have hreach : exec (step P) init (as ++ .deliverer n .unlock :: bs) = some t := by
    rw [exec_append, hs]
    exact ht
  obtain ⟨u, hu, hrest⟩ := exec_cons_eq_some.mp ht
  have hue : ∀ i, Entry P u i := step_entry (exec_entry hs) hu
  have hsplit : u.deliverers n = .lookedUp src f true ∧ Event.lookup f true ∈ u.trace := by
    replace hu := (step_eq_some hu).2
    simp only [State.deliverer, hn] at hu
    cases hu
    simp [State.setDeliverer, State.emit, hin]
  have hkeep : (∀ i, Entry P t i) ∧ Routed t n src f ∧ Event.lookup f true ∈ t.trace := by
    refine exec_induction
      (I := fun v => (∀ i, Entry P v i) ∧ Routed v n src f ∧ Event.lookup f true ∈ v.trace) ?_ hrest
      ⟨hue, .inl hsplit.1, hsplit.2⟩
    rintro v a w hvw ⟨hve, hr, hl⟩
    exact ⟨step_entry hve hvw, step_routed hve hr hvw, (step_trace hvw).subset hl⟩
  refine ⟨fun herr => ?_, hkeep.2.1⟩
  have hreaders := exec_readers hreach
  cases hreaders.once f true f false hkeep.2.2 (hreaders.onError f herr) rfl

/-- **Correlated requests get their own answer or a definite failure.** A response that is returned
is made of the first frame handed to the caller, which carries its id; a frame whose id is
registered when it is looked up never goes to `OnError`; a caller that returned has left no entry;
and one that waits is registered on its stream, or has something to wake up for. -/
theorem correlated_requests (P : Config) (as : List Action) (s : State)
    (h : exec (step P) init as = some s) :
    (∀ id r, (s.requests id).phase = .returned (.response r) →
      ∃ f, (handedTo id s.trace).head? = some f ∧ f.msg.id = id ∧
        decode P (s.requests id).method (some f.msg) = .response r) ∧
    (∀ n src f bs t, s.deliverers n = .lookingUp src f → f.msg.id ∈ s.pendingRequests →
      exec (step P) s (.deliverer n .unlock :: bs) = some t →
        .onError f ∉ t.trace ∧
        (t.deliverers n = .lookedUp src f true ∨ f ∈ handedTo f.msg.id t.trace ∨
          (.dropped f ∈ t.trace ∧ handedTo f.msg.id t.trace ≠ []) ∨
          (t.chan f.msg.id).closed = true)) ∧
    (∀ id r, (s.requests id).phase = .returned r → id ∉ s.pendingRequests) ∧
    (∀ id st, (s.requests id).phase = .waiting st →
      (id ∈ s.pendingRequests ∧ s.stream = some st) ∨ (s.chan id).buf.isSome = true ∨
        (s.chan id).closed = true) := by
  have hentry := exec_entry h
  refine ⟨fun id r hr => ?_, fun n src f bs t hn hin ht => correlated_frame h hn hin ht,
    fun id r hr hin => ?_, fun id st hw => ?_⟩
  · obtain ⟨f, hhead, hdec⟩ := (hentry id).honest r (by rw [hr]; rfl)
    exact ⟨f, hhead, (hentry id).own f (mem_of_mem_head? hhead), hdec⟩
  · have := (hentry id).listed hin
    rw [hr] at this
    cases this
  · rcases (hentry id).kept (by rw [hw]; rfl) with hin | hc
    · rcases (hentry id).onStream st (by rw [hw]; rfl) with hc | hlive
      · exact .inr (.inr hc)
      · refine .inl ⟨hin, ?_⟩
        unfold State.live at hlive
        split at hlive
        · cases hlive
        · exact hlive
    · exact .inr (.inr hc)

def syncRun : List Action :=
  [.connect, .caller "r1" (.start .syncState 0), .caller "r1" .lockRegister,
    .caller "r1" .unlockRegister, .caller "r1" .readStream, .caller "r1" .sent,
    .deliverer 0 (.receive .run ⟨"r1", .response .syncState (some ⟨"state", true⟩)⟩),
    .deliverer 0 .lock, .deliverer 0 .unlock, .deliverer 0 .deliver, .caller "r1" .take,
    .caller "r1" .lockUnregister, .caller "r1" .unlockUnregister]

theorem syncRun_returned :
    (exec (step .permissive) init syncRun).map (fun s => (s.requests "r1").phase) =
      some (.returned (.response ⟨"state", true⟩)) := by
  decide +kernel

/-- A request that gets its answer. -/
theorem correlated_requests_sync :
    ∃ s, exec (step .permissive) init syncRun = some s ∧
      (s.requests "r1").phase = .returned (.response ⟨"state", true⟩) ∧
      ∃ f, (handedTo "r1" s.trace).head? = some f ∧ f.msg.id = "r1" := by
  obtain ⟨s, hs, hphase⟩ := Option.map_eq_some_iff.mp syncRun_returned
  obtain ⟨f, hf, hid, -⟩ := (correlated_requests .permissive syncRun s hs).1 "r1" _ hphase
  exact ⟨s, hs, hphase, f, hf, hid⟩

/-! ## Sending on a closed channel -/

/-- The closer cancels no request to which a frame is being delivered. -/
def NoCloseInFlight (s : State) (a : Action) : Prop :=
  ∀ id n src f, a = .closer (.cancel id) → s.deliverers n = .lookedUp src f true → f.msg.id ≠ id

/-- A reader that found its entry has an open channel in hand, and no send has hit a closed one. -/
structure Unharmed (s : State) : Prop where
  inFlight : ∀ n src f, s.deliverers n = .lookedUp src f true → (s.chan f.msg.id).closed = false
  clean : ∀ src f, Event.sendOnClosed src f ∉ s.trace

theorem deliver_unharmed (hopen : found = true → (s.chan f.msg.id).closed = false)
    (hclean : ∀ src f, Event.sendOnClosed src f ∉ s.trace) (src' : Source) (g : Frame) :
    Event.sendOnClosed src' g ∉ (s.deliver P src f found).trace := by
  have hadd : ∀ e, (∀ src f, e ≠ .sendOnClosed src f) →
      Event.sendOnClosed src' g ∉ s.trace ++ [e] := by
    intro e he hmem
    rcases mem_append.mp hmem with hmem | hmem
    · exact hclean _ _ hmem
    · exact he _ _ (mem_singleton.mp hmem).symm
  unfold State.deliver
  split
  · rename_i hfound
    rw [if_neg (by simp [hopen hfound])]
    split <;> exact hadd _ nofun
  · split
    · exact hadd _ nofun
    · exact hclean _ _

theorem step_inFlight (ht : step P s a = some t) (hn : t.deliverers n = .lookedUp src f true) :
    s.deliverers n = .lookedUp src f true ∨
      (a = .deliverer n .unlock ∧ f.msg.id ∈ s.pendingRequests) := by
  by_cases ha : ∃ b, a = .deliverer n b
  · obtain ⟨b, rfl⟩ := ha
    right
    replace ht := (step_eq_some ht).2
    simp only [State.deliverer] at ht
    split at ht
    · cases ht
      simp only [State.setDeliverer, update_self] at hn
      split at hn <;> cases hn
    · split at ht <;> cases ht
      simp [State.setDeliverer] at hn
    · cases ht
      simp only [State.setDeliverer, State.emit, update_self,
        Deliverer.lookedUp.injEq, decide_eq_true_eq] at hn
      obtain ⟨-, rfl, hin⟩ := hn
      exact ⟨rfl, hin⟩
    · cases ht
      rw [(deliver_frame ..).1] at hn
      simp [State.setDeliverer] at hn
    · cases ht
  · exact .inl ((step_other ht ha).symm.trans hn)

theorem step_unharmed (he : ∀ i, Entry P s i) (h : Unharmed s) (hG : NoCloseInFlight s a)
    (ht : step P s a = some t) : Unharmed t := by
  refine ⟨fun n src f hn => ?_, ?_⟩
  · rcases step_inFlight ht hn with hold | ⟨rfl, hin⟩
    · rw [step_closed_eq ht fun ha => hG _ n src f ha hold rfl]
      exact h.inFlight n src f hold
    · rw [step_closed_eq ht nofun]
      exact (he _).isOpen hin
  · have hact := (step_eq_some ht).2
    cases a with
    | caller i b => rw [(caller_frame hact).1]; exact h.clean
    | closer b => rw [(close_frame hact).2.2.1]; exact h.clean
    | connect => rw [(connect_frame hact).2.2.1]; exact h.clean
    | deliverer n b =>
      simp only [State.deliverer] at hact
      split at hact
      · cases hact; exact h.clean
      · split at hact <;> cases hact; exact h.clean
      · cases hact
        intro src f hmem
        rcases mem_append.mp hmem with hmem | hmem
        · exact h.clean _ _ hmem
        · cases mem_singleton.mp hmem
      · rename_i src f found hn
        cases hact
        refine deliver_unharmed ?_ h.clean
        rintro rfl
        exact h.inFlight n src f hn
      · cases hact

/-- **What it takes not to send on a closed channel:** that `Close` never closes one between a
reader's lookup and its send. A `Close` that does is one step away from it. -/
theorem send_on_closed (P : Config) (as : List Action) (s : State)
    (hG : Along (step P) NoCloseInFlight init as) (h : exec (step P) init as = some s) :
    (∀ src f, .sendOnClosed src f ∉ s.trace) ∧
    (∀ a t, step P s a = some t → ¬NoCloseInFlight s a →
      ∃ n u src f, step P t (.deliverer n .deliver) = some u ∧ .sendOnClosed src f ∈ u.trace) := by
  have hinv : (∀ i, Entry P s i) ∧ Unharmed s := by
    refine exec_induction_along (I := fun s => (∀ i, Entry P s i) ∧ Unharmed s) ?_ hG h
      ⟨entry_init P, ⟨nofun, nofun⟩⟩
    rintro s a t ht hg ⟨he, hu⟩
    exact ⟨step_entry he ht, step_unharmed he hu hg ht⟩
  refine ⟨hinv.2.clean, fun a t ht hbad => ?_⟩
  simp only [NoCloseInFlight, not_forall, not_not] at hbad
  obtain ⟨id, n, src, f, rfl, hn, rfl⟩ := hbad
  obtain ⟨hclosed, hd, hcrash⟩ := cancel_closed ht
  refine ⟨n, (t.setDeliverer n .idle).deliver P src f true, src, f, ?_, ?_⟩
  · simp [step, hcrash, State.deliverer, hd, hn]
  · have hc : ((t.setDeliverer n .idle).chan f.msg.id).closed = true := hclosed
    simp [State.deliver, hc, State.emit]

/-- Two callers wait, and a reader has found the channel of the first. -/
def lookupRun : List Action :=
  .connect :: ["r1", "r2"].flatMap (fun id =>
      [.start .syncState 0, .lockRegister, .unlockRegister, .readStream, .sent].map (.caller id)) ++
    [.receive .startReceiver ⟨"r1", .response .syncState (some ⟨"state", true⟩)⟩, .lock,
      .unlock].map (.deliverer 0)

/-- The first caller gives up, and then the reader is overtaken by a `Close` that closes the channel
of the second. -/
def closeRun : List Action :=
  lookupRun ++ [.caller "r1" (.ctxDone "context canceled"), .caller "r1" .lockUnregister,
    .caller "r1" .unlockUnregister, .closer .enter, .closer .lock] ++
    .closer (.cancel "r2") :: [.closer .unlock, .deliverer 0 .deliver, .closer .done,
      .caller "r2" .take]

theorem noCloseInFlight_closeRun : Along (step .permissive) NoCloseInFlight init closeRun := by
  have hquiet : ∀ {as : List Action} {s}, (∀ a ∈ as, ∀ id, a ≠ .closer (.cancel id)) →
      Along (step .permissive) NoCloseInFlight s as := fun h =>
    along_of_forall (fun a ha s id n src f hcancel => absurd hcancel (h a ha id)) _
  refine along_append.mpr ⟨hquiet (by simp [lookupRun]), fun s hs => ⟨?_, fun t _ =>
    hquiet (by simp)⟩⟩
  -- the one reader that has an entry in hand has that of the first caller
  have hzero : s.deliverers 0 = .lookedUp .startReceiver
      ⟨0, ⟨"r1", .response .syncState (some ⟨"state", true⟩)⟩⟩ true := by
    have hmap := congrArg (Option.map fun s => s.deliverers 0) hs
    exact Option.some_inj.mp (hmap.symm.trans rfl)
  have hidle : ∀ n, n ≠ 0 → s.deliverers n = .idle := by
    intro n hn
    refine exec_induction_along (I := fun s => s.deliverers n = .idle)
      (G := fun _ a => ¬∃ b, a = .deliverer n b)
      (fun s a t ht ha hs => (step_other ht ha).trans hs) (along_of_forall ?_ _) hs rfl
    simp [lookupRun, hn.symm]
  rintro id n src f heq hn rfl
  by_cases h0 : n = 0
  · subst h0
    rw [hzero] at hn
    cases hn
    simp at heq
  · rw [hidle n h0] at hn
    cases hn

/-- A request is cancelled while another one is answered. -/
theorem send_on_closed_sync :
    Along (step .permissive) NoCloseInFlight init closeRun ∧
      ∃ s, exec (step .permissive) init closeRun = some s ∧
        (s.chan "r2").closed = true ∧ (s.chan "r1").buf.isSome = true ∧
        ∀ src f, Event.sendOnClosed src f ∉ s.trace := by
  have hend : (exec (step .permissive) init closeRun).map
      (fun s => ((s.chan "r2").closed, (s.chan "r1").buf.isSome)) = some (true, true) := rfl
  obtain ⟨s, hs, hchan⟩ := Option.map_eq_some_iff.mp hend
  rw [Prod.mk.injEq] at hchan
  exact ⟨noCloseInFlight_closeRun, s, hs, hchan.1, hchan.2,
    (send_on_closed .permissive closeRun s noCloseInFlight_closeRun hs).1⟩

def crashRun : List Action :=
  [.connect, .caller "r1" (.start .syncState 0), .caller "r1" .lockRegister,
    .caller "r1" .unlockRegister, .caller "r1" .readStream, .caller "r1" .sent,
    .deliverer 0 (.receive .startReceiver ⟨"r1", .response .syncState (some ⟨"state", true⟩)⟩),
    .deliverer 0 .lock, .deliverer 0 .unlock, .closer .enter, .closer .lock,
    .closer (.cancel "r1"), .deliverer 0 .deliver]

/-- `deliverPending` does send on a channel `Close` has closed, and in the goroutine of
`StartReceiver` nothing recovers the panic. -/
theorem receiver_crash :
    (exec (step .permissive) init crashRun).map (fun s => (s.crashed, s.trace)) =
      some (true, [.lookup ⟨0, ⟨"r1", .response .syncState (some ⟨"state", true⟩)⟩⟩ true,
        .sendOnClosed .startReceiver
          ⟨0, ⟨"r1", .response .syncState (some ⟨"state", true⟩)⟩⟩]) := by
  decide +kernel

end

end PowerManage.Client.Pending
