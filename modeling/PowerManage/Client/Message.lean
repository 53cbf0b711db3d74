import PowerManage.Lib.Transition

/-!
# Frames on the agent stream, and how they are dispatched

`ServerMessage` is the oneof the agent receives on its stream.  Every arm carries an `Option`: a
buggy or hostile peer can deliver an arm whose inner message is nil, and the dispatcher guards
against exactly that.

`dispatchServerMessage` is the switch of the client's receive loop with its effects named rather
than performed: which arm drops the frame, which hands it to a handler method on the loop, which
queues it for the delivery worker and which correlates it with a pending request.  The validator
the SDK runs on inbound payloads reads generated struct tags, so it is a parameter `valid`.
-/

namespace PowerManage.Client

/-- The id that control redelivers and receipts it under, and the rest as it stood on the wire. -/
structure ManifestDelivery where
  deliveryId : String
  manifest : String
deriving DecidableEq

/-- The requests that are answered by a frame. -/
inductive ResponseKind
  | syncState
  | getLuksKey
  | storeLuksKey
  | storeLpsPasswords
  | validateLuksToken
deriving DecidableEq

/-- A response message: its wire content, and the `success` flag of the two store responses. -/
structure Response where
  content : String
  /-- `Success`, read by `StoreLuksKey` and `StoreLpsPasswords` only. -/
  success : Bool
deriving DecidableEq

/-- The oneof of a server message.  `none` inside an arm is the nil inner message. -/
inductive Payload
  | welcome (p : Option String)
  | manifestDelivery (p : Option ManifestDelivery)
  | query (p : Option String)
  | error (p : Option String)
  | response (kind : ResponseKind) (p : Option Response)
  | requestInventory (p : Option String)
  | logQuery (p : Option String)
  | revokeLuksDeviceKey (p : Option String)
  | terminalStart (p : Option String)
  | terminalInput (p : Option String)
  | terminalResize (p : Option String)
  | terminalStop (p : Option String)
  | unknown
deriving DecidableEq

/-- A frame from the server. -/
structure ServerMessage where
  id : String
  payload : Payload
deriving DecidableEq

/-- Which of the optional interfaces the handler has. -/
structure Handler where
  streaming : Bool
  inventory : Bool
  logQuery : Bool
  luks : Bool
  terminal : Bool
deriving DecidableEq

/-- What the client is run with: the inbound validator, which reads generated struct tags, and the
handler. -/
structure Config where
  /-- `validateInbound` accepts the payload. -/
  valid : Payload → Bool
  /-- The text of the error `validateInbound` returns for a payload it refuses. -/
  validateError : Payload → String
  handler : Handler

def Config.accepts (P : Config) (d : ManifestDelivery) : Bool := P.valid (.manifestDelivery (some d))

def Config.permissive : Config := ⟨fun _ => true, fun _ => "", ⟨true, true, true, true, true⟩⟩

/-- How a call of a handler ends. -/
inductive Outcome
  | ok
  | error
  | panic
deriving DecidableEq

/-- What the dispatcher does with a frame. -/
inductive Arm
  /-- Logged and dropped: nil payload, payload refused by the validator, unknown oneof arm. -/
  | drop
  /-- The handler does not implement the interface the frame is for. -/
  | ignore
  /-- A handler method called on the receive loop; an error it returns is fatal to the stream. -/
  | call
  /-- Handed to a goroutine of its own, bounded by a semaphore. -/
  | spawn
  /-- A valid manifest delivery, for the delivery worker. -/
  | deliver (d : ManifestDelivery)
  | refuse (d : ManifestDelivery)
  /-- A response: offered to the pending request of its id and otherwise forgotten. -/
  | correlate
  /-- An error: offered to the pending request of its id, else given to `OnError`. -/
  | correlateError
deriving DecidableEq

/-- Nil and refused payloads are dropped, and what is left is for the continuation. -/
def guardInbound {β : Type} (valid : Payload → Bool) (whole : Payload) (p : Option β) (k : Arm) :
    Arm :=
  match p with
  | none => .drop
  | some _ => if valid whole then k else .drop

/-- `Client.dispatchServerMessage`, with its effect named instead of performed. -/
def dispatchServerMessage (valid : Payload → Bool) (h : Handler) (msg : ServerMessage) : Arm :=
  match msg.payload with
  | .welcome none => .drop
  | .welcome (some _) => .call
  | .manifestDelivery none => .drop
  | .manifestDelivery (some d) =>
    if valid (.manifestDelivery (some d)) then .deliver d else .refuse d
  | .query p => guardInbound valid msg.payload p .call
  | .error none => .drop
  | .error (some _) => .correlateError
  | .response _ _ => .correlate
  | .requestInventory p =>
    guardInbound valid msg.payload p (if h.inventory then .spawn else .ignore)
  | .logQuery p => guardInbound valid msg.payload p (if h.logQuery then .call else .ignore)
  | .revokeLuksDeviceKey p => guardInbound valid msg.payload p (if h.luks then .spawn else .ignore)
  | .terminalStart p => guardInbound valid msg.payload p (if h.terminal then .call else .ignore)
  | .terminalInput p => guardInbound valid msg.payload p (if h.terminal then .call else .ignore)
  | .terminalResize p => guardInbound valid msg.payload p (if h.terminal then .call else .ignore)
  | .terminalStop p => guardInbound valid msg.payload p (if h.terminal then .call else .ignore)
  | .unknown => .drop

variable {a : Arm}

section

variable {valid : Payload → Bool} {h : Handler} {msg : ServerMessage} {d : ManifestDelivery}

theorem guardInbound_ne {β : Type} {whole : Payload} {p : Option β} {k : Arm} (hk : k ≠ a)
    (ha : Arm.drop ≠ a) : guardInbound valid whole p k ≠ a := by
  cases p with
  | none => exact ha
  | some x =>
    rw [guardInbound]
    split
    · exact hk
    · exact ha

theorem ite_ignore_ne {b : Bool} {k : Arm} (hk : k ≠ a) (ha : Arm.ignore ≠ a) :
    (if b then k else .ignore) ≠ a := by
  cases b with
  | false => exact ha
  | true => exact hk

theorem dispatchServerMessage_ne (hm : ∀ d, msg.payload ≠ .manifestDelivery (some d))
    (ha : a = .deliver d ∨ a = .refuse d) : dispatchServerMessage valid h msg ≠ a := by
  obtain ⟨id, payload⟩ := msg
  have hne : Arm.drop ≠ a ∧ Arm.ignore ≠ a ∧ Arm.call ≠ a ∧ Arm.spawn ≠ a ∧ Arm.correlate ≠ a ∧
      Arm.correlateError ≠ a := by rcases ha with rfl | rfl <;> simp
  obtain ⟨hdrop, hignore, hcall, hspawn, hcor, herr⟩ := hne
  cases payload with
  | manifestDelivery p =>
    cases p with
    | none => exact hdrop
    | some e => exact absurd rfl (hm e)
  | welcome p =>
    cases p with
    | none => exact hdrop
    | some _ => exact hcall
  | error p =>
    cases p with
    | none => exact hdrop
    | some _ => exact herr
  | response k p => exact hcor
  | unknown => exact hdrop
  | query p => exact guardInbound_ne hcall hdrop
  | requestInventory p | revokeLuksDeviceKey p =>
    exact guardInbound_ne (ite_ignore_ne hspawn hignore) hdrop
  | logQuery p | terminalStart p | terminalInput p | terminalResize p | terminalStop p =>
    exact guardInbound_ne (ite_ignore_ne hcall hignore) hdrop

theorem dispatchServerMessage_manifest (hm : msg.payload = .manifestDelivery (some d)) :
    dispatchServerMessage valid h msg =
      if valid (.manifestDelivery (some d)) then .deliver d else .refuse d := by
  rw [dispatchServerMessage, hm]

theorem payload_of_dispatch {arm : Arm} (harm : arm = .deliver d ∨ arm = .refuse d)
    (hd : dispatchServerMessage valid h msg = arm) :
    msg.payload = .manifestDelivery (some d) := by
  by_cases hm : ∃ e, msg.payload = .manifestDelivery (some e)
  · obtain ⟨e, he⟩ := hm
    rw [dispatchServerMessage_manifest he] at hd
    rcases harm with rfl | rfl <;> split at hd <;> cases hd <;> exact he
  · exact absurd hd (dispatchServerMessage_ne (fun e he => hm ⟨e, he⟩) harm)

/-- Only a well-formed, valid manifest delivery reaches the delivery worker. -/
theorem dispatchServerMessage_eq_deliver :
    dispatchServerMessage valid h msg = .deliver d ↔
      msg.payload = .manifestDelivery (some d) ∧ valid (.manifestDelivery (some d)) = true := by
  constructor
  · intro hd
    have hp := payload_of_dispatch (.inl rfl) hd
    refine ⟨hp, ?_⟩
    by_contra hv
    rw [dispatchServerMessage_manifest hp, if_neg hv] at hd
    cases hd
  · rintro ⟨hp, hv⟩
    rw [dispatchServerMessage_manifest hp, if_pos hv]

theorem dispatchServerMessage_eq_refuse :
    dispatchServerMessage valid h msg = .refuse d ↔
      msg.payload = .manifestDelivery (some d) ∧ valid (.manifestDelivery (some d)) = false := by
  constructor
  · intro hd
    have hp := payload_of_dispatch (.inr rfl) hd
    refine ⟨hp, ?_⟩
    by_contra hv
    rw [dispatchServerMessage_manifest hp, if_pos (Bool.of_not_eq_false hv)] at hd
    cases hd
  · rintro ⟨hp, hv⟩
    rw [dispatchServerMessage_manifest hp, if_neg (by simp [hv])]

end

end PowerManage.Client
