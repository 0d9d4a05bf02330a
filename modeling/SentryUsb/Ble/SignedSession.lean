import Mathlib

/-! # A query over a signed session

All commands to the car go over one link, one at a time. A query is signed with a key and a counter that the car gave for
one of its domains; the car may answer with fresh values, ask to wait, or refuse, and the query is tried again within
three budgets. This is what the code does between two waits for the link.

* **`isResponseTo`** — which replies are taken for an answer (`correlate.rs`, `is_response_to`);
* **`readSignedReply`** — what a reply to a signed request means (`try_signed_request_once`);
* **`nextAttempt`** — how a query goes on after an attempt (`signed_request_with_refresh_retry`);
* **`Client`** — the state of the session task, and how a command ends. -/

namespace SentryUsb.Ble

abbrev Octets := List UInt8

/-- The two domains of the car. -/
inductive Domain where
  | vehicleSecurity
  | infotainment
  deriving DecidableEq

/-- The number of a domain in the protocol. -/
def Domain.number : Domain → Int
  | .vehicleSecurity => 2
  | .infotainment => 3

/-! ## Messages -/

/-- What a signature over a request fixes, and its tag. -/
structure Signature where
  epoch : Octets
  counter : UInt32
  tag : Octets
  deriving DecidableEq

/-- A request: a random routing address and id, and the signature if it has one. -/
structure Request where
  domain : Domain
  address : Octets
  uuid : Octets
  signature : Option Signature
  deriving DecidableEq

/-- The state of a session as the car gives it (`SessionInfo`). -/
structure SessionInfo where
  counter : UInt32
  publicKey : Octets
  epoch : Octets
  clockTime : UInt32
  status : Int
  deriving DecidableEq

inductive Payload where
  /-- `none` where the bytes do not decode. -/
  | sessionInfo (info : Option SessionInfo)
  | protobufMessage (bytes : Octets)
  | other
  | missing
  deriving DecidableEq

/-- The signature data of a reply. -/
inductive SubSigData where
  | missing
  | untyped
  | other
  | response (counter : UInt32) (nonce tag : Octets)
  deriving DecidableEq

/-- A decoded reply of the car (`RoutableMessage`). -/
structure Reply where
  fromDomain : Option Int
  toAddress : Option Octets
  requestUuid : Octets
  fault : Nat
  operationStatus : Int
  subSigData : SubSigData
  flags : Nat
  payload : Payload
  deriving DecidableEq

/-- Whether a reply is taken for the answer to a request (`is_response_to`): nothing in it points to another request. -/
def isResponseTo (reply : Reply) (ourRequestUuid ourRoutingAddr : Octets) (target : Domain) : Bool :=
  (reply.fromDomain.all fun d => decide (d = target.number))
    && (reply.toAddress.all fun a => ourRoutingAddr.isEmpty || decide (a = ourRoutingAddr))
    && (reply.requestUuid.isEmpty || decide (reply.requestUuid = ourRequestUuid))

/-- Whether a reply is taken for the answer to a request we sent; the envelope gives its id and address
(`our_correlators`). -/
def Request.accepts (r : Request) (reply : Reply) : Bool := isResponseTo reply r.uuid r.address r.domain

/-- **A reply with an address is only taken for the request with this address.** -/
theorem Request.address_of_accepts {r : Request} {reply : Reply} {a : Octets} (haddress : r.address ≠ [])
    (hto : reply.toAddress = some a) (h : r.accepts reply = true) : r.address = a := by
  unfold Request.accepts isResponseTo at h
  rw [hto, Option.all_some] at h
  have hto' := (Bool.and_eq_true_iff.mp (Bool.and_eq_true_iff.mp h).1).2
  rcases Bool.or_eq_true_iff.mp hto' with hempty | heq
  · exact absurd (List.isEmpty_iff.mp hempty) haddress
  · exact (of_decide_eq_true heq).symm

/-! ## One attempt -/

/-- Errors, as far as they are told apart (`is_decrypt_error`, `is_transport_error`, `is_query_response_timeout`,
`is_response_too_large`). -/
inductive Failure where
  | connect
  | transport
  | responseTimeout
  | decrypt
  | keyNotPaired
  | responseTooLarge
  | refused
  deriving DecidableEq

/-- The cryptography: the key of a session, a signature and the text of a reply. -/
structure Crypto where
  deriveSessionKey : (publicKey : Octets) → Option Octets
  sign : (key inner : Octets) → Domain → (epoch : Octets) → (expiresAt counter : UInt32) → Option Octets
  decryptResponse : (key requestTag : Octets) → Reply → Option Octets

/-- A session with one domain (`DomainSession`). -/
structure DomainSession where
  key : Octets
  epoch : Octets
  counter : UInt32
  clockTimeAtHandshake : UInt32
  deriving DecidableEq

/-- `EXPIRES_WINDOW`, in seconds. -/
def expiresWindow : Nat := 60

/-- When a signature made some seconds after the handshake expires, by the clock of the car (`estimated_car_clock`); both
additions stop at the end of the range. -/
def DomainSession.expiresAt (ds : DomainSession) (elapsed : UInt32) : UInt32 :=
  let clock := min (ds.clockTimeAtHandshake.toNat + elapsed.toNat) 4294967295
  UInt32.ofNat (min (clock + expiresWindow) 4294967295)

abbrev Domains := Domain → Option DomainSession

/-- A session from what the car said; it fails if no key can be derived (`apply_session_refresh`,
`ensure_domain_session`). -/
def sessionOf (crypto : Crypto) (info : SessionInfo) : Option DomainSession :=
  (crypto.deriveSessionKey info.publicKey).map fun key => ⟨key, info.epoch, info.counter, info.clockTime⟩

/-- `SESSION_INFO_STATUS_KEY_NOT_ON_WHITELIST`. -/
def keyNotOnWhitelist : Int := 1

/-- The reply to a session info request (`parse_response`). -/
def parseResponse (reply : Reply) : Except Failure SessionInfo :=
  if reply.fault = 3 then .error .keyNotPaired
  else match reply.payload with
    | .sessionInfo (some info) => if info.status = keyNotOnWhitelist then .error .keyNotPaired else .ok info
    | _ => .error .refused

/-- What came of an attempt (`QueryOutcome`). -/
inductive QueryOutcome where
  | plaintext (bytes : Octets)
  | sessionRefresh (info : SessionInfo)
  | operationWait

/-- What a reply to a signed request means, and whether the session is dropped (`try_signed_request_once`, after the
round trip); `late` is whether it came more than ten seconds after the request. -/
def readSignedReply (crypto : Crypto) (key requestTag : Octets) (late : Bool) (reply : Reply) :
    Bool × Except Failure QueryOutcome :=
  match reply.payload with
  | .sessionInfo none => (false, .error .refused)
  | .sessionInfo (some info) =>
    if late then (false, .error .refused)
    else if info.status = keyNotOnWhitelist then (false, .error .keyNotPaired)
    else (false, .ok (.sessionRefresh info))
  | payload =>
    if reply.fault ≠ 0 then
      if reply.fault = 3 then (false, .error .keyNotPaired)
      -- invalid signature, token or counter, epoch, expired: the session is of no more use
      else (decide (reply.fault ∈ [5, 6, 15, 17]), .error (if reply.fault = 25 then .responseTooLarge else .refused))
    else if reply.subSigData = .missing ∧ reply.operationStatus ≠ 0 then
      if reply.operationStatus = 1 then (false, .ok .operationWait) else (false, .error .refused)
    else match reply.subSigData with
      | .response _ _ _ => match payload with
        | .protobufMessage _ => match crypto.decryptResponse key requestTag reply with
          | some bytes => (false, .ok (.plaintext bytes))
          | none => (true, .error .decrypt)
        | _ => (false, .error .refused)
      | _ => (false, .error .refused)

/-- **A refresh is what the reply says.** -/
theorem payload_of_sessionRefresh {crypto : Crypto} {key tag : Octets} {late : Bool} {reply : Reply} {drop : Bool}
    {info : SessionInfo} (h : readSignedReply crypto key tag late reply = (drop, .ok (.sessionRefresh info))) :
    reply.payload = .sessionInfo (some info) := by
  unfold readSignedReply at h
  split at h
  · simp at h
  · rename_i info' hpayload
    split_ifs at h
    · simp at h
    · simp at h
    · simp only [Prod.mk.injEq, Except.ok.injEq, QueryOutcome.sessionRefresh.injEq] at h
      rw [hpayload, h.2]
  · split_ifs at h
    all_goals try simp at h
    split at h
    · split at h
      · split at h <;> simp at h
      · simp at h
    · simp at h

theorem info_of_parseResponse {reply : Reply} {info : SessionInfo} (h : parseResponse reply = .ok info) :
    reply.payload = .sessionInfo (some info) := by
  unfold parseResponse at h
  split at h
  · simp at h
  · split at h
    · rename_i info' hpayload
      split at h
      · simp at h
      · rw [hpayload, Except.ok.inj h]
    · simp at h

/-! ## A query -/

/-- A query under way, with what is left of its three budgets. -/
structure Query where
  domain : Domain
  inner : Octets
  refreshLeft : Nat
  waitLeft : Nat
  staleLeft : Nat

/-- A query that begins (`signed_request_with_refresh_retry`). -/
def Query.start (domain : Domain) (inner : Octets) : Query := ⟨domain, inner, 1, 1, 1⟩

/-- What is left of the budgets together. -/
def Query.budget (q : Query) : Nat := q.refreshLeft + q.waitLeft + q.staleLeft

/-- How a query goes on. -/
inductive Next where
  | again (q : Query)
  | finished (result : Except Failure Octets)

/-- Drop the session with a domain. -/
def Domains.drop (domains : Domains) (d : Domain) : Domains := Function.update domains d none

/-- The rest of the loop after an attempt: try again within the budgets, or end
(`signed_request_with_refresh_retry`). -/
def nextAttempt (crypto : Crypto) (q : Query) (domains : Domains) (result : Except Failure QueryOutcome) : Domains × Next :=
  match result with
  | .ok (.plaintext bytes) => (domains, .finished (.ok bytes))
  | .ok (.sessionRefresh info) =>
    if q.refreshLeft = 0 then
      if 0 < q.staleLeft then (domains.drop q.domain, .again { q with staleLeft := q.staleLeft - 1 })
      else (domains, .finished (.error .refused))
    else match sessionOf crypto info with
      | some ds => (Function.update domains q.domain (some ds), .again { q with refreshLeft := q.refreshLeft - 1 })
      | none => (domains, .finished (.error .refused))
  | .ok .operationWait =>
    if q.waitLeft = 0 then (domains, .finished (.error .refused))
    else (domains, .again { q with waitLeft := q.waitLeft - 1 })
  | .error e =>
    if 0 < q.staleLeft ∧ e = .decrypt then (domains.drop q.domain, .again { q with staleLeft := q.staleLeft - 1 })
    else (domains, .finished (.error e))

/-- **Every retry uses up some budget**, and stays with its domain. -/
theorem budget_of_again {crypto : Crypto} {q q' : Query} {domains domains' : Domains}
    {result : Except Failure QueryOutcome} (h : nextAttempt crypto q domains result = (domains', .again q')) :
    q'.budget + 1 = q.budget ∧ q'.domain = q.domain := by
  unfold nextAttempt at h
  unfold Query.budget
  split at h
  · simp at h
  · split_ifs at h
    · simp only [Prod.mk.injEq, Next.again.injEq] at h
      obtain ⟨-, rfl⟩ := h
      exact ⟨by dsimp only; omega, rfl⟩
    · simp at h
    · split at h
      · simp only [Prod.mk.injEq, Next.again.injEq] at h
        obtain ⟨-, rfl⟩ := h
        exact ⟨by dsimp only; omega, rfl⟩
      · simp at h
  · split_ifs at h
    · simp at h
    · simp only [Prod.mk.injEq, Next.again.injEq] at h
      obtain ⟨-, rfl⟩ := h
      exact ⟨by dsimp only; omega, rfl⟩
  · split_ifs at h
    · simp only [Prod.mk.injEq, Next.again.injEq] at h
      obtain ⟨-, rfl⟩ := h
      exact ⟨by dsimp only; omega, rfl⟩
    · simp at h

/-- **Where sessions come from**: the sessions after an attempt are those there were, or what a refresh brought. -/
theorem session_of_nextAttempt {crypto : Crypto} {q : Query} {domains domains' : Domains}
    {result : Except Failure QueryOutcome} {next : Next} (h : nextAttempt crypto q domains result = (domains', next))
    {d : Domain} {ds : DomainSession} (hds : domains' d = some ds) :
    domains d = some ds ∨ d = q.domain ∧ ∃ info, result = .ok (.sessionRefresh info) ∧ sessionOf crypto info = some ds := by
  have hdrop : ∀ domains' : Domains, domains.drop q.domain = domains' → domains' d = some ds → domains d = some ds := by
    rintro _ rfl hds
    unfold Domains.drop at hds
    by_cases hd : d = q.domain
    · rw [hd, Function.update_self] at hds
      exact absurd hds (by simp)
    · rwa [Function.update_of_ne hd] at hds
  unfold nextAttempt at h
  split at h
  · exact .inl ((Prod.mk.inj h).1 ▸ hds)
  · rename_i info
    split_ifs at h
    · exact .inl (hdrop _ (Prod.mk.inj h).1 hds)
    · exact .inl ((Prod.mk.inj h).1 ▸ hds)
    · split at h
      · rename_i ds' hds'
        obtain rfl := (Prod.mk.inj h).1
        by_cases hd : d = q.domain
        · rw [hd, Function.update_self] at hds
          exact .inr ⟨hd, info, rfl, hds'.trans hds⟩
        · rw [Function.update_of_ne hd] at hds
          exact .inl hds
      · exact .inl ((Prod.mk.inj h).1 ▸ hds)
  · split_ifs at h
    all_goals exact .inl ((Prod.mk.inj h).1 ▸ hds)
  · split_ifs at h
    · exact .inl (hdrop _ (Prod.mk.inj h).1 hds)
    · exact .inl ((Prod.mk.inj h).1 ▸ hds)

/-! ## The session task -/

/-- An exchange without a signature that keeps nothing of its reply. -/
inductive Exchange where
  | bodyController
  | checkPairing
  deriving DecidableEq

/-- The domain that is asked. -/
def Exchange.domain : Exchange → Domain
  | .bodyController => .vehicleSecurity
  | .checkPairing => .infotainment

/-- What the session task is doing. -/
inductive Activity where
  | idle
  /-- About to make sure of the connection and the session, and to sign. -/
  | attempt (q : Query)
  | handshake (q : Query) (r : Request)
  | awaiting (q : Query) (r : Request) (key requestTag : Octets)
  | exchange (kind : Exchange) (r : Request)

/-- The state of the session task (`SessionState`). -/
structure Client where
  connected : Bool
  domains : Domains
  queriesSinceConnect : Nat
  queryTimeoutRetries : Nat
  activity : Activity

/-- A session task that has just started. -/
def Client.fresh : Client := ⟨false, fun _ => none, 0, 0, .idle⟩

/-- The request whose reply the task waits for. -/
def Client.awaited (c : Client) : Option Request :=
  match c.activity with
  | .idle | .attempt _ => none
  | .handshake _ r | .awaiting _ r _ _ | .exchange _ r => some r

/-- `MAX_QUERY_TIMEOUT_RETRIES`. -/
def maxQueryTimeoutRetries : Nat := 2

/-- Drop the connection and with it all sessions. -/
def Client.teardown (c : Client) : Client :=
  { c with connected := false, domains := fun _ => none, queriesSinceConnect := 0 }

/-- What a failed command does to the connection (`handle_transport_error_if_any`). -/
def Client.handleTransportError (c : Client) (e : Failure) : Client :=
  if e = .responseTooLarge ∨ c.connected = false then c
  else if e = .responseTimeout ∧ 1 ≤ c.queriesSinceConnect ∧ c.queryTimeoutRetries < maxQueryTimeoutRetries then
    { c with queryTimeoutRetries := c.queryTimeoutRetries + 1 }
  else if e = .transport ∨ e = .responseTimeout then c.teardown
  else c

/-- `note_successful_query`. -/
def Client.noteSuccessfulQuery (c : Client) : Client :=
  { c with queriesSinceConnect := c.queriesSinceConnect + 1, queryTimeoutRetries := 0 }

/-- The end of a command (`run_session_task`). -/
def Client.finish {α : Type} (c : Client) : Except Failure α → Client
  | .ok _ => { c.noteSuccessfulQuery with activity := .idle }
  | .error e => { c.handleTransportError e with activity := .idle }

/-- The task after an attempt. -/
def Client.proceed (crypto : Crypto) (c : Client) (q : Query) (domains : Domains) (result : Except Failure QueryOutcome) :
    Client :=
  match nextAttempt crypto q domains result with
  | (domains, .again q) => { c with domains := domains, activity := .attempt q }
  | (domains, .finished result) => { c with domains := domains }.finish result

/-- The end of a command keeps sessions or drops them all. -/
theorem session_of_finish {α : Type} {c : Client} {result : Except Failure α} {d : Domain} {ds : DomainSession}
    (h : (c.finish result).domains d = some ds) : c.domains d = some ds := by
  cases result with
  | ok a => exact h
  | error e =>
    change (c.handleTransportError e).domains d = some ds at h
    unfold Client.handleTransportError Client.teardown at h
    split_ifs at h
    all_goals exact h

theorem activity_finish {α : Type} (c : Client) (result : Except Failure α) : (c.finish result).activity = .idle := by
  cases result <;> rfl

/-- **After an attempt**: the sessions are those there were, or what a refresh brought; and the task is idle, or about to
try again with less of its budgets. -/
theorem proceed_spec (crypto : Crypto) (c : Client) (q : Query) (domains : Domains)
    (result : Except Failure QueryOutcome) :
    (∀ d ds, (c.proceed crypto q domains result).domains d = some ds → domains d = some ds
      ∨ d = q.domain ∧ ∃ info, result = .ok (.sessionRefresh info) ∧ sessionOf crypto info = some ds)
      ∧ ((c.proceed crypto q domains result).activity = .idle
        ∨ ∃ q', (c.proceed crypto q domains result).activity = .attempt q' ∧ q'.budget + 1 = q.budget) := by
  unfold Client.proceed
  split
  · rename_i domains' q' h
    exact ⟨fun d ds hds => session_of_nextAttempt h hds, .inr ⟨q', rfl, (budget_of_again h).1⟩⟩
  · rename_i domains' r h
    exact ⟨fun d ds hds => session_of_nextAttempt h (session_of_finish hds), .inl (activity_finish _ r)⟩

end SentryUsb.Ble
