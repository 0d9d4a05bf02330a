import SentryUsb.Ble.SignedSession
import SentryUsb.Library.LossyChannel
import SentryUsb.Library.TransitionSystem

/-! # Signed requests on their way to the car

The session task, the link and the car, step by step and in any order. Requests arrive in the order in which they are sent
or not at all; the replies of the car may be lost, late, repeated or in another order. A reply echoes the routing address
of its request, and a session info in it carries a counter that is not below any the car has received in its epoch.

* **`System`**, **`step`** — the parties and what each can do;
* **`step_cases`** — the six things a step can do to the sessions and the link;
* **`Safe`** — the invariant: counters grow along the link, and every session is ahead of it;
* **`signed_commands_safe`** — no counter is received twice or wraps, no reply is taken for another request's, and a
  query signs four requests at most. -/

namespace SentryUsb.Ble

open Library

/-! ## The system -/

/-- The session task, the link, the replies the car has sent, and, for the record, all requests and how many of them the
query under way has signed. -/
structure System where
  client : Client
  channel : Channel Request
  replies : List Reply
  sent : List Request
  signedByQuery : Nat

/-- Nothing has happened. -/
def System.init : System := ⟨Client.fresh, Channel.empty, [], [], 0⟩

inductive Action where
  /-- A query is taken up. -/
  | begin (domain : Domain) (inner : Octets)
  | connect
  /-- Connecting fails, or the round trip under way does. -/
  | fail (e : Failure)
  | requestSession (address uuid : Octets)
  | sign (address uuid : Octets) (elapsed : UInt32)
  | exchange (kind : Exchange) (address uuid : Octets)
  /-- A reply is received; `late` is whether it comes ten seconds after its request, `readable` whether a reply to an
  exchange can be read. -/
  | receive (i : Nat) (late readable : Bool)
  | forceReconnect
  /-- The process ends, and the task starts anew. -/
  | restart
  | arrive
  | lose (i : Nat)
  /-- The car answers a request that has arrived. -/
  | answer (i : Nat) (reply : Reply)
  /-- The car sends something to no one in particular. -/
  | broadcast (reply : Reply)

/-- `random_uuid_bytes`: sixteen bytes that no request had before. -/
def System.isFresh (s : System) (address : Octets) : Bool :=
  decide (address.length = 16) && s.sent.all fun r => decide (r.address ≠ address)

/-- A session info is not behind what has arrived in its epoch. -/
def coversArrived (arrived : List Request) (d : Domain) (info : SessionInfo) : Bool :=
  arrived.all fun r => r.signature.all fun sig =>
    decide (r.domain ≠ d) || decide (sig.epoch ≠ info.epoch) || decide (sig.counter ≤ info.counter)

/-- Whether the payload of a reply is a session info that is not behind. -/
def Payload.honest (arrived : List Request) (d : Domain) : Payload → Bool
  | .sessionInfo (some info) => coversArrived arrived d info
  | _ => true

/-- Whether a payload carries a session info. -/
def Payload.isSessionInfo : Payload → Bool
  | .sessionInfo (some _) => true
  | _ => false

/-- The task sends a request and waits for its reply. -/
def System.send (s : System) (r : Request) (client : Client) : System :=
  { s with client := client, channel := s.channel.send r, sent := s.sent ++ [r] }

/-- What the task makes of a reply it takes for an answer. -/
def Client.receive (crypto : Crypto) (c : Client) (reply : Reply) (late readable : Bool) : Client :=
  match c.activity with
  | .handshake q _ => match parseResponse reply with
    | .error e => c.proceed crypto q c.domains (.error e)
    | .ok info => match sessionOf crypto info with
      | some ds => { c with domains := Function.update c.domains q.domain (some ds), activity := .attempt q }
      | none => c.proceed crypto q c.domains (.error .refused)
  | .awaiting q _ key tag =>
    let (drop, result) := readSignedReply crypto key tag late reply
    c.proceed crypto q (if drop then c.domains.drop q.domain else c.domains) result
  | .exchange .bodyController _ => c.finish (if readable then .ok () else .error .refused)
  | .exchange .checkPairing _ => match parseResponse reply with
    -- a verdict of the car, whatever it is, is no fault
    | .ok _ | .error .keyNotPaired => { c with activity := .idle }
    | .error e => c.finish (.error e : Except Failure Unit)
  | .idle | .attempt _ => c

/-- One step of the system. -/
def step (crypto : Crypto) (s : System) : Action → Option System
  | .begin domain inner => match s.client.activity with
    | .idle => some { s with client := { s.client with activity := .attempt (.start domain inner) }, signedByQuery := 0 }
    | _ => none
  -- `ensure_connected`, in an attempt or before an exchange
  | .connect => match s.client.activity with
    | .idle | .attempt _ =>
      if s.client.connected then none
      else some { s with client := { s.client with connected := true, queriesSinceConnect := 0, queryTimeoutRetries := 0 } }
    | _ => none
  | .fail e => match s.client.activity with
    | .attempt q =>
      if s.client.connected = false ∧ e = .connect then
        some { s with client := s.client.proceed crypto q s.client.domains (.error e) }
      else none
    | .handshake q _ | .awaiting q _ _ _ =>
      if e ∈ [.transport, .responseTimeout, .refused] then
        some { s with client := s.client.proceed crypto q s.client.domains (.error e) }
      else none
    | .exchange _ _ =>
      if e ∈ [.transport, .responseTimeout, .refused] then
        some { s with client := s.client.finish (.error e : Except Failure Unit) }
      else none
    | .idle => none
  -- `ensure_domain_session`
  | .requestSession address uuid => match s.client.activity with
    | .attempt q =>
      if s.client.connected = true ∧ s.client.domains q.domain = none ∧ s.isFresh address = true then
        let r : Request := ⟨q.domain, address, uuid, none⟩
        some (s.send r { s.client with activity := .handshake q r })
      else none
    | _ => none
  -- `try_signed_request_once`, up to the round trip
  | .sign address uuid elapsed => match s.client.activity with
    | .attempt q => match s.client.domains q.domain with
      | some ds =>
        if s.client.connected = true ∧ s.isFresh address = true then
          if ds.counter = UInt32.ofNat 4294967295 then
            some { s with client := s.client.proceed crypto q (s.client.domains.drop q.domain) (.error .refused) }
          else match crypto.sign ds.key q.inner q.domain ds.epoch (ds.expiresAt elapsed) (ds.counter + 1) with
            | some tag =>
              let r : Request := ⟨q.domain, address, uuid, some ⟨ds.epoch, ds.counter + 1, tag⟩⟩
              -- the counter is advanced before the request is sent
              let domains := Function.update s.client.domains q.domain (some { ds with counter := ds.counter + 1 })
              some { s.send r { s.client with domains := domains, activity := .awaiting q r ds.key tag } with
                signedByQuery := s.signedByQuery + 1 }
            | none => some { s with client := s.client.proceed crypto q s.client.domains (.error .refused) }
        else none
      | none => none
    | _ => none
  | .exchange kind address uuid => match s.client.activity with
    | .idle =>
      if s.client.connected = true ∧ s.isFresh address = true then
        let r : Request := ⟨kind.domain, address, uuid, none⟩
        some (s.send r { s.client with activity := .exchange kind r })
      else none
    | _ => none
  | .receive i late readable => match s.replies[i]?, s.client.awaited with
    | some reply, some r =>
      if r.accepts reply then some { s with client := s.client.receive crypto reply late readable } else none
    | _, _ => none
  -- outside its cooldown, and with a connection
  | .forceReconnect => match s.client.activity with
    | .idle =>
      if s.client.connected then some { s with client := { s.client.teardown with queryTimeoutRetries := 0 } } else none
    | _ => none
  | .restart => some { s with client := Client.fresh, signedByQuery := 0 }
  | .arrive => s.channel.arrive.map fun channel => { s with channel := channel }
  | .lose i => some { s with channel := s.channel.lose i }
  | .answer i reply => match s.channel.arrived[i]? with
    | some r =>
      if reply.toAddress = some r.address ∧ reply.payload.honest s.channel.arrived r.domain = true then
        some { s with replies := s.replies ++ [reply] }
      else none
    | none => none
  | .broadcast reply =>
    if reply.toAddress = none ∧ reply.payload.isSessionInfo = false then
      some { s with replies := s.replies ++ [reply] }
    else none

/-! ## What a step can do -/

/-- The request under way goes to the domain of its query. -/
def Client.Matched (c : Client) : Prop :=
  match c.activity with
  | .handshake q r | .awaiting q r _ _ => r.domain = q.domain
  | .idle | .attempt _ | .exchange _ _ => True

/-- The six things a step can do to the sessions and the link. -/
inductive Effect (s s' : System) : Prop where
  /-- The task goes on by itself: it keeps sessions, drops them, or takes one from a reply. -/
  | task (hchannel : s'.channel = s.channel) (hreplies : s'.replies = s.replies) (hsent : s'.sent = s.sent)
      (hawaited : s'.client.awaited = s.client.awaited ∨ s'.client.awaited = none)
      (hdomains : ∀ d ds, s'.client.domains d = some ds → s.client.domains d = some ds
        ∨ ∃ r reply info, s.client.awaited = some r ∧ reply ∈ s.replies ∧ r.accepts reply = true
          ∧ reply.payload = .sessionInfo (some info) ∧ d = r.domain ∧ ds.epoch = info.epoch ∧ ds.counter = info.counter)
  /-- It sends a request without a signature. -/
  | plain (r : Request) (hsignature : r.signature = none) (hfresh : s.isFresh r.address = true)
      (hchannel : s'.channel = s.channel.send r) (hreplies : s'.replies = s.replies) (hsent : s'.sent = s.sent ++ [r])
      (hawaited : s'.client.awaited = some r) (hdomains : s'.client.domains = s.client.domains)
  /-- It signs a request with the next counter of its session. -/
  | signed (r : Request) (ds : DomainSession) (sig : Signature) (hsession : s.client.domains r.domain = some ds)
      (hsignature : r.signature = some sig) (hepoch : sig.epoch = ds.epoch) (hcounter : sig.counter = ds.counter + 1)
      (hroom : ds.counter ≠ UInt32.ofNat 4294967295) (hfresh : s.isFresh r.address = true)
      (hchannel : s'.channel = s.channel.send r) (hreplies : s'.replies = s.replies) (hsent : s'.sent = s.sent ++ [r])
      (hawaited : s'.client.awaited = some r)
      (hdomains : s'.client.domains = Function.update s.client.domains r.domain (some { ds with counter := ds.counter + 1 }))
  | arrives (hchannel : s.channel.arrive = some s'.channel) (hreplies : s'.replies = s.replies) (hsent : s'.sent = s.sent)
      (hclient : s'.client = s.client)
  | loses (i : Nat) (hchannel : s'.channel = s.channel.lose i) (hreplies : s'.replies = s.replies)
      (hsent : s'.sent = s.sent) (hclient : s'.client = s.client)
  /-- The car says something. -/
  | answers (reply : Reply) (hchannel : s'.channel = s.channel) (hreplies : s'.replies = s.replies ++ [reply])
      (hsent : s'.sent = s.sent) (hclient : s'.client = s.client)
      (hhonest : ∀ info, reply.payload = .sessionInfo (some info) → ∃ r ∈ s.channel.arrived,
        reply.toAddress = some r.address ∧ coversArrived s.channel.arrived r.domain info = true)

/-- After an attempt the task waits for nothing. -/
theorem awaited_proceed (crypto : Crypto) (c : Client) (q : Query) (domains : Domains)
    (result : Except Failure QueryOutcome) :
    (c.proceed crypto q domains result).awaited = none ∧ (c.proceed crypto q domains result).Matched := by
  unfold Client.awaited Client.Matched
  rcases (proceed_spec crypto c q domains result).2 with hidle | ⟨q', hattempt, -⟩
  · rw [hidle]
    exact ⟨rfl, trivial⟩
  · rw [hattempt]
    exact ⟨rfl, trivial⟩

theorem awaited_finish {α : Type} (c : Client) (result : Except Failure α) :
    (c.finish result).awaited = none ∧ (c.finish result).Matched := by
  unfold Client.awaited Client.Matched
  rw [activity_finish]
  exact ⟨rfl, trivial⟩

/-- **Receiving a reply**: the task waits no more, and a session it did not have is what the reply says. -/
theorem receive_spec (crypto : Crypto) {c : Client} (hmatched : c.Matched) {r : Request} (hr : c.awaited = some r)
    (reply : Reply) (late readable : Bool) :
    (c.receive crypto reply late readable).awaited = none ∧ (c.receive crypto reply late readable).Matched
      ∧ ∀ d ds, (c.receive crypto reply late readable).domains d = some ds → c.domains d = some ds
        ∨ d = r.domain ∧ ∃ info, reply.payload = .sessionInfo (some info) ∧ ds.epoch = info.epoch
          ∧ ds.counter = info.counter := by
  have hsession : ∀ {info : SessionInfo} {ds : DomainSession}, sessionOf crypto info = some ds →
      ds.epoch = info.epoch ∧ ds.counter = info.counter := by
    intro info ds h
    obtain ⟨key, -, rfl⟩ := Option.map_eq_some_iff.mp h
    exact ⟨rfl, rfl⟩
  -- an attempt that ends without a refresh
  have hplain : ∀ (q : Query) (e : Failure), (c.proceed crypto q c.domains (.error e)).awaited = none
      ∧ (c.proceed crypto q c.domains (.error e)).Matched
      ∧ ∀ d ds, (c.proceed crypto q c.domains (.error e)).domains d = some ds → c.domains d = some ds
        ∨ d = r.domain ∧ ∃ info, reply.payload = .sessionInfo (some info) ∧ ds.epoch = info.epoch
          ∧ ds.counter = info.counter := by
    intro q e
    refine ⟨(awaited_proceed ..).1, (awaited_proceed ..).2, fun d ds hds => ?_⟩
    rcases (proceed_spec crypto c q c.domains (.error e)).1 d ds hds with hold | ⟨-, info, habsurd, -⟩
    · exact .inl hold
    · exact absurd habsurd (by simp)
  unfold Client.receive
  unfold Client.Matched at hmatched
  unfold Client.awaited at hr
  cases hactivity : c.activity with
  | idle => rw [hactivity] at hr; exact absurd hr (by simp)
  | attempt q => rw [hactivity] at hr; exact absurd hr (by simp)
  | handshake q r' =>
    rw [hactivity] at hr hmatched
    obtain rfl := Option.some.inj hr
    dsimp only
    cases hparse : parseResponse reply with
    | error e => exact hplain q e
    | ok info =>
      dsimp only
      cases hds : sessionOf crypto info with
      | none => exact hplain q .refused
      | some ds' =>
        refine ⟨rfl, trivial, fun d ds h => ?_⟩
        replace h : Function.update c.domains q.domain (some ds') d = some ds := h
        by_cases hd : d = q.domain
        · rw [hd, Function.update_self] at h
          rw [Option.some.inj h] at hds
          exact .inr ⟨hd.trans hmatched.symm, info, info_of_parseResponse hparse, hsession hds⟩
        · rw [Function.update_of_ne hd] at h
          exact .inl h
  | awaiting q r' key tag =>
    rw [hactivity] at hr hmatched
    obtain rfl := Option.some.inj hr
    dsimp only
    refine ⟨(awaited_proceed ..).1, (awaited_proceed ..).2, fun d ds h => ?_⟩
    rcases (proceed_spec crypto c q _ _).1 d ds h with hold | ⟨hd, info, hresult, hds⟩
    · refine .inl ?_
      split at hold
      · unfold Domains.drop at hold
        by_cases hd : d = q.domain
        · rw [hd, Function.update_self] at hold
          exact absurd hold (by simp)
        · rwa [Function.update_of_ne hd] at hold
      · exact hold
    · exact .inr ⟨hd.trans hmatched.symm, info, payload_of_sessionRefresh (Prod.ext rfl hresult), hsession hds⟩
  | exchange kind r' =>
    cases kind with
    | bodyController =>
      exact ⟨(awaited_finish ..).1, (awaited_finish ..).2, fun d ds h => .inl (session_of_finish h)⟩
    | checkPairing =>
      dsimp only
      split
      · exact ⟨rfl, trivial, fun d ds h => .inl h⟩
      · exact ⟨rfl, trivial, fun d ds h => .inl h⟩
      · exact ⟨(awaited_finish ..).1, (awaited_finish ..).2, fun d ds h => .inl (session_of_finish h)⟩

theorem Effect.task_of_kept {s s' : System} (hchannel : s'.channel = s.channel) (hreplies : s'.replies = s.replies)
    (hsent : s'.sent = s.sent) (hawaited : s'.client.awaited = s.client.awaited ∨ s'.client.awaited = none)
    (hdomains : ∀ d ds, s'.client.domains d = some ds → s.client.domains d = some ds) : Effect s s' :=
  .task hchannel hreplies hsent hawaited fun d ds h => .inl (hdomains d ds h)

/-- Without a refresh an attempt brings no session. -/
theorem domains_proceed_error {crypto : Crypto} {c : Client} {q : Query} {domains : Domains} {e : Failure}
    (hsub : ∀ d ds, domains d = some ds → c.domains d = some ds) (d : Domain) (ds : DomainSession)
    (h : (c.proceed crypto q domains (.error e)).domains d = some ds) : c.domains d = some ds := by
  rcases (proceed_spec crypto c q domains (.error e)).1 d ds h with hold | ⟨-, info, habsurd, -⟩
  · exact hsub d ds hold
  · exact absurd habsurd (by simp)

/-- **What a step can do.** -/
theorem step_cases {crypto : Crypto} {s s' : System} {a : Action} (hmatched : s.client.Matched)
    (h : step crypto s a = some s') : Effect s s' ∧ s'.client.Matched := by
  -- an attempt that ends in an error
  have herror : ∀ (q : Query) (domains : Domains) (e : Failure),
      (∀ d ds, domains d = some ds → s.client.domains d = some ds) →
      Effect s { s with client := s.client.proceed crypto q domains (.error e) }
        ∧ (s.client.proceed crypto q domains (.error e)).Matched := fun q domains e hsub =>
    ⟨.task_of_kept rfl rfl rfl (.inr (awaited_proceed ..).1) (domains_proceed_error hsub), (awaited_proceed ..).2⟩
  cases a with
  | begin domain inner =>
    simp only [step] at h
    split at h
    · obtain rfl := Option.some.inj h
      exact ⟨.task_of_kept rfl rfl rfl (.inr rfl) fun _ _ h => h, trivial⟩
    · exact absurd h (by simp)
  | connect =>
    simp only [step] at h
    have hsame : ∀ c : Client, c.activity = s.client.activity → c.domains = s.client.domains →
        Effect s { s with client := c } ∧ c.Matched := by
      intro c hactivity hdomains
      refine ⟨.task_of_kept rfl rfl rfl (.inl ?_) fun d ds h => ?_, ?_⟩
      · unfold Client.awaited
        rw [hactivity]
      · rw [← hdomains]
        exact h
      · unfold Client.Matched
        rw [hactivity]
        exact hmatched
    split at h
    · obtain rfl := Option.some.inj (Option.ite_none_left_eq_some.mp h).2
      exact hsame _ rfl rfl
    · obtain rfl := Option.some.inj (Option.ite_none_left_eq_some.mp h).2
      exact hsame _ rfl rfl
    · exact absurd h (by simp)
  | fail e =>
    simp only [step] at h
    split at h
    · obtain rfl := Option.some.inj (Option.ite_none_right_eq_some.mp h).2
      exact herror _ _ e fun _ _ h => h
    · obtain rfl := Option.some.inj (Option.ite_none_right_eq_some.mp h).2
      exact herror _ _ e fun _ _ h => h
    · obtain rfl := Option.some.inj (Option.ite_none_right_eq_some.mp h).2
      exact herror _ _ e fun _ _ h => h
    · obtain rfl := Option.some.inj (Option.ite_none_right_eq_some.mp h).2
      have hdone := awaited_finish s.client (.error e : Except Failure Unit)
      have hkept : ∀ d ds, (s.client.finish (.error e : Except Failure Unit)).domains d = some ds →
          s.client.domains d = some ds := fun _ _ h => session_of_finish h
      exact ⟨.task_of_kept rfl rfl rfl (.inr hdone.1) hkept, hdone.2⟩
    · exact absurd h (by simp)
  | requestSession address uuid =>
    simp only [step] at h
    split at h
    · obtain ⟨⟨-, -, hfresh⟩, h⟩ := Option.ite_none_right_eq_some.mp h
      obtain rfl := Option.some.inj h
      exact ⟨.plain _ rfl hfresh rfl rfl rfl rfl rfl, rfl⟩
    · exact absurd h (by simp)
  | sign address uuid elapsed =>
    simp only [step] at h
    split at h
    · rename_i q _
      split at h
      · rename_i ds hds
        obtain ⟨⟨-, hfresh⟩, h⟩ := Option.ite_none_right_eq_some.mp h
        split at h
        · -- the counter has no room
          obtain rfl := Option.some.inj h
          refine herror q _ .refused fun d ds h => ?_
          unfold Domains.drop at h
          by_cases hd : d = q.domain
          · rw [hd, Function.update_self] at h
            exact absurd h (by simp)
          · rwa [Function.update_of_ne hd] at h
        · rename_i hroom
          split at h
          · rename_i tag _
            obtain rfl := Option.some.inj h
            exact ⟨.signed _ ds ⟨ds.epoch, ds.counter + 1, tag⟩ hds rfl rfl rfl hroom hfresh rfl rfl rfl rfl rfl, rfl⟩
          · obtain rfl := Option.some.inj h
            exact herror q _ .refused fun _ _ h => h
      · exact absurd h (by simp)
    · exact absurd h (by simp)
  | exchange kind address uuid =>
    simp only [step] at h
    split at h
    · obtain ⟨⟨-, hfresh⟩, h⟩ := Option.ite_none_right_eq_some.mp h
      obtain rfl := Option.some.inj h
      exact ⟨.plain _ rfl hfresh rfl rfl rfl rfl rfl, trivial⟩
    · exact absurd h (by simp)
  | receive i late readable =>
    simp only [step] at h
    split at h
    · rename_i reply r hreply hr
      obtain ⟨haccepts, h⟩ := Option.ite_none_right_eq_some.mp h
      obtain rfl := Option.some.inj h
      obtain ⟨hawaited, hmatched', hsessions⟩ := receive_spec crypto hmatched hr reply late readable
      refine ⟨.task rfl rfl rfl (.inr hawaited) fun d ds hds => ?_, hmatched'⟩
      rcases hsessions d ds hds with hold | ⟨hd, info, hinfo, hepoch, hcounter⟩
      · exact .inl hold
      · exact .inr ⟨r, reply, info, hr, List.mem_of_getElem? hreply, haccepts, hinfo, hd, hepoch, hcounter⟩
    · exact absurd h (by simp)
  | forceReconnect =>
    simp only [step] at h
    split at h
    · rename_i hidle
      obtain rfl := Option.some.inj (Option.ite_none_right_eq_some.mp h).2
      refine ⟨.task_of_kept rfl rfl rfl (.inl rfl) fun _ _ h => absurd h (by simp [Client.teardown]), ?_⟩
      unfold Client.Matched Client.teardown
      rw [hidle]
      trivial
    · exact absurd h (by simp)
  | restart =>
    obtain rfl := Option.some.inj h
    exact ⟨.task_of_kept rfl rfl rfl (.inr rfl) fun _ _ h => absurd h (by simp [Client.fresh]), trivial⟩
  | arrive =>
    obtain ⟨channel, harrive, rfl⟩ := Option.map_eq_some_iff.mp h
    exact ⟨.arrives harrive rfl rfl rfl, hmatched⟩
  | lose i =>
    obtain rfl := Option.some.inj h
    exact ⟨.loses i rfl rfl rfl rfl, hmatched⟩
  | answer i reply =>
    simp only [step] at h
    split at h
    · rename_i r hr
      obtain ⟨⟨haddress, hhonest⟩, h⟩ := Option.ite_none_right_eq_some.mp h
      obtain rfl := Option.some.inj h
      refine ⟨.answers reply rfl rfl rfl rfl fun info hinfo => ⟨r, List.mem_of_getElem? hr, haddress, ?_⟩, hmatched⟩
      rw [hinfo] at hhonest
      exact hhonest
    · exact absurd h (by simp)
  | broadcast reply =>
    simp only [step] at h
    obtain ⟨⟨-, hplain⟩, h⟩ := Option.ite_none_right_eq_some.mp h
    obtain rfl := Option.some.inj h
    refine ⟨.answers reply rfl rfl rfl rfl fun info hinfo => ?_, hmatched⟩
    rw [hinfo] at hplain
    exact absurd hplain (by simp [Payload.isSessionInfo])

/-! ## The invariant -/

/-- Two requests of one domain whose signatures are of one epoch have growing counters. -/
def Precedes (a b : Request) : Prop :=
  a.domain = b.domain → ∀ x y, a.signature = some x → b.signature = some y → x.epoch = y.epoch → x.counter < y.counter

/-- A session is not behind the signatures of its domain and epoch. -/
def Ahead (ds : DomainSession) (d : Domain) (messages : List Request) : Prop :=
  ∀ r ∈ messages, r.domain = d → ∀ sig, r.signature = some sig → sig.epoch = ds.epoch → sig.counter ≤ ds.counter

/-- A session info was not behind when the car gave it, in answer to a request that had arrived. -/
def Recorded (arrived : List Request) (reply : Reply) : Prop :=
  ∀ info, reply.payload = .sessionInfo (some info) → ∃ before after r, arrived = before ++ after ∧ r ∈ before
    ∧ reply.toAddress = some r.address ∧ coversArrived before r.domain info = true

/-- The record of what was sent: it holds all that is on the link, and no two requests share an address. -/
structure Register (sent messages : List Request) : Prop where
  known : ∀ r ∈ messages, r ∈ sent
  addresses : (sent.map Request.address).Nodup
  nonempty : ∀ r ∈ sent, r.address ≠ []

/-- **The invariant**: counters grow along the link, every session is ahead of them, the request that is waited for is the
latest, every session info was honest when it was given, and no two requests share an address. -/
structure Safe (s : System) : Prop where
  matched : s.client.Matched
  ordered : Channel.Ordered Precedes s.channel
  ahead : ∀ d ds, s.client.domains d = some ds → Ahead ds d s.channel.messages
  latest : ∀ r, s.client.awaited = some r → r ∈ s.sent ∧ Channel.Latest r s.channel
  recorded : ∀ reply ∈ s.replies, Recorded s.channel.arrived reply
  register : Register s.sent s.channel.messages

theorem safe_init : Safe System.init where
  matched := trivial
  ordered := Channel.ordered_empty
  ahead := fun _ _ h => absurd h (by simp [System.init, Client.fresh])
  latest := fun _ h => absurd h (by simp [System.init, Client.fresh, Client.awaited])
  recorded := fun _ h => absurd h List.not_mem_nil
  register := ⟨fun _ h => absurd h List.not_mem_nil, List.nodup_nil, fun _ h => absurd h List.not_mem_nil⟩

/-- **An address belongs to one request.** -/
theorem Register.eq_of_address {sent messages : List Request} (h : Register sent messages) {a b : Request}
    (ha : a ∈ sent) (hb : b ∈ sent) (heq : a.address = b.address) : a = b :=
  List.inj_on_of_nodup_map h.addresses ha hb heq

theorem isFresh_iff {s : System} {address : Octets} :
    s.isFresh address = true ↔ address.length = 16 ∧ ∀ r ∈ s.sent, r.address ≠ address := by
  unfold System.isFresh
  rw [Bool.and_eq_true, decide_eq_true_eq, List.all_eq_true]
  exact and_congr_right fun _ => forall₂_congr fun _ _ => decide_eq_true_iff

/-- Something more has arrived: what is recorded stays recorded. -/
theorem Recorded.mono {arrived : List Request} {reply : Reply} (h : Recorded arrived reply) (more : List Request) :
    Recorded (arrived ++ more) reply := by
  intro info hinfo
  obtain ⟨before, after, r, rfl, hr, haddress, hcovers⟩ := h info hinfo
  exact ⟨before, after ++ more, r, List.append_assoc _ _ _, hr, haddress, hcovers⟩

theorem coversArrived_iff {arrived : List Request} {d : Domain} {info : SessionInfo} :
    coversArrived arrived d info = true ↔ ∀ r ∈ arrived, r.domain = d → ∀ sig, r.signature = some sig →
      sig.epoch = info.epoch → sig.counter ≤ info.counter := by
  unfold coversArrived
  rw [List.all_eq_true]
  refine forall₂_congr fun r _ => ?_
  cases hsig : r.signature with
  | none => simp
  | some sig =>
    rw [Option.all_some, Bool.or_eq_true, Bool.or_eq_true, decide_eq_true_eq, decide_eq_true_eq, decide_eq_true_eq]
    constructor
    · rintro h hd x hx hepoch
      obtain rfl := Option.some.inj hx
      rcases h with (hne | hne) | hle
      · exact absurd hd hne
      · exact absurd hepoch hne
      · exact hle
    · intro h
      by_cases hd : r.domain = d
      · by_cases hepoch : sig.epoch = info.epoch
        · exact .inr (h hd sig rfl hepoch)
        · exact .inl (.inr hepoch)
      · exact .inl (.inl hd)

/-- **A session info that the task takes is not behind anything on the link**: it answers the latest request, which has
arrived, so nothing has arrived since the car gave it and nothing is on its way. -/
theorem Safe.ahead_of_info {s : System} (h : Safe s) {r : Request} (hr : s.client.awaited = some r) {reply : Reply}
    (hreply : reply ∈ s.replies) (haccepts : r.accepts reply = true) {info : SessionInfo}
    (hinfo : reply.payload = .sessionInfo (some info)) {ds : DomainSession} (hepoch : ds.epoch = info.epoch)
    (hcounter : ds.counter = info.counter) : Ahead ds r.domain s.channel.messages := by
  obtain ⟨hsent, hlatest⟩ := h.latest r hr
  obtain ⟨before, after, r', harrived, hr', haddress, hcovers⟩ := h.recorded reply hreply info hinfo
  have hmem : r' ∈ s.channel.arrived := by
    rw [harrived]
    exact List.mem_append_left _ hr'
  obtain rfl : r = r' := h.register.eq_of_address hsent
    (h.register.known r' (Channel.mem_messages_of_mem_arrived hmem))
    (Request.address_of_accepts (h.register.nonempty r hsent) haddress haccepts)
  have hflight := hlatest.inFlight_eq_nil hmem
  have hafter := hlatest.eq_nil_of_append harrived hr'
  have hall : s.channel.messages = before := by
    unfold Channel.messages
    rw [hflight, harrived, hafter, List.append_nil, List.append_nil]
  unfold Ahead
  rw [hall, hepoch, hcounter]
  exact coversArrived_iff.mp hcovers

theorem toNat_succ {c : UInt32} (h : c ≠ UInt32.ofNat 4294967295) : (c + 1).toNat = c.toNat + 1 := by
  have hlt := c.toNat_lt
  have hne : c.toNat ≠ 4294967295 := fun heq => h (UInt32.toNat_inj.mp (heq.trans rfl))
  rw [UInt32.toNat_add]
  exact Nat.mod_eq_of_lt (show c.toNat + 1 < 4294967296 by omega)

/-- A new request is entered. -/
theorem Register.send {s : System} (h : Register s.sent s.channel.messages) {r : Request}
    (hfresh : s.isFresh r.address = true) :
    r ∉ s.channel.messages ∧ Register (s.sent ++ [r]) (s.channel.send r).messages := by
  obtain ⟨hlength, hnew⟩ := isFresh_iff.mp hfresh
  refine ⟨fun hr => hnew r (h.known r hr) rfl, fun a ha => ?_, ?_, fun a ha => ?_⟩
  · rw [Channel.messages_send] at ha
    rcases List.mem_append.mp ha with ha | ha
    · exact List.mem_append_left _ (h.known a ha)
    · exact List.mem_append_right _ ha
  · rw [List.map_append]
    refine List.nodup_append.mpr ⟨h.addresses, List.nodup_singleton _, fun a ha b hb => ?_⟩
    obtain ⟨q, hq, rfl⟩ := List.mem_map.mp ha
    rw [List.mem_singleton.mp hb]
    exact hnew q hq
  · rcases List.mem_append.mp ha with ha | ha
    · exact h.nonempty a ha
    · rw [List.mem_singleton.mp ha]
      intro hnil
      rw [hnil] at hlength
      exact absurd hlength (by decide)

/-- **Every step keeps the invariant.** -/
theorem safe_step {crypto : Crypto} {s s' : System} {a : Action} (h : Safe s) (hstep : step crypto s a = some s') :
    Safe s' := by
  obtain ⟨heffect, hmatched⟩ := step_cases h.matched hstep
  cases heffect with
  | task hchannel hreplies hsent hawaited hdomains =>
    refine ⟨hmatched, ?_, fun d ds hds => ?_, fun r hr => ?_, ?_, ?_⟩
    · rw [hchannel]
      exact h.ordered
    · rw [hchannel]
      rcases hdomains d ds hds with hold | ⟨r, reply, info, hr, hreply, haccepts, hinfo, rfl, hepoch, hcounter⟩
      · exact h.ahead d ds hold
      · exact h.ahead_of_info hr hreply haccepts hinfo hepoch hcounter
    · rw [hchannel, hsent]
      rcases hawaited with hsame | hnone
      · exact h.latest r (hsame ▸ hr)
      · rw [hnone] at hr
        exact absurd hr (by simp)
    · rw [hreplies, hchannel]
      exact h.recorded
    · rw [hchannel, hsent]
      exact h.register
  | plain r hsignature hfresh hchannel hreplies hsent hawaited hdomains =>
    obtain ⟨hnew, hregister⟩ := h.register.send hfresh
    refine ⟨hmatched, ?_, fun d ds hds => ?_, fun r' hr => ?_, ?_, ?_⟩
    · rw [hchannel]
      refine h.ordered.send fun a _ _ x y _ hy => ?_
      rw [hsignature] at hy
      exact absurd hy (by simp)
    · rw [hdomains] at hds
      rw [hchannel, Channel.messages_send]
      intro b hb hbd sig hsig
      rcases List.mem_append.mp hb with hb | hb
      · exact h.ahead d ds hds b hb hbd sig hsig
      · rw [List.mem_singleton.mp hb, hsignature] at hsig
        exact absurd hsig (by simp)
    · obtain rfl := Option.some.inj (hawaited.symm.trans hr)
      rw [hchannel, hsent]
      exact ⟨by simp, Channel.latest_send hnew⟩
    · rw [hreplies, hchannel]
      exact h.recorded
    · rw [hchannel, hsent]
      exact hregister
  | signed r ds sig hsession hsignature hepoch hcounter hroom hfresh hchannel hreplies hsent hawaited hdomains =>
    obtain ⟨hnew, hregister⟩ := h.register.send hfresh
    have hnext : (ds.counter + 1).toNat = ds.counter.toNat + 1 := toNat_succ hroom
    refine ⟨hmatched, ?_, fun d ds' hds => ?_, fun r' hr => ?_, ?_, ?_⟩
    · -- the session was ahead, and the new counter is one more
      rw [hchannel]
      refine h.ordered.send fun a ha hd x y hx hy hxy => ?_
      obtain rfl := Option.some.inj (hsignature.symm.trans hy)
      have hle := h.ahead r.domain ds hsession a ha hd x hx (hxy.trans hepoch)
      rw [hcounter, UInt32.lt_iff_toNat_lt, hnext]
      rw [UInt32.le_iff_toNat_le] at hle
      omega
    · rw [hdomains] at hds
      rw [hchannel, Channel.messages_send]
      intro b hb hbd x hx hxe
      by_cases hd : d = r.domain
      · rw [hd, Function.update_self] at hds
        obtain rfl := Option.some.inj hds
        rcases List.mem_append.mp hb with hb | hb
        · have hle := h.ahead r.domain ds hsession b hb (hbd.trans hd) x hx hxe
          rw [UInt32.le_iff_toNat_le] at hle ⊢
          show x.counter.toNat ≤ (ds.counter + 1).toNat
          omega
        · rw [List.mem_singleton.mp hb] at hx
          obtain rfl := Option.some.inj (hsignature.symm.trans hx)
          exact UInt32.le_iff_toNat_le.mpr (le_of_eq (congrArg UInt32.toNat hcounter))
      · rw [Function.update_of_ne hd] at hds
        rcases List.mem_append.mp hb with hb | hb
        · exact h.ahead d ds' hds b hb hbd x hx hxe
        · rw [List.mem_singleton.mp hb] at hbd
          exact absurd hbd.symm hd
    · obtain rfl := Option.some.inj (hawaited.symm.trans hr)
      rw [hchannel, hsent]
      exact ⟨by simp, Channel.latest_send hnew⟩
    · rw [hreplies, hchannel]
      exact h.recorded
    · rw [hchannel, hsent]
      exact hregister
  | arrives hchannel hreplies hsent hclient =>
    obtain ⟨hmessages, m, harrived⟩ := Channel.of_arrive hchannel
    refine ⟨hmatched, h.ordered.arrive hchannel, ?_, fun r hr => ?_, ?_, ?_⟩
    · rw [hclient, hmessages]
      exact h.ahead
    · rw [hclient] at hr
      rw [hsent]
      exact ⟨(h.latest r hr).1, (h.latest r hr).2.arrive hchannel⟩
    · rw [hreplies, harrived]
      exact fun reply hreply => (h.recorded reply hreply).mono [m]
    · rw [hmessages, hsent]
      exact h.register
  | loses i hchannel hreplies hsent hclient =>
    have hsub : s'.channel.messages.Sublist s.channel.messages := by
      rw [hchannel]
      exact Channel.messages_lose i
    refine ⟨hmatched, ?_, fun d ds hds r hr => ?_, fun r hr => ?_, ?_, ?_⟩
    · rw [hchannel]
      exact h.ordered.lose i
    · rw [hclient] at hds
      exact h.ahead d ds hds r (hsub.subset hr)
    · rw [hclient] at hr
      rw [hsent, hchannel]
      exact ⟨(h.latest r hr).1, (h.latest r hr).2.lose i⟩
    · rw [hreplies, hchannel]
      exact h.recorded
    · rw [hsent]
      exact ⟨fun r hr => h.register.known r (hsub.subset hr), h.register.addresses, h.register.nonempty⟩
  | answers reply hchannel hreplies hsent hclient hhonest =>
    refine ⟨hmatched, ?_, ?_, ?_, fun reply' hreply' => ?_, ?_⟩
    · rw [hchannel]
      exact h.ordered
    · rw [hclient, hchannel]
      exact h.ahead
    · rw [hclient, hchannel, hsent]
      exact h.latest
    · rw [hreplies] at hreply'
      rw [hchannel]
      rcases List.mem_append.mp hreply' with hold | hnew
      · exact h.recorded reply' hold
      · -- nothing has arrived since
        rw [List.mem_singleton.mp hnew]
        intro info hinfo
        obtain ⟨r, hr, haddress, hcovers⟩ := hhonest info hinfo
        exact ⟨_, [], r, (List.append_nil _).symm, hr, haddress, hcovers⟩
    · rw [hchannel, hsent]
      exact h.register

/-! ## The budgets of a query -/

/-- What a query has signed and what is left of its budgets make four requests at most; the one it waits for is counted
among the signed ones. -/
def Activity.Affords (signed : Nat) : Activity → Prop
  | .attempt q | .handshake q _ => signed + q.budget ≤ 3
  | .awaiting q _ _ _ => signed + q.budget ≤ 4
  | .idle | .exchange _ _ => signed ≤ 4

theorem Activity.Affords.le {signed : Nat} {activity : Activity} (h : activity.Affords signed) : signed ≤ 4 := by
  cases activity with
  | attempt q => exact le_trans (Nat.le_add_right _ _) (le_trans h (by decide))
  | handshake q r => exact le_trans (Nat.le_add_right _ _) (le_trans h (by decide))
  | awaiting q r key tag => exact le_trans (Nat.le_add_right _ _) h
  | idle => exact h
  | exchange kind r => exact h

/-- A retry is paid for. -/
theorem affords_proceed (crypto : Crypto) (c : Client) {q : Query} (domains : Domains)
    (result : Except Failure QueryOutcome) {signed : Nat} (h : signed + q.budget ≤ 4) :
    (c.proceed crypto q domains result).activity.Affords signed := by
  rcases (proceed_spec crypto c q domains result).2 with hidle | ⟨q', hattempt, hbudget⟩
  · rw [hidle]
    show signed ≤ 4
    omega
  · rw [hattempt]
    show signed + q'.budget ≤ 3
    omega

theorem affords_finish {α : Type} (c : Client) (result : Except Failure α) {signed : Nat} (h : signed ≤ 4) :
    (c.finish result).activity.Affords signed := by
  rw [activity_finish]
  exact h

theorem affords_receive (crypto : Crypto) {c : Client} (reply : Reply) (late readable : Bool) {signed : Nat}
    (h : c.activity.Affords signed) : (c.receive crypto reply late readable).activity.Affords signed := by
  unfold Client.receive
  cases hactivity : c.activity with
  | idle =>
    dsimp only
    exact h
  | attempt q =>
    dsimp only
    exact h
  | handshake q r =>
    rw [hactivity] at h
    have hpaid : signed + q.budget ≤ 4 := le_trans h (by decide)
    dsimp only
    split
    · exact affords_proceed crypto c _ _ hpaid
    · split
      · exact h
      · exact affords_proceed crypto c _ _ hpaid
  | awaiting q r key tag =>
    rw [hactivity] at h
    exact affords_proceed crypto c _ _ h
  | exchange kind r =>
    rw [hactivity] at h
    cases kind with
    | bodyController => exact affords_finish c _ h
    | checkPairing =>
      dsimp only
      split
      · exact h
      · exact h
      · exact affords_finish c _ h

/-- **Every step keeps within the budgets.** -/
theorem affords_step {crypto : Crypto} {s s' : System} {a : Action} (h : s.client.activity.Affords s.signedByQuery)
    (hstep : step crypto s a = some s') : s'.client.activity.Affords s'.signedByQuery := by
  cases a with
  | begin domain inner =>
    simp only [step] at hstep
    split at hstep
    · obtain rfl := Option.some.inj hstep
      exact le_refl 3
    · exact absurd hstep (by simp)
  | connect =>
    simp only [step] at hstep
    split at hstep
    · obtain rfl := Option.some.inj (Option.ite_none_left_eq_some.mp hstep).2
      exact h
    · obtain rfl := Option.some.inj (Option.ite_none_left_eq_some.mp hstep).2
      exact h
    · exact absurd hstep (by simp)
  | fail e =>
    simp only [step] at hstep
    split at hstep
    · rename_i q hactivity
      obtain rfl := Option.some.inj (Option.ite_none_right_eq_some.mp hstep).2
      rw [hactivity] at h
      exact affords_proceed crypto _ _ _ (le_trans h (by decide))
    · rename_i q r hactivity
      obtain rfl := Option.some.inj (Option.ite_none_right_eq_some.mp hstep).2
      rw [hactivity] at h
      exact affords_proceed crypto _ _ _ (le_trans h (by decide))
    · rename_i q r key tag hactivity
      obtain rfl := Option.some.inj (Option.ite_none_right_eq_some.mp hstep).2
      rw [hactivity] at h
      exact affords_proceed crypto _ _ _ h
    · rename_i kind r hactivity
      obtain rfl := Option.some.inj (Option.ite_none_right_eq_some.mp hstep).2
      rw [hactivity] at h
      exact affords_finish _ _ h
    · exact absurd hstep (by simp)
  | requestSession address uuid =>
    simp only [step] at hstep
    split at hstep
    · rename_i q hactivity
      obtain rfl := Option.some.inj (Option.ite_none_right_eq_some.mp hstep).2
      rw [hactivity] at h
      exact h
    · exact absurd hstep (by simp)
  | sign address uuid elapsed =>
    simp only [step] at hstep
    split at hstep
    · rename_i q hactivity
      rw [hactivity] at h
      have hpaid : s.signedByQuery + q.budget ≤ 4 := le_trans h (by decide)
      split at hstep
      · obtain ⟨-, hstep⟩ := Option.ite_none_right_eq_some.mp hstep
        split at hstep
        · obtain rfl := Option.some.inj hstep
          exact affords_proceed crypto _ _ _ hpaid
        · split at hstep
          · obtain rfl := Option.some.inj hstep
            show s.signedByQuery + 1 + q.budget ≤ 4
            have hthree : s.signedByQuery + q.budget ≤ 3 := h
            omega
          · obtain rfl := Option.some.inj hstep
            exact affords_proceed crypto _ _ _ hpaid
      · exact absurd hstep (by simp)
    · exact absurd hstep (by simp)
  | exchange kind address uuid =>
    simp only [step] at hstep
    split at hstep
    · rename_i hactivity
      obtain rfl := Option.some.inj (Option.ite_none_right_eq_some.mp hstep).2
      rw [hactivity] at h
      exact h
    · exact absurd hstep (by simp)
  | receive i late readable =>
    simp only [step] at hstep
    split at hstep
    · obtain rfl := Option.some.inj (Option.ite_none_right_eq_some.mp hstep).2
      exact affords_receive crypto _ late readable h
    · exact absurd hstep (by simp)
  | forceReconnect =>
    simp only [step] at hstep
    split at hstep
    · obtain rfl := Option.some.inj (Option.ite_none_right_eq_some.mp hstep).2
      exact h
    · exact absurd hstep (by simp)
  | restart =>
    obtain rfl := Option.some.inj hstep
    exact Nat.zero_le 4
  | arrive =>
    obtain ⟨channel, -, rfl⟩ := Option.map_eq_some_iff.mp hstep
    exact h
  | lose i =>
    obtain rfl := Option.some.inj hstep
    exact h
  | answer i reply =>
    simp only [step] at hstep
    split at hstep
    · obtain rfl := Option.some.inj (Option.ite_none_right_eq_some.mp hstep).2
      exact h
    · exact absurd hstep (by simp)
  | broadcast reply =>
    simp only [step] at hstep
    obtain rfl := Option.some.inj (Option.ite_none_right_eq_some.mp hstep).2
    exact h

/-! ## The result -/

/-- **Signed commands are never replayed or confused.** In every state that is reached: the signed requests that have
arrived have growing counters in each domain and epoch; a request that is signed next carries the counter of its session
plus one, without wrapping; a reply that echoes a routing address is received only for the one request that carried it; and
the query under way has signed four requests at most. -/
theorem signed_commands_safe (crypto : Crypto) {s : System} (h : Reachable (step crypto) System.init s) :
    s.channel.arrived.Pairwise Precedes
      ∧ (∀ a s', step crypto s a = some s' → ∀ r ∈ s'.sent, r ∉ s.sent → ∀ sig, r.signature = some sig →
        ∃ ds, s.client.domains r.domain = some ds ∧ sig.epoch = ds.epoch
          ∧ sig.counter.toNat = ds.counter.toNat + 1)
      ∧ (∀ i late readable s', step crypto s (.receive i late readable) = some s' →
        ∀ reply address, s.replies[i]? = some reply → reply.toAddress = some address →
          ∃ r, s.client.awaited = some r ∧ r.address = address ∧ r ∈ s.sent
            ∧ ∀ r' ∈ s.sent, r'.address = address → r' = r)
      ∧ s.signedByQuery ≤ 4 := by
  have hsafe : Safe s := h.invariant safe_init fun _ _ _ ht _ hstep => safe_step ht hstep
  have hbudget : s.client.activity.Affords s.signedByQuery :=
    @Reaches.invariant _ _ _ _ _ _ (fun s => s.client.activity.Affords s.signedByQuery) h (Nat.zero_le 4)
      fun _ _ _ ht _ hstep => affords_step ht hstep
  refine ⟨hsafe.ordered.arrived, fun a s' hstep r hr hnew sig hsig => ?_, fun i late readable s' hstep reply address hreply
    hto => ?_, hbudget.le⟩
  · cases (step_cases hsafe.matched hstep).1 with
    | task _ _ hsent => exact absurd (hsent ▸ hr) hnew
    | plain r' hsignature _ _ _ hsent =>
      rw [hsent] at hr
      rcases List.mem_append.mp hr with hr | hr
      · exact absurd hr hnew
      · rw [List.mem_singleton.mp hr, hsignature] at hsig
        exact absurd hsig (by simp)
    | signed r' ds sig' hsession hsignature hepoch hcounter hroom _ _ _ hsent =>
      rw [hsent] at hr
      rcases List.mem_append.mp hr with hr | hr
      · exact absurd hr hnew
      · obtain rfl := List.mem_singleton.mp hr
        obtain rfl := Option.some.inj (hsignature.symm.trans hsig)
        exact ⟨ds, hsession, hepoch, by rw [hcounter, toNat_succ hroom]⟩
    | arrives _ _ hsent => exact absurd (hsent ▸ hr) hnew
    | loses _ _ _ hsent => exact absurd (hsent ▸ hr) hnew
    | answers _ _ _ hsent => exact absurd (hsent ▸ hr) hnew
  · simp only [step] at hstep
    split at hstep
    · rename_i reply' r hreply' hr
      obtain rfl := Option.some.inj (hreply.symm.trans hreply')
      obtain ⟨haccepts, -⟩ := Option.ite_none_right_eq_some.mp hstep
      obtain ⟨hsent, -⟩ := hsafe.latest r hr
      have haddress := Request.address_of_accepts (hsafe.register.nonempty r hsent) hto haccepts
      exact ⟨r, hr, haddress, hsent, fun r' hr' heq =>
        hsafe.register.eq_of_address hr' hsent (heq.trans haddress.symm)⟩
    · exact absurd hstep (by simp)

/-- Stand-ins for the cryptography: the key is the public key, and a tag tells the counter. -/
def plainCrypto : Crypto where
  deriveSessionKey := some
  sign := fun _ _ _ _ _ counter => some [counter.toUInt8]
  decryptResponse := fun _ _ _ => none

/-- A routing address. -/
def testAddress (n : UInt8) : Octets := List.replicate 16 n

/-- A session info in answer to a request. -/
def infoReply (address : Octets) (counter : UInt32) : Reply :=
  { fromDomain := some 3, toAddress := some address, requestUuid := [], fault := 0, operationStatus := 0,
    subSigData := .missing, flags := 0, payload := .sessionInfo (some ⟨counter, [4], [1], 100, 0⟩) }

/-- A handshake, a request that the car answers with a refresh, and the same request again. -/
def refreshedQuery : List Action :=
  [.begin .infotainment [7], .connect, .requestSession (testAddress 1) [1], .arrive,
    .answer 0 (infoReply (testAddress 1) 5), .receive 0 false true, .sign (testAddress 2) [2] 0, .arrive,
    .answer 1 (infoReply (testAddress 2) 6), .receive 1 false true, .sign (testAddress 3) [3] 0, .arrive]

theorem signed_commands_safe_refreshedQuery : ∃ s : System,
    s.channel.arrived.map (fun r => r.signature.map Signature.counter) = [none, some 6, some 7]
      ∧ s.channel.arrived.Pairwise Precedes ∧ s.signedByQuery = 2 ∧ s.signedByQuery ≤ 4 := by
  have hrun : (run (step plainCrypto) System.init refreshedQuery).map (fun s =>
      (s.channel.arrived.map (fun r => r.signature.map Signature.counter), s.signedByQuery))
        = some ([none, some 6, some 7], 2) := by decide +kernel
  obtain ⟨s, hs, hvalues⟩ := Option.map_eq_some_iff.mp hrun
  obtain ⟨hcounters, hsigned⟩ := Prod.mk.inj hvalues
  obtain ⟨hordered, -, -, hbudget⟩ := signed_commands_safe plainCrypto (reachable_of_run hs)
  exact ⟨s, hcounters, hordered, hsigned, hbudget⟩

end SentryUsb.Ble
