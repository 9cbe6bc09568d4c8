import HashMiner.Foundation.Revert
import HashMiner.Tx.Landing

/-!
# The relays

The relays are two private endpoints and the public fallback. The loop that sends the
transaction treats all three alike.
-/

namespace HashMiner.Tx

open Foundation Chain

/-- `[relays]` of the configuration; `private` is a word of this language. -/
structure RelayCfg where
  privateRelays : List String
  publicFallback : String

structure Relay where
  name : String
  url : String

namespace Relay

/-- `parse` and `connect` answer for the URL. -/
def new (parse connect : String → Except String Unit) (name url : String) :
    Except MinerError Relay :=
  match parse url with
  | .error e => .error (.config e)
  | .ok _ =>
    match connect url with
    | .error e => .error (.rpc e)
    | .ok _ => .ok ⟨name, url⟩

def mevBlocker : String := "https://rpc.mevblocker.io/fast"

def flashbots : String := "https://rpc.flashbots.net/fast"

def defaultRelays (parse connect : String → Except String Unit) (publicFallback : String) :
    Except MinerError (List Relay) := do
  return [← new parse connect "mev-blocker" mevBlocker, ← new parse connect "flashbots" flashbots,
    ← new parse connect "public" publicFallback]

end Relay

/-- A send of the transaction to a relay. -/
structure Attempt where
  relay : String
  accepted : Bool

def Attempt.isPrivate (a : Attempt) : Prop := a.relay ≠ "public"

def attempts (p : Option U64 × Phase) : ChainView × SubmitEvent → List Attempt
  | (_, .sendRaw reply) =>
    match p.2 with
    | .send _ _ relay _ _ _ => [⟨relay, reply.isOk⟩]
    | _ => []
  | _ => []

/-- The relay that the loop sends to is the last one. -/
def LastRelay (p : Option U64 × Phase) : Prop :=
  ∃ st req relay winner errors, p.2 = .send st req relay [] winner errors

/-- The transaction goes to the configured private relays and to no others, and to the
fallback only when it must. -/
structure Policy (cfg : RelayCfg) (relays : List Relay) (sent : List Attempt) : Prop where
  configured : ∀ url ∈ cfg.privateRelays, ∃ a ∈ sent, a.isPrivate ∧ ⟨a.relay, url⟩ ∈ relays
  others : ∀ a ∈ sent, a.isPrivate → ∀ url, ⟨a.relay, url⟩ ∈ relays → url ∈ cfg.privateRelays
  fallback : ∀ a ∈ sent, ¬ a.isPrivate → ∀ b ∈ sent, b.isPrivate → b.accepted = false

/-- The configuration says what is built in. -/
def RelayCfg.BuiltIn (cfg : RelayCfg) : Prop :=
  ∀ url, url ∈ cfg.privateRelays ↔ url = Relay.mevBlocker ∨ url = Relay.flashbots

/-- The relays that are built in, and the fallback. -/
def RelayCfg.relays (relayCfg : RelayCfg) : List Relay :=
  [⟨"mev-blocker", Relay.mevBlocker⟩, ⟨"flashbots", Relay.flashbots⟩,
    ⟨"public", relayCfg.publicFallback⟩]

/-- The submitter with the relays that `main` builds for it. -/
def SubmitterCfg.withRelays (cfg : SubmitterCfg) (relays : List Relay) : SubmitterCfg :=
  { cfg with relays := relays.map Relay.name }

/-- The attempts so far, before, within and after the loop over the relays. -/
def Tried (relays : List String) (sent : List Attempt) : Phase → Prop
  | .snapshot | .gasPrice _ | .evGate _ _ _ | .reserve _ _ | .sign _ _ => sent = []
  | .send _ _ relay rest _ _ => sent.map Attempt.relay ++ relay :: rest = relays
  | .resyncFailed _ _ | .receipt _ _ _ _ | .head _ _ _ _ _ | .resync _ _ _ _ _ =>
    sent.map Attempt.relay = relays

variable {cfg : SubmitterCfg} {view : ChainView} {hit : Hit} {next : Option U64}
  {phase phase' : Phase} {e : SubmitEvent} {r : Resumed} {names : List String}
  {sent : List Attempt}

theorem tried_sending {rest : List String} (st : MiningState) (req : TransactionRequest)
    (winner : Option (String × TxHash)) (errors : List (String × MinerError))
    (tried : sent.map Attempt.relay ++ rest = names) :
    Tried names sent (sending st req winner errors rest) := by
  cases rest with
  | cons relay rest => exact tried
  | nil =>
    rw [List.append_nil] at tried
    cases winner <;> exact tried

theorem Tried.quiet {more : List Attempt} (tried : Tried names sent phase) (none : more = []) :
    Tried names (sent ++ more) phase := by
  rw [none, List.append_nil]
  exact tried

theorem Tried.send {rest : List String} {relay : String} (st : MiningState)
    (req : TransactionRequest) (winner : Option (String × TxHash))
    (errors : List (String × MinerError)) (accepted : Bool)
    (tried : sent.map Attempt.relay ++ relay :: rest = names) :
    Tried names (sent ++ [⟨relay, accepted⟩]) (sending st req winner errors rest) := by
  apply tried_sending
  rw [List.map_append, List.map_singleton, List.append_assoc]
  exact tried

theorem Tried.step (tried : Tried cfg.relays sent phase)
    (resumes : Resumes cfg view next hit phase e r) (on : r.2 = .on phase') :
    Tried cfg.relays (sent ++ attempts (next, phase) (view, e)) phase' := by
  cases resumes with
  | fresh | priced | unheld | unmined | mined | confirmed | unconfirmed | timedOut =>
    cases on
    exact Tried.quiet tried rfl
  | held | counted =>
    obtain ⟨_, _, _, rfl⟩ := reserved_on on
    exact Tried.quiet tried rfl
  | signed st req =>
    cases on
    cases tried
    exact tried_sending st req none [] rfl
  | accepted | rejected =>
    cases on
    exact Tried.send _ _ _ _ _ tried
  | noState | stale | noPrice | priceOverflow | noMints | mintsOverflow | gated | uncounted
  | unsigned | gaveUp | noReceipt | noHead | settled => cases on

theorem resumes_of_step {p q : Option U64 × Phase} {e : ChainView × SubmitEvent}
    (taken : (callMachine cfg hit).step p e = some q) :
    Resumes cfg e.1 p.1 hit p.2 e.2 (q.1, .on q.2) := by
  simp only [callMachine] at taken
  split at taken <;> cases taken
  next resumed => exact resume_cases resumed

theorem relay_of_new {parse connect : String → Except String Unit} {name url : String}
    {relay : Relay} (made : Relay.new parse connect name url = .ok relay) :
    relay = ⟨name, url⟩ := by
  unfold Relay.new at made
  split at made
  · cases made
  · split at made <;> cases made
    rfl

/-- Nothing of the configuration but the fallback is used. -/
theorem defaultRelays_ok {parse connect : String → Except String Unit} {publicFallback : String}
    {built : List Relay}
    (made : Relay.defaultRelays parse connect publicFallback = .ok built) :
    built = [⟨"mev-blocker", Relay.mevBlocker⟩, ⟨"flashbots", Relay.flashbots⟩,
      ⟨"public", publicFallback⟩] := by
  obtain ⟨first, mevBlocker, made⟩ := bind_returns.mp made
  obtain ⟨second, flashbots, made⟩ := bind_returns.mp made
  obtain ⟨third, fallback, made⟩ := bind_returns.mp made
  cases made
  rw [relay_of_new mevBlocker, relay_of_new flashbots, relay_of_new fallback]

theorem url_of_private {relayCfg : RelayCfg} {a : Attempt} {url : String} (secret : a.isPrivate)
    (entry : ⟨a.relay, url⟩ ∈ relayCfg.relays) :
    url = Relay.mevBlocker ∨ url = Relay.flashbots := by
  simp only [RelayCfg.relays, List.mem_cons, List.not_mem_nil, or_false, Relay.mk.injEq] at entry
  rcases entry with ⟨_, rfl⟩ | ⟨_, rfl⟩ | ⟨fallback, _⟩
  · exact .inl rfl
  · exact .inr rfl
  · exact absurd fallback secret

/-- What the loop over these relays has sent when it ends. -/
theorem policy_iff (relayCfg : RelayCfg) (first second third : Bool) :
    Policy relayCfg relayCfg.relays
        [⟨"mev-blocker", first⟩, ⟨"flashbots", second⟩, ⟨"public", third⟩] ↔
      relayCfg.BuiltIn ∧ first = false ∧ second = false := by
  have firstPrivate : Attempt.isPrivate ⟨"mev-blocker", first⟩ := by simp [Attempt.isPrivate]
  have secondPrivate : Attempt.isPrivate ⟨"flashbots", second⟩ := by simp [Attempt.isPrivate]
  have thirdPublic : ¬ Attempt.isPrivate ⟨"public", third⟩ := fun secret => secret rfl
  constructor
  · intro policy
    refine ⟨fun url => ⟨fun listed => ?_, ?_⟩, ?_, ?_⟩
    · obtain ⟨a, sent, secret, entry⟩ := policy.configured url listed
      exact url_of_private secret entry
    · rintro (rfl | rfl)
      · exact policy.others _ (by simp) firstPrivate _ (by simp [RelayCfg.relays])
      · exact policy.others _ (by simp) secondPrivate _ (by simp [RelayCfg.relays])
    · exact policy.fallback _ (by simp) thirdPublic _ (by simp) firstPrivate
    · exact policy.fallback _ (by simp) thirdPublic _ (by simp) secondPrivate
  · rintro ⟨builtIn, rfl, rfl⟩
    refine ⟨fun url listed => ?_, fun a sent secret url entry => ?_, fun a sent _ b also => ?_⟩
    · rcases (builtIn url).mp listed with rfl | rfl
      · exact ⟨_, by simp, firstPrivate, by simp [RelayCfg.relays]⟩
      · exact ⟨_, by simp, secondPrivate, by simp [RelayCfg.relays]⟩
    · exact (builtIn url).mpr (url_of_private secret entry)
    · simp only [List.mem_cons, List.not_mem_nil, or_false] at also
      rcases also with rfl | rfl | rfl
      · exact fun _ => rfl
      · exact fun _ => rfl
      · exact fun secret => absurd secret thirdPublic

/-- The attempts before the last one, by the names of the relays. -/
theorem attempts_of_last {relay : String}
    (tried : sent.map Attempt.relay ++ [relay] = ["mev-blocker", "flashbots", "public"]) :
    ∃ first second, sent = [⟨"mev-blocker", first⟩, ⟨"flashbots", second⟩] ∧
      relay = "public" := by
  have split : sent.map Attempt.relay ++ [relay] = ["mev-blocker", "flashbots"] ++ ["public"] :=
    tried
  obtain ⟨earlier, last⟩ := List.append_inj' split rfl
  obtain ⟨⟨_, first⟩, later, rfl, rfl, tail⟩ := List.map_eq_cons_iff.mp earlier
  obtain ⟨⟨_, second⟩, none, rfl, rfl, empty⟩ := List.map_eq_cons_iff.mp tail
  cases List.map_eq_nil_iff.mp empty
  exact ⟨first, second, rfl, List.singleton_inj.mp last⟩

/-- In every run of a call over the relays that `main` builds, whichever sends fail: the
policy is kept exactly when the configuration lists the two endpoints that are built in,
no others, and both of them have failed. -/
theorem along_policy_iff (cfg : SubmitterCfg) (relayCfg : RelayCfg)
    (parse connect : String → Except String Unit) (built : List Relay)
    (made : Relay.defaultRelays parse connect relayCfg.publicFallback = .ok built) (hit : Hit)
    (next : Option U64) (es : List (ChainView × SubmitEvent)) :
    ((callMachine (cfg.withRelays built) hit).logged attempts).Along
        (fun p _ q => LastRelay p.1 → Policy relayCfg built q.2) ((next, .snapshot), []) es ↔
      ((callMachine (cfg.withRelays built) hit).logged attempts).Along
        (fun p _ _ => LastRelay p.1 → relayCfg.BuiltIn ∧ ∀ a ∈ p.2, a.accepted = false)
        ((next, .snapshot), []) es := by
  obtain rfl : built = relayCfg.relays := defaultRelays_ok made
  let inv (p : (Option U64 × Phase) × List Attempt) : Prop :=
    Tried (cfg.withRelays relayCfg.relays).relays p.2 p.1.2
  have first : inv ((next, .snapshot), []) := rfl
  refine Machine.along_congr ?_ first es
  rintro ⟨⟨n, phase⟩, sent⟩ ⟨view, e⟩ ⟨⟨n', phase'⟩, sent'⟩ tried logged
  obtain ⟨taken, rfl⟩ := (Machine.logged_step _).mp logged
  have resumes := resumes_of_step taken
  refine ⟨Tried.step tried resumes rfl, forall_congr' fun last => ?_⟩
  obtain ⟨st, req, relay, winner, errors, rfl⟩ := last
  obtain ⟨first, second, rfl, rfl⟩ := attempts_of_last tried
  have quiet : (∀ a ∈ [(⟨"mev-blocker", first⟩ : Attempt), ⟨"flashbots", second⟩],
      a.accepted = false) ↔ first = false ∧ second = false := by simp
  rw [quiet]
  cases resumes with
  | accepted | rejected => exact policy_iff relayCfg first second _

/-- The relays of the example configuration. -/
def exampleRelays : RelayCfg :=
  ⟨["https://rpc.mevblocker.io/fast", "https://rpc.flashbots.net/fast"],
    "https://ethereum-rpc.publicnode.com"⟩

theorem exampleRelays_builtIn : exampleRelays.BuiltIn := by
  intro url
  simp [exampleRelays, Relay.mevBlocker, Relay.flashbots]

/-- A call that hears the same from both private relays. -/
def layoutSends (reply : Except String TxHash) : List (ChainView × SubmitEvent) :=
  answered layoutView ++ [(layoutView, .sendRaw reply), (layoutView, .sendRaw reply)]

theorem along_policy_failed :
    ((callMachine (layoutCfg.withRelays exampleRelays.relays) ⟨0x4243, B256.zero, 1⟩).logged
        attempts).Along (fun p _ q => LastRelay p.1 → Policy exampleRelays exampleRelays.relays q.2)
      ((none, .snapshot), [])
      (layoutSends (.error "timeout") ++ [(layoutView, .sendRaw (.ok B256.zero))]) := by
  refine (along_policy_iff _ _ (fun _ => .ok ()) (fun _ => .ok ()) _ rfl _ _ _).mpr ?_
  have begins : ((callMachine (layoutCfg.withRelays exampleRelays.relays)
      ⟨0x4243, B256.zero, 1⟩).logged attempts).run ((none, .snapshot), [])
      (layoutSends (.error "timeout")) = some (_, [⟨"mev-blocker", false⟩, ⟨"flashbots", false⟩]) :=
    rfl
  refine Machine.Along.append ?_ begins ?_
  · -- Before the last relay nothing is asked.
    iterate 7
      refine (Machine.along_cons rfl).mpr ⟨fun ⟨_, _, _, _, _, here⟩ => (nomatch here), ?_⟩
    trivial
  · refine (Machine.along_cons rfl).mpr ⟨fun _ => ⟨exampleRelays_builtIn, ?_⟩, trivial⟩
    simp

/-- Both private relays accept the transaction, and the fallback is sent it as well. -/
theorem accepted_transaction_sent_to_fallback :
    ¬ ((callMachine (layoutCfg.withRelays exampleRelays.relays) ⟨0x4243, B256.zero, 1⟩).logged
        attempts).Along (fun p _ q => LastRelay p.1 → Policy exampleRelays exampleRelays.relays q.2)
      ((none, .snapshot), [])
      (layoutSends (.ok B256.zero) ++ [(layoutView, .sendRaw (.ok B256.zero))]) := by
  intro along
  have begins : ((callMachine (layoutCfg.withRelays exampleRelays.relays)
      ⟨0x4243, B256.zero, 1⟩).logged attempts).run ((none, .snapshot), [])
      (layoutSends (.ok B256.zero)) =
      some ((_, .send _ _ "public" [] _ _), [⟨"mev-blocker", true⟩, ⟨"flashbots", true⟩]) := rfl
  have policy := along.at_step begins rfl ⟨_, _, _, _, _, rfl⟩
  have leaked : (true : Bool) = false := by
    refine policy.fallback ⟨"public", true⟩ ?_ (fun secret => secret rfl) ⟨"flashbots", true⟩ ?_ ?_
    · exact List.mem_append_right _ (List.mem_singleton.mpr rfl)
    · exact List.mem_append_left _ (by simp)
    · simp [Attempt.isPrivate]
  cases leaked

end HashMiner.Tx
