import HashMiner.Tx.Receipt

/-!
# Confirmations on a chain that may be reorganised

The receipt and the head are read one after the other. Blocks may be added and replaced
at any time, so the two reads may see different chains; the depth is computed from the
numbers alone.
-/

namespace HashMiner.Tx

open Foundation Chain

/-- The transactions of a block with the status of their receipts. -/
structure Block where
  hash : B256
  receipts : List (TxHash × Bool)
  deriving DecidableEq

/-- The canonical chain of a node, by number. -/
abbrev Blocks := List Block

inductive ChainStep where
  | extend (block : Block)
  | reorg (depth : Nat) (blocks : Blocks)

def ChainStep.apply (chain : Blocks) : ChainStep → Blocks
  | .extend block => chain ++ [block]
  | .reorg depth blocks => chain.take (chain.length - depth) ++ blocks

/-- A call beside the chain that it reads. Two history variables: the block that the last
receipt was read from, and whether it has been replaced since. -/
structure Confirmation where
  chain : Blocks
  next : Option U64
  progress : Progress
  origin : Option (Nat × Block)
  replaced : Bool

inductive ConfirmationEvent where
  | chain (c : ChainStep)
  | receipt (view : ChainView) (n : Nat) (r : TransactionReceipt)
  | call (view : ChainView) (e : SubmitEvent)

namespace Confirmation

def start (chain : Blocks) (next : Option U64) : Confirmation :=
  ⟨chain, next, .on .snapshot, none, false⟩

/-- The receipt `r` of `tx` is from the block `b` with the number `n`; it may leave the
number out. -/
def Shows (b : Block) (n : Nat) (tx : TxHash) (r : TransactionReceipt) : Prop :=
  (tx, r.status) ∈ b.receipts ∧ (∀ number, r.blockNumber = some number → number.toNat = n)

instance (b : Block) (n : Nat) (tx : TxHash) (r : TransactionReceipt) :
    Decidable (Shows b n tx r) := by
  unfold Shows
  cases r.blockNumber <;> infer_instance

/-- The head that the node answers is the number of its last block. Receipts are answered
by `receipt`. -/
def Answers (chain : Blocks) : SubmitEvent → Prop
  | .receipt (.ok (some _)) => False
  | .blockNumber (.ok head) => head.toNat + 1 = chain.length
  | _ => True

instance (chain : Blocks) : (e : SubmitEvent) → Decidable (Answers chain e)
  | .receipt (.ok (some _)) => .isFalse id
  | .blockNumber (.ok head) => Nat.decEq (head.toNat + 1) chain.length
  | .receipt (.ok none) | .receipt (.error _) | .blockNumber (.error _) | .call _ | .acquire
  | .snapshot | .gasPrice _ | .mintsInBlock _ _ | .transactionCount _ | .signed _ | .sendRaw _
  | .timeout => .isTrue trivial

variable (cfg : SubmitterCfg) (hit : Hit)

def step (c : Confirmation) : ConfirmationEvent → Option Confirmation
  | .chain change =>
    let chain := change.apply c.chain
    let lost := c.origin.any fun (n, b) => chain[n]? ≠ some b
    some { c with chain, replaced := c.replaced || lost }
  | .receipt view n r =>
    match c.progress, c.chain[n]? with
    | .on (.receipt st req relay tx), some b =>
      if Shows b n tx r then
        ((returning cfg hit).step (c.next, .on (.receipt st req relay tx))
          (view, .receipt (.ok (some r)))).map fun p =>
          { c with next := p.1, progress := p.2, origin := some (n, b), replaced := false }
      else none
    | _, _ => none
  | .call view e =>
    if Answers c.chain e then
      ((returning cfg hit).step (c.next, c.progress) (view, e)).map fun p =>
        { c with next := p.1, progress := p.2 }
    else none

def machine : Machine Confirmation ConfirmationEvent := ⟨step cfg hit⟩

variable {cfg hit} {c t : Confirmation} {e : ConfirmationEvent}

/-- The steps by name. -/
inductive Moves (cfg : SubmitterCfg) (hit : Hit) (c : Confirmation) :
    ConfirmationEvent → Confirmation → Prop
  | chain (change : ChainStep) :
      Moves cfg hit c (.chain change)
        { c with
          chain := change.apply c.chain
          replaced := c.replaced || c.origin.any fun (n, b) => (change.apply c.chain)[n]? ≠ some b }
  | receipt (view : ChainView) (n : Nat) (r : TransactionReceipt) (b : Block) (st : MiningState)
      (req : TransactionRequest) (relay : String) (tx : TxHash) :
      c.progress = .on (.receipt st req relay tx) → c.chain[n]? = some b → Shows b n tx r →
      Moves cfg hit c (.receipt view n r)
        { c with
          progress := .on (.head st req relay tx r), origin := some (n, b), replaced := false }
  | call (view : ChainView) (e : SubmitEvent) (phase : Phase) (p : Resumed) :
      Answers c.chain e → c.progress = .on phase → Resumes cfg view c.next hit phase e p →
      Moves cfg hit c (.call view e) { c with next := p.1, progress := p.2 }

theorem step_cases (taken : step cfg hit c e = some t) : Moves cfg hit c e t := by
  cases e with
  | chain change =>
    cases taken
    exact .chain change
  | receipt view n r =>
    simp only [step] at taken
    split at taken
    · next waiting canonical =>
      split at taken <;> cases taken
      next visible => exact .receipt view n r _ _ _ _ _ waiting canonical visible
    · cases taken
  | call view e =>
    simp only [step] at taken
    split at taken
    · next honest =>
      obtain ⟨p, moved, rfl⟩ := Option.map_eq_some_iff.mp taken
      obtain ⟨phase, here, resumes⟩ := returning_step moved
      exact .call view e phase p honest here resumes
    · cases taken

theorem Moves.taken (moves : Moves cfg hit c e t) : (machine cfg hit).step c e = some t := by
  change step cfg hit c e = some t
  cases moves with
  | chain => rfl
  | receipt view n r b st req relay tx waiting canonical visible =>
    simp [step, waiting, canonical, visible, returning, resume]
  | call view e phase p honest here resumes =>
    have resumed := resumes.resumed
    simp only [step, honest, if_true, returning, here, resumed, Option.map_some]

/-- The block of the receipt of `tx` is canonical, with `confirmations` blocks on it. -/
def Deep (confirmations : U64) (c : Confirmation) (tx : TxHash) (status : Bool) : Prop :=
  ∃ n b, c.origin = some (n, b) ∧ (tx, status) ∈ b.receipts ∧ c.chain[n]? = some b ∧
    n + confirmations.toNat < c.chain.length

/-- The wait returns a receipt after a head read at which its block is deep enough, and
only such a receipt makes a mint included. -/
structure Confirms (cfg : SubmitterCfg) (c : Confirmation) (e : ConfirmationEvent)
    (t : Confirmation) : Prop where
  returned : ∀ st req relay tx r, t.progress = .on (.resync st req relay tx (some r)) →
    c.progress ≠ t.progress →
      (∃ view head, e = .call view (.blockNumber (.ok head))) ∧
        Deep cfg.confirmations c tx r.status
  included : ∀ tx block rewardWei relay,
    t.progress = .done (.ok (.included tx block rewardWei relay)) → c.progress ≠ t.progress →
      ∃ st req r, c.progress = .on (.resync st req relay tx (some r)) ∧ r.status = true

/-- When the depth suffices, no reorg has replaced the block since the receipt was read. -/
def OneChain (cfg : SubmitterCfg) (c : Confirmation) : ConfirmationEvent → Prop
  | .call _ (.blockNumber (.ok head)) => ∀ st req relay tx r,
      c.progress = .on (.head st req relay tx r) → Confirmed cfg.confirmations head r →
        c.replaced = false
  | _ => True

/-- The block that the receipt at hand was read from is still there, if nothing has
replaced it. -/
def Anchored (c : Confirmation) : Prop :=
  ∀ st req relay tx r, c.progress = .on (.head st req relay tx r) →
    ∃ n b, c.origin = some (n, b) ∧ Shows b n tx r ∧ (c.replaced = false → c.chain[n]? = some b)

/-- Neither a receipt at hand, nor one that the wait has returned. -/
def Outside : Progress → Prop
  | .on (.head _ _ _ _ _) | .on (.resync _ _ _ _ (some _)) => False
  | .done (.ok (.included _ _ _ _)) => False
  | _ => True

theorem outside_sending (st : MiningState) (req : TransactionRequest)
    (winner : Option (String × TxHash)) (errors : List (String × MinerError))
    (relays : List String) : Outside (.on (sending st req winner errors relays)) := by
  cases relays <;> cases winner <;> trivial

theorem outside_reserved (next : Option U64) (st : MiningState) (maxFee : U128) (n : U64) :
    Outside (reserved cfg next hit st maxFee n).2 := by
  rcases reserved_cases cfg next hit st maxFee n with panicked | ⟨after, _, signing⟩
  · rw [panicked]
    trivial
  · rw [signing]
    trivial

/-- How a receipt is read, how the wait ends with one, and how the call ends then. -/
theorem wait_cases {view : ChainView} {next : Option U64} {phase : Phase} {e : SubmitEvent}
    {r : Resumed} (resumes : Resumes cfg view next hit phase e r) :
    (∃ st req relay tx receipt, e = .receipt (.ok (some receipt)) ∧
        r.2 = .on (.head st req relay tx receipt)) ∨
      (∃ st req relay tx receipt head, e = .blockNumber (.ok head) ∧
        phase = .head st req relay tx receipt ∧ Confirmed cfg.confirmations head receipt ∧
        r.2 = .on (.resync st req relay tx (some receipt))) ∨
      (∃ st req relay tx receipt, phase = .resync st req relay tx (some receipt) ∧
        r.2 = .done (.ok (outcomeOf st relay tx (some receipt)))) ∨
      Outside r.2 := by
  cases resumes with
  | mined st req relay tx receipt => exact .inl ⟨st, req, relay, tx, receipt, rfl, rfl⟩
  | confirmed st req relay tx receipt head deep =>
    exact .inr (.inl ⟨st, req, relay, tx, receipt, head, rfl, rfl, deep, rfl⟩)
  | settled st req relay tx outcome =>
    cases outcome with
    | some receipt => exact .inr (.inr (.inl ⟨st, req, relay, tx, receipt, rfl, rfl⟩))
    | none => exact .inr (.inr (.inr trivial))
  | held | counted => exact .inr (.inr (.inr (outside_reserved _ _ _ _)))
  | signed | accepted | rejected => exact .inr (.inr (.inr (outside_sending _ _ _ _ _)))
  | noState | stale | fresh | noPrice | priceOverflow | priced | noMints | mintsOverflow | gated
  | unheld | uncounted | unsigned | gaveUp | timedOut | noReceipt | unmined | noHead
  | unconfirmed => exact .inr (.inr (.inr trivial))

theorem deep_of_confirmed {head : U64} {n : Nat} {b : Block} {tx : TxHash}
    {r : TransactionReceipt} (origin : c.origin = some (n, b)) (visible : Shows b n tx r)
    (canonical : c.chain[n]? = some b) (tip : head.toNat + 1 = c.chain.length)
    (confirmed : Confirmed cfg.confirmations head r) :
    Deep cfg.confirmations c tx r.status := by
  refine ⟨n, b, origin, visible.1, canonical, ?_⟩
  have inside : n < c.chain.length := (List.getElem?_eq_some_iff.mp canonical).1
  unfold Confirmed at confirmed
  cases number : r.blockNumber with
  | none =>
    rw [number, Option.getD_none] at confirmed
    omega
  | some k =>
    have same := visible.2 k number
    rw [number, Option.getD_some, same] at confirmed
    omega

theorem Anchored.step (inv : Anchored c) (taken : Confirmation.step cfg hit c e = some t) :
    Anchored t := by
  cases step_cases taken with
  | chain change =>
    intro st req relay tx r here
    obtain ⟨n, b, origin, visible, _⟩ := inv st req relay tx r here
    refine ⟨n, b, origin, visible, fun kept => ?_⟩
    simpa [origin] using (Bool.or_eq_false_iff.mp kept).2
  | receipt view n r b st req relay tx _ canonical visible =>
    intro st' req' relay' tx' r' here
    cases here
    exact ⟨n, b, rfl, visible, fun _ => canonical⟩
  | call view e phase p honest here resumes =>
    intro st req relay tx r reading
    have reading : p.2 = .on (.head st req relay tx r) := reading
    rcases wait_cases resumes with ⟨_, _, _, _, _, rfl, _⟩ | ⟨_, _, _, _, _, _, _, _, _, on⟩ |
      ⟨_, _, _, _, _, _, on⟩ | outside
    · exact absurd honest id
    · cases on.symm.trans reading
    · cases on.symm.trans reading
    · rw [reading] at outside
      exact absurd outside id

theorem Anchored.confirms (inv : Anchored c) (taken : Confirmation.step cfg hit c e = some t)
    (oneChain : OneChain cfg c e) : Confirms cfg c e t := by
  cases step_cases taken with
  | chain =>
    refine ⟨fun _ _ _ _ _ _ moved => ?_, fun _ _ _ _ _ moved => ?_⟩
    · exact absurd rfl moved
    · exact absurd rfl moved
  | receipt => exact ⟨nofun, nofun⟩
  | call view e phase p honest here resumes =>
    refine ⟨fun st req relay tx r returned _ => ?_, fun tx block rewardWei relay returned _ => ?_⟩
    · have returned : p.2 = .on (.resync st req relay tx (some r)) := returned
      rcases wait_cases resumes with ⟨_, _, _, _, _, _, on⟩ |
        ⟨st', req', relay', tx', r', head, rfl, rfl, confirmed, on⟩ |
        ⟨_, _, _, _, _, _, on⟩ | outside
      · cases on.symm.trans returned
      · cases on.symm.trans returned
        obtain ⟨n, b, origin, visible, canonical⟩ := inv st req relay tx r here
        have kept := oneChain st req relay tx r here confirmed
        exact ⟨⟨view, head, rfl⟩,
          deep_of_confirmed origin visible (canonical kept) honest confirmed⟩
      · cases on.symm.trans returned
      · rw [returned] at outside
        exact absurd outside id
    · have returned : p.2 = .done (.ok (.included tx block rewardWei relay)) := returned
      rcases wait_cases resumes with ⟨_, _, _, _, _, _, on⟩ | ⟨_, _, _, _, _, _, _, _, _, on⟩ |
        ⟨st, req, relay', tx', r, rfl, on⟩ | outside
      · cases on.symm.trans returned
      · cases on.symm.trans returned
      · have outcome := on.symm.trans returned
        cases mined : r.status with
        | true =>
          simp only [outcomeOf, mined, if_true] at outcome
          cases outcome
          exact ⟨st, req, r, here, mined⟩
        | false => simp [outcomeOf, mined] at outcome
      · rw [returned] at outside
        exact absurd outside id

/-- In every run in which no reorg replaces the block between the two reads of an
iteration that returns, the receipt that the wait returns is deep enough on the chain at
the head read. -/
theorem along_confirms_of_oneChain (cfg : SubmitterCfg) (hit : Hit) (chain : Blocks)
    (next : Option U64) (es : List ConfirmationEvent)
    (oneChain : (machine cfg hit).Along (fun c e _ => OneChain cfg c e) (start chain next) es) :
    (machine cfg hit).Along (Confirms cfg) (start chain next) es := by
  have kept : ∀ (c : Confirmation) (e : ConfirmationEvent) (t : Confirmation), Anchored c →
      (machine cfg hit).step c e = some t → OneChain cfg c e → Anchored t ∧ Confirms cfg c e t :=
    fun c e t inv taken met => ⟨inv.step taken, inv.confirms taken met⟩
  exact Machine.Along.of_invariant kept nofun oneChain

def emptyBlock : Block := ⟨B256.zero, []⟩

/-- The block of the mint. -/
def layoutBlock : Block := ⟨layoutChallenge, [(B256.zero, true)]⟩

/-- The transaction is sent, and mined in block 1. -/
def layoutMinting : List ConfirmationEvent :=
  layoutAnswers.map (fun e => .call e.1 e.2) ++ [.chain (.extend layoutBlock)]

def layoutMinted : Confirmation :=
  ⟨[emptyBlock, layoutBlock], some 1, .on (.receipt (Watcher.snapshot 1 1024)
    (buildMineTx layoutMiner 0 0x4243 3000000001) "mev-blocker" B256.zero), none, false⟩

def layoutReading : Confirmation :=
  ⟨[emptyBlock, layoutBlock], some 1, .on (.head (Watcher.snapshot 1 1024)
    (buildMineTx layoutMiner 0 0x4243 3000000001) "mev-blocker" B256.zero ⟨true, some 1⟩),
    some (1, layoutBlock), false⟩

theorem run_layoutMinting :
    (machine layoutCfg ⟨0x4243, B256.zero, 1⟩).run (start [emptyBlock] none)
      (layoutMinting ++ [.receipt layoutView 1 ⟨true, some 1⟩]) = some layoutReading := by
  have minted : (machine layoutCfg ⟨0x4243, B256.zero, 1⟩).run (start [emptyBlock] none)
      layoutMinting = some layoutMinted := rfl
  have visible : Shows layoutBlock 1 B256.zero ⟨true, some 1⟩ := by
    refine ⟨List.mem_singleton_self _, fun number same => ?_⟩
    cases same
    rfl
  have moved : Moves layoutCfg ⟨0x4243, B256.zero, 1⟩ layoutMinted
      (.receipt layoutView 1 ⟨true, some 1⟩) layoutReading :=
    .receipt layoutView 1 ⟨true, some 1⟩ layoutBlock _ _ _ _ rfl rfl visible
  have read : (machine layoutCfg ⟨0x4243, B256.zero, 1⟩).step layoutMinted
      (.receipt layoutView 1 ⟨true, some 1⟩) = some layoutReading := moved.taken
  exact (Machine.run_append _).mpr ⟨_, minted, (Machine.run_cons _).mpr ⟨_, read, rfl⟩⟩

/-- Two blocks follow. -/
theorem along_confirms_extended :
    (machine layoutCfg ⟨0x4243, B256.zero, 1⟩).Along (Confirms layoutCfg) (start [emptyBlock] none)
      ((layoutMinting ++ [.receipt layoutView 1 ⟨true, some 1⟩]) ++
        ([.chain (.extend emptyBlock), .chain (.extend emptyBlock)] ++
          [.call layoutView (.blockNumber (.ok 3))])) := by
  refine along_confirms_of_oneChain _ _ _ _ _ ?_
  refine Machine.Along.append (Machine.along_of_forall ?_ _) run_layoutMinting ?_
  · simp [layoutMinting, layoutAnswers, OneChain]
  · have extended : (machine layoutCfg ⟨0x4243, B256.zero, 1⟩).run layoutReading
        [.chain (.extend emptyBlock), .chain (.extend emptyBlock)] = some _ := rfl
    refine Machine.Along.append (Machine.along_of_forall ?_ _) extended ?_
    · simp [OneChain]
    · intro t _
      refine ⟨fun st req relay tx r _ _ => ?_, trivial⟩
      simp [layoutReading, ChainStep.apply]

/-- The block is replaced between the two reads. -/
theorem replaced_block_confirmed :
    ¬ (machine layoutCfg ⟨0x4243, B256.zero, 1⟩).Along (Confirms layoutCfg)
      (start [emptyBlock] none)
      (((layoutMinting ++ [.receipt layoutView 1 ⟨true, some 1⟩]) ++
        [.chain (.reorg 1 [emptyBlock, emptyBlock, emptyBlock])]) ++
        [.call layoutView (.blockNumber (.ok 3))]) := by
  intro along
  have replaced : (machine layoutCfg ⟨0x4243, B256.zero, 1⟩).run layoutReading
      [.chain (.reorg 1 [emptyBlock, emptyBlock, emptyBlock])] = some _ := rfl
  have reached := (Machine.run_append _).mpr ⟨_, run_layoutMinting, replaced⟩
  have confirms := along.at_step reached rfl
  obtain ⟨_, n, b, origin, _, canonical, _⟩ := confirms.returned _ _ _ _ _ rfl nofun
  cases origin
  cases canonical

end Confirmation

end HashMiner.Tx
