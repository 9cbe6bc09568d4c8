import HashMiner.Tx.Landing

/-!
# What a seen receipt is reported as

Once a receipt is seen, the call waits until it is deep enough. The clock and the errors
of the two reads go on counting meanwhile, and each of them ends the call with an outcome
that does not mention the receipt.
-/

namespace HashMiner.Tx

open Foundation Chain

/-- One call until it returns. -/
def returning (cfg : SubmitterCfg) (hit : Hit) :
    Machine (Option U64 × Progress) (ChainView × SubmitEvent) where
  step p e :=
    match p.2 with
    | .on phase => resume cfg e.1 p.1 hit phase e.2
    | .done _ => none

/-- What `main` emits when a call has returned. -/
inductive Event where
  | txIncluded (tx : TxHash) (block : U64) (reward : U256)
  | txReverted (tx : TxHash) (block : Option U64)
  | hitDropped (reason : MinerError ⊕ DropReason)

/-- A panic ends the task. -/
def emitted : Returned → Option Event
  | .ok (.included tx block rewardWei _) => some (.txIncluded tx block rewardWei)
  | .ok (.reverted tx block) => some (.txReverted tx block)
  | .ok (.dropped reason) => some (.hitDropped (.inr reason))
  | .err error => some (.hitDropped (.inl error))
  | .panicked => none

/-- The call reports a mined transaction with the status of its receipt, and `main` does
not take the hit for a dropped one. -/
structure Reports (status : Bool) (result : Returned) : Prop where
  included : status = true → ∃ tx block rewardWei relay,
    result = .ok (.included tx block rewardWei relay)
  reverted : status = false → ∃ tx block, result = .ok (.reverted tx block)
  logged : ∀ reason, emitted result ≠ some (.hitDropped reason)

/-- The node shows no receipt with another status: the transaction is mined once. -/
def SameStatus (status : Bool) : SubmitEvent → Prop
  | .receipt (.ok (some r)) => r.status = status
  | _ => True

/-- The clock does not end the wait, and the reads of the wait do not fail. -/
def Undisturbed : SubmitEvent → Prop
  | .timeout | .receipt (.error _) | .blockNumber (.error _) => False
  | _ => True

/-- The call has seen a receipt and has not let go of it. -/
def Seen (status : Bool) : Progress → Prop
  | .on (.receipt _ _ _ _) => True
  | .on (.head _ _ _ _ r) | .on (.resync _ _ _ _ (some r)) => r.status = status
  | .on _ => False
  | .done result => Reports status result

/-- The call is about to report that there was no receipt, or has failed. -/
def Lost : Progress → Prop
  | .on (.resync _ _ _ _ none) => True
  | .on _ => False
  | .done result => ∃ reason, emitted result = some (.hitDropped reason)

variable {cfg : SubmitterCfg} {view : ChainView} {hit : Hit} {next : Option U64} {phase : Phase}
  {e : SubmitEvent} {r : Resumed} {status : Bool} {result : Returned}

theorem reports_outcomeOf (st : MiningState) (relay : String) (tx : TxHash)
    (r : TransactionReceipt) : Reports r.status (.ok (outcomeOf st relay tx (some r))) := by
  cases mined : r.status with
  | true =>
    have outcome : outcomeOf st relay tx (some r) =
        .included tx (r.blockNumber.getD 0) st.rewardWei relay := by simp [outcomeOf, mined]
    rw [outcome]
    exact ⟨fun _ => ⟨_, _, _, _, rfl⟩, nofun, nofun⟩
  | false =>
    have outcome : outcomeOf st relay tx (some r) = .reverted tx r.blockNumber := by
      simp [outcomeOf, mined]
    rw [outcome]
    exact ⟨nofun, fun _ => ⟨_, _, rfl⟩, nofun⟩

theorem Seen.kept (seen : Seen status (.on phase)) (same : SameStatus status e)
    (undisturbed : Undisturbed e) (resumes : Resumes cfg view next hit phase e r) :
    Seen status r.2 := by
  cases resumes with
  | timedOut | noReceipt | noHead => exact absurd undisturbed id
  | unmined | unconfirmed => trivial
  | mined => exact same
  | confirmed => exact seen
  | settled st req relay tx outcome reply =>
    cases outcome with
    | none => exact absurd seen id
    | some r =>
      have status : r.status = status := seen
      rw [← status]
      exact reports_outcomeOf st relay tx r
  | noState | stale | fresh | noPrice | priceOverflow | priced | noMints | mintsOverflow | gated
  | held | unheld | uncounted | counted | unsigned | signed | gaveUp => exact absurd seen id
  | accepted | rejected => exact absurd seen id

theorem Seen.lost (seen : Seen status (.on phase)) (disturbed : ¬ Undisturbed e)
    (resumes : Resumes cfg view next hit phase e r) : Lost r.2 := by
  cases resumes with
  | timedOut => trivial
  | noReceipt | noHead => exact ⟨_, rfl⟩
  | unmined | mined | unconfirmed | confirmed | settled => exact absurd trivial disturbed
  | noState | stale | fresh | noPrice | priceOverflow | priced | noMints | mintsOverflow | gated
  | held | unheld | uncounted | counted | unsigned | signed | gaveUp => exact absurd seen id
  | accepted | rejected => exact absurd seen id

theorem Lost.kept (lost : Lost (.on phase)) (resumes : Resumes cfg view next hit phase e r) :
    Lost r.2 := by
  cases resumes with
  | settled st req relay tx outcome reply =>
    cases outcome with
    | none => exact ⟨_, rfl⟩
    | some r => exact absurd lost id
  | noState | stale | fresh | noPrice | priceOverflow | priced | noMints | mintsOverflow | gated
  | held | unheld | uncounted | counted | unsigned | signed | gaveUp => exact absurd lost id
  | accepted | rejected | timedOut | noReceipt | unmined | mined | noHead | confirmed
  | unconfirmed => exact absurd lost id

theorem returning_step {p q : Option U64 × Progress} {e : ChainView × SubmitEvent}
    (taken : (returning cfg hit).step p e = some q) :
    ∃ phase, p.2 = .on phase ∧ Resumes cfg e.1 p.1 hit phase e.2 q := by
  obtain ⟨next, progress⟩ := p
  cases progress with
  | on phase => exact ⟨phase, rfl, resume_cases taken⟩
  | done => cases taken

theorem run_lost {p : Option U64 × Progress} {es : List (ChainView × SubmitEvent)}
    (lost : Lost p.2) (reached : (returning cfg hit).run p es = some (next, .done result)) :
    ¬ Reports status result := by
  have kept : ∀ (p : Option U64 × Progress) (e : ChainView × SubmitEvent)
      (q : Option U64 × Progress), Lost p.2 → (returning cfg hit).step p e = some q →
      Lost q.2 := by
    intro p e q lost taken
    obtain ⟨phase, here, resumes⟩ := returning_step taken
    rw [here] at lost
    exact lost.kept resumes
  have ended : Lost (.done result) := Machine.invariant_run _ kept lost reached
  intro reports
  obtain ⟨reason, dropped⟩ := ended
  exact reports.logged reason dropped

theorem run_seen {p : Option U64 × Progress} {es : List (ChainView × SubmitEvent)}
    (seen : Seen status p.2) (same : ∀ e ∈ es, SameStatus status e.2)
    (reached : (returning cfg hit).run p es = some (next, .done result)) :
    Reports status result ↔ ∀ e ∈ es, Undisturbed e.2 := by
  induction es generalizing p with
  | nil =>
    cases reached
    exact iff_of_true seen nofun
  | cons e es ih =>
    obtain ⟨q, taken, rest⟩ := (Machine.run_cons _).mp reached
    obtain ⟨phase, here, resumes⟩ := returning_step taken
    rw [here] at seen
    rw [List.forall_mem_cons]
    by_cases undisturbed : Undisturbed e.2
    · rw [and_iff_right undisturbed]
      have next := seen.kept (same e List.mem_cons_self) undisturbed resumes
      exact ih next (fun d later => same d (List.mem_cons_of_mem e later)) rest
    · refine iff_of_false (run_lost (seen.lost undisturbed resumes) rest) ?_
      exact fun all => undisturbed all.1

/-- In every run of a call, from the poll that sees the receipt `r` on: the call reports
the transaction with its status exactly when neither the clock nor an error of a read
ends the wait. -/
theorem run_reports_iff_undisturbed (cfg : SubmitterCfg) (hit : Hit) (next next' : Option U64)
    (es later : List (ChainView × SubmitEvent)) (view : ChainView) (r : TransactionReceipt)
    (result : Returned)
    (reached : (returning cfg hit).run (next, .on .snapshot)
      (es ++ (view, .receipt (.ok (some r))) :: later) = some (next', .done result))
    (mined : ∀ e ∈ later, SameStatus r.status e.2) :
    Reports r.status result ↔ ∀ e ∈ later, Undisturbed e.2 := by
  obtain ⟨p, _, rest⟩ := (Machine.run_append _).mp reached
  obtain ⟨q, taken, wait⟩ := (Machine.run_cons _).mp rest
  obtain ⟨phase, _, resumes⟩ := returning_step taken
  have seen : Seen r.status q.2 := by
    cases resumes
    exact rfl
  exact run_seen seen mined wait

/-- The answers that bring a call to its wait. -/
def layoutAnswers : List (ChainView × SubmitEvent) :=
  [.snapshot, .gasPrice (.ok 1), .mintsInBlock (.ok 0) true, .transactionCount (.ok 0),
    .signed (.ok ()), .sendRaw (.ok B256.zero), .sendRaw (.ok B256.zero),
    .sendRaw (.ok B256.zero)].map fun e => (layoutView, e)

theorem run_reports_two_polls :
    ∃ next result, (returning layoutCfg ⟨0x4243, B256.zero, 1⟩).run (none, .on .snapshot)
        (layoutAnswers ++ (layoutView, .receipt (.ok (some ⟨true, some 151⟩))) ::
          [(layoutView, .blockNumber (.ok 151)),
            (layoutView, .receipt (.ok (some ⟨true, some 151⟩))),
            (layoutView, .blockNumber (.ok 153)),
            (layoutView, .transactionCount (.ok 1))]) = some (next, .done result) ∧
      Reports true result := by
  have reached : (returning layoutCfg ⟨0x4243, B256.zero, 1⟩).run (none, .on .snapshot)
      (layoutAnswers ++ (layoutView, .receipt (.ok (some ⟨true, some 151⟩))) ::
        [(layoutView, .blockNumber (.ok 151)),
          (layoutView, .receipt (.ok (some ⟨true, some 151⟩))),
          (layoutView, .blockNumber (.ok 153)),
          (layoutView, .transactionCount (.ok 1))]) = some (_, .done _) := rfl
  refine ⟨_, _, reached, (run_reports_iff_undisturbed _ _ _ _ _ _ _ _ _ reached ?_).mpr ?_⟩
  · simp [SameStatus]
  · simp [Undisturbed]

/-- The transaction is mined and its receipt seen, and the clock ends the wait before the
block is two deep. -/
theorem mined_hit_dropped :
    ∃ next, (returning layoutCfg ⟨0x4243, B256.zero, 1⟩).run (none, .on .snapshot)
        (layoutAnswers ++ (layoutView, .receipt (.ok (some ⟨true, some 151⟩))) ::
          [(layoutView, .blockNumber (.ok 152)), (layoutView, .timeout),
            (layoutView, .transactionCount (.ok 1))]) =
        some (next, .done (.ok (.dropped .receiptTimeout))) ∧
      ¬ Reports true (.ok (.dropped .receiptTimeout)) := by
  refine ⟨_, rfl, fun reports => ?_⟩
  exact reports.logged (.inr .receiptTimeout) rfl

end HashMiner.Tx
