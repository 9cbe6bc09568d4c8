import HashMiner.Kernel.Mine

/-!
# Electing one winner

Under every interleaving, the flag is claimed exactly when some thread of the
launch has an accepted nonce, and the only store to `result` is the claimer's.
-/

namespace HashMiner.Kernel

open Foundation

namespace Grid

variable {l : Launch} {s t : Grid} {g : Nat} {log log' : List Nat}

@[simp] theorem move_found (s : Grid) (g : Nat) (t : Thread) : (s.move g t).found = s.found := rfl

@[simp] theorem move_result (s : Grid) (g : Nat) (t : Thread) :
    (s.move g t).result = s.result := rfl

@[simp] theorem move_self (s : Grid) (g : Nat) (t : Thread) : (s.move g t).thread g = t := by
  simp [move]

theorem move_other (s : Grid) {g h : Nat} (t : Thread) (other : h ≠ g) :
    (s.move g t).thread h = s.thread h := by simp [move, other]

/-- The steps by name: what a thread found, and what it left. -/
inductive Moves (l : Launch) (s : Grid) (g : Nat) : Grid → Prop
  | leave : s.thread g = .entry → s.found ≠ 0 → Moves l s g (s.move g .exited)
  | enter : s.thread g = .entry → s.found = 0 → Moves l s g (s.move g .hashing)
  | reject : s.thread g = .hashing → l.accepts g = false → Moves l s g (s.move g .exited)
  | lose : s.thread g = .hashing → l.accepts g = true → s.found ≠ 0 →
      Moves l s g (s.move g .exited)
  | claim : s.thread g = .hashing → l.accepts g = true → s.found = 0 →
      Moves l s g ({ s with found := 1 }.move g .claimed)
  | store : s.thread g = .claimed → Moves l s g ({ s with result := l.nonce g }.move g .exited)

theorem step_cases (taken : step l s g = some t) : g < l.threads ∧ Moves l s g t := by
  unfold step at taken
  split at taken
  · next inside =>
    refine ⟨inside, ?_⟩
    split at taken
    · next entry =>
      split at taken <;> cases taken
      · next set => exact .leave entry set
      · next clear => exact .enter entry (not_not.mp clear)
    · next hashing =>
      split at taken
      · next accepted =>
        split at taken <;> cases taken
        · next clear => exact .claim hashing accepted clear
        · next set => exact .lose hashing accepted set
      · next rejected =>
        cases taken
        exact .reject hashing (Bool.not_eq_true _ ▸ rejected)
    · next claimed =>
      cases taken
      exact .store claimed
    · cases taken
  · cases taken

/-- While the flag is clear nobody has stored and no accepted thread has left; once
it is set, one accepted thread owns it and is the only one to store. -/
structure Elects (l : Launch) (s : Grid) (log : List Nat) : Prop where
  clear : s.found = 0 → log = [] ∧ (∀ g, s.thread g ≠ .claimed) ∧
    ∀ g < l.threads, l.accepts g = true → s.thread g ≠ .exited
  set : s.found ≠ 0 → ∃ w < l.threads, l.accepts w = true ∧
    (∀ g, g ≠ w → s.thread g ≠ .claimed) ∧
    (s.thread w = .claimed ∧ log = [] ∨
      s.thread w = .exited ∧ log = [w] ∧ s.result = l.nonce w)

theorem start_elects (result : U64) : Elects l (start 0 result) [] where
  clear _ := ⟨rfl, fun _ => by simp [start], fun _ _ _ => by simp [start]⟩
  set taken := absurd rfl taken

/-- A move that neither claims nor stores. A thread that still moves is not the
owner of the flag. -/
theorem Elects.quiet (inv : Elects l s log) {next : Thread}
    (idle : s.thread g ≠ .claimed) (running : s.thread g ≠ .exited) (unclaimed : next ≠ .claimed)
    (justified : s.found = 0 → l.accepts g = true → next ≠ .exited) :
    Elects l (s.move g next) log where
  clear free := by
    obtain ⟨empty, none, present⟩ := inv.clear free
    refine ⟨empty, fun h => ?_, fun h inside accepted => ?_⟩
    · by_cases same : h = g
      · rw [same, move_self]
        exact unclaimed
      · rw [move_other s next same]
        exact none h
    · by_cases same : h = g
      · rw [same, move_self]
        exact justified free (same ▸ accepted)
      · rw [move_other s next same]
        exact present h inside accepted
  set taken := by
    obtain ⟨w, inside, accepted, unique, owner⟩ := inv.set taken
    have other : w ≠ g := by
      rintro rfl
      rcases owner with ⟨claimed, _⟩ | ⟨exited, _⟩
      · exact idle claimed
      · exact running exited
    refine ⟨w, inside, accepted, fun h distinct => ?_, ?_⟩
    · by_cases same : h = g
      · rw [same, move_self]
        exact unclaimed
      · rw [move_other s next same]
        exact unique h distinct
    · rw [move_other s next other]
      exact owner

theorem Elects.claim (inv : Elects l s log) (inside : g < l.threads)
    (accepted : l.accepts g = true) (free : s.found = 0) :
    Elects l ({ s with found := 1 }.move g .claimed) log where
  clear free := absurd free (by simp)
  set _ := by
    obtain ⟨empty, none, _⟩ := inv.clear free
    refine ⟨g, inside, accepted, fun h other => ?_, .inl ⟨move_self _ g _, empty⟩⟩
    rw [move_other _ _ other]
    exact none h

theorem Elects.store (inv : Elects l s log) (claimed : s.thread g = .claimed) :
    Elects l ({ s with result := l.nonce g }.move g .exited) (log ++ [g]) where
  clear free := absurd claimed ((inv.clear free).2.1 g)
  set taken := by
    obtain ⟨w, inside, accepted, unique, owner⟩ := inv.set taken
    have owns : g = w := by
      by_contra other
      exact unique g other claimed
    subst owns
    refine ⟨g, inside, accepted, fun h other => ?_, .inr ⟨move_self _ g _, ?_, rfl⟩⟩
    · rw [move_other _ _ other]
      exact unique h other
    · rcases owner with ⟨_, empty⟩ | ⟨exited, _⟩
      · rw [empty, List.nil_append]
      · rw [claimed] at exited
        cases exited

theorem Elects.step (inv : Elects l s log) (taken : step l s g = some t) :
    Elects l t (log ++ stores s g) := by
  obtain ⟨inside, moves⟩ := step_cases taken
  have silent : s.thread g ≠ .claimed → log ++ stores s g = log := by
    intro idle
    simp [stores, idle]
  cases moves with
  | leave entry set =>
    rw [silent (by simp [entry])]
    exact inv.quiet (by simp [entry]) (by simp [entry]) (by simp) fun free => absurd free set
  | enter entry clear =>
    rw [silent (by simp [entry])]
    exact inv.quiet (by simp [entry]) (by simp [entry]) (by simp) fun _ _ => by simp
  | reject hashing rejected =>
    rw [silent (by simp [hashing])]
    exact inv.quiet (by simp [hashing]) (by simp [hashing]) (by simp) fun _ accepted => by
      simp [rejected] at accepted
  | lose hashing accepted set =>
    rw [silent (by simp [hashing])]
    exact inv.quiet (by simp [hashing]) (by simp [hashing]) (by simp) fun free => absurd free set
  | claim hashing accepted clear =>
    rw [silent (by simp [hashing])]
    exact inv.claim inside accepted clear
  | store claimed =>
    simp only [stores, claimed, if_true]
    exact inv.store claimed

/-- What a launch leaves when all its threads have exited. -/
theorem run_elects {result : U64} {schedule : List Nat}
    (ran : ((machine l).logged stores).run (start 0 result, []) schedule = some (s, log)) :
    Elects l s log := by
  have kept : ∀ p g q, Elects l p.1 p.2 → ((machine l).logged stores).step p g = some q →
      Elects l q.1 q.2 := by
    rintro ⟨s, log⟩ g ⟨t, _⟩ inv taken
    obtain ⟨stepped, rfl⟩ := (Machine.logged_step _).mp taken
    exact inv.step stepped
  exact Machine.invariant_run _ kept (start_elects result) ran

theorem Elects.clear_complete (inv : Elects l s log) (complete : s.Complete l)
    (free : s.found = 0) : ∀ g < l.threads, l.accepts g = false := by
  intro g inside
  by_contra accepted
  exact (inv.clear free).2.2 g inside (Bool.not_eq_false _ ▸ accepted) (complete g inside)

theorem Elects.set_complete (inv : Elects l s log) (complete : s.Complete l)
    (taken : s.found ≠ 0) :
    ∃ w < l.threads, l.accepts w = true ∧ log = [w] ∧ s.result = l.nonce w := by
  obtain ⟨w, inside, accepted, _, ⟨claimed, _⟩ | ⟨_, stored, result⟩⟩ := inv.set taken
  · rw [complete w inside] at claimed
    cases claimed
  · exact ⟨w, inside, accepted, stored, result⟩

end Grid

end HashMiner.Kernel
