import DistriSys.Core.Ticker
import DistriSys.Transition.Reach

/-!
# Stopping the timers

When a promise of `stop` is fulfilled, the scheduler or watchdog should be silent until
it is started again (`Ticker.Silent`). But `stop` knows the last pass only, and a second
`stop` knows none: **`stop_means_stopped`** says that it must be called when there is no
other pass under way, and `exists_run_of_not_orderly` that no other call is safe.
`slow_pass_survives_stop` is a pass that outlasts a tick.

- `Good`: every pending `stop` waits for all passes under way (`HaltCall.Covered`);
- `Quiet`: no pass is under way and the timer is off, so no command is issued;
- `stop_means_stopped` puts them together.

The condition `Ticker.Orderly` is about the moment `stop` is called and the passes under way
then, not about what `stop` returns. Starting and stopping may alternate any number of times,
and calls of `stop` may overlap.
-/

namespace DistriSys

open Js Transition

namespace Ticker

/-- After a resolved `stop` no pass is under way, and no command is issued any more. -/
structure Silent (ticker : Ticker) : Prop where
  finished : ∀ call ∈ ticker.stops, call.resolved = true → call.startedSince = false →
    ∀ i : Nat, ticker.passes[i]? ≠ some .unfinished
  silent : ∀ call ∈ ticker.stops, call.resolved = true → call.startedSince = false →
    ∀ ticker', Reach step (fun _ a => a ≠ .start) ticker ticker' →
      ticker'.commands = ticker.commands

/-- The passes a call of `stop` waits for. -/
def awaited (ticker : Ticker) : List Nat := if ticker.timer then ticker.currentRun.toList else []

/-- The condition on a step: `stop` is called only while every pass under way is the one
it waits for. -/
def Orderly (ticker : Ticker) (a : TickerAction) : Prop :=
  a = .stop → ∀ i < ticker.passes.length, ticker.passes[i]? = some .unfinished → i ∈ ticker.awaited

instance (ticker : Ticker) : DecidablePred ticker.Orderly := fun _ =>
  inferInstanceAs (Decidable (_ → _))

variable {ticker ticker' : Ticker} {a : TickerAction} {i : Nat}

/-! ## Runs -/

/-- What every orderly run keeps. -/
def Good (ticker : Ticker) : Prop :=
  HaltCall.Covered ticker.stops (ticker.timer = false) (ticker.passes[·]? = some .unfinished)
    (ticker.passes[·]? = some .finished)

theorem good_step (h : Good ticker) (ha : ticker.Orderly a) (hs : ticker.step a = some ticker') :
    Good ticker' := by
  cases a with
  | start =>
    simp only [step] at hs
    split at hs <;> cases hs <;> exact h.start fun _ => id
  | stop =>
    -- what the caller promises: no pass is under way but the awaited one
    have hknown : ∀ i, ticker.passes[i]? = some .unfinished → i ∈ ticker.awaited := by
      intro i hi
      exact ha rfl i (List.getElem?_eq_some_iff.mp hi).1 hi
    simp only [step] at hs
    unfold awaited at hknown
    split at hs
    · next htimer =>
      cases hs
      rw [if_pos htimer] at hknown
      exact h.halt rfl hknown
    · next htimer =>
      cases hs
      rw [if_neg htimer] at hknown
      exact h.halt (Bool.not_eq_true _ ▸ htimer) hknown
  | tick =>
    simp only [step] at hs
    split at hs
    · next htimer =>
      cases hs
      refine h.spawn (by simp [htimer]) ?_
      intro i hi
      rwa [List.getElem?_append_left (List.getElem?_eq_some_iff.mp hi).1]
    · cases hs
  | command i =>
    simp only [step] at hs
    split at hs <;> cases hs
    exact h
  | finish i =>
    simp only [step] at hs
    split at hs <;> cases hs
    refine h.proceed ?_ ?_
    · intro j hj
      -- of the passes only this one changes
      by_cases hij : i = j
      · subst hij
        assumption
      · rwa [List.getElem?_set_ne hij] at hj
    · intro j hj
      by_cases hij : i = j
      · subst hij
        rw [List.getElem?_set_self (List.getElem?_eq_some_iff.mp hj).1]
      · rwa [List.getElem?_set_ne hij]
  | settle k =>
    simp only [step] at hs
    split at hs
    · next call hk =>
      split at hs
      · next hdone =>
        cases hs
        exact h.settle hk hdone.2
      · cases hs
    · cases hs

theorem good_run (h : Reach step Orderly new ticker) : Good ticker :=
  h.invariant HaltCall.covered_nil fun _ _ _ hgood ha hs => good_step hgood ha hs

/-- The timer is cleared, and no pass is under way. -/
def Quiet (ticker : Ticker) : Prop :=
  ticker.timer = false ∧ ∀ i : Nat, ticker.passes[i]? ≠ some .unfinished

/-- That lasts until the next start, and no command is issued. -/
theorem quiet_step (h : Quiet ticker) (ha : a ≠ .start) (hs : ticker.step a = some ticker') :
    Quiet ticker' ∧ ticker'.commands = ticker.commands := by
  cases a with
  | start => exact absurd rfl ha
  | stop =>
    simp only [step] at hs
    split at hs
    · next htimer => exact absurd (h.1.symm.trans htimer) Bool.false_ne_true
    · cases hs
      exact ⟨h, rfl⟩
  | tick =>
    simp only [step] at hs
    split at hs
    · next htimer => exact absurd (h.1.symm.trans htimer) Bool.false_ne_true
    · cases hs
  | command i =>
    simp only [step] at hs
    split at hs
    -- no pass is there to issue it
    · next hi => exact absurd hi (h.2 i)
    · cases hs
  | finish i =>
    simp only [step] at hs
    split at hs
    · next hi => exact absurd hi (h.2 i)
    · cases hs
  | settle k =>
    simp only [step] at hs
    split at hs
    · split at hs <;> cases hs
      exact ⟨h, rfl⟩
    · cases hs

theorem Quiet.commands_run (h : Quiet ticker)
    (hrun : Reach step (fun _ a => a ≠ .start) ticker ticker') :
    ticker'.commands = ticker.commands := by
  have hinv : Quiet ticker' ∧ ticker'.commands = ticker.commands := by
    refine hrun.invariant (I := fun t => Quiet t ∧ t.commands = ticker.commands) ⟨h, rfl⟩ ?_
    intro t a t' ht ha hs
    obtain ⟨hquiet, hcommands⟩ := quiet_step ht.1 ha hs
    exact ⟨hquiet, hcommands.trans ht.2⟩
  exact hinv.2

/-- **When stopped means stopped.** In a run that calls `stop` only while no pass is
under way but the one it waits for, no pass is under way once a `stop` has resolved, and
no command is issued, until the next call of `start`. -/
theorem stop_means_stopped (h : Reach step Orderly new ticker) : Silent ticker := by
  have hquiet : ∀ call ∈ ticker.stops, call.resolved = true → call.startedSince = false →
      Quiet ticker := by
    intro call hcall hresolved hsince
    refine (good_run h).no_task_left ?_ hcall hresolved hsince
    intro i hfinished hunfinished
    cases hfinished.symm.trans hunfinished
  constructor
  case finished =>
    intro call hcall hresolved hsince
    exact (hquiet call hcall hresolved hsince).2
  case silent =>
    intro call hcall hresolved hsince ticker' hrun
    exact (hquiet call hcall hresolved hsince).commands_run hrun

/-! ## The condition is sharp -/

/-- `currentRun` is one of the passes. -/
theorem currentRun_lt (h : Reach step (fun _ _ => True) new ticker) :
    ∀ i ∈ ticker.currentRun, i < ticker.passes.length := by
  refine h.invariant (I := fun t => ∀ i ∈ t.currentRun, i < t.passes.length) nofun ?_
  intro t a t' ht _ hs
  cases a with
  | start =>
    simp only [step] at hs
    split at hs <;> cases hs <;> exact ht
  | stop =>
    simp only [step] at hs
    split at hs <;> cases hs <;> exact ht
  | tick =>
    simp only [step] at hs
    split at hs <;> cases hs
    rintro i ⟨⟩
    simp
  | command i =>
    simp only [step] at hs
    split at hs <;> cases hs
    exact ht
  | finish i =>
    simp only [step] at hs
    split at hs <;> cases hs
    simpa using ht
  | settle k =>
    simp only [step] at hs
    split at hs
    · split at hs <;> cases hs
      exact ht
    · cases hs

theorem step_stop (ticker : Ticker) : ticker.step .stop =
    some { ticker with timer := false, stops := ticker.stops ++ [.begun ticker.awaited] } := by
  cases htimer : ticker.timer <;> simp [step, awaited, htimer]

/-- The pass a `stop` waits for can end while another goes on. -/
theorem exists_run_finished (ticker : Ticker) {j : Nat} (hj : ticker.passes[j]? = some .unfinished)
    (hi : i < ticker.passes.length) (hne : i ≠ j) :
    ∃ ticker', Reach step (fun _ a => a ≠ .start) ticker ticker' ∧ ticker'.stops = ticker.stops ∧
      ticker'.passes[i]? = some .finished ∧ ticker'.passes[j]? = some .unfinished := by
  cases hpass : ticker.passes[i] with
  | finished => exact ⟨ticker, .refl, rfl, by simp [hi, hpass], hj⟩
  | unfinished =>
    have hfinish : TickerAction.finish i ≠ .start := by simp
    have hs : ticker.step (.finish i) =
        some { ticker with passes := ticker.passes.set i .finished } := by
      simp [step, hi, hpass]
    refine ⟨_, Reach.refl.tail hfinish hs, rfl, ?_, ?_⟩
    · rw [List.getElem?_set_self hi]
    · rwa [List.getElem?_set_ne hne]

/-- When `stop` is called otherwise, some run breaks the promise before the next start. -/
theorem exists_run_of_not_orderly (h : Reach step (fun _ _ => True) new ticker)
    (hnot : ¬ ticker.Orderly .stop) :
    ∃ ticker', Reach step (fun _ a => a ≠ .start) ticker ticker' ∧ ¬ Silent ticker' := by
  obtain ⟨j, hj, hunknown⟩ : ∃ j : Nat, ticker.passes[j]? = some .unfinished ∧
      j ∉ ticker.awaited := by
    by_contra hall
    refine hnot fun _ j _ hj => ?_
    by_contra hunknown
    exact hall ⟨j, hj, hunknown⟩
  have hstop : TickerAction.stop ≠ .start := by simp
  have hstopped : Reach step (fun _ a => a ≠ .start) ticker _ :=
    Reach.refl.tail hstop ticker.step_stop
  -- the pass the call waits for ends, if there is one
  obtain ⟨t, hrun, hstops, hdone, hunfinished⟩ : ∃ t,
      Reach step (fun _ a => a ≠ .start) ticker t ∧
      t.stops = ticker.stops ++ [.begun ticker.awaited] ∧
      (∀ i ∈ ticker.awaited, t.passes[i]? = some .finished) ∧
      t.passes[j]? = some .unfinished := by
    have hnone : ticker.awaited = [] ∨ ∃ i ∈ ticker.currentRun, ticker.awaited = [i] := by
      unfold awaited
      split
      · cases ticker.currentRun <;> simp
      · exact .inl rfl
    rcases hnone with hnone | ⟨i, hi, hsome⟩
    · exact ⟨_, hstopped, rfl, by simp [hnone], hj⟩
    · have hne : i ≠ j := by
        rintro rfl
        exact hunknown (by simp [hsome])
      obtain ⟨t, hrun, hstops, hfinished, hunfinished⟩ := exists_run_finished
        { ticker with timer := false, stops := ticker.stops ++ [.begun ticker.awaited] }
        hj (currentRun_lt h i hi) hne
      exact ⟨t, hstopped.trans hrun, hstops, by simpa [hsome] using hfinished, hunfinished⟩
  -- and the call resolves, with pass `j` under way
  have hlast : t.stops[ticker.stops.length]? = some (.begun ticker.awaited) := by simp [hstops]
  have hsettle : TickerAction.settle ticker.stops.length ≠ .start := by simp
  have hresolves : t.step (.settle ticker.stops.length) = some
      { t with stops := HaltCall.settle t.stops ticker.stops.length (.begun ticker.awaited) } := by
    simp only [step, hlast]
    exact if_pos ⟨rfl, hdone⟩
  refine ⟨_, hrun.tail hsettle hresolves, ?_⟩
  intro hsilent
  have hlt : ticker.stops.length < t.stops.length := by simp [hstops]
  exact hsilent.finished { HaltCall.begun ticker.awaited with resolved := true }
    (List.mem_set hlt _) rfl rfl j hunfinished

/-! ## Concrete runs -/

/-- A pass that ends while `stop` waits for it. -/
theorem stop_means_stopped_in_pass :
    ∃ ticker, Reach step Orderly new ticker ∧
      (∃ call ∈ ticker.stops, call.resolved = true ∧ call.startedSince = false) ∧
        Silent ticker := by
  obtain ⟨ticker, hreach, hcall⟩ := exists_reach_of_run step Orderly new
    (fun ticker => ∃ call ∈ ticker.stops, call.resolved = true ∧ call.startedSince = false)
    [.start, .tick, .command 0, .finish 0, .tick, .stop, .command 1, .finish 1, .settle 0]
    (by decide)
  exact ⟨ticker, hreach, hcall, stop_means_stopped hreach⟩

/-- **A slow pass survives `stop`**: it outlasts a tick, `stop` waits for the pass that
began then, and the slow one is still at work. -/
theorem slow_pass_survives_stop :
    ¬ ∀ ticker, Reach step (fun _ _ => True) new ticker → Silent ticker := by
  intro h
  obtain ⟨ticker, hreach, call, hcall, hresolved, hsince, hpass⟩ :=
    exists_reach_of_run step (fun _ _ => True) new
      (fun ticker => ∃ call ∈ ticker.stops, call.resolved = true ∧ call.startedSince = false ∧
        ticker.passes[0]? = some .unfinished)
      [.start, .tick, .command 0, .tick, .finish 1, .stop, .settle 0] (by decide)
  exact (h ticker hreach).finished call hcall hresolved hsince 0 hpass

/-- A second `stop` resolves at once, while the first one still waits. -/
example :
    ∃ ticker, Reach step (fun _ _ => True) new ticker ∧ ∃ call ∈ ticker.stops,
      call.resolved = true ∧ call.startedSince = false ∧ ticker.passes[0]? = some .unfinished :=
  exists_reach_of_run step (fun _ _ => True) new
    (fun ticker => ∃ call ∈ ticker.stops, call.resolved = true ∧ call.startedSince = false ∧
      ticker.passes[0]? = some .unfinished)
    [.start, .tick, .stop, .stop, .settle 1] (by decide)

end Ticker

end DistriSys
