import Mathlib.Logic.Relation

/-!
# Guarded reachability for labelled transition systems

A system is a partial step function `step : σ → α → Option σ`: from a state, an
action is either refused (`none`) or leads to one next state. All
nondeterminism (who moves, what the environment answers) sits in the choice of
the action.

- `Reach step ok s₀ s`: some run from `s₀` ends in `s` and every action `a` it
  takes from a state `t` satisfies the side condition `ok t a`. Environment
  assumptions ("nobody crashes") and exact conditions on single steps are both
  side conditions, so weakening one is `Reach.mono`.
- `Reach.invariant`, `Reach.invariant'`: the induction every safety proof uses,
  the second with the reachability of the pre-state at hand.
- `Reach.project`: a state projection that follows an abstract step relation
  inherits the abstract invariants.
- `ReachIn`: runs that count the steps of a given kind; `ReachIn.measure_le` is the
  argument that enough of them bring a measure down to zero, `ReachIn.potential` bounds how
  often something can happen that uses up a potential.
- `exists_reach_of_measure`: a goal is in reach from every state of a set that, short of the
  goal, can always be left for a state of the set with a smaller measure. How long such a way
  is does not matter, nor what else could have been done.
- `recording`: history variables. What a property says about the past of a run need not be
  in the states; a second component can record it, which no step looks at. A recorded run is
  a run of the system (`Reach.forget`), so the invariants of the system hold of its states.
- `runGuarded`: the executable counterpart, for exhibiting concrete runs.
-/

namespace DistriSys.Transition

universe u v w

variable {σ : Type u} {α : Type v}

/-- `s` is reached from `s₀` by steps that all satisfy the side condition `ok`. -/
inductive Reach (step : σ → α → Option σ) (ok : σ → α → Prop) (s₀ : σ) : σ → Prop where
  | refl : Reach step ok s₀ s₀
  | tail {s s' : σ} {a : α} :
      Reach step ok s₀ s → ok s a → step s a = some s' → Reach step ok s₀ s'

namespace Reach

variable {step : σ → α → Option σ} {ok ok' : σ → α → Prop} {s₀ s s' : σ}

/-- A side condition may be replaced by what it implies in reached states. -/
theorem mono' (hok : ∀ s a, Reach step ok s₀ s → ok s a → ok' s a) (h : Reach step ok s₀ s) :
    Reach step ok' s₀ s := by
  induction h with
  | refl => exact .refl
  | tail hr ha hs ih => exact ih.tail (hok _ _ hr ha) hs

/-- Fewer side conditions admit more runs. -/
theorem mono (hok : ∀ s a, ok s a → ok' s a) (h : Reach step ok s₀ s) : Reach step ok' s₀ s :=
  h.mono' fun _ _ _ => hok _ _

theorem trans (h : Reach step ok s₀ s) (h' : Reach step ok s s') :
    Reach step ok s₀ s' := by
  induction h' with
  | refl => exact h
  | tail _ ha hs ih => exact ih.tail ha hs

/-- A property that holds at the start and that every permitted step out of a
reached state keeps, holds in every reached state. -/
theorem invariant' {I : σ → Prop} (h : Reach step ok s₀ s) (h₀ : I s₀)
    (hstep : ∀ ⦃s a s'⦄, Reach step ok s₀ s → I s → ok s a → step s a = some s' → I s') :
    I s := by
  induction h with
  | refl => exact h₀
  | tail hr ha hs ih => exact hstep hr ih ha hs

/-- A property that holds at the start and that every permitted step keeps,
holds in every reached state. -/
theorem invariant {I : σ → Prop} (h : Reach step ok s₀ s) (h₀ : I s₀)
    (hstep : ∀ ⦃s a s'⦄, I s → ok s a → step s a = some s' → I s') : I s :=
  h.invariant' h₀ fun _ _ _ _ hI ha hs => hstep hI ha hs

/-- A projection whose value changes only along `R` inherits every property `R` keeps. -/
theorem project {τ : Type w} {f : σ → τ} {R : τ → τ → Prop} {J : τ → Prop}
    (h : Reach step ok s₀ s) (h₀ : J (f s₀))
    (hsim : ∀ ⦃s a s'⦄, Reach step ok s₀ s → ok s a → step s a = some s' → R (f s) (f s'))
    (hJ : ∀ ⦃v v'⦄, J v → R v v' → J v') : J (f s) :=
  h.invariant' (I := fun s => J (f s)) h₀
    fun _ _ _ hr hI ha hs => hJ hI (hsim hr ha hs)

end Reach

/-! ## Counting steps -/

/-- `s` is reached from `s₀` by a run that takes `n` steps of the kind `own`. -/
inductive ReachIn (step : σ → α → Option σ) (ok : σ → α → Prop) (own : α → Bool) (s₀ : σ) :
    Nat → σ → Prop where
  | refl : ReachIn step ok own s₀ 0 s₀
  | tail {n : Nat} {s s' : σ} {a : α} :
      ReachIn step ok own s₀ n s → ok s a → step s a = some s' →
        ReachIn step ok own s₀ (n + if own a then 1 else 0) s'

namespace ReachIn

variable {step : σ → α → Option σ} {ok : σ → α → Prop} {own : α → Bool} {s₀ s : σ} {n : Nat}

theorem reach (h : ReachIn step ok own s₀ n s) : Reach step ok s₀ s := by
  induction h with
  | refl => exact .refl
  | tail _ ha hs ih => exact ih.tail ha hs

/-- A measure that no step raises and every step of the kind lowers, unless it is
zero, is zero after as many of them. -/
theorem measure_le (h : ReachIn step ok own s₀ n s) (μ : σ → Nat)
    (hstep : ∀ ⦃s a s'⦄, Reach step ok s₀ s → ok s a → step s a = some s' →
      μ s' ≤ μ s - if own a then 1 else 0) : μ s ≤ μ s₀ - n := by
  induction h with
  | refl => exact Nat.le_refl _
  | @tail n s s' a hr ha hs ih =>
    have hlower := hstep hr.reach ha hs
    omega

/-- Steps of the kind that use up a potential are at most as many as there was of it. -/
theorem potential (h : ReachIn step ok own s₀ n s) (μ : σ → Nat)
    (hstep : ∀ ⦃s a s'⦄, Reach step ok s₀ s → ok s a → step s a = some s' →
      μ s' + (if own a then 1 else 0) ≤ μ s) : μ s + n ≤ μ s₀ := by
  induction h with
  | refl => exact Nat.le_refl _
  | tail hr ha hs ih =>
    have hless := hstep hr.reach ha hs
    omega

end ReachIn

/-! ## Getting to a goal -/

/-- From every state of `P` there is a way to `Q`, if the measure can be lowered until then. -/
theorem exists_reach_of_measure {step : σ → α → Option σ} {ok : σ → α → Prop} {s : σ}
    {P Q : σ → Prop} (μ : σ → Nat)
    (h : ∀ s, P s → (∃ s', Reach step ok s s' ∧ Q s') ∨
      ∃ s', Reach step ok s s' ∧ P s' ∧ μ s' < μ s) (hs : P s) :
    ∃ s', Reach step ok s s' ∧ Q s' := by
  induction hμ : μ s using Nat.strongRecOn generalizing s with
  | ind n ih =>
    rcases h s hs with hgoal | ⟨s', hreach, hs', hlt⟩
    · exact hgoal
    · obtain ⟨t, hrest, ht⟩ := ih (μ s') (hμ ▸ hlt) hs' rfl
      exact ⟨t, hreach.trans hrest, ht⟩

/-! ## History variables -/

section History

variable {η : Type w}

/-- A state with what its run has recorded. -/
structure Recorded (σ : Type u) (η : Type w) where
  state : σ
  history : η

/-- The system `step`, recording. -/
def recording (step : σ → α → Option σ) (record : σ → α → σ → η → η) (r : Recorded σ η) (a : α) :
    Option (Recorded σ η) :=
  (step r.state a).map fun s' => ⟨s', record r.state a s' r.history⟩

variable {step : σ → α → Option σ} {record : σ → α → σ → η → η}

theorem recording_eq_some {r r' : Recorded σ η} {a : α} (h : recording step record r a = some r') :
    ∃ s', step r.state a = some s' ∧ r' = ⟨s', record r.state a s' r.history⟩ := by
  obtain ⟨s', hs, rfl⟩ := Option.map_eq_some_iff.mp h
  exact ⟨s', hs, rfl⟩

/-- A recorded run is a run. -/
theorem Reach.forget {okr : Recorded σ η → α → Prop} {ok : σ → α → Prop} {r₀ r : Recorded σ η}
    (h : Reach (recording step record) okr r₀ r) (hok : ∀ r a, okr r a → ok r.state a) :
    Reach step ok r₀.state r.state := by
  induction h with
  | refl => exact .refl
  | tail _ ha hs ih =>
    obtain ⟨s', hstep, rfl⟩ := recording_eq_some hs
    exact ih.tail (hok _ _ ha) hstep

end History

/-! ## Concrete runs -/

/-- Run a list of actions, checking the side condition before each. -/
def runGuarded (step : σ → α → Option σ) (ok : σ → α → Prop) [∀ s a, Decidable (ok s a)] :
    σ → List α → Option σ
  | s, [] => some s
  | s, a :: as =>
    if ok s a then
      match step s a with
      | some s' => runGuarded step ok s' as
      | none => none
    else none

section Runs

variable {step : σ → α → Option σ} {ok : σ → α → Prop} [∀ s a, Decidable (ok s a)]

theorem reach_of_runGuarded :
    ∀ {as : List α} {s s' : σ}, runGuarded step ok s as = some s' → Reach step ok s s'
  | [], _, _, h => by
    cases h
    exact .refl
  | a :: as, s, s', h => by
    unfold runGuarded at h
    split at h
    · next hok =>
      split at h
      · next t ht => exact (Reach.refl.tail hok ht).trans (reach_of_runGuarded h)
      · cases h
    · cases h

/-- A concrete run that ends in a state with property `P` witnesses that such a
state is reachable. -/
theorem exists_reach_of_run (step : σ → α → Option σ) (ok : σ → α → Prop)
    [∀ s a, Decidable (ok s a)] (s : σ) (P : σ → Prop) [DecidablePred P] (as : List α)
    (h : (runGuarded step ok s as).any (fun s' => decide (P s')) = true) :
    ∃ s', Reach step ok s s' ∧ P s' := by
  cases hr : runGuarded step ok s as with
  | none =>
    rw [hr] at h
    cases h
  | some s' =>
    rw [hr] at h
    exact ⟨s', reach_of_runGuarded hr, of_decide_eq_true h⟩

end Runs

end DistriSys.Transition
