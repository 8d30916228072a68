import DistriSys.Js.Async

/-!
# Contracts and refinement of asynchronous functions

A call may break off at any request, and what the server has done by then stays done. A
contract therefore has two postconditions: `Ends P x Q E` says that `x`, called in a state
with `P`, returns in a state with `Q` or throws in a state with `E`. There is one rule for
each construct. `Keeps P x` is the contract of an invariant.

A function can be instrumented: it works on a larger state, of which the server's is a part
(`within`). `Refines π x y` says that `x` is `y` seen through the projection `π`: same
result, same exception, same state below.

The rules are used backwards: `refine .bind ?_ fun a => ?_` follows the text of a function from
its first `await` to its last, and leaves one goal for each request. Neither notion looks at
which requests are rejected; that is part of what a request does.
-/

namespace DistriSys.Js.Async

variable {ε σ τ α β : Type}

/-- How a call ends: what holds when it returns, and when it throws. -/
def Ends (P : σ → Prop) (x : Async ε σ α) (Q : α → σ → Prop) (E : σ → Prop) : Prop :=
  ∀ s, P s → match x.run s with
    | .ok a s' => Q a s'
    | .error _ s' => E s'

/-- However the call ends, it keeps the property. -/
abbrev Keeps (P : σ → Prop) (x : Async ε σ α) : Prop := Ends P x (fun _ => P) P

/-! ## One rule for each construct -/

section Ends

variable {P E F : σ → Prop} {x : Async ε σ α} {Q : α → σ → Prop} {e : ε} {refused : Bool}

/-- The rule of `return`. -/
theorem Ends.pure {a : α} (h : ∀ s, P s → Q a s) : Ends P (pure a : Async ε σ α) Q E := h

/-- The rule of `throw`. -/
theorem Ends.throw (h : ∀ s, P s → E s) : Ends P (throw e : Async ε σ α) Q E := h

/-- The rule of a step that is not awaited: it cannot be refused. -/
theorem Ends.modify {f : σ → σ} {R : Unit → σ → Prop} (h : ∀ s, P s → R () (f s)) :
    Ends P (modify f : Async ε σ Unit) R E := h

/-- The rule of a request: it is carried out, or refused with the state as it was. -/
theorem Ends.request {f : σ → σ} {R : Unit → σ → Prop} (h : ∀ s, P s → R () (f s))
    (he : ∀ s, P s → E s) : Ends P (request refused e f) R E := by
  cases refused with
  | true => exact he
  | false => exact h

/-- The rule of a request that only reads. -/
theorem Ends.query {f : σ → α} (h : ∀ s, P s → Q (f s) s) (he : ∀ s, P s → E s) :
    Ends P (query refused e f) Q E := by
  cases refused with
  | true => exact he
  | false => exact h

/-- The rule of a request that writes and answers. -/
theorem Ends.exchange {f : σ → α × σ} (h : ∀ s, P s → Q (f s).1 (f s).2)
    (he : ∀ s, P s → E s) : Ends P (exchange refused e f) Q E := by
  cases refused with
  | true => exact he
  | false => exact h

/-- The rule of a sequence: where `x` ends well, `k` takes over; where it throws, nothing more
is done. -/
theorem Ends.bind {k : α → Async ε σ β} {R : β → σ → Prop} (hx : Ends P x Q E)
    (hk : ∀ a, Ends (Q a) (k a) R E) : Ends P (x >>= k) R E := by
  intro s hs
  have hend := hx s hs
  show match EStateM.bind x k s with
    | .ok a s' => R a s'
    | .error _ s' => E s'
  simp only [EStateM.run] at hend
  rw [EStateM.bind]
  cases hrun : x s with
  | ok a s' =>
    rw [hrun] at hend
    exact hk a s' hend
  | error e s' =>
    rw [hrun] at hend
    exact hend

/-- The rule of `try` and `catch`: the handler starts where the block was left. -/
theorem Ends.tryCatch {h : ε → Async ε σ α} (hx : Ends P x Q F) (hh : ∀ e, Ends F (h e) Q E) :
    Ends P (tryCatch x h) Q E := by
  intro s hs
  have hend := hx s hs
  rw [run_tryCatch]
  cases hrun : x.run s with
  | ok a s' =>
    rw [hrun] at hend
    exact hend
  | error e s' =>
    rw [hrun] at hend
    exact hh e s' hend

/-- The three ways through `try` and `finally`: an exception of the second block supersedes the
outcome of the first. -/
theorem run_tryFinally {y : Async ε σ β} {s : σ} :
    (tryFinally x y).run s = match x.run s with
      | .ok a s' => (match y.run s' with
        | .ok _ t => .ok a t
        | .error e t => .error e t)
      | .error e s' => (match y.run s' with
        | .ok _ t => .error e t
        | .error e' t => .error e' t) := by
  show EStateM.map Prod.fst (MonadFinally.tryFinally' x fun _ => y) s = _
  simp only [EStateM.run, EStateM.map, MonadFinally.tryFinally']
  cases x s with
  | ok a s' => cases h : y s' <;> simp [h]
  | error e s' => cases h : y s' <;> simp [h]

/-- The `finally` block takes over where the call returned, and where it threw. -/
theorem Ends.tryFinally {y : Async ε σ β} (hx : Ends P x (fun _ => F) F)
    (hy : Ends F y (fun _ => E) E) : Ends P (tryFinally x y) (fun _ => E) E := by
  intro s hs
  have hend := hx s hs
  rw [run_tryFinally]
  cases hrun : x.run s with
  | ok a s' =>
    rw [hrun] at hend
    have hlast := hy s' hend
    dsimp only at hlast ⊢
    cases hrun' : y.run s' <;> simpa [hrun'] using hlast
  | error e s' =>
    rw [hrun] at hend
    have hlast := hy s' hend
    dsimp only at hlast ⊢
    cases hrun' : y.run s' <;> simpa [hrun'] using hlast

/-- What a call leaves behind, if both ends promise the same. -/
theorem Ends.after (h : Ends P x (fun _ => E) E) {s : σ} (hs : P s) : E (x.after s) := by
  have hend := h s hs
  rw [Async.after]
  cases hrun : x.run s with
  | ok a s' =>
    rw [hrun] at hend
    exact hend
  | error e s' =>
    rw [hrun] at hend
    exact hend

/-! An invariant needs no intermediate assertions. -/

theorem Keeps.pure {a : α} : Keeps P (pure a : Async ε σ α) := fun _ h => h

theorem Keeps.throw : Keeps P (throw e : Async ε σ α) := fun _ h => h

theorem Keeps.modify {f : σ → σ} (h : ∀ s, P s → P (f s)) :
    Keeps P (modify f : Async ε σ Unit) := h

theorem Keeps.request {f : σ → σ} (h : ∀ s, P s → P (f s)) : Keeps P (request refused e f) :=
  Ends.request h fun _ hs => hs

theorem Keeps.query {f : σ → α} : Keeps P (query refused e f) :=
  Ends.query (fun _ hs => hs) fun _ hs => hs

theorem Keeps.exchange {f : σ → α × σ} (h : ∀ s, P s → P (f s).2) :
    Keeps P (exchange refused e f) :=
  Ends.exchange h fun _ hs => hs

/-- An invariant of both parts is one of the sequence. -/
theorem Keeps.bind {k : α → Async ε σ β} (hx : Keeps P x) (hk : ∀ a, Keeps P (k a)) :
    Keeps P (x >>= k) := Ends.bind hx hk

/-- An invariant of the block and of the handler is one of the whole. -/
theorem Keeps.tryCatch {h : ε → Async ε σ α} (hx : Keeps P x) (hh : ∀ e, Keeps P (h e)) :
    Keeps P (tryCatch x h) := Ends.tryCatch hx hh

/-- An invariant of both blocks is one of the whole, whichever way it is left. -/
theorem Keeps.tryFinally {y : Async ε σ β} (hx : Keeps P x) (hy : Keeps P y) :
    Keeps P (tryFinally x y) := Ends.tryFinally hx hy

end Ends

/-! ## Instrumented functions -/

/-- A function on a part of the state. -/
def within (get : σ → τ) (set : τ → σ → σ) (x : Async ε τ α) : Async ε σ α := fun s =>
  match x (get s) with
  | .ok a t => .ok a (set t s)
  | .error e t => .error e (set t s)

/-- The rule of a part of the state: what the program does to its part, it does to the whole.
-/
theorem Ends.within {get : σ → τ} {set : τ → σ → σ} {x : Async ε τ α} {P E : σ → Prop}
    {Q : α → σ → Prop}
    (h : ∀ s, P s → Ends (· = get s) x (fun a t => Q a (set t s)) fun t => E (set t s)) :
    Ends P (within get set x) Q E := by
  intro s hs
  have hend := h s hs (get s) rfl
  simp only [Async.within, EStateM.run] at hend ⊢
  cases hrun : x (get s) with
  | ok a t =>
    rw [hrun] at hend
    exact hend
  | error e t =>
    rw [hrun] at hend
    exact hend

/-- A result, seen through a projection of the state. -/
def project (π : σ → τ) : EStateM.Result ε σ α → EStateM.Result ε τ α
  | .ok a s => .ok a (π s)
  | .error e s => .error e (π s)

/-- `x` does to the part of the state that `π` shows what `y` does. -/
def Refines (π : σ → τ) (x : Async ε σ α) (y : Async ε τ α) : Prop :=
  ∀ s, project π (x.run s) = y.run (π s)

section Refines

variable {π : σ → τ} {get : σ → τ} {set : τ → σ → σ} {x : Async ε σ α} {y : Async ε τ α} {s : σ}

/-- In the part that is watched, both end in the same state. -/
theorem Refines.after (h : Refines π x y) (s : σ) : π (x.after s) = y.after (π s) := by
  have hs := h s
  rw [Async.after, Async.after, ← hs]
  cases x.run s <;> rfl

theorem Refines.pure (a : α) : Refines π (pure a : Async ε σ α) (pure a) := fun _ => rfl

theorem Refines.throw (e : ε) : Refines π (throw e : Async ε σ α) (throw e) := fun _ => rfl

/-- Lifted to a larger state, a program does on its part what it did. -/
theorem Refines.within (h : ∀ t s, get (set t s) = t) : Refines get (within get set y) y := by
  intro s
  simp only [Async.within, EStateM.run]
  cases y (get s) <;> simp [project, h]

/-- Refinement composes along sequences, since the answers are the same. -/
theorem Refines.bind {k : α → Async ε σ β} {k' : α → Async ε τ β} (h : Refines π x y)
    (hk : ∀ a, Refines π (k a) (k' a)) : Refines π (x >>= k) (y >>= k') := by
  intro s
  have hs := h s
  show project π (EStateM.bind x k s) = EStateM.bind y k' (π s)
  simp only [EStateM.run] at hs
  rw [EStateM.bind, EStateM.bind, ← hs]
  cases x s with
  | ok a s' => exact hk a s'
  | error e s' => rfl

/-- Steps that the projection does not show. -/
theorem Refines.unseen {f : σ → σ} (hf : ∀ s, π (f s) = π s) :
    Refines π (modify f : Async ε σ Unit) (Pure.pure ()) := by
  intro s
  show EStateM.Result.ok () (π (f s)) = EStateM.Result.ok () (π s)
  rw [hf]

/-- A step that the abstraction does not see may be left out. -/
theorem Refines.silent {f : σ → σ} {k : Unit → Async ε σ α} (hf : ∀ s, π (f s) = π s)
    (hk : Refines π (k ()) y) : Refines π (modify f >>= k) y := by
  intro s
  rw [← hf s]
  exact hk (f s)

/-- What comes last is not shown. -/
theorem Refines.bind_unseen {k : α → Async ε σ α} (h : Refines π x y)
    (hk : ∀ a, Refines π (k a) (Pure.pure a)) : Refines π (x >>= k) y := by
  have hseq := h.bind hk
  rwa [bind_pure] at hseq

/-- Both throw the same, so the same handler runs. -/
theorem Refines.tryCatch {h : ε → Async ε σ α} {h' : ε → Async ε τ α} (hx : Refines π x y)
    (hh : ∀ e, Refines π (h e) (h' e)) : Refines π (tryCatch x h) (tryCatch y h') := by
  intro s
  have hs := hx s
  rw [run_tryCatch, run_tryCatch, ← hs]
  cases x.run s with
  | ok a s' => rfl
  | error e s' => exact hh e s'

/-- The second block runs on both sides, whatever the first did. -/
theorem Refines.tryFinally {z : Async ε σ β} {z' : Async ε τ β} (hx : Refines π x y)
    (hz : Refines π z z') : Refines π (tryFinally x z) (tryFinally y z') := by
  intro s
  have hs := hx s
  rw [run_tryFinally, run_tryFinally, ← hs]
  cases x.run s with
  | ok a s' =>
    simp only [project, ← hz s']
    cases z.run s' <;> rfl
  | error e s' =>
    simp only [project, ← hz s']
    cases z.run s' <;> rfl

end Refines

end DistriSys.Js.Async
