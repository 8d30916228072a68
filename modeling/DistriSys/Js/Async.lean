import Mathlib.Tactic.Common

/-!
# Asynchronous functions, one call at a time

The body of an `async` function that talks to a server: an exception ends it, and
what the server has done by then stays done. `Async` is such a body, with `throw`
and `try … catch … finally` as JavaScript has them; `request`, `query` and `exchange`
are calls of the server that are carried out or refused.

`Async.after x s` is the state a call leaves in the server, whether it returns or
throws. The simp lemmas compute it along the control flow, so what a call leaves
behind is read off by rewriting, for every choice of refused requests at once.

- `after_…`, `throws_…`: what a construct leaves, and whether it throws;
- `run_…`: the outcome with its value, where the rest goes by it.

Contracts and refinement for such bodies are in `Js.Contracts`.
-/

namespace DistriSys.Js

variable {ε σ α β : Type}

/-- The body of an `async` function with a server in state `σ`. -/
abbrev Async (ε σ α : Type) := EStateM ε σ α

namespace Async

/-- A request the server carries out, or refuses with the exception `e`; when
refused it has no effect. -/
def request (refused : Bool) (e : ε) (f : σ → σ) : Async ε σ Unit :=
  if refused then throw e else modify f

/-- A read, which may be refused as well. -/
def query (refused : Bool) (e : ε) (f : σ → α) : Async ε σ α :=
  if refused then throw e else modifyGet fun s => (f s, s)

/-- A request the server answers. -/
def exchange (refused : Bool) (e : ε) (f : σ → α × σ) : Async ε σ α :=
  if refused then throw e else modifyGet f

/-- The state a call leaves in the server. -/
def after (x : Async ε σ α) (s : σ) : σ :=
  match x.run s with
  | .ok _ s' => s'
  | .error _ s' => s'

/-- Whether a call ends with an exception. -/
def throws (x : Async ε σ α) (s : σ) : Bool :=
  match x.run s with
  | .ok _ _ => false
  | .error _ _ => true

variable {x : Async ε σ α} {s : σ} {e : ε} {refused : Bool}

/-- What the code does between two awaits is done. -/
@[simp] theorem after_modify_bind {f : σ → σ} {k : Unit → Async ε σ β} :
    after (modify f >>= k) s = after (k ()) (f s) := rfl

@[simp] theorem throws_modify_bind {f : σ → σ} {k : Unit → Async ε σ β} :
    throws (modify f >>= k) s = throws (k ()) (f s) := rfl

/-- After an exception nothing is done. -/
@[simp] theorem after_throw_bind {k : α → Async ε σ β} :
    after ((throw e : Async ε σ α) >>= k) s = s := rfl

@[simp] theorem throws_throw_bind {k : α → Async ε σ β} :
    throws ((throw e : Async ε σ α) >>= k) s = true := rfl

/-! ## Requests -/

@[simp] theorem after_request {f : σ → σ} :
    after (request refused e f) s = if refused then s else f s := by
  cases refused <;> rfl

/-- A request throws when it is refused. -/
@[simp] theorem throws_request {f : σ → σ} : throws (request refused e f) s = refused := by
  cases refused <;> rfl

/-- What comes after a refused request is skipped. -/
@[simp] theorem after_request_bind {f : σ → σ} {k : Unit → Async ε σ β} :
    after (request refused e f >>= k) s = if refused then s else after (k ()) (f s) := by
  cases refused <;> rfl

@[simp] theorem throws_request_bind {f : σ → σ} {k : Unit → Async ε σ β} :
    throws (request refused e f >>= k) s = (refused || throws (k ()) (f s)) := by
  cases refused <;> rfl

@[simp] theorem after_exchange_bind {f : σ → α × σ} {k : α → Async ε σ β} :
    after (exchange refused e f >>= k) s = if refused then s else after (k (f s).1) (f s).2 := by
  cases refused <;> rfl

@[simp] theorem throws_exchange_bind {f : σ → α × σ} {k : α → Async ε σ β} :
    throws (exchange refused e f >>= k) s = (refused || throws (k (f s).1) (f s).2) := by
  cases refused <;> rfl

@[simp] theorem after_query_bind {f : σ → α} {k : α → Async ε σ β} :
    after (query refused e f >>= k) s = if refused then s else after (k (f s)) s := by
  cases refused <;> rfl

@[simp] theorem throws_query_bind {f : σ → α} {k : α → Async ε σ β} :
    throws (query refused e f >>= k) s = (refused || throws (k (f s)) s) := by
  cases refused <;> rfl

/-- A refused request ends the sequence. -/
theorem run_request_bind {f : σ → σ} {k : Unit → Async ε σ β} :
    (request refused e f >>= k).run s = if refused then .error e s else (k ()).run (f s) := by
  cases refused <;> rfl

/-- So does one whose answer the rest would go by. -/
theorem run_exchange_bind {f : σ → α × σ} {k : α → Async ε σ β} :
    (exchange refused e f >>= k).run s =
      if refused then .error e s else (k (f s).1).run (f s).2 := by
  cases refused <;> rfl

/-- What becomes of the value returned does not matter to the server. -/
@[simp] theorem after_map {g : α → β} : after (g <$> x) s = after x s := by
  show (match EStateM.map g x s with | .ok _ s' => s' | .error _ s' => s') = _
  rw [EStateM.map, after, EStateM.run]
  cases x s <;> rfl

/-- What is made of the result does not matter. -/
@[simp] theorem throws_map {g : α → β} : throws (g <$> x) s = throws x s := by
  show (match EStateM.map g x s with | .ok _ _ => false | .error _ _ => true) = _
  rw [EStateM.map, throws, EStateM.run]
  cases x s <;> rfl

@[simp] theorem after_pure (a : α) : after (pure a : Async ε σ α) s = s := rfl

@[simp] theorem throws_pure (a : α) : throws (pure a : Async ε σ α) s = false := rfl

/-! ## Exceptions -/

/-- The block, or else the handler on what it has left. -/
theorem run_tryCatch {h : ε → Async ε σ α} :
    (tryCatch x h : Async ε σ α).run s = match x.run s with
      | .ok a s' => .ok a s'
      | .error e s' => (h e).run s' := by
  show EStateM.tryCatch x h s = _
  rw [EStateM.tryCatch, EStateM.run]
  cases x s <;> rfl

/-- A handler that does not look at the exception runs when there was one. -/
@[simp] theorem after_tryCatch {y : Async ε σ α} :
    after (tryCatch x fun _ => y) s = if x.throws s then y.after (x.after s) else x.after s := by
  rw [after, run_tryCatch]
  cases hx : x.run s <;> simp [after, throws, hx]

/-- The `finally` block runs last, whatever happened. -/
@[simp] theorem after_tryFinally {y : Async ε σ β} :
    after (tryFinally x y) s = y.after (x.after s) := by
  simp only [after, EStateM.run, tryFinally, MonadFinally.tryFinally', Functor.map, EStateM.map]
  cases x s with
  | ok a s' => cases h : y s' <;> simp [h]
  | error e s' => cases h : y s' <;> simp [h]

end Async

end DistriSys.Js
