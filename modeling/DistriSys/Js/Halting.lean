import Mathlib.Tactic.Common

/-!
# Stopping an object that runs tasks

An object runs tasks in the background; an `async` method tells it to stop, waits for
the promises of the tasks it knows about, and resolves. Whether there are tasks left then
is a matter of what it knows. `Covered` is the invariant: each call waits for all tasks
there are, unless the object has been started again in the meantime. **`no_task_left`**
is what it is for.

- `covered_nil`, `Covered.start`, `Covered.spawn`, `Covered.halt`, `Covered.proceed`,
  `Covered.settle`: the object is created, started, begins a task, is told to stop, a task goes
  on, a call resolves. `halt` is where something has to be shown: the call knows all tasks.
-/

namespace DistriSys.Js

/-- A call of the method that stops the object. The component `startedSince` only
records the run. -/
structure HaltCall where
  /-- The tasks it waits for. -/
  awaits : List Nat
  /-- The object has been told to start since. -/
  startedSince : Bool
  /-- Its promise is fulfilled. -/
  resolved : Bool
deriving DecidableEq

namespace HaltCall

/-- A call that has just begun. -/
def begun (awaits : List Nat) : HaltCall := ⟨awaits, false, false⟩

/-- The calls made so far, once the object is told to start. -/
def started (calls : List HaltCall) : List HaltCall :=
  calls.map fun call => { call with startedSince := true }

/-- A call resolves. -/
def settle (calls : List HaltCall) (k : Nat) (call : HaltCall) : List HaltCall :=
  calls.set k { call with resolved := true }

/-- Since a call, unless the object has been started, it has stayed halted and the only
tasks that live are those the call waits for; when it has resolved, these have ended. -/
structure Covered (calls : List HaltCall) (halted : Prop) (live ended : Nat → Prop) : Prop where
  awaited : ∀ call ∈ calls, call.startedSince = false → halted ∧ ∀ i, live i → i ∈ call.awaits
  settled : ∀ call ∈ calls, call.resolved = true → ∀ i ∈ call.awaits, ended i

variable {calls : List HaltCall} {call : HaltCall} {halted halted' : Prop}
  {live live' ended ended' : Nat → Prop} {awaits : List Nat} {k : Nat}

theorem covered_nil : Covered [] halted live ended := ⟨nofun, nofun⟩

/-- When a call has resolved, and the object has not been started since, no task is
left. -/
theorem Covered.no_task_left (h : Covered calls halted live ended)
    (hended : ∀ i, ended i → ¬ live i) (hcall : call ∈ calls) (hresolved : call.resolved = true)
    (hsince : call.startedSince = false) : halted ∧ ∀ i, ¬ live i := by
  obtain ⟨hhalted, hawaits⟩ := h.awaited call hcall hsince
  refine ⟨hhalted, ?_⟩
  intro i hi
  exact hended i (h.settled call hcall hresolved i (hawaits i hi)) hi

/-- A start may bring new tasks. -/
theorem Covered.start (h : Covered calls halted live ended) (hended : ∀ i, ended i → ended' i) :
    Covered (started calls) halted' live' ended' where
  awaited := by
    intro call hcall hsince
    obtain ⟨call', -, rfl⟩ := List.mem_map.mp hcall
    cases hsince
  settled := by
    intro call hcall hresolved i hi
    obtain ⟨call', hcall', rfl⟩ := List.mem_map.mp hcall
    exact hended i (h.settled call' hcall' hresolved i hi)

/-- So may an object that is not halted: no call is concerned. -/
theorem Covered.spawn (h : Covered calls halted live ended) (hrunning : ¬ halted)
    (hended : ∀ i, ended i → ended' i) : Covered calls halted' live' ended' where
  awaited := fun call hcall hsince => absurd (h.awaited call hcall hsince).1 hrunning
  settled := by
    intro call hcall hresolved i hi
    exact hended i (h.settled call hcall hresolved i hi)

/-- The next call has to know of every task. -/
theorem Covered.halt (h : Covered calls halted live ended) (hhalted : halted')
    (hawaits : ∀ i, live i → i ∈ awaits) :
    Covered (calls ++ [begun awaits]) halted' live ended where
  awaited := by
    intro call hcall hsince
    refine ⟨hhalted, ?_⟩
    rcases List.mem_append.mp hcall with hcall | hcall
    · exact (h.awaited call hcall hsince).2
    · obtain rfl := List.mem_singleton.mp hcall
      exact hawaits
  settled := by
    intro call hcall hresolved
    rcases List.mem_append.mp hcall with hcall | hcall
    · exact h.settled call hcall hresolved
    · obtain rfl := List.mem_singleton.mp hcall
      cases hresolved

/-- Tasks go on, or end. -/
theorem Covered.proceed (h : Covered calls halted live ended) (hlive : ∀ i, live' i → live i)
    (hended : ∀ i, ended i → ended' i) : Covered calls halted live' ended' where
  awaited := by
    intro call hcall hsince
    obtain ⟨hhalted, hawaits⟩ := h.awaited call hcall hsince
    exact ⟨hhalted, fun i hi => hawaits i (hlive i hi)⟩
  settled := by
    intro call hcall hresolved i hi
    exact hended i (h.settled call hcall hresolved i hi)

/-- A call resolves when the tasks it waits for have ended. -/
theorem Covered.settle (h : Covered calls halted live ended) (hk : calls[k]? = some call)
    (hdone : ∀ i ∈ call.awaits, ended i) : Covered (settle calls k call) halted live ended where
  awaited := by
    intro call' hcall' hsince
    rcases List.mem_or_eq_of_mem_set hcall' with hcall' | rfl
    · exact h.awaited call' hcall' hsince
    · exact h.awaited call (List.mem_of_getElem? hk) hsince
  settled := by
    intro call' hcall' hresolved
    rcases List.mem_or_eq_of_mem_set hcall' with hcall' | rfl
    · exact h.settled call' hcall' hresolved
    · exact hdone

end HaltCall

end DistriSys.Js
