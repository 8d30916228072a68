import DistriSys.Core.System

/-!
# The system when Redis rejects commands

In `step` every command is carried out. Here any command may be rejected instead: it has
no effect, and the component goes on with the code that handles the exception. A call of
`enqueue`, a pass and a retry request have none and end there, as when they die. A worker
does: `processJob` has a `catch` and a `finally` block, and the loop around it starts over.

The `catch` block reads the variable `job` of the call, which `WorkerPc.complete` does not
keep; `Faulty.jobs` does.

What a rejected command leads to is `WorkerPc.rejected`, one case for each await of the loop:

- before the `try` block the exception ends the call, and the id stays on the processing list;
- the success transaction falls into the `catch` block, which takes the job for a failed one;
- a rejection in the `catch` block goes straight to the `finally` block, whatever was still
  to be written;
- a rejected clean-up ends the call with the entry in place.

`faultyStepped` is the inversion of a step: an ordinary one, or a worker's, or somebody
else's rejection.
-/

namespace DistriSys

variable {T : Type}

/-- Where a worker goes on when its next command is rejected; `job` is the job its handler
was called with. -/
def WorkerPc.rejected (job : Option (Job T)) : WorkerPc T → Option (WorkerPc T)
  -- thrown before the `try` block, or by the poll: the loop catches it
  | poll _ => some (poll .high)
  | fetch _ => some (poll .high)
  | markActive _ _ => some (poll .high)
  | markFailed _ => some (poll .high)
  | register _ _ _ => some (poll .high)
  | beat _ _ => some (poll .high)
  | running _ _ _ => none
  -- the success transaction stands in the `try` block
  | complete jobId _ => job.map (countFailure jobId)
  -- thrown by the `catch` block: the `finally` block comes next
  | countFailure jobId _ => some (cleanup jobId)
  | writeDelayed jobId _ _ => some (cleanup jobId)
  | writeDead jobId _ => some (cleanup jobId)
  | zaddDelayed jobId _ => some (cleanup jobId)
  | lpushDead jobId => some (cleanup jobId)
  | cleanup _ => some (poll .high)
  | crashed => none

/-- A state of the system, with the jobs that handlers were last called with. -/
structure Faulty (T : Type) where
  config : Config T
  jobs : Nat → Option (Job T)

/-- A step of the system, or a rejected command. -/
inductive FaultyAction (T : Type) where
  | act (a : Action T)
  /-- The next command of the component is rejected. -/
  | reject (component : Component)

/-- The job of a handler call that ends. -/
def noteJob (s : Config T) : Action T → (Nat → Option (Job T)) → Nat → Option (Job T)
  | .settle w _, jobs =>
    match s.workers[w]? with
    | some ⟨_, .running _ job _⟩ => Function.update jobs w (some job)
    | _ => jobs
  | _, jobs => jobs

/-- One step when commands may be rejected. -/
def faultyStep (env : Env T) (r : Faulty T) : FaultyAction T → Option (Faulty T)
  | .act a => (step env r.config a).map fun s' => ⟨s', noteJob r.config a r.jobs⟩
  | .reject (.worker w) => do
    let wk ← r.config.workers[w]?
    let pc ← wk.pc.rejected (r.jobs w)
    some { r with
      config := { r.config with workers := r.config.workers.set w { wk with pc := pc } } }
  -- the call or the pass ends
  | .reject component => (crash r.config component).map fun s' => { r with config := s' }

/-- A system that has not started. -/
def Faulty.init (topology : Topology) : Faulty T where
  config := DistriSys.init topology
  jobs _ := none

/-- A step, by cases: everything goes well, or a command is rejected. -/
inductive FaultyStepped (env : Env T) (r : Faulty T) : FaultyAction T → Faulty T → Prop
  | act {a : Action T} {s' : Config T} (hs : step env r.config a = some s') :
      FaultyStepped env r (.act a) ⟨s', noteJob r.config a r.jobs⟩
  | rejectWorker {w : Nat} {wk : Worker T} {pc : WorkerPc T} (hw : r.config.workers[w]? = some wk)
      (hpc : wk.pc.rejected (r.jobs w) = some pc) :
      FaultyStepped env r (.reject (.worker w))
        { r with config := { r.config with workers := r.config.workers.set w { wk with pc := pc } } }
  | reject {component : Component} {s' : Config T} (hother : ∀ w, component ≠ .worker w)
      (hs : step env r.config (.crash component) = some s') :
      FaultyStepped env r (.reject component) { r with config := s' }

/-- **Inversion of `faultyStep`.** -/
theorem faultyStepped {env : Env T} {r r' : Faulty T} {a : FaultyAction T}
    (h : faultyStep env r a = some r') : FaultyStepped env r a r' := by
  cases a with
  | act a =>
    obtain ⟨s', hs, rfl⟩ := Option.map_eq_some_iff.mp h
    exact .act hs
  | reject component =>
    cases component with
    | worker w =>
      obtain ⟨wk, hw, h⟩ := Option.bind_eq_some_iff.mp h
      obtain ⟨pc, hpc, h⟩ := Option.bind_eq_some_iff.mp h
      cases h
      exact .rejectWorker hw hpc
    | _ =>
      obtain ⟨s', hs, rfl⟩ := Option.map_eq_some_iff.mp h
      exact .reject (fun w => nofun) hs

end DistriSys
