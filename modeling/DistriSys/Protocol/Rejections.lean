import DistriSys.Core.Faulty
import DistriSys.Protocol.Terminal

/-!
# Rejected commands in any interleaving

What holds of every run in which components crash and commands are rejected.

- `sound_step`: referential integrity of the store, and of the jobs that workers fall back
  on (**`store_refers_rejected`**);
- `faulty_refines`: seen from any job, a rejected command is a `Ledger.slip`: a worker that
  holds the job leaves its phase for another one, or gives the job up. Invariants of the
  life cycle that also survive slips are invariants of these runs (`faulty_ledger_run`).

`Sound` adds to `Integrity` the jobs that a worker keeps in a local variable while its success
transaction is under way: if that is rejected, the catch block goes on with them, so they have
to be the jobs of their calls (`rejected_fine`).

A rejected command has changed nothing in Redis. What it changes is where the component goes on
(`WorkerPc.rejected`): a worker in the catch block after its success transaction, in the
clean-up after a command of that block, and in the poll loop after any other command; the call
of a producer, a pass or a retry request is over.
-/

namespace DistriSys

open Js Redis Transition

variable {T : Type}

/-! ## One worker -/

section Workers

variable {env : Env T}

/-- Only the end of a handler call leads to a success transaction. -/
theorem workerStep_ne_complete {now draw : Nat} {handlers : List String} {st : Store}
    {pc : WorkerPc T} {e : Effect (WorkerPc T)}
    (he : workerStep env now w draw handlers st pc = some e) (jobId : JobId) (elapsed : Nat) :
    e.pc ≠ .complete jobId elapsed := by
  cases pc with
  | poll p =>
    simp only [workerStep] at he
    split at he <;> cases he <;> simp
  | fetch jobId =>
    simp only [workerStep] at he
    split at he
    · cases he
      simp
    · split at he <;> cases he <;> simp
  | markActive jobId job =>
    cases he
    dsimp only
    split <;> simp
  | countFailure jobId job =>
    cases he
    dsimp only [retryOrBury]
    split <;> simp
  | running => cases he
  | crashed => cases he
  | _ =>
    cases he
    simp

/-- The job of a success transaction is that of the handler call before it. -/
theorem complete_of_settleStep {now : Nat} {outcome : HandlerOutcome} {pc : WorkerPc T}
    {jobId : JobId} {elapsed : Nat} {events : List Event}
    (he : settleStep now outcome pc = some (.complete jobId elapsed, events)) :
    ∃ job startTime, pc = .running jobId job startTime := by
  cases pc with
  | running jobId job startTime =>
    cases outcome <;> cases he
    exact ⟨job, startTime, rfl⟩
  | _ => cases he

end Workers

/-! ## Integrity -/

/-- The system is in order, and a worker whose success transaction is rejected falls back
on the job its handler was called with. -/
structure Sound (env : Env T) (r : Faulty T) : Prop where
  integrity : Integrity env r.config
  jobs : ∀ (w : Nat) (wk : Worker T) (jobId : JobId) (elapsed : Nat),
    r.config.workers[w]? = some wk → wk.pc = .complete jobId elapsed →
      ∃ job, r.jobs w = some job ∧ ∃ c ∈ r.config.calls, c.id = jobId ∧ Decoded env.json c job

section Sound

variable {env : Env T} {r r' : Faulty T} {a : FaultyAction T} {w : Nat}

theorem sound_init (env : Env T) (topology : Topology) : Sound env (Faulty.init topology : Faulty T) where
  integrity := integrity_init env topology
  jobs w wk jobId elapsed hw hpc := by
    obtain ⟨handlers, -, rfl⟩ := List.mem_map.mp (List.mem_of_getElem? hw)
    cases hpc

theorem noteJob_of_ne {s : Config T} {a : Action T} {jobs : Nat → Option (Job T)}
    (h : ∀ outcome, a ≠ .settle w outcome) : noteJob s a jobs w = jobs w := by
  cases a with
  | settle v outcome =>
    have hne : w ≠ v := by
      rintro rfl
      exact h outcome rfl
    have hnote : noteJob s (.settle v outcome) jobs = jobs ∨
        ∃ job, noteJob s (.settle v outcome) jobs = Function.update jobs v (some job) := by
      unfold noteJob
      dsimp only
      split
      · exact .inr ⟨_, rfl⟩
      · exact .inl rfl
    rcases hnote with hsame | ⟨job, hset⟩
    · rw [hsame]
    · rw [hset, Function.update_of_ne hne]
  | _ => rfl

/-- What a rejected command leaves the worker with. -/
theorem rejected_fine {wk : Worker T} {pc : WorkerPc T} (h : Sound env r)
    (hw : r.config.workers[w]? = some wk) (hpc : wk.pc.rejected (r.jobs w) = some pc) :
    pc.Fine env.json r.config.calls r.config.log := by
  have hfine := h.integrity.workers wk (List.mem_of_getElem? hw)
  obtain ⟨handlers, pc₀⟩ := wk
  cases pc₀ with
  -- the catch block takes over, with the job of this call
  | complete jobId elapsed =>
    obtain ⟨job, hjob, c, hc, hid, hdecoded⟩ := h.jobs w _ jobId elapsed hw rfl
    rw [WorkerPc.rejected, hjob] at hpc
    cases hpc
    refine ⟨hfine.pushed, ?_, nofun⟩
    rintro _ _ ⟨⟩
    exact ⟨c, hc, hid, hdecoded⟩
  | running => cases hpc
  | crashed => cases hpc
  | countFailure | writeDelayed | writeDead | zaddDelayed | lpushDead =>
    cases hpc
    exact .of_pushed hfine.pushed rfl rfl
  | _ =>
    cases hpc
    exact .of_pushed nofun rfl rfl

/-- **Every step keeps the system in order**, whatever is rejected. -/
theorem sound_step (h : Sound env r) (hs : faultyStep env r a = some r') : Sound env r' := by
  cases faultyStepped hs with
  | @act a s' hstep =>
    refine ⟨integrity_step h.integrity hstep, fun w wk' jobId elapsed hw' hpc => ?_⟩
    have hcalls := (calls_step hstep).subset
    cases movedAt_of_step hstep hw' with
    | still hother hw =>
      obtain ⟨job, hjob, c, hc, hcall⟩ := h.jobs w wk' jobId elapsed hw hpc
      exact ⟨job, (noteJob_of_ne hother).trans hjob, c, hcalls hc, hcall⟩
    | died hdied =>
      rw [hpc] at hdied
      cases hdied
    | registered ha hw hsame =>
      subst ha
      obtain ⟨job, hjob, c, hc, hcall⟩ := h.jobs w _ jobId elapsed hw (hsame.symm.trans hpc)
      exact ⟨job, hjob, c, hcalls hc, hcall⟩
    | worked ha hw he hsame => exact absurd (hsame.symm.trans hpc) (workerStep_ne_complete he _ _)
    | @settled outcome wk pc events ha hw he hsame =>
      subst ha
      obtain ⟨handlers, pc₀⟩ := wk
      obtain rfl : pc = .complete jobId elapsed := hsame.symm.trans hpc
      obtain ⟨job, startTime, rfl⟩ := complete_of_settleStep he
      obtain ⟨c, hc, hcall⟩ :=
        (h.integrity.workers _ (List.mem_of_getElem? hw)).decoded jobId job rfl
      refine ⟨job, ?_, c, hcalls hc, hcall⟩
      simp [noteJob, hw]
  | @rejectWorker v wk pc hv hpc =>
    refine ⟨h.integrity.setWorker (rejected_fine h hv hpc), fun w wk' jobId elapsed hw hcomplete => ?_⟩
    rcases getElem?_set_cases hw with ⟨rfl, rfl⟩ | ⟨-, hsame⟩
    · -- no exception leads to a success transaction
      obtain ⟨handlers, pc₀⟩ := wk
      obtain rfl : pc = .complete jobId elapsed := hcomplete
      cases pc₀ with
      | complete =>
        obtain ⟨job, -, hjob⟩ := Option.map_eq_some_iff.mp hpc
        cases hjob
      | _ => cases hpc
    · exact h.jobs w wk' jobId elapsed hsame hcomplete
  | @reject component s' hother hstep =>
    refine ⟨integrity_step h.integrity hstep, fun w wk' jobId elapsed hw' hpc => ?_⟩
    obtain ⟨hcalls, hworkers⟩ : s'.calls = r.config.calls ∧ s'.workers = r.config.workers := by
      cases stepped hstep with
      | crashWorker => exact absurd rfl (hother _)
      | _ => exact ⟨rfl, rfl⟩
    rw [hworkers] at hw'
    obtain ⟨job, hjob, c, hc, hcall⟩ := h.jobs w wk' jobId elapsed hw' hpc
    exact ⟨job, hjob, c, hcalls ▸ hc, hcall⟩

theorem sound_run {topology : Topology} {ok : Faulty T → FaultyAction T → Prop}
    (h : Reach (faultyStep env) ok (Faulty.init topology) r) : Sound env r :=
  h.invariant (sound_init env topology) fun _ _ _ hI _ hs => sound_step hI hs

/-- **Referential integrity when commands are rejected.** In every run, whatever crashes and
whichever commands are rejected: every id the store mentions has the complete record of an
`enqueue` call, no pass ever takes a job for one without a record, and every job a worker
runs, or falls back on, is that of the call its id is from. -/
theorem store_refers_rejected {topology : Topology}
    (h : Reach (faultyStep env) (fun _ _ => True) (Faulty.init topology) r) :
    (∀ id, r.config.store.Mentions id →
      ∃ c ∈ r.config.calls, c.id = id ∧ Describes env.json c (r.config.store.jobs id)) ∧
    (∀ id, .dropped id ∉ r.config.log) ∧
    ∀ wk ∈ r.config.workers, ∀ id job, wk.pc.job? = some (id, job) →
      ∃ c ∈ r.config.calls, c.id = id ∧ Decoded env.json c job := by
  have hI := (sound_run h).integrity
  refine ⟨fun id hid => hI.describes (hI.mentioned id hid), hI.undropped, ?_⟩
  intro wk hwk id job hjob
  exact (hI.workers wk hwk).decoded id job hjob

end Sound

/-- The success transaction is rejected, and so is the clean-up after it. -/
def rejectSuccess : List (FaultyAction Unit) :=
  (startOnce ++ [Action.settle 0 .resolve]).map .act ++
    [.reject (.worker 0), .act (.work 0 0), .act (.work 0 0), .act (.work 0 0),
      .reject (.worker 0)]

/-- The job is in the delayed set and on the processing list; both are right about its record. -/
theorem store_refers_rejected_success : ∃ r : Faulty Unit,
    "a" ∈ (r.config.store.delayed "main_queue").members ∧
      "a" ∈ r.config.store.lists (.processingList "main_queue") ∧
      ∃ c ∈ r.config.calls, c.id = "a" ∧
        Describes mainQueue.json c (r.config.store.jobs "a") := by
  obtain ⟨r, hr, hdelayed, hprocessing⟩ :=
    exists_reach_of_run (faultyStep mainQueue) (fun _ _ => True)
      (Faulty.init ⟨1, [["mail"]], 1, 1, 0⟩)
      (fun r => "a" ∈ (r.config.store.delayed "main_queue").members ∧
        "a" ∈ r.config.store.lists (.processingList "main_queue"))
      rejectSuccess (by decide +kernel)
  exact ⟨r, hdelayed, hprocessing,
    (store_refers_rejected hr).1 "a" (.delayed _ hdelayed)⟩

/-! ## Seen from one job -/

/-- Where a worker in a phase goes when its command is rejected; from `loading` and
`closing` it gives the job up. -/
def Phase.slip : Phase → Option Phase
  | loading => none
  | running => none
  | failing => some closing
  | delaying => some closing
  | burying => some closing
  | completing => some failing
  | closing => none

/-- The account after a worker in this phase has had its command rejected. -/
def Ledger.slip (L : Ledger) : Phase → Ledger
  | .loading => { L with loading := L.loading - 1 }
  -- a worker that waits for the handler has no command to be rejected
  | .running => L
  | .failing => { L with failing := L.failing - 1, closing := L.closing + 1 }
  | .delaying => { L with delaying := L.delaying - 1, closing := L.closing + 1 }
  | .burying => { L with burying := L.burying - 1, closing := L.closing + 1 }
  | .completing => { L with completing := L.completing - 1, failing := L.failing + 1 }
  | .closing => { L with closing := L.closing - 1 }

/-- `L'` is the account after such a slip. -/
def Ledger.Slips (L : Ledger) (phase : Phase) (L' : Ledger) : Prop :=
  phase ≠ .running ∧ 1 ≤ L.phase phase ∧ L' = L.slip phase

/-- The action a step is, or looks like: to a component that is no worker a rejection is
the same as its death. -/
def FaultyAction.action : FaultyAction T → Action T
  | act a => a
  | reject component => .crash component

/-- The component and the job of a slip. -/
def SlipsAt (r : Faulty T) (a : FaultyAction T) (id : JobId) (phase : Phase) : Prop :=
  ∃ w wk, a = .reject (.worker w) ∧ r.config.workers[w]? = some wk ∧
    wk.pc.custody = some (id, phase)

section Refinement

variable {env : Env T} {r r' : Faulty T} {a : FaultyAction T} {id : JobId}

/-- A worker keeps the job, in another phase, or gives it up. -/
theorem custody_rejected {pc pc' : WorkerPc T} {job : Option (Job T)}
    (h : pc.rejected job = some pc') :
    pc'.custody = pc.custody.bind fun held => held.2.slip.map fun phase => (held.1, phase) := by
  cases pc with
  | complete jobId elapsed =>
    obtain ⟨job, -, rfl⟩ := Option.map_eq_some_iff.mp h
    rfl
  | running => cases h
  | crashed => cases h
  | _ =>
    cases h
    rfl

theorem rejectWorker_refines {w : Nat} {wk : Worker T} {pc : WorkerPc T} (env : Env T)
    (id : JobId) (hw : r.config.workers[w]? = some wk) (hpc : wk.pc.rejected (r.jobs w) = some pc) :
    (∃ phase, wk.pc.custody = some (id, phase) ∧ (ledger env r.config id).Slips phase
      (ledger env { r.config with workers := r.config.workers.set w { wk with pc := pc } } id)) ∨
    ledger env { r.config with workers := r.config.workers.set w { wk with pc := pc } } id =
      ledger env r.config id := by
  have hset := fun phase => held_set hw { wk with pc := pc } id phase
  have hcustody := custody_rejected hpc
  by_cases hid : ∃ phase, wk.pc.custody = some (id, phase)
  · obtain ⟨phase, hphase⟩ := hid
    -- a handler call is no command, so Redis cannot reject it
    have hrunning : phase ≠ .running := by
      rintro rfl
      obtain ⟨handlers, pc₀⟩ := wk
      cases pc₀ with
      | running => cases hpc
      | _ => simp [WorkerPc.custody] at hphase
    refine .inl ⟨phase, hphase, hrunning, ?_, ?_⟩
    · have hpos := held_pos hw hphase
      cases phase <;> exact hpos
    · rw [hphase] at hcustody
      cases phase with
      | running => exact absurd rfl hrunning
      | _ =>
        simp only [Phase.slip, Option.bind_some, Option.map_some, Option.map_none] at hcustody
        simp [ledger, Ledger.slip, hset, hphase, hcustody]
  · push Not at hid
    -- a rejection hands no job to a worker that had none
    have hnone : ∀ phase, pc.custody ≠ some (id, phase) := by
      intro phase hphase
      rw [hcustody] at hphase
      obtain ⟨⟨jobId, before⟩, hbefore, hslip⟩ := Option.bind_eq_some_iff.mp hphase
      obtain ⟨after, -, hafter⟩ := Option.map_eq_some_iff.mp hslip
      cases hafter
      exact hid before hbefore
    refine .inr ?_
    simp [ledger, hset, hid, hnone]

/-- **Refinement.** Seen from any job, every step is a move of its life cycle, or a slip, or
nothing. -/
theorem faulty_refines (h : Sound env r) (hs : faultyStep env r a = some r') (id : JobId) :
    (∃ m, Licensed env r.config a.action id m ∧
      (ledger env r.config id).Steps m (ledger env r'.config id)) ∨
    (∃ phase, SlipsAt r a id phase ∧
      (ledger env r.config id).Slips phase (ledger env r'.config id)) ∨
    ledger env r'.config id = ledger env r.config id := by
  cases faultyStepped hs with
  | act hstep => exact .inl (step_refines h.integrity hstep id)
  | @rejectWorker w wk pc hw hpc =>
    rcases rejectWorker_refines env id hw hpc with ⟨phase, hphase, hslip⟩ | hsame
    · exact .inr (.inl ⟨phase, ⟨w, wk, rfl, hw, hphase⟩, hslip⟩)
    · exact .inr (.inr hsame)
  | reject hother hstep => exact .inl (step_refines h.integrity hstep id)

/-- **Invariants of the life cycle that survive slips are invariants of these runs.** -/
theorem faulty_ledger_run {topology : Topology} {ok : Faulty T → FaultyAction T → Prop}
    (h : Reach (faultyStep env) ok (Faulty.init topology) r) (id : JobId)
    (may : Ledger → Move → Prop) (maySlip : Phase → Prop) (J : Ledger → Prop)
    (hmay : ∀ ⦃r a m⦄, Reach (faultyStep env) ok (Faulty.init topology) r → ok r a →
      Licensed env r.config a.action id m → may (ledger env r.config id) m)
    (hslip : ∀ ⦃r a phase⦄, ok r a → SlipsAt r a id phase → maySlip phase)
    (h₀ : J {}) (hstep : ∀ ⦃L L' m⦄, J L → may L m → L.Steps m L' → J L')
    (hslips : ∀ ⦃L L' phase⦄, J L → maySlip phase → L.Slips phase L' → J L') :
    J (ledger env r.config id) := by
  refine h.project (f := fun r => ledger env r.config id)
    (R := fun L L' => (∃ m, may L m ∧ L.Steps m L') ∨
      (∃ phase, maySlip phase ∧ L.Slips phase L') ∨ L' = L) ?_ ?_ ?_
  · show J (ledger env (init topology) id)
    rw [ledger_init]
    exact h₀
  · intro r a r' hr hok hs
    -- a move of the ledger, a slip, or nothing
    rcases faulty_refines (sound_run hr) hs id with ⟨m, hm, hL⟩ | ⟨phase, hphase, hL⟩ | hsame
    · exact .inl ⟨m, hmay hr hok hm, hL⟩
    · exact .inr (.inl ⟨phase, hslip hok hphase, hL⟩)
    · exact .inr (.inr hsame)
  · rintro L L' hL (⟨m, hm, hs⟩ | ⟨phase, hphase, hs⟩ | rfl)
    · exact hstep hL hm hs
    · exact hslips hL hphase hs
    · exact hL

end Refinement

end DistriSys
