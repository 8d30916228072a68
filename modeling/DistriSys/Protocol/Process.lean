import Mathlib.Algebra.GroupWithZero.Nat
import DistriSys.Core.Process
import DistriSys.Protocol.Shutdown
import DistriSys.Protocol.Stop

/-!
# How a process ends

The main program starts its pool once, so the pool is safe (`Steady`), and a call of
`shutdown` that gets beyond the pool leaves no loop behind. **`graceful_shutdown`** says what
happens after a signal, however many there are: no pass begins, the loops that are polling
take one more job each at most, each loop comes to its end in four awaits, the process can
always get to its end, and `shutdown` never ends it while a loop lives.

The one way to end it otherwise is a `fastify.listen` that rejects: the `catch` block of
`start` exits at once. It has nothing to do with the signal, but a signal
does not prevent it either.

The process may end in the middle of a pass: the timers are told to stop, but not waited for.

- `stepped` inverts the step function, so that each invariant is a case analysis on the action;
- `Steady` holds in every run: it has the invariant of the pool (`Pool.Good`), and says what a
  call of `shutdown` has waited for;
- `shut_step` is what a step does once a signal has come: no pass is born, and the way a loop has
  still to go (`loopToExit`) gets shorter each time it goes on;
- `exists_exit` goes that way to its end.
-/

namespace DistriSys

open Js Transition

/-! ## Loops -/

/-- A loop that may take a job. -/
def LoopPc.polls : LoopPc → Bool
  | polling _ => true
  | _ => false

/-- How many awaits a loop has before it, at most, when the pool is shut down: the rest of its
scan, and a job. -/
def LoopPc.toExit : LoopPc → Nat
  | polling .high => 4
  | polling .normal => 3
  | polling .low => 2
  | sleeping => 1
  | processing _ => 1
  | backingOff => 1
  | exited => 0

/-- `RPOPLPUSH` has taken a job. -/
def Awaited.takes : Awaited → Bool
  | popped (some _) => true
  | _ => false

/-- An await of loop `i` ends. -/
def ProcessAction.resumes (i : Nat) : ProcessAction → Bool
  | .resume j _ => j == i
  | _ => false

/-- A loop takes a job. -/
def ProcessAction.takesJob : ProcessAction → Bool
  | .resume _ awaited => awaited.takes
  | _ => false

section Loops

variable {pc pc' : LoopPc} {awaited : Awaited}

theorem LoopPc.toExit_le (pc : LoopPc) : pc.toExit ≤ 4 := by
  cases pc with
  | polling priority => cases priority <;> decide
  | _ => simp only [toExit]; omega

/-- The flag is down: the loop comes nearer to its end, and takes a job only out of a poll,
after which it polls no more. -/
theorem LoopPc.resume_shut (h : pc.resume false awaited = some pc') :
    pc'.toExit + 1 ≤ pc.toExit ∧
      (awaited.takes = true → pc.polls = true ∧ pc'.polls = false) ∧
      (pc'.polls = true → pc.polls = true) := by
  cases pc with
  | polling priority =>
    cases awaited with
    | popped jobId =>
      cases jobId <;> cases priority <;> cases h <;> simp [toExit, polls, Awaited.takes, next]
    | thrown => cases priority <;> cases h <;> simp [toExit, polls, Awaited.takes, caught, next]
    | _ => cases h
  | exited => cases h
  | _ =>
    cases awaited <;> cases h <;> simp [toExit, polls, Awaited.takes, caught, next]

theorem sum_map_set {α : Type} {f : α → Nat} {a b : α} :
    ∀ {l : List α} {i : Nat}, l[i]? = some a →
      ((l.set i b).map f).sum + f a = (l.map f).sum + f b
  | [], _, h => by cases h
  | c :: l, 0, h => by
    cases h
    simp only [List.set_cons_zero, List.map_cons, List.sum_cons]
    omega
  | c :: l, i + 1, h => by
    have ih := sum_map_set (f := f) (b := b) (l := l) (i := i) h
    simp only [List.set_cons_succ, List.map_cons, List.sum_cons]
    omega

end Loops

namespace Process

variable {api : Bool} {concurrency : Nat} {p p' : Process} {a : ProcessAction}

/-! ## The pool of a process -/

/-- What every run of a process keeps. -/
structure Steady (concurrency : Nat) (p : Process) : Prop where
  good : Pool.Good concurrency p.pool
  promised : liveLoops p.pool.loops ⊆ p.pool.workerPromises
  booted : ∀ i ∈ p.pool.workerPromises, i < p.pool.loops.length
  size : p.pool.loops.length = concurrency
  awaits : ∀ call ∈ p.pool.shutdowns,
    call.startedSince = false ∧ ∀ i ∈ call.awaits, i < p.pool.loops.length
  known : ∀ k, .pool k ∈ p.shutdowns → k < p.pool.shutdowns.length
  past : (∃ pc ∈ p.shutdowns, ∀ k, pc ≠ .pool k) ∨
    (p.exitCode.isSome = true ∧ p.starting ≠ .failed) → ∃ call ∈ p.pool.shutdowns, call.resolved = true
  halted : p.shutdowns ≠ [] →
    p.pool.isRunning = false ∧ p.watchdog.timer = false ∧ p.scheduler.timer = false

theorem steady_start : Steady concurrency (start api concurrency) := by
  have hlive : liveLoops (List.replicate concurrency (.next true)) = List.range' 0 concurrency := by
    have h := Pool.liveLoops_append concurrency []
    -- the boot makes `concurrency` loops out of an empty pool
    simpa [liveLoops] using h
  constructor
  case good => exact Pool.good_step Pool.good_new (a := .start) (.inr rfl) rfl
  case promised =>
    intro i hi
    have hi' : i ∈ liveLoops (List.replicate concurrency (.next true)) := by
      simpa [start, Pool.step, Pool.new] using hi
    rw [hlive] at hi'
    simpa [start, Pool.step, Pool.new] using hi'
  case booted =>
    intro i hi
    simpa [start, Pool.step, Pool.new] using hi
  case size => simp [start, Pool.step, Pool.new]
  case awaits => exact fun call hcall => absurd hcall List.not_mem_nil
  case known => exact fun k hk => absurd hk List.not_mem_nil
  case past => simp [start]
  case halted => simp [start]

/-- A step of a process, by cases on the action. -/
inductive Stepped (api : Bool) (concurrency : Nat) (p : Process) : ProcessAction → Process → Prop
  | booted (hlistening : p.starting = .listening) :
      Stepped api concurrency p (.listen true) { p with starting := .booted }
  | failed (hlistening : p.starting = .listening) :
      Stepped api concurrency p (.listen false) { p with starting := .failed, exitCode := some 1 }
  | signal {watchdog scheduler : Ticker} (hwatchdog : p.watchdog.step .stop = some watchdog)
      (hscheduler : p.scheduler.step .stop = some scheduler) :
      Stepped api concurrency p .signal
        { p with
          watchdog := watchdog
          scheduler := scheduler
          pool :=
            { p.pool with
              isRunning := false, shutdowns := p.pool.shutdowns ++ [.begun p.pool.workerPromises] }
          shutdowns := p.shutdowns ++ [.pool p.pool.shutdowns.length] }
  | resume {i : Nat} {awaited : Awaited} {pc pc' : LoopPc} (hi : p.pool.loops[i]? = some pc)
      (hpc : pc.resume p.pool.isRunning awaited = some pc') :
      Stepped api concurrency p (.resume i awaited)
        { p with pool := { p.pool with loops := p.pool.loops.set i pc' } }
  | settle {k : Nat} {call : HaltCall} (hk : p.pool.shutdowns[k]? = some call)
      (hpending : call.resolved = false)
      (hdone : ∀ i ∈ call.awaits, p.pool.loops[i]? = some .exited) :
      Stepped api concurrency p (.settle k)
        { p with
          pool :=
            { p.pool with
              workerPromises := [], shutdowns := HaltCall.settle p.pool.shutdowns k call } }
  | watchdog {a : TickerAction} {watchdog : Ticker} (hstart : a ≠ .start)
      (hs : p.watchdog.step a = some watchdog) :
      Stepped api concurrency p (.watchdog a) { p with watchdog := watchdog }
  | scheduler {a : TickerAction} {scheduler : Ticker} (hstart : a ≠ .start)
      (hs : p.scheduler.step a = some scheduler) :
      Stepped api concurrency p (.scheduler a) { p with scheduler := scheduler }
  | goOn {m k : Nat} {call : HaltCall} (hm : p.shutdowns[m]? = some (.pool k))
      (hk : p.pool.shutdowns[k]? = some call) (hresolved : call.resolved = true) :
      Stepped api concurrency p (.proceed m)
        { p with shutdowns := p.shutdowns.set m (if api then .server else .redis) }
  | closed {m : Nat} (hm : p.shutdowns[m]? = some .server) :
      Stepped api concurrency p (.proceed m) { p with shutdowns := p.shutdowns.set m .redis }
  | exit {m : Nat} (hm : p.shutdowns[m]? = some .redis) :
      Stepped api concurrency p (.proceed m) { p with exitCode := some 0 }
  | abort {m : Nat} (hm : p.shutdowns[m]? = some .server) :
      Stepped api concurrency p (.abort m) { p with exitCode := some 1 }

theorem run_eq_some {ticker ticker' : Ticker} {a : TickerAction} (h : ticker.run a = some ticker') :
    a ≠ .start ∧ ticker.step a = some ticker' := by
  rw [Ticker.run] at h
  split at h
  · cases h
  · next hcalled => exact ⟨fun hstart => hcalled (.inl hstart), h⟩

/-- **Inversion of `Process.step`.** -/
theorem stepped (hs : p.step api concurrency a = some p') :
    p.exitCode = none ∧ Stepped api concurrency p a p' := by
  unfold step at hs
  split at hs
  · cases hs
  · next hlive =>
    refine ⟨Option.not_isSome_iff_eq_none.mp hlive, ?_⟩
    cases a with
    | listen ok =>
      dsimp only at hs
      split at hs
      · next hlistening =>
        cases hs
        cases ok with
        | true => exact .booted hlistening
        | false => exact .failed hlistening
      · cases hs
    | abort m =>
      dsimp only at hs
      split at hs
      · next hm =>
        cases hs
        exact .abort hm
      · cases hs
    | signal =>
      obtain ⟨watchdog, hwatchdog, hs⟩ := Option.bind_eq_some_iff.mp hs
      obtain ⟨scheduler, hscheduler, hs⟩ := Option.bind_eq_some_iff.mp hs
      cases hs
      exact .signal hwatchdog hscheduler
    | resume i awaited =>
      obtain ⟨pool, hpool, rfl⟩ := Option.map_eq_some_iff.mp hs
      -- the loop exists and its await can end as it did
      obtain ⟨pc, hi, hpool⟩ := Option.bind_eq_some_iff.mp hpool
      obtain ⟨pc', hpc, hpool⟩ := Option.bind_eq_some_iff.mp hpool
      cases hpool
      exact .resume hi hpc
    | settle k =>
      obtain ⟨pool, hpool, rfl⟩ := Option.map_eq_some_iff.mp hs
      simp only [Pool.step] at hpool
      split at hpool
      · next call hk =>
        split at hpool
        -- a shutdown settles once the promises it awaits have
        · next hdone =>
          cases hpool
          exact .settle hk hdone.1 hdone.2
        · cases hpool
      · cases hpool
    | watchdog a =>
      obtain ⟨watchdog, hwatchdog, rfl⟩ := Option.map_eq_some_iff.mp hs
      obtain ⟨hstart, hwatchdog⟩ := run_eq_some hwatchdog
      exact .watchdog hstart hwatchdog
    | scheduler a =>
      obtain ⟨scheduler, hscheduler, rfl⟩ := Option.map_eq_some_iff.mp hs
      obtain ⟨hstart, hscheduler⟩ := run_eq_some hscheduler
      exact .scheduler hstart hscheduler
    | proceed m =>
      dsimp only at hs
      split at hs
      · next k hm =>
        split at hs
        · next hany =>
          cases hs
          -- `proceed` looks the call up, so there is one
          cases hk : p.pool.shutdowns[k]? with
          | none =>
            rw [hk] at hany
            cases hany
          | some call =>
            rw [hk] at hany
            exact .goOn hm hk hany
        · cases hs
      · next hm =>
        cases hs
        exact .closed hm
      · next hm =>
        cases hs
        exact .exit hm
      · cases hs

theorem timer_stop {ticker ticker' : Ticker} (hs : ticker.step .stop = some ticker') :
    ticker'.timer = false ∧ ticker'.passes = ticker.passes := by
  rw [Ticker.step_stop] at hs
  cases hs
  exact ⟨rfl, rfl⟩

/-- A timer that has been stopped is not started by itself. -/
theorem timer_step {ticker ticker' : Ticker} {a : TickerAction} (ha : a ≠ .start)
    (htimer : ticker.timer = false) (hs : ticker.step a = some ticker') :
    ticker'.timer = false ∧ ticker'.passes.length = ticker.passes.length := by
  cases a with
  | start => exact absurd rfl ha
  | stop =>
    obtain ⟨hstopped, hpasses⟩ := timer_stop hs
    exact ⟨hstopped, by rw [hpasses]⟩
  | tick =>
    -- a cleared timer does not tick
    simp only [Ticker.step, htimer] at hs
    cases hs
  | command i =>
    simp only [Ticker.step] at hs
    split at hs <;> cases hs
    exact ⟨htimer, rfl⟩
  | finish i =>
    simp only [Ticker.step] at hs
    split at hs <;> cases hs
    exact ⟨htimer, List.length_set⟩
  | settle k =>
    simp only [Ticker.step] at hs
    split at hs
    · split at hs <;> cases hs
      exact ⟨htimer, rfl⟩
    · cases hs

theorem steady_step (h : Steady concurrency p) (hs : p.step api concurrency a = some p') :
    Steady concurrency p' := by
  obtain ⟨hlive, hstep⟩ := stepped hs
  cases hstep with
  | booted =>
    refine { h with past := fun hpast => h.past (hpast.imp_right fun hexit => ?_) }
    rw [hlive] at hexit
    exact absurd hexit.1 Bool.false_ne_true
  | failed =>
    -- the start that fails ends the process, and says so
    refine { h with past := fun hpast => h.past (.inl (hpast.resolve_right fun hexit => ?_)) }
    exact hexit.2 rfl
  | signal hwatchdog hscheduler =>
    constructor
    case good => exact Pool.good_step h.good (a := .shutdown) h.promised rfl
    case promised => exact h.promised
    case booted => exact h.booted
    case size => exact h.size
    case awaits =>
      intro call hcall
      rcases List.mem_append.mp hcall with hcall | hcall
      · exact h.awaits call hcall
      -- the new call awaits all the loops there are
      · obtain rfl := List.mem_singleton.mp hcall
        exact ⟨rfl, h.booted⟩
    case known =>
      intro k hk
      rw [List.length_append]
      rcases List.mem_append.mp hk with hk | hk
      · exact Nat.lt_add_right 1 (h.known k hk)
      · obtain ⟨rfl⟩ := List.mem_singleton.mp hk
        exact Nat.lt_add_one _
    case past =>
      intro hpast
      -- it has not gone on yet
      have hpast' : (∃ pc ∈ p.shutdowns, ∀ k, pc ≠ .pool k) ∨
          (p.exitCode.isSome = true ∧ p.starting ≠ .failed) := by
        refine hpast.imp_left ?_
        rintro ⟨pc, hpc, hne⟩
        rcases List.mem_append.mp hpc with hpc | hpc
        · exact ⟨pc, hpc, hne⟩
        · exact absurd (List.mem_singleton.mp hpc) (hne _)
      obtain ⟨call, hcall, hresolved⟩ := h.past hpast'
      exact ⟨call, List.mem_append_left _ hcall, hresolved⟩
    case halted =>
      intro _
      exact ⟨rfl, (timer_stop hwatchdog).1, (timer_stop hscheduler).1⟩
  | @resume i awaited pc pc' hi hpc =>
    have hlength : (p.pool.loops.set i pc').length = p.pool.loops.length := List.length_set
    constructor
    case good =>
      refine Pool.good_step h.good (a := .resume i awaited) trivial ?_
      simp [Pool.step, hi, hpc]
    case promised =>
      -- a loop that goes on was live before
      exact fun j hj => h.promised ((Pool.liveLoops_set hi (Pool.ne_exited_of_resume hpc)).subset hj)
    case booted => exact fun j hj => hlength.symm ▸ h.booted j hj
    case size => exact hlength.trans h.size
    case awaits =>
      intro call hcall
      obtain ⟨hsince, hlt⟩ := h.awaits call hcall
      exact ⟨hsince, fun j hj => hlength.symm ▸ hlt j hj⟩
    case known => exact h.known
    case past => exact h.past
    case halted => exact h.halted
  | @settle k call hk hpending hdone =>
    have hsettle : p.pool.step concurrency (.settle k) =
        some { p.pool with
          workerPromises := [], shutdowns := HaltCall.settle p.pool.shutdowns k call } := by
      simp only [Pool.step, hk]
      exact if_pos ⟨hpending, hdone⟩
    have hgood := Pool.good_step h.good (a := .settle k) trivial hsettle
    have hcall : { call with resolved := true } ∈ HaltCall.settle p.pool.shutdowns k call :=
      List.mem_set (List.getElem?_eq_some_iff.mp hk).1 _
    have hof : ∀ call' ∈ HaltCall.settle p.pool.shutdowns k call, ∃ call'' ∈ p.pool.shutdowns,
        call'.startedSince = call''.startedSince ∧ call'.awaits = call''.awaits := by
      intro call' hcall'
      rcases List.mem_or_eq_of_mem_set hcall' with hcall' | rfl
      · exact ⟨call', hcall', rfl, rfl⟩
      · exact ⟨call, List.mem_of_getElem? hk, rfl, rfl⟩
    -- the pool was not started again, so the call that settles has seen every loop end
    have hnone : liveLoops p.pool.loops = [] :=
      hgood.safe.stopped _ hcall rfl (h.awaits call (List.mem_of_getElem? hk)).1
    constructor
    case good => exact hgood
    case promised =>
      show liveLoops p.pool.loops ⊆ []
      rw [hnone]
      exact List.Subset.refl _
    case booted => exact fun i hi => absurd hi List.not_mem_nil
    case size => exact h.size
    case awaits =>
      intro call' hcall'
      obtain ⟨call'', hcall'', hsince, hawaits⟩ := hof call' hcall'
      rw [hsince, hawaits]
      exact h.awaits call'' hcall''
    case known =>
      intro k' hk'
      rw [HaltCall.settle, List.length_set]
      exact h.known k' hk'
    case past => exact fun _ => ⟨_, hcall, rfl⟩
    case halted => exact h.halted
  | watchdog hstart hticker =>
    refine { h with halted := fun hne => ?_ }
    -- a stopped ticker does not start by itself
    obtain ⟨hrunning, hwatchdog, hscheduler⟩ := h.halted hne
    exact ⟨hrunning, (timer_step hstart hwatchdog hticker).1, hscheduler⟩
  | scheduler hstart hticker =>
    refine { h with halted := fun hne => ?_ }
    obtain ⟨hrunning, hwatchdog, hscheduler⟩ := h.halted hne
    exact ⟨hrunning, hwatchdog, (timer_step hstart hscheduler hticker).1⟩
  | goOn hm hk hresolved =>
    refine { h with known := fun k hk => ?_, past := fun _ => ?_, halted := fun _ => ?_ }
    · rcases List.mem_or_eq_of_mem_set hk with hk | heq
      · exact h.known k hk
      · split at heq <;> cases heq
    · exact ⟨_, List.mem_of_getElem? hk, hresolved⟩
    · exact h.halted (List.ne_nil_of_mem (List.mem_of_getElem? hm))
  | closed hm =>
    refine { h with known := fun k hk => ?_, past := fun _ => ?_, halted := fun _ => ?_ }
    · exact h.known k ((List.mem_or_eq_of_mem_set hk).resolve_right (by simp))
    · exact h.past (.inl ⟨_, List.mem_of_getElem? hm, by simp⟩)
    · exact h.halted (List.ne_nil_of_mem (List.mem_of_getElem? hm))
  | exit hm | abort hm =>
    refine { h with past := fun _ => ?_ }
    exact h.past (.inl ⟨_, List.mem_of_getElem? hm, by simp⟩)

theorem steady_run {ok : Process → ProcessAction → Prop}
    (h : Reach (step api concurrency) ok (start api concurrency) p) : Steady concurrency p :=
  h.invariant steady_start fun _ _ _ hI _ hs => steady_step hI hs

/-- Unless `start` ends it, a process never ends while a loop lives. -/
theorem Steady.no_loop_left (h : Steady concurrency p) (hexited : p.exitCode.isSome = true)
    (hstart : p.starting ≠ .failed) : liveLoops p.pool.loops = [] := by
  obtain ⟨call, hcall, hresolved⟩ := h.past (.inr ⟨hexited, hstart⟩)
  exact h.good.safe.stopped call hcall hresolved (h.awaits call hcall).1

/-! ## After a signal -/

/-- What loop `i` still has to go through, at most, when the pool is shut down. -/
def loopToExit (p : Process) (i : Nat) : Nat := ((p.pool.loops[i]?).map LoopPc.toExit).getD 0

theorem loopToExit_le (p : Process) (i : Nat) : p.loopToExit i ≤ 4 := by
  unfold loopToExit
  cases p.pool.loops[i]? with
  | none => exact Nat.zero_le 4
  | some pc => exact pc.toExit_le

/-- What all of them have. -/
def toExit (p : Process) : Nat := (p.pool.loops.map LoopPc.toExit).sum

/-- After a signal, no step begins a pass or brings work to a loop. -/
theorem Steady.shut_step (h : Steady concurrency p) (hsignal : p.shutdowns ≠ [])
    (hs : p.step api concurrency a = some p') :
    p'.shutdowns ≠ [] ∧
    p'.watchdog.passes.length = p.watchdog.passes.length ∧
    p'.scheduler.passes.length = p.scheduler.passes.length ∧
    (∀ j, p'.loopToExit j + (if a.resumes j then 1 else 0) ≤ p.loopToExit j) ∧
    p'.pool.loops.countP LoopPc.polls + (if a.takesJob then 1 else 0) ≤
      p.pool.loops.countP LoopPc.polls := by
  obtain ⟨hrunning, hwatchdog, hscheduler⟩ := h.halted hsignal
  cases (stepped hs).2 with
  | signal hstop hstop' =>
    refine ⟨by simp, ?_, ?_, fun _ => le_refl _, le_refl _⟩
    · exact congrArg List.length (timer_stop hstop).2
    · exact congrArg List.length (timer_stop hstop').2
  | @resume i awaited pc pc' hi hpc =>
    rw [hrunning] at hpc
    obtain ⟨hless, htakes, hpolls⟩ := LoopPc.resume_shut hpc
    refine ⟨hsignal, rfl, rfl, fun j => ?_, ?_⟩
    · by_cases hij : i = j
      · subst hij
        have hlt := (List.getElem?_eq_some_iff.mp hi).1
        simp only [loopToExit, hi, List.getElem?_set_self hlt, ProcessAction.resumes,
          Option.map_some, Option.getD_some, beq_self_eq_true, if_true]
        exact hless
      -- the other loops are where they were
      · simp [loopToExit, List.getElem?_set_ne hij, ProcessAction.resumes, hij]
    · obtain ⟨hlt, rfl⟩ := List.getElem?_eq_some_iff.mp hi
      -- a loop that polls is counted among those that do
      have hcount : (if (p.pool.loops[i]).polls then 1 else 0) ≤
          p.pool.loops.countP LoopPc.polls := by
        split
        · next hpoll => exact List.countP_pos_iff.mpr ⟨_, List.getElem_mem hlt, hpoll⟩
        · exact Nat.zero_le _
      show (p.pool.loops.set i pc').countP _ + (if awaited.takes then 1 else 0) ≤ _
      rw [List.countP_set hlt]
      cases hawaited : awaited.takes with
      | true =>
        obtain ⟨hpoll, hpoll'⟩ := htakes hawaited
        simp only [hpoll, hpoll', if_true, Bool.false_eq_true, if_false] at hcount ⊢
        omega
      | false =>
        cases hpoll' : pc'.polls with
        | true =>
          simp only [hpolls hpoll', if_true, Bool.false_eq_true, if_false] at hcount ⊢
          omega
        | false =>
          simp only [Bool.false_eq_true, if_false]
          omega
  | watchdog hstart hticker =>
    exact ⟨hsignal, (timer_step hstart hwatchdog hticker).2, rfl, fun _ => le_refl _, le_refl _⟩
  | scheduler hstart hticker =>
    exact ⟨hsignal, rfl, (timer_step hstart hscheduler hticker).2, fun _ => le_refl _, le_refl _⟩
  | goOn | closed => exact ⟨by simpa using hsignal, rfl, rfl, fun _ => le_refl _, le_refl _⟩
  | settle | booted | failed | exit | abort =>
    exact ⟨hsignal, rfl, rfl, fun _ => le_refl _, le_refl _⟩

/-- How far the first call of `shutdown` has to go. -/
def rank (p : Process) : Nat :=
  match p.shutdowns.head? with
  | some (.pool k) => if (p.pool.shutdowns[k]?).any (·.resolved) then 3 else 4
  | some .server => 2
  | some .redis => 1
  | none => 0

/-- Short of the end, something brings it nearer. -/
theorem Steady.exists_nearer (api : Bool) (h : Steady concurrency p) (hsignal : p.shutdowns ≠ [])
    (hlive : p.exitCode = none) :
    ∃ a p', p.step api concurrency a = some p' ∧
      (p'.exitCode = some 0 ∨ p'.exitCode = none ∧ p'.toExit + p'.rank < p.toExit + p.rank) := by
  by_cases hloop : ∃ (i : Nat) (pc : LoopPc), p.pool.loops[i]? = some pc ∧ pc ≠ LoopPc.exited
  · -- a loop can end
    obtain ⟨i, pc, hi, hpc⟩ := hloop
    obtain ⟨awaited, hresume⟩ := Pool.exists_resume_exited hpc
    refine ⟨.resume i awaited,
      { p with pool := { p.pool with loops := p.pool.loops.set i LoopPc.exited } }, ?_, .inr ⟨hlive, ?_⟩⟩
    · simp [step, hlive, Pool.step, hi, (h.halted hsignal).1, hresume]
    · have hsum := sum_map_set (f := LoopPc.toExit) (b := LoopPc.exited) hi
      have hless := (LoopPc.resume_shut hresume).1
      have hrank : ({ p with pool := { p.pool with loops := p.pool.loops.set i LoopPc.exited } } :
          Process).rank = p.rank := rfl
      rw [hrank]
      simp only [toExit]
      omega
  · -- all have, so the first call can go on
    have hended : ∀ i < p.pool.loops.length, p.pool.loops[i]? = some .exited := by
      intro i hi
      by_contra hne
      refine hloop ⟨i, p.pool.loops[i], List.getElem?_eq_getElem hi, fun heq => hne ?_⟩
      rw [List.getElem?_eq_getElem hi, heq]
    obtain ⟨pc, rest, hfirst⟩ := List.exists_cons_of_ne_nil hsignal
    have hhead : p.shutdowns[0]? = some pc := by rw [hfirst]; rfl
    cases pc with
    | pool k =>
      have hk := h.known k (hfirst ▸ List.mem_cons_self)
      have hcall : p.pool.shutdowns[k]? = some p.pool.shutdowns[k] := List.getElem?_eq_getElem hk
      cases hresolved : p.pool.shutdowns[k].resolved with
      | true =>
        have hany : (p.pool.shutdowns[k]?).any (·.resolved) = true := by rw [hcall]; exact hresolved
        have hs : p.step api concurrency (.proceed 0) =
            some { p with shutdowns := p.shutdowns.set 0 (if api then .server else .redis) } := by
          simp only [step, hlive, hhead, hany, Option.isSome_none, Bool.false_eq_true, if_false,
            if_true]
        refine ⟨.proceed 0, _, hs, .inr ⟨hlive, ?_⟩⟩
        cases api <;> simp [rank, toExit, hfirst, hany]
      | false =>
        have hdone : ∀ i ∈ p.pool.shutdowns[k].awaits, p.pool.loops[i]? = some .exited :=
          fun i hi => hended i ((h.awaits _ (List.getElem_mem hk)).2 i hi)
        have hs : p.step api concurrency (.settle k) = some
            { p with
              pool :=
                { p.pool with
                  workerPromises := []
                  shutdowns := HaltCall.settle p.pool.shutdowns k p.pool.shutdowns[k] } } := by
          simp only [step, hlive, Pool.step, hcall, Option.isSome_none, Bool.false_eq_true, if_false]
          rw [if_pos ⟨hresolved, hdone⟩]
          rfl
        refine ⟨.settle k, _, hs, .inr ⟨hlive, ?_⟩⟩
        simp [rank, toExit, hfirst, hresolved, hk, HaltCall.settle]
    | server =>
      have hs : p.step api concurrency (.proceed 0) =
          some { p with shutdowns := p.shutdowns.set 0 .redis } := by
        simp only [step, hlive, hhead, Option.isSome_none, Bool.false_eq_true, if_false]
      exact ⟨.proceed 0, _, hs, .inr ⟨hlive, by simp [rank, toExit, hfirst]⟩⟩
    | redis =>
      have hs : p.step api concurrency (.proceed 0) = some { p with exitCode := some 0 } := by
        simp only [step, hlive, hhead, Option.isSome_none, Bool.false_eq_true, if_false]
      exact ⟨.proceed 0, _, hs, .inl rfl⟩

/-- The end is always in reach. -/
theorem Steady.exists_exit (h : Steady concurrency p) (hsignal : p.shutdowns ≠ [])
    (hlive : p.exitCode = none) :
    ∃ p', Reach (step api concurrency) (fun _ _ => True) p p' ∧ p'.exitCode = some 0 := by
  refine exists_reach_of_measure
    (P := fun p => Steady concurrency p ∧ p.shutdowns ≠ [] ∧ p.exitCode = none)
    (fun p => p.toExit + p.rank) ?_ ⟨h, hsignal, hlive⟩
  rintro p ⟨h, hsignal, hlive⟩
  obtain ⟨a, p', hs, hexited | ⟨hlive', hless⟩⟩ := h.exists_nearer api hsignal hlive
  · exact .inl ⟨p', Reach.refl.tail trivial hs, hexited⟩
  · exact .inr ⟨p', Reach.refl.tail trivial hs,
      ⟨steady_step h hs, (h.shut_step hsignal hs).1, hlive'⟩, hless⟩

/-- Once `start` is through, it does not fail any more. -/
theorem booted_step (h : p.starting = .booted) (hs : p.step api concurrency a = some p') :
    p'.starting = .booted := by
  cases (stepped hs).2 with
  | booted hlistening | failed hlistening => cases h.symm.trans hlistening
  | _ => exact h

/-- **Graceful shutdown.** In every run of a process, from the first signal on and whatever
signals follow: the watchdog and the scheduler begin no pass; the loops take no more jobs than
there were loops polling; each loop comes to no more than four awaits; the process can
exit properly as long as it has not exited; and when it has, every loop has ended, so none
holds a job, unless `start` has ended it because `fastify.listen` rejected. That cannot
happen any more when `start` is through. -/
theorem graceful_shutdown
    (h : Reach (step api concurrency) (fun _ _ => True) (start api concurrency) p)
    (hsignal : p.shutdowns ≠ []) :
    (∀ p', Reach (step api concurrency) (fun _ _ => True) p p' →
      p'.watchdog.passes.length = p.watchdog.passes.length ∧
      p'.scheduler.passes.length = p.scheduler.passes.length ∧
      (p'.exitCode.isSome = true → p'.starting ≠ .failed → liveLoops p'.pool.loops = []) ∧
      (p.starting = .booted → p'.starting ≠ .failed) ∧
      (p'.exitCode = none →
        ∃ p'', Reach (step api concurrency) (fun _ _ => True) p' p'' ∧ p''.exitCode = some 0)) ∧
    (∀ n p', ReachIn (step api concurrency) (fun _ _ => True) ProcessAction.takesJob p n p' →
      n ≤ p.pool.loops.countP LoopPc.polls) ∧
    ∀ i n p', ReachIn (step api concurrency) (fun _ _ => True) (ProcessAction.resumes i) p n p' →
      n ≤ 4 := by
  have hsteady := steady_run h
  have hrun : ∀ p', Reach (step api concurrency) (fun _ _ => True) p p' →
      Steady concurrency p' ∧ p'.shutdowns ≠ [] ∧
        p'.watchdog.passes.length = p.watchdog.passes.length ∧
        p'.scheduler.passes.length = p.scheduler.passes.length := by
    intro p' hreach
    refine hreach.invariant (I := fun p' => Steady concurrency p' ∧ p'.shutdowns ≠ [] ∧
      p'.watchdog.passes.length = p.watchdog.passes.length ∧
      p'.scheduler.passes.length = p.scheduler.passes.length) ⟨hsteady, hsignal, rfl, rfl⟩ ?_
    rintro q a q' ⟨hq, hqsignal, hwatchdog, hscheduler⟩ - hs
    obtain ⟨hqsignal', hwatchdog', hscheduler', -, -⟩ := hq.shut_step hqsignal hs
    exact ⟨steady_step hq hs, hqsignal', hwatchdog'.trans hwatchdog, hscheduler'.trans hscheduler⟩
  refine ⟨fun p' hreach => ?_, fun n p' hcount => ?_, fun i n p' hcount => ?_⟩
  · obtain ⟨hsteady', hsignal', hwatchdog, hscheduler⟩ := hrun p' hreach
    refine ⟨hwatchdog, hscheduler, hsteady'.no_loop_left, fun hbooted => ?_,
      hsteady'.exists_exit hsignal'⟩
    have hstays : p'.starting = .booted :=
      hreach.invariant (I := fun p' => p'.starting = .booted) hbooted
        fun _ _ _ hI _ hs => booted_step hI hs
    rw [hstays]
    exact StartPc.noConfusion
  · have hbound := hcount.potential (fun p => p.pool.loops.countP LoopPc.polls)
      fun q a q' hreach _ hs => ((hrun q hreach).1.shut_step (hrun q hreach).2.1 hs).2.2.2.2
    omega
  · -- every await of a loop brings it nearer to its end, and nothing else moves it
    have hbound := hcount.potential (fun p => p.loopToExit i)
      fun q a q' hreach _ hs => ((hrun q hreach).1.shut_step (hrun q hreach).2.1 hs).2.2.2.1 i
    have hle := p.loopToExit_le i
    omega

/-- Two signals; one loop takes a job after the first. -/
theorem graceful_shutdown_twice : ∃ p : Process,
    Reach (step false 2) (fun _ _ => True) (start false 2) p ∧ p.shutdowns = [.redis, .pool 1] ∧
      liveLoops p.pool.loops = [] ∧
      ∃ p', Reach (step false 2) (fun _ _ => True) p p' ∧ p'.exitCode = some 0 := by
  obtain ⟨p, hp, hshutdowns, hloops, hlive⟩ :=
    exists_reach_of_run (step false 2) (fun _ _ => True) (start false 2)
      (fun p => p.shutdowns = [.redis, .pool 1] ∧ liveLoops p.pool.loops = [] ∧ p.exitCode = none)
      [.signal, .resume 0 (.popped (some "a")), .signal, .resume 0 .processed, .resume 1 .thrown,
        .settle 0, .proceed 0] (by decide)
  exact ⟨p, hp, hshutdowns, hloops,
    ((graceful_shutdown hp (by simp [hshutdowns])).1 p .refl).2.2.2.2 hlive⟩

-- a process may exit in the middle of a pass: the promise of `stop` is not waited for
example : ∃ p : Process, Reach (step false 1) (fun _ _ => True) (start false 1) p ∧
    p.exitCode = some 0 ∧ p.scheduler.passes = [.unfinished] :=
  exists_reach_of_run (step false 1) (fun _ _ => True) (start false 1)
    (fun p => p.exitCode = some 0 ∧ p.scheduler.passes = [.unfinished])
    [.scheduler .tick, .signal, .resume 0 .thrown, .settle 0, .proceed 0, .proceed 0] (by decide)

-- a port that is taken ends the process in the middle of a job, signal or not
example : ∃ p : Process, Reach (step true 1) (fun _ _ => True) (start true 1) p ∧
    p.shutdowns ≠ [] ∧ p.exitCode = some 1 ∧ p.pool.loops = [.processing "a"] :=
  exists_reach_of_run (step true 1) (fun _ _ => True) (start true 1)
    (fun p => p.shutdowns ≠ [] ∧ p.exitCode = some 1 ∧ p.pool.loops = [.processing "a"])
    [.resume 0 (.popped (some "a")), .signal, .listen false] (by decide)

end Process

end DistriSys
