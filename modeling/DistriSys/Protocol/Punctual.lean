import DistriSys.Protocol.Release
import DistriSys.Transition.Sweep

/-!
# How late a delayed job may be

The scheduler looks at the delayed set from time to time. It is a cleaner in the sense of
`Sweeping`, whatever else goes on: passes may overlap, be cut short by a crash, and take
time. All that is assumed is that within `period` of the moment a complete pass began the
next complete one has ended (`InTime`). **`released_in_time`**: then no job stays in the
delayed set for longer than `period` after it has fallen due.

- `noteFiling` records when each pass began and when each job was filed;
- `releases` says what of the system is the cleaner, `releases_paced` that its steps are those
  of one: a pass drops no due job, and a job that arrives is not overdue.

The clock is the one the passes read, in milliseconds. A pass begins when it asks for the due
jobs, and what falls due later is the business of the next one, so the bound has no part for how
long a pass takes but the one in `InTime`.
-/

namespace DistriSys

open Js Redis Transition

variable {T : Type}

/-- Time does not pass the moment by which the next pass is to be through. -/
def InTime (period clock swept : Nat) : Action T → Prop
  | .tick ms => clock + ms ≤ swept + period
  | _ => True

instance (period clock swept : Nat) (a : Action T) : Decidable (InTime period clock swept a) :=
  match a with
  | .tick ms => inferInstanceAs (Decidable (clock + ms ≤ swept + period))
  | .enqueue .. | .produce .. | .work .. | .settle .. | .renew .. | .process .. | .schedule ..
  | .watch .. | .request .. | .respond .. | .crash .. => .isTrue trivial

theorem InTime.step {env : Env T} {s s' : Config T} {a : Action T} {period swept swept' : Nat}
    (h : InTime period s.clock swept a) (hs : step env s a = some s')
    (hbefore : s.clock ≤ swept + period) (hswept : swept ≤ swept') :
    s'.clock ≤ swept' + period := by
  cases stepped hs with
  | tick ms =>
    have htick : s.clock + ms ≤ swept + period := h
    show s.clock + ms ≤ swept' + period
    omega
  | _ => exact hbefore.trans (Nat.add_le_add_right hswept period)

/-! ## The scheduler -/

/-- No pass is under way. -/
def SchedulerPc.isIdle : SchedulerPc → Bool
  | idle => true
  | _ => false

theorem SchedulerPc.pending_of_isIdle {pc : SchedulerPc} (h : pc.isIdle = true) :
    pc.pending = [] := by
  cases pc with
  | idle => rfl
  | _ => cases h

/-- What is recorded of the delayed set: the passes, and when a job was filed last. -/
structure Filings where
  passes : Passes Nat
  filedAt : JobId → Nat

/-- Before the first step. -/
def Filings.none : Filings := ⟨⟨fun _ => 0, 0⟩, fun _ => 0⟩

/-- Recording a step: the pass that moves, and the `ZADD` of a worker. -/
def noteFiling (s : Config T) (a : Action T) (s' : Config T) (h : Filings) : Filings :=
  match a with
  | .work w _ =>
    match s.workers[w]? with
    | some ⟨_, .zaddDelayed jobId _⟩ =>
      { h with filedAt := Function.update h.filedAt jobId s.clock }
    | _ => h
  | .schedule i =>
    { h with
      passes := h.passes.note s.clock i ((s.schedulers[i]?).all SchedulerPc.isIdle)
        ((s'.schedulers[i]?).all SchedulerPc.isIdle) }
  | _ => h

/-- The scheduler as a cleaner of the delayed set. An entry falls due at its score, or when
it is filed if that is later. -/
def releases (env : Env T) : Sweeping (Recorded (Config T) Filings) (JobId × Nat) Nat where
  clock r := r.state.clock
  present r e := e ∈ (r.state.store.delayed env.queueName).entries
  due r e := max e.2 (r.history.filedAt e.1)
  underway r i := ∃ pc, r.state.schedulers[i]? = some pc ∧ pc.isIdle = false
  takes r i e := ∃ pc, r.state.schedulers[i]? = some pc ∧ e.1 ∈ pc.pending
  passes r := r.history.passes

section Releases

variable {env : Env T} {s s' : Config T} {a : Action T} {h : Filings}

/-- A filing is noted with the time. -/
theorem filedAt_noteFiling (s : Config T) (a : Action T) (s' : Config T) (h : Filings) (id : JobId) :
    (noteFiling s a s' h).filedAt id = h.filedAt id ∨
      (noteFiling s a s' h).filedAt id = s.clock := by
  unfold noteFiling
  split
  · split
    · next jobId score hw =>
      by_cases hid : id = jobId
      · subst hid
        exact .inr (Function.update_self ..)
      · exact .inl (Function.update_of_ne hid ..)
    · exact .inl rfl
  · exact .inl rfl
  · exact .inl rfl

theorem filedAt_of_works {id : JobId} {score : Nat} (hw : s.Works a (.zaddDelayed id score)) :
    (noteFiling s a s' h).filedAt id = s.clock := by
  obtain ⟨w, draw, ⟨handlers, pc⟩, rfl, hw, rfl⟩ := hw
  simp [noteFiling, hw]

/-- An entry of the delayed set has just been filed, or has been there. -/
theorem filed_items (hs : step env s a = some s') {e : JobId × Nat}
    (hentry : e ∈ (s'.store.delayed env.queueName).entries) :
    s.clock ≤ max e.2 ((noteFiling s a s' h).filedAt e.1) ∨
      e ∈ (s.store.delayed env.queueName).entries ∧
        max e.2 (h.filedAt e.1) ≤ max e.2 ((noteFiling s a s' h).filedAt e.1) := by
  rcases filedAt_noteFiling s a s' h e.1 with hsame | hnew
  · rcases delayed_step hs with hset | ⟨id, score, hw, hset⟩ | ⟨id, -, hset⟩
    · exact .inr ⟨hset ▸ hentry, by omega⟩
    · rw [hset, ZSet.mem_entries_zadd] at hentry
      rcases hentry with rfl | ⟨hold, -⟩
      · have hfiled : (noteFiling s a s' h).filedAt id = s.clock := filedAt_of_works hw
        exact .inl (le_max_of_le_right hfiled.ge)
      · exact .inr ⟨hold, by omega⟩
    · rw [hset, ZSet.mem_entries_zrem] at hentry
      exact .inr ⟨hentry.1, by omega⟩
  · exact .inl (by omega)

/-- Unless it is the scheduler that moves, its passes are where they were, or lost. -/
theorem schedulers_still (hs : step env s a = some s') (ha : ∀ i, a ≠ .schedule i) {k : Nat}
    {pc : SchedulerPc} (hk : s'.schedulers[k]? = some pc) (hidle : pc.isIdle = false) :
    s.schedulers[k]? = some pc := by
  cases stepped hs with
  | schedule => exact absurd rfl (ha _)
  | crashScheduler hi =>
    rw [List.getElem?_set] at hk
    split at hk
    · split at hk
      · cases hk
        cases hidle
      · cases hk
    · exact hk
  | _ => exact hk

theorem passes_noteFiling_still (ha : ∀ i, a ≠ .schedule i) :
    (noteFiling s a s' h).passes = h.passes := by
  unfold noteFiling
  split
  · split <;> rfl
  · exact absurd rfl (ha _)
  · rfl

/-- The pass that moves goes on with what it has not released, or begins with all that is
due. -/
theorem releases_goes {i : Nat} {pc : SchedulerPc} {last : Bool}
    (hi : s.schedulers[i]? = some pc)
    (hstore : s'.store = (schedulerStep env s.clock s.store pc).store)
    {h' : Filings} (hpasses : h'.passes = h.passes.note s.clock i pc.isIdle last) :
    (releases env).Goes ⟨s, h⟩ ⟨s', h'⟩ i
      fun e => e.1 ∈ (schedulerStep env s.clock s.store pc).pc.pending := by
  unfold Sweeping.Goes
  simp only [releases, hpasses, hstore]
  cases pc with
  | idle =>
    have hbegan : (h.passes.note s.clock i true last).began i = s.clock := Passes.began_note_first
    -- a pass begins: it lists what is due by its own clock
    refine .inr ⟨hbegan, fun e hentry hdue => ?_⟩
    simp only [SchedulerPc.isIdle, hbegan] at hdue
    rw [schedulerStep, SchedulerPc.pending_next]
    exact ZSet.mem_zrangebyscore.mpr ⟨e.2, hentry, by omega⟩
  | lookup jobId rest =>
    refine .inl ⟨⟨_, hi, rfl⟩, rfl, ?_⟩
    rintro e ⟨pc, hpc, he⟩ - -
    obtain rfl := Option.some.inj (hi.symm.trans hpc)
    exact he
  | move jobId priority rest =>
    refine .inl ⟨⟨_, hi, rfl⟩, rfl, ?_⟩
    rintro e ⟨pc, hpc, he⟩ hentry -
    obtain rfl := Option.some.inj (hi.symm.trans hpc)
    simp only [schedulerStep, Store.hmset_delayed, Store.lpush_delayed, Store.zrem_delayed,
      Function.update_self] at hentry
    rw [schedulerStep, SchedulerPc.pending_next]
    -- what it leaves its list for, `ZREM` has taken out
    exact (List.mem_cons.mp he).resolve_left (ZSet.mem_entries_zrem.mp hentry).2

/-- **One step.** -/
theorem releases_paced {r r' : Recorded (Config T) Filings} {period : Nat}
    (honTime : (releases env).OnTime period r)
    (hok : InTime period r.state.clock r.history.passes.swept a)
    (hr : recording (step env) noteFiling r a = some r') : (releases env).Paced period r r' := by
  obtain ⟨s', hs, rfl⟩ := recording_eq_some hr
  obtain ⟨s, h⟩ := r
  dsimp only at hok hs ⊢
  by_cases ha : ∃ i, a = .schedule i
  · obtain ⟨i, rfl⟩ := ha
    cases stepped hs with
    | @schedule _ pc hi =>
      have hnew := List.getElem?_set_self (a := (schedulerStep env s.clock s.store pc).pc)
        (List.getElem?_eq_some_iff.mp hi).1
      generalize hs' : ({ s with
        store := (schedulerStep env s.clock s.store pc).store
        schedulers := s.schedulers.set i (schedulerStep env s.clock s.store pc).pc
        log := s.log ++ (schedulerStep env s.clock s.store pc).events } : Config T) = s' at hs ⊢
      have hpasses : (noteFiling s (.schedule i) s' h).passes = h.passes.note s.clock i pc.isIdle
          (schedulerStep env s.clock s.store pc).pc.isIdle := by
        simp only [noteFiling, ← hs', hi, hnew, Option.all_some]
      have hswept : h.passes.swept ≤ (noteFiling s (.schedule i) s' h).passes.swept := by
        rw [hpasses]
        exact Passes.swept_le_note
      refine Sweeping.paced_of_move (clock_step hs) (hok.step hs honTime.punctual hswept)
        (fun e he => filed_items hs he) hpasses ?_
        (releases_goes hi (hs' ▸ rfl) hpasses) ?_ ?_
      · rintro j hj ⟨pc', hpc', hidle⟩
        -- the other passes stand still
        have hsame : s.schedulers[j]? = some pc' := by
          rw [← hs', List.getElem?_set_ne (Ne.symm hj)] at hpc'
          exact hpc'
        refine ⟨⟨pc', hsame, hidle⟩, ?_⟩
        rintro e ⟨pc₀, hpc₀, he⟩
        exact ⟨pc₀, by rw [hpc', ← hsame, hpc₀], he⟩
      · intro _ e he
        exact ⟨_, hs' ▸ hnew, he⟩
      · intro hidle e he
        rw [SchedulerPc.pending_of_isIdle hidle] at he
        cases he
  · push Not at ha
    have hpasses : (noteFiling s a s' h).passes = h.passes := passes_noteFiling_still ha
    refine Sweeping.paced_of_still (clock_step hs)
      (hok.step hs honTime.punctual (le_of_eq (hpasses ▸ rfl)))
      (fun e he => filed_items hs he) hpasses ?_
    rintro k ⟨pc, hpc, hidle⟩
    have hstill := schedulers_still hs ha hpc hidle
    refine ⟨⟨pc, hstill, hidle⟩, ?_⟩
    rintro e ⟨pc₀, hpc₀, he⟩
    exact ⟨pc₀, by rw [hpc, ← hstill, hpc₀], he⟩

/-- **Released in time.** When complete passes follow one another within `period`, no job
stays in the delayed set for longer than that after it has fallen due. -/
theorem released_in_time {topology : Topology} {period : Nat}
    {r : Recorded (Config T) Filings}
    (h : Reach (recording (step env) noteFiling)
      (fun r a => InTime period r.state.clock r.history.passes.swept a) ⟨init topology, .none⟩ r)
    {id : JobId} {score : Nat} (hentry : (id, score) ∈ (r.state.store.delayed env.queueName).entries) :
    r.state.clock ≤ max score (r.history.filedAt id) + period := by
  have honTime : (releases env).OnTime period r := by
    refine h.invariant (I := (releases env).OnTime period) ?_ fun r a r' hI hok hs =>
      Sweeping.onTime_step hI (releases_paced hI hok hs)
    have hidle : ∀ k, ¬ (releases env).underway ⟨init topology, Filings.none⟩ k := by
      rintro k ⟨pc, hpc, hidle⟩
      obtain rfl := List.eq_of_mem_replicate (List.mem_of_getElem? hpc)
      cases hidle
    exact ⟨Nat.zero_le _, Nat.le_refl _, fun k hk => absurd hk (hidle k), nofun,
      fun k hk => absurd hk (hidle k)⟩
  exact honTime.late (S := releases env) (i := (id, score)) hentry

end Releases

/-- A job that is due waits for the next pass. -/
theorem released_in_time_waiting : ∃ r : Recorded (Config Unit) Filings,
    r.state.clock = 2400 ∧ ("a", 2000) ∈ (r.state.store.delayed "main_queue").entries ∧
      r.state.clock ≤ max 2000 (r.history.filedAt "a") + 500 := by
  obtain ⟨r, hr, hclock, hentry⟩ :=
    exists_reach_of_run (recording (step mainQueue) noteFiling)
      (fun r a => InTime 500 r.state.clock r.history.passes.swept a)
      ⟨init ⟨1, [["mail"]], 1, 0, 0⟩, .none⟩
      (fun r => r.state.clock = 2400 ∧
        ("a", 2000) ∈ (r.state.store.delayed "main_queue").entries)
      (failOnce.dropLast ++ [.tick 500, .schedule 0, .tick 500, .schedule 0, .tick 500, .schedule 0,
        .tick 400, .schedule 0, .tick 500])
      (by decide +kernel)
  exact ⟨r, hclock, hentry, released_in_time hr hentry⟩

end DistriSys
