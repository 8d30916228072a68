import DistriSys.Protocol.Heartbeats
import DistriSys.Protocol.Punctual

/-!
# How late a stalled job is found

The watchdog looks at the processing list from time to time, and like the scheduler it is a
cleaner in the sense of `Sweeping`. A job is stalled when no live worker holds it, and the
watchdog can tell when the last heartbeat it may have has expired (`Lasting`).

- `takes_step`: a pass drops no job that is still on the processing list and has no
  heartbeat;
- **`stalled_found_in_time`**: with complete passes within `period` of one another, no job
  stays on the processing list for longer than that and the life of a heartbeat after it
  was last in the hands of a live worker, or of the watchdog.

`noteTouch` records the moment a job was last in somebody's hands. This is more than its last
heartbeat: a worker holds its job from the pop to its clean-up, and between the pop and the first
heartbeat there is none. A watchdog transaction counts as well, since after it the entry that is
left, if there is one, is that of another dispatch.
-/

namespace DistriSys

open Js Redis Transition

variable {T : Type}

/-- No pass is under way. -/
def WatchdogPc.isIdle : WatchdogPc → Bool
  | idle => true
  | _ => false

/-- The pass is still to take the job if it is stalled. -/
def WatchdogPc.Takes (id : JobId) : WatchdogPc → Prop
  | idle => False
  -- the processing list is still to be read
  | readProcessing _ => True
  | readHeartbeats jobIds => id ∈ jobIds
  | inspect jobId rest => id ∈ jobId :: rest
  | requeue jobId _ rest => id ∈ jobId :: rest

theorem WatchdogPc.not_takes_of_isIdle {pc : WatchdogPc} (h : pc.isIdle = true) (id : JobId) :
    ¬ pc.Takes id := by
  cases pc with
  | idle => exact fun htakes => htakes
  | _ => cases h

/-- What is recorded of the processing list: the passes, and when a job was last in the hands
of a live worker or of the watchdog. -/
structure Touches where
  passes : Passes Nat
  touchedAt : JobId → Nat

/-- Before the first step. -/
def Touches.none : Touches := ⟨⟨fun _ => 0, 0⟩, fun _ => 0⟩

/-- Recording a step: the pass that moves, and a touch of every job that a live worker holds
after the step or that the watchdog's transaction is about. -/
def noteTouch (s : Config T) (a : Action T) (s' : Config T) (h : Touches) : Touches where
  passes :=
    match a with
    | .watch i => h.passes.note s.clock i ((s.watchdogs[i]?).all WatchdogPc.isIdle)
        ((s'.watchdogs[i]?).all WatchdogPc.isIdle)
    | _ => h.passes
  touchedAt id :=
    if 0 < s'.holders id ∨ s.watchdogTransaction a = some id then s'.clock else h.touchedAt id

/-- The watchdog as a cleaner of the processing list. A job falls due when the last heartbeat
it may have expires. -/
def stalls (env : Env T) : Sweeping (Recorded (Config T) Touches) JobId Nat where
  clock r := r.state.clock
  present r id := id ∈ r.state.store.lists (.processingList env.queueName)
  due r id := r.history.touchedAt id + env.config.heartbeatTtlSec * 1000
  underway r i := ∃ pc, r.state.watchdogs[i]? = some pc ∧ pc.isIdle = false
  takes r i id := ∃ pc, r.state.watchdogs[i]? = some pc ∧ pc.Takes id
  passes r := r.history.passes

/-- A heartbeat does not outlast the last touch by more than its life. -/
structure Lasting (env : Env T) (r : Recorded (Config T) Touches) : Prop where
  past : ∀ id, r.history.touchedAt id ≤ r.state.clock
  lasts : ∀ id v, r.state.store.heartbeats id = some v →
    v.expiresAt ≤ r.history.touchedAt id + env.config.heartbeatTtlSec * 1000

section Stalls

variable {env : Env T} {s s' : Config T} {a : Action T} {h : Touches} {id : JobId}

theorem touchedAt_of_holders (hholders : 0 < s'.holders id) :
    (noteTouch s a s' h).touchedAt id = s'.clock :=
  if_pos (.inl hholders)

theorem touchedAt_of_transaction (htx : s.watchdogTransaction a = some id) :
    (noteTouch s a s' h).touchedAt id = s'.clock :=
  if_pos (.inr htx)

theorem touchedAt_mono (hpast : h.touchedAt id ≤ s.clock) (hclock : s.clock ≤ s'.clock) :
    h.touchedAt id ≤ (noteTouch s a s' h).touchedAt id := by
  simp only [noteTouch]
  split
  · exact hpast.trans hclock
  · exact Nat.le_refl _

/-- A worker that sets a heartbeat holds the job. -/
theorem holders_of_beats {w : Nat} (h : s.Beats w id a) (hs : step env s a = some s') :
    0 < s'.holders id := by
  cases h with
  | first hw =>
    cases stepped hs with
    | work hw' he =>
      obtain rfl := Option.some.inj (hw.symm.trans hw')
      cases he
      have hlt := (List.getElem?_eq_some_iff.mp hw).1
      exact List.countP_pos_iff.mpr
        ⟨_, List.mem_of_getElem? (List.getElem?_set_self hlt), by simp [WorkerPc.jobId?]⟩
  | @renewal wk hw hid =>
    cases stepped hs with
    | renew hw' hid' =>
      refine List.countP_pos_iff.mpr ⟨wk, List.mem_of_getElem? hw, ?_⟩
      obtain ⟨handlers, pc⟩ := wk
      cases pc <;> cases hid <;> simp [WorkerPc.jobId?]

theorem lasting_step {r r' : Recorded (Config T) Touches} (hlasting : Lasting env r)
    (hr : recording (step env) noteTouch r a = some r') : Lasting env r' := by
  obtain ⟨s', hs, rfl⟩ := recording_eq_some hr
  have hclock := clock_step hs
  refine ⟨fun id => ?_, fun id v hv => ?_⟩
  · show (if _ then s'.clock else r.history.touchedAt id) ≤ s'.clock
    split
    · exact Nat.le_refl _
    · exact (hlasting.past id).trans hclock
  · have hmono := touchedAt_mono (a := a) (hlasting.past id) hclock
    rcases heartbeats_step hs id with hsame | ⟨w, hbeats, hset⟩ | ⟨-, hnone⟩
    · have := hlasting.lasts id v (hsame ▸ hv)
      show v.expiresAt ≤ (noteTouch r.state a s' r.history).touchedAt id + _
      omega
    · obtain rfl := Option.some.inj (hset.symm.trans hv)
      show r.state.clock + _ ≤ (noteTouch r.state a s' r.history).touchedAt id + _
      rw [touchedAt_of_holders (holders_of_beats hbeats hs)]
      exact Nat.add_le_add_right hclock _
    · cases hnone.symm.trans hv

/-- A job on the processing list has just been dispatched, or has been there. -/
theorem touched_items (hI : Integrity env s) (hpast : h.touchedAt id ≤ s.clock)
    (hs : step env s a = some s') (hid : id ∈ s'.store.lists (.processingList env.queueName)) :
    s.clock ≤ (noteTouch s a s' h).touchedAt id + env.config.heartbeatTtlSec * 1000 ∨
      id ∈ s.store.lists (.processingList env.queueName) ∧
        h.touchedAt id + env.config.heartbeatTtlSec * 1000 ≤
          (noteTouch s a s' h).touchedAt id + env.config.heartbeatTtlSec * 1000 := by
  have hclock := clock_step hs
  have hmono := touchedAt_mono (a := a) hpast hclock
  have hpos : 1 ≤ (ledger env s' id).processing := List.count_pos_iff.mpr hid
  -- an entry is made by the worker that takes the job
  have hcases : 0 < (ledger env s' id).holders ∨ 1 ≤ (ledger env s id).processing := by
    obtain ⟨m, -, hen, hL⟩ := step_refines hI hs id
    rw [hL] at hpos ⊢
    cases m with
    | die phase =>
      right
      cases phase <;> exact hpos
    | _ =>
      simp only [Ledger.apply, Ledger.holders] at hpos ⊢
      omega
  rcases hcases with hholders | hprocessing
  · rw [ledger_holders] at hholders
    rw [touchedAt_of_holders hholders]
    exact .inl (by omega)
  · exact .inr ⟨List.count_pos_iff.mp hprocessing, by omega⟩

/-- Unless it is the watchdog that moves, its passes are where they were, or lost. -/
theorem watchdogs_still (hs : step env s a = some s') (ha : ∀ i, a ≠ .watch i) {k : Nat}
    {pc : WatchdogPc} (hk : s'.watchdogs[k]? = some pc) (hidle : pc.isIdle = false) :
    s.watchdogs[k]? = some pc := by
  cases stepped hs with
  | watch => exact absurd rfl (ha _)
  | crashWatchdog hi =>
    rw [List.getElem?_set] at hk
    split at hk
    · split at hk
      · cases hk
        cases hidle
      · cases hk
    · exact hk
  | _ => exact hk

/-- A pass drops no job that is still on the processing list, without a heartbeat. -/
theorem takes_step {now : Nat} {st : Store} {pc : WatchdogPc} (htakes : pc.Takes id)
    (hid : id ∈ (watchdogStep env now st pc).store.lists (.processingList env.queueName))
    (hdead : st.alive now id = false) (hne : ∀ jobHash rest, pc ≠ .requeue id jobHash rest) :
    (watchdogStep env now st pc).pc.Takes id := by
  have hnext : ∀ ids, id ∈ ids → (WatchdogPc.next ids).Takes id := by
    intro ids hmem
    cases ids with
    | nil => cases hmem
    | cons jobId rest => exact hmem
  cases pc with
  | idle => exact htakes.elim
  -- the snapshot is taken now
  | readProcessing activeIds =>
    have hmem : id ∈ distinct (activeIds ++ st.lists (.processingList env.queueName)) :=
      mem_distinct.mpr (List.mem_append_right _ hid)
    rw [watchdogStep]
    dsimp only
    rw [if_neg (List.ne_nil_of_mem hmem)]
    exact hmem
  -- only jobs with a heartbeat are dropped here
  | readHeartbeats jobIds => exact hnext _ (List.mem_filter.mpr ⟨htakes, by simp [hdead]⟩)
  | inspect jobId rest => exact htakes
  | requeue jobId jobHash rest =>
    refine hnext rest ((List.mem_cons.mp htakes).resolve_left ?_)
    rintro rfl
    exact hne jobHash rest rfl

/-- The pass that moves goes on with what it has not requeued, or begins. -/
theorem stalls_goes {i : Nat} {pc : WatchdogPc} {last : Bool} (h' : Touches)
    (hi : s.watchdogs[i]? = some pc)
    (hbegun : pc.isIdle = false → h.passes.began i ≤ s.clock) (hlasting : Lasting env ⟨s, h⟩)
    (hstore : s'.store = (watchdogStep env s.clock s.store pc).store)
    (hpasses : h'.passes = h.passes.note s.clock i pc.isIdle last)
    (hmono : ∀ id, h.touchedAt id ≤ h'.touchedAt id)
    (htx : ∀ id, s.watchdogTransaction (.watch i) = some id → h'.touchedAt id = s.clock) :
    (stalls env).Goes ⟨s, h⟩ ⟨s', h'⟩ i
      fun id => (watchdogStep env s.clock s.store pc).pc.Takes id := by
  unfold Sweeping.Goes
  simp only [stalls, hpasses, hstore]
  cases hidle : pc.isIdle with
  | true =>
    -- it begins with a read of the active-jobs hash
    cases pc with
    | idle => exact .inr ⟨Passes.began_note_first, fun id _ _ => trivial⟩
    | _ => cases hidle
  | false =>
    refine .inl ⟨⟨pc, hi, hidle⟩, rfl, ?_⟩
    rintro id ⟨pc₀, hpc₀, htakes⟩ hid hdue
    obtain rfl := Option.some.inj (hi.symm.trans hpc₀)
    rw [Passes.began_note_later] at hdue
    have hbegun := hbegun hidle
    have hmono := hmono id
    refine takes_step htakes hid ?_ ?_
    · cases hheartbeat : s.store.heartbeats id with
      | none => simp [Store.alive, hheartbeat, Volatile.get?]
      | some v =>
        have hexpires := hlasting.lasts id v hheartbeat
        have hexpired : ¬ s.clock ≤ v.expiresAt := by
          dsimp only at hexpires
          omega
        simp [Store.alive, hheartbeat, Volatile.get?, hexpired]
    · rintro jobHash rest rfl
      have := htx id (by simp [Config.watchdogTransaction, hi])
      omega

/-- **One step.** -/
theorem stalls_paced {r r' : Recorded (Config T) Touches} {period : Nat}
    (hI : Integrity env r.state) (hlasting : Lasting env r) (honTime : (stalls env).OnTime period r)
    (hok : InTime period r.state.clock r.history.passes.swept a)
    (hr : recording (step env) noteTouch r a = some r') : (stalls env).Paced period r r' := by
  obtain ⟨s', hs, rfl⟩ := recording_eq_some hr
  obtain ⟨s, h⟩ := r
  dsimp only at hI hok hs ⊢
  by_cases ha : ∃ i, a = .watch i
  · obtain ⟨i, rfl⟩ := ha
    cases stepped hs with
    | @watch _ pc hi =>
      have hnew := List.getElem?_set_self (a := (watchdogStep env s.clock s.store pc).pc)
        (List.getElem?_eq_some_iff.mp hi).1
      generalize hs' : ({ s with
        store := (watchdogStep env s.clock s.store pc).store
        watchdogs := s.watchdogs.set i (watchdogStep env s.clock s.store pc).pc
        log := s.log ++ (watchdogStep env s.clock s.store pc).events } : Config T) = s' at hs ⊢
      have hpasses : (noteTouch s (.watch i) s' h).passes = h.passes.note s.clock i pc.isIdle
          (watchdogStep env s.clock s.store pc).pc.isIdle := by
        simp only [noteTouch, ← hs', hi, hnew, Option.all_some]
      have hswept : h.passes.swept ≤ (noteTouch s (.watch i) s' h).passes.swept := by
        rw [hpasses]
        exact Passes.swept_le_note
      have hclock : s'.clock = s.clock := by rw [← hs']
      have hstore : s'.store = (watchdogStep env s.clock s.store pc).store := by rw [← hs']
      -- the pass that moves: its share shrinks only by what it has handed on
      have hgoes := stalls_goes (noteTouch s (.watch i) s' h) hi
        (fun hidle => honTime.begun i ⟨pc, hi, hidle⟩) hlasting hstore hpasses
        (fun id => touchedAt_mono (hlasting.past id) (clock_step hs))
        (fun id htx => (touchedAt_of_transaction htx).trans hclock)
      refine Sweeping.paced_of_move (clock_step hs) (hok.step hs honTime.punctual hswept)
        (fun id hid => touched_items hI (hlasting.past id) hs hid) hpasses ?_ hgoes ?_ ?_
      · rintro j hj ⟨pc', hpc', hidle⟩
        -- the other passes stand still
        have hsame : s.watchdogs[j]? = some pc' := by
          rw [← hs', List.getElem?_set_ne (Ne.symm hj)] at hpc'
          exact hpc'
        refine ⟨⟨pc', hsame, hidle⟩, ?_⟩
        rintro e ⟨pc₀, hpc₀, he⟩
        exact ⟨pc₀, by rw [hpc', ← hsame, hpc₀], he⟩
      · intro _ id hid
        exact ⟨_, hs' ▸ hnew, hid⟩
      · intro hidle id hid
        exact WatchdogPc.not_takes_of_isIdle hidle id hid
  · push Not at ha
    have hpasses : (noteTouch s a s' h).passes = h.passes := by
      cases a with
      | watch i => exact absurd rfl (ha i)
      | _ => rfl
    refine Sweeping.paced_of_still (clock_step hs)
      (hok.step hs honTime.punctual (le_of_eq (hpasses ▸ rfl)))
      (fun id hid => touched_items hI (hlasting.past id) hs hid) hpasses ?_
    rintro k ⟨pc, hpc, hidle⟩
    have hstill := watchdogs_still hs ha hpc hidle
    refine ⟨⟨pc, hstill, hidle⟩, ?_⟩
    rintro e ⟨pc₀, hpc₀, he⟩
    exact ⟨pc₀, by rw [hpc, ← hstill, hpc₀], he⟩

/-- **Stalled jobs are found in time.** When complete passes follow one another within
`period`, no job stays on the processing list for longer than that and the life of a
heartbeat after it was last in the hands of a live worker or of the watchdog. -/
theorem stalled_found_in_time {topology : Topology} {period : Nat}
    {r : Recorded (Config T) Touches}
    (h : Reach (recording (step env) noteTouch)
      (fun r a => InTime period r.state.clock r.history.passes.swept a) ⟨init topology, .none⟩ r)
    (hid : id ∈ r.state.store.lists (.processingList env.queueName)) :
    r.state.clock ≤ r.history.touchedAt id + env.config.heartbeatTtlSec * 1000 + period := by
  have hinv : Lasting env r ∧ (stalls env).OnTime period r := by
    refine h.invariant' (I := fun r => Lasting env r ∧ (stalls env).OnTime period r) ⟨?_, ?_⟩ ?_
    · exact ⟨fun id => Nat.le_refl 0, nofun⟩
    · have hidle : ∀ k, ¬ (stalls env).underway ⟨init topology, Touches.none⟩ k := by
        rintro k ⟨pc, hpc, hidle⟩
        obtain rfl := List.eq_of_mem_replicate (List.mem_of_getElem? hpc)
        cases hidle
      exact ⟨Nat.zero_le _, Nat.le_refl _, fun k hk => absurd hk (hidle k), nofun,
        fun k hk => absurd hk (hidle k)⟩
    · intro r a r' hr ⟨hlasting, honTime⟩ hok hs
      have hreach : Reach (step env) (fun _ _ => True) (init topology) r.state :=
        hr.forget fun _ _ _ => trivial
      have hI := integrity_run hreach
      exact ⟨lasting_step hlasting hs, Sweeping.onTime_step honTime
        (stalls_paced hI hlasting honTime hok hs)⟩
  exact hinv.2.late (S := stalls env) (i := id) hid

end Stalls

/-- The job of a dead worker waits for the pass after the last heartbeat has expired. -/
theorem stalled_found_in_time_dead : ∃ r : Recorded (Config Unit) Touches,
    r.state.clock = 20000 ∧ "a" ∈ r.state.store.lists (.processingList "main_queue") ∧
      r.state.clock ≤ r.history.touchedAt "a" + 15000 + 10000 := by
  obtain ⟨r, hr, hclock, hid⟩ :=
    exists_reach_of_run (recording (step mainQueue) noteTouch)
      (fun r a => InTime 10000 r.state.clock r.history.passes.swept a)
      ⟨init ⟨1, [["mail"]], 1, 1, 0⟩, .none⟩
      (fun r => r.state.clock = 20000 ∧ "a" ∈ r.state.store.lists (.processingList "main_queue"))
      (startOnce ++ [.crash (.worker 0), .tick 10000, .watch 0, .watch 0, .watch 0, .tick 10000])
      (by decide +kernel)
  exact ⟨r, hclock, hid, stalled_found_in_time hr hid⟩

end DistriSys
