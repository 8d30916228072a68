import DistriSys.Protocol.Exclusive

/-!
# The attempt count

Two components advance `attempts`: a worker whose handler rejected, which first
compares with `maxAttempts`, and the watchdog, which does not. `Ledger.Bounded`
says what the count is worth in runs in which every advance is made on the one
copy of the job and, for the watchdog, leaves an attempt to make: the stored
count is the number of advances, every start is paid for by an advance (the
first is free), and the last advance is the one that buries the job.

The other half is what the components remember between reading the count and
writing it back (`Tracks`): nobody else advances it in between.

**`attempts_bounded`** puts both together. `requeue_of_the_last_attempt` is a run
with a single crash in which the watchdog requeues a job that has no attempt
left, and the handler is called once too often.
-/

namespace DistriSys

open Js Redis Transition

variable {T : Type}

/-! ## The invariant of the life cycle -/

/-- How often the attempt count has been advanced. -/
def Ledger.advances (L : Ledger) : Nat := L.failed + L.requeued

/-- The copies of a job that may still lead to a handler call or to a status. -/
def Ledger.tokens (L : Ledger) : Nat :=
  L.announced + L.waiting + L.delayed + L.dead +
    (L.loading + L.running + L.failing + L.delaying + L.burying + L.completing)

/-- A job with `maxAttempts` `m` is started at most `m` times: every start is paid for by an
attempt counted before, and the last one is spent when the job is buried. -/
structure Ledger.Bounded (m : Nat) (L : Ledger) : Prop where
  published : L.Published
  single : L.tokens ≤ 1
  /-- Every start, and every copy that may still lead to one, has been paid for. -/
  budget : L.starts.length + L.announced + L.waiting + L.delayed + L.loading + L.delaying +
    L.burying + L.dead ≤ L.advances + 1
  /-- A job that is still going round has an attempt left. -/
  left : 1 ≤ L.announced + L.waiting + L.delayed + L.loading + L.running + L.failing + L.delaying →
    L.advances < m
  spent : 1 ≤ L.burying + L.dead → L.advances = m
  buried : m ≤ L.advances → 1 ≤ L.burying + L.dead
  stored : ∀ attempts, L.attempts = some attempts → attempts = Nat.repr L.advances
  status : 1 ≤ L.burying + L.dead → L.status = some JobStatus.dead.name

/-- Moves that advance the count on the one copy of the job, from the count that
is stored, and bury it with the last attempt. -/
def Ledger.Accounted (m : Nat) (L : Ledger) : Move → Prop
  | .die phase => phase ≠ .burying
  | .release => 1 ≤ L.delayed
  | .failDelayed attempts => attempts = Nat.repr (L.advances + 1) ∧ L.advances + 1 < m
  | .failDead attempts => attempts = Nat.repr (L.advances + 1) ∧ m ≤ L.advances + 1
  | .requeue attempts =>
    attempts = Nat.repr (L.advances + 1) ∧ L.advances + 1 < m ∧ L.tokens = 0
  | .retry => False
  | _ => True

theorem bounded_init {m : Nat} (hm : 1 ≤ m) : Ledger.Bounded m {} where
  published := published_init
  single := Nat.zero_le 1
  budget := Nat.zero_le 1
  left h := absurd h (by decide)
  spent h := absurd h (by decide)
  buried h := absurd (hm.trans h) (by decide)
  stored _ h := by cases h
  status h := absurd h (by decide)

/-- **One move**: an advance and the copy it is made for go together. -/
theorem bounded_step {m : Nat} {L L' : Ledger} {mv : Move} (hm : 1 ≤ m) (h : L.Bounded m)
    (hmv : L.Accounted m mv) (hs : L.Steps mv L') : L'.Bounded m := by
  have hpublished := published_step h.published hs
  obtain ⟨hen, rfl⟩ := hs
  obtain ⟨⟨honce, hcalled, hnowhere⟩, hsingle, hbudget, hleft, hspent, hburied, hstored, hstatus⟩ :=
    h
  simp only [Ledger.holders] at hnowhere
  simp only [Ledger.tokens] at hsingle
  simp only [Ledger.advances] at hbudget hleft hspent hburied hstored
  -- moves that leave count and record alone
  have hkeep : ∀ L' : Ledger, L'.Published → L'.failed = L.failed → L'.requeued = L.requeued →
      L'.attempts = L.attempts → L'.status = L.status → L'.tokens ≤ 1 →
      L'.starts.length + L'.announced + L'.waiting + L'.delayed + L'.loading + L'.delaying +
        L'.burying + L'.dead ≤ L.failed + L.requeued + 1 →
      (1 ≤ L'.announced + L'.waiting + L'.delayed + L'.loading + L'.running + L'.failing +
        L'.delaying → L.failed + L.requeued < m) →
      L'.burying + L'.dead = L.burying + L.dead → L'.Bounded m := by
    intro L' hp hf hr ha hst ht hb hl hd
    refine ⟨hp, ht, ?_, ?_, ?_, ?_, ?_, ?_⟩
    · rwa [Ledger.advances, hf, hr]
    · rwa [Ledger.advances, hf, hr]
    · rwa [Ledger.advances, hf, hr, hd]
    · rwa [Ledger.advances, hf, hr, hd]
    · rwa [Ledger.advances, hf, hr, ha]
    · rwa [hd, hst]
  cases mv with
  | die phase =>
    cases phase with
    | burying => exact absurd rfl hmv
    | _ =>
      refine hkeep _ hpublished rfl rfl rfl rfl ?_ ?_ ?_ ?_ <;>
        simp only [Ledger.enabled, Ledger.phase, Ledger.apply, Ledger.leave, Ledger.tokens]
          at hen ⊢ <;>
        omega
  | save =>
    -- a fresh record says zero, and nothing has happened to the job yet
    obtain ⟨hann, hunpushed⟩ := hen
    have hnot : ¬ 1 ≤ L.burying + L.dead := by omega
    refine ⟨hpublished, hsingle, hbudget, hleft, hspent, hburied, ?_, fun h => absurd h hnot⟩
    rintro attempts ⟨⟩
    have hzero : L.failed + L.requeued = 0 := by omega
    show "0" = Nat.repr (L.failed + L.requeued)
    rw [hzero]
    rfl
  | erase =>
    have hunpushed : L.pushed = 0 := hen
    have hnot : ¬ 1 ≤ L.burying + L.dead := by omega
    exact ⟨hpublished, hsingle, hbudget, hleft, hspent, hburied, by rintro _ ⟨⟩, fun h => absurd h hnot⟩
  | activate =>
    have hloading : 1 ≤ L.loading := hen
    have hnot : ¬ 1 ≤ L.burying + L.dead := by omega
    exact ⟨hpublished, hsingle, hbudget, hleft, hspent, hburied, hstored, fun h => absurd h hnot⟩
  | misfit =>
    have hloading : 1 ≤ L.loading := hen
    have hnot : ¬ 1 ≤ L.burying + L.dead := by omega
    refine ⟨hpublished, ?_, ?_, ?_, hspent, hburied, hstored, fun h => absurd h hnot⟩ <;>
      simp only [Ledger.apply, Ledger.tokens, Ledger.advances] <;> omega
  | complete =>
    have hcompleting : 1 ≤ L.completing := hen
    have hnot : ¬ 1 ≤ L.burying + L.dead := by omega
    refine ⟨hpublished, ?_, hbudget, hleft, hspent, hburied, hstored, fun h => absurd h hnot⟩
    simp only [Ledger.apply, Ledger.tokens]
    omega
  | failDelayed attempts =>
    obtain ⟨rfl, hlt⟩ := hmv
    have hfailing : 1 ≤ L.failing := hen
    have hnot : ¬ 1 ≤ L.burying + L.dead := by omega
    simp only [Ledger.advances] at hlt
    refine ⟨hpublished, ?_, ?_, ?_, fun h => absurd h hnot, ?_, ?_, fun h => absurd h hnot⟩
    case refine_5 =>
      rintro attempts ⟨⟩
      exact congrArg Nat.repr (by simp only [Ledger.apply, Ledger.advances]; omega)
    all_goals
      simp only [Ledger.apply, Ledger.tokens, Ledger.advances]
      omega
  | failDead attempts =>
    obtain ⟨rfl, hge⟩ := hmv
    have hfailing : 1 ≤ L.failing := hen
    -- before the write an attempt was left, after it none is
    have hlt := hleft (by omega)
    simp only [Ledger.advances] at hge
    refine ⟨hpublished, ?_, ?_, ?_, ?_, ?_, ?_, fun _ => rfl⟩
    case refine_6 =>
      rintro attempts ⟨⟩
      exact congrArg Nat.repr (by simp only [Ledger.apply, Ledger.advances]; omega)
    all_goals
      simp only [Ledger.apply, Ledger.tokens, Ledger.advances]
      omega
  | release =>
    have hdelayed : 1 ≤ L.delayed := hmv
    have hnot : ¬ 1 ≤ L.burying + L.dead := by omega
    refine ⟨hpublished, ?_, ?_, ?_, hspent, hburied, hstored, fun h => absurd h hnot⟩ <;>
      simp only [Ledger.apply, Ledger.tokens, Ledger.advances] <;> omega
  | requeue attempts =>
    obtain ⟨rfl, hlt, hnone⟩ := hmv
    -- no copy is left, so the one the watchdog makes is the only one
    simp only [Ledger.tokens] at hnone
    simp only [Ledger.advances] at hlt
    have hnot : ¬ 1 ≤ L.burying + L.dead := by omega
    refine ⟨hpublished, ?_, ?_, ?_, fun h => absurd h hnot, ?_, ?_, fun h => absurd h hnot⟩
    case refine_5 =>
      rintro attempts ⟨⟩
      exact congrArg Nat.repr (by simp only [Ledger.apply, Ledger.advances]; omega)
    all_goals
      simp only [Ledger.apply, Ledger.tokens, Ledger.advances]
      omega
  | retry => exact hmv.elim
  | start attempts =>
    refine hkeep _ hpublished rfl rfl rfl rfl ?_ ?_ ?_ ?_ <;>
      simp only [Ledger.enabled, Ledger.apply, Ledger.tokens, List.length_append,
        List.length_singleton] at hen ⊢ <;>
      omega
  | _ =>
    refine hkeep _ hpublished rfl rfl rfl rfl ?_ ?_ ?_ ?_ <;>
      simp only [Ledger.enabled, Ledger.apply, Ledger.tokens] at hen ⊢ <;>
      omega

/-- Three moves advance the count. -/
theorem advances_of_steps {L L' : Ledger} {mv : Move} (hs : L.Steps mv L') :
    L'.advances = L.advances ∨ L'.advances = L.advances + 1 ∧
      ((∃ attempts, mv = .failDelayed attempts) ∨ (∃ attempts, mv = .failDead attempts) ∨
        ∃ attempts, mv = .requeue attempts) := by
  obtain ⟨-, rfl⟩ := hs
  cases mv with
  | failDelayed attempts => exact .inr ⟨Nat.succ_add _ _, .inl ⟨attempts, rfl⟩⟩
  | failDead attempts => exact .inr ⟨Nat.succ_add _ _, .inr (.inl ⟨attempts, rfl⟩)⟩
  | requeue attempts => exact .inr ⟨rfl, .inr (.inr ⟨attempts, rfl⟩)⟩
  | die phase => cases phase <;> exact .inl rfl
  | _ => exact .inl rfl

/-- A pushed job of which no copy is left comes back by a requeue only. -/
theorem gone_step {L L' : Ledger} {mv : Move} {m : Nat} (h : L.Published) (hpushed : 1 ≤ L.pushed)
    (hgone : L.tokens = 0) (hmv : L.Accounted m mv) (hrequeue : ∀ attempts, mv ≠ .requeue attempts)
    (hs : L.Steps mv L') : L'.tokens = 0 ∧ L'.advances = L.advances := by
  obtain ⟨hen, rfl⟩ := hs
  obtain ⟨honce, -, -⟩ := h
  simp only [Ledger.tokens] at hgone
  cases mv with
  | requeue attempts => exact absurd rfl (hrequeue attempts)
  | retry => exact hmv.elim
  -- a worker about to write a failure is a copy
  | failDelayed attempts =>
    have hfailing : 1 ≤ L.failing := hen
    omega
  | failDead attempts =>
    have hfailing : 1 ≤ L.failing := hen
    omega
  | die phase =>
    cases phase <;> refine ⟨?_, rfl⟩ <;>
      simp only [Ledger.apply, Ledger.leave, Ledger.tokens] <;> omega
  | _ =>
    refine ⟨?_, rfl⟩
    simp only [Ledger.enabled, Ledger.Accounted, Ledger.apply, Ledger.tokens] at hen hmv ⊢
    omega

/-! ## What the components remember -/

/-- What a worker has read of the attempts of job `id`, and what it is about to
write, when the count has been advanced `n` times. -/
structure WorkerPc.Counts (id : JobId) (m n : Nat) (pc : WorkerPc T) : Prop where
  read : ∀ job, pc.job? = some (id, job) → job.attempts = .int n
  again : ∀ next delay, pc = .writeDelayed id next delay → next = .int (n + 1 : Nat) ∧ n + 1 < m
  last : ∀ next, pc = .writeDead id next → next = .int (n + 1 : Nat) ∧ m ≤ n + 1

namespace WorkerPc.Counts

variable {id : JobId} {m n : Nat} {pc : WorkerPc T}

/-- A worker without an attempts count to write. -/
theorem of_read (hread : ∀ job, pc.job? = some (id, job) → job.attempts = .int n)
    (hnext : pc.nextAttempt? = none) : pc.Counts id m n where
  read := hread
  again next delay h := by
    rw [h] at hnext
    cases hnext
  last next h := by
    rw [h] at hnext
    cases hnext

/-- A worker without a decoded job and without an attempts count to write. -/
theorem of_quiet (hjob : pc.job? = none) (hnext : pc.nextAttempt? = none) : pc.Counts id m n :=
  of_read (fun job h => by
    rw [hjob] at h
    cases h) hnext

/-- A worker that holds another job, or none. -/
theorem of_other (hid : pc.jobId? ≠ some id) : pc.Counts id m n where
  read job hjob := by
    cases pc <;> cases hjob <;> exact absurd rfl hid
  again next delay h := absurd (h ▸ rfl) hid
  last next h := absurd (h ▸ rfl) hid

end WorkerPc.Counts

/-- A worker that does not hold the job, or has counted its failure, remembers nothing. -/
theorem WorkerPc.counts_or_open (pc : WorkerPc T) (id : JobId) (m : Nat) :
    (∀ n, pc.Counts id m n) ∨ pc.custody = some (id, .loading) ∨ pc.custody = some (id, .running) ∨
      pc.custody = some (id, .failing) := by
  by_cases hid : pc.jobId? = some id
  · cases pc with
    | zaddDelayed => exact .inl fun n => .of_quiet rfl rfl
    | lpushDead => exact .inl fun n => .of_quiet rfl rfl
    | complete => exact .inl fun n => .of_quiet rfl rfl
    | cleanup => exact .inl fun n => .of_quiet rfl rfl
    | poll => cases hid
    | crashed => cases hid
    | _ =>
      cases hid
      simp [custody]
  · exact .inl fun n => .of_other hid

/-- What the components remember about the attempts of a job is current. -/
structure Tracks (env : Env T) (m : Nat) (id : JobId) (s : Config T) : Prop where
  workers : ∀ wk ∈ s.workers, wk.pc.Counts id m (ledger env s id).advances
  watchdogs : ∀ pc ∈ s.watchdogs, ∀ hash rest, pc = .requeue id hash rest →
    (ledger env s id).tokens = 0 ∧ (ledger env s id).advances + 1 < m ∧
      hash.attempts = some (Nat.repr (ledger env s id).advances)

/-- The job whose record a watchdog pass is about to read. -/
def Config.inspects (s : Config T) : Action T → Option JobId
  | .watch i =>
    match s.watchdogs[i]? with
    | some (.inspect jobId _) => some jobId
    | _ => none
  | _ => none

/-- The premises about the job's recovery: no manual retry, and the watchdog
takes it up only when no live worker holds it. -/
def RecoversDead (id : JobId) (s : Config T) (a : Action T) : Prop :=
  s.retryTransaction a ≠ some id ∧ (s.inspects a = some id → s.holders id = 0)

/-- What must go right beyond `RecoversDead`: the watchdog takes the job up only
when it is filed nowhere else and has an attempt left, no worker dies between
writing `dead` and the push on the dead list, and the scheduler's transaction
finds the job in the delayed set. -/
structure CountKept (env : Env T) (m : Nat) (id : JobId) (s : Config T) (a : Action T) : Prop where
  unfiled : s.inspects a = some id →
    s.store.waiting env.queueName id = 0 ∧ id ∉ (s.store.delayed env.queueName).members
  left : s.inspects a = some id →
    (parseIntField (s.store.jobs id).attempts).addOne.lt (.int m) = true
  buried : ∀ w ∈ a.workerDeath, ∀ wk ∈ s.workers[w]?, wk.pc.custody ≠ some (id, .burying)
  delayed : s.schedulerTransaction a = some id → id ∈ (s.store.delayed env.queueName).members

instance (id : JobId) (s : Config T) (a : Action T) : Decidable (RecoversDead id s a) :=
  inferInstanceAs (Decidable (_ ∧ _))

instance (env : Env T) (m : Nat) (id : JobId) (s : Config T) (a : Action T) :
    Decidable (CountKept env m id s a) :=
  decidable_of_iff
    ((s.inspects a = some id → s.store.waiting env.queueName id = 0 ∧
        id ∉ (s.store.delayed env.queueName).members) ∧
      (s.inspects a = some id →
        (parseIntField (s.store.jobs id).attempts).addOne.lt (.int m) = true) ∧
      (∀ w ∈ a.workerDeath, ∀ wk ∈ s.workers[w]?, wk.pc.custody ≠ some (id, .burying)) ∧
      (s.schedulerTransaction a = some id → id ∈ (s.store.delayed env.queueName).members))
    ⟨fun ⟨h₁, h₂, h₃, h₄⟩ => ⟨h₁, h₂, h₃, h₄⟩, fun ⟨h₁, h₂, h₃, h₄⟩ => ⟨h₁, h₂, h₃, h₄⟩⟩

section Steps

variable {env : Env T} {m : Nat} {s s' : Config T} {a : Action T} {id : JobId} {mv : Move}

theorem accounted_of_licensed (hT : Tracks env m id s) (hretry : s.retryTransaction a ≠ some id)
    (hok : CountKept env m id s a) (hlic : Licensed env s a id mv) :
    (ledger env s id).Accounted m mv := by
  cases mv with
  | die phase =>
    obtain ⟨w, wk, rfl, hw, hcustody⟩ := hlic
    rintro rfl
    exact hok.buried w rfl wk hw hcustody
  | release => exact List.count_pos_iff.mpr (hok.delayed hlic.schedulerTransaction)
  -- what a worker writes it has counted on from what it has read
  | failDelayed attempts =>
    obtain ⟨next, delay, ⟨w, draw, wk, -, hw, hpc⟩, rfl⟩ := hlic
    obtain ⟨rfl, hlt⟩ := (hT.workers wk (List.mem_of_getElem? hw)).again next delay hpc
    exact ⟨rfl, hlt⟩
  | failDead attempts =>
    obtain ⟨next, ⟨w, draw, wk, -, hw, hpc⟩, rfl⟩ := hlic
    obtain ⟨rfl, hge⟩ := (hT.workers wk (List.mem_of_getElem? hw)).last next hpc
    exact ⟨rfl, hge⟩
  -- so has the pass, from a record nobody has written since
  | requeue attempts =>
    obtain ⟨i, hash, rest, -, hi, rfl⟩ := hlic
    obtain ⟨hgone, hlt, hhash⟩ := hT.watchdogs _ (List.mem_of_getElem? hi) hash rest rfl
    refine ⟨?_, hlt, hgone⟩
    rw [requeueAttempts, hhash, parseIntField_repr]
    rfl
  | retry => exact hretry hlic.retryTransaction
  | _ => trivial

/-- The record of a pushed job carries the count. -/
theorem stored_attempts (hI : Integrity env s) (hB : (ledger env s id).Bounded m)
    (hpushed : .pushed id ∈ s.log) :
    (s.store.jobs id).attempts = some (Nat.repr (ledger env s id).advances) := by
  obtain ⟨c, -, -, hd⟩ := hI.describes hpushed
  obtain ⟨n, hn⟩ := hd.attempts
  rw [hn, hB.stored _ hn]

/-- Who advances the count: a worker that writes its failure, or the watchdog. -/
theorem advances_step (hlic : Licensed env s a id mv)
    (hL : (ledger env s id).Steps mv (ledger env s' id)) :
    (ledger env s' id).advances = (ledger env s id).advances ∨
      (∃ w draw wk, a = .work w draw ∧ s.workers[w]? = some wk ∧
        wk.pc.custody = some (id, .failing) ∧ wk.pc.nextAttempt? ≠ none) ∨
      ∃ i attempts, a = .watch i ∧ mv = .requeue attempts := by
  rcases advances_of_steps hL with hsame | ⟨-, ⟨attempts, rfl⟩ | ⟨attempts, rfl⟩ | ⟨attempts, rfl⟩⟩
  · exact .inl hsame
  · obtain ⟨next, delay, ⟨w, draw, ⟨handlers, pc⟩, rfl, hw, rfl⟩, -⟩ := hlic
    exact .inr (.inl ⟨w, draw, _, rfl, hw, rfl, by rintro ⟨⟩⟩)
  · obtain ⟨next, ⟨w, draw, ⟨handlers, pc⟩, rfl, hw, rfl⟩, -⟩ := hlic
    exact .inr (.inl ⟨w, draw, _, rfl, hw, rfl, by rintro ⟨⟩⟩)
  · obtain ⟨i, hash, rest, rfl, -, -⟩ := hlic
    exact .inr (.inr ⟨i, attempts, rfl, rfl⟩)

/-- A worker's command keeps what it remembers current, if the count does not move. -/
theorem workerStep_counts {now w draw n : Nat} {handlers : List String} {st : Store}
    {pc : WorkerPc T} {e : Effect (WorkerPc T)} (hpc : pc.Counts id m n)
    (hstored : pc = .fetch id → (st.jobs id).attempts = some (Nat.repr n))
    (hmax : ∀ job, pc.job? = some (id, job) → job.maxAttempts = .int m)
    (he : workerStep env now w draw handlers st pc = some e) : e.pc.Counts id m n := by
  cases pc with
  | poll p =>
    simp only [workerStep] at he
    split at he <;> cases he <;> exact .of_quiet rfl rfl
  | fetch jobId =>
    simp only [workerStep] at he
    split at he
    · cases he
      exact .of_quiet rfl rfl
    · split at he
      · cases he
        exact .of_quiet rfl rfl
      · next job hjob =>
        cases he
        refine .of_read ?_ rfl
        rintro _ ⟨⟩
        obtain ⟨-, -, -, hattempts, -⟩ := deserializeJob_eq_ok hjob
        rw [hattempts, hstored rfl, parseIntField_repr]
  | markActive jobId job =>
    cases he
    dsimp only
    split
    · exact .of_read hpc.read rfl
    · exact .of_quiet rfl rfl
  | register jobId job startedAt =>
    cases he
    exact .of_read hpc.read rfl
  | beat jobId job =>
    cases he
    exact .of_read hpc.read rfl
  | countFailure jobId job =>
    cases he
    by_cases hid : jobId = id
    · subst hid
      -- the comparison with `maxAttempts`
      have hnext : job.attempts.addOne = .int (n + 1 : Nat) := by
        rw [hpc.read job rfl]
        rfl
      have hlt : job.attempts.addOne.lt job.maxAttempts = decide (n + 1 < m) := by
        rw [hnext, hmax job rfl, JsNumber.lt_int]
        exact decide_eq_decide.mpr Int.ofNat_lt
      dsimp only [retryOrBury]
      split
      · next h =>
        refine ⟨by rintro _ ⟨⟩, ?_, by rintro _ ⟨⟩⟩
        rintro _ _ ⟨⟩
        exact ⟨hnext, of_decide_eq_true (hlt ▸ h)⟩
      · next h =>
        refine ⟨by rintro _ ⟨⟩, by rintro _ _ ⟨⟩, ?_⟩
        rintro _ ⟨⟩
        exact ⟨hnext, Nat.not_lt.mp fun hn => h (hlt ▸ decide_eq_true hn)⟩
    · dsimp only [retryOrBury]
      split <;> exact .of_other fun h => hid (Option.some.inj h)
  | running => cases he
  | crashed => cases he
  | _ =>
    cases he
    exact .of_quiet rfl rfl

theorem settleStep_counts {now n : Nat} {outcome : HandlerOutcome} {pc pc' : WorkerPc T}
    {events : List Event} (hpc : pc.Counts id m n)
    (he : settleStep now outcome pc = some (pc', events)) : pc'.Counts id m n := by
  cases pc with
  | running jobId job startTime =>
    cases outcome with
    | resolve =>
      cases he
      exact .of_quiet rfl rfl
    | reject =>
      cases he
      exact .of_read hpc.read rfl
  | _ => cases he

/-- **Workers**: whoever advances the count is alone with the job. -/
theorem tracks_workers_step (hI : Integrity env s) (hB : (ledger env s id).Bounded m)
    (hT : Tracks env m id s) (hmax : ∀ c ∈ s.calls, c.id = id → c.request.maxAttempts = .int m)
    (hlic : Licensed env s a id mv) (hacc : (ledger env s id).Accounted m mv)
    (hL : (ledger env s id).Steps mv (ledger env s' id)) (hs : step env s a = some s') :
    ∀ wk ∈ s'.workers, wk.pc.Counts id m (ledger env s' id).advances := by
  intro wk' hwk'
  have hsingle := hB.single
  simp only [Ledger.tokens] at hsingle
  rcases wk'.pc.counts_or_open id m with hall | hopen
  · exact hall _
  -- a worker that still has the count before it: who has moved?
  rcases workerMoved_of_mem hs hwk' with hother | hdied | ⟨rfl, hw, hpc⟩ | ⟨rfl, hw, he, hpc⟩ |
    ⟨rfl, hw, he, hpc⟩
  · have hmem := Config.mem_workers_of_mem_others hother
    rcases advances_step hlic hL with hsame | ⟨w, draw, wk, rfl, hw, hcustody, -⟩ | ⟨i, attempts, -, rfl⟩
    · rw [hsame]
      exact hT.workers wk' hmem
    · -- two workers would hold the job
      have htwo : 2 ≤ (ledger env s id).loading + (ledger env s id).running +
          (ledger env s id).failing := by
        rcases hopen with h | h | h <;>
          · have := held_two hw hcustody hother h
            simp only [reduceCtorEq, ↓reduceIte] at this
            simp only [ledger]
            omega
      omega
    · -- the watchdog takes up a job nobody holds
      have hnone := hacc.2.2
      simp only [Ledger.tokens] at hnone
      obtain ⟨w, hw⟩ := List.mem_iff_getElem?.mp hmem
      have hpos : 1 ≤ (ledger env s id).loading + (ledger env s id).running +
          (ledger env s id).failing := by
        rcases hopen with h | h | h <;>
          · have := held_pos hw h
            simp only [ledger]
            omega
      omega
  · rw [hdied] at hopen
    rcases hopen with h | h | h <;> cases h
  · rcases advances_step hlic hL with hsame | ⟨_, _, _, ⟨⟩, -⟩ | ⟨_, _, ⟨⟩, -⟩
    rw [hsame, hpc]
    exact hT.workers _ (List.mem_of_getElem? hw)
  · next w draw wk e =>
    have hmem := List.mem_of_getElem? hw
    rcases advances_step hlic hL with hsame | ⟨_, _, wk₂, ⟨⟩, hw₂, -, hnext⟩ | ⟨_, _, ⟨⟩, -⟩
    · rw [hsame, hpc]
      refine workerStep_counts (hT.workers wk hmem) (fun hfetch => ?_) (fun job hjob => ?_) he
      · exact stored_attempts hI hB ((hI.workers wk hmem).pushed id (hfetch ▸ rfl))
      · obtain ⟨c, hc, hcid, hd⟩ := (hI.workers wk hmem).decoded id job hjob
        rw [hd.maxAttempts, hmax c hc hcid, JsNumber.toString_natCast, parseInt_repr]
    · -- the worker that has just written its failure has filed the job
      obtain rfl := Option.some.inj (hw.symm.trans hw₂)
      rw [hpc] at hopen
      obtain ⟨handlers, pc⟩ := wk
      cases pc with
      | writeDelayed =>
        cases he
        rcases hopen with h | h | h <;> cases h
      | writeDead =>
        cases he
        rcases hopen with h | h | h <;> cases h
      | _ => exact absurd rfl hnext
  · rcases advances_step hlic hL with hsame | ⟨_, _, _, ⟨⟩, -⟩ | ⟨_, _, ⟨⟩, -⟩
    rw [hsame, hpc]
    exact settleStep_counts (hT.workers _ (List.mem_of_getElem? hw)) he

/-- The head of the watchdog's loop is never its transaction. -/
theorem WatchdogPc.next_ne_requeue {jobIds : List JobId} {j : JobId} {hash : JobHash}
    {rest : List JobId} : WatchdogPc.next jobIds ≠ .requeue j hash rest := by
  cases jobIds <;> rintro ⟨⟩

/-- **The watchdog**: from its read of a job of which no copy is left to its
transaction, nobody touches the job. -/
theorem tracks_watchdogs_step (hI : Integrity env s) (hB : (ledger env s id).Bounded m)
    (hT : Tracks env m id s) (hone : s.watchdogs.length ≤ 1) (hrecovers : RecoversDead id s a)
    (hok : CountKept env m id s a) (hlic : Licensed env s a id mv)
    (hacc : (ledger env s id).Accounted m mv)
    (hL : (ledger env s id).Steps mv (ledger env s' id)) (hs : step env s a = some s') :
    ∀ pc ∈ s'.watchdogs, ∀ hash rest, pc = .requeue id hash rest →
      (ledger env s' id).tokens = 0 ∧ (ledger env s' id).advances + 1 < m ∧
        hash.attempts = some (Nat.repr (ledger env s' id).advances) := by
  rintro pc' hpc' hash rest rfl
  rcases mem_watchdogs_step hs hpc' with hother | hidle | ⟨i, pc, rfl, hi, hpc⟩
  · have hmem := Config.mem_watchdogs_of_mem_others hother
    have hpushed : 1 ≤ (ledger env s id).pushed :=
      List.count_pos_iff.mpr ((hI.watchdogs _ hmem).pushed id List.mem_cons_self)
    -- the pass that requeues is the only one there is
    have hrequeue : ∀ attempts, mv ≠ .requeue attempts := by
      rintro attempts rfl
      obtain ⟨i, _, _, rfl, hi, -⟩ := hlic
      have hlt := (List.getElem?_eq_some_iff.mp hi).1
      have hnil : s.otherWatchdogs (.watch i) = [] := List.eq_nil_of_length_eq_zero (by
        rw [Config.otherWatchdogs, List.length_eraseIdx_of_lt hlt]
        omega)
      rw [hnil] at hother
      cases hother
    obtain ⟨hgone, hlt, hhash⟩ := hT.watchdogs _ hmem hash rest rfl
    obtain ⟨hgone', hsame⟩ := gone_step hB.published hpushed hgone hacc hrequeue hL
    rw [hsame]
    exact ⟨hgone', hlt, hhash⟩
  · cases hidle
  · -- the record in hand is the one just read
    have hinspect : pc = .inspect id rest ∧ hash = s.store.jobs id := by
      cases pc with
      | idle => cases hpc
      | readProcessing activeIds =>
        simp only [watchdogStep] at hpc
        split at hpc <;> cases hpc
      | readHeartbeats jobIds => exact absurd hpc.symm WatchdogPc.next_ne_requeue
      | inspect jobId rest' =>
        cases hpc
        exact ⟨rfl, rfl⟩
      | requeue jobId jobHash rest' => exact absurd hpc.symm WatchdogPc.next_ne_requeue
    obtain ⟨rfl, rfl⟩ := hinspect
    have hsame : ledger env s' id = ledger env s id := by
      cases stepped hs with
      | watch hi' =>
        obtain rfl := Option.some.inj (hi.symm.trans hi')
        simp [watchdogStep, ledger]
    have hinspects : s.inspects (.watch i) = some id := by simp [Config.inspects, hi]
    have hpushed : .pushed id ∈ s.log :=
      (hI.watchdogs _ (List.mem_of_getElem? hi)).pushed id List.mem_cons_self
    -- the stored count is current, and the guard has compared it
    have hstored := stored_attempts hI hB hpushed
    have hlt : (ledger env s id).advances + 1 < m := by
      have h := hok.left hinspects
      rw [hstored, parseIntField_repr, JsNumber.addOne_int, JsNumber.lt_int] at h
      have := of_decide_eq_true h
      omega
    obtain ⟨hwaiting, hdelayed⟩ := hok.unfiled hinspects
    have hholders := (ledger_holders env s id).trans (hrecovers.2 hinspects)
    rw [hsame]
    refine ⟨?_, hlt, hstored⟩
    have hpushed : 1 ≤ (ledger env s id).pushed := List.count_pos_iff.mpr hpushed
    have hwaiting : (ledger env s id).waiting = 0 := hwaiting
    have hdelayed : (ledger env s id).delayed = 0 := List.count_eq_zero.mpr hdelayed
    obtain ⟨⟨honce, hcalled, -⟩, -, -, -, hspent, -, -, -⟩ := hB
    simp only [Ledger.holders] at hholders
    simp only [Ledger.tokens]
    omega

end Steps

/-! ## Runs -/

section Runs

variable {env : Env T} {topology : Topology} {m : Nat} {s s' : Config T} {a : Action T} {id : JobId}

theorem tracks_init (env : Env T) (topology : Topology) : Tracks env m id (init topology) where
  workers wk hwk := by
    obtain ⟨handlers, -, rfl⟩ := List.mem_map.mp hwk
    exact .of_quiet rfl rfl
  watchdogs pc hpc hash rest heq := by
    obtain rfl := List.eq_of_mem_replicate hpc
    cases heq

/-- The account of the job and the memory of the components go together. -/
theorem bounded_run {ok : Config T → Action T → Prop} (hm : 1 ≤ m) (hsole : topology.watchdogs ≤ 1)
    (hok : ∀ s a, Reach (step env) ok (init topology) s → ok s a →
      RecoversDead id s a ∧ CountKept env m id s a)
    (h : Reach (step env) ok (init topology) s)
    (hmax : ∀ c ∈ s.calls, c.id = id → c.request.maxAttempts = .int m) :
    (ledger env s id).Bounded m ∧ Tracks env m id s := by
  refine h.invariant' (I := fun s => (∀ c ∈ s.calls, c.id = id → c.request.maxAttempts = .int m) →
    (ledger env s id).Bounded m ∧ Tracks env m id s) ?_ ?_ hmax
  · intro _
    rw [ledger_init]
    exact ⟨bounded_init hm, tracks_init env topology⟩
  · intro s a s' hr ih ha hs hmax
    have hmax : ∀ c ∈ s.calls, c.id = id → c.request.maxAttempts = .int m :=
      fun c hc => hmax c ((calls_step hs).subset hc)
    obtain ⟨hB, hT⟩ := ih hmax
    obtain ⟨hrecovers, hkept⟩ := hok s a hr ha
    have hI := integrity_run hr
    -- the step as a move of this job
    obtain ⟨mv, hlic, hL⟩ := step_refines hI hs id
    have hacc := accounted_of_licensed hT hrecovers.1 hkept hlic
    have hone : s.watchdogs.length ≤ 1 := (components_run hr).2.1.symm ▸ hsole
    exact ⟨bounded_step hm hB hacc hL, tracks_workers_step hI hB hT hmax hlic hacc hL hs,
      tracks_watchdogs_step hI hB hT hone hrecovers hkept hlic hacc hL hs⟩

/-- The bounds, read off the account. -/
theorem Ledger.Bounded.bounds {L : Ledger} (h : L.Bounded m) :
    L.starts.length ≤ m ∧ L.advances ≤ m ∧ (L.advances = m → L.holders = 0 → 1 ≤ L.dead) := by
  obtain ⟨-, -, hbudget, -, hspent, hburied, -, -⟩ := h
  refine ⟨?_, ?_, fun hlast hholders => ?_⟩
  · omega
  · omega
  · simp only [Ledger.holders] at hholders
    omega

/-- **Attempts are bounded.** In every run without manual retry and with one
watchdog, in which it takes a job up only when no live worker holds it, when it
is filed nowhere else and has an attempt left, and in which no worker dies with
its dead-list push outstanding: the handler is called at most `maxAttempts`
times, the stored count never exceeds it, and a job that has reached it and that
nobody holds is on the dead list. -/
theorem attempts_bounded
    (h : Reach (step env) (fun s a => RecoversDead id s a ∧ CountKept env m id s a)
      (init topology) s) (hm : 1 ≤ m) (hsole : topology.watchdogs ≤ 1)
    (hmax : ∀ c ∈ s.calls, c.id = id → c.request.maxAttempts = .int m) :
    (starts s.log id).length ≤ m ∧
      (∀ text, (s.store.jobs id).attempts = some text → ∃ n ≤ m, text = Nat.repr n) ∧
      ((s.store.jobs id).attempts = some (Nat.repr m) → s.holders id = 0 →
        id ∈ s.store.lists (.deadList env.queueName) ∧
          (s.store.jobs id).status = some JobStatus.dead.name) := by
  obtain ⟨hB, -⟩ := bounded_run hm hsole (fun _ _ _ hok => hok) h hmax
  obtain ⟨hstarts, hadvances, hlast⟩ := hB.bounds
  refine ⟨hstarts, fun text htext => ⟨_, hadvances, hB.stored text htext⟩, fun htext hholders => ?_⟩
  have hreached : m = (ledger env s id).advances := by
    have h := congrArg parseInt (hB.stored _ htext)
    rw [parseInt_repr, parseInt_repr] at h
    exact Int.ofNat.inj (JsNumber.int.inj h)
  have hdead := hlast hreached.symm ((ledger_holders env s id).trans hholders)
  exact ⟨List.count_pos_iff.mp hdead, hB.status (by omega)⟩

end Runs

/-- The death of a worker in its handler, a watchdog pass after the heartbeat has
run out, and the next dispatch on another worker. -/
def recoverOnce : List (Action Unit) :=
  [.work 0 0, .work 0 0, .work 0 0, .work 0 0, .work 0 0, .work 0 0, .crash (.worker 0), .tick 15001,
    .watch 0, .watch 0, .watch 0, .watch 0, .watch 0,
    .work 1 0, .work 1 0, .work 1 0, .work 1 0, .work 1 0, .work 1 0]

/-- The first of three attempts is lost with its worker. -/
theorem attempts_bounded_first_lost :
    ∃ s : Config Unit, (starts s.log "a").length = 2 ∧ (starts s.log "a").length ≤ 3 := by
  obtain ⟨s, hs, hmax, htwo⟩ :=
    exists_reach_of_run (step mainQueue)
      (fun s a => RecoversDead "a" s a ∧ CountKept mainQueue 3 "a" s a)
      (init ⟨1, [["mail"], ["mail"]], 0, 1, 0⟩)
      (fun s => (∀ c ∈ s.calls, c.id = "a" → c.request.maxAttempts = .int (3 : Nat)) ∧
        (starts s.log "a").length = 2)
      ([.enqueue 0 "a" (.core "mail" () .absent none), .produce 0, .produce 0] ++ recoverOnce)
      (by decide +kernel)
  exact ⟨s, htwo, (attempts_bounded hs (by decide) (Nat.le_refl 1) hmax).1⟩

/-- **The watchdog does not look at `maxAttempts`.** The only attempt of a job is
lost with its worker; the job is requeued all the same, and the handler is called
a second time. -/
theorem requeue_of_the_last_attempt :
    ¬ ∀ s : Config Unit, Reach (step mainQueue) (RecoversDead "a")
        (init ⟨1, [["mail"], ["mail"]], 0, 1, 0⟩) s →
      (∀ c ∈ s.calls, c.id = "a" → c.request.maxAttempts = .int (1 : Nat)) →
        (starts s.log "a").length ≤ 1 := by
  intro h
  obtain ⟨s, hs, hmax, htwo⟩ :=
    exists_reach_of_run (step mainQueue) (RecoversDead "a")
      (init ⟨1, [["mail"], ["mail"]], 0, 1, 0⟩)
      (fun s => (∀ c ∈ s.calls, c.id = "a" → c.request.maxAttempts = .int (1 : Nat)) ∧
        (starts s.log "a").length = 2)
      ([.enqueue 0 "a" (.core "mail" () (.options none (some 1) none) none), .produce 0,
        .produce 0] ++ recoverOnce)
      (by decide +kernel)
  have := h s hs hmax
  omega

end DistriSys
