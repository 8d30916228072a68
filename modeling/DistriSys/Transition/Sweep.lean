import Mathlib.Logic.Function.Basic
import Mathlib.Tactic.Common

/-!
# Periodic sweeps

A cleaner keeps an eye on items that fall due. Its sweeps run one after the other or side
by side; a sweep looks around when it begins and then takes, one by one, what was due at
that moment. Items come and go meanwhile.

- `Sweeping`: what has to be known of a system with such a cleaner; `Passes` is the record
  it keeps of its sweeps;
- `Paced`: what one step may do. The step in which a sweep ends must leave nothing that
  the sweep was to take, and time must not pass the moment by which the next sweep is to
  have ended (`period` after the last complete one began); `paced_of_still` and
  `paced_of_move` are the two kinds of steps there are;
- `OnTime` is the invariant, `onTime_step` the step lemma;
- **`OnTime.late`**: no item outlives the moment it falls due by more than `period`.
-/

namespace DistriSys.Transition

universe u v w

/-! ## The record of the sweeps -/

/-- When each sweep began, and when the last complete one did. -/
structure Passes (κ : Type w) where
  began : κ → Nat
  swept : Nat

namespace Passes

variable {κ : Type w} [DecidableEq κ] {p : Passes κ} {now : Nat} {i k : κ} {first last : Bool}

/-- Sweep `i` makes a move, which may be its first or its last. -/
def note (p : Passes κ) (now : Nat) (i : κ) (first last : Bool) : Passes κ :=
  let began := if first then Function.update p.began i now else p.began
  ⟨began, if last then max p.swept (began i) else p.swept⟩

theorem swept_le_note : p.swept ≤ (p.note now i first last).swept := by
  unfold note
  cases last
  · exact Nat.le_refl _
  · exact Nat.le_max_left _ _

theorem began_note_of_ne (h : k ≠ i) : (p.note now i first last).began k = p.began k := by
  unfold note
  cases first <;> simp [h]

@[simp] theorem began_note_first : (p.note now i true last).began i = now := by
  simp [note]

@[simp] theorem began_note_later : (p.note now i false last).began = p.began := rfl

end Passes

/-! ## Systems with a cleaner -/

/-- A system whose sweeps take items that are due. -/
structure Sweeping (σ : Type u) (ι : Type v) (κ : Type w) where
  clock : σ → Nat
  /-- The item is there. -/
  present : σ → ι → Prop
  /-- The last moment at which the item is not due. -/
  due : σ → ι → Nat
  /-- The sweep is under way. -/
  underway : σ → κ → Prop
  /-- The sweep is still to take the item. -/
  takes : σ → κ → ι → Prop
  passes : σ → Passes κ

namespace Sweeping

variable {σ : Type u} {ι : Type v} {κ : Type w} (S : Sweeping σ ι κ) {s s' : σ} {period : Nat}

/-- In the step the sweep `k` goes on, or begins; what was due when it began and is still
there meets `Q`. -/
def Goes (s s' : σ) (k : κ) (Q : ι → Prop) : Prop :=
  (S.underway s k ∧ (S.passes s').began k = (S.passes s).began k ∧
    ∀ i, S.takes s k i → S.present s' i → S.due s' i < (S.passes s').began k → Q i) ∨
  ((S.passes s').began k = S.clock s ∧
    ∀ i, S.present s' i → S.due s' i < (S.passes s').began k → Q i)

/-- A step of the system. -/
structure Paced (period : Nat) (s s' : σ) : Prop where
  clock : S.clock s ≤ S.clock s'
  punctual : S.clock s' ≤ (S.passes s').swept + period
  /-- An item that was not there before is not due, one that was does not fall due earlier. -/
  items : ∀ i, S.present s' i → S.clock s ≤ S.due s' i ∨ S.present s i ∧ S.due s i ≤ S.due s' i
  sweeps : ∀ k, S.underway s' k → S.Goes s s' k (S.takes s' k)
  /-- A sweep that ends has nothing left to take. -/
  swept : (S.passes s').swept = (S.passes s).swept ∨
    ∃ k, (S.passes s').swept = max (S.passes s).swept ((S.passes s').began k) ∧
      S.Goes s s' k fun _ => False

/-- Nothing was due when the last complete sweep began; what was due when another sweep
began is still to be taken by it. -/
structure OnTime (period : Nat) (s : σ) : Prop where
  punctual : S.clock s ≤ (S.passes s).swept + period
  past : (S.passes s).swept ≤ S.clock s
  begun : ∀ k, S.underway s k → (S.passes s).began k ≤ S.clock s
  clear : ∀ i, S.present s i → (S.passes s).swept ≤ S.due s i
  pending : ∀ k, S.underway s k → ∀ i, S.present s i → S.due s i < (S.passes s).began k →
    S.takes s k i

variable {S}

/-! ## Steps -/

theorem Goes.imp {k : κ} {Q Q' : ι → Prop} (h : S.Goes s s' k Q) (hQ : ∀ i, Q i → Q' i) :
    S.Goes s s' k Q' := by
  rcases h with ⟨hunderway, hbegan, h⟩ | ⟨hbegan, h⟩
  · exact .inl ⟨hunderway, hbegan, fun i htakes hpresent hdue => hQ i (h i htakes hpresent hdue)⟩
  · exact .inr ⟨hbegan, fun i hpresent hdue => hQ i (h i hpresent hdue)⟩

/-- A step in which no sweep makes a move; some may be lost. -/
theorem paced_of_still (hclock : S.clock s ≤ S.clock s')
    (hpunctual : S.clock s' ≤ (S.passes s').swept + period)
    (hitems : ∀ i, S.present s' i →
      S.clock s ≤ S.due s' i ∨ S.present s i ∧ S.due s i ≤ S.due s' i)
    (hpasses : S.passes s' = S.passes s)
    (hstill : ∀ k, S.underway s' k → S.underway s k ∧ ∀ i, S.takes s k i → S.takes s' k i) :
    S.Paced period s s' where
  clock := hclock
  punctual := hpunctual
  items := hitems
  sweeps k hk := .inl ⟨(hstill k hk).1, hpasses ▸ rfl, fun i htakes _ _ => (hstill k hk).2 i htakes⟩
  swept := .inl (hpasses ▸ rfl)

/-- A step in which the sweep `k` makes a move. -/
theorem paced_of_move [DecidableEq κ] {k : κ} {first last : Bool} {Q : ι → Prop}
    (hclock : S.clock s ≤ S.clock s') (hpunctual : S.clock s' ≤ (S.passes s').swept + period)
    (hitems : ∀ i, S.present s' i →
      S.clock s ≤ S.due s' i ∨ S.present s i ∧ S.due s i ≤ S.due s' i)
    (hpasses : S.passes s' = (S.passes s).note (S.clock s) k first last)
    (hstill : ∀ j, j ≠ k → S.underway s' j →
      S.underway s j ∧ ∀ i, S.takes s j i → S.takes s' j i)
    (hgoes : S.Goes s s' k Q) (htakes : S.underway s' k → ∀ i, Q i → S.takes s' k i)
    (hlast : last = true → ∀ i, ¬ Q i) : S.Paced period s s' where
  clock := hclock
  punctual := hpunctual
  items := hitems
  sweeps j hj := by
    by_cases hjk : j = k
    · subst hjk
      exact hgoes.imp (htakes hj)
    · refine .inl ⟨(hstill j hjk hj).1, ?_, fun i h _ _ => (hstill j hjk hj).2 i h⟩
      rw [hpasses]
      exact Passes.began_note_of_ne hjk
  swept := by
    cases last with
    | false => exact .inl (hpasses ▸ rfl)
    | true => exact .inr ⟨k, hpasses ▸ rfl, hgoes.imp (hlast rfl)⟩

/-! ## The invariant -/

/-- What a sweep has begun with, it accounts for. -/
theorem OnTime.goes {k : κ} {Q : ι → Prop} (h : S.OnTime period s) (hstep : S.Paced period s s')
    (hgoes : S.Goes s s' k Q) :
    (S.passes s').began k ≤ S.clock s ∧
      ∀ i, S.present s' i → S.due s' i < (S.passes s').began k → Q i := by
  rcases hgoes with ⟨hunderway, hbegan, hQ⟩ | ⟨hbegan, hQ⟩
  · have hbegun := h.begun k hunderway
    refine ⟨by omega, fun i hpresent hdue => hQ i ?_ hpresent hdue⟩
    rcases hstep.items i hpresent with hfresh | ⟨hold, hle⟩
    · omega
    · exact h.pending k hunderway i hold (by omega)
  · exact ⟨by omega, hQ⟩

/-- **One step.** -/
theorem onTime_step (h : S.OnTime period s) (hstep : S.Paced period s s') : S.OnTime period s' := by
  have hclock := hstep.clock
  have hpast := h.past
  -- an item that is there was not due at the last complete sweep before the step
  have hclear : ∀ i, S.present s' i → (S.passes s).swept ≤ S.due s' i := by
    intro i hpresent
    rcases hstep.items i hpresent with hfresh | ⟨hold, hle⟩
    · omega
    · exact Nat.le_trans (h.clear i hold) hle
  refine ⟨hstep.punctual, ?_, fun k hk => ?_, fun i hpresent => ?_, fun k hk => ?_⟩
  · rcases hstep.swept with hsame | ⟨k, hmax, hgoes⟩
    · omega
    · have := (h.goes hstep hgoes).1
      omega
  · exact Nat.le_trans (h.goes hstep (hstep.sweeps k hk)).1 hclock
  · rcases hstep.swept with hsame | ⟨k, hmax, hgoes⟩
    · exact hsame ▸ hclear i hpresent
    · rw [hmax]
      refine Nat.max_le.mpr ⟨hclear i hpresent, Nat.le_of_not_lt fun hlt => ?_⟩
      exact (h.goes hstep hgoes).2 i hpresent hlt
  · exact (h.goes hstep (hstep.sweeps k hk)).2

/-- **No item is late by more than a period.** -/
theorem OnTime.late {i : ι} (h : S.OnTime period s) (hpresent : S.present s i) :
    S.clock s ≤ S.due s i + period := by
  have := h.clear i hpresent
  have := h.punctual
  omega

end Sweeping

end DistriSys.Transition
