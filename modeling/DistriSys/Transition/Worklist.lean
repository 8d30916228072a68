import Mathlib.Data.List.Dedup
import Mathlib.Order.Basic

/-!
# Passes over a worklist

A pass reads a worklist off the state and deals with its entries one by one. It may be cut
off at any entry; what it has not dealt with is on the worklist of the next pass, and more
may have fallen due by then.

- `Worklist`: dealing with an entry takes it off the worklists of all times, and changes
  nothing else about them;
- `CutOff`: some passes, each of them cut off somewhere;
- **`Worklist.made_up`**: a pass that is not cut off makes up for those before it that were.
  All together have dealt with every entry once. **`Worklist.made_up_in_order`**: if the
  worklists keep their order over time, they have done what this last pass would have done
  alone.
-/

namespace DistriSys.Transition

universe u v w

variable {σ : Type u} {ι : Type v} {τ : Type w} [Preorder τ]

/-- What is on the worklists, and what dealing with an entry does to them. -/
structure Worklist [DecidableEq ι] (I : σ → Prop) (todo : τ → σ → List ι) (act : σ → ι → σ) : Prop where
  nodup : ∀ t s, (todo t s).Nodup
  /-- What is due stays due. -/
  mono : ∀ {t t' s i}, t ≤ t' → i ∈ todo t s → i ∈ todo t' s
  keeps : ∀ {t s i}, I s → i ∈ todo t s → I (act s i)
  act : ∀ {t s i}, I s → i ∈ todo t s → ∀ t', todo t' (act s i) = (todo t' s).filter (· ≠ i)

/-- Passes up to a time, each cut off somewhere: from a state, having dealt with some
entries in this order, to a state. -/
inductive CutOff (todo : τ → σ → List ι) (act : σ → ι → σ) (now : τ) : σ → List ι → σ → Prop where
  | none (s : σ) : CutOff todo act now s [] s
  | pass {t : τ} {s s' : σ} {dealt rest : List ι} (ht : t ≤ now) (hdealt : dealt <+: todo t s)
      (h : CutOff todo act now (dealt.foldl act s) rest s') :
      CutOff todo act now s (dealt ++ rest) s'

/-- Passes one after the other, if what each of them does is to deal with entries from the front
of its worklist. -/
theorem CutOff.of_passes {π : Type*} {todo : τ → σ → List ι} {act : σ → ι → σ} {now : τ}
    {time : π → τ} {run : σ → π → σ}
    (hrun : ∀ s p, ∃ dealt, dealt <+: todo (time p) s ∧ run s p = dealt.foldl act s)
    (passes : List π) (h : ∀ p ∈ passes, time p ≤ now) (s : σ) :
    ∃ dealt, CutOff todo act now s dealt (passes.foldl run s) := by
  induction passes generalizing s with
  | nil => exact ⟨[], .none s⟩
  | cons p rest ih =>
    obtain ⟨dealt, hdealt, hs⟩ := hrun s p
    obtain ⟨more, hrest⟩ := ih (fun p hp => h p (List.mem_cons_of_mem _ hp)) (run s p)
    exact ⟨dealt ++ more, .pass (h p List.mem_cons_self) hdealt (hs ▸ hrest)⟩

section

variable [DecidableEq ι] {I : σ → Prop} {todo : τ → σ → List ι} {act : σ → ι → σ} {now t : τ} {s s' : σ}
  {dealt : List ι}

/-- After some entries of a worklist. -/
theorem Worklist.foldl (h : Worklist I todo act) (hs : I s) (hnodup : dealt.Nodup)
    (hdealt : ∀ i ∈ dealt, i ∈ todo t s) :
    I (dealt.foldl act s) ∧
      ∀ t', todo t' (dealt.foldl act s) = (todo t' s).filter (· ∉ dealt) := by
  induction dealt generalizing s with
  | nil => exact ⟨hs, fun t' => by simp⟩
  | cons i rest ih =>
    obtain ⟨hi, hnodup⟩ := List.nodup_cons.mp hnodup
    have hhead := hdealt i List.mem_cons_self
    have hact := h.act hs hhead
    obtain ⟨hkept, htodo⟩ := ih (s := act s i) (h.keeps hs hhead) hnodup fun j hj => by
      rw [hact, List.mem_filter]
      exact ⟨hdealt j (List.mem_cons_of_mem _ hj),
        decide_eq_true fun heq => hi (heq ▸ hj)⟩
    refine ⟨hkept, fun t' => ?_⟩
    rw [List.foldl_cons, htodo, hact, List.filter_filter]
    refine List.filter_congr fun j _ => ?_
    by_cases hji : j = i <;> simp [hji]

/-- What passes that are cut off have dealt with, and what they have left. -/
theorem Worklist.cutOff (h : Worklist I todo act) (hs : I s) (hcut : CutOff todo act now s dealt s') :
    s' = dealt.foldl act s ∧ dealt.Nodup ∧ (∀ i ∈ dealt, i ∈ todo now s) ∧ I s' ∧
      todo now s' = (todo now s).filter (· ∉ dealt) := by
  induction hcut with
  | none s => exact ⟨rfl, .nil, nofun, hs, by simp⟩
  | @pass t s s' dealt rest ht hdealt _ ih =>
    have hnodup : dealt.Nodup := hdealt.sublist.nodup (h.nodup t s)
    obtain ⟨hkept, htodo⟩ := h.foldl hs hnodup fun i hi => hdealt.subset hi
    obtain ⟨rfl, hrest, hmem, hI, hleft⟩ := ih hkept
    have hrestmem : ∀ i ∈ rest, i ∈ todo now s ∧ i ∉ dealt := by
      intro i hi
      have hi := hmem i hi
      rw [htodo, List.mem_filter] at hi
      exact ⟨hi.1, of_decide_eq_true hi.2⟩
    refine ⟨(List.foldl_append ..).symm, ?_, ?_, hI, ?_⟩
    · exact List.Nodup.append hnodup hrest fun i hi hi' => (hrestmem i hi').2 hi
    · intro i hi
      rcases List.mem_append.mp hi with hi | hi
      · exact h.mono ht (hdealt.subset hi)
      · exact (hrestmem i hi).1
    · rw [hleft, htodo, List.filter_filter]
      refine List.filter_congr fun j _ => ?_
      by_cases hj : j ∈ dealt <;> simp [hj]

/-- **Cut-off passes are made up for.** -/
theorem Worklist.made_up (h : Worklist I todo act) (hs : I s)
    (hcut : CutOff todo act now s dealt s') :
    (dealt ++ todo now s').Perm (todo now s) ∧
      (todo now s').foldl act s' = (dealt ++ todo now s').foldl act s := by
  obtain ⟨rfl, hnodup, hmem, -, hleft⟩ := h.cutOff hs hcut
  refine ⟨?_, (List.foldl_append ..).symm⟩
  have hall : (dealt ++ todo now (dealt.foldl act s)).Nodup := by
    refine List.Nodup.append hnodup (h.nodup now _) fun i hi hi' => ?_
    rw [hleft, List.mem_filter] at hi'
    exact of_decide_eq_true hi'.2 hi
  refine (List.perm_ext_iff_of_nodup hall (h.nodup now s)).mpr fun i => ?_
  rw [List.mem_append, hleft, List.mem_filter]
  by_cases hi : i ∈ dealt
  · simp [hi, hmem i hi]
  · simp [hi]

/-- With worklists that keep their order, a later one goes on where the others stopped. -/
theorem Worklist.made_up_in_order (h : Worklist I todo act) (hs : I s)
    (hfront : ∀ {t t'} (s : σ), t ≤ t' → todo t s <+: todo t' s)
    (hcut : CutOff todo act now s dealt s') :
    (todo now s').foldl act s' = (todo now s).foldl act s := by
  induction hcut with
  | none s => rfl
  | @pass t s s' dealt rest ht hdealt _ ih =>
    have hnodup : dealt.Nodup := hdealt.sublist.nodup (h.nodup t s)
    obtain ⟨hkept, htodo⟩ := h.foldl hs hnodup fun i hi => hdealt.subset hi
    obtain ⟨left, hleft⟩ := hdealt.trans (hfront s ht)
    have hsplit : (dealt ++ left).Nodup := hleft ▸ h.nodup now s
    have hrest : todo now (dealt.foldl act s) = left := by
      rw [htodo, ← hleft, List.filter_append, List.filter_eq_nil_iff.mpr ?_, List.nil_append,
        List.filter_eq_self.mpr ?_]
      · exact fun i hi => decide_eq_true fun hi' => List.disjoint_of_nodup_append hsplit hi' hi
      · simp
    rw [ih hkept, hrest, ← List.foldl_append, hleft]

end

end DistriSys.Transition
