import DistriSys.Core.Listing
import Mathlib.Data.List.Forall2

/-!
# The pages of the listing

`GET /jobs` turns `offset` and `limit` into an inclusive Redis range and checks
neither. Two things come of it:

- the stop of the range may be negative, and then counts from the other end;
- a bound may be no integer of 64 bits (`Accepted` says when both are), and then Redis
  answers with an error and the route with 500.

Otherwise the page is the slice it should be (`slice_page`). The bounds are doubles, but what
is rounded lies beyond the end of the listing (`startPosition_cases`, `stopPosition_cases`):
a Redis list has less than `2^32` elements, and what is used here is that it has less than
`2^53` (`Unrounded`).

**`jobs_paged`** says which bounds go wrong, and that pages of a positive size put
together are the whole listing. `limit_zero_lists_all` is the smallest case: a
first page of no jobs is the whole listing.
-/

namespace DistriSys

open Js Redis

variable {T : Type}

/-- The record of `id` is there and reads back as `job`. -/
def ReadsAs (json : Json T) (st : Store) (id : JobId) (job : ListedJob T) : Prop :=
  listedJob json (st.jobs id) = .ok (some job)

/-- What the answer for a page should be. -/
structure PageCorrect (json : Json T) (st : Store) (ids : List JobId) (offset limit : Int)
    (reply : ListingReply T) : Prop where
  /-- The records of the ids at these positions, in order. -/
  exact : 0 ≤ offset → 0 ≤ limit → ∃ jobs, reply = .jobs jobs ∧
    List.Forall₂ (ReadsAs json st) ((ids.drop offset.toNat).take limit.toNat) jobs
  /-- Never more jobs than asked for. -/
  bounded : ∀ jobs, reply = .jobs jobs → (jobs.length : Int) ≤ max limit 0

section Pages

variable {env : Env T} {st : Store} {ids : List JobId} {status limitText offsetText : Option String}
  {source : ListingSource} {offset limit : Int}

/-- Where every id has a record, all of them are answered. -/
theorem listRecords_eq (hrecords : ∀ id ∈ ids, ∃ job, ReadsAs env.json st id job) :
    ∃ jobs, listRecords env.json st ids = .jobs jobs ∧
      List.Forall₂ (ReadsAs env.json st) ids jobs := by
  have hread : ∃ jobs, ids.mapM (fun id => listedJob env.json (st.jobs id)) =
      .ok (jobs.map some) ∧ List.Forall₂ (ReadsAs env.json st) ids jobs := by
    induction ids with
    | nil => exact ⟨[], rfl, .nil⟩
    | cons id ids ih =>
      obtain ⟨job, hjob⟩ := hrecords id List.mem_cons_self
      obtain ⟨jobs, hjobs, hall⟩ := ih fun id hid => hrecords id (List.mem_cons_of_mem _ hid)
      refine ⟨job :: jobs, ?_, .cons hjob hall⟩
      rw [List.mapM_cons, hjob, hjobs]
      rfl
  obtain ⟨jobs, hjobs, hall⟩ := hread
  refine ⟨jobs, ?_, hall⟩
  unfold listRecords
  split
  · next hempty =>
    subst hempty
    cases hall
    rfl
  · rw [hjobs]
    simp

/-! ### The bounds as Redis reads them -/

/-- The first position of a page. -/
def startPosition (offset : Int) : Int := printed (toDouble offset)

/-- The last position of a page. -/
def stopPosition (offset limit : Int) : Int :=
  printed (toDouble (toDouble (toDouble offset + toDouble limit) - 1))

/-- Redis takes both bounds of the page: as doubles, `offset` and `offset + limit` are less than
`2^63`. -/
def Accepted (offset limit : Int) : Prop :=
  (toDouble offset).natAbs < 2 ^ 63 ∧ (toDouble (toDouble offset + toDouble limit)).natAbs < 2 ^ 63

instance (offset limit : Int) : Decidable (Accepted offset limit) :=
  inferInstanceAs (Decidable (_ ∧ _))

/-- The largest 64-bit integer becomes `2^63`, which is none. -/
example : ¬ Accepted 0 (2 ^ 63 - 1) := by decide

/-- No position of the listing is touched by rounding: it has less than `2^53` entries (Redis
allows `2^32 - 1`), or else the numbers are safe integers. -/
def Unrounded (length : Nat) (offset limit : Int) : Prop :=
  length < 2 ^ 53 ∨ Safe offset ∧ Safe limit ∧ Safe (offset + limit - 1)

theorem sentBound_eq {z : Int} (hz : toDouble z = z) (hlt : z.natAbs < 2 ^ 63) :
    sentBound (some z) = some (printed z) ∧ IsInt64 (printed z) := by
  refine ⟨?_, (printed_int64 hz).mpr hlt⟩
  show (if z.natAbs < 10 ^ 21 then some (printed z) else none) = _
  exact if_pos (by omega)

/-- From `2^63` on what is sent is no position any more. -/
theorem not_isInt64_sentBound {z bound : Int} (hz : toDouble z = z) (hle : 2 ^ 63 ≤ z.natAbs)
    (h : sentBound (some z) = some bound) : ¬ IsInt64 bound := by
  obtain ⟨-, hbound⟩ := Option.ite_none_right_eq_some.mp h
  intro hint
  rw [← Option.some.inj hbound] at hint
  have hlt := (printed_int64 hz).mp hint
  omega

/-- What Redis answers to the range of a page. -/
theorem lrange_pageBounds (ids : List JobId) (offset limit : Int) :
    lrange ids (sentBound (pageBounds (.int offset) (.int limit)).1)
        (sentBound (pageBounds (.int offset) (.int limit)).2) =
      if Accepted offset limit then some (slice ids (startPosition offset) (stopPosition offset limit))
      else none := by
  have hiff := natAbs_toDouble_sub_one (toDouble_toDouble (toDouble offset + toDouble limit))
  simp only [pageBounds]
  split
  · next h =>
    obtain ⟨hstart, hstart64⟩ := sentBound_eq (toDouble_toDouble offset) h.1
    obtain ⟨hstop, hstop64⟩ := sentBound_eq (toDouble_toDouble _) (hiff.mpr h.2)
    rw [hstart, hstop]
    exact if_pos ⟨hstart64, hstop64⟩
  · next h =>
    rw [Accepted, not_and_or, Nat.not_lt, Nat.not_lt] at h
    -- one of the two bounds is out of range, if it is written as an integer at all
    cases hstart : sentBound (some (toDouble offset)) with
    | none => rfl
    | some start =>
      cases hstop : sentBound (some (toDouble (toDouble (toDouble offset + toDouble limit) - 1))) with
      | none => rfl
      | some stop =>
        refine if_neg ?_
        rintro ⟨hstart64, hstop64⟩
        rcases h with hle | hle
        · exact not_isInt64_sentBound (toDouble_toDouble _) hle hstart hstart64
        · exact not_isInt64_sentBound (toDouble_toDouble _) (by omega) hstop hstop64

theorem listJobs_accepted (hsource : listingSource env.queueName status = some source)
    (hoffset : parseInt (offsetText.getD "0") = .int offset)
    (hlimit : parseInt (limitText.getD "20") = .int limit) (h : Accepted offset limit) :
    listJobs env st status limitText offsetText =
      listRecords env.json st
        (slice (source.ids st) (startPosition offset) (stopPosition offset limit)) := by
  unfold listJobs
  rw [hsource]
  dsimp only
  rw [hoffset, hlimit, lrange_pageBounds, if_pos h]

theorem listJobs_refused (hsource : listingSource env.queueName status = some source)
    (hoffset : parseInt (offsetText.getD "0") = .int offset)
    (hlimit : parseInt (limitText.getD "20") = .int limit) (h : ¬ Accepted offset limit) :
    listJobs env st status limitText offsetText = .serverError := by
  unfold listJobs
  rw [hsource]
  dsimp only
  rw [hoffset, hlimit, lrange_pageBounds, if_neg h]

/-- Redis answers the range of a page with an error: `offset` or `limit` does not begin with a
number, or a bound is out of range. -/
def RefusedPage (limit offset : Option String) : Prop :=
  ∀ start count : Int, parseInt (offset.getD "0") = .int start →
    parseInt (limit.getD "20") = .int count → ¬ Accepted start count

theorem lrange_eq_none_iff (ids : List JobId) (limit offset : Option String) :
    lrange ids
        (sentBound (pageBounds (parseInt (offset.getD "0")) (parseInt (limit.getD "20"))).1)
        (sentBound (pageBounds (parseInt (offset.getD "0")) (parseInt (limit.getD "20"))).2) = none ↔
      RefusedPage limit offset := by
  unfold RefusedPage
  generalize parseInt (offset.getD "0") = start
  generalize parseInt (limit.getD "20") = count
  cases start with
  | int start =>
    cases count with
    | int count =>
      rw [lrange_pageBounds]
      simp
    | _ => simp [pageBounds, sentBound, lrange]
  | _ => simp [pageBounds, sentBound, lrange]

/-! ### The positions of a page -/

/-- A first position is exact, or beyond what a listing reaches. -/
theorem startPosition_cases (offset : Int) :
    (Safe offset → startPosition offset = offset) ∧
      (2 ^ 53 ≤ offset → 2 ^ 53 ≤ startPosition offset) ∧
      (offset ≤ -2 ^ 53 → startPosition offset ≤ -2 ^ 53) := by
  have hdouble := toDouble_cases offset
  have hprinted := printed_cases (toDouble_toDouble offset)
  unfold startPosition Safe at *
  omega

/-- So is a last position, as far as `offset` and `limit` themselves are. -/
theorem stopPosition_cases (offset limit : Int) :
    (-2 ^ 53 ≤ toDouble offset + toDouble limit - 2 → toDouble offset + toDouble limit ≤ 2 ^ 53 →
      stopPosition offset limit = toDouble offset + toDouble limit - 1) ∧
    (2 ^ 53 ≤ toDouble offset + toDouble limit → 2 ^ 53 - 1 ≤ stopPosition offset limit) ∧
    (toDouble offset + toDouble limit - 1 ≤ -2 ^ 53 → stopPosition offset limit ≤ -2 ^ 53) := by
  unfold stopPosition
  generalize toDouble offset + toDouble limit = sum
  have hsum := toDouble_cases sum
  have hstop := toDouble_cases (toDouble sum - 1)
  have hprinted := printed_cases (toDouble_toDouble (toDouble sum - 1))
  unfold Safe at hprinted
  omega

/-- How many ids are read for a page. -/
theorem length_slice_page (h : Unrounded ids.length offset limit) :
    ((slice ids (startPosition offset) (stopPosition offset limit)).length : Int) ≤ max limit 0 ↔
      ¬ (0 ≤ offset ∧ offset + limit ≤ 0 ∧ offset < ids.length ∧ 0 < ids.length + limit) := by
  obtain ⟨hstart, hstartUp, hstartDown⟩ := startPosition_cases offset
  obtain ⟨hstop, hstopUp, hstopDown⟩ := stopPosition_cases offset limit
  obtain ⟨hoffset, -, hoffsetDown⟩ := toDouble_cases offset
  obtain ⟨hlimit, -, hlimitDown⟩ := toDouble_cases limit
  rw [length_slice]
  unfold index
  generalize ids.length = length at *
  generalize startPosition offset = start at *
  generalize stopPosition offset limit = stop at *
  by_cases hsafe : Safe offset ∧ Safe limit
  · -- the sum may still be out of the safe range, on either side
    rw [hstart hsafe.1]
    rw [hoffset (by unfold Safe at hsafe; omega), hlimit (by unfold Safe at hsafe; omega)] at *
    clear hstart hstartUp hstartDown hoffset hoffsetDown hlimit hlimitDown
    unfold Unrounded Safe at *
    by_cases hlow : -2 ^ 53 ≤ offset + limit - 2
    · by_cases hhigh : offset + limit ≤ 2 ^ 53
      · rw [hstop hlow hhigh]
        clear hstop hstopUp hstopDown h
        split <;> split <;> omega
      · have hbeyond := hstopUp (by omega)
        clear hstop hstopUp hstopDown
        split <;> split <;> omega
    · have hbefore := hstopDown (by omega)
      clear hstop hstopUp hstopDown
      split <;> split <;> omega
  · have hlength : length < 2 ^ 53 := h.resolve_right fun h => hsafe ⟨h.1, h.2.1⟩
    clear h
    rcases le_or_gt (2 ^ 53) limit with hlarge | hsmall
    · -- room for the whole listing
      clear hstop hstopUp hstopDown hstart hstartUp hstartDown
      split <;> split <;> omega
    · rcases le_or_gt (2 ^ 53) offset with hfar | hnear
      · -- beyond the end of the listing
        have hbeyond := hstartUp hfar
        clear hstop hstopUp hstopDown hstart hstartUp hstartDown
        split <;> split <;> omega
      · -- one of the two is far below zero, so the stop counts from the right end
        have hsum : toDouble offset + toDouble limit ≤ -1 := by
          unfold Safe at hsafe
          omega
        have hbound : stop ≤ max (toDouble offset + toDouble limit - 1) (-2 ^ 53) := by omega
        clear hstop hstopUp hstopDown hstartUp
        generalize toDouble offset = offset' at *
        generalize toDouble limit = limit' at *
        rw [if_pos (show stop < 0 by omega)]
        rcases le_or_gt offset (-2 ^ 53) with hfar | hnear
        · have hbefore := hstartDown hfar
          rw [if_pos (show start < 0 by omega)]
          omega
        · have hsame : start = offset := hstart ⟨hnear, by omega⟩
          unfold Safe at hsafe
          split <;> omega

/-- A page that starts `offset` after the left end and has room for `limit` ids. -/
theorem slice_page (h : Unrounded ids.length offset limit) (hfirst : 0 ≤ offset)
    (hroom : 0 < offset + limit) :
    slice ids (startPosition offset) (stopPosition offset limit) =
      (ids.drop offset.toNat).take limit.toNat := by
  obtain ⟨hstart, hstartUp, -⟩ := startPosition_cases offset
  obtain ⟨hstop, hstopUp, -⟩ := stopPosition_cases offset limit
  obtain ⟨hlimit, hlimitUp, -⟩ := toDouble_cases limit
  rw [slice_eq]
  by_cases hend : (ids.length : Int) ≤ offset
  · -- the page starts beyond the end
    have hbeyond : (ids.length : Int) ≤ startPosition offset := by
      unfold Unrounded Safe at h
      unfold Safe at hstart
      omega
    have hnonneg : 0 ≤ startPosition offset := by omega
    rw [index_of_nonneg hnonneg, List.drop_of_length_le (show ids.length ≤ _ by omega),
      List.drop_of_length_le (show ids.length ≤ _ by omega), List.take_nil, List.take_nil]
  · have hsafe : Safe offset := by
      unfold Unrounded at h
      unfold Safe at *
      omega
    have hsame : toDouble offset = offset := toDouble_of_safe hsafe
    rw [hsame] at hstop hstopUp
    rw [hstart hsafe, index_of_nonneg hfirst, Int.max_eq_left hfirst, List.take_eq_take_iff,
      List.length_drop]
    have hnear : -2 ^ 53 ≤ limit := by
      unfold Safe at hsafe
      omega
    by_cases hexact : limit ≤ 2 ^ 53 ∧ offset + limit ≤ 2 ^ 53
    · -- all numbers are exact
      rw [hlimit (by omega)] at hstop
      have hlast := hstop (by omega) hexact.2
      have hnonneg : 0 ≤ stopPosition offset limit := by omega
      rw [index_of_nonneg hnonneg, hlast]
      omega
    · -- the page has room for the rest of the listing, rounded or not
      have hlength : ids.length < 2 ^ 53 := by
        unfold Unrounded Safe at *
        omega
      have hbeyond : 2 ^ 53 - 1 ≤ stopPosition offset limit := by
        apply hstopUp
        by_cases hlarge : limit ≤ 2 ^ 53
        · rw [hlimit (by omega)]
          omega
        · have hup := hlimitUp (by omega)
          omega
      have hnonneg : 0 ≤ stopPosition offset limit := by omega
      rw [index_of_nonneg hnonneg]
      omega

/-! ### When a page is right -/

/-- A page of accepted bounds is right as soon as no more ids are read for it than it has room
for. -/
theorem pageCorrect_iff (hrecords : ∀ id ∈ ids, ∃ job, ReadsAs env.json st id job)
    (h : Unrounded ids.length offset limit) :
    PageCorrect env.json st ids offset limit
        (listRecords env.json st (slice ids (startPosition offset) (stopPosition offset limit))) ↔
      ((slice ids (startPosition offset) (stopPosition offset limit)).length : Int) ≤
        max limit 0 := by
  have hread : ∀ id ∈ slice ids (startPosition offset) (stopPosition offset limit),
      ∃ job, ReadsAs env.json st id job := by
    intro id hid
    exact hrecords id (mem_of_mem_slice hid)
  obtain ⟨jobs, hreply, hall⟩ := listRecords_eq hread
  rw [hreply]
  constructor
  · intro h
    rw [hall.length_eq]
    exact h.bounded jobs rfl
  · intro hlength
    constructor
    · intro hoffset hlimit
      refine ⟨jobs, rfl, ?_⟩
      by_cases hroom : 0 < offset + limit
      · rwa [slice_page h hoffset hroom] at hall
      · -- both are zero, so no id is read
        obtain rfl : limit = 0 := by omega
        have hnil : slice ids (startPosition offset) (stopPosition offset 0) = [] :=
          List.eq_nil_of_length_eq_zero (by omega)
        rw [hnil] at hall
        cases hall
        exact .nil
    · intro jobs' hjobs'
      cases hjobs'
      rwa [← hall.length_eq]

/-- An error is no answer for a page that there is, and holds no job too many. -/
theorem pageCorrect_serverError (json : Json T) (st : Store) (ids : List JobId)
    (offset limit : Int) :
    PageCorrect json st ids offset limit .serverError ↔ ¬ (0 ≤ offset ∧ 0 ≤ limit) := by
  constructor
  · rintro h ⟨hoffset, hlimit⟩
    obtain ⟨jobs, hreply, -⟩ := h.exact hoffset hlimit
    cases hreply
  · intro h
    constructor
    · intro hoffset hlimit
      exact absurd ⟨hoffset, hlimit⟩ h
    · intro jobs hreply
      cases hreply

/-- The bounds that count from the right end by mistake are small. -/
theorem accepted_of_overlap {length : Nat} (h : Unrounded length offset limit) (hfirst : 0 ≤ offset)
    (hstop : offset + limit ≤ 0) (hoffset : offset < length) (hlimit : 0 < length + limit) :
    Accepted offset limit := by
  have hsafe : Safe offset ∧ Safe limit := by
    unfold Unrounded Safe at *
    omega
  rw [Accepted, toDouble_of_safe hsafe.1, toDouble_of_safe hsafe.2, toDouble_of_le]
  · unfold Safe at hsafe
    omega
  · unfold Safe at hsafe
    omega

/-- The first pages of a given size hold the first records. -/
theorem pages_eq (hsource : listingSource env.queueName status = some source)
    (hrecords : ∀ id ∈ source.ids st, ∃ job, ReadsAs env.json st id job)
    (hlength : (source.ids st).length < 2 ^ 53) {size : Nat} (hsize : 1 ≤ size) (pages : Nat)
    (haccepted : ∀ k < pages, Accepted (k * size : Nat) size) :
    ∃ answers : List (List (ListedJob T)),
      List.Forall₂ (fun (k : Nat) answer => listJobs env st status
        (some (JsNumber.int size).toString) (some (JsNumber.int (k * size : Nat)).toString) =
          .jobs answer) (List.range pages) answers ∧
      List.Forall₂ (ReadsAs env.json st) ((source.ids st).take (pages * size)) answers.flatten := by
  induction pages with
  | zero => exact ⟨[], .nil, by simp⟩
  | succ pages ih =>
    obtain ⟨answers, hanswers, hall⟩ := ih fun k hk => haccepted k (by omega)
    have hnext : listJobs env st status (some (JsNumber.int size).toString)
        (some (JsNumber.int (pages * size : Nat)).toString) =
          listRecords env.json st (((source.ids st).drop (pages * size)).take size) := by
      have hoffset : parseInt ((some (JsNumber.int (pages * size : Nat)).toString).getD "0") =
          .int (pages * size : Nat) := parseInt_toString _
      have hlimit : parseInt ((some (JsNumber.int size).toString).getD "20") = .int size :=
        parseInt_toString _
      rw [listJobs_accepted hsource hoffset hlimit (haccepted pages (by omega)),
        slice_page (.inl hlength) (by omega) (by omega)]
      simp only [Int.toNat_natCast]
    have hpage : ∀ id ∈ ((source.ids st).drop (pages * size)).take size,
        ∃ job, ReadsAs env.json st id job := by
      intro id hid
      exact hrecords id (List.mem_of_mem_drop (List.mem_of_mem_take hid))
    obtain ⟨answer, hanswer, hread⟩ := listRecords_eq hpage
    refine ⟨answers ++ [answer], ?_, ?_⟩
    · rw [List.range_succ]
      exact List.rel_append hanswers (.cons (hnext.trans hanswer) .nil)
    -- the next page continues where the pages before it end
    · rw [Nat.succ_mul, List.take_add, List.flatten_append, List.flatten_singleton]
      exact List.rel_append hall hread

/-- Pages that are all answered have accepted bounds. -/
theorem accepted_of_answers (hsource : listingSource env.queueName status = some source)
    {size pages : Nat} {answers : List (List (ListedJob T))}
    (hanswers : List.Forall₂ (fun (k : Nat) answer => listJobs env st status
      (some (JsNumber.int size).toString) (some (JsNumber.int (k * size : Nat)).toString) =
        .jobs answer) (List.range pages) answers) :
    ∀ k < pages, Accepted (k * size : Nat) size := by
  intro k hk
  by_contra hrefused
  have hreply : listJobs env st status (some (JsNumber.int size).toString)
      (some (JsNumber.int (k * size : Nat)).toString) = .serverError :=
    listJobs_refused hsource (parseInt_toString _) (parseInt_toString _) hrefused
  have hlength : k < answers.length := by
    rwa [← hanswers.length_eq, List.length_range]
  have hanswer := hanswers.get (by rwa [List.length_range]) hlength
  rw [List.get_eq_getElem, List.getElem_range, hreply] at hanswer
  cases hanswer

/-- **When a page is right.** The answer for `offset` and `limit` holds the records of
the ids at these positions, and no more than `limit` of them, unless the stop of
the range counts from the right end and does not fall short of the start, or unless Redis
refuses a bound of a page that there is. Pages of a positive size, if Redis accepts their
bounds, are the whole listing put together. -/
theorem jobs_paged (hsource : listingSource env.queueName status = some source)
    (hrecords : ∀ id ∈ source.ids st, ∃ job, ReadsAs env.json st id job) :
    (∀ (limitText offsetText : Option String) (offset limit : Int),
      parseInt (offsetText.getD "0") = .int offset →
      parseInt (limitText.getD "20") = .int limit →
      Unrounded (source.ids st).length offset limit →
        (PageCorrect env.json st (source.ids st) offset limit
            (listJobs env st status limitText offsetText) ↔
          ¬ (0 ≤ offset ∧ offset + limit ≤ 0 ∧ offset < (source.ids st).length ∧
            0 < (source.ids st).length + limit) ∧
          (0 ≤ offset → 0 ≤ limit → Accepted offset limit))) ∧
      ∀ size pages : Nat, 1 ≤ size → (source.ids st).length ≤ pages * size →
        (source.ids st).length < 2 ^ 53 →
        ((∃ answers : List (List (ListedJob T)),
          List.Forall₂ (fun (k : Nat) answer => listJobs env st status
            (some (JsNumber.int size).toString) (some (JsNumber.int (k * size : Nat)).toString) =
              .jobs answer) (List.range pages) answers ∧
          List.Forall₂ (ReadsAs env.json st) (source.ids st) answers.flatten) ↔
          ∀ k < pages, Accepted (k * size : Nat) size) := by
  constructor
  · intro limitText offsetText offset limit hoffset hlimit hunrounded
    -- Redis answers `LRANGE`, or refuses a bound
    by_cases haccepted : Accepted offset limit
    · rw [listJobs_accepted hsource hoffset hlimit haccepted, pageCorrect_iff hrecords hunrounded,
        length_slice_page hunrounded]
      exact ⟨fun h => ⟨h, fun _ _ => haccepted⟩, And.left⟩
    · rw [listJobs_refused hsource hoffset hlimit haccepted, pageCorrect_serverError]
      constructor
      · intro h
        refine ⟨?_, fun hfirst hroom => absurd ⟨hfirst, hroom⟩ h⟩
        rintro ⟨hfirst, hstop, hoffset, hlimit⟩
        exact haccepted (accepted_of_overlap hunrounded hfirst hstop hoffset hlimit)
      · rintro ⟨-, h⟩ ⟨hfirst, hroom⟩
        exact haccepted (h hfirst hroom)
  · intro size pages hsize hpages hlength
    constructor
    · rintro ⟨answers, hanswers, -⟩
      -- a refused page has no answer
      exact accepted_of_answers hsource hanswers
    · intro haccepted
      obtain ⟨answers, hanswers, hall⟩ := pages_eq hsource hrecords hlength hsize pages haccepted
      rw [List.take_of_length_le hpages] at hall
      exact ⟨answers, hanswers, hall⟩

end Pages

/-- Two jobs on the dead list. -/
def twoDead : Store :=
  ((((Store.empty.hmset "a" ((.core "mail" () .absent none : EnqueueCall Unit).record
      mainQueue.json "a" 0)).hmset "b" ((.core "mail" () .absent none : EnqueueCall Unit).record
        mainQueue.json "b" 0)).lpush (.deadList "main_queue") "a").lpush
          (.deadList "main_queue") "b")

theorem records_twoDead : ∀ id ∈ twoDead.lists (.deadList "main_queue"),
    ∃ job, ReadsAs mainQueue.json twoDead id job := by
  intro id hid
  have hid : id = "b" ∨ id = "a" := by simpa [twoDead, Store.empty] using hid
  rcases hid with rfl | rfl
  · exact ⟨_, rfl⟩
  · exact ⟨_, rfl⟩

/-- The second page of one job. -/
theorem jobs_paged_second : ∃ jobs,
    listJobs mainQueue twoDead (some "dead") (some "1") (some "1") = .jobs jobs ∧
      List.Forall₂ (ReadsAs mainQueue.json twoDead) ["a"] jobs := by
  have hsource : listingSource mainQueue.queueName (some "dead") =
      some (.list (.deadList "main_queue")) := rfl
  have hpage := ((jobs_paged hsource records_twoDead).1 (some "1") (some "1") 1 1 (by decide)
    (by decide) (.inl (by decide))).mpr ⟨by decide, fun _ _ => by decide⟩
  exact hpage.exact (by decide) (by decide)

/-- **A limit of zero lists everything**: the stop of the range is minus one. -/
theorem limit_zero_lists_all :
    ¬ ∀ (st : Store) (offset limit : Int),
      (∀ id ∈ st.lists (.deadList "main_queue"), ∃ job, ReadsAs mainQueue.json st id job) →
      PageCorrect mainQueue.json st (st.lists (.deadList "main_queue")) offset limit
        (listJobs mainQueue st (some "dead") (some (JsNumber.int limit).toString)
          (some (JsNumber.int offset).toString)) := by
  intro h
  have hpage := h twoDead 0 0 records_twoDead
  exact absurd (hpage.bounded _ rfl) (by decide)

end DistriSys
