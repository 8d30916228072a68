import DistriSys.Protocol.Acceptance
import DistriSys.Protocol.Listing
import DistriSys.Protocol.Rejections

/-!
# What the dashboard shows

`GET /jobs` decodes the records of a page all at once, with a decoder of its own. In a
reachable state every record is that of an `enqueue` call (`Describes`), so what the page
shows is known: the jobs as they were asked for (`Shows`), the same that `GET /jobs/:id`
answers with. Only the payload can fail to decode, if it had no JSON text, and then not
one job is lost but the page: **`page_shows`**.

The route reads the ids of the page and the records in two transactions; in between nothing
happens here, so the page is that of one state. A bound that Redis does not take for a position
fails the request as well, before a record is read (`Accepted` of `Protocol.Listing`).

A page is asked for with texts. Here they parse to integers with `offset ≥ 0` and room for at
least one job (`0 < offset + limit`); what the route does with other numbers is the subject of
`Protocol.Listing`. The states are those of runs with crashes and rejected commands, so a record
may be in any stage: waiting, half settled, or left behind by a worker that has died.
-/

namespace DistriSys

open Js Redis Transition

variable {T : Type}

/-- An entry of the dashboard shows the job of call `c`. -/
structure Shows (json : Json T) (c : Call T) (job : ListedJob T) : Prop where
  id : job.id = some c.id
  type : job.type = some c.request.type
  /-- as JSON brings it back -/
  data : (json.stringify c.request.data).bind json.parse = some job.data
  status : ∃ status : JobStatus, job.status = some status.name
  priority : job.priority = some c.request.priority.name
  attempts : ∃ n : Nat, job.attempts = .int n
  maxAttempts : job.maxAttempts = parseInt c.request.maxAttempts.toString
  createdAt : job.createdAt = .int c.time

/-- The payload of the call has a JSON text; `undefined` has none. -/
def Call.Textual (json : Json T) (c : Call T) : Prop :=
  (json.stringify c.request.data).isSome = true

section Decoders

variable {json : Json T} {c : Call T} {h : JobHash} {ids : List JobId} {st : Store}

theorem Describes.shows (hd : Describes json c h) (hjson : json.Lawful) (htext : c.Textual json) :
    ∃ job : Job T, deserializeJob json h = .ok job ∧ listedJob json h = .ok (some job.listed) ∧
      Shows json c job.listed := by
  obtain ⟨text, htext⟩ := Option.isSome_iff_exists.mp htext
  obtain ⟨data, hdata⟩ := Option.isSome_iff_exists.mp (hjson.parse_stringify _ text htext)
  have hparse : h.data.bind json.parse = some data := by
    rw [hd.data, htext]
    exact hdata
  obtain ⟨n, hn⟩ := hd.attempts
  have hpriority : some (orNormal h.priority) = h.priority := by rw [hd.priority, orNormal_name]
  -- both decoders see the same fields; only the payload could stop them
  refine ⟨_, by rw [deserializeJob, hparse], ?_, ?_⟩
  · rw [listedJob, if_neg (by rw [hd.isEmpty]; decide), hparse]
    simp only [Job.listed, hpriority]
  · exact
      { id := hd.id
        type := hd.type
        data := by rw [htext]; exact hdata
        status := hd.status
        priority := hpriority.trans hd.priority
        attempts := ⟨n, by simp only [Job.listed, hn, parseIntField_repr]⟩
        maxAttempts := by simp only [Job.listed, hd.maxAttempts]; rfl
        createdAt := by simp only [Job.listed, hd.createdAt, parseIntField_repr] }

/-- `undefined` was stored as the empty string, which is no JSON. -/
theorem Describes.listedJob_error (hd : Describes json c h) (hjson : json.Lawful)
    (htext : ¬ c.Textual json) : listedJob json h = .error .syntaxError := by
  have hnone : json.stringify c.request.data = none := by
    simpa [Call.Textual] using htext
  have hparse : h.data.bind json.parse = none := by
    rw [hd.data, hnone]
    exact hjson.parse_empty
  rw [listedJob, if_neg (by rw [hd.isEmpty]; decide), hparse]

/-- One record that does not decode takes the whole page with it. -/
theorem listRecords_eq_serverError {id : JobId} (hid : id ∈ ids)
    (herror : listedJob json (st.jobs id) = .error .syntaxError) :
    listRecords json st ids = .serverError := by
  have hmap : ∃ e, (ids.mapM fun id => listedJob json (st.jobs id)) = .error e := by
    induction ids with
    | nil => cases hid
    | cons id' ids ih =>
      rw [List.mapM_cons]
      cases hhead : listedJob json (st.jobs id') with
      | error e => exact ⟨e, rfl⟩
      | ok job =>
        rcases List.mem_cons.mp hid with rfl | hid
        · rw [herror] at hhead
          cases hhead
        · obtain ⟨e, he⟩ := ih hid
          exact ⟨e, by rw [he]; rfl⟩
  obtain ⟨e, he⟩ := hmap
  rw [listRecords, if_neg (List.ne_nil_of_mem hid), he]

end Decoders

section Dashboard

variable {env : Env T} {topology : Topology} {r : Faulty T} {source : ListingSource}
  {status limitText offsetText : Option String} {offset limit : Int}

theorem mentions_of_source {st : Store} {id : JobId} (h : id ∈ source.ids st) : st.Mentions id := by
  cases source with
  | list listKey => exact .listed listKey h
  | zset queue => exact .delayed queue h

/-- **What a page shows.** In every reachable state, whatever has crashed and whichever
commands have been rejected: a page whose bounds Redis accepts and whose jobs all have payloads
with a JSON text shows exactly these jobs, in order, each as it was asked for and as
`GET /jobs/:id` answers; with one job among them whose payload has none, or with a bound that
Redis refuses, the request fails. -/
theorem page_shows (h : Reach (faultyStep env) (fun _ _ => True) (Faulty.init topology) r)
    (hjson : env.json.Lawful) (hsource : listingSource env.queueName status = some source)
    (hoffset : parseInt (offsetText.getD "0") = .int offset)
    (hlimit : parseInt (limitText.getD "20") = .int limit)
    (hunrounded : Unrounded (source.ids r.config.store).length offset limit) (hfirst : 0 ≤ offset)
    (hroom : 0 < offset + limit) :
    (Accepted offset limit → (∀ c ∈ r.config.calls,
        c.id ∈ ((source.ids r.config.store).drop offset.toNat).take limit.toNat →
          c.Textual env.json) →
      ∃ jobs, listJobs env r.config.store status limitText offsetText = .jobs jobs ∧
        List.Forall₂ (fun id listed => ∃ c ∈ r.config.calls, c.id = id ∧
            Shows env.json c listed ∧ ∃ job, getJob env.json r.config.store id = .ok (some job) ∧
              job.listed = listed)
          (((source.ids r.config.store).drop offset.toNat).take limit.toNat) jobs) ∧
    ((¬ Accepted offset limit ∨ ∃ c ∈ r.config.calls,
        c.id ∈ ((source.ids r.config.store).drop offset.toNat).take limit.toNat ∧
          ¬ c.Textual env.json) →
      listJobs env r.config.store status limitText offsetText = .serverError) := by
  have hI := (sound_run h).integrity
  have hpage : Accepted offset limit → listJobs env r.config.store status limitText offsetText =
      listRecords env.json r.config.store
        (((source.ids r.config.store).drop offset.toNat).take limit.toNat) := by
    intro haccepted
    rw [listJobs_accepted hsource hoffset hlimit haccepted, slice_page hunrounded hfirst hroom]
  have hdescribed : ∀ id ∈ ((source.ids r.config.store).drop offset.toNat).take limit.toNat,
      ∃ c ∈ r.config.calls, c.id = id ∧ Describes env.json c (r.config.store.jobs id) := by
    intro id hid
    have hmentions := mentions_of_source (List.mem_of_mem_drop (List.mem_of_mem_take hid))
    exact hI.describes (hI.mentioned id hmentions)
  constructor
  · intro haccepted htext
    rw [hpage haccepted]
    have hshows : ∀ id ∈ ((source.ids r.config.store).drop offset.toNat).take limit.toNat,
        ∃ job : Job T, listedJob env.json (r.config.store.jobs id) = .ok (some job.listed) ∧
          ∃ c ∈ r.config.calls, c.id = id ∧ Shows env.json c job.listed ∧
            getJob env.json r.config.store id = .ok (some job) := by
      intro id hid
      obtain ⟨c, hc, rfl, hd⟩ := hdescribed id hid
      obtain ⟨job, hjob, hlisted, hshows⟩ := hd.shows hjson (htext c hc hid)
      refine ⟨job, hlisted, c, hc, rfl, hshows, ?_⟩
      simp only [getJob, hd.isEmpty, hjob]
      rfl
    have hread : ∀ id ∈ ((source.ids r.config.store).drop offset.toNat).take limit.toNat,
        ∃ listed, ReadsAs env.json r.config.store id listed := by
      intro id hid
      obtain ⟨job, hlisted, -⟩ := hshows id hid
      exact ⟨job.listed, hlisted⟩
    obtain ⟨jobs, hreply, hall⟩ := listRecords_eq hread
    refine ⟨jobs, hreply, ((List.forall₂_and_left _ _).mpr ⟨hshows, hall⟩).imp ?_⟩
    rintro id listed ⟨⟨job, hlisted, c, hc, hcall, hshown, hget⟩, hreads⟩
    obtain rfl : job.listed = listed := Option.some.inj (Except.ok.inj (hlisted.symm.trans hreads))
    exact ⟨c, hc, hcall, hshown, job, hget, rfl⟩
  · intro hfails
    by_cases haccepted : Accepted offset limit
    · obtain ⟨c, hc, hid, htext⟩ := hfails.resolve_left (not_not_intro haccepted)
      rw [hpage haccepted]
      obtain ⟨c', hc', hsame, hd⟩ := hdescribed c.id hid
      -- ids are drawn once
      have heq : c' = c := List.inj_on_of_nodup_map hI.calls_nodup hc' hc hsame
      subst heq
      exact listRecords_eq_serverError hid (hd.listedJob_error hjson htext)
    · exact listJobs_refused hsource hoffset hlimit haccepted

end Dashboard

/-- The installation `mainQueue` with payloads that may be `undefined`. -/
def optionalPayloads : Env (Option Unit) where
  queueName := "main_queue"
  config := loadConfig
  json :=
    { stringify := fun data => data.map fun _ => "null"
      parse := fun s => if s = "null" then some (some ()) else none }

theorem lawful_optionalPayloads : optionalPayloads.json.Lawful where
  parse_empty := rfl
  parse_stringify data text h := by
    obtain ⟨-, -, rfl⟩ := Option.map_eq_some_iff.mp h
    rfl

/-- Two jobs wait; the one with the payload `undefined` spoils the page they share. -/
theorem page_shows_undefined : ∃ r : Faulty (Option Unit),
    r.config.store.lists (.waitingList "main_queue" "normal") = ["b", "a"] ∧
      (∃ jobs, listJobs optionalPayloads r.config.store (some "waiting") (some "1") (some "1") =
        .jobs jobs) ∧
      listJobs optionalPayloads r.config.store (some "waiting") (some "2") (some "0") =
        .serverError := by
  obtain ⟨r, hr, hlist, ha, hb⟩ :=
    exists_reach_of_run (faultyStep optionalPayloads) (fun _ _ => True)
      (Faulty.init ⟨1, [], 0, 0, 0⟩)
      (fun r => r.config.store.lists (.waitingList "main_queue" "normal") = ["b", "a"] ∧
        (∀ c ∈ r.config.calls, c.id = "a" → c.request.data = some ()) ∧
        ∃ c ∈ r.config.calls, c.id = "b" ∧ c.request.data = none)
      [.act (.enqueue 0 "a" (.core "mail" (some ()) .absent none)), .act (.produce 0),
        .act (.produce 0), .act (.enqueue 0 "b" (.core "mail" none .absent none)),
        .act (.produce 0), .act (.produce 0)]
      (by decide +kernel)
  have hsource : listingSource optionalPayloads.queueName (some "waiting") =
      some (.list (.waitingList "main_queue" "normal")) := rfl
  have hids : (ListingSource.list (.waitingList "main_queue" "normal")).ids r.config.store =
      ["b", "a"] := hlist
  refine ⟨r, hlist, ?_, ?_⟩
  · have hoffset : parseInt ((some "1").getD "0") = .int 1 := by decide
    have hlimit : parseInt ((some "1").getD "20") = .int 1 := by decide
    -- one page misses the job without a payload, the other holds it
    have hpage := page_shows hr lawful_optionalPayloads hsource hoffset hlimit
      (.inr (by decide)) (by decide) (by decide)
    rw [hids] at hpage
    obtain ⟨jobs, hjobs, -⟩ := hpage.1 (by decide) fun c hc hid => by
      have hdata := ha c hc (by simpa using hid)
      simp [Call.Textual, optionalPayloads, hdata]
    exact ⟨jobs, hjobs⟩
  · have hoffset : parseInt ((some "0").getD "0") = .int 0 := by decide
    have hlimit : parseInt ((some "2").getD "20") = .int 2 := by decide
    have hpage := page_shows hr lawful_optionalPayloads hsource hoffset hlimit
      (.inr (by decide)) (by decide) (by decide)
    rw [hids] at hpage
    obtain ⟨c, hc, hid, hdata⟩ := hb
    exact hpage.2 (.inr ⟨c, hc, by simp [hid], by simp [Call.Textual, optionalPayloads, hdata]⟩)

end DistriSys
