/-
# The cached course list

`GET /courses` sits behind the `CacheInterceptor` of its framework: a page is kept in Redis under
its URL for `CATALOG_CACHE_TTL_MS`.  Seats move without the cache being told; an administrator's
edit of a section clears it (`CatalogCacheService.invalidate`, after the commit of
`SectionsService.update`).

`listing` is `listCourses` as the sequence of its queries, which a page that is being made sends
while seats are taken and limits edited.  Every total that a student is shown was right at a moment
that is no further back than the time to live and the time a request takes (`listing_staleness`);
and after an edit has been committed and the cache cleared, every page shows the new limits, unless
the list was being made for the same URL while it was cleared (`edits_are_listed`,
`Campus.edit_is_overtaken`).
-/
import Enroll.CatalogPages
import Enroll.Changes
import Enroll.LookAside
import Mathlib

namespace Enroll.CatalogCache

open LookAside (Reader Service State Event Runs Past Prompt)
open Txn (Label Session)
open Paging (slice)

/-! ## 1. The queries of a listing -/

inductive CatalogQuery where
  | findFirstTerm
  | queryFts (tsquery : JsString) (codePrefix : Option String) (limit : Nat)
  | countFts (tsquery : JsString) (codePrefix : Option String)
  | count (wher : CourseWhereInput)
  | findMany (args : CourseFindManyArgs)

def CatalogQuery.Res : CatalogQuery → Type
  | findFirstTerm => Option TermId
  | queryFts _ _ _ => List FtsRow
  | countFts _ _ => Nat
  | count _ => Nat
  | findMany _ => List CourseWithSections

/-- What the database answers to a query. -/
def answer (db : CatalogDb) : (q : CatalogQuery) → q.Res
  | .findFirstTerm => db.findFirstTerm
  | .queryFts tsquery codePrefix limit => db.queryFts tsquery codePrefix limit
  | .countFts tsquery codePrefix => db.countFts tsquery codePrefix
  | .count wher => db.count wher
  | .findMany args => db.findMany args

/-- A listing in the making. -/
abbrev Listing := Reader CatalogQuery CatalogQuery.Res (Except String PaginatedCourses)

/-- Step 2 without a search. -/
def listingPlain (query : ListCoursesQuery) (termId : TermId) : Listing :=
  let wher : CourseWhereInput := ⟨none, query.codePrefix⟩
  .ask (.count wher) fun (total : Nat) =>
  .ask (.findMany ⟨wher, courseOrderBy query.sort,
    some ((query.page - 1) * query.limit, query.limit), termId⟩)
      fun (courses : List CourseWithSections) =>
  .done (.ok ⟨courses.map CourseListItem.of, query.page, query.limit, total,
    totalPages total query.limit⟩)

/-- Step 2 with a search: the count of the candidates is asked for and not used. -/
def listingCandidates (query : ListCoursesQuery) (termId : TermId) (ftsRows : List FtsRow)
    (searchTotal : Nat) : Listing :=
  let wher : CourseWhereInput := ⟨some (ftsRows.map FtsRow.id), none⟩
  .ask (.count wher) fun (_ : Nat) =>
  .ask (.findMany ⟨wher, courseOrderBy query.sort, none, termId⟩)
      fun (courses : List CourseWithSections) =>
  let rows := courses.mergeSort fun a b => rankOf ftsRows b.id ≤ rankOf ftsRows a.id
  let rows := slice ((query.page - 1) * query.limit) query.limit rows
  .done (.ok ⟨rows.map CourseListItem.of, query.page, query.limit, searchTotal,
    totalPages searchTotal query.limit⟩)

/-- Step 2 with a search, unless step 1 has found nothing. -/
def listingFound (query : ListCoursesQuery) (termId : TermId) (ftsRows : List FtsRow)
    (searchTotal : Nat) : Listing :=
  if (ftsRows.map FtsRow.id).length = 0 then .done (.ok ⟨[], query.page, query.limit, 0, 0⟩)
  else listingCandidates query termId ftsRows searchTotal

/-- Steps 1 and 2 with a search. -/
def listingSearch (query : ListCoursesQuery) (termId : TermId) (tsquery : JsString) : Listing :=
  .ask (.queryFts tsquery query.codePrefix ftsCandidateWindow) fun (ftsRows : List FtsRow) =>
  .ask (.countFts tsquery query.codePrefix) fun (searchTotal : Nat) =>
  listingFound query termId ftsRows searchTotal

def listingIn (toLowerCase : JsString → JsString) (query : ListCoursesQuery) (termId : TermId) :
    Listing :=
  match query.searchTerm with
  | some search => listingSearch query termId (toTsQuery toLowerCase search)
  | none => listingPlain query termId

/-- The listing of the active term, if there is one. -/
def listingActive (toLowerCase : JsString → JsString) (query : ListCoursesQuery) :
    Option TermId → Listing
  | some termId => listingIn toLowerCase query termId
  | none => .done (.error "No term is currently open for registration. Pass an explicit termId.")

/-- `listCourses`, query by query. -/
def listing (toLowerCase : JsString → JsString) (query : ListCoursesQuery) : Listing :=
  match query.termId with
  | some termId => listingIn toLowerCase query termId
  | none => .ask .findFirstTerm (listingActive toLowerCase query)

section Listing

variable {toLowerCase : JsString → JsString} {query : ListCoursesQuery} {db : CatalogDb}

theorem listingSearch_run (termId : TermId) (tsquery : JsString) :
    (listingSearch query termId tsquery).run answer db
      = .ok (listSearch db query termId tsquery) := by
  show (listingFound query termId (db.queryFts tsquery query.codePrefix ftsCandidateWindow)
    (db.countFts tsquery query.codePrefix)).run answer db = _
  unfold listingFound listSearch
  by_cases hnone : ((db.queryFts tsquery query.codePrefix ftsCandidateWindow).map
      FtsRow.id).length = 0
  · simp only [if_pos hnone]
    rfl
  · simp only [if_neg hnone]
    rfl

theorem listingIn_run (termId : TermId) : (listingIn toLowerCase query termId).run answer db
    = .ok (listIn toLowerCase db query termId) := by
  unfold listingIn listIn
  cases query.searchTerm with
  | none => rfl
  | some search => exact listingSearch_run termId _

/-- **While the catalog does not change, the queries make the listing of `listCourses`.** -/
theorem listing_run :
    (listing toLowerCase query).run answer db = listCourses toLowerCase db query := by
  unfold listing listCourses listTermId
  cases query.termId with
  | some termId => exact listingIn_run termId
  | none =>
    show (listingActive toLowerCase query db.findFirstTerm).run answer db = _
    unfold resolveActiveTermId
    cases db.findFirstTerm with
    | some termId => exact listingIn_run termId
    | none => rfl

end Listing

/-! ## 2. What a listing shows -/

section Shows

variable {σ : Type} {look : σ → CatalogDb} {P : σ → Prop} {toLowerCase : JsString → JsString}
  {query : ListCoursesQuery} {termId : TermId} {page : PaginatedCourses}

/-- The term is the one of the query, or else the one that a state with `P` answers as open. -/
def TermFound (look : σ → CatalogDb) (P : σ → Prop) (query : ListCoursesQuery) (termId : TermId) :
    Prop :=
  match query.termId with
  | some id => id = termId
  | none => ∃ w, P w ∧ (look w).findFirstTerm = some termId

/-- The item is a course with its sections in the term as they were found in a state with `P`. -/
def Found (look : σ → CatalogDb) (P : σ → Prop) (termId : TermId) (item : CourseListItem) : Prop :=
  ∃ w args c, P w ∧ args.termId = termId ∧ c ∈ (look w).findMany args ∧ item = CourseListItem.of c

theorem mem_slice {α : Type} {skip take : Nat} {l : List α} {a : α} (h : a ∈ slice skip take l) :
    a ∈ l := List.mem_of_mem_drop (List.mem_of_mem_take h)

theorem found_of_plain {r : Except String PaginatedCourses}
    (h : (listingPlain query termId).Saw (fun w => answer (look w)) P r) (hr : r = .ok page) :
    ∀ item ∈ page.data, Found look P termId item := by
  cases h with
  | ask _ h =>
    cases h with
    | ask hw h =>
      cases h
      obtain rfl := Except.ok.inj hr
      intro item hitem
      obtain ⟨c, hc, rfl⟩ := List.mem_map.mp hitem
      exact ⟨_, _, c, hw, rfl, hc, rfl⟩

theorem found_of_candidates {ftsRows : List FtsRow} {n : Nat} {r : Except String PaginatedCourses}
    (h : (listingCandidates query termId ftsRows n).Saw (fun w => answer (look w)) P r)
    (hr : r = .ok page) : ∀ item ∈ page.data, Found look P termId item := by
  cases h with
  | ask _ h =>
    cases h with
    | ask hw h =>
      cases h
      obtain rfl := Except.ok.inj hr
      intro item hitem
      obtain ⟨c, hc, rfl⟩ := List.mem_map.mp hitem
      exact ⟨_, _, c, hw, rfl, List.mem_mergeSort.mp (mem_slice hc), rfl⟩

theorem found_of_found {ftsRows : List FtsRow} {n : Nat} {r : Except String PaginatedCourses}
    (h : (listingFound query termId ftsRows n).Saw (fun w => answer (look w)) P r)
    (hr : r = .ok page) : ∀ item ∈ page.data, Found look P termId item := by
  unfold listingFound at h
  split at h
  · cases h
    obtain rfl := Except.ok.inj hr
    exact fun item hitem => absurd hitem List.not_mem_nil
  · exact found_of_candidates h hr

theorem found_of_listingIn {r : Except String PaginatedCourses}
    (h : (listingIn toLowerCase query termId).Saw (fun w => answer (look w)) P r)
    (hr : r = .ok page) : ∀ item ∈ page.data, Found look P termId item := by
  unfold listingIn at h
  cases hsearch : query.searchTerm with
  | none =>
    rw [hsearch] at h
    exact found_of_plain h hr
  | some search =>
    rw [hsearch] at h
    cases h with
    | ask _ h =>
      cases h with
      | ask _ h => exact found_of_found h hr

/-- **A page is of one term, and every item of it was found in the database while the page was
made.** -/
theorem found_of_listing
    (h : (listing toLowerCase query).Saw (fun w => answer (look w)) P (.ok page)) :
    ∃ termId, TermFound look P query termId ∧ ∀ item ∈ page.data, Found look P termId item := by
  unfold listing at h
  unfold TermFound
  cases hterm : query.termId with
  | some termId =>
    rw [hterm] at h
    exact ⟨termId, rfl, found_of_listingIn h rfl⟩
  | none =>
    rw [hterm] at h
    generalize hr : (Except.ok page : Except String PaginatedCourses) = r at h
    cases h with
    | @ask _ _ w _ hw h =>
      have h : (listingActive toLowerCase query (look w).findFirstTerm).Saw
        (fun w => answer (look w)) P r := h
      cases hactive : (look w).findFirstTerm with
      | some termId =>
        rw [hactive] at h
        exact ⟨termId, ⟨w, hw, hactive⟩, found_of_listingIn h hr.symm⟩
      | none =>
        rw [hactive] at h
        cases h
        exact absurd hr (by simp)

end Shows

/-! ## 3. The service -/

/-- The registrar's database and the catalog in it, with what the database answers at the moment. -/
structure Site where
  sys : Sys
  cat : Catalog
  db : CatalogDb

/-- The handlers of `GET /courses`: the pipe makes a query of the URL, or refuses it. -/
def service (toLowerCase : JsString → JsString) (parse : String → Except String ListCoursesQuery)
    (ttl : Nat) :
    Service Site String CatalogQuery CatalogQuery.Res (Except String PaginatedCourses) where
  look site := answer site.db
  handler url :=
    match parse url with
    | .error e => .done (.error e)
    | .ok query => listing toLowerCase query
  cacheable r := r.toBool
  ttl := ttl

/-- The state of the API and its cache. -/
abbrev Api := State Site String CatalogQuery CatalogQuery.Res (Except String PaginatedCourses)

/-- The catalog is that of the database, and so are the answers. -/
structure Site.Consistent (site : Site) : Prop where
  sections : site.cat.sections = site.sys.world.db.sections
  answers : site.db.Answers site.cat site.sys.world.now

/-- The database changes by the steps of the registrar. -/
def Live (api : Api) : Event Site String → Prop
  | .write site => (∃ l, api.world.sys.step l = some site.sys) ∧ site.Consistent
  | _ => True

/-- The registrar before its first request. -/
structure Site.Opens (w : World) (site : Site) : Prop where
  sys : site.sys = Txn.Sys.init w
  consistent : site.Consistent

variable {toLowerCase : JsString → JsString} {parse : String → Except String ListCoursesQuery}
  {ttl now : Nat} {C : Api → Event Site String → Prop} {api api' : Api} {site : Site} {w : World}

/-- A step of the API, as the database sees it. -/
theorem world_of_step {e : Event Site String} (hc : Live api e)
    (h : api.step (service toLowerCase parse ttl) e = some api') :
    api'.world = api.world ∨
      ((∃ l, api.world.sys.step l = some api'.world.sys) ∧ api'.world.Consistent) := by
  cases e with
  | write site => exact Option.some.inj h ▸ .inr hc
  | tick ms => exact Option.some.inj h ▸ .inl rfl
  | request i k up => obtain ⟨-, ⟨r, -, rfl⟩ | rfl⟩ := LookAside.request_cases h <;> exact .inl rfl
  | read i =>
    obtain ⟨f, -, ⟨q, next, -, rfl⟩ | ⟨r, -, rfl | rfl⟩⟩ := LookAside.read_cases h <;>
      exact .inl rfl
  | store i up => obtain ⟨f, r, -, -, rfl | rfl⟩ := LookAside.store_cases h <;> exact .inl rfl
  | crash i => exact LookAside.crash_cases h ▸ .inl rfl
  | clear up =>
    obtain rfl := Option.some.inj h
    split <;> exact .inl rfl

/-- Every state of the API stands on a reachable state of the registrar. -/
theorem reached_of_runs (hC : ∀ api e, C api e → Live api e) (h₀ : site.Opens w)
    (h : Runs (service toLowerCase parse ttl) C (.init site now) api) :
    Txn.Sys.Reach (fun _ _ => True) (Txn.Sys.init w) api.world.sys ∧ api.world.Consistent := by
  induction h with
  | refl => exact ⟨h₀.sys ▸ .refl, h₀.consistent⟩
  | tail _ hc hs ih =>
    rcases world_of_step (hC _ _ hc) hs with he | ⟨⟨l, hl⟩, hcons⟩
    · rw [he]
      exact ih
    · exact ⟨ih.1.tail trivial hl, hcons⟩

/-- A page that the service answers was made by `listing`, for the query of the URL. -/
theorem found_of_saw {url : String} {P : Site → Prop} {page : PaginatedCourses}
    (h : ((service toLowerCase parse ttl).handler url).Saw (service toLowerCase parse ttl).look P
      (.ok page)) : ∃ query termId, parse url = .ok query ∧ TermFound Site.db P query termId ∧
        ∀ item ∈ page.data, Found Site.db P termId item := by
  simp only [service] at h
  split at h
  · cases h
  · rename_i query hquery
    obtain ⟨termId, hterm, hfound⟩ := found_of_listing h
    exact ⟨query, termId, hquery, hterm, hfound⟩

/-! ## 4. How old a page can be -/

/-- The item is a course of the catalog, and its totals are those of the sections that the course has
in the term in the database of `site`. -/
structure Site.Shows (site : Site) (termId : TermId) (item : CourseListItem) : Prop where
  course : item.toCourseRow ∈ site.cat.course
  totals : ∃ rows, rows = site.sys.world.db.sections.filter
      (fun s => s.courseId = item.id && s.termId = termId) ∧
    item.sectionCount = rows.length ∧ item.totalCapacity = (rows.map Section.capacity).sum ∧
      item.totalEnrolled = (rows.map Section.enrolledCount).sum

/-- The term is open, and none that is open starts later. -/
def Site.Current (site : Site) (termId : TermId) : Prop :=
  ∃ t ∈ site.cat.term, t.id = termId ∧ t.isOpen site.sys.world.now = true ∧
    ∀ t' ∈ site.cat.term, t'.isOpen site.sys.world.now = true → t'.startDate ≤ t.startDate

/-- The term of a list: the one that the query names, or one that was current in `past`. -/
def TermListed (past : Site → Prop) (query : ListCoursesQuery) (termId : TermId) : Prop :=
  match query.termId with
  | some id => id = termId
  | none => ∃ site, past site ∧ site.Current termId

theorem TermFound.listed {P past : Site → Prop} {query : ListCoursesQuery} {termId : TermId}
    (hP : ∀ site, P site → past site ∧ site.Consistent) (h : TermFound Site.db P query termId) :
    TermListed past query termId := by
  unfold TermFound at h
  unfold TermListed
  cases hterm : query.termId with
  | some id =>
    rw [hterm] at h
    exact h
  | none =>
    rw [hterm] at h
    obtain ⟨site, hsite, hfirst⟩ := h
    obtain ⟨hpast, hcons⟩ := hP site hsite
    exact ⟨site, hpast, hcons.answers.findFirstTerm_some termId hfirst⟩

theorem foldl_add_eq_sum {α : Type} (f : α → Int) (l : List α) (n : Int) :
    l.foldl (fun sum a => sum + f a) n = n + (l.map f).sum := by
  induction l generalizing n with
  | nil => simp
  | cons a l ih =>
    rw [List.foldl_cons, ih, List.map_cons, List.sum_cons]
    omega

/-- What `findMany` returns is shown as it stands. -/
theorem shows_of_mem (h : site.Consistent) {args : CourseFindManyArgs} {c : CourseWithSections}
    (hc : c ∈ site.db.findMany args) : site.Shows args.termId (CourseListItem.of c) := by
  obtain ⟨o, ho, hrows, hsections⟩ := h.answers.findMany args
  have hrow : c.toCourseRow ∈ o := by
    have hmem : c.toCourseRow ∈ (site.db.findMany args).map CourseWithSections.toCourseRow :=
      List.mem_map_of_mem hc
    rw [hrows] at hmem
    split at hmem
    · exact hmem
    · exact mem_slice hmem
  have hperm := hsections c hc
  unfold Catalog.inTerm at hperm
  rw [h.sections] at hperm
  refine ⟨List.mem_of_mem_filter (ho.1.subset hrow), _, rfl, hperm.length_eq, ?_, ?_⟩
  · exact (foldl_add_eq_sum Section.capacity _ 0).trans
      ((Int.zero_add _).trans (hperm.map Section.capacity).sum_eq)
  · exact (foldl_add_eq_sum Section.enrolledCount _ 0).trans
      ((Int.zero_add _).trans (hperm.map Section.enrolledCount).sum_eq)

/-- Nobody is shown more students than seats. -/
theorem totals_of_shows (hv : site.sys.world.Valid) {termId : TermId} {item : CourseListItem}
    (h : site.Shows termId item) :
    0 ≤ item.totalEnrolled ∧ item.totalEnrolled ≤ item.totalCapacity := by
  obtain ⟨rows, hrows, -, hcap, henr⟩ := h.totals
  have hseats (sec : Section) (hsec : sec ∈ rows) :
      0 ≤ sec.enrolledCount ∧ sec.enrolledCount ≤ sec.capacity :=
    hv.db.seats sec (List.mem_of_mem_filter (hrows ▸ hsec))
  rw [henr, hcap]
  constructor
  · refine List.sum_nonneg fun n hn => ?_
    obtain ⟨sec, hsec, rfl⟩ := List.mem_map.mp hn
    exact (hseats sec hsec).1
  · exact List.sum_le_sum fun sec hsec => (hseats sec hsec).2

/-- The condition of a run in which a request takes `L` at most. -/
def LiveWithin (L : Nat) (api : Api) (e : Event Site String) : Prop :=
  Live api e ∧ Prompt (fun b t => t ≤ b + L) api e

/-- **How old a page can be**: the page is of one term, that of the query or the current one, and
what it shows of a course was so in the database, at a moment that is no further back than the time
to live and the time that a request takes. -/
theorem listing_staleness {L : Nat} (hv : w.Valid) (h₀ : site.Opens w)
    (hr : Runs (service toLowerCase parse ttl) (LiveWithin L) (.init site now) api)
    {a : LookAside.Answer String (Except String PaginatedCourses)} (ha : a ∈ api.answers)
    {page : PaginatedCourses} (hpage : a.value = .ok page) :
    ∃ query termId, parse a.key = .ok query ∧
      TermListed (Past (service toLowerCase parse ttl) (LiveWithin L) (.init site now) api
        (fun u => u ≤ a.time ∧ a.time ≤ u + L + ttl)) query termId ∧
      ∀ item ∈ page.data,
        ∃ site', Past (service toLowerCase parse ttl) (LiveWithin L) (.init site now) api
            (fun u => u ≤ a.time ∧ a.time ≤ u + L + ttl) site' ∧ site'.Shows termId item ∧
          0 ≤ item.totalEnrolled ∧ item.totalEnrolled ≤ item.totalCapacity := by
  have hsaw := LookAside.answered_within (fun _ _ hc => hc.2) hr ha
  rw [hpage] at hsaw
  have hpast (site' : Site) (hp : Past (service toLowerCase parse ttl) (LiveWithin L)
      (.init site now) api (fun u => u ≤ a.time ∧ a.time ≤ u + L + ttl) site') :
      Txn.Sys.Reach (fun _ _ => True) (Txn.Sys.init w) site'.sys ∧ site'.Consistent := by
    obtain ⟨m, hm, -, -, rfl⟩ := hp
    exact reached_of_runs (fun _ _ hc => hc.1) h₀ hm
  obtain ⟨query, termId, hquery, hterm, hfound⟩ := found_of_saw hsaw
  refine ⟨query, termId, hquery, hterm.listed fun site' hp => ⟨hp, (hpast site' hp).2⟩,
    fun item hitem => ?_⟩
  obtain ⟨site', args, c, hp, rfl, hc, rfl⟩ := hfound item hitem
  obtain ⟨hreach, hcons⟩ := hpast site' hp
  have hshows := shows_of_mem hcons hc
  exact ⟨site', hp, hshows, totals_of_shows (locks_run hv hreach).inv.1 hshows⟩

/-! ## 5. What an edit clears -/

/-- The condition of a run in which nobody edits section `s`. -/
def Unedited (s : SectionId) (api : Api) : Event Site String → Prop
  | .write site => (∃ l, api.world.sys.step l = some site.sys ∧ ∀ t ses, l = .commit t →
      api.world.sys.sessions t = some ses → ¬ ses.op.Resizes s) ∧ site.Consistent
  | _ => True

theorem Unedited.live {s : SectionId} (api : Api) (e : Event Site String) (h : Unedited s api e) :
    Live api e := by
  cases e with
  | write site => exact ⟨h.1.imp fun _ hl => hl.1, h.2⟩
  | tick ms => trivial
  | request i k up => trivial
  | read i => trivial
  | store i up => trivial
  | crash i => trivial
  | clear up => trivial

def Site.limits (site : Site) (s : SectionId) : Option Limits := site.sys.world.db.tables.limits s

/-- A step without an edit leaves the limits alone. -/
theorem limits_of_unedited {s : SectionId} {e : Event Site String}
    (hG : (discipline Extra.none).Good api.world.sys) (hc : Unedited s api e)
    (h : api.step (service toLowerCase parse ttl) e = some api') :
    api'.world.limits s = api.world.limits s := by
  cases e with
  | write site =>
    obtain rfl := Option.some.inj h
    obtain ⟨⟨l, hl, hno⟩, -⟩ := hc
    rcases limits_of_step hG hl s with he | ⟨t, ses, hcommit, ht, hop⟩
    · exact he
    · exact absurd hop (hno t ses hcommit ht)
  | tick ms => exact Option.some.inj h ▸ rfl
  | request i k up => obtain ⟨-, ⟨r, -, rfl⟩ | rfl⟩ := LookAside.request_cases h <;> rfl
  | read i =>
    obtain ⟨f, -, ⟨q, next, -, rfl⟩ | ⟨r, -, rfl | rfl⟩⟩ := LookAside.read_cases h <;> rfl
  | store i up => obtain ⟨f, r, -, -, rfl | rfl⟩ := LookAside.store_cases h <;> rfl
  | crash i => exact LookAside.crash_cases h ▸ rfl
  | clear up =>
    obtain rfl := Option.some.inj h
    split <;> rfl

theorem limits_run {s : SectionId} (hv : w.Valid) (h₀ : site.Opens w)
    (hr₀ : Runs (service toLowerCase parse ttl) Live (.init site now) api)
    (hr : Runs (service toLowerCase parse ttl) (Unedited s) api api') :
    api'.world.limits s = api.world.limits s := by
  induction hr with
  | refl => rfl
  | tail hr hc hs ih =>
    have hreach := (reached_of_runs (fun _ _ h => h) h₀ (hr₀.trans (hr.mono Unedited.live))).1
    exact (limits_of_unedited (locks_run hv hreach) hc hs).trans ih

/-- **After an edit and the clearing of the cache every page shows the edit**: let section `s` have
been edited for the last time before `api₁`, the cache have been cleared in `api₂`, and the list not
have been under way for the URL then.  Whatever is answered to the URL from then on shows states of
the database that came after the clearing, and in which the section has the limits of that edit. -/
theorem edits_are_listed {s : SectionId} {url : String} {api₁ api₂ api₃ api₄ : Api} (hv : w.Valid)
    (h₀ : site.Opens w) (hr₁ : Runs (service toLowerCase parse ttl) Live (.init site now) api₁)
    (hr₂ : Runs (service toLowerCase parse ttl) (Unedited s) api₁ api₂)
    (hclear : api₂.step (service toLowerCase parse ttl) (.clear true) = some api₃)
    (hidle : ∀ i f, api₂.flights i = some f → f.key ≠ url)
    (hr₃ : Runs (service toLowerCase parse ttl) (Unedited s) api₃ api₄) :
    ∃ new, api₄.answers = new ++ api₃.answers ∧ ∀ a ∈ new, a.key = url →
      ∀ page, a.value = .ok page → ∃ query termId, parse url = .ok query ∧
        TermListed (Past (service toLowerCase parse ttl) (Unedited s) api₃ api₄ (· ≤ a.time))
          query termId ∧
        ∀ item ∈ page.data,
          ∃ site', Past (service toLowerCase parse ttl) (Unedited s) api₃ api₄ (· ≤ a.time) site' ∧
            site'.Shows termId item ∧ site'.limits s = api₁.world.limits s := by
  have hblank : LookAside.Blank api₃ url := by
    obtain rfl := Option.some.inj hclear
    exact ⟨hidle, rfl⟩
  have hlive₃ : Runs (service toLowerCase parse ttl) Live (.init site now) api₃ :=
    (hr₁.trans (hr₂.mono Unedited.live)).tail (show Live api₂ (.clear true) from trivial) hclear
  have hlimits : api₃.world.limits s = api₁.world.limits s :=
    limits_run hv h₀ hr₁ (hr₂.tail (show Unedited s api₂ (.clear true) from trivial) hclear)
  obtain ⟨new, hnew, hsaw⟩ := LookAside.answered_since hblank hr₃
  refine ⟨new, hnew, fun a ha hk page hpage => ?_⟩
  have hsaw := hsaw a ha hk
  rw [hpage] at hsaw
  have hpast (site' : Site) (hp : Past (service toLowerCase parse ttl) (Unedited s) api₃ api₄
      (· ≤ a.time) site') : site'.Consistent ∧ site'.limits s = api₁.world.limits s := by
    obtain ⟨m, hm, -, -, rfl⟩ := hp
    exact ⟨(reached_of_runs (fun _ _ h => h) h₀ (hlive₃.trans (hm.mono Unedited.live))).2,
      (limits_run hv h₀ hlive₃ hm).trans hlimits⟩
  obtain ⟨query, termId, hquery, hterm, hfound⟩ := found_of_saw hsaw
  refine ⟨query, termId, hquery, hterm.listed fun site' hp => ⟨hp, (hpast site' hp).1⟩,
    fun item hitem => ?_⟩
  obtain ⟨site', args, c, hp, rfl, hc, rfl⟩ := hfound item hitem
  exact ⟨site', hp, shows_of_mem (hpast site' hp).1 hc, (hpast site' hp).2⟩

namespace Campus

open Enroll.Campus (world world_valid execs actor byChar)

/-- The campus has one course. -/
def catalog (sections : List Section) : Catalog where
  course := [⟨5, "CS101", "Algorithms", 3⟩]
  sections := sections
  term := []
  collation := byChar
  searchMatches := fun _ _ => true
  tsRank := fun _ _ => 1
  course_id := by decide
  course_code := by decide

/-- The database of the registrar, as `GET /courses` finds it. -/
def siteOf (sys : Sys) : Site :=
  ⟨sys, catalog sys.world.db.sections, (catalog sys.world.db.sections).sorting sys.world.now⟩

theorem siteOf_consistent (sys : Sys) : (siteOf sys).Consistent :=
  ⟨rfl, Catalog.sorting_answers _ _⟩

theorem siteOf_opens : (siteOf (Txn.Sys.init world)).Opens world := ⟨rfl, siteOf_consistent _⟩

def courses : Service Site String CatalogQuery CatalogQuery.Res (Except String PaginatedCourses) :=
  service id (fun _ => .ok { Enroll.Campus.byCode with termId := some 7 }) 15000

/-- The steps of the registrar, one after the other. -/
theorem runs_of_run {ls : List (Label registrar)} {sys sys' : Sys}
    (h : Txn.Sys.run sys ls = some sys') (api : Api) :
    Runs courses Live { api with world := siteOf sys } { api with world := siteOf sys' } := by
  induction ls generalizing sys with
  | nil =>
    obtain rfl := Option.some.inj h
    exact .refl
  | cons l ls ih =>
    cases hl : sys.step l with
    | none => simp [Txn.Sys.run, hl] at h
    | some sys₁ =>
      simp only [Txn.Sys.run, hl] at h
      have hfirst : Runs courses Live { api with world := siteOf sys }
          { api with world := siteOf sys₁ } :=
        Machine.Reach.refl.tail (show Live _ (.write (siteOf sys₁)) from
          ⟨⟨l, hl⟩, siteOf_consistent sys₁⟩) rfl
      exact hfirst.trans (ih h)

/-- The events of one request that do not touch the database, while no request takes any time. -/
def quick (api : Api) : Event Site String → Bool
  | .write _ => false
  | .read i => (api.flights i).all fun f => api.now ≤ f.began
  | .store i _ => (api.flights i).all fun f => api.now ≤ f.began
  | _ => true

theorem liveWithin_of_quick (api : Api) (e : Event Site String) (h : quick api e = true) :
    LiveWithin 0 api e := by
  cases e with
  | write site => exact absurd h Bool.false_ne_true
  | read i =>
    refine ⟨trivial, fun f hf => ?_⟩
    have hall := h
    simp only [quick, hf, Option.all_some, decide_eq_true_eq] at hall
    exact hall
  | store i up =>
    refine ⟨trivial, fun f hf => ?_⟩
    have hall := h
    simp only [quick, hf, Option.all_some, decide_eq_true_eq] at hall
    exact hall
  | tick ms => exact ⟨trivial, trivial⟩
  | request i k up => exact ⟨trivial, trivial⟩
  | crash i => exact ⟨trivial, trivial⟩
  | clear up => exact ⟨trivial, trivial⟩

theorem unedited_of_quick {s : SectionId} (api : Api) (e : Event Site String)
    (h : quick api e = true) : Unedited s api e := by
  cases e with
  | write site => exact absurd h Bool.false_ne_true
  | read i => trivial
  | store i up => trivial
  | tick ms => trivial
  | request i k up => trivial
  | crash i => trivial
  | clear up => trivial

def quickly (api : Api) (es : List (Event Site String)) : Option Api :=
  Machine.runIf (State.step courses) quick api es

/-- The seats that the answers show, newest first. -/
def shown (api : Api) : List (Option (List Int)) :=
  api.answers.map fun a => a.value.toOption.map fun page =>
    page.data.map CourseListItem.totalCapacity

/-- Request `i` comes for the list and is answered. -/
def serving (i : Nat) : List (Event Site String) :=
  [.request i "/courses" true, .read i, .read i, .read i]

def opening : Api := .init (siteOf (Txn.Sys.init world)) 0

/-- The list is asked for, stored, and asked for again ten milliseconds later. -/
def twice : Option Api :=
  quickly opening (serving 0 ++ [.store 0 true, .tick 10, .request 1 "/courses" true])

theorem twice_runs : twice.isSome = true := by decide +kernel

/-- What is shown was answered. -/
theorem answered_of_shown {api : Api} {seats : List Int} (h : some seats ∈ shown api) :
    ∃ a ∈ api.answers, ∃ page, a.value = .ok page ∧
      page.data.map CourseListItem.totalCapacity = seats := by
  obtain ⟨a, ha, hshown⟩ := List.mem_map.mp h
  obtain ⟨page, hpage, rfl⟩ := Option.map_eq_some_iff.mp hshown
  cases hv : a.value with
  | error e =>
    rw [hv] at hpage
    exact absurd hpage (by simp [Except.toOption])
  | ok page' =>
    rw [hv] at hpage
    exact ⟨a, ha, page', hv, by rw [Option.some.inj hpage]⟩

theorem twice_shown : shown (twice.get twice_runs) = [some [2], some [2]] := by decide +kernel

theorem listing_staleness_twice :
    ∃ a ∈ (twice.get twice_runs).answers, ∃ page, a.value = .ok page ∧
      page.data.map CourseListItem.totalCapacity = [2] ∧ ∃ query termId,
        Except.ok { Enroll.Campus.byCode with termId := some 7 } = (.ok query : Except String _) ∧
        TermListed (Past courses (LiveWithin 0) opening (twice.get twice_runs)
          (fun u => u ≤ a.time ∧ a.time ≤ u + 0 + 15000)) query termId ∧
        ∀ item ∈ page.data,
          ∃ site', Past courses (LiveWithin 0) opening (twice.get twice_runs)
              (fun u => u ≤ a.time ∧ a.time ≤ u + 0 + 15000) site' ∧ site'.Shows termId item ∧
            0 ≤ item.totalEnrolled ∧ item.totalEnrolled ≤ item.totalCapacity := by
  obtain ⟨a, ha, page, hpage, hseats⟩ := answered_of_shown
    (show some [2] ∈ shown (twice.get twice_runs) from twice_shown ▸ List.mem_cons_self)
  exact ⟨a, ha, page, hpage, hseats, listing_staleness world_valid siteOf_opens
    (Machine.Reach.of_runIf liveWithin_of_quick .refl (Option.some_get twice_runs).symm) ha hpage⟩

/-- Two more seats for section 10. -/
def roomier : UpdateSectionDto :=
  ⟨some (some 3), none, by rintro n ⟨⟩; decide, by rintro n ⟨⟩⟩

def editing : List (Label registrar) :=
  .begin 0 (.updateSection 10 roomier (actor 4)) :: execs 0 4 0 ++ [.commit 0]

theorem editing_runs : (Txn.Sys.run (Txn.Sys.init world) editing).isSome = true := by decide

def edited : Sys := (Txn.Sys.run (Txn.Sys.init world) editing).get editing_runs

/-- The API after the edit, and after the cache has been cleared. -/
def afterEdit (api : Api) : Api := { api with world := siteOf edited }

def cleared (api : Api) : Api := { afterEdit api with cache := fun _ => none }

theorem afterEdit_runs : Runs courses Live opening (afterEdit opening) :=
  runs_of_run (Option.some_get editing_runs).symm opening

theorem asked_runs : (quickly (cleared opening) (serving 1)).isSome = true := by decide +kernel

def asked : Api := (quickly (cleared opening) (serving 1)).get asked_runs

theorem edits_are_listed_asked : shown asked = [some [4]] ∧
    ∃ new, asked.answers = new ++ (cleared opening).answers ∧ ∀ a ∈ new, a.key = "/courses" →
      ∀ page, a.value = .ok page → ∃ query termId,
        Except.ok { Enroll.Campus.byCode with termId := some 7 } = (.ok query : Except String _) ∧
        TermListed (Past courses (Unedited 10) (cleared opening) asked (· ≤ a.time)) query termId ∧
        ∀ item ∈ page.data,
          ∃ site', Past courses (Unedited 10) (cleared opening) asked (· ≤ a.time) site' ∧
            site'.Shows termId item ∧ site'.limits 10 = (siteOf edited).limits 10 :=
  ⟨by decide +kernel,
    edits_are_listed world_valid siteOf_opens afterEdit_runs .refl rfl
      (fun i f hf => absurd hf (by simp [afterEdit, opening, State.init]))
      (Machine.Reach.of_runIf unedited_of_quick .refl (Option.some_get asked_runs).symm)⟩

/-- The list has been made, and is not stored yet. -/
theorem made_runs : (quickly opening (serving 0)).isSome = true := by decide +kernel

def made : Api := (quickly opening (serving 0)).get made_runs

theorem overtaken_runs : (quickly (cleared made) [.store 0 true, .request 1 "/courses" true]).isSome
    = true := by decide +kernel

/-- **An edit is overtaken**: the list is made before the edit and stored after the cache has been
cleared, and is served from there. -/
theorem edit_is_overtaken : shown ((quickly (cleared made)
    [.store 0 true, .request 1 "/courses" true]).get overtaken_runs) = [some [2], some [2]] := by
  decide +kernel

end Campus

end Enroll.CatalogCache
