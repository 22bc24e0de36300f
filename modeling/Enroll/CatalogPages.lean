/-
# The pages of the catalog

Whether the pages of a query are its matching courses, each once, when every page is asked for in a
call of its own.

* `catalog_pages`: the calls' responses are a partition if a search has no more matches than the
  candidate window holds and no courses that tie under the order of the listing fall on both sides of
  the border of two pages; a search with more matches counts them all and shows the window.
* `catalog_pages_iff`: the conditions are exact, as far as any answers of the database go.
-/
import Enroll.CatalogListing

namespace Enroll

open Paging (Order Answer Sorted Listings OnePage Resorted page lex)

variable {toLowerCase : JsString → JsString} {cat : Catalog} {now : Time} {db : CatalogDb}
  {query : ListCoursesQuery} {o : List CourseRow} {n : Nat}

/-! ## 1. The order of a listing -/

/-- The order in which the matching courses are listed, with its ties. -/
def Catalog.listingLe (cat : Catalog) (toLowerCase : JsString → JsString) (query : ListCoursesQuery) :
    CourseRow → CourseRow → Bool :=
  match query.searchTerm with
  | some search =>
    lex (cat.rankLe (toTsQuery toLowerCase search)) (cat.orderLe (courseOrderBy query.sort))
  | none => cat.orderLe (courseOrderBy query.sort)

/-- The listings that can come about. -/
def Catalog.MayList (cat : Catalog) (toLowerCase : JsString → JsString) (query : ListCoursesQuery) :
    List CourseRow → Prop :=
  match query.searchTerm with
  | some search =>
    Resorted (cat.rankLe (toTsQuery toLowerCase search)) (cat.orderLe (courseOrderBy query.sort))
      (cat.ftsMatches (toTsQuery toLowerCase search) query.codePrefix)
  | none =>
    Answer (cat.orderLe (courseOrderBy query.sort)) (cat.course.filter (hasCodePrefix query.codePrefix))

theorem Catalog.matching_nodup (cat : Catalog) (toLowerCase : JsString → JsString)
    (query : ListCoursesQuery) : (cat.matching toLowerCase query).Nodup := by
  unfold Catalog.matching
  cases query.searchTerm <;> exact cat.course_nodup.filter _

theorem Catalog.order_listingLe (cat : Catalog) (toLowerCase : JsString → JsString)
    (query : ListCoursesQuery) : Order (cat.listingLe toLowerCase query) := by
  unfold Catalog.listingLe
  cases query.searchTerm with
  | some search => exact (cat.order_rankLe _).lex (cat.order_orderLe _)
  | none => exact cat.order_orderLe _

theorem Catalog.listings (cat : Catalog) (toLowerCase : JsString → JsString) (query : ListCoursesQuery) :
    Listings (cat.listingLe toLowerCase query) (cat.matching toLowerCase query)
      (cat.MayList toLowerCase query) := by
  unfold Catalog.listingLe Catalog.matching Catalog.MayList
  cases query.searchTerm with
  | some search =>
    exact Paging.listings_resorted (cat.order_rankLe _) (cat.order_orderLe _)
      (cat.course_nodup.filter _)
  | none => exact Paging.listings_answer (cat.order_orderLe _) (cat.course_nodup.filter _)

/-- The candidate window is wide enough. -/
def Catalog.Covered (cat : Catalog) (toLowerCase : JsString → JsString) (query : ListCoursesQuery) :
    Prop :=
  query.searchTerm ≠ none → (cat.matching toLowerCase query).length ≤ ftsCandidateWindow

/-! ## 2. From a call to a listing -/

/-- The query for page `n + 1`. -/
def ListCoursesQuery.atPage (query : ListCoursesQuery) (n : Nat) : ListCoursesQuery :=
  { query with page := n + 1, page_pos := Nat.succ_pos n }

/-- What a response says of the matching courses. -/
structure Shows (cat : Catalog) (toLowerCase : JsString → JsString) (query : ListCoursesQuery) (n : Nat)
    (o : List CourseRow) (r : PaginatedCourses) : Prop where
  data : r.data.map CourseListItem.toCourseRow = page query.limit n o
  total : r.total = (cat.matching toLowerCase query).length
  totalPages : r.totalPages = totalPages r.total query.limit ∨
    r.totalPages = 0 ∧ cat.matching toLowerCase query = []

theorem IsWindow.perm {tsquery : JsString} {codePrefix : Option String} {ftsRows : List FtsRow}
    {window : List CourseRow} (hw : IsWindow cat tsquery codePrefix ftsRows window)
    (h : (cat.ftsMatches tsquery codePrefix).length ≤ ftsCandidateWindow) :
    window.Perm (cat.ftsMatches tsquery codePrefix) := by
  obtain ⟨o, ho, rfl, -⟩ := hw
  rw [List.take_of_length_le (ho.1.length_eq.trans_le h)]
  exact ho.1

theorem matching_plain (hsearch : query.searchTerm = none) :
    cat.matching toLowerCase query = cat.course.filter (hasCodePrefix query.codePrefix) := by
  unfold Catalog.matching
  rw [hsearch]

theorem matching_search {search : JsString} (hsearch : query.searchTerm = some search) :
    cat.matching toLowerCase query
      = cat.ftsMatches (toTsQuery toLowerCase search) query.codePrefix := by
  unfold Catalog.matching
  rw [hsearch]

/-- **A call shows a page of a listing.** -/
theorem exists_shows (h : db.Answers cat now) (hcovered : cat.Covered toLowerCase query) (termId : TermId) :
    ∃ o, cat.MayList toLowerCase query o ∧
      Shows cat toLowerCase query n o (listIn toLowerCase db (query.atPage n) termId) := by
  cases hsearch : query.searchTerm with
  | none =>
    obtain ⟨⟨o, ho, hdata⟩, htotal, hpages⟩ := @listPlain_spec cat now db (query.atPage n) h termId
    have hplain := @listIn_plain db (query.atPage n) toLowerCase hsearch termId
    rw [hplain]
    refine ⟨o, ?_, hdata, ?_, Or.inl ?_⟩
    · unfold Catalog.MayList
      rw [hsearch]
      exact ho
    · rw [htotal, matching_plain hsearch]
      rfl
    · rw [hpages, htotal]
      rfl
  | some search =>
    obtain ⟨window, hw⟩ :=
      exists_window h (toTsQuery toLowerCase search) (query.atPage n).codePrefix
    have hperm : window.Perm (cat.ftsMatches (toTsQuery toLowerCase search) query.codePrefix) := by
      refine hw.perm ?_
      show (cat.ftsMatches _ query.codePrefix).length ≤ _
      rw [← matching_search hsearch]
      exact hcovered (by simp [hsearch])
    have hroute := @listIn_search db (query.atPage n) toLowerCase search hsearch termId
    rw [hroute]
    unfold Catalog.MayList
    rw [hsearch]
    by_cases hempty : window = []
    · have hnone : cat.ftsMatches (toTsQuery toLowerCase search) query.codePrefix = [] := by
        rw [hempty] at hperm
        exact hperm.nil_eq.symm
      rw [listSearch_nil hw termId hempty]
      rw [← matching_search hsearch] at hnone
      refine ⟨[], ⟨[], ⟨?_, List.Pairwise.nil⟩, by simp⟩, by simp [page, Paging.slice], ?_, ?_⟩
      · rw [← matching_search hsearch, hnone]
      · rw [hnone]
        rfl
      · exact Or.inr ⟨rfl, hnone⟩
    · obtain ⟨hdata, htotal, hpages⟩ := listSearch_spec hw h termId hempty
      have hanswer := searchArgs_answer hw h termId
      refine ⟨_, ⟨_, ⟨hanswer.1.trans hperm, hanswer.2⟩, rfl⟩, hdata, ?_, Or.inl ?_⟩
      · rw [htotal, matching_search hsearch]
        rfl
      · rw [hpages, htotal]
        rfl

/-! ## 3. Partitions -/

/-- Each of the pages that the calls count has rows, if there are any, and together they show every
matching course exactly once.  `r n` is the response for page `n + 1`. -/
structure PagesPartition (matching : List CourseRow) (r : Nat → PaginatedCourses) : Prop where
  nonempty : ∀ n, 0 < (r n).total → ∀ k < (r n).totalPages, (r k).data ≠ []
  once : ∀ n, ((List.range (r n).totalPages).flatMap fun k =>
    (r k).data.map CourseListItem.toCourseRow).Perm matching

theorem totalPages_spec {total limit : Nat} (hl : 0 < limit) :
    total ≤ totalPages total limit * limit ∧
      (0 < total → ∀ k < totalPages total limit, k * limit < total) := by
  unfold totalPages
  have hdiv := Nat.div_add_mod' (total + limit - 1) limit
  have hmod := Nat.mod_lt (total + limit - 1) hl
  generalize (total + limit - 1) / limit = q at hdiv
  constructor
  · have hle : q * limit ≤ max 1 q * limit := Nat.mul_le_mul_right limit (Nat.le_max_right 1 q)
    omega
  · intro hpos k hk
    rcases Nat.eq_zero_or_pos k with rfl | hk0
    · omega
    · have hq : (k + 1) * limit ≤ q * limit := Nat.mul_le_mul_right limit (by omega)
      rw [Nat.succ_mul] at hq
      omega

theorem Shows.length_le {r : PaginatedCourses} (h : Shows cat toLowerCase query n o r) :
    (cat.matching toLowerCase query).length ≤ r.totalPages * query.limit := by
  rcases h.totalPages with heq | ⟨-, hnil⟩
  · rw [heq, ← h.total]
    exact (totalPages_spec query.limit_pos).1
  · rw [hnil]
    exact Nat.zero_le _

/-- Calls that show listings whose ties stay within the pages partition the matching courses. -/
theorem pagesPartition_of_shows {r : Nat → PaginatedCourses} {o : Nat → List CourseRow}
    (hmay : ∀ n, cat.MayList toLowerCase query (o n))
    (hshows : ∀ n, Shows cat toLowerCase query n (o n) (r n))
    (hone : ∀ c ∈ cat.matching toLowerCase query, OnePage (cat.listingLe toLowerCase query) query.limit
      (cat.matching toLowerCase query) c) :
    PagesPartition (cat.matching toLowerCase query) r where
  nonempty := by
    intro n hpos k hk
    have htotal := (hshows n).total
    rcases (hshows n).totalPages with heq | ⟨hzero, -⟩
    · rw [heq] at hk
      have hlt := (totalPages_spec query.limit_pos).2 hpos k hk
      have hlength := Paging.length_page query.limit k (o k)
      have hperm := ((cat.listings toLowerCase query).perm (o k) (hmay k)).length_eq
      have hlimit := query.limit_pos
      intro hnil
      rw [← (hshows k).data, hnil, List.map_nil, List.length_nil] at hlength
      omega
    · omega
  once := by
    intro n
    have hdata : (fun k => (r k).data.map CourseListItem.toCourseRow)
        = fun k => page query.limit k (o k) := funext fun k => (hshows k).data
    rw [hdata]
    exact Paging.pages_perm (cat.order_listingLe toLowerCase query) (cat.listings toLowerCase query)
      (cat.matching_nodup toLowerCase query) query.limit_pos (hshows n).length_le hone hmay

/-- **Past the window**: all matches are counted, and the window is what is shown. -/
theorem shown_of_not_covered (h : db.Answers cat now) (hcovered : ¬ cat.Covered toLowerCase query)
    (termId : TermId) :
    (listIn toLowerCase db (query.atPage n) termId).total = (cat.matching toLowerCase query).length ∧
      (listIn toLowerCase db (query.atPage n) termId).data.length
        = min query.limit (ftsCandidateWindow - n * query.limit) := by
  unfold Catalog.Covered at hcovered
  obtain ⟨hsome, hlarge⟩ := Classical.not_imp.mp hcovered
  obtain ⟨search, hsearch⟩ := Option.ne_none_iff_exists'.mp hsome
  rw [matching_search hsearch] at hlarge
  obtain ⟨window, hw⟩ :=
    exists_window h (toTsQuery toLowerCase search) (query.atPage n).codePrefix
  have hlength : window.length = ftsCandidateWindow := by
    have hmin := hw.length
    have hcode : (query.atPage n).codePrefix = query.codePrefix := rfl
    rw [hcode] at hmin
    omega
  have hne : window ≠ [] := by
    intro hnil
    rw [hnil] at hlength
    cases hlength
  obtain ⟨hdata, htotal, -⟩ := listSearch_spec hw h termId hne
  have hroute := @listIn_search db (query.atPage n) toLowerCase search hsearch termId
  rw [hroute, htotal, matching_search hsearch]
  refine ⟨rfl, ?_⟩
  have hpage := congrArg List.length hdata
  rw [List.length_map, Paging.length_page, List.length_mergeSort,
    (searchArgs_answer hw h termId).1.length_eq, hlength] at hpage
  exact hpage

/-- The pages are a partition, whatever the database answers in each call. -/
def Partitioned (toLowerCase : JsString → JsString) (cat : Catalog) (now : Time)
    (query : ListCoursesQuery) : Prop :=
  ∀ (db : Nat → CatalogDb) (r : Nat → PaginatedCourses), (∀ n, (db n).Answers cat now) →
    (∀ n, listCourses toLowerCase (db n) (query.atPage n) = .ok (r n)) →
    PagesPartition (cat.matching toLowerCase query) r

theorem partitioned_of_onePage (hcovered : cat.Covered toLowerCase query)
    (hone : ∀ c ∈ cat.matching toLowerCase query, OnePage (cat.listingLe toLowerCase query) query.limit
      (cat.matching toLowerCase query) c) : Partitioned toLowerCase cat now query := by
  intro db r hdb hr
  have hterm := fun n => of_listCourses (hr n)
  choose termId hterm using hterm
  have hshows := fun n => exists_shows (n := n) (hdb n) hcovered (termId n)
  choose o hmay hshows using hshows
  exact pagesPartition_of_shows hmay (fun n => hterm n ▸ hshows n) hone

/-! ## 4. The answers that can come about -/

def Catalog.withSections (cat : Catalog) (termId : TermId) (c : CourseRow) : CourseWithSections :=
  ⟨c, cat.inTerm termId c⟩

/-- `skip` and `take`, where they are given. -/
def inRange (range : Option (Nat × Nat)) (o : List CourseRow) : List CourseRow :=
  match range with
  | none => o
  | some r => Paging.slice r.1 r.2 o

def Catalog.reply (cat : Catalog) (args : CourseFindManyArgs) (o : List CourseRow) :
    List CourseWithSections :=
  (inRange args.range o).map (cat.withSections args.termId)

/-- `startDate: 'desc'`. -/
def newestFirst (t t' : TermRow) : Bool := t'.startDate ≤ t.startDate

theorem order_newestFirst : Order newestFirst where
  trans := by
    intro a b c hab hbc
    simp only [newestFirst, decide_eq_true_eq] at hab hbc ⊢
    exact Nat.le_trans hbc hab
  total := by
    intro a b
    simp only [newestFirst, Bool.or_eq_true, decide_eq_true_eq]
    exact Nat.le_total _ _

def Catalog.openTerms (cat : Catalog) (now : Time) : List TermRow :=
  (cat.term.filter fun t => t.isOpen now).mergeSort newestFirst

/-- A database that sorts. -/
def Catalog.sorting (cat : Catalog) (now : Time) : CatalogDb where
  findFirstTerm := (cat.openTerms now).head?.map TermRow.id
  queryFts := fun tsquery codePrefix limit =>
    (((cat.ftsMatches tsquery codePrefix).mergeSort (cat.rankLe tsquery)).take limit).map
      fun c => ⟨c.id, cat.tsRank tsquery c⟩
  countFts := fun tsquery codePrefix => (cat.ftsMatches tsquery codePrefix).length
  count := fun w => (cat.course.filter w.accepts).length
  findMany := fun args =>
    cat.reply args ((cat.course.filter args.wher.accepts).mergeSort (cat.orderLe args.orderBy))

/-- The same, but for one answer. -/
def CatalogDb.answering (db : CatalogDb) (args : CourseFindManyArgs) (rows : List CourseWithSections) :
    CatalogDb :=
  { db with findMany := fun args' => if args' = args then rows else db.findMany args' }

theorem Catalog.reply_spec (cat : Catalog) (args : CourseFindManyArgs) (o : List CourseRow) :
    (cat.reply args o).map CourseWithSections.toCourseRow = inRange args.range o ∧
      ∀ c ∈ cat.reply args o, c.sections.Perm (cat.inTerm args.termId c.toCourseRow) := by
  constructor
  · unfold Catalog.reply
    rw [List.map_map]
    exact List.map_id _
  · intro c hc
    obtain ⟨c, -, rfl⟩ := List.mem_map.mp hc
    exact List.Perm.refl _

theorem Catalog.sorting_answers (cat : Catalog) (now : Time) : (cat.sorting now).Answers cat now where
  findFirstTerm_some := by
    intro id hid
    obtain ⟨t, ht, rfl⟩ := Option.map_eq_some_iff.mp hid
    obtain ⟨l, hl⟩ := List.head?_eq_some_iff.mp ht
    have hopen : ∀ t', t' ∈ cat.openTerms now ↔ t' ∈ cat.term ∧ t'.isOpen now = true := fun t' => by
      rw [Catalog.openTerms, List.mem_mergeSort, List.mem_filter]
    have hsorted : (cat.openTerms now).Pairwise fun t t' => newestFirst t t' = true :=
      (order_newestFirst.answer_mergeSort _).2
    have htop := (hopen t).mp (hl ▸ List.mem_cons_self)
    refine ⟨t, htop.1, rfl, htop.2, fun t' ht' hopen' => ?_⟩
    have hmem := (hopen t').mpr ⟨ht', hopen'⟩
    rw [hl] at hsorted hmem
    rcases List.mem_cons.mp hmem with rfl | hmem
    · exact le_rfl
    · simpa [newestFirst] using (List.pairwise_cons.mp hsorted).1 t' hmem
  findFirstTerm_none := by
    intro hnone t ht
    have hnil : cat.openTerms now = [] := by simpa [Catalog.sorting] using hnone
    by_contra hopen
    have hmem : t ∈ cat.openTerms now := by
      rw [Catalog.openTerms, List.mem_mergeSort, List.mem_filter]
      exact ⟨ht, by simpa using hopen⟩
    rw [hnil] at hmem
    cases hmem
  queryFts := fun tsquery _ _ => ⟨_, (cat.order_rankLe tsquery).answer_mergeSort _, rfl⟩
  countFts := fun _ _ => rfl
  count := fun _ => rfl
  findMany := fun args =>
    ⟨_, (cat.order_orderLe args.orderBy).answer_mergeSort _, (cat.reply_spec args _).1,
      (cat.reply_spec args _).2⟩

/-- Any answer to one query can come about. -/
theorem CatalogDb.Answers.answering (h : db.Answers cat now) {args : CourseFindManyArgs}
    (ho : Answer (cat.orderLe args.orderBy) (cat.course.filter args.wher.accepts) o) :
    (db.answering args (cat.reply args o)).Answers cat now where
  findFirstTerm_some := h.findFirstTerm_some
  findFirstTerm_none := h.findFirstTerm_none
  queryFts := h.queryFts
  countFts := h.countFts
  count := h.count
  findMany := by
    intro args'
    have hfound : (db.answering args (cat.reply args o)).findMany args'
        = if args' = args then cat.reply args o else db.findMany args' := rfl
    rw [hfound]
    by_cases hargs : args' = args
    · subst hargs
      rw [if_pos rfl]
      exact ⟨o, ho, cat.reply_spec args' o⟩
    · rw [if_neg hargs]
      exact h.findMany args'

@[simp] theorem findMany_answering (db : CatalogDb) (args : CourseFindManyArgs)
    (rows : List CourseWithSections) : (db.answering args rows).findMany args = rows := if_pos rfl

theorem exists_listPlain (cat : Catalog) (now : Time) (hsearch : query.searchTerm = none)
    (ho : cat.MayList toLowerCase query o) (n : Nat) (termId : TermId) :
    ∃ args rows, ((cat.sorting now).answering args rows).Answers cat now ∧
      (listPlain ((cat.sorting now).answering args rows) (query.atPage n) termId).data.map
          CourseListItem.toCourseRow
        = page query.limit n o := by
  unfold Catalog.MayList at ho
  rw [hsearch] at ho
  let args : CourseFindManyArgs := ⟨⟨none, query.codePrefix⟩, courseOrderBy query.sort,
    some (n * query.limit, query.limit), termId⟩
  have hwhere : args.wher.accepts = hasCodePrefix query.codePrefix := by
    funext c
    simp [args, CourseWhereInput.accepts]
  refine ⟨args, cat.reply args o, (cat.sorting_answers now).answering (hwhere ▸ ho), ?_⟩
  show ((((cat.sorting now).answering args (cat.reply args o)).findMany args).map
    CourseListItem.of).map CourseListItem.toCourseRow = _
  rw [map_toCourseRow, findMany_answering, (cat.reply_spec args o).1]
  rfl

theorem exists_listSearch (cat : Catalog) (now : Time) {search : JsString}
    (hsearch : query.searchTerm = some search) (hcovered : cat.Covered toLowerCase query)
    (ho : cat.MayList toLowerCase query o) (n : Nat) (termId : TermId) :
    ∃ args rows, ((cat.sorting now).answering args rows).Answers cat now ∧
      (listSearch ((cat.sorting now).answering args rows) (query.atPage n) termId
          (toTsQuery toLowerCase search)).data.map CourseListItem.toCourseRow
        = page query.limit n o := by
  unfold Catalog.MayList at ho
  rw [hsearch] at ho
  obtain ⟨r, hr, rfl⟩ := ho
  obtain ⟨window, hw⟩ := exists_window (cat.sorting_answers now) (toTsQuery toLowerCase search)
    query.codePrefix
  have hperm := hw.perm (by
    rw [← matching_search hsearch]
    exact hcovered (by simp [hsearch]))
  have hanswer : Answer (cat.orderLe (courseOrderBy query.sort))
      (cat.course.filter (searchArgs query termId window).wher.accepts) r := by
    have hfilter : cat.course.filter (searchArgs query termId window).wher.accepts
        = cat.course.filter fun c => window.contains c := cat.filter_idIn hw.subset_course
    rw [hfilter]
    exact ⟨hr.1.trans (hperm.symm.trans hw.filter_perm.symm), hr.2⟩
  let db := (cat.sorting now).answering (searchArgs query termId window)
    (cat.reply (searchArgs query termId window) r)
  have hdb : db.Answers cat now := (cat.sorting_answers now).answering hanswer
  have hw' : IsWindow cat (toTsQuery toLowerCase search) (query.atPage n).codePrefix
      (db.queryFts (toTsQuery toLowerCase search) (query.atPage n).codePrefix ftsCandidateWindow)
      window := hw
  refine ⟨_, _, hdb, ?_⟩
  by_cases hempty : window = []
  · rw [listSearch_nil hw' termId hempty]
    have hnil : r = [] := by
      rw [hempty] at hperm
      exact (hr.1.trans hperm.symm).eq_nil
    simp [hnil, page, Paging.slice]
  · have hfound : (db.findMany (searchArgs (query.atPage n) termId window)).map
        CourseWithSections.toCourseRow = r := by
      show ((CatalogDb.answering _ _ _).findMany (searchArgs query termId window)).map _ = r
      rw [findMany_answering, (cat.reply_spec _ r).1]
      rfl
    rw [(listSearch_spec hw' hdb termId hempty).1, hfound]
    rfl

/-- **Every listing can come about**, for every page of it. -/
theorem exists_listCourses_page (cat : Catalog) (now : Time) (hcovered : cat.Covered toLowerCase query)
    (hterm : query.termId ≠ none ∨ ∃ t ∈ cat.term, t.isOpen now = true)
    (ho : cat.MayList toLowerCase query o) (n : Nat) :
    ∃ db : CatalogDb, db.Answers cat now ∧ ∃ r, listCourses toLowerCase db (query.atPage n) = .ok r ∧
      r.data.map CourseListItem.toCourseRow = page query.limit n o := by
  obtain ⟨termId, htermId⟩ : ∃ termId, listTermId (cat.sorting now) (query.atPage n) = .ok termId :=
    exists_listTermId (cat.sorting_answers now) hterm
  obtain ⟨args, rows, hdb, hdata⟩ : ∃ args rows,
      ((cat.sorting now).answering args rows).Answers cat now ∧
        (listIn toLowerCase ((cat.sorting now).answering args rows) (query.atPage n) termId).data.map
            CourseListItem.toCourseRow
          = page query.limit n o := by
    cases hsearch : query.searchTerm with
    | none =>
      obtain ⟨args, rows, hdb, hdata⟩ := exists_listPlain cat now hsearch ho n termId
      have hplain := @listIn_plain ((cat.sorting now).answering args rows) (query.atPage n)
        toLowerCase hsearch termId
      exact ⟨args, rows, hdb, by rw [hplain, hdata]⟩
    | some search =>
      obtain ⟨args, rows, hdb, hdata⟩ := exists_listSearch cat now hsearch hcovered ho n termId
      have hroute := @listIn_search ((cat.sorting now).answering args rows) (query.atPage n)
        toLowerCase search hsearch termId
      exact ⟨args, rows, hdb, by rw [hroute, hdata]⟩
  have hterm' : listTermId ((cat.sorting now).answering args rows) (query.atPage n) = .ok termId :=
    htermId
  exact ⟨_, hdb, _, listCourses_of_termId hterm', hdata⟩

section

variable (hterm : query.termId ≠ none ∨ ∃ t ∈ cat.term, t.isOpen now = true)
  (h : Partitioned toLowerCase cat now query)
include hterm h

/-- More matches than the window are not all shown. -/
theorem covered_of_partitioned : cat.Covered toLowerCase query := by
  by_contra hcovered
  have hdb := cat.sorting_answers now
  obtain ⟨termId, htermId⟩ : ∃ termId, listTermId (cat.sorting now) query = .ok termId :=
    exists_listTermId hdb hterm
  have honce := (h (fun _ => cat.sorting now)
    (fun n => listIn toLowerCase (cat.sorting now) (query.atPage n) termId) (fun _ => hdb)
    (fun n => listCourses_of_termId htermId)).once 0
  have hlength := honce.length_eq
  simp only [List.length_flatMap, List.length_map, (shown_of_not_covered hdb hcovered termId).2]
    at hlength
  have hle := Paging.sum_length_pages_le query.limit ftsCandidateWindow
    (listIn toLowerCase (cat.sorting now) (query.atPage 0) termId).totalPages
  unfold Catalog.Covered at hcovered
  have := (Classical.not_imp.mp hcovered).2
  omega

/-- Ties across the border of a page can change places between two calls. -/
theorem onePage_of_partitioned : ∀ c ∈ cat.matching toLowerCase query,
    OnePage (cat.listingLe toLowerCase query) query.limit (cat.matching toLowerCase query) c := by
  have hcovered := covered_of_partitioned hterm h
  intro c hc
  refine (Paging.pages_perm_iff (cat.order_listingLe toLowerCase query)
    (cat.listings toLowerCase query) (cat.matching_nodup toLowerCase query) query.limit_pos
    (totalPages_spec query.limit_pos).1).mp (fun p hp => ?_) c hc
  have hcalls := fun n => exists_listCourses_page cat now hcovered hterm (hp n) n
  choose db hdb r hr hdata using hcalls
  have honce := (h db r hdb hr).once 0
  have hpages : (r 0).totalPages = totalPages (cat.matching toLowerCase query).length query.limit := by
    obtain ⟨termId, heq⟩ := of_listCourses (hr 0)
    obtain ⟨o, -, hshows⟩ := exists_shows (n := 0) (hdb 0) hcovered termId
    rw [← heq] at hshows
    rcases hshows.totalPages with htotal | ⟨-, hnil⟩
    · rw [htotal, hshows.total]
    · rw [hnil] at hc
      cases hc
  rw [hpages, funext hdata] at honce
  exact honce

end

/-- **The pages are a partition exactly when** a search has no more matches than the window and no
course's ties reach over the border of a page. -/
theorem catalog_pages_iff (hterm : query.termId ≠ none ∨ ∃ t ∈ cat.term, t.isOpen now = true) :
    Partitioned toLowerCase cat now query ↔
      cat.Covered toLowerCase query ∧
        ∀ c ∈ cat.matching toLowerCase query, OnePage (cat.listingLe toLowerCase query) query.limit
          (cat.matching toLowerCase query) c :=
  ⟨fun h => ⟨covered_of_partitioned hterm h, onePage_of_partitioned hterm h⟩,
    fun h => partitioned_of_onePage h.1 h.2⟩

/-- **The pages partition the catalog**, unless the ties of a course reach over the border of a page;
and a search with more matches than the window counts them all, but shows those in the window. -/
theorem catalog_pages {db : Nat → CatalogDb} {r : Nat → PaginatedCourses}
    (hdb : ∀ n, (db n).Answers cat now)
    (hr : ∀ n, listCourses toLowerCase (db n) (query.atPage n) = .ok (r n)) :
    (cat.Covered toLowerCase query →
      (∀ c ∈ cat.matching toLowerCase query, OnePage (cat.listingLe toLowerCase query) query.limit
        (cat.matching toLowerCase query) c) →
      PagesPartition (cat.matching toLowerCase query) r) ∧
    (¬ cat.Covered toLowerCase query →
      ∀ n, (r n).total = (cat.matching toLowerCase query).length ∧
        (r n).data.length = min query.limit (ftsCandidateWindow - n * query.limit)) := by
  constructor
  · intro hcovered hone
    exact partitioned_of_onePage hcovered hone db r hdb hr
  · intro hcovered n
    obtain ⟨termId, heq⟩ := of_listCourses (hr n)
    rw [heq]
    exact shown_of_not_covered (hdb n) hcovered termId

namespace Campus

/-- Text in the order of its characters. -/
def byChar : Collation where
  le := fun s t => s ≤ t
  order := ⟨by simpa using fun _ _ _ => String.le_trans, by simpa using String.le_total⟩

/-- Courses of one title that all match every search. -/
def seminars (n : Nat) : Catalog where
  course := (List.range n).map fun k =>
    ⟨k, String.ofList ('C' :: 'S' :: List.replicate k '1'), "Seminar", 1⟩
  sections := []
  term := []
  collation := byChar
  searchMatches := fun _ _ => true
  tsRank := fun _ _ => 1
  course_id := by
    rw [List.map_map]
    exact List.nodup_range.map fun _ _ h => h
  course_code := by
    rw [List.map_map]
    refine List.nodup_range.map fun m k h => ?_
    have hlength := congrArg (fun s => s.toList.length) h
    simpa using hlength

def searchCs : ListCoursesQuery := { termId := some 1, search := some (JsString.lit "cs") }

def byTitle : ListCoursesQuery := { termId := some 1, limit := 1, sortBy := some .title }

def byCode : ListCoursesQuery := { termId := some 1, limit := 1 }

theorem seminars_not_covered : ¬ (seminars 501).Covered id searchCs := by
  intro h
  have hlength : ((seminars 501).matching id searchCs).length = 501 := by
    have hall : (seminars 501).matching id searchCs = (seminars 501).course :=
      List.filter_eq_self.mpr fun _ _ => rfl
    rw [hall]
    simp [seminars]
  have hle := h (by decide)
  rw [hlength] at hle
  exact absurd hle (by decide)

/-- **Two ways for courses to be missing**: 501 matches for a window of 500, and two courses of one
title on pages of one. -/
theorem seminars_missing :
    ¬ Partitioned id (seminars 501) 0 searchCs ∧ ¬ Partitioned id (seminars 2) 0 byTitle := by
  constructor
  · exact fun h => seminars_not_covered ((catalog_pages_iff (Or.inl (by decide))).mp h).1
  · intro h
    have hone := ((catalog_pages_iff (Or.inl (by decide))).mp h).2
    exact absurd (hone ⟨0, "CS", "Seminar", 1⟩ (by decide +kernel)) (by decide +kernel)

theorem catalog_pages_byCode :
    PagesPartition ((seminars 2).matching id byCode)
        (fun n => listIn id ((seminars 2).sorting 0) (byCode.atPage n) 1) ∧
      ∀ n, (listIn id ((seminars 501).sorting 0) (searchCs.atPage n) 1).data.length
        = min 20 (ftsCandidateWindow - n * 20) := by
  constructor
  · exact (catalog_pages (fun _ => (seminars 2).sorting_answers 0)
      (fun n => listCourses_of_termId rfl)).1 (fun h => absurd rfl h) (by decide +kernel)
  · intro n
    exact ((catalog_pages (fun _ => (seminars 501).sorting_answers 0)
      (fun n => listCourses_of_termId rfl)).2 seminars_not_covered n).2

end Campus

end Enroll
