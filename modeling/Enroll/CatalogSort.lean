/-
# The sort order of a search

`catalog-params.ts` keeps an explicit sort by code or title in the URL of a search, and `listCourses`
asks the database for it; but then it sorts every search by rank.  The page is in the requested order
only where the rank does not contradict it (`sort_honoured_iff`).
-/
import Enroll.CatalogPages

namespace Enroll

open Paging (Order Answer Sorted OnSlice Resorted page lex)

variable {toLowerCase : JsString → JsString} {cat : Catalog} {now : Time} {db : CatalogDb}
  {query : ListCoursesQuery} {r : PaginatedCourses}

/-- The courses of a response, in its order. -/
def PaginatedCourses.rows (r : PaginatedCourses) : List CourseRow :=
  r.data.map CourseListItem.toCourseRow

/-- The response is in the order that the query asks for. -/
structure SortHonoured (toLowerCase : JsString → JsString) (cat : Catalog) (query : ListCoursesQuery)
    (r : PaginatedCourses) : Prop where
  code : query.sort = .code → r.rows.Pairwise fun a b => cat.collation.le a.code b.code = true
  title : query.sort = .title → r.rows.Pairwise fun a b => cat.collation.le a.title b.title = true
  relevance : query.sort = .relevance → ∀ search, query.searchTerm = some search →
    r.rows.Pairwise fun a b =>
      cat.tsRank (toTsQuery toLowerCase search) b ≤ cat.tsRank (toTsQuery toLowerCase search) a

/-- `c` ranks above `d` and comes after it under `key`, and the page shows both, or ties of them. -/
def Crossing (cat : Catalog) (query : ListCoursesQuery) (tsquery : JsString) (key : CourseOrderBy)
    (window : List CourseRow) : Prop :=
  ∃ c ∈ window, ∃ d ∈ window,
    OnSlice (lex (cat.rankLe tsquery) (cat.orderLe (some key))) window
      ((query.page - 1) * query.limit) query.limit c ∧
    OnSlice (lex (cat.rankLe tsquery) (cat.orderLe (some key))) window
      ((query.page - 1) * query.limit) query.limit d ∧
    cat.rankLe tsquery d c = false ∧ cat.orderLe (some key) c d = false

theorem sortHonoured_iff : SortHonoured toLowerCase cat query r ↔
    (∀ key, courseOrderBy query.sort = some key → Sorted (cat.orderLe (some key)) r.rows) ∧
      (query.sort = .relevance → ∀ search, query.searchTerm = some search →
        Sorted (cat.rankLe (toTsQuery toLowerCase search)) r.rows) := by
  have hrank : ∀ tsquery (l : List CourseRow), Sorted (cat.rankLe tsquery) l ↔
      l.Pairwise fun a b => cat.tsRank tsquery b ≤ cat.tsRank tsquery a := by
    intro tsquery l
    simp [Sorted, Catalog.rankLe]
  constructor
  · rintro ⟨hcode, htitle, hrelevance⟩
    refine ⟨fun key hkey => ?_, fun hs search hsearch => (hrank _ _).mpr (hrelevance hs search hsearch)⟩
    cases hsort : query.sort with
    | code =>
      rw [hsort] at hkey
      cases hkey
      exact hcode hsort
    | title =>
      rw [hsort] at hkey
      cases hkey
      exact htitle hsort
    | relevance =>
      rw [hsort] at hkey
      cases hkey
  · rintro ⟨hkey, hrelevance⟩
    exact ⟨fun hs => hkey .code (by rw [hs]; rfl), fun hs => hkey .title (by rw [hs]; rfl),
      fun hs search hsearch => (hrank _ _).mp (hrelevance hs search hsearch)⟩

/-- The rows of a search are a page of the candidates, by rank and then by the key. -/
theorem listSearch_rows (h : db.Answers cat now) (termId : TermId) {tsquery : JsString}
    {window : List CourseRow}
    (hw : IsWindow cat tsquery query.codePrefix
      (db.queryFts tsquery query.codePrefix ftsCandidateWindow) window) :
    ∃ o, o.Perm window ∧
      Sorted (lex (cat.rankLe tsquery) (cat.orderLe (courseOrderBy query.sort))) o ∧
      (listSearch db query termId tsquery).rows = page query.limit (query.page - 1) o := by
  by_cases hempty : window = []
  · rw [listSearch_nil hw termId hempty, hempty]
    exact ⟨[], List.Perm.nil, List.Pairwise.nil, by simp [PaginatedCourses.rows, page, Paging.slice]⟩
  · have hanswer := searchArgs_answer hw h termId
    exact ⟨_, (List.mergeSort_perm _ _).trans hanswer.1,
      Paging.sorted_mergeSort (cat.order_rankLe tsquery) hanswer.2,
      (listSearch_spec hw h termId hempty).1⟩

theorem sorted_rows_iff (h : db.Answers cat now) (termId : TermId) {tsquery : JsString}
    {window : List CourseRow}
    (hw : IsWindow cat tsquery query.codePrefix
      (db.queryFts tsquery query.codePrefix ftsCandidateWindow) window)
    {key : CourseOrderBy} (hkey : courseOrderBy query.sort = some key) :
    Sorted (cat.orderLe (some key)) (listSearch db query termId tsquery).rows ↔
      ¬ Crossing cat query tsquery key window := by
  obtain ⟨o, hperm, hsorted, hrows⟩ := listSearch_rows h termId hw
  rw [hkey] at hsorted
  rw [hrows]
  refine (Paging.sorted_slice_iff (cat.order_rankLe tsquery) (cat.order_orderLe (some key)) hsorted
    query.limit_pos).trans (not_congr ?_)
  unfold Crossing
  simp only [Paging.onSlice_perm hperm, hperm.mem_iff]

/-- **The order is honoured exactly when** there is no search, or it is sorted by relevance, or on the
page no course ranks above one that the requested key puts before it. -/
theorem sort_honoured_iff (h : db.Answers cat now) (hr : listCourses toLowerCase db query = .ok r) :
    SortHonoured toLowerCase cat query r ↔
      ∀ search key, query.searchTerm = some search → courseOrderBy query.sort = some key →
        ∀ window, IsWindow cat (toTsQuery toLowerCase search) query.codePrefix
            (db.queryFts (toTsQuery toLowerCase search) query.codePrefix ftsCandidateWindow) window →
          ¬ Crossing cat query (toTsQuery toLowerCase search) key window := by
  obtain ⟨termId, rfl⟩ := of_listCourses hr
  rw [sortHonoured_iff]
  constructor
  · rintro ⟨hsorted, -⟩ search key hsearch hkey window hw
    have hrows := hsorted key hkey
    rw [listIn_search hsearch] at hrows
    exact (sorted_rows_iff h termId hw hkey).mp hrows
  · intro hcross
    cases hsearch : query.searchTerm with
    | none =>
      obtain ⟨⟨o, ho, hdata⟩, -⟩ := listPlain_spec h termId
      rw [listIn_plain hsearch]
      refine ⟨fun key hkey => ?_, fun _ _ hs => by cases hs⟩
      rw [hkey] at ho
      show Sorted _ ((listPlain db query termId).data.map _)
      rw [hdata]
      exact ho.2.sublist (Paging.page_sublist _ _ _)
    | some search =>
      obtain ⟨window, hw⟩ := exists_window h (toTsQuery toLowerCase search) query.codePrefix
      rw [listIn_search hsearch]
      refine ⟨fun key hkey => (sorted_rows_iff h termId hw hkey).mpr
        (hcross search key hsearch hkey window hw), ?_⟩
      rintro - _ ⟨⟩
      obtain ⟨o, -, hsorted, hrows⟩ := listSearch_rows h termId hw
      rw [hrows]
      refine (hsorted.sublist (Paging.page_sublist _ _ _)).imp fun hle => ?_
      exact (Paging.lex_iff.mp hle).1

namespace Campus

def searchByCode : ListCoursesQuery :=
  { searchCs with
    search := some (JsString.lit "algo")
    sortBy := some .code
    search_length := by decide }

/-- A course whose title names the search, after one whose description does. -/
def algorithms : Catalog where
  course := [⟨1, "CS101", "Programming", 4⟩, ⟨2, "CS202", "Algorithms", 4⟩]
  sections := []
  term := []
  collation := byChar
  searchMatches := fun _ _ => true
  tsRank := fun _ c => if c.id = 2 then 3 else 1
  course_id := by decide
  course_code := by decide

/-- **A search by code starts with CS202.** -/
theorem algorithms_by_rank :
    ¬ ∀ db r, CatalogDb.Answers algorithms 0 db → listCourses id db searchByCode = .ok r →
      SortHonoured id algorithms searchByCode r := by
  intro h
  have hdb := algorithms.sorting_answers 0
  have hok : listCourses id (algorithms.sorting 0) searchByCode = .ok _ := listCourses_of_termId rfl
  obtain ⟨window, hw⟩ := exists_window hdb (toTsQuery id (JsString.lit "algo")) none
  have hperm := hw.perm (by decide +kernel)
  refine (sort_honoured_iff hdb hok).mp (h _ _ hdb hok) (JsString.lit "algo") .code (by decide +kernel) rfl
    window hw ⟨⟨2, "CS202", "Algorithms", 4⟩, hperm.mem_iff.mpr (by decide +kernel),
      ⟨1, "CS101", "Programming", 4⟩, hperm.mem_iff.mpr (by decide +kernel),
      (Paging.onSlice_perm hperm).mpr (by decide +kernel),
      (Paging.onSlice_perm hperm).mpr (by decide +kernel), by decide +kernel, by decide +kernel⟩

/-- Where all ranks are equal, the order by code stays. -/
theorem sort_honoured_seminars :
    SortHonoured id (seminars 2) searchByCode
      (listIn id ((seminars 2).sorting 0) searchByCode 1) := by
  refine (sort_honoured_iff ((seminars 2).sorting_answers 0) (listCourses_of_termId rfl)).mpr ?_
  rintro search key - - window - ⟨c, -, d, -, -, -, hrank, -⟩
  have hone : decide ((1 : Rat) ≤ 1) = false := hrank
  exact absurd hone (by decide)

end Campus

end Enroll
