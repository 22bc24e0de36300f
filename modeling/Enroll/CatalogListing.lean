/-
# What a call of `listCourses` returns

A page of a listing: without a search, of an answer of the database; with one, of the candidates (the
first 500 of an answer to the full-text query), answered by the database and then sorted by rank.
-/
import Enroll.CoursesService

namespace Enroll

open Paging (Order Answer Sorted Tied slice page lex)

variable {cat : Catalog} {now : Time} {db : CatalogDb} {query : ListCoursesQuery}

/-! ## 1. Orders -/

theorem Catalog.order_orderLe (cat : Catalog) (o : Option CourseOrderBy) : Order (cat.orderLe o) := by
  match o with
  | some .title =>
    exact ⟨fun _ _ _ => cat.collation.order.trans _ _ _, fun _ _ => cat.collation.order.total _ _⟩
  | some .code =>
    exact ⟨fun _ _ _ => cat.collation.order.trans _ _ _, fun _ _ => cat.collation.order.total _ _⟩
  | none => exact ⟨fun _ _ _ _ _ => rfl, fun _ _ => rfl⟩

theorem Catalog.order_rankLe (cat : Catalog) (tsquery : JsString) : Order (cat.rankLe tsquery) where
  trans := by
    intro a b c hab hbc
    simp only [Catalog.rankLe, decide_eq_true_eq] at hab hbc ⊢
    exact Rat.le_trans hbc hab
  total := by
    intro a b
    simp only [Catalog.rankLe, Bool.or_eq_true, decide_eq_true_eq]
    exact Rat.le_total

/-! ## 2. Rows and ids -/

theorem Catalog.course_nodup (cat : Catalog) : cat.course.Nodup := cat.course_id.of_map _

theorem Catalog.id_inj (cat : Catalog) {c d : CourseRow} (hc : c ∈ cat.course) (hd : d ∈ cat.course)
    (h : c.id = d.id) : c = d :=
  List.inj_on_of_nodup_map cat.course_id hc hd h

theorem Catalog.ftsMatches_sublist (cat : Catalog) (tsquery : JsString) (codePrefix : Option String) :
    (cat.ftsMatches tsquery codePrefix).Sublist cat.course := List.filter_sublist

/-- The ids of some courses pick out those courses. -/
theorem Catalog.filter_idIn (cat : Catalog) {window : List CourseRow} (h : window ⊆ cat.course) :
    cat.course.filter (CourseWhereInput.accepts ⟨some (window.map CourseRow.id), none⟩)
      = cat.course.filter fun c => window.contains c := by
  refine List.filter_congr fun c hc => ?_
  rw [Bool.eq_iff_iff]
  simp only [CourseWhereInput.accepts, Option.all_some, hasCodePrefix, Option.all_none, Bool.and_true,
    List.contains_iff_mem, List.mem_map]
  constructor
  · rintro ⟨d, hd, hid⟩
    exact cat.id_inj (h hd) hc hid ▸ hd
  · exact fun hmem => ⟨c, hmem, rfl⟩

/-- `rankById` knows the rank of every candidate. -/
theorem Catalog.rankOf_window (cat : Catalog) {window : List CourseRow} (h : window ⊆ cat.course)
    (tsquery : JsString) {c : CourseRow} (hc : c ∈ window) :
    rankOf (window.map fun c => ⟨c.id, cat.tsRank tsquery c⟩) c.id = cat.tsRank tsquery c := by
  have hsome : ∃ r, (window.map fun c => (⟨c.id, cat.tsRank tsquery c⟩ : FtsRow)).reverse.find?
      (fun r => r.id = c.id) = some r := by
    refine Option.isSome_iff_exists.mp (List.find?_isSome.mpr ⟨⟨c.id, cat.tsRank tsquery c⟩, ?_, ?_⟩)
    · exact List.mem_reverse.mpr (List.mem_map.mpr ⟨c, hc, rfl⟩)
    · simp
  obtain ⟨r, hr⟩ := hsome
  have hid : r.id = c.id := by simpa using List.find?_some hr
  obtain ⟨d, hd, rfl⟩ := List.mem_map.mp (List.mem_reverse.mp (List.mem_of_find?_eq_some hr))
  unfold rankOf
  rw [hr, Option.map_some, Option.getD_some, cat.id_inj (h hd) (h hc) hid]

/-! ## 3. The two routes -/

/-- The courses that a query asks for. -/
def Catalog.matching (cat : Catalog) (toLowerCase : JsString → JsString) (query : ListCoursesQuery) :
    List CourseRow :=
  match query.searchTerm with
  | some search => cat.ftsMatches (toTsQuery toLowerCase search) query.codePrefix
  | none => cat.course.filter (hasCodePrefix query.codePrefix)

theorem map_toCourseRow (l : List CourseWithSections) :
    (l.map CourseListItem.of).map CourseListItem.toCourseRow
      = l.map CourseWithSections.toCourseRow := by
  rw [List.map_map]
  rfl

/-- **Without a search**: a page of an answer. -/
theorem listPlain_spec (h : db.Answers cat now) (termId : TermId) :
    (∃ o, Answer (cat.orderLe (courseOrderBy query.sort))
        (cat.course.filter (hasCodePrefix query.codePrefix)) o ∧
      (listPlain db query termId).data.map CourseListItem.toCourseRow
        = page query.limit (query.page - 1) o) ∧
    (listPlain db query termId).total = (cat.course.filter (hasCodePrefix query.codePrefix)).length ∧
    (listPlain db query termId).totalPages
      = totalPages (cat.course.filter (hasCodePrefix query.codePrefix)).length query.limit := by
  have hwhere : CourseWhereInput.accepts ⟨none, query.codePrefix⟩ = hasCodePrefix query.codePrefix := by
    funext c
    simp [CourseWhereInput.accepts]
  refine ⟨?_, ?_, ?_⟩
  · obtain ⟨o, ho, hdata, -⟩ := h.findMany ⟨⟨none, query.codePrefix⟩, courseOrderBy query.sort,
      some ((query.page - 1) * query.limit, query.limit), termId⟩
    rw [hwhere] at ho
    exact ⟨o, ho, (map_toCourseRow _).trans hdata⟩
  · show db.count _ = _
    rw [h.count, hwhere]
  · show totalPages (db.count _) _ = _
    rw [h.count, hwhere]

/-- The courses behind the rows of a full-text answer. -/
def IsWindow (cat : Catalog) (tsquery : JsString) (codePrefix : Option String) (ftsRows : List FtsRow)
    (window : List CourseRow) : Prop :=
  ∃ o, Answer (cat.rankLe tsquery) (cat.ftsMatches tsquery codePrefix) o ∧
    window = o.take ftsCandidateWindow ∧
    ftsRows = window.map fun c => ⟨c.id, cat.tsRank tsquery c⟩

theorem exists_window (h : db.Answers cat now) (tsquery : JsString) (codePrefix : Option String) :
    ∃ window, IsWindow cat tsquery codePrefix (db.queryFts tsquery codePrefix ftsCandidateWindow)
      window := by
  obtain ⟨o, ho, hrows⟩ := h.queryFts tsquery codePrefix ftsCandidateWindow
  exact ⟨_, o, ho, rfl, hrows⟩

section

variable {tsquery : JsString} {codePrefix : Option String} {ftsRows : List FtsRow}
  {window : List CourseRow}

theorem IsWindow.subset (h : IsWindow cat tsquery codePrefix ftsRows window) :
    window ⊆ cat.ftsMatches tsquery codePrefix := by
  obtain ⟨o, ho, rfl, -⟩ := h
  exact fun c hc => ho.1.subset (List.mem_of_mem_take hc)

theorem IsWindow.subset_course (h : IsWindow cat tsquery codePrefix ftsRows window) :
    window ⊆ cat.course :=
  fun _ hc => (cat.ftsMatches_sublist _ _).subset (h.subset hc)

theorem IsWindow.nodup (h : IsWindow cat tsquery codePrefix ftsRows window) : window.Nodup := by
  obtain ⟨o, ho, rfl, -⟩ := h
  exact ((ho.1.nodup_iff.mpr (cat.course_nodup.filter _)).sublist (List.take_sublist _ _))

theorem IsWindow.length (h : IsWindow cat tsquery codePrefix ftsRows window) :
    window.length = min ftsCandidateWindow (cat.ftsMatches tsquery codePrefix).length := by
  obtain ⟨o, ho, rfl, -⟩ := h
  rw [List.length_take, ho.1.length_eq]

/-- The window and the table give the same courses. -/
theorem IsWindow.filter_perm (h : IsWindow cat tsquery codePrefix ftsRows window) :
    (cat.course.filter fun c => window.contains c).Perm window := by
  refine (List.perm_ext_iff_of_nodup (cat.course_nodup.filter _) h.nodup).mpr fun c => ?_
  simp only [List.mem_filter, List.contains_iff_mem]
  exact ⟨fun hc => hc.2, fun hc => ⟨h.subset_course hc, hc⟩⟩

end

/-- The last query of a search. -/
def searchArgs (query : ListCoursesQuery) (termId : TermId) (window : List CourseRow) :
    CourseFindManyArgs :=
  ⟨⟨some (window.map CourseRow.id), none⟩, courseOrderBy query.sort, none, termId⟩

section

variable {tsquery : JsString} {window : List CourseRow}
  (hw : IsWindow cat tsquery query.codePrefix
    (db.queryFts tsquery query.codePrefix ftsCandidateWindow) window)
include hw

/-- The last query is answered by the window, in some order. -/
theorem searchArgs_answer (h : db.Answers cat now) (termId : TermId) :
    Answer (cat.orderLe (courseOrderBy query.sort)) window
      ((db.findMany (searchArgs query termId window)).map CourseWithSections.toCourseRow) := by
  obtain ⟨o, ho, hdata, -⟩ := h.findMany (searchArgs query termId window)
  have hfilter : cat.course.filter (searchArgs query termId window).wher.accepts
      = cat.course.filter fun c => window.contains c := cat.filter_idIn hw.subset_course
  rw [hfilter] at ho
  rw [hdata]
  exact ⟨ho.1.trans hw.filter_perm, ho.2⟩

theorem listSearch_nil (termId : TermId) (hempty : window = []) :
    listSearch db query termId tsquery = ⟨[], query.page, query.limit, 0, 0⟩ := by
  obtain ⟨_, -, -, hrows⟩ := hw
  unfold listSearch
  simp [hrows, hempty]

/-- **With a search**: a page of the candidates, which are answered and sorted again. -/
theorem listSearch_spec (h : db.Answers cat now) (termId : TermId) (hne : window ≠ []) :
    (listSearch db query termId tsquery).data.map CourseListItem.toCourseRow
        = page query.limit (query.page - 1)
          (((db.findMany (searchArgs query termId window)).map CourseWithSections.toCourseRow).mergeSort
            (cat.rankLe tsquery)) ∧
      (listSearch db query termId tsquery).total = (cat.ftsMatches tsquery query.codePrefix).length ∧
      (listSearch db query termId tsquery).totalPages
        = totalPages (cat.ftsMatches tsquery query.codePrefix).length query.limit := by
  have hanswer := searchArgs_answer hw h termId
  obtain ⟨_, -, -, hrows⟩ := id hw
  have hids : (db.queryFts tsquery query.codePrefix ftsCandidateWindow).map FtsRow.id
      = window.map CourseRow.id := by
    rw [hrows, List.map_map]
    rfl
  have hrank : ∀ c ∈ db.findMany (searchArgs query termId window),
      rankOf (db.queryFts tsquery query.codePrefix ftsCandidateWindow) c.id
        = cat.tsRank tsquery c.toCourseRow := by
    intro c hc
    rw [hrows]
    exact cat.rankOf_window hw.subset_course tsquery (hanswer.1.subset (List.mem_map_of_mem hc))
  unfold listSearch
  simp only [hids, List.length_map, h.countFts]
  rw [if_neg (by simpa using hne)]
  refine ⟨?_, rfl, rfl⟩
  rw [map_toCourseRow]
  unfold page slice
  rw [List.map_take, List.map_drop]
  congr 2
  refine List.map_mergeSort fun c hc d hd => ?_
  show decide _ = decide _
  rw [hrank c hc, hrank d hd]

end

/-! ## 4. The term and the route -/

theorem listIn_plain {toLowerCase : JsString → JsString} (hsearch : query.searchTerm = none)
    (termId : TermId) : listIn toLowerCase db query termId = listPlain db query termId := by
  unfold listIn
  rw [hsearch]

theorem listIn_search {toLowerCase : JsString → JsString} {search : JsString}
    (hsearch : query.searchTerm = some search) (termId : TermId) :
    listIn toLowerCase db query termId
      = listSearch db query termId (toTsQuery toLowerCase search) := by
  unfold listIn
  rw [hsearch]

theorem of_listCourses {toLowerCase : JsString → JsString} {r : PaginatedCourses}
    (h : listCourses toLowerCase db query = .ok r) : ∃ termId, r = listIn toLowerCase db query termId := by
  unfold listCourses at h
  cases hterm : listTermId db query with
  | error e =>
    rw [hterm] at h
    cases h
  | ok termId =>
    rw [hterm] at h
    exact ⟨termId, (Except.ok.inj h).symm⟩

theorem listCourses_of_termId {toLowerCase : JsString → JsString} {termId : TermId}
    (h : listTermId db query = .ok termId) :
    listCourses toLowerCase db query = .ok (listIn toLowerCase db query termId) := by
  unfold listCourses
  rw [h]
  rfl

/-- A query without a term finds one when some term is open. -/
theorem exists_listTermId (h : db.Answers cat now)
    (hterm : query.termId ≠ none ∨ ∃ t ∈ cat.term, t.isOpen now = true) :
    ∃ termId, listTermId db query = .ok termId := by
  unfold listTermId resolveActiveTermId
  cases htermId : query.termId with
  | some termId => exact ⟨termId, rfl⟩
  | none =>
    cases hdb : db.findFirstTerm with
    | some termId => exact ⟨termId, rfl⟩
    | none =>
      obtain ⟨t, ht, hopen⟩ := hterm.resolve_left (not_not.mpr htermId)
      exact absurd hopen (by simp [h.findFirstTerm_none hdb t ht])

end Enroll
