/-
# Listing the catalog

`CoursesService.listCourses`.  It sends up to four queries, and what they return is not determined by
the catalog alone: rows that tie under an `ORDER BY`, or come without one, stand in an order of the
database's choosing.  `CatalogDb` holds the answers during one call; `CatalogDb.Answers` says which
answers a catalog can give.
-/
import Enroll.Paging
import Enroll.Shared
import Enroll.TsQuery

namespace Enroll

open Paging (Order Answer Sorted slice page lex)

/-! ## 1. The catalog -/

/-- A row of the table `Course`. -/
structure CourseRow where
  id : CourseId
  code : String
  title : String
  credits : Int
  deriving DecidableEq, Repr

/-- A row of the table `Term`, as far as the choice of the active term goes. -/
structure TermRow where
  id : TermId
  registrationOpens : Time
  registrationCloses : Time
  startDate : Time
  deriving DecidableEq, Repr

def TermRow.isOpen (now : Time) (t : TermRow) : Bool :=
  t.registrationOpens ≤ now && now ≤ t.registrationCloses

/-- The order in which the database sorts text. -/
structure Collation where
  le : String → String → Bool
  order : Order le

structure Catalog where
  course : List CourseRow
  sections : List Section
  term : List TermRow
  collation : Collation
  /-- `"searchVector" @@ to_tsquery('english', q)` -/
  searchMatches : JsString → CourseRow → Bool
  /-- `ts_rank("searchVector", to_tsquery('english', q))` -/
  tsRank : JsString → CourseRow → Rat
  course_id : (course.map CourseRow.id).Nodup
  course_code : (course.map CourseRow.code).Nodup

/-! ## 2. Queries and their answers -/

/-- `"code" LIKE 'CS%'`, `code: { startsWith: 'CS' }`. -/
def codeStartsWith (codePrefix : String) (c : CourseRow) : Bool :=
  codePrefix.toList.isPrefixOf c.code.toList

def hasCodePrefix (codePrefix : Option String) (c : CourseRow) : Bool :=
  codePrefix.all fun p => codeStartsWith p c

structure CourseWhereInput where
  /-- `id: { in: .. }` -/
  idIn : Option (List CourseId)
  codeStartsWith : Option String
  deriving DecidableEq, Repr

def CourseWhereInput.accepts (w : CourseWhereInput) (c : CourseRow) : Bool :=
  (w.idIn.all fun ids => ids.contains c.id) && hasCodePrefix w.codeStartsWith c

inductive CourseOrderBy where
  | title | code
  deriving DecidableEq, Repr

def Catalog.orderLe (cat : Catalog) : Option CourseOrderBy → CourseRow → CourseRow → Bool
  | some .title => fun a b => cat.collation.le a.title b.title
  | some .code => fun a b => cat.collation.le a.code b.code
  | none => fun _ _ => true

/-- `ORDER BY rank DESC`. -/
def Catalog.rankLe (cat : Catalog) (tsquery : JsString) (a b : CourseRow) : Bool :=
  cat.tsRank tsquery b ≤ cat.tsRank tsquery a

structure CourseFindManyArgs where
  wher : CourseWhereInput
  orderBy : Option CourseOrderBy
  /-- `skip` and `take` -/
  range : Option (Nat × Nat)
  /-- of the sections that are included -/
  termId : TermId
  deriving DecidableEq, Repr

structure CourseWithSections extends CourseRow where
  sections : List Section
  deriving DecidableEq, Repr

structure FtsRow where
  id : CourseId
  rank : Rat
  deriving DecidableEq, Repr

/-- What the database answers during a call. -/
structure CatalogDb where
  /-- `term.findFirst` among the open terms, `startDate` descending -/
  findFirstTerm : Option TermId
  queryFts : JsString → Option String → Nat → List FtsRow
  countFts : JsString → Option String → Nat
  count : CourseWhereInput → Nat
  findMany : CourseFindManyArgs → List CourseWithSections

def Catalog.ftsMatches (cat : Catalog) (tsquery : JsString) (codePrefix : Option String) :
    List CourseRow :=
  cat.course.filter fun c => cat.searchMatches tsquery c && hasCodePrefix codePrefix c

def Catalog.inTerm (cat : Catalog) (termId : TermId) (c : CourseRow) : List Section :=
  cat.sections.filter fun s => s.courseId = c.id && s.termId = termId

/-- The answers are those of the catalog. -/
structure CatalogDb.Answers (cat : Catalog) (now : Time) (db : CatalogDb) : Prop where
  findFirstTerm_some : ∀ id, db.findFirstTerm = some id → ∃ t ∈ cat.term, t.id = id ∧
    t.isOpen now = true ∧ ∀ t' ∈ cat.term, t'.isOpen now = true → t'.startDate ≤ t.startDate
  findFirstTerm_none : db.findFirstTerm = none → ∀ t ∈ cat.term, t.isOpen now = false
  queryFts : ∀ tsquery codePrefix limit, ∃ o,
    Answer (cat.rankLe tsquery) (cat.ftsMatches tsquery codePrefix) o ∧
      db.queryFts tsquery codePrefix limit
        = (o.take limit).map fun c => ⟨c.id, cat.tsRank tsquery c⟩
  countFts : ∀ tsquery codePrefix,
    db.countFts tsquery codePrefix = (cat.ftsMatches tsquery codePrefix).length
  count : ∀ w, db.count w = (cat.course.filter w.accepts).length
  findMany : ∀ args, ∃ o,
    Answer (cat.orderLe args.orderBy) (cat.course.filter args.wher.accepts) o ∧
      (db.findMany args).map CourseWithSections.toCourseRow
        = (match args.range with | none => o | some r => slice r.1 r.2 o) ∧
      ∀ c ∈ db.findMany args, c.sections.Perm (cat.inTerm args.termId c.toCourseRow)

/-! ## 3. The source's function -/

/-- A query that has passed validation. -/
structure ListCoursesQuery where
  termId : Option TermId := none
  department : Option Department := none
  search : Option JsString := none
  page : Nat := 1
  limit : Nat := 20
  sortBy : Option CourseSortBy := none
  search_length : ∀ s ∈ search, s.length ≤ 200 := by decide
  page_pos : 1 ≤ page := by decide
  limit_pos : 1 ≤ limit := by decide
  limit_le : limit ≤ 100 := by decide

structure CourseListItem extends CourseRow where
  sectionCount : Nat
  totalCapacity : Int
  totalEnrolled : Int
  deriving DecidableEq, Repr

structure PaginatedCourses where
  data : List CourseListItem
  page : Nat
  limit : Nat
  total : Nat
  totalPages : Nat
  deriving DecidableEq, Repr

/-- FTS_CANDIDATE_WINDOW. -/
def ftsCandidateWindow : Nat := 500

def resolveActiveTermId (db : CatalogDb) : Except String TermId :=
  match db.findFirstTerm with
  | some id => .ok id
  | none => .error "No term is currently open for registration. Pass an explicit termId."

/-- `query.search && query.search.trim().length > 0`: the term, if there is one. -/
def ListCoursesQuery.searchTerm (query : ListCoursesQuery) : Option JsString :=
  query.search.filter fun s => s ≠ [] && (JsString.trim s).length > 0

def ListCoursesQuery.codePrefix (query : ListCoursesQuery) : Option String :=
  query.department.map Department.value

/-- The sort order, with its default. -/
def ListCoursesQuery.sort (query : ListCoursesQuery) : CourseSortBy :=
  query.sortBy.getD (if query.search.any (· ≠ []) then .relevance else .code)

def courseOrderBy : CourseSortBy → Option CourseOrderBy
  | .title => some .title
  | .code => some .code
  | .relevance => none

/-- `rankById.get(id) ?? 0`. -/
def rankOf (rankById : List FtsRow) (id : CourseId) : Rat :=
  ((rankById.reverse.find? fun r => r.id = id).map FtsRow.rank).getD 0

def CourseListItem.of (c : CourseWithSections) : CourseListItem where
  toCourseRow := c.toCourseRow
  sectionCount := c.sections.length
  totalCapacity := c.sections.foldl (fun sum s => sum + s.capacity) 0
  totalEnrolled := c.sections.foldl (fun sum s => sum + s.enrolledCount) 0

def totalPages (total limit : Nat) : Nat := max 1 ((total + limit - 1) / limit)

/-- Step 2 without a search: the database paginates. -/
def listPlain (db : CatalogDb) (query : ListCoursesQuery) (termId : TermId) : PaginatedCourses :=
  let wher : CourseWhereInput := ⟨none, query.codePrefix⟩
  let total := db.count wher
  let courses := db.findMany ⟨wher, courseOrderBy query.sort,
    some ((query.page - 1) * query.limit, query.limit), termId⟩
  ⟨courses.map CourseListItem.of, query.page, query.limit, total, totalPages total query.limit⟩

/-- Steps 1 and 2 with a search: the candidates are sorted by rank and sliced in memory. -/
def listSearch (db : CatalogDb) (query : ListCoursesQuery) (termId : TermId) (tsquery : JsString) :
    PaginatedCourses :=
  let ftsRows := db.queryFts tsquery query.codePrefix ftsCandidateWindow
  let searchTotal := db.countFts tsquery query.codePrefix
  let searchIds := ftsRows.map FtsRow.id
  if searchIds.length = 0 then ⟨[], query.page, query.limit, 0, 0⟩
  else
    let courses := db.findMany ⟨⟨some searchIds, none⟩, courseOrderBy query.sort, none, termId⟩
    let rows := courses.mergeSort fun a b => rankOf ftsRows b.id ≤ rankOf ftsRows a.id
    let rows := slice ((query.page - 1) * query.limit) query.limit rows
    ⟨rows.map CourseListItem.of, query.page, query.limit, searchTotal,
      totalPages searchTotal query.limit⟩

/-- The response, once the term is known. -/
def listIn (toLowerCase : JsString → JsString) (db : CatalogDb) (query : ListCoursesQuery)
    (termId : TermId) : PaginatedCourses :=
  match query.searchTerm with
  | some search => listSearch db query termId (toTsQuery toLowerCase search)
  | none => listPlain db query termId

/-- `query.termId ?? (await this.resolveActiveTermId())`. -/
def listTermId (db : CatalogDb) (query : ListCoursesQuery) : Except String TermId :=
  match query.termId with
  | some termId => .ok termId
  | none => resolveActiveTermId db

/-- `CoursesService.listCourses`. -/
def listCourses (toLowerCase : JsString → JsString) (db : CatalogDb) (query : ListCoursesQuery) :
    Except String PaginatedCourses := do
  let termId ← listTermId db query
  return listIn toLowerCase db query termId

end Enroll
