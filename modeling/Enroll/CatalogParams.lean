/-
# The catalog's URL

`apps/web/src/lib/catalog-params.ts`: the catalog page reads its filters from the query of its URL
and writes them back into links and into the request to the API.

`catalog_url_round_trip`: what `parseCatalogParams` yields, `serializeCatalogParams` writes so that it
is read again as it was, and no two of its results share a query string.  The search must be
well-formed text, which a surrogate cut in two by `slice` is not, and the page must be below
`10 ^ 21`: past that `String` writes an exponent, and `parseInt` stops there.
-/
import Enroll.FormUrlencoded
import Enroll.JsInt
import Enroll.Shared

namespace Enroll

open JsString JsInt FormUrlencoded

/-! ## 1. The source's functions -/

structure CatalogParams where
  search : JsString
  /-- `none` is the empty string. -/
  department : Option Department
  page : JsInt
  limit : JsInt
  sortBy : CourseSortBy
  deriving DecidableEq, Repr

/-- PAGE_SIZES. -/
def pageSizes : List JsInt := [int 10, int 20, int 50, int 100]

/-- The value under a key of the parsed query. -/
inductive RawParam where
  | undefined
  | single (v : JsString)
  | multiple (v : List JsString)
  deriving DecidableEq, Repr

abbrev RawSearchParams := JsString → RawParam

def first : RawParam → Option JsString
  | .undefined => none
  | .single v => some v
  | .multiple v => v.head?

def parseDepartment (rawDept : JsString) : Option Department :=
  allDepartments.find? fun d => lit d.value = rawDept

def parseLimit (rawLimit : JsInt) : JsInt := if pageSizes.contains rawLimit then rawLimit else int 20

def defaultSort (search : JsString) : CourseSortBy := if search ≠ [] then .relevance else .code

def parseSortBy (search : JsString) (rawSort : Option JsString) : CourseSortBy :=
  if rawSort = some (lit "code") then .code
  else if rawSort = some (lit "title") then .title
  else if rawSort = some (lit "relevance") then .relevance
  else defaultSort search

def parsePage (rawPage : JsString) : JsInt := JsInt.max (int 1) (orElse (parseInt rawPage) (int 1))

def parseCatalogParams (sp : RawSearchParams) : CatalogParams :=
  let search := ((first (sp (lit "search"))).getD []).take 200
  { search
    department := parseDepartment ((first (sp (lit "department"))).getD [])
    page := parsePage ((first (sp (lit "page"))).getD [])
    limit := parseLimit (parseInt ((first (sp (lit "limit"))).getD []))
    sortBy := parseSortBy search (first (sp (lit "sortBy"))) }

/-- `qs.set(name, value)` when there is a value to write. -/
def setWhen (cond : Bool) (name value : JsString) (qs : Entries) : Entries :=
  if cond then FormUrlencoded.set (toUSV name) (toUSV value) qs else qs

/-- The entries behind the query string. -/
def catalogEntries (p : CatalogParams) : Entries :=
  let qs : Entries := []
  let qs := setWhen (p.search ≠ []) (lit "search") p.search qs
  let qs := setWhen p.department.isSome (lit "department")
    ((p.department.map fun d => lit d.value).getD []) qs
  let qs := setWhen (lt (int 1) p.page) (lit "page") (JsInt.toString p.page) qs
  let qs := setWhen (p.limit ≠ int 20) (lit "limit") (JsInt.toString p.limit) qs
  setWhen (p.sortBy ≠ defaultSort p.search) (lit "sortBy") (lit p.sortBy.value) qs

def serializeCatalogParams (p : CatalogParams) : List Char := serialize (catalogEntries p)

/-- `Object.fromEntries(new URLSearchParams(qs))`. -/
def decoded (qs : List Char) : RawSearchParams := fun key =>
  match last (toUSV key) (parse qs) with
  | some value => .single (ofChars value)
  | none => .undefined

/-! ## 2. Reading an entry back -/

theorem first_decoded (l : Entries) (key : JsString) :
    first (decoded (serialize l) key) = (last (toUSV key) l).map ofChars := by
  unfold decoded
  rw [parse_serialize]
  cases last (toUSV key) l with
  | none => rfl
  | some value => rfl

theorem last_setWhen_self {cond : Bool} {name value : JsString} {qs : Entries}
    (h : last (toUSV name) qs = none) :
    last (toUSV name) (setWhen cond name value qs) = if cond then some (toUSV value) else none := by
  unfold setWhen
  cases cond with
  | false => simpa using h
  | true => simp [last_set]

theorem last_setWhen_ne {cond : Bool} {name name' value : JsString} {qs : Entries}
    (h : toUSV name ≠ toUSV name') :
    last (toUSV name) (setWhen cond name' value qs) = last (toUSV name) qs := by
  unfold setWhen
  cases cond with
  | false => rfl
  | true => simp [last_set, h]

/-- What is read under a name that was written once. -/
theorem map_ofChars_if {cond : Bool} {value : JsString} (h : WellFormed value) :
    (if cond then some (toUSV value) else none).map ofChars = if cond then some value else none := by
  cases cond with
  | false => rfl
  | true => simp [h.ofChars_toUSV]

theorem wellFormed_lit (s : String) : WellFormed (lit s) := ⟨s.toList, rfl⟩

variable {p : CatalogParams}

theorem read_search (h : WellFormed p.search) :
    (first (decoded (serializeCatalogParams p) (lit "search"))).getD [] = p.search := by
  unfold serializeCatalogParams catalogEntries
  rw [first_decoded, last_setWhen_ne (by decide), last_setWhen_ne (by decide),
    last_setWhen_ne (by decide), last_setWhen_ne (by decide), last_setWhen_self rfl, map_ofChars_if h]
  by_cases hs : p.search = [] <;> simp [hs]

theorem read_department :
    (first (decoded (serializeCatalogParams p) (lit "department"))).getD []
      = (p.department.map fun d => lit d.value).getD [] := by
  unfold serializeCatalogParams catalogEntries
  rw [first_decoded, last_setWhen_ne (by decide), last_setWhen_ne (by decide),
    last_setWhen_ne (by decide), last_setWhen_self (last_setWhen_ne (by decide)), map_ofChars_if]
  · cases p.department <;> rfl
  · cases p.department with
    | none => exact ⟨[], rfl⟩
    | some d => exact wellFormed_lit _

theorem read_page (h : WellFormed (JsInt.toString p.page)) :
    (first (decoded (serializeCatalogParams p) (lit "page"))).getD []
      = if lt (int 1) p.page then JsInt.toString p.page else [] := by
  unfold serializeCatalogParams catalogEntries
  rw [first_decoded, last_setWhen_ne (by decide), last_setWhen_ne (by decide),
    last_setWhen_self (by rw [last_setWhen_ne (by decide), last_setWhen_ne (by decide)]; rfl),
    map_ofChars_if h]
  cases lt (int 1) p.page <;> rfl

theorem read_limit (h : WellFormed (JsInt.toString p.limit)) :
    (first (decoded (serializeCatalogParams p) (lit "limit"))).getD []
      = if p.limit ≠ int 20 then JsInt.toString p.limit else [] := by
  unfold serializeCatalogParams catalogEntries
  rw [first_decoded, last_setWhen_ne (by decide), last_setWhen_self (by
      rw [last_setWhen_ne (by decide), last_setWhen_ne (by decide), last_setWhen_ne (by decide)]
      rfl), map_ofChars_if h]
  by_cases hl : p.limit = int 20 <;> simp [hl]

theorem read_sortBy :
    first (decoded (serializeCatalogParams p) (lit "sortBy"))
      = if p.sortBy ≠ defaultSort p.search then some (lit p.sortBy.value) else none := by
  unfold serializeCatalogParams catalogEntries
  rw [first_decoded, last_setWhen_self (by
      rw [last_setWhen_ne (by decide), last_setWhen_ne (by decide), last_setWhen_ne (by decide),
        last_setWhen_ne (by decide)]
      rfl), map_ofChars_if (wellFormed_lit _)]
  simp

/-! ## 3. The fields -/

theorem parseDepartment_value (d : Option Department) :
    parseDepartment ((d.map fun d => lit d.value).getD []) = d := by
  match d with
  | none => decide +kernel
  | some .CS | some .MATH | some .ENGL | some .PHYS | some .BIOL | some .HIST | some .PSYC
  | some .ECON => decide +kernel

/-- The default on the parse side is the value that was left out. -/
theorem parseSortBy_default (search : JsString) (sortBy : CourseSortBy) :
    parseSortBy search (if sortBy ≠ defaultSort search then some (lit sortBy.value) else none)
      = sortBy := by
  by_cases h : sortBy = defaultSort search
  · rw [if_neg (by simpa using h), h]
    rfl
  · rw [if_pos h]
    cases sortBy with
    | code => rfl
    | title => rfl
    | relevance => rfl

/-- What `parseCatalogParams` can yield. -/
structure Parsed (p : CatalogParams) : Prop where
  search : p.search.length ≤ 200
  page : p.page = inf false ∨ ∃ x : Nat, 1 ≤ x ∧ Binary64.round x = x ∧ p.page = int x
  limit : p.limit ∈ pageSizes

/-- `Math.max(1, z || 1)`. -/
theorem max_one_orElse (z : Int) :
    JsInt.max (int 1) (orElse (int z) (int 1)) = int (if 1 ≤ z then z else 1) := by
  by_cases hz : z = 0
  · subst hz
    rfl
  · have hfst : orElse (int z) (int 1) = int z := by simp [orElse, hz]
    rw [hfst]
    unfold JsInt.max
    rw [if_neg (by simp)]
    by_cases h : 1 < z
    · rw [if_pos (by simpa [lt] using h), if_pos h.le]
    · rw [if_neg (by simpa [lt] using h)]
      split
      · rw [show z = 1 by omega]
      · rfl

theorem parsePage_cases (s : JsString) :
    parsePage s = inf false ∨ ∃ x : Nat, 1 ≤ x ∧ Binary64.round x = x ∧ parsePage s = int x := by
  have hone : ∃ x : Nat, 1 ≤ x ∧ Binary64.round x = x ∧ (int 1 : JsInt) = int x :=
    ⟨1, le_rfl, by decide, rfl⟩
  unfold parsePage
  rcases parseInt_cases s with h | ⟨neg, h⟩ | ⟨x, hx, h | h⟩ <;> rw [h]
  · exact Or.inr hone
  · cases neg with
    | false => exact Or.inl rfl
    | true => exact Or.inr hone
  · rw [max_one_orElse]
    split
    · rename_i hle
      exact Or.inr ⟨x, by omega, hx, rfl⟩
    · exact Or.inr hone
  · rw [max_one_orElse, if_neg (by omega)]
    exact Or.inr hone

theorem parsed (sp : RawSearchParams) : Parsed (parseCatalogParams sp) where
  search := List.length_take_le _ _
  page := parsePage_cases _
  limit := by
    show parseLimit _ ∈ pageSizes
    unfold parseLimit
    split
    · rename_i h
      simpa using h
    · decide

/-! ## 4. The round trip -/

theorem wellFormed_toString {x : Nat} (hx : Binary64.round x = x) (h : x < 10 ^ 21) :
    WellFormed (JsInt.toString (int x)) := by
  rw [toString_natCast]
  exact wellFormed_digits (natText_digits hx h).2.1

theorem parsePage_written {x : Nat} (hpos : 1 ≤ x) (hx : Binary64.round x = x) (h : x < 10 ^ 21) :
    parsePage (if lt (int 1) (int x) then JsInt.toString (int x) else []) = int x := by
  unfold parsePage
  by_cases hone : 1 < x
  · rw [if_pos (by simpa [lt] using hone), parseInt_toString hx h, max_one_orElse,
      if_pos (by omega)]
  · obtain rfl : x = 1 := by omega
    rfl

theorem limit_cases {limit : JsInt} (h : limit ∈ pageSizes) :
    WellFormed (JsInt.toString limit) ∧
      parseLimit (parseInt (if limit ≠ int 20 then JsInt.toString limit else [])) = limit := by
  have hsize : ∃ x : Nat, limit = int x ∧ Binary64.round x = x ∧ x < 10 ^ 21 := by
    simp only [pageSizes, List.mem_cons, List.not_mem_nil, or_false] at h
    rcases h with rfl | rfl | rfl | rfl
    · exact ⟨10, rfl, by decide, by decide⟩
    · exact ⟨20, rfl, by decide, by decide⟩
    · exact ⟨50, rfl, by decide, by decide⟩
    · exact ⟨100, rfl, by decide, by decide⟩
  obtain ⟨x, rfl, hx, hlt⟩ := hsize
  refine ⟨wellFormed_toString hx hlt, ?_⟩
  by_cases h20 : (int x : JsInt) = int 20
  · rw [if_neg (by simpa using h20), h20]
    rfl
  · rw [if_pos h20, parseInt_toString hx hlt, parseLimit, if_pos (by simpa using h)]

/-- What was parsed is parsed again. -/
theorem Parsed.round_trip (hp : Parsed p) (hpage : lt p.page (int (10 ^ 21)) = true)
    (hsearch : WellFormed p.search) :
    parseCatalogParams (decoded (serializeCatalogParams p)) = p := by
  obtain ⟨x, hpos, hx, hint⟩ : ∃ x : Nat, 1 ≤ x ∧ Binary64.round x = x ∧ p.page = int x := by
    refine hp.page.resolve_left fun hinf => ?_
    rw [hinf] at hpage
    exact absurd hpage (by decide)
  have hlt : x < 10 ^ 21 := by
    rw [hint] at hpage
    have : (x : Int) < 10 ^ 21 := by simpa [lt] using hpage
    omega
  obtain ⟨hlimit, hparse⟩ := limit_cases hp.limit
  have htext : WellFormed (JsInt.toString p.page) := by
    rw [hint]
    exact wellFormed_toString hx hlt
  have htake : p.search.take 200 = p.search := List.take_of_length_le hp.search
  unfold parseCatalogParams
  simp only
  rw [read_search hsearch, read_department, read_page htext, read_limit hlimit, read_sortBy, htake,
    parseDepartment_value, hparse, parseSortBy_default, hint, parsePage_written hpos hx hlt, ← hint]

/-- **Catalog URLs round-trip**, and tell what was parsed apart. -/
theorem catalog_url_round_trip (sp : RawSearchParams)
    (hpage : lt (parseCatalogParams sp).page (int (10 ^ 21)) = true)
    (hsearch : WellFormed (parseCatalogParams sp).search) :
    parseCatalogParams (decoded (serializeCatalogParams (parseCatalogParams sp)))
        = parseCatalogParams sp ∧
      ∀ sp', lt (parseCatalogParams sp').page (int (10 ^ 21)) = true →
        WellFormed (parseCatalogParams sp').search →
        serializeCatalogParams (parseCatalogParams sp)
          = serializeCatalogParams (parseCatalogParams sp') →
        parseCatalogParams sp = parseCatalogParams sp' := by
  have hround := (parsed sp).round_trip hpage hsearch
  refine ⟨hround, fun sp' hpage' hsearch' heq => ?_⟩
  rw [← hround, heq, (parsed sp').round_trip hpage' hsearch']

/-- A search for two words on the third page, sorted by code. -/
def algoSearch : RawSearchParams := fun key =>
  if key = lit "search" then .multiple [lit "algo & r\u00e9seau", lit "x"]
  else if key = lit "page" then .single (lit " 3rd")
  else if key = lit "limit" then .single (lit "50")
  else if key = lit "sortBy" then .single (lit "code")
  else .undefined

theorem wellFormed_algoSearch : WellFormed (parseCatalogParams algoSearch).search :=
  ⟨"algo & r\u00e9seau".toList, by decide +kernel⟩

theorem catalog_url_round_trip_algo :
    parseCatalogParams (decoded (serializeCatalogParams (parseCatalogParams algoSearch)))
        = parseCatalogParams algoSearch ∧
      ∀ sp', lt (parseCatalogParams sp').page (int (10 ^ 21)) = true →
        WellFormed (parseCatalogParams sp').search →
        serializeCatalogParams (parseCatalogParams algoSearch)
          = serializeCatalogParams (parseCatalogParams sp') →
        parseCatalogParams algoSearch = parseCatalogParams sp' :=
  catalog_url_round_trip algoSearch (by decide +kernel) wellFormed_algoSearch

example : serializeCatalogParams (parseCatalogParams algoSearch)
    = "search=algo+%26+r%C3%A9seau&page=3&limit=50&sortBy=code".toList := by decide +kernel

end Enroll
