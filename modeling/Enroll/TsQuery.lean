/-
# From the search box to a tsquery

`CoursesService.toTsQuery`: the only thing between what a visitor types and the full-text expression
of two raw queries.  Whatever is typed, the result is the words of the lower-cased input, in order,
each as a prefix term, joined by `&` (`toTsQuery_words`).

`toLowerCase` stands for `String.prototype.toLowerCase`, whose tables are those of Unicode; nothing
here depends on what it does to a string.
-/
import Enroll.JsString
import Enroll.Tokens

namespace Enroll

open JsString (lit)
open Tokens (Words)

/-- `[a-z0-9]`. -/
def isWordUnit (u : UInt16) : Bool := JsString.isDigit u || (97 ≤ u.toNat && u.toNat ≤ 122)

/-- `' '`. -/
def blank : UInt16 := 32

/-- `tokens.join(' & ')`. -/
def joinTerms (terms : List JsString) : JsString := (lit " & ").intercalate terms

/-- `t:*`. -/
def prefixTerm (t : JsString) : JsString := t ++ lit ":*"

section

variable (toLowerCase : JsString → JsString)

/-- `CoursesService.toTsQuery`. -/
def toTsQuery (input : JsString) : JsString :=
  let stripped := Tokens.squash isWordUnit blank false (toLowerCase input)
  let tokens := (Tokens.splitRuns JsString.isSpace [] false stripped).filter (fun t => !t.isEmpty)
  let terms := tokens.map prefixTerm
  if terms.isEmpty then [] else joinTerms terms

/-- No word unit is white space. -/
theorem isSpace_of_isWordUnit {u : UInt16} (h : isWordUnit u = true) : JsString.isSpace u = false := by
  simp only [isWordUnit, JsString.isDigit, Bool.or_eq_true, Bool.and_eq_true,
    decide_eq_true_eq] at h
  simp only [JsString.isSpace, Bool.or_eq_false_iff, Bool.and_eq_false_iff,
    decide_eq_false_iff_not, beq_eq_false_iff_ne]
  omega

theorem joinTerms_cons_cons (t t' : JsString) (ts : List JsString) :
    joinTerms (t :: t' :: ts) = t ++ lit " & " ++ joinTerms (t' :: ts) := by
  simp [joinTerms, List.intercalate, List.intersperse]

theorem mem_template {l : JsString} (h : l.all ((lit " &:*").contains ·) = true) :
    ∀ u ∈ l, u ∈ lit " &:*" :=
  fun u hu => List.contains_iff_mem.mp (List.all_eq_true.mp h u hu)

/-- The terms bring in no other unit than those of the template. -/
theorem mem_joinTerms {ts : List JsString} (h : ∀ t ∈ ts, ∀ u ∈ t, isWordUnit u = true) :
    ∀ u ∈ joinTerms (ts.map prefixTerm), isWordUnit u = true ∨ u ∈ lit " &:*" := by
  have hterm : ∀ t, (∀ u ∈ t, isWordUnit u = true) → ∀ u ∈ prefixTerm t,
      isWordUnit u = true ∨ u ∈ lit " &:*" := by
    intro t ht u hu
    rcases List.mem_append.mp hu with hu | hu
    · exact Or.inl (ht u hu)
    · exact Or.inr (mem_template (by decide) u hu)
  induction ts with
  | nil => simp [joinTerms]
  | cons t ts ih =>
    have ih := ih fun t' ht' => h t' (List.mem_cons_of_mem t ht')
    have ht := hterm t (h t List.mem_cons_self)
    cases ts with
    | nil => simpa [joinTerms] using ht
    | cons t' ts =>
      intro u hu
      rw [List.map_cons, List.map_cons, joinTerms_cons_cons] at hu
      rcases List.mem_append.mp hu with hu | hu
      · rcases List.mem_append.mp hu with hu | hu
        · exact ht u hu
        · exact Or.inr (mem_template (by decide) u hu)
      · exact ih u hu

/-- **The query is the words of the input and nothing else.**  It is empty when there are none, and
otherwise `t1:* & .. & tn:*`, with no other operator. -/
theorem toTsQuery_words (input : JsString) :
    ∃ ts, Words isWordUnit (toLowerCase input) ts ∧
      (∀ t ∈ ts, t ≠ [] ∧ ∀ u ∈ t, isWordUnit u = true) ∧
      (ts = [] ∧ toTsQuery toLowerCase input = [] ∨
        1 ≤ ts.length ∧ toTsQuery toLowerCase input = joinTerms (ts.map prefixTerm)) ∧
      ∀ u ∈ toTsQuery toLowerCase input, isWordUnit u = true ∨ u ∈ lit " &:*" := by
  have hblank : JsString.isSpace blank = true := by decide
  have htokens := Tokens.filter_splitRuns_squash hblank (fun _ => isSpace_of_isWordUnit)
    (toLowerCase input) [] false false (by simp) (by simp)
  have hwords : Words isWordUnit (toLowerCase input)
      (Tokens.tokens isWordUnit [] (toLowerCase input)) := @Tokens.words_tokens _ isWordUnit _ [] (by simp)
  have hquery : toTsQuery toLowerCase input
      = joinTerms ((Tokens.tokens isWordUnit [] (toLowerCase input)).map prefixTerm) := by
    simp only [toTsQuery, htokens]
    cases Tokens.tokens isWordUnit [] (toLowerCase input) with
    | nil => rfl
    | cons t ts => rfl
  refine ⟨_, hwords, fun t ht => hwords.mem ht, ?_, ?_⟩
  · rw [hquery]
    cases Tokens.tokens isWordUnit [] (toLowerCase input) with
    | nil => exact Or.inl ⟨rfl, rfl⟩
    | cons t ts => exact Or.inr ⟨by simp, rfl⟩
  · rw [hquery]
    exact mem_joinTerms fun t ht => (hwords.mem ht).2

example : toTsQuery id (lit "  (intro) algo'|!:*") = lit "intro:* & algo:*" := by decide +kernel

end

end Enroll
