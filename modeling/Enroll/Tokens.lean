/-
# Words in a text

The words of a text are its maximal runs of letters, for any notion of letter: `Words p s ts` says
that `ts` are the words of `s`, in order.  `Words.unique` says that a text has its words in one way
only, and `words_tokens` computes them.

`squash` and `splitRuns` are the usual pieces of such a tokenizer: every run of characters that are
neither letters nor blank becomes one blank, and the text is split at the runs of blanks.  Without
the empty pieces that leaves the words (`filter_splitRuns_squash`).
-/
import Mathlib.Data.List.Basic

namespace Tokens

variable {α : Type} (p : α → Bool)

/-! ## 1. Words -/

/-- `ts` are the maximal runs of letters in the text. -/
inductive Words : List α → List (List α) → Prop
  | nil : Words [] []
  /-- what is not a letter stands between words -/
  | gap {c : α} {s : List α} {ts : List (List α)} (hc : p c = false) (h : Words s ts) :
      Words (c :: s) ts
  /-- a word goes on to the end of the text, or to a character that is not a letter -/
  | word {t s : List α} {ts : List (List α)} (hne : t ≠ []) (ht : ∀ c ∈ t, p c = true)
      (hs : ∀ c ∈ s.head?, p c = false) (h : Words s ts) : Words (t ++ s) (t :: ts)

/-- The word that has been read, if there is one. -/
def flush (cur : List α) : List (List α) := if cur.isEmpty then [] else [cur.reverse]

/-- The words of the text, behind the letters `cur` that have been read backwards. -/
def tokens (cur : List α) : List α → List (List α)
  | [] => flush cur
  | c :: s => if p c then tokens (c :: cur) s else flush cur ++ tokens [] s

variable {p}

@[simp] theorem flush_nil : flush ([] : List α) = [] := rfl

theorem flush_of_ne_nil {cur : List α} (h : cur ≠ []) : flush cur = [cur.reverse] := by
  simp [flush, h]

/-- **`tokens` finds the words.** -/
theorem words_tokens : ∀ {s cur : List α}, (∀ c ∈ cur, p c = true) →
    Words p (cur.reverse ++ s) (tokens p cur s) := by
  intro s
  induction s with
  | nil =>
    intro cur hcur
    unfold tokens
    by_cases hnil : cur = []
    · subst hnil
      exact .nil
    · rw [flush_of_ne_nil hnil]
      exact .word (by simpa using hnil) (by simpa using hcur) (by simp) .nil
  | cons c s ih =>
    intro cur hcur
    unfold tokens
    by_cases hc : p c = true
    · rw [if_pos hc]
      have hcur' : ∀ d ∈ c :: cur, p d = true := by simpa [hc] using hcur
      simpa using ih hcur'
    · have hrest : Words p s (tokens p [] s) := @ih [] (by simp)
      have hgap : Words p (c :: s) (tokens p [] s) := .gap (by simpa using hc) hrest
      rw [if_neg hc]
      by_cases hnil : cur = []
      · subst hnil
        exact hgap
      · rw [flush_of_ne_nil hnil]
        exact .word (by simpa using hnil) (by simpa using hcur) (by simpa using hc) hgap

theorem tokens_append {t s : List α} (ht : ∀ c ∈ t, p c = true) (cur : List α) :
    tokens p cur (t ++ s) = tokens p (t.reverse ++ cur) s := by
  induction t generalizing cur with
  | nil => rfl
  | cons c t ih =>
    rw [List.cons_append, tokens, if_pos (ht c List.mem_cons_self),
      ih fun x hx => ht x (List.mem_cons_of_mem c hx)]
    simp

theorem Words.eq_tokens {s : List α} {ts : List (List α)} (h : Words p s ts) :
    ts = tokens p [] s := by
  induction h with
  | nil => rfl
  | gap hc h ih =>
    rw [tokens, if_neg (by simp [hc])]
    exact ih
  | @word t s ts hne ht hs h ih =>
    rw [tokens_append ht, List.append_nil]
    have hflush : flush t.reverse = [t] := by rw [flush_of_ne_nil (by simpa using hne)]; simp
    cases s with
    | nil =>
      rw [ih]
      exact hflush.symm
    | cons c s =>
      have hc : p c = false := hs c rfl
      rw [tokens, if_neg (by simp [hc])] at ih ⊢
      rw [ih, hflush]
      rfl

/-- **A text has its words in one way only.** -/
theorem Words.unique {s : List α} {ts ts' : List (List α)} (h : Words p s ts) (h' : Words p s ts') :
    ts = ts' := h.eq_tokens.trans h'.eq_tokens.symm

theorem Words.mem {s : List α} {ts : List (List α)} (h : Words p s ts) {t : List α} (ht : t ∈ ts) :
    t ≠ [] ∧ ∀ c ∈ t, p c = true := by
  induction h with
  | nil => exact absurd ht List.not_mem_nil
  | gap _ _ ih => exact ih ht
  | word hne hall _ _ ih =>
    rcases List.mem_cons.mp ht with rfl | ht
    · exact ⟨hne, hall⟩
    · exact ih ht

/-! ## 2. A tokenizer in two passes -/

section

variable (p) (blank : α) (isBlank : α → Bool)

/-- Every run of characters that are neither letters nor `blank` becomes one `blank`; `inRun` after
such a character. -/
def squash [DecidableEq α] (inRun : Bool) : List α → List α
  | [] => []
  | c :: s =>
    if p c || c == blank then c :: squash false s
    else if inRun then squash true s
    else blank :: squash true s

/-- The text is split at the runs of blanks; `inRun` after a blank. -/
def splitRuns (cur : List α) (inRun : Bool) : List α → List (List α)
  | [] => [cur.reverse]
  | c :: s =>
    if isBlank c then
      if inRun then splitRuns cur true s else cur.reverse :: splitRuns [] true s
    else splitRuns (c :: cur) false s

end

theorem filter_reverse_cons (cur : List α) (l : List (List α)) :
    (cur.reverse :: l).filter (fun t => !t.isEmpty)
      = flush cur ++ l.filter (fun t => !t.isEmpty) := by
  by_cases hnil : cur = []
  · subst hnil
    rfl
  · rw [flush_of_ne_nil hnil]
    simp [hnil]

variable [DecidableEq α] {blank : α} {isBlank : α → Bool}

/-- **The two passes leave the words**, when no letter is a blank. -/
theorem filter_splitRuns_squash (hblank : isBlank blank = true)
    (hp : ∀ c, p c = true → isBlank c = false) :
    ∀ (s cur : List α) (inRun split : Bool), (inRun = true → split = true) →
      (split = true → cur = []) →
      (splitRuns isBlank cur split (squash p blank inRun s)).filter (fun t => !t.isEmpty)
        = tokens p cur s := by
  have hpb : p blank = false := by
    by_contra h
    have := hp blank (by simpa using h)
    exact absurd (this.symm.trans hblank) (by simp)
  intro s
  induction s with
  | nil =>
    intro cur inRun split _ _
    have := filter_reverse_cons cur ([] : List (List α))
    simpa [squash, splitRuns, tokens] using this
  | cons c s ih =>
    intro cur inRun split hrun hcur
    -- a blank that the second pass reads, whatever it stands for
    have hstep (inRun' : Bool) : (splitRuns isBlank cur split (blank :: squash p blank inRun' s)).filter
        (fun t => !t.isEmpty) = flush cur ++ tokens p [] s := by
      rw [splitRuns, if_pos hblank]
      cases split with
      | true =>
        obtain rfl := hcur rfl
        rw [if_pos rfl, ih [] inRun' true (fun _ => rfl) fun _ => rfl]
        rfl
      | false =>
        rw [if_neg (by simp), filter_reverse_cons, ih [] inRun' true (fun _ => rfl) fun _ => rfl]
    by_cases hc : p c = true
    · rw [squash, if_pos (by simp [hc]), splitRuns, if_neg (by simp [hp c hc]), tokens, if_pos hc,
        ih (c :: cur) false false (by simp) (by simp)]
    · rw [tokens, if_neg hc]
      by_cases hcb : c = blank
      · rw [squash, if_pos (by simp [hcb]), hcb]
        exact hstep false
      · rw [squash, if_neg (by simp [hc, hcb])]
        cases inRun with
        | false =>
          rw [if_neg (by simp)]
          exact hstep true
        | true =>
          obtain rfl := hrun rfl
          obtain rfl := hcur rfl
          rw [if_pos rfl, ih [] true true (fun _ => rfl) fun _ => rfl]
          rfl

end Tokens
