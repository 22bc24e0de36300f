/-
# The conflict that is enforced and the one that is displayed

`hasTimeConflict` beside the slots of the schedule grid, on the patterns of the catalog: `days
start-end` with times on a 12-hour clock.  The grid puts the hours below 8 into the afternoon and
the API does not, which moves a class as a whole unless it starts before one o'clock and ends after
it.  To the API such a class ends before it starts and never conflicts with anything, so the two
agree exactly on the patterns that do not cross one o'clock, or do not meet
(`hasTimeConflict_displayed_iff`).
-/
import Enroll.ScheduleGrid

namespace Enroll

/-! ## 1. The notation of the catalog -/

/-- `h:mm` on a 12-hour clock. -/
structure ClockTime where
  h : Nat
  m : Nat
  hour : 1 ≤ h ∧ h ≤ 12
  minute : m < 60

namespace ClockTime

variable (t : ClockTime)

def text : List Char := (toString t.h).toList ++ ':' :: (padStart 2 t.m).toList

/-- The minutes as they are written. -/
def written : Nat := t.h * 60 + t.m

/-- The minutes since midnight, when hours below 8 are afternoon. -/
def displayed : Nat := (if t.h < 8 then t.h + 12 else t.h) * 60 + t.m

end ClockTime

inductive DayLetter where
  | M | T | W | R | F
  deriving DecidableEq, Repr

namespace DayLetter

def char : DayLetter → Char
  | M => 'M'
  | T => 'T'
  | W => 'W'
  | R => 'R'
  | F => 'F'

def number : DayLetter → Nat
  | M => 1
  | T => 2
  | W => 3
  | R => 4
  | F => 5

theorem number_inj {d d' : DayLetter} (h : d.number = d'.number) : d = d' := by
  cases d <;> cases d' <;> first | rfl | exact absurd h (by decide)

end DayLetter

/-- A pattern of the catalog. -/
structure CatalogPattern where
  days : List DayLetter
  start : ClockTime
  finish : ClockTime
  meets : days ≠ []
  forward : start.displayed < finish.displayed

namespace CatalogPattern

variable (p q : CatalogPattern)

def dayText : List Char := p.days.map DayLetter.char

def timeText : List Char := p.start.text ++ '-' :: p.finish.text

def text : String := String.ofList (p.dayText ++ ' ' :: p.timeText)

/-- The class starts before one o'clock and ends at one or later. -/
def CrossesOne : Prop := 8 ≤ p.start.h ∧ p.finish.h < 8

/-- The two classes meet at one time of a common day. -/
def Meets : Prop :=
  (∃ d ∈ p.days, d ∈ q.days) ∧ p.start.displayed < q.finish.displayed ∧
    q.start.displayed < p.finish.displayed

/-- The slots that the grid parses overlap on some day; `a` and `b` are the rest of the rows. -/
def ShownOverlapping (a b : MyEnrollmentCourse × String) : Prop :=
  ∃ s ∈ Grid.parseMeetingPattern p.text a.1.code a.1.title a.2,
    ∃ s' ∈ Grid.parseMeetingPattern q.text b.1.code b.1.title b.2, s.overlaps s' = true

end CatalogPattern

/-! ## 2. What the two parsers read -/

/-- Neither white space nor one of the separators. -/
def isPlain (c : Char) : Bool := !isSpace c && c != ':' && c != '-'

theorem hour_text : ∀ h : Nat, h < 13 →
    number (toString h).toList = .fin (h : Rat) ∧ (toString h).toList.all isPlain = true := by
  decide +kernel

theorem minute_text : ∀ m : Nat, m < 60 →
    number (padStart 2 m).toList = .fin (m : Rat) ∧ (padStart 2 m).toList.all isPlain = true ∧
      (padStart 2 m).toList ≠ [] := by
  decide +kernel

theorem isPlain_ne {c : Char} (h : isPlain c = true) : c ≠ ':' ∧ c ≠ '-' ∧ isSpace c = false := by
  simp only [isPlain, Bool.and_eq_true, bne_iff_ne, ne_eq, Bool.not_eq_true'] at h
  exact ⟨h.1.2, h.2, h.1.1⟩

namespace ClockTime

variable (t : ClockTime)

theorem plain_h : ∀ c ∈ (toString t.h).toList, isPlain c = true :=
  List.all_eq_true.mp (hour_text t.h (by have := t.hour; omega)).2

theorem plain_m : ∀ c ∈ (padStart 2 t.m).toList, isPlain c = true :=
  List.all_eq_true.mp (minute_text t.m t.minute).2.1

theorem isEmpty_text : t.text.isEmpty = false := by simp [text]

/-- The text has no white space and no dash. -/
theorem mem_text {c : Char} (h : c ∈ t.text) : isSpace c = false ∧ c ≠ '-' := by
  rcases List.mem_append.mp h with h | h
  · have := isPlain_ne (t.plain_h c h)
    exact ⟨this.2.2, this.2.1⟩
  · rcases List.mem_cons.mp h with rfl | h
    · decide
    · have := isPlain_ne (t.plain_m c h)
      exact ⟨this.2.2, this.2.1⟩

theorem splitOn_text :
    t.text.splitOn ':' = [(toString t.h).toList, (padStart 2 t.m).toList] := by
  have hh : ':' ∉ (toString t.h).toList := fun h => (isPlain_ne (t.plain_h _ h)).1 rfl
  have hm : ':' ∉ (padStart 2 t.m).toList := fun h => (isPlain_ne (t.plain_m _ h)).1 rfl
  rw [text, List.splitOn_append_cons_self_of_not_mem hh, List.splitOn_eq_singleton hm]

theorem number_h : number (toString t.h).toList = .fin (t.h : Rat) :=
  (hour_text t.h (by have := t.hour; omega)).1

theorem number_m : number (padStart 2 t.m).toList = .fin (t.m : Rat) := (minute_text t.m t.minute).1

/-- **The API takes the hours as they are written.** -/
theorem parseTime_text : parseTime t.text = .fin (t.written : Rat) := by
  simp only [parseTime, splitOn_text, number_h, number_m, JsNumber.scale, JsNumber.add, written]
  norm_cast

/-- **The grid puts the hours below 8 into the afternoon.** -/
theorem grid_parseTime_text : Grid.parseTime t.text = .fin (t.displayed : Rat) := by
  simp only [Grid.parseTime, splitOn_text, List.map_cons, number_h, number_m, JsNumber.lt, displayed]
  by_cases h : t.h < 8
  · have h' : (t.h : Rat) < 8 := by exact_mod_cast h
    simp only [h, h', decide_true, if_true, JsNumber.add, JsNumber.scale]
    norm_cast
  · have h' : ¬ (t.h : Rat) < 8 := by exact_mod_cast h
    simp only [h, h', decide_false, if_false, Bool.false_eq_true, JsNumber.add, JsNumber.scale]
    norm_cast

end ClockTime

/-- A time is before eight and afternoon, or from eight on and where it is written. -/
theorem ClockTime.side (t : ClockTime) :
    (t.h < 8 ∧ 60 ≤ t.written ∧ t.written < 480 ∧ t.displayed = t.written + 720) ∨
      (8 ≤ t.h ∧ 480 ≤ t.written ∧ t.written < 780 ∧ t.displayed = t.written) := by
  have hh := t.hour
  have hm := t.minute
  unfold displayed written
  split
  · omega
  · omega

/-- A word in front is read to its end. -/
theorem splitSpaces_word {w : List Char} (hw : ∀ c ∈ w, isSpace c = false) (hne : w ≠ []) :
    ∀ (cur : List Char) (b : Bool) (s : List Char),
      splitSpaces cur b (w ++ s) = splitSpaces (w.reverse ++ cur) false s := by
  induction w with
  | nil => exact absurd rfl hne
  | cons c w ih =>
    intro cur b s
    have hc : isSpace c = false := hw c List.mem_cons_self
    rw [List.cons_append, splitSpaces, if_neg (by simp [hc])]
    by_cases hnil : w = []
    · subst hnil
      simp
    · rw [ih (fun x hx => hw x (List.mem_cons_of_mem c hx)) hnil]
      simp

/-- Text with no white space at either end. -/
theorem trim_eq_self {c d : Char} {s : List Char} (hc : isSpace c = false)
    (hd : isSpace d = false) : trim (c :: (s ++ [d])) = c :: (s ++ [d]) := by
  unfold trim
  rw [List.dropWhile_cons_of_neg (by simp [hc])]
  have hrev : (c :: (s ++ [d])).reverse = d :: (s.reverse ++ [c]) := by simp
  rw [hrev, List.dropWhile_cons_of_neg (by simp [hd]), ← hrev, List.reverse_reverse]

namespace CatalogPattern

variable (p q : CatalogPattern)

theorem isSpace_dayText {c : Char} (h : c ∈ p.dayText) : isSpace c = false := by
  obtain ⟨d, -, rfl⟩ := List.mem_map.mp h
  cases d <;> decide

theorem dayText_ne_nil : p.dayText ≠ [] := fun h => p.meets (List.map_eq_nil_iff.mp h)

theorem isSpace_timeText {c : Char} (h : c ∈ p.timeText) : isSpace c = false := by
  rcases List.mem_append.mp h with h | h
  · exact (p.start.mem_text h).1
  · rcases List.mem_cons.mp h with rfl | h
    · decide
    · exact (p.finish.mem_text h).1

theorem timeText_ne_nil : p.timeText ≠ [] := by simp [timeText]

theorem trim_text : trim p.text.toList = p.dayText ++ ' ' :: p.timeText := by
  obtain ⟨c, days, hdays⟩ := List.exists_cons_of_ne_nil p.dayText_ne_nil
  have htime := List.dropLast_append_getLast p.timeText_ne_nil
  have hc : isSpace c = false := p.isSpace_dayText (hdays ▸ List.mem_cons_self)
  have hd : isSpace (p.timeText.getLast p.timeText_ne_nil) = false :=
    p.isSpace_timeText (List.getLast_mem _)
  rw [text, String.toList_ofList, hdays, ← htime]
  have := trim_eq_self (s := days ++ ' ' :: p.timeText.dropLast) hc hd
  simpa using this

/-- The two words of the pattern. -/
theorem splitSpaces_text : splitSpaces [] false (trim p.text.toList) = [p.dayText, p.timeText] := by
  have hd := splitSpaces_word (fun _ => p.isSpace_dayText) p.dayText_ne_nil [] false
    (' ' :: p.timeText)
  have ht := splitSpaces_word (fun _ => p.isSpace_timeText) p.timeText_ne_nil [] true []
  rw [trim_text, hd, splitSpaces, if_pos (by decide), if_neg (by decide)]
  rw [List.append_nil] at ht
  rw [ht]
  simp [splitSpaces]

theorem splitOn_timeText : p.timeText.splitOn '-' = [p.start.text, p.finish.text] := by
  have hs : '-' ∉ p.start.text := fun h => (p.start.mem_text h).2 rfl
  have hf : '-' ∉ p.finish.text := fun h => (p.finish.mem_text h).2 rfl
  rw [timeText, List.splitOn_append_cons_self_of_not_mem hs, List.splitOn_eq_singleton hf]

theorem parse_text : parseMeetingPattern p.text =
    p.days.map fun d => ⟨d.number, .fin (p.start.written : Rat), .fin (p.finish.written : Rat)⟩ := by
  have hday : (fun c => Option.map (fun day => (⟨day, .fin (p.start.written : Rat),
      .fin (p.finish.written : Rat)⟩ : TimeSlot)) (dayCode c)) ∘ DayLetter.char
      = fun d => some ⟨d.number, .fin (p.start.written : Rat), .fin (p.finish.written : Rat)⟩ := by
    funext d
    cases d <;> rfl
  simp only [parseMeetingPattern, splitSpaces_text, splitOn_timeText, ClockTime.parseTime_text,
    ClockTime.isEmpty_text, JsNumber.isNaN, dayText, List.filterMap_map, hday]
  simp [List.filterMap_eq_map']

theorem grid_parse_text (courseCode title room : String) :
    Grid.parseMeetingPattern p.text courseCode title room =
      p.days.map fun d => ⟨d.number, .fin (p.start.displayed : Rat),
        .fin (p.finish.displayed : Rat), courseCode, title, room⟩ := by
  have hday : (fun c => Option.map (fun day => (⟨day, .fin (p.start.displayed : Rat),
      .fin (p.finish.displayed : Rat), courseCode, title, room⟩ : Grid.ParsedSlot)) (Grid.dayCode c))
        ∘ DayLetter.char
      = fun d => some ⟨d.number, .fin (p.start.displayed : Rat), .fin (p.finish.displayed : Rat),
          courseCode, title, room⟩ := by
    funext d
    cases d <;> rfl
  simp only [Grid.parseMeetingPattern, splitSpaces_text, splitOn_timeText,
    ClockTime.grid_parseTime_text, ClockTime.isEmpty_text, JsNumber.isNaN, dayText,
    List.filterMap_map, hday]
  simp [List.filterMap_eq_map']

/-! ## 3. When the two agree -/

/-- **The API compares the times as they are written.** -/
theorem hasTimeConflict_text_iff : hasTimeConflict p.text q.text = true ↔
    (∃ d ∈ p.days, d ∈ q.days) ∧ p.start.written < q.finish.written ∧
      q.start.written < p.finish.written := by
  simp only [hasTimeConflict, parse_text, List.any_map, List.any_eq_true, Function.comp,
    slotsOverlap, JsNumber.lt, Bool.and_eq_true, beq_iff_eq, decide_eq_true_eq, Rat.natCast_lt_natCast]
  constructor
  · rintro ⟨d, hd, d', hd', ⟨hday, hlt⟩, hlt'⟩
    exact ⟨⟨d, hd, DayLetter.number_inj hday ▸ hd'⟩, hlt, hlt'⟩
  · rintro ⟨⟨d, hd, hd'⟩, hlt, hlt'⟩
    exact ⟨d, hd, d, hd', ⟨rfl, hlt⟩, hlt'⟩

/-- **The grid shows the classes at the times they are displayed.** -/
theorem shownOverlapping_iff (a b : MyEnrollmentCourse × String) :
    p.ShownOverlapping q a b ↔ p.Meets q := by
  simp only [ShownOverlapping, Meets, grid_parse_text, List.mem_map, Grid.ParsedSlot.overlaps,
    Grid.ParsedSlot.clashes]
  constructor
  · rintro ⟨-, ⟨d, hd, rfl⟩, -, ⟨d', hd', rfl⟩, h⟩
    simp only [JsNumber.lt, Bool.and_eq_true, beq_iff_eq, decide_eq_true_eq, Rat.natCast_lt_natCast] at h
    exact ⟨⟨d, hd, DayLetter.number_inj h.1 ▸ hd'⟩, h.2⟩
  · rintro ⟨⟨d, hd, hd'⟩, hlt, hlt'⟩
    refine ⟨_, ⟨d, hd, rfl⟩, _, ⟨d, hd', rfl⟩, ?_⟩
    simp only [JsNumber.lt, Bool.and_eq_true, beq_iff_eq, decide_eq_true_eq, Rat.natCast_lt_natCast]
    exact ⟨trivial, hlt, hlt'⟩

/-- A class stays on its side of one o'clock, or crosses it; it does not come back. -/
theorem sides :
    (p.start.h < 8 ∧ p.finish.h < 8) ∨ (8 ≤ p.start.h ∧ 8 ≤ p.finish.h) ∨ p.CrossesOne := by
  have hforward := p.forward
  unfold CrossesOne
  rcases p.start.side with hs | hs <;> rcases p.finish.side with hf | hf <;> omega

/-- On one side of one o'clock all times are moved by the same amount. -/
theorem displayed_lt_iff (hp : ¬p.CrossesOne) (hq : ¬q.CrossesOne) :
    (p.start.displayed < q.finish.displayed ∧ q.start.displayed < p.finish.displayed) ↔
      p.start.written < q.finish.written ∧ q.start.written < p.finish.written := by
  have hp' := p.sides
  have hq' := q.sides
  unfold CrossesOne at hp hq hp' hq'
  rcases p.start.side with hs | hs <;> rcases p.finish.side with hf | hf <;>
    rcases q.start.side with hs' | hs' <;> rcases q.finish.side with hf' | hf' <;> omega

/-- A class that crosses one o'clock ends, as it is written, before any morning class starts, and
starts after any afternoon class ends. -/
theorem not_written_lt (h : p.CrossesOne ∨ q.CrossesOne) :
    ¬(p.start.written < q.finish.written ∧ q.start.written < p.finish.written) := by
  have hp := p.sides
  have hq := q.sides
  unfold CrossesOne at h hp hq
  rcases p.start.side with hs | hs <;> rcases p.finish.side with hf | hf <;>
    rcases q.start.side with hs' | hs' <;> rcases q.finish.side with hf' | hf' <;> omega

theorem meets_self : p.Meets p := by
  obtain ⟨d, hd⟩ := List.exists_mem_of_ne_nil _ p.meets
  exact ⟨⟨d, hd, hd⟩, p.forward, p.forward⟩

/-- Two classes of which neither crosses one o'clock conflict when they meet; with one that
crosses there is no conflict. -/
theorem hasTimeConflict_iff_meets :
    hasTimeConflict p.text q.text = true ↔ (¬p.CrossesOne ∧ ¬q.CrossesOne) ∧ p.Meets q := by
  rw [hasTimeConflict_text_iff]
  constructor
  · rintro ⟨hday, hlt⟩
    have hp : ¬p.CrossesOne := fun h => p.not_written_lt q (Or.inl h) hlt
    have hq : ¬q.CrossesOne := fun h => p.not_written_lt q (Or.inr h) hlt
    exact ⟨⟨hp, hq⟩, hday, (p.displayed_lt_iff q hp hq).mpr hlt⟩
  · rintro ⟨⟨hp, hq⟩, hday, hlt⟩
    exact ⟨hday, (p.displayed_lt_iff q hp hq).mp hlt⟩

/-- **The enforced conflict is the displayed one exactly when neither class crosses one o'clock,
or the two do not meet.**  A pattern conflicts with itself exactly when it does not cross. -/
theorem hasTimeConflict_displayed_iff (a b : MyEnrollmentCourse × String) :
    ((hasTimeConflict p.text q.text = true ↔ p.ShownOverlapping q a b) ↔
        (¬p.CrossesOne ∧ ¬q.CrossesOne) ∨ ¬p.Meets q) ∧
      (hasTimeConflict p.text p.text = true ↔ ¬p.CrossesOne) := by
  rw [hasTimeConflict_iff_meets, hasTimeConflict_iff_meets, shownOverlapping_iff]
  constructor
  · constructor
    · intro h
      by_cases hm : p.Meets q
      · exact Or.inl (h.mpr hm).1
      · exact Or.inr hm
    · rintro (h | h)
      · exact ⟨fun h' => h'.2, fun hm => ⟨h, hm⟩⟩
      · exact ⟨fun h' => h'.2, fun hm => absurd hm h⟩
  · exact ⟨fun h => h.1.1, fun h => ⟨⟨h, h⟩, p.meets_self⟩⟩

end CatalogPattern

namespace Campus

/-- Tuesday and Thursday, 12:30 to 1:45. -/
def overLunch : CatalogPattern where
  days := [.T, .R]
  start := ⟨12, 30, by decide, by decide⟩
  finish := ⟨1, 45, by decide, by decide⟩
  meets := by decide
  forward := by decide

/-- **A class that crosses one o'clock does not even conflict with itself.** -/
theorem over_lunch_twice :
    ¬ ∀ (p q : CatalogPattern) (a b : MyEnrollmentCourse × String),
      hasTimeConflict p.text q.text = true ↔ p.ShownOverlapping q a b := by
  intro h
  let row : MyEnrollmentCourse × String := (⟨0, "CS101", "", 3⟩, "")
  have hconflict := (h overLunch overLunch row row).mpr
    ((CatalogPattern.shownOverlapping_iff _ _ _ _).mpr overLunch.meets_self)
  rw [CatalogPattern.hasTimeConflict_iff_meets] at hconflict
  exact hconflict.1.1 ⟨by decide, by decide⟩

example : overLunch.text = "TR 12:30-1:45" := by decide

end Campus

end Enroll
