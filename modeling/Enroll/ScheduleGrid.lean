/-
# The schedule grid

`schedule-grid.tsx`: how the profile page reads meeting patterns, and where it puts the slots of a
day.  The page has a parser of its own, beside the one of `time-conflict.ts`: hours below 8 are
afternoon, and there is no Saturday or Sunday.

The loop over a day's slots closes a group as soon as a slot starts when everything before it has
ended, and hands the group on.  It is `sweep`, with the hand-over as a parameter: `assignColumns`
for the slots that are drawn, and the group itself for what a group is (`groups`).
-/
import Enroll.Shared
import Enroll.TimeConflict
import Mathlib.Data.List.Sort

namespace Enroll

namespace JsNumber

/-- `x <= y`; false as soon as one side is `NaN`. -/
def le : JsNumber → JsNumber → Bool
  | nan, _ => false
  | _, nan => false
  | inf s, inf s' => s || !s'
  | inf s, fin _ => s
  | fin _, inf s => !s
  | fin p, fin q => decide (p ≤ q)

/-- `Math.max(x, y)`. -/
def max (x y : JsNumber) : JsNumber :=
  if x.isNaN || y.isNaN then nan else if x.lt y then y else x

end JsNumber

namespace Grid

/-! ## 1. Slots -/

/-- `DAY_CODES`. -/
def dayCode : Char → Option Nat
  | 'M' => some 1
  | 'T' => some 2
  | 'W' => some 3
  | 'R' => some 4
  | 'F' => some 5
  | _ => none

structure ParsedSlot where
  day : Nat
  startMin : JsNumber
  endMin : JsNumber
  courseCode : String
  title : String
  room : String
  deriving DecidableEq

/-- `parseTime`: classes do not start before 8 in the morning. -/
def parseTime (raw : List Char) : JsNumber :=
  match (raw.splitOn ':').map number with
  | h :: m :: _ =>
    let h := if h.lt (.fin 8) then h.add (.fin 12) else h
    (h.scale 60).add m
  | _ => .nan

/-- `parseMeetingPattern`. -/
def parseMeetingPattern (pattern courseCode title room : String) : List ParsedSlot :=
  match splitSpaces [] false (trim pattern.toList) with
  | [dayStr, timeRange] =>
    match timeRange.splitOn '-' with
    | startRaw :: endRaw :: _ =>
      if startRaw.isEmpty || endRaw.isEmpty then []
      else
        let startMin := parseTime startRaw
        let endMin := parseTime endRaw
        if startMin.isNaN || endMin.isNaN then []
        else dayStr.filterMap fun ch =>
          (dayCode ch).map fun day => ⟨day, startMin, endMin, courseCode, title, room⟩
    | _ => []
  | _ => []

/-- `COLORS`. -/
def colors : List String :=
  ["bg-pine/20 border-pine/30 text-pine-dark", "bg-amber/20 border-amber/30 text-amber",
    "bg-full/20 border-full/30 text-full", "bg-wait/20 border-wait/30 text-wait",
    "bg-blue-500/20 border-blue-500/30 text-blue-800",
    "bg-purple-500/20 border-purple-500/30 text-purple-800"]

/-- `ParsedSlot & { colorClass }`. -/
structure Slot extends ParsedSlot where
  colorClass : String
  deriving DecidableEq

/-- The slots of one row, which all have its color. -/
def slotsOf (e : MyEnrollment) (i : Nat) : List Slot :=
  (parseMeetingPattern e.sec.meetingPattern e.course.code e.course.title e.sec.room).map fun p =>
    { p with colorClass := colors.getD (i % colors.length) "" }

/-- The slots of the whole week. -/
def slots (enrollments : List MyEnrollment) : List Slot :=
  enrollments.zipIdx.flatMap fun p => slotsOf p.1 p.2

/-- The times of two slots overlap. -/
def ParsedSlot.clashes (a b : ParsedSlot) : Bool :=
  a.startMin.lt b.endMin && b.startMin.lt a.endMin

/-- Two slots overlap on one day. -/
def ParsedSlot.overlaps (a b : ParsedSlot) : Bool := a.day == b.day && a.clashes b

/-! ## 2. Columns -/

/-- `(typeof sortedSlots)[0] & { colIndex, numCols, isConflict }`. -/
structure PositionedSlot extends Slot where
  colIndex : Nat
  numCols : Nat
  isConflict : Bool
  deriving DecidableEq

/-- A column is opened with a slot, so it has a last one. -/
structure Column where
  lastSlot : Slot
  /-- newest first -/
  before : List Slot

def Column.push (c : Column) (slot : Slot) : Column := ⟨slot, c.lastSlot :: c.before⟩

/-- The search through the columns: the `colIndex` of the slot, and the columns with it. -/
def place (slot : Slot) : List Column → Nat × List Column
  | [] => (0, [⟨slot, []⟩])
  | c :: columns =>
    if c.lastSlot.endMin.le slot.startMin then (0, c.push slot :: columns)
    else ((place slot columns).1 + 1, c :: (place slot columns).2)

/-- The first loop of `assignColumns`: each slot with its `colIndex`, and the columns. -/
def fill (columns : List Column) : List Slot → List (Slot × Nat) × List Column
  | [] => ([], columns)
  | slot :: group =>
    let placed := place slot columns
    let rest := fill placed.2 group
    ((slot, placed.1) :: rest.1, rest.2)

/-- `assignColumns`. -/
def assignColumns (group : List Slot) : List PositionedSlot :=
  let filled := fill [] group
  filled.1.map fun p =>
    { p.1 with
      colIndex := p.2
      numCols := filled.2.length
      isConflict := decide (filled.2.length > 1) }

/-! ## 3. Groups -/

/-- `[...daySlots].sort((a, b) => a.startMin - b.startMin)`, a stable sort. -/
def sortByStart (daySlots : List Slot) : List Slot :=
  daySlots.insertionSort fun a b => !b.startMin.lt a.startMin

section

variable {β : Type} (close : List Slot → List β)

/-- Where the loop over the sorted slots is. -/
structure Sweep (β : Type) where
  positionedSlots : List β
  currentGroup : List Slot
  groupEnd : JsNumber

def sweepStep (st : Sweep β) (slot : Slot) : Sweep β :=
  if st.groupEnd.le slot.startMin then
    ⟨st.positionedSlots ++ close st.currentGroup, [slot], slot.endMin⟩
  else ⟨st.positionedSlots, st.currentGroup ++ [slot], st.groupEnd.max slot.endMin⟩

/-- The loop, with `close` for what is done with a group. -/
def sweep (sortedSlots : List Slot) : List β :=
  let st := sortedSlots.foldl (sweepStep close) ⟨[], [], .fin (-1)⟩
  st.positionedSlots ++ close st.currentGroup

end

/-- The positioned slots of one day. -/
def positionedSlots (daySlots : List Slot) : List PositionedSlot :=
  sweep assignColumns (sortByStart daySlots)

/-- On the empty group `assignColumns` returns at once. -/
def whole (group : List Slot) : List (List Slot) := if group.isEmpty then [] else [group]

/-- The groups that `assignColumns` is called on. -/
def groups (daySlots : List Slot) : List (List Slot) := sweep whole (sortByStart daySlots)

/-- One column of the page: `dayNum` is 1 to 5. -/
def dayColumn (enrollments : List MyEnrollment) (dayNum : Nat) : List PositionedSlot :=
  positionedSlots ((slots enrollments).filter fun s => s.day == dayNum)

end Grid

end Enroll
