/-
# What the API answers

The types of `packages/shared` that the web app reads, with the fields that a modelled page uses.
-/
import Enroll.Schema

namespace Enroll

/-! ## 1. The catalog -/

/-- Course code prefixes recognized by the catalog. -/
inductive Department where
  | CS | MATH | ENGL | PHYS | BIOL | HIST | PSYC | ECON
  deriving DecidableEq, Repr

/-- The string value of a department. -/
def Department.value : Department → String
  | CS => "CS"
  | MATH => "MATH"
  | ENGL => "ENGL"
  | PHYS => "PHYS"
  | BIOL => "BIOL"
  | HIST => "HIST"
  | PSYC => "PSYC"
  | ECON => "ECON"

/-- All departments in display order. -/
def allDepartments : List Department :=
  [.CS, .MATH, .ENGL, .PHYS, .BIOL, .HIST, .PSYC, .ECON]

/-- Sort options for the course list endpoint. -/
inductive CourseSortBy where
  | code | title | relevance
  deriving DecidableEq, Repr

def CourseSortBy.value : CourseSortBy → String
  | code => "code"
  | title => "title"
  | relevance => "relevance"

/-! ## 2. The student's enrollments -/

structure MyEnrollmentSection where
  id : SectionId
  sectionNumber : String
  instructorName : String
  meetingPattern : String
  room : String
  deriving DecidableEq, Repr

structure MyEnrollmentCourse where
  id : CourseId
  code : String
  title : String
  credits : Int
  deriving DecidableEq, Repr

/-- A row of `GET /enrollments`. -/
structure MyEnrollment where
  id : EnrollmentId
  status : EnrollmentStatus
  enrolledAt : Time
  /-- present only when the row is WAITLISTED -/
  waitlistPosition : Option Nat := none
  sec : MyEnrollmentSection
  course : MyEnrollmentCourse
  deriving DecidableEq, Repr

end Enroll
