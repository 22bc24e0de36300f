import Enroll.Seats
import Enroll.Answers
import Enroll.Waitlist
import Enroll.Duplicates
import Enroll.QueueJump
import Enroll.Ownership
import Enroll.Timetable
import Enroll.TokenRotation
import Enroll.DeadFamilies
import Enroll.AuditLog
import Enroll.AuditDelivery
import Enroll.AuditTrail
import Enroll.Sweep
import Enroll.Wakeups
import Enroll.Access
import Enroll.ReorderPage
import Enroll.Inbox
import Enroll.Notices
import Enroll.SignedIn
import Enroll.TokenPurge
import Enroll.CatalogCache
import Enroll.Cleanup
import Enroll.AdvisorHold
import Enroll.LifeCycle
import Enroll.LockOrder
import Enroll.TokenChain
import Enroll.TokenReplay
import Enroll.Retention
import Enroll.SpelledIds
import Enroll.SanitizeNext
import Enroll.SwapAgrees
import Enroll.DisplayedConflict
import Enroll.GridLayout
import Enroll.TsQuery
import Enroll.CatalogParams
import Enroll.CatalogPages
import Enroll.CatalogSort
import Enroll.Ranks
import Enroll.Converge
import Enroll.EnrollmentPreflight
