import PrisonVisits.Booking.Trail
import PrisonVisits.Desk.Run
import PrisonVisits.Desk.Sessions
import PrisonVisits.Proofs.Atomicity
import PrisonVisits.Proofs.AuditDelivery
import PrisonVisits.Proofs.AuditTrails
import PrisonVisits.Proofs.BlockedEdits
import PrisonVisits.Proofs.BookingPrisoners
import PrisonVisits.Proofs.Cancellations
import PrisonVisits.Proofs.ConflictReports
import PrisonVisits.Proofs.Corruption
import PrisonVisits.Proofs.Durability
import PrisonVisits.Proofs.Expiry
import PrisonVisits.Proofs.FreshBookings
import PrisonVisits.Proofs.History
import PrisonVisits.Proofs.Independence
import PrisonVisits.Proofs.LocationText
import PrisonVisits.Proofs.Lookups
import PrisonVisits.Proofs.Narrowing
import PrisonVisits.Proofs.OneBooked
import PrisonVisits.Proofs.OvertakenSessions
import PrisonVisits.Proofs.Pairing
import PrisonVisits.Proofs.PendingChanges
import PrisonVisits.Proofs.Prisons
import PrisonVisits.Proofs.Recurrences
import PrisonVisits.Proofs.Reservations
import PrisonVisits.Proofs.Restarts
import PrisonVisits.Proofs.UndoneHolds
import PrisonVisits.Proofs.VisitIds
import PrisonVisits.Proofs.VisitsToCome
import PrisonVisits.Proofs.WellFormed
import PrisonVisits.Text.Hex
