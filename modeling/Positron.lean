import Positron.Clock.WallIndependence
import Positron.Clock.SpuriousFailures
import Positron.Clock.Certainty
import Positron.Clock.Abandonment
import Positron.Lease.ResumeMarkers
import Positron.Governor.Enrollment
import Positron.Policy.ShapePreservation
import Positron.Policy.Preview
import Positron.Catalog.RecoveryRun
import Positron.Tail.Delivery
import Positron.Governance.Identity
import Positron.Export.Progress
import Positron.Ledger.Retention
import Positron.Ledger.Canonical
import Positron.Query.Search
import Positron.Query.Sort
