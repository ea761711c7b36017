import ReliableMessaging.Delivery.History
import ReliableMessaging.MySql.Reservations
import ReliableMessaging.Observation.Agreement
import ReliableMessaging.Outbox.Bypass
import ReliableMessaging.Outbox.Delivery
import ReliableMessaging.Preimages
import ReliableMessaging.Python.FailureChannel
import ReliableMessaging.Sender.HalfSet
import ReliableMessaging.MySql.Operations
import ReliableMessaging.Stores.Endings
import ReliableMessaging.Transaction.Decisions
import ReliableMessaging.Transport.Backoff
import ReliableMessaging.Transport.Budget
import ReliableMessaging.Transport.Drain
import ReliableMessaging.Transport.HandoffSafety
import ReliableMessaging.Transport.Polling
import ReliableMessaging.Transport.ReadableNames
import ReliableMessaging.Transport.Settlement
import ReliableMessaging.Transport.Shutdown
