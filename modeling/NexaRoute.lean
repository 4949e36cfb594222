import NexaRoute.Audit.Tamper
import NexaRoute.Audit.Parity
import NexaRoute.Nexaflow.Replay
import NexaRoute.Nexaflow.ReplayCache
import NexaRoute.Nexaflow.Graph
import NexaRoute.Nexaflow.Once
import NexaRoute.Nexaflow.Outcomes
import NexaRoute.Nexaflow.Postgres
import NexaRoute.Nexaflow.Bounds
import NexaRoute.Httpapi.Authorised
import NexaRoute.Router.Rotation
import NexaRoute.Httpapi.Chat
import NexaRoute.Autopilot.Evidence
import NexaRoute.Health.Retirement
import NexaRoute.Health.Deadlines
import NexaRoute.Budget.Alerts
import NexaRoute.Canonical.Items
import NexaRoute.Canonical.ChatRoundTrip
import NexaRoute.Translate.OpenAIToAnthropic
import NexaRoute.Decision.Calls
import NexaRoute.Decision.ProviderState
import NexaRoute.Httpapi.Semantic
import NexaRoute.Video.Sight
import NexaRoute.Video.PostgresLedger
import NexaRoute.Video.Lease
