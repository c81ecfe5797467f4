import AgentGateway.Library.Json.RoundTrip
import AgentGateway.Library.Sha256
import AgentGateway.Conversation.Failures
import AgentGateway.Conversation.Decisions
import AgentGateway.Conversation.Storage
import AgentGateway.Conversation.Submission
import AgentGateway.Conversation.Acknowledgements
import AgentGateway.Conversation.Codes
import AgentGateway.Conversation.Confidentiality
import AgentGateway.Conversation.Transcript
import AgentGateway.Conversation.Pinning
import AgentGateway.Conversation.Responses
import AgentGateway.Task.ActionItems
import AgentGateway.Task.OrderedStream
import AgentGateway.Task.Replay
import AgentGateway.Task.Claimed
import AgentGateway.Config.HandoffHosts
import AgentGateway.Task.Handoffs
import AgentGateway.Conversation.AtomicSave
import AgentGateway.Task.Polling
import AgentGateway.Process
import AgentGateway.Task.RoomClient
import AgentGateway.Config.Registry
