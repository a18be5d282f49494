import Aeqi.Governance.RoleVotes
import Aeqi.Unifutures.ConstantProduct
import Aeqi.Unifutures.Vaults
import Aeqi.Market.Proceeds
import Aeqi.Funds.Shares
import Aeqi.Vesting.Payouts
import Aeqi.Funding.Capacity
import Aeqi.CapToken.SupplyCap
import Aeqi.Orchestrator.Spends
import Aeqi.Sessions.Addressing
import Aeqi.Indexer.Cursor
import Aeqi.Orchestrator.Reach
import Aeqi.Orchestrator.Atomicity
import Aeqi.Quests.Admission
import Aeqi.Quests.Closing
import Aeqi.Orchestrator.Assembly
import Aeqi.Sessions.Awaiting
import Aeqi.Messages.Conversations
import Aeqi.Quests.Fresh
import Aeqi.Ideas.Exposure
import Aeqi.Agent.Overlap
import Aeqi.Ideas.Seen
import Aeqi.Market.Interpolation
import Aeqi.Roles.Walk
import Aeqi.Ideas.Accepted
import Aeqi.Providers.Breakpoints
import Aeqi.Mcp.Answers
import Aeqi.Mcp.Sse
import Aeqi.Inference.Billed
import Aeqi.Council.Commands
import Aeqi.Council.Waiting
import Aeqi.Ideas.Dangling
import Aeqi.Ideas.LinkGrammar
import Aeqi.Providers.Replies
import Aeqi.Ideas.Portable
import Aeqi.Graph.Incremental
import Aeqi.Ideas.Served
import Aeqi.Vesting.Schedule
import Aeqi.Funds.Marks
import Aeqi.Governance.Settlement
import Aeqi.CapToken.Decoding
import Aeqi.Orchestrator.Dissolutions
import Aeqi.Quests.Naming
import Aeqi.Orchestrator.Moves
import Aeqi.Quests.Persistence
import Aeqi.Quests.Readiness
import Aeqi.Orchestrator.Retries
import Aeqi.Quests.Claims
import Aeqi.Messages.Forking
import Aeqi.Orchestrator.Placeholders
import Aeqi.Inference.Deepinfra
import Aeqi.Graph.NodeSearch
import Aeqi.Quests.Cascade
import Aeqi.Quests.Inference
import Aeqi.Graph.DiffText
import Aeqi.Graph.Communities
import Aeqi.Orchestrator.Timekeeping
import Aeqi.Orchestrator.LoopDetection
import Aeqi.Providers.Credentials
import Aeqi.Agent.Shortening
