import AgentRouter.ExtensionServer.Cluster
import AgentRouter.Controller.MCPOwnership
import AgentRouter.Controller.Revocation
import AgentRouter.MCP.Listing
import AgentRouter.Translator.BedrockBlocks
import AgentRouter.Translator.AnthropicToolCalls
import AgentRouter.Translator.AnthropicMessage
import AgentRouter.Translator.GeminiChoices
import AgentRouter.Translator.GeminiCuts
import AgentRouter.Redaction.ChatRequest
import AgentRouter.ExtProc.Lifecycle
import AgentRouter.ExtProc.CostMetadata
import AgentRouter.ExtProc.StreamOptions
import AgentRouter.Schema.Unquote
import AgentRouter.MCP.EventCuts
import AgentRouter.MCP.Notifications
import AgentRouter.MCP.Fanout
import AgentRouter.MCP.Capabilities
import AgentRouter.MCP.BackendSelector
import AgentRouter.Translator.UserParts
import AgentRouter.Translator.AnthropicToOpenAI
import AgentRouter.Translator.AnthropicUsage
import AgentRouter.Files.ListQuery
import AgentRouter.ExtProc.MergedHeaders
import AgentRouter.ExtProc.MergedBodies
import AgentRouter.Quota.Costs
import AgentRouter.ConfigBundle.Delivery
import AgentRouter.Translator.OpenAICalls
import AgentRouter.Translator.Responses
import AgentRouter.Translator.OpenAIUsage
import AgentRouter.Translator.OpenAIContent
import AgentRouter.Translator.BedrockChat
