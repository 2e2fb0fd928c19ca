/-!
# Messages: messages requests of the Anthropic API

The messages and the system prompt of a request as they are decoded.  As in `ChatRequest` the
members of a union are the constructors of an inductive type; a block of a type that the decoder
does not know is kept as a block without data.  `ι` is the type of the inputs of tools, which are
JSON objects.

A content is a text or a list of blocks; a content that is missing or null is decoded like an empty
text.
-/

namespace AgentRouter.Anthropic

/-- `MessageRole`, a text of which the sources name the first two values. -/
inductive MessageRole where
  | user
  | assistant
  | system
  | other (name : String)
  deriving DecidableEq

inductive ImageSource where
  | base64 (mediaType data : String)
  | url (url : String)
  | unknown

inductive ToolResultContentItem where
  | text (text : String)
  | image (source : ImageSource)
  | searchResult
  | document
  | unknown

inductive ToolResultContent where
  | string (s : String)
  | array (items : List ToolResultContentItem)

structure ToolUseBlock (ι : Type) where
  id : String
  name : String
  input : ι

structure ToolResultBlock where
  toolUseID : String
  content : Option ToolResultContent

/-- `ContentBlockParam`. -/
inductive ContentBlock (ι : Type) where
  | text (text : String)
  | image (source : ImageSource)
  | document
  | searchResult
  | thinking (thinking signature : String)
  | redactedThinking (data : String)
  | toolUse (block : ToolUseBlock ι)
  | toolResult (block : ToolResultBlock)
  | serverToolUse
  | webSearchToolResult
  | unknown

inductive MessageContent (ι : Type) where
  | string (s : String)
  | array (blocks : List (ContentBlock ι))

/-- `msg.Content.Array`. -/
def MessageContent.blocks {ι : Type} : MessageContent ι → List (ContentBlock ι)
  | .string _ => []
  | .array bs => bs

structure MessageParam (ι : Type) where
  role : MessageRole
  content : MessageContent ι

inductive SystemPrompt where
  | string (s : String)
  | array (texts : List String)

structure MessagesRequest (ι : Type) where
  messages : List (MessageParam ι)
  system : Option SystemPrompt

end AgentRouter.Anthropic
