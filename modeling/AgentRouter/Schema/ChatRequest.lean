import AgentRouter.Lib.Base64

/-!
# ChatRequest: chat completion requests of the OpenAI API

The messages of a request as they are decoded.  The sources have structs with one pointer for each
member of a union, of which the decoder sets one; here these are the constructors of an inductive
type, and the role of a message or the type of a part is its constructor.

The contents of system, developer and tool messages are a text or text parts, those of user
messages may have parts of other types, and those of assistant messages may also be a single part.
A content is `absent` if the request does not have it.
-/

namespace AgentRouter.OpenAI

/-! ## Parts -/

/-- `anthropic.CacheControlEphemeralParam`. -/
structure CacheControl where
  type : String
  ttl : String
  deriving DecidableEq

/-- `ChatCompletionContentPartTextParam`.  Nothing checks the type of a part that can only be a
text. -/
structure TextPart where
  text : String
  type : String
  cacheControl : Option CacheControl
  deriving DecidableEq

/-- `ChatCompletionContentPartInputAudioParam`. -/
structure InputAudioPart where
  data : String
  format : String
  cacheControl : Option CacheControl
  deriving DecidableEq

/-- `ChatCompletionContentPartImageParam`. -/
structure ImagePart where
  url : String
  detail : String
  cacheControl : Option CacheControl
  deriving DecidableEq

/-- `ChatCompletionContentPartAudioParam` and `ChatCompletionContentPartVideoParam`. -/
structure MediaPart where
  url : String
  cacheControl : Option CacheControl
  deriving DecidableEq

/-- `ChatCompletionContentPartFileParam`. -/
structure FilePart where
  fileData : String
  fileID : String
  filename : String
  cacheControl : Option CacheControl
  deriving DecidableEq

/-- `ChatCompletionContentPartUserUnionParam`. -/
inductive UserPart where
  | text (part : TextPart)
  | inputAudio (part : InputAudioPart)
  | imageURL (part : ImagePart)
  | audioURL (part : MediaPart)
  | videoURL (part : MediaPart)
  | file (part : FilePart)
  deriving DecidableEq

/-- `RedactedContentUnion`. -/
inductive RedactedContent where
  | bytes (data : Bytes)
  | string (s : String)
  deriving DecidableEq

/-- `ChatCompletionAssistantMessageParamContent`. -/
structure AssistantPart where
  type : String
  refusal : Option String
  text : Option String
  signature : Option String
  redactedContent : Option RedactedContent
  cacheControl : Option CacheControl
  deriving DecidableEq

/-! ## Contents -/

/-- `ContentUnion`. -/
inductive Content where
  | absent
  | string (s : String)
  | parts (ps : List TextPart)
  deriving DecidableEq

/-- `StringOrUserRoleContentUnion`. -/
inductive UserContent where
  | absent
  | string (s : String)
  | parts (ps : List UserPart)
  deriving DecidableEq

/-- `StringOrAssistantRoleContentUnion`. -/
inductive AssistantContent where
  | absent
  | string (s : String)
  | parts (ps : List AssistantPart)
  | single (p : AssistantPart)
  deriving DecidableEq

/-! ## Messages -/

structure UserMessage where
  content : UserContent
  name : String
  deriving DecidableEq

/-- `ChatCompletionSystemMessageParam` and `ChatCompletionDeveloperMessageParam`. -/
structure InstructionMessage where
  content : Content
  name : String
  deriving DecidableEq

structure ToolMessage where
  content : Content
  toolCallID : String
  cacheControl : Option CacheControl
  deriving DecidableEq

/-- `ChatCompletionMessageToolCallParam`. -/
structure ToolCall where
  id : Option String
  name : String
  arguments : String
  type : String
  cacheControl : Option CacheControl
  deriving DecidableEq

/-- `ThinkingBlock`. -/
structure ThinkingBlock where
  type : String
  thinking : String
  signature : String
  data : String
  deriving DecidableEq

structure AssistantMessage where
  audioID : String
  content : AssistantContent
  name : String
  refusal : String
  toolCalls : List ToolCall
  thinkingBlocks : List ThinkingBlock
  deriving DecidableEq

/-- `ChatCompletionMessageParamUnion`. -/
inductive Message where
  | user (m : UserMessage)
  | assistant (m : AssistantMessage)
  | system (m : InstructionMessage)
  | developer (m : InstructionMessage)
  | tool (m : ToolMessage)
  deriving DecidableEq

/-! ## Requests -/

structure PredictionContent where
  type : String
  content : Content
  deriving DecidableEq

/-- `ChatCompletionRequest`; `ω` is the type of its other fields. -/
structure ChatCompletionRequest (ω : Type) where
  messages : List Message
  predictionContent : Option PredictionContent
  others : ω
  deriving DecidableEq

end AgentRouter.OpenAI
