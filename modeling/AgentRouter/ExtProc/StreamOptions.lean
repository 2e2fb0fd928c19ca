import AgentRouter.Lib.Json

/-!
# StreamOptions: a streaming request is made to ask for its usage

With costs configured, a streaming chat request that does not ask for the token usage has its body
rewritten.  A loop takes out every `stream_options` and keeps the last one, which is put back at the
end with `include_usage` set:

    m₁ … so₁ … so₂ … mₙ    becomes    m₁ … mₙ so₂'   (forceStreamOptionsIncludeUsage_eq)

The edit of `so₂` reaches the first `include_usage` in it, but a decoder reads the last.
-/

namespace AgentRouter.StreamOptions

open List Json

/-! ## Algorithm -/

/-- The loop; `streamOptions` is the value found last. -/
def removeStreamOptions (streamOptions : Json) (ms : List (String × Json)) :
    Json × List (String × Json) :=
  match _h : valuesIn "stream_options" ms with
  | [] => (streamOptions, ms)
  | res :: _ => removeStreamOptions res (deleteMember "stream_options" ms)
termination_by (valuesIn "stream_options" ms).length
decreasing_by simp [valuesIn_deleteMember_self, _h]

/-- `sjson.SetRaw` at a key; what is not an object is replaced by one.  (No request decodes with
an array here, which `set` refuses.) -/
def setRaw (key : String) (v j : Json) : Json := (set j key v).toOption.getD (.obj [(key, v)])

/-- On the members of the body. -/
def forceStreamOptionsIncludeUsage (ms : List (String × Json)) : List (String × Json) :=
  let (streamOptions, rest) := removeStreamOptions (.obj []) ms
  setMember "stream_options" (setRaw "include_usage" (.bool true) streamOptions) rest

/-- The fields that are read here. -/
structure ChatCompletionRequest where
  model : String
  stream : Bool
  /-- `StreamOptions.IncludeUsage`. -/
  includeUsage : Option Bool

/-- The model, the request, whether it streams, and the rewritten body. -/
def parseBody (unmarshal : List (String × Json) → Except String ChatCompletionRequest)
    (body : List (String × Json)) (costConfigured : Bool) :
    Except String (String × ChatCompletionRequest × Bool × Option (List (String × Json))) := do
  let req ← (unmarshal body).mapError
    ("malformed request: failed to parse JSON for /v1/chat/completions: " ++ ·)
  if req.stream && costConfigured && req.includeUsage ≠ some true then
    return (req.model, { req with includeUsage := some true }, req.stream,
      some (forceStreamOptionsIncludeUsage body))
  else return (req.model, req, req.stream, none)

/-! ## The rewritten body -/

theorem removeStreamOptions_eq (streamOptions : Json) (ms : List (String × Json)) :
    removeStreamOptions streamOptions ms =
      ((valuesIn "stream_options" ms).getLast?.getD streamOptions, ms.filter (·.1 ≠ "stream_options")) := by
  fun_induction removeStreamOptions with
  | case1 streamOptions ms h =>
    have hnone : ms.filter (·.1 ≠ "stream_options") = ms := by
      simpa [valuesIn, filter_eq_self] using h
    rw [h, hnone]
    rfl
  | case2 streamOptions ms res others h ih =>
    rw [ih, filter_deleteMember, valuesIn_deleteMember_self, h, getLast?_cons]
    rfl

/-- The members of the last `stream_options`, if it is an object. -/
def lastStreamOptions (ms : List (String × Json)) : List (String × Json) :=
  match (valuesIn "stream_options" ms).getLast? with
  | some (.obj fields) => fields
  | _ => []

theorem forceStreamOptionsIncludeUsage_eq (ms : List (String × Json)) :
    forceStreamOptionsIncludeUsage ms = ms.filter (·.1 ≠ "stream_options") ++
      [("stream_options", .obj (setMember "include_usage" (.bool true) (lastStreamOptions ms)))] := by
  unfold forceStreamOptionsIncludeUsage lastStreamOptions
  rw [removeStreamOptions_eq]
  dsimp only
  rw [setMember_filter]
  rcases (valuesIn "stream_options" ms).getLast? with _ | (_ | _ | _ | _ | _ | fields) <;> rfl

/-- One `stream_options`, behind the other members, with the fields of the last one and
`include_usage` true. -/
def AsksForUsage (ms mutated : List (String × Json)) : Prop :=
  ∃ fields, mutated = ms.filter (·.1 ≠ "stream_options") ++ [("stream_options", .obj fields)] ∧
    (valuesIn "include_usage" fields).getLast? = some (.bool true) ∧
    fields.filter (·.1 ≠ "include_usage") = (lastStreamOptions ms).filter (·.1 ≠ "include_usage")

end AgentRouter.StreamOptions
