import AgentRouter.Lib.Base64
import AgentRouter.Lib.Framing

/-!
# SSE: server-sent events as the translators read them

The lines of an event, the field at the start of a line, and `bytes.TrimSpace`, which also knows
the spaces outside of ASCII in their UTF-8 form.  `nextSSEEvent` finds the end of an event whose
lines end in `\n` or in `\r\n`; what it has found stays the first event when more bytes follow
(`stable_nextSSEEvent`).
-/

namespace AgentRouter.SSE

def lineFeed : UInt8 := 10

/-- `\n\n`, which ends an event. -/
def blankLine : Bytes := [10, 10]

/-- `\r\n\r\n`, which ends an event whose lines end so. -/
def blankLineCRLF : Bytes := [13, 10, 13, 10]

/-- `data:` -/
def sseDataPrefix : Bytes := [100, 97, 116, 97, 58]

/-- `event:` -/
def sseEventPrefix : Bytes := [101, 118, 101, 110, 116, 58]

/-- `[DONE]` -/
def sseDoneMessage : Bytes := [91, 68, 79, 78, 69, 93]

/-- The encoded letters that `unicode.IsSpace` holds for. -/
def spaces : List Bytes :=
  [[9], [10], [11], [12], [13], [32], [0xC2, 0x85], [0xC2, 0xA0], [0xE1, 0x9A, 0x80],
    [0xE2, 0x80, 0x80], [0xE2, 0x80, 0x81], [0xE2, 0x80, 0x82], [0xE2, 0x80, 0x83],
    [0xE2, 0x80, 0x84], [0xE2, 0x80, 0x85], [0xE2, 0x80, 0x86], [0xE2, 0x80, 0x87],
    [0xE2, 0x80, 0x88], [0xE2, 0x80, 0x89], [0xE2, 0x80, 0x8A], [0xE2, 0x80, 0xA8],
    [0xE2, 0x80, 0xA9], [0xE2, 0x80, 0xAF], [0xE2, 0x81, 0x9F], [0xE3, 0x80, 0x80]]

/-- Takes the given words off the front as long as there is one. -/
def dropWords (words : List Bytes) : Nat → Bytes → Bytes
  | 0, s => s
  | fuel + 1, s =>
    match words.find? fun w => w.isPrefixOf s with
    | none => s
    | some w => dropWords words fuel (s.drop w.length)

def trimLeftSpace (s : Bytes) : Bytes := dropWords spaces s.length s

def trimRightSpace (s : Bytes) : Bytes :=
  (dropWords (spaces.map List.reverse) s.length s.reverse).reverse

/-- `bytes.TrimSpace`. -/
def trimSpace (s : Bytes) : Bytes := trimRightSpace (trimLeftSpace s)

/-- The value of a field; one space after the colon belongs to the framing. -/
def cutSSEFieldPrefix (line fieldName : Bytes) : Option Bytes :=
  if fieldName.isPrefixOf line then
    match line.drop fieldName.length with
    | 32 :: rest => some rest
    | rest => some rest
  else none

def cutSSEDataPrefix (line : Bytes) : Option Bytes := cutSSEFieldPrefix line sseDataPrefix

/-- The bytes of a text without letters outside of ASCII. -/
def ascii (s : String) : Bytes := s.toList.map fun c => c.toNat.toUInt8

/-- The lines of an event. -/
def lines (block : Bytes) : List Bytes := block.splitOn lineFeed

/-- The event before the first blank line, with either line end. -/
def nextSSEEvent : Framing.Decoder UInt8 Bytes := Cut.cutEither blankLineCRLF blankLine

/-- The data that a line of an event carries, if it is meant to be decoded. -/
def dataToDecode (line : Bytes) : Option Bytes :=
  match cutSSEDataPrefix line with
  | none => none
  | some data => if data.length = 0 ∨ data = sseDoneMessage then none else some data

/-- No bytes that follow can move the first blank line: neither form holds the other one. -/
theorem stable_nextSSEEvent : Framing.Stable nextSSEEvent :=
  Framing.stable_cutEither (by decide) (by decide)

end AgentRouter.SSE
