import AgentRouter.Lib.JsonText

/-!
# Unquote: JSON strings read as strings of Go

A string is first unquoted like a string of a Go program, and decoded as JSON if that fails.  Most
escapes are the same in both.  Go has no `\/` and no halves of surrogate pairs, so these strings are
decoded, and what only Go has (`\a`, `\v`, `\x`, `\U`, octal digits) is in no JSON string:

    the string that JSON decoding gives, on either way   (unquoteOrUnmarshalJSONString_eq)
-/

namespace AgentRouter.OpenAI

open List JsonText Text

/-! ## Algorithm -/

/-- The UTF-8 bytes of a rune; half of a surrogate pair is none. -/
def runeBytes (n : Nat) : Option (List UInt8) :=
  if n.isValidChar then some (String.utf8EncodeChar (Char.ofNat n)) else none

def octalValue (c : Char) : Option Nat := if '0' ≤ c ∧ c ≤ '7' then some (c.toNat - 48) else none

/-- The escapes of one letter: those of JSON, without `\/` and with two more. -/
def goEscape (c : Char) : Option Char :=
  if c = 'a' then some '\x07' else if c = 'v' then some '\x0b'
  else if c = '/' then none else shortEscape c

/-- What follows a backslash. -/
def unquoteEscape : List Char → Option (List UInt8 × List Char)
  | 'x' :: a :: b :: s => do return ([((← hexValue a.toNat) * 16 + (← hexValue b.toNat)).toUInt8], s)
  | 'u' :: s => do
    let (n, s) ← hex4 s
    return (← runeBytes n, s)
  | 'U' :: s => do
    let (n, s) ← hex4 s
    let (m, s) ← hex4 s
    return (← runeBytes (n * 0x10000 + m), s)
  | c :: s =>
    match octalValue c, s with
    | some a, b :: c :: s => do
      let v := (a * 8 + (← octalValue b)) * 8 + (← octalValue c)
      if v ≤ 255 then some ([v.toUInt8], s) else none
    | _, _ => (goEscape c).map fun e => (String.utf8EncodeChar e, s)
  | [] => none

/-- `strconv.UnquoteChar` and the loop's test for a line feed. -/
def unquoteChar : List Char → Option (List UInt8 × List Char)
  | [] => none
  | c :: s =>
    if c = '\\' then unquoteEscape s
    else if c = '\n' then none else some (String.utf8EncodeChar c, s)

/-- The loop of `strconv.Unquote`, up to the closing quote. -/
def unquoteBody : Nat → List Char → Option (List UInt8 × List Char)
  | 0, _ => none
  | fuel + 1, s =>
    if s.head? = some '"' then some ([], s.tail)
    else
      match unquoteChar s with
      | none => none
      | some (bs, s) => (unquoteBody fuel s).map fun r => (bs ++ r.1, r.2)

/-- `strconv.Unquote`; its other two quotes start no JSON value. -/
def unquote : List Char → Option (List UInt8)
  | '"' :: s =>
    match unquoteBody (s.length + 1) s with
    | some (bs, []) => some bs
    | _ => none
  | _ => none

/-- `err` is the error of the decoder. -/
def unquoteOrUnmarshalJSONString (err typ : String) (data : List Char) :
    Except String (List UInt8) :=
  match unquote data with
  | some bs => .ok bs
  | none =>
    match document data with
    | some (.str s) => .ok (s.flatMap String.utf8EncodeChar)
    | some .null => .ok []
    | _ => .error ("cannot unmarshal " ++ typ ++ " as string: " ++ err)

/-! ## Both readers -/

variable {s rest rem : List Char} {c : Char} {bs : List UInt8}

theorem unquoteEscape_of_escape (h : escape s = some (c, rest))
    (hgo : unquoteEscape s = some (bs, rem)) : bs = String.utf8EncodeChar c ∧ rem = rest := by
  unfold escape at h
  split at h
  · cases h
  next d s =>
    split at h
    next hu =>
      subst hu
      simp only [unquoteEscape, Option.bind_eq_bind, Option.bind_eq_some_iff] at hgo
      obtain ⟨⟨n, after⟩, hhex, bytes, hrune, hgo⟩ := hgo
      cases hgo
      rw [unicodeEscape, hhex] at h
      -- Go takes no half of a pair
      unfold runeBytes at hrune
      split at hrune
      next hvalid =>
        cases hrune
        have hhigh : ¬ (0xD800 ≤ n ∧ n ≤ 0xDBFF) := by
          unfold Nat.isValidChar at hvalid
          omega
        have hlow : ¬ (0xDC00 ≤ n ∧ n ≤ 0xDFFF) := by
          unfold Nat.isValidChar at hvalid
          omega
        simp only [if_neg hhigh, if_neg hlow] at h
        cases h
        exact ⟨rfl, rfl⟩
      next => cases hrune
    next hu =>
      obtain ⟨e, he, h⟩ := Option.map_eq_some_iff.mp h
      cases h
      -- `\/` is left out by Go, and the others are the same
      unfold shortEscape at he
      split_ifs at he with hsame
      · rcases hsame with rfl | rfl | rfl <;> cases he <;> cases hgo <;> exact ⟨rfl, rfl⟩
      all_goals subst d; cases he; cases hgo; exact ⟨rfl, rfl⟩

theorem unquoteChar_of_stringLetter (h : stringLetter s = some (c, rest))
    (hgo : unquoteChar s = some (bs, rem)) : bs = String.utf8EncodeChar c ∧ rem = rest := by
  unfold stringLetter at h
  split at h
  · cases h
  next d s =>
    rw [unquoteChar] at hgo
    split at h
    next hd =>
      rw [if_pos hd] at hgo
      exact unquoteEscape_of_escape h hgo
    next hd =>
      rw [if_neg hd] at hgo
      split at h
      · cases h
        split at hgo
        · cases hgo
        · cases hgo
          exact ⟨rfl, rfl⟩
      · cases h

theorem unquoteBody_of_stringBody {fuel fuel' : Nat} {v : List Char}
    (h : stringBody fuel s = some (v, rest)) (hgo : unquoteBody fuel' s = some (bs, rem)) :
    bs = v.flatMap String.utf8EncodeChar := by
  induction fuel generalizing fuel' s v bs with
  | zero => cases h
  | succ fuel ih =>
    cases fuel' with
    | zero => cases hgo
    | succ fuel' =>
      unfold stringBody at h
      unfold unquoteBody at hgo
      split at h
      next hquote =>
        rw [if_pos hquote] at hgo
        cases h
        cases hgo
        rfl
      next hquote =>
        rw [if_neg hquote] at hgo
        split at h
        · cases h
        split at hgo
        · cases hgo
        next hletter _ _ _ hchar =>
          obtain ⟨rfl, rfl⟩ := unquoteChar_of_stringLetter hletter hchar
          obtain ⟨r, hr, h⟩ := Option.map_eq_some_iff.mp h
          obtain ⟨r', hr', hgo⟩ := Option.map_eq_some_iff.mp hgo
          cases h
          cases hgo
          rw [ih hr hr', flatMap_cons]

theorem unquoteOrUnmarshalJSONString_eq (err typ : String) {data : List Char}
    (h : document data = some (.str s)) :
    unquoteOrUnmarshalJSONString err typ data = .ok (s.flatMap String.utf8EncodeChar) := by
  unfold unquoteOrUnmarshalJSONString
  rw [h]
  split
  next bs hgo =>
    unfold unquote at hgo
    split at hgo
    next body =>
      split at hgo
      next hbody =>
        cases hgo
        obtain ⟨rest, hvalue, -⟩ := document_eq_some_iff.mp h
        rw [value_quote] at hvalue
        obtain ⟨r, hstring, heq⟩ := Option.map_eq_some_iff.mp hvalue
        cases heq
        rw [unquoteBody_of_stringBody hstring hbody]
      · cases hgo
    · cases hgo
  · rfl

theorem unquoteOrUnmarshalJSONString_slash :
    unquoteOrUnmarshalJSONString "" "prompt" " \"\\u00e9\\/\"".toList = .ok [0xc3, 0xa9, 0x2f] :=
  unquoteOrUnmarshalJSONString_eq "" "prompt" (s := "é/".toList) rfl

-- Go's own unquoting knows this escape, so nothing is left to the JSON decoder
example : unquote "\"\\u00e9\\n\"".toList = some [0xc3, 0xa9, 0x0a] := by decide

end AgentRouter.OpenAI
