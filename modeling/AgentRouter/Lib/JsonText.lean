import AgentRouter.Lib.Text

/-!
# JsonText: JSON documents as texts

A reader for the whole JSON grammar: `document` takes a text apart into a tree that keeps numbers as
they are written and strings as the letters they stand for.  An escaped half of a surrogate pair
stands for U+FFFD, as it does for the decoders of Go.

A string that needs no escape is read as it is written, and every other way to write letters is
longer:

    a plain string between quotation marks is read back   (stringBody_plain)
    a string is plain or longer than what it stands for   (stringBody_eq_some)
-/

namespace AgentRouter.JsonText

open List Text

inductive Doc where
  | null
  | bool (b : Bool)
  | num (literal : List Char)
  | str (letters : List Char)
  | arr (elems : List Doc)
  | obj (members : List (List Char × Doc))

/-! ## Algorithm -/

def isWs (c : Char) : Bool := c = ' ' || c = '\t' || c = '\n' || c = '\r'

def skipWs (s : List Char) : List Char := s.dropWhile isWs

/-! ### Strings -/

/-- A letter that may stand in a string as it is. -/
def isPlain (c : Char) : Bool := c ≠ '"' && c ≠ '\\' && 0x20 ≤ c.toNat

def hex4 : List Char → Option (Nat × List Char)
  | a :: b :: c :: d :: rest => do
    let a ← hexValue a.toNat
    let b ← hexValue b.toNat
    let c ← hexValue c.toNat
    let d ← hexValue d.toNat
    return (((a * 16 + b) * 16 + c) * 16 + d, rest)
  | _ => none

/-- U+FFFD. -/
def replacement : Char := Char.ofNat 0xFFFD

/-- The second half of a surrogate pair. -/
def lowHalf : List Char → Option (Nat × List Char)
  | '\\' :: 'u' :: rest =>
    match hex4 rest with
    | some (n, rest) => if 0xDC00 ≤ n ∧ n ≤ 0xDFFF then some (n, rest) else none
    | none => none
  | _ => none

/-- What follows `\u`. -/
def unicodeEscape (s : List Char) : Option (Char × List Char) :=
  match hex4 s with
  | none => none
  | some (n, rest) =>
    if 0xD800 ≤ n ∧ n ≤ 0xDBFF then
      match lowHalf rest with
      | some (m, rest) => some (Char.ofNat (0x10000 + (n - 0xD800) * 0x400 + (m - 0xDC00)), rest)
      | none => some (replacement, rest)
    else if 0xDC00 ≤ n ∧ n ≤ 0xDFFF then some (replacement, rest)
    else some (Char.ofNat n, rest)

/-- The letter that stands behind a backslash for another one. -/
def shortEscape (c : Char) : Option Char :=
  if c = '"' ∨ c = '\\' ∨ c = '/' then some c
  else if c = 'b' then some '\x08'
  else if c = 'f' then some '\x0c'
  else if c = 'n' then some '\n'
  else if c = 'r' then some '\r'
  else if c = 't' then some '\t'
  else none

/-- What follows a backslash. -/
def escape : List Char → Option (Char × List Char)
  | [] => none
  | c :: rest => if c = 'u' then unicodeEscape rest else (shortEscape c).map fun d => (d, rest)

/-- One letter of a string and what follows it. -/
def stringLetter : List Char → Option (Char × List Char)
  | [] => none
  | c :: rest => if c = '\\' then escape rest else if isPlain c then some (c, rest) else none

/-- What follows the opening quotation mark. -/
def stringBody : Nat → List Char → Option (List Char × List Char)
  | 0, _ => none
  | fuel + 1, s =>
    if s.head? = some '"' then some ([], s.tail)
    else
      match stringLetter s with
      | none => none
      | some (c, rest) => (stringBody fuel rest).map fun r => (c :: r.1, r.2)

/-! ### Numbers -/

/-- At least one digit. -/
def digits (s : List Char) : Option (List Char × List Char) :=
  if s.takeWhile Char.isDigit = [] then none
  else some (s.takeWhile Char.isDigit, s.dropWhile Char.isDigit)

/-- No digit may follow a leading zero. -/
def intPart : List Char → Option (List Char × List Char)
  | '0' :: rest => some (['0'], rest)
  | s => digits s

def fraction : List Char → Option (List Char × List Char)
  | '.' :: rest => (digits rest).map fun r => ('.' :: r.1, r.2)
  | s => some ([], s)

def exponentSign : List Char → List Char × List Char
  | '+' :: rest => (['+'], rest)
  | '-' :: rest => (['-'], rest)
  | s => ([], s)

def exponent : List Char → Option (List Char × List Char)
  | [] => some ([], [])
  | c :: rest =>
    if c = 'e' ∨ c = 'E' then
      (digits (exponentSign rest).2).map fun r => (c :: ((exponentSign rest).1 ++ r.1), r.2)
    else some ([], c :: rest)

def unsigned (s : List Char) : Option (List Char × List Char) := do
  let (i, s) ← intPart s
  let (f, s) ← fraction s
  let (e, s) ← exponent s
  return (i ++ f ++ e, s)

def number : List Char → Option (List Char × List Char)
  | '-' :: rest => (unsigned rest).map fun r => ('-' :: r.1, r.2)
  | s => unsigned s

/-! ### Values -/

section

variable {α : Type} (item : List Char → Option (α × List Char))

/-- Items with commas between them, up to the closing letter. -/
def itemsUpTo (close : Char) : Nat → List Char → Option (List α × List Char)
  | 0, _ => none
  | fuel + 1, s =>
    match item s with
    | none => none
    | some (a, rest) =>
      match skipWs rest with
      | [] => none
      | c :: rest =>
        if c = close then some ([a], rest)
        else if c = ',' then (itemsUpTo close fuel rest).map fun r => (a :: r.1, r.2)
        else none

/-- What follows an opening bracket. -/
def bracketed (close : Char) (s : List Char) : Option (List α × List Char) :=
  match skipWs s with
  | [] => none
  | c :: rest => if c = close then some ([], rest) else itemsUpTo item close s.length s

/-- A name, a colon and a value. -/
def member (s : List Char) : Option ((List Char × α) × List Char) :=
  match skipWs s with
  | '"' :: s =>
    match stringBody s.length s with
    | none => none
    | some (name, rest) =>
      match skipWs rest with
      | ':' :: rest => (item rest).map fun r => ((name, r.1), r.2)
      | _ => none
  | _ => none

end

/-- A literal name that the text starts with. -/
def literal (s : List Char) : Option (Doc × List Char) :=
  if "null".toList.isPrefixOf s then some (.null, s.drop 4)
  else if "true".toList.isPrefixOf s then some (.bool true, s.drop 4)
  else if "false".toList.isPrefixOf s then some (.bool false, s.drop 5)
  else (number s).map fun r => (.num r.1, r.2)

def value : Nat → List Char → Option (Doc × List Char)
  | 0, _ => none
  | fuel + 1, s =>
    match skipWs s with
    | '"' :: s => (stringBody s.length s).map fun r => (.str r.1, r.2)
    | '{' :: s => (bracketed (member (value fuel)) '}' s).map fun r => (.obj r.1, r.2)
    | '[' :: s => (bracketed (value fuel) ']' s).map fun r => (.arr r.1, r.2)
    | s => literal s

/-- Nothing but white space may follow the value. -/
def document (s : List Char) : Option Doc :=
  match value (s.length + 1) s with
  | none => none
  | some (d, rest) => if skipWs rest = [] then some d else none

/-! ## Lemmas -/

theorem length_skipWs_le (s : List Char) : (skipWs s).length ≤ s.length :=
  (List.dropWhile_suffix isWs).length_le

variable {c : Char}

theorem skipWs_cons (h : isWs c = false) (s : List Char) : skipWs (c :: s) = c :: s := by
  rw [skipWs, List.dropWhile_cons_of_neg (by simp [h])]

/-! ### Strings -/

variable {s rest : List Char}

theorem length_hex4 {n : Nat} (h : hex4 s = some (n, rest)) : s.length = rest.length + 4 := by
  unfold hex4 at h
  split at h
  · simp only [Option.bind_eq_bind, Option.bind_eq_some_iff] at h
    obtain ⟨a, -, b, -, c, -, d, -, h⟩ := h
    cases h
    simp
  · cases h

theorem length_lowHalf {n : Nat} (h : lowHalf s = some (n, rest)) : rest.length ≤ s.length := by
  unfold lowHalf at h
  split at h
  · split at h
    next hhex =>
      have hlen := length_hex4 hhex
      split at h
      · cases h
        simp only [List.length_cons]
        omega
      · cases h
    · cases h
  · cases h

theorem length_unicodeEscape (h : unicodeEscape s = some (c, rest)) : rest.length + 4 ≤ s.length := by
  unfold unicodeEscape at h
  split at h
  · cases h
  next n rest' hhex =>
    have hlen := length_hex4 hhex
    split at h
    · split at h
      next hlow =>
        have hle := length_lowHalf hlow
        rw [Option.some.injEq, Prod.mk.injEq] at h
        obtain ⟨-, rfl⟩ := h
        omega
      · obtain ⟨-, rfl⟩ := h
        omega
    · split at h
      · obtain ⟨-, rfl⟩ := h
        omega
      · obtain ⟨-, rfl⟩ := h
        omega

theorem length_escape (h : escape s = some (c, rest)) : rest.length + 1 ≤ s.length := by
  unfold escape at h
  split at h
  · cases h
  · split at h
    · have hlen := length_unicodeEscape h
      simp only [List.length_cons]
      omega
    · obtain ⟨d, -, heq⟩ := Option.map_eq_some_iff.mp h
      cases heq
      simp

theorem stringLetter_eq_some (h : stringLetter s = some (c, rest)) :
    (s = c :: rest ∧ isPlain c = true) ∨ rest.length + 2 ≤ s.length := by
  unfold stringLetter at h
  split at h
  · cases h
  · split at h
    · have hlen := length_escape h
      simp only [List.length_cons]
      omega
    · split at h
      next hplain =>
        cases h
        exact .inl ⟨rfl, hplain⟩
      · cases h

theorem stringLetter_plain (h : isPlain c = true) (rest : List Char) :
    stringLetter (c :: rest) = some (c, rest) := by
  have hc : c ≠ '\\' := by
    rintro rfl
    exact absurd h (by decide)
  rw [stringLetter, if_neg hc, if_pos h]

variable {fuel : Nat}

theorem stringBody_eq_some {v : List Char} (h : stringBody fuel s = some (v, rest)) :
    (s = v ++ '"' :: rest ∧ v.all isPlain = true) ∨ v.length + rest.length + 1 < s.length := by
  induction fuel generalizing s v with
  | zero => cases h
  | succ fuel ih =>
    rw [stringBody] at h
    split at h
    next hquote =>
      cases h
      obtain ⟨t, rfl⟩ := head?_eq_some_iff.mp hquote
      exact .inl ⟨rfl, rfl⟩
    next =>
      split at h
      · cases h
      next c s' hletter =>
        obtain ⟨⟨v', rest'⟩, hbody, heq⟩ := Option.map_eq_some_iff.mp h
        simp only [Prod.mk.injEq] at heq
        obtain ⟨rfl, rfl⟩ := heq
        rcases stringLetter_eq_some hletter with ⟨rfl, hc⟩ | hlong
        · rcases ih hbody with ⟨rfl, hv⟩ | hshort
          · refine .inl ⟨rfl, ?_⟩
            rw [all_cons, hc, hv]
            rfl
          · simp only [length_cons]
            omega
        · rcases ih hbody with ⟨rfl, hv⟩ | hshort
          · simp only [length_append, length_cons] at hlong ⊢
            omega
          · simp only [length_cons]
            omega

theorem stringBody_plain {v : List Char} (h : v.all isPlain = true) (rest : List Char)
    (hfuel : v.length < fuel) : stringBody fuel (v ++ '"' :: rest) = some (v, rest) := by
  induction v generalizing fuel with
  | nil =>
    obtain ⟨n, rfl⟩ : ∃ n, fuel = n + 1 := ⟨fuel - 1, by omega⟩
    rfl
  | cons c v ih =>
    obtain ⟨n, rfl⟩ : ∃ n, fuel = n + 1 := ⟨fuel - 1, by omega⟩
    rw [List.all_cons, Bool.and_eq_true] at h
    have hc : c ≠ '"' := by
      rintro rfl
      exact absurd h.1 (by decide)
    have hrest : stringBody n (v ++ '"' :: rest) = some (v, rest) := by
      apply ih h.2
      simpa using hfuel
    rw [List.cons_append, stringBody, if_neg (by simpa using hc), stringLetter_plain h.1]
    simp only [hrest, Option.map_some]

/-! ### Values -/

section

variable {α : Type} {item : List Char → Option (α × List Char)} {close : Char}

theorem itemsUpTo_comma (hclose : ',' ≠ close) {a : α} (h : item s = some (a, ',' :: rest)) :
    itemsUpTo item close (fuel + 1) s = (itemsUpTo item close fuel rest).map fun r => (a :: r.1, r.2) := by
  rw [itemsUpTo, h]
  simp only [skipWs_cons (show isWs ',' = false by decide), if_neg hclose, if_true]

theorem itemsUpTo_close (hclose : isWs close = false) (fuel : Nat) {a : α}
    (h : item s = some (a, close :: rest)) :
    itemsUpTo item close (fuel + 1) s = some ([a], rest) := by
  rw [itemsUpTo, h]
  simp only [skipWs_cons hclose, if_true]

theorem itemsUpTo_ne_nil : itemsUpTo item close fuel s ≠ some ([], rest) := by
  intro h
  cases fuel with
  | zero => cases h
  | succ fuel =>
    rw [itemsUpTo] at h
    split at h
    · cases h
    · split at h
      · cases h
      · split at h
        · cases h
        · split at h
          · obtain ⟨r, -, heq⟩ := Option.map_eq_some_iff.mp h
            cases heq
          · cases h

theorem item_of_itemsUpTo {a : α} (h : itemsUpTo item close fuel s = some ([a], rest)) :
    ∃ behind, item s = some (a, behind) ∧ rest.length < behind.length := by
  cases fuel with
  | zero => cases h
  | succ fuel =>
    rw [itemsUpTo] at h
    split at h
    · cases h
    next b behind hitem =>
      split at h
      · cases h
      next c rest' hbehind =>
        have hlen := length_skipWs_le behind
        rw [hbehind, List.length_cons] at hlen
        split at h
        · cases h
          exact ⟨behind, hitem, by omega⟩
        · split at h
          · obtain ⟨⟨l, r⟩, hmore, heq⟩ := Option.map_eq_some_iff.mp h
            cases heq
            exact absurd hmore itemsUpTo_ne_nil
          · cases h

theorem bracketed_cons (hws : isWs c = false) (hc : c ≠ close) (s : List Char) :
    bracketed item close (c :: s) = itemsUpTo item close (s.length + 1) (c :: s) := by
  rw [bracketed, skipWs_cons hws]
  simp only [if_neg hc, List.length_cons]

theorem member_plain {name : List Char} (h : name.all isPlain = true) (s : List Char) :
    member item ('"' :: (name ++ '"' :: ':' :: s)) = (item s).map fun r => ((name, r.1), r.2) := by
  have hname : stringBody (name ++ '"' :: ':' :: s).length (name ++ '"' :: ':' :: s) =
      some (name, ':' :: s) := by
    apply stringBody_plain h
    simp
  rw [member, skipWs_cons (by decide)]
  simp only [hname, skipWs_cons (show isWs ':' = false by decide)]

end

theorem value_quote (fuel : Nat) (s : List Char) :
    value (fuel + 1) ('"' :: s) = (stringBody s.length s).map fun r => (.str r.1, r.2) := by
  rfl

theorem value_plain {v : List Char} (h : v.all isPlain = true) (fuel : Nat) (rest : List Char) :
    value (fuel + 1) ('"' :: (v ++ '"' :: rest)) = some (.str v, rest) := by
  rw [value_quote, stringBody_plain h rest (by simp)]
  rfl

theorem value_brace (fuel : Nat) (s : List Char) :
    value (fuel + 1) ('{' :: s) = (bracketed (member (value fuel)) '}' s).map fun r => (.obj r.1, r.2) := by
  rfl

theorem document_eq_some_iff {d : Doc} :
    document s = some d ↔ ∃ rest, value (s.length + 1) s = some (d, rest) ∧ skipWs rest = [] := by
  unfold document
  constructor
  · intro h
    split at h
    · cases h
    next rest hvalue =>
      split at h
      next hrest =>
        cases h
        exact ⟨rest, hvalue, hrest⟩
      · cases h
  · rintro ⟨rest, hvalue, hrest⟩
    rw [hvalue]
    exact if_pos hrest

end AgentRouter.JsonText
