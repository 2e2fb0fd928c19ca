import AgentRouter.Lib.Base64
import AgentRouter.Lib.Cut
import AgentRouter.Lib.GoMap
import AgentRouter.Lib.Text
import Mathlib.Data.List.Sort

/-!
# Query: the query of a URL

`parse` reads the query of a URL as `url.ParseQuery` does: the pairs between the ampersands, a name
and a value on the two sides of the first equals sign, both with their escapes undone, and the values
of a name in the order they come.  `encode` writes the pairs, sorted by name, as `Values.Encode`
does.

    parse (encode values) = some values', with the values of each name   (parse_encode)
-/

namespace AgentRouter.Query

open List
open Text (hexValue)

/-- A Go `url.Values`. -/
abbrev Values := GoMap Bytes (List Bytes)

/-! ## Algorithm -/

/-- A letter, a digit, or one of `-_.~`. -/
def unreserved (c : UInt8) : Bool :=
  (48 ≤ c && c ≤ 57) || (65 ≤ c && c ≤ 90) || (97 ≤ c && c ≤ 122) ||
    c = 45 || c = 95 || c = 46 || c = 126

def upperHexDigit (n : Nat) : UInt8 := .ofNat (if n < 10 then 48 + n else 55 + n)

def escapeByte (c : UInt8) : Bytes :=
  if unreserved c then [c]
  else if c = 32 then [43]
  else [37, upperHexDigit (c.toNat / 16), upperHexDigit (c.toNat % 16)]

/-- `url.QueryEscape`. -/
def escape (s : Bytes) : Bytes := s.flatMap escapeByte

/-- `url.QueryUnescape`. -/
def unescape : Bytes → Option Bytes
  | [] => some []
  | 37 :: a :: b :: rest => do
    let high ← hexValue a.toNat
    let low ← hexValue b.toNat
    let bytes ← unescape rest
    some (.ofNat (high * 16 + low) :: bytes)
  | 37 :: _ => none
  | 43 :: rest => (unescape rest).map (32 :: ·)
  | c :: rest => (unescape rest).map (c :: ·)

/-- A name and a value; without an equals sign the value is empty. -/
def parsePair (s : Bytes) : Option (Bytes × Bytes) :=
  if 59 ∈ s then none
  else
    let (name, value) := (Cut.cut [61] s).getD (s, [])
    (unescape name).bind fun name => (unescape value).map fun value => (name, value)

/-- `values[name] = append(values[name], value)`. -/
def addValue (values : Values) (pair : Bytes × Bytes) : Values :=
  values.insert pair.1 ((values.lookup pair.1).getD [] ++ [pair.2])

/-- `url.ParseQuery`, `none` for an error. -/
def parse (query : Bytes) : Option Values :=
  (((query.splitOn 38).filter (· ≠ [])).mapM parsePair).map fun pairs => pairs.foldl addValue ∅

/-- The pairs of a map, sorted by name. -/
def pairs (values : Values) : List (Bytes × Bytes) :=
  (values.keys.insertionSort (· ≤ ·)).flatMap fun name =>
    ((values.lookup name).getD []).map fun value => (name, value)

def pairText (pair : Bytes × Bytes) : Bytes := escape pair.1 ++ 61 :: escape pair.2

/-- `Values.Encode`. -/
def encode (values : Values) : Bytes := [38].intercalate ((pairs values).map pairText)

/-! ## Escapes -/

theorem hexValue_upperHexDigit : ∀ n < 16, hexValue (upperHexDigit n).toNat = some n := by decide

theorem unescape_cons {c : UInt8} (h : c ≠ 37 ∧ c ≠ 43) (rest : Bytes) :
    unescape (c :: rest) = (unescape rest).map (c :: ·) := by
  rw [unescape]
  · exact fun _ _ _ hc _ => h.1 hc
  · exact fun hc => h.1 hc
  · exact fun hc => h.2 hc

theorem unescape_escapeByte (c : UInt8) (rest : Bytes) :
    unescape (escapeByte c ++ rest) = (unescape rest).map (c :: ·) := by
  unfold escapeByte
  split
  next h =>
    refine unescape_cons ⟨?_, ?_⟩ rest
    · rintro rfl
      exact absurd h (by decide)
    · rintro rfl
      exact absurd h (by decide)
  next =>
    split
    next hspace =>
      rw [hspace]
      rfl
    next =>
      have hlt := c.toNat_lt
      have hc : UInt8.ofNat (c.toNat / 16 * 16 + c.toNat % 16) = c := by
        rw [Nat.div_add_mod' c.toNat 16, UInt8.ofNat_toNat]
      have hhigh := hexValue_upperHexDigit (c.toNat / 16) (by omega)
      have hlow := hexValue_upperHexDigit (c.toNat % 16) (by omega)
      simp only [cons_append, nil_append, unescape, hhigh, hlow, Option.bind_eq_bind, Option.bind_some, hc]
      cases unescape rest with
      | none | some bytes => rfl

theorem unescape_escape (s : Bytes) : unescape (escape s) = some s := by
  induction s with
  | nil => rfl
  | cons c s ih =>
    rw [escape, flatMap_cons, unescape_escapeByte, ← escape, ih]
    rfl

theorem notMem_escape {d : UInt8} (hd : ∀ c, d ∉ escapeByte c) (s : Bytes) : d ∉ escape s := by
  intro h
  obtain ⟨c, -, hmem⟩ := mem_flatMap.mp h
  exact hd c hmem

/-- No ampersand, equals sign or semicolon. -/
theorem separators_notMem_escapeByte (c : UInt8) :
    (38 ∉ escapeByte c ∧ 61 ∉ escapeByte c) ∧ 59 ∉ escapeByte c := by
  have hdigit : ∀ n < 16, upperHexDigit n ≠ 38 ∧ upperHexDigit n ≠ 61 ∧ upperHexDigit n ≠ 59 := by
    decide
  have hlt := c.toNat_lt
  have hhigh := hdigit (c.toNat / 16) (by omega)
  have hlow := hdigit (c.toNat % 16) (by omega)
  unfold escapeByte
  split
  next h =>
    have hne {d : UInt8} (hd : unreserved d = false) : d ∉ [c] := by
      intro hmem
      rw [mem_singleton.mp hmem, h] at hd
      cases hd
    exact ⟨⟨hne rfl, hne rfl⟩, hne rfl⟩
  next =>
    split
    · decide
    · simp [hhigh.1.symm, hhigh.2.1.symm, hhigh.2.2.symm, hlow.1.symm, hlow.2.1.symm, hlow.2.2.symm]

/-! ## Pairs -/

theorem notMem_pairText {d : UInt8} (hd : ∀ c, d ∉ escapeByte c) (hne : d ≠ 61) (pair : Bytes × Bytes) :
    d ∉ pairText pair := by
  simp [pairText, notMem_escape hd, hne]

theorem parsePair_pairText (pair : Bytes × Bytes) : parsePair (pairText pair) = some pair := by
  have hsemicolon : 59 ∉ pairText pair :=
    notMem_pairText (fun c => (separators_notMem_escapeByte c).2) (by decide) pair
  have hcut : Cut.cut [61] (pairText pair) = some (escape pair.1, escape pair.2) :=
    Cut.cut_singleton _ (notMem_escape (fun c => (separators_notMem_escapeByte c).1.2) pair.1)
  simp [parsePair, hsemicolon, hcut, unescape_escape]

theorem parse_encode_pairs (values : Values) :
    parse (encode values) = some ((pairs values).foldl addValue ∅) := by
  have hmapM (ps : List (Bytes × Bytes)) : (ps.map pairText).mapM parsePair = some ps := by
    induction ps with
    | nil => rfl
    | cons p ps ih => simp [parsePair_pairText, ih]
  have hsegments : ((encode values).splitOn 38).filter (· ≠ []) = (pairs values).map pairText := by
    unfold encode
    cases hpairs : pairs values with
    | nil => rfl
    | cons p ps =>
      rw [splitOn_intercalate]
      · refine filter_eq_self.mpr fun s hs => ?_
        obtain ⟨q, -, rfl⟩ := mem_map.mp hs
        simp [pairText]
      · intro s hs
        obtain ⟨q, -, rfl⟩ := mem_map.mp hs
        exact notMem_pairText (fun c => (separators_notMem_escapeByte c).1.1) (by decide) q
      · simp
  rw [parse, hsegments, hmapM]
  rfl

/-! ## Values -/

/-- The values of a name, in their order. -/
def valuesOf (name : Bytes) (ps : List (Bytes × Bytes)) : List Bytes :=
  (ps.filter (·.1 = name)).map Prod.snd

theorem lookup_foldl_addValue (name : Bytes) (values : Values) (ps : List (Bytes × Bytes)) :
    (ps.foldl addValue values).lookup name =
      if valuesOf name ps = [] then values.lookup name
      else some ((values.lookup name).getD [] ++ valuesOf name ps) := by
  induction ps generalizing values with
  | nil => rfl
  | cons p ps ih =>
    rw [foldl_cons, ih, addValue]
    by_cases hp : p.1 = name
    · have hcons : valuesOf name (p :: ps) = p.2 :: valuesOf name ps := by simp [valuesOf, hp]
      subst hp
      rw [hcons, if_neg (cons_ne_nil _ _), AList.lookup_insert]
      by_cases hnil : valuesOf p.1 ps = []
      · rw [if_pos hnil, hnil]
      · rw [if_neg hnil, Option.getD_some, append_assoc]
        rfl
    · have hcons : valuesOf name (p :: ps) = valuesOf name ps := by simp [valuesOf, hp]
      rw [hcons, AList.lookup_insert_ne (Ne.symm hp)]

/-- No name without a value. -/
def Filled (values : Values) : Prop := ∀ name, values.lookup name ≠ some []

theorem filled_of_parse {query : Bytes} {values : Values} (h : parse query = some values) :
    Filled values := by
  obtain ⟨ps, -, rfl⟩ := Option.map_eq_some_iff.mp h
  intro name hnil
  rw [lookup_foldl_addValue] at hnil
  split at hnil
  · cases hnil
  next hne => exact hne (by simpa using hnil)

theorem valuesOf_flatMap {names : List Bytes} (hnames : names.Nodup) (f : Bytes → List Bytes)
    (name : Bytes) :
    valuesOf name (names.flatMap fun k => (f k).map fun v => (k, v)) =
      if name ∈ names then f name else [] := by
  unfold valuesOf
  induction names with
  | nil => rfl
  | cons k names ih =>
    obtain ⟨hk, hnames⟩ := nodup_cons.mp hnames
    rw [flatMap_cons, filter_append, map_append, ih hnames]
    by_cases h : k = name
    · subst h
      simp [hk, filter_map, Function.comp_def]
    · simp [h, Ne.symm h, filter_map, Function.comp_def]

theorem parse_encode {values : Values} (h : Filled values) :
    ∃ values', parse (encode values) = some values' ∧
      ∀ name, values'.lookup name = values.lookup name := by
  refine ⟨_, parse_encode_pairs values, fun name => ?_⟩
  have hnodup : (values.keys.insertionSort (· ≤ ·)).Nodup :=
    (perm_insertionSort _ _).nodup_iff.mpr values.keys_nodup
  have hvalues : valuesOf name (pairs values) = (values.lookup name).getD [] := by
    rw [pairs, valuesOf_flatMap hnodup]
    split
    · rfl
    next hname =>
      rw [mem_insertionSort] at hname
      rw [AList.lookup_eq_none.mpr hname]
      rfl
  rw [lookup_foldl_addValue, hvalues]
  cases hlookup : values.lookup name with
  | none => rfl
  | some l =>
    have hl : l ≠ [] := fun hnil => h name (hnil ▸ hlookup)
    simp [hl]

end AgentRouter.Query
