import Mathlib.Data.UInt

/-!
# TokenUsage: the token counts of a response

`metrics.TokenUsage` has a count and a flag for each kind of tokens; a count that was not set is
zero, so the two are one `Option`.  Counts are 32-bit and wrap.
-/

namespace AgentRouter.Metrics

structure TokenUsage where
  inputTokens : Option UInt32
  outputTokens : Option UInt32
  totalTokens : Option UInt32
  cachedInputTokens : Option UInt32
  cacheCreationInputTokens : Option UInt32
  reasoningTokens : Option UInt32
  deriving DecidableEq

def TokenUsage.zero : TokenUsage := ⟨none, none, none, none, none, none⟩

/-- The counts that are set in the other usage are taken over. -/
def TokenUsage.override (u other : TokenUsage) : TokenUsage where
  inputTokens := other.inputTokens.or u.inputTokens
  outputTokens := other.outputTokens.or u.outputTokens
  totalTokens := other.totalTokens.or u.totalTokens
  cachedInputTokens := other.cachedInputTokens.or u.cachedInputTokens
  cacheCreationInputTokens := other.cacheCreationInputTokens.or u.cacheCreationInputTokens
  reasoningTokens := other.reasoningTokens.or u.reasoningTokens

/-- Go's conversion of an `int64` to a `uint32`. -/
def uint32 (n : Int) : UInt32 := UInt32.ofNat (n % 2 ^ 32).toNat

/-- The tokens of a prompt are those read from the cache, those written to it and the others. -/
def extractTokenUsageFromExplicitCaching (inputTokens outputTokens : Int)
    (cacheReadTokens cacheCreationTokens : Option Int) : TokenUsage :=
  let totalInputTokens := inputTokens + cacheCreationTokens.getD 0 + cacheReadTokens.getD 0
  { inputTokens := some (uint32 totalInputTokens)
    outputTokens := some (uint32 outputTokens)
    totalTokens := some (uint32 (totalInputTokens + outputTokens))
    cachedInputTokens := cacheReadTokens.map uint32
    cacheCreationInputTokens := cacheCreationTokens.map uint32
    reasoningTokens := none }

/-! ## Overriding -/

theorem TokenUsage.override_assoc (u v w : TokenUsage) :
    (u.override v).override w = u.override (v.override w) := by
  simp only [TokenUsage.override, Option.or_assoc]

@[simp] theorem TokenUsage.zero_override (u : TokenUsage) : TokenUsage.zero.override u = u := by
  simp only [TokenUsage.override, TokenUsage.zero, Option.or_none]

theorem TokenUsage.foldl_override {α : Type} {f : TokenUsage → α → TokenUsage}
    (h : ∀ u a, f u a = u.override (f .zero a)) (u : TokenUsage) (l : List α) :
    l.foldl f u = u.override (l.foldl f .zero) := by
  induction l generalizing u with
  | nil => rfl
  | cons a l ih =>
    rw [List.foldl_cons, List.foldl_cons, ih (f u a), ih (f .zero a), h u a, TokenUsage.override_assoc]

/-! ## Conversions -/

theorem toNat_uint32 (n : Int) : (uint32 n).toNat = (n % 2 ^ 32).toNat := by
  have hlt : (n % 2 ^ 32).toNat < 2 ^ 32 := by omega
  rw [uint32, UInt32.toNat_ofNat_of_lt' hlt]

theorem uint32_add (m n : Int) : uint32 (m + n) = uint32 m + uint32 n := by
  apply UInt32.toNat.inj
  rw [UInt32.toNat_add, toNat_uint32, toNat_uint32, toNat_uint32]
  omega

theorem uint32_sub (m n : Int) : uint32 (m - n) = uint32 m - uint32 n := by
  have h := uint32_add (m - n) n
  rw [Int.sub_add_cancel] at h
  rw [h, UInt32.add_sub_cancel]

theorem uint32_le {m n : Int} (hm : 0 ≤ m) (hle : m ≤ n) (hn : n < 2 ^ 32) : uint32 m ≤ uint32 n := by
  rw [UInt32.le_iff_toNat_le, toNat_uint32, toNat_uint32]
  omega

theorem uint32_inj {m n : Int} (hm : 0 ≤ m) (hm' : m < 2 ^ 32) (hn : 0 ≤ n) (hn' : n < 2 ^ 32) :
    uint32 m = uint32 n ↔ m = n := by
  constructor
  · intro h
    have hnat := congrArg UInt32.toNat h
    rw [toNat_uint32, toNat_uint32] at hnat
    omega
  · rintro rfl
    rfl

end AgentRouter.Metrics
