import Positron.Lib.Wire
import Positron.Policy.Evaluation

/-! The policy provenance that every stored record carries, and its bytes inside a block. -/

namespace Positron.Policy
open MachineInt ByteCodec Decoding Checks
open Positron.Value (utf8)

def maxAppliedRules : Nat := 64

def maxRuleIdBytes : Nat := 256

/-- Whether the parts of a provenance read from storage can be what a policy left. -/
def validateParts (generation : U64) (digest : FixedBytes 32) (appliedRules : List String) : Bool :=
  decide (generation.1 ≠ 0) && !digest.1.all (· == 0) && decide (appliedRules.length ≤ maxAppliedRules) &&
    appliedRules.all fun rule => !rule.isEmpty && decide ((utf8 rule).length ≤ maxRuleIdBytes)

structure CheckedProvenance extends PolicyProvenance where
  valid : validateParts generation digest appliedRules

namespace CheckedProvenance

def new (generation : U64) (digest : FixedBytes 32) (appliedRules : List String) : Option CheckedProvenance :=
  if h : validateParts generation digest appliedRules then some ⟨⟨generation, digest, appliedRules⟩, h⟩
  else none

theorem new_parts (policy : CheckedProvenance) :
    new policy.generation policy.digest policy.appliedRules = some policy := dif_pos policy.valid

theorem rules_count (policy : CheckedProvenance) : policy.appliedRules.length ≤ maxAppliedRules := by
  have hvalid := policy.valid
  simp only [validateParts, Bool.and_eq_true, decide_eq_true_eq] at hvalid
  exact hvalid.1.2

theorem rule_bytes (policy : CheckedProvenance) :
    ∀ rule ∈ policy.appliedRules, (utf8 rule).length ≤ maxRuleIdBytes := by
  intro rule hmem
  have hvalid := policy.valid
  simp only [validateParts, Bool.and_eq_true, List.all_eq_true, decide_eq_true_eq] at hvalid
  exact (hvalid.2 rule hmem).2

def layout (policy : CheckedProvenance) : Bytes :=
  beBytes 8 policy.generation.1 ++ (policy.digest.1 ++ (beBytes 2 policy.appliedRules.length ++
    policy.appliedRules.flatMap fun rule => sized (utf8 rule)))

end CheckedProvenance

section Codec

variable {ε : Type}

/-- The field writers of a store fail with its limit code. -/
def encodePolicy (limitExceeded : ε) (policy : CheckedProvenance) : Encoder ε PUnit := do
  put (beBytes 8 policy.generation.1)
  put policy.digest.1
  putCount limitExceeded policy.appliedRules.length
  putEach (fun rule => putSized limitExceeded (utf8 rule)) policy.appliedRules

def takeParts (malformed : ε) : Decoder ε PolicyProvenance := do
  let generation ← takeU64 malformed
  let digest ← takeArray malformed 32
  let count ← takeCount malformed maxAppliedRules
  let rules ← takeMany (takeText malformed maxRuleIdBytes) count
  return ⟨generation, digest, rules⟩

theorem puts_encodePolicy (limitExceeded : ε) (policy : CheckedProvenance) :
    Puts (encodePolicy limitExceeded policy) policy.layout := by
  have hcount := policy.rules_count
  have hrules := policy.rule_bytes
  unfold maxAppliedRules at hcount
  unfold maxRuleIdBytes at hrules
  refine (puts_put _).bind ((puts_put _).bind ((puts_putCount _ (by omega)).bind (puts_putEach ?_)))
  intro rule hmem
  have hbytes := hrules rule hmem
  exact puts_putSized _ (by omega)

theorem reads_takeParts (malformed : ε) (policy : CheckedProvenance) :
    Reads (takeParts malformed) policy.layout policy.toPolicyProvenance := by
  have hcount := policy.rules_count
  have hrules := policy.rule_bytes
  refine (reads_takeU64 _ _).bind ((reads_takeArray _ policy.digest).bind
    ((reads_takeCount _ (by unfold maxAppliedRules at hcount; omega) hcount).bind
    (.last (reads_takeMany ?_) (.pure _))))
  intro rule hmem
  have hbytes := hrules rule hmem
  exact reads_takeText _ (by unfold maxRuleIdBytes utf8 at hbytes; omega) hbytes

end Codec

end Positron.Policy
