import Positron.Lib.Borders
import Positron.Query.Scan

/-! Search for a substring in the bytes of a text, piece by piece, with a table of the borders of the
pattern. The reservation of the table is taken to succeed. -/

namespace Positron.Query
open ByteCodec Checks Borders Value List

def maxSearchLiteralBytes : Nat := 1024
def nativeValuePayloadChunkBytes : Nat := 1024

structure SearchObserver (σ : Type) where
  observeSearchStructure : σ → Except QueryFailureCode σ
  observeSearchChunk : σ → Except QueryFailureCode σ

structure BoundedSubstring where
  source : String
  prefixTable : Option (List Nat)

/-- The pieces of `size` bytes that an iteration over chunks hands out. -/
def chunksFrom (size : Nat) : Nat → Bytes → List Bytes
  | 0, _ => []
  | fuel + 1, bytes => if bytes = [] then [] else bytes.take size :: chunksFrom size fuel (bytes.drop size)

def chunks (size : Nat) (bytes : Bytes) : List Bytes := chunksFrom size bytes.length bytes

namespace BoundedSubstring

def fromSource (source : String) : Except QueryFailureCode BoundedSubstring := do
  demand (utf8 source ≠ [] ∧ (utf8 source).length ≤ maxSearchLiteralBytes) .unsupportedQuery
  return ⟨source, none⟩

/-- The inner loop. A border is shorter than its part, so `matched` rounds are enough. -/
def fallBack (pattern : Bytes) (table : List Nat) (byte : UInt8) (fuel matched : Nat) :
    Except QueryFailureCode Nat :=
  if 0 < matched ∧ pattern[matched]? ≠ some byte then
    match fuel with
    | 0 => .error .internal
    | fuel + 1 => do
      let fallback ← orFail table[matched - 1]? .internal
      fallBack pattern table byte fuel fallback
  else .ok matched

def extend (pattern : Bytes) (state : Nat × List Nat) (index : Nat) :
    Except QueryFailureCode (Nat × List Nat) := do
  let byte ← orFail pattern[index]? .internal
  let settled ← fallBack pattern state.2 byte state.1 state.1
  let matched := if pattern[settled]? = some byte then settled + 1 else settled
  demand (index < state.2.length) .internal
  return (matched, state.2.set index matched)

def compile (search : BoundedSubstring) : Except QueryFailureCode BoundedSubstring :=
  if search.prefixTable.isSome then .ok search
  else do
    let pattern := utf8 search.source
    let state ← (range' 1 (pattern.length - 1)).foldlM (extend pattern) (0, replicate pattern.length 0)
    return { search with prefixTable := some state.2 }

/-- `none` as soon as the whole pattern was seen, else what the bytes end in. -/
def scanChunk (pattern : Bytes) (table : List Nat) : Nat → Bytes → Except QueryFailureCode (Option Nat)
  | matched, [] => .ok (some matched)
  | matched, byte :: bytes => do
    let settled ← fallBack pattern table byte matched matched
    if pattern[settled]? = some byte then
      if settled + 1 = pattern.length then return none else scanChunk pattern table (settled + 1) bytes
    else scanChunk pattern table settled bytes

variable {σ : Type}

def scanChunks (observer : SearchObserver σ) (pattern : Bytes) (table : List Nat) :
    σ → Nat → List Bytes → Except QueryFailureCode (Bool × σ)
  | state, _, [] => .ok (false, state)
  | state, matched, chunk :: chunks => do
    let state ← observer.observeSearchChunk state
    match ← scanChunk pattern table matched chunk with
    | none => return (true, state)
    | some matched => scanChunks observer pattern table state matched chunks

def isMatchIn (search : BoundedSubstring) (observer : SearchObserver σ) (state : σ) (pieces : List Bytes) :
    Except QueryFailureCode (Bool × σ) := do
  let state ← observer.observeSearchStructure state
  let table ← orFail search.prefixTable .internal
  scanChunks observer (utf8 search.source) table state 0 pieces

def isMatchObserved (search : BoundedSubstring) (observer : SearchObserver σ) (state : σ) (text : String) :
    Except QueryFailureCode (Bool × σ) :=
  search.isMatchIn observer state (chunks nativeValuePayloadChunkBytes (utf8 text))

section Correctness

variable {pattern text : Bytes} {table : List Nat} {byte : UInt8} {k bound : Nat}

def TableUpTo (pattern : Bytes) (table : List Nat) (bound : Nat) : Prop :=
  ∀ i < bound, ∃ border, table[i]? = some border ∧ Longest pattern (pattern.take (i + 1)).tail border

theorem fallBack_reaches {fuel : Nat} (htable : TableUpTo pattern table k)
    (h : Reaches pattern text byte k) (hfuel : k ≤ fuel) :
    ∃ settled, fallBack pattern table byte fuel k = .ok settled ∧ Reaches pattern text byte settled ∧
      (settled = 0 ∨ pattern[settled]? = some byte) := by
  induction fuel generalizing k with
  | zero =>
    obtain rfl := Nat.le_zero.mp hfuel
    exact ⟨0, rfl, h, .inl rfl⟩
  | succ fuel ih =>
    unfold fallBack
    split
    · rename_i hloop
      obtain ⟨border, hentry, hborder⟩ := htable (k - 1) (by omega)
      rw [Nat.sub_add_cancel hloop.1] at hborder
      have hshorter := hborder.le_text
      rw [length_tail, length_take] at hshorter
      have hrest : TableUpTo pattern table border := fun i hi => htable i (by omega)
      rw [hentry]
      exact ih hrest (h.fallBack hloop.2 hborder) (by omega)
    · rename_i hdone
      refine ⟨k, rfl, h, ?_⟩
      rw [not_and_or, not_not] at hdone
      exact hdone.imp_left Nat.eq_zero_of_not_pos

/-- One byte more: the table leads from the longest part to the longest part. -/
theorem fallBack_longest (htable : TableUpTo pattern table bound) (hbound : k ≤ bound)
    (h : Longest pattern text k) (byte : UInt8) :
    ∃ settled, fallBack pattern table byte k k = .ok settled ∧ (settled = 0 ∨ pattern[settled]? = some byte) ∧
      Longest pattern (text ++ [byte]) (if pattern[settled]? = some byte then settled + 1 else settled) := by
  have hents : TableUpTo pattern table k := fun i hi => htable i (by omega)
  obtain ⟨settled, hrun, hreaches, hend⟩ := fallBack_reaches hents (h.reaches byte) (Nat.le_refl k)
  refine ⟨settled, hrun, hend, ?_⟩
  split
  · rename_i hc
    exact hreaches.grows hc
  · rename_i hc
    obtain rfl := hend.resolve_right hc
    exact hreaches.resets hc

theorem tail_take_succ {index : Nat} (hindex : 1 ≤ index) (hbyte : pattern[index]? = some byte) :
    (pattern.take (index + 1)).tail = (pattern.take index).tail ++ [byte] := by
  obtain ⟨hlt, -⟩ := List.getElem?_eq_some_iff.mp hbyte
  have hne : pattern.take index ≠ [] := by
    apply ne_nil_of_length_pos
    rw [length_take]
    omega
  rw [take_add_one, hbyte, Option.toList_some, tail_append_of_ne_nil hne]

/-- The table is built by searching for the pattern in its own tail. -/
theorem foldlM_extend (count : Nat) : ∀ (index : Nat) (state : Nat × List Nat), 1 ≤ index →
    index + count = pattern.length → state.2.length = pattern.length → TableUpTo pattern state.2 index →
    Longest pattern (pattern.take index).tail state.1 →
    ∃ state', (range' index count).foldlM (extend pattern) state = .ok state' ∧
      TableUpTo pattern state'.2 pattern.length := by
  induction count with
  | zero =>
    intro index state hindex hcount hlen htable hmatched
    refine ⟨state, rfl, ?_⟩
    rwa [← hcount]
  | succ count ih =>
    rintro index ⟨matched, table⟩ hindex hcount hlen htable hmatched
    have hlt : index < pattern.length := by omega
    obtain ⟨byte, hbyte⟩ : ∃ byte, pattern[index]? = some byte := ⟨_, List.getElem?_eq_getElem hlt⟩
    have hle := hmatched.le_text
    rw [length_tail, length_take] at hle
    obtain ⟨settled, hrun, -, hnext⟩ := fallBack_longest htable (by omega) hmatched byte
    rw [← tail_take_succ hindex hbyte] at hnext
    generalize hval : (if pattern[settled]? = some byte then settled + 1 else settled) = next at hnext
    have hslot : index < table.length := hlt.trans_eq hlen.symm
    have hstep : extend pattern (matched, table) index = .ok (next, table.set index next) := by
      unfold extend
      rw [hbyte, orFail_some_bind, bind_eq_of_ok hrun, demand_bind hslot, hval]
      rfl
    rw [range'_succ, foldlM_cons, bind_eq_of_ok hstep]
    refine ih (index + 1) _ (by omega) (by omega) (by rwa [length_set]) ?_ hnext
    intro i hi
    by_cases hself : i = index
    · subst hself
      exact ⟨_, getElem?_set_self hslot, hnext⟩
    · dsimp only
      rw [getElem?_set_ne (Ne.symm hself)]
      exact htable i (by omega)

theorem compile_table {source : String} (hsource : utf8 source ≠ []) :
    ∃ table, compile ⟨source, none⟩ = .ok ⟨source, some table⟩ ∧
      TableUpTo (utf8 source) table (utf8 source).length := by
  have hpos := length_pos_of_ne_nil hsource
  have hborder : Longest (utf8 source) ((utf8 source).take 1).tail 0 := by
    have htail : ((utf8 source).take 1).tail = [] := by cases utf8 source <;> rfl
    rw [htail]
    exact longest_nil _
  have hfirst : TableUpTo (utf8 source) (replicate (utf8 source).length 0) 1 := by
    intro i hi
    obtain rfl := Nat.lt_one_iff.mp hi
    exact ⟨0, by rw [getElem?_replicate, if_pos hpos], hborder⟩
  obtain ⟨state, hrun, htable⟩ := foldlM_extend ((utf8 source).length - 1) 1
    (0, replicate (utf8 source).length 0) (Nat.le_refl 1) (by omega) length_replicate hfirst hborder
  refine ⟨state.2, ?_, htable⟩
  unfold compile
  rw [if_neg (by simp), bind_eq_of_ok hrun]
  rfl

/-- The bytes so far end in `k` bytes of the pattern and the pattern is not among them. -/
structure Scanned (pattern text : Bytes) (k : Nat) : Prop where
  longest : Longest pattern text k
  absent : ¬ pattern <:+: text

theorem scanChunk_scanned (htable : TableUpTo pattern table pattern.length) (bytes : Bytes) :
    ∀ {text : Bytes} {k : Nat}, Scanned pattern text k →
      (scanChunk pattern table k bytes = .ok none ∧ pattern <:+: text ++ bytes) ∨
      ∃ k', scanChunk pattern table k bytes = .ok (some k') ∧ Scanned pattern (text ++ bytes) k' := by
  induction bytes with
  | nil =>
    intro text k h
    rw [append_nil]
    exact .inr ⟨k, rfl, h⟩
  | cons byte bytes ih =>
    intro text k h
    obtain ⟨settled, hrun, hstop, hnext⟩ := fallBack_longest htable h.longest.le h.longest byte
    -- a part that is not the whole pattern leaves the pattern absent
    have hrest : ∀ k, Longest pattern (text ++ [byte]) k → k ≠ pattern.length →
        Scanned pattern (text ++ [byte]) k := by
      intro k hk hne
      refine ⟨hk, ?_⟩
      rw [infix_concat_iff, not_or]
      exact ⟨fun hsuffix => hne (hk.eq_length_iff.mpr hsuffix), h.absent⟩
    have hsplit : text ++ byte :: bytes = text ++ [byte] ++ bytes := append_cons text byte bytes
    rw [hsplit, scanChunk, bind_eq_of_ok hrun]
    by_cases hc : pattern[settled]? = some byte
    · rw [if_pos hc] at hnext ⊢
      by_cases hend : settled + 1 = pattern.length
      · rw [if_pos hend]
        have hsuffix := hnext.eq_length_iff.mp hend
        exact .inl ⟨rfl, hsuffix.isInfix.trans (prefix_append _ _).isInfix⟩
      · rw [if_neg hend]
        exact ih (hrest _ hnext hend)
    · rw [if_neg hc] at hnext ⊢
      obtain rfl := hstop.resolve_right hc
      refine ih (hrest 0 hnext fun hempty => h.absent ?_)
      rw [length_eq_zero_iff.mp hempty.symm]
      exact nil_infix

variable {observer : SearchObserver σ}

def NeverFails (observer : SearchObserver σ) : Prop :=
  (∀ state, ∃ state', observer.observeSearchStructure state = .ok state') ∧
    ∀ state, ∃ state', observer.observeSearchChunk state = .ok state'

theorem scanChunks_eq (hobserver : NeverFails observer) (htable : TableUpTo pattern table pattern.length)
    (pieces : List Bytes) : ∀ (state : σ) {text : Bytes} {k : Nat}, Scanned pattern text k →
      ∃ found state', scanChunks observer pattern table state k pieces = .ok (found, state') ∧
        (found ↔ pattern <:+: text ++ pieces.flatten) := by
  induction pieces with
  | nil =>
    intro state text k h
    rw [flatten_nil, append_nil]
    exact ⟨false, state, rfl, iff_of_false Bool.false_ne_true h.absent⟩
  | cons chunk pieces ih =>
    intro state text k h
    obtain ⟨state', hobs⟩ := hobserver.2 state
    rw [scanChunks, bind_eq_of_ok hobs, flatten_cons, ← append_assoc]
    rcases scanChunk_scanned htable chunk h with ⟨hrun, hfound⟩ | ⟨k', hrun, hscanned⟩
    · rw [bind_eq_of_ok hrun]
      exact ⟨true, state', rfl, iff_of_true rfl (hfound.trans (prefix_append _ _).isInfix)⟩
    · rw [bind_eq_of_ok hrun]
      exact ih state' hscanned

theorem chunksFrom_flatten {size : Nat} (hsize : 0 < size) (fuel : Nat) : ∀ bytes : Bytes,
    bytes.length ≤ fuel → (chunksFrom size fuel bytes).flatten = bytes := by
  induction fuel with
  | zero =>
    intro bytes hfuel
    exact (length_eq_zero_iff.mp (Nat.le_zero.mp hfuel)).symm
  | succ fuel ih =>
    intro bytes hfuel
    unfold chunksFrom
    split
    · rename_i hempty
      rw [hempty, flatten_nil]
    · rename_i hne
      have hpos := length_pos_of_ne_nil hne
      rw [flatten_cons, ih _ (by rw [length_drop]; omega), take_append_drop]

/-- A compiled search finds its pattern exactly where it occurs, however the text is cut into pieces. -/
theorem substring_search_exact (observer : SearchObserver σ) (hobserver : NeverFails observer) (source : String)
    (search : BoundedSubstring) (hsearch : fromSource source = .ok search) :
    ∃ compiled, search.compile = .ok compiled ∧ ∀ (text : String) (state : σ),
      (∃ found state', compiled.isMatchObserved observer state text = .ok (found, state') ∧
        (found ↔ utf8 source <:+: utf8 text)) ∧
      ∀ pieces : List Bytes, pieces.flatten = utf8 text → ∃ found state',
        compiled.isMatchIn observer state pieces = .ok (found, state') ∧
          (found ↔ utf8 source <:+: utf8 text) := by
  obtain ⟨_, hbounds, hsearch⟩ := bind_ok hsearch
  cases hsearch
  obtain ⟨hnonempty, -⟩ := demand_eq_ok_iff.mp hbounds
  obtain ⟨table, hcompile, htable⟩ := compile_table hnonempty
  have hstart : Scanned (utf8 source) [] 0 := ⟨longest_nil _, fun h => hnonempty (infix_nil.mp h)⟩
  have hpieces : ∀ (pieces : List Bytes) (state : σ), ∃ found state',
      isMatchIn ⟨source, some table⟩ observer state pieces = .ok (found, state') ∧
        (found ↔ utf8 source <:+: pieces.flatten) := by
    intro pieces state
    obtain ⟨observed, hobs⟩ := hobserver.1 state
    rw [isMatchIn, bind_eq_of_ok hobs, orFail_some_bind]
    exact scanChunks_eq hobserver htable pieces observed hstart
  refine ⟨_, hcompile, fun text state => ⟨?_, ?_⟩⟩
  · have hwhole := hpieces (chunks nativeValuePayloadChunkBytes (utf8 text)) state
    rwa [chunks, chunksFrom_flatten (by decide) _ _ (Nat.le_refl _)] at hwhole
  · intro pieces hflatten
    rw [← hflatten]
    exact hpieces pieces state

def countingObserver : SearchObserver Nat := ⟨fun seen => .ok (seen + 1), fun seen => .ok (seen + 1)⟩

/-- The first `a` of `aab` starts no match, the second does. -/
theorem search_ab_in_aab : NeverFails countingObserver ∧ fromSource "ab" = .ok ⟨"ab", none⟩ ∧ ∃ compiled,
      compile ⟨"ab", none⟩ = .ok compiled ∧
        ∃ seen, compiled.isMatchObserved countingObserver 0 "aab" = .ok (true, seen) := by
  have hobserver : NeverFails countingObserver := ⟨fun seen => ⟨seen + 1, rfl⟩, fun seen => ⟨seen + 1, rfl⟩⟩
  have hsource : fromSource "ab" = .ok ⟨"ab", none⟩ := rfl
  obtain ⟨compiled, hcompile, hmatch⟩ := substring_search_exact countingObserver hobserver "ab" _ hsource
  have hoccurs : utf8 "ab" <:+: utf8 "aab" := ⟨[97], [], rfl⟩
  obtain ⟨⟨found, seen, hrun, hfound⟩, -⟩ := hmatch "aab" 0
  obtain rfl : found := hfound.mpr hoccurs
  exact ⟨hobserver, hsource, compiled, hcompile, seen, hrun⟩

end Correctness

end BoundedSubstring

end Positron.Query
