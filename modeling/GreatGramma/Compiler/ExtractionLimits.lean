import GreatGramma.Compiler.Extraction
import GreatGramma.Library.Metering

/-!
# The limits of extraction only gate it

Extraction compares four limits: the length of the text, the size of the vocabulary, the decoded
bytes, and the work.  The budget carries the limits along, and the vocabulary limit is compared at
five places, each with a refusal of its own; but a limit is read for nothing else, and what is
charged does not depend on it.

## Gates

So every function of the extraction is gated (`Extracts`): it needs so much of each kind, limits
that cover the need all lead to one outcome, and others are refused with a refusal of a kind whose
need they do not cover.  There is one lemma for each function of the source.  The values that it
passes on may hold the budget, and with it the limits; they are compared after the limits have been
taken out, which is what the parameter `value` is for.

## The least maximum

What needs more of the work than a limit grants, and not more of the others, can only be refused
for its work.  That makes the need for work the least maximum that succeeds: from it on extraction
returns the same, and below it every maximum is refused for its work (`extract_limits_gate`).
-/

namespace GreatGramma

open Metering TokenizerJsonLimits

/-- The four limits of extraction. -/
inductive ExtractionLimit where
  | jsonBytes
  | vocabSize
  | decodedTokenBytes
  | work
  deriving DecidableEq

def TokenizerJsonLimits.of (limits : ExtractionLimit → ℕ) : TokenizerJsonLimits :=
  ⟨limits .jsonBytes, limits .vocabSize, limits .decodedTokenBytes, limits .work⟩

def TokenizerJsonLimits.kinds (limits : TokenizerJsonLimits) : ExtractionLimit → ℕ
  | .jsonBytes => limits.maxJsonBytes
  | .vocabSize => limits.maxVocabSize
  | .decodedTokenBytes => limits.maxDecodedTokenBytes
  | .work => limits.maxWork

theorem TokenizerJsonLimits.kinds_of (limits : ExtractionLimit → ℕ) :
    (TokenizerJsonLimits.of limits).kinds = limits := by
  funext kind
  cases kind <;> rfl

/-- Limits are compared one by one. -/
instance : LE TokenizerJsonLimits where
  le limits limits' := limits.maxJsonBytes ≤ limits'.maxJsonBytes ∧
    limits.maxVocabSize ≤ limits'.maxVocabSize ∧
    limits.maxDecodedTokenBytes ≤ limits'.maxDecodedTokenBytes ∧
    limits.maxWork ≤ limits'.maxWork

theorem TokenizerJsonLimits.kinds_le {limits limits' : TokenizerJsonLimits}
    (h : limits ≤ limits') : limits.kinds ≤ limits'.kinds := by
  obtain ⟨hjson, hvocab, hdecoded, hwork⟩ := h
  intro kind
  cases kind with
  | jsonBytes => exact hjson
  | vocabSize => exact hvocab
  | decodedTokenBytes => exact hdecoded
  | work => exact hwork

/-- The refusals of each limit. -/
inductive Exceeds : ExtractionLimit → ℕ → ℕ → CompileFailure → Prop
  | jsonBytes {required maximum : ℕ} :
    Exceeds .jsonBytes required maximum (tokenizerError (.jsonTooLarge required maximum))
  | vocabulary {required maximum : ℕ} :
    Exceeds .vocabSize required maximum (incompatible (.vocabularyExceeds required maximum))
  | eosCount {required maximum : ℕ} :
    Exceeds .vocabSize required maximum (incompatible (.eosCount required maximum))
  | eosId {required maximum : ℕ} :
    Exceeds .vocabSize required maximum (incompatible .eosExceedsLimit)
  | addedId {id maximum : ℕ} :
    Exceeds .vocabSize (id + 1) maximum (incompatible (.addedTooLarge id))
  | size {required maximum : ℕ} :
    Exceeds .vocabSize required maximum (incompatible (.vocabularySize required maximum))
  | decodedTokenBytes {required maximum : ℕ} :
    Exceeds .decodedTokenBytes required maximum
      (tokenizerError (.decodedOutputTooLarge required maximum))
  | work {required maximum : ℕ} :
    Exceeds .work required maximum (tokenizerError (.workLimit required maximum))

/-- What a budget has used. -/
structure Used where
  work : ℕ
  decodedBytes : ℕ

def Used.budget (limits : TokenizerJsonLimits) (used : Used) : ExtractionBudget :=
  ⟨limits, used.work, used.decodedBytes⟩

/-- A budget, and what comes with it. -/
def budgetWith {α : Type} (limits : TokenizerJsonLimits) (t : Used × α) : ExtractionBudget × α :=
  (t.1.budget limits, t.2)

/-- A part of extraction, gated by the limits: `value` puts them back into what it
returns. -/
def Extracts {σ τ : Type} (value : TokenizerJsonLimits → τ → σ)
    (f : TokenizerJsonLimits → Except CompileFailure σ) : Prop :=
  Gated Exceeds (fun limits (failure : (ExtractionLimit → ℕ) → CompileFailure) => failure limits)
    (fun limits => value (.of limits)) fun limits => f (.of limits)

namespace Extracts

variable {σ σ' τ τ' ι : Type} {value : TokenizerJsonLimits → τ → σ}
  {value' : TokenizerJsonLimits → τ' → σ'} {f : TokenizerJsonLimits → Except CompileFailure σ}

theorem fails (h : ∀ limits, ∃ e, f limits = .error e) : Extracts value f := by
  choose failure hfailure using h
  exact Gated.of_eq (.error fun limits => failure (.of limits)) fun limits => hfailure (.of limits)

theorem pass (t : τ) (h : ∀ limits, f limits = .ok (value limits t)) : Extracts value f :=
  Gated.of_eq (.ok t) fun limits => h (.of limits)

theorem const (result : Except CompileFailure σ) : Extracts (fun _ x => x) fun _ => result := by
  cases result with
  | error e => exact .fails fun _ => ⟨e, rfl⟩
  | ok x => exact .pass x fun _ => rfl

theorem bind {g : TokenizerJsonLimits → σ → Except CompileFailure σ'} (hf : Extracts value f)
    (hg : ∀ t, Extracts value' fun limits => g limits (value limits t)) :
    Extracts value' fun limits => f limits >>= g limits :=
  Gated.bind (g := fun limits => g (.of limits)) hf fun t _ => hg t

theorem foldlM {body : σ → ι → Except CompileFailure σ} {l : List ι}
    (hbody : ∀ x t, Extracts value fun limits => body (value limits t) x) (t : τ) :
    Extracts value fun limits => l.foldlM body (value limits t) :=
  @Gated.foldlM ExtractionLimit _ _ _ _ _ _ _ _ (fun _ => body) l (fun x _ t => hbody x t) t

/-- **A comparison with a limit**, and what follows it. -/
theorem compare (kind : ExtractionLimit) (required : ℕ) {past : TokenizerJsonLimits → Prop}
    [∀ limits, Decidable (past limits)] {refusal : TokenizerJsonLimits → CompileFailure}
    (hpast : ∀ limits, past limits ↔ limits.kinds kind < required)
    (hrefusal : ∀ limits : TokenizerJsonLimits,
      Exceeds kind required (limits.kinds kind) (refusal limits)) (hf : Extracts value f) :
    Extracts value fun limits => if past limits then .error (refusal limits) else f limits := by
  have hcheck : Extracts (fun _ (_ : Unit) => ()) fun limits =>
      if past limits then .error (refusal limits) else .ok () := by
    refine Gated.of_check kind required () (fun limits hle => if_neg (Nat.not_lt.mpr hle ∘ ?_))
      fun limits hlt => ⟨refusal (.of limits), ?_, if_pos ((hpast _).mpr ?_)⟩
    · intro h
      simpa only [kinds_of] using (hpast _).mp h
    · simpa only [kinds_of] using hrefusal (.of limits)
    · rwa [kinds_of]
  have hboth := hcheck.bind (g := fun limits _ => f limits) fun _ => hf
  refine (congrArg (Extracts value) (funext fun limits => ?_)).mp hboth
  split_ifs <;> rfl

theorem chargeWork (used : Used) (amount : ℕ) :
    Extracts Used.budget fun limits => (used.budget limits).chargeWork amount :=
  compare .work (min (used.work + amount) (2 ^ 64 - 1)) (fun _ => Iff.rfl) (fun _ => .work)
    (.pass ⟨min (used.work + amount) (2 ^ 64 - 1), used.decodedBytes⟩ fun _ => rfl)

theorem chargeDecodedBytes (used : Used) (bytes : ℕ) :
    Extracts Used.budget fun limits => (used.budget limits).chargeDecodedBytes bytes :=
  compare .decodedTokenBytes (min (used.decodedBytes + bytes) usizeMax) (fun _ => Iff.rfl)
    (fun _ => .decodedTokenBytes)
    (.pass ⟨used.work, min (used.decodedBytes + bytes) usizeMax⟩ fun _ => rfl)

theorem checkVocabSize (actual : ℕ) :
    Extracts (fun _ (_ : Unit) => ()) fun limits => checkVocabSize actual limits.maxVocabSize :=
  compare .vocabSize actual (fun _ => Iff.rfl) (fun _ => .vocabulary) (.pass () fun _ => rfl)

end Extracts

/-! ## The decoder and the vocabulary -/

theorem extracts_validateDecoder (value : Option Json.Value) (used : Used) :
    Extracts Used.budget fun limits => validateDecoder value (used.budget limits) := by
  rcases value with _ | value
  · exact .fails fun _ => ⟨_, rfl⟩
  refine .bind (.const _) fun decoder => .bind (.chargeWork used _) fun used => ?_
  refine .bind (.const _) fun type => ?_
  by_cases htype : type ≠ "ByteLevel"
  · simp only [if_pos htype]
    exact .fails fun _ => ⟨_, rfl⟩
  · simp only [if_neg htype]
    generalize decoder.find? _ = unknown
    rcases unknown with _ | entry
    · exact .pass used fun _ => rfl
    · exact .fails fun _ => ⟨_, rfl⟩

theorem extracts_buildDense (pairs : List (ℕ × String)) (used : Used) :
    Extracts budgetWith fun limits => buildDense pairs (used.budget limits) := by
  refine .bind (.chargeWork used _) fun used => .bind (.checkVocabSize _) fun _ => ?_
  exact .bind (.const _) fun output => .pass (used, output) fun _ => rfl

theorem extracts_vocabularyPair (entry : String × Json.Value)
    (t : Used × List (ℕ × String)) :
    Extracts budgetWith fun limits => vocabularyPair (budgetWith limits t) entry := by
  refine .bind (.chargeWork t.1 _) fun used => ?_
  rcases entry.2.asU64 with _ | id
  · exact .fails fun _ => ⟨_, rfl⟩
  · exact .pass (used, t.2 ++ [(id, entry.1)]) fun _ => rfl

theorem extracts_objectVocabulary (model : List (String × Json.Value)) (used : Used) :
    Extracts budgetWith fun limits => objectVocabulary model (used.budget limits) := by
  unfold objectVocabulary
  rcases model.lookup "vocab" with _ | vocab
  · exact .fails fun _ => ⟨_, rfl⟩
  refine .bind (.const _) fun vocab => .bind (.checkVocabSize _) fun _ => ?_
  refine .bind (.foldlM extracts_vocabularyPair (used, [])) fun t => ?_
  exact extracts_buildDense t.2 t.1

theorem extracts_unigramItem (item : Json.Value × ℕ) (t : Used × List (Option Entry)) :
    Extracts budgetWith fun limits => unigramItem (budgetWith limits t) item := by
  refine .bind (.chargeWork t.1 _) fun used => ?_
  rcases item.1.asArray with _ | pair
  · exact .fails fun _ => ⟨_, rfl⟩
  dsimp only
  rcases pair.head?.bind Json.Value.asStr with _ | piece
  · exact .fails fun _ => ⟨_, rfl⟩
  refine .bind (.chargeWork used _) fun used => ?_
  exact .pass (used, t.2 ++ [some ⟨piece, false⟩]) fun _ => rfl

theorem extracts_unigramVocabulary (model : List (String × Json.Value)) (used : Used) :
    Extracts budgetWith fun limits => unigramVocabulary model (used.budget limits) := by
  unfold unigramVocabulary
  rcases (model.lookup "vocab").bind Json.Value.asArray with _ | vocab
  · exact .fails fun _ => ⟨_, rfl⟩
  exact .bind (.checkVocabSize _) fun _ => .foldlM extracts_unigramItem (used, [])

theorem extracts_modelVocabulary (modelType : String) (model : List (String × Json.Value))
    (used : Used) :
    Extracts budgetWith fun limits => modelVocabulary modelType model (used.budget limits) := by
  unfold modelVocabulary
  split_ifs
  · exact extracts_objectVocabulary model used
  · exact extracts_unigramVocabulary model used
  · exact .fails fun _ => ⟨_, rfl⟩

/-! ## The end of sequence and the added tokens -/

/-- The IDs are compared with the vocabulary limit twice: by their number, and by the
largest of them. -/
theorem extracts_eosSet (ids : List TokenId) (used : Used) :
    Extracts budgetWith fun limits => EosSet.new ids (used.budget limits) := by
  refine .compare .vocabSize ids.length (fun _ => Iff.rfl) (fun _ => .eosCount) ?_
  refine .bind (.chargeWork used _) fun used => ?_
  refine .compare .vocabSize (ids.max?.getD usizeMax + 1) (fun _ => Nat.lt_succ_iff.symm)
    (fun _ => .eosId) ?_
  refine .bind (.chargeWork used _) fun used => .bind (.const _) fun membership => ?_
  refine .bind (.chargeWork used _) fun used => .bind (.const _) fun sorted => ?_
  exact .pass (used, ⟨membership, sorted⟩) fun _ => rfl

theorem extracts_mergeAddedToken (eos : EosSet) (token : Json.Value)
    (t : Used × List (Option Entry)) :
    Extracts budgetWith fun limits => mergeAddedToken eos (budgetWith limits t) token := by
  refine .bind (.const _) fun token => ?_
  rcases (token.lookup "id").bind Json.Value.asU64 with _ | id
  · exact .fails fun _ => ⟨_, rfl⟩
  refine .compare .vocabSize (id + 1) (fun _ => Nat.lt_succ_iff.symm) (fun _ => .addedId) ?_
  refine .bind (.const _) fun piece => .bind (.chargeWork t.1 _) fun used => ?_
  rcases (token.lookup "special").bind Json.Value.asBool with _ | special
  · exact .fails fun _ => ⟨_, rfl⟩
  dsimp only
  by_cases hspecial : special = true ∧ (!eos.contains id) = true
  · simp only [if_pos hspecial]
    exact .fails fun _ => ⟨_, rfl⟩
  simp only [if_neg hspecial]
  refine .bind (.const _) fun slot => ?_
  rcases slot with _ | existing
  · exact .pass (used, _) fun _ => rfl
  dsimp only
  by_cases hpiece : existing.piece ≠ piece
  · simp only [if_pos hpiece]
    exact .fails fun _ => ⟨_, rfl⟩
  · simp only [if_neg hpiece]
    exact .pass (used, _) fun _ => rfl

theorem extracts_mergeAddedTokens (value : Option Json.Value) (eos : EosSet)
    (t : Used × List (Option Entry)) :
    Extracts budgetWith fun limits =>
      mergeAddedTokens value t.2 eos (t.1.budget limits) := by
  rcases value with _ | value
  · exact .pass t fun _ => rfl
  unfold mergeAddedTokens
  dsimp only
  rcases value.asArray with _ | added
  · exact .fails fun _ => ⟨_, rfl⟩
  refine .bind (.chargeWork t.1 _) fun used => ?_
  exact .foldlM (extracts_mergeAddedToken eos) (used, t.2)

/-! ## Bytes -/

theorem extracts_countCharacter (character : Char) (t : Used × ℕ × Bool) :
    Extracts budgetWith fun limits => countCharacter (budgetWith limits t) character :=
  .bind (.chargeWork t.1 _) fun used => .pass (used, _) fun _ => rfl

theorem extracts_pushCharacter (character : Char) (t : Used × List UInt8) :
    Extracts budgetWith fun limits => pushCharacter (budgetWith limits t) character :=
  .bind (.chargeWork t.1 _) fun used => .pass (used, _) fun _ => rfl

theorem extracts_decodeByteLevel (piece : String) (used : Used) :
    Extracts budgetWith fun limits => decodeByteLevel piece (used.budget limits) := by
  refine .bind (.foldlM extracts_countCharacter (used, 0, true)) fun t => ?_
  obtain ⟨used, decodedLength, allMapped⟩ := t
  refine .bind (.chargeDecodedBytes used _) fun used => ?_
  cases allMapped with
  | true => exact .foldlM extracts_pushCharacter (used, [])
  | false => exact .bind (.chargeWork used _) fun used => .pass (used, _) fun _ => rfl

/-! ## Extraction -/

/-- Tokens so far, with the limits put back. -/
def Tokens.of (limits : TokenizerJsonLimits) (t : Used × List TokenSpec × List Bool) : Tokens :=
  ⟨t.1.budget limits, t.2.1, t.2.2⟩

theorem extracts_extractEntry (eos : EosSet) (entry : Option Entry × ℕ)
    (t : Used × List TokenSpec × List Bool) :
    Extracts Tokens.of fun limits => extractEntry eos (.of limits t) entry := by
  refine .bind (.chargeWork t.1 _) fun used => ?_
  obtain ⟨_ | slot, id⟩ := entry
  · exact .fails fun _ => ⟨_, rfl⟩
  dsimp only
  by_cases hspecial : slot.special = true ∧ (!eos.contains id) = true
  · simp only [if_pos hspecial]
    exact .fails fun _ => ⟨_, rfl⟩
  simp only [if_neg hspecial]
  by_cases heos : eos.contains id = true
  · simp only [if_pos heos]
    exact .pass (used, t.2.1 ++ [.eos], t.2.2) fun _ => rfl
  simp only [if_neg heos]
  refine .bind (extracts_decodeByteLevel _ used) fun t => ?_
  obtain ⟨used, _ | ⟨byte, _ | ⟨second, rest⟩⟩⟩ := t
  · exact .fails fun _ => ⟨_, rfl⟩
  · exact .pass (used, t.2.1 ++ [.bytes [byte]], t.2.2.set byte.toNat true) fun _ => rfl
  · exact .pass (used, t.2.1 ++ [.bytes (byte :: second :: rest)], t.2.2) fun _ => rfl

theorem extracts_checkEosId (entries : List (Option Entry)) (id : TokenId) (used : Used) :
    Extracts Used.budget fun limits => checkEosId entries (used.budget limits) id := by
  refine .bind (.chargeWork used _) fun used => ?_
  by_cases hid : id ≥ entries.length
  · simp only [if_pos hid]
    exact .fails fun _ => ⟨_, rfl⟩
  · simp only [if_neg hid]
    exact .pass used fun _ => rfl

/-- An empty vocabulary fails under every limit; the refusal names the limit all the same. -/
theorem extracts_extractTokens (modelType : String) (entries : List (Option Entry)) (eos : EosSet)
    (used : Used) :
    Extracts (fun _ x => x) fun limits =>
      extractTokens modelType entries eos (used.budget limits) := by
  by_cases hempty : entries.isEmpty = true
  · exact .fails fun _ => ⟨_, if_pos (Or.inl hempty)⟩
  refine .compare .vocabSize entries.length (fun _ => or_iff_right hempty) (fun _ => .size) ?_
  refine .bind (.foldlM (extracts_checkEosId entries) used) fun used => ?_
  refine .bind (.foldlM (extracts_extractEntry eos) (used, [], List.replicate 256 false))
    fun t => .bind (.chargeWork t.1 _) fun _ => ?_
  dsimp only [Tokens.of]
  exact .const _

theorem extracts_extractRoot (root : Json.Value) (eosTokenIds : List TokenId) (used : Used) :
    Extracts (fun _ x => x) fun limits => extractRoot root eosTokenIds (used.budget limits) := by
  refine .bind (.const _) fun root => .bind (extracts_validateDecoder _ used) fun used => ?_
  rcases root.lookup "model" with _ | model
  · exact .fails fun _ => ⟨_, rfl⟩
  refine .bind (.const _) fun model => .bind (.const _) fun modelType => ?_
  refine .bind (extracts_modelVocabulary modelType model used) fun t => ?_
  refine .bind (extracts_eosSet eosTokenIds t.1) fun t' => ?_
  refine .bind (extracts_mergeAddedTokens _ t'.2 (t'.1, t.2)) fun t'' => ?_
  exact extracts_extractTokens modelType t''.2 t'.2 t''.1

/-- **Extraction is gated by its limits.** -/
theorem extracts_extract (fromStr : String → Except String Json.Value) (json : String)
    (eosTokenIds : List TokenId) :
    Extracts (fun _ x => x) fun limits => extract fromStr json eosTokenIds limits := by
  refine .compare .jsonBytes json.utf8ByteSize (fun _ => Iff.rfl) (fun _ => .jsonBytes) ?_
  by_cases heos : eosTokenIds.isEmpty = true
  · simp only [if_pos heos]
    exact .fails fun _ => ⟨_, rfl⟩
  simp only [if_neg heos]
  refine .bind (.chargeWork ⟨0, 0⟩ _) fun used => ?_
  rcases fromStr json with message | root
  · exact .fails fun _ => ⟨_, rfl⟩
  · exact extracts_extractRoot root eosTokenIds used

/-! ## The thresholds -/

/-- **A part that goes through has a threshold for each limit.**  Limits that reach them lead
to the same value, and others are refused for one that they do not reach. -/
theorem Extracts.threshold {σ : Type} {f : TokenizerJsonLimits → Except CompileFailure σ}
    (h : Extracts (fun _ x => x) f) {limits₀ : TokenizerJsonLimits} {s : σ}
    (hok : f limits₀ = .ok s) :
    ∃ need ≤ limits₀.kinds, (∀ limits, need ≤ limits.kinds → f limits = .ok s) ∧
      ∀ limits, ¬need ≤ limits.kinds → ∃ kind required e, limits.kinds kind < required ∧
        required ≤ need kind ∧ Exceeds kind required (limits.kinds kind) e ∧
        f limits = .error e := by
  obtain ⟨need, out, hgates⟩ := h
  have hkinds : f (.of limits₀.kinds) = .ok s := hok
  obtain ⟨hneed, t, rfl, rfl⟩ := Gates.of_ok hgates hkinds
  exact ⟨need, hneed, fun limits hle => hgates.enough limits.kinds hle,
    fun limits hle => hgates.refused limits.kinds hle⟩

/-- **Limits only gate.**  What extraction returns under some limits it returns under all
larger ones; and when it goes through for some maximum of work, there is a least one: larger
ones return the same, and every smaller one is refused for its work. -/
theorem extract_limits_gate (fromStr : String → Except String Json.Value) (json : String)
    (eosTokenIds : List TokenId) (limits : TokenizerJsonLimits)
    (extracted : TokenizerManifest × CompatibilityReport)
    (h : extract fromStr json eosTokenIds limits = .ok extracted) :
    (∀ limits', limits ≤ limits' → extract fromStr json eosTokenIds limits' = .ok extracted) ∧
    ∃ least ≤ limits.maxWork,
      (∀ maxWork, least ≤ maxWork →
        extract fromStr json eosTokenIds { limits with maxWork } = .ok extracted) ∧
      ∀ maxWork < least, ∃ required > maxWork,
        extract fromStr json eosTokenIds { limits with maxWork } =
          .error (tokenizerError (.workLimit required maxWork)) := by
  obtain ⟨need, hneed, henough, hrefused⟩ := (extracts_extract fromStr json eosTokenIds).threshold h
  refine ⟨fun limits' hle => henough limits' (hneed.trans (kinds_le hle)),
    need .work, hneed .work, fun maxWork hwork => henough _ fun kind => ?_, fun maxWork hlt => ?_⟩
  · cases kind with
    | work => exact hwork
    | jsonBytes => exact hneed .jsonBytes
    | vocabSize => exact hneed .vocabSize
    | decodedTokenBytes => exact hneed .decodedTokenBytes
  · have hshort : ¬need ≤ TokenizerJsonLimits.kinds { limits with maxWork } := fun hle =>
      Nat.not_le.mpr hlt (hle .work)
    obtain ⟨kind, required, e, hpast, hwithin, hexceeds, herror⟩ := hrefused _ hshort
    -- the other limits are reached, so nothing else can be missed
    cases kind with
    | work =>
      cases hexceeds
      exact ⟨required, hpast, herror⟩
    | jsonBytes => exact absurd (hwithin.trans (hneed .jsonBytes)) (Nat.not_le.mpr hpast)
    | vocabSize => exact absurd (hwithin.trans (hneed .vocabSize)) (Nat.not_le.mpr hpast)
    | decodedTokenBytes =>
      exact absurd (hwithin.trans (hneed .decodedTokenBytes)) (Nat.not_le.mpr hpast)

theorem extract_limits_gate_byteFile :
    ∃ least, ∀ maxWork, least ≤ maxWork ↔
      ∃ extracted, extract (fun _ => .ok byteFile) "" [256]
        { TokenizerJsonLimits.default with maxWork } = .ok extracted := by
  obtain ⟨extracted, hok⟩ := byteFile_extract
  obtain ⟨-, least, -, henough, hrefused⟩ := extract_limits_gate _ _ _ _ _ hok
  refine ⟨least, fun maxWork => ⟨fun hle => ⟨extracted, henough maxWork hle⟩, fun hextract => ?_⟩⟩
  by_contra hnot
  obtain ⟨extracted', hok'⟩ := hextract
  obtain ⟨required, -, herror⟩ := hrefused maxWork (Nat.not_le.mp hnot)
  rw [hok'] at herror
  cases herror

end GreatGramma
