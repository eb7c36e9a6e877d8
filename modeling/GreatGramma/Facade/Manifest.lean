import GreatGramma.Facade.Boundary

/-!
# Manifests of the facade

A manifest is checked when it is made: its tokens are exact bytes within the limits, its EOS IDs are
numbers of tokens and leave some token over, and none of these is empty.  A value of `Manifest` is
the fields with the fact that the checks have passed, and no more is known of one.

## Sets of IDs

That some token is left over is checked by counting the IDs.  It means what it says when the IDs are
those of a set, as the field is declared: then no ID is counted twice, so some token is ordinary for
want of IDs (`Manifest.exists_ordinary`).  `__post_init__` itself does not ask for a set, and a
sequence that repeats an ID passes it with every token an EOS token.  So the theorem below has the
hypothesis that no ID is repeated, and is about manifests whose field is what it is declared to be.

## Normalization

The compiler checks its own manifest once more: the number of tokens and their bytes against its
limits, that there is an ordinary token and an EOS token, and that no ordinary token is empty.
What it is handed for a manifest of the facade with a set of IDs passes; nothing but a refused
reservation is left to go wrong (`facade_manifest_normalizes`).
-/

namespace GreatGramma

open Traversal

/-! ## Checks

The two loops of `__post_init__`, and what `compile` hands over for the entries. -/

/-- `_MAX_VOCAB_SIZE`. -/
def maxVocabSize : ℕ := 1000000

/-- `_MAX_TOKEN_BYTES`. -/
def maxTokenBytes : ℕ := 1 <<< 30

/-- The fields of a `TokenizerManifest`: an entry is `none` if it is not `bytes`, and the IDs
are in the order in which their set is gone through. -/
structure ManifestFields where
  tokenBytes : List (Option (List UInt8))
  eosTokenIds : List PyObject

namespace ManifestFields

/-- A refusal of a manifest. -/
def refuse (message : String) (token : Option ℤ) : GreatGrammaError :=
  { GreatGrammaError.new .tokenizerCompatibilityError message with token }

variable (fields : ManifestFields)

/-- One ID of the first loop of `TokenizerManifest.__post_init__`. -/
def checkEos (tokenId : PyObject) (_ : ℕ) : Except GreatGrammaError Unit :=
  if tokenId.exactInt.any fun id => 0 ≤ id ∧ id < (fields.tokenBytes.length : ℤ) then .ok ()
  else .error (refuse "an EOS token ID is outside the manifest vocabulary" tokenId.exactInt)

/-- One entry of its second loop. -/
def checkEntry (total : ℕ) (entry : Option (List UInt8) × ℕ) : Except GreatGrammaError ℕ :=
  match entry.1 with
  | none => .error (refuse "every token entry must be exact bytes" (some (entry.2 : ℤ)))
  | some value =>
    if PyObject.int entry.2 ∈ fields.eosTokenIds then .ok total
    else if value.isEmpty then
      .error (refuse "ordinary token bytes cannot be empty" (some (entry.2 : ℤ)))
    else if total + value.length > maxTokenBytes then
      .error (refuse ("ordinary token bytes must contain at most " ++
        s!"{maxTokenBytes} bytes in aggregate") none)
    else .ok (total + value.length)

/-- `TokenizerManifest.__post_init__`. -/
def postInit : Except GreatGrammaError Unit :=
  if fields.tokenBytes.isEmpty then .error (refuse "the tokenizer manifest is empty" none)
  else if fields.tokenBytes.length > maxVocabSize then
    .error (refuse s!"the tokenizer manifest must contain at most {maxVocabSize} entries" none)
  else if fields.eosTokenIds.isEmpty then
    .error (refuse "at least one EOS token ID is required" none)
  else if fields.eosTokenIds.length > maxVocabSize then
    .error (refuse s!"EOS token IDs must contain at most {maxVocabSize} entries" none)
  else do
    checkEach fields.checkEos fields.eosTokenIds
    if fields.eosTokenIds.length = fields.tokenBytes.length then
      .error (refuse "the tokenizer manifest must contain an ordinary token" none)
    else
      let _ ← fields.tokenBytes.zipIdx.foldlM fields.checkEntry 0
      return ()

/-- What is handed over for an entry. -/
def token (entry : Option (List UInt8) × ℕ) : Option (List UInt8) :=
  if PyObject.int entry.2 ∈ fields.eosTokenIds then none else entry.1

/-- The tokens that `compile` hands over. -/
def tokens : List (Option (List UInt8)) := fields.tokenBytes.zipIdx.map fields.token

/-- The IDs of a set that holds integers only. -/
def ids : List TokenId := fields.eosTokenIds.filterMap fun id => id.exactInt.map Int.toNat

end ManifestFields

/-! ## Manifests -/

/-- `TokenizerManifest`. -/
structure Manifest extends ManifestFields where
  checked : toManifestFields.postInit = .ok ()

/-- **What is checked of a manifest.** -/
structure ManifestFields.WellFormed (fields : ManifestFields) : Prop where
  length_le : fields.tokenBytes.length ≤ maxVocabSize
  eos_ne : fields.eosTokenIds ≠ []
  eos_lt : ∀ id ∈ fields.eosTokenIds, ∃ index < fields.tokenBytes.length, id = .int index
  eos_length : fields.eosTokenIds.length ≠ fields.tokenBytes.length
  entries : ∀ entry ∈ fields.tokenBytes.zipIdx, ∃ value, entry.1 = some value ∧
    (PyObject.int entry.2 ∉ fields.eosTokenIds → value ≠ [])
  bytes_le : GreatGramma.tokenBytes fields.tokens ≤ maxTokenBytes

namespace Manifest

theorem wellFormed (manifest : Manifest) : manifest.WellFormed := by
  have h := manifest.checked
  rw [ManifestFields.postInit] at h
  obtain ⟨-, h⟩ := ite_error_eq_ok.mp h
  obtain ⟨hlength, h⟩ := ite_error_eq_ok.mp h
  obtain ⟨heos, h⟩ := ite_error_eq_ok.mp h
  obtain ⟨-, h⟩ := ite_error_eq_ok.mp h
  obtain ⟨_, hids, h⟩ := bind_eq_ok.mp h
  obtain ⟨hproper, h⟩ := ite_error_eq_ok.mp h
  obtain ⟨total, hloop, -⟩ := bind_eq_ok.mp h
  -- the running total is that of the ordinary tokens gone through
  have hentries : (total = tokenBytes (manifest.tokenBytes.zipIdx.map manifest.token) ∧
      total ≤ maxTokenBytes) ∧ ∀ entry ∈ manifest.tokenBytes.zipIdx, ∃ value,
        entry.1 = some value ∧ (PyObject.int entry.2 ∉ manifest.eosTokenIds → value ≠ []) := by
    refine foldlM_ok (I := fun done total =>
      (total = tokenBytes (done.map manifest.token) ∧ total ≤ maxTokenBytes) ∧
        ∀ entry ∈ done, ∃ value, entry.1 = some value ∧
          (PyObject.int entry.2 ∉ manifest.eosTokenIds → value ≠ [])) hloop
      ⟨⟨rfl, Nat.zero_le _⟩, fun _ h => absurd h List.not_mem_nil⟩ ?_
    rintro done ⟨entry, id⟩ after total total' - ⟨⟨rfl, hle⟩, hdone⟩ hstep
    rw [List.map_append, tokenBytes, List.map_append, List.sum_append, List.map_singleton,
      List.map_singleton, List.sum_singleton, ← tokenBytes, ManifestFields.token,
      List.forall_mem_append, List.forall_mem_singleton]
    cases entry with
    | none => cases hstep
    | some value =>
      rw [ManifestFields.checkEntry] at hstep
      dsimp only at hstep ⊢
      split_ifs at hstep with heos hempty hover
      · rw [if_pos heos, ← Except.ok.inj hstep]
        exact ⟨⟨rfl, hle⟩, hdone, value, rfl, fun hne => absurd heos hne⟩
      · rw [if_neg heos, ← Except.ok.inj hstep]
        refine ⟨⟨rfl, Nat.not_lt.mp hover⟩, hdone, value, rfl, fun _ => ?_⟩
        rwa [List.isEmpty_iff] at hempty
  refine ⟨Nat.not_lt.mp hlength, ?_, fun id hid => ?_, hproper, hentries.2, ?_⟩
  · rwa [List.isEmpty_iff] at heos
  · obtain ⟨index, hindex⟩ := List.getElem?_of_mem hid
    have hcheck := checkEach_eq_ok.mp hids index id hindex
    rw [ManifestFields.checkEos] at hcheck
    split_ifs at hcheck with hrange
    rw [Option.any_eq_true] at hrange
    obtain ⟨value, hvalue, hrange⟩ := hrange
    obtain ⟨hlow, hhigh⟩ := of_decide_eq_true hrange
    refine ⟨value.toNat, by omega, ?_⟩
    rw [PyObject.exactInt_eq_some.mp hvalue, Int.toNat_of_nonneg hlow]
  · rw [ManifestFields.tokens, ← hentries.1.1]
    exact hentries.1.2

theorem length_tokens (manifest : Manifest) :
    manifest.tokens.length = manifest.tokenBytes.length := by
  rw [ManifestFields.tokens, List.length_map, List.length_zipIdx]

/-- Some token is ordinary: the IDs are fewer than the tokens, if none is counted twice. -/
theorem exists_ordinary (manifest : Manifest) (hset : manifest.eosTokenIds.Nodup) :
    ∃ index < manifest.tokenBytes.length, PyObject.int index ∉ manifest.eosTokenIds := by
  by_contra hnone
  have hall : (List.range manifest.tokenBytes.length).map (fun index : ℕ => PyObject.int index) ⊆
      manifest.eosTokenIds := by
    intro id hid
    obtain ⟨index, hindex, rfl⟩ := List.mem_map.mp hid
    exact by_contra fun hne => hnone ⟨index, List.mem_range.mp hindex, hne⟩
  have hnumbered : manifest.eosTokenIds ⊆
      (List.range manifest.tokenBytes.length).map fun index : ℕ => PyObject.int index := by
    intro id hid
    obtain ⟨index, hindex, rfl⟩ := manifest.wellFormed.eos_lt id hid
    exact List.mem_map.mpr ⟨index, List.mem_range.mpr hindex, rfl⟩
  have hnodup : ((List.range manifest.tokenBytes.length).map
      fun index : ℕ => PyObject.int index).Nodup := by
    refine List.Nodup.map (fun index index' h => ?_) List.nodup_range
    exact Int.ofNat.inj (PyObject.int.inj h)
  have hle := (hnodup.subperm hall).length_le
  have hge := (hset.subperm hnumbered).length_le
  rw [List.length_map, List.length_range] at hle hge
  exact manifest.wellFormed.eos_length (le_antisymm hge hle)

/-- **The tokens that are handed over**: some are ordinary and some are not, and no ordinary one
is empty. -/
theorem mem_tokens (manifest : Manifest) (hset : manifest.eosTokenIds.Nodup) :
    some [] ∉ manifest.tokens ∧ (∃ bytes, some bytes ∈ manifest.tokens) ∧
      none ∈ manifest.tokens := by
  have htoken : ∀ index value, manifest.tokenBytes[index]? = some value →
      manifest.token (value, index) ∈ manifest.tokens := by
    intro index value h
    refine List.mem_map.mpr ⟨(value, index), ?_, rfl⟩
    exact List.mem_zipIdx_iff_getElem?.mpr h
  refine ⟨fun hempty => ?_, ?_, ?_⟩
  · obtain ⟨⟨entry, index⟩, hentry, h⟩ := List.mem_map.mp hempty
    obtain ⟨value, hvalue, hne⟩ := manifest.wellFormed.entries _ hentry
    rw [ManifestFields.token] at h
    split_ifs at h with heos
    rw [hvalue] at h
    exact hne heos (Option.some.inj h)
  · obtain ⟨index, hindex, hne⟩ := manifest.exists_ordinary hset
    have hentry := List.getElem?_eq_getElem hindex
    obtain ⟨value, hvalue, -⟩ := manifest.wellFormed.entries (_, index)
      (List.mem_zipIdx_iff_getElem?.mpr hentry)
    have h := htoken index _ hentry
    rw [ManifestFields.token, if_neg hne, hvalue] at h
    exact ⟨value, h⟩
  · obtain ⟨id, hid⟩ := List.exists_mem_of_ne_nil _ manifest.wellFormed.eos_ne
    obtain ⟨index, hindex, rfl⟩ := manifest.wellFormed.eos_lt id hid
    have h := htoken index _ (List.getElem?_eq_getElem hindex)
    rwa [ManifestFields.token, if_pos hid] at h

end Manifest

/-- **A manifest is normalized.**  Whatever manifest with a set of EOS IDs the facade lets be made,
the compiler takes its tokens as they are, unless the reservation for them is refused. -/
theorem facade_manifest_normalizes (manifest : Manifest) (hset : manifest.eosTokenIds.Nodup)
    (granted : Bool) :
    normalizeManifest (.ofTokens manifest.tokens) CompileLimits.default.validation granted =
      if granted then .ok ((TokenizerManifest.ofTokens manifest.tokens).tokens.map TokenSpec.entry)
      else .error (.error (.allocationFailure manifest.tokenBytes.length)) := by
  obtain ⟨hempty, ⟨bytes, hbytes⟩, heos⟩ := manifest.mem_tokens hset
  have hlimits := (ofTokens_within manifest.tokens).mpr
    ⟨manifest.length_tokens.le.trans manifest.wellFormed.length_le, manifest.wellFormed.bytes_le⟩
  have heos' : TokenSpec.eos ∈ (TokenizerManifest.ofTokens manifest.tokens).tokens :=
    List.mem_map.mpr ⟨none, heos, rfl⟩
  cases granted with
  | false =>
    rw [normalizeManifest_refused hlimits (List.ne_nil_of_mem heos'), if_neg Bool.false_ne_true,
      TokenizerManifest.ofTokens, List.length_map, manifest.length_tokens]
  | true =>
    rw [if_pos rfl]
    refine normalizeManifest_exists hlimits (fun h => ?_)
      ⟨bytes, List.mem_map.mpr ⟨some bytes, hbytes, rfl⟩⟩ heos'
    obtain ⟨token, htoken, h⟩ := List.mem_map.mp h
    cases token with
    | none => cases h
    | some bytes =>
      cases h
      exact hempty htoken

/-- One letter and an EOS token. -/
def letterManifest : Manifest where
  tokenBytes := [some [97], some []]
  eosTokenIds := [.int 1]
  checked := by decide +kernel

theorem facade_manifest_normalizes_letter :
    normalizeManifest (.ofTokens letterManifest.tokens) CompileLimits.default.validation true =
      .ok [.bytes [97], .eos] :=
  facade_manifest_normalizes letterManifest (List.nodup_singleton _) true

end GreatGramma
