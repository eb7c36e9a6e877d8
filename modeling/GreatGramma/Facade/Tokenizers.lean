import GreatGramma.Compiler.Extraction
import GreatGramma.Facade.Manifest

/-!
# Manifests of fast tokenizers

The bytes of a fast tokenizer come from the file that its backend is serialized to.  The facade
checks the EOS IDs, and bounds the text of the file before it crosses the boundary; the native
module extracts the tokens and hands back their bytes, with none for an EOS token; and the manifest
that is made of them is checked as every other.

## EOS IDs

The IDs are gone through in the order in which they are given, and have to be integers of 32 bits,
of which none comes twice.  So they are a set when the manifest is made, and the fact is kept in
the type of the loop's state (`EosIds`).

## What is lost and put back

The mark of the EOS tokens is lost on the way: what comes back is bytes for every token, and none
where the token is EOS.  It is put back from the IDs.  That this is the same mark needs a fact about
the extraction, which is that its manifest has the end of sequence at just the IDs that it was given
(`extract_kinds`).  What `compile` hands over for the manifest is therefore just what was extracted
(`from_transformers_exact`).

The backend is a parameter, as far as the facade looks at it: it may have no method to call, the
call may raise, and what it returns need not be a string.
-/

namespace GreatGramma

open Reservation Traversal

/-! ## EOS IDs -/

/-- The IDs that `from_transformers` has collected, and seen. -/
abbrev EosIds : Type := {ids : List ℕ // ids.Nodup}

/-- An unsigned 32-bit integer. -/
def exactU32 (object : PyObject) : Option ℕ :=
  object.exactInt.bind fun value =>
    if 0 ≤ value ∧ value ≤ 0xFFFFFFFF then some value.toNat else none

/-- One ID of the loop of `from_transformers`. -/
def addEosId (ids : EosIds) (tokenId : PyObject) : Except GreatGrammaError EosIds :=
  if ids.val.length ≥ maxVocabSize then
    .error (ManifestFields.refuse
      s!"EOS token IDs must contain at most {maxVocabSize} entries" none)
  else
    match exactU32 tokenId with
    | none =>
      .error (ManifestFields.refuse "EOS token IDs must be unsigned 32-bit integers" none)
    | some id =>
      if h : id ∈ ids.val then
        .error (ManifestFields.refuse "EOS token IDs must not contain duplicates" none)
      else .ok ⟨ids.val ++ [id], List.concat_eq_append ▸ ids.property.concat h⟩

theorem exactU32_eq_some {object : PyObject} {id : ℕ} :
    exactU32 object = some id ↔ object = .int id ∧ id < 2 ^ 32 := by
  rw [exactU32, Option.bind_eq_some_iff]
  constructor
  · rintro ⟨value, hvalue, h⟩
    split_ifs at h with hrange
    obtain rfl := Option.some.inj h
    rw [PyObject.exactInt_eq_some.mp hvalue, Int.toNat_of_nonneg hrange.1]
    exact ⟨rfl, show value.toNat < 2 ^ 32 by omega⟩
  · rintro ⟨rfl, hlt⟩
    exact ⟨id, rfl, by rw [if_pos (by omega), Int.toNat_natCast]⟩

theorem addEosId_ok {ids ids' : EosIds} {tokenId : PyObject}
    (h : addEosId ids tokenId = .ok ids') :
    ∃ id : ℕ, id < 2 ^ 32 ∧ tokenId = .int id ∧ ids'.val = ids.val ++ [id] := by
  rw [addEosId] at h
  obtain ⟨-, h⟩ := ite_error_eq_ok.mp h
  cases hid : exactU32 tokenId with
  | none =>
    rw [hid] at h
    cases h
  | some id =>
    rw [hid] at h
    dsimp only at h
    split_ifs at h with hmem
    obtain ⟨hobject, hlt⟩ := exactU32_eq_some.mp hid
    exact ⟨id, hlt, hobject, (congrArg Subtype.val (Except.ok.inj h)).symm⟩

/-- **The IDs that are collected** are those that were given. -/
theorem addEosIds_ok {tokenIds : List PyObject} {ids : EosIds}
    (h : tokenIds.foldlM addEosId ⟨[], List.nodup_nil⟩ = .ok ids) :
    tokenIds = ids.val.map (fun id : ℕ => PyObject.int id) ∧ ∀ id ∈ ids.val, id < 2 ^ 32 := by
  refine foldlM_ok (I := fun done (ids : EosIds) =>
    done = ids.val.map (fun id : ℕ => PyObject.int id) ∧ ∀ id ∈ ids.val, id < 2 ^ 32) h
    ⟨rfl, fun _ h => absurd h List.not_mem_nil⟩ ?_
  rintro done tokenId after ids ids' - ⟨rfl, hlt⟩ hstep
  obtain ⟨id, hid, rfl, hids⟩ := addEosId_ok hstep
  rw [hids, List.map_append, List.map_singleton]
  refine ⟨rfl, fun other hother => ?_⟩
  rcases List.mem_append.mp hother with hold | hnew
  · exact hlt other hold
  · rwa [List.mem_singleton.mp hnew]

/-! ## The manifest -/

/-- `_MAX_JSON_BYTES`. -/
def maxJsonBytes : ℕ := 64 * 1024 * 1024

/-- What the backend of a tokenizer gives: it has no `to_str` to call, the call raises, it gives
something else than a string, or it gives one. -/
inductive Backend where
  | missing
  | raises (error : String)
  | other
  | json (serialized : PyStr)

/-- A manifest of fields, if they pass. -/
def Manifest.make (fields : ManifestFields) : Except GreatGrammaError Manifest :=
  match h : fields.postInit with
  | .error error => .error error
  | .ok _ => .ok { fields with checked := h }

/-- What `from_transformers` makes of a count. -/
def jsonCounted (texts : PythonTexts) : Except PyStr (Option ℕ) → Except GreatGrammaError Unit
  | .error chunk => .error (ManifestFields.refuse
      s!"tokenizer JSON is not valid UTF-8: {texts.encodeError chunk}" none)
  | .ok none => .error (ManifestFields.refuse
      s!"tokenizer JSON must contain at most {maxJsonBytes} bytes" none)
  | .ok (some _) => .ok ()

/-- The text of the file. -/
def serialize (texts : PythonTexts) : Backend → Except GreatGrammaError PyStr
  | .missing => .error (ManifestFields.refuse
      "a fast tokenizer with backend_tokenizer.to_str() is required" none)
  | .raises error => .error (ManifestFields.refuse
      s!"could not serialize the fast tokenizer backend: {error}" none)
  | .other => .error (ManifestFields.refuse
      "backend_tokenizer.to_str() did not return tokenizer JSON" none)
  | .json serialized => (jsonCounted texts (boundedUtf8Size serialized maxJsonBytes)).map
      fun _ => serialized

/-- The exception that a failure of the boundary is raised as. -/
def BoundaryFailure.raised : BoundaryFailure → Raised
  | .native failure => .own (fromNative failure.intoPyerr none)
  | .foreign => .foreign

/-- `TokenizerManifest.from_transformers`. -/
def fromTransformers (texts : PythonTexts) (fromStr : String → Except String Json.Value)
    (display : CompileError → String) (backend : Backend) (eosTokenIds : List PyObject)
    (memory : Memory) : Except Raised Manifest := do
  let ids ← (eosTokenIds.foldlM addEosId ⟨[], List.nodup_nil⟩).mapError .own
  if ids.val.isEmpty then
    .error (.own (ManifestFields.refuse "at least one EOS token ID is required" none))
  else
    let serialized ← (serialize texts backend).mapError .own
    let tokenBytes ← (tokenBytesFromJson fromStr display serialized
      (ids.val.map fun id : ℕ => (id : ℤ)) memory).mapError BoundaryFailure.raised
    (Manifest.make ⟨tokenBytes.map some, ids.val.map fun id : ℕ => PyObject.int id⟩).mapError .own

/-! ## Back to what was extracted -/

theorem Manifest.make_ok {fields : ManifestFields} {manifest : Manifest}
    (h : Manifest.make fields = .ok manifest) : manifest.toManifestFields = fields := by
  rw [Manifest.make] at h
  split at h
  · cases h
  · rw [← Except.ok.inj h]

theorem falliblePyBytes_ok {tokens tokens' : List (List UInt8)} {memory : Memory}
    (h : falliblePyBytes tokens memory = .ok tokens') : tokens' = tokens := by
  induction tokens generalizing tokens' memory with
  | nil => exact (Except.ok.inj h).symm
  | cons bytes tokens ih =>
    rw [falliblePyBytes] at h
    split at h
    · cases h
    · obtain ⟨rest, hrest, rfl⟩ := map_eq_ok.mp h
      rw [ih hrest]

theorem mapM_extractU32 {ids : List TokenId} {ids' : List TokenId}
    (h : (ids.map fun id : ℕ => (id : ℤ)).mapM extractU32 = .ok ids') : ids' = ids := by
  rw [mapM_eq_ok, List.forall₂_map_left_iff] at h
  refine (List.forall₂_eq_eq_eq ▸ h.imp fun id id' hid => ?_ : ids = ids').symm
  rw [extractU32] at hid
  split_ifs at hid
  rw [← Except.ok.inj hid, Int.toNat_natCast]

/-- The bytes of a token, with none for an EOS token. -/
def TokenSpec.bytesOf : TokenSpec → List UInt8
  | .bytes content => content
  | .eos => []

theorem tokenBytesFromJson_ok {fromStr : String → Except String Json.Value}
    {display : CompileError → String} {serialized : PyStr} {ids : List TokenId} {memory : Memory}
    {tokens : List (List UInt8)}
    (h : tokenBytesFromJson fromStr display serialized (ids.map fun id : ℕ => (id : ℤ)) memory =
      .ok tokens) :
    ∃ json extracted report, serialized = .ofString json ∧
      extract fromStr json ids .default = .ok (extracted, report) ∧
      tokens = extracted.tokens.map TokenSpec.bytesOf := by
  rw [tokenBytesFromJson] at h
  obtain ⟨_, -, h⟩ := bind_eq_ok.mp h
  obtain ⟨json, hjson, h⟩ := bind_eq_ok.mp h
  obtain ⟨ids', hids, h⟩ := bind_eq_ok.mp h
  obtain ⟨inner, hinner, h⟩ := bind_eq_ok.mp h
  rw [mapM_extractU32 hids] at hinner
  have htokens := falliblePyBytes_ok (mapError_eq_ok.mp h)
  have hserialized : serialized = .ofString json := by
    rw [extractString] at hjson
    split at hjson
    · rename_i text htext
      rw [← Except.ok.inj hjson]
      exact PyStr.encode_eq_some.mp htext
    · cases hjson
  have hextract := mapError_eq_ok.mp hinner
  rw [tokenBytesFromJsonInner] at hextract
  split at hextract
  · cases hextract
  · cases hextract
  · rename_i extracted report hextracted
    refine ⟨json, extracted, report, hserialized, hextracted, ?_⟩
    rw [htokens, ← Except.ok.inj hextract]
    exact List.map_congr_left fun token _ => by cases token <;> rfl

/-- The tokens that are extracted: an EOS token for each of the IDs, and bytes elsewhere. -/
theorem extract_kinds {fromStr : String → Except String Json.Value} {json : String}
    {ids : List TokenId} {limits : TokenizerJsonLimits} {extracted : TokenizerManifest}
    {report : CompatibilityReport}
    (h : extract fromStr json ids limits = .ok (extracted, report)) {id : TokenId}
    {token : TokenSpec} (htoken : extracted.tokens[id]? = some token) :
    (id ∈ ids ∧ token = .eos) ∨ (id ∉ ids ∧ ∃ bytes, token = .bytes bytes) := by
  obtain ⟨_, _, entries, eos, _, -, -, -, ⟨_, _, heos⟩, htail⟩ := extract_entries h
  obtain ⟨-, hcontains, -, -⟩ := EosSet.new_ok heos
  obtain ⟨hlength, htokens, -⟩ := extractTokens_ok htail
  obtain ⟨_, token', -, hget, hkind⟩ :=
    htokens id (hlength ▸ (List.getElem?_eq_some_iff.mp htoken).1)
  obtain rfl := Option.some.inj (htoken.symm.trans hget)
  rcases hkind with ⟨hmem, rfl⟩ | ⟨hnot, bytes, -, -, rfl⟩
  · exact Or.inl ⟨(hcontains id).mp hmem, rfl⟩
  · exact Or.inr ⟨fun hid => Bool.eq_false_iff.mp hnot ((hcontains id).mpr hid), bytes, rfl⟩

/-- **The marks are put back.**  The tokens of a manifest that was made of extracted bytes and
their IDs are the extracted ones. -/
theorem ofTokens_extracted {ids : List TokenId} {extracted : TokenizerManifest}
    {manifest : Manifest}
    (hkinds : ∀ (id : ℕ) token, extracted.tokens[id]? = some token →
      (id ∈ ids ∧ token = .eos) ∨ (id ∉ ids ∧ ∃ bytes, token = .bytes bytes))
    (hbytes : manifest.tokenBytes = (extracted.tokens.map TokenSpec.bytesOf).map some)
    (hids : manifest.eosTokenIds = ids.map fun id : ℕ => PyObject.int id) :
    TokenizerManifest.ofTokens manifest.tokens = extracted := by
  have hmem : ∀ id : ℕ, PyObject.int id ∈ manifest.eosTokenIds ↔ id ∈ ids := by
    intro id
    rw [hids, List.mem_map]
    constructor
    · rintro ⟨other, hother, h⟩
      rwa [← Int.ofNat.inj (PyObject.int.inj h)]
    · exact fun h => ⟨id, h, rfl⟩
  obtain ⟨tokens⟩ := extracted
  refine congrArg TokenizerManifest.mk (List.ext_getElem? fun id => ?_)
  rw [List.getElem?_map, ManifestFields.tokens, List.getElem?_map, List.getElem?_zipIdx, hbytes,
    List.getElem?_map, List.getElem?_map]
  cases htoken : tokens[id]? with
  | none => rfl
  | some token =>
    simp only [Option.map_some, Nat.zero_add, ManifestFields.token, hmem]
    rcases hkinds id token htoken with ⟨hid, rfl⟩ | ⟨hid, bytes, rfl⟩
    · rw [if_pos hid]
    · rw [if_neg hid]
      rfl

/-- **A manifest of a fast tokenizer** is what was extracted of its file.  The tokens that
`compile` hands over for it are those that were extracted for the IDs, EOS tokens included. -/
theorem from_transformers_exact {texts : PythonTexts}
    {fromStr : String → Except String Json.Value} {display : CompileError → String}
    {backend : Backend} {eosTokenIds : List PyObject} {memory : Memory} {manifest : Manifest}
    (h : fromTransformers texts fromStr display backend eosTokenIds memory = .ok manifest) :
    ∃ (json : String) (ids : List TokenId) (report : CompatibilityReport),
      backend = .json (.ofString json) ∧
      eosTokenIds = ids.map (fun id : ℕ => PyObject.int id) ∧ ids.Nodup ∧ manifest.ids = ids ∧
      extract fromStr json ids .default =
        .ok (TokenizerManifest.ofTokens manifest.tokens, report) := by
  rw [fromTransformers] at h
  obtain ⟨ids, hids, h⟩ := bind_eq_ok.mp h
  obtain ⟨-, h⟩ := ite_error_eq_ok.mp h
  obtain ⟨serialized, hserialized, h⟩ := bind_eq_ok.mp h
  obtain ⟨tokens, htokens, h⟩ := bind_eq_ok.mp h
  have hgiven := (addEosIds_ok (mapError_eq_ok.mp hids)).1
  obtain ⟨json, extracted, report, rfl, hextract, rfl⟩ :=
    tokenBytesFromJson_ok (mapError_eq_ok.mp htokens)
  have hfields := Manifest.make_ok (mapError_eq_ok.mp h)
  have hbytes := congrArg ManifestFields.tokenBytes hfields
  have heos := congrArg ManifestFields.eosTokenIds hfields
  refine ⟨json, ids.val, report, ?_, hgiven, ids.property, ?_, ?_⟩
  · have hbackend := mapError_eq_ok.mp hserialized
    cases backend with
    | missing => cases hbackend
    | raises error => cases hbackend
    | other => cases hbackend
    | json given =>
      obtain ⟨_, -, rfl⟩ := map_eq_ok.mp hbackend
      rfl
  · rw [ManifestFields.ids, heos, List.filterMap_map]
    exact List.filterMap_some
  · rw [ofTokens_extracted (fun id token htoken => extract_kinds hextract htoken) hbytes heos]
    exact hextract

theorem from_transformers_exact_byteFile :
    ∃ (manifest : Manifest) (report : CompatibilityReport),
      fromTransformers ⟨fun _ => "", fun _ => "", fun _ => ""⟩ (fun _ => .ok byteFile)
          (fun _ => "") (.json (.ofString "")) [.int 256] .granting = .ok manifest ∧
        manifest.ids = [256] ∧
        extract (fun _ => .ok byteFile) "" [256] .default =
          .ok (TokenizerManifest.ofTokens manifest.tokens, report) := by
  have hsome : (fromTransformers ⟨fun _ => "", fun _ => "", fun _ => ""⟩ (fun _ => .ok byteFile)
      (fun _ => "") (.json (.ofString "")) [.int 256] .granting).toOption.isSome = true := by
    decide +kernel
  have hok := eq_ok_get _ hsome
  obtain ⟨json, ids, report, hbackend, hgiven, -, hids, hextract⟩ := from_transformers_exact hok
  obtain rfl := PyStr.ofString_injective (Backend.json.inj hbackend)
  have hinjective : Function.Injective (List.map fun id : ℕ => PyObject.int id) :=
    List.map_injective_iff.mpr fun id id' h => Int.ofNat.inj (PyObject.int.inj h)
  have hsame : ([256] : List ℕ) = ids := hinjective hgiven
  rw [← hsame] at hids hextract
  exact ⟨_, report, hok, hids, hextract⟩

end GreatGramma
