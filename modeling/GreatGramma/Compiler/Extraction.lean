import Mathlib.Data.List.Nodup
import GreatGramma.Compiler.TokenizerJson

/-!
# Exact bytes for exact IDs

What a tokenizer file says about an ID is read off its model and its added tokens separately: each
gives pieces to IDs.  Extraction succeeds only where the two together give one piece to every ID
below some number and nothing to any other, and then entry by entry the manifest is what the pieces
spell.

## Pieces

The model gives a piece to an ID in one of two ways, by a map from pieces to IDs or by a list of
scored pieces, whose places are their IDs.  Added tokens give pieces as well, to IDs that have one
already, where it has to be the same, or to others.  In all cases the loops place pieces into a
vector, and what the vector holds is what has been assigned so far (`Holds`).  Every placement is
into a slot that is free or has the same piece, so an ID has one piece in the end.

## Bytes

A piece is spelled in the ByteLevel alphabet, where the printable bytes stand for themselves and
the others for the code points from 256 on; a piece with a character outside of the alphabet
stands for its own UTF-8 bytes.  The table of the source is computed from the bytes in their order,
and it inverts the alphabet (`inverseByteLevel_eq_some`), since different bytes have different code
points.

## EOS

The EOS IDs are given by the caller: distinct, in range, and reported in increasing order.  A
special token has to be one of them.  What the manifest has at an EOS ID is the end of sequence,
whatever its piece is.
-/

namespace GreatGramma

open Traversal

/-! ## The alphabet -/

/-- The indirect bytes below a number. -/
def indirectBelow (n : ℕ) : ℕ := (List.range n).countP fun byte => !isDirectByte byte

/-- The code point of a byte. -/
def byteLevelCode (byte : ℕ) : ℕ :=
  if isDirectByte byte then byte else 256 + indirectBelow byte

/-- The ByteLevel alphabet. -/
def byteLevelChar (byte : UInt8) : Char := Char.ofNat (byteLevelCode byte.toNat)

theorem indirectBelow_succ (n : ℕ) :
    indirectBelow (n + 1) = indirectBelow n + if isDirectByte n then 0 else 1 := by
  rw [indirectBelow, indirectBelow, List.range_succ, List.countP_append, List.countP_singleton]
  cases isDirectByte n <;> rfl

theorem byteLevelCode_direct {byte : ℕ} (h : isDirectByte byte = true) :
    byteLevelCode byte = byte := if_pos h

theorem byteLevelCode_indirect {byte : ℕ} (h : ¬isDirectByte byte = true) :
    byteLevelCode byte = 256 + indirectBelow byte := if_neg h

theorem indirectBelow_lt {b n : ℕ} (hb : ¬isDirectByte b = true) (hlt : b < n) :
    indirectBelow b < indirectBelow n := by
  have hstep := indirectBelow_succ b
  rw [if_neg hb] at hstep
  have hmono : indirectBelow (b + 1) ≤ indirectBelow n :=
    List.Sublist.countP_le (List.range_sublist.mpr hlt)
  omega

/-- **The code points are below the length of the table.** -/
theorem byteLevelCode_lt {byte : ℕ} (h : byte < 256) : byteLevelCode byte < 324 := by
  by_cases hdirect : isDirectByte byte = true
  · rw [byteLevelCode_direct hdirect]
    omega
  · have hall : indirectBelow 256 = 68 := by decide +kernel
    have hlt := indirectBelow_lt hdirect h
    rw [byteLevelCode_indirect hdirect]
    omega

/-- **Different bytes have different code points.** -/
theorem byteLevelCode_inj {b b' : ℕ} (hb : b < 256) (hb' : b' < 256)
    (h : byteLevelCode b = byteLevelCode b') : b = b' := by
  by_cases hdirect : isDirectByte b = true <;> by_cases hdirect' : isDirectByte b' = true
  · rwa [byteLevelCode_direct hdirect, byteLevelCode_direct hdirect'] at h
  · rw [byteLevelCode_direct hdirect, byteLevelCode_indirect hdirect'] at h
    omega
  · rw [byteLevelCode_indirect hdirect, byteLevelCode_direct hdirect'] at h
    omega
  · rw [byteLevelCode_indirect hdirect, byteLevelCode_indirect hdirect'] at h
    rcases Nat.lt_trichotomy b b' with hlt | heq | hlt
    · have hcount := indirectBelow_lt hdirect hlt
      omega
    · exact heq
    · have hcount := indirectBelow_lt hdirect' hlt
      omega

theorem foldl_inverseEntry {n : ℕ} (hn : n ≤ 256) :
    ((List.range n).foldl inverseEntry (List.replicate 324 256, 0)).2 = indirectBelow n ∧
      ((List.range n).foldl inverseEntry (List.replicate 324 256, 0)).1.length = 324 ∧
      ∀ c < 324, ∃ v, ((List.range n).foldl inverseEntry (List.replicate 324 256, 0)).1[c]? =
        some v ∧ ((v = 256 ∧ ∀ b < n, byteLevelCode b ≠ c) ∨ (v < n ∧ byteLevelCode v = c)) := by
  induction n with
  | zero =>
    refine ⟨rfl, List.length_replicate, fun c hc => ⟨256, ?_, Or.inl ⟨rfl, fun b hb => ?_⟩⟩⟩
    · exact List.getElem?_replicate_of_lt hc
    · exact absurd hb (Nat.not_lt_zero b)
  | succ n ih =>
    obtain ⟨hcount, hlength, hentries⟩ := ih (Nat.le_of_succ_le hn)
    rw [List.range_succ, List.foldl_append, List.foldl_cons, List.foldl_nil]
    generalize (List.range n).foldl inverseEntry (List.replicate 324 256, 0) = state
      at hcount hlength hentries ⊢
    obtain ⟨output, replacement⟩ := state
    -- the byte is entered at its own code point
    have hstep : inverseEntry (output, replacement) n =
        (output.set (byteLevelCode n) n, indirectBelow (n + 1)) := by
      have hreplacement : replacement = indirectBelow n := hcount
      rw [indirectBelow_succ]
      unfold inverseEntry
      by_cases hdirect : isDirectByte n = true
      · simp only [if_pos hdirect, byteLevelCode_direct hdirect, hreplacement, Nat.add_zero]
      · simp only [if_neg hdirect, byteLevelCode_indirect hdirect, hreplacement]
    rw [hstep]
    refine ⟨rfl, by rw [List.length_set, hlength], fun c hc => ?_⟩
    by_cases heq : byteLevelCode n = c
    · refine ⟨n, ?_, Or.inr ⟨Nat.lt_succ_self n, heq⟩⟩
      rw [heq, List.getElem?_set_self (by rw [hlength]; exact hc)]
    · obtain ⟨v, hv, hcase⟩ := hentries c hc
      refine ⟨v, by rw [List.getElem?_set_ne heq, hv], ?_⟩
      rcases hcase with ⟨rfl, hnone⟩ | ⟨hlt, hcode⟩
      · refine Or.inl ⟨rfl, fun b hb => ?_⟩
        rcases Nat.lt_succ_iff_lt_or_eq.mp hb with hlt | rfl
        · exact hnone b hlt
        · exact heq
      · exact Or.inr ⟨Nat.lt_succ_of_lt hlt, hcode⟩

theorem byteLevelChar_toNat (byte : UInt8) :
    (byteLevelChar byte).toNat = byteLevelCode byte.toNat := by
  have hlt := byteLevelCode_lt (UInt8.toNat_lt byte)
  have hvalid : (byteLevelCode byte.toNat).isValidChar := Or.inl (by omega)
  rw [byteLevelChar, Char.ofNat, dif_pos hvalid]
  rfl

/-- **The table inverts the alphabet.** -/
theorem inverseByteLevel_eq_some {character : Char} {byte : UInt8} :
    inverseByteLevel character = some byte ↔ character = byteLevelChar byte := by
  obtain ⟨-, hlength, hentries⟩ := foldl_inverseEntry le_rfl
  have hbyte := UInt8.toNat_lt byte
  constructor
  · intro h
    unfold inverseByteLevel at h
    split at h
    · cases h
    · rename_i v hv
      split_ifs at h with hlt
      obtain rfl := Option.some_inj.mp h
      have hc : character.toNat < 324 := hlength ▸ (List.getElem?_eq_some_iff.mp hv).1
      obtain ⟨v', hv', hcase⟩ := hentries character.toNat hc
      obtain rfl := Option.some_inj.mp (hv.symm.trans hv')
      rcases hcase with ⟨rfl, -⟩ | ⟨-, hcode⟩
      · exact absurd hlt (Nat.lt_irrefl 256)
      · have hsame : (UInt8.ofNat v).toNat = v := by
          rw [UInt8.toNat_ofNat']
          exact Nat.mod_eq_of_lt hlt
        rw [byteLevelChar, hsame, hcode, Char.ofNat_toNat]
  · rintro rfl
    obtain ⟨v, hv, hcase⟩ := hentries _ (byteLevelCode_lt hbyte)
    rw [← byteLevelChar_toNat] at hv
    unfold inverseByteLevel byteLevelInverse
    rw [hv]
    rcases hcase with ⟨-, hnone⟩ | ⟨hlt, hcode⟩
    · exact absurd rfl (hnone byte.toNat hbyte)
    · obtain rfl := byteLevelCode_inj hlt hbyte hcode
      simp only [if_pos hbyte, UInt8.ofNat_toNat]

/-- A piece spells bytes: letter by letter in the alphabet, or, where some character is
outside of it, by its UTF-8 encoding. -/
def Spells (piece : String) (bytes : List UInt8) : Prop :=
  piece.toList = bytes.map byteLevelChar ∨
    (∃ c ∈ piece.toList, ∀ byte, c ≠ byteLevelChar byte) ∧ bytes = piece.toUTF8.data.toList

theorem map_byteLevelChar {characters : List Char}
    (h : (characters.all fun c => (inverseByteLevel c).isSome) = true) :
    (characters.flatMap fun c => (inverseByteLevel c).toList).map byteLevelChar = characters := by
  induction characters with
  | nil => rfl
  | cons c characters ih =>
    rw [List.all_cons, Bool.and_eq_true] at h
    obtain ⟨hfirst, hrest⟩ := h
    obtain ⟨byte, hbyte⟩ := Option.isSome_iff_exists.mp hfirst
    rw [List.flatMap_cons, hbyte, List.map_append, ih hrest]
    obtain rfl := inverseByteLevel_eq_some.mp hbyte
    rfl

/-- **Decoding a piece** gives the bytes that it spells. -/
theorem decodeByteLevel_ok {piece : String} {budget budget' : ExtractionBudget}
    {bytes : List UInt8} (h : decodeByteLevel piece budget = .ok (budget', bytes)) :
    Spells piece bytes := by
  simp only [decodeByteLevel, bind_eq_ok] at h
  obtain ⟨⟨_, _, allMapped⟩, hcount, _, -, h⟩ := h
  have hall : allMapped = piece.toList.all fun c => (inverseByteLevel c).isSome := by
    refine foldlM_ok (I := fun done (s : ExtractionBudget × ℕ × Bool) =>
      s.2.2 = done.all fun c => (inverseByteLevel c).isSome) hcount rfl ?_
    rintro done c - ⟨_, _, all⟩ s' - hdone hstep
    simp only [countCharacter, bind_eq_ok] at hstep
    obtain ⟨_, -, hstep⟩ := hstep
    cases hstep
    rw [List.all_append, ← hdone, List.all_cons, List.all_nil, Bool.and_true]
  by_cases hmapped : allMapped = true
  · rw [if_pos hmapped] at h
    have hbytes : bytes = piece.toList.flatMap fun c => (inverseByteLevel c).toList := by
      refine foldlM_ok (I := fun done (s : ExtractionBudget × List UInt8) =>
        s.2 = done.flatMap fun c => (inverseByteLevel c).toList) h rfl ?_
      rintro done c - ⟨_, output⟩ s' - hdone hstep
      simp only [pushCharacter, bind_eq_ok] at hstep
      obtain ⟨_, -, hstep⟩ := hstep
      cases hstep
      rw [List.flatMap_append, ← hdone, List.flatMap_singleton]
    rw [hall] at hmapped
    refine Or.inl ?_
    rw [hbytes, map_byteLevelChar hmapped]
  · rw [if_neg hmapped] at h
    obtain ⟨_, -, h⟩ := bind_eq_ok.mp h
    cases h
    refine Or.inr ⟨?_, rfl⟩
    rw [hall, List.all_eq_true] at hmapped
    push Not at hmapped
    obtain ⟨c, hc, hnone⟩ := hmapped
    refine ⟨c, hc, fun byte hsame => hnone ?_⟩
    rw [inverseByteLevel_eq_some.mpr hsame]
    rfl

/-! ## Pieces -/

/-- Entries hold what is assigned: the piece of every ID that has one. -/
def Holds (entries : List (Option Entry)) (assigned : ℕ → String → Prop) : Prop :=
  ∀ id piece, assigned id piece ↔ ∃ entry, entries[id]? = some (some entry) ∧ entry.piece = piece

section
variable {entries : List (Option Entry)} {assigned : ℕ → String → Prop}

theorem Holds.unique (h : Holds entries assigned) {id : ℕ} {piece piece' : String}
    (hp : assigned id piece) (hp' : assigned id piece') : piece = piece' := by
  obtain ⟨entry, hentry, rfl⟩ := (h id piece).mp hp
  obtain ⟨entry', hentry', rfl⟩ := (h id piece').mp hp'
  rw [hentry] at hentry'
  obtain rfl := Option.some_inj.mp (Option.some_inj.mp hentry')
  rfl

theorem Holds.congr {assigned' : ℕ → String → Prop} (h : Holds entries assigned)
    (hsame : ∀ id piece, assigned' id piece ↔ assigned id piece) : Holds entries assigned' :=
  fun id piece => (hsame id piece).trans (h id piece)

theorem Holds.replicate (n : ℕ) : Holds (List.replicate n none) fun _ _ => False := by
  refine fun id piece => ⟨False.elim, ?_⟩
  rintro ⟨entry, hentry, -⟩
  rw [List.getElem?_replicate] at hentry
  split_ifs at hentry
  cases hentry

theorem Holds.append_replicate (h : Holds entries assigned) (n : ℕ) :
    Holds (entries ++ List.replicate n none) assigned := by
  refine fun id piece => (h id piece).trans ⟨?_, ?_⟩
  · rintro ⟨entry, hentry, hpiece⟩
    obtain ⟨hlt, -⟩ := List.getElem?_eq_some_iff.mp hentry
    exact ⟨entry, by rw [List.getElem?_append_left hlt, hentry], hpiece⟩
  · rintro ⟨entry, hentry, hpiece⟩
    rw [List.getElem?_append, List.getElem?_replicate] at hentry
    split_ifs at hentry
    · exact ⟨entry, hentry, hpiece⟩
    · cases hentry

/-- **An entry is placed** in a slot that is free or has the same piece. -/
theorem Holds.set (h : Holds entries assigned) {id : ℕ} {slot : Option Entry}
    (hslot : entries[id]? = some slot) {entry : Entry}
    (hsame : ∀ existing, slot = some existing → existing.piece = entry.piece) :
    Holds (entries.set id (some entry))
      fun id' piece => assigned id' piece ∨ (id' = id ∧ piece = entry.piece) := by
  obtain ⟨hlt, -⟩ := List.getElem?_eq_some_iff.mp hslot
  intro id' piece
  by_cases heq : id = id'
  · subst heq
    rw [List.getElem?_set_self hlt]
    constructor
    · rintro (hold | ⟨-, rfl⟩)
      · obtain ⟨existing, hexisting, rfl⟩ := (h id piece).mp hold
        rw [hslot] at hexisting
        exact ⟨entry, rfl, (hsame existing (Option.some_inj.mp hexisting)).symm⟩
      · exact ⟨entry, rfl, rfl⟩
    · rintro ⟨entry', hentry', rfl⟩
      obtain rfl := Option.some_inj.mp (Option.some_inj.mp hentry')
      exact Or.inr ⟨rfl, rfl⟩
  · rw [List.getElem?_set_ne heq, ← h id' piece]
    exact or_iff_left fun hnew => heq hnew.1.symm

end

/-! ## The vocabulary of the model

Values of the file are read with a check of their kind, and an error names the kind. -/

@[simp] theorem Json.Value.asObject_eq_some {value : Json.Value}
    {map : List (String × Json.Value)} :
    value.asObject = some map ↔ value = .object map := by
  cases value <;> simp [asObject]

@[simp] theorem Json.Value.asArray_eq_some {value : Json.Value} {values : List Json.Value} :
    value.asArray = some values ↔ value = .array values := by
  cases value <;> simp [asArray]

@[simp] theorem Json.Value.asStr_eq_some {value : Json.Value} {string : String} :
    value.asStr = some string ↔ value = .string string := by
  cases value <;> simp [asStr]

@[simp] theorem Json.Value.asBool_eq_some {value : Json.Value} {b : Bool} :
    value.asBool = some b ↔ value = .bool b := by
  cases value <;> simp [asBool]

theorem object_eq_ok {value : Json.Value} {label : String} {map : List (String × Json.Value)} :
    object value label = .ok map ↔ value = .object map := by
  unfold object
  rw [← Json.Value.asObject_eq_some]
  cases value.asObject <;> simp

theorem stringField_eq_ok {map : List (String × Json.Value)} {field label value : String} :
    stringField map field label = .ok value ↔ map.lookup field = some (.string value) := by
  have hfield : (map.lookup field).bind Json.Value.asStr = some value ↔
      map.lookup field = some (.string value) := by
    simp only [Option.bind_eq_some_iff, Json.Value.asStr_eq_some]
    exact ⟨fun ⟨_, h, hv⟩ => hv ▸ h, fun h => ⟨_, h, rfl⟩⟩
  unfold stringField
  rw [← hfield]
  cases (map.lookup field).bind Json.Value.asStr <;> simp

/-- The model gives a piece to an ID: its vocabulary is a map from pieces to IDs, or a list
of scored pieces. -/
inductive ModelPiece (model : List (String × Json.Value)) (id : ℕ) (piece : String) : Prop
  | map {modelType : String} {vocab : List (String × Json.Value)} {value : Json.Value}
      (type : model.lookup "type" = some (.string modelType))
      (known : modelType = "BPE" ∨ modelType = "WordPiece" ∨ modelType = "WordLevel")
      (vocabulary : model.lookup "vocab" = some (.object vocab))
      (entry : (piece, value) ∈ vocab) (number : value.asU64 = some id)
  | list {vocab rest : List Json.Value} (type : model.lookup "type" = some (.string "Unigram"))
      (vocabulary : model.lookup "vocab" = some (.array vocab))
      (entry : vocab[id]? = some (.array (.string piece :: rest)))

/-- **The pieces are placed by their IDs.** -/
theorem buildDense_ok {pairs : List (ℕ × String)} {budget budget' : ExtractionBudget}
    {entries : List (Option Entry)} (h : buildDense pairs budget = .ok (budget', entries)) :
    Holds entries fun id piece => (id, piece) ∈ pairs := by
  simp only [buildDense, bind_eq_ok] at h
  obtain ⟨_, -, _, -, output, hfold, h⟩ := h
  cases h
  refine foldlM_ok (I := fun done (s : List (Option Entry)) =>
    Holds s fun id piece => (id, piece) ∈ done) hfold ?_ ?_
  · refine (Holds.replicate _).congr fun id piece => ?_
    simp only [List.not_mem_nil]
  · rintro done ⟨id, piece⟩ - s s' - hdone hstep
    simp only [placePiece, bind_eq_ok, indexAt_eq_ok] at hstep
    obtain ⟨slot, hslot, hstep⟩ := hstep
    cases slot with
    | some _ => cases hstep
    | none =>
      cases hstep
      refine (hdone.set hslot fun _ hnone => by cases hnone).congr fun id' piece' => ?_
      rw [List.mem_append, List.mem_singleton, Prod.mk.injEq]

theorem objectVocabulary_ok {model : List (String × Json.Value)} {budget budget' : ExtractionBudget}
    {entries : List (Option Entry)}
    (h : objectVocabulary model budget = .ok (budget', entries)) :
    ∃ vocab, model.lookup "vocab" = some (.object vocab) ∧
      Holds entries fun id piece => ∃ value, (piece, value) ∈ vocab ∧ value.asU64 = some id := by
  unfold objectVocabulary at h
  split at h
  · cases h
  rename_i value hvalue
  simp only [bind_eq_ok, object_eq_ok] at h
  obtain ⟨vocab, rfl, _, -, ⟨_, pairs⟩, hpairs, h⟩ := h
  refine ⟨vocab, hvalue, (buildDense_ok h).congr fun id piece => ?_⟩
  have hloop := foldlM_ok (I := fun done (s : ExtractionBudget × List (ℕ × String)) =>
    ∀ id piece, (∃ value, (piece, value) ∈ done ∧ value.asU64 = some id) ↔ (id, piece) ∈ s.2)
    hpairs (fun id piece => by simp) ?_
  · exact hloop id piece
  · rintro done ⟨piece, value⟩ - ⟨_, pairs⟩ s' - hdone hstep
    simp only [vocabularyPair, bind_eq_ok] at hstep
    obtain ⟨_, -, hstep⟩ := hstep
    cases hnumber : value.asU64 with
    | none =>
      rw [hnumber] at hstep
      cases hstep
    | some number =>
      rw [hnumber] at hstep
      cases hstep
      intro id' piece'
      rw [List.mem_append, ← hdone id' piece', List.mem_singleton, Prod.mk.injEq]
      constructor
      · rintro ⟨value', hmem, hvalue'⟩
        rcases List.mem_append.mp hmem with hold | hnew
        · exact Or.inl ⟨value', hold, hvalue'⟩
        · obtain ⟨rfl, rfl⟩ := Prod.mk.inj (List.mem_singleton.mp hnew)
          exact Or.inr ⟨Option.some_inj.mp (hvalue'.symm.trans hnumber), rfl⟩
      · rintro (⟨value', hmem, hvalue'⟩ | ⟨rfl, rfl⟩)
        · exact ⟨value', List.mem_append_left _ hmem, hvalue'⟩
        · exact ⟨value, List.mem_append_right _ List.mem_cons_self, hnumber⟩

theorem unigramVocabulary_ok {model : List (String × Json.Value)}
    {budget budget' : ExtractionBudget}
    {entries : List (Option Entry)}
    (h : unigramVocabulary model budget = .ok (budget', entries)) :
    ∃ vocab, model.lookup "vocab" = some (.array vocab) ∧
      Holds entries fun id piece => ∃ rest, vocab[id]? = some (.array (.string piece :: rest)) := by
  unfold unigramVocabulary at h
  split at h
  · cases h
  rename_i vocab hvocab
  obtain ⟨_, hfield, harray⟩ := Option.bind_eq_some_iff.mp hvocab
  obtain rfl := Json.Value.asArray_eq_some.mp harray
  simp only [bind_eq_ok] at h
  obtain ⟨_, -, hfold⟩ := h
  refine ⟨vocab, hfield, ?_⟩
  have hpush := foldlM_push
    (R := fun (item : Json.Value × ℕ) (entry : Option Entry) => ∃ piece rest,
      item.1 = Json.Value.array (.string piece :: rest) ∧ entry = some (Entry.mk piece false))
    hfold rfl ?_
  · obtain ⟨hlength, hfilled⟩ := hpush
    rw [List.length_zipIdx] at hlength
    have hitem : ∀ (id : ℕ) (entry : Option Entry), entries[id]? = some entry → ∃ piece rest,
        vocab[id]? = some (.array (.string piece :: rest)) ∧ entry = some ⟨piece, false⟩ := by
      intro id entry hentry
      obtain ⟨⟨item, _⟩, hitem, piece, rest, rfl, rfl⟩ := hfilled id entry hentry
      rw [List.getElem?_zipIdx, Option.map_eq_some_iff] at hitem
      obtain ⟨_, hitem, hpair⟩ := hitem
      obtain ⟨rfl, -⟩ := Prod.mk.inj hpair
      exact ⟨piece, rest, hitem, rfl⟩
    refine fun id piece => ⟨?_, ?_⟩
    · rintro ⟨rest, hrest⟩
      obtain ⟨hlt, -⟩ := List.getElem?_eq_some_iff.mp hrest
      have hentry := List.getElem?_eq_getElem (hlength.symm ▸ hlt : id < entries.length)
      obtain ⟨piece', rest', hsame, hpiece⟩ := hitem id _ hentry
      rw [hrest] at hsame
      cases hsame
      exact ⟨⟨piece, false⟩, by rw [hentry, hpiece], rfl⟩
    · rintro ⟨entry, hentry, rfl⟩
      obtain ⟨piece, rest, hsame, hpiece⟩ := hitem id _ hentry
      obtain rfl := Option.some_inj.mp hpiece
      exact ⟨rest, hsame⟩
  · rintro ⟨_, output⟩ ⟨item, id⟩ s' hstep
    simp only [unigramItem, bind_eq_ok] at hstep
    obtain ⟨_, -, hstep⟩ := hstep
    split at hstep
    · cases hstep
    rename_i pair harray
    obtain rfl := Json.Value.asArray_eq_some.mp harray
    split at hstep
    · cases hstep
    rename_i piece hpiece
    obtain ⟨_, -, hstep⟩ := bind_eq_ok.mp hstep
    cases hstep
    refine ⟨some ⟨piece, false⟩, rfl, piece, ?_⟩
    cases pair with
    | nil => cases hpiece
    | cons first rest =>
      obtain rfl := Json.Value.asStr_eq_some.mp hpiece
      exact ⟨rest, rfl, rfl⟩

/-- **The entries of the model hold its pieces.** -/
theorem modelVocabulary_ok {model : List (String × Json.Value)} {modelType : String}
    {budget budget' : ExtractionBudget} {entries : List (Option Entry)}
    (htype : model.lookup "type" = some (.string modelType))
    (h : modelVocabulary modelType model budget = .ok (budget', entries)) :
    Holds entries (ModelPiece model) := by
  have hsame : ∀ {modelType' : String}, model.lookup "type" = some (.string modelType') →
      modelType' = modelType := by
    intro modelType' htype'
    rw [htype] at htype'
    cases htype'
    rfl
  unfold modelVocabulary at h
  split_ifs at h with hmap hlist
  · obtain ⟨vocab, hvocab, hentries⟩ := objectVocabulary_ok h
    refine hentries.congr fun id piece => ⟨?_, ?_⟩
    · intro hpiece
      cases hpiece with
      | map _ _ hvocab' hentry hnumber =>
        rw [hvocab] at hvocab'
        cases hvocab'
        exact ⟨_, hentry, hnumber⟩
      | list htype' =>
        obtain rfl := hsame htype'
        exact absurd hmap (by decide)
    · rintro ⟨value, hentry, hnumber⟩
      exact .map htype hmap hvocab hentry hnumber
  · subst hlist
    obtain ⟨vocab, hvocab, hentries⟩ := unigramVocabulary_ok h
    refine hentries.congr fun id piece => ⟨?_, ?_⟩
    · intro hpiece
      cases hpiece with
      | map htype' hknown =>
        obtain rfl := hsame htype'
        exact absurd hknown hmap
      | list _ hvocab' hentry =>
        rw [hvocab] at hvocab'
        cases hvocab'
        exact ⟨_, hentry⟩
    · rintro ⟨rest, hentry⟩
      exact .list htype hvocab hentry

/-! ## The end of sequence -/

theorem foldlM_listEos_ok {membership : List Bool} {sorted : List TokenId}
    (h : membership.zipIdx.foldlM listEos [] = .ok sorted) :
    sorted.Pairwise (· < ·) ∧ ∀ id, id ∈ sorted ↔ (membership[id]?).getD false = true := by
  have hloop := foldlM_ok (I := fun done (s : List TokenId) =>
    s.Pairwise (· < ·) ∧ (∀ id ∈ s, id < done.length) ∧ ∀ id, id ∈ s ↔ (true, id) ∈ done) h
    ⟨List.Pairwise.nil, by simp, by simp⟩ ?_
  · refine ⟨hloop.1, fun id => (hloop.2.2 id).trans ?_⟩
    rw [List.mem_zipIdx_iff_getElem?]
    cases membership[id]? <;> simp
  · rintro done ⟨present, id⟩ rest s s' hsplit ⟨hsorted, hlt, hdone⟩ hstep
    -- the slot that is looked at stands behind those that were
    have hid : id = done.length := by
      have hget : membership.zipIdx[done.length]? = some (present, id) := by
        rw [hsplit, List.getElem?_append_right le_rfl, Nat.sub_self]
        rfl
      rw [List.getElem?_zipIdx, Option.map_eq_some_iff] at hget
      obtain ⟨_, -, hpair⟩ := hget
      rw [← (Prod.mk.inj hpair).2, Nat.zero_add]
    have hold : ∀ id' ∈ s, id' < (done ++ [(present, id)]).length := by
      intro id' hid'
      rw [List.length_append]
      exact Nat.lt_of_lt_of_le (hlt id' hid') (Nat.le_add_right _ _)
    unfold listEos at hstep
    cases present with
    | false =>
      cases hstep
      refine ⟨hsorted, hold, fun id' => (hdone id').trans ?_⟩
      simp
    | true =>
      simp only [if_true] at hstep
      split at hstep
      · cases hstep
      rename_i id' hid'
      obtain ⟨-, rfl⟩ := u32TryFrom_eq_some.mp hid'
      cases hstep
      refine ⟨List.pairwise_append.mpr ⟨hsorted, List.pairwise_singleton _ _, ?_⟩, ?_, ?_⟩
      · rintro a ha b hb
        rw [List.mem_singleton.mp hb, hid]
        exact hlt a ha
      · intro a ha
        rcases List.mem_append.mp ha with ha | ha
        · exact hold a ha
        · rw [List.mem_singleton.mp ha, hid, List.length_append]
          exact Nat.lt_succ_self _
      · intro a
        rw [List.mem_append, List.mem_append, hdone a, List.mem_singleton, List.mem_singleton,
          Prod.mk.injEq]
        simp

/-- **The EOS list**: it has no duplicates, and both forms of the set have its members. -/
theorem EosSet.new_ok {ids : List TokenId} {budget budget' : ExtractionBudget} {eos : EosSet}
    (h : EosSet.new ids budget = .ok (budget', eos)) :
    ids.Nodup ∧ (∀ id, eos.contains id = true ↔ id ∈ ids) ∧ eos.ids.Pairwise (· < ·) ∧
      ∀ id, id ∈ eos.ids ↔ id ∈ ids := by
  unfold EosSet.new at h
  split_ifs at h
  simp only [bind_eq_ok] at h
  obtain ⟨_, -, h⟩ := h
  split_ifs at h
  simp only [bind_eq_ok] at h
  obtain ⟨_, -, membership, hmark, _, -, sorted, hlist, h⟩ := h
  cases h
  have hmembers := foldlM_ok (I := fun done (s : List Bool) =>
    done.Nodup ∧ ∀ id, (s[id]?).getD false = true ↔ id ∈ done) hmark ⟨List.nodup_nil, ?_⟩ ?_
  · obtain ⟨hnodup, hcontains⟩ := hmembers
    obtain ⟨hsorted, hmem⟩ := foldlM_listEos_ok hlist
    exact ⟨hnodup, hcontains, hsorted, fun id => (hmem id).trans (hcontains id)⟩
  · intro id
    rw [List.getElem?_replicate]
    split_ifs <;> simp
  · rintro done id - s s' - ⟨hnodup, hdone⟩ hstep
    simp only [markEos, bind_eq_ok, indexAt_eq_ok] at hstep
    obtain ⟨present, hpresent, hstep⟩ := hstep
    split_ifs at hstep with hseen
    cases hstep
    have hnew : id ∉ done := by
      rw [← hdone id, hpresent]
      exact hseen
    obtain ⟨hlt, -⟩ := List.getElem?_eq_some_iff.mp hpresent
    refine ⟨List.nodup_append.mpr ⟨hnodup, List.nodup_singleton id, ?_⟩, fun id' => ?_⟩
    · rintro a ha b hb rfl
      exact hnew (List.mem_singleton.mp hb ▸ ha)
    · rw [List.mem_append, List.mem_singleton, ← hdone id']
      by_cases heq : id = id'
      · subst heq
        rw [List.getElem?_set_self hlt]
        simp
      · rw [List.getElem?_set_ne heq]
        exact (or_iff_left fun hsame => heq hsame.symm).symm

/-! ## Added tokens -/

/-- A token object gives a piece to an ID, and says whether it is special. -/
def GivesPiece (token : Json.Value) (id : ℕ) (piece : String) (special : Bool) : Prop :=
  ∃ map, token = .object map ∧ (map.lookup "id").bind Json.Value.asU64 = some id ∧
    map.lookup "content" = some (.string piece) ∧ map.lookup "special" = some (.bool special)

theorem mergeAddedToken_ok {eos : EosSet} {budget budget' : ExtractionBudget}
    {entries entries' : List (Option Entry)} {assigned : ℕ → String → Prop} {token : Json.Value}
    (hentries : Holds entries assigned)
    (h : mergeAddedToken eos (budget, entries) token = .ok (budget', entries')) :
    Holds entries'
      (fun id piece => assigned id piece ∨ ∃ special, GivesPiece token id piece special) ∧
      ∀ id piece, GivesPiece token id piece true → eos.contains id = true := by
  simp only [mergeAddedToken, bind_eq_ok, object_eq_ok] at h
  obtain ⟨map, rfl, h⟩ := h
  split at h
  · cases h
  rename_i id hid
  by_cases hlarge : id ≥ budget.limits.maxVocabSize
  · rw [if_pos hlarge] at h
    cases h
  rw [if_neg hlarge] at h
  simp only [bind_eq_ok, stringField_eq_ok] at h
  obtain ⟨piece, hpiece, _, -, h⟩ := h
  split at h
  · cases h
  rename_i special hspecial
  obtain ⟨value, hlookup, hbool⟩ := Option.bind_eq_some_iff.mp hspecial
  obtain rfl := Json.Value.asBool_eq_some.mp hbool
  by_cases hmarked : special = true ∧ (!eos.contains id) = true
  · rw [if_pos hmarked] at h
    cases h
  rw [if_neg hmarked] at h
  -- what the token says, and that it says nothing else
  have hgives : ∀ id' piece' special', GivesPiece (.object map) id' piece' special' ↔
      id' = id ∧ piece' = piece ∧ special' = special := by
    intro id' piece' special'
    constructor
    · rintro ⟨_, hmap, hid', hpiece', hspecial'⟩
      obtain rfl := Json.Value.object.inj hmap
      rw [hid] at hid'
      rw [hpiece] at hpiece'
      rw [hlookup] at hspecial'
      cases hid'
      cases hpiece'
      cases hspecial'
      exact ⟨rfl, rfl, rfl⟩
    · rintro ⟨rfl, rfl, rfl⟩
      exact ⟨map, rfl, hid, hpiece, hlookup⟩
  have hassigned : ∀ id' piece', (assigned id' piece' ∨
      ∃ special, GivesPiece (.object map) id' piece' special) ↔
        assigned id' piece' ∨ (id' = id ∧ piece' = piece) := by
    intro id' piece'
    simp only [hgives, exists_and_left, exists_eq, and_true]
  refine ⟨?_, fun id' piece' htrue => ?_⟩
  · have hgrown : Holds (if entries.length ≤ id then
        entries ++ List.replicate (min (id + 1) usizeMax - entries.length) none else entries)
        assigned := by
      split_ifs
      · exact hentries.append_replicate _
      · exact hentries
    generalize (if entries.length ≤ id then
      entries ++ List.replicate (min (id + 1) usizeMax - entries.length) none else entries) = grown
      at h hgrown
    simp only [bind_eq_ok, indexAt_eq_ok] at h
    obtain ⟨slot, hslot, h⟩ := h
    cases slot with
    | none =>
      cases h
      exact (hgrown.set hslot fun _ hnone => by cases hnone).congr hassigned
    | some existing =>
      simp only at h
      split_ifs at h with hconflict
      cases h
      have hsame : existing.piece = piece := not_not.mp hconflict
      refine (hgrown.set hslot fun _ hsome => ?_).congr fun id' piece' => ?_
      · rw [← Option.some_inj.mp hsome]
      · rw [hassigned, hsame]
  · obtain ⟨rfl, -, rfl⟩ := (hgives id' piece' true).mp htrue
    by_contra hnot
    exact hmarked ⟨rfl, by rw [Bool.eq_false_iff.mpr hnot]; rfl⟩

/-- An added token of the file gives a piece to an ID. -/
def AddedPiece (root : List (String × Json.Value)) (id : ℕ) (piece : String) (special : Bool) :
    Prop :=
  ∃ added token, root.lookup "added_tokens" = some (.array added) ∧ token ∈ added ∧
    GivesPiece token id piece special

/-- **The added tokens are merged.** -/
theorem mergeAddedTokens_ok {root : List (String × Json.Value)} {eos : EosSet}
    {budget budget' : ExtractionBudget} {entries entries' : List (Option Entry)}
    {assigned : ℕ → String → Prop} (hentries : Holds entries assigned)
    (h : mergeAddedTokens (root.lookup "added_tokens") entries eos budget =
      .ok (budget', entries')) :
    Holds entries'
      (fun id piece => assigned id piece ∨ ∃ special, AddedPiece root id piece special) ∧
      ∀ id piece, AddedPiece root id piece true → eos.contains id = true := by
  unfold mergeAddedTokens at h
  split at h
  · rename_i hnone
    cases h
    have hempty : ∀ id piece special, ¬AddedPiece root id piece special := by
      rintro id piece special ⟨added, -, hadded, -, -⟩
      rw [hnone] at hadded
      cases hadded
    refine ⟨hentries.congr fun id piece => ?_, fun id piece hadded => ?_⟩
    · exact or_iff_left fun ⟨special, hadded⟩ => hempty id piece special hadded
    · exact absurd hadded (hempty id piece true)
  · rename_i value hvalue
    split at h
    · cases h
    rename_i added hadded
    obtain rfl := Json.Value.asArray_eq_some.mp hadded
    obtain ⟨_, -, h⟩ := bind_eq_ok.mp h
    have hpieces : ∀ id piece special, AddedPiece root id piece special ↔
        ∃ token ∈ added, GivesPiece token id piece special := by
      intro id piece special
      constructor
      · rintro ⟨added', token, hadded', hmem, hgives⟩
        rw [hvalue] at hadded'
        cases hadded'
        exact ⟨token, hmem, hgives⟩
      · rintro ⟨token, hmem, hgives⟩
        exact ⟨added, token, hvalue, hmem, hgives⟩
    have hloop := foldlM_ok (I := fun done (s : ExtractionBudget × List (Option Entry)) =>
      Holds s.2 (fun id piece => assigned id piece ∨
        ∃ special, ∃ token ∈ done, GivesPiece token id piece special) ∧
      ∀ id piece, (∃ token ∈ done, GivesPiece token id piece true) → eos.contains id = true) h
      ⟨hentries.congr fun id piece => by simp, by simp⟩ ?_
    · obtain ⟨hholds, hspecial⟩ := hloop
      refine ⟨hholds.congr fun id piece => ?_, fun id piece hpiece => ?_⟩
      · simp only [hpieces]
      · exact hspecial id piece ((hpieces id piece true).mp hpiece)
    · rintro done token - ⟨_, entries⟩ ⟨_, entries'⟩ - ⟨hdone, hspecial⟩ hstep
      obtain ⟨hholds, hmarked⟩ := mergeAddedToken_ok hdone hstep
      refine ⟨hholds.congr fun id piece => ?_, fun id piece => ?_⟩
      · simp only [List.mem_append, List.mem_singleton, or_and_right, exists_or, exists_eq_left,
          or_assoc]
      · rintro ⟨token', hmem, hgives⟩
        rcases List.mem_append.mp hmem with hold | hnew
        · exact hspecial id piece ⟨token', hold, hgives⟩
        · exact hmarked id piece (List.mem_singleton.mp hnew ▸ hgives)

/-! ## The manifest

Entry by entry: an empty slot is refused, an EOS ID gives the end, and any other piece its bytes. -/

/-- What an entry becomes. -/
def TokenOf (eos : EosSet) (entry : Option Entry × ℕ) (token : TokenSpec) : Prop :=
  ∃ e, entry.1 = some e ∧
    ((eos.contains entry.2 = true ∧ token = .eos) ∨
      (eos.contains entry.2 = false ∧ ∃ bytes, bytes ≠ [] ∧ Spells e.piece bytes ∧
        token = .bytes bytes))

/-- **One entry.** -/
theorem extractEntry_ok {eos : EosSet} {state state' : Tokens} {entry : Option Entry × ℕ}
    (h : extractEntry eos state entry = .ok state') :
    ∃ token, state'.tokens = state.tokens ++ [token] ∧ TokenOf eos entry token ∧
      (state'.singleton = state.singleton ∨ ∃ byte, token = .bytes [byte] ∧
        state'.singleton = state.singleton.set byte.toNat true) := by
  obtain ⟨entry, id⟩ := entry
  simp only [extractEntry, bind_eq_ok] at h
  obtain ⟨_, -, h⟩ := h
  cases entry with
  | none => cases h
  | some e =>
    simp only at h
    split_ifs at h with hspecial heos
    · cases h
      exact ⟨.eos, rfl, ⟨e, rfl, Or.inl ⟨heos, rfl⟩⟩, Or.inl rfl⟩
    · obtain ⟨⟨_, bytes⟩, hdecode, h⟩ := bind_eq_ok.mp h
      have hspells := decodeByteLevel_ok hdecode
      have hordinary : eos.contains id = false := Bool.eq_false_iff.mpr heos
      rcases bytes with _ | ⟨byte, _ | ⟨next, bytes⟩⟩
      · cases h
      · cases h
        refine ⟨.bytes [byte], rfl, ?_, Or.inr ⟨byte, rfl, rfl⟩⟩
        exact ⟨e, rfl, Or.inr ⟨hordinary, [byte], List.cons_ne_nil _ _, hspells, rfl⟩⟩
      · cases h
        refine ⟨.bytes (byte :: next :: bytes), rfl, ?_, Or.inl rfl⟩
        exact ⟨e, rfl, Or.inr ⟨hordinary, _, List.cons_ne_nil _ _, hspells, rfl⟩⟩

theorem extractEntries_ok {eos : EosSet} {budget : ExtractionBudget}
    {entries : List (Option Entry)} {extracted : Tokens}
    (h : entries.zipIdx.foldlM (extractEntry eos) ⟨budget, [], List.replicate 256 false⟩ =
      .ok extracted) :
    (extracted.tokens.length = entries.length ∧ ∀ (i : ℕ) (token : TokenSpec),
      extracted.tokens[i]? = some token → ∃ entry, entries[i]? = some entry ∧
        TokenOf eos (entry, i) token) ∧
      extracted.singleton.length = 256 ∧
      ∀ byte : UInt8, extracted.singleton[byte.toNat]? = some true →
        .bytes [byte] ∈ extracted.tokens := by
  have hloop := foldlM_ok (I := fun done (s : Tokens) =>
    Filled (fun i token => ∃ entry, done[i]? = some entry ∧ TokenOf eos entry token) done.length
      s.tokens ∧ s.singleton.length = 256 ∧
    ∀ byte : UInt8, s.singleton[byte.toNat]? = some true → .bytes [byte] ∈ s.tokens) h ?_ ?_
  · obtain ⟨⟨hlength, htokens⟩, hsingle⟩ := hloop
    rw [List.length_zipIdx] at hlength
    refine ⟨⟨hlength, fun i token htoken => ?_⟩, hsingle⟩
    obtain ⟨⟨entry, j⟩, hentry, hof⟩ := htokens i token htoken
    rw [List.getElem?_zipIdx, Option.map_eq_some_iff] at hentry
    obtain ⟨_, hget, hpair⟩ := hentry
    obtain ⟨rfl, hj⟩ := Prod.mk.inj hpair
    rw [Nat.zero_add] at hj
    subst hj
    exact ⟨_, hget, hof⟩
  · refine ⟨.nil, List.length_replicate, fun byte hbyte => ?_⟩
    rw [List.getElem?_replicate] at hbyte
    split_ifs at hbyte
    cases hbyte
  · rintro done entry - s s' - ⟨hfilled, hlength, hsingle⟩ hstep
    obtain ⟨token, htokens, hof, hbytes⟩ := extractEntry_ok hstep
    refine ⟨?_, ?_, fun byte hbyte => ?_⟩
    · rw [htokens, List.length_append, List.length_singleton]
      refine (hfilled.mono ?_).push ⟨entry, List.getElem?_concat_length, hof⟩
      rintro i token' ⟨entry', hentry', hof'⟩
      obtain ⟨hlt, -⟩ := List.getElem?_eq_some_iff.mp hentry'
      exact ⟨entry', by rw [List.getElem?_append_left hlt, hentry'], hof'⟩
    · rcases hbytes with hsame | ⟨byte', -, hset⟩
      · rw [hsame, hlength]
      · rw [hset, List.length_set, hlength]
    · rw [htokens]
      rcases hbytes with hsame | ⟨byte', rfl, hset⟩
      · rw [hsame] at hbyte
        exact List.mem_append_left _ (hsingle byte hbyte)
      · by_cases heq : byte'.toNat = byte.toNat
        · rw [UInt8.toNat_inj.mp heq]
          exact List.mem_append_right _ List.mem_cons_self
        · rw [hset, List.getElem?_set_ne heq] at hbyte
          exact List.mem_append_left _ (hsingle byte hbyte)

/-- The file gives a piece to an ID, in its model or in its added tokens. -/
def AssignedPiece (root : List (String × Json.Value)) (id : ℕ) (piece : String) : Prop :=
  (∃ model, root.lookup "model" = some (.object model) ∧ ModelPiece model id piece) ∨
    ∃ special, AddedPiece root id piece special

theorem checkEosIds_ok {entries : List (Option Entry)} {ids : List TokenId}
    {budget budget' : ExtractionBudget}
    (h : ids.foldlM (checkEosId entries) budget = .ok budget') :
    ∀ id ∈ ids, id < entries.length := by
  refine foldlM_ok (I := fun done (_ : ExtractionBudget) => ∀ id ∈ done, id < entries.length) h
    (by simp) ?_
  rintro done id - s s' - hdone hstep id' hid'
  simp only [checkEosId, bind_eq_ok] at hstep
  obtain ⟨_, -, hstep⟩ := hstep
  split_ifs at hstep with hout
  rcases List.mem_append.mp hid' with hold | hnew
  · exact hdone id' hold
  · rw [List.mem_singleton.mp hnew]
    exact Nat.not_le.mp hout

/-- **From the entries on**: every entry gives one token, and no byte is left over. -/
theorem extractTokens_ok {modelType : String} {entries : List (Option Entry)} {eos : EosSet}
    {budget : ExtractionBudget} {manifest : TokenizerManifest} {report : CompatibilityReport}
    (h : extractTokens modelType entries eos budget = .ok (manifest, report)) :
    manifest.tokens.length = entries.length ∧
      (∀ id < entries.length, ∃ e token, entries[id]? = some (some e) ∧
        manifest.tokens[id]? = some token ∧
        ((eos.contains id = true ∧ token = .eos) ∨ (eos.contains id = false ∧
          ∃ bytes, bytes ≠ [] ∧ Spells e.piece bytes ∧ token = .bytes bytes))) ∧
      (∀ byte, .bytes [byte] ∈ manifest.tokens) ∧ (∀ id ∈ eos.ids, id < entries.length) ∧
      report.eosTokenIds = eos.ids ∧ report.vocabSize = manifest.tokens.length := by
  unfold extractTokens at h
  split_ifs at h
  simp only [bind_eq_ok] at h
  obtain ⟨_, hcheck, extracted, hextract, _, -, h⟩ := h
  split at h
  · cases h
  rename_i hcovered
  cases h
  obtain ⟨⟨hlength, htokens⟩, hsingleton, hbytes⟩ := extractEntries_ok hextract
  refine ⟨hlength, fun id hid => ?_, fun byte => hbytes byte ?_, checkEosIds_ok hcheck, rfl, rfl⟩
  · have hget := List.getElem?_eq_getElem (hlength.symm ▸ hid : id < extracted.tokens.length)
    obtain ⟨entry, hentry, e, rfl, hcase⟩ := htokens id _ hget
    exact ⟨e, _, hentry, hget, hcase⟩
  · -- a byte that was not covered would have been found
    have hlt : byte.toNat < extracted.singleton.length := hsingleton.symm ▸ UInt8.toNat_lt byte
    have hget := List.getElem?_eq_getElem hlt
    have hnone := List.find?_eq_none.mp hcovered (extracted.singleton[byte.toNat], byte.toNat)
      (List.mem_zipIdx_iff_getElem?.mpr hget)
    rw [Bool.not_eq_true, Bool.not_eq_false'] at hnone
    exact hget.trans (congrArg some hnone)

/-- **Up to the entries**: they hold what the file assigns. -/
theorem extract_entries {fromStr : String → Except String Json.Value} {json : String}
    {eosTokenIds : List TokenId} {limits : TokenizerJsonLimits}
    {out : TokenizerManifest × CompatibilityReport}
    (h : extract fromStr json eosTokenIds limits = .ok out) :
    ∃ root modelType entries eos budget, fromStr json = .ok (.object root) ∧
      Holds entries (AssignedPiece root) ∧
      (∀ id piece, AddedPiece root id piece true → eos.contains id = true) ∧
      (∃ budget budget', EosSet.new eosTokenIds budget = .ok (budget', eos)) ∧
      extractTokens modelType entries eos budget = .ok out := by
  unfold extract at h
  split_ifs at h
  obtain ⟨budget, -, h⟩ := bind_eq_ok.mp h
  split at h
  · cases h
  rename_i value hparse
  simp only [extractRoot, bind_eq_ok, object_eq_ok] at h
  obtain ⟨root, rfl, _, -, h⟩ := h
  split at h
  · cases h
  rename_i model hmodel
  simp only [bind_eq_ok, object_eq_ok, stringField_eq_ok] at h
  obtain ⟨model, rfl, modelType, htype, ⟨_, vocabulary⟩, hvocabulary, ⟨_, eos⟩, heos,
    ⟨budget, entries⟩, hmerge, h⟩ := h
  obtain ⟨hholds, hspecial⟩ := mergeAddedTokens_ok (modelVocabulary_ok htype hvocabulary) hmerge
  refine ⟨root, modelType, entries, eos, budget, hparse, ?_, hspecial, ⟨_, _, heos⟩, h⟩
  -- the two sources of pieces together
  refine hholds.congr fun id piece => or_congr_left ⟨?_, fun hpiece => ⟨model, hmodel, hpiece⟩⟩
  rintro ⟨model', hmodel', hpiece⟩
  rw [hmodel] at hmodel'
  cases hmodel'
  exact hpiece

/-- **Extraction is exact.**  What the file assigns is one piece to every ID below the
length of the manifest, and nothing else.  The manifest has the end of sequence at the
EOS IDs, and elsewhere the nonempty bytes that the piece spells; every byte has a token of
its own.  The special tokens are EOS, and the EOS list has no duplicates, is in range, and
is reported in order. -/
theorem extract_exact {fromStr : String → Except String Json.Value} {json : String}
    {eosTokenIds : List TokenId} {limits : TokenizerJsonLimits} {manifest : TokenizerManifest}
    {report : CompatibilityReport}
    (h : extract fromStr json eosTokenIds limits = .ok (manifest, report)) :
    ∃ root, fromStr json = .ok (.object root) ∧
      (∀ id, (∃ piece, AssignedPiece root id piece) ↔ id < manifest.tokens.length) ∧
      (∀ id piece piece', AssignedPiece root id piece → AssignedPiece root id piece' →
        piece = piece') ∧
      (∀ id < manifest.tokens.length, manifest.tokens[id]? = some .eos ↔ id ∈ eosTokenIds) ∧
      (∀ id piece, AssignedPiece root id piece → id ∉ eosTokenIds → ∃ bytes, bytes ≠ [] ∧
        Spells piece bytes ∧ manifest.tokens[id]? = some (.bytes bytes)) ∧
      (∀ id piece, AddedPiece root id piece true → id ∈ eosTokenIds) ∧
      (∀ byte, .bytes [byte] ∈ manifest.tokens) ∧
      eosTokenIds.Nodup ∧ (∀ id ∈ eosTokenIds, id < manifest.tokens.length) ∧
      report.eosTokenIds.Pairwise (· < ·) ∧ (∀ id, id ∈ report.eosTokenIds ↔ id ∈ eosTokenIds) ∧
      report.vocabSize = manifest.tokens.length := by
  obtain ⟨root, modelType, entries, eos, budget, hparse, hassigned, hspecial, ⟨_, _, heos⟩,
      htail⟩ :=
    extract_entries h
  obtain ⟨hnodup, hcontains, hsorted, hids⟩ := EosSet.new_ok heos
  obtain ⟨hlength, htoken, hbytes, hrange, hreport, hsize⟩ := extractTokens_ok htail
  rw [hlength, hreport]
  refine ⟨root, hparse, fun id => ⟨?_, fun hid => ?_⟩, fun id piece piece' => hassigned.unique,
    fun id hid => ⟨fun heosAt => ?_, fun hmem => ?_⟩, fun id piece hpiece hordinary => ?_,
    fun id piece hadded => (hcontains id).mp (hspecial id piece hadded), hbytes, hnodup,
    fun id hid => hrange id ((hids id).mpr hid), hsorted, hids, hsize.trans hlength⟩
  · rintro ⟨piece, hpiece⟩
    obtain ⟨e, hentry, -⟩ := (hassigned id piece).mp hpiece
    exact (List.getElem?_eq_some_iff.mp hentry).1
  · obtain ⟨e, -, hentry, -⟩ := htoken id hid
    exact ⟨e.piece, (hassigned id e.piece).mpr ⟨e, hentry, rfl⟩⟩
  · obtain ⟨e, token, -, hget, ⟨hmem, -⟩ | ⟨-, bytes, -, -, rfl⟩⟩ := htoken id hid
    · exact (hcontains id).mp hmem
    · rw [hget] at heosAt
      cases heosAt
  · obtain ⟨e, token, -, hget, ⟨-, rfl⟩ | ⟨hnot, -⟩⟩ := htoken id hid
    · exact hget
    · exact absurd ((hcontains id).mpr hmem) (Bool.eq_false_iff.mp hnot)
  · obtain ⟨e, hentry, rfl⟩ := (hassigned id piece).mp hpiece
    obtain ⟨e', token, hentry', hget, ⟨hmem, -⟩ | ⟨-, bytes, hne, hspells, rfl⟩⟩ :=
      htoken id (List.getElem?_eq_some_iff.mp hentry).1
    · exact absurd ((hcontains id).mp hmem) hordinary
    · rw [hentry] at hentry'
      obtain rfl := Option.some_inj.mp (Option.some_inj.mp hentry')
      exact ⟨bytes, hne, hspells, hget⟩

/-- A file with a token for every byte and an added end of sequence. -/
def byteFile : Json.Value :=
  .object [("added_tokens", .array [.object [("content", .string "</s>"),
      ("id", .number (.posInt 256)), ("special", .bool true)]]),
    ("decoder", .object [("type", .string "ByteLevel")]),
    ("model", .object [("type", .string "BPE"), ("vocab", .object <|
      (List.range 256).map fun byte => (String.ofList [byteLevelChar (UInt8.ofNat byte)],
        .number (.posInt (UInt64.ofNat byte))))])]

theorem byteFile_extract :
    ∃ extracted, extract (fun _ => .ok byteFile) "" [256] .default = .ok extracted := by
  have hsome : (extract (fun _ => .ok byteFile) "" [256] .default).toOption.isSome = true := by
    decide +kernel
  exact ⟨_, eq_ok_get _ hsome⟩

theorem extract_exact_byteFile :
    ∃ manifest report, extract (fun _ => .ok byteFile) "" [256] .default =
        .ok (manifest, report) ∧
      ∀ byte, TokenSpec.bytes [byte] ∈ manifest.tokens := by
  obtain ⟨⟨manifest, report⟩, hok⟩ := byteFile_extract
  obtain ⟨_, -, -, -, -, -, -, hbytes, -⟩ := extract_exact hok
  exact ⟨manifest, report, hok, hbytes⟩

end GreatGramma
