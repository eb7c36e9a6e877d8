import GreatGramma.Native.Scores
import GreatGramma.Processor.History

/-!
# The masker

`torch_mask_scores` is the masker of a processor that is given no other.  It expands the packed
masks to one boolean for every score, fills what is not allowed with `-inf`, and refuses rows of
which no score is left that can be sampled: neither `-inf` nor NaN.

## What is left of the scores

Which booleans the masks expand to is shown in `Native.Scores`, and which tokens the masks of a
batch hold in `Native.Sessions`.  Here both are put together: on the masks of a batch the masker
leaves the scores of just the tokens that may come next (`Leaves`).  The columns beyond the compiled
vocabulary have no token, and nothing is left of them.

## What is refused

The masker returns what is left if every row has a score left that can be sampled, and otherwise it
names the first row that has none (`torchMaskScores_shows`).  A token that may come next is not
enough for a row, since its score may be `-inf` before the mask is applied; so whether a row can be
sampled is a property of the row and of its scores (`Sampleable`).

## Floats

Floats are a parameter, of which the masker asks whether one is `-inf` or NaN.  So is the text of
what Torch raises itself, for scores that are no floats or of another shape.
-/

namespace GreatGramma

/-- What the masker knows of a floating dtype. -/
structure Floats (F : Type) where
  negInf : F
  isNegInf : F → Bool
  isNan : F → Bool
  isNegInf_negInf : isNegInf negInf = true

/-- A score that can be sampled. -/
def Floats.usable {F : Type} (floats : Floats F) (value : F) : Bool :=
  !floats.isNegInf value && !floats.isNan value

theorem Floats.usable_negInf {F : Type} (floats : Floats F) :
    floats.usable floats.negInf = false := by
  rw [usable, floats.isNegInf_negInf, Bool.not_true, Bool.false_and]

/-- A tensor, with its rows where it has two dimensions. -/
structure Tensor (F : Type) where
  shape : List ℕ
  isFloatingPoint : Bool
  rows : List (List F)
  length_rows : ∀ count width, shape = [count, width] → rows.length = count
  length_row : ∀ count width, shape = [count, width] → ∀ row ∈ rows, row.length = width

/-- Scores, as the masker meets them. -/
inductive TorchScores (F : Type) where
  | withoutTorch
  | notTensor
  | tensor (tensor : Tensor F)

/-- The scores of a tensor. -/
def Scores.ofTensor {F : Type} (tensor : Tensor F) : Scores (TorchScores F) :=
  ⟨.sequence (tensor.shape.map fun size => .int size), .tensor tensor⟩

variable {F : Type} (floats : Floats F)

/-- `tensor.masked_fill(~allowed, float("-inf"))`. -/
def maskedFill (rows : List (List F)) (allowed : List (List Bool)) : List (List F) :=
  List.zipWith
    (List.zipWith fun value keep => if keep then value else floats.negInf) rows allowed

/-- `torch_mask_scores`. -/
def torchMaskScores (torchError : String) : Masker (TorchScores F) (List (List F)) :=
  fun scores packed rows vocabSize =>
    let shapeError : GreatGrammaError := .new .configurationError
      "scores must have one row per sequence and at least the compiled vocabulary width"
    match scores with
    | .withoutTorch =>
      .error (.own (.new .configurationError "Torch is required to apply GreatGramma masks"))
    | .notTensor => .error (.own (.new .configurationError "scores must be a Torch tensor"))
    | .tensor tensor =>
      match tensor.shape with
      | [count, width] =>
        if count ≠ rows ∨ width < vocabSize then .error (.own shapeError)
        else if tensor.isFloatingPoint = false then
          .error (.own (.new .configurationError "scores must have a floating dtype"))
        else
          match torchAllowed count width packed rows vocabSize with
          | none => .error (.exception torchError)
          | some allowed =>
            -- masks of too few bytes do not have the shape of the scores
            if allowed.any fun row => row.length ≠ width then .error (.exception torchError)
            else
              let masked := maskedFill floats tensor.rows allowed
              let usable := masked.map fun row => row.any floats.usable
              if usable.all id then .ok masked
              else
                .error (.own { GreatGrammaError.new .noValidTokenError
                  "no grammar-allowed token retains a usable score" with
                  row := some (usable.findIdx not : ℕ) })
      | _ => .error (.own shapeError)

/-! ## What is left of the scores -/

variable {floats}

/-- **The cells that are allowed**: the bits of the row, in front of the vocabulary's end. -/
theorem getElem?_allowedRow {packed : List UInt8} {count vocabSize width row t : ℕ}
    (hlength : packed.length = count * ((vocabSize + 7) / 8)) (hrow : row < count)
    (hwidth : vocabSize ≤ width) (ht : t < width) :
    ((RowSlices.slice (packed.flatMap PackedBits.byteBits) (8 * ((vocabSize + 7) / 8)) row).take
        vocabSize ++ List.replicate (width - vocabSize) false)[t]? =
      some (decide (t < vocabSize) &&
        PackedBits.bit (RowSlices.slice packed ((vocabSize + 7) / 8) row) t) := by
  have hcut := length_cut_row hlength hrow
  by_cases htoken : t < vocabSize
  · have hinside : t < 8 * ((vocabSize + 7) / 8) := by omega
    rw [List.getElem?_append_left (by rw [hcut]; exact htoken), List.getElem?_take_of_lt htoken,
      getElem?_slice_bits hlength hrow hinside, decide_eq_true htoken, Bool.true_and]
  · rw [List.getElem?_append_right (by rw [hcut]; omega), hcut,
      List.getElem?_replicate_of_lt (by omega), decide_eq_false htoken, Bool.false_and]

/-- **What is left of scores**: those of the tokens that may come next. -/
structure Leaves (floats : Floats F) (grammar : ValidatedGrammar) (pad : Option TokenId)
    (vocabSize : ℕ) (histories : List (List TokenId)) (rows masked : List (List F)) : Prop where
  length : masked.length = rows.length
  row : ∀ (row : ℕ) scores generated, rows[row]? = some scores → histories[row]? = some generated →
    ∃ left, masked[row]? = some left ∧ left.length = scores.length ∧
      ∀ (token : ℕ) score, scores[token]? = some score →
        (token < vocabSize ∧ grammar.Continues pad generated token → left[token]? = some score) ∧
        (¬ (token < vocabSize ∧ grammar.Continues pad generated token) →
          left[token]? = some floats.negInf)

/-- The rows that the masks leave. -/
theorem leaves_maskedFill {grammar : ValidatedGrammar} {pad : Option TokenId}
    {vocabSize width : ℕ} {histories : List (List TokenId)} {packed : List UInt8}
    {rows : List (List F)} {allowed : List (List Bool)}
    (hshows : Shows grammar pad ((vocabSize + 7) / 8) histories packed)
    (hcount : rows.length = histories.length) (hrows : ∀ row ∈ rows, row.length = width)
    (hwidth : vocabSize ≤ width)
    (hallowed : allowed = (List.range histories.length).map fun row =>
      (RowSlices.slice (packed.flatMap PackedBits.byteBits) (8 * ((vocabSize + 7) / 8)) row).take
        vocabSize ++ List.replicate (width - vocabSize) false) :
    Leaves floats grammar pad vocabSize histories rows (maskedFill floats rows allowed) := by
  have hlines : allowed.length = histories.length := by
    rw [hallowed, List.length_map, List.length_range]
  refine ⟨by rw [maskedFill, List.length_zipWith, hlines, hcount, Nat.min_self], ?_⟩
  intro row scores generated hscores hgenerated
  have hrow := (List.getElem?_eq_some_iff.mp hgenerated).1
  have hscoresLength := hrows scores (List.mem_of_getElem? hscores)
  obtain ⟨kept, hkeptRow, hkeptLength, hcells⟩ : ∃ kept, allowed[row]? = some kept ∧
      kept.length = width ∧ ∀ t < width, kept[t]? = some (decide (t < vocabSize) &&
        PackedBits.bit (RowSlices.slice packed ((vocabSize + 7) / 8) row) t) := by
    refine ⟨_, by rw [hallowed, List.getElem?_map, List.getElem?_range hrow]; rfl, ?_,
      fun t ht => getElem?_allowedRow hshows.length hrow hwidth ht⟩
    rw [List.length_append, length_cut_row hshows.length hrow, List.length_replicate]
    omega
  refine ⟨_, List.getElem?_zipWith_eq_some.mpr ⟨scores, kept, hscores, hkeptRow, rfl⟩, ?_, ?_⟩
  · rw [List.length_zipWith, hkeptLength, hscoresLength, Nat.min_self]
  · intro token score hscore
    have htoken : token < width := hscoresLength ▸ (List.getElem?_eq_some_iff.mp hscore).1
    have hkeep : (decide (token < vocabSize) &&
          PackedBits.bit (RowSlices.slice packed ((vocabSize + 7) / 8) row) token) = true ↔
        token < vocabSize ∧ grammar.Continues pad generated token := by
      rw [Bool.and_eq_true, decide_eq_true_iff]
      exact and_congr_right fun _ => hshows.bit row generated hgenerated token
    have hcell := (@List.getElem?_zipWith_eq_some _ _ _
      (fun value keep => if keep = true then value else floats.negInf) _ _ _ _).mpr
        ⟨score, _, hscore, hcells token htoken, rfl⟩
    constructor
    · intro h
      rw [hcell, if_pos (hkeep.mpr h)]
    · intro h
      rw [hcell, if_neg fun hkept => h (hkeep.mp hkept)]

/-- The masker returns what the masks leave, or refuses the first row of which nothing can be
sampled. -/
theorem torchMaskScores_cases {grammar : ValidatedGrammar} {pad : Option TokenId}
    {vocabSize width : ℕ} {histories : List (List TokenId)} {packed : List UInt8}
    {tensor : Tensor F} (torchError : String)
    (hshows : Shows grammar pad ((vocabSize + 7) / 8) histories packed)
    (hshape : tensor.shape = [histories.length, width])
    (hfloating : tensor.isFloatingPoint = true) (hne : histories ≠ []) (hvocab : 1 ≤ vocabSize)
    (hwidth : vocabSize ≤ width) :
    ∃ masked, Leaves floats grammar pad vocabSize histories tensor.rows masked ∧
      ((torchMaskScores floats torchError (.tensor tensor) packed histories.length vocabSize =
            .ok masked ∧
          ∀ left ∈ masked, ∃ score ∈ left, floats.usable score = true) ∨
        ∃ (row : ℕ) (left : List F),
          torchMaskScores floats torchError (.tensor tensor) packed histories.length vocabSize =
            .error (.own { GreatGrammaError.new .noValidTokenError
              "no grammar-allowed token retains a usable score" with row := some row }) ∧
          masked[row]? = some left ∧ (∀ score ∈ left, floats.usable score = false) ∧
          ∀ before ∈ masked.take row, ∃ score ∈ before, floats.usable score = true) := by
  have hcount : 1 ≤ histories.length := List.length_pos_iff.mpr hne
  have hallowed := torchAllowed_eq hcount hvocab hwidth hshows.length
  have hleaves := @leaves_maskedFill _ floats _ _ _ _ _ _ _ _ hshows
    (tensor.length_rows _ _ hshape) (tensor.length_row _ _ hshape) hwidth rfl
  refine ⟨_, hleaves, ?_⟩
  generalize hmasked : maskedFill floats tensor.rows _ = masked
  have hwidths : ((List.range histories.length).map fun row =>
      (RowSlices.slice (packed.flatMap PackedBits.byteBits) (8 * ((vocabSize + 7) / 8)) row).take
        vocabSize ++ List.replicate (width - vocabSize) false).any (fun row => row.length ≠ width) =
          false := by
    rw [List.any_eq_false]
    intro line hline
    obtain ⟨row, hrow, rfl⟩ := List.mem_map.mp hline
    rw [List.length_append, length_cut_row hshows.length (List.mem_range.mp hrow),
      List.length_replicate]
    simp only [decide_eq_true_eq]
    omega
  have hshapes : ¬ (histories.length ≠ histories.length ∨ width < vocabSize) := by omega
  rw [torchMaskScores]
  dsimp only
  rw [hshape]
  dsimp only
  rw [if_neg hshapes, hfloating, if_neg Bool.false_ne_true.symm, hallowed]
  dsimp only
  rw [hwidths, if_neg Bool.false_ne_true, hmasked]
  set usable := masked.map fun row => row.any floats.usable with husable
  by_cases hall : usable.all id = true
  · rw [if_pos hall]
    refine Or.inl ⟨rfl, fun left hleft => ?_⟩
    exact List.any_eq_true.mp (List.all_eq_true.mp hall _ (List.mem_map_of_mem hleft))
  · rw [if_neg hall]
    have hexists : ∃ left ∈ usable, (!left) = true := by
      by_contra hnone
      refine hall (List.all_eq_true.mpr fun left hleft => ?_)
      exact Bool.of_not_eq_false fun hfalse =>
        hnone ⟨left, hleft, congrArg not hfalse⟩
    have hlength : usable.length = masked.length := List.length_map _
    have hrow : usable.findIdx not < usable.length := List.findIdx_lt_length_of_exists hexists
    have hget : ∀ (row : ℕ) (h : row < usable.length) (h' : row < masked.length),
        usable[row] = masked[row].any floats.usable := fun row h h' => List.getElem_map _
    have hrow' := hlength ▸ hrow
    refine Or.inr ⟨usable.findIdx not, _, rfl, List.getElem?_eq_getElem hrow', ?_, ?_⟩
    · have hnone := @List.findIdx_getElem _ not usable hrow
      rw [hget _ hrow hrow', Bool.not_eq_true', List.any_eq_false] at hnone
      exact fun score hscore => Bool.eq_false_iff.mpr (hnone score hscore)
    · intro before hbefore
      obtain ⟨row, hlt, rfl⟩ := List.mem_iff_getElem.mp hbefore
      rw [List.length_take] at hlt
      have hfirst := hlt.trans_le (Nat.min_le_left _ _)
      have husableRow := @List.not_of_lt_findIdx _ not usable row hfirst
      rw [hget row (hfirst.trans hrow) (hfirst.trans hrow'), Bool.not_eq_false'] at husableRow
      rw [List.getElem_take]
      exact List.any_eq_true.mp husableRow

/-- Some token may come next whose score can be sampled. -/
def Sampleable (floats : Floats F) (grammar : ValidatedGrammar) (pad : Option TokenId)
    (vocabSize : ℕ) (histories : List (List TokenId)) (rows : List (List F)) (row : ℕ) : Prop :=
  ∃ generated scores token score, histories[row]? = some generated ∧ rows[row]? = some scores ∧
    scores[token]? = some score ∧ floats.usable score = true ∧ token < vocabSize ∧
      grammar.Continues pad generated token

section

variable {grammar : ValidatedGrammar} {pad : Option TokenId} {vocabSize : ℕ}
  {histories : List (List TokenId)} {rows masked : List (List F)}

theorem Leaves.usable (h : Leaves floats grammar pad vocabSize histories rows masked)
    (hcount : rows.length = histories.length) {row token : ℕ} {left : List F} {score : F}
    (hleft : masked[row]? = some left) (hscore : left[token]? = some score)
    (husable : floats.usable score = true) :
    ∃ generated scores, histories[row]? = some generated ∧ rows[row]? = some scores ∧
      scores[token]? = some score ∧ token < vocabSize ∧ grammar.Continues pad generated token := by
  have hrow : row < rows.length := h.length ▸ (List.getElem?_eq_some_iff.mp hleft).1
  obtain ⟨left', hleft', hlength, hcells⟩ := h.row row _ _ (List.getElem?_eq_getElem hrow)
    (List.getElem?_eq_getElem (hcount ▸ hrow))
  obtain rfl := Option.some.inj (hleft'.symm.trans hleft)
  have htoken : token < (rows[row]).length := hlength ▸ (List.getElem?_eq_some_iff.mp hscore).1
  obtain ⟨hkept, hfilled⟩ := hcells token _ (List.getElem?_eq_getElem htoken)
  by_cases hnext : token < vocabSize ∧ grammar.Continues pad histories[row] token
  · refine ⟨_, _, List.getElem?_eq_getElem _, List.getElem?_eq_getElem hrow, ?_, hnext⟩
    rw [← hscore, hkept hnext]
    exact List.getElem?_eq_getElem htoken
  · obtain rfl := Option.some.inj (hscore.symm.trans (hfilled hnext))
    rw [floats.usable_negInf] at husable
    cases husable

theorem Leaves.usable_iff (h : Leaves floats grammar pad vocabSize histories rows masked)
    (hcount : rows.length = histories.length) {row : ℕ} {left : List F}
    (hleft : masked[row]? = some left) :
    (∃ score ∈ left, floats.usable score = true) ↔
      Sampleable floats grammar pad vocabSize histories rows row := by
  constructor
  · rintro ⟨score, hmem, husable⟩
    obtain ⟨token, hscore⟩ := List.mem_iff_getElem?.mp hmem
    obtain ⟨generated, scores, hgenerated, hscores, hcell, htoken, hnext⟩ :=
      h.usable hcount hleft hscore husable
    exact ⟨generated, scores, token, score, hgenerated, hscores, hcell, husable, htoken, hnext⟩
  · rintro ⟨generated, scores, token, score, hgenerated, hscores, hcell, husable, htoken, hnext⟩
    obtain ⟨left', hleft', -, hcells⟩ := h.row row scores generated hscores hgenerated
    obtain rfl := Option.some.inj (hleft'.symm.trans hleft)
    exact ⟨score, List.mem_of_getElem? ((hcells token score hcell).1 ⟨htoken, hnext⟩), husable⟩

theorem Leaves.unique {masked' : List (List F)}
    (h : Leaves floats grammar pad vocabSize histories rows masked)
    (h' : Leaves floats grammar pad vocabSize histories rows masked')
    (hcount : rows.length = histories.length) : masked = masked' := by
  refine List.ext_getElem? fun row => ?_
  by_cases hrow : row < rows.length
  · obtain ⟨left, hleft, hlength, hcells⟩ := h.row row _ _ (List.getElem?_eq_getElem hrow)
      (List.getElem?_eq_getElem (hcount ▸ hrow))
    obtain ⟨left', hleft', hlength', hcells'⟩ := h'.row row _ _ (List.getElem?_eq_getElem hrow)
      (List.getElem?_eq_getElem (hcount ▸ hrow))
    rw [hleft, hleft']
    refine congrArg some (List.ext_getElem? fun token => ?_)
    by_cases htoken : token < (rows[row]).length
    · obtain ⟨hkept, hfilled⟩ := hcells token _ (List.getElem?_eq_getElem htoken)
      obtain ⟨hkept', hfilled'⟩ := hcells' token _ (List.getElem?_eq_getElem htoken)
      by_cases hnext : token < vocabSize ∧ grammar.Continues pad histories[row] token
      · rw [hkept hnext, hkept' hnext]
      · rw [hfilled hnext, hfilled' hnext]
    · rw [List.getElem?_eq_none (hlength ▸ Nat.not_lt.mp htoken),
        List.getElem?_eq_none (hlength' ▸ Nat.not_lt.mp htoken)]
  · rw [List.getElem?_eq_none (h.length ▸ Nat.not_lt.mp hrow),
      List.getElem?_eq_none (h'.length ▸ Nat.not_lt.mp hrow)]

end

/-- **The masker keeps the tokens that may come next.**  Whatever the scores are, it returns them
with `-inf` at all other tokens, just if every row has a token left that can be sampled; else it
names the first row that has none. -/
theorem torchMaskScores_shows {grammar : ValidatedGrammar} {pad : Option TokenId}
    {vocabSize width : ℕ} {histories : List (List TokenId)} {packed : List UInt8}
    {tensor : Tensor F} (torchError : String)
    (hshows : Shows grammar pad ((vocabSize + 7) / 8) histories packed)
    (hshape : tensor.shape = [histories.length, width])
    (hfloating : tensor.isFloatingPoint = true) (hne : histories ≠ []) (hvocab : 1 ≤ vocabSize)
    (hwidth : vocabSize ≤ width) :
    (∀ masked,
      torchMaskScores floats torchError (.tensor tensor) packed histories.length vocabSize =
          .ok masked ↔
        Leaves floats grammar pad vocabSize histories tensor.rows masked ∧
          ∀ row < histories.length,
            Sampleable floats grammar pad vocabSize histories tensor.rows row) ∧
    ∀ failure,
      torchMaskScores floats torchError (.tensor tensor) packed histories.length vocabSize =
          .error failure ↔
        ∃ row < histories.length,
          failure = .own { GreatGrammaError.new .noValidTokenError
            "no grammar-allowed token retains a usable score" with row := some (row : ℤ) } ∧
          ¬ Sampleable floats grammar pad vocabSize histories tensor.rows row ∧
          ∀ before < row, Sampleable floats grammar pad vocabSize histories tensor.rows before := by
  have hcount := tensor.length_rows _ _ hshape
  obtain ⟨masked, hleaves, hcases⟩ := @torchMaskScores_cases _ floats _ _ _ _ _ _ _ torchError
    hshows hshape hfloating hne hvocab hwidth
  have hmasked := hleaves.length.trans hcount
  have hlast : ∀ {row row' : ℕ},
      ¬ Sampleable floats grammar pad vocabSize histories tensor.rows row →
      (∀ before < row', Sampleable floats grammar pad vocabSize histories tensor.rows before) →
      row' ≤ row := fun hnone hall => Nat.not_lt.mp fun hlt => hnone (hall _ hlt)
  rcases hcases with ⟨hok, hall⟩ | ⟨row, left, herror, hleft, hnone, hbefore⟩
  · have hsampleable : ∀ row < histories.length,
        Sampleable floats grammar pad vocabSize histories tensor.rows row := by
      intro row hrow
      have hleft := List.getElem?_eq_getElem (hmasked ▸ hrow)
      exact (hleaves.usable_iff hcount hleft).mp (hall _ (List.mem_of_getElem? hleft))
    rw [hok]
    refine ⟨fun masked' => ?_, fun failure => iff_of_false (fun h => by cases h) ?_⟩
    · constructor
      · intro h
        obtain rfl := Except.ok.inj h
        exact ⟨hleaves, hsampleable⟩
      · rintro ⟨hleaves', -⟩
        rw [hleaves.unique hleaves' hcount]
    · rintro ⟨row, hrow, -, hnone, -⟩
      exact hnone (hsampleable row hrow)
  · have hrow : row < histories.length := hmasked ▸ (List.getElem?_eq_some_iff.mp hleft).1
    have hnot : ¬ Sampleable floats grammar pad vocabSize histories tensor.rows row := by
      rw [← hleaves.usable_iff hcount hleft]
      rintro ⟨score, hmem, husable⟩
      rw [hnone score hmem] at husable
      cases husable
    have hfirst : ∀ before < row,
        Sampleable floats grammar pad vocabSize histories tensor.rows before := by
      intro before hlt
      have hleft' := List.getElem?_eq_getElem (hmasked ▸ hlt.trans hrow)
      refine (hleaves.usable_iff hcount hleft').mp (hbefore _ ?_)
      exact List.mem_of_getElem? ((List.getElem?_take_of_lt hlt).trans hleft')
    rw [herror]
    refine ⟨fun masked' => iff_of_false (fun h => by cases h) ?_, fun failure => ?_⟩
    · rintro ⟨-, hall⟩
      exact hnot (hall row hrow)
    · constructor
      · intro h
        exact ⟨row, hrow, (Except.error.inj h).symm, hnot, hfirst⟩
      · rintro ⟨row', -, rfl, hnot', hfirst'⟩
        rw [Nat.le_antisymm (hlast hnot' hfirst) (hlast hnot hfirst')]

/-- Whole numbers, with a `-inf` and no NaN. -/
def wholeFloats : Floats (Option ℤ) := ⟨none, Option.isNone, fun _ => false, rfl⟩

/-- Two rows of two scores. -/
def wholeTensor (first second : List (Option ℤ)) (hfirst : first.length = 2)
    (hsecond : second.length = 2) : Tensor (Option ℤ) where
  shape := [2, 2]
  isFloatingPoint := true
  rows := [first, second]
  length_rows _ _ h := (List.cons.inj h).1
  length_row := by
    rintro count width h row hrow
    obtain rfl := (List.cons.inj (List.cons.inj h).2).1
    rcases List.mem_pair.mp hrow with rfl | rfl
    · exact hfirst
    · exact hsecond

/-- Before anything was generated, only the token of `a` may come next. -/
theorem reusableStack_shows :
    Shows reusableStackPrepared.grammar (some 0) ((2 + 7) / 8) [[], []] [1, 1] := by
  obtain ⟨_, prepared, hprepared, -, hsame, hpad, -, -, -, -, -, h⟩ :=
    LogitsProcessor.init_consistent
    LogitsProcessor.reusableStackProcessor_init
  obtain rfl := Option.some.inj hprepared
  obtain ⟨reply, batch, memory, hcall, -, -, hcases⟩ := h.tracks.initialMasks_cases .granting
  have hreply : (reusableStackBatch.initialMasks .granting).1 = .ok [1, 1] := by
    rw [reusableStackBatch_eq]
    decide +kernel
  have hbytes : reusableStackBatch.matcher.maskBytes = (2 + 7) / 8 := by
    rw [reusableStackBatch_eq]
    rfl
  have hbatch : LogitsProcessor.reusableStackProcessor.batch = reusableStackBatch := by
    rw [LogitsProcessor.reusableStackProcessor]
  rw [hbatch] at hcall hcases hsame hpad
  rw [hcall] at hreply
  rcases hcases with ⟨packed, hpacked, -, -, hshows⟩ | ⟨e, he, -⟩
  · obtain rfl := Except.ok.inj (hpacked.symm.trans hreply)
    rw [hbytes, hsame, hpad] at hshows
    exact hshows
  · cases he.symm.trans hreply

/-- The second row has no score for `a`. -/
theorem torchMaskScores_shows_reusableStack :
    ¬ Sampleable wholeFloats reusableStackPrepared.grammar (some 0) 2 [[], []]
        [[some 5, some 7], [none, some 7]] 1 ∧
      Sampleable wholeFloats reusableStackPrepared.grammar (some 0) 2 [[], []]
        [[some 5, some 7], [none, some 7]] 0 := by
  have herror : torchMaskScores wholeFloats ""
      (.tensor (wholeTensor [some 5, some 7] [none, some 7] rfl rfl)) [1, 1] 2 2 =
        .error (.own { GreatGrammaError.new .noValidTokenError
          "no grammar-allowed token retains a usable score" with row := some 1 }) := by
    decide +kernel
  obtain ⟨-, hrefused⟩ := @torchMaskScores_shows _ wholeFloats _ _ 2 2 _ _
    (wholeTensor [some 5, some 7] [none, some 7] rfl rfl) "" reusableStack_shows rfl rfl
    (List.cons_ne_nil _ _) one_le_two le_rfl
  obtain ⟨row, -, hrow, hnone, hbefore⟩ := (hrefused _).mp herror
  have hplace : (1 : ℤ) = row :=
    Option.some.inj (congrArg GreatGrammaError.row (MaskFailure.own.inj hrow))
  obtain rfl : row = 1 := by omega
  exact ⟨hnone, hbefore 0 Nat.one_pos⟩

end GreatGramma
