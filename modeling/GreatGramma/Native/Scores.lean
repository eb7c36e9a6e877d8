import GreatGramma.Native.Steps

/-!
# Packed masks across the language boundary

The native side packs the masks of a batch into bytes, a row of whole bytes for every sequence.
`_mask.py` unpacks them into one tensor of booleans for the scores of the model.

## Two ways to index

The two sides index differently.  The one divides and takes remainders token by token: the bit of
a token is in the byte at the quotient of the token by eight, behind the bytes of the rows before.
The other never computes an index.  It puts every byte against the eight values of a bit, lays out
all bits in one line, cuts the line into rows of equal length, and cuts each row behind the
vocabulary.  The bits of the padding at the end of a row fall behind the vocabulary, so the two
agree for every vocabulary size.

## What is stated

Both sides are stated here, the native one over any order in which the tokens of a row are
written, and the Python one over lists, with the tensor operations that it uses.  The tokens that
are written into the rows are the tokens that the scores are kept for, row by row, however many
rows there are and however wide the scores are; in the columns behind the vocabulary nothing is
kept.  Rows that hold different tokens are packed differently (`torchAllowed_packRows`).
-/

namespace GreatGramma

/-! ## The native side -/

/-- What is written into one row of a packed batch. -/
inductive RowWrites where
  /-- The tokens of a running row, in the order of their `mask::set`. -/
  | running (tokens : List TokenId)
  /-- The pad token of an accepted row. -/
  | accepted (pad : TokenId)

/-- The tokens that a row holds. -/
def RowWrites.tokens : RowWrites → List TokenId
  | .running tokens => tokens
  | .accepted pad => [pad]

/-- Writes one row, where its bytes are given. -/
def RowWrites.write (row : RowWrites) (output : List UInt8) : Option (List UInt8) :=
  match row with
  | .running tokens =>
    tokens.foldlM
      (fun output token =>
        match Mask.set output token with
        | (.ok (), output) => some output
        | (.error _, _) => none)
      output
  | .accepted pad =>
    match setPackedBit output pad with
    | (.ok (), output) => some output
    | (.error _, _) => none

/-- Writes the rows of a batch into a zeroed buffer, each into its own bytes. -/
def packRows (vocabSize : ℕ) (rows : List RowWrites) : Option (List UInt8) :=
  let maskBytes := (vocabSize + 7) / 8
  (List.range rows.length).foldlM
    (fun buffer row => do
      let writes ← rows[row]?
      let output ← writes.write (RowSlices.slice buffer maskBytes row)
      return RowSlices.write buffer maskBytes row output)
    (List.replicate (rows.length * maskBytes) 0)

/-! ## The Python side -/

/-- `_BIT_VALUES`. -/
def bitValues : List UInt8 := [1, 2, 4, 8, 16, 32, 64, 128]

/-- `packed_tensor.unsqueeze(1).bitwise_and(bit_values).ne(0)`. -/
def expandBits (packed : List UInt8) : List (List Bool) :=
  packed.map fun byte => bitValues.map fun value => byte &&& value != 0

/-- `reshape(rows, -1)`: the elements row by row, cut into rows of one length. -/
def reshapeRows (elements : List (List Bool)) (rows : ℕ) : Option (List (List Bool)) :=
  let flat := elements.flatten
  if rows = 0 ∨ flat.length % rows ≠ 0 then none
  else some ((List.range rows).map fun row => RowSlices.slice flat (flat.length / rows) row)

/-- The mask `allowed` of `torch_mask_scores`, for scores of the given shape. -/
def torchAllowed (scoreRows scoreWidth : ℕ) (packed : List UInt8) (rows vocabSize : ℕ) :
    Option (List (List Bool)) :=
  if scoreRows ≠ rows ∨ scoreWidth < vocabSize then none
  -- `torch.frombuffer` refuses an empty buffer
  else if packed = [] then none
  else do
    let allowed ← reshapeRows (expandBits packed) rows
    let allowed := allowed.map (List.take vocabSize)
    if scoreWidth > vocabSize then
      let suffix := List.replicate rows (List.replicate (scoreWidth - vocabSize) false)
      return List.zipWith (· ++ ·) allowed suffix
    else return allowed

/-! ## What is packed

Writing sets bits of the row's own bytes, and the order of the tokens is gone. -/

/-- The bytes of one row. -/
def RowWrites.packed (row : RowWrites) (maskBytes : ℕ) : List UInt8 :=
  row.tokens.foldl PackedBits.insert (List.replicate maskBytes 0)

theorem RowWrites.write_eq {row : RowWrites} {output : List UInt8}
    (h : ∀ token ∈ row.tokens, token / 8 < output.length) :
    row.write output = some (row.tokens.foldl PackedBits.insert output) := by
  cases row with
  | running tokens =>
    show tokens.foldlM _ output = some (tokens.foldl PackedBits.insert output)
    induction tokens generalizing output with
    | nil => rfl
    | cons token tokens ih =>
      have hfirst : token / 8 < output.length := h token List.mem_cons_self
      rw [List.foldlM_cons, PreparedGrammar.mask_set_eq hfirst]
      refine ih fun t ht => ?_
      rw [PackedBits.length_insert]
      exact h t (List.mem_cons_of_mem token ht)
  | accepted pad =>
    have hpad : pad / 8 < output.length := h pad List.mem_cons_self
    simp only [RowWrites.write, NativeBatch.setPackedBit_eq hpad, RowWrites.tokens, List.foldl_cons,
      List.foldl_nil]

theorem byte_lt {token vocabSize : ℕ} (h : token < vocabSize) :
    token / 8 < (vocabSize + 7) / 8 := by
  omega

theorem RowWrites.length_packed (row : RowWrites) (maskBytes : ℕ) :
    (row.packed maskBytes).length = maskBytes := by
  rw [RowWrites.packed, PackedBits.length_foldl_insert, List.length_replicate]

theorem RowWrites.bit_packed {row : RowWrites} {vocabSize : ℕ}
    (h : ∀ token ∈ row.tokens, token < vocabSize) (t : TokenId) :
    PackedBits.bit (row.packed ((vocabSize + 7) / 8)) t = true ↔ t ∈ row.tokens := by
  have hbytes : ∀ token ∈ row.tokens,
      token / 8 < (List.replicate ((vocabSize + 7) / 8) (0 : UInt8)).length := by
    intro token htoken
    rw [List.length_replicate]
    exact byte_lt (h token htoken)
  rw [RowWrites.packed, PackedBits.bit_foldl_insert hbytes, PackedBits.bit_zero]
  exact ⟨fun h => h.resolve_left Bool.false_ne_true, Or.inr⟩

/-- **Every row is packed into its own bytes.** -/
theorem packRows_eq {rows : List RowWrites} {vocabSize : ℕ}
    (h : ∀ row ∈ rows, ∀ token ∈ row.tokens, token < vocabSize) :
    ∃ packed, packRows vocabSize rows = some packed ∧
      packed.length = rows.length * ((vocabSize + 7) / 8) ∧
      ∀ (r : ℕ) (hr : r < rows.length), RowSlices.slice packed ((vocabSize + 7) / 8) r =
        rows[r].packed ((vocabSize + 7) / 8) := by
  unfold packRows
  extract_lets maskBytes
  -- the invariant: the rows up to `k` are written, and the others are still zero
  suffices hrun : ∀ k ≤ rows.length, ∃ packed,
      (List.range k).foldlM
        (fun buffer row => do
          let writes ← rows[row]?
          let output ← writes.write (RowSlices.slice buffer maskBytes row)
          return RowSlices.write buffer maskBytes row output)
        (List.replicate (rows.length * maskBytes) 0) = some packed ∧
      packed.length = rows.length * maskBytes ∧
      (∀ (r : ℕ) (hr : r < rows.length), r < k →
        RowSlices.slice packed maskBytes r = rows[r].packed maskBytes) ∧
      ∀ r < rows.length, k ≤ r →
        RowSlices.slice packed maskBytes r = List.replicate maskBytes 0 by
    obtain ⟨packed, hpacked, hlength, hrows, -⟩ := hrun rows.length le_rfl
    exact ⟨packed, hpacked, hlength, fun r hr => hrows r hr hr⟩
  intro k
  induction k with
  | zero =>
    intro _
    refine ⟨_, rfl, List.length_replicate, fun r hr hlt => absurd hlt (Nat.not_lt_zero r), ?_⟩
    intro r hr _
    have hinside : r * maskBytes + maskBytes ≤ rows.length * maskBytes := RowSlices.row_le hr
    rw [RowSlices.slice, List.drop_replicate, List.take_replicate]
    congr 1
    omega
  | succ k ih =>
    intro hk
    have hrow : k < rows.length := hk
    obtain ⟨packed, hpacked, hlength, hrows, hzero⟩ := ih (Nat.le_of_succ_le hk)
    have hinside : k * maskBytes + maskBytes ≤ packed.length := by
      rw [hlength]
      exact RowSlices.row_le hrow
    have hbytes : ∀ token ∈ rows[k].tokens,
        token / 8 < (List.replicate maskBytes (0 : UInt8)).length := by
      intro token htoken
      rw [List.length_replicate]
      exact byte_lt (h rows[k] (List.getElem_mem hrow) token htoken)
    have hwritten : (rows[k].packed maskBytes).length = maskBytes :=
      rows[k].length_packed maskBytes
    refine ⟨RowSlices.write packed maskBytes k (rows[k].packed maskBytes), ?_, ?_, ?_, ?_⟩
    · rw [List.range_succ, List.foldlM_append, hpacked]
      show ((rows[k]?).bind fun writes =>
        (writes.write (RowSlices.slice packed maskBytes k)).bind fun output => _).bind _ = _
      rw [List.getElem?_eq_getElem hrow, Option.bind_some, hzero k hrow le_rfl,
        RowWrites.write_eq hbytes]
      rfl
    · rw [RowSlices.length_write hinside hwritten, hlength]
    · intro r hr hlt
      by_cases hself : r = k
      · subst hself
        exact RowSlices.slice_write_self hinside hwritten
      · rw [RowSlices.slice_write_of_ne hinside hwritten hself]
        exact hrows r hr (by omega)
    · intro r hr hle
      rw [RowSlices.slice_write_of_ne hinside hwritten (by omega)]
      exact hzero r hr (by omega)

/-! ## What is unpacked

The line of all bits, and where its rows begin and end. -/

theorem and_ne_zero (byte : UInt8) {i : ℕ} (hi : i < 8) :
    (byte &&& UInt8.ofNat (2 ^ i) != 0) = byte.toNat.testBit i := by
  have hpow : (UInt8.ofNat (2 ^ i)).toNat = 2 ^ i := by
    rw [UInt8.toNat_ofNat']
    exact Nat.mod_eq_of_lt (Nat.pow_lt_pow_right (by omega) hi)
  have hand : (byte &&& UInt8.ofNat (2 ^ i)).toNat = (byte.toNat.testBit i).toNat * 2 ^ i := by
    rw [UInt8.toNat_and, hpow, Nat.and_two_pow]
  cases hbit : byte.toNat.testBit i with
  | false =>
    rw [hbit] at hand
    have hzero : byte &&& UInt8.ofNat (2 ^ i) = 0 := by
      refine UInt8.toNat_inj.mp ?_
      rw [hand]
      exact Nat.zero_mul _
    rw [hzero]
    rfl
  | true =>
    rw [hbit] at hand
    refine bne_iff_ne.mpr fun hzero => ?_
    rw [hzero] at hand
    have hpos : 0 < 2 ^ i := Nat.two_pow_pos i
    simp only [Bool.toNat_true, Nat.one_mul] at hand
    exact absurd hand (Nat.ne_of_lt hpos)

/-- **The line of all bits**, as the tensor operations lay it out. -/
theorem flatten_expandBits (packed : List UInt8) :
    (expandBits packed).flatten = packed.flatMap PackedBits.byteBits := by
  have hbyte : ∀ byte : UInt8,
      (bitValues.map fun value => byte &&& value != 0) = PackedBits.byteBits byte := by
    intro byte
    have hvalues : bitValues = (List.range 8).map fun i => UInt8.ofNat (2 ^ i) := by decide
    rw [hvalues, PackedBits.byteBits, List.map_map]
    refine List.map_congr_left fun i hi => ?_
    exact and_ne_zero byte (List.mem_range.mp hi)
  rw [expandBits, List.flatMap_def]
  congr 1
  exact List.map_congr_left fun byte _ => hbyte byte

theorem reshapeRows_eq {packed : List UInt8} {rows maskBytes : ℕ} (hrows : 1 ≤ rows)
    (hlength : packed.length = rows * maskBytes) :
    reshapeRows (expandBits packed) rows = some ((List.range rows).map fun row =>
      RowSlices.slice (packed.flatMap PackedBits.byteBits) (8 * maskBytes) row) := by
  have helements : (expandBits packed).flatten.length = rows * (8 * maskBytes) := by
    rw [flatten_expandBits, PackedBits.length_flatMap_byteBits, hlength]
    exact Nat.mul_left_comm 8 rows maskBytes
  have hshape : ¬(rows = 0 ∨ (expandBits packed).flatten.length % rows ≠ 0) := by
    rw [helements, Nat.mul_mod_right]
    omega
  simp only [reshapeRows]
  rw [if_neg hshape, helements, Nat.mul_div_cancel_left _ hrows, flatten_expandBits]

theorem getElem?_slice_bits {packed : List UInt8} {rows maskBytes r t : ℕ}
    (hlength : packed.length = rows * maskBytes) (hr : r < rows) (ht : t < 8 * maskBytes) :
    (RowSlices.slice (packed.flatMap PackedBits.byteBits) (8 * maskBytes) r)[t]? =
      some (PackedBits.bit (RowSlices.slice packed maskBytes r) t) := by
  have hrow : r * maskBytes + maskBytes ≤ rows * maskBytes := RowSlices.row_le hr
  have hbits : r * (8 * maskBytes) = 8 * (r * maskBytes) := Nat.mul_left_comm r 8 maskBytes
  have hbyte : t / 8 < maskBytes := by omega
  have hdiv : (8 * (r * maskBytes) + t) / 8 = r * maskBytes + t / 8 := by omega
  have hmod : (8 * (r * maskBytes) + t) % 8 = t % 8 := by omega
  rw [RowSlices.getElem?_slice, if_pos ht, hbits,
    PackedBits.getElem?_flatMap_byteBits (by rw [hlength]; omega), PackedBits.bit, PackedBits.bit,
    RowSlices.getElem?_slice, if_pos hbyte, hdiv, hmod]

theorem length_cut_row {packed : List UInt8} {rows vocabSize r : ℕ}
    (hlength : packed.length = rows * ((vocabSize + 7) / 8)) (hr : r < rows) :
    ((RowSlices.slice (packed.flatMap PackedBits.byteBits) (8 * ((vocabSize + 7) / 8)) r).take
      vocabSize).length = vocabSize := by
  have hrow : r * ((vocabSize + 7) / 8) + (vocabSize + 7) / 8 ≤ rows * ((vocabSize + 7) / 8) :=
    RowSlices.row_le hr
  have hbits : r * (8 * ((vocabSize + 7) / 8)) = 8 * (r * ((vocabSize + 7) / 8)) :=
    Nat.mul_left_comm r 8 _
  have hfull : (RowSlices.slice (packed.flatMap PackedBits.byteBits)
      (8 * ((vocabSize + 7) / 8)) r).length = 8 * ((vocabSize + 7) / 8) := by
    refine RowSlices.length_slice ?_
    rw [PackedBits.length_flatMap_byteBits, hlength, hbits]
    omega
  rw [List.length_take, hfull]
  omega

/-- **The mask of the scores**: every row is cut behind the vocabulary and filled up to the
width of the model. -/
theorem torchAllowed_eq {packed : List UInt8} {rows vocabSize width : ℕ} (hrows : 1 ≤ rows)
    (hvocab : 1 ≤ vocabSize) (hwidth : vocabSize ≤ width)
    (hlength : packed.length = rows * ((vocabSize + 7) / 8)) :
    torchAllowed rows width packed rows vocabSize = some ((List.range rows).map fun row =>
      (RowSlices.slice (packed.flatMap PackedBits.byteBits) (8 * ((vocabSize + 7) / 8)) row).take
        vocabSize ++ List.replicate (width - vocabSize) false) := by
  have hshape : ¬(rows ≠ rows ∨ width < vocabSize) := by omega
  have hbytes : packed ≠ [] := by
    have hpos : 0 < rows * ((vocabSize + 7) / 8) := Nat.mul_pos hrows (by omega)
    rw [← hlength] at hpos
    exact List.length_pos_iff.mp hpos
  rw [torchAllowed, if_neg hshape, if_neg hbytes, reshapeRows_eq hrows hlength]
  show (if width > vocabSize then some _ else some _) = some _
  rw [List.map_map]
  by_cases hsuffix : width > vocabSize
  · rw [if_pos hsuffix]
    congr 1
    refine List.ext_getElem? fun r => ?_
    by_cases hr : r < rows
    · simp only [List.getElem?_zipWith, List.getElem?_map, List.getElem?_range hr,
        List.getElem?_replicate, if_pos hr, Option.map_some, Function.comp_apply]
    · have hrange : (List.range rows)[r]? = none := by
        rw [List.getElem?_eq_none_iff, List.length_range]
        omega
      simp only [List.getElem?_zipWith, List.getElem?_map, hrange, Option.map_none]
  · have hnone : width - vocabSize = 0 := by omega
    rw [if_neg hsuffix, hnone, List.replicate_zero]
    congr 1
    refine List.map_congr_left fun row _ => ?_
    rw [List.append_nil]
    rfl

/-- **The masks cross the boundary unchanged.**  However many rows there are, whatever the
vocabulary size is and however wide the scores are: the tokens written into the rows are
the tokens that the scores are kept for, row by row, and rows that hold different tokens
are packed differently. -/
theorem torchAllowed_packRows {rows : List RowWrites} {vocabSize width : ℕ}
    (hrows : 1 ≤ rows.length) (hvocab : 1 ≤ vocabSize) (hwidth : vocabSize ≤ width)
    (hlt : ∀ row ∈ rows, ∀ token ∈ row.tokens, token < vocabSize) :
    (∃ packed allowed, packRows vocabSize rows = some packed ∧
      torchAllowed rows.length width packed rows.length vocabSize = some allowed ∧
      allowed.length = rows.length ∧
      ∀ (r : ℕ) (hr : r < rows.length), ∃ cells, allowed[r]? = some cells ∧
        cells.length = width ∧
        ∀ t < width, (cells[t]? = some true ↔ t < vocabSize ∧ t ∈ rows[r].tokens)) ∧
    ∀ rows' : List RowWrites, rows'.length = rows.length →
      (∀ row ∈ rows', ∀ token ∈ row.tokens, token < vocabSize) →
      packRows vocabSize rows' = packRows vocabSize rows →
      ∀ (r : ℕ) (hr : r < rows.length) (hr' : r < rows'.length) (t : TokenId),
        t ∈ rows'[r].tokens ↔ t ∈ rows[r].tokens := by
  obtain ⟨packed, hpacked, hlength, hslices⟩ := packRows_eq hlt
  refine ⟨⟨packed, _, hpacked, torchAllowed_eq hrows hvocab hwidth hlength, ?_, ?_⟩, ?_⟩
  · rw [List.length_map, List.length_range]
  · intro r hr
    have hcut := length_cut_row hlength hr
    refine ⟨_, by rw [List.getElem?_map, List.getElem?_range hr]; rfl, ?_, fun t ht => ?_⟩
    · rw [List.length_append, List.length_replicate, hcut]
      omega
    · by_cases htoken : t < vocabSize
      · have hinside : t < 8 * ((vocabSize + 7) / 8) := by omega
        rw [List.getElem?_append_left (by rw [hcut]; exact htoken),
          List.getElem?_take_of_lt htoken, getElem?_slice_bits hlength hr hinside, hslices r hr,
          Option.some_inj, RowWrites.bit_packed (hlt rows[r] (List.getElem_mem hr))]
        exact ⟨fun h => ⟨htoken, h⟩, fun h => h.2⟩
      · rw [List.getElem?_append_right (by rw [hcut]; omega), hcut,
          List.getElem?_replicate_of_lt (by omega)]
        exact ⟨fun h => absurd h (by decide), fun h => absurd h.1 htoken⟩
  · intro rows' hcount hlt' hsame r hr hr' t
    obtain ⟨packed', hpacked', -, hslices'⟩ := packRows_eq hlt'
    have heq : packed' = packed := by
      rw [hpacked, hpacked'] at hsame
      exact Option.some_inj.mp hsame
    have hrow : rows'[r].packed ((vocabSize + 7) / 8) = rows[r].packed ((vocabSize + 7) / 8) := by
      rw [← hslices' r hr', heq, hslices r hr]
    rw [← RowWrites.bit_packed (hlt' rows'[r] (List.getElem_mem hr')), hrow,
      RowWrites.bit_packed (hlt rows[r] (List.getElem_mem hr))]

/-- Nine tokens in rows of two bytes, for scores with one column more than the vocabulary:
a running row that keeps its first and its last token, and a padded one. -/
theorem torchAllowed_packRows_two_rows :
    packRows 9 [.running [8, 0], .accepted 3] = some [1, 1, 8, 0] ∧
    ∃ packed allowed, packRows 9 [.running [8, 0], .accepted 3] = some packed ∧
      torchAllowed 2 10 packed 2 9 = some allowed ∧
      ∀ (r : ℕ) (hr : r < 2), ∃ cells, allowed[r]? = some cells ∧
        ∀ t < 10, (cells[t]? = some true ↔
          t < 9 ∧ t ∈ ([.running [8, 0], .accepted 3] : List RowWrites)[r].tokens) := by
  obtain ⟨⟨packed, allowed, hpacked, hallowed, -, hlines⟩, -⟩ :=
    @torchAllowed_packRows [.running [8, 0], .accepted 3] 9 10 (by decide) (by decide) (by decide)
      (by decide)
  refine ⟨by decide, packed, allowed, hpacked, hallowed, fun r hr => ?_⟩
  obtain ⟨cells, hline, -, hbits⟩ := hlines r hr
  exact ⟨cells, hline, hbits⟩

end GreatGramma
