import GreatGramma.Matcher.Masks
import GreatGramma.Native.Padding

/-!
# What a batch knows of the rows it serves

A batch is driven by columns: every step brings one token for every row, and a row that has ended
takes pad tokens.  So what was generated for a row determines its status.  It is running, and then
the tokens are described by it; or it has ended, and then they are what was read up to the end,
and pads (`Follows`).

## What may come next

`Continues` says which tokens may come next behind what was generated, in terms of the grammar and
the pad token alone.  Before the end they are those that the checker reads (`Matcher.Masks`), and
behind it the pad.  A buffer of masks *shows* this if the bits of every row are the tokens that
may come next, and there are some; and a buffer is determined by what it shows (`Shows.unique`).
From here on, sessions are spoken of in these words, and neither lexer nor parser is mentioned.

## Calls

A batch *tracks* columns if its rows are those of what was generated.

* The initial masks change no row, and show what may come first (`Tracks.initialMasks_cases`).
* A step that is served appends its column, which is of tokens that may come next, and shows the
  masks of the rows behind it.
* A step that fails appends nothing, or else it was the one in which the last rows ended; no step
  succeeds on the batch afterwards (`Tracks.advanceAndMasks_cases`).

A batch on which no step succeeds any more is *spent*, and stays so: it is poisoned, or no row
runs (`Invariant.advanceAndMasks_spent`).
-/

namespace GreatGramma

open Reservation ShiftReduce Traversal

/-! ## What may come next -/

namespace ValidatedGrammar

variable (grammar : ValidatedGrammar)

/-- The checker reads the token behind tokens that have not ended. -/
def Admits (generated : List TokenId) (token : TokenId) : Prop :=
  ∃ lexer stack, grammar.Replays generated ⟨.running lexer, stack⟩ ∧
    (grammar.ReadsOrdinary lexer stack token ∨ grammar.ReadsEos lexer stack token)

/-- The tokens have been read to the end, and pads follow. -/
def Ended (pad : Option TokenId) (generated : List TokenId) : Prop :=
  ∃ read pads, generated = read ++ pads ∧ grammar.ReadsEnd read ∧
    ∀ token ∈ pads, pad = some token

/-- **The tokens that may come next**: what the checker reads before the end, and pads behind
it. -/
def Continues (pad : Option TokenId) (generated : List TokenId) (token : TokenId) : Prop :=
  grammar.Admits generated token ∨ (grammar.Ended pad generated ∧ pad = some token)

/-- **The row of what was generated.** -/
def Follows (pad : Option TokenId) (generated : List TokenId) (status : MatcherStatus) : Prop :=
  match status.phase with
  | .running _ => grammar.Replays generated status
  | .accepted => grammar.Ended pad generated

variable {grammar} {pad : Option TokenId} {generated : List TokenId} {lexer : LexerState}
  {stack : List ParserStateId} {token : TokenId}

/-- A running row is determined by its tokens. -/
theorem replays_unique {lexer' : LexerState} {stack' : List ParserStateId}
    (h : grammar.Replays generated ⟨.running lexer, stack⟩)
    (h' : grammar.Replays generated ⟨.running lexer', stack'⟩) :
    lexer' = lexer ∧ stack' = stack := by
  obtain ⟨emitted, ⟨bytes, hspelling, hrun⟩, hexecute⟩ := h
  obtain ⟨emitted', ⟨bytes', hspelling', hrun'⟩, hexecute'⟩ := h'
  obtain rfl := Option.some.inj (hspelling.symm.trans hspelling')
  obtain ⟨rfl, rfl⟩ := Prod.mk.inj (Option.some.inj (hrun.symm.trans hrun'))
  cases hexecute.symm.trans hexecute'
  exact ⟨rfl, rfl⟩

/-- Ordinary tokens have not ended: there is no EOS token among them. -/
theorem not_ended_of_spelling {bytes : List UInt8} (h : grammar.spelling generated = some bytes) :
    ¬ grammar.Ended pad generated := by
  rintro ⟨read, pads, rfl, ⟨before, eos, -, -, -, -, rfl, heos, -⟩, -⟩
  obtain ⟨bytes', hbytes⟩ := ordinary_of_spelling h
    (List.mem_append_left pads (List.mem_append_right before List.mem_cons_self))
  rw [heos] at hbytes
  cases hbytes

theorem not_ended_of_replays (h : grammar.Replays generated ⟨.running lexer, stack⟩) :
    ¬ grammar.Ended pad generated := by
  obtain ⟨emitted, ⟨bytes, hspelling, -⟩, -⟩ := h
  exact not_ended_of_spelling hspelling

/-- The row of tokens that have ended is the accepted one. -/
theorem Follows.ended_iff {status : MatcherStatus} (h : grammar.Follows pad generated status) :
    grammar.Ended pad generated ↔ status.phase = .accepted := by
  obtain ⟨phase, stack⟩ := status
  cases phase with
  | accepted => exact iff_of_true h rfl
  | running lexer => exact iff_of_false (not_ended_of_replays h) fun hphase => by cases hphase

theorem admits_iff (h : grammar.Replays generated ⟨.running lexer, stack⟩) :
    grammar.Admits generated token ↔
      grammar.ReadsOrdinary lexer stack token ∨ grammar.ReadsEos lexer stack token := by
  refine ⟨fun hadmits => ?_, fun hreads => ⟨lexer, stack, h, hreads⟩⟩
  obtain ⟨lexer', stack', h', hreads⟩ := hadmits
  obtain ⟨rfl, rfl⟩ := replays_unique h h'
  exact hreads

theorem continues_running (h : grammar.Replays generated ⟨.running lexer, stack⟩) :
    grammar.Continues pad generated token ↔
      grammar.ReadsOrdinary lexer stack token ∨ grammar.ReadsEos lexer stack token := by
  rw [Continues, admits_iff h]
  exact or_iff_left fun hended => not_ended_of_replays h hended.1

theorem continues_ended (h : grammar.Ended pad generated) :
    grammar.Continues pad generated token ↔ pad = some token := by
  refine ⟨fun hcontinues => ?_, fun hpad => Or.inr ⟨h, hpad⟩⟩
  rcases hcontinues with ⟨lexer, stack, hreplays, -⟩ | ⟨-, hpad⟩
  · exact absurd h (not_ended_of_replays hreplays)
  · exact hpad

theorem Ended.snoc (h : grammar.Ended pad generated) (hpad : pad = some token) :
    grammar.Ended pad (generated ++ [token]) := by
  obtain ⟨read, pads, rfl, hread, hpads⟩ := h
  refine ⟨read, pads ++ [token], List.append_assoc .., hread, fun other hother => ?_⟩
  rcases List.mem_append.mp hother with hmem | hmem
  · exact hpads other hmem
  · rw [hpad, List.mem_singleton.mp hmem]

theorem follows_nil :
    grammar.Follows pad [] ⟨.running .start, [grammar.lalr.startState]⟩ := replays_nil

end ValidatedGrammar

namespace PreparedGrammar

variable {prepared : PreparedGrammar} {lexer : LexerState} {stack : List ParserStateId}
  {tokens : List TokenId} {token : TokenId}

/-- **The tokens of a mask** are those that the checker reads. -/
theorem Sound.mem_mask (hsound : prepared.Sound) (hlexer : lexer.Valid prepared.grammar.lexer)
    (hstack : prepared.grammar.lalr.ValidStack stack)
    (h : prepared.maskTokens lexer stack = .ok tokens) :
    token ∈ tokens ↔ prepared.grammar.ReadsOrdinary lexer stack token ∨
      prepared.grammar.ReadsEos lexer stack token := by
  have hordinary : prepared.grammar.ReadsOrdinary lexer stack token →
      ∃ bytes, prepared.grammar.token token = some (.bytes bytes) := by
    rintro ⟨lexer', emitted, hexecute, -⟩
    obtain ⟨bytes, hentry, -⟩ := (ValidatedGrammar.executeToken_continue_iff hlexer).mp hexecute
    exact ⟨bytes, hentry⟩
  cases hentry : prepared.grammar.token token with
  | none =>
    refine iff_of_false (fun hmem => ?_) ?_
    · have hlt := hsound.lt_of_mem_mask hlexer h hmem
      have hsome := prepared.grammar.token_isSome.mpr hlt
      rw [hentry] at hsome
      cases hsome
    · rintro (hreads | ⟨emitted, eof, hexecute, -⟩)
      · obtain ⟨bytes, hbytes⟩ := hordinary hreads
        rw [hentry] at hbytes
        cases hbytes
      · simp only [executeToken, hentry] at hexecute
        split at hexecute <;> cases hexecute
  | some entry =>
    cases entry with
    | bytes bytes =>
      rw [hsound.mem_mask_ordinary hlexer hstack h hentry]
      refine (or_iff_left ?_).symm
      rintro ⟨emitted, eof, hexecute, -⟩
      rw [ValidatedGrammar.executeToken_eq hlexer hentry, ValidatedGrammar.tokenEffect] at hexecute
      cases hrun : prepared.grammar.scanner.run lexer bytes with
      | none =>
        rw [hrun] at hexecute
        cases hexecute
      | some found =>
        rw [hrun] at hexecute
        cases hexecute
    | eos =>
      rw [hsound.mem_mask_eos hlexer hstack h hentry]
      refine (or_iff_right ?_).symm
      intro hreads
      obtain ⟨bytes, hbytes⟩ := hordinary hreads
      rw [hentry] at hbytes
      cases hbytes

/-- **A running row takes only what the checker reads.** -/
theorem Sound.reads_of_advanceRow (hsound : prepared.Sound)
    (hlexer : lexer.Valid prepared.grammar.lexer) (hstack : prepared.grammar.lalr.ValidStack stack)
    {result : AdvanceResult} {status' : MatcherStatus}
    (h : prepared.advanceRow ⟨.running lexer, stack⟩ token = .ok (result, status')) :
    prepared.grammar.ReadsOrdinary lexer stack token ∨
      prepared.grammar.ReadsEos lexer stack token := by
  have hadvance := h
  simp only [advanceRow] at hadvance
  split_ifs at hadvance with hrange
  rw [advanceRow_running (Nat.not_le.mp hrange)] at h
  cases hrow : prepared.rowAfter lexer stack token with
  | error e =>
    rw [hrow] at h
    cases h
  | ok after =>
    cases after with
    | none =>
      rw [hrow] at h
      cases h
    | some status'' =>
      unfold rowAfter at hrow
      cases heffect : prepared.effectOf lexer token with
      | none =>
        rw [heffect] at hrow
        cases hrow
      | some execution =>
        rw [heffect] at hrow
        rcases effectOf_cases heffect with
          ⟨bytes, lexer', emitted', hentry, -, rfl⟩ | ⟨label, hentry, hflush, rfl⟩
        · obtain ⟨allowed, hallowed, hafter⟩ := map_eq_ok.mp hrow
          cases allowed with
          | false => cases hafter
          | true =>
            obtain ⟨bucket, hbucket, hanswer⟩ := exists_of_anyM hallowed
            split_ifs at hanswer with hcontains
            · exact Or.inl ((ValidatedGrammar.readsOrdinary_iff hlexer hstack hentry).mpr
                ((hsound.exists_bucket_iff hlexer).mp
                  ⟨bucket, hbucket, List.contains_iff_mem.mp hcontains, hanswer⟩))
            · cases hanswer
        · obtain ⟨accepted, haccepted, hafter⟩ := map_eq_ok.mp hrow
          cases accepted with
          | false => cases hafter
          | true =>
            refine Or.inr ⟨_, _, ?_, (eosAnswer_eq_true hstack
              (ValidatedGrammar.scanner_flush_emittable hflush)).mp haccepted⟩
            rw [ValidatedGrammar.executeToken_eq hlexer hentry, ValidatedGrammar.tokenEffect,
              hflush, Option.map_some]

/-- **A running row takes what its mask shows.** -/
theorem Sound.advanceRow_of_mem_mask (hsound : prepared.Sound)
    (hlexer : lexer.Valid prepared.grammar.lexer)
    (h : prepared.maskTokens lexer stack = .ok tokens) (htoken : token ∈ tokens) :
    ∃ result status',
      prepared.advanceRow ⟨.running lexer, stack⟩ token = .ok (result, status') := by
  have hrange := hsound.lt_of_mem_mask hlexer h htoken
  obtain ⟨after, hafter, hin⟩ := hsound.rowAfter_of_maskTokens hlexer h hrange
  rw [advanceRow_running hrange, hafter]
  cases after with
  | none => cases hin.mpr htoken
  | some status' => exact ⟨_, _, rfl⟩

/-- **A row that takes a token** follows what was generated with it. -/
theorem Sound.advanceRow_follows (hsound : prepared.Sound) {pad : Option TokenId}
    {generated : List TokenId} {status status' : MatcherStatus} {result : AdvanceResult}
    (hstatus : status.Valid prepared.grammar)
    (hfollows : prepared.grammar.Follows pad generated status)
    (h : prepared.advanceRow status token = .ok (result, status')) :
    prepared.grammar.Continues pad generated token ∧
      prepared.grammar.Follows pad (generated ++ [token]) status' := by
  obtain ⟨phase, stack⟩ := status
  cases phase with
  | accepted => cases h
  | running lexer =>
    have hvalid : lexer.Valid prepared.grammar.lexer ∧
      prepared.grammar.lalr.ValidStack stack := hstatus
    refine ⟨(ValidatedGrammar.continues_running hfollows).mpr
      (hsound.reads_of_advanceRow hvalid.1 hvalid.2 h), ?_⟩
    have hreplays := hsound.advanceRow_replays hstatus hfollows h
    obtain ⟨phase', stack'⟩ := status'
    cases phase' with
    | running lexer' => exact hreplays
    | accepted =>
      exact ⟨_, [], (List.append_nil _).symm, hreplays, fun _ hmem => absurd hmem List.not_mem_nil⟩

end PreparedGrammar

/-! ## Masks of a whole batch -/

/-- **All masks at once**: a call that succeeds writes the mask of every row. -/
theorem Matcher.Invariant.masks_written {matcher : Matcher} (hm : matcher.Invariant)
    {output : List UInt8} {memory : Memory}
    (hfits : matcher.states.length * matcher.maskBytes ≤ usizeMax)
    (hlength : output.length = matcher.states.length * matcher.maskBytes)
    (h : (matcher.masks output memory).1 = .ok ()) :
    ∀ (row : ℕ) status, matcher.states[row]? = some status →
      ∃ mask, matcher.prepared.maskRow matcher.maskBytes status = .ok mask ∧
        ((matcher.masks output memory).2.1.drop (row * matcher.maskBytes)).take
          matcher.maskBytes = PreparedGrammar.packMask matcher.maskBytes mask := by
  have hanswer := (hm.call_answered memory (.masks output)).answer
  simp only [Matcher.call] at hanswer
  generalize matcher.masks output memory = out at h hanswer
  obtain ⟨reply, written, matcher', memory'⟩ := out
  obtain rfl : reply = .ok () := h
  have hmul : checkedMul matcher.states.length matcher.prepared.maskBytes =
      some (matcher.states.length * matcher.prepared.maskBytes) :=
    checkedMul_eq_some.mpr ⟨hfits, rfl⟩
  have hroom : ¬ output.length < matcher.states.length * matcher.prepared.maskBytes := by
    rw [hlength]
    exact Nat.lt_irrefl _
  rcases hanswer with ⟨hrespond, -⟩ | ⟨-, ⟨requested, hrefused⟩, -⟩
  · simp only [PreparedGrammar.respond, hmul, if_neg hroom] at hrespond
    cases hfound : matcher.states.mapM
        (matcher.prepared.maskRow matcher.prepared.maskBytes) with
    | error e =>
      rw [hfound] at hrespond
      cases congrArg (fun out => out.1.value) hrespond
    | ok masks =>
      rw [hfound] at hrespond
      have hwritten : written = matcher.prepared.packMasks output.length masks :=
        congrArg (fun out => out.1.written) hrespond
      obtain ⟨hcount, hall⟩ := mapM_eq_ok_get.mp hfound
      intro row status hstatus
      obtain ⟨hlt, rfl⟩ := List.getElem?_eq_some_iff.mp hstatus
      refine ⟨_, hall row hlt (hcount.symm ▸ hlt), ?_⟩
      rw [hwritten]
      exact Matcher.packMasks_row _ (hcount.symm ▸ hlt) _
  · cases hrefused

/-! ## Batches -/

/-- One token more for every row. -/
def appendColumn (histories : List (List TokenId)) (column : List TokenId) :
    List (List TokenId) :=
  List.zipWith (fun generated token => generated ++ [token]) histories column

theorem getElem?_appendColumn {histories : List (List TokenId)} {column : List TokenId} {row : ℕ}
    {generated : List TokenId} :
    (appendColumn histories column)[row]? = some generated ↔
      ∃ before token, histories[row]? = some before ∧ column[row]? = some token ∧
        before ++ [token] = generated :=
  List.getElem?_zipWith_eq_some

/-- **What a buffer of masks shows**: for every row the tokens that may come next, and there are
some. -/
structure Shows (grammar : ValidatedGrammar) (pad : Option TokenId) (width : ℕ)
    (histories : List (List TokenId)) (packed : List UInt8) : Prop where
  length : packed.length = histories.length * width
  bit : ∀ (row : ℕ) generated, histories[row]? = some generated → ∀ token,
    PackedBits.bit ((packed.drop (row * width)).take width) token = true ↔
      grammar.Continues pad generated token
  next : ∀ generated ∈ histories, ∃ token, grammar.Continues pad generated token

/-- **A buffer is determined by what it shows.** -/
theorem Shows.unique {grammar : ValidatedGrammar} {pad : Option TokenId} {width : ℕ}
    {histories : List (List TokenId)} {packed packed' : List UInt8}
    (h : Shows grammar pad width histories packed)
    (h' : Shows grammar pad width histories packed') : packed = packed' := by
  refine PackedBits.ext_bit (h.length.trans h'.length.symm) fun t ht => ?_
  rw [h.length, Nat.mul_left_comm, Nat.mul_comm] at ht
  have hpos : 0 < 8 * width := Nat.pos_of_mul_pos_right (Nat.zero_lt_of_lt ht)
  -- the row and the token of this bit
  have hrow : t / (8 * width) < histories.length := Nat.div_lt_of_lt_mul ht
  have htoken : t % (8 * width) < 8 * width := Nat.mod_lt t hpos
  have hsplit : 8 * (t / (8 * width) * width) + t % (8 * width) = t := by
    conv_rhs => rw [← Nat.div_add_mod t (8 * width)]
    ring
  have hgenerated := List.getElem?_eq_getElem hrow
  have hbit := h.bit _ _ hgenerated (t % (8 * width))
  rw [← h'.bit _ _ hgenerated, PackedBits.bit_window packed htoken,
    PackedBits.bit_window packed' htoken, hsplit] at hbit
  exact Bool.eq_iff_iff.mpr hbit

namespace NativeBatch

/-- **The rows of a batch are those of what was generated.** -/
structure Tracks (batch : NativeBatch) (histories : List (List TokenId)) : Prop where
  invariant : batch.Invariant
  length : histories.length = batch.matcher.states.length
  follows : ∀ (row : ℕ) status generated, batch.matcher.states[row]? = some status →
    histories[row]? = some generated →
      batch.matcher.prepared.grammar.Follows batch.padTokenId generated status

variable {batch batch' : NativeBatch} {histories : List (List TokenId)} {tokens : List TokenId}

theorem Tracks.of_states (h : batch.Tracks histories) (hb : batch'.Invariant)
    (hsession : batch.SameSession batch') (hstates : batch'.matcher.states = batch.matcher.states) :
    batch'.Tracks histories := by
  refine ⟨hb, h.length.trans hsession.rows.symm, fun row status generated hrow hgenerated => ?_⟩
  rw [hsession.prepared, hsession.pad]
  exact h.follows row status generated (hstates ▸ hrow) hgenerated

theorem Tracks.row (h : batch.Tracks histories) {row : ℕ} {generated : List TokenId}
    (hgenerated : histories[row]? = some generated) :
    ∃ status, batch.matcher.states[row]? = some status ∧
      status.Valid batch.matcher.prepared.grammar ∧
      batch.matcher.prepared.grammar.Follows batch.padTokenId generated status := by
  have hlt := (List.getElem?_eq_some_iff.mp hgenerated).1
  have hrow := List.getElem?_eq_getElem (l := batch.matcher.states) (h.length ▸ hlt)
  exact ⟨_, hrow, h.invariant.matcher.rows _ (List.mem_of_getElem? hrow),
    h.follows row _ generated hrow hgenerated⟩

/-- **A step that commits appends its column**, which is of tokens that may come next. -/
theorem Tracks.commit (h : batch.Tracks histories) {committed : NativeBatch}
    (hcommitted : batch.Committed tokens committed) (hb : batch'.Invariant)
    (hsession : batch.SameSession batch') (hmatcher : batch'.matcher = committed.matcher) :
    tokens.length = histories.length ∧
      (∀ (row : ℕ) generated token, histories[row]? = some generated →
        tokens[row]? = some token →
          batch.matcher.prepared.grammar.Continues batch.padTokenId generated token) ∧
      batch'.Tracks (appendColumn histories tokens) := by
  have hrow : ∀ (row : ℕ) generated token, histories[row]? = some generated →
      tokens[row]? = some token → ∃ status', batch'.matcher.states[row]? = some status' ∧
        batch.matcher.prepared.grammar.Continues batch.padTokenId generated token ∧
        batch.matcher.prepared.grammar.Follows batch.padTokenId (generated ++ [token]) status' := by
    intro row generated token hgenerated htoken
    obtain ⟨status, hstatus, hvalid, hfollows⟩ := h.row hgenerated
    obtain ⟨status', token', hstatus', htoken', hstep⟩ := hcommitted.row h.invariant hstatus
    obtain rfl := Option.some.inj (htoken.symm.trans htoken')
    refine ⟨status', by rw [hmatcher]; exact hstatus', ?_⟩
    rcases hstep with ⟨hphase, rfl⟩ | ⟨-, result, hadvance⟩
    · -- a row that has ended is given its pad
      have hpad := (hcommitted.passes row status' token hstatus htoken).2 hphase
      obtain ⟨phase, stack⟩ := status'
      obtain rfl : phase = .accepted := hphase
      have hended : batch.matcher.prepared.grammar.Ended batch.padTokenId generated := hfollows
      exact ⟨(ValidatedGrammar.continues_ended hended).mpr hpad, hended.snoc hpad⟩
    · exact h.invariant.matcher.sound.advanceRow_follows hvalid hfollows hadvance
  have hlength : tokens.length = histories.length := hcommitted.length.trans h.length.symm
  refine ⟨hlength, fun row generated token hgenerated htoken => ?_, hb, ?_, ?_⟩
  · obtain ⟨_, -, hcontinues, -⟩ := hrow row generated token hgenerated htoken
    exact hcontinues
  · rw [appendColumn, List.length_zipWith, hlength, Nat.min_self, h.length, hsession.rows]
  · intro row status generated hstatus hgenerated
    obtain ⟨before, token, hbefore, htoken, rfl⟩ := getElem?_appendColumn.mp hgenerated
    obtain ⟨status', hstatus', -, hfollows⟩ := hrow row before token hbefore htoken
    obtain rfl := Option.some.inj (hstatus.symm.trans hstatus')
    rw [hsession.prepared, hsession.pad]
    exact hfollows

theorem Tracks.bit_packMask (h : batch.Tracks histories) {row : ℕ} {generated : List TokenId}
    (hgenerated : histories[row]? = some generated) {lexer : LexerState}
    {stack : List ParserStateId}
    (hstatus : batch.matcher.states[row]? = some ⟨.running lexer, stack⟩)
    {mask : List TokenId} (hmask : batch.matcher.prepared.maskRow batch.matcher.maskBytes
      ⟨.running lexer, stack⟩ = .ok mask) :
    (∀ token, PackedBits.bit (PreparedGrammar.packMask batch.matcher.maskBytes mask) token =
        true ↔ batch.matcher.prepared.grammar.Continues batch.padTokenId generated token) ∧
      ∃ token, batch.matcher.prepared.grammar.Continues batch.padTokenId generated token := by
  have hm := h.invariant.matcher
  obtain ⟨hlexer, hstack⟩ : lexer.Valid batch.matcher.prepared.grammar.lexer ∧
      batch.matcher.prepared.grammar.lalr.ValidStack stack :=
    hm.rows _ (List.mem_of_getElem? hstatus)
  obtain ⟨-, hfound, hne⟩ := PreparedGrammar.maskRow_running.mp hmask
  have hcontinues : ∀ token, token ∈ mask ↔
      batch.matcher.prepared.grammar.Continues batch.padTokenId generated token := fun token =>
    (hm.sound.mem_mask hlexer hstack hfound).trans
      (ValidatedGrammar.continues_running (h.follows row _ generated hstatus hgenerated)).symm
  refine ⟨fun token => ?_, ?_⟩
  · exact (hm.sound.bit_packMask hlexer hfound (Nat.le_refl _) token).trans (hcontinues token)
  · obtain ⟨token, htoken⟩ := List.exists_mem_of_ne_nil _ hne
    exact ⟨token, (hcontinues token).mp htoken⟩

/-- **A step that is served shows the rows behind it.** -/
theorem Served.shows (hserved : batch.Served) (h : batch.Tracks histories) :
    Shows batch.matcher.prepared.grammar batch.padTokenId batch.matcher.maskBytes histories
      batch.maskBuffer := by
  have hm := h.invariant.matcher
  have hrow : ∀ (row : ℕ) generated, histories[row]? = some generated →
      (∀ token, PackedBits.bit (batch.rowMask row) token = true ↔
        batch.matcher.prepared.grammar.Continues batch.padTokenId generated token) ∧
      ∃ token, batch.matcher.prepared.grammar.Continues batch.padTokenId generated token := by
    intro row generated hgenerated
    obtain ⟨⟨phase, stack⟩, hstatus, -, hfollows⟩ := h.row hgenerated
    cases phase with
    | running lexer =>
      obtain ⟨hok, hmask⟩ := hserved.running row _ hstatus fun hphase => by cases hphase
      obtain ⟨hreply, hwritten⟩ := hm.maskOf_eq hstatus
      rw [hok] at hreply
      obtain ⟨mask, hfound, -⟩ := map_eq_ok.mp hreply.symm
      rw [hmask, hwritten mask hfound]
      exact h.bit_packMask hgenerated hstatus hfound
    | accepted =>
      obtain ⟨pad, hpad, hbit⟩ := hserved.accepted row _ hstatus rfl
      have hcontinues : ∀ token, batch.matcher.prepared.grammar.Continues batch.padTokenId generated
          token ↔ token = pad := fun token => by
        rw [ValidatedGrammar.continues_ended hfollows, hpad, Option.some.injEq, eq_comm]
      refine ⟨fun token => ?_, pad, (hcontinues pad).mpr rfl⟩
      rw [hbit, decide_eq_true_eq, hcontinues]
  refine ⟨by rw [h.invariant.buffer, h.length], fun row generated hgenerated =>
    (hrow row generated hgenerated).1, fun generated hmem => ?_⟩
  obtain ⟨row, hgenerated⟩ := List.mem_iff_getElem?.mp hmem
  exact (hrow row generated hgenerated).2

/-! ## Calls -/

/-- No step succeeds on the batch any more. -/
def Spent (batch : NativeBatch) : Prop := batch.poisoned = true ∨ ¬ batch.Runs

/-- Finishing a call that succeeded: the masks are given out, or the batch is poisoned. -/
theorem finishBatchCall_ok (batch : NativeBatch) (memory : Memory) :
    (∃ memory', batch.finishBatchCall (.ok ()) memory = (.ok batch.maskBuffer, batch, memory')) ∨
      ∃ e memory', e.code = .internalError ∧
        batch.finishBatchCall (.ok ()) memory =
          (.error e, { batch with poisoned := true }, memory') := by
  simp only [finishBatchCall]
  rcases memory.reserve with ⟨answer, memory'⟩
  cases answer with
  | true => exact Or.inl ⟨memory', rfl⟩
  | false => exact Or.inr ⟨_, memory', rfl, rfl⟩

theorem initialMasksInner_ok {memory : Memory} (h : (batch.initialMasksInner memory).1 = .ok ()) :
    batch.poisoned = false ∧ (batch.matcher.masks batch.maskBuffer memory).1 = .ok () ∧
      (batch.initialMasksInner memory).2.1.maskBuffer =
        (batch.matcher.masks batch.maskBuffer memory).2.1 := by
  unfold initialMasksInner ensureLive at h ⊢
  by_cases hpoisoned : batch.poisoned = true
  · rw [if_pos hpoisoned] at h
    cases h
  · rw [if_neg hpoisoned] at h ⊢
    exact ⟨Bool.eq_false_iff.mpr hpoisoned, mapError_eq_ok.mp h, rfl⟩

theorem initialMasksInner_poisoned (batch : NativeBatch) (memory : Memory) :
    (batch.initialMasksInner memory).2.1.poisoned = batch.poisoned := by
  unfold initialMasksInner
  cases batch.ensureLive <;> rfl

/-- The masks of all rows show what may come next. -/
theorem Tracks.shows_masks (h : batch.Tracks histories) {memory : Memory}
    (hok : (batch.matcher.masks batch.maskBuffer memory).1 = .ok ()) :
    Shows batch.matcher.prepared.grammar batch.padTokenId batch.matcher.maskBytes histories
      (batch.matcher.masks batch.maskBuffer memory).2.1 := by
  have hb := h.invariant
  have hwritten := hb.matcher.masks_written hb.fits hb.buffer hok
  have hrow : ∀ (row : ℕ) generated, histories[row]? = some generated →
      (∀ token, PackedBits.bit (((batch.matcher.masks batch.maskBuffer memory).2.1.drop
          (row * batch.matcher.maskBytes)).take batch.matcher.maskBytes) token = true ↔
        batch.matcher.prepared.grammar.Continues batch.padTokenId generated token) ∧
      ∃ token, batch.matcher.prepared.grammar.Continues batch.padTokenId generated token := by
    intro row generated hgenerated
    obtain ⟨⟨phase, stack⟩, hstatus, -, -⟩ := h.row hgenerated
    obtain ⟨mask, hmask, hslice⟩ := hwritten row _ hstatus
    rw [hslice]
    cases phase with
    | accepted => cases hmask
    | running lexer => exact h.bit_packMask hgenerated hstatus hmask
  refine ⟨?_, fun row generated hgenerated => (hrow row generated hgenerated).1,
    fun generated hmem => ?_⟩
  · rw [(batch.matcher.masks_keeps batch.maskBuffer memory).2, hb.buffer, h.length]
  · obtain ⟨row, hgenerated⟩ := List.mem_iff_getElem?.mp hmem
    exact (hrow row generated hgenerated).2

/-- **The initial masks** change no row, and show what may come first. -/
theorem Tracks.initialMasks_cases (h : batch.Tracks histories) (memory : Memory) :
    ∃ reply batch' memory', batch.initialMasks memory = (reply, batch', memory') ∧
      batch.SameSession batch' ∧ batch'.Tracks histories ∧
      ((∃ packed, reply = .ok packed ∧ batch'.poisoned = false ∧ batch'.matcher.Live ∧
          Shows batch.matcher.prepared.grammar batch.padTokenId batch.matcher.maskBytes histories
            packed) ∨
        ∃ e, reply = .error e ∧ (e.code ≠ .internalError → batch'.poisoned = batch.poisoned)) := by
  have hb := h.invariant
  obtain ⟨hb', hsession, hstates⟩ := hb.initialMasksInner memory
  have hpoisoned := batch.initialMasksInner_poisoned memory
  have hserved := @initialMasksInner_ok batch memory
  unfold NativeBatch.initialMasks
  generalize batch.initialMasksInner memory = out at hb' hsession hstates hpoisoned hserved
  obtain ⟨reply, batch', memory'⟩ := out
  dsimp only at hb' hsession hstates hpoisoned hserved ⊢
  have hsession' : ∀ poisoned, batch.SameSession { batch' with poisoned } :=
    fun _ => ⟨hsession.prepared, hsession.rows, hsession.pad⟩
  have htracks : ∀ poisoned, ({ batch' with poisoned } : NativeBatch).Tracks histories :=
    fun poisoned => h.of_states (hb'.poison poisoned) (hsession' poisoned) hstates
  cases reply with
  | error e =>
    refine ⟨_, _, _, rfl, hsession' _, htracks _, Or.inr ⟨e, rfl, fun hcode => ?_⟩⟩
    rw [if_neg hcode]
    exact hpoisoned
  | ok _ =>
    obtain ⟨hlive, hok, hbuffer⟩ := hserved rfl
    rcases batch'.finishBatchCall_ok memory' with
      ⟨memory'', hfinish⟩ | ⟨e, memory'', hcode, hfinish⟩
    · rw [hfinish]
      refine ⟨_, _, _, rfl, hsession, htracks batch'.poisoned, Or.inl ⟨_, rfl,
        hpoisoned.trans hlive, fun row status hstatus hphase => ?_, ?_⟩⟩
      · obtain ⟨mask, hmask, -⟩ :=
          hb.matcher.masks_written hb.fits hb.buffer hok row status (hstates ▸ hstatus)
        have hreply := (hb'.matcher.maskOf_eq hstatus).1
        rw [hsession.prepared] at hreply
        rw [hreply, show batch.matcher.prepared.maskRow batch.matcher.prepared.maskBytes status =
          .ok mask from hmask]
        rfl
      · rw [hbuffer]
        exact h.shows_masks hok
    · rw [hfinish]
      exact ⟨_, _, _, rfl, hsession' _, htracks _, Or.inr ⟨e, rfl, fun h => absurd hcode h⟩⟩

/-! ## Steps -/

theorem Served.live (h : batch.Served) : batch.matcher.Live :=
  fun row status hstatus hphase => (h.running row status hstatus hphase).1

theorem advanceAndMasksInner_poisoned (batch : NativeBatch) (tokens : List TokenId)
    (memory : Memory) :
    (batch.advanceAndMasksInner tokens memory).2.1.poisoned = batch.poisoned := by
  have hcommit : ∀ b : NativeBatch, (b.commitTokens memory).2.1.poisoned = b.poisoned := by
    intro b
    unfold commitTokens
    split
    · rfl
    · split_ifs <;> rfl
  have hinner : (batch.advanceInner tokens memory).2.1.poisoned = batch.poisoned := by
    unfold advanceInner
    split
    · rfl
    · split_ifs
      · rfl
      · unfold stageTokens
        generalize scan tokens.length (batch.stageToken tokens) batch.activeTokens = staged
        obtain ⟨reply, activeTokens⟩ := staged
        cases reply with
        | error e => rfl
        | ok _ => exact hcommit _
  unfold advanceAndMasksInner
  generalize batch.advanceInner tokens memory = out at hinner
  obtain ⟨reply, batch', memory'⟩ := out
  cases reply with
  | error e => exact hinner
  | ok _ =>
    dsimp only
    rw [← show batch'.poisoned = batch.poisoned from hinner]
    unfold padAccepted
    split
    · rfl
    · split_ifs <;> rfl

/-- **A step**: it appends its column and shows the rows behind it, or it fails.  Then it
appended nothing, or no step succeeds any more. -/
theorem Tracks.advanceAndMasks_cases (h : batch.Tracks histories) (tokens : List TokenId)
    (memory : Memory) :
    ∃ reply batch' memory', batch.advanceAndMasks tokens memory = (reply, batch', memory') ∧
      batch.SameSession batch' ∧ batch'.Invariant ∧
      ((∃ packed, reply = .ok packed ∧ tokens.length = histories.length ∧
          (∀ (row : ℕ) generated token, histories[row]? = some generated →
            tokens[row]? = some token →
              batch.matcher.prepared.grammar.Continues batch.padTokenId generated token) ∧
          batch'.Tracks (appendColumn histories tokens) ∧ batch'.poisoned = false ∧
          batch'.Runs ∧ batch'.matcher.Live ∧
          Shows batch.matcher.prepared.grammar batch.padTokenId batch.matcher.maskBytes
            (appendColumn histories tokens) packed) ∨
        ∃ e, reply = .error e ∧ (batch'.Spent ∨ (e.code ≠ .internalError ∧
          batch'.Tracks histories ∧ batch'.matcher.states = batch.matcher.states ∧
            batch'.poisoned = batch.poisoned))) := by
  have hb := h.invariant
  obtain ⟨reply, batch', memory', hstep, hb', hsession, hcases⟩ :=
    hb.advanceAndMasksInner_cases tokens memory
  have hpoisoned := batch.advanceAndMasksInner_poisoned tokens memory
  unfold NativeBatch.advanceAndMasks
  rw [hstep] at hpoisoned ⊢
  dsimp only at hpoisoned ⊢
  have hsession' : ∀ poisoned, batch.SameSession { batch' with poisoned } :=
    fun _ => ⟨hsession.prepared, hsession.rows, hsession.pad⟩
  cases reply with
  | ok _ =>
    rcases hcases with ⟨⟨e, he⟩, -⟩ | ⟨-, ⟨committed, hcommitted, hmatcher⟩, hends⟩
    · cases he
    rcases hends with ⟨-, hserved⟩ | ⟨⟨e, he, -⟩, -⟩
    · obtain ⟨hlength, hcontinues, htracks⟩ := h.commit hcommitted hb' hsession hmatcher
      rcases batch'.finishBatchCall_ok memory' with ⟨memory'', hfinish⟩ |
        ⟨e, memory'', hcode, hfinish⟩
      · rw [hfinish]
        refine ⟨_, _, _, rfl, hsession, hb', Or.inl ⟨_, rfl, hlength, hcontinues, htracks,
          hpoisoned.trans hcommitted.live, hserved.runs, hserved.live, ?_⟩⟩
        have hshows := hserved.shows htracks
        rw [Matcher.maskBytes, hsession.prepared, hsession.pad] at hshows
        exact hshows
      · rw [hfinish]
        exact ⟨_, _, _, rfl, hsession' _, hb'.poison true, Or.inr ⟨e, rfl, Or.inl (Or.inl rfl)⟩⟩
    · cases he
  | error e =>
    refine ⟨_, _, _, rfl, hsession' _, hb'.poison _, Or.inr ⟨e, rfl, ?_⟩⟩
    by_cases hcode : e.code = .internalError
    · refine Or.inl (Or.inl ?_)
      dsimp only
      rw [if_pos hcode]
    rw [if_neg hcode]
    rcases hcases with ⟨-, -, hstates, -⟩ | ⟨-, -, ⟨he, -⟩ | ⟨-, hnone⟩⟩
    · exact Or.inr ⟨hcode, h.of_states hb' hsession hstates, hstates, hpoisoned⟩
    · cases he
    · exact Or.inl (Or.inr hnone)

/-- **A spent batch stays spent**: no step on it succeeds. -/
theorem Invariant.advanceAndMasks_spent (hb : batch.Invariant) (hspent : batch.Spent)
    (tokens : List TokenId) (memory : Memory) :
    ∃ e batch' memory', batch.advanceAndMasks tokens memory = (.error e, batch', memory') ∧
      batch'.Spent := by
  obtain ⟨reply, batch', memory', hstep, -, -, hcases⟩ :=
    hb.advanceAndMasksInner_cases tokens memory
  have hpoisoned := batch.advanceAndMasksInner_poisoned tokens memory
  unfold NativeBatch.advanceAndMasks
  rw [hstep] at hpoisoned ⊢
  dsimp only at hpoisoned ⊢
  -- what ran no rows before runs none afterwards
  have hnone : ¬ batch.Runs → ¬ batch'.Runs := by
    intro hnone
    rcases hcases with ⟨-, -, hstates, -⟩ | ⟨-, ⟨committed, hcommitted, hmatcher⟩, -⟩
    · unfold Runs at hnone ⊢
      rwa [hstates]
    · unfold Runs at hnone ⊢
      rwa [hmatcher, hcommitted.states_of_not_runs hb hnone]
  cases reply with
  | error e =>
    refine ⟨e, _, _, rfl, ?_⟩
    rcases hspent with hspent | hspent
    · refine Or.inl ?_
      dsimp only
      split_ifs
      · rfl
      · exact hpoisoned.trans hspent
    · exact Or.inr (hnone hspent)
  | ok _ =>
    rcases hcases with
      ⟨⟨e, he⟩, -⟩ | ⟨-, ⟨committed, hcommitted, -⟩, ⟨-, hserved⟩ | ⟨⟨e, he, -⟩, -⟩⟩
    · cases he
    · rcases hspent with hspent | hspent
      · rw [hcommitted.live] at hspent
        cases hspent
      · exact absurd hserved.runs (hnone hspent)
    · cases he

theorem newBatch_live {grammar : NativeGrammar} {rows : ℕ} {padTokenId : Option TokenId}
    {memory : Memory} (h : (grammar.newBatchInner rows padTokenId memory).1 = .ok batch) :
    batch.poisoned = false := by
  unfold NativeGrammar.newBatchInner at h
  repeat' split at h
  all_goals cases h
  rfl

end NativeBatch
end GreatGramma
