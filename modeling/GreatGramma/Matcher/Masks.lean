import GreatGramma.Engine.Answers
import GreatGramma.Engine.Runs

/-!
# What a mask says

The mask of a running row is computed from tables: token executions, heads interned by
continuation, classification cells, replays.  It says what a checker says that knows none of them,
and only runs the lexer and the reference interpreter (`mask_refines_head_checker`).

## The checker

On an ordinary token the checker runs the lexer over its bytes, and asks whether the parser can
read what is emitted with one more terminal, of those that the lexer could emit next after bytes
that emit nothing.  On an EOS token it ends the lexer and asks whether the parser accepts.  Three
kinds of bits are spoken of: those of ordinary tokens, those of EOS tokens, and all others of the
buffer, which are clear.

## Three calls, one relation

A mask says the same as the two calls that look at one token at a time: a bit is set when `allows`
answers `true`, which is when `advance` succeeds, and clear when `allows` answers `false`, which
is when `advance` reports a violation (`mask_allows_advance_agree`).  The mask fails with
`NoValidToken` exactly when `allows` answers `false` on every token.  None of this assumes
anything of the parser tables; a table with a fault makes the mask fail, and then nothing is said
of its bits.
-/

namespace GreatGramma

open Reservation ShiftReduce Traversal

/-! ## The finite-head checker -/

namespace ValidatedGrammar

variable (grammar : ValidatedGrammar)

/-- The checker on an ordinary token: the lexer reads it, and the parser reads what is
emitted with some terminal that the lexer, after bytes that emit nothing, would emit at
the end of the input. -/
def ReadsOrdinary (lexer : LexerState) (stack : List ParserStateId) (token : TokenId) : Prop :=
  ∃ lexer' emitted, executeToken grammar lexer token = .ok (some (.continue lexer' emitted)) ∧
    ∃ bytes lexer'' c, grammar.scanner.run lexer' bytes = some (lexer'', []) ∧
      grammar.scanner.flush lexer'' = some (some c) ∧
      ∃ committed, (executeSequenceHead grammar stack (emitted ++ [c]) .granting).1 =
        .ok (some committed)

/-- The checker on an EOS token: the lexer ends, and the parser accepts what is flushed
with EOF. -/
def ReadsEos (lexer : LexerState) (stack : List ParserStateId) (token : TokenId) : Prop :=
  ∃ emitted eof, executeToken grammar lexer token = .ok (some (.finished emitted eof)) ∧
    (executeTerminals grammar stack (emitted ++ [eof]) .granting).1 = .ok (some .accepted)

variable {grammar} {lexer : LexerState} {stack : List ParserStateId} {token : TokenId}

theorem readsOrdinary_iff {bytes : List UInt8} (hlexer : lexer.Valid grammar.lexer)
    (hstack : grammar.lalr.ValidStack stack) (hentry : grammar.token token = some (.bytes bytes)) :
    grammar.ReadsOrdinary lexer stack token ↔
      ∃ head, grammar.Realizes lexer token head ∧
        grammar.lalr.readable stack head = .ok true := by
  have hexecute := executeToken_eq hlexer hentry
  have hemittable : ∀ {lexer' emitted c},
      grammar.scanner.run lexer bytes = some (lexer', emitted) → grammar.scanner.Head lexer' c →
      grammar.lalr.Emittable (emitted ++ [c]) := fun hrun hhead =>
    (scanner_run_emittable hrun).append (scanner_head_emittable hhead)
  unfold ReadsOrdinary
  rw [hexecute]
  constructor
  · rintro ⟨lexer', emitted, heffect, word, lexer'', c, hsilent, hflush, hcommitted⟩
    obtain ⟨⟨lexer₁, emitted₁⟩, hrun, hout⟩ := Option.map_eq_some_iff.mp (Except.ok.inj heffect)
    cases hout
    have hhead : grammar.scanner.Head lexer₁ c := ⟨word, lexer'', hsilent, hflush⟩
    exact ⟨emitted₁ ++ [c], ⟨bytes, lexer₁, emitted₁, c, hentry, hrun, hhead, rfl⟩,
      (readable_eq_true hstack (hemittable hrun hhead)).mpr hcommitted⟩
  · rintro ⟨head, ⟨bytes', lexer', emitted, c, hbytes, hrun, hhead, rfl⟩, hreadable⟩
    rw [hentry] at hbytes
    cases hbytes
    have hcommitted := (readable_eq_true hstack (hemittable hrun hhead)).mp hreadable
    obtain ⟨word, lexer'', hsilent, hflush⟩ := hhead
    refine ⟨lexer', emitted, ?_, word, lexer'', c, hsilent, hflush, hcommitted⟩
    rw [tokenEffect, hrun, Option.map_some]

end ValidatedGrammar

namespace PreparedGrammar

variable {prepared : PreparedGrammar} {lexer : LexerState} {stack : List ParserStateId}
  {tokens : List TokenId} {token : TokenId}

/-- **The ordinary tokens of a mask** are those that the checker reads. -/
theorem Sound.mem_mask_ordinary (hsound : prepared.Sound) {bytes : List UInt8}
    (hlexer : lexer.Valid prepared.grammar.lexer) (hstack : prepared.grammar.lalr.ValidStack stack)
    (h : prepared.maskTokens lexer stack = .ok tokens)
    (hentry : prepared.grammar.token token = some (.bytes bytes)) :
    token ∈ tokens ↔ prepared.grammar.ReadsOrdinary lexer stack token := by
  obtain ⟨-, -, hmem⟩ := maskTokens_eq_ok h
  have hend : prepared.eosTokenAnswer lexer stack token = .ok false := by
    unfold eosTokenAnswer effectOf
    rw [hentry, Option.bind_some, ValidatedGrammar.tokenEffect]
    cases prepared.grammar.scanner.run lexer bytes <;> rfl
  rw [ValidatedGrammar.readsOrdinary_iff hlexer hstack hentry, ← hsound.exists_bucket_iff hlexer,
    hmem, hend]
  refine ⟨fun h => ?_, Or.inl⟩
  rcases h with hread | ⟨_, hfalse⟩
  · exact hread
  · cases hfalse

/-- **The EOS tokens of a mask** are those that the checker reads. -/
theorem Sound.mem_mask_eos (hsound : prepared.Sound)
    (hlexer : lexer.Valid prepared.grammar.lexer) (hstack : prepared.grammar.lalr.ValidStack stack)
    (h : prepared.maskTokens lexer stack = .ok tokens)
    (hentry : prepared.grammar.token token = some .eos) :
    token ∈ tokens ↔ prepared.grammar.ReadsEos lexer stack token := by
  obtain ⟨-, -, hmem⟩ := maskTokens_eq_ok h
  have hbucket : ¬ ∃ bucket ∈ prepared.inverseRow lexer, token ∈ bucket.tokens ∧
      prepared.bucketAnswer stack bucket = .ok true := by
    rw [hsound.exists_bucket_iff hlexer]
    rintro ⟨_, ⟨bytes, _, _, _, hbytes, -⟩, -⟩
    rw [hentry] at hbytes
    cases hbytes
  have htoken : token < prepared.grammar.tokenCount :=
    prepared.grammar.token_isSome.mp (by rw [hentry]; rfl)
  have heffect : prepared.effectOf lexer token = (prepared.grammar.scanner.flush lexer).map
      fun label => .finished label.toList prepared.grammar.lalr.eofTerminal := by
    rw [effectOf, hentry, Option.bind_some, ValidatedGrammar.tokenEffect]
  unfold ValidatedGrammar.ReadsEos
  rw [hmem, ValidatedGrammar.executeToken_eq hlexer hentry, ValidatedGrammar.tokenEffect,
    eosTokenAnswer, heffect]
  cases hflush : prepared.grammar.scanner.flush lexer with
  | none =>
    constructor
    · rintro (h | ⟨-, h⟩)
      · exact absurd h hbucket
      · cases h
    · rintro ⟨_, _, h, -⟩
      cases h
  | some label =>
    have hanswer := eosAnswer_eq_true hstack (ValidatedGrammar.scanner_flush_emittable hflush)
    constructor
    · rintro (h | ⟨-, h⟩)
      · exact absurd h hbucket
      · exact ⟨_, _, rfl, hanswer.mp h⟩
    · rintro ⟨_, _, h, haccepted⟩
      cases h
      exact Or.inr ⟨htoken, hanswer.mpr haccepted⟩

theorem Sound.lt_of_mem_mask (hsound : prepared.Sound)
    (hlexer : lexer.Valid prepared.grammar.lexer)
    (h : prepared.maskTokens lexer stack = .ok tokens) (htoken : token ∈ tokens) :
    token < prepared.grammar.tokenCount := by
  obtain ⟨-, -, hmem⟩ := maskTokens_eq_ok h
  rcases (hmem token).mp htoken with ⟨bucket, hbucket, hin, -⟩ | ⟨hlt, -⟩
  · exact (hsound.effectOf_bucket hlexer hbucket hin).1
  · exact hlt

/-- **The bits of a mask.** -/
theorem Sound.bit_packMask (hsound : prepared.Sound) {length : ℕ}
    (hlexer : lexer.Valid prepared.grammar.lexer)
    (h : prepared.maskTokens lexer stack = .ok tokens) (hlength : prepared.maskBytes ≤ length)
    (token : TokenId) :
    PackedBits.bit (packMask length tokens) token = true ↔ token ∈ tokens := by
  have hbytes : ∀ t ∈ tokens, t / 8 < (List.replicate length (0 : UInt8)).length := by
    intro t ht
    rw [List.length_replicate]
    exact hsound.byte_lt (hsound.lt_of_mem_mask hlexer h ht) hlength
  rw [packMask, PackedBits.bit_foldl_insert hbytes, PackedBits.bit_zero]
  exact ⟨fun h => h.resolve_left Bool.false_ne_true, Or.inr⟩

theorem maskRow_running {length : ℕ} :
    prepared.maskRow length ⟨.running lexer, stack⟩ = .ok tokens ↔
      prepared.maskBytes ≤ length ∧ prepared.maskTokens lexer stack = .ok tokens ∧ tokens ≠ [] := by
  simp only [maskRow]
  by_cases hlength : length < prepared.maskBytes
  · rw [if_pos hlength]
    exact ⟨fun h => (by cases h), fun h => absurd h.1 (Nat.not_le.mpr hlength)⟩
  · rw [if_neg hlength]
    cases hmask : prepared.maskTokens lexer stack with
    | error e => exact ⟨fun h => (by cases h), fun h => (by cases h.2.1)⟩
    | ok found =>
      cases found with
      | nil =>
        constructor
        · intro h
          cases h
        · rintro ⟨-, h, hne⟩
          cases h
          exact absurd rfl hne
      | cons token found =>
        constructor
        · intro h
          cases h
          exact ⟨Nat.not_lt.mp hlength, rfl, List.cons_ne_nil _ _⟩
        · rintro ⟨-, h, -⟩
          cases h
          rfl

/-- A dead end is a row whose mask is found empty. -/
theorem Sound.maskRow_noValidToken (hsound : prepared.Sound) {length : ℕ}
    (hlexer : lexer.Valid prepared.grammar.lexer) (hlength : prepared.maskBytes ≤ length) :
    prepared.maskRow length ⟨.running lexer, stack⟩ = .error .noValidToken ↔
      prepared.maskTokens lexer stack = .ok [] := by
  simp only [maskRow, if_neg (Nat.not_lt.mpr hlength)]
  cases hmask : prepared.maskTokens lexer stack with
  | error e =>
    rw [hsound.maskTokens_corrupt hlexer hmask]
    exact ⟨fun h => (by cases h), fun h => (by cases h)⟩
  | ok found =>
    cases found with
    | nil => exact ⟨fun _ => rfl, fun _ => rfl⟩
    | cons token found => exact ⟨fun h => (by cases h), fun h => (by cases h)⟩

/-! ## One token -/

theorem allowsRow_running (htoken : token < prepared.grammar.tokenCount) :
    prepared.allowsRow ⟨.running lexer, stack⟩ token =
      (prepared.rowAfter lexer stack token).map Option.isSome := by
  simp only [allowsRow, if_neg (Nat.not_le.mpr htoken)]

theorem advanceRow_running (htoken : token < prepared.grammar.tokenCount) :
    prepared.advanceRow ⟨.running lexer, stack⟩ token =
      match prepared.rowAfter lexer stack token with
      | .error error => .error error
      | .ok none => .error (.constraintViolation token)
      | .ok (some status') => .ok (status'.result, status') := by
  have hrow : prepared.advanceRow ⟨.running lexer, stack⟩ token =
      if token ≥ prepared.grammar.tokenCount then .error (.invalidToken token) else
        match prepared.rowAfter lexer stack token with
        | .error error => .error error
        | .ok none => .error (.constraintViolation token)
        | .ok (some status') => .ok (status'.result, status') := rfl
  exact hrow.trans (if_neg (Nat.not_le.mpr htoken))

end PreparedGrammar

namespace Matcher

variable {matcher : Matcher} {row : ℕ} {lexer : LexerState} {stack : List ParserStateId}

/-- What `mask` writes when it succeeds, whatever the allocator did. -/
theorem Invariant.mask_written (hm : matcher.Invariant) {status : MatcherStatus}
    (hrow : matcher.states[row]? = some status) {output : List UInt8} {memory : Memory}
    (h : (matcher.mask row output memory).1 = .ok ()) :
    ∃ tokens, matcher.prepared.maskRow output.length status = .ok tokens ∧
      (matcher.mask row output memory).2.1 = PreparedGrammar.packMask output.length tokens := by
  have hanswer := (hm.call_answered memory (.mask row output)).answer
  simp only [Matcher.call] at hanswer
  rcases hout : matcher.mask row output memory with ⟨reply, written, matcher', memory'⟩
  rw [hout] at hanswer h
  obtain rfl : reply = .ok () := h
  rcases hanswer with ⟨hrespond, -⟩ | ⟨-, ⟨requested, hrefused⟩, -⟩
  · simp only [PreparedGrammar.respond, hrow] at hrespond
    cases hmask : matcher.prepared.maskRow output.length status with
    | error e =>
      rw [hmask] at hrespond
      cases congrArg (fun out => out.1.value) hrespond
    | ok tokens =>
      rw [hmask] at hrespond
      exact ⟨tokens, rfl, congrArg (fun out => out.1.written) hrespond⟩
  · cases hrefused

/-- **The packed mask is the finite-head checker.**  When `mask` succeeds on a running
row, the bit of an ordinary token is set exactly when the checker reads the token, the
bit of an EOS token exactly when the checker accepts the end, and every other bit of
the buffer is clear. -/
theorem mask_refines_head_checker (h : matcher.Reachable)
    (hrow : matcher.states[row]? = some ⟨.running lexer, stack⟩) {output : List UInt8}
    {memory : Memory} (hok : (matcher.mask row output memory).1 = .ok ()) :
    (matcher.mask row output memory).2.1.length = output.length ∧
      (∀ token bytes, matcher.prepared.grammar.token token = some (.bytes bytes) →
        (PackedBits.bit (matcher.mask row output memory).2.1 token = true ↔
          matcher.prepared.grammar.ReadsOrdinary lexer stack token)) ∧
      (∀ token, matcher.prepared.grammar.token token = some .eos →
        (PackedBits.bit (matcher.mask row output memory).2.1 token = true ↔
          matcher.prepared.grammar.ReadsEos lexer stack token)) ∧
      ∀ token ≥ matcher.prepared.grammar.tokenCount,
        PackedBits.bit (matcher.mask row output memory).2.1 token = false := by
  have hm := h.invariant
  obtain ⟨hlexer, hstack⟩ : lexer.Valid matcher.prepared.grammar.lexer ∧
      matcher.prepared.grammar.lalr.ValidStack stack := hm.rows _ (List.mem_of_getElem? hrow)
  obtain ⟨tokens, hmask, hwritten⟩ := hm.mask_written hrow hok
  obtain ⟨hlength, htokens, -⟩ := PreparedGrammar.maskRow_running.mp hmask
  have hbit := hm.sound.bit_packMask hlexer htokens hlength
  rw [hwritten]
  refine ⟨PreparedGrammar.length_packMask _ _, fun token bytes hentry => ?_,
    fun token hentry => ?_, fun token htoken => ?_⟩
  · exact (hbit token).trans (hm.sound.mem_mask_ordinary hlexer hstack htokens hentry)
  · exact (hbit token).trans (hm.sound.mem_mask_eos hlexer hstack htokens hentry)
  · rw [← Bool.not_eq_true, hbit]
    intro hin
    exact Nat.not_lt.mpr htoken (hm.sound.lt_of_mem_mask hlexer htokens hin)

/-- The first mask of the lists of `a`, in a buffer with a byte to spare. -/
theorem mask_refines_head_checker_reusableStack :
    (reusableStackMatcher.mask 0 [0, 255] .granting).2.1.length = 2 ∧
      (∀ token bytes, reusableStackMatcher.prepared.grammar.token token = some (.bytes bytes) →
        (PackedBits.bit (reusableStackMatcher.mask 0 [0, 255] .granting).2.1 token = true ↔
          reusableStackMatcher.prepared.grammar.ReadsOrdinary .start
            [reusableStackPrepared.grammar.lalr.startState] token)) ∧
      (∀ token, reusableStackMatcher.prepared.grammar.token token = some .eos →
        (PackedBits.bit (reusableStackMatcher.mask 0 [0, 255] .granting).2.1 token = true ↔
          reusableStackMatcher.prepared.grammar.ReadsEos .start
            [reusableStackPrepared.grammar.lalr.startState] token)) ∧
      ∀ token ≥ reusableStackMatcher.prepared.grammar.tokenCount,
        PackedBits.bit (reusableStackMatcher.mask 0 [0, 255] .granting).2.1 token = false :=
  mask_refines_head_checker reusableStackMatcher_reachable rfl (by
    rw [reusableStackMatcher_eq]
    decide +kernel)

/-- **`mask`, `allows` and `advance` are one relation.**  When the mask of a running row
can be written, the bit of a token is set exactly when `allows` answers `true`, which is
when `advance` succeeds; and it is clear exactly when `allows` answers `false`, which is
when `advance` reports a violation.  The mask fails with `NoValidToken` exactly when
`allows` answers `false` on every token. -/
theorem mask_allows_advance_agree (h : matcher.Reachable)
    (hrow : matcher.states[row]? = some ⟨.running lexer, stack⟩) {output : List UInt8}
    (hlength : matcher.maskBytes ≤ output.length) :
    ((matcher.mask row output .granting).1 = .ok () →
      ∀ token < matcher.prepared.grammar.tokenCount,
        ((PackedBits.bit (matcher.mask row output .granting).2.1 token = true ↔
            (matcher.allows row token .granting).1 = .ok true) ∧
          ((matcher.allows row token .granting).1 = .ok true ↔
            ∃ result, (matcher.advance row token .granting).1 = .ok result)) ∧
        (PackedBits.bit (matcher.mask row output .granting).2.1 token = false ↔
            (matcher.allows row token .granting).1 = .ok false) ∧
          ((matcher.allows row token .granting).1 = .ok false ↔
            (matcher.advance row token .granting).1 = .error (.constraintViolation token))) ∧
    ((matcher.mask row output .granting).1 = .error .noValidToken ↔
      ∀ token < matcher.prepared.grammar.tokenCount,
        (matcher.allows row token .granting).1 = .ok false) := by
  have hm := h.invariant
  obtain ⟨hlexer, -⟩ : lexer.Valid matcher.prepared.grammar.lexer ∧
      matcher.prepared.grammar.lalr.ValidStack stack := hm.rows _ (List.mem_of_getElem? hrow)
  have hallows : ∀ token < matcher.prepared.grammar.tokenCount,
      (matcher.allows row token .granting).1 =
        (matcher.prepared.rowAfter lexer stack token).map Option.isSome := fun token htoken => by
    rw [hm.allows_granting hrow token, PreparedGrammar.allowsRow_running htoken]
  constructor
  · intro hok token htoken
    obtain ⟨tokens, hmask, hwritten⟩ := hm.mask_written hrow hok
    obtain ⟨-, htokens, -⟩ := PreparedGrammar.maskRow_running.mp hmask
    obtain ⟨after, hafter, hin⟩ := hm.sound.rowAfter_of_maskTokens hlexer htokens htoken
    have hbit := hm.sound.bit_packMask hlexer htokens hlength token
    obtain ⟨matcher', -, -, hadvance, -⟩ := hm.advance_granting hrow token
    rw [PreparedGrammar.advanceRow_running htoken, hafter] at hadvance
    rw [hwritten, hallows token htoken, hafter, ← Bool.not_eq_true, hbit, ← hin, hadvance]
    cases after with
    | none => simp [Except.map]
    | some status' => simp [Except.map]
  · obtain ⟨matcher', -, -, hmask, -⟩ := hm.mask_granting hrow output
    rw [hmask, map_eq_error, hm.sound.maskRow_noValidToken hlexer hlength]
    constructor
    · intro hnil token htoken
      obtain ⟨after, hafter, hin⟩ := hm.sound.rowAfter_of_maskTokens hlexer hnil htoken
      rw [hallows token htoken, hafter]
      cases after with
      | none => rfl
      | some status' => exact absurd (hin.mp rfl) List.not_mem_nil
    · intro hall
      refine hm.sound.maskTokens_nil hlexer fun token htoken => ?_
      have hnone := hall token htoken
      rw [hallows token htoken] at hnone
      obtain ⟨after, hafter, hsome⟩ := map_eq_ok.mp hnone
      cases after with
      | none => exact hafter
      | some status' => cases hsome

/-- At the start of the lists of `a`. -/
theorem mask_allows_advance_agree_reusableStack :
    ((reusableStackMatcher.mask 0 [0] .granting).1 = .ok () →
      ∀ token < reusableStackMatcher.prepared.grammar.tokenCount,
        ((PackedBits.bit (reusableStackMatcher.mask 0 [0] .granting).2.1 token = true ↔
            (reusableStackMatcher.allows 0 token .granting).1 = .ok true) ∧
          ((reusableStackMatcher.allows 0 token .granting).1 = .ok true ↔
            ∃ result, (reusableStackMatcher.advance 0 token .granting).1 = .ok result)) ∧
        (PackedBits.bit (reusableStackMatcher.mask 0 [0] .granting).2.1 token = false ↔
            (reusableStackMatcher.allows 0 token .granting).1 = .ok false) ∧
          ((reusableStackMatcher.allows 0 token .granting).1 = .ok false ↔
            (reusableStackMatcher.advance 0 token .granting).1 =
              .error (.constraintViolation token))) ∧
    ((reusableStackMatcher.mask 0 [0] .granting).1 = .error .noValidToken ↔
      ∀ token < reusableStackMatcher.prepared.grammar.tokenCount,
        (reusableStackMatcher.allows 0 token .granting).1 = .ok false) :=
  mask_allows_advance_agree reusableStackMatcher_reachable
    (rfl : reusableStackMatcher.states[0]? =
      some ⟨.running .start, [reusableStackPrepared.grammar.lalr.startState]⟩)
    (by
      rw [reusableStackMatcher_eq]
      decide)

end Matcher
end GreatGramma
