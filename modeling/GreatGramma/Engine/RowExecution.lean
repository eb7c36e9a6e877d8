import GreatGramma.Engine.Rows

/-!
# The engine computes rows

The functions of the engine that work on one row, on borrowed buffers and with an allocator that
may refuse, compute the functions of `Engine.Rows`.  Each is stated as one call that settles: if
no reservation is refused the reply is the row's, and what the caller may read of the buffers
afterwards is determined; nothing else about the buffers matters, in particular not what they held
before.

## Tokens

To take an ordinary token the engine looks for it in the buckets of its inverse row, and only then
executes the terminals that it emits.  The search decides whether the token is allowed; an
execution that does not go on afterwards is reported as corrupt data.  It does go on: an allowed
token has a readable head that begins with what the token emits (`Sound.parse_of_tokenAnswer`).
An EOS token is a flush of the lexer with EOF behind it, and is executed at once.

## Masks

A mask is filled by two sweeps over bit sets.  The first goes through the buckets, decides each
head once, and inserts all tokens of the bucket or none; the second goes through the EOS tokens.
Together they insert exactly the tokens of the readable buckets and the accepted EOS tokens
(`Sound.fillMaskWithScratch_settles`).  Both only set bits, so what is said of a sweep is said of
the set of bits that the buffer holds behind it, and every index is within the buffer because a
mask has a byte for every token (`Sound.byte_lt`).
-/

namespace GreatGramma

open Reservation ShiftReduce Traversal

/-- A row of a matcher: a running one has a lexer state and a stack of the tables, an
accepted one has no stack left. -/
def MatcherStatus.Valid (grammar : ValidatedGrammar) (status : MatcherStatus) : Prop :=
  match status.phase with
  | .running lexer => lexer.Valid grammar.lexer ∧ grammar.lalr.ValidStack status.parserStack
  | .accepted => status.parserStack = []

theorem MatcherStatus.Valid.eq_empty {grammar : ValidatedGrammar} {status : MatcherStatus}
    (h : status.Valid grammar) (haccepted : status.phase = .accepted) :
    status = MatcherStatus.empty := by
  obtain ⟨phase, stack⟩ := status
  obtain rfl : phase = .accepted := haccepted
  obtain rfl : stack = [] := h
  rfl

/-- The row that a decision leads to, with the stack left in the buffer. -/
def TokenDecision.status (stack : List ParserStateId) : TokenDecision → Option MatcherStatus
  | .rejected => none
  | .continue lexer => some ⟨.running lexer, stack⟩
  | .accepted => some .empty

theorem ValidatedLalr.parse_singleton_accepted {lalr : ValidatedLalr}
    {stack : List ParserStateId} {t : TerminalId} {rest : List TerminalId}
    (h : lalr.table.parse stack [t] = .accepted rest) : rest = [] := by
  rw [Table.parse_cons] at h
  split at h
  · cases h
  · split at h <;> cases h
    rfl

namespace PreparedGrammar

variable {prepared : PreparedGrammar}

/-! ## Tokens -/

theorem Sound.tokenExecution_effectOf (hsound : prepared.Sound) {lexer : LexerState}
    {token : TokenId} (hlexer : lexer.Valid prepared.grammar.lexer)
    (htoken : token < prepared.grammar.tokenCount) :
    prepared.spanner.tokenExecution lexer token = .ok (prepared.effectOf lexer token) := by
  obtain ⟨entry, hentry⟩ := Option.isSome_iff_exists.mp (prepared.grammar.token_isSome.mpr htoken)
  rw [hsound.tokenExecution_eq hlexer hentry, effectOf, hentry, Option.bind_some]

/-- **What a token can do**: an ordinary token is a run of the scanner, an EOS token
a flush. -/
theorem effectOf_cases {lexer : LexerState} {token : TokenId} {execution : TokenExecution}
    (h : prepared.effectOf lexer token = some execution) :
    (∃ bytes lexer' emitted, prepared.grammar.token token = some (.bytes bytes) ∧
      prepared.grammar.scanner.run lexer bytes = some (lexer', emitted) ∧
      execution = .continue lexer' emitted) ∨
    ∃ label, prepared.grammar.token token = some .eos ∧
      prepared.grammar.scanner.flush lexer = some label ∧
      execution = .finished label.toList prepared.grammar.lalr.eofTerminal := by
  obtain ⟨entry, hentry, heffect⟩ := Option.bind_eq_some_iff.mp h
  cases entry with
  | bytes bytes =>
    obtain ⟨⟨lexer', emitted⟩, hrun, rfl⟩ := Option.map_eq_some_iff.mp heffect
    exact Or.inl ⟨bytes, lexer', emitted, hentry, hrun, rfl⟩
  | eos =>
    obtain ⟨label, hflush, rfl⟩ := Option.map_eq_some_iff.mp heffect
    exact Or.inr ⟨label, hentry, hflush, rfl⟩

theorem effectOf_finished {lexer : LexerState} {token : TokenId} {emitted : List TerminalId}
    {eof : TerminalId} (h : prepared.effectOf lexer token = some (.finished emitted eof)) :
    eof = prepared.grammar.lalr.eofTerminal ∧ prepared.grammar.lalr.Emittable emitted := by
  rcases effectOf_cases h with ⟨_, _, _, -, -, heq⟩ | ⟨label, -, hflush, heq⟩
  · cases heq
  · cases heq
    exact ⟨rfl, ValidatedGrammar.scanner_flush_emittable hflush⟩

variable (prepared) in
/-- **The EOS flush.** -/
theorem evaluateEosInto_settles {stack : List ParserStateId} {emitted : List TerminalId}
    (hstack : prepared.grammar.lalr.ValidStack stack)
    (hemitted : prepared.grammar.lalr.Emittable emitted) (destination : Workspace) :
    Settles destination
      (fun reply _ => reply = (prepared.eosAnswer stack emitted).map fun accepted =>
        if accepted then .accepted else .rejected)
      (prepared.evaluateEosInto stack emitted prepared.grammar.lalr.eofTerminal destination) := by
  have heof : prepared.grammar.lalr.ValidTerminals [prepared.grammar.lalr.eofTerminal] :=
    fun t ht => List.mem_singleton.mp ht ▸ prepared.grammar.lalr.eofTerminal_lt
  have hleading := executeTerminalsConcreteInto_settles hstack hemitted.valid destination
  unfold evaluateEosInto eosAnswer
  rw [Table.parse_append]
  generalize executeTerminalsConcreteInto prepared.grammar.lalr stack emitted destination = out
    at hleading
  cases hleading with
  | refused hs he => exact .refused hs (refused_mapParserError he)
  | @done reply written h hs =>
    obtain ⟨rfl, hlive⟩ := h
    cases hparse : prepared.grammar.lalr.table.parse stack emitted with
    | rejected => exact .done rfl hs
    | fault f => exact .done rfl hs
    | accepted rest => exact absurd hparse (ValidatedLalr.parse_ne_accepted hstack hemitted)
    | live stack' =>
      obtain rfl := hlive stack' hparse
      have hend := executeTerminalsConcreteInPlace_settles written (hstack.parse hparse) heof
      simp only [ValidatedLalr.runReply]
      generalize executeTerminalsConcreteInPlace prepared.grammar.lalr written
        [prepared.grammar.lalr.eofTerminal] = out at hend
      refine .after hs ?_
      cases hend with
      | refused hs he => exact .refused hs (refused_mapParserError he)
      | done h hs =>
        obtain ⟨rfl, -⟩ := h
        cases hread : prepared.grammar.lalr.table.parse written.stack
            [prepared.grammar.lalr.eofTerminal] with
        | live stack'' => exact .done rfl hs
        | rejected => exact .done rfl hs
        | fault f => exact .done rfl hs
        | accepted rest =>
          obtain rfl := ValidatedLalr.parse_singleton_accepted hread
          exact .done rfl hs

/-! ## Buckets

The bucket of a head holds the tokens that realize it, and the search through the buckets may stop
at the first that answers `true`. -/

/-- A bucket of an inverse row lists its tokens under an interned head, and they
realize it. -/
theorem Sound.bucket_realizes (hsound : prepared.Sound) {lexer : LexerState}
    {bucket : InverseBucket} (hlexer : lexer.Valid prepared.grammar.lexer)
    (hbucket : bucket ∈ prepared.inverseRow lexer) :
    ∃ head, prepared.spanner.sequence bucket.sequence = some head ∧
      ∀ token ∈ bucket.tokens, prepared.grammar.Realizes lexer token head := by
  obtain ⟨hrow, hlists⟩ := hsound.inverseRow_exact hlexer
  obtain ⟨i, hi⟩ := List.mem_iff_getElem?.mp hbucket
  have hlt := (hrow i bucket hi).2
  refine ⟨_, List.getElem?_eq_getElem hlt, fun token htoken => ?_⟩
  exact (hlists _ token).mp ⟨i, bucket, hi, List.getElem?_eq_getElem hlt, htoken⟩

theorem Sound.exists_bucket (hsound : prepared.Sound) {lexer : LexerState} {token : TokenId}
    {head : List TerminalId} (hlexer : lexer.Valid prepared.grammar.lexer)
    (hrealizes : prepared.grammar.Realizes lexer token head) :
    ∃ bucket ∈ prepared.inverseRow lexer, token ∈ bucket.tokens ∧
      prepared.spanner.sequence bucket.sequence = some head := by
  obtain ⟨i, bucket, hi, hhead, htoken⟩ :=
    ((hsound.inverseRow_exact hlexer).2 head token).mpr hrealizes
  exact ⟨bucket, List.mem_of_getElem? hi, htoken, hhead⟩

theorem Sound.bucketSequence_settles (hsound : prepared.Sound) {lexer : LexerState}
    {stack : List ParserStateId} {bucket : InverseBucket}
    (hlexer : lexer.Valid prepared.grammar.lexer) (hstack : prepared.grammar.lalr.ValidStack stack)
    (hbucket : bucket ∈ prepared.inverseRow lexer) (scratch : Workspace) :
    Settles scratch (fun reply _ => reply = prepared.bucketAnswer stack bucket)
      (prepared.sequenceAllowedWithScratch stack bucket.sequence scratch) := by
  obtain ⟨head, hhead, -⟩ := hsound.bucket_realizes hlexer hbucket
  simp only [bucketAnswer, hhead]
  exact hsound.sequenceAllowedWithScratch_settles hstack hhead scratch

/-- **The search over the buckets of a row.** -/
theorem Sound.ordinaryTokenAllowedWithScratch_settles (hsound : prepared.Sound)
    {lexer : LexerState} {stack : List ParserStateId}
    (hlexer : lexer.Valid prepared.grammar.lexer) (hstack : prepared.grammar.lalr.ValidStack stack)
    (token : TokenId) (scratch : Workspace) :
    Settles scratch (fun reply _ => reply = prepared.tokenAnswer lexer stack token)
      (prepared.ordinaryTokenAllowedWithScratch lexer stack token scratch) := by
  simp only [ordinaryTokenAllowedWithScratch, hsound.inverseBuckets_eq hlexer, tokenAnswer]
  refine search_anyM (fun i hi scratch => ?_) scratch
  simp only [bucketAllowsToken, List.getElem?_eq_getElem hi, bucketSequenceForToken]
  cases (prepared.inverseRow lexer)[i].tokens.contains token with
  | false => exact .here rfl
  | true => exact hsound.bucketSequence_settles hlexer hstack (List.getElem_mem hi) scratch

/-- **An allowed token has a readable head.** -/
theorem Sound.exists_readable (hsound : prepared.Sound) {lexer : LexerState}
    {stack : List ParserStateId} {token : TokenId}
    (hlexer : lexer.Valid prepared.grammar.lexer)
    (h : prepared.tokenAnswer lexer stack token = .ok true) :
    ∃ head, prepared.grammar.Realizes lexer token head ∧
      prepared.grammar.lalr.readable stack head = .ok true := by
  obtain ⟨bucket, hbucket, hanswer⟩ := exists_of_anyM h
  obtain ⟨head, hhead, hrealizes⟩ := hsound.bucket_realizes hlexer hbucket
  split_ifs at hanswer with hcontains
  · refine ⟨head, hrealizes token (List.contains_iff_mem.mp hcontains), ?_⟩
    simp only [bucketAnswer, hhead, headAnswer] at hanswer
    cases hreadable : prepared.grammar.lalr.readable stack head with
    | error e =>
      rw [hreadable] at hanswer
      cases hanswer
    | ok taken =>
      rw [hreadable] at hanswer
      cases hanswer
      rfl
  · cases hanswer

theorem parse_of_readable {lalr : ValidatedLalr} {stack : List ParserStateId}
    {direct : List TerminalId} {c : TerminalId} (hstack : lalr.ValidStack stack)
    (hdirect : lalr.Emittable direct) (h : lalr.readable stack (direct ++ [c]) = .ok true) :
    ∃ stack', lalr.table.parse stack direct = .live stack' ∧
      lalr.readable stack' [c] = .ok true := by
  rw [readable_append] at h
  cases hparse : lalr.table.parse stack direct with
  | live stack' =>
    rw [hparse] at h
    exact ⟨stack', rfl, h⟩
  | accepted rest => exact absurd hparse (ValidatedLalr.parse_ne_accepted hstack hdirect)
  | rejected =>
    rw [hparse] at h
    cases h
  | fault f =>
    rw [hparse] at h
    cases h

/-- **Executing what an allowed token emits goes on.** -/
theorem Sound.parse_of_tokenAnswer (hsound : prepared.Sound) {lexer lexer' : LexerState}
    {stack : List ParserStateId} {token : TokenId} {emitted : List TerminalId}
    (hlexer : lexer.Valid prepared.grammar.lexer) (hstack : prepared.grammar.lalr.ValidStack stack)
    (heffect : prepared.effectOf lexer token = some (.continue lexer' emitted))
    (h : prepared.tokenAnswer lexer stack token = .ok true) :
    prepared.grammar.lalr.table.parse stack emitted =
      .live (prepared.stackAfter stack emitted) := by
  obtain ⟨head, ⟨bytes, state', em, c, hbytes, hrun, hhead, rfl⟩, hreadable⟩ :=
    hsound.exists_readable hlexer h
  rcases effectOf_cases heffect with ⟨bytes', _, _, hbytes', hrun', heq⟩ | ⟨_, _, _, heq⟩
  · cases heq
    rw [hbytes] at hbytes'
    cases hbytes'
    rw [hrun] at hrun'
    cases hrun'
    obtain ⟨stack', hlive, -⟩ :=
      parse_of_readable hstack (ValidatedGrammar.scanner_run_emittable hrun) hreadable
    rw [stackAfter, hlive]
  · cases heq

/-! ## One token -/

/-- **What a token does to a row**, computed in a destination buffer. -/
theorem Sound.evaluateTokenInto_settles (hsound : prepared.Sound) {lexer : LexerState}
    {stack : List ParserStateId} {token : TokenId}
    (hlexer : lexer.Valid prepared.grammar.lexer) (hstack : prepared.grammar.lalr.ValidStack stack)
    (htoken : token < prepared.grammar.tokenCount) (destination : Workspace) :
    Settles destination
      (fun reply written =>
        reply.map (TokenDecision.status written.stack) = prepared.rowAfter lexer stack token)
      (prepared.evaluateTokenInto lexer stack token destination) := by
  unfold evaluateTokenInto rowAfter
  rw [hsound.tokenExecution_effectOf hlexer htoken]
  cases heffect : prepared.effectOf lexer token with
  | none => exact .here rfl
  | some execution =>
    cases execution with
    | «continue» lexer' emitted =>
      have hallowed :=
        hsound.ordinaryTokenAllowedWithScratch_settles hlexer hstack token destination
      dsimp only
      generalize prepared.ordinaryTokenAllowedWithScratch lexer stack token destination = out
        at hallowed
      cases hallowed with
      | refused hs he => exact .refused hs he
      | @done reply scratch h hs =>
        subst h
        cases hanswer : prepared.tokenAnswer lexer stack token with
        | error e => exact .done rfl hs
        | ok allowed =>
          cases allowed with
          | false => exact .done rfl hs
          | true =>
            have hlive := hsound.parse_of_tokenAnswer hlexer hstack heffect hanswer
            have hvalid : prepared.grammar.lalr.ValidTerminals emitted := by
              rcases effectOf_cases heffect with ⟨_, _, _, -, hrun, heq⟩ | ⟨_, _, _, heq⟩ <;>
                cases heq
              exact (ValidatedGrammar.scanner_run_emittable hrun).valid
            have hleading := executeTerminalsConcreteInto_settles hstack hvalid scratch
            dsimp only
            generalize executeTerminalsConcreteInto prepared.grammar.lalr stack emitted scratch
              = out at hleading
            refine .after hs ?_
            cases hleading with
            | refused hs he => exact .refused hs (refused_mapParserError he)
            | done h hs =>
              obtain ⟨rfl, hwritten⟩ := h
              rw [hlive, ← hwritten _ hlive]
              exact .done rfl hs
    | finished emitted eof =>
      obtain ⟨rfl, hemitted⟩ := effectOf_finished heffect
      have heos := prepared.evaluateEosInto_settles hstack hemitted destination
      simp only [ne_eq, not_true_eq_false, if_false]
      refine heos.mono fun reply written h => ?_
      rw [h]
      cases prepared.eosAnswer stack emitted with
      | error e => rfl
      | ok accepted => cases accepted <;> rfl

/-- **Asking one row about one token.** -/
theorem Sound.allowsStatus_settles (hsound : prepared.Sound) {status : MatcherStatus}
    (hstatus : status.Valid prepared.grammar) (token : TokenId) (memory : Memory) :
    Settles memory (fun reply _ => reply = prepared.allowsRow status token)
      (prepared.allowsStatus status token memory) := by
  obtain ⟨phase, stack⟩ := status
  cases phase with
  | accepted => exact .here rfl
  | running lexer =>
    obtain ⟨hlexer, hstack⟩ := hstatus
    simp only [allowsStatus, allowsRow, runningLexer, checkToken]
    by_cases htoken : token ≥ prepared.grammar.tokenCount
    · rw [if_pos htoken, if_pos htoken]
      exact .here rfl
    · have hone :=
        hsound.evaluateTokenInto_settles hlexer hstack (Nat.not_le.mp htoken) ⟨[], memory⟩
      rw [if_neg htoken, if_neg htoken]
      dsimp only
      generalize prepared.evaluateTokenInto lexer stack token ⟨[], memory⟩ = out at hone
      cases hone with
      | refused hs he => exact .refused hs he
      | @done reply written h hs =>
        rw [← h]
        cases reply with
        | error e => exact .done rfl hs
        | ok decision => cases decision <;> exact .done rfl hs

/-- **Advancing one row by one token**, into a recycled slot. -/
theorem Sound.nextStatusInto_settles (hsound : prepared.Sound) {status : MatcherStatus}
    (hstatus : status.Valid prepared.grammar) (token : TokenId)
    (destination : MatcherStatus × Memory) :
    Settles destination
      (fun reply written => match prepared.advanceRow status token with
        | .error e => reply = .error e
        | .ok (result, status') => reply = .ok result ∧ written.1 = status')
      (prepared.nextStatusInto status token destination) := by
  obtain ⟨phase, stack⟩ := status
  cases phase with
  | accepted => exact .here rfl
  | running lexer =>
    obtain ⟨hlexer, hstack⟩ := hstatus
    simp only [nextStatusInto, advanceRow, runningLexer, checkToken]
    by_cases htoken : token ≥ prepared.grammar.tokenCount
    · rw [if_pos htoken, if_pos htoken]
      exact .here rfl
    · have hone := hsound.evaluateTokenInto_settles hlexer hstack (Nat.not_le.mp htoken)
        ⟨destination.1.parserStack, destination.2⟩
      rw [if_neg htoken, if_neg htoken]
      dsimp only
      generalize prepared.evaluateTokenInto lexer stack token
        ⟨destination.1.parserStack, destination.2⟩ = out at hone
      cases hone with
      | refused hs he => exact .refused hs he
      | @done reply written h hs =>
        rw [← h]
        cases reply with
        | error e => exact .done rfl hs
        | ok decision =>
          cases decision with
          | rejected => exact .done rfl hs
          | «continue» lexer' => exact .done ⟨rfl, rfl⟩ hs
          | accepted => exact .done ⟨rfl, rfl⟩ hs

/-! ## Masks -/

theorem Sound.byte_lt (hsound : prepared.Sound) {token length : ℕ}
    (htoken : token < prepared.grammar.tokenCount) (hlength : prepared.maskBytes ≤ length) :
    token / 8 < length := by
  have hbytes := hsound.maskBytes
  omega

theorem mask_set_eq {output : List UInt8} {token : TokenId} (h : token / 8 < output.length) :
    Mask.set output token = (.ok (), PackedBits.insert output token) := by
  simp only [Mask.set, PackedBits.insert, List.getElem?_eq_getElem h, Option.getD_some]

theorem fillBucketToken_settles {bucket : InverseBucket} {tokenIndex : ℕ} {buffers : MaskBuffers}
    (hindex : tokenIndex < bucket.tokens.length)
    (hbyte : bucket.tokens[tokenIndex] / 8 < buffers.output.length) :
    Settles buffers
      (fun reply written => reply = .ok true ∧
        written.output = PackedBits.insert buffers.output bucket.tokens[tokenIndex])
      (fillBucketToken bucket tokenIndex buffers) := by
  simp only [fillBucketToken, List.getElem?_eq_getElem hindex, mask_set_eq hbyte]
  exact .done ⟨rfl, rfl⟩ (.refl _)

/-- **One bucket**: all of its tokens, or nothing. -/
theorem Sound.fillBucketMask_settles (hsound : prepared.Sound) {lexer : LexerState}
    {stack : List ParserStateId} {bucket : InverseBucket} {length : ℕ}
    (hlexer : lexer.Valid prepared.grammar.lexer) (hstack : prepared.grammar.lalr.ValidStack stack)
    (hbucket : bucket ∈ prepared.inverseRow lexer) (hlength : prepared.maskBytes ≤ length)
    {buffers : MaskBuffers} (hbuffers : buffers.output.length = length) :
    Settles buffers
      (fun reply written => reply = prepared.bucketAnswer stack bucket ∧
        written.output.length = length ∧ ∀ answer, reply = .ok answer →
          written.output = if answer then bucket.tokens.foldl PackedBits.insert buffers.output
            else buffers.output)
      (prepared.fillBucketMask stack bucket buffers) := by
  have hanswer := hsound.bucketSequence_settles hlexer hstack hbucket buffers.scratch
  unfold fillBucketMask
  generalize prepared.sequenceAllowedWithScratch stack bucket.sequence buffers.scratch = out
    at hanswer
  cases hanswer with
  | refused hs he => exact .refused hs he
  | @done reply scratch h hs =>
    subst h
    cases prepared.bucketAnswer stack bucket with
    | error e => exact .done ⟨rfl, hbuffers, fun answer h => by cases h⟩ hs
    | ok allowed =>
      cases allowed with
      | false => exact .done ⟨rfl, hbuffers, fun answer h => by cases h; rfl⟩ hs
      | true =>
        obtain ⟨head, -, hrealizes⟩ := hsound.bucket_realizes hlexer hbucket
        have hbytes : ∀ token ∈ bucket.tokens, token / 8 < length := by
          intro token htoken
          obtain ⟨bytes, _, _, _, hentry, -⟩ := hrealizes token htoken
          refine hsound.byte_lt (prepared.grammar.token_isSome.mp ?_) hlength
          rw [hentry]
          rfl
        have hne : bucket.tokens ≠ [] := by
          obtain ⟨i, hi⟩ := List.mem_iff_getElem?.mp hbucket
          exact ((hsound.inverseRow_exact hlexer).1 i bucket hi).1
        refine .after (t := { buffers with scratch }) hs ?_
        refine (sweep_select (fun _ => .ok true) MaskBuffers.output PackedBits.insert
          (fun output => output.length = length) rfl ?_ { buffers with scratch } hbuffers).mono ?_
        · intro i hi written hwritten
          refine (fillBucketToken_settles hi ?_).mono ?_
          · rw [hwritten]
            exact hbytes _ (List.getElem_mem hi)
          · rintro reply written' ⟨rfl, houtput⟩
            refine ⟨rfl, ?_, fun answer h => ?_⟩
            · rw [houtput, PackedBits.length_insert, hwritten]
            · cases h
              rw [houtput, if_pos rfl]
        · rintro reply written ⟨rfl, hwritten, houtput⟩
          rw [select_all]
          refine ⟨?_, hwritten, fun answer h => ?_⟩
          · cases htokens : bucket.tokens with
            | nil => exact absurd htokens hne
            | cons token tokens => rfl
          · have htrue : answer = true := by
              cases htokens : bucket.tokens with
              | nil => exact absurd htokens hne
              | cons token tokens =>
                rw [htokens] at h
                cases h
                rfl
            rw [htrue, if_pos rfl, houtput _ (select_all _)]

/-- **The ordinary part of a mask**: the tokens of the readable buckets. -/
theorem Sound.fillOrdinaryMask_settles (hsound : prepared.Sound) {lexer : LexerState}
    {stack : List ParserStateId} {length : ℕ}
    (hlexer : lexer.Valid prepared.grammar.lexer) (hstack : prepared.grammar.lalr.ValidStack stack)
    (hlength : prepared.maskBytes ≤ length)
    (buffers : MaskBuffers) (hbuffers : buffers.output.length = length) :
    Settles buffers
      (fun reply written =>
        reply = (select (prepared.bucketAnswer stack) (prepared.inverseRow lexer)).map
          (fun buckets => !buckets.isEmpty) ∧
        written.output.length = length ∧ ∀ buckets,
          select (prepared.bucketAnswer stack) (prepared.inverseRow lexer) = .ok buckets →
          written.output =
            (buckets.flatMap InverseBucket.tokens).foldl PackedBits.insert buffers.output)
      (prepared.fillOrdinaryMask stack (prepared.inverseRow lexer) buffers) := by
  refine (sweep_select (prepared.bucketAnswer stack) MaskBuffers.output
    (fun output (bucket : InverseBucket) => bucket.tokens.foldl PackedBits.insert output)
    (fun output => output.length = length) rfl ?_ buffers hbuffers).mono ?_
  · intro i hi written hwritten
    simp only [fillBucketAt, List.getElem?_eq_getElem hi]
    exact hsound.fillBucketMask_settles hlexer hstack (List.getElem_mem hi) hlength hwritten
  · rintro reply written ⟨rfl, hwritten, houtput⟩
    refine ⟨rfl, hwritten, fun buckets hbuckets => ?_⟩
    rw [houtput buckets hbuckets, List.foldl_flatMap]

/-- **The EOS part of a mask**: the accepted EOS tokens. -/
theorem Sound.fillEosMask_settles (hsound : prepared.Sound) {lexer : LexerState}
    {stack : List ParserStateId} {length : ℕ}
    (hlexer : lexer.Valid prepared.grammar.lexer) (hstack : prepared.grammar.lalr.ValidStack stack)
    (hlength : prepared.maskBytes ≤ length)
    {buffers : MaskBuffers} (hbuffers : buffers.output.length = length) :
    Settles buffers
      (fun reply written =>
        reply = (select (prepared.eosTokenAnswer lexer stack)
          (List.range prepared.grammar.tokenCount)).map (fun ends => !ends.isEmpty) ∧
        written.output.length = length ∧ ∀ ends,
          select (prepared.eosTokenAnswer lexer stack)
            (List.range prepared.grammar.tokenCount) = .ok ends →
          written.output = ends.foldl PackedBits.insert buffers.output)
      (prepared.fillEosMask lexer stack buffers) := by
  refine sweep_select (prepared.eosTokenAnswer lexer stack) MaskBuffers.output PackedBits.insert
    (fun output => output.length = length) List.length_range ?_ buffers hbuffers
  · intro token htoken written hwritten
    rw [List.length_range] at htoken
    rw [List.getElem_range]
    unfold fillEosToken eosTokenAnswer
    rw [hsound.tokenExecution_effectOf hlexer htoken]
    cases heffect : prepared.effectOf lexer token with
    | none => exact .here ⟨rfl, hwritten, fun answer h => by cases h; rfl⟩
    | some execution =>
      cases execution with
      | «continue» lexer' emitted =>
        exact .here ⟨rfl, hwritten, fun answer h => by cases h; rfl⟩
      | finished emitted eof =>
        obtain ⟨rfl, hemitted⟩ := effectOf_finished heffect
        have heos := prepared.evaluateEosInto_settles hstack hemitted written.scratch
        simp only [ne_eq, not_true_eq_false, if_false]
        generalize prepared.evaluateEosInto stack emitted prepared.grammar.lalr.eofTerminal
          written.scratch = out at heos
        cases heos with
        | refused hs he => exact .refused hs he
        | @done reply scratch h hs =>
          subst h
          cases prepared.eosAnswer stack emitted with
          | error e => exact .done ⟨rfl, hwritten, fun answer h => by cases h⟩ hs
          | ok accepted =>
            cases accepted with
            | false => exact .done ⟨rfl, hwritten, fun answer h => by cases h; rfl⟩ hs
            | true =>
              have hbyte := hsound.byte_lt htoken (hwritten ▸ hlength)
              simp only [Except.map, if_true, mask_set_eq hbyte]
              refine .done ⟨rfl, ?_, fun answer h => ?_⟩ hs
              · rw [PackedBits.length_insert, hwritten]
              · cases h
                rw [if_pos rfl]

/-- **The mask of a row**, inserted into what the buffer held. -/
theorem Sound.fillMaskWithScratch_settles (hsound : prepared.Sound) {status : MatcherStatus}
    (hstatus : status.Valid prepared.grammar) (buffers : MaskBuffers) :
    Settles buffers
      (fun reply written => written.output.length = buffers.output.length ∧
        match prepared.maskRow buffers.output.length status with
        | .error e => reply = .error e
        | .ok tokens => reply = .ok () ∧
            written.output = tokens.foldl PackedBits.insert buffers.output)
      (prepared.fillMaskWithScratch status buffers) := by
  obtain ⟨phase, stack⟩ := status
  cases phase with
  | accepted => exact .here ⟨rfl, rfl⟩
  | running lexer =>
    obtain ⟨hlexer, hstack⟩ := hstatus
    simp only [fillMaskWithScratch, maskRow, runningLexer, maskTokens]
    by_cases hlength : buffers.output.length < prepared.maskBytes
    · rw [if_pos hlength, if_pos hlength]
      exact .here ⟨rfl, rfl⟩
    rw [if_neg hlength, if_neg hlength, hsound.inverseBuckets_eq hlexer]
    have hordinary := hsound.fillOrdinaryMask_settles hlexer hstack (Nat.not_lt.mp hlength)
      buffers rfl
    dsimp only
    generalize prepared.fillOrdinaryMask stack (prepared.inverseRow lexer) buffers = out
      at hordinary
    cases hordinary with
    | refused hs he => exact .refused hs he
    | @done reply buffers₁ h hs =>
      obtain ⟨rfl, hlength₁, houtput₁⟩ := h
      cases hbuckets : select (prepared.bucketAnswer stack) (prepared.inverseRow lexer) with
      | error e => exact .done ⟨hlength₁, rfl⟩ hs
      | ok buckets =>
        have heos := hsound.fillEosMask_settles hlexer hstack (Nat.not_lt.mp hlength) hlength₁
        simp only [Except.map]
        generalize prepared.fillEosMask lexer stack buffers₁ = out at heos
        refine .after hs ?_
        cases heos with
        | refused hs he => exact .refused hs he
        | @done reply buffers₂ h hs =>
          obtain ⟨rfl, hlength₂, houtput₂⟩ := h
          cases hends : select (prepared.eosTokenAnswer lexer stack)
              (List.range prepared.grammar.tokenCount) with
          | error e => exact .done ⟨hlength₂, rfl⟩ hs
          | ok ends =>
            have hfinal : buffers₂.output =
                (buckets.flatMap InverseBucket.tokens ++ ends).foldl PackedBits.insert
                  buffers.output := by
              rw [houtput₂ ends hends, houtput₁ buckets hbuckets, List.foldl_append]
            have hempty : (!!buckets.isEmpty && !!ends.isEmpty) = true ↔
                buckets.flatMap InverseBucket.tokens ++ ends = [] := by
              have htokens : ∀ bucket ∈ buckets, bucket.tokens ≠ [] := by
                intro bucket hbucket
                obtain ⟨hmem, -⟩ := ((select_eq_ok hbuckets).2 bucket).mp hbucket
                obtain ⟨i, hi⟩ := List.mem_iff_getElem?.mp hmem
                exact ((hsound.inverseRow_exact hlexer).1 i bucket hi).1
              rw [Bool.not_not, Bool.not_not, Bool.and_eq_true, List.isEmpty_iff,
                List.isEmpty_iff, List.append_eq_nil_iff, List.flatMap_eq_nil_iff]
              refine and_congr_left fun _ => ⟨?_, fun h => ?_⟩
              · rintro rfl bucket hbucket
                exact absurd hbucket List.not_mem_nil
              · exact List.eq_nil_iff_forall_not_mem.mpr fun bucket hbucket =>
                  htokens bucket hbucket (h bucket hbucket)
            simp only [Except.map]
            by_cases hnone : buckets.flatMap InverseBucket.tokens ++ ends = []
            · rw [if_pos (hempty.mpr hnone), hnone]
              exact .done ⟨hlength₂, rfl⟩ hs
            · rw [if_neg (fun h => hnone (hempty.mp h))]
              refine .done ⟨hlength₂, ?_⟩ hs
              obtain ⟨token, tokens, htokens⟩ := List.exists_cons_of_ne_nil hnone
              rw [htokens] at hfinal ⊢
              exact ⟨rfl, hfinal⟩

end PreparedGrammar
end GreatGramma
