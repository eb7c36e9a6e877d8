import GreatGramma.Engine.RowExecution

/-!
# What the answers of a row mean

The answers of `Engine.Rows` go through tables; here they are read back as runs of the scanner and
of the parser.

## Yes

* A token of a running row is allowed when the parser can read what the token emits with some
  terminal that may come next (`Sound.tokenAnswer_eq_true`).
* An EOS token is allowed when the parser accepts what the lexer flushes (`eosAnswer_eq_true`).
* The mask is the set of the tokens that are allowed (`Sound.rowAfter_of_maskTokens`).

An ordinary token is answered by a search through the buckets of its source: it is allowed if it
is in a bucket whose head is readable.  The order of the buckets matters for nothing but the error
that is reported.

## Errors

An answer that is an error reports a fault of the table, met on the row's stack over a head of a
token or over an EOS flush.  The search stops at the first bucket that does not refuse the token,
so what fails about a token is that bucket (`tokenAnswer_error`); a mask tries all buckets and
then the EOS tokens, so what fails about a mask is the first bucket that fails, or, when none
does, the first EOS token (`maskTokens_error`).  Neither says more than that prepared data are
corrupt, which is the only way a mask can fail.
-/

namespace GreatGramma

open ShiftReduce Traversal

section
variable {lalr : ValidatedLalr}

/-- Nothing follows the EOF that a run accepts. -/
theorem ValidatedLalr.accepted_eof {stack : List ParserStateId} {emitted rest : List TerminalId}
    (hstack : lalr.ValidStack stack) (hemitted : lalr.Emittable emitted)
    (h : lalr.table.parse stack (emitted ++ [lalr.eofTerminal]) = .accepted rest) : rest = [] := by
  rw [Table.parse_append] at h
  cases hparse : lalr.table.parse stack emitted with
  | live stack' =>
    rw [hparse] at h
    exact parse_singleton_accepted h
  | accepted rest' => exact absurd hparse (parse_ne_accepted hstack hemitted)
  | rejected =>
    rw [hparse] at h
    cases h
  | fault f =>
    rw [hparse] at h
    cases h

theorem ValidatedLalr.Emittable.snoc_eof {emitted : List TerminalId}
    (h : lalr.Emittable emitted) : lalr.ValidTerminals (emitted ++ [lalr.eofTerminal]) := by
  intro t ht
  rcases List.mem_append.mp ht with ht | ht
  · exact h.valid t ht
  · exact List.mem_singleton.mp ht ▸ lalr.eofTerminal_lt

theorem readable_eq_true {grammar : ValidatedGrammar} {stack : List ParserStateId}
    {direct : List TerminalId} {c : TerminalId} (hstack : grammar.lalr.ValidStack stack)
    (hhead : grammar.lalr.Emittable (direct ++ [c])) :
    grammar.lalr.readable stack (direct ++ [c]) = .ok true ↔
      ∃ committed, (executeSequenceHead grammar stack (direct ++ [c]) .granting).1 =
        .ok (some committed) := by
  rw [readable_eq hstack hhead, map_eq_ok]
  constructor
  · rintro ⟨committed, hreply, hsome⟩
    obtain ⟨stack', rfl⟩ := Option.isSome_iff_exists.mp hsome
    exact ⟨stack', hreply⟩
  · rintro ⟨stack', hreply⟩
    exact ⟨some stack', hreply, rfl⟩

end

namespace PreparedGrammar

variable {prepared : PreparedGrammar}

/-! ## Faults -/

theorem headAnswer_error {stack : List ParserStateId} {head : List TerminalId} {e : EngineError} :
    prepared.headAnswer stack head = .error e ↔
      e = .corruptPreparedData ∧
        ∃ f, prepared.grammar.lalr.table.parse stack head = .fault f := by
  unfold headAnswer ValidatedLalr.readable
  cases prepared.grammar.lalr.table.parse stack head with
  | fault f =>
    constructor
    · intro h
      cases h
      exact ⟨mapParserError_faultError _ f, f, rfl⟩
    · rintro ⟨rfl, _⟩
      exact congrArg Except.error (mapParserError_faultError _ f)
  | _ => exact ⟨fun h => (by cases h), fun ⟨_, _, h⟩ => (by cases h)⟩

theorem headAnswer_eq_true {stack : List ParserStateId} {head : List TerminalId} :
    prepared.headAnswer stack head = .ok true ↔
      prepared.grammar.lalr.readable stack head = .ok true := by
  unfold headAnswer
  cases prepared.grammar.lalr.readable stack head with
  | error e => exact ⟨fun h => (by cases h), fun h => (by cases h)⟩
  | ok answer => exact ⟨fun h => congrArg Except.ok (Except.ok.inj h),
      fun h => congrArg Except.ok (Except.ok.inj h)⟩

theorem Sound.bucketAnswer_error (hsound : prepared.Sound) {lexer : LexerState}
    {stack : List ParserStateId} {bucket : InverseBucket} {e : EngineError}
    (hlexer : lexer.Valid prepared.grammar.lexer) (hbucket : bucket ∈ prepared.inverseRow lexer)
    (h : prepared.bucketAnswer stack bucket = .error e) :
    e = .corruptPreparedData ∧ ∃ head f, prepared.spanner.sequence bucket.sequence = some head ∧
      prepared.grammar.lalr.table.parse stack head = .fault f := by
  obtain ⟨head, hhead, -⟩ := hsound.bucket_realizes hlexer hbucket
  simp only [bucketAnswer, hhead] at h
  obtain ⟨he, f, hfault⟩ := headAnswer_error.mp h
  exact ⟨he, head, f, hhead, hfault⟩

theorem eosAnswer_error {stack : List ParserStateId} {emitted : List TerminalId} {e : EngineError} :
    prepared.eosAnswer stack emitted = .error e ↔
      e = .corruptPreparedData ∧ ∃ f, prepared.grammar.lalr.table.parse stack
        (emitted ++ [prepared.grammar.lalr.eofTerminal]) = .fault f := by
  unfold eosAnswer
  cases prepared.grammar.lalr.table.parse stack
      (emitted ++ [prepared.grammar.lalr.eofTerminal]) with
  | fault f =>
    constructor
    · intro h
      cases h
      exact ⟨mapParserError_faultError _ f, f, rfl⟩
    · rintro ⟨rfl, _⟩
      exact congrArg Except.error (mapParserError_faultError _ f)
  | _ => exact ⟨fun h => (by cases h), fun ⟨_, _, h⟩ => (by cases h)⟩

/-! ## Tokens -/

/-- **The EOS flush is accepted** when the reference interpreter accepts it. -/
theorem eosAnswer_eq_true {stack : List ParserStateId} {emitted : List TerminalId}
    (hstack : prepared.grammar.lalr.ValidStack stack)
    (hemitted : prepared.grammar.lalr.Emittable emitted) :
    prepared.eosAnswer stack emitted = .ok true ↔
      (executeTerminals prepared.grammar stack
        (emitted ++ [prepared.grammar.lalr.eofTerminal]) .granting).1 = .ok (some .accepted) := by
  rw [executeTerminals_eq hstack hemitted.snoc_eof, eosAnswer]
  cases hparse : prepared.grammar.lalr.table.parse stack
      (emitted ++ [prepared.grammar.lalr.eofTerminal]) with
  | accepted rest =>
    obtain rfl := ValidatedLalr.accepted_eof hstack hemitted hparse
    exact ⟨fun _ => rfl, fun _ => rfl⟩
  | _ => exact ⟨fun h => (by cases h), fun h => (by cases h)⟩

/-- **A token has a readable bucket** when one of its heads is readable. -/
theorem Sound.exists_bucket_iff (hsound : prepared.Sound) {lexer : LexerState}
    {stack : List ParserStateId} {token : TokenId}
    (hlexer : lexer.Valid prepared.grammar.lexer) :
    (∃ bucket ∈ prepared.inverseRow lexer, token ∈ bucket.tokens ∧
        prepared.bucketAnswer stack bucket = .ok true) ↔
      ∃ head, prepared.grammar.Realizes lexer token head ∧
        prepared.grammar.lalr.readable stack head = .ok true := by
  constructor
  · rintro ⟨bucket, hbucket, htoken, hanswer⟩
    obtain ⟨head, hhead, hrealizes⟩ := hsound.bucket_realizes hlexer hbucket
    simp only [bucketAnswer, hhead] at hanswer
    exact ⟨head, hrealizes token htoken, headAnswer_eq_true.mp hanswer⟩
  · rintro ⟨head, hrealizes, hreadable⟩
    obtain ⟨bucket, hbucket, htoken, hhead⟩ := hsound.exists_bucket hlexer hrealizes
    refine ⟨bucket, hbucket, htoken, ?_⟩
    simp only [bucketAnswer, hhead]
    exact headAnswer_eq_true.mpr hreadable

/-- **An ordinary token is allowed**, if no bucket fails, when one of its heads is
readable: the search may look at its buckets in any order. -/
theorem Sound.tokenAnswer_eq_true (hsound : prepared.Sound) {lexer : LexerState}
    {stack : List ParserStateId} {token : TokenId}
    (hlexer : lexer.Valid prepared.grammar.lexer)
    (hok : ∀ bucket ∈ prepared.inverseRow lexer, token ∈ bucket.tokens →
      ∀ e, prepared.bucketAnswer stack bucket ≠ .error e) :
    prepared.tokenAnswer lexer stack token = .ok true ↔
      ∃ head, prepared.grammar.Realizes lexer token head ∧
        prepared.grammar.lalr.readable stack head = .ok true := by
  rw [← hsound.exists_bucket_iff hlexer, tokenAnswer]
  refine (anyM_eq_true ?_).trans ?_
  · intro bucket hbucket e
    split_ifs with hcontains
    · exact hok bucket hbucket (List.contains_iff_mem.mp hcontains) e
    · exact fun h => by cases h
  · refine exists_congr fun bucket => and_congr_right fun _ => ?_
    by_cases htoken : token ∈ bucket.tokens
    · rw [if_pos (List.contains_iff_mem.mpr htoken)]
      exact ⟨fun h => ⟨htoken, h⟩, And.right⟩
    · rw [if_neg (fun h => htoken (List.contains_iff_mem.mp h))]
      exact ⟨fun h => (by cases h), fun h => absurd h.1 htoken⟩

/-- **What fails about an ordinary token** is the first of its buckets that does not
refuse it. -/
theorem tokenAnswer_error {lexer : LexerState} {stack : List ParserStateId} {token : TokenId}
    {e : EngineError} (h : prepared.tokenAnswer lexer stack token = .error e) :
    ∃ (i : ℕ) (bucket : InverseBucket), (prepared.inverseRow lexer)[i]? = some bucket ∧
      token ∈ bucket.tokens ∧ prepared.bucketAnswer stack bucket = .error e ∧
      ∀ j < i, ∀ earlier, (prepared.inverseRow lexer)[j]? = some earlier →
        token ∈ earlier.tokens → prepared.bucketAnswer stack earlier = .ok false := by
  obtain ⟨i, hi, hanswer, hbefore⟩ := anyM_eq_error.mp h
  split_ifs at hanswer with hcontains
  refine ⟨i, _, List.getElem?_eq_getElem hi, List.contains_iff_mem.mp hcontains, hanswer,
    fun j hj earlier hearlier hin => ?_⟩
  obtain ⟨hlt, rfl⟩ := List.getElem?_eq_some_iff.mp hearlier
  have hrefused := hbefore j hlt hj
  rwa [if_pos (List.contains_iff_mem.mpr hin)] at hrefused

/-! ## The mask -/

theorem Sound.effectOf_bucket (hsound : prepared.Sound) {lexer : LexerState} {token : TokenId}
    {bucket : InverseBucket} (hlexer : lexer.Valid prepared.grammar.lexer)
    (hbucket : bucket ∈ prepared.inverseRow lexer) (htoken : token ∈ bucket.tokens) :
    token < prepared.grammar.tokenCount ∧
      ∃ lexer' emitted, prepared.effectOf lexer token = some (.continue lexer' emitted) := by
  obtain ⟨head, -, hrealizes⟩ := hsound.bucket_realizes hlexer hbucket
  obtain ⟨bytes, lexer', emitted, c, hbytes, hrun, -, -⟩ := hrealizes token htoken
  refine ⟨prepared.grammar.token_isSome.mp (by rw [hbytes]; rfl), lexer', emitted, ?_⟩
  simp only [effectOf, hbytes, Option.bind_some, ValidatedGrammar.tokenEffect, hrun,
    Option.map_some]

theorem Sound.bucket_ne_nil (hsound : prepared.Sound) {lexer : LexerState}
    {bucket : InverseBucket} (hlexer : lexer.Valid prepared.grammar.lexer)
    (hbucket : bucket ∈ prepared.inverseRow lexer) : ∃ token, token ∈ bucket.tokens := by
  obtain ⟨i, hi⟩ := List.mem_iff_getElem?.mp hbucket
  exact List.exists_mem_of_ne_nil _ ((hsound.inverseRow_exact hlexer).1 i bucket hi).1

theorem maskTokens_eq_ok {lexer : LexerState} {stack : List ParserStateId} {tokens : List TokenId}
    (h : prepared.maskTokens lexer stack = .ok tokens) :
    (∀ bucket ∈ prepared.inverseRow lexer,
        ∃ answer, prepared.bucketAnswer stack bucket = .ok answer) ∧
      (∀ token < prepared.grammar.tokenCount,
        ∃ answer, prepared.eosTokenAnswer lexer stack token = .ok answer) ∧
      ∀ token, token ∈ tokens ↔
        (∃ bucket ∈ prepared.inverseRow lexer, token ∈ bucket.tokens ∧
          prepared.bucketAnswer stack bucket = .ok true) ∨
        token < prepared.grammar.tokenCount ∧
          prepared.eosTokenAnswer lexer stack token = .ok true := by
  unfold maskTokens at h
  split at h
  · cases h
  · rename_i buckets hbuckets
    split at h
    · cases h
    · rename_i ends hends
      cases h
      obtain ⟨hall, hmem⟩ := select_eq_ok hbuckets
      obtain ⟨hall', hmem'⟩ := select_eq_ok hends
      refine ⟨hall, fun token htoken => hall' token (List.mem_range.mpr htoken), fun token => ?_⟩
      rw [List.mem_append, List.mem_flatMap, hmem', List.mem_range]
      refine or_congr (exists_congr fun bucket => ?_) Iff.rfl
      rw [hmem, and_assoc]
      exact and_congr_right fun _ => and_comm

/-- **The mask holds the tokens that the row takes**, and when it can be computed every
token has an answer. -/
theorem Sound.rowAfter_of_maskTokens (hsound : prepared.Sound) {lexer : LexerState}
    {stack : List ParserStateId} {tokens : List TokenId}
    (hlexer : lexer.Valid prepared.grammar.lexer)
    (h : prepared.maskTokens lexer stack = .ok tokens) {token : TokenId}
    (htoken : token < prepared.grammar.tokenCount) :
    ∃ after, prepared.rowAfter lexer stack token = .ok after ∧
      (after.isSome ↔ token ∈ tokens) := by
  obtain ⟨hbuckets, hends, hmem⟩ := maskTokens_eq_ok h
  have hordinary : (∀ lexer' emitted,
      prepared.effectOf lexer token ≠ some (.continue lexer' emitted)) →
      ¬ ∃ bucket ∈ prepared.inverseRow lexer, token ∈ bucket.tokens ∧
        prepared.bucketAnswer stack bucket = .ok true := by
    rintro hne ⟨bucket, hbucket, hin, -⟩
    obtain ⟨-, lexer', emitted, heffect⟩ := hsound.effectOf_bucket hlexer hbucket hin
    exact hne lexer' emitted heffect
  rw [hmem]
  cases heffect : prepared.effectOf lexer token with
  | none =>
    have hend : prepared.eosTokenAnswer lexer stack token = .ok false := by
      rw [eosTokenAnswer, heffect]
    refine ⟨none, by rw [rowAfter, heffect], fun h => (by cases h), ?_⟩
    rintro (hbucket | ⟨-, hend'⟩)
    · exact absurd hbucket (hordinary (by rw [heffect]; exact fun _ _ h => by cases h))
    · rw [hend] at hend'
      cases hend'
  | some execution =>
    cases execution with
    | «continue» lexer' emitted =>
      have hok : ∀ bucket ∈ prepared.inverseRow lexer, token ∈ bucket.tokens →
          ∀ e, prepared.bucketAnswer stack bucket ≠ .error e := by
        intro bucket hbucket _ e he
        obtain ⟨answer, hanswer⟩ := hbuckets bucket hbucket
        rw [hanswer] at he
        cases he
      have hend : prepared.eosTokenAnswer lexer stack token = .ok false := by
        rw [eosTokenAnswer, heffect]
      have hiff := hsound.tokenAnswer_eq_true hlexer hok
      rw [← hsound.exists_bucket_iff hlexer] at hiff
      rw [hend, ← hiff]
      cases hanswer : prepared.tokenAnswer lexer stack token with
      | error e =>
        obtain ⟨_, bucket, hbucket, hin, he, -⟩ := tokenAnswer_error hanswer
        exact absurd he (hok bucket (List.mem_of_getElem? hbucket) hin e)
      | ok allowed =>
        simp only [rowAfter, heffect, hanswer]
        refine ⟨_, rfl, ?_⟩
        cases allowed <;> simp
    | finished emitted eof =>
      obtain ⟨accepted, haccepted⟩ := hends token htoken
      have hsame : prepared.eosTokenAnswer lexer stack token =
          prepared.eosAnswer stack emitted := by
        rw [eosTokenAnswer, heffect]
      have hnot := hordinary (by rw [heffect]; exact fun _ _ h => by cases h)
      simp only [rowAfter, heffect, ← hsame, haccepted, hnot, htoken, false_or, true_and]
      refine ⟨_, rfl, ?_⟩
      cases accepted <;> simp

/-- **A row that takes no token** has an empty mask. -/
theorem Sound.maskTokens_nil (hsound : prepared.Sound) {lexer : LexerState}
    {stack : List ParserStateId} (hlexer : lexer.Valid prepared.grammar.lexer)
    (h : ∀ token < prepared.grammar.tokenCount,
      prepared.rowAfter lexer stack token = .ok none) :
    prepared.maskTokens lexer stack = .ok [] := by
  have hbuckets : select (prepared.bucketAnswer stack) (prepared.inverseRow lexer) = .ok [] := by
    refine select_eq_nil.mpr fun bucket hbucket => ?_
    obtain ⟨token, hin⟩ := hsound.bucket_ne_nil hlexer hbucket
    obtain ⟨htoken, lexer', emitted, heffect⟩ := hsound.effectOf_bucket hlexer hbucket hin
    have hnone := h token htoken
    simp only [rowAfter, heffect] at hnone
    obtain ⟨allowed, hallowed, hnot⟩ := map_eq_ok.mp hnone
    cases allowed with
    | true => cases hnot
    | false =>
      have hthis := anyM_eq_false.mp hallowed bucket hbucket
      rwa [if_pos (List.contains_iff_mem.mpr hin)] at hthis
  have hends : select (prepared.eosTokenAnswer lexer stack)
      (List.range prepared.grammar.tokenCount) = .ok [] := by
    refine select_eq_nil.mpr fun token hin => ?_
    have hnone := h token (List.mem_range.mp hin)
    cases heffect : prepared.effectOf lexer token with
    | none => rw [eosTokenAnswer, heffect]
    | some execution =>
      cases execution with
      | «continue» lexer' emitted => rw [eosTokenAnswer, heffect]
      | finished emitted eof =>
        simp only [rowAfter, heffect] at hnone
        obtain ⟨accepted, haccepted, hnot⟩ := map_eq_ok.mp hnone
        simp only [eosTokenAnswer, heffect]
        cases accepted with
        | true => cases hnot
        | false => exact haccepted
  simp only [maskTokens, hbuckets, hends, List.flatMap_nil, List.append_nil]

/-- **What fails about a mask** is the first bucket that fails, or, when none does, the
first EOS token. -/
theorem maskTokens_error {lexer : LexerState} {stack : List ParserStateId} {e : EngineError}
    (h : prepared.maskTokens lexer stack = .error e) :
    (∃ (i : ℕ) (bucket : InverseBucket), (prepared.inverseRow lexer)[i]? = some bucket ∧
        prepared.bucketAnswer stack bucket = .error e ∧
        ∀ j < i, ∀ earlier, (prepared.inverseRow lexer)[j]? = some earlier →
          ∃ answer, prepared.bucketAnswer stack earlier = .ok answer) ∨
      (∀ bucket ∈ prepared.inverseRow lexer,
        ∃ answer, prepared.bucketAnswer stack bucket = .ok answer) ∧
      ∃ token < prepared.grammar.tokenCount,
        prepared.eosTokenAnswer lexer stack token = .error e ∧
        ∀ earlier < token, ∃ answer, prepared.eosTokenAnswer lexer stack earlier = .ok answer := by
  unfold maskTokens at h
  split at h
  · rename_i hbuckets
    cases h
    obtain ⟨i, bucket, hbucket, hanswer, hbefore⟩ :=
      exists_first_of_mapM_error (select_eq_error.mp hbuckets)
    refine Or.inl ⟨i, bucket, hbucket, hanswer, fun j hj earlier hearlier => ?_⟩
    obtain ⟨found, answer, hfound, hok⟩ := hbefore j hj
    obtain rfl := Option.some.inj (hfound.symm.trans hearlier)
    exact ⟨answer, hok⟩
  · rename_i buckets hbuckets
    split at h
    · rename_i hends
      cases h
      obtain ⟨token, hlt, hanswer, hbefore⟩ := mapM_eq_error.mp (select_eq_error.mp hends)
      rw [List.getElem_range] at hanswer
      have htoken : token < prepared.grammar.tokenCount := by rwa [List.length_range] at hlt
      refine Or.inr ⟨(select_eq_ok hbuckets).1, token, htoken, hanswer, fun earlier hearlier => ?_⟩
      have hbound : earlier < (List.range prepared.grammar.tokenCount).length := by
        rw [List.length_range]
        exact Nat.lt_trans hearlier htoken
      obtain ⟨answer, hok⟩ := hbefore earlier hbound hearlier
      rw [List.getElem_range] at hok
      exact ⟨answer, hok⟩
    · cases h

theorem Sound.maskTokens_corrupt (hsound : prepared.Sound) {lexer : LexerState}
    {stack : List ParserStateId} {e : EngineError} (hlexer : lexer.Valid prepared.grammar.lexer)
    (h : prepared.maskTokens lexer stack = .error e) : e = .corruptPreparedData := by
  rcases maskTokens_error h with ⟨_, bucket, hbucket, he, -⟩ | ⟨-, token, -, he, -⟩
  · exact (hsound.bucketAnswer_error hlexer (List.mem_of_getElem? hbucket) he).1
  · unfold eosTokenAnswer at he
    split at he
    · exact (eosAnswer_error.mp he).1
    · cases he

end PreparedGrammar
end GreatGramma
