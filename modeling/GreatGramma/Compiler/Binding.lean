import GreatGramma.Compiler.Normalize
import Mathlib.Data.List.Duplicate

/-!
# The names of a source grammar

`parse_source` parses the Yacc text and then binds names in four loops over one index: the tokens
are entered, those that a production reads are marked, the terminal specifications are bound to
them, and the ignored terminals are looked up last.

## What an entry says

The index is a map from names to entries, and each loop looks at it and changes it.  What an entry
says is what the loops have met under its name so far (`TerminalLookup.Describes`,
`TerminalIndex.Describes`): the token that has the name, if there is one, whether a production
reads it, and which specification has the name.  So each loop checks one thing against what has
been met, and there is one lemma for each, with two outcomes: it goes through, and the index
describes more, or it stops at an offender.

## Binding is exact

Together the checks are exact.  Where the names of the tokens are unique, the names are bound just
if every named token has one specification, every specification a token, and the ignored terminals
are distinct tokens that no production reads (`SourceGrammar.Binds`).  Otherwise the refusal names
an offender (`SourceGrammar.Misbinds`), and where a refusal is justified the names do not fit.

In front of the loops there are four checks of the text: its directives, that it parses, that the
grammar has nothing in it that is refused, and the number of its named tokens
(`SourceGrammar.Parses`).  A source that they let through comes to be bound, and one that they do
not fails with the first of them.  `parseSource_exact` puts the two halves together.
-/

namespace GreatGramma

open Traversal

/-! ## What is asked of the names -/

namespace YaccGrammar

variable (yacc : YaccGrammar)

/-- `token` has that name. -/
def Names (token : ℕ) (name : String) : Prop :=
  token < yacc.tokensLen ∧ yacc.tokenName token = some name

/-- **What is relied on of `cfgrammar`**: no two tokens have one name, and productions are made
of tokens. -/
structure Indexed : Prop where
  names : ∀ t t' name, yacc.Names t name → yacc.Names t' name → t = t'
  tokens_lt : ∀ p < yacc.prodsLen, ∀ t, GrammarSymbol.token t ∈ yacc.prod p → t < yacc.tokensLen

/-- Some production reads the token. -/
def Reads (token : ℕ) : Prop := ∃ p < yacc.prodsLen, GrammarSymbol.token token ∈ yacc.prod p

/-- The symbols of the productions, one production after the other. -/
def symbols : List GrammarSymbol := yacc.iterPidxs.flatMap yacc.prod

variable {yacc}

theorem reads_iff_mem_symbols {token : ℕ} :
    yacc.Reads token ↔ GrammarSymbol.token token ∈ yacc.symbols := by
  simp only [Reads, symbols, iterPidxs, List.mem_flatMap, List.mem_range]

end YaccGrammar

/-- **The names fit.** -/
structure SourceGrammar.Binds (source : SourceGrammar) (yacc : YaccGrammar) : Prop where
  specs_nodup : (source.terminals.map TerminalSpec.name).Nodup
  spec_named : ∀ spec ∈ source.terminals, ∃ token, yacc.Names token spec.name
  named_spec : ∀ token name, yacc.Names token name →
    ∃ spec ∈ source.terminals, spec.name = name
  ignored_nodup : source.ignoredTerminals.Nodup
  ignored_named : ∀ name ∈ source.ignoredTerminals, ∃ token, yacc.Names token name
  ignored_unread : ∀ name ∈ source.ignoredTerminals, ∀ token, yacc.Names token name →
    ¬ yacc.Reads token

/-- **A refusal names an offender.** -/
inductive SourceGrammar.Misbinds (source : SourceGrammar) (yacc : YaccGrammar) :
    CompileError → Prop
  | unknown {spec : TerminalSpec} (mem : spec ∈ source.terminals)
      (unnamed : ∀ token, ¬ yacc.Names token spec.name) :
      Misbinds source yacc (.unknownTerminal spec.name)
  | duplicate {name : String}
      (twice : (source.terminals.map TerminalSpec.name).Duplicate name) :
      Misbinds source yacc (.duplicateTerminal name)
  | missing {token : ℕ} {name : String} (named : yacc.Names token name)
      (none : ∀ spec ∈ source.terminals, spec.name ≠ name) :
      Misbinds source yacc (.missingTerminal name)
  | unknownIgnored {name : String} (mem : name ∈ source.ignoredTerminals)
      (unnamed : ∀ token, ¬ yacc.Names token name) :
      Misbinds source yacc (.unknownIgnoredTerminal name)
  | duplicateIgnored {name : String} (twice : source.ignoredTerminals.Duplicate name) :
      Misbinds source yacc (.duplicateIgnoredTerminal name)
  | ignoredUsed {token : ℕ} {name : String} (mem : name ∈ source.ignoredTerminals)
      (named : yacc.Names token name) (read : yacc.Reads token) :
      Misbinds source yacc (.ignoredTerminalUsed name)

/-- A failure that is such a refusal. -/
def SourceGrammar.Refused (source : SourceGrammar) (yacc : YaccGrammar)
    (failure : CompileFailure) : Prop :=
  ∃ e, failure = .error e ∧ source.Misbinds yacc e

theorem SourceGrammar.Misbinds.not_binds {source : SourceGrammar} {yacc : YaccGrammar}
    {e : CompileError} (h : source.Misbinds yacc e) : ¬ source.Binds yacc := by
  intro hbinds
  cases h with
  | unknown mem unnamed =>
    obtain ⟨token, htoken⟩ := hbinds.spec_named _ mem
    exact unnamed token htoken
  | duplicate twice =>
    exact List.nodup_iff_forall_not_duplicate.mp hbinds.specs_nodup _ twice
  | missing named none =>
    obtain ⟨spec, hspec, hname⟩ := hbinds.named_spec _ _ named
    exact none spec hspec hname
  | unknownIgnored mem unnamed =>
    obtain ⟨token, htoken⟩ := hbinds.ignored_named _ mem
    exact unnamed token htoken
  | duplicateIgnored twice =>
    exact List.nodup_iff_forall_not_duplicate.mp hbinds.ignored_nodup _ twice
  | ignoredUsed mem named read => exact hbinds.ignored_unread _ mem _ named read

/-! ## The index -/

/-- What the loops have met so far. -/
structure Met where
  tokens : List ℕ
  symbols : List GrammarSymbol
  specs : List (TerminalSpec × ℕ)
  ignored : List String

/-- **What an entry says** of what has been met under its name. -/
structure TerminalLookup.Describes (entry : TerminalLookup) (yacc : YaccGrammar) (met : Met)
    (name : String) : Prop where
  token_mem : entry.token ∈ met.tokens
  token_name : yacc.tokenName entry.token = some name
  spec_some : ∀ i, entry.spec = some i → ∃ spec, (spec, i) ∈ met.specs ∧ spec.name = name
  spec_none : entry.spec = none → ∀ spec ∈ met.specs, spec.1.name ≠ name
  used : entry.used = true ↔ .token entry.token ∈ met.symbols
  ignored : entry.ignored = true ↔ name ∈ met.ignored

/-- The index holds an entry for every name that has been met. -/
structure TerminalIndex.Describes (index : TerminalIndex) (yacc : YaccGrammar) (met : Met) :
    Prop where
  missing : ∀ name, index name = none → ∀ token ∈ met.tokens, yacc.tokenName token ≠ some name
  entry : ∀ name entry, index name = some entry → entry.Describes yacc met name

section
variable {yacc : YaccGrammar} {met met' : Met} {index : TerminalIndex} {name : String}
  {entry : TerminalLookup}

theorem TerminalIndex.Describes.update (h : index.Describes yacc met)
    (hentry : entry.Describes yacc met' name)
    (htokens : ∀ token ∈ met'.tokens, token ∈ met.tokens ∨ yacc.tokenName token = some name)
    (hother : ∀ name' (entry' : TerminalLookup), name' ≠ name → entry'.Describes yacc met name' →
      entry'.Describes yacc met' name') :
    TerminalIndex.Describes (Function.update index name (some entry)) yacc met' := by
  refine ⟨fun name' hnone token htoken hname => ?_, fun name' entry' hentry' => ?_⟩
  · by_cases hsame : name' = name
    · rw [hsame, Function.update_self] at hnone
      cases hnone
    · rw [Function.update_of_ne hsame] at hnone
      rcases htokens token htoken with hold | hnew
      · exact h.missing name' hnone token hold hname
      · exact hsame (Option.some.inj (hname.symm.trans hnew))
  · by_cases hsame : name' = name
    · subst hsame
      rw [Function.update_self] at hentry'
      exact Option.some.inj hentry' ▸ hentry
    · rw [Function.update_of_ne hsame] at hentry'
      exact hother name' entry' hsame (h.entry name' entry' hentry')

theorem TerminalIndex.Describes.keep (h : index.Describes yacc met)
    (htokens : ∀ token ∈ met'.tokens, token ∈ met.tokens ∨ yacc.tokenName token = none)
    (hother : ∀ name' entry', index name' = some entry' → entry'.Describes yacc met name' →
      entry'.Describes yacc met' name') :
    index.Describes yacc met' := by
  refine ⟨fun name' hnone token htoken hname => ?_, fun name' entry' hentry' =>
    hother name' entry' hentry' (h.entry name' entry' hentry')⟩
  rcases htokens token htoken with hold | hnew
  · exact h.missing name' hnone token hold hname
  · rw [hnew] at hname
    cases hname

/-! ## The loops

In the order of the source. -/

/-- **One token is entered.** -/
theorem indexToken_describes {done : List ℕ} {token : ℕ}
    (h : index.Describes yacc ⟨done, [], [], []⟩) :
    (indexToken yacc index token).Describes yacc ⟨done ++ [token], [], [], []⟩ := by
  have hother : ∀ name' entry', TerminalLookup.Describes entry' yacc ⟨done, [], [], []⟩ name' →
      entry'.Describes yacc ⟨done ++ [token], [], [], []⟩ name' := fun _ _ h =>
    { h with token_mem := List.mem_append_left _ h.token_mem }
  rw [indexToken]
  cases hname : yacc.tokenName token with
  | none =>
    refine h.keep (fun t ht => ?_) fun name' entry' _ => hother name' entry'
    rcases List.mem_append.mp ht with hold | hnew
    · exact Or.inl hold
    · exact Or.inr (List.mem_singleton.mp hnew ▸ hname)
  | some name =>
    refine h.update ⟨List.mem_append_right _ (List.mem_singleton_self _), hname, ?_, ?_, ?_, ?_⟩
      (fun t ht => ?_) fun name' entry' _ => hother name' entry'
    · exact fun _ h => by cases h
    · exact fun _ _ h => absurd h List.not_mem_nil
    · exact ⟨fun h => (by cases h), fun h => absurd h List.not_mem_nil⟩
    · exact ⟨fun h => (by cases h), fun h => absurd h List.not_mem_nil⟩
    · rcases List.mem_append.mp ht with hold | hnew
      · exact Or.inl hold
      · exact Or.inr (List.mem_singleton.mp hnew ▸ hname)

theorem indexTokens_describes (yacc : YaccGrammar) :
    TerminalIndex.Describes (yacc.iterTidxs.foldl (indexToken yacc) fun _ => none) yacc
      ⟨yacc.iterTidxs, [], [], []⟩ := by
  have key : ∀ (after done : List ℕ) (index : TerminalIndex),
      index.Describes yacc ⟨done, [], [], []⟩ →
        TerminalIndex.Describes (after.foldl (indexToken yacc) index) yacc
          ⟨done ++ after, [], [], []⟩ := by
    intro after
    induction after with
    | nil =>
      intro done index h
      rw [List.append_nil]
      exact h
    | cons token after ih =>
      intro done index h
      have hrest := ih (done ++ [token]) _ (indexToken_describes h)
      rwa [List.append_assoc] at hrest
  exact key yacc.iterTidxs [] _ ⟨fun _ _ token htoken => absurd htoken List.not_mem_nil,
    fun _ _ h => by cases h⟩

theorem markUsed_describes (hindexed : yacc.Indexed) {symbols : List GrammarSymbol}
    {symbol : GrammarSymbol} (hsymbol : ∀ t, symbol = .token t → t < yacc.tokensLen)
    (h : index.Describes yacc ⟨yacc.iterTidxs, symbols, [], []⟩) :
    (markUsed yacc index symbol).Describes yacc ⟨yacc.iterTidxs, symbols ++ [symbol], [], []⟩ := by
  -- an entry of another token is not touched by the symbol
  have hother : ∀ name' (entry' : TerminalLookup), symbol ≠ .token entry'.token →
      TerminalLookup.Describes entry' yacc ⟨yacc.iterTidxs, symbols, [], []⟩ name' →
        entry'.Describes yacc ⟨yacc.iterTidxs, symbols ++ [symbol], [], []⟩ name' := by
    intro name' entry' hne h
    refine { h with used := h.used.trans ?_ }
    rw [List.mem_append, List.mem_singleton, or_iff_left hne.symm]
  cases symbol with
  | rule r =>
    exact h.keep (fun t ht => Or.inl ht) fun name' entry' _ =>
      hother name' entry' fun h => by cases h
  | token token =>
    have htoken := hsymbol token rfl
    rw [markUsed]
    cases hname : yacc.tokenName token with
    | none =>
      refine h.keep (fun t ht => Or.inl ht) fun name' entry' _ h => hother name' entry' ?_ h
      intro hsame
      rw [GrammarSymbol.token.inj hsame, h.token_name] at hname
      cases hname
    | some name =>
      dsimp only
      cases hentry : index name with
      | none => exact absurd hname (h.missing name hentry token (List.mem_range.mpr htoken))
      | some entry =>
        have hold := h.entry name entry hentry
        have hsame : entry.token = token := hindexed.names _ _ name
          ⟨List.mem_range.mp hold.token_mem, hold.token_name⟩ ⟨htoken, hname⟩
        refine h.update { hold with used := ⟨fun _ => ?_, fun _ => rfl⟩ } (fun t ht => Or.inl ht)
          fun name' entry' hne h => hother name' entry' ?_ h
        · rw [hsame]
          exact List.mem_append_right _ (List.mem_singleton_self _)
        · intro heq
          rw [GrammarSymbol.token.inj heq, h.token_name] at hname
          exact hne (Option.some.inj hname)

theorem markProductions_describes (hindexed : yacc.Indexed)
    (h : index.Describes yacc ⟨yacc.iterTidxs, [], [], []⟩) :
    TerminalIndex.Describes
      (yacc.iterPidxs.foldl
        (fun index production => (yacc.prod production).foldl (markUsed yacc) index) index) yacc
      ⟨yacc.iterTidxs, yacc.symbols, [], []⟩ := by
  have key : ∀ (after done : List GrammarSymbol) (index : TerminalIndex),
      (∀ t, GrammarSymbol.token t ∈ after → t < yacc.tokensLen) →
      index.Describes yacc ⟨yacc.iterTidxs, done, [], []⟩ →
        TerminalIndex.Describes (after.foldl (markUsed yacc) index) yacc
          ⟨yacc.iterTidxs, done ++ after, [], []⟩ := by
    intro after
    induction after with
    | nil =>
      intro done index _ h
      rw [List.append_nil]
      exact h
    | cons symbol after ih =>
      intro done index hlt h
      have hstep := markUsed_describes hindexed
        (fun t ht => hlt t (ht ▸ List.mem_cons_self)) h
      have hrest := ih (done ++ [symbol]) _ (fun t ht => hlt t (List.mem_cons_of_mem _ ht)) hstep
      rwa [List.append_assoc] at hrest
  have hall := key yacc.symbols [] index (fun t ht => ?_) h
  · rwa [YaccGrammar.symbols, List.foldl_flatMap] at hall
  · obtain ⟨p, hp, hmem⟩ := YaccGrammar.reads_iff_mem_symbols.mpr ht
    exact hindexed.tokens_lt p hp t hmem

theorem duplicate_of_mem {α : Type} {before after : List α} {x : α} (h : x ∈ before) :
    (before ++ x :: after).Duplicate x :=
  List.duplicate_iff_sublist.mpr
    ((List.singleton_sublist.mpr h).append (List.singleton_sublist.mpr List.mem_cons_self))

/-- **One specification is bound**, or its name is an offender. -/
theorem bindSpec_describes {source : SourceGrammar} {symbols : List GrammarSymbol}
    {before after : List (TerminalSpec × ℕ)} {spec : TerminalSpec × ℕ}
    (hsplit : source.terminals.zipIdx = before ++ spec :: after)
    (h : index.Describes yacc ⟨yacc.iterTidxs, symbols, before, []⟩) :
    (∃ index', bindSpec index spec = .ok index' ∧
        index'.Describes yacc ⟨yacc.iterTidxs, symbols, before ++ [spec], []⟩ ∧
        (∃ token, yacc.Names token spec.1.name) ∧
        spec.1.name ∉ before.map fun spec => spec.1.name) ∨
      ∃ e, bindSpec index spec = .error (.error e) ∧ source.Misbinds yacc e := by
  have hspecs : source.terminals = before.map Prod.fst ++ spec.1 :: after.map Prod.fst := by
    rw [← List.map_cons, ← List.map_append, ← hsplit, List.zipIdx_map_fst]
  obtain ⟨spec, specIndex⟩ := spec
  rw [bindSpec]
  cases hentry : index spec.name with
  | none =>
    refine Or.inr ⟨_, rfl, .unknown (hspecs ▸ List.mem_append_right _ List.mem_cons_self)
      fun token hname => ?_⟩
    exact h.missing spec.name hentry token (List.mem_range.mpr hname.1) hname.2
  | some entry =>
    have hold := h.entry spec.name entry hentry
    dsimp only
    cases hbound : entry.spec with
    | some i =>
      obtain ⟨earlier, hmem, hname⟩ := hold.spec_some i hbound
      refine Or.inr ⟨_, if_pos rfl, .duplicate ?_⟩
      rw [hspecs, List.map_append, List.map_cons]
      exact duplicate_of_mem (hname ▸ List.mem_map_of_mem (List.mem_map_of_mem hmem))
    | none =>
      have hnew := hold.spec_none hbound
      refine Or.inl ⟨_, if_neg Bool.false_ne_true, h.update { hold with
          spec_some := fun i hi => ?_
          spec_none := fun hnone => by cases hnone } (fun t ht => Or.inl ht) ?_,
        ⟨entry.token, List.mem_range.mp hold.token_mem, hold.token_name⟩, fun hmem => ?_⟩
      · obtain rfl := Option.some.inj hi
        exact ⟨spec, List.mem_append_right _ (List.mem_singleton_self _), rfl⟩
      · intro name' entry' hne h
        refine { h with
          spec_some := fun i hi => ?_
          spec_none := fun hnone other hother => ?_ }
        · obtain ⟨other, hmem, hname⟩ := h.spec_some i hi
          exact ⟨other, List.mem_append_left _ hmem, hname⟩
        · rcases List.mem_append.mp hother with hin | hin
          · exact h.spec_none hnone other hin
          · rw [List.mem_singleton.mp hin]
            exact hne.symm
      · obtain ⟨other, hother, hname⟩ := List.mem_map.mp hmem
        exact hnew other hother hname

/-- **The specifications are bound**, or one of them is an offender. -/
theorem bindSpecs_describes {source : SourceGrammar} {symbols : List GrammarSymbol}
    (h : index.Describes yacc ⟨yacc.iterTidxs, symbols, [], []⟩) :
    (∃ index', source.terminals.zipIdx.foldlM bindSpec index = .ok index' ∧
        index'.Describes yacc ⟨yacc.iterTidxs, symbols, source.terminals.zipIdx, []⟩ ∧
        (∀ spec ∈ source.terminals, ∃ token, yacc.Names token spec.name) ∧
        (source.terminals.map TerminalSpec.name).Nodup) ∨
      ∃ failure, source.terminals.zipIdx.foldlM bindSpec index = .error failure ∧
        source.Refused yacc failure := by
  have hloop : (∃ index', source.terminals.zipIdx.foldlM bindSpec index = .ok index' ∧ _) ∨
      ∃ failure, source.terminals.zipIdx.foldlM bindSpec index = .error failure ∧
        source.Refused yacc failure :=
    foldlM_total_or (I := fun before (index : TerminalIndex) =>
      index.Describes yacc ⟨yacc.iterTidxs, symbols, before, []⟩ ∧
        (∀ spec ∈ before, ∃ token, yacc.Names token spec.1.name) ∧
        (before.map fun spec => spec.1.name).Nodup)
      ⟨h, fun _ hmem => absurd hmem List.not_mem_nil, List.nodup_nil⟩ ?_
  · rcases hloop with ⟨index', hrun, hdescribes, hnamed, hnodup⟩ | hfailed
    · refine Or.inl ⟨index', hrun, hdescribes, fun spec hspec => ?_, ?_⟩
      · rw [← List.zipIdx_map_fst 0 source.terminals] at hspec
        obtain ⟨entry, hentry, rfl⟩ := List.mem_map.mp hspec
        exact hnamed entry hentry
      · rw [← List.zipIdx_map_fst 0 source.terminals, List.map_map]
        exact hnodup
    · exact Or.inr hfailed
  · rintro before spec after index hsplit ⟨hdescribes, hnamed, hnodup⟩
    rcases bindSpec_describes hsplit hdescribes with ⟨index', hrun, hnext, htoken, hnew⟩ |
      ⟨e, hrun, hoffender⟩
    · refine Or.inl ⟨index', hrun, hnext, fun other hother => ?_, ?_⟩
      · rcases List.mem_append.mp hother with hin | hin
        · exact hnamed other hin
        · exact List.mem_singleton.mp hin ▸ htoken
      · rw [List.map_append, List.map_singleton]
        exact List.nodup_append.mpr ⟨hnodup, List.nodup_singleton _, fun a ha b hb hab =>
          hnew (List.mem_singleton.mp hb ▸ hab ▸ ha)⟩
    · exact Or.inr ⟨_, hrun, e, rfl, hoffender⟩

/-- The terminal of a token: its specification is the one with its name. -/
def Resolves (source : SourceGrammar) (yacc : YaccGrammar) (token : ℕ)
    (terminal : ResolvedTerminal) : Prop :=
  ∃ spec ∈ source.terminals, yacc.tokenName token = some spec.name ∧
    terminal = resolveTerminal spec token

/-- **The named tokens are resolved**, or one of them is an offender. -/
theorem resolveTokens_resolves {source : SourceGrammar} {symbols : List GrammarSymbol}
    (h : index.Describes yacc ⟨yacc.iterTidxs, symbols, source.terminals.zipIdx, []⟩) :
    (∃ terminals, yacc.iterTidxs.foldlM (resolveToken yacc index source.terminals) [] =
          .ok terminals ∧
        List.Forall₂ (Resolves source yacc) yacc.namedTokens terminals) ∨
      ∃ failure, yacc.iterTidxs.foldlM (resolveToken yacc index source.terminals) [] =
          .error failure ∧ source.Refused yacc failure := by
  refine foldlM_total_or (I := fun done (terminals : List ResolvedTerminal) =>
    List.Forall₂ (Resolves source yacc)
      (done.filter fun token => (yacc.tokenName token).isSome) terminals) .nil ?_
  intro done token after terminals hsplit hdone
  have htoken : token ∈ yacc.iterTidxs := hsplit ▸ List.mem_append_right _ List.mem_cons_self
  rw [resolveToken, List.filter_append]
  cases hname : yacc.tokenName token with
  | none =>
    refine Or.inl ⟨_, rfl, ?_⟩
    rw [List.filter_cons_of_neg (by rw [hname]; exact Bool.false_ne_true), List.filter_nil,
      List.append_nil]
    exact hdone
  | some name =>
    have hnamed : yacc.Names token name := ⟨List.mem_range.mp htoken, hname⟩
    dsimp only
    cases hentry : index name with
    | none => exact absurd hname (h.missing name hentry token htoken)
    | some entry =>
      have hold := h.entry name entry hentry
      dsimp only [Option.bind_some]
      cases hspec : entry.spec with
      | none =>
        refine Or.inr ⟨_, rfl, _, rfl, .missing hnamed fun spec hmem => ?_⟩
        obtain ⟨i, hi⟩ := List.mem_iff_getElem?.mp hmem
        exact hold.spec_none hspec (spec, i) (List.mk_mem_zipIdx_iff_getElem?.mpr hi)
      | some i =>
        obtain ⟨spec, hmem, hsame⟩ := hold.spec_some i hspec
        have hget := List.mk_mem_zipIdx_iff_getElem?.mp hmem
        refine Or.inl ⟨terminals ++ [resolveTerminal spec token], ?_, ?_⟩
        · dsimp only
          rw [indexAt, hget]
          rfl
        · rw [List.filter_cons_of_pos (by rw [hname]; rfl), List.filter_nil]
          exact List.rel_append hdone
            (.cons ⟨spec, List.mem_of_getElem? hget, hsame ▸ hname, rfl⟩ .nil)

/-- What has been resolved of the ignored names. -/
structure IgnoredSoFar (yacc : YaccGrammar) (specs : List (TerminalSpec × ℕ)) (done : List String)
    (state : TerminalIndex × List TerminalId) : Prop where
  index : state.1.Describes yacc ⟨yacc.iterTidxs, yacc.symbols, specs, done⟩
  tokens : List.Forall₂ (fun name token => yacc.Names token name) done state.2
  nodup : done.Nodup
  unread : ∀ name ∈ done, ∀ token, yacc.Names token name → ¬ yacc.Reads token

/-- **One ignored name is resolved**, or it is an offender. -/
theorem resolveIgnoredName_settles (hindexed : yacc.Indexed) {source : SourceGrammar}
    {specs : List (TerminalSpec × ℕ)} {before after : List String} {name : String}
    (hsplit : source.ignoredTerminals = before ++ name :: after)
    {state : TerminalIndex × List TerminalId} (h : IgnoredSoFar yacc specs before state) :
    (∃ state', resolveIgnoredName state name = .ok state' ∧
        IgnoredSoFar yacc specs (before ++ [name]) state') ∨
      ∃ failure, resolveIgnoredName state name = .error failure ∧
        source.Refused yacc failure := by
  have hmem : name ∈ source.ignoredTerminals :=
    hsplit ▸ List.mem_append_right _ List.mem_cons_self
  obtain ⟨index, ignored⟩ := state
  rw [resolveIgnoredName]
  cases hentry : index name with
  | none =>
    exact Or.inr ⟨_, rfl, _, rfl, .unknownIgnored hmem fun token hname =>
      h.index.missing name hentry token (List.mem_range.mpr hname.1) hname.2⟩
  | some entry =>
    have hold := h.index.entry name entry hentry
    have hnamed : yacc.Names entry.token name :=
      ⟨List.mem_range.mp hold.token_mem, hold.token_name⟩
    dsimp only
    split_ifs with hignored hused
    · refine Or.inr ⟨_, rfl, _, rfl, .duplicateIgnored ?_⟩
      rw [hsplit]
      exact duplicate_of_mem (hold.ignored.mp hignored)
    · exact Or.inr ⟨_, rfl, _, rfl, .ignoredUsed hmem hnamed
        (YaccGrammar.reads_iff_mem_symbols.mpr (hold.used.mp hused))⟩
    · have hnew : name ∉ before := fun hin => hignored (hold.ignored.mpr hin)
      have hunread : ¬ yacc.Reads entry.token := fun hread =>
        hused (hold.used.mpr (YaccGrammar.reads_iff_mem_symbols.mp hread))
      refine Or.inl ⟨_, rfl, ?_, List.rel_append h.tokens (.cons hnamed .nil), ?_, ?_⟩
      · refine h.index.update { hold with ignored := ⟨fun _ => ?_, fun _ => rfl⟩ }
          (fun t ht => Or.inl ht) fun name' entry' hne h => { h with ignored := h.ignored.trans ?_ }
        · exact List.mem_append_right _ (List.mem_singleton_self _)
        · rw [List.mem_append, List.mem_singleton, or_iff_left hne]
      · exact List.nodup_append.mpr ⟨h.nodup, List.nodup_singleton _, fun a ha b hb hab =>
          hnew (List.mem_singleton.mp hb ▸ hab ▸ ha)⟩
      · intro other hother token htoken
        rcases List.mem_append.mp hother with hin | hin
        · exact h.unread other hin token htoken
        · rw [List.mem_singleton.mp hin] at htoken
          exact hindexed.names _ _ _ hnamed htoken ▸ hunread

/-- **The ignored names are resolved**, or one of them is an offender. -/
theorem resolveIgnored_settles (hindexed : yacc.Indexed) {source : SourceGrammar}
    {specs : List (TerminalSpec × ℕ)}
    (h : index.Describes yacc ⟨yacc.iterTidxs, yacc.symbols, specs, []⟩) :
    (∃ ignored, resolveIgnored index source.ignoredTerminals = .ok ignored ∧
        ∃ index', IgnoredSoFar yacc specs source.ignoredTerminals (index', ignored)) ∨
      ∃ failure, resolveIgnored index source.ignoredTerminals = .error failure ∧
        source.Refused yacc failure := by
  have hloop : (∃ state, source.ignoredTerminals.foldlM resolveIgnoredName (index, []) =
        .ok state ∧ IgnoredSoFar yacc specs source.ignoredTerminals state) ∨
      ∃ failure, source.ignoredTerminals.foldlM resolveIgnoredName (index, []) =
        .error failure ∧ source.Refused yacc failure :=
    foldlM_total_or ⟨h, .nil, List.nodup_nil, fun _ hmem => absurd hmem List.not_mem_nil⟩
      fun before name after state hsplit hdone => resolveIgnoredName_settles hindexed hsplit hdone
  rw [resolveIgnored]
  rcases hloop with ⟨⟨index', ignored⟩, hrun, hdone⟩ | ⟨failure, hrun, hrefused⟩
  · rw [hrun]
    exact Or.inl ⟨ignored, rfl, index', hdone⟩
  · rw [hrun]
    exact Or.inr ⟨failure, rfl, hrefused⟩

end

/-! ## Binding is exact -/

/-- **What is bound**: the named tokens have their specifications, and the ignored names their
tokens. -/
structure ParsedGrammar.Resolved (parsed : ParsedGrammar) (source : SourceGrammar) : Prop where
  terminals : List.Forall₂ (Resolves source parsed.yacc) parsed.yacc.namedTokens parsed.terminals
  ignored : List.Forall₂ (fun name token => parsed.yacc.Names token name) source.ignoredTerminals
    parsed.ignored

/-- **A grammar that `parse_source` comes to bind**: its text parses, with nothing in it that is
refused, and it has not too many named tokens. -/
structure SourceGrammar.Parses (new : String → Except (List String) YaccGrammar)
    (source : SourceGrammar) (maximumTerminals : ℕ) (yacc : YaccGrammar) : Prop where
  directives : rejectUnsupportedDirectives source.yacc = .ok ()
  text : new source.yacc = .ok yacc
  supported : rejectUnsupportedGrammar yacc = .ok ()
  named_le : yacc.namedTokens.length ≤ maximumTerminals

/-- **Names are bound, or an offender is named.** -/
theorem parseSource_settles {new : String → Except (List String) YaccGrammar}
    {source : SourceGrammar} {maximumTerminals : ℕ} {yacc : YaccGrammar}
    (hparses : source.Parses new maximumTerminals yacc) (hindexed : yacc.Indexed) :
    (∃ parsed, parseSource new source maximumTerminals = .ok parsed ∧
      source.Binds yacc ∧ parsed.yacc = yacc ∧ parsed.Resolved source) ∨
    ∃ failure, parseSource new source maximumTerminals = .error failure ∧
      source.Refused yacc failure := by
  rw [parseSource, hparses.directives, ok_bind, hparses.text]
  dsimp only [Except.mapError]
  rw [ok_bind, hparses.supported, ok_bind, if_neg (Nat.not_lt.mpr hparses.named_le)]
  have hdescribes := markProductions_describes hindexed (indexTokens_describes yacc)
  rcases @bindSpecs_describes _ _ source _ hdescribes with
    ⟨index, hindex, hdescribes, hnamed, hnodup⟩ | ⟨failure, hfailed, hrefused⟩
  · rw [hindex, ok_bind]
    rcases resolveTokens_resolves hdescribes with
      ⟨terminals, hterminals, hresolves⟩ | ⟨failure, hfailed, hrefused⟩
    · rw [hterminals, ok_bind]
      rcases resolveIgnored_settles hindexed hdescribes with
        ⟨ignored, hignored, index', hdone⟩ | ⟨failure, hfailed, hrefused⟩
      · rw [hignored, ok_bind]
        refine Or.inl ⟨_, rfl, ⟨hnodup, hnamed, fun token name hname => ?_, hdone.nodup,
          fun name hname => ?_, hdone.unread⟩, rfl, hresolves, hdone.tokens⟩
        · obtain ⟨terminal, -, spec, hspec, hsame, -⟩ := exists_of_mem_forall₂ hresolves
            (YaccGrammar.mem_namedTokens.mpr ⟨hname.1, by rw [hname.2]; rfl⟩)
          exact ⟨spec, hspec, Option.some.inj (hsame.symm.trans hname.2)⟩
        · obtain ⟨token, -, htoken⟩ := exists_of_mem_forall₂ hdone.tokens hname
          exact ⟨token, htoken⟩
      · rw [hfailed]
        exact Or.inr ⟨failure, rfl, hrefused⟩
    · rw [hfailed]
      exact Or.inr ⟨failure, rfl, hrefused⟩
  · rw [hfailed]
    exact Or.inr ⟨failure, rfl, hrefused⟩

/-- **Why a grammar does not come to be bound**: the first of the four checks that fails. -/
inductive SourceGrammar.Unparsed (new : String → Except (List String) YaccGrammar)
    (source : SourceGrammar) (maximumTerminals : ℕ) : CompileFailure → Prop
  | directive {failure : CompileFailure}
      (h : rejectUnsupportedDirectives source.yacc = .error failure) :
      Unparsed new source maximumTerminals failure
  | text {messages : List String} (directives : rejectUnsupportedDirectives source.yacc = .ok ())
      (h : new source.yacc = .error messages) :
      Unparsed new source maximumTerminals (.error (.grammarSyntax messages))
  | unsupported {yacc : YaccGrammar} {failure : CompileFailure}
      (directives : rejectUnsupportedDirectives source.yacc = .ok ())
      (text : new source.yacc = .ok yacc) (h : rejectUnsupportedGrammar yacc = .error failure) :
      Unparsed new source maximumTerminals failure
  | tooMany {yacc : YaccGrammar} (directives : rejectUnsupportedDirectives source.yacc = .ok ())
      (text : new source.yacc = .ok yacc) (supported : rejectUnsupportedGrammar yacc = .ok ())
      (h : maximumTerminals < yacc.namedTokens.length) :
      Unparsed new source maximumTerminals
        (.error (.tooManyTerminalSpecs yacc.namedTokens.length maximumTerminals))

/-- **A source comes to be bound, or a check in front of it fails.** -/
theorem parses_or_unparsed (new : String → Except (List String) YaccGrammar)
    (source : SourceGrammar) (maximumTerminals : ℕ) :
    (∃ yacc, source.Parses new maximumTerminals yacc) ∨
      ∃ failure, parseSource new source maximumTerminals = .error failure ∧
        source.Unparsed new maximumTerminals failure := by
  rw [parseSource]
  cases hdirectives : rejectUnsupportedDirectives source.yacc with
  | error failure => exact Or.inr ⟨failure, rfl, .directive hdirectives⟩
  | ok _ =>
    rw [ok_bind]
    cases htext : new source.yacc with
    | error messages => exact Or.inr ⟨_, rfl, .text hdirectives htext⟩
    | ok yacc =>
      dsimp only [Except.mapError]
      rw [ok_bind]
      cases hsupported : rejectUnsupportedGrammar yacc with
      | error failure => exact Or.inr ⟨failure, rfl, .unsupported hdirectives htext hsupported⟩
      | ok _ =>
        rw [ok_bind]
        by_cases hcount : yacc.namedTokens.length > maximumTerminals
        · rw [if_pos hcount]
          exact Or.inr ⟨_, rfl, .tooMany hdirectives htext hsupported hcount⟩
        · exact Or.inl ⟨yacc, hdirectives, htext, hsupported, Nat.not_lt.mp hcount⟩

theorem SourceGrammar.Unparsed.not_parses {new : String → Except (List String) YaccGrammar}
    {source : SourceGrammar} {maximumTerminals : ℕ} {failure : CompileFailure}
    (h : source.Unparsed new maximumTerminals failure) (yacc : YaccGrammar) :
    ¬ source.Parses new maximumTerminals yacc := by
  intro hparses
  cases h with
  | directive h => cases h.symm.trans hparses.directives
  | text _ h => cases h.symm.trans hparses.text
  | unsupported _ text h =>
    rw [Except.ok.inj (text.symm.trans hparses.text), hparses.supported] at h
    cases h
  | tooMany _ text _ h =>
    rw [Except.ok.inj (text.symm.trans hparses.text)] at h
    exact absurd hparses.named_le (Nat.not_le.mpr h)

theorem parses_of_parseSource {new : String → Except (List String) YaccGrammar}
    {source : SourceGrammar} {maximumTerminals : ℕ} {parsed : ParsedGrammar}
    (h : parseSource new source maximumTerminals = .ok parsed) :
    source.Parses new maximumTerminals parsed.yacc := by
  rw [parseSource] at h
  obtain ⟨_, hdirectives, h⟩ := bind_eq_ok.mp h
  obtain ⟨yacc, hnew, h⟩ := bind_eq_ok.mp h
  obtain ⟨_, hsupported, h⟩ := bind_eq_ok.mp h
  obtain ⟨hcount, h⟩ := ite_error_eq_ok.mp h
  obtain ⟨index, -, h⟩ := bind_eq_ok.mp h
  obtain ⟨terminals, -, h⟩ := bind_eq_ok.mp h
  obtain ⟨ignored, -, h⟩ := bind_eq_ok.mp h
  obtain rfl := Except.ok.inj h
  exact ⟨hdirectives, mapError_eq_ok.mp hnew, hsupported, Nat.not_lt.mp hcount⟩

theorem parseSource_resolved {new : String → Except (List String) YaccGrammar}
    {source : SourceGrammar} {maximumTerminals : ℕ} {parsed : ParsedGrammar}
    (h : parseSource new source maximumTerminals = .ok parsed) (hindexed : parsed.yacc.Indexed) :
    parsed.Resolved source := by
  rcases parseSource_settles (parses_of_parseSource h) hindexed with
    ⟨parsed', hrun, -, -, hresolved⟩ | ⟨failure, hrun, -⟩
  · rwa [Except.ok.inj (h.symm.trans hrun)]
  · cases h.symm.trans hrun

/-- **Parsing a source is exact.**  `parse_source` succeeds just if the text parses, to a grammar
with nothing in it that is refused and not too many named tokens, and the names fit; then the
terminals are the named tokens with the specifications of their names.  Otherwise the error is
that of the first check that fails, or it names an offender among the names. -/
theorem parseSource_exact {new : String → Except (List String) YaccGrammar}
    {source : SourceGrammar} {maximumTerminals : ℕ}
    (hindexed : ∀ yacc, new source.yacc = .ok yacc → yacc.Indexed) :
    ((∃ parsed, parseSource new source maximumTerminals = .ok parsed) ↔
        ∃ yacc, source.Parses new maximumTerminals yacc ∧ source.Binds yacc) ∧
      (∀ parsed, parseSource new source maximumTerminals = .ok parsed →
        source.Parses new maximumTerminals parsed.yacc ∧ source.Binds parsed.yacc ∧
          parsed.Resolved source) ∧
      ∀ failure, parseSource new source maximumTerminals = .error failure →
        source.Unparsed new maximumTerminals failure ∨
          ∃ yacc, source.Parses new maximumTerminals yacc ∧ source.Refused yacc failure := by
  rcases parses_or_unparsed new source maximumTerminals with
    ⟨yacc, hparses⟩ | ⟨failure, hfailed, hunparsed⟩
  · rcases parseSource_settles hparses (hindexed yacc hparses.text) with
      ⟨parsed, hrun, hbinds, rfl, hresolved⟩ | ⟨failure, hrun, hrefused⟩
    · refine ⟨⟨fun _ => ⟨parsed.yacc, hparses, hbinds⟩, fun _ => ⟨parsed, hrun⟩⟩,
        fun parsed' hrun' => ?_, fun failure hfailed => ?_⟩
      · rw [← Except.ok.inj (hrun.symm.trans hrun')]
        exact ⟨hparses, hbinds, hresolved⟩
      · cases hrun.symm.trans hfailed
    · refine ⟨⟨fun ⟨parsed, hok⟩ => ?_, fun ⟨yacc', hparses', hbinds⟩ => ?_⟩,
        fun parsed hok => ?_, fun failure' hfailed => ?_⟩
      · cases hrun.symm.trans hok
      · obtain ⟨e, -, hoffender⟩ := hrefused
        rw [← Except.ok.inj (hparses.text.symm.trans hparses'.text)] at hbinds
        exact absurd hbinds hoffender.not_binds
      · cases hrun.symm.trans hok
      · rw [← Except.error.inj (hrun.symm.trans hfailed)]
        exact Or.inr ⟨yacc, hparses, hrefused⟩
  · refine ⟨⟨fun ⟨parsed, hok⟩ => ?_, fun ⟨yacc, hparses, _⟩ => ?_⟩, fun parsed hok => ?_,
      fun failure' hfailed' => ?_⟩
    · cases hfailed.symm.trans hok
    · exact absurd hparses (hunparsed.not_parses yacc)
    · cases hfailed.symm.trans hok
    · rw [← Except.error.inj (hfailed.symm.trans hfailed')]
      exact Or.inl hunparsed

/-- The tokens of the grammar of one letter are told apart by their names. -/
theorem letterGrammar_indexed : letterGrammar.Indexed := by
  have hnamed : ∀ token name, letterGrammar.Names token name → token = 0 := by
    intro token name h
    by_contra hne
    have hname : (if token = 0 then some "A" else none) = some name := h.2
    rw [if_neg hne] at hname
    cases hname
  refine ⟨fun t t' name h h' => by rw [hnamed t name h, hnamed t' name h'],
    fun p hp t hmem => ?_⟩
  have hprod : GrammarSymbol.token t ∈
      if p = 0 then [GrammarSymbol.token 0] else [GrammarSymbol.rule 1] := hmem
  split_ifs at hprod
  · rw [GrammarSymbol.token.inj (List.mem_singleton.mp hprod)]
    decide
  · cases List.mem_singleton.mp hprod

/-- The source of one letter parses, and its names fit. -/
theorem parseSource_exact_letter :
    ∃ yacc, letterSource.Parses letterGenerators.yaccNew 65536 yacc ∧ letterSource.Binds yacc := by
  have hindexed : ∀ yacc, letterGenerators.yaccNew letterSource.yacc = .ok yacc → yacc.Indexed := by
    intro yacc h
    rw [← Except.ok.inj ((eq_ok_get _ (by decide +kernel)).symm.trans h)]
    exact letterGrammar_indexed
  exact (parseSource_exact hindexed).1.mp ⟨_, eq_ok_get _ (by decide +kernel)⟩

end GreatGramma
