import GreatGramma.Core.Spanner
import GreatGramma.Preparation.Singletons

/-!
# The inverse buckets are exact

A token *realizes* a head from a source when the scanner reads its bytes from there, and the head
is what the scanner emits followed by a head of the state it reaches.  Preparation turns this
around: it goes through the sources and the tokens and collects, for every source, which tokens
realize which head.

## Tables that grow

The heads are interned in one table for all sources.  It only grows, at its end, so a number that
was given out stays the number of its head, and what a finished row says about its heads is still
true when later rows intern more (`lists_grow`, `RowSound.grow`).  That is why each row can be
proved right when it is finished, over the table as it is then, and need not be looked at again.

## One token at a time

A row is built by three nested steps, and there is one lemma for each: a member is appended to the
bucket of one head (`appendMember_ok`), the continuations of one token are appended, one head for
every singleton terminal of the state that the token leads to (`appendContinuations_ok`), and this
is done for every token (`appendTokenContinuations_ok`).  `RowBuild.Sound` says of a row that is
being built what it lists, by a relation that grows from step to step; after the last token it is
the relation of realizing (`buildInverseRow_ok`).

`PreparedSpanner.Exact` is the result: token cells, singleton terminals and buckets all say
exactly what the scanner does.
-/

namespace GreatGramma

open Traversal

/-- From `state` the token reads its bytes and leaves the lexer where it can emit
the last terminal of the head next. -/
def ValidatedGrammar.Realizes (grammar : ValidatedGrammar) (state : LexerState)
    (token : TokenId) (head : List TerminalId) : Prop :=
  ∃ bytes state' em c, grammar.token token = some (.bytes bytes) ∧
    grammar.scanner.run state bytes = some (state', em) ∧ grammar.scanner.Head state' c ∧
    head = em ++ [c]

section
variable {grammar : ValidatedGrammar}

/-! ## Rows -/

/-- The row lists the token under the head. -/
def Lists (sequences : List (List TerminalId)) (row : List InverseBucket)
    (head : List TerminalId) (token : TokenId) : Prop :=
  ∃ (i : ℕ) (bucket : InverseBucket), row[i]? = some bucket ∧
    sequences[bucket.sequence]? = some head ∧ token ∈ bucket.tokens

/-- Buckets are not empty, and their heads are interned. -/
def RowSound (sequences : List (List TerminalId)) (row : List InverseBucket) : Prop :=
  ∀ (i : ℕ) (bucket : InverseBucket), row[i]? = some bucket →
    bucket.tokens ≠ [] ∧ bucket.sequence < sequences.length

theorem prefix_getElem? {α : Type} {xs ys : List α} {i : ℕ} (h : xs <+: ys)
    (hi : i < xs.length) : ys[i]? = xs[i]? := by
  obtain ⟨added, rfl⟩ := h
  exact List.getElem?_append_left hi

theorem RowSound.grow {sequences sequences' : List (List TerminalId)} {row : List InverseBucket}
    (h : RowSound sequences row) (hgrow : sequences <+: sequences') : RowSound sequences' row :=
  fun i bucket hbucket =>
    ⟨(h i bucket hbucket).1, Nat.lt_of_lt_of_le (h i bucket hbucket).2 hgrow.length_le⟩

theorem lists_grow {sequences sequences' : List (List TerminalId)} {row : List InverseBucket}
    (h : RowSound sequences row) (hgrow : sequences <+: sequences') (head : List TerminalId)
    (token : TokenId) : Lists sequences' row head token ↔ Lists sequences row head token := by
  constructor
  · rintro ⟨i, bucket, hbucket, hhead, hmem⟩
    rw [prefix_getElem? hgrow (h i bucket hbucket).2] at hhead
    exact ⟨i, bucket, hbucket, hhead, hmem⟩
  · rintro ⟨i, bucket, hbucket, hhead, hmem⟩
    rw [← prefix_getElem? hgrow (h i bucket hbucket).2] at hhead
    exact ⟨i, bucket, hbucket, hhead, hmem⟩

/-! ## Interning

A head is searched for before it is added.  The search returns the first number of the head, or
finds that it is not in the table. -/

theorem findSequenceFrom_ok {head : List TerminalId} {headLen index found : ℕ}
    {sequences : List (List TerminalId)} {work work' : WorkBudget}
    (h : findSequenceFrom head headLen index sequences work = .ok (work', some found)) :
    index ≤ found ∧ sequences[found - index]? = some head := by
  induction sequences generalizing index work with
  | nil => cases h
  | cons sequence sequences ih =>
    rw [findSequenceFrom, bind_eq_ok] at h
    obtain ⟨_, -, h⟩ := h
    split_ifs at h with hsame
    · cases h
      rw [Nat.sub_self]
      exact ⟨Nat.le_refl _, congrArg some hsame⟩
    · obtain ⟨hle, hget⟩ := ih h
      have hnext : found - index = found - (index + 1) + 1 := by omega
      rw [hnext, List.getElem?_cons_succ]
      exact ⟨by omega, hget⟩

theorem findSequenceFrom_none {head : List TerminalId} {headLen index : ℕ}
    {sequences : List (List TerminalId)} {work work' : WorkBudget}
    (h : findSequenceFrom head headLen index sequences work = .ok (work', none)) :
    head ∉ sequences := by
  induction sequences generalizing index work with
  | nil => exact List.not_mem_nil
  | cons sequence sequences ih =>
    rw [findSequenceFrom, bind_eq_ok] at h
    obtain ⟨_, -, h⟩ := h
    split_ifs at h with hsame
    · cases h
    · rintro (_ | ⟨_, hmem⟩)
      · exact hsame rfl
      · exact ih h hmem

theorem sequenceId_ok {index : ℕ} {sequence : SequenceId} (h : sequenceId index = .ok sequence) :
    sequence = index := by
  unfold sequenceId at h
  split at h
  · cases h
  · rename_i hfit
    cases h
    exact (u32TryFrom_eq_some.mp hfit).2.symm

/-- **What interning a head does**: the head is there already and keeps its number, or it is
new and gets the next one. -/
theorem internHead_cases {table table' : SequenceTable} {direct : List TerminalId} {c : TerminalId}
    {limits : PreparationLimits} {work work' : WorkBudget} {sequence : SequenceId}
    (h : table.internHead direct c limits work = .ok (table', work', sequence)) :
    (table' = table ∧ table.sequences[sequence]? = some (direct ++ [c])) ∨
      (direct ++ [c] ∉ table.sequences ∧ sequence = table.sequences.length ∧
        table'.singletons = table.singletons ∧
        table'.sequences = table.sequences ++ [direct ++ [c]]) := by
  simp only [SequenceTable.internHead, bind_eq_ok] at h
  obtain ⟨headLen, -, _, -, ⟨_, found⟩, hfind, h⟩ := h
  cases found with
  | some index =>
    simp only [bind_eq_ok] at h
    obtain ⟨sequence', hid, h⟩ := h
    cases h
    obtain rfl := sequenceId_ok hid
    exact Or.inl ⟨rfl, (findSequenceFrom_ok hfind).2⟩
  | none =>
    simp only [bind_eq_ok] at h
    obtain ⟨_, -, sequence', hid, _, -, h⟩ := h
    cases h
    exact Or.inr ⟨findSequenceFrom_none hfind, sequenceId_ok hid, rfl, rfl⟩

/-- **Interning a head**: the table grows, and the head has the number returned. -/
theorem internHead_ok {table table' : SequenceTable} {direct : List TerminalId} {c : TerminalId}
    {limits : PreparationLimits} {work work' : WorkBudget} {sequence : SequenceId}
    (h : table.internHead direct c limits work = .ok (table', work', sequence)) :
    table'.singletons = table.singletons ∧ table.sequences <+: table'.sequences ∧
      table'.sequences[sequence]? = some (direct ++ [c]) ∧
      ∀ head ∈ table'.sequences, head ∈ table.sequences ∨ head = direct ++ [c] := by
  rcases internHead_cases h with ⟨rfl, hget⟩ | ⟨-, rfl, hsingletons, hsequences⟩
  · exact ⟨rfl, List.prefix_refl _, hget, fun head hhead => Or.inl hhead⟩
  · rw [hsequences]
    refine ⟨hsingletons, List.prefix_append _ _, List.getElem?_concat_length, fun head hhead => ?_⟩
    rcases List.mem_append.mp hhead with hold | hnew
    · exact Or.inl hold
    · exact Or.inr (List.mem_singleton.mp hnew)

/-- **What appending a member does**: the bucket of the head is one token longer, or there
was none and one is added. -/
theorem appendMember_cases {row row' : List InverseBucket} {sequence : SequenceId}
    {token : TokenId} {limits : PreparationLimits} {work work' : WorkBudget}
    (h : appendMember row sequence token limits work = .ok (row', work')) :
    (∃ (index : ℕ) (entry : InverseBucket), row[index]? = some entry ∧
        entry.sequence = sequence ∧
        row' = row.set index { entry with tokens := entry.tokens ++ [token] }) ∨
      ((∀ bucket ∈ row, bucket.sequence ≠ sequence) ∧ row' = row ++ [⟨sequence, [token]⟩]) := by
  simp only [appendMember, bind_eq_ok] at h
  obtain ⟨_, -, h⟩ := h
  cases hindex : bucketIndex row sequence with
  | some index =>
    obtain ⟨hlt, hfound, -⟩ := List.findIdx?_eq_some_iff_getElem.mp hindex
    have hentry := List.getElem?_eq_getElem hlt
    simp only [hindex, hentry, appendExistingMember, bind_eq_ok] at h
    obtain ⟨_, -, _, hset, h⟩ := h
    cases hset
    cases h
    exact Or.inl ⟨index, row[index], hentry, beq_iff_eq.mp hfound, rfl⟩
  | none =>
    simp only [hindex, bind_eq_ok] at h
    obtain ⟨_, -, h⟩ := h
    cases h
    refine Or.inr ⟨fun bucket hbucket heq => ?_, rfl⟩
    have hno := List.findIdx?_eq_none_iff.mp hindex bucket hbucket
    rw [heq, beq_self_eq_true] at hno
    cases hno

section
variable {sequences : List (List TerminalId)} {row : List InverseBucket} {head : List TerminalId}
  {token : TokenId}

theorem getElem?_set_bucket {index : ℕ} {entry : InverseBucket} (hentry : row[index]? = some entry)
    (longer : InverseBucket) (i : ℕ) :
    (row.set index longer)[i]? = if index = i then some longer else row[i]? := by
  have hlt := (List.getElem?_eq_some_iff.mp hentry).1
  by_cases hi : index = i
  · rw [if_pos hi, ← hi, List.getElem?_set_self hlt]
  · rw [if_neg hi, List.getElem?_set_ne hi]

theorem lists_set {index : ℕ} {entry : InverseBucket} (hentry : row[index]? = some entry)
    (hhead : sequences[entry.sequence]? = some head) (head' : List TerminalId) (token' : TokenId) :
    Lists sequences (row.set index { entry with tokens := entry.tokens ++ [token] }) head' token' ↔
      Lists sequences row head' token' ∨ (head' = head ∧ token' = token) := by
  have hat := getElem?_set_bucket hentry { entry with tokens := entry.tokens ++ [token] }
  constructor
  · rintro ⟨i, bucket, hbucket, hhead', hmem⟩
    rw [hat] at hbucket
    split_ifs at hbucket with hi
    · cases hbucket
      rcases List.mem_append.mp hmem with hmem | hmem
      · exact Or.inl ⟨index, entry, hentry, hhead', hmem⟩
      · exact Or.inr ⟨Option.some.inj (hhead'.symm.trans hhead), List.mem_singleton.mp hmem⟩
    · exact Or.inl ⟨i, bucket, hbucket, hhead', hmem⟩
  · rintro (⟨i, bucket, hbucket, hhead', hmem⟩ | ⟨rfl, rfl⟩)
    · by_cases hi : index = i
      · obtain rfl : entry = bucket := Option.some.inj (hentry.symm.trans (hi ▸ hbucket))
        exact ⟨i, _, (hat i).trans (if_pos hi), hhead', List.mem_append_left _ hmem⟩
      · exact ⟨i, bucket, by rw [hat, if_neg hi, hbucket], hhead', hmem⟩
    · exact ⟨index, _, (hat index).trans (if_pos rfl), hhead,
        List.mem_append_right _ (List.mem_singleton_self _)⟩

theorem lists_concat {sequence : SequenceId} (hhead : sequences[sequence]? = some head)
    (head' : List TerminalId) (token' : TokenId) :
    Lists sequences (row ++ [⟨sequence, [token]⟩]) head' token' ↔
      Lists sequences row head' token' ∨ (head' = head ∧ token' = token) := by
  constructor
  · rintro ⟨i, bucket, hbucket, hhead', hmem⟩
    rcases getElem?_concat_eq_some.mp hbucket with hold | ⟨-, rfl⟩
    · exact Or.inl ⟨i, bucket, hold, hhead', hmem⟩
    · exact Or.inr ⟨Option.some.inj (hhead'.symm.trans hhead), List.mem_singleton.mp hmem⟩
  · rintro (⟨i, bucket, hbucket, hhead', hmem⟩ | ⟨rfl, rfl⟩)
    · exact ⟨i, bucket, getElem?_concat_eq_some.mpr (Or.inl hbucket), hhead', hmem⟩
    · exact ⟨row.length, _, List.getElem?_concat_length, hhead, List.mem_singleton_self _⟩

end

/-- **Appending a member**: the row lists one token more under the head. -/
theorem appendMember_ok {sequences : List (List TerminalId)} {row row' : List InverseBucket}
    {sequence : SequenceId} {head : List TerminalId} {token : TokenId}
    {limits : PreparationLimits} {work work' : WorkBudget}
    (hsequence : sequences[sequence]? = some head) (hrow : RowSound sequences row)
    (h : appendMember row sequence token limits work = .ok (row', work')) :
    RowSound sequences row' ∧ ∀ head' token', Lists sequences row' head' token' ↔
      Lists sequences row head' token' ∨ (head' = head ∧ token' = token) := by
  obtain ⟨hlt, -⟩ := List.getElem?_eq_some_iff.mp hsequence
  rcases appendMember_cases h with ⟨index, entry, hentry, rfl, rfl⟩ | ⟨-, rfl⟩
  · refine ⟨fun i bucket hbucket => ?_, lists_set hentry hsequence⟩
    rw [getElem?_set_bucket hentry] at hbucket
    split_ifs at hbucket with hi
    · cases hbucket
      exact ⟨by simp, hlt⟩
    · exact hrow i bucket hbucket
  · refine ⟨fun i bucket hbucket => ?_, lists_concat hsequence⟩
    rcases getElem?_concat_eq_some.mp hbucket with hold | ⟨-, rfl⟩
    · exact hrow i bucket hold
    · exact ⟨List.cons_ne_nil _ _, hlt⟩

/-! ## Building a row

The row and the table of heads are built together, since a head that is new to the row may be new
to the table. -/

/-- The singleton terminals of every source are the heads of its state. -/
def SequenceTable.SingletonsExact (grammar : ValidatedGrammar) (table : SequenceTable) : Prop :=
  ∀ {state : LexerState}, state.Valid grammar.lexer →
    ∃ row, table.singleton state.index = some row ∧ ∀ t, t ∈ row ↔ grammar.scanner.Head state t

/-- Every interned head is one the lexer can emit. -/
def SequenceTable.HeadsSound (grammar : ValidatedGrammar) (table : SequenceTable) : Prop :=
  ∀ head ∈ table.sequences, ∃ direct c, head = direct ++ [c] ∧ grammar.lalr.Emittable head

/-- What holds while a row is built: `P` says what it lists. -/
structure RowBuild.Sound (grammar : ValidatedGrammar) (start : SequenceTable)
    (P : List TerminalId → TokenId → Prop) (build : RowBuild) : Prop where
  grows : start.sequences <+: build.sequences.sequences
  singletons : build.sequences.singletons = start.singletons
  heads : build.sequences.HeadsSound grammar
  row : RowSound build.sequences.sequences build.row
  lists : ∀ head token, Lists build.sequences.sequences build.row head token ↔ P head token

theorem appendContinuation_ok {start : SequenceTable} {P : List TerminalId → TokenId → Prop}
    {destination singleton : ℕ} {emitted : List TerminalId} {token : TokenId} {c : TerminalId}
    {limits : PreparationLimits} {build build' : RowBuild} (hbuild : build.Sound grammar start P)
    (hsingleton : start.singletonTerminal destination singleton = some c)
    (hhead : grammar.lalr.Emittable (emitted ++ [c]))
    (h : appendContinuation destination singleton emitted token limits build = .ok build') :
    build'.Sound grammar start
      (fun head t => P head t ∨ (head = emitted ++ [c] ∧ t = token)) := by
  simp only [appendContinuation, bind_eq_ok] at h
  obtain ⟨work, -, h⟩ := h
  have hsame : build.sequences.singletonTerminal destination singleton = some c := by
    rw [← hsingleton]
    simp only [SequenceTable.singletonTerminal, hbuild.singletons]
  simp only [hsame, bind_eq_ok] at h
  obtain ⟨⟨sequences, _, sequence⟩, hintern, ⟨row, _⟩, hmember, h⟩ := h
  cases h
  obtain ⟨hsingletons, hgrow, hsequence, hheads⟩ := internHead_ok hintern
  obtain ⟨hrow, hlists⟩ := appendMember_ok hsequence (hbuild.row.grow hgrow) hmember
  refine ⟨hbuild.grows.trans hgrow, hsingletons.trans hbuild.singletons, ?_, hrow, ?_⟩
  · intro head hmem
    rcases hheads head hmem with hmem | rfl
    · exact hbuild.heads head hmem
    · exact ⟨emitted, c, rfl, hhead⟩
  · intro head t
    rw [hlists head t, lists_grow hbuild.row hgrow, hbuild.lists head t]

theorem RowBuild.Sound.congr {start : SequenceTable} {P Q : List TerminalId → TokenId → Prop}
    {build : RowBuild} (h : build.Sound grammar start P) (hPQ : ∀ head t, P head t ↔ Q head t) :
    build.Sound grammar start Q :=
  ⟨h.grows, h.singletons, h.heads, h.row, fun head t => (h.lists head t).trans (hPQ head t)⟩

theorem appendContinuations_ok {start : SequenceTable} {P : List TerminalId → TokenId → Prop}
    {destination : ℕ} {emitted singles : List TerminalId} {token : TokenId}
    {limits : PreparationLimits} {build build' : RowBuild} (hbuild : build.Sound grammar start P)
    (hsingles : start.singleton destination = some singles)
    (hheads : ∀ c ∈ singles, grammar.lalr.Emittable (emitted ++ [c]))
    (h : appendContinuations destination emitted token limits build = .ok build') :
    build'.Sound grammar start
      (fun head t => P head t ∨ (t = token ∧ ∃ c ∈ singles, head = emitted ++ [c])) := by
  have hsame : build.sequences.singletons[destination]? = some singles := by
    rw [hbuild.singletons]
    exact hsingles
  simp only [appendContinuations, SequenceTable.singletonCount, hsame, Option.bind_eq_bind,
    Option.bind_some] at h
  have hloop := foldlM_range_ok
    (I := fun i (s : RowBuild) => s.Sound grammar start
      (fun head t => P head t ∨ (t = token ∧ ∃ c ∈ singles.take i, head = emitted ++ [c])))
    h (hbuild.congr fun head t => by simp) ?_
  · rwa [List.take_length] at hloop
  · intro i s s' hi hs hstep
    have hc : start.singletonTerminal destination i = some singles[i] := by
      simp only [SequenceTable.singleton] at hsingles
      simp only [SequenceTable.singletonTerminal, hsingles, Option.bind_eq_bind, Option.bind_some]
      exact List.getElem?_eq_getElem hi
    refine (appendContinuation_ok hs hc (hheads _ (List.getElem_mem hi)) hstep).congr ?_
    intro head t
    rw [List.take_succ_eq_append_getElem hi]
    simp only [List.mem_append, List.mem_singleton]
    constructor
    · rintro ((h | ⟨ht, c, hc, rfl⟩) | ⟨rfl, rfl⟩)
      · exact Or.inl h
      · exact Or.inr ⟨ht, c, Or.inl hc, rfl⟩
      · exact Or.inr ⟨rfl, _, Or.inr rfl, rfl⟩
    · rintro (h | ⟨ht, c, hc | rfl, rfl⟩)
      · exact Or.inl (Or.inl h)
      · exact Or.inl (Or.inr ⟨ht, c, hc, rfl⟩)
      · exact Or.inr ⟨rfl, ht⟩

/-- **One token of a row, case by case**: it realizes nothing and leaves the heads and
the row alone, or its bytes lead to a state whose singleton terminals continue what they
emit. -/
theorem appendTokenContinuations_cases {tokenTable : PreparedTokenTable} {state : LexerState}
    {token : TokenId} {limits : PreparationLimits} {build build' : RowBuild} {members members' : ℕ}
    (htable : tokenTable.Exact grammar) (hvalid : state.Valid grammar.lexer)
    (htoken : token < grammar.tokenCount)
    (h : appendTokenContinuations grammar tokenTable state.index token limits build members =
      .ok (build', members')) :
    (build'.sequences = build.sequences ∧ build'.row = build.row ∧
        ∀ head, ¬ grammar.Realizes state token head) ∨
      ∃ bytes state' em work, grammar.token token = some (.bytes bytes) ∧
        grammar.scanner.run state bytes = some (state', em) ∧
        appendContinuations state'.index em token limits { build with work } = .ok build' := by
  obtain ⟨entry, hentry⟩ := Option.isSome_iff_exists.mp (grammar.token_isSome.mpr htoken)
  simp only [appendTokenContinuations, htable.cell hvalid hentry, bind_eq_ok] at h
  obtain ⟨work, -, h⟩ := h
  cases entry with
  | eos =>
    have hrealizes : ∀ head, ¬ grammar.Realizes state token head := by
      rintro head ⟨bytes, _, _, _, hbytes, -⟩
      rw [hentry] at hbytes
      cases hbytes
    simp only [ValidatedGrammar.tokenEffect] at h
    cases hflush : grammar.scanner.flush state with
    | none =>
      simp only [hflush, Option.map_none] at h
      cases h
      exact Or.inl ⟨rfl, rfl, hrealizes⟩
    | some label =>
      simp only [hflush, Option.map_some] at h
      cases h
      exact Or.inl ⟨rfl, rfl, hrealizes⟩
  | bytes bytes =>
    simp only [ValidatedGrammar.tokenEffect] at h
    cases hrun : grammar.scanner.run state bytes with
    | none =>
      have hrealizes : ∀ head, ¬ grammar.Realizes state token head := by
        rintro head ⟨bytes', state', em, c, hbytes, hrun', -⟩
        rw [hentry] at hbytes
        cases hbytes
        rw [hrun] at hrun'
        cases hrun'
      simp only [hrun, Option.map_none] at h
      cases h
      exact Or.inl ⟨rfl, rfl, hrealizes⟩
    | some out =>
      obtain ⟨state', em⟩ := out
      have hvalid' := ValidatedGrammar.scanner_run_valid hvalid hrun
      simp only [hrun, Option.map_some, sourceIndex_eq hvalid'] at h
      split at h
      · simp only [bind_eq_ok] at h
        obtain ⟨_, -, build₁, happend, h⟩ := h
        cases h
        exact Or.inr ⟨bytes, state', em, work, hentry, hrun, happend⟩
      · cases h

/-- The heads that a token with known bytes realizes. -/
theorem ValidatedGrammar.realizes_iff {state state' : LexerState} {token : TokenId}
    {bytes : List UInt8} {em singles head : List TerminalId}
    (hentry : grammar.token token = some (.bytes bytes))
    (hrun : grammar.scanner.run state bytes = some (state', em))
    (hmem : ∀ c, c ∈ singles ↔ grammar.scanner.Head state' c) :
    (∃ c ∈ singles, head = em ++ [c]) ↔ grammar.Realizes state token head := by
  constructor
  · rintro ⟨c, hc, rfl⟩
    exact ⟨bytes, state', em, c, hentry, hrun, (hmem c).mp hc, rfl⟩
  · rintro ⟨bytes', state'', em', c, hbytes, hrun', hc, rfl⟩
    rw [hentry] at hbytes
    cases hbytes
    rw [hrun] at hrun'
    cases hrun'
    exact ⟨c, (hmem c).mpr hc, rfl⟩

/-- **One token of a row.** -/
theorem appendTokenContinuations_ok {tokenTable : PreparedTokenTable} {start : SequenceTable}
    {P : List TerminalId → TokenId → Prop} {state : LexerState} {token : TokenId}
    {limits : PreparationLimits} {build build' : RowBuild} {members members' : ℕ}
    (htable : tokenTable.Exact grammar) (hsingletons : start.SingletonsExact grammar)
    (hvalid : state.Valid grammar.lexer) (htoken : token < grammar.tokenCount)
    (hbuild : build.Sound grammar start P)
    (h : appendTokenContinuations grammar tokenTable state.index token limits build members =
      .ok (build', members')) :
    build'.Sound grammar start
      (fun head t => P head t ∨ (t = token ∧ grammar.Realizes state token head)) := by
  rcases appendTokenContinuations_cases htable hvalid htoken h with
    ⟨hsequences, hrow, hrealizes⟩ | ⟨bytes, state', em, work, hentry, hrun, happend⟩
  · refine (?_ : build'.Sound grammar start P).congr fun head t => ⟨Or.inl, ?_⟩
    · obtain ⟨sequences, row, work⟩ := build'
      obtain rfl : sequences = build.sequences := hsequences
      obtain rfl : row = build.row := hrow
      exact ⟨hbuild.grows, hbuild.singletons, hbuild.heads, hbuild.row, hbuild.lists⟩
    · rintro (hP | ⟨-, hr⟩)
      · exact hP
      · exact absurd hr (hrealizes head)
  · obtain ⟨singles, hsingles, hmem⟩ :=
      hsingletons (ValidatedGrammar.scanner_run_valid hvalid hrun)
    have hstart : RowBuild.Sound grammar start P { build with work } :=
      ⟨hbuild.grows, hbuild.singletons, hbuild.heads, hbuild.row, hbuild.lists⟩
    refine (appendContinuations_ok hstart hsingles ?_ happend).congr ?_
    · intro c hc
      exact (ValidatedGrammar.scanner_run_emittable hrun).append
        (ValidatedGrammar.scanner_head_emittable ((hmem c).mp hc))
    · intro head t
      exact or_congr Iff.rfl
        (and_congr Iff.rfl (ValidatedGrammar.realizes_iff hentry hrun hmem))

/-- **A finished row** lists every token under every head it realizes. -/
theorem buildInverseRow_ok {tokenTable : PreparedTokenTable} {start : SequenceTable}
    {state : LexerState} {limits : PreparationLimits} {work : WorkBudget} {build : RowBuild}
    {members members' : ℕ} (htable : tokenTable.Exact grammar)
    (hsingletons : start.SingletonsExact grammar) (hheads : start.HeadsSound grammar)
    (hvalid : state.Valid grammar.lexer)
    (h : buildInverseRow grammar tokenTable start state.index limits work members =
      .ok (build, members')) :
    build.Sound grammar start (fun head t => grammar.Realizes state t head) := by
  have hloop := foldlM_range_ok
    (I := fun i (s : RowBuild × ℕ) => s.1.Sound grammar start
      (fun head t => t < i ∧ grammar.Realizes state t head))
    h ⟨List.prefix_refl _, rfl, hheads, fun i bucket hbucket => (by cases hbucket), ?_⟩ ?_
  · refine hloop.congr fun head t => ⟨And.right, fun hr => ⟨?_, hr⟩⟩
    obtain ⟨bytes, _, _, _, hbytes, -⟩ := hr
    rw [← grammar.token_isSome, hbytes]
    rfl
  · intro head t
    constructor
    · rintro ⟨i, bucket, hbucket, -⟩
      cases hbucket
    · rintro ⟨ht, -⟩
      exact absurd ht (Nat.not_lt_zero t)
  · rintro i ⟨s, m⟩ ⟨s', m'⟩ hi hs hstep
    refine (appendTokenContinuations_ok htable hsingletons hvalid hi hs hstep).congr ?_
    exact fun head t => (lt_succ_and_iff (P := fun t => grammar.Realizes state t head)).symm

/-! ## The spanner -/

/-- The row of a source, over the finished table of heads. -/
def RowExact (grammar : ValidatedGrammar) (sequences : List (List TerminalId))
    (state : LexerState) (row : List InverseBucket) : Prop :=
  RowSound sequences row ∧
    ∀ head token, Lists sequences row head token ↔ grammar.Realizes state token head

/-- **The spanner says what the scanner does.** -/
structure PreparedSpanner.Exact (grammar : ValidatedGrammar) (spanner : PreparedSpanner) :
    Prop where
  tokens : spanner.tokenTable.Exact grammar
  singletons : spanner.sequences.SingletonsExact grammar
  heads : spanner.sequences.HeadsSound grammar
  rows : ∀ {state : LexerState}, state.Valid grammar.lexer →
    ∃ row, spanner.inverse[state.index]? = some row ∧
      RowExact grammar spanner.sequences.sequences state row

theorem buildInverseRows_ok {tokenTable : PreparedTokenTable} {start : SequenceTable}
    {limits : PreparationLimits} {work : WorkBudget} {built : InverseBuild}
    (htable : tokenTable.Exact grammar) (hsingletons : start.SingletonsExact grammar)
    (hheads : start.HeadsSound grammar)
    (h : buildInverseRows grammar tokenTable start grammar.sources limits work = .ok built) :
    built.sequences.SingletonsExact grammar ∧ built.sequences.HeadsSound grammar ∧
      Filled (fun source row => RowExact grammar built.sequences.sequences (.ofIndex source) row)
        grammar.sources built.inverse := by
  refine foldlM_range_ok
    (I := fun i (s : InverseBuild) => s.sequences.SingletonsExact grammar ∧
      s.sequences.HeadsSound grammar ∧
      Filled (fun source row => RowExact grammar s.sequences.sequences (.ofIndex source) row)
        i s.inverse)
    h ⟨hsingletons, hheads, Filled.nil⟩ ?_
  rintro i s s' hi ⟨hs, hh, hrows⟩ hstep
  simp only [bind_eq_ok] at hstep
  obtain ⟨⟨build, members⟩, hrow, hstep⟩ := hstep
  cases hstep
  have hvalid := LexerState.ofIndex_valid hi
  rw [← LexerState.index_ofIndex i] at hrow
  have hbuild := buildInverseRow_ok htable hs hh hvalid hrow
  refine ⟨?_, hbuild.heads, Filled.push (hrows.mono ?_) ⟨hbuild.row, hbuild.lists⟩⟩
  · intro state hstate
    simp only [SequenceTable.singleton, hbuild.singletons]
    exact hs hstate
  · rintro source row ⟨hsound, hlists⟩
    exact ⟨hsound.grow hbuild.grows, fun head t =>
      (lists_grow hsound hbuild.grows head t).trans (hlists head t)⟩

/-- **Preparing the spanner makes it exact.** -/
theorem prepareSpannerWithBudget_exact {limits : PreparationLimits} {work work' : WorkBudget}
    {spanner : PreparedSpanner}
    (h : prepareSpannerWithBudget grammar limits work = .ok (spanner, work')) :
    spanner.Exact grammar := by
  simp only [prepareSpannerWithBudget, bind_eq_ok] at h
  obtain ⟨⟨_, tokenTable⟩, htokens, ⟨_, sequences⟩, hsingletons, built, hrows, h⟩ := h
  cases h
  have htable := prepareTokenTable_exact htokens
  obtain ⟨hempty, hexact⟩ := buildSingletons_exact hsingletons
  have hheads : sequences.HeadsSound grammar := by
    intro head hmem
    rw [hempty] at hmem
    cases hmem
  rw [htable.sources] at hrows
  obtain ⟨hs, hh, hfilled⟩ := buildInverseRows_ok htable hexact hheads hrows
  refine ⟨htable, hs, hh, fun {state} hvalid => ?_⟩
  obtain ⟨row, hrow, hexact⟩ := hfilled.get (LexerState.index_lt.mpr hvalid)
  rw [LexerState.ofIndex_index] at hexact
  exact ⟨row, hrow, hexact⟩

end
end GreatGramma
