import Mathlib.Data.List.Nodup
import GreatGramma.Preparation.Buckets

/-!
# Nothing is listed twice

The buckets say the right things (`Preparation.Buckets`); here they say each of them once, and in
order.  Both are needed for the queries, which take the first entry that fits and look no further.

## Where the order comes from

Nothing is ever sorted.  Singleton terminals come out of a loop over all terminals, so they
increase.  Heads are searched before they are interned, so they are distinct, and so are the
numbers of the buckets of a row.  Tokens are taken in order, and a token that is later than all
that the row lists under a head goes to the end of its bucket (`appendMember_sorted`).

One thing could still spoil this: a token that realizes one head twice would be put into its
bucket twice.  It does not happen, since the heads of one token are what it emits, followed by one
of the singleton terminals of the state that it leads to; and these are distinct, because they
increase (`SequenceTable.SingletonsSorted.nodup`).

## What is carried along

`RowBuild.Ordered` is the invariant of the loops, beside the one for what the row says.  Its last
field says that every head interned on the way is listed by the row, so the table of heads holds
none that no token realizes (`buildInverseRows_ordered`).

With that the queries of the spanner are exact: the heads are those that some token realizes, and
the tokens found under a head are those that realize it.
-/

namespace GreatGramma

open Traversal

section
variable {grammar : ValidatedGrammar}

/-! ## Singleton terminals increase -/

theorem collectSingletons_sorted {seen : List UInt8} {source terminalCount : ℕ}
    {row : List TerminalId} (h : collectSingletons seen source terminalCount = .ok row) :
    row.Pairwise (· < ·) := by
  have hloop := foldlM_range_ok
    (I := fun i (row : List TerminalId) => row.Pairwise (· < ·) ∧ ∀ t ∈ row, t < i)
    h ⟨List.Pairwise.nil, fun t ht => absurd ht List.not_mem_nil⟩ ?_
  · exact hloop.1
  · rintro i row row' - ⟨hsorted, hlt⟩ hstep
    have hkeep : ∀ t ∈ row, t < i + 1 := fun t ht => Nat.lt_succ_of_lt (hlt t ht)
    simp only [collectSingleton, bind_eq_ok] at hstep
    obtain ⟨index, -, hstep⟩ := hstep
    split at hstep
    · split_ifs at hstep with hzero
      · split at hstep
        · rename_i terminal hterminal
          obtain ⟨-, rfl⟩ := u32TryFrom_eq_some.mp hterminal
          cases hstep
          refine ⟨List.pairwise_append.mpr ⟨hsorted, List.pairwise_singleton _ _, ?_⟩, ?_⟩
          · intro t ht u hu
            rw [List.mem_singleton.mp hu]
            exact hlt t ht
          · intro t ht
            rcases List.mem_append.mp ht with ht | ht
            · exact hkeep t ht
            · rw [List.mem_singleton.mp ht]
              exact Nat.lt_succ_self i
        · cases hstep
      · cases hstep
        exact ⟨hsorted, hkeep⟩
    · cases hstep

/-- Every row of singleton terminals increases. -/
def SequenceTable.SingletonsSorted (table : SequenceTable) : Prop :=
  ∀ row ∈ table.singletons, row.Pairwise (· < ·)

theorem buildSingletons_sorted {limits : PreparationLimits} {work work' : WorkBudget}
    {table : SequenceTable} (h : buildSingletons grammar limits work = .ok (work', table)) :
    table.SingletonsSorted := by
  simp only [buildSingletons, sourceCount_eq, bind_eq_ok] at h
  obtain ⟨_, hsources, _, -, _, -, _, -, scan, -, ⟨known, _⟩, -, ⟨_, singletons⟩, hsingletons, h⟩ :=
    h
  cases h
  refine foldlM_range_ok
    (I := fun _ (s : WorkBudget × List (List TerminalId)) => ∀ row ∈ s.2, row.Pairwise (· < ·))
    hsingletons (fun row hrow => absurd hrow List.not_mem_nil) ?_
  rintro i ⟨w, rows⟩ ⟨w', rows'⟩ - hrows hstep
  simp only [collectSingletonRow, bind_eq_ok] at hstep
  obtain ⟨⟨_, row⟩, ⟨_, -, row', hrow, hpair⟩, hstep⟩ := hstep
  cases hpair
  cases hstep
  intro r hr
  rcases List.mem_append.mp hr with hr | hr
  · exact hrows r hr
  · rw [List.mem_singleton.mp hr]
    exact collectSingletons_sorted hrow

/-! ## Heads are distinct -/

theorem internHead_nodup {table table' : SequenceTable} {direct : List TerminalId} {c : TerminalId}
    {limits : PreparationLimits} {work work' : WorkBudget} {sequence : SequenceId}
    (htable : table.sequences.Nodup)
    (h : table.internHead direct c limits work = .ok (table', work', sequence)) :
    table'.sequences.Nodup := by
  rcases internHead_cases h with ⟨rfl, -⟩ | ⟨hnew, -, -, hsequences⟩
  · exact htable
  · rw [hsequences]
    refine List.nodup_append.mpr
      ⟨htable, List.pairwise_singleton _ _, fun head hhead head' hhead' heq => ?_⟩
    exact hnew (List.mem_singleton.mp hhead' ▸ heq ▸ hhead)

/-! ## Rows -/

/-- The buckets of a row have different heads, and their tokens increase. -/
structure RowSorted (row : List InverseBucket) : Prop where
  distinct : (row.map InverseBucket.sequence).Nodup
  tokens : ∀ bucket ∈ row, bucket.tokens.Pairwise (· < ·)

/-- **Appending a member** after all that its bucket holds keeps the row sorted. -/
theorem appendMember_sorted {row row' : List InverseBucket} {sequence : SequenceId}
    {token : TokenId} {limits : PreparationLimits} {work work' : WorkBudget}
    (hrow : RowSorted row)
    (hlast : ∀ bucket ∈ row, bucket.sequence = sequence → ∀ t ∈ bucket.tokens, t < token)
    (h : appendMember row sequence token limits work = .ok (row', work')) : RowSorted row' := by
  rcases appendMember_cases h with ⟨index, entry, hentry, hsequence, rfl⟩ | ⟨hnew, rfl⟩
  · obtain ⟨hlt, rfl⟩ := List.getElem?_eq_some_iff.mp hentry
    refine ⟨?_, fun bucket hbucket => ?_⟩
    · have hsame : (row.set index { row[index] with tokens := row[index].tokens ++ [token] }).map
          InverseBucket.sequence = row.map InverseBucket.sequence := by
        have hlt' : index < (row.map InverseBucket.sequence).length := by rwa [List.length_map]
        have hcell : (row.map InverseBucket.sequence)[index] = row[index].sequence :=
          List.getElem_map _
        rw [List.map_set, ← hcell]
        exact List.set_getElem_self _
      rw [hsame]
      exact hrow.distinct
    · rcases List.mem_or_eq_of_mem_set hbucket with hbucket | rfl
      · exact hrow.tokens bucket hbucket
      · have hmem := List.getElem_mem hlt
        refine List.pairwise_append.mpr
          ⟨hrow.tokens _ hmem, List.pairwise_singleton _ _, fun t ht u hu => ?_⟩
        rw [List.mem_singleton.mp hu]
        exact hlast _ hmem hsequence t ht
  · refine ⟨?_, fun bucket hbucket => ?_⟩
    · rw [List.map_append]
      refine List.nodup_append.mpr
        ⟨hrow.distinct, List.pairwise_singleton _ _, fun s hs s' hs' heq => ?_⟩
      obtain ⟨bucket, hbucket, rfl⟩ := List.mem_map.mp hs
      exact hnew bucket hbucket (heq.trans (List.mem_singleton.mp hs'))
    · rcases List.mem_append.mp hbucket with hbucket | hbucket
      · exact hrow.tokens bucket hbucket
      · rw [List.mem_singleton.mp hbucket]
        exact List.pairwise_singleton _ _

/-- What else holds while a row is built: heads and buckets are distinct, buckets
increase, and every head interned on the way is one that the row lists. -/
structure RowBuild.Ordered (start : SequenceTable) (P : List TerminalId → TokenId → Prop)
    (build : RowBuild) : Prop where
  heads : build.sequences.sequences.Nodup
  row : RowSorted build.row
  interned : ∀ head ∈ build.sequences.sequences, head ∈ start.sequences ∨ ∃ token, P head token

theorem RowBuild.Ordered.mono {start : SequenceTable} {P Q : List TerminalId → TokenId → Prop}
    {build : RowBuild} (h : build.Ordered start P)
    (hPQ : ∀ head token, P head token → Q head token) :
    build.Ordered start Q :=
  ⟨h.heads, h.row, fun head hhead =>
    (h.interned head hhead).imp id fun ⟨token, hP⟩ => ⟨token, hPQ head token hP⟩⟩

/-- A token later than all that the row lists under a head goes to the end of its
bucket. -/
theorem appendContinuation_ordered {start : SequenceTable} {P : List TerminalId → TokenId → Prop}
    {destination singleton : ℕ} {emitted : List TerminalId} {token : TokenId} {c : TerminalId}
    {limits : PreparationLimits} {build build' : RowBuild} (hbuild : build.Sound grammar start P)
    (hordered : build.Ordered start P)
    (hsingleton : start.singletonTerminal destination singleton = some c)
    (hlast : ∀ t, P (emitted ++ [c]) t → t < token)
    (h : appendContinuation destination singleton emitted token limits build = .ok build') :
    build'.Ordered start (fun head t => P head t ∨ (head = emitted ++ [c] ∧ t = token)) := by
  simp only [appendContinuation, bind_eq_ok] at h
  obtain ⟨work, -, h⟩ := h
  have hsame : build.sequences.singletonTerminal destination singleton = some c := by
    rw [← hsingleton]
    simp only [SequenceTable.singletonTerminal, hbuild.singletons]
  simp only [hsame, bind_eq_ok] at h
  obtain ⟨⟨sequences, _, sequence⟩, hintern, ⟨row, _⟩, hmember, h⟩ := h
  cases h
  obtain ⟨-, hgrow, hsequence, hheads⟩ := internHead_ok hintern
  refine ⟨internHead_nodup hordered.heads hintern,
    appendMember_sorted hordered.row ?_ hmember, fun head hhead => ?_⟩
  · rintro bucket hbucket rfl t ht
    refine hlast t ((hbuild.lists _ t).mp ?_)
    obtain ⟨i, hi, hget⟩ := List.getElem_of_mem hbucket
    have hlists : Lists sequences.sequences build.row (emitted ++ [c]) t :=
      ⟨i, bucket, hget ▸ List.getElem?_eq_getElem hi, hsequence, ht⟩
    exact (lists_grow hbuild.row hgrow _ t).mp hlists
  · rcases hheads head hhead with hhead | rfl
    · rcases hordered.interned head hhead with hold | ⟨t, ht⟩
      · exact Or.inl hold
      · exact Or.inr ⟨t, Or.inl ht⟩
    · exact Or.inr ⟨token, Or.inr ⟨rfl, rfl⟩⟩

theorem appendContinuations_ordered {start : SequenceTable} {P : List TerminalId → TokenId → Prop}
    {destination : ℕ} {emitted singles : List TerminalId} {token : TokenId}
    {limits : PreparationLimits} {build build' : RowBuild} (hbuild : build.Sound grammar start P)
    (hordered : build.Ordered start P) (hsingles : start.singleton destination = some singles)
    (hnodup : singles.Nodup) (hheads : ∀ c ∈ singles, grammar.lalr.Emittable (emitted ++ [c]))
    (hlast : ∀ head t, P head t → t < token)
    (h : appendContinuations destination emitted token limits build = .ok build') :
    build'.Ordered start
      (fun head t => P head t ∨ (t = token ∧ ∃ c ∈ singles, head = emitted ++ [c])) := by
  have hsame : build.sequences.singletons[destination]? = some singles := by
    rw [hbuild.singletons]
    exact hsingles
  simp only [appendContinuations, SequenceTable.singletonCount, hsame, Option.bind_eq_bind,
    Option.bind_some] at h
  have hloop := foldlM_range_ok
    (I := fun i (s : RowBuild) => s.Sound grammar start
        (fun head t => P head t ∨ (t = token ∧ ∃ c ∈ singles.take i, head = emitted ++ [c])) ∧
      s.Ordered start
        (fun head t => P head t ∨ (t = token ∧ ∃ c ∈ singles.take i, head = emitted ++ [c])))
    h ⟨hbuild.congr fun head t => by simp, hordered.mono fun head t hP => Or.inl hP⟩ ?_
  · rw [List.take_length] at hloop
    exact hloop.2
  · rintro i s s' hi ⟨hs, ho⟩ hstep
    have hc : start.singletonTerminal destination i = some singles[i] := by
      simp only [SequenceTable.singleton] at hsingles
      simp only [SequenceTable.singletonTerminal, hsingles, Option.bind_eq_bind, Option.bind_some]
      exact List.getElem?_eq_getElem hi
    -- the head of this continuation is not among the earlier ones of the token
    have hfresh : ∀ t, (P (emitted ++ [singles[i]]) t ∨
        (t = token ∧ ∃ c ∈ singles.take i, emitted ++ [singles[i]] = emitted ++ [c])) →
        t < token := by
      rintro t (hP | ⟨-, c, hmem, heq⟩)
      · exact hlast _ t hP
      · obtain ⟨-, hlist⟩ := List.append_inj heq rfl
        obtain ⟨rfl, -⟩ := List.cons.inj hlist
        obtain ⟨j, hj, hsame⟩ := List.mem_take_iff_getElem.mp hmem
        have heq := (hnodup.getElem_inj_iff).mp hsame
        omega
    have hnext : ∀ head t, ((P head t ∨
          (t = token ∧ ∃ c ∈ singles.take i, head = emitted ++ [c])) ∨
          (head = emitted ++ [singles[i]] ∧ t = token)) ↔
        (P head t ∨ (t = token ∧ ∃ c ∈ singles.take (i + 1), head = emitted ++ [c])) := by
      intro head t
      rw [List.take_succ_eq_append_getElem hi]
      simp only [List.mem_append, List.mem_singleton]
      constructor
      · rintro ((h | ⟨ht, c, hc, rfl⟩) | ⟨rfl, rfl⟩)
        · exact Or.inl h
        · exact Or.inr ⟨ht, c, Or.inl hc, rfl⟩
        · exact Or.inr ⟨rfl, _, Or.inr rfl, rfl⟩
      · rintro (h | ⟨ht, c, hc | rfl, rfl⟩)
        · exact Or.inl (Or.inl h)
        · exact Or.inl (Or.inr ⟨ht, c, hc, rfl⟩)
        · exact Or.inr ⟨rfl, ht⟩
    exact ⟨(appendContinuation_ok hs hc (hheads _ (List.getElem_mem hi)) hstep).congr hnext,
      (appendContinuation_ordered hs ho hc hfresh hstep).mono fun head t => (hnext head t).mp⟩

/-! ## All rows -/

/-- Every terminal of a state is listed once. -/
theorem SequenceTable.SingletonsSorted.nodup {table : SequenceTable} (h : table.SingletonsSorted)
    {source : ℕ} {row : List TerminalId} (hrow : table.singleton source = some row) : row.Nodup :=
  (h row (List.mem_of_getElem? hrow)).imp fun hlt => Nat.ne_of_lt hlt

/-- **A finished row is sorted**, and the heads it adds are realized. -/
theorem buildInverseRow_ordered {tokenTable : PreparedTokenTable} {start : SequenceTable}
    {state : LexerState} {limits : PreparationLimits} {work : WorkBudget} {build : RowBuild}
    {members members' : ℕ} (htable : tokenTable.Exact grammar)
    (hsingletons : start.SingletonsExact grammar) (hsorted : start.SingletonsSorted)
    (hheads : start.HeadsSound grammar) (hnodup : start.sequences.Nodup)
    (hvalid : state.Valid grammar.lexer)
    (h : buildInverseRow grammar tokenTable start state.index limits work members =
      .ok (build, members')) :
    build.Ordered start (fun head t => grammar.Realizes state t head) := by
  have hloop := foldlM_range_ok
    (I := fun i (s : RowBuild × ℕ) =>
      s.1.Sound grammar start (fun head t => t < i ∧ grammar.Realizes state t head) ∧
      s.1.Ordered start (fun head t => t < i ∧ grammar.Realizes state t head))
    h ⟨⟨List.prefix_refl _, rfl, hheads, fun i bucket hbucket => (by cases hbucket), ?_⟩,
      ⟨hnodup, ⟨List.nodup_nil, fun bucket hbucket => absurd hbucket List.not_mem_nil⟩,
        fun head hhead => Or.inl hhead⟩⟩ ?_
  · exact hloop.2.mono fun head t h => h.2
  · intro head t
    constructor
    · rintro ⟨i, bucket, hbucket, -⟩
      cases hbucket
    · rintro ⟨ht, -⟩
      exact absurd ht (Nat.not_lt_zero t)
  · rintro i ⟨s, m⟩ ⟨s', m'⟩ hi ⟨hs, ho⟩ hstep
    have hnext : ∀ head t, ((t < i ∧ grammar.Realizes state t head) ∨
        (t = i ∧ grammar.Realizes state i head)) ↔ t < i + 1 ∧ grammar.Realizes state t head :=
      fun head t => (lt_succ_and_iff (P := fun t => grammar.Realizes state t head)).symm
    refine ⟨(appendTokenContinuations_ok htable hsingletons hvalid hi hs hstep).congr hnext, ?_⟩
    rcases appendTokenContinuations_cases htable hvalid hi hstep with
      ⟨hsequences, hrow, -⟩ | ⟨bytes, state', em, work', hentry, hrun, happend⟩
    · refine ⟨hsequences ▸ ho.heads, hrow ▸ ho.row, fun head hhead => ?_⟩
      rw [hsequences] at hhead
      exact (ho.interned head hhead).imp id fun ⟨t, hlt, hr⟩ => ⟨t, Nat.lt_succ_of_lt hlt, hr⟩
    · obtain ⟨singles, hsingles, hmem⟩ :=
        hsingletons (ValidatedGrammar.scanner_run_valid hvalid hrun)
      have hsound : { s with work := work' }.Sound grammar start _ :=
        ⟨hs.grows, hs.singletons, hs.heads, hs.row, hs.lists⟩
      refine (appendContinuations_ordered hsound ⟨ho.heads, ho.row, ho.interned⟩ hsingles
        (hsorted.nodup hsingles) ?_ (fun head t h => h.1) happend).mono ?_
      · intro c hc
        exact (ValidatedGrammar.scanner_run_emittable hrun).append
          (ValidatedGrammar.scanner_head_emittable ((hmem c).mp hc))
      · rintro head t (hP | ⟨rfl, hc⟩)
        · exact (hnext head t).mp (Or.inl hP)
        · exact (hnext head t).mp
            (Or.inr ⟨rfl, (ValidatedGrammar.realizes_iff hentry hrun hmem).mp hc⟩)

/-- **All rows**, over a table that starts without heads. -/
theorem buildInverseRows_ordered {tokenTable : PreparedTokenTable} {start : SequenceTable}
    {limits : PreparationLimits} {work : WorkBudget} {built : InverseBuild}
    (htable : tokenTable.Exact grammar) (hsingletons : start.SingletonsExact grammar)
    (hsorted : start.SingletonsSorted) (hempty : start.sequences = [])
    (h : buildInverseRows grammar tokenTable start grammar.sources limits work = .ok built) :
    built.sequences.singletons = start.singletons ∧ built.sequences.sequences.Nodup ∧
      (∀ head ∈ built.sequences.sequences, ∃ state token,
        state.Valid grammar.lexer ∧ grammar.Realizes state token head) ∧
      ∀ row ∈ built.inverse, RowSorted row := by
  have hnone : ∀ head, head ∉ start.sequences := fun head hhead => by
    rw [hempty] at hhead
    cases hhead
  have hloop := foldlM_range_ok
    (I := fun _ (s : InverseBuild) => s.sequences.HeadsSound grammar ∧
      s.sequences.singletons = start.singletons ∧ s.sequences.sequences.Nodup ∧
      (∀ head ∈ s.sequences.sequences, ∃ state token,
        state.Valid grammar.lexer ∧ grammar.Realizes state token head) ∧
      ∀ row ∈ s.inverse, RowSorted row)
    h ⟨fun head hhead => absurd hhead (hnone head), rfl, hempty ▸ List.nodup_nil,
      fun head hhead => absurd hhead (hnone head), fun row hrow => absurd hrow List.not_mem_nil⟩ ?_
  · exact hloop.2
  · rintro i s s' hi ⟨hheads, hsame, hnodup, hinterned, hall⟩ hstep
    simp only [bind_eq_ok] at hstep
    obtain ⟨⟨build, members⟩, hrow, hstep⟩ := hstep
    cases hstep
    have hvalid := @LexerState.ofIndex_valid grammar _ hi
    rw [← LexerState.index_ofIndex i] at hrow
    have hsingletons' : s.sequences.SingletonsExact grammar := by
      intro state hstate
      simp only [SequenceTable.singleton, hsame]
      exact hsingletons hstate
    have hsorted' : s.sequences.SingletonsSorted := fun row hrow => hsorted row (hsame ▸ hrow)
    have hsound := buildInverseRow_ok htable hsingletons' hheads hvalid hrow
    have hordered := buildInverseRow_ordered htable hsingletons' hsorted' hheads hnodup hvalid hrow
    refine ⟨hsound.heads, hsound.singletons.trans hsame, hordered.heads, fun head hhead => ?_,
      fun row hmem => ?_⟩
    · rcases hordered.interned head hhead with hold | ⟨token, hrealizes⟩
      · exact hinterned head hold
      · exact ⟨_, token, hvalid, hrealizes⟩
    · rcases List.mem_append.mp hmem with hmem | hmem
      · exact hall row hmem
      · rw [List.mem_singleton.mp hmem]
        exact hordered.row

/-- **The spanner lists everything once**: singleton terminals increase, heads are
distinct and realized, rows are sorted. -/
structure PreparedSpanner.Ordered (grammar : ValidatedGrammar) (spanner : PreparedSpanner) :
    Prop where
  singletons : spanner.sequences.SingletonsSorted
  heads : spanner.sequences.sequences.Nodup
  interned : ∀ head ∈ spanner.sequences.sequences, ∃ state token,
    state.Valid grammar.lexer ∧ grammar.Realizes state token head
  rows : ∀ row ∈ spanner.inverse, RowSorted row

/-- What preparing the spanner goes through, and what each stage ensures. -/
theorem prepareSpannerWithBudget_stages {limits : PreparationLimits} {work work' : WorkBudget}
    {spanner : PreparedSpanner}
    (h : prepareSpannerWithBudget grammar limits work = .ok (spanner, work')) :
    ∃ work₁ work₂ start, prepareTokenTable grammar limits work = .ok (work₁, spanner.tokenTable) ∧
      buildSingletons grammar limits work₁ = .ok (work₂, start) ∧
      spanner.sequences.singletons = start.singletons ∧ spanner.Ordered grammar := by
  simp only [prepareSpannerWithBudget, bind_eq_ok] at h
  obtain ⟨⟨work₁, tokenTable⟩, htokens, ⟨work₂, start⟩, hsingletons, built, hrows, h⟩ := h
  cases h
  have htable := prepareTokenTable_exact htokens
  obtain ⟨hempty, hexact⟩ := buildSingletons_exact hsingletons
  have hsorted := buildSingletons_sorted hsingletons
  rw [htable.sources] at hrows
  obtain ⟨hsame, hnodup, hinterned, hall⟩ :=
    buildInverseRows_ordered htable hexact hsorted hempty hrows
  exact ⟨work₁, work₂, start, htokens, hsingletons, hsame,
    fun row hrow => hsorted row (hsame ▸ hrow), hnodup, hinterned, hall⟩

end
end GreatGramma
