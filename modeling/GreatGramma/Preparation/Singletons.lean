import GreatGramma.Preparation.Tokens

/-!
# The singleton terminals are the heads

Preparation computes, for every lexer source, the terminals that the lexer can emit next after
silent bytes: the heads of the scanner.  It does so backwards.  A scan over the transitions finds
the label of every source, which is a head of it, and records for every source those from which a
silent step leads to it; a worklist then carries every fact, a source with one of its heads, to
the predecessors of the source.

## Soundness

Two invariants run through all loops.  Everything queued is a head, and the marks agree with the
queue (`Facts.Sound`); every predecessor recorded is a silent step (`PredecessorsSound`).  The
marks are what keeps a fact from being queued twice, so they have to say of every cell whether its
fact has been queued.

## Completeness

The scan misses nothing: what it must find of a source is stated once (`Scan.Covers`), and later
steps of the scan only add to what earlier ones know (`Scan.Extends`).  For the worklist the
argument is one of closure.  Before the cursor the queue is closed under predecessors
(`Facts.ClosedTo`), so at the end, when the cursor has passed the whole queue, it is closed
altogether; and the heads are the least relation that holds the labels and is closed
(`Facts.mem_of_head`).
-/

namespace GreatGramma

open Traversal

section
variable {grammar : ValidatedGrammar}

/-! ## Facts

A fact is numbered by its source and its terminal, and facts with different numbers are different,
so that one mark is kept for each. -/

/-- What is queued is a head, and the marks agree with the queue. -/
structure Facts.Sound (grammar : ValidatedGrammar) (known : Facts) : Prop where
  length : known.seen.length = grammar.sources * grammar.lalr.terminalCount
  head : ∀ fact ∈ known.facts, fact.source < grammar.sources ∧
    grammar.scanner.Head (.ofIndex fact.source) fact.terminal
  marked : ∀ source terminal, source < grammar.sources → terminal < grammar.lalr.terminalCount →
    ∃ mark, known.seen[source * grammar.lalr.terminalCount + terminal]? = some mark ∧
      (mark ≠ 0 ↔ ⟨source, terminal⟩ ∈ known.facts)

theorem Facts.Sound.empty :
    Facts.Sound grammar ⟨List.replicate (grammar.sources * grammar.lalr.terminalCount) 0, []⟩ where
  length := List.length_replicate
  head := fun fact h => by cases h
  marked := by
    intro source terminal hsource hterminal
    refine ⟨0, by rw [List.getElem?_replicate, if_pos (cell_lt hsource hterminal)], ?_⟩
    simp

theorem cell_injective {T s s' t t' : ℕ} (ht : t < T) (ht' : t' < T)
    (h : s * T + t = s' * T + t') : s = s' ∧ t = t' := by
  have hpos : 0 < T := by omega
  have hdiv := congrArg (· / T) h
  have hmod := congrArg (· % T) h
  simp only [Nat.mul_comm _ T, Nat.mul_add_div hpos, Nat.mul_add_mod, Nat.div_eq_of_lt ht,
    Nat.div_eq_of_lt ht', Nat.mod_eq_of_lt ht, Nat.mod_eq_of_lt ht', Nat.add_zero] at hdiv hmod
  exact ⟨hdiv, hmod⟩

theorem factIndex_ok {source terminal terminalCount index : ℕ}
    (h : factIndex source terminal terminalCount = .ok index) :
    index = source * terminalCount + terminal := by
  unfold factIndex at h
  split at h
  · cases h
  · rename_i hindex
    cases h
    obtain ⟨start, hstart, hadd⟩ := Option.bind_eq_some_iff.mp hindex
    obtain ⟨-, rfl⟩ := checkedMul_eq_some.mp hstart
    exact (checkedAdd_eq_some.mp hadd).2.symm

/-- **Adding a fact** keeps the queue sound, keeps what is in it, and queues the
fact. -/
theorem addFact_ok {known known' : Facts} {source : ℕ} {terminal : TerminalId}
    (hsource : source < grammar.sources)
    (hhead : grammar.scanner.Head (.ofIndex source) terminal) (hknown : known.Sound grammar)
    (h : addFact known source terminal grammar.lalr.terminalCount = .ok known') :
    known'.Sound grammar ∧ known.facts <+: known'.facts ∧ ⟨source, terminal⟩ ∈ known'.facts := by
  obtain ⟨hlt, index, present, hindex, hpresent, hcase⟩ := addFact_cases h
  obtain rfl := factIndex_ok hindex
  obtain ⟨mark, hmark, hiff⟩ := hknown.marked source terminal hsource hlt
  obtain rfl : present = mark := Option.some.inj (hpresent.symm.trans hmark)
  rcases hcase with ⟨hzero, rfl⟩ | ⟨-, rfl⟩
  · exact ⟨hknown, List.prefix_refl _, hiff.mp hzero⟩
  · refine ⟨⟨?_, ?_, ?_⟩, List.prefix_append _ _, by simp⟩
    · rw [List.length_set]
      exact hknown.length
    · intro fact hfact
      rcases List.mem_append.mp hfact with hfact | hfact
      · exact hknown.head fact hfact
      · obtain rfl := List.mem_singleton.mp hfact
        exact ⟨hsource, hhead⟩
    · intro s t hs ht
      obtain ⟨old, hold, hold'⟩ := hknown.marked s t hs ht
      by_cases hsame : source * grammar.lalr.terminalCount + terminal =
          s * grammar.lalr.terminalCount + t
      · obtain ⟨rfl, rfl⟩ := cell_injective hlt ht hsame
        refine ⟨1, ?_, ?_⟩
        · rw [List.getElem?_set_self (by
            obtain ⟨hlen, -⟩ := List.getElem?_eq_some_iff.mp hmark
            exact hlen)]
        · simp
      · refine ⟨old, ?_, ?_⟩
        · rw [List.getElem?_set_ne hsame]
          exact hold
        · rw [hold', List.mem_append, List.mem_singleton, Fact.mk.injEq]
          constructor
          · exact Or.inl
          · rintro (h | ⟨rfl, rfl⟩)
            · exact h
            · exact absurd rfl hsame

/-! ## The scan -/

/-- `source` is recorded as a predecessor of `destination`. -/
def Precedes (predecessors : List (List ℕ)) (source destination : ℕ) : Prop :=
  ∃ row, predecessors[destination]? = some row ∧ source ∈ row

/-- A predecessor is a source with a silent step. -/
def PredecessorsSound (grammar : ValidatedGrammar) (predecessors : List (List ℕ)) : Prop :=
  predecessors.length = grammar.sources ∧
    ∀ source destination, Precedes predecessors source destination →
      source < grammar.sources ∧ ∃ byte,
        grammar.scanner.step (.ofIndex source) byte = some (.ofIndex destination, none)

theorem PredecessorsSound.empty :
    PredecessorsSound grammar (List.replicate grammar.sources []) := by
  refine ⟨List.length_replicate, ?_⟩
  rintro p d ⟨row, hrow, hp⟩
  rw [List.getElem?_replicate] at hrow
  split_ifs at hrow
  cases hrow
  cases hp

theorem appendPredecessor_ok {predecessors predecessors' : List (List ℕ)} {destination source : ℕ}
    (h : appendPredecessor predecessors destination source = .ok predecessors') :
    predecessors'.length = predecessors.length ∧
      ∀ p d, Precedes predecessors' p d ↔
        Precedes predecessors p d ∨ (p = source ∧ d = destination) := by
  unfold appendPredecessor at h
  split at h
  · cases h
  · rename_i row hrow
    cases h
    obtain ⟨hlt, -⟩ := List.getElem?_eq_some_iff.mp hrow
    refine ⟨List.length_set, fun p d => ?_⟩
    by_cases hd : destination = d
    · subst hd
      simp only [Precedes, List.getElem?_set_self hlt, hrow, Option.some.injEq, exists_eq_left',
        List.mem_append, List.mem_singleton, and_true]
    · have hd' : d ≠ destination := fun h => hd h.symm
      simp only [Precedes, List.getElem?_set_ne hd, hd', and_false, or_false]

/-- What holds of the scan between two steps. -/
structure Scan.Sound (grammar : ValidatedGrammar) (scan : Scan) : Prop where
  known : scan.known.Sound grammar
  predecessors : PredecessorsSound grammar scan.predecessors

/-- A later scan knows all that an earlier one knows. -/
structure Scan.Extends (scan scan' : Scan) : Prop where
  facts : ∀ fact ∈ scan.known.facts, fact ∈ scan'.known.facts
  predecessors : ∀ p d, Precedes scan.predecessors p d → Precedes scan'.predecessors p d

theorem Scan.Extends.refl (scan : Scan) : scan.Extends scan :=
  ⟨fun _ h => h, fun _ _ h => h⟩

theorem Scan.Extends.trans {scan scan' scan'' : Scan} (h : scan.Extends scan')
    (h' : scan'.Extends scan'') : scan.Extends scan'' :=
  ⟨fun f hf => h'.facts f (h.facts f hf), fun p d hp => h'.predecessors p d (h.predecessors p d hp)⟩

/-- **One byte of the scan of a source**: a silent step ends up recorded, and a
label that is emitted is a head. -/
theorem scanByte_ok {source byte : ℕ} {scan scan' : Scan} {destinations destinations' : List ℕ}
    (hsource : source < grammar.sources) (hscan : scan.Sound grammar)
    (hdestinations : ∀ d ∈ destinations, Precedes scan.predecessors source d)
    (h : scanByte grammar (.ofIndex source) byte source grammar.lalr.terminalCount scan
      destinations = .ok (scan', destinations')) :
    scan'.Sound grammar ∧ scan.Extends scan' ∧
      (∀ d ∈ destinations', Precedes scan'.predecessors source d) ∧
      ∀ state', grammar.scanner.step (.ofIndex source) (UInt8.ofNat byte) = some (state', none) →
        Precedes scan'.predecessors source state'.index := by
  unfold scanByte at h
  split_ifs at h with hbyte
  split at h
  · rename_i state' terminal hstep
    have hstep' := ValidatedGrammar.scanner_step_eq.mpr hstep
    obtain ⟨known, hadd, h⟩ := bind_eq_ok.mp h
    cases h
    obtain ⟨hknown, hfacts, -⟩ := addFact_ok hsource
      (Transducer.Head.of_flush (grammar.scanner_late.emits_label hstep')) hscan.known hadd
    refine ⟨⟨hknown, hscan.predecessors⟩, ⟨fun f hf => hfacts.subset hf, fun _ _ h => h⟩,
      hdestinations, fun state'' hsilent => ?_⟩
    rw [hstep'] at hsilent
    cases hsilent
  · rename_i state' hstep
    have hstep' := ValidatedGrammar.scanner_step_eq.mpr hstep
    obtain ⟨⟨d, hd, rfl⟩, -⟩ := ValidatedGrammar.scanner_step_cases hstep'
    have hvalid : LexerState.Valid grammar.lexer (.dfa d) := hd
    rw [sourceIndex_eq hvalid] at h
    obtain ⟨work, -, h⟩ := bind_eq_ok.mp h
    split_ifs at h with hseen
    · cases h
      refine ⟨⟨hscan.known, hscan.predecessors⟩, ⟨fun _ h => h, fun _ _ h => h⟩, hdestinations,
        fun state'' hsilent => ?_⟩
      rw [hstep'] at hsilent
      cases hsilent
      exact hdestinations _ (List.contains_iff_mem.mp hseen)
    · obtain ⟨predecessors, happend, h⟩ := bind_eq_ok.mp h
      cases h
      obtain ⟨hlength, hiff⟩ := appendPredecessor_ok happend
      have hnew : Precedes predecessors source (LexerState.dfa d).index :=
        (hiff _ _).mpr (Or.inr ⟨rfl, rfl⟩)
      refine ⟨⟨hscan.known, hlength.trans hscan.predecessors.1, ?_⟩,
        ⟨fun _ h => h, fun p d h => (hiff p d).mpr (Or.inl h)⟩, ?_, fun state'' hsilent => ?_⟩
      · intro p d' hp
        rcases (hiff p d').mp hp with hp | ⟨rfl, rfl⟩
        · exact hscan.predecessors.2 p d' hp
        · exact ⟨hsource, _, hstep'⟩
      · intro d' hd'
        rcases List.mem_append.mp hd' with hd' | hd'
        · exact (hiff _ _).mpr (Or.inl (hdestinations d' hd'))
        · rw [List.mem_singleton.mp hd']
          exact hnew
      · rw [hstep'] at hsilent
        cases hsilent
        exact hnew
  all_goals
    rename_i hstep
    cases h
    try exact
      ⟨hscan, .refl _, hdestinations, fun state' hsilent => by
        rw [ValidatedGrammar.scanner_step_eq, hstep] at hsilent
        cases hsilent⟩

theorem scanLabel_ok {source : ℕ} {known known' : Facts} (hsource : source < grammar.sources)
    (hknown : known.Sound grammar)
    (h : scanLabel grammar (.ofIndex source) source grammar.lalr.terminalCount known =
      .ok known') :
    known'.Sound grammar ∧ known.facts <+: known'.facts ∧
      ∀ t, grammar.scanner.flush (.ofIndex source) = some (some t) →
        ⟨source, t⟩ ∈ known'.facts := by
  cases hstate : LexerState.ofIndex source with
  | start =>
    rw [hstate] at h
    cases h
    refine ⟨hknown, List.prefix_refl _, fun t ht => ?_⟩
    cases ht
  | dfa state =>
    rw [hstate] at h
    simp only [scanLabel] at h
    split at h
    · rename_i terminal hterminal
      have hflush := ValidatedGrammar.scanner_flush_dfa.mpr ⟨terminal, rfl, hterminal⟩
      obtain ⟨hsound, hfacts, hmem⟩ := addFact_ok hsource
        (hstate.symm ▸ Transducer.Head.of_flush hflush) hknown h
      refine ⟨hsound, hfacts, fun t ht => ?_⟩
      rw [hflush] at ht
      cases ht
      exact hmem
    · rename_i hnone
      cases h
      refine ⟨hknown, List.prefix_refl _, fun t ht => ?_⟩
      obtain ⟨t', heq, hterminal⟩ := ValidatedGrammar.scanner_flush_dfa.mp ht
      exact absurd hterminal (hnone t')

/-- What the scan of a source must find. -/
def Scan.Covers (grammar : ValidatedGrammar) (scan : Scan) (source : ℕ) : Prop :=
  (∀ t, grammar.scanner.flush (.ofIndex source) = some (some t) →
    ⟨source, t⟩ ∈ scan.known.facts) ∧
  ∀ byte state', grammar.scanner.step (.ofIndex source) byte = some (state', none) →
    Precedes scan.predecessors source state'.index

theorem Scan.Covers.extends {scan scan' : Scan} {source : ℕ} (h : scan.Covers grammar source)
    (hextends : scan.Extends scan') : scan'.Covers grammar source :=
  ⟨fun t ht => hextends.facts _ (h.1 t ht),
    fun byte state' hstep => hextends.predecessors _ _ (h.2 byte state' hstep)⟩

theorem scanSource_ok {source : ℕ} {scan scan' : Scan} (hsource : source < grammar.sources)
    (hscan : scan.Sound grammar)
    (h : scanSource grammar source grammar.lalr.terminalCount scan = .ok scan') :
    scan'.Sound grammar ∧ scan.Extends scan' ∧ scan'.Covers grammar source := by
  unfold scanSource at h
  rw [sourceAt_eq hsource] at h
  simp only [bind_eq_ok] at h
  obtain ⟨known, hlabel, ⟨scan₁, destinations⟩, hbytes, h⟩ := h
  cases h
  obtain ⟨hknown, hfacts, hlabels⟩ := scanLabel_ok hsource hscan.known hlabel
  have hloop := foldlM_range_ok
    (I := fun i (s : Scan × List ℕ) => s.1.Sound grammar ∧
      Scan.Extends { scan with known } s.1 ∧
      (∀ d ∈ s.2, Precedes s.1.predecessors source d) ∧
      ∀ byte < i, ∀ state', grammar.scanner.step (.ofIndex source) (UInt8.ofNat byte) =
        some (state', none) → Precedes s.1.predecessors source state'.index)
    hbytes ⟨⟨hknown, hscan.predecessors⟩, .refl _, fun d hd => absurd hd List.not_mem_nil,
      fun byte hbyte => absurd hbyte (Nat.not_lt_zero byte)⟩ ?_
  · obtain ⟨hsound, hextends, -, hsilent⟩ := hloop
    refine ⟨hsound, ⟨fun f hf => hextends.facts f (hfacts.subset hf), hextends.predecessors⟩,
      fun t ht => hextends.facts _ (hlabels t ht), fun byte state' hstep => ?_⟩
    refine hsilent byte.toNat byte.toNat_lt state' ?_
    rw [UInt8.ofNat_toNat]
    exact hstep
  · rintro i ⟨s, ds⟩ ⟨s', ds'⟩ - ⟨hsound, hextends, hds, hsilent⟩ hstep
    obtain ⟨hsound', hextends', hds', hnew⟩ := scanByte_ok hsource hsound hds hstep
    refine ⟨hsound', hextends.trans hextends', hds', fun byte hbyte state' hstep' => ?_⟩
    rcases Nat.lt_succ_iff_lt_or_eq.mp hbyte with hlt | rfl
    · exact hextends'.predecessors _ _ (hsilent byte hlt state' hstep')
    · exact hnew state' hstep'

/-- **The scan covers every source.** -/
theorem scanSources_ok {scan scan' : Scan} (hscan : scan.Sound grammar)
    (h : scanSources grammar grammar.sources grammar.lalr.terminalCount scan = .ok scan') :
    scan'.Sound grammar ∧ ∀ source < grammar.sources, scan'.Covers grammar source := by
  refine foldlM_range_ok
    (I := fun i (s : Scan) => s.Sound grammar ∧ ∀ source < i, s.Covers grammar source)
    h ⟨hscan, fun source hs => absurd hs (Nat.not_lt_zero source)⟩ ?_
  rintro i s s' hi ⟨hsound, hcovers⟩ hstep
  obtain ⟨hsound', hextends, hnew⟩ := scanSource_ok hi hsound hstep
  refine ⟨hsound', fun source hs => ?_⟩
  rcases Nat.lt_succ_iff_lt_or_eq.mp hs with hlt | rfl
  · exact (hcovers source hlt).extends hextends
  · exact hnew

/-! ## The worklist

A cursor moves along the queue, and what is found is queued behind it. -/

/-- Before the cursor the queue is closed under predecessors. -/
def Facts.ClosedTo (known : Facts) (predecessors : List (List ℕ)) (cursor : ℕ) : Prop :=
  ∀ i < cursor, ∀ fact, known.facts[i]? = some fact →
    ∀ p, Precedes predecessors p fact.source → ⟨p, fact.terminal⟩ ∈ known.facts

/-- **One fact of the worklist** is carried to every predecessor of its source. -/
theorem propagateFact_ok {predecessors : List (List ℕ)} {known known' : Facts} {fact : Fact}
    {work work' : WorkBudget} (hpredecessors : PredecessorsSound grammar predecessors)
    (hknown : known.Sound grammar) (hfact : fact ∈ known.facts)
    (h : propagateFact predecessors known fact grammar.lalr.terminalCount work =
      .ok (known', work')) :
    known'.Sound grammar ∧ known.facts <+: known'.facts ∧
      ∀ p, Precedes predecessors p fact.source → ⟨p, fact.terminal⟩ ∈ known'.facts := by
  unfold propagateFact at h
  split at h
  · rename_i row hrow
    simp only [bind_eq_ok] at h
    obtain ⟨_, -, last, hfold, h⟩ := h
    cases h
    have hloop := foldlM_range_ok
      (I := fun i (s : Facts) => s.Sound grammar ∧ known.facts <+: s.facts ∧
        ∀ j < i, ∀ p, row[j]? = some p → ⟨p, fact.terminal⟩ ∈ s.facts)
      hfold ⟨hknown, List.prefix_refl _, fun j hj => absurd hj (Nat.not_lt_zero j)⟩ ?_
    · obtain ⟨hsound, hleading, hall⟩ := hloop
      refine ⟨hsound, hleading, fun p ⟨row', hrow', hp⟩ => ?_⟩
      rw [hrow] at hrow'
      cases hrow'
      obtain ⟨j, hj, hget⟩ := List.getElem_of_mem hp
      exact hall j hj p (hget ▸ List.getElem?_eq_getElem hj)
    · rintro i s s' - ⟨hsound, hleading, hall⟩ hstep
      unfold propagatePredecessor at hstep
      split at hstep
      · cases hstep
      · rename_i p hp
        obtain ⟨hsource, byte, hsilent⟩ := hpredecessors.2 p fact.source
          ⟨row, hrow, List.mem_of_getElem? hp⟩
        have hhead := (hknown.head fact hfact).2.of_step hsilent
        obtain ⟨hsound', hleading', hmem⟩ := addFact_ok hsource hhead hsound hstep
        refine ⟨hsound', hleading.trans hleading', fun j hj q hq => ?_⟩
        rcases Nat.lt_succ_iff_lt_or_eq.mp hj with hlt | rfl
        · exact hleading'.subset (hall j hlt q hq)
        · rw [hp] at hq
          cases hq
          exact hmem
  · cases h

theorem propagateFactsFrom_eq (predecessors : List (List ℕ)) (terminalCount : ℕ)
    (known : Facts) (work : WorkBudget) (cursor : ℕ) :
    propagateFactsFrom predecessors terminalCount known work cursor =
      if hcursor : cursor < known.facts.length then
        match propagateFact predecessors known known.facts[cursor] terminalCount work with
        | .error error => .error error
        | .ok (known, work) => propagateFactsFrom predecessors terminalCount known work (cursor + 1)
      else .ok (known, work) := by
  rw [propagateFactsFrom]
  split
  · split <;> simp only [*]
  · rfl

/-- **The worklist runs until the queue is closed.** -/
theorem propagateFactsFrom_ok {predecessors : List (List ℕ)}
    (hpredecessors : PredecessorsSound grammar predecessors) {known known' : Facts}
    {work work' : WorkBudget} {cursor : ℕ} (hknown : known.Sound grammar)
    (hclosed : known.ClosedTo predecessors cursor)
    (h : propagateFactsFrom predecessors grammar.lalr.terminalCount known work cursor =
      .ok (known', work')) :
    known'.Sound grammar ∧ known.facts <+: known'.facts ∧
      known'.ClosedTo predecessors known'.facts.length := by
  induction known, work, cursor using
    propagateFactsFrom.induct predecessors grammar.lalr.terminalCount with
  | case1 known work cursor hcursor error hstep =>
    rw [propagateFactsFrom_eq, dif_pos hcursor, hstep] at h
    cases h
  | case2 known work cursor hcursor known₁ work₁ hstep ih =>
    rw [propagateFactsFrom_eq, dif_pos hcursor, hstep] at h
    obtain ⟨hknown₁, hleading, hall⟩ :=
      propagateFact_ok hpredecessors hknown (List.getElem_mem hcursor) hstep
    have hsame : ∀ i ≤ cursor, known₁.facts[i]? = known.facts[i]? := by
      intro i hi
      obtain ⟨added, hadded⟩ := hleading
      rw [← hadded, List.getElem?_append_left (by omega)]
    have hclosed₁ : known₁.ClosedTo predecessors (cursor + 1) := by
      intro i hi fact hfact p hp
      rw [hsame i (by omega)] at hfact
      rcases Nat.lt_succ_iff_lt_or_eq.mp hi with hlt | rfl
      · exact hleading.subset (hclosed i hlt fact hfact p hp)
      · rw [List.getElem?_eq_getElem hcursor] at hfact
        cases hfact
        exact hall p hp
    obtain ⟨hknown', hleading', hclosed'⟩ := ih hknown₁ hclosed₁ h
    exact ⟨hknown', hleading.trans hleading', hclosed'⟩
  | case3 known work cursor hcursor =>
    rw [propagateFactsFrom_eq, dif_neg hcursor] at h
    cases h
    exact ⟨hknown, List.prefix_refl _,
      fun i hi => hclosed i (Nat.lt_of_lt_of_le hi (Nat.not_lt.mp hcursor))⟩

/-- **A closed queue that covers every source holds every head.** -/
theorem Facts.mem_of_head {scan : Scan} {known : Facts}
    (hcovers : ∀ source < grammar.sources, scan.Covers grammar source)
    (hleading : scan.known.facts <+: known.facts)
    (hclosed : known.ClosedTo scan.predecessors known.facts.length) {state : LexerState}
    {t : TerminalId} (hvalid : state.Valid grammar.lexer) (h : grammar.scanner.Head state t) :
    ⟨state.index, t⟩ ∈ known.facts := by
  revert hvalid
  refine h.induction (P := fun state t => state.Valid grammar.lexer →
    ⟨state.index, t⟩ ∈ known.facts) ?_ ?_
  · intro state t hflush hvalid
    obtain ⟨hlabel, -⟩ := hcovers state.index (LexerState.index_lt.mpr hvalid)
    rw [LexerState.ofIndex_index] at hlabel
    exact hleading.subset (hlabel t hflush)
  · intro state byte state' t hstep ih hvalid
    obtain ⟨⟨d, hd, rfl⟩, -⟩ := ValidatedGrammar.scanner_step_cases hstep
    obtain ⟨-, hsilent⟩ := hcovers state.index (LexerState.index_lt.mpr hvalid)
    rw [LexerState.ofIndex_index] at hsilent
    obtain ⟨i, hi, hget⟩ := List.getElem_of_mem (ih hd)
    exact hclosed i hi _ (hget ▸ List.getElem?_eq_getElem hi) _ (hsilent byte _ hstep)

/-! ## Collecting -/

theorem collectSingletons_ok {source : ℕ} {known : Facts} {row : List TerminalId}
    (hsource : source < grammar.sources) (hknown : known.Sound grammar)
    (h : collectSingletons known.seen source grammar.lalr.terminalCount = .ok row)
    (t : TerminalId) :
    t ∈ row ↔ t < grammar.lalr.terminalCount ∧ ⟨source, t⟩ ∈ known.facts := by
  refine foldlM_range_ok
    (I := fun i (row : List TerminalId) => ∀ t, t ∈ row ↔ t < i ∧ ⟨source, t⟩ ∈ known.facts)
    (n := grammar.lalr.terminalCount) h (fun t => by simp) ?_ t
  intro i row row' hi hrow hstep t
  simp only [collectSingleton, bind_eq_ok] at hstep
  obtain ⟨index, hindex, hstep⟩ := hstep
  obtain rfl := factIndex_ok hindex
  obtain ⟨mark, hmark, hiff⟩ := hknown.marked source i hsource hi
  simp only [hmark] at hstep
  rw [lt_succ_and_iff (P := fun t => ⟨source, t⟩ ∈ known.facts), ← hrow t]
  split_ifs at hstep with hzero
  · split at hstep
    · rename_i terminal hterminal
      obtain ⟨-, rfl⟩ := u32TryFrom_eq_some.mp hterminal
      cases hstep
      rw [List.mem_append, List.mem_singleton, and_iff_left (hiff.mp hzero)]
    · cases hstep
  · cases hstep
    constructor
    · exact Or.inl
    · rintro (h | ⟨rfl, hmem⟩)
      · exact h
      · exact absurd (hiff.mpr hmem) hzero

/-- **The singleton terminals of a source are the heads of its state.** -/
theorem buildSingletons_exact {limits : PreparationLimits} {work work' : WorkBudget}
    {table : SequenceTable} (h : buildSingletons grammar limits work = .ok (work', table)) :
    table.sequences = [] ∧ ∀ {state : LexerState}, state.Valid grammar.lexer →
      ∃ row, table.singleton state.index = some row ∧
        ∀ t, t ∈ row ↔ grammar.scanner.Head state t := by
  simp only [buildSingletons, sourceCount_eq, bind_eq_ok] at h
  obtain ⟨_, hsources, factCells, hcells, _, -, _, -, scan, hscan, ⟨known, _⟩, hknown,
    ⟨_, singletons⟩, hsingletons, h⟩ := h
  cases hsources
  cases h
  obtain ⟨-, rfl⟩ := checkedMul_eq_some.mp (checkItems_ok hcells)
  obtain ⟨hscan, hcovers⟩ := scanSources_ok ⟨.empty, .empty⟩ hscan
  obtain ⟨hsound, hleading, hclosed⟩ := propagateFactsFrom_ok hscan.predecessors hscan.known
    (fun i hi => absurd hi (Nat.not_lt_zero i)) hknown
  have hrows : Filled (fun source row => ∀ t, t ∈ row ↔
      t < grammar.lalr.terminalCount ∧ (⟨source, t⟩ : Fact) ∈ known.facts)
      grammar.sources singletons := by
    refine foldlM_range_ok
      (I := fun i (s : WorkBudget × List (List TerminalId)) => Filled (fun source row =>
        ∀ t, t ∈ row ↔ t < grammar.lalr.terminalCount ∧ (⟨source, t⟩ : Fact) ∈ known.facts)
        i s.2) hsingletons Filled.nil ?_
    rintro i ⟨w, rows⟩ ⟨w', rows'⟩ hi hI hstep
    simp only [collectSingletonRow, bind_eq_ok] at hstep
    obtain ⟨⟨_, row⟩, ⟨_, -, row', hrow, hpair⟩, hstep⟩ := hstep
    cases hpair
    cases hstep
    exact hI.push (collectSingletons_ok hi hsound hrow)
  refine ⟨rfl, fun {state} hvalid => ?_⟩
  obtain ⟨row, hrow, hmem⟩ := hrows.get (LexerState.index_lt.mpr hvalid)
  refine ⟨row, hrow, fun t => ?_⟩
  rw [hmem t]
  constructor
  · rintro ⟨-, hfact⟩
    have hhead := (hsound.head _ hfact).2
    rwa [LexerState.ofIndex_index] at hhead
  · intro hhead
    exact ⟨(ValidatedGrammar.scanner_head_emittable hhead t List.mem_cons_self).1,
      Facts.mem_of_head hcovers hleading hclosed hvalid hhead⟩

end
end GreatGramma
