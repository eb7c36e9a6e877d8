import GreatGramma.Compiler.Budget
import GreatGramma.Compiler.LexerDfa
import GreatGramma.Library.Numbering
import GreatGramma.Validation.Validate

/-!
# The exported table simulates the regex automaton

The vector is assumed to be what `llguidance` documents: a deterministic automaton that is made on
demand.  Its transition does not depend on which states are made already, nor on which byte of a
class is read; its dead states stay dead; and its class map is onto (`RegexVec.Deterministic`).

## The numbering

The export numbers the live states that the start state leads to.  While it runs, the cells written
so far are cells of the numbering: cell `n` belongs to state `n / width` and class `n % width`, and
points to the number of the state that the transition leads to (`RowCell`).  The list of states
only grows, so a cell stays right once it is written (`RowCell.mono`).  At the end every state of
the list has its row, so the numbers are closed under transitions, and what they number is what the
start state leads to.

## The simulation

A word is stuck in the table just where the automaton comes into a dead state.  Otherwise the table
ends in the number of the state that the automaton ends in, with the label that `resolve_label`
gives it (`buildLexerDfa_simulates`).  The label is stated without the work that it takes, since the
work that is left when a state is labelled depends on the states before it
(`labelOf_of_resolveLabel`).
-/

namespace GreatGramma

open LabelledDfa Traversal

/-! ## The automaton behind a vector -/

/-- What the states of a vector mean. -/
structure RegexAutomaton (StateID : Type) where
  step : StateID → UInt8 → StateID
  accepting : StateID → List ℕ

/-- **A vector is a deterministic automaton.**  `Knows` tells which states a vector has made;
only those may be asked for. -/
structure RegexVec.Deterministic {ρ StateID : Type} (engine : RegexVec ρ StateID)
    (compiled : CompiledRegexes ρ StateID) (automaton : RegexAutomaton StateID)
    (Knows : ρ → StateID → Prop) : Prop where
  knows_start : Knows compiled.regexes compiled.start
  knows_setMaxStates : ∀ regexes s count, Knows regexes s →
    Knows (engine.setMaxStates regexes count) s
  knows_setFuel : ∀ regexes s fuel, Knows regexes s → Knows (engine.setFuel regexes fuel) s
  knows_transition : ∀ regexes s byte s', Knows regexes s →
    engine.hasError (engine.transition regexes s byte).1 = false → Knows regexes s' →
      Knows (engine.transition regexes s byte).1 s'
  knows_next : ∀ regexes s byte, Knows regexes s →
    engine.hasError (engine.transition regexes s byte).1 = false →
      Knows (engine.transition regexes s byte).1 (engine.transition regexes s byte).2
  transition : ∀ regexes s byte, Knows regexes s →
    engine.hasError (engine.transition regexes s byte).1 = false →
      (engine.transition regexes s byte).2 = automaton.step s byte
  accepting : ∀ regexes s, Knows regexes s →
    engine.greedyAccepting regexes s = automaton.accepting s
  sameClass : ∀ s byte byte', engine.alphaMap compiled.regexes byte =
    engine.alphaMap compiled.regexes byte' → automaton.step s byte = automaton.step s byte'
  dead : ∀ s byte, engine.isDead s = true → engine.isDead (automaton.step s byte) = true
  start_live : engine.isDead compiled.start = false
  class_lt : ∀ byte, engine.alphaMap compiled.regexes byte < engine.alphaLen compiled.regexes
  class_onto : ∀ c < engine.alphaLen compiled.regexes, ∃ byte,
    engine.alphaMap compiled.regexes byte = c

/-! ## Labels -/

/-- **The label of a state**: what `resolve_label` makes of the terminals that it accepts,
with work to spare. -/
def LabelOf (aliases : List (Option TerminalMeta)) (accepting : List ℕ)
    (label : Option TerminalId) : Prop :=
  ∃ work, resolveLabel aliases accepting 0 unlimitedWork = .ok (work, label)

theorem resolveLabelStep_unlimited {aliases : List (Option TerminalMeta)}
    {work work' maximumWork index : ℕ} {winner winner' : Option TerminalMeta}
    (h : resolveLabelStep aliases maximumWork (work, winner) index = .ok (work', winner'))
    (spent : ℕ) : ∃ spent',
      resolveLabelStep aliases unlimitedWork (spent, winner) index = .ok (spent', winner') := by
  simp only [resolveLabelStep, bind_eq_ok, indexAt_eq_ok] at h ⊢
  obtain ⟨slot, halias, h⟩ := h
  cases slot with
  | none =>
    obtain ⟨rfl, rfl⟩ := Prod.mk.inj (Except.ok.inj h)
    exact ⟨spent, none, halias, rfl⟩
  | some terminal =>
    obtain ⟨charged, hcharge, h⟩ := bind_eq_ok.mp h
    refine ⟨min (spent + 1) unlimitedWork, some terminal, halias, ?_⟩
    refine bind_eq_ok.mpr ⟨_, charge_unlimited spent 1, ?_⟩
    cases winner with
    | none =>
      obtain ⟨-, rfl⟩ := Prod.mk.inj (Except.ok.inj h)
      rfl
    | some previous =>
      dsimp only at h ⊢
      by_cases hlt : terminal.priority < previous.priority
      · rw [if_pos hlt] at h ⊢
        obtain ⟨-, rfl⟩ := Prod.mk.inj (Except.ok.inj h)
        rfl
      rw [if_neg hlt] at h ⊢
      by_cases heq : terminal.priority = previous.priority
      · rw [if_pos heq] at h
        cases h
      rw [if_neg heq] at h ⊢
      obtain ⟨-, rfl⟩ := Prod.mk.inj (Except.ok.inj h)
      rfl

/-- **A label does not depend on the work**: where the loop goes through, it comes to the same
label with work to spare. -/
theorem labelOf_of_resolveLabel {aliases : List (Option TerminalMeta)} {accepting : List ℕ}
    {work work' maximumWork : ℕ} {label : Option TerminalId}
    (h : resolveLabel aliases accepting work maximumWork = .ok (work', label)) :
    LabelOf aliases accepting label := by
  have hloop : ∀ (accepting : List ℕ) (work spent : ℕ) (winner : Option TerminalMeta)
      (out : ℕ × Option TerminalMeta),
      accepting.foldlM (resolveLabelStep aliases maximumWork) (work, winner) = .ok out →
        ∃ spent', accepting.foldlM (resolveLabelStep aliases unlimitedWork) (spent, winner) =
          .ok (spent', out.2) := by
    intro accepting
    induction accepting with
    | nil =>
      intro work spent winner out h
      obtain rfl := Except.ok.inj h
      exact ⟨spent, rfl⟩
    | cons index accepting ih =>
      intro work spent winner out h
      rw [List.foldlM_cons, bind_eq_ok] at h
      obtain ⟨⟨work', winner'⟩, hstep, h⟩ := h
      obtain ⟨spent', hspent⟩ := resolveLabelStep_unlimited hstep spent
      obtain ⟨spent'', hrest⟩ := ih work' spent' winner' out h
      exact ⟨spent'', by rw [List.foldlM_cons, hspent]; exact hrest⟩
  simp only [resolveLabel, bind_eq_ok] at h
  obtain ⟨out, hfold, h⟩ := h
  obtain ⟨-, rfl⟩ := Prod.mk.inj (Except.ok.inj h)
  obtain ⟨spent, hspent⟩ := hloop accepting work 0 none out hfold
  exact ⟨spent, bind_eq_ok.mpr ⟨_, hspent, rfl⟩⟩

/-! ## The export under way

The invariant of the two loops, and the step for one cell. -/

section
variable {ρ StateID : Type} {engine : RegexVec ρ StateID} {compiled : CompiledRegexes ρ StateID}
  {automaton : RegexAutomaton StateID} {Knows : ρ → StateID → Prop} {limits : ExportLimits}
  {representatives : List UInt8}

theorem getElem?_of_grows {l l' : List StateID} (hgrows : l <+: l') {i : ℕ} {s : StateID}
    (h : l[i]? = some s) : l'[i]? = some s := by
  obtain ⟨rest, rfl⟩ := hgrows
  obtain ⟨hlt, -⟩ := List.getElem?_eq_some_iff.mp h
  rwa [List.getElem?_append_left hlt]

/-- A cell that stands for a transition to `next`. -/
def PointsTo (engine : RegexVec ρ StateID) (states : List StateID) (next : StateID)
    (cell : Option DfaStateId) : Prop :=
  (engine.isDead next = true ∧ cell = none) ∨
    (engine.isDead next = false ∧ ∃ j, states[j]? = some next ∧ cell = some j)

/-- What cell `n` holds. -/
def RowCell (engine : RegexVec ρ StateID) (automaton : RegexAutomaton StateID)
    (representatives : List UInt8) (states : List StateID) (n : ℕ) (cell : Option DfaStateId) :
    Prop :=
  ∃ s byte, states[n / representatives.length]? = some s ∧
    representatives[n % representatives.length]? = some byte ∧
    PointsTo engine states (automaton.step s byte) cell

theorem RowCell.mono {states states' : List StateID} (hgrows : states <+: states') {n : ℕ}
    {cell : Option DfaStateId} (h : RowCell engine automaton representatives states n cell) :
    RowCell engine automaton representatives states' n cell := by
  obtain ⟨s, byte, hs, hbyte, hcell⟩ := h
  refine ⟨s, byte, getElem?_of_grows hgrows hs, hbyte, hcell.imp_right ?_⟩
  rintro ⟨hlive, j, hj, rfl⟩
  exact ⟨hlive, j, getElem?_of_grows hgrows hj, rfl⟩

/-- **The invariant of the export**, with `i` labels and `n` cells written. -/
structure Explored (engine : RegexVec ρ StateID) (compiled : CompiledRegexes ρ StateID)
    (automaton : RegexAutomaton StateID) (Knows : ρ → StateID → Prop)
    (representatives : List UInt8) (found : Exported ρ StateID limits.maximumStates) (i n : ℕ) :
    Prop where
  start : found.states[0]? = some compiled.start
  nodup : found.states.Nodup
  ids : ∀ s i, (s, i) ∈ found.stateIds ↔ found.states[i]? = some s
  knows : ∀ s ∈ found.states, Knows found.regexes s
  live : ∀ s ∈ found.states, engine.isDead s = false
  reached : ∀ s ∈ found.states, ∃ w : List UInt8, w.foldl automaton.step compiled.start = s
  cells : Filled (RowCell engine automaton representatives found.states) n found.transitions
  labels : Filled (fun n label => ∃ s, found.states[n]? = some s ∧
    LabelOf compiled.aliases (automaton.accepting s) label) i found.labels

theorem explored_new (hengine : engine.Deterministic compiled automaton Knows)
    (hstates : 0 < limits.maximumStates) (maximumWork : ℕ) :
    @Explored ρ StateID limits engine compiled automaton Knows representatives
      (.new (limitedRegexes engine compiled.regexes limits.maximumStates maximumWork)
        compiled.start hstates) 0 0 := by
  have hmem : ∀ s ∈ [compiled.start], s = compiled.start := fun s => List.mem_singleton.mp
  refine ⟨rfl, List.nodup_singleton _, fun s i => ?_, fun s hs => ?_, fun s hs => ?_,
    fun s hs => ?_,
    Filled.nil, Filled.nil⟩
  · show (s, i) ∈ [(compiled.start, 0)] ↔ [compiled.start][i]? = some s
    rw [List.mem_singleton, Prod.mk.injEq, List.getElem?_singleton]
    split_ifs with hzero
    · exact ⟨fun h => congrArg some h.1.symm, fun h => ⟨(Option.some_inj.mp h).symm, hzero⟩⟩
    · exact ⟨fun h => absurd h.2 hzero, fun h => by cases h⟩
  · rw [hmem s hs]
    exact hengine.knows_setFuel _ _ _ (hengine.knows_setMaxStates _ _ _ hengine.knows_start)
  · rw [hmem s hs]
    exact hengine.start_live
  · exact ⟨[], (hmem s hs).symm⟩

/-- **One cell is written**, and the state it points to is found if it is new. -/
theorem Explored.cell (hengine : engine.Deterministic compiled automaton Knows)
    {found found' : Exported ρ StateID limits.maximumStates} {i n : ℕ} {state : StateID}
    {byte : UInt8} (h : Explored engine compiled automaton Knows representatives found i n)
    (hstate : found.states[n / representatives.length]? = some state)
    (hbyte : representatives[n % representatives.length]? = some byte)
    (herror : engine.hasError (engine.transition found.regexes state byte).1 = false)
    (hregexes : found'.regexes = (engine.transition found.regexes state byte).1)
    (hlabels : found'.labels = found.labels)
    (hwritten : CellWritten engine (engine.transition found.regexes state byte).2 found found') :
    Explored engine compiled automaton Knows representatives found' i (n + 1) := by
  have hmem : state ∈ found.states := List.mem_of_getElem? hstate
  have hknows := h.knows state hmem
  have hnext := hengine.transition _ state byte hknows herror
  rw [hnext] at hwritten
  have hold : ∀ s ∈ found.states, Knows found'.regexes s := fun s hs =>
    hregexes ▸ hengine.knows_transition _ state byte s hknows herror (h.knows s hs)
  have hgrows := hwritten.grows
  have hlabels' : Filled (fun n label => ∃ s, found'.states[n]? = some s ∧
      LabelOf compiled.aliases (automaton.accepting s) label) i found'.labels := by
    rw [hlabels]
    refine h.labels.mono ?_
    rintro m label ⟨s, hs, hlabel⟩
    exact ⟨s, getElem?_of_grows hgrows hs, hlabel⟩
  have hcells : Filled (RowCell engine automaton representatives found'.states) n
      found.transitions := h.cells.mono fun _ _ hcell => hcell.mono hgrows
  have hstate' := getElem?_of_grows hgrows hstate
  cases hwritten with
  | dead hdead hstates hids hpush =>
    have hcell := hcells.push ⟨state, byte, hstate', hbyte, Or.inl ⟨hdead, rfl⟩⟩
    refine ⟨?_, ?_, ?_, ?_, ?_, ?_, hpush ▸ hcell, hlabels'⟩ <;> rw [hstates]
    · exact h.start
    · exact h.nodup
    · exact hids ▸ h.ids
    · exact hold
    · exact h.live
    · exact h.reached
  | known hlive hlookup hstates hids hpush =>
    -- a state that has a number keeps it
    have hdestination := (h.ids _ _).mp hlookup
    have hlt : _ < found.states.length := (List.getElem?_eq_some_iff.mp hdestination).1
    have hmod := Nat.mod_eq_of_lt
      (hlt.trans_le found.states_length |>.trans limits.maximumStates_lt)
    rw [hmod] at hpush
    have hcell := hcells.push ⟨state, byte, hstate', hbyte,
      Or.inr ⟨hlive, _, getElem?_of_grows hgrows hdestination, rfl⟩⟩
    refine ⟨?_, ?_, ?_, ?_, ?_, ?_, hpush ▸ hcell, hlabels'⟩ <;> rw [hstates]
    · exact h.start
    · exact h.nodup
    · exact hids ▸ h.ids
    · exact hold
    · exact h.live
    · exact h.reached
  | new hlive hlookup hstates hids hpush =>
    have hlast : found'.states[found.states.length]? = some (automaton.step state byte) := by
      rw [hstates]
      exact List.getElem?_concat_length
    have hcell := hcells.push ⟨state, byte, hstate', hbyte, Or.inr ⟨hlive, _, hlast, rfl⟩⟩
    have hnew : automaton.step state byte ∉ found.states := by
      intro hknown
      obtain ⟨j, hj⟩ := List.mem_iff_getElem?.mp hknown
      exact hlookup j ((h.ids _ j).mpr hj)
    have hforall : ∀ P : StateID → Prop, (∀ s ∈ found.states, P s) →
        P (automaton.step state byte) → ∀ s ∈ found'.states, P s := by
      intro P hearlier hnext s hs
      rw [hstates] at hs
      rcases List.mem_append.mp hs with hs | hs
      · exact hearlier s hs
      · rwa [List.mem_singleton.mp hs]
    refine ⟨getElem?_of_grows hgrows h.start, ?_, fun s j => ?_, hforall _ hold ?_,
      hforall _ h.live hlive, hforall _ h.reached ?_, hpush ▸ hcell, hlabels'⟩
    · rw [hstates]
      exact h.nodup.append (List.nodup_singleton _) (List.disjoint_singleton.mpr hnew)
    · rw [hids, hstates, List.mem_cons, h.ids, getElem?_concat_eq_some, Prod.mk.injEq]
      exact or_comm.trans (or_congr_right (and_comm.trans (and_congr_right fun _ => eq_comm)))
    · rw [hregexes, ← hnext]
      exact hengine.knows_next _ state byte hknows herror
    · obtain ⟨w, rfl⟩ := h.reached state hmem
      exact ⟨w ++ [byte], by rw [List.foldl_append]; rfl⟩

/-- **The export explores the automaton.** -/
theorem exportFrom_explored [DecidableEq StateID]
    (hengine : engine.Deterministic compiled automaton Knows) {hstates : 0 < limits.maximumStates}
    {maximumWork : ℕ} {found : Exported ρ StateID limits.maximumStates}
    (hrun : exportFrom engine limits compiled.aliases representatives
      (.new (limitedRegexes engine compiled.regexes limits.maximumStates maximumWork)
        compiled.start hstates) 0 = .ok found) :
    Explored engine compiled automaton Knows representatives found found.states.length
      (found.states.length * representatives.length) := by
  refine exportFrom_rule
    (I := fun found i => Explored engine compiled automaton Knows representatives found i
      (i * representatives.length))
    (J := fun i found c => Explored engine compiled automaton Knows representatives found (i + 1)
      (i * representatives.length + c)) ?_ ?_ ?_ ?_ (Nat.zero_le _) hrun
  · intro found i state work label h hstate hlabel
    rw [hengine.accepting _ state (h.knows state (List.mem_of_getElem? hstate))] at hlabel
    exact ⟨h.start, h.nodup, h.ids, h.knows, h.live, h.reached, h.cells,
      h.labels.push ⟨state, hstate, labelOf_of_resolveLabel hlabel⟩⟩
  · intro i found found' c state byte h hstate hbyte herror hregexes hlabels hwritten
    obtain ⟨hlt, -⟩ := List.getElem?_eq_some_iff.mp hbyte
    have hpos : 0 < representatives.length := Nat.zero_lt_of_lt hlt
    have hdiv : (i * representatives.length + c) / representatives.length = i := by
      rw [Nat.mul_comm, Nat.mul_add_div hpos, Nat.div_eq_of_lt hlt, Nat.add_zero]
    have hmod : (i * representatives.length + c) % representatives.length = c := by
      rw [Nat.mul_comm, Nat.mul_add_mod, Nat.mod_eq_of_lt hlt]
    exact h.cell hengine (hdiv.symm ▸ hstate) (hmod.symm ▸ hbyte) herror hregexes hlabels hwritten
  · intro i found h
    rwa [Nat.succ_mul]
  · rw [Nat.zero_mul]
    exact explored_new hengine hstates maximumWork

end

/-! ## The table as an automaton -/

/-- The automaton that exported tables describe. -/
def LexerDfa.dfa (lexer : LexerDfa) : LabelledDfa DfaStateId UInt8 TerminalId where
  start := lexer.startState
  step q byte := do
    let byteClass ← lexer.byteClasses[byte.toNat]?
    (lexer.transitions[q * lexer.classCount + byteClass]?).join
  label q := (lexer.terminals[q]?).join

/-- **Validation reads the automaton as it was exported.** -/
theorem fromUnvalidated_dfa {grammar : UnvalidatedGrammar} {limits : ValidationLimits}
    (h : grammar.WellFormed limits) :
    (ValidatedLexer.fromUnvalidated grammar h).dfa = grammar.lexer.dfa := by
  have hstep : ∀ q byte, (ValidatedLexer.fromUnvalidated grammar h).dfa.step q byte =
      grammar.lexer.dfa.step q byte := by
    intro q byte
    have hclass := (mirrors_fromParts h).byteClass byte
    have htransition := (mirrors_fromParts h).transition q byte
    have hcell : grammar.lexer.dfa.step q byte = (grammar.lexer.transitions[
        q * grammar.lexer.classCount +
          (ValidatedLexer.fromUnvalidated grammar h).byteClass byte]?).join := by
      show (grammar.lexer.byteClasses[byte.toNat]?).bind _ = _
      rw [hclass]
      rfl
    rw [hcell]
    show ((ValidatedLexer.fromUnvalidated grammar h).transition q byte).join = _
    by_cases hq : q < grammar.lexer.stateCount
    · exact congrArg Option.join (htransition.trans (if_pos hq))
    · rw [List.getElem?_eq_none]
      · exact congrArg Option.join (htransition.trans (if_neg hq))
      · rw [h.shaped.transitions]
        exact (Nat.mul_le_mul_right _ (Nat.not_lt.mp hq)).trans (Nat.le_add_right _ _)
  have hlabel : ∀ q, (ValidatedLexer.fromUnvalidated grammar h).dfa.label q =
      grammar.lexer.dfa.label q := fun q =>
    congrArg Option.join ((mirrors_fromParts h).terminal q)
  exact LabelledDfa.ext rfl (funext fun q => funext fun byte => hstep q byte) (funext hlabel)

section
variable {ρ StateID : Type} {engine : RegexVec ρ StateID} {compiled : CompiledRegexes ρ StateID}
  {automaton : RegexAutomaton StateID} {Knows : ρ → StateID → Prop}

/-- The automaton behind a vector, without its dead states. -/
def RegexAutomaton.lives (automaton : RegexAutomaton StateID) (engine : RegexVec ρ StateID)
    (compiled : CompiledRegexes ρ StateID) : LabelledDfa StateID UInt8 TerminalId :=
  live compiled.start automaton.step engine.isDead fun s =>
    ((resolveLabel compiled.aliases (automaton.accepting s) 0 unlimitedWork).toOption).bind Prod.snd

/-- **The table numbers the live states.** -/
theorem buildLexerDfa_numbers [DecidableEq StateID]
    (hengine : engine.Deterministic compiled automaton Knows) {maximumStates maximumWork : ℕ}
    {maximumCells : UInt64} {lexer : LexerDfa}
    (h : buildLexerDfa engine compiled maximumStates maximumCells maximumWork = .ok lexer) :
    ∃ states : List StateID, lexer.dfa.Numbers (automaton.lives engine compiled) states ∧
      states.length = lexer.stateCount ∧ lexer.stateCount ≤ maximumStates ∧
      (∀ s ∈ states, engine.isDead s = false) ∧
      ∀ (d : DfaStateId) s, states[d]? = some s → ∃ label, lexer.terminals[d]? = some label ∧
        LabelOf compiled.aliases (automaton.accepting s) label := by
  obtain ⟨limits, representatives, hstates, found, hmaximum, -, halphabet, hrun, -, hstateCount,
    hclassCount, htransitions, hstart, hterminals⟩ := buildLexerDfa_ok h
  obtain ⟨-, hrepresents, -, hclasses⟩ := compressedAlphabet_ok halphabet
  have hexplored := exportFrom_explored hengine hrun
  refine ⟨found.states, ⟨?_, hexplored.nodup, fun s hs => ?_, fun i s byte hs => ?_⟩,
    hstateCount.symm, ?_, hexplored.live, fun d s hs => ?_⟩
  · show found.states[lexer.startState]? = _
    rw [hstart]
    exact hexplored.start
  · obtain ⟨w, hw⟩ := hexplored.reached s hs
    refine ⟨w, (walk_live hengine.dead hengine.start_live w).trans ?_⟩
    rw [hw, hexplored.live s hs]
    rfl
  · obtain ⟨hclass, hget⟩ := hclasses byte
    obtain ⟨hi, -⟩ := List.getElem?_eq_some_iff.mp hs
    have hpos : 0 < representatives.length := Nat.zero_lt_of_lt hclass
    have hcell : i * representatives.length + engine.alphaMap compiled.regexes byte <
        found.states.length * representatives.length := cell_lt hi hclass
    obtain ⟨cell, hcellGet, s', byte', hs', hbyte', hpoints⟩ := hexplored.cells.get hcell
    rw [Nat.mul_comm, Nat.mul_add_div hpos, Nat.div_eq_of_lt hclass, Nat.add_zero] at hs'
    rw [Nat.mul_comm, Nat.mul_add_mod, Nat.mod_eq_of_lt hclass] at hbyte'
    obtain rfl : s = s' := Option.some_inj.mp (hs.symm.trans hs')
    -- the representative of the class stands for the byte
    rw [hengine.sameClass s byte' byte (hrepresents _ _ hbyte')] at hpoints
    have htable : lexer.dfa.step i byte = cell := by
      show (lexer.byteClasses[byte.toNat]?).bind _ = _
      rw [hget, Option.bind_some, htransitions, hclassCount, hcellGet, Option.join_some]
    have hstep : (automaton.lives engine compiled).step s byte =
        if engine.isDead (automaton.step s byte) then none else some (automaton.step s byte) := rfl
    rcases hpoints with ⟨hdead, rfl⟩ | ⟨hlive, j, hj, rfl⟩
    · exact Or.inl ⟨hstep.trans (if_pos hdead), htable⟩
    · refine Or.inr ⟨j, _, hstep.trans (if_neg ?_), htable, hj⟩
      rw [hlive]
      exact Bool.false_ne_true
  · rw [hstateCount]
    exact found.states_length.trans hmaximum
  · obtain ⟨hlt, -⟩ := List.getElem?_eq_some_iff.mp hs
    obtain ⟨label, hlabel, s', hs', hof⟩ := hexplored.labels.get hlt
    obtain rfl : s = s' := Option.some_inj.mp (hs.symm.trans hs')
    exact ⟨label, by rw [hterminals, hlabel], hof⟩

/-- **The exported table simulates the regex automaton.**  A word is stuck in the table just
where the automaton comes into a dead state; otherwise the table ends in the number of the
state that the automaton ends in, with the label that `resolve_label` gives it.  The
numbers are those of the live states that the start state leads to, each with one number, and
there are not more of them than allowed. -/
theorem buildLexerDfa_simulates [DecidableEq StateID]
    (hengine : engine.Deterministic compiled automaton Knows) {maximumStates maximumWork : ℕ}
    {maximumCells : UInt64} {lexer : LexerDfa}
    (h : buildLexerDfa engine compiled maximumStates maximumCells maximumWork = .ok lexer) :
    ∃ states : List StateID,
      (∀ w : List UInt8, lexer.dfa.walk 0 w = none ↔
        ∃ v, v <+: w ∧ engine.isDead (v.foldl automaton.step compiled.start) = true) ∧
      (∀ (w : List UInt8) (d : DfaStateId), lexer.dfa.walk 0 w = some d →
        states[d]? = some (w.foldl automaton.step compiled.start)) ∧
      (∀ (d : DfaStateId) s, states[d]? = some s → ∃ label, lexer.terminals[d]? = some label ∧
        LabelOf compiled.aliases (automaton.accepting s) label) ∧
      states.Nodup ∧
      (∀ s, s ∈ states ↔ engine.isDead s = false ∧
        ∃ w : List UInt8, w.foldl automaton.step compiled.start = s) ∧
      states.length = lexer.stateCount ∧ lexer.stateCount ≤ maximumStates ∧
      lexer.Shaped compiled.aliases := by
  obtain ⟨states, hnumbers, hlength, hmaximum, hlive, hlabels⟩ := buildLexerDfa_numbers hengine h
  obtain ⟨hshaped, -⟩ := buildLexerDfa_shaped h
  have hzero : states[0]? = some compiled.start := hshaped.start ▸ hnumbers.start
  have hwalk : ∀ w : List UInt8, (automaton.lives engine compiled).walk compiled.start w =
      if engine.isDead (w.foldl automaton.step compiled.start) then none
      else some (w.foldl automaton.step compiled.start) := fun w =>
    walk_live hengine.dead hengine.start_live w
  refine ⟨states, fun w => ?_, fun w d hd => ?_, hlabels, hnumbers.nodup, fun s => ?_, hlength,
    hmaximum, hshaped⟩
  · rw [← dead_foldl_iff hengine.dead]
    rcases hnumbers.walk hzero w with ⟨hM, hT⟩ | ⟨j, s', hM, hT, -⟩
    · rw [hwalk] at hM
      refine iff_of_true hT ?_
      by_contra hnot
      rw [if_neg hnot] at hM
      cases hM
    · rw [hwalk] at hM
      refine iff_of_false (by rw [hT]; exact Option.some_ne_none j) fun hdead => ?_
      rw [if_pos hdead] at hM
      cases hM
  · rcases hnumbers.walk hzero w with ⟨-, hT⟩ | ⟨j, s', hM, hT, hj⟩
    · rw [hT] at hd
      cases hd
    · obtain rfl : j = d := Option.some_inj.mp (hT.symm.trans hd)
      rw [hwalk] at hM
      split_ifs at hM
      rw [hj, hM]
  · rw [hnumbers.mem_iff]
    constructor
    · rintro ⟨w, hw⟩
      have hmem := hnumbers.mem_iff.mpr ⟨w, hw⟩
      have hw' := (hwalk w).symm.trans hw
      split_ifs at hw'
      exact ⟨hlive s hmem, w, Option.some_inj.mp hw'⟩
    · rintro ⟨hs, w, rfl⟩
      refine ⟨w, (hwalk w).trans (if_neg ?_)⟩
      rw [hs]
      exact Bool.false_ne_true

end

/-- The vector of the one regex `a`: a start state, a state behind the `a`, and a dead one. -/
def letterEngine : RegexVec Unit (Fin 3) where
  alphaLen _ := 2
  alphaMap _ byte := if byte = 97 then 0 else 1
  numBytes _ := 0
  setMaxStates _ _ := ()
  setFuel _ _ := ()
  getFuel _ := 1
  transition _ s byte := ((), if s = 0 ∧ byte = 97 then 1 else 2)
  hasError _ := false
  isDead s := s = 2
  greedyAccepting _ s := if s = 1 then [0] else []

def letterCompiled : CompiledRegexes Unit (Fin 3) := ⟨(), 0, [some ⟨"A", 0, 0⟩], 0⟩

def letterAutomaton : RegexAutomaton (Fin 3) where
  step s byte := if s = 0 ∧ byte = 97 then 1 else 2
  accepting s := if s = 1 then [0] else []

theorem letter_deterministic :
    letterEngine.Deterministic letterCompiled letterAutomaton fun _ _ => True where
  knows_start := trivial
  knows_setMaxStates _ _ _ _ := trivial
  knows_setFuel _ _ _ _ := trivial
  knows_transition _ _ _ _ _ _ _ := trivial
  knows_next _ _ _ _ _ := trivial
  transition _ _ _ _ _ := rfl
  accepting _ _ _ := rfl
  sameClass s byte byte' h := by
    have hiff : byte = 97 ↔ byte' = 97 := by
      have hclass : (if byte = 97 then 0 else 1) = if byte' = 97 then 0 else 1 := h
      split_ifs at hclass with h₁ h₂ h₂
      · exact iff_of_true h₁ h₂
      · exact iff_of_false h₁ h₂
    simp only [letterAutomaton, hiff]
  dead s byte h := by
    obtain rfl : s = 2 := of_decide_eq_true h
    rfl
  start_live := rfl
  class_lt byte := by
    show (if byte = 97 then 0 else 1) < 2
    split_ifs <;> omega
  class_onto c hc := by
    have hc' : c < 2 := hc
    obtain rfl | rfl : c = 0 ∨ c = 1 := by omega
    · exact ⟨97, rfl⟩
    · exact ⟨0, rfl⟩

theorem buildLexerDfa_simulates_letter :
    ∃ lexer, buildLexerDfa letterEngine letterCompiled 10 100 1000 = .ok lexer ∧
      lexer.dfa.walk 0 [97] ≠ none ∧ lexer.dfa.walk 0 [97, 97] = none := by
  have hsome : (buildLexerDfa letterEngine letterCompiled 10 100 1000).toOption.isSome = true := by
    decide +kernel
  obtain ⟨lexer, hok⟩ :
      ∃ lexer, buildLexerDfa letterEngine letterCompiled 10 100 1000 = .ok lexer :=
    ⟨_, eq_ok_get _ hsome⟩
  obtain ⟨states, hstuck, -⟩ := buildLexerDfa_simulates letter_deterministic hok
  refine ⟨lexer, hok, fun hnone => ?_, (hstuck [97, 97]).mpr ⟨[97, 97], List.prefix_refl _, rfl⟩⟩
  obtain ⟨v, hv, hdead⟩ := (hstuck [97]).mp hnone
  rcases List.prefix_cons_iff.mp hv with rfl | ⟨rest, rfl, hrest⟩
  · exact absurd hdead (by decide)
  · rw [List.prefix_nil.mp hrest] at hdead
    exact absurd hdead (by decide)

end GreatGramma
