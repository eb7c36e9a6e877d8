import GreatGramma.Compiler.Boundary
import GreatGramma.Compiler.Labels
import GreatGramma.Library.FirstError

/-!
# Export of the lexer DFA

`dfa.rs`.  The regexes are compiled by `llguidance` into a `RegexVec`, which makes its states as
they are asked for.  `build_lexer_dfa` walks through them from the start state, numbers them in the
order in which they come up, and writes the rows of the table one after the other, over the byte
classes of the alphabet.

## The vector

The vector is not part of this repository; what is called of it is a parameter.  Its methods change
it, so those that do return the vector that is there afterwards.  Reservations succeed.

## The walk

The list of states grows while it is walked through.  A transition leads to a dead state, and the
cell stays empty; to a state that has a number, and the cell gets it; or to a new state, which gets
the next number and is put at the end of the list (`CellWritten`).  Nothing else is done to the
states, so the list only grows.  A limit on the number of states ends the walk, since the loop of
the source has no other bound; the measure of the loop is what is left of it.

`exportFrom_rule` is the rule of this loop: an invariant for the finished rows, and one for the
cells of the row that is being written.  All that is said of the export is said by two instances of
it.  What the tables look like does not depend on the vector: `buildLexerDfa_shaped` holds whatever
it answers.  What they mean is said of a vector that is an automaton (`Compiler.Simulation`).
-/

namespace GreatGramma

open Traversal

/-- What the compiler calls of `llguidance`'s `RegexVec`. -/
structure RegexVec (ρ StateID : Type) where
  /-- `alpha().len()` -/
  alphaLen : ρ → ℕ
  /-- `alpha().map(byte)` -/
  alphaMap : ρ → UInt8 → ℕ
  numBytes : ρ → ℕ
  setMaxStates : ρ → ℕ → ρ
  setFuel : ρ → ℕ → ρ
  getFuel : ρ → ℕ
  transition : ρ → StateID → UInt8 → ρ × StateID
  hasError : ρ → Bool
  isDead : StateID → Bool
  /-- `state_desc(state).greedy_accepting` -/
  greedyAccepting : ρ → StateID → List ℕ

/-- `CompiledRegexes`. -/
structure CompiledRegexes (ρ StateID : Type) where
  regexes : ρ
  start : StateID
  aliases : List (Option TerminalMeta)
  maxOutputBytes : ℕ

/-! ## Limits -/

/-- `check_regex_output_limit`. -/
def checkRegexOutputLimit {ρ StateID : Type} (engine : RegexVec ρ StateID) (regexes : ρ)
    (maximum : ℕ) : Except CompileFailure Unit :=
  let required := engine.numBytes regexes
  if required > maximum then .error (.error (.regexOutputLimit required maximum)) else .ok ()

/-- `check_cell_limit`. -/
def checkCellLimit (stateCount classCount : ℕ) (maximum : UInt64) : Except CompileFailure Unit :=
  let required := min (stateCount * classCount) (2 ^ 64 - 1)
  if required > maximum.toNat then
    .error (.error (.validation (.limitExceeded .dfaCells required maximum)))
  else .ok ()

/-- `regex_vec_error`. -/
def regexVecError {ρ StateID : Type} (engine : RegexVec ρ StateID) (regexes : ρ)
    (requiredStates maximumStates maximumWork : ℕ) : CompileError :=
  if engine.getFuel regexes = 0 then
    .compilerWorkLimit (min (maximumWork + 1) (2 ^ 64 - 1)) maximumWork
  else .tooManyDfaStates requiredStates maximumStates

/-! ## The alphabet -/

/-- The values of `u8::MIN..=u8::MAX`. -/
def allBytes : List UInt8 := (List.range 256).map UInt8.ofNat

/-- One byte of the loop of `compressed_alphabet`. -/
def classifyByte {ρ StateID : Type} (engine : RegexVec ρ StateID) (regexes : ρ)
    (state : List (Option UInt8) × List ℕ) (byte : UInt8) :
    Except CompileFailure (List (Option UInt8) × List ℕ) := do
  let (representativesByClass, byteClasses) := state
  let byteClass := engine.alphaMap regexes byte
  let representative ← indexAt representativesByClass byteClass
  return (representativesByClass.set byteClass (some (representative.getD byte)),
    byteClasses ++ [byteClass % 2 ^ 32])

/-- The representative of a class, which is expected to have one. -/
def expectRepresentative : Option UInt8 → Except CompileFailure UInt8
  | none => .error .panic
  | some byte => .ok byte

/-- `compressed_alphabet`. -/
def compressedAlphabet {ρ StateID : Type} (engine : RegexVec ρ StateID) (regexes : ρ) :
    Except CompileFailure (List ℕ × List UInt8) := do
  let (representativesByClass, byteClasses) ← allBytes.foldlM (classifyByte engine regexes)
    (List.replicate (engine.alphaLen regexes) none, [])
  let representatives ← representativesByClass.mapM expectRepresentative
  return (byteClasses, representatives)

/-! ## The export -/

/-- The limits of an export.  The number of states fits in a `u32`. -/
structure ExportLimits where
  maximumStates : ℕ
  maximumCells : UInt64
  maximumWork : ℕ
  maxOutputBytes : ℕ
  maximumStates_lt : maximumStates < 2 ^ 32

/-- The variables of the export: the vector, the work, the states found, their index, and
the tables so far. -/
structure Exported (ρ StateID : Type) (maximumStates : ℕ) where
  regexes : ρ
  work : ℕ
  states : List StateID
  stateIds : List (StateID × ℕ)
  transitions : List (Option DfaStateId)
  labels : List (Option TerminalId)
  states_length : states.length ≤ maximumStates

/-- The variables before the loop. -/
def Exported.new {ρ StateID : Type} {maximumStates : ℕ} (regexes : ρ) (start : StateID)
    (h : 0 < maximumStates) : Exported ρ StateID maximumStates where
  regexes := regexes
  work := 0
  states := [start]
  stateIds := [(start, 0)]
  transitions := []
  labels := []
  states_length := h

/-- One representative of the inner loop of `build_lexer_dfa`. -/
def exportTransition {ρ StateID : Type} [BEq StateID] (engine : RegexVec ρ StateID)
    (limits : ExportLimits) (classCount : ℕ) (state : StateID)
    (found : Exported ρ StateID limits.maximumStates) (byte : UInt8) :
    Except CompileFailure (Exported ρ StateID limits.maximumStates) := do
  let work ← charge found.work 1 limits.maximumWork
  let (regexes, next) := engine.transition found.regexes state byte
  let required := found.states.length + 1
  if engine.hasError regexes then
    throw (.error
      (regexVecError engine regexes required limits.maximumStates limits.maximumWork))
  else
    checkRegexOutputLimit engine regexes limits.maxOutputBytes
    if engine.isDead next then
      return { found with regexes, work, transitions := found.transitions ++ [none] }
    else
      match found.stateIds.lookup next with
      | some destination =>
        return { found with
          regexes, work, transitions := found.transitions ++ [some (destination % 2 ^ 32)] }
      | none =>
        if h : required > limits.maximumStates then
          throw (.error (.tooManyDfaStates required limits.maximumStates))
        else
          checkCellLimit required classCount limits.maximumCells
          return { found with
            regexes, work
            states := found.states ++ [next]
            stateIds := (next, required - 1) :: found.stateIds
            transitions := found.transitions ++ [some ((required - 1) % 2 ^ 32)]
            states_length := by
              rw [List.length_append, List.length_singleton]
              exact Nat.not_lt.mp h }

/-- The body of the outer loop of `build_lexer_dfa`, at one state. -/
def exportState {ρ StateID : Type} [BEq StateID] (engine : RegexVec ρ StateID)
    (limits : ExportLimits) (aliases : List (Option TerminalMeta)) (representatives : List UInt8)
    (found : Exported ρ StateID limits.maximumStates) (state : StateID) :
    Except CompileFailure (Exported ρ StateID limits.maximumStates) := do
  let accepting := engine.greedyAccepting found.regexes state
  let (work, label) ← resolveLabel aliases accepting found.work limits.maximumWork
  representatives.foldlM (exportTransition engine limits representatives.length state)
    { found with work, labels := found.labels ++ [label] }

/-- The outer loop of `build_lexer_dfa`: the list of states grows while it is walked
through. -/
def exportFrom {ρ StateID : Type} [BEq StateID] (engine : RegexVec ρ StateID)
    (limits : ExportLimits) (aliases : List (Option TerminalMeta)) (representatives : List UInt8)
    (found : Exported ρ StateID limits.maximumStates) (stateIndex : ℕ) :
    Except CompileFailure (Exported ρ StateID limits.maximumStates) :=
  if h : stateIndex < found.states.length then do
    let found' ← exportState engine limits aliases representatives found found.states[stateIndex]
    exportFrom engine limits aliases representatives found' (stateIndex + 1)
  else .ok found
termination_by limits.maximumStates - stateIndex
decreasing_by
  have hlength := found.states_length
  omega

/-- The vector with the limits of the export set. -/
def limitedRegexes {ρ StateID : Type} (engine : RegexVec ρ StateID) (regexes : ρ)
    (maximumStates maximumWork : ℕ) : ρ :=
  engine.setFuel (engine.setMaxStates regexes (maximumStates + 3))
    (min (maximumWork + 1) (2 ^ 64 - 1))

/-- `build_lexer_dfa`. -/
def buildLexerDfa {ρ StateID : Type} [BEq StateID] (engine : RegexVec ρ StateID)
    (compiled : CompiledRegexes ρ StateID) (maximumStates : ℕ) (maximumCells : UInt64)
    (maximumWork : ℕ) : Except CompileFailure LexerDfa :=
  let maximumStates := min maximumStates (2 ^ 32 - 1)
  if hstates : maximumStates = 0 then .error (.error (.tooManyDfaStates 1 0))
  else do
    checkRegexOutputLimit engine compiled.regexes compiled.maxOutputBytes
    let (byteClasses, representatives) ← compressedAlphabet engine compiled.regexes
    checkCellLimit 1 representatives.length maximumCells
    let limits : ExportLimits :=
      { maximumStates, maximumCells, maximumWork
        maxOutputBytes := compiled.maxOutputBytes
        maximumStates_lt := by omega }
    let regexes := limitedRegexes engine compiled.regexes maximumStates maximumWork
    let found ← exportFrom engine limits compiled.aliases representatives
      (.new regexes compiled.start (Nat.pos_of_ne_zero hstates)) 0
    checkRegexOutputLimit engine found.regexes compiled.maxOutputBytes
    let _ ← charge found.work found.transitions.length maximumWork
    rejectMultiByteFallback found.labels found.transitions representatives
    return {
      stateCount := found.states.length % 2 ^ 32
      classCount := representatives.length % 2 ^ 32
      byteClasses
      transitions := found.transitions
      startState := 0
      terminals := found.labels
      stateCount_lt := Nat.mod_lt _ (Nat.two_pow_pos 32)
      classCount_lt := Nat.mod_lt _ (Nat.two_pow_pos 32) }

/-! ## Byte classes

Bytes that the vector does not tell apart are one class, and each class has the first of its bytes
for a representative. -/

theorem mem_allBytes (byte : UInt8) : byte ∈ allBytes :=
  List.mem_map.mpr ⟨byte.toNat, List.mem_range.mpr byte.toNat_lt, UInt8.ofNat_toNat⟩

theorem allBytes_getElem? (byte : UInt8) : allBytes[byte.toNat]? = some byte := by
  rw [allBytes, List.getElem?_map, List.getElem?_range byte.toNat_lt]
  exact congrArg some UInt8.ofNat_toNat

section
variable {ρ StateID : Type} {engine : RegexVec ρ StateID} {regexes : ρ}

theorem representatives_length_le {representatives : List UInt8} {f : UInt8 → ℕ}
    (h : ∀ (c : ℕ) (byte : UInt8), representatives[c]? = some byte → f byte = c) :
    representatives.length ≤ 256 := by
  have hnodup : representatives.Nodup := by
    rw [List.nodup_iff_getElem?_ne_getElem?]
    intro i j hij hj heq
    have hi := List.getElem?_eq_getElem hj
    have hfi := h i representatives[j] (heq.trans hi)
    exact Nat.ne_of_lt hij (hfi.symm.trans (h j representatives[j] hi))
  have hsub : representatives ⊆ allBytes := fun byte _ => mem_allBytes byte
  have hle := (List.subperm_of_subset hnodup hsub).length_le
  rwa [allBytes, List.length_map, List.length_range] at hle

theorem mapM_expectRepresentative {classes : List (Option UInt8)} {representatives : List UInt8}
    (h : classes.mapM expectRepresentative = .ok representatives) :
    classes = representatives.map some := by
  obtain ⟨hlength, hget⟩ := mapM_eq_ok_get.mp h
  refine List.ext_getElem (by rw [List.length_map, hlength]) fun c hc hc' => ?_
  have hexpect := hget c hc (hlength ▸ hc)
  rw [List.getElem_map]
  cases hclass : classes[c] with
  | none =>
    rw [hclass] at hexpect
    cases hexpect
  | some byte =>
    rw [hclass] at hexpect
    exact congrArg some (Except.ok.inj hexpect)

/-- **The compressed alphabet**: every byte has its class, and every class a byte of it. -/
theorem compressedAlphabet_ok {byteClasses : List ℕ} {representatives : List UInt8}
    (h : compressedAlphabet engine regexes = .ok (byteClasses, representatives)) :
    representatives.length ≤ 256 ∧
      (∀ (c : ℕ) (byte : UInt8), representatives[c]? = some byte →
        engine.alphaMap regexes byte = c) ∧
      byteClasses.length = 256 ∧
      ∀ byte : UInt8, engine.alphaMap regexes byte < representatives.length ∧
        byteClasses[byte.toNat]? = some (engine.alphaMap regexes byte) := by
  simp only [compressedAlphabet, bind_eq_ok] at h
  obtain ⟨⟨byClass, classes⟩, hloop, representatives', hmap, h⟩ := h
  obtain ⟨rfl, rfl⟩ := Prod.mk.inj (Except.ok.inj h)
  obtain rfl := mapM_expectRepresentative hmap
  have hinv := foldlM_ok (I := fun done (s : List (Option UInt8) × List ℕ) =>
    (∀ (c : ℕ) (byte : UInt8), s.1[c]? = some (some byte) → engine.alphaMap regexes byte = c) ∧
      s.2 = done.map (fun byte => engine.alphaMap regexes byte % 2 ^ 32) ∧
      ∀ byte ∈ done, engine.alphaMap regexes byte < s.1.length) hloop ?_ ?_
  · obtain ⟨hrepresents, hclasses, hrange⟩ := hinv
    have hrep : ∀ (c : ℕ) (byte : UInt8), representatives'[c]? = some byte →
        engine.alphaMap regexes byte = c := by
      intro c byte hbyte
      refine hrepresents c byte ?_
      rw [List.getElem?_map, hbyte, Option.map_some]
    have hle := representatives_length_le hrep
    have hlt : ∀ byte, engine.alphaMap regexes byte < representatives'.length := by
      intro byte
      have h := hrange byte (mem_allBytes byte)
      rwa [List.length_map] at h
    refine ⟨hle, hrep, ?_, fun byte => ⟨hlt byte, ?_⟩⟩
    · rw [hclasses, List.length_map, allBytes, List.length_map, List.length_range]
    · have hsmall : engine.alphaMap regexes byte < 2 ^ 32 := by
        have h := hlt byte
        omega
      rw [hclasses, List.getElem?_map, allBytes_getElem?, Option.map_some, Nat.mod_eq_of_lt hsmall]
  · refine ⟨fun c byte hbyte => ?_, rfl, fun byte hmem => absurd hmem List.not_mem_nil⟩
    rw [List.getElem?_replicate] at hbyte
    split_ifs at hbyte
    cases Option.some_inj.mp hbyte
  · rintro done byte - s s' - ⟨hrepresents, hclasses, hrange⟩ hbody
    simp only [classifyByte, bind_eq_ok, indexAt_eq_ok] at hbody
    obtain ⟨representative, hget, hbody⟩ := hbody
    obtain rfl := Except.ok.inj hbody
    obtain ⟨hlt, -⟩ := List.getElem?_eq_some_iff.mp hget
    refine ⟨fun c other hother => ?_, ?_, fun other hmem => ?_⟩
    · by_cases hc : engine.alphaMap regexes byte = c
      · rw [← hc, List.getElem?_set_self hlt] at hother
        have hother' := Option.some_inj.mp (Option.some_inj.mp hother)
        cases representative with
        | none =>
          obtain rfl : byte = other := hother'
          exact hc
        | some first =>
          obtain rfl : first = other := hother'
          rw [hrepresents _ first hget, hc]
      · rw [List.getElem?_set_ne hc] at hother
        exact hrepresents c other hother
    · show s.2 ++ [_] = _
      rw [hclasses, List.map_append]
      rfl
    · rw [List.length_set]
      rcases List.mem_append.mp hmem with hearlier | hlast
      · exact hrange other hearlier
      · rw [List.mem_singleton.mp hlast]
        exact hlt

end

/-! ## The loops -/

section
variable {ρ StateID : Type} {engine : RegexVec ρ StateID} {limits : ExportLimits}

/-- What one cell, for a transition to `next`, does to the states and the tables. -/
inductive CellWritten (engine : RegexVec ρ StateID) (next : StateID)
    (found found' : Exported ρ StateID limits.maximumStates) : Prop
  | dead (hdead : engine.isDead next = true) (hstates : found'.states = found.states)
    (hids : found'.stateIds = found.stateIds)
    (hcells : found'.transitions = found.transitions ++ [none])
  | known (hlive : engine.isDead next = false) {destination : ℕ}
    (hlookup : (next, destination) ∈ found.stateIds) (hstates : found'.states = found.states)
    (hids : found'.stateIds = found.stateIds)
    (hcells : found'.transitions = found.transitions ++ [some (destination % 2 ^ 32)])
  | new (hlive : engine.isDead next = false) (hlookup : ∀ i, (next, i) ∉ found.stateIds)
    (hstates : found'.states = found.states ++ [next])
    (hids : found'.stateIds = (next, found.states.length) :: found.stateIds)
    (hcells : found'.transitions = found.transitions ++ [some found.states.length])

theorem mem_of_lookup [DecidableEq StateID] {entries : List (StateID × ℕ)} {s : StateID} {i : ℕ}
    (h : entries.lookup s = some i) : (s, i) ∈ entries := by
  obtain ⟨before, after, rfl, -⟩ := List.lookup_eq_some_iff.mp h
  exact List.mem_append_right before List.mem_cons_self

theorem not_mem_of_lookup [DecidableEq StateID] {entries : List (StateID × ℕ)} {s : StateID}
    (h : entries.lookup s = none) (i : ℕ) : (s, i) ∉ entries := by
  intro hmem
  have hne := List.lookup_eq_none_iff.mp h (s, i) hmem
  simp at hne

/-- **One cell.** -/
theorem exportTransition_cases [DecidableEq StateID] {classCount : ℕ} {state : StateID}
    {byte : UInt8} {found found' : Exported ρ StateID limits.maximumStates}
    (h : exportTransition engine limits classCount state found byte = .ok found') :
    engine.hasError (engine.transition found.regexes state byte).1 = false ∧
      found'.regexes = (engine.transition found.regexes state byte).1 ∧
      found'.labels = found.labels ∧
      CellWritten engine (engine.transition found.regexes state byte).2 found found' := by
  simp only [exportTransition, bind_eq_ok] at h
  obtain ⟨work, -, h⟩ := h
  by_cases herror : engine.hasError (engine.transition found.regexes state byte).1 = true
  · rw [if_pos herror] at h
    cases h
  rw [if_neg herror] at h
  obtain ⟨_, -, h⟩ := bind_eq_ok.mp h
  refine ⟨Bool.eq_false_iff.mpr herror, ?_⟩
  by_cases hdead : engine.isDead (engine.transition found.regexes state byte).2 = true
  · rw [if_pos hdead] at h
    obtain rfl := Except.ok.inj h
    exact ⟨rfl, rfl, .dead hdead rfl rfl rfl⟩
  rw [if_neg hdead] at h
  have hlive := Bool.eq_false_iff.mpr hdead
  cases hlookup : found.stateIds.lookup (engine.transition found.regexes state byte).2 with
  | some destination =>
    rw [hlookup] at h
    obtain rfl := Except.ok.inj h
    exact ⟨rfl, rfl, .known hlive (mem_of_lookup hlookup) rfl rfl rfl⟩
  | none =>
    rw [hlookup] at h
    by_cases hfull : found.states.length + 1 > limits.maximumStates
    · rw [dif_pos hfull] at h
      cases h
    rw [dif_neg hfull] at h
    obtain ⟨_, -, h⟩ := bind_eq_ok.mp h
    obtain rfl := Except.ok.inj h
    have hlt : found.states.length < 2 ^ 32 := by
      have hmaximum := limits.maximumStates_lt
      omega
    refine ⟨rfl, rfl, .new hlive (not_mem_of_lookup hlookup) rfl rfl ?_⟩
    show found.transitions ++ [some ((found.states.length + 1 - 1) % 2 ^ 32)] = _
    rw [Nat.add_sub_cancel, Nat.mod_eq_of_lt hlt]

theorem CellWritten.grows {next : StateID}
    {found found' : Exported ρ StateID limits.maximumStates}
    (h : CellWritten engine next found found') : found.states <+: found'.states := by
  cases h with
  | dead _ hstates => exact hstates ▸ List.prefix_refl _
  | known _ _ hstates => exact hstates ▸ List.prefix_refl _
  | new _ _ hstates => exact hstates ▸ List.prefix_append _ _

/-- **The rule of the export.**  `I found i` is what holds when `i` rows are written, and
`J i found c` what holds when `c` cells of row `i` are. -/
theorem exportFrom_rule [DecidableEq StateID] {aliases : List (Option TerminalMeta)}
    {representatives : List UInt8} {I : Exported ρ StateID limits.maximumStates → ℕ → Prop}
    {J : ℕ → Exported ρ StateID limits.maximumStates → ℕ → Prop}
    (hlabel : ∀ found i state work label, I found i → found.states[i]? = some state →
      resolveLabel aliases (engine.greedyAccepting found.regexes state) found.work
        limits.maximumWork = .ok (work, label) →
      J i { found with work, labels := found.labels ++ [label] } 0)
    (hcell : ∀ i found found' c state byte, J i found c → found.states[i]? = some state →
      representatives[c]? = some byte →
      engine.hasError (engine.transition found.regexes state byte).1 = false →
      found'.regexes = (engine.transition found.regexes state byte).1 →
      found'.labels = found.labels →
      CellWritten engine (engine.transition found.regexes state byte).2 found found' →
      J i found' (c + 1))
    (hrow : ∀ i found, J i found representatives.length → I found (i + 1))
    {found found' : Exported ρ StateID limits.maximumStates} {i : ℕ} (h : I found i)
    (hi : i ≤ found.states.length)
    (hrun : exportFrom engine limits aliases representatives found i = .ok found') :
    I found' found'.states.length := by
  fun_induction exportFrom engine limits aliases representatives found i with
  | case1 found i hlt ih =>
    obtain ⟨next, hstate, hrun⟩ := bind_eq_ok.mp hrun
    have hget : found.states[i]? = some found.states[i] := List.getElem?_eq_getElem hlt
    simp only [exportState, bind_eq_ok] at hstate
    obtain ⟨⟨work, label⟩, hresolve, hstate⟩ := hstate
    have hloop := foldlM_ok (I := fun done (s : Exported ρ StateID limits.maximumStates) =>
      J i s done.length ∧ found.states <+: s.states) hstate
      ⟨hlabel found i _ work label h hget hresolve, List.prefix_refl _⟩ ?_
    · obtain ⟨hJ, hgrows⟩ := hloop
      exact ih next (hrow i next hJ) (Nat.succ_le_of_lt (hlt.trans_le hgrows.length_le)) hrun
    · rintro done byte after s s' hsplit ⟨hJ, hgrows⟩ hbody
      obtain ⟨herror, hregexes, hlabels, hwritten⟩ := exportTransition_cases hbody
      have hbyte : representatives[done.length]? = some byte := by
        rw [hsplit, List.getElem?_append_right le_rfl, Nat.sub_self]
        rfl
      rw [List.length_append, List.length_singleton]
      refine ⟨hcell i s s' _ _ byte hJ ?_ hbyte herror hregexes hlabels hwritten,
        hgrows.trans hwritten.grows⟩
      obtain ⟨rest, hrest⟩ := hgrows
      rw [← hrest, List.getElem?_append_left hlt, hget]
  | case2 found i hge =>
    obtain rfl := Except.ok.inj hrun
    obtain rfl : i = found.states.length := Nat.le_antisymm hi (Nat.not_lt.mp hge)
    exact h

/-! ## The shape of the tables -/

/-- The tables while `i` rows are written, and `n` cells: the numbers are in range, and the
labels are terminals of the aliases. -/
structure Exported.Shaped (aliases : List (Option TerminalMeta))
    (found : Exported ρ StateID limits.maximumStates) (i n : ℕ) : Prop where
  ids_lt : ∀ s j, (s, j) ∈ found.stateIds → j < found.states.length
  cells : Filled (fun _ cell => ∀ d, cell = some d → d < found.states.length) n found.transitions
  labels : Filled (fun _ label => ∀ t, label = some t → ∃ terminal,
    some terminal ∈ aliases ∧ terminal.terminal = t) i found.labels

theorem resolveLabel_mem {aliases : List (Option TerminalMeta)} {accepting : List ℕ}
    {work work' maximumWork : ℕ} {t : TerminalId}
    (h : resolveLabel aliases accepting work maximumWork = .ok (work', some t)) :
    ∃ terminal, some terminal ∈ aliases ∧ terminal.terminal = t := by
  simp only [resolveLabel, bind_eq_ok] at h
  obtain ⟨⟨_, winner⟩, hfold, h⟩ := h
  have hwinner : ∀ terminal, winner = some terminal → some terminal ∈ aliases := by
    refine foldlM_ok (I := fun _ (s : ℕ × Option TerminalMeta) => ∀ terminal,
      s.2 = some terminal → some terminal ∈ aliases) hfold (fun terminal h => by cases h) ?_
    rintro done index - ⟨work, winner⟩ s' - hmem hstep terminal hs'
    simp only [resolveLabelStep, bind_eq_ok, indexAt_eq_ok] at hstep
    obtain ⟨slot, hslot, hstep⟩ := hstep
    cases slot with
    | none =>
      obtain rfl := Except.ok.inj hstep
      exact hmem terminal hs'
    | some candidate =>
      obtain ⟨charged, -, hstep⟩ := bind_eq_ok.mp hstep
      have hcandidate : some candidate ∈ aliases := List.mem_of_getElem? hslot
      cases winner with
      | none =>
        obtain rfl := Except.ok.inj hstep
        exact hs' ▸ hcandidate
      | some previous =>
        dsimp only at hstep
        split_ifs at hstep
        · obtain rfl := Except.ok.inj hstep
          exact hs' ▸ hcandidate
        · obtain rfl := Except.ok.inj hstep
          exact hmem terminal hs'
  obtain ⟨-, hlabel⟩ := Prod.mk.inj (Except.ok.inj h)
  obtain ⟨terminal, rfl, hterminal⟩ := Option.map_eq_some_iff.mp hlabel
  exact ⟨terminal, hwinner terminal rfl, hterminal⟩

/-- One cell keeps the tables in shape. -/
theorem Exported.Shaped.cell {aliases : List (Option TerminalMeta)} {next : StateID}
    {found found' : Exported ρ StateID limits.maximumStates} {i n : ℕ}
    (h : found.Shaped aliases i n) (hlabels : found'.labels = found.labels)
    (hwritten : CellWritten engine next found found') : found'.Shaped aliases i (n + 1) := by
  have hlabels' := hlabels.symm ▸ h.labels
  cases hwritten with
  | dead _ hstates hids hcells =>
    refine ⟨by rw [hids, hstates]; exact h.ids_lt, ?_, hlabels'⟩
    rw [hcells, hstates]
    exact h.cells.push fun d hd => by cases hd
  | known _ hlookup hstates hids hcells =>
    refine ⟨by rw [hids, hstates]; exact h.ids_lt, ?_, hlabels'⟩
    rw [hcells, hstates]
    refine h.cells.push fun d hd => ?_
    obtain rfl := Option.some_inj.mp hd
    exact (Nat.mod_le _ _).trans_lt (h.ids_lt _ _ hlookup)
  | new _ _ hstates hids hcells =>
    have hlength : found'.states.length = found.states.length + 1 := by
      rw [hstates, List.length_append, List.length_singleton]
    refine ⟨fun s j hmem => ?_, ?_, hlabels'⟩
    · rw [hlength]
      rw [hids] at hmem
      rcases List.mem_cons.mp hmem with hnew | hold
      · rw [(Prod.mk.inj hnew).2]
        exact Nat.lt_succ_self _
      · exact Nat.lt_succ_of_lt (h.ids_lt s j hold)
    · rw [hcells]
      refine (h.cells.mono fun _ cell hcell d hd => ?_).push fun d hd => ?_
      · rw [hlength]
        exact Nat.lt_succ_of_lt (hcell d hd)
      · rw [hlength, ← Option.some_inj.mp hd]
        exact Nat.lt_succ_self _

section
variable {aliases : List (Option TerminalMeta)} {representatives : List UInt8} {regexes : ρ}
  {start : StateID} {hstates : 0 < limits.maximumStates}
  {found : Exported ρ StateID limits.maximumStates}

/-- **The loop keeps the tables in shape.** -/
theorem exportFrom_shaped [DecidableEq StateID]
    (hrun : exportFrom engine limits aliases representatives (.new regexes start hstates) 0 =
      .ok found) :
    0 < found.states.length ∧ found.Shaped aliases found.states.length
      (found.states.length * representatives.length) := by
  refine exportFrom_rule
    (I := fun found i => 0 < found.states.length ∧
      found.Shaped aliases i (i * representatives.length))
    (J := fun i found c => 0 < found.states.length ∧
      found.Shaped aliases (i + 1) (i * representatives.length + c))
    ?_ ?_ ?_ ?_ (Nat.zero_le _) hrun
  · rintro found i state work label ⟨hpos, hshaped⟩ - hlabel
    refine ⟨hpos, hshaped.ids_lt, hshaped.cells, hshaped.labels.push ?_⟩
    rintro t rfl
    exact resolveLabel_mem hlabel
  · rintro i found found' c state byte ⟨hpos, hshaped⟩ - - - - hlabels hwritten
    exact ⟨hpos.trans_le hwritten.grows.length_le, hshaped.cell hlabels hwritten⟩
  · rintro i found ⟨hpos, hshaped⟩
    rw [Nat.succ_mul]
    exact ⟨hpos, hshaped⟩
  · refine ⟨Nat.one_pos, fun s j hmem => ?_, ?_, Filled.nil⟩
    · obtain ⟨-, rfl⟩ := Prod.mk.inj (List.mem_singleton.mp hmem)
      exact Nat.one_pos
    · rw [Nat.zero_mul]
      exact Filled.nil

/-- **The first label** is the one of the start state, resolved before any transition. -/
theorem exportFrom_first [DecidableEq StateID]
    (hrun : exportFrom engine limits aliases representatives (.new regexes start hstates) 0 =
      .ok found) :
    ∃ work label, resolveLabel aliases (engine.greedyAccepting regexes start) 0 limits.maximumWork =
      .ok (work, label) ∧ found.labels[0]? = some label := by
  have hloop := exportFrom_rule
    (I := fun found i => (i = 0 ∧ found = .new regexes start hstates) ∨
      (0 < i ∧ ∃ work label, resolveLabel aliases (engine.greedyAccepting regexes start) 0
        limits.maximumWork = .ok (work, label) ∧ found.labels[0]? = some label))
    (J := fun _ found _ => ∃ work label, resolveLabel aliases (engine.greedyAccepting regexes start)
      0 limits.maximumWork = .ok (work, label) ∧ found.labels[0]? = some label)
    ?_ ?_ ?_ (Or.inl ⟨rfl, rfl⟩) (Nat.zero_le _) hrun
  · rcases hloop with ⟨hempty, -⟩ | ⟨-, hfirst⟩
    · exact absurd hempty (Nat.ne_of_gt (exportFrom_shaped hrun).1)
    · exact hfirst
  · rintro found i state work label (⟨rfl, rfl⟩ | ⟨-, work₀, label₀, hresolve, hfirst⟩) hstate
      hlabel
    · obtain rfl : start = state := Option.some_inj.mp hstate
      exact ⟨work, label, hlabel, rfl⟩
    · refine ⟨work₀, label₀, hresolve, ?_⟩
      obtain ⟨hlt, -⟩ := List.getElem?_eq_some_iff.mp hfirst
      rwa [List.getElem?_append_left hlt]
  · rintro i found found' c state byte ⟨work, label, hresolve, hfirst⟩ - - - - hlabels -
    exact ⟨work, label, hresolve, hlabels ▸ hfirst⟩
  · exact fun i found hfirst => Or.inr ⟨Nat.succ_pos i, hfirst⟩

end

/-- **What `build_lexer_dfa` returns**: the tables of the loop, nothing cut off. -/
theorem buildLexerDfa_ok [DecidableEq StateID] {compiled : CompiledRegexes ρ StateID}
    {maximumStates maximumWork : ℕ} {maximumCells : UInt64} {lexer : LexerDfa}
    (h : buildLexerDfa engine compiled maximumStates maximumCells maximumWork = .ok lexer) :
    ∃ (limits : ExportLimits) (representatives : List UInt8)
      (hstates : 0 < limits.maximumStates) (found : Exported ρ StateID limits.maximumStates),
      limits.maximumStates ≤ maximumStates ∧ limits.maximumWork = maximumWork ∧
      compressedAlphabet engine compiled.regexes = .ok (lexer.byteClasses, representatives) ∧
      exportFrom engine limits compiled.aliases representatives
        (.new (limitedRegexes engine compiled.regexes limits.maximumStates maximumWork)
          compiled.start hstates) 0 = .ok found ∧
      rejectMultiByteFallback found.labels found.transitions representatives = .ok () ∧
      lexer.stateCount = found.states.length ∧ lexer.classCount = representatives.length ∧
      lexer.transitions = found.transitions ∧ lexer.startState = 0 ∧
      lexer.terminals = found.labels := by
  unfold buildLexerDfa at h
  by_cases hzero : min maximumStates (2 ^ 32 - 1) = 0
  · rw [dif_pos hzero] at h
    cases h
  rw [dif_neg hzero] at h
  obtain ⟨_, -, h⟩ := bind_eq_ok.mp h
  obtain ⟨⟨byteClasses, representatives⟩, halphabet, h⟩ := bind_eq_ok.mp h
  obtain ⟨_, -, h⟩ := bind_eq_ok.mp h
  obtain ⟨found, hrun, h⟩ := bind_eq_ok.mp h
  obtain ⟨_, -, h⟩ := bind_eq_ok.mp h
  obtain ⟨_, -, h⟩ := bind_eq_ok.mp h
  obtain ⟨_, hreject, h⟩ := bind_eq_ok.mp h
  obtain rfl := Except.ok.inj h
  have hclasses := (compressedAlphabet_ok halphabet).1
  have hlength := found.states_length
  refine ⟨_, representatives, Nat.pos_of_ne_zero hzero, found, Nat.min_le_left _ _, rfl, halphabet,
    hrun, hreject, Nat.mod_eq_of_lt ?_, Nat.mod_eq_of_lt ?_, rfl, rfl, rfl⟩
  · dsimp only at hlength
    omega
  · show representatives.length < 2 ^ 32
    omega

/-- Lexer tables whose sizes and numbers fit together. -/
structure LexerDfa.Shaped (lexer : LexerDfa) (aliases : List (Option TerminalMeta)) : Prop where
  byteClasses : lexer.byteClasses.length = 256
  byteClasses_lt : ∀ c ∈ lexer.byteClasses, c < lexer.classCount
  transitions : lexer.transitions.length = lexer.stateCount * lexer.classCount
  transitions_lt : ∀ d, some d ∈ lexer.transitions → d < lexer.stateCount
  start : lexer.startState = 0
  start_lt : 0 < lexer.stateCount
  terminals : lexer.terminals.length = lexer.stateCount
  terminals_mem : ∀ t, some t ∈ lexer.terminals → ∃ terminal,
    some terminal ∈ aliases ∧ terminal.terminal = t

/-- **The tables are in shape**, and the first label is the one of the start state. -/
theorem buildLexerDfa_shaped [DecidableEq StateID] {compiled : CompiledRegexes ρ StateID}
    {maximumStates maximumWork : ℕ} {maximumCells : UInt64} {lexer : LexerDfa}
    (h : buildLexerDfa engine compiled maximumStates maximumCells maximumWork = .ok lexer) :
    lexer.Shaped compiled.aliases ∧ ∃ states work label,
      resolveLabel compiled.aliases (engine.greedyAccepting
        (limitedRegexes engine compiled.regexes states maximumWork) compiled.start) 0 maximumWork =
          .ok (work, label) ∧ lexer.terminals[0]? = some label := by
  obtain ⟨limits, representatives, hstates, found, -, hwork, halphabet, hrun, -, hstateCount,
    hclassCount, htransitions, hstart, hterminals⟩ := buildLexerDfa_ok h
  obtain ⟨-, -, hclasses, hrange⟩ := compressedAlphabet_ok halphabet
  obtain ⟨hpos, hshaped⟩ := exportFrom_shaped hrun
  obtain ⟨work, label, hresolve, hfirst⟩ := exportFrom_first hrun
  refine ⟨⟨hclasses, fun c hc => ?_, ?_, fun d hd => ?_, hstart, ?_, ?_, fun t ht => ?_⟩,
    limits.maximumStates, work, label, ?_, ?_⟩
  · obtain ⟨b, hb⟩ := List.mem_iff_getElem?.mp hc
    obtain ⟨hlt, -⟩ := List.getElem?_eq_some_iff.mp hb
    have hsize : b < UInt8.size := hlt.trans_eq hclasses
    obtain ⟨hclass, hget⟩ := hrange (UInt8.ofNat b)
    rw [UInt8.toNat_ofNat_of_lt' hsize, hb] at hget
    rwa [hclassCount, Option.some_inj.mp hget]
  · rw [htransitions, hstateCount, hclassCount, hshaped.cells.1]
  · rw [htransitions] at hd
    obtain ⟨n, hn⟩ := List.mem_iff_getElem?.mp hd
    exact hstateCount ▸ hshaped.cells.2 n _ hn d rfl
  · exact hstateCount ▸ hpos
  · rw [hterminals, hstateCount, hshaped.labels.1]
  · rw [hterminals] at ht
    obtain ⟨n, hn⟩ := List.mem_iff_getElem?.mp ht
    exact hshaped.labels.2 n _ hn t rfl
  · rwa [hwork] at hresolve
  · rw [hterminals]
    exact hfirst

end

end GreatGramma
