import GreatGramma.Core.Preprocess
import GreatGramma.Parser.Automaton

/-!
# Sequence heads

A sequence head is readable from a stack when the parser takes all of it.  Three pieces of the
source decide this: the public reference `execute_sequence_head`, the replay on one scratch stack
that the runtime uses, and the classification of heads by the parser state on top, computed from a
symbolic one-state stack.

## One notion

All three are read here as one run of the table, `ValidatedLalr.readable`, which answers yes or no
or reports the fault that the run meets.  Heads hold no EOF terminal, so no run over a head can
accept (`parse_ne_accepted`), and one that ends has been rejected.  The reference runs the prefix
of a head first and then probes its last terminal; the replay does it in one go.

## Symbolic runs

The classification needs the main fact about symbolic runs: a run from `[q]` that never pops `q`
does the same on every stack with top `q`.  So a head that is readable, or rejected, from `[q]`
alone is so from every such stack (`readable_of_symbolic`), and only a head whose symbolic run
pops `q` has to be replayed.
-/

namespace GreatGramma

open Reservation ShiftReduce Traversal

section
variable {lalr : ValidatedLalr}

namespace ValidatedLalr

variable (lalr) in
/-- Terminals that the lexer can emit. -/
def Emittable (terminals : List TerminalId) : Prop :=
  ∀ terminal ∈ terminals, terminal < lalr.terminalCount ∧ terminal ≠ lalr.eofTerminal

theorem Emittable.valid {terminals : List TerminalId} (h : lalr.Emittable terminals) :
    lalr.ValidTerminals terminals :=
  fun terminal hmem => (h terminal hmem).1

theorem Emittable.append {xs ys : List TerminalId} (hxs : lalr.Emittable xs)
    (hys : lalr.Emittable ys) : lalr.Emittable (xs ++ ys) := by
  intro terminal hmem
  rcases List.mem_append.mp hmem with h | h
  · exact hxs terminal h
  · exact hys terminal h

/-- **Only EOF is accepted.** -/
theorem parse_accepted {stack : List ParserStateId} {terminals rest : List TerminalId}
    (hstack : lalr.ValidStack stack) (hterminals : lalr.ValidTerminals terminals)
    (h : lalr.table.parse stack terminals = .accepted rest) :
    ∃ before, terminals = before ++ lalr.eofTerminal :: rest := by
  induction terminals generalizing stack with
  | nil => cases h
  | cons t ts ih =>
    have ht := hterminals t List.mem_cons_self
    have hts : lalr.ValidTerminals ts := fun t' h => hterminals t' (List.mem_cons_of_mem t h)
    have hlater : ∀ stack', lalr.ValidStack stack' → lalr.table.parse stack' ts = .accepted rest →
        ∃ before, t :: ts = before ++ lalr.eofTerminal :: rest := by
      intro stack' hstack' h
      obtain ⟨before, hbefore⟩ := ih hstack' hts h
      exact ⟨t :: before, by rw [hbefore]; rfl⟩
    rw [Table.parse_cons] at h
    split_ifs at h with hskip
    · exact hlater stack hstack h
    · cases hread : lalr.table.read t stack with
      | shifted stack' =>
        rw [hread] at h
        refine hlater stack' (hstack.parse (?_ : lalr.table.parse stack [t] = _)) h
        rw [Table.parse_cons, if_neg hskip, hread]
        rfl
      | rejected =>
        rw [hread] at h
        cases h
      | fault f =>
        rw [hread] at h
        cases h
      | accepted =>
        rw [hread] at h
        cases h
        obtain ⟨last, top, htop, hdone⟩ := lalr.table.loop_done (I := lalr.ValidStack)
          (fun _ _ _ _ hI hagain => hI.again hagain) (t := t) none hstack
        obtain ⟨q, hq, haccept⟩ := lalr.table.turn_accepted (hdone.trans (congrArg Turn.done hread))
        rw [move_accept (htop.2 q (List.mem_of_getLast? hq)) ht haccept]
        exact ⟨[], rfl⟩

theorem parse_ne_accepted {stack : List ParserStateId} {terminals rest : List TerminalId}
    (hstack : lalr.ValidStack stack) (hterminals : lalr.Emittable terminals) :
    lalr.table.parse stack terminals ≠ .accepted rest := by
  intro h
  obtain ⟨before, hbefore⟩ := parse_accepted hstack hterminals.valid h
  have heof : lalr.eofTerminal ∈ terminals := by
    rw [hbefore]
    exact List.mem_append_right before List.mem_cons_self
  exact (hterminals _ heof).2 rfl

variable (lalr) in
/-- Whether the parser takes all of a head, or the error it meets. -/
def readable (stack : List ParserStateId) (head : List TerminalId) : Except ParserError Bool :=
  match lalr.table.parse stack head with
  | .live _ => .ok true
  | .accepted _ => .ok true
  | .rejected => .ok false
  | .fault f => .error (lalr.faultError f)

end ValidatedLalr

/-! ## Replays -/

/-- A run over a head is a run over its prefix and a probe of its last terminal. -/
theorem readable_append (stack : List ParserStateId) (direct : List TerminalId)
    (c : TerminalId) :
    lalr.readable stack (direct ++ [c]) =
      match lalr.table.parse stack direct with
      | .live stack' => lalr.readable stack' [c]
      | .rejected => .ok false
      | .accepted _ => .ok true
      | .fault f => .error (lalr.faultError f) := by
  unfold ValidatedLalr.readable
  rw [Table.parse_append]
  cases lalr.table.parse stack direct <;> rfl

/-- **The reference interpreter on a head**: it keeps the stack after the prefix
when the probe is readable. -/
theorem executeSequenceHead_eq {grammar : ValidatedGrammar} {stack : List ParserStateId}
    {direct : List TerminalId} {c : TerminalId} (hstack : grammar.lalr.ValidStack stack)
    (hhead : grammar.lalr.Emittable (direct ++ [c])) :
    (executeSequenceHead grammar stack (direct ++ [c]) .granting).1 =
      match grammar.lalr.table.parse stack direct with
      | .live stack' =>
        (grammar.lalr.readable stack' [c]).map fun taken => if taken then some stack' else none
      | .rejected => .ok none
      | .accepted _ => .ok none
      | .fault f => .error (grammar.lalr.faultError f) := by
  have hdirect : grammar.lalr.Emittable direct :=
    fun t ht => hhead t (List.mem_append_left [c] ht)
  have hc : grammar.lalr.Emittable [c] := fun t ht => hhead t (List.mem_append_right direct ht)
  have hnonempty : (direct ++ [c]).isEmpty = false := List.isEmpty_eq_false_iff.mpr (by simp)
  have hlength : (direct ++ [c]).length - 1 = direct.length := by simp
  have hpositive : (direct ++ [c]).length ≠ 0 := by simp
  unfold executeSequenceHead executeSequenceHeadChecked
  simp only [hnonempty, Bool.false_eq_true, if_false, validateInputs_ok hstack hhead.valid,
    hpositive, hlength, List.take_left', List.drop_left', ValidatedLalr.readable]
  obtain ⟨⟨hreply, hlive⟩, hgranting⟩ := (executeTerminalsConcreteInto_settles hstack
    hdirect.valid ⟨[], .granting⟩).of_granting rfl
  generalize executeTerminalsConcreteInto grammar.lalr stack direct ⟨[], .granting⟩ = out at *
  obtain ⟨reply, committed⟩ := out
  obtain rfl : reply = _ := hreply
  cases hparse : grammar.lalr.table.parse stack direct with
  | rejected => rfl
  | fault f => rfl
  | accepted rest => exact absurd hparse (ValidatedLalr.parse_ne_accepted hstack hdirect)
  | live stack' =>
    obtain rfl := hlive stack' hparse
    simp only [ValidatedLalr.runReply]
    have hstack' := hstack.parse hparse
    obtain ⟨⟨hprobe, -⟩, -⟩ := (executeTerminalsConcreteInto_settles hstack' hc.valid
      ⟨[], committed.memory⟩).of_granting hgranting
    generalize executeTerminalsConcreteInto grammar.lalr committed.stack [c]
      ⟨[], committed.memory⟩ = out at *
    obtain ⟨reply, probe⟩ := out
    obtain rfl : reply = _ := hprobe
    cases hread : grammar.lalr.table.parse committed.stack [c] with
    | rejected => rfl
    | fault f => rfl
    | accepted rest => exact absurd hread (ValidatedLalr.parse_ne_accepted hstack' hc)
    | live stack'' => rfl

/-- A head is readable exactly when the reference interpreter takes it. -/
theorem readable_eq {grammar : ValidatedGrammar} {stack : List ParserStateId}
    {direct : List TerminalId} {c : TerminalId} (hstack : grammar.lalr.ValidStack stack)
    (hhead : grammar.lalr.Emittable (direct ++ [c])) :
    grammar.lalr.readable stack (direct ++ [c]) =
      (executeSequenceHead grammar stack (direct ++ [c]) .granting).1.map Option.isSome := by
  have hdirect : grammar.lalr.Emittable direct :=
    fun t ht => hhead t (List.mem_append_left [c] ht)
  rw [executeSequenceHead_eq hstack hhead, readable_append]
  cases hparse : grammar.lalr.table.parse stack direct with
  | rejected => rfl
  | fault f => rfl
  | accepted rest => exact absurd hparse (ValidatedLalr.parse_ne_accepted hstack hdirect)
  | live stack' =>
    cases hread : grammar.lalr.readable stack' [c] with
    | error e => simp only [hread, Except.map]
    | ok taken => cases taken <;> simp only [hread, Except.map] <;> rfl

/-- **The runtime's replay** gives the same answer, whatever the scratch stack
held before. -/
theorem sequenceHeadAllowedWithScratch_settles {grammar : ValidatedGrammar}
    {stack : List ParserStateId} {direct : List TerminalId} {c : TerminalId}
    (hstack : grammar.lalr.ValidStack stack) (hhead : grammar.lalr.Emittable (direct ++ [c]))
    (scratch : Workspace) :
    Settles scratch (fun reply _ => reply = grammar.lalr.readable stack (direct ++ [c]))
      (sequenceHeadAllowedWithScratch grammar stack (direct ++ [c]) scratch) := by
  have hdirect : grammar.lalr.Emittable direct :=
    fun t ht => hhead t (List.mem_append_left [c] ht)
  have hc : grammar.lalr.Emittable [c] := fun t ht => hhead t (List.mem_append_right direct ht)
  have hlength : (direct ++ [c]).length - 1 = direct.length := by simp
  have hpositive : (direct ++ [c]).length ≠ 0 := by simp
  unfold sequenceHeadAllowedWithScratch
  simp only [hpositive, if_false, hlength, List.take_left', List.drop_left', readable_append]
  have hleading := executeTerminalsConcreteInto_settles hstack hdirect.valid scratch
  generalize executeTerminalsConcreteInto grammar.lalr stack direct scratch = out at hleading
  cases hleading with
  | refused hs he => exact .refused hs he
  | @done reply committed h hs =>
    obtain ⟨rfl, hlive⟩ := h
    cases hparse : grammar.lalr.table.parse stack direct with
    | rejected => exact .done rfl hs
    | fault f => exact .done rfl hs
    | accepted rest => exact absurd hparse (ValidatedLalr.parse_ne_accepted hstack hdirect)
    | live stack' =>
      obtain rfl := hlive stack' hparse
      have hprobe := executeTerminalsConcreteInPlace_settles committed
        (hstack.parse hparse) hc.valid
      simp only [ValidatedLalr.runReply]
      generalize executeTerminalsConcreteInPlace grammar.lalr committed [c] = out at hprobe
      refine .after hs ?_
      cases hprobe with
      | refused hs he => exact .refused hs he
      | done h hs =>
        obtain ⟨rfl, -⟩ := h
        unfold ValidatedLalr.readable
        cases hread : grammar.lalr.table.parse committed.stack [c] with
        | rejected => exact .done rfl hs
        | fault f => exact .done rfl hs
        | accepted rest =>
          exact absurd hread (ValidatedLalr.parse_ne_accepted (hstack.parse hparse) hc)
        | live stack'' => exact .done rfl hs

/-! ## Classification -/

/-- **What the symbolic run from one state says about every stack above it.**  A
head that is readable or rejected without popping the base is so from every stack
with that top. -/
theorem readable_of_symbolic (below : List ParserStateId) {q : ParserStateId}
    {head : List TerminalId} {decision : RunDecision} (hq : q < lalr.stateCount)
    (hhead : lalr.Emittable head)
    (h : lalr.runReply .dependent head.length (lalr.table.parse [q] head) = .ok decision) :
    match classifyDecision decision with
    | .alwaysReadable => lalr.readable (below ++ [q]) head = .ok true
    | .rejected => lalr.readable (below ++ [q]) head = .ok false
    | .dependent => (lalr.table.parse [q] head).Underflows := by
  have hbase : lalr.ValidStack [q] :=
    ⟨List.cons_ne_nil q [], fun s hs => List.mem_singleton.mp hs ▸ hq⟩
  by_cases hunder : (lalr.table.parse [q] head).Underflows
  · obtain ⟨r, n, hparse⟩ := hunder
    rw [hparse] at h ⊢
    cases h
    exact ⟨r, n, rfl⟩
  · have hlift := lalr.table.parse_onTop below (List.cons_ne_nil q []) hunder
    unfold ValidatedLalr.readable
    rw [hlift]
    cases hparse : lalr.table.parse [q] head with
    | live stack =>
      rw [hparse] at h
      cases h
      rfl
    | rejected =>
      rw [hparse] at h
      cases h
      rfl
    | accepted rest => exact absurd hparse (ValidatedLalr.parse_ne_accepted hbase hhead)
    | fault f =>
      rw [hparse] at h hunder
      cases f with
      | underflow r n => exact absurd ⟨r, n, rfl⟩ hunder
      | emptyStack => cases h
      | missingGoto s r => cases h
      | noProgress s t => cases h

/-- **`classify_sequence_head`** is the symbolic run. -/
theorem classifySequenceHead_eq {grammar : ValidatedGrammar} {q : ParserStateId}
    {head : List TerminalId} (hq : q < grammar.lalr.stateCount) (hne : head ≠ [])
    (hhead : grammar.lalr.Emittable head) :
    (classifySequenceHead grammar q head .granting).1 =
      (grammar.lalr.runReply .dependent head.length (grammar.lalr.table.parse [q] head)).map
        classifyDecision := by
  have hbase : grammar.lalr.ValidStack [q] :=
    ⟨List.cons_ne_nil q [], fun s hs => List.mem_singleton.mp hs ▸ hq⟩
  have hrun := executeTerminalsSymbolic_eq hbase hhead.valid
  have hnonempty : head.isEmpty = false := List.isEmpty_eq_false_iff.mpr hne
  unfold classifySequenceHead
  simp only [hnonempty, Bool.false_eq_true, if_false]
  rw [← hrun]
  generalize executeTerminalsSymbolic grammar.lalr [q] head .granting = out
  obtain ⟨reply, memory⟩ := out
  cases reply <;> rfl

end
end GreatGramma
