import Mathlib.Tactic.Ring
import Mathlib.Tactic.Linarith
import Mathlib.Data.List.Basic

/-!
# Shift-reduce tables with a reduction-progress check

The general part of table-driven shift-reduce parsing: states, terminals and
rules of arbitrary types, a stack written bottom first, and nothing assumed about
the table.  In particular the table need not come from a grammar: a reduction may
pop more than the stack holds, its goto may be missing, and two reductions may
feed each other for ever.

The first two end the run with a `Fault`.  The third is what the *progress check*
is for.  Every reduction carries a rank, and a reduction is allowed to follow
another at the same look-ahead only if its rank is smaller, or equal while the
earlier one shrank the stack.  That check alone bounds the number of reductions,
for every table whatsoever: `progressBudget` is a natural number that each
permitted reduction decreases, so `drain` is a total function.

## What is proved

* `Table.read_onTop`, `Table.parse_onTop`: a run that never needs the bottom of
  its stack does the same on any stack with further states below it.  Running
  from a single state and watching for `Fault.underflow` is therefore an exact
  test on the top of the stack alone.
* `Table.parse_append`: runs compose.
* `Table.parse_forall`, `Table.parse_head?`: what a run keeps --- every invariant
  of shifts and gotos, and the bottom state.
-/

namespace ShiftReduce

variable {σ τ ρ : Type*}

/-- What a table says at a state and a look-ahead terminal. -/
inductive Move (σ ρ : Type*) where
  | reject
  | accept
  | shift (q : σ)
  | reduce (r : ρ) (rank : ℕ)

/-- A shift-reduce table.  `pops` is the number of states a rule removes, `goto`
the state it leaves on top of the state uncovered, and the terminals in `skips`
are read without looking at the stack. -/
structure Table (σ τ ρ : Type*) where
  /-- The action at a state and a terminal. -/
  move : σ → τ → Move σ ρ
  /-- The number of states a rule pops. -/
  pops : ρ → ℕ
  /-- The state pushed by a rule on an uncovered state. -/
  goto : σ → ρ → Option σ
  /-- The terminals the parser does not see. -/
  skips : τ → Bool

/-- What the progress check remembers of the last reduction. -/
structure Reduction where
  rank : ℕ
  pops : ℕ

/-- The ways a table can fail a run. -/
inductive Fault (σ τ ρ : Type*) where
  | emptyStack
  | underflow (r : ρ) (length : ℕ)
  | missingGoto (q : σ) (r : ρ)
  | noProgress (q : σ) (t : τ)

/-- How reading one terminal ends. -/
inductive Outcome (σ τ ρ : Type*) where
  | shifted (stack : List σ)
  | rejected
  | accepted
  | fault (f : Fault σ τ ρ)

/-- One turn of the loop that reads a terminal. -/
inductive Turn (σ τ ρ : Type*) where
  | done (o : Outcome σ τ ρ)
  | again (last : Reduction) (stack : List σ)

/-- The progress check: no reduction yet, a smaller rank, or the same rank after
a reduction that shrank the stack. -/
def Progress : Option Reduction → ℕ → Prop
  | none, _ => True
  | some last, rank => rank < last.rank ∨ (rank = last.rank ∧ 2 ≤ last.pops)

instance (last : Option Reduction) (rank : ℕ) : Decidable (Progress last rank) := by
  cases last <;> unfold Progress <;> infer_instance

/-- A bound on the reductions still permitted after `last`, on a stack of the
given length. -/
def progressBudget (last : Reduction) (length : ℕ) : ℕ :=
  let ranks := if 2 ≤ last.pops then last.rank + 1 else last.rank
  ranks * (length + ranks)

/-- **A permitted reduction spends budget.**  It either shrinks the stack or
uses up a rank, and a stack that it grows it grows by one. -/
theorem progressBudget_lt {last : Reduction} {rank pops length : ℕ}
    (h : Progress (some last) rank) (hpops : pops < length) :
    progressBudget ⟨rank, pops⟩ (length - pops + 1) < progressBudget last length := by
  have hrank : rank + 1 ≤ if 2 ≤ last.pops then last.rank + 1 else last.rank := by
    unfold Progress at h
    split <;> omega
  unfold progressBudget
  simp only
  generalize (if 2 ≤ last.pops then last.rank + 1 else last.rank) = ranks at hrank
  obtain ⟨extra, rfl⟩ := Nat.exists_eq_add_of_le hrank
  split
  · obtain ⟨rest, rfl⟩ : ∃ rest, length = rest + pops := ⟨length - pops, by omega⟩
    rw [Nat.add_sub_cancel]
    nlinarith
  · obtain ⟨rest, rfl⟩ : ∃ rest, length = rest + pops := ⟨length - pops, by omega⟩
    rw [Nat.add_sub_cancel]
    nlinarith

namespace Table

variable (T : Table σ τ ρ)

/-- One turn at the look-ahead `t`: shift, accept, reject, or perform the next
reduction if the progress check permits it. -/
def turn (t : τ) (last : Option Reduction) (stack : List σ) : Turn σ τ ρ :=
  match stack.getLast? with
  | none => .done (.fault .emptyStack)
  | some q =>
    match T.move q t with
    | .reject => .done .rejected
    | .accept => .done .accepted
    | .shift d => .done (.shifted (stack ++ [d]))
    | .reduce r rank =>
      if Progress last rank then
        if stack.length ≤ T.pops r then .done (.fault (.underflow r stack.length))
        else
          match stack[stack.length - T.pops r - 1]? with
          | none => .done (.fault .emptyStack)
          | some s =>
            match T.goto s r with
            | none => .done (.fault (.missingGoto s r))
            | some d =>
              .again ⟨rank, T.pops r⟩ (stack.take (stack.length - T.pops r) ++ [d])
      else .done (.fault (.noProgress q t))

/-- **What a turn that goes on did**: the reduction that the table asks for at the top
of the stack, permitted and fitting the stack. -/
theorem turn_reduced {t : τ} {last : Option Reduction} {stack stack' : List σ}
    {last' : Reduction} (h : T.turn t last stack = .again last' stack') :
    ∃ q r, stack.getLast? = some q ∧ T.move q t = .reduce r last'.rank ∧
      last'.pops = T.pops r ∧ Progress last last'.rank ∧ T.pops r < stack.length ∧
      ∃ s d, stack[stack.length - T.pops r - 1]? = some s ∧ T.goto s r = some d ∧
        stack' = stack.take (stack.length - T.pops r) ++ [d] := by
  unfold turn at h
  split at h <;> try contradiction
  rename_i q hq
  split at h <;> try contradiction
  rename_i r rank hmove
  split_ifs at h with hp hpops
  split at h <;> try contradiction
  rename_i s hs
  split at h <;> try contradiction
  rename_i d hd
  cases h
  exact ⟨q, r, hq, hmove, rfl, hp, Nat.lt_of_not_le hpops, s, d, hs, hd, rfl⟩

/-- The same, without the move. -/
theorem turn_again {t : τ} {last : Option Reduction} {stack stack' : List σ}
    {last' : Reduction} (h : T.turn t last stack = .again last' stack') :
    Progress last last'.rank ∧ last'.pops < stack.length ∧
      ∃ s d r, stack[stack.length - last'.pops - 1]? = some s ∧ T.goto s r = some d ∧
        stack' = stack.take (stack.length - last'.pops) ++ [d] := by
  obtain ⟨-, r, -, -, hpops, hprogress, hlt, s, d, hs, hd, hstack⟩ := T.turn_reduced h
  rw [hpops]
  exact ⟨hprogress, hlt, s, d, r, hs, hd, hstack⟩

/-- **What a turn that shifts did.** -/
theorem turn_shifted {t : τ} {last : Option Reduction} {stack stack' : List σ}
    (h : T.turn t last stack = .done (.shifted stack')) :
    ∃ q d, stack.getLast? = some q ∧ T.move q t = .shift d ∧ stack' = stack ++ [d] := by
  unfold turn at h
  cases hq : stack.getLast? with
  | none => simp only [hq, Turn.done.injEq, reduceCtorEq] at h
  | some q =>
    simp only [hq] at h
    cases hmove : T.move q t with
    | reject => simp only [hmove, Turn.done.injEq, reduceCtorEq] at h
    | accept => simp only [hmove, Turn.done.injEq, reduceCtorEq] at h
    | shift d =>
      simp only [hmove, Turn.done.injEq, Outcome.shifted.injEq] at h
      exact ⟨q, d, rfl, hmove, h.symm⟩
    | reduce r rank =>
      simp only [hmove] at h
      split_ifs at h
      · cases h
      · split at h
        · cases h
        · split at h <;> cases h
      · cases h

/-- **What a turn that accepts saw.** -/
theorem turn_accepted {t : τ} {last : Option Reduction} {stack : List σ}
    (h : T.turn t last stack = .done .accepted) :
    ∃ q, stack.getLast? = some q ∧ T.move q t = .accept := by
  unfold turn at h
  cases hq : stack.getLast? with
  | none => simp only [hq, Turn.done.injEq, reduceCtorEq] at h
  | some q =>
    simp only [hq] at h
    refine ⟨q, rfl, ?_⟩
    cases hmove : T.move q t with
    | accept => rfl
    | reject => simp only [hmove, Turn.done.injEq, reduceCtorEq] at h
    | shift d => simp only [hmove, Turn.done.injEq, reduceCtorEq] at h
    | reduce r rank =>
      simp only [hmove] at h
      split_ifs at h
      · cases h
      · split at h
        · cases h
        · split at h <;> cases h
      · cases h

/-- Only an empty stack is found empty: a permitted pop stays inside the stack. -/
theorem turn_emptyStack {t : τ} {last : Option Reduction} {stack : List σ}
    (h : T.turn t last stack = .done (.fault .emptyStack)) : stack = [] := by
  unfold turn at h
  cases hq : stack.getLast? with
  | none => exact List.getLast?_eq_none_iff.mp hq
  | some q =>
    simp only [hq] at h
    cases hmove : T.move q t with
    | accept => simp only [hmove, Turn.done.injEq, reduceCtorEq] at h
    | reject => simp only [hmove, Turn.done.injEq, reduceCtorEq] at h
    | shift d => simp only [hmove, Turn.done.injEq, reduceCtorEq] at h
    | reduce r rank =>
      simp only [hmove] at h
      split_ifs at h with hprogress hunder
      · cases h
      · split at h
        · rename_i hget
          rw [List.getElem?_eq_none_iff] at hget
          omega
        · split at h <;> cases h
      · cases h

/-- The progress check refuses a reduction that the table asks for. -/
theorem turn_noProgress {t t' : τ} {last : Option Reduction} {stack : List σ} {q : σ}
    (h : T.turn t last stack = .done (.fault (.noProgress q t'))) :
    ∃ r rank, stack.getLast? = some q ∧ T.move q t = .reduce r rank ∧ ¬ Progress last rank := by
  unfold turn at h
  cases hq : stack.getLast? with
  | none => simp only [hq, Turn.done.injEq, Outcome.fault.injEq, reduceCtorEq] at h
  | some top =>
    simp only [hq] at h
    cases hmove : T.move top t with
    | accept => simp only [hmove, Turn.done.injEq, reduceCtorEq] at h
    | reject => simp only [hmove, Turn.done.injEq, reduceCtorEq] at h
    | shift d => simp only [hmove, Turn.done.injEq, reduceCtorEq] at h
    | reduce r rank =>
      simp only [hmove] at h
      split_ifs at h with hprogress hunder
      · cases h
      · split at h
        · cases h
        · split at h <;> cases h
      · cases h
        exact ⟨r, rank, rfl, hmove, hprogress⟩

theorem turn_again_budget {t : τ} {last last' : Reduction} {stack stack' : List σ}
    (h : T.turn t (some last) stack = .again last' stack') :
    progressBudget last' stack'.length < progressBudget last stack.length := by
  obtain ⟨hp, hpops, s, d, r, -, -, rfl⟩ := T.turn_again h
  have hlen : (stack.take (stack.length - last'.pops) ++ [d]).length =
      stack.length - last'.pops + 1 := by
    simp
  rw [hlen]
  exact progressBudget_lt hp hpops

/-- The reductions after the first, and the action that ends them. -/
def drain (t : τ) (last : Reduction) (stack : List σ) : Outcome σ τ ρ :=
  match _h : T.turn t (some last) stack with
  | .done o => o
  | .again last' stack' => drain t last' stack'
termination_by progressBudget last stack.length
decreasing_by exact T.turn_again_budget _h

/-- The loop from any point: a turn, then the turns after it. -/
def loop (t : τ) (last : Option Reduction) (stack : List σ) : Outcome σ τ ρ :=
  match T.turn t last stack with
  | .done o => o
  | .again last' stack' => T.drain t last' stack'

theorem loop_some (t : τ) (last : Reduction) (stack : List σ) :
    T.loop t (some last) stack = T.drain t last stack := by
  rw [drain, loop]
  cases T.turn t (some last) stack <;> rfl

theorem loop_eq (t : τ) (last : Option Reduction) (stack : List σ) :
    T.loop t last stack =
      match T.turn t last stack with
      | .done o => o
      | .again last' stack' => T.loop t (some last') stack' := by
  rw [loop]
  cases T.turn t last stack with
  | done o => rfl
  | again last' stack' => exact (T.loop_some t last' stack').symm

/-- Induction along the turns of the loop. -/
theorem loop_induction {t : τ} {motive : Option Reduction → List σ → Prop}
    (done : ∀ last stack o, T.turn t last stack = .done o → motive last stack)
    (again : ∀ last stack last' stack', T.turn t last stack = .again last' stack' →
      motive (some last') stack' → motive last stack)
    (last : Option Reduction) (stack : List σ) : motive last stack := by
  have hsome : ∀ last stack, motive (some last) stack := by
    intro last stack
    induction last, stack using Table.drain.induct T t with
    | case1 last stack o ho => exact done _ _ o ho
    | case2 last stack last' stack' hagain ih => exact again _ _ _ _ hagain ih
  cases hturn : T.turn t last stack with
  | done o => exact done _ _ o hturn
  | again last' stack' => exact again _ _ _ _ hturn (hsome last' stack')

/-- Reading one terminal from a stack. -/
def read (t : τ) (stack : List σ) : Outcome σ τ ρ := T.loop t none stack

end Table

/-- How a run over a list of terminals ends.  An acceptance keeps the terminals
after the accepting one. -/
inductive Verdict (σ τ ρ : Type*) where
  | live (stack : List σ)
  | rejected
  | accepted (rest : List τ)
  | fault (f : Fault σ τ ρ)

namespace Table

variable (T : Table σ τ ρ)

/-- A run over a list of terminals. -/
def parse : List σ → List τ → Verdict σ τ ρ
  | stack, [] => .live stack
  | stack, t :: ts =>
    if T.skips t then parse stack ts
    else
      match T.read t stack with
      | .shifted stack' => parse stack' ts
      | .rejected => .rejected
      | .accepted => .accepted ts
      | .fault f => .fault f

@[simp] theorem parse_nil (stack : List σ) : T.parse stack [] = .live stack := rfl

theorem parse_cons (stack : List σ) (t : τ) (ts : List τ) :
    T.parse stack (t :: ts) =
      if T.skips t then T.parse stack ts
      else
        match T.read t stack with
        | .shifted stack' => T.parse stack' ts
        | .rejected => .rejected
        | .accepted => .accepted ts
        | .fault f => .fault f := by
  rw [parse]

/-! ## Composition -/

/-- **Runs compose.** -/
theorem parse_append (stack : List σ) (xs ys : List τ) :
    T.parse stack (xs ++ ys) =
      match T.parse stack xs with
      | .live stack' => T.parse stack' ys
      | .rejected => .rejected
      | .accepted rest => .accepted (rest ++ ys)
      | .fault f => .fault f := by
  induction xs generalizing stack with
  | nil => rfl
  | cons t ts ih =>
    rw [List.cons_append, parse_cons, parse_cons]
    split_ifs
    · exact ih stack
    · cases T.read t stack with
      | shifted stack' => exact ih stack'
      | rejected => rfl
      | accepted => rfl
      | fault f => rfl

/-! ## Invariants of a run -/

/-- **The loop, once and for all.**  What every permitted reduction keeps still
holds at the turn that ends the loop. -/
theorem loop_done {I : List σ → Prop} {t : τ}
    (hturn : ∀ last last' stack stack', I stack →
      T.turn t last stack = .again last' stack' → I stack')
    (last : Option Reduction) {stack : List σ} (hI : I stack) :
    ∃ last' top, I top ∧ T.turn t last' top = .done (T.loop t last stack) := by
  induction last, stack using T.loop_induction (t := t) with
  | done last stack o ho =>
    refine ⟨last, stack, hI, ?_⟩
    rw [T.loop_eq, ho]
  | again last stack last' stack₁ hagain ih =>
    rw [T.loop_eq, hagain]
    exact ih (hturn _ _ _ _ hI hagain)

/-- A loop that shifts does so from a stack that the reductions kept. -/
theorem loop_shifted {I : List σ → Prop} {t : τ}
    (hturn : ∀ last last' stack stack', I stack →
      T.turn t last stack = .again last' stack' → I stack')
    {last : Option Reduction} {stack stack' : List σ} (hI : I stack)
    (h : T.loop t last stack = .shifted stack') :
    ∃ top q d, I top ∧ top.getLast? = some q ∧ T.move q t = .shift d ∧
      stack' = top ++ [d] := by
  obtain ⟨last', top, htop, hdone⟩ := T.loop_done hturn last hI
  obtain ⟨q, d, hq, hd, hstack⟩ := T.turn_shifted (hdone.trans (congrArg Turn.done h))
  exact ⟨top, q, d, htop, hq, hd, hstack⟩

/-! ## Ranked tables -/

/-- The ranks of a table serve the progress check at one terminal: over the states of
`P`, whatever a reduction uncovers, the reduction that may follow it is permitted.  A
rule that pops nothing uncovers the state it was asked for at. -/
def Ranked (P : σ → Prop) (t : τ) : Prop :=
  ∀ q r rank, P q → T.move q t = .reduce r rank →
    ∀ s d, P s → (T.pops r = 0 → s = q) → T.goto s r = some d →
      ∀ r' rank', T.move d t = .reduce r' rank' → Progress (some ⟨rank, T.pops r⟩) rank'

/-- What the progress check remembers permits the reduction to come. -/
def Permits (t : τ) (last : Option Reduction) (stack : List σ) : Prop :=
  ∀ q r rank, stack.getLast? = some q → T.move q t = .reduce r rank → Progress last rank

variable {T}

/-- **A reduction of a ranked table permits the next one.** -/
theorem Ranked.again {P : σ → Prop} {t : τ} (hT : T.Ranked P t) {last : Option Reduction}
    {last' : Reduction} {stack stack' : List σ} (hP : ∀ q ∈ stack, P q)
    (h : T.turn t last stack = .again last' stack') : T.Permits t (some last') stack' := by
  obtain ⟨q, r, hq, hmove, hpops, -, hlt, s, d, hs, hd, rfl⟩ := T.turn_reduced h
  intro top r' rank' htop hmove'
  obtain rfl : d = top := by
    rw [List.getLast?_append_of_ne_nil _ (List.cons_ne_nil d []), List.getLast?_singleton] at htop
    exact Option.some_inj.mp htop
  have hsame : T.pops r = 0 → s = q := by
    intro hzero
    rw [List.getLast?_eq_getElem?] at hq
    rw [hzero, Nat.sub_zero, hq] at hs
    exact (Option.some_inj.mp hs).symm
  have hlast : last' = ⟨last'.rank, T.pops r⟩ := by rw [← hpops]
  rw [hlast]
  exact hT q r last'.rank (hP q (List.mem_of_getLast? hq)) hmove s d
    (hP s (List.mem_of_getElem? hs)) hsame hd r' rank' hmove'

/-- **The loop of a ranked table is never stopped by the progress check.** -/
theorem Ranked.read_ne_noProgress {P : σ → Prop} {t t' : τ} (hT : T.Ranked P t)
    (hgoto : ∀ s r d, T.goto s r = some d → P d) {stack : List σ} (hP : ∀ q ∈ stack, P q)
    (q : σ) : T.read t stack ≠ .fault (.noProgress q t') := by
  have key : ∀ last, T.Permits t last stack → T.loop t last stack ≠ .fault (.noProgress q t') := by
    intro last
    induction last, stack using T.loop_induction (t := t) with
    | done last stack o ho =>
      intro hpermits h
      have hloop : T.loop t last stack = o := by rw [T.loop_eq, ho]
      rw [← hloop, h] at ho
      obtain ⟨r, rank, hq, hmove, hrefused⟩ := T.turn_noProgress ho
      exact hrefused (hpermits q r rank hq hmove)
    | again last stack last' stack' hagain ih =>
      intro _ h
      have hloop : T.loop t last stack = T.loop t (some last') stack' := by rw [T.loop_eq, hagain]
      obtain ⟨-, -, s, d, r, -, hd, hstack⟩ := T.turn_again hagain
      refine ih (fun q hq => ?_) (hT.again hP hagain) (hloop ▸ h)
      rw [hstack] at hq
      rcases List.mem_append.mp hq with hkept | hnew
      · exact hP q (List.mem_of_mem_take hkept)
      · rw [List.mem_singleton.mp hnew]
        exact hgoto s r d hd
  exact key none fun _ _ _ _ _ => trivial

variable (T)

/-- A run keeps what shifting a terminal keeps. -/
theorem parse_live {I : List σ → Prop}
    (hread : ∀ t stack stack', I stack → T.read t stack = .shifted stack' → I stack')
    {stack stack' : List σ} {ts : List τ} (hI : I stack)
    (h : T.parse stack ts = .live stack') : I stack' := by
  induction ts generalizing stack with
  | nil =>
    cases h
    exact hI
  | cons t ts ih =>
    rw [parse_cons] at h
    split_ifs at h
    · exact ih hI h
    · split at h <;> try contradiction
      rename_i mid hmid
      exact ih (hread t stack mid hI hmid) h

/-- Every property of states that shifts and gotos keep is kept by a run. -/
theorem parse_forall {P : σ → Prop}
    (hshift : ∀ q t d, T.move q t = .shift d → P d)
    (hgoto : ∀ s r d, T.goto s r = some d → P d)
    {stack stack' : List σ} {ts : List τ} (hP : ∀ q ∈ stack, P q)
    (h : T.parse stack ts = .live stack') : ∀ q ∈ stack', P q := by
  refine T.parse_live (I := fun S => ∀ q ∈ S, P q) ?_ hP h
  intro t S S' hS hread
  have hkeep : ∀ last last' S₁ S₂, (∀ q ∈ S₁, P q) → T.turn t last S₁ = .again last' S₂ →
      ∀ q ∈ S₂, P q := by
    intro last last' S₁ S₂ hS₁ hagain q hq
    obtain ⟨-, -, s, d, r, -, hd, rfl⟩ := T.turn_again hagain
    rcases List.mem_append.mp hq with hq | hq
    · exact hS₁ q (List.mem_of_mem_take hq)
    · rw [List.mem_singleton.mp hq]
      exact hgoto s r d hd
  obtain ⟨top, q₀, d, htop, -, hd, rfl⟩ := T.loop_shifted hkeep hS hread
  intro q hq
  rcases List.mem_append.mp hq with hq | hq
  · exact htop q hq
  · rw [List.mem_singleton.mp hq]
    exact hshift q₀ t d hd

/-- **The bottom of the stack never changes.**  A reduction that would pop it is
an underflow. -/
theorem parse_head? {stack stack' : List σ} {ts : List τ} (hne : stack ≠ [])
    (h : T.parse stack ts = .live stack') : stack'.head? = stack.head? := by
  obtain ⟨bottom, hbottom⟩ : ∃ b, stack.head? = some b := by
    cases stack with
    | nil => exact absurd rfl hne
    | cons b _ => exact ⟨b, rfl⟩
  rw [hbottom]
  refine T.parse_live (I := fun S => S.head? = some bottom) ?_ hbottom h
  intro t S S' hS hread
  have hpush : ∀ (S : List σ) d, S.head? = some bottom →
      (S ++ [d]).head? = some bottom := by
    intro S d hS
    rw [List.head?_append, hS]
    rfl
  have hkeep : ∀ last last' S₁ S₂, S₁.head? = some bottom →
      T.turn t last S₁ = .again last' S₂ → S₂.head? = some bottom := by
    intro last last' S₁ S₂ hS₁ hagain
    obtain ⟨-, hpops, s, d, r, -, -, rfl⟩ := T.turn_again hagain
    refine hpush _ d ?_
    obtain ⟨k, hk⟩ : ∃ k, S₁.length - last'.pops = k + 1 :=
      ⟨S₁.length - last'.pops - 1, by omega⟩
    rw [hk]
    cases S₁ with
    | nil => contradiction
    | cons b S₁ => exact hS₁
  obtain ⟨top, q₀, d, htop, -, -, rfl⟩ := T.loop_shifted hkeep hS hread
  exact hpush top d htop

theorem parse_ne_nil {stack stack' : List σ} {ts : List τ} (hne : stack ≠ [])
    (h : T.parse stack ts = .live stack') : stack' ≠ [] := by
  have hhead := T.parse_head? hne h
  rintro rfl
  cases stack with
  | nil => exact hne rfl
  | cons b _ => cases hhead

/-- A run from a stack that is not empty never finds it empty. -/
theorem parse_ne_emptyStack {stack : List σ} {ts : List τ} (hne : stack ≠ []) :
    T.parse stack ts ≠ .fault .emptyStack := by
  induction ts generalizing stack with
  | nil => exact fun h => by cases h
  | cons t ts ih =>
    rw [parse_cons]
    split_ifs with hskip
    · exact ih hne
    · have hkeep : ∀ last last' S S', S ≠ [] → T.turn t last S = .again last' S' → S' ≠ [] := by
        intro last last' S S' _ hagain
        obtain ⟨-, -, s, d, r, -, -, rfl⟩ := T.turn_again hagain
        simp
      cases hread : T.read t stack with
      | shifted stack' =>
        obtain ⟨top, q, d, -, -, -, rfl⟩ := T.loop_shifted hkeep hne hread
        exact ih (by simp)
      | rejected => exact fun h => by cases h
      | accepted => exact fun h => by cases h
      | fault f =>
        rintro h
        cases h
        obtain ⟨last, top, htop, hdone⟩ := T.loop_done hkeep (t := t) none hne
        exact htop (T.turn_emptyStack (hdone.trans (congrArg Turn.done hread)))

end Table

/-! ## Running above a hidden bottom -/

/-- The same outcome with `below` under the stack. -/
def Outcome.onTop (below : List σ) : Outcome σ τ ρ → Outcome σ τ ρ
  | .shifted stack => .shifted (below ++ stack)
  | o => o

/-- The same turn with `below` under the stack. -/
def Turn.onTop (below : List σ) : Turn σ τ ρ → Turn σ τ ρ
  | .done o => .done (o.onTop below)
  | .again last stack => .again last (below ++ stack)

/-- The same verdict with `below` under the stack. -/
def Verdict.onTop (below : List σ) : Verdict σ τ ρ → Verdict σ τ ρ
  | .live stack => .live (below ++ stack)
  | v => v

/-- The outcome asks for states below the ones it was given. -/
def Outcome.Underflows (o : Outcome σ τ ρ) : Prop := ∃ r n, o = .fault (.underflow r n)

/-- The verdict asks for states below the ones it was given. -/
def Verdict.Underflows (v : Verdict σ τ ρ) : Prop := ∃ r n, v = .fault (.underflow r n)

namespace Table

variable (T : Table σ τ ρ)

/-- A turn that does not underflow sees nothing below the stack it is given. -/
theorem turn_onTop (below : List σ) {t : τ} {last : Option Reduction} {stack : List σ}
    (hne : stack ≠ []) (h : ∀ o, T.turn t last stack = .done o → ¬ o.Underflows) :
    T.turn t last (below ++ stack) = (T.turn t last stack).onTop below := by
  unfold turn at h ⊢
  rw [List.getLast?_append_of_ne_nil _ hne]
  cases hq : stack.getLast? with
  | none => exact absurd (List.getLast?_eq_none_iff.mp hq) hne
  | some q =>
    simp only [hq] at h ⊢
    cases hmove : T.move q t with
    | reject => rfl
    | accept => rfl
    | shift d => simp only [Turn.onTop, Outcome.onTop, List.append_assoc]
    | reduce r rank =>
      simp only [hmove] at h ⊢
      by_cases hp : Progress last rank
      · simp only [hp, if_true] at h ⊢
        have hfit : T.pops r < stack.length := by
          by_contra hle
          rw [if_pos (by omega)] at h
          exact h _ rfl ⟨r, stack.length, rfl⟩
        -- the pop stays inside the part of the stack that is visible
        have hcut : (below ++ stack).length - T.pops r =
            below.length + (stack.length - T.pops r) := by
          rw [List.length_append]
          omega
        rw [if_neg (by rw [List.length_append]; omega), if_neg (by omega), hcut,
          List.take_length_add_append, Nat.add_sub_assoc (by omega),
          List.getElem?_append_right (by omega), Nat.add_sub_cancel_left]
        cases stack[stack.length - T.pops r - 1]? with
        | none => rfl
        | some s =>
          cases hgoto : T.goto s r with
          | none => simp only [hgoto, Turn.onTop, Outcome.onTop]
          | some d => simp only [hgoto, Turn.onTop, List.append_assoc]
      · simp only [hp, if_false]
        rfl

/-- **Reading above a hidden bottom.**  A loop that never asks for states below
the ones it was given does the same above any others. -/
theorem loop_onTop (below : List σ) {t : τ} {last : Option Reduction} {stack : List σ}
    (hne : stack ≠ []) (h : ¬ (T.loop t last stack).Underflows) :
    T.loop t last (below ++ stack) = (T.loop t last stack).onTop below := by
  induction last, stack using T.loop_induction (t := t) with
  | done last stack o ho =>
    rw [T.loop_eq, ho] at h
    have hsee : ∀ o', T.turn t last stack = .done o' → ¬ o'.Underflows := by
      intro o' ho'
      rw [ho] at ho'
      cases ho'
      exact h
    rw [T.loop_eq, T.loop_eq _ _ stack, T.turn_onTop below hne hsee, ho]
    rfl
  | again last stack last' stack' hagain ih =>
    rw [T.loop_eq, hagain] at h
    have hsee : ∀ o, T.turn t last stack = .done o → ¬ o.Underflows := by
      intro o ho
      rw [hagain] at ho
      cases ho
    rw [T.loop_eq, T.loop_eq _ _ stack, T.turn_onTop below hne hsee, hagain]
    obtain ⟨-, -, s, d, r, -, -, rfl⟩ := T.turn_again hagain
    exact ih (by simp) h

theorem read_onTop (below : List σ) {t : τ} {stack : List σ} (hne : stack ≠ [])
    (h : ¬ (T.read t stack).Underflows) :
    T.read t (below ++ stack) = (T.read t stack).onTop below :=
  T.loop_onTop below hne h

/-- **Running above a hidden bottom.** -/
theorem parse_onTop (below : List σ) {stack : List σ} {ts : List τ} (hne : stack ≠ [])
    (h : ¬ (T.parse stack ts).Underflows) :
    T.parse (below ++ stack) ts = (T.parse stack ts).onTop below := by
  induction ts generalizing stack with
  | nil => rfl
  | cons t ts ih =>
    rw [parse_cons] at h
    rw [parse_cons, parse_cons]
    split_ifs at h ⊢
    · exact ih hne h
    · cases hread : T.read t stack with
      | shifted stack' =>
        rw [hread] at h
        rw [T.read_onTop below hne (by rw [hread]; rintro ⟨r, n, hf⟩; cases hf), hread]
        obtain ⟨top, q, d, -, -, -, rfl⟩ :=
          T.loop_shifted (I := fun _ => True) (fun _ _ _ _ _ _ => trivial) trivial hread
        exact ih (by simp) h
      | rejected =>
        rw [T.read_onTop below hne (by rw [hread]; rintro ⟨r, n, hf⟩; cases hf), hread]
        rfl
      | accepted =>
        rw [T.read_onTop below hne (by rw [hread]; rintro ⟨r, n, hf⟩; cases hf), hread]
        rfl
      | fault f =>
        rw [hread] at h
        have hf : ¬ (T.read t stack).Underflows := by
          rw [hread]
          rintro ⟨r, n, hf⟩
          cases hf
          exact h ⟨r, n, rfl⟩
        rw [T.read_onTop below hne hf, hread]
        rfl

end Table
end ShiftReduce
