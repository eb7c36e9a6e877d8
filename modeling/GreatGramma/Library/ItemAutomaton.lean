import GreatGramma.Library.TableRuns
import Mathlib.Computability.ContextFreeGrammar

/-!
# Tables that come from item automata

A shift-reduce table says nothing of a grammar.  An *item automaton* is what ties it to one:
to every state belong items `(r, k, a)`, the rule `r` read up to position `k` in front of the
look-ahead `a`, and the moves of the table are those that the items ask for.  How the items are
found does not matter here (canonical, merged, or merged as far as they are compatible); what
matters is that they are closed, and that they lead to one another along the edges.

## Soundness and completeness

* `ItemAutomaton.sound`: what is accepted is generated by the grammar, and no run faults.  A
  stack is a path, and an item of its top says what the path ends in.
* `ItemAutomaton.complete`: what the grammar generates is accepted.  An item says what the rest
  of its rule may read, and the look-ahead behind it is the one that the items expect.

Together, the table accepts the language of the grammar (`ItemAutomaton.accepts_iff`).

## How they are proved

Soundness is an invariant of runs.  What has been read so far derives from the symbols on the path
that the stack is (`Reading`), a shift puts a terminal at its end, and a reduction replaces the end
of it by the left side of a rule.  That the end is there, and that the goto is, follows from the
item that asks for the reduction (`Path.reduces`); so no step of such a run meets a fault.

Completeness goes by induction on how a word is generated, in the form of `Yields`: a sequence of
symbols yields a word if its terminals are read and its nonterminals are replaced by right sides
that yield what is read for them.  The look-aheads are what makes this work, since the table
reduces only in front of one that the item has.
-/

/-! ## Yields -/

namespace ContextFreeGrammar

variable {τ : Type*} (g : ContextFreeGrammar τ)

/-- What a string of symbols yields: every nonterminal is replaced at once by all that its rule
makes of it. -/
inductive Yields : List (Symbol τ g.NT) → List τ → Prop
  | nil : Yields [] []
  | terminal {γ : List (Symbol τ g.NT)} {w : List τ} (t : τ) (rest : Yields γ w) :
      Yields (.terminal t :: γ) (t :: w)
  | nonterminal {γ : List (Symbol τ g.NT)} {u w : List τ} {r : ContextFreeRule τ g.NT}
      (mem : r ∈ g.rules) (body : Yields r.output u) (rest : Yields γ w) :
      Yields (.nonterminal r.input :: γ) (u ++ w)

variable {g}

theorem Yields.append {γ δ : List (Symbol τ g.NT)} {u w : List τ} (h : g.Yields γ u)
    (h' : g.Yields δ w) : g.Yields (γ ++ δ) (u ++ w) := by
  induction h with
  | nil => exact h'
  | terminal t _ ih => exact .terminal t ih
  | nonterminal mem body _ _ ih =>
    rw [List.append_assoc]
    exact .nonterminal mem body ih

theorem Yields.of_append {γ δ : List (Symbol τ g.NT)} {w : List τ} (h : g.Yields (γ ++ δ) w) :
    ∃ u v, w = u ++ v ∧ g.Yields γ u ∧ g.Yields δ v := by
  induction γ generalizing w with
  | nil => exact ⟨[], w, rfl, .nil, h⟩
  | cons x γ ih =>
    cases h with
    | terminal t rest =>
      obtain ⟨u, v, rfl, hu, hv⟩ := ih rest
      exact ⟨t :: u, v, rfl, .terminal t hu, hv⟩
    | @nonterminal _ u' _ r mem body rest =>
      obtain ⟨u, v, rfl, hu, hv⟩ := ih rest
      exact ⟨u' ++ u, v, (List.append_assoc ..).symm, .nonterminal mem body hu, hv⟩

theorem yields_terminals (w : List τ) : g.Yields (w.map .terminal) w := by
  induction w with
  | nil => exact .nil
  | cons t w ih => exact .terminal t ih

theorem Yields.derives {γ : List (Symbol τ g.NT)} {w : List τ} (h : g.Yields γ w) :
    g.Derives γ (w.map .terminal) := by
  induction h with
  | nil => exact Derives.refl []
  | terminal t _ ih => exact ih.append_left [.terminal t]
  | @nonterminal γ u w r mem _ _ ihBody ihRest =>
    have hrule : g.Derives [.nonterminal r.input] r.output :=
      Produces.single ⟨r, mem, ContextFreeRule.Rewrites.input_output⟩
    rw [List.map_append]
    exact ((hrule.trans ihBody).append_right γ).trans (ihRest.append_left _)

/-- **A derivation yields its word.** -/
theorem Yields.of_derives {γ : List (Symbol τ g.NT)} {w : List τ}
    (h : g.Derives γ (w.map .terminal)) : g.Yields γ w := by
  induction h using Relation.ReflTransGen.head_induction_on with
  | refl => exact yields_terminals w
  | head hstep _ ih =>
    obtain ⟨r, hr, hrewrites⟩ := hstep
    obtain ⟨p, q, rfl, rfl⟩ := hrewrites.exists_parts
    obtain ⟨u, v, rfl, hu, hv⟩ := ih.of_append
    obtain ⟨u, body, rfl, hu, hbody⟩ := hu.of_append
    have hsingle : g.Yields [.nonterminal r.input] body := by
      have h := Yields.nonterminal hr hbody .nil
      rwa [List.append_nil] at h
    exact (hu.append hsingle).append hv

end ContextFreeGrammar

namespace ShiftReduce

variable {σ τ ρ : Type*}

/-! ## Items -/

/-- **An item automaton** behind a table, for a grammar whose rules are numbered.  `final` is the
rule of the initial nonterminal, and `eof` the terminal behind every input. -/
structure ItemAutomaton (T : Table σ τ ρ) (g : ContextFreeGrammar τ)
    (rule : ρ → Option (ContextFreeRule τ g.NT)) (start : σ) (final : ρ) (eof : τ) where
  /-- `edge q X d`: from `q` on, `X` leads to `d` -/
  edge : σ → Symbol τ g.NT → σ → Prop
  /-- `item q r k a`: in `q`, the rule `r` may be read up to `k`, with `a` behind it -/
  item : σ → ρ → ℕ → τ → Prop
  mem_rules : ∀ {r} {A : ContextFreeRule τ g.NT}, rule r = some A → A ∈ g.rules
  exists_rule : ∀ {A : ContextFreeRule τ g.NT}, A ∈ g.rules → ∃ r, rule r = some A
  item_rule : ∀ {q r k a}, item q r k a → ∃ A, rule r = some A ∧ T.pops r = A.output.length
  -- the rule of the initial nonterminal
  final_input : ∀ {A : ContextFreeRule τ g.NT}, rule final = some A → A.input = g.initial
  final_unique : ∀ {r} {A : ContextFreeRule τ g.NT}, rule r = some A → A.input = g.initial →
    r = final
  final_only : ∀ {q a}, item q final 0 a → q = start
  initial_unread : ∀ {r} {A : ContextFreeRule τ g.NT}, rule r = some A →
    .nonterminal g.initial ∉ A.output
  -- where items come from
  start_dot : ∀ {r k a}, item start r k a → k = 0
  kernel : ∀ {q X d}, edge q X d → ∃ r k a, item d r (k + 1) a
  backward : ∀ {q X d r k a} {A : ContextFreeRule τ g.NT}, edge q X d → item d r (k + 1) a →
    rule r = some A → A.output[k]? = some X ∧ ∃ a', item q r k a'
  closed : ∀ {q r a} {A : ContextFreeRule τ g.NT}, item q r 0 a → r ≠ final → rule r = some A →
    ∃ r' k a', item q r' k a' ∧ ∃ A' : ContextFreeRule τ g.NT, rule r' = some A' ∧
      A'.output[k]? = some (.nonterminal A.input)
  -- what items ask for
  start_item : item start final 0 eof
  forward : ∀ {q r k a X} {A : ContextFreeRule τ g.NT}, item q r k a → rule r = some A →
    A.output[k]? = some X → ∃ d, edge q X d ∧ item d r (k + 1) a
  closure : ∀ {q r k a r' b} {v : List τ} {A A' : ContextFreeRule τ g.NT}, item q r k a →
    rule r = some A → rule r' = some A' → A.output[k]? = some (.nonterminal A'.input) →
      g.Derives (A.output.drop (k + 1)) (v.map .terminal) → (v ++ [a]).head? = some b →
        item q r' 0 b
  -- the moves are those of the items
  shift_edge : ∀ {q t d}, T.move q t = .shift d → edge q (.terminal t) d
  edge_shift : ∀ {q r k a t d} {A : ContextFreeRule τ g.NT}, item q r k a → rule r = some A →
    A.output[k]? = some (.terminal t) → edge q (.terminal t) d → T.move q t = .shift d
  reduce_item : ∀ {q t r rank}, T.move q t = .reduce r rank →
    r ≠ final ∧ ∃ (A : ContextFreeRule τ g.NT) (a : τ), rule r = some A ∧
      item q r A.output.length a
  item_reduce : ∀ {q r a} {A : ContextFreeRule τ g.NT}, item q r A.output.length a →
    rule r = some A → r ≠ final → ∃ rank, T.move q a = .reduce r rank
  accept_item : ∀ {q t}, T.move q t = .accept →
    ∃ (A : ContextFreeRule τ g.NT) (a : τ), rule final = some A ∧ item q final A.output.length a
  item_accept : ∀ {q a} {A : ContextFreeRule τ g.NT}, item q final A.output.length a →
    rule final = some A → T.move q a = .accept
  goto_edge : ∀ {s r d} {A : ContextFreeRule τ g.NT}, rule r = some A →
    (T.goto s r = some d ↔ edge s (.nonterminal A.input) d)

namespace ItemAutomaton

open ContextFreeGrammar

variable {T : Table σ τ ρ} {g : ContextFreeGrammar τ}
  {rule : ρ → Option (ContextFreeRule τ g.NT)} {start : σ} {final : ρ} {eof : τ}
  (M : ItemAutomaton T g rule start final eof)

/-! ## What is accepted is generated -/

/-- A stack that is a path from the start, and the symbols along it. -/
inductive Path : List σ → List (Symbol τ g.NT) → Prop
  | single : Path [start] []
  | push {stack : List σ} {α : List (Symbol τ g.NT)} {q d : σ} {X : Symbol τ g.NT}
      (path : Path stack α) (top : stack.getLast? = some q) (edge : M.edge q X d) :
      Path (stack ++ [d]) (α ++ [X])

variable {M}

theorem Path.exists_top {stack : List σ} {α : List (Symbol τ g.NT)} (h : M.Path stack α) :
    ∃ q, stack.getLast? = some q := by
  cases h with
  | single => exact ⟨start, rfl⟩
  | @push _ _ _ d => exact ⟨d, List.getLast?_concat ..⟩

/-- The start is on top of nothing but itself. -/
theorem Path.of_start {stack : List σ} {α : List (Symbol τ g.NT)} (h : M.Path stack α)
    (htop : stack.getLast? = some start) : α = [] := by
  cases h with
  | single => rfl
  | @push _ _ _ d _ _ _ edge =>
    rw [List.getLast?_concat] at htop
    cases htop
    obtain ⟨r, k, a, hitem⟩ := M.kernel edge
    exact absurd (M.start_dot hitem) (Nat.succ_ne_zero k)

/-- **What an item of the top says of the path**: it ends in what the item has read, from a state
in which the rule begins. -/
theorem Path.spells {stack : List σ} {α : List (Symbol τ g.NT)} (h : M.Path stack α) {q : σ} {r : ρ}
    {k : ℕ} {a : τ} {A : ContextFreeRule τ g.NT} (htop : stack.getLast? = some q)
    (hitem : M.item q r k a) (hrule : rule r = some A) :
    ∃ below popped β s a', stack = below ++ popped ∧ popped.length = k ∧
      α = β ++ A.output.take k ∧ M.Path below β ∧ below.getLast? = some s ∧ M.item s r 0 a' := by
  induction k generalizing stack α q a with
  | zero => exact ⟨stack, [], α, q, a, (List.append_nil _).symm, rfl, (List.append_nil _).symm, h,
      htop, hitem⟩
  | succ k ih =>
    cases h with
    | single =>
      cases htop
      exact absurd (M.start_dot hitem) (Nat.succ_ne_zero k)
    | @push stack α p d X path top edge =>
      obtain rfl : d = q := Option.some.inj ((List.getLast?_concat ..).symm.trans htop)
      obtain ⟨hX, a', hitem'⟩ := M.backward edge hitem hrule
      obtain ⟨below, popped, β, s, b, rfl, hlength, rfl, hbelow, hs, hstart⟩ :=
        ih path top hitem'
      refine ⟨below, popped ++ [d], β, s, b, by rw [List.append_assoc], ?_, ?_, hbelow, hs, hstart⟩
      · rw [List.length_append, hlength, List.length_singleton]
      · rw [List.append_assoc, List.take_add_one, hX]
        rfl

/-- The state that popping a path uncovers. -/
theorem getElem?_uncovered {below popped : List σ} {s : σ} (h : below.getLast? = some s) :
    (below ++ popped)[(below ++ popped).length - popped.length - 1]? = some s := by
  have hpos : 0 < below.length := List.length_pos_of_mem (List.mem_of_getLast? h)
  rw [List.length_append, Nat.add_sub_cancel, List.getElem?_append_left (by omega),
    ← List.getLast?_eq_getElem?, h]

/-- **A reduction of a path**: what it pops is there and spells the rule, and the goto is there. -/
theorem Path.reduces {stack : List σ} {α : List (Symbol τ g.NT)} (h : M.Path stack α) {q : σ}
    {r : ρ} {rank : ℕ} {t : τ} (htop : stack.getLast? = some q)
    (hmove : T.move q t = .reduce r rank) :
    ∃ A β below s d, rule r = some A ∧ α = β ++ A.output ∧ M.Path below β ∧
      stack.take (stack.length - T.pops r) = below ∧ below.getLast? = some s ∧
      T.pops r < stack.length ∧ stack[stack.length - T.pops r - 1]? = some s ∧
      T.goto s r = some d ∧ M.edge s (.nonterminal A.input) d := by
  obtain ⟨hfinal, A, a, hrule, hitem⟩ := M.reduce_item hmove
  obtain ⟨_, hrule', hpops⟩ := M.item_rule hitem
  cases hrule.symm.trans hrule'
  obtain ⟨below, popped, β, s, b, rfl, hlength, rfl, hbelow, hs, hbegin⟩ :=
    h.spells htop hitem hrule
  have hpos : 0 < below.length := List.length_pos_of_mem (List.mem_of_getLast? hs)
  -- the rule begins in `s` because some other rule goes on with it there
  obtain ⟨r', k, a', hitem', A', hrule', hnext⟩ := M.closed hbegin hfinal hrule
  obtain ⟨d, hedge, -⟩ := M.forward hitem' hrule' hnext
  refine ⟨A, β, below, s, d, hrule, by rw [List.take_length], hbelow, ?_, hs, ?_, ?_,
    (M.goto_edge hrule).mpr hedge, hedge⟩
  · rw [hpops, ← hlength, List.length_append, Nat.add_sub_cancel, List.take_left]
  · rw [hpops, ← hlength, List.length_append]
    omega
  · rw [hpops, ← hlength]
    exact getElem?_uncovered hs

/-- What has been read, with the path that it was made into. -/
def Reading (M : ItemAutomaton T g rule start final eof) (read : List τ) (stack : List σ) : Prop :=
  ∃ α, M.Path stack α ∧ g.Derives α (read.map .terminal)

theorem Reading.nil : M.Reading [] [start] := ⟨[], .single, Derives.refl []⟩

/-- **A step reads, or makes more of what is read.** -/
theorem Reading.step {read ts ts' : List τ} {stack stack' : List σ} (h : M.Reading read stack)
    (hstep : T.Step (stack, ts) (stack', ts')) :
    ∃ more, ts = more ++ ts' ∧ M.Reading (read ++ more) stack' := by
  obtain ⟨α, hpath, hderives⟩ := h
  cases hstep with
  | @shift _ _ q d t top move =>
    refine ⟨[t], rfl, α ++ [.terminal t], hpath.push top (M.shift_edge move), ?_⟩
    rw [List.map_append]
    exact hderives.append_right _
  | @reduce _ _ q s d t r rank top move fits uncovered goto =>
    obtain ⟨A, β, below, s', d', hrule, rfl, hbelow, htake, hs', -, hs, hgoto, hedge⟩ :=
      hpath.reduces top move
    cases uncovered.symm.trans hs
    cases goto.symm.trans hgoto
    rw [htake]
    refine ⟨[], rfl, β ++ [.nonterminal A.input], hbelow.push hs' hedge, ?_⟩
    have hrewrites : g.Derives [.nonterminal A.input] A.output :=
      Produces.single ⟨A, M.mem_rules hrule, ContextFreeRule.Rewrites.input_output⟩
    rw [List.append_nil]
    exact (hrewrites.append_left β).trans hderives

/-- **What a run has read.** -/
theorem Reading.steps {read : List τ} {c c' : List σ × List τ} (h : M.Reading read c.1)
    (hsteps : T.Steps c c') : ∃ more, c.2 = more ++ c'.2 ∧ M.Reading (read ++ more) c'.1 := by
  induction hsteps with
  | refl => exact ⟨[], rfl, by rwa [List.append_nil]⟩
  | tail _ hstep ih =>
    obtain ⟨more, hmore, hreading⟩ := ih
    obtain ⟨more', hmore', hreading'⟩ := hreading.step hstep
    refine ⟨more ++ more', ?_, ?_⟩
    · rw [hmore, hmore', List.append_assoc]
    · rwa [← List.append_assoc]

/-- **No run faults.** -/
theorem Reading.ends_ne_fault {read : List τ} {c : List σ × List τ} {v : Verdict σ τ ρ}
    (h : M.Reading read c.1) (hends : T.Ends c v) (f : Fault σ τ ρ) : v ≠ .fault f := by
  obtain ⟨α, hpath, -⟩ := h
  rintro rfl
  cases hends with
  | emptyStack =>
    obtain ⟨q, hq⟩ := hpath.exists_top
    cases hq
  | underflow top move deep =>
    obtain ⟨_, _, _, _, _, _, _, _, _, _, hfits, _⟩ := hpath.reduces top move
    exact absurd hfits (Nat.not_lt.mpr deep)
  | missingGoto top move fits uncovered goto =>
    obtain ⟨_, _, _, _, _, _, _, _, _, _, _, hs, hgoto, _⟩ := hpath.reduces top move
    cases uncovered.symm.trans hs
    cases goto.symm.trans hgoto

/-- What is read where a table accepts is generated. -/
theorem Reading.generated {read : List τ} {stack : List σ} (h : M.Reading read stack) {q : σ}
    {t : τ} (htop : stack.getLast? = some q) (hmove : T.move q t = .accept) :
    read ∈ g.language := by
  obtain ⟨α, hpath, hderives⟩ := h
  obtain ⟨A, a, hrule, hitem⟩ := M.accept_item hmove
  obtain ⟨below, popped, β, s, b, -, -, rfl, hbelow, hs, hbegin⟩ := hpath.spells htop hitem hrule
  cases M.final_only hbegin
  rw [hbelow.of_start hs, List.take_length, List.nil_append] at hderives
  have hrewrites : g.Derives [.nonterminal g.initial] A.output := by
    rw [← M.final_input hrule]
    exact Produces.single ⟨A, M.mem_rules hrule, ContextFreeRule.Rewrites.input_output⟩
  exact hrewrites.trans hderives

/-- **Soundness.**  No run from the start faults, and what it has read when it accepts is
generated. -/
theorem sound (M : ItemAutomaton T g rule start final eof) {ts : List τ} {v : Verdict σ τ ρ}
    (h : T.Runs [start] ts v) :
    (∀ f, v ≠ .fault f) ∧
      ∀ rest, v = .accepted rest → ∃ w t, ts = w ++ t :: rest ∧ w ∈ g.language := by
  obtain ⟨c, hsteps, hends⟩ := h
  obtain ⟨more, hts, hreading⟩ := (Reading.nil (M := M)).steps hsteps
  refine ⟨hreading.ends_ne_fault hends, ?_⟩
  rintro rest rfl
  cases hends with
  | @accepted _ _ q t top move => exact ⟨more, t, hts, hreading.generated top move⟩

/-! ## What is generated is accepted -/

variable (M) in
/-- **What the rest of a rule yields is read**: from an item in front of `γ`, the table reads
what `γ` yields and comes to the item behind it.  What follows is read as far as the look-ahead
that the items expect. -/
theorem reads {γ : List (Symbol τ g.NT)} {w : List τ} (hyields : g.Yields γ w) :
    ∀ (stack : List σ) (rest : List τ) {q : σ} {r : ρ} {k : ℕ} {a : τ}
      {A : ContextFreeRule τ g.NT} {δ : List (Symbol τ g.NT)} {v : List τ},
      stack.getLast? = some q → M.item q r k a →
      rule r = some A → A.output.drop k = γ ++ δ → g.Yields δ v →
      ∃ path q', path.length = γ.length ∧ (stack ++ path).getLast? = some q' ∧
        M.item q' r (k + γ.length) a ∧
        T.Steps (stack, w ++ (v ++ a :: rest)) (stack ++ path, v ++ a :: rest) := by
  induction hyields with
  | nil =>
    intro stack rest q r k a A δ v htop hitem _ _ _
    exact ⟨[], q, rfl, by rwa [List.append_nil], hitem, by rw [List.append_nil]; exact .refl⟩
  | @terminal γ w t _ ih =>
    intro stack rest q r k a A δ v htop hitem hrule hdrop hδ
    have hnext : A.output[k]? = some (.terminal t) := by
      rw [← List.head?_drop, hdrop]
      rfl
    obtain ⟨d, hedge, hitem'⟩ := M.forward hitem hrule hnext
    have hdrop' : A.output.drop (k + 1) = γ ++ δ := by
      rw [← List.tail_drop, hdrop]
      rfl
    obtain ⟨path, q', hlength, htop', hitem'', hsteps⟩ :=
      ih (stack ++ [d]) rest (List.getLast?_concat ..) hitem' hrule hdrop' hδ
    rw [List.append_assoc, List.singleton_append] at htop' hsteps
    refine ⟨d :: path, q', by rw [List.length_cons, hlength, List.length_cons], htop', ?_,
      .head (.shift htop (M.edge_shift hitem hrule hnext hedge)) hsteps⟩
    rwa [List.length_cons, Nat.add_comm γ.length 1, ← Nat.add_assoc]
  | @nonterminal γ u w B mem body _ ihBody ihRest =>
    intro stack rest q r k a A δ v htop hitem hrule hdrop hδ
    have hnext : A.output[k]? = some (.nonterminal B.input) := by
      rw [← List.head?_drop, hdrop]
      rfl
    have hdrop' : A.output.drop (k + 1) = γ ++ δ := by
      rw [← List.tail_drop, hdrop]
      rfl
    rename_i hγ
    obtain ⟨r', hr'⟩ := M.exists_rule mem
    -- the look-ahead is the first of what is still to come
    obtain ⟨b, input, hb⟩ : ∃ b input, w ++ (v ++ a :: rest) = b :: input := by
      cases hcase : w ++ (v ++ a :: rest) with
      | nil => simp at hcase
      | cons b input => exact ⟨b, input, rfl⟩
    have hhead : ((w ++ v) ++ [a]).head? = some b := by
      have h := congrArg List.head? hb
      cases w with
      | cons x w => exact h
      | nil =>
        cases v with
        | cons x v => exact h
        | nil => exact h
    have hderives : g.Derives (A.output.drop (k + 1)) ((w ++ v).map .terminal) := by
      rw [hdrop']
      exact (hγ.append hδ).derives
    have hbegin : M.item q r' 0 b := M.closure hitem hrule hr' hnext hderives hhead
    obtain ⟨path, q', hlength, htop', hcomplete, hsteps⟩ :=
      ihBody stack input htop hbegin hr' (by rw [List.drop_zero, List.append_nil]) .nil
    rw [Nat.zero_add] at hcomplete
    rw [List.nil_append] at hsteps
    -- the reduction uncovers `q` again, which goes on with the nonterminal
    obtain ⟨d, hedge, hitem'⟩ := M.forward hitem hrule hnext
    have hfinal : r' ≠ final := by
      rintro rfl
      rw [M.final_input hr'] at hnext
      exact M.initial_unread hrule (List.mem_of_getElem? hnext)
    obtain ⟨rank, hmove⟩ := M.item_reduce hcomplete hr' hfinal
    obtain ⟨_, hrule', hpops⟩ := M.item_rule hcomplete
    cases hr'.symm.trans hrule'
    rw [← hlength] at hpops
    have hpos : 0 < stack.length := List.length_pos_of_mem (List.mem_of_getLast? htop)
    have hreduce : T.Step (stack ++ path, b :: input) (stack ++ [d], b :: input) := by
      have hstep : T.Step (stack ++ path, b :: input) _ := .reduce htop' hmove
        (by rw [hpops, List.length_append]; omega)
        (by rw [hpops]; exact getElem?_uncovered htop) ((M.goto_edge hr').mpr hedge)
      rwa [hpops, List.length_append, Nat.add_sub_cancel, List.take_left] at hstep
    obtain ⟨path', q'', hlength', htop'', hitem'', hsteps'⟩ :=
      ihRest (stack ++ [d]) rest (List.getLast?_concat ..) hitem' hrule hdrop' hδ
    rw [List.append_assoc, List.singleton_append] at htop'' hsteps'
    refine ⟨d :: path', q'', by rw [List.length_cons, hlength', List.length_cons], htop'', ?_, ?_⟩
    · rwa [List.length_cons, Nat.add_comm γ.length 1, ← Nat.add_assoc]
    · rw [List.append_assoc, hb]
      rw [hb] at hsteps'
      exact (hsteps.tail hreduce).trans hsteps'

/-- **Completeness.**  What is generated is accepted in front of the end. -/
theorem complete (M : ItemAutomaton T g rule start final eof) {w : List τ}
    (h : w ∈ g.language) : T.Runs [start] (w ++ [eof]) (.accepted []) := by
  obtain ⟨A, hrule, -⟩ := M.item_rule M.start_item
  have hyields : g.Yields A.output w := by
    have hinitial := Yields.of_derives h
    generalize hγ : [Symbol.nonterminal g.initial] = γ at hinitial
    cases hinitial with
    | nil => cases hγ
    | terminal t _ => cases hγ
    | @nonterminal γ u w B mem body rest =>
      obtain ⟨hinput, rfl⟩ := List.cons.inj hγ
      cases rest
      obtain ⟨r, hr⟩ := M.exists_rule mem
      obtain rfl := M.final_unique hr (Symbol.nonterminal.inj hinput).symm
      cases hr.symm.trans hrule
      rwa [List.append_nil]
  obtain ⟨path, q, -, htop, hitem, hsteps⟩ :=
    M.reads hyields [start] [] rfl M.start_item hrule
      (by rw [List.drop_zero, List.append_nil]) .nil
  rw [Nat.zero_add] at hitem
  exact ⟨_, hsteps, .accepted htop (M.item_accept hitem hrule)⟩

/-- **The table accepts the language of the grammar.** -/
theorem accepts_iff (M : ItemAutomaton T g rule start final eof) {w : List τ} :
    T.Runs [start] (w ++ [eof]) (.accepted []) ↔ w ∈ g.language := by
  constructor
  · intro h
    obtain ⟨w', t, hw, hgenerated⟩ := (M.sound h).2 [] rfl
    rwa [(List.append_inj_left' hw rfl : w = w')]
  · exact M.complete

end ItemAutomaton

end ShiftReduce
