import GreatGramma.Engine.Runs

/-!
# What cannot be observed

A matcher recycles its buffers: a refused token leaves a half-written slot behind, a mask leaves
its scratch stack, a commit leaves the old rows in the staging slots.  None of it can be seen.

## Two statements in one

* Calls that did not commit may as well not have been made.  Take the queries and the calls that
  returned an error out of a run: the remaining calls get the same replies, and the rows are the
  same in the end.
* Buffers may as well hold anything else.  Two matchers with one prepared grammar and the same
  committed rows give the same replies and keep the same rows, whatever is left in their staging
  slots and on their scratch stacks.

Both come from the refinement: a call reads its prepared grammar and the committed rows, so a run
is a run of the rows (`Engine.Runs`), in which there are no buffers, and a call that does not
commit leaves the rows as they were (`Engine.Commits`).  The statements are about runs in which
nothing is refused, since a run with fewer calls asks the allocator for less.
-/

namespace GreatGramma

open Reservation

/-- A call that committed: no query, and answered with a value. -/
def Call.Committed (entry : Call × Reply) : Bool :=
  !decide entry.1.IsQuery && entry.2.value.isOk

namespace PreparedGrammar

variable (prepared : PreparedGrammar)

/-- One call, of which nothing remains unless it commits. -/
theorem respond_committed (states : List MatcherStatus) (c : Call) :
    (Call.Committed (c, (prepared.respond states c).1) = false ∧
      (prepared.respond states c).2 = states) ∨
    Call.Committed (c, (prepared.respond states c).1) = true := by
  rcases prepared.respond_cases states c with ⟨hsame, hquery | ⟨e, herror⟩⟩ | ⟨hquery, ⟨v, hv⟩, -⟩
  · refine Or.inl ⟨?_, hsame⟩
    simp only [Call.Committed, hquery, decide_true, Bool.not_true, Bool.false_and]
  · refine Or.inl ⟨?_, hsame⟩
    simp only [Call.Committed, herror, Except.isOk, Except.toBool, Bool.and_false]
  · refine Or.inr ?_
    simp only [Call.Committed, hquery, hv, Except.isOk, Except.toBool, decide_false, Bool.not_false,
      Bool.and_true]

/-- **Only the calls that commit matter.** -/
theorem respondAll_committed (states : List MatcherStatus) (calls : List Call) :
    prepared.respondAll states
        (((calls.zip (prepared.respondAll states calls).1).filter Call.Committed).map Prod.fst) =
      (((calls.zip (prepared.respondAll states calls).1).filter Call.Committed).map Prod.snd,
        (prepared.respondAll states calls).2) := by
  induction calls generalizing states with
  | nil => rfl
  | cons c calls ih =>
    have hrest := ih (prepared.respond states c).2
    simp only [respondAll, List.zip_cons_cons]
    rcases prepared.respond_committed states c with ⟨hdrop, hsame⟩ | hkeep
    · rw [List.filter_cons_of_neg (by rw [hdrop]; exact Bool.false_ne_true)]
      rw [hsame] at hrest ⊢
      exact hrest
    · rw [List.filter_cons_of_pos hkeep, List.map_cons, List.map_cons, respondAll]
      dsimp only
      rw [hrest]

end PreparedGrammar

/-- **Failed calls and recycled buffers are unobservable.**  Deleting the queries and
the calls that returned an error changes no reply of the remaining calls, and no
committed row; and a matcher with other staging rows and another scratch stack gives
the same replies and keeps the same rows. -/
theorem failed_calls_and_buffers_unobservable {matcher : Matcher} (h : matcher.Reachable)
    (calls : List Call) :
    (∀ committed, committed =
        (calls.zip (matcher.run .granting calls).1).filter Call.Committed →
      (matcher.run .granting (committed.map Prod.fst)).1 = committed.map Prod.snd ∧
      (matcher.run .granting (committed.map Prod.fst)).2.1.states =
        (matcher.run .granting calls).2.1.states) ∧
    ∀ staging scratch, staging.length = matcher.staging.length →
      ({ matcher with staging, scratch }.run .granting calls).1 =
        (matcher.run .granting calls).1 ∧
      ({ matcher with staging, scratch }.run .granting calls).2.1.states =
        (matcher.run .granting calls).2.1.states := by
  have hm := h.invariant
  obtain ⟨matcher', -, -, hrun, hstates⟩ := hm.run_granting calls
  constructor
  · rintro committed rfl
    rw [hrun]
    obtain ⟨matcher₁, -, -, hrun₁, hstates₁⟩ := hm.run_granting
      (((calls.zip (matcher.prepared.respondAll matcher.states calls).1).filter
        Call.Committed).map Prod.fst)
    rw [hrun₁]
    dsimp only
    rw [hstates₁, hstates, PreparedGrammar.respondAll_committed]
    exact ⟨rfl, rfl⟩
  · intro staging scratch hstaging
    have hother : ({ matcher with staging, scratch } : Matcher).Invariant :=
      ⟨hm.sound, hstaging.trans hm.staging, hm.rows⟩
    obtain ⟨matcher₁, -, -, hrun₁, hstates₁⟩ := hother.run_granting calls
    rw [hrun, hrun₁]
    dsimp only
    rw [hstates, hstates₁]
    exact ⟨rfl, rfl⟩

/-- A refused EOS token and a mask before an `a`, with leftovers in every buffer. -/
theorem failed_calls_and_buffers_unobservable_reusableStack :
    ((∀ committed, committed = (([.advance 0 1, .mask 0 [0], .advance 0 0] : List Call).zip
          (reusableStackMatcher.run .granting
            [.advance 0 1, .mask 0 [0], .advance 0 0]).1).filter Call.Committed →
        (reusableStackMatcher.run .granting (committed.map Prod.fst)).1 =
          committed.map Prod.snd ∧
        (reusableStackMatcher.run .granting (committed.map Prod.fst)).2.1.states =
          (reusableStackMatcher.run .granting
            [.advance 0 1, .mask 0 [0], .advance 0 0]).2.1.states) ∧
      ∀ staging scratch, staging.length = reusableStackMatcher.staging.length →
        ({ reusableStackMatcher with staging, scratch }.run .granting
            [.advance 0 1, .mask 0 [0], .advance 0 0]).1 =
          (reusableStackMatcher.run .granting [.advance 0 1, .mask 0 [0], .advance 0 0]).1 ∧
        ({ reusableStackMatcher with staging, scratch }.run .granting
            [.advance 0 1, .mask 0 [0], .advance 0 0]).2.1.states =
          (reusableStackMatcher.run .granting
            [.advance 0 1, .mask 0 [0], .advance 0 0]).2.1.states) :=
  failed_calls_and_buffers_unobservable reusableStackMatcher_reachable
    [.advance 0 1, .mask 0 [0], .advance 0 0]

end GreatGramma
