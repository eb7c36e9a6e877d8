import GreatGramma.Engine.Refinement

/-!
# Runs of a matcher

`Engine.Refinement` says what one call does to a matcher.  This module goes from one call to a
sequence of them, which is what everything behind it speaks of: languages, replays and sessions
are about all that was ever asked of a matcher.

## From calls to runs

A fresh matcher keeps the invariant, and every call keeps it whatever it answers, so by induction
on the calls it holds of every matcher that a run arrives at (`Reachable.invariant`,
`Invariant.run`).  Nothing is assumed of the allocator here: a call that is refused a reservation
leaves the invariant as it was.

## Runs in which nothing is refused

If every reservation is granted, nothing about a matcher but its prepared grammar and its rows
decides what a call answers (`Invariant.call_granting`).  The rows can be taken out of the matcher
then, and a run of the matcher is a run of its rows (`Invariant.run_granting`): the scratch
buffers, the staged rows and the allocator have no part in it.  Theorems about what is *accepted*
are proved of such runs, where a reply says something about the input and nothing about memory.
-/

namespace GreatGramma

open Reservation ShiftReduce Traversal

/-! ## Fresh matchers

`into_matcher` pushes one initial row after the other, so it fails only where a reservation is
refused, and what it returns does not depend on the allocator. -/

/-- The row that every row of a fresh matcher is. -/
def PreparedGrammar.initialRow (prepared : PreparedGrammar) : MatcherStatus :=
  ⟨.running .start, [prepared.grammar.lalr.startState]⟩

namespace Matcher

/-- A fresh matcher. -/
def fresh (prepared : PreparedGrammar) (rows : ℕ) : Matcher :=
  ⟨prepared, List.replicate rows prepared.initialRow, List.replicate rows .empty, []⟩

section
variable {prepared : PreparedGrammar}

theorem initialRow_valid : prepared.initialRow.Valid prepared.grammar := by
  refine ⟨trivial, List.cons_ne_nil _ _, fun state hstate => ?_⟩
  rw [List.mem_singleton.mp hstate]
  exact prepared.grammar.lalr.startState_lt

variable (prepared) in
/-- **The rows of `into_matcher`.** -/
theorem pushRow_settles (rows : ℕ) (memory : Memory) :
    Settles (([], ⟨[], memory⟩) : List MatcherStatus × Staging)
      (fun reply built => reply = .ok () ∧ built.1 = List.replicate rows prepared.initialRow ∧
        built.2.rows = List.replicate rows .empty)
      (scan rows (fun _ => prepared.pushRow) ([], ⟨[], memory⟩)) := by
  refine scan_settles
    (I := fun i (built : List MatcherStatus × Staging) =>
      built.1 = List.replicate i prepared.initialRow ∧ built.2.rows = List.replicate i .empty)
    ⟨rfl, rfl⟩ ?_ (fun built h => ⟨rfl, h⟩)
  rintro i ⟨states, slots, memory⟩ - ⟨rfl, hslots⟩
  obtain rfl : slots = List.replicate i .empty := hslots
  unfold PreparedGrammar.pushRow PreparedGrammar.initialStatus
  rcases hreserve : memory.reserve with ⟨answer, memory₁⟩
  cases answer with
  | false => exact .refused (reserve_false hreserve) ⟨_, rfl⟩
  | true =>
    refine .done (Or.inl ⟨rfl, ?_, ?_⟩) (reserve_true hreserve)
    · exact List.replicate_succ'.symm
    · exact List.replicate_succ'.symm

theorem eq_fresh {rows : ℕ} {memory memory' : Memory} {matcher : Matcher}
    (h : prepared.intoMatcher rows memory = (.ok matcher, memory')) :
    rows ≠ 0 ∧ matcher = fresh prepared rows := by
  unfold PreparedGrammar.intoMatcher at h
  by_cases hrows : rows = 0
  · rw [if_pos hrows] at h
    cases h
  rw [if_neg hrows] at h
  rcases hfirst : memory.reserve with ⟨answer, memory₁⟩
  rw [hfirst] at h
  cases answer with
  | false => cases h
  | true =>
    dsimp only at h
    rcases hsecond : memory₁.reserve with ⟨answer, memory₂⟩
    rw [hsecond] at h
    cases answer with
    | false => cases h
    | true =>
      have hpush := pushRow_settles prepared rows memory₂
      dsimp only at h
      generalize scan rows (fun _ => prepared.pushRow) ([], ⟨[], memory₂⟩) = out at h hpush
      cases hpush with
      | refused hs he => cases h
      | @done reply built hpost hs =>
        obtain ⟨states, slots⟩ := built
        obtain ⟨rfl, rfl, hslots⟩ := hpost
        cases h
        dsimp only at hslots
        rw [fresh, hslots]
        exact ⟨hrows, rfl⟩

theorem intoMatcher_granting {rows : ℕ} (hrows : rows ≠ 0) :
    prepared.intoMatcher rows .granting = (.ok (fresh prepared rows), .granting) := by
  unfold PreparedGrammar.intoMatcher
  have hpush := pushRow_settles prepared rows .granting
  rw [if_neg hrows]
  simp only [reserve_granting]
  generalize scan rows (fun _ => prepared.pushRow) ([], ⟨[], Memory.granting⟩) = out at hpush
  cases hpush with
  | refused hs he => exact absurd rfl hs.ne_granting
  | @done reply built hpost hs =>
    obtain ⟨states, slots, memory⟩ := built
    obtain ⟨rfl, rfl, hslots⟩ := hpost
    obtain rfl : memory = .granting := hs.granting rfl
    dsimp only at hslots ⊢
    rw [fresh, hslots]

theorem fresh_invariant (hsound : prepared.Sound) (rows : ℕ) : (fresh prepared rows).Invariant := by
  refine ⟨hsound, ?_, fun status hstatus => ?_⟩
  · simp only [fresh, List.length_replicate]
  · rw [List.eq_of_mem_replicate hstatus]
    exact initialRow_valid

end

/-! ## Reachable matchers -/

variable {matcher : Matcher}

theorem Reachable.invariant (h : matcher.Reachable) : matcher.Invariant := by
  induction h with
  | fresh hprepare hmatcher =>
    obtain ⟨-, rfl⟩ := eq_fresh hmatcher
    exact fresh_invariant (prepare_sound hprepare).2 _
  | call memory c _ ih => exact ih.call memory c

/-- **Runs keep the invariant.** -/
theorem Invariant.run (hm : matcher.Invariant) (memory : Memory) (calls : List Call) :
    (matcher.run memory calls).2.1.Invariant := by
  induction calls generalizing matcher memory with
  | nil => exact hm
  | cons c calls ih => exact ih (hm.call memory c) (matcher.call memory c).2.2

theorem Reachable.run (h : matcher.Reachable) (memory : Memory) (calls : List Call) :
    (matcher.run memory calls).2.1.Reachable := by
  induction calls generalizing matcher memory with
  | nil => exact h
  | cons c calls ih => exact ih (h.call memory c) (matcher.call memory c).2.2

/-- Nothing about a matcher but its prepared grammar and its rows answers a call. -/
theorem Invariant.call_granting (hm : matcher.Invariant) (c : Call) :
    ∃ matcher', matcher'.Invariant ∧ matcher'.prepared = matcher.prepared ∧
      matcher.call .granting c =
        ((matcher.prepared.respond matcher.states c).1, matcher', .granting) ∧
      matcher'.states = (matcher.prepared.respond matcher.states c).2 := by
  have hkeep := hm.call .granting c
  obtain ⟨hprepared, -, ⟨hrespond, hmemory⟩ | ⟨hrefused, -⟩⟩ := hm.call_answered .granting c
  · have hafter := hmemory.granting rfl
    generalize matcher.call .granting c = out at hkeep hprepared hrespond hafter
    obtain ⟨reply, matcher', memory'⟩ := out
    obtain rfl : memory' = .granting := hafter
    obtain ⟨rfl, hstates⟩ := Prod.mk.inj hrespond
    exact ⟨matcher', hkeep, hprepared, rfl, hstates⟩
  · exact absurd rfl hrefused.ne_granting

end Matcher

/-- A sequence of calls on a list of rows. -/
def PreparedGrammar.respondAll (prepared : PreparedGrammar) :
    List MatcherStatus → List Call → List Reply × List MatcherStatus
  | states, [] => ([], states)
  | states, c :: calls =>
    let out := prepared.respond states c
    let rest := respondAll prepared out.2 calls
    (out.1 :: rest.1, rest.2)

namespace Matcher

variable {matcher : Matcher}

/-- **A run of a matcher is a run of its rows.** -/
theorem Invariant.run_granting (hm : matcher.Invariant) (calls : List Call) :
    ∃ matcher', matcher'.Invariant ∧ matcher'.prepared = matcher.prepared ∧
      matcher.run .granting calls =
        ((matcher.prepared.respondAll matcher.states calls).1, matcher', .granting) ∧
      matcher'.states = (matcher.prepared.respondAll matcher.states calls).2 := by
  induction calls generalizing matcher with
  | nil => exact ⟨matcher, hm, rfl, rfl, rfl⟩
  | cons c calls ih =>
    obtain ⟨matcher₁, hm₁, hprepared₁, hcall, hstates₁⟩ := hm.call_granting c
    obtain ⟨matcher₂, hm₂, hprepared₂, hrun, hstates₂⟩ := ih hm₁
    refine ⟨matcher₂, hm₂, hprepared₂.trans hprepared₁, ?_, ?_⟩
    · rw [Matcher.run, hcall]
      simp only [hrun, PreparedGrammar.respondAll, hprepared₁, hstates₁]
    · rw [hstates₂, hprepared₁, hstates₁]
      rfl

end Matcher

/-! ## The methods, when nothing is refused

Each public method of the matcher is a call with its arguments, and the call answers with what
the method makes of the rows.  One statement a method, so that later modules name the method and
not the constructor of the call. -/

namespace Matcher

variable {matcher : Matcher}

/-- From a call to the method behind it. -/
theorem call_out {α : Type} {result : Except EngineError α} {value : α → Value}
    {written : List UInt8} {matcher₁ matcher' : Matcher} {memory : Memory} {reply : Reply}
    (h : ((⟨result.map value, written⟩, matcher₁, memory) : Reply × Matcher × Memory) =
      (reply, matcher', .granting)) :
    result.map value = reply.value ∧ written = reply.written ∧ matcher₁ = matcher' ∧
      memory = .granting := by
  obtain ⟨hreply, hrest⟩ := Prod.mk.inj h
  obtain ⟨hmatcher, hmemory⟩ := Prod.mk.inj hrest
  exact ⟨congrArg Reply.value hreply, congrArg Reply.written hreply, hmatcher, hmemory⟩

theorem Invariant.advance_granting (hm : matcher.Invariant) {row : ℕ} {status : MatcherStatus}
    (hrow : matcher.states[row]? = some status) (token : TokenId) :
    ∃ matcher', matcher'.Invariant ∧ matcher'.prepared = matcher.prepared ∧
      matcher.advance row token .granting =
        ((matcher.prepared.advanceRow status token).map Prod.fst, matcher', .granting) ∧
      matcher'.states = match matcher.prepared.advanceRow status token with
        | .error _ => matcher.states
        | .ok entry => matcher.states.set row entry.2 := by
  obtain ⟨matcher', hm', hprepared, hcall, hstates⟩ := hm.call_granting (.advance row token)
  refine ⟨matcher', hm', hprepared, ?_, ?_⟩
  · obtain ⟨hvalue, -, rfl, hmemory⟩ := call_out hcall
    have hresult : (matcher.advance row token .granting).1 =
        (matcher.prepared.advanceRow status token).map Prod.fst := by
      refine map_inj (fun _ _ h => Value.result.inj h) (hvalue.trans ?_)
      simp only [PreparedGrammar.respond, hrow]
      cases matcher.prepared.advanceRow status token <;> rfl
    exact Prod.ext hresult (Prod.ext rfl hmemory)
  · rw [hstates]
    simp only [PreparedGrammar.respond, hrow]
    cases matcher.prepared.advanceRow status token <;> rfl

theorem Invariant.allows_granting (hm : matcher.Invariant) {row : ℕ} {status : MatcherStatus}
    (hrow : matcher.states[row]? = some status) (token : TokenId) :
    matcher.allows row token .granting = (matcher.prepared.allowsRow status token, .granting) := by
  obtain ⟨matcher', -, -, hcall, -⟩ := hm.call_granting (.allows row token)
  obtain ⟨hvalue, -, -, hmemory⟩ := call_out hcall
  refine Prod.ext (map_inj (fun _ _ h => Value.flag.inj h) (hvalue.trans ?_)) hmemory
  simp only [PreparedGrammar.respond, hrow]

theorem Invariant.mask_granting (hm : matcher.Invariant) {row : ℕ} {status : MatcherStatus}
    (hrow : matcher.states[row]? = some status) (output : List UInt8) :
    ∃ matcher', matcher'.Invariant ∧ matcher'.prepared = matcher.prepared ∧
      matcher.mask row output .granting =
        ((matcher.prepared.maskRow output.length status).map fun _ => (),
          (match matcher.prepared.maskRow output.length status with
            | .error _ => Mask.clear output
            | .ok tokens => PreparedGrammar.packMask output.length tokens), matcher', .granting) ∧
      matcher'.states = matcher.states := by
  obtain ⟨matcher', hm', hprepared, hcall, hstates⟩ := hm.call_granting (.mask row output)
  refine ⟨matcher', hm', hprepared, ?_, ?_⟩
  · obtain ⟨hvalue, hwritten, rfl, hmemory⟩ := call_out hcall
    have hresult : (matcher.mask row output .granting).1 =
        (matcher.prepared.maskRow output.length status).map fun _ => () := by
      refine map_inj (f := fun _ : Unit => Value.unit) (fun _ _ _ => rfl) (hvalue.trans ?_)
      simp only [PreparedGrammar.respond, hrow]
      cases matcher.prepared.maskRow output.length status <;> rfl
    refine Prod.ext hresult (Prod.ext (hwritten.trans ?_) (Prod.ext rfl hmemory))
    simp only [PreparedGrammar.respond, hrow]
    cases matcher.prepared.maskRow output.length status <;> rfl
  · rw [hstates]
    simp only [PreparedGrammar.respond, hrow]
    cases matcher.prepared.maskRow output.length status <;> rfl

theorem Invariant.advanceBatch_granting (hm : matcher.Invariant) {tokens : List TokenId}
    (htokens : tokens.length = matcher.states.length) :
    ∃ matcher', matcher'.Invariant ∧ matcher'.prepared = matcher.prepared ∧
      matcher.advanceBatch tokens .granting =
        ((matcher.prepared.advanceRows matcher.states tokens).map (List.map Prod.fst), matcher',
          .granting) ∧
      matcher'.states = match matcher.prepared.advanceRows matcher.states tokens with
        | .error _ => matcher.states
        | .ok staged => staged.map Prod.snd := by
  obtain ⟨matcher', hm', hprepared, hcall, hstates⟩ := hm.call_granting (.advanceBatch tokens)
  refine ⟨matcher', hm', hprepared, ?_, ?_⟩
  · obtain ⟨hvalue, -, rfl, hmemory⟩ := call_out hcall
    have hresult : (matcher.advanceBatch tokens .granting).1 =
        (matcher.prepared.advanceRows matcher.states tokens).map (List.map Prod.fst) := by
      refine map_inj (fun _ _ h => Value.results.inj h) (hvalue.trans ?_)
      simp only [PreparedGrammar.respond, if_neg (not_not_intro htokens)]
      cases matcher.prepared.advanceRows matcher.states tokens <;> rfl
    exact Prod.ext hresult (Prod.ext rfl hmemory)
  · rw [hstates]
    simp only [PreparedGrammar.respond, if_neg (not_not_intro htokens)]
    cases matcher.prepared.advanceRows matcher.states tokens <;> rfl

theorem Invariant.advanceActive_granting (hm : matcher.Invariant)
    {tokens : List (Option TokenId)} (htokens : tokens.length = matcher.states.length) :
    ∃ matcher', matcher'.Invariant ∧ matcher'.prepared = matcher.prepared ∧
      matcher.advanceActive tokens .granting =
        ((matcher.prepared.advanceActiveRows false matcher.states tokens).map (List.map Prod.fst),
          matcher', .granting) ∧
      matcher'.states = match matcher.prepared.advanceActiveRows false matcher.states tokens with
        | .error _ => matcher.states
        | .ok staged => staged.map Prod.snd := by
  obtain ⟨matcher', hm', hprepared, hcall, hstates⟩ := hm.call_granting (.advanceActive tokens)
  refine ⟨matcher', hm', hprepared, ?_, ?_⟩
  · obtain ⟨hvalue, -, rfl, hmemory⟩ := call_out hcall
    have hresult : (matcher.advanceActive tokens .granting).1 =
        (matcher.prepared.advanceActiveRows false matcher.states tokens).map
          (List.map Prod.fst) := by
      refine map_inj (fun _ _ h => Value.activeResults.inj h) (hvalue.trans ?_)
      simp only [PreparedGrammar.respond, if_neg (not_not_intro htokens)]
      cases matcher.prepared.advanceActiveRows false matcher.states tokens <;> rfl
    exact Prod.ext hresult (Prod.ext rfl hmemory)
  · rw [hstates]
    simp only [PreparedGrammar.respond, if_neg (not_not_intro htokens)]
    cases matcher.prepared.advanceActiveRows false matcher.states tokens <;> rfl

theorem Invariant.advanceActiveAndMasks_granting (hm : matcher.Invariant)
    (tokens : List (Option TokenId)) (output : List UInt8) :
    ∃ matcher', matcher'.Invariant ∧ matcher'.prepared = matcher.prepared ∧
      match matcher.prepared.advanceAndMaskRows false matcher.states tokens output.length with
      | .error e =>
        matcher.advanceActiveAndMasks tokens output .granting =
          (.error e, Mask.clear output, matcher', .granting) ∧ matcher'.states = matcher.states
      | .ok (staged, masks) =>
        matcher.advanceActiveAndMasks tokens output .granting =
          (.ok (staged.map Prod.fst), matcher.prepared.packMasks output.length masks, matcher',
            .granting) ∧ matcher'.states = staged.map Prod.snd := by
  obtain ⟨matcher', hm', hprepared, hcall, hstates⟩ :=
    hm.call_granting (.advanceActiveAndMasks tokens output)
  refine ⟨matcher', hm', hprepared, ?_⟩
  obtain ⟨hvalue, hwritten, rfl, hmemory⟩ := call_out hcall
  cases hfused : matcher.prepared.advanceAndMaskRows false matcher.states tokens output.length with
  | error e =>
    simp only [PreparedGrammar.respond, hfused] at hvalue hwritten hstates
    exact ⟨Prod.ext (map_eq_error.mp hvalue) (Prod.ext hwritten (Prod.ext rfl hmemory)), hstates⟩
  | ok out =>
    simp only [PreparedGrammar.respond, hfused] at hvalue hwritten hstates
    obtain ⟨results, hresults, hinj⟩ := map_eq_ok.mp hvalue
    cases hinj
    exact ⟨Prod.ext hresults (Prod.ext hwritten (Prod.ext rfl hmemory)), hstates⟩

theorem Invariant.advanceActiveAndMasksNoResult_granting (hm : matcher.Invariant)
    (tokens : List (Option TokenId)) (output : List UInt8) :
    ∃ matcher', matcher'.Invariant ∧ matcher'.prepared = matcher.prepared ∧
      match matcher.prepared.advanceAndMaskRows true matcher.states tokens output.length with
      | .error e =>
        matcher.advanceActiveAndMasksNoResult tokens output .granting =
          (.error e, Mask.clear output, matcher', .granting) ∧ matcher'.states = matcher.states
      | .ok (staged, masks) =>
        matcher.advanceActiveAndMasksNoResult tokens output .granting =
          (.ok (), matcher.prepared.packMasks output.length masks, matcher', .granting) ∧
          matcher'.states = staged.map Prod.snd := by
  obtain ⟨matcher', hm', hprepared, hcall, hstates⟩ :=
    hm.call_granting (.advanceActiveAndMasksNoResult tokens output)
  refine ⟨matcher', hm', hprepared, ?_⟩
  obtain ⟨hvalue, hwritten, rfl, hmemory⟩ := call_out hcall
  cases hfused : matcher.prepared.advanceAndMaskRows true matcher.states tokens output.length with
  | error e =>
    simp only [PreparedGrammar.respond, hfused] at hvalue hwritten hstates
    exact ⟨Prod.ext (map_eq_error.mp hvalue) (Prod.ext hwritten (Prod.ext rfl hmemory)), hstates⟩
  | ok out =>
    simp only [PreparedGrammar.respond, hfused] at hvalue hwritten hstates
    obtain ⟨results, hresults, -⟩ := map_eq_ok.mp hvalue
    exact ⟨Prod.ext hresults (Prod.ext hwritten (Prod.ext rfl hmemory)), hstates⟩

end Matcher

/-- Two rows over the lists of `a`. -/
def reusableStackMatcher : Matcher := .fresh reusableStackPrepared 2

theorem reusableStackMatcher_eq : reusableStackMatcher =
    .fresh ⟨reusableStackGrammar, reusableStackSpanner, reusableStackParser, 1⟩ 2 :=
  congrArg (Matcher.fresh · 2) reusableStackPrepared_eq

theorem reusableStackMatcher_reachable : reusableStackMatcher.Reachable :=
  .fresh reusableStack_prepare (Matcher.intoMatcher_granting (by decide))

end GreatGramma
