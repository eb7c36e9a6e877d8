import GreatGramma.Library.Transducer

/-!
# Filtering chunks of input by what may come next

A late transducer feeds a consumer that may refuse a symbol.  The input comes in
chunks, and after every chunk the pair is filtered: it must be *viable*, which
means that the consumer would take some head of the transducer's state.  The
filter can look no further than one symbol, so it admits inputs that die later;
what matters is that it refuses nothing that lives on.

That is the content here, over every transducer that emits late and every partial
consumer.

* `reads_append`: the filter at the end of a chunk is implied by the filter at
  the end of any longer one, so the filters in between add nothing.
* `feeds_iff`: hence only the concatenation of the chunks matters.
* `feeds_congr`: two ways to cut an input into chunks lead to the same place.
* `exists_feeds_finishes_iff`: an input that can be finished is never refused.
-/

/-- A transducer whose emissions drive a partial consumer. -/
structure LookAhead (κ ι τ S : Type*) where
  /-- The transducer. -/
  scanner : Transducer κ ι τ
  /-- The consumer: the state after a symbol, if the symbol is taken. -/
  act : S → τ → Option S

namespace LookAhead

variable {κ ι τ S : Type*} (G : LookAhead κ ι τ S)

/-- The consumer takes some symbol that the transducer can emit next. -/
def Viable (c : κ × S) : Prop := ∃ t, G.scanner.Head c.1 t ∧ (G.act c.2 t).isSome

/-- One chunk: the transducer reads it, the consumer takes what is emitted, and
the pair after it is viable. -/
def Reads (c : κ × S) (w : List ι) (c' : κ × S) : Prop :=
  ∃ em, G.scanner.run c.1 w = some (c'.1, em) ∧ em.foldlM G.act c.2 = some c'.2 ∧ G.Viable c'

/-- Chunks, one after the other. -/
def Feeds : κ × S → List (List ι) → κ × S → Prop
  | c, [], c' => c' = c
  | c, w :: ws, c' => ∃ mid, G.Reads c w mid ∧ Feeds mid ws c'

/-- The input ends here: the last label is taken, and the consumer stops in a
state that `accept` admits. -/
def Finishes (accept : S → Prop) (c : κ × S) : Prop :=
  ∃ label s, G.scanner.flush c.1 = some label ∧ label.toList.foldlM G.act c.2 = some s ∧ accept s

variable {G}

variable (hG : G.scanner.Late)
include hG

/-- **Viability reaches back along a chunk.**  The first symbol still to be
emitted is a head now, and the consumer takes it. -/
theorem viable_of_reads {c c' : κ × S} {w : List ι} (h : G.Reads c w c') : G.Viable c := by
  obtain ⟨em, hrun, hact, hviable⟩ := h
  cases em with
  | nil =>
    obtain ⟨t, hhead, htaken⟩ := hviable
    have hsame : c.2 = c'.2 := Option.some.inj hact
    exact ⟨t, hhead.of_silent hrun, hsame ▸ htaken⟩
  | cons t em =>
    refine ⟨t, hG.head_of_run hrun, ?_⟩
    rw [List.foldlM_cons, Option.bind_eq_bind, Option.bind_eq_some_iff] at hact
    obtain ⟨s, hs, -⟩ := hact
    rw [hs]
    rfl

/-- **A filter in the middle of a chunk adds nothing.** -/
theorem reads_append {c c' : κ × S} {v w : List ι} :
    G.Reads c (v ++ w) c' ↔ ∃ mid, G.Reads c v mid ∧ G.Reads mid w c' := by
  constructor
  · rintro ⟨em, hrun, hact, hviable⟩
    obtain ⟨k, em₁, em₂, hv, hw, rfl⟩ := G.scanner.run_append.mp hrun
    rw [List.foldlM_append, Option.bind_eq_bind, Option.bind_eq_some_iff] at hact
    obtain ⟨s, hs, hact⟩ := hact
    have hrest : G.Reads (k, s) w c' := ⟨em₂, hw, hact, hviable⟩
    exact ⟨(k, s), ⟨em₁, hv, hs, viable_of_reads hG hrest⟩, hrest⟩
  · rintro ⟨mid, ⟨em₁, hv, hs, -⟩, em₂, hw, hact, hviable⟩
    refine ⟨em₁ ++ em₂, G.scanner.run_append.mpr ⟨mid.1, em₁, em₂, hv, hw, rfl⟩, ?_, hviable⟩
    rw [List.foldlM_append, Option.bind_eq_bind, hs]
    exact hact

/-- **Only the concatenation of the chunks matters.** -/
theorem feeds_iff {c c' : κ × S} {ws : List (List ι)} (hne : ws ≠ []) :
    G.Feeds c ws c' ↔ G.Reads c ws.flatten c' := by
  induction ws generalizing c with
  | nil => exact absurd rfl hne
  | cons w ws ih =>
    rw [List.flatten_cons, reads_append hG]
    cases ws with
    | nil =>
      constructor
      · rintro ⟨mid, hread, rfl⟩
        obtain ⟨em, hrun, hact, hviable⟩ := hread
        exact ⟨c', ⟨em, hrun, hact, hviable⟩, [], rfl, rfl, hviable⟩
      · rintro ⟨mid, hread, em, hrun, hact, -⟩
        obtain ⟨hk, rfl⟩ := Prod.mk.inj (Option.some.inj hrun)
        exact ⟨mid, hread, Prod.ext hk.symm (Option.some.inj hact).symm⟩
    | cons w' ws =>
      constructor
      · rintro ⟨mid, hread, hfeed⟩
        exact ⟨mid, hread, (ih (List.cons_ne_nil w' ws)).mp hfeed⟩
      · rintro ⟨mid, hread, hrest⟩
        exact ⟨mid, hread, (ih (List.cons_ne_nil w' ws)).mpr hrest⟩

/-- **Where chunks end does not matter**, as long as none is empty. -/
theorem feeds_congr {c c' : κ × S} {ws ws' : List (List ι)} (hflat : ws.flatten = ws'.flatten)
    (hws : ∀ w ∈ ws, w ≠ []) (hws' : ∀ w ∈ ws', w ≠ []) :
    G.Feeds c ws c' ↔ G.Feeds c ws' c' := by
  have hnil : ∀ {vs : List (List ι)}, (∀ w ∈ vs, w ≠ []) → vs.flatten = [] → vs = [] := by
    intro vs hvs hempty
    refine List.eq_nil_iff_forall_not_mem.mpr fun w hw => ?_
    exact hvs w hw (List.flatten_eq_nil_iff.mp hempty w hw)
  by_cases hempty : ws.flatten = []
  · rw [hnil hws hempty, hnil hws' (hflat ▸ hempty)]
  · have hne : ws ≠ [] := by
      rintro rfl
      exact hempty rfl
    have hne' : ws' ≠ [] := by
      rintro rfl
      exact hempty hflat
    rw [feeds_iff hG hne, feeds_iff hG hne', hflat]

/-- **What can be finished is never refused.**  Reading chunk by chunk, filters
included, and then finishing, is reading the whole input and finishing. -/
theorem exists_feeds_finishes_iff {accept : S → Prop} {c : κ × S} {ws : List (List ι)}
    (hws : ∀ w ∈ ws, w ≠ []) :
    (∃ c', G.Feeds c ws c' ∧ G.Finishes accept c') ↔
      ∃ k s em, G.scanner.run c.1 ws.flatten = some (k, em) ∧ em.foldlM G.act c.2 = some s ∧
        G.Finishes accept (k, s) := by
  rcases List.eq_nil_or_concat ws with rfl | ⟨ws', w, hconcat⟩
  · constructor
    · rintro ⟨c', rfl, hfinish⟩
      exact ⟨c'.1, c'.2, [], rfl, rfl, hfinish⟩
    · rintro ⟨k, s, em, hrun, hact, hfinish⟩
      obtain ⟨rfl, rfl⟩ := Prod.mk.inj (Option.some.inj hrun)
      obtain rfl : c.2 = s := Option.some.inj hact
      exact ⟨c, rfl, hfinish⟩
  · have hmem : w ∈ ws := by simp [hconcat]
    have hflat : ws.flatten ≠ [] := by
      intro hnil
      exact hws w hmem (List.flatten_eq_nil_iff.mp hnil w hmem)
    simp only [feeds_iff hG (List.ne_nil_of_mem hmem)]
    constructor
    · rintro ⟨c', ⟨em, hrun, hact, -⟩, hfinish⟩
      exact ⟨c'.1, c'.2, em, hrun, hact, hfinish⟩
    · rintro ⟨k, s, em, hrun, hact, label, s', hflush, hlabel, haccept⟩
      refine ⟨(k, s), ⟨em, hrun, hact, ?_⟩, label, s', hflush, hlabel, haccept⟩
      cases label with
      | none => exact absurd hflush (hG.flush_of_run hflat hrun)
      | some t =>
        refine ⟨t, Transducer.Head.of_flush hflush, ?_⟩
        rw [Option.toList_some, List.foldlM_cons, Option.bind_eq_bind,
          Option.bind_eq_some_iff] at hlabel
        obtain ⟨s₁, hs₁, -⟩ := hlabel
        rw [hs₁]
        rfl

end LookAhead
