import Mathlib.Data.List.Infix
import Mathlib.Tactic.Common

/-!
# Maximal munch

A partial automaton with labelled states cuts a word into lexemes: it takes the longest nonempty
prefix that ends in a labelled state, emits the label, and goes on with the rest.  To find that
prefix one may have to read far past it and come back.

## Two definitions

`Munch` and `Stuck` say this of an automaton: the first relates an input to the labels it is cut
into, and the second holds of an input some rest of which has no first lexeme.  An input is cut in
one way at most, and not cut if it gets stuck (`Munch.unique`, `Munch.not_stuck`).  The same can be
said of any relation between words and labels, with no automaton in it (`Cuts`), and an automaton
that accepts what the relation says cuts as the relation does (`munch_iff_cuts`).

## Without coming back

An automaton whose labels are never lost, where every transition from a labelled state leads to a
labelled state, needs no coming back.  There the longest prefix is everything that can be read at
all, so one symbol that does not fit tells where the lexeme ends: `eager` cuts by that rule alone,
and cuts as maximal munch does (`eager_some_iff`, `eager_none_iff`).
-/

/-- A partial automaton with labels on some of its states. -/
@[ext]
structure LabelledDfa (σ α τ : Type*) where
  start : σ
  step : σ → α → Option σ
  label : σ → Option τ

namespace LabelledDfa

variable {σ α τ : Type*} (M : LabelledDfa σ α τ)

/-- The state after a word. -/
def walk : σ → List α → Option σ
  | q, [] => some q
  | q, a :: w => (M.step q a).bind fun q' => walk q' w

@[simp] theorem walk_nil (q : σ) : M.walk q [] = some q := rfl

@[simp] theorem walk_cons (q : σ) (a : α) (w : List α) :
    M.walk q (a :: w) = (M.step q a).bind fun q' => M.walk q' w := rfl

theorem walk_append (q : σ) (v w : List α) :
    M.walk q (v ++ w) = (M.walk q v).bind fun q' => M.walk q' w := by
  induction v generalizing q with
  | nil => rfl
  | cons a v ih =>
    rw [List.cons_append, walk_cons, walk_cons, Option.bind_assoc]
    simp only [ih]

/-- The automaton accepts a word with a label. -/
def Accepts (w : List α) (t : τ) : Prop :=
  ∃ q, M.walk M.start w = some q ∧ M.label q = some t

/-! ## Cutting -/

/-- The first lexeme of an input: its longest nonempty accepted prefix. -/
structure FirstLexeme (input lexeme : List α) (t : τ) : Prop where
  isPrefix : lexeme <+: input
  nonempty : lexeme ≠ []
  accepts : M.Accepts lexeme t
  longest : ∀ other t', other <+: input → other ≠ [] → M.Accepts other t' →
    other.length ≤ lexeme.length

/-- **Maximal munch**: the labels of the lexemes that the input is cut into. -/
inductive Munch : List α → List τ → Prop
  | done : Munch [] []
  | next {lexeme rest : List α} {t : τ} {tokens : List τ}
      (first : M.FirstLexeme (lexeme ++ rest) lexeme t) (later : Munch rest tokens) :
      Munch (lexeme ++ rest) (t :: tokens)

/-- Maximal munch gets stuck: some rest of the input has no first lexeme. -/
inductive Stuck : List α → Prop
  | here {input : List α} (nonempty : input ≠ [])
      (none : ∀ lexeme t, lexeme <+: input → lexeme ≠ [] → ¬ M.Accepts lexeme t) : Stuck input
  | later {lexeme rest : List α} {t : τ} (first : M.FirstLexeme (lexeme ++ rest) lexeme t)
      (stuck : Stuck rest) : Stuck (lexeme ++ rest)

variable {M}

theorem Accepts.unique {w : List α} {t t' : τ} (h : M.Accepts w t) (h' : M.Accepts w t') :
    t = t' := by
  obtain ⟨q, hq, ht⟩ := h
  obtain ⟨q', hq', ht'⟩ := h'
  obtain rfl := Option.some_inj.mp (hq.symm.trans hq')
  exact Option.some_inj.mp (ht.symm.trans ht')

/-- **An input has one first lexeme.** -/
theorem FirstLexeme.unique {input lexeme lexeme' : List α} {t t' : τ}
    (h : M.FirstLexeme input lexeme t) (h' : M.FirstLexeme input lexeme' t') :
    lexeme = lexeme' ∧ t = t' := by
  have hlength : lexeme.length = lexeme'.length :=
    le_antisymm (h'.longest lexeme t h.isPrefix h.nonempty h.accepts)
      (h.longest lexeme' t' h'.isPrefix h'.nonempty h'.accepts)
  have hsame : lexeme = lexeme' :=
    (List.prefix_of_prefix_length_le h.isPrefix h'.isPrefix hlength.le).eq_of_length hlength
  subst hsame
  exact ⟨rfl, h.accepts.unique h'.accepts⟩

/-- A word that is not empty has a first lexeme where it is cut. -/
theorem Munch.inv {input : List α} {tokens : List τ} (h : M.Munch input tokens)
    (hne : input ≠ []) : ∃ lexeme rest t later, input = lexeme ++ rest ∧
      tokens = t :: later ∧ M.FirstLexeme input lexeme t ∧ M.Munch rest later := by
  cases h with
  | done => exact absurd rfl hne
  | next first later => exact ⟨_, _, _, _, rfl, rfl, first, later⟩

/-- **The cut is unique.** -/
theorem Munch.unique {input : List α} {tokens tokens' : List τ} (h : M.Munch input tokens)
    (h' : M.Munch input tokens') : tokens = tokens' := by
  induction h generalizing tokens' with
  | done =>
    generalize hinput : ([] : List α) = input at h'
    cases h' with
    | done => rfl
    | next first later => exact absurd (List.append_eq_nil_iff.mp hinput.symm).1 first.nonempty
  | @next lexeme rest t tokens first later ih =>
    have hne : lexeme ++ rest ≠ [] := fun h => first.nonempty (List.append_eq_nil_iff.mp h).1
    obtain ⟨lexeme', rest', t', tokens', hsplit, rfl, first', later'⟩ := h'.inv hne
    obtain ⟨rfl, rfl⟩ := first.unique first'
    rw [ih (List.append_cancel_left hsplit ▸ later')]

/-- **An input that is cut is not stuck.** -/
theorem Munch.not_stuck {input : List α} {tokens : List τ} (h : M.Munch input tokens) :
    ¬ M.Stuck input := by
  induction h with
  | done =>
    intro hstuck
    generalize hinput : ([] : List α) = input at hstuck
    cases hstuck with
    | here nonempty => exact nonempty hinput.symm
    | later first => exact first.nonempty (List.append_eq_nil_iff.mp hinput.symm).1
  | @next lexeme rest t tokens first later ih =>
    intro hstuck
    generalize hinput : lexeme ++ rest = input at hstuck
    cases hstuck with
    | here nonempty none =>
      exact none lexeme t (hinput ▸ first.isPrefix) first.nonempty first.accepts
    | later first' stuck =>
      obtain ⟨rfl, -⟩ := first.unique (hinput ▸ first')
      exact ih (List.append_cancel_left hinput ▸ stuck)

/-! ## Cutting by a language -/

/-- The first lexeme of an input by the words that a relation labels, whatever labels them. -/
structure LongestPrefix (Labels : List α → τ → Prop) (input lexeme : List α) (t : τ) : Prop where
  isPrefix : lexeme <+: input
  nonempty : lexeme ≠ []
  labelled : Labels lexeme t
  longest : ∀ other t', other <+: input → other ≠ [] → Labels other t' →
    other.length ≤ lexeme.length

/-- Maximal munch by the words that a relation labels. -/
inductive Cuts (Labels : List α → τ → Prop) : List α → List τ → Prop
  | done : Cuts Labels [] []
  | next {lexeme rest : List α} {t : τ} {tokens : List τ}
      (first : LongestPrefix Labels (lexeme ++ rest) lexeme t) (later : Cuts Labels rest tokens) :
      Cuts Labels (lexeme ++ rest) (t :: tokens)

section
variable {Labels : List α → τ → Prop}

theorem firstLexeme_iff (h : ∀ w t, w ≠ [] → (M.Accepts w t ↔ Labels w t)) {input lexeme : List α}
    {t : τ} : M.FirstLexeme input lexeme t ↔ LongestPrefix Labels input lexeme t := by
  constructor
  · intro hfirst
    exact ⟨hfirst.isPrefix, hfirst.nonempty, (h _ _ hfirst.nonempty).mp hfirst.accepts,
      fun other t' hother hne hlabels => hfirst.longest other t' hother hne
        ((h _ _ hne).mpr hlabels)⟩
  · intro hlongest
    exact ⟨hlongest.isPrefix, hlongest.nonempty, (h _ _ hlongest.nonempty).mpr hlongest.labelled,
      fun other t' hother hne haccepts => hlongest.longest other t' hother hne
        ((h _ _ hne).mp haccepts)⟩

/-- **An automaton cuts by its language**, wherever it got it from. -/
theorem munch_iff_cuts (h : ∀ w t, w ≠ [] → (M.Accepts w t ↔ Labels w t)) {input : List α}
    {tokens : List τ} : M.Munch input tokens ↔ Cuts Labels input tokens := by
  constructor
  · intro hmunch
    induction hmunch with
    | done => exact .done
    | next first _ ih => exact .next ((firstLexeme_iff h).mp first) ih
  · intro hcuts
    induction hcuts with
    | done => exact .done
    | next first _ ih => exact .next ((firstLexeme_iff h).mpr first) ih

end

/-! ## Cutting without coming back -/

variable (M) in
/-- Cuts at the first symbol that does not fit.  The state is `none` between two lexemes;
a lexeme is over when no transition reads the next symbol, and that symbol starts the
next lexeme. -/
def eager : Option σ → List α → Option (List τ)
  | none, [] => some []
  | some q, [] => (M.label q).map fun t => [t]
  | none, a :: w => (M.step M.start a).bind fun q => eager (some q) w
  | some q, a :: w =>
    match M.step q a with
    | some q' => eager (some q') w
    | none =>
      match M.label q with
      | none => none
      | some t => ((M.step M.start a).bind fun q' => eager (some q') w).map (t :: ·)

variable (M) in
/-- **Labels are never lost**: from a labelled state only labelled states are reached. -/
def Closed : Prop :=
  ∀ q a q', M.step q a = some q' → (M.label q).isSome → (M.label q').isSome

theorem Closed.walk (hM : M.Closed) {q q' : σ} {w : List α} (h : M.walk q w = some q')
    (hq : (M.label q).isSome) : (M.label q').isSome := by
  induction w generalizing q with
  | nil =>
    cases h
    exact hq
  | cons a w ih =>
    obtain ⟨q₁, hstep, hrest⟩ := Option.bind_eq_some_iff.mp h
    exact ih hrest (hM q a q₁ hstep hq)

/-- **What an accepted prefix of a word that reads on looks like.**  It is not longer
than what can be read, and then everything that can be read is accepted. -/
theorem Closed.of_accepts (hM : M.Closed) {read rest other : List α} {q : σ} {t : τ}
    (hread : M.walk M.start read = some q)
    (hstop : ∀ a w, rest = a :: w → M.step q a = none)
    (hother : other <+: read ++ rest) (haccepts : M.Accepts other t) :
    other.length ≤ read.length ∧ (M.label q).isSome := by
  obtain ⟨q', hwalk, hlabel⟩ := haccepts
  have hlength : other.length ≤ read.length := by
    by_contra hlong
    obtain ⟨more, rfl⟩ := List.prefix_of_prefix_length_le (List.prefix_append read rest) hother
      (le_of_lt (not_le.mp hlong))
    cases more with
    | nil => exact hlong (by rw [List.append_nil])
    | cons a more =>
      have hhead : rest = a :: rest.tail := by
        obtain ⟨tail, htail⟩ := hother
        rw [List.append_assoc] at htail
        rw [← List.append_cancel_left htail]
        rfl
      rw [walk_append, hread, Option.bind_some, walk_cons, hstop a _ hhead] at hwalk
      cases hwalk
  refine ⟨hlength, ?_⟩
  obtain ⟨more, rfl⟩ :=
    List.prefix_of_prefix_length_le hother (List.prefix_append read rest) hlength
  rw [walk_append, hwalk, Option.bind_some] at hread
  exact hM.walk hread (hlabel ▸ rfl)

/-- A lexeme that cannot be read on is the first lexeme when its state has a label. -/
theorem Closed.firstLexeme (hM : M.Closed) {read rest : List α} {q : σ} {t : τ}
    (hread : M.walk M.start read = some q) (hne : read ≠ [])
    (hstop : ∀ a w, rest = a :: w → M.step q a = none) (hlabel : M.label q = some t) :
    M.FirstLexeme (read ++ rest) read t where
  isPrefix := List.prefix_append read rest
  nonempty := hne
  accepts := ⟨q, hread, hlabel⟩
  longest _ _ hother _ haccepts := (hM.of_accepts hread hstop hother haccepts).1

/-- When its state has none, the input has no first lexeme. -/
theorem Closed.stuck (hM : M.Closed) {read rest : List α} {q : σ}
    (hread : M.walk M.start read = some q) (hne : read ++ rest ≠ [])
    (hstop : ∀ a w, rest = a :: w → M.step q a = none) (hlabel : M.label q = none) :
    M.Stuck (read ++ rest) := by
  refine .here hne fun lexeme t hlexeme _ haccepts => ?_
  have hsome := (hM.of_accepts hread hstop hlexeme haccepts).2
  rw [hlabel] at hsome
  cases hsome

/-- **From the middle of a lexeme.**  `read` is what the lexeme has so far. -/
theorem eager_sound (hM : M.Closed) (hstart : M.label M.start = none) {read w : List α} {q : σ}
    (hread : M.walk M.start read = some q) (hne : read ≠ []) :
    match M.eager (some q) w with
    | some tokens => M.Munch (read ++ w) tokens
    | none => M.Stuck (read ++ w) := by
  induction w generalizing read q with
  | nil =>
    have hstop : ∀ a w, ([] : List α) = a :: w → M.step q a = none := fun _ _ h => by cases h
    have hinput : read ++ [] ≠ [] := by rwa [List.append_nil]
    cases hlabel : M.label q with
    | none =>
      simp only [eager, hlabel, Option.map_none]
      exact hM.stuck hread hinput hstop hlabel
    | some t =>
      simp only [eager, hlabel, Option.map_some]
      exact .next (hM.firstLexeme hread hne hstop hlabel) .done
  | cons a w ih =>
    cases hstep : M.step q a with
    | some q' =>
      have hread' : M.walk M.start (read ++ [a]) = some q' := by
        rw [walk_append, hread, Option.bind_some, walk_cons, hstep]
        rfl
      have hmore := ih hread' (List.append_ne_nil_of_right_ne_nil read (List.cons_ne_nil a []))
      rw [List.append_assoc, List.singleton_append] at hmore
      simpa only [eager, hstep] using hmore
    | none =>
      have hstop : ∀ b v, a :: w = b :: v → M.step q b = none := by
        rintro b v h
        obtain ⟨rfl, -⟩ := List.cons.inj h
        exact hstep
      have hinput : read ++ a :: w ≠ [] := fun h => hne (List.append_eq_nil_iff.mp h).1
      cases hlabel : M.label q with
      | none =>
        simp only [eager, hstep, hlabel]
        exact hM.stuck hread hinput hstop hlabel
      | some t =>
        -- the lexeme is over, and the symbol is read again
        have hfirst := hM.firstLexeme hread hne hstop hlabel
        cases hbegin : M.step M.start a with
        | none =>
          simp only [eager, hstep, hlabel, hbegin, Option.bind_none, Option.map_none]
          have hnil : M.walk M.start [] = some M.start := rfl
          refine .later hfirst (hM.stuck hnil (List.cons_ne_nil a w) ?_ hstart)
          rintro b v h
          obtain ⟨rfl, -⟩ := List.cons.inj h
          exact hbegin
        | some q' =>
          have hread' : M.walk M.start [a] = some q' := by
            rw [walk_cons, hbegin]
            rfl
          have hrest := ih hread' (List.cons_ne_nil a [])
          rw [List.singleton_append] at hrest
          simp only [eager, hstep, hlabel, hbegin, Option.bind_some]
          cases heager : M.eager (some q') w with
          | none =>
            rw [heager] at hrest
            exact .later hfirst hrest
          | some tokens =>
            rw [heager] at hrest
            exact .next hfirst hrest

/-- **Between two lexemes.** -/
theorem eager_start (hM : M.Closed) (hstart : M.label M.start = none) (w : List α) :
    match M.eager none w with
    | some tokens => M.Munch w tokens
    | none => M.Stuck w := by
  cases w with
  | nil => exact .done
  | cons a w =>
    cases hbegin : M.step M.start a with
    | none =>
      simp only [eager, hbegin, Option.bind_none]
      have hnil : M.walk M.start [] = some M.start := rfl
      refine hM.stuck hnil (List.cons_ne_nil a w) ?_ hstart
      rintro b v h
      obtain ⟨rfl, -⟩ := List.cons.inj h
      exact hbegin
    | some q =>
      have hread : M.walk M.start [a] = some q := by
        rw [walk_cons, hbegin]
        rfl
      have hrest := eager_sound hM hstart hread (List.cons_ne_nil a []) (w := w)
      rw [List.singleton_append] at hrest
      simpa only [eager, hbegin, Option.bind_some] using hrest

/-- **Cutting without coming back is maximal munch.** -/
theorem eager_some_iff (hM : M.Closed) (hstart : M.label M.start = none) {w : List α}
    {tokens : List τ} : M.eager none w = some tokens ↔ M.Munch w tokens := by
  have hsound := eager_start hM hstart w
  constructor
  · intro h
    rwa [h] at hsound
  · intro h
    cases heager : M.eager none w with
    | none =>
      rw [heager] at hsound
      exact absurd hsound h.not_stuck
    | some tokens' =>
      rw [heager] at hsound
      rw [h.unique hsound]

/-- **It fails exactly where maximal munch gets stuck.** -/
theorem eager_none_iff (hM : M.Closed) (hstart : M.label M.start = none) {w : List α} :
    M.eager none w = none ↔ M.Stuck w := by
  have hsound := eager_start hM hstart w
  constructor
  · intro h
    rwa [h] at hsound
  · intro h
    cases heager : M.eager none w with
    | none => rfl
    | some tokens =>
      rw [heager] at hsound
      exact absurd h hsound.not_stuck

end LabelledDfa
