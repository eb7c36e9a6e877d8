import Mathlib.Data.List.Infix
import GreatGramma.Library.Traversal

/-!
# The regex profile

The profile admits no `(?...)` constructs, no negated classes and no assertions.
`unsupported_feature` looks for them before a pattern is compiled: for the assertions it asks
the parser of `regex-syntax` for the look-set, and for the others it searches the text of the
pattern for the characters that they are written with.

## Text and syntax

Text is not syntax.  A negated class of the POSIX kind, `[[:^alpha:]]`, is written with none
of these characters, so it goes through.  And the characters may stand next to each other
without being such a construct: in `\(?` the parenthesis is escaped and the question mark
makes it optional, and the pattern is refused.  Nor is the look-set the pattern's own: it is
that of the translated pattern, and in `(^a){0}b` the assertion does not survive.

## The parser

The parser is not part of this repository.  Its syntax trees are given here as far as they
can be written down, each node with its spelling.  What is relied on of it is that the text it
has parsed is the spelling of the tree, unless the pattern has a `(?...)` construct, and then the
construct is in the text (`PatternParser.Correct`).

## How far the search is right

Every construct but the POSIX classes and the assertions shows its mark in the spelling
(`Ast.mark_occurs`), by induction on the tree.  So everything but these is found
(`unsupportedFeature_found`), and for an assertion it depends on whether the look-set tells of it.
Where the search goes wrong is then stated exactly (`unsupportedFeature_exact_iff`), with one
pattern for each of the two ways.
-/

namespace GreatGramma

/-! ## Syntax trees -/

/-- A literal, as it is spelled. -/
inductive Literal where
  | verbatim (c : Char)
  | escaped (c : Char)
  | octal (digits : List Char)
  | hexFixed (kind : Char) (digits : List Char)
  | hexBrace (kind : Char) (digits : List Char)
  deriving DecidableEq

inductive AssertionKind where
  | startLine
  | endLine
  | startText
  | endText
  | wordBoundary
  | notWordBoundary
  | wordBoundaryStart
  | wordBoundaryEnd
  | wordBoundaryStartAngle
  | wordBoundaryEndAngle
  | wordBoundaryStartHalf
  | wordBoundaryEndHalf
  deriving DecidableEq

inductive ClassPerlKind where
  | digit
  | space
  | word
  deriving DecidableEq

inductive GroupKind where
  | captureIndex
  | captureName (startsWithP : Bool) (name : List Char)
  | nonCapturing (flags : List Char)
  deriving DecidableEq

/-- The operator of a repetition; a counted one with its upper bound. -/
inductive RepetitionKind where
  | zeroOrOne
  | zeroOrMore
  | oneOrMore
  | range (spelling : List Char) (maximum : Option ℕ)
  deriving DecidableEq

inductive ClassSetBinaryOpKind where
  | intersection
  | difference
  | symmetricDifference
  deriving DecidableEq

/-- What a bracketed class is made of; a union of items is put together two by two. -/
inductive ClassSet where
  | empty
  | literal (literal : Literal)
  | range (start last : Literal)
  | ascii (negated : Bool) (name : List Char)
  | unicode (negated : Bool) (name : List Char)
  | perl (negated : Bool) (kind : ClassPerlKind)
  | bracketed (negated : Bool) (set : ClassSet)
  | union (first rest : ClassSet)
  | binaryOp (kind : ClassSetBinaryOpKind) (lhs rhs : ClassSet)
  deriving DecidableEq

/-- A regular expression; concatenations and alternations are put together two by two. -/
inductive Ast where
  | empty
  | flags (flags : List Char)
  | literal (literal : Literal)
  | dot
  | assertion (kind : AssertionKind)
  | classUnicode (negated : Bool) (name : List Char)
  | classPerl (negated : Bool) (kind : ClassPerlKind)
  | classBracketed (negated : Bool) (set : ClassSet)
  | repetition (ast : Ast) (op : RepetitionKind) (greedy : Bool)
  | group (kind : GroupKind) (ast : Ast)
  | alternation (first rest : Ast)
  | concat (first rest : Ast)
  deriving DecidableEq

/-! ## Spellings -/

def Literal.text : Literal → List Char
  | .verbatim c => [c]
  | .escaped c => ['\\', c]
  | .octal digits => '\\' :: digits
  | .hexFixed kind digits => '\\' :: kind :: digits
  | .hexBrace kind digits => '\\' :: kind :: '{' :: digits ++ ['}']

def AssertionKind.text : AssertionKind → List Char
  | .startLine => ['^']
  | .endLine => ['$']
  | .startText => "\\A".toList
  | .endText => "\\z".toList
  | .wordBoundary => "\\b".toList
  | .notWordBoundary => "\\B".toList
  | .wordBoundaryStart => "\\b{start}".toList
  | .wordBoundaryEnd => "\\b{end}".toList
  | .wordBoundaryStartAngle => "\\<".toList
  | .wordBoundaryEndAngle => "\\>".toList
  | .wordBoundaryStartHalf => "\\b{start-half}".toList
  | .wordBoundaryEndHalf => "\\b{end-half}".toList

def ClassPerlKind.text (negated : Bool) : ClassPerlKind → List Char
  | .digit => if negated then ['\\', 'D'] else ['\\', 'd']
  | .space => if negated then ['\\', 'S'] else ['\\', 's']
  | .word => if negated then ['\\', 'W'] else ['\\', 'w']

def unicodeText (negated : Bool) (name : List Char) : List Char :=
  '\\' :: (if negated then 'P' else 'p') :: name

def bracketText (negated : Bool) (content : List Char) : List Char :=
  (if negated then ['[', '^'] else ['[']) ++ content ++ [']']

def ClassSetBinaryOpKind.text : ClassSetBinaryOpKind → List Char
  | .intersection => ['&', '&']
  | .difference => ['-', '-']
  | .symmetricDifference => ['~', '~']

def RepetitionKind.text : RepetitionKind → List Char
  | .zeroOrOne => ['?']
  | .zeroOrMore => ['*']
  | .oneOrMore => ['+']
  | .range spelling _ => spelling

def GroupKind.text : GroupKind → List Char
  | .captureIndex => ['(']
  | .captureName startsWithP name =>
    ['(', '?'] ++ (if startsWithP then ['P', '<'] else ['<']) ++ name ++ ['>']
  | .nonCapturing flags => ['(', '?'] ++ flags ++ [':']

def ClassSet.text : ClassSet → List Char
  | .empty => []
  | .literal value => value.text
  | .range start last => start.text ++ ['-'] ++ last.text
  | .ascii negated name => (if negated then ['[', ':', '^'] else ['[', ':']) ++ name ++ [':', ']']
  | .unicode negated name => unicodeText negated name
  | .perl negated kind => kind.text negated
  | .bracketed negated set => bracketText negated set.text
  | .union first rest => first.text ++ rest.text
  | .binaryOp kind lhs rhs => lhs.text ++ kind.text ++ rhs.text

def Ast.text : Ast → List Char
  | .empty => []
  | .flags value => ['(', '?'] ++ value ++ [')']
  | .literal value => value.text
  | .dot => ['.']
  | .assertion kind => kind.text
  | .classUnicode negated name => unicodeText negated name
  | .classPerl negated kind => kind.text negated
  | .classBracketed negated set => bracketText negated set.text
  | .repetition ast op greedy => ast.text ++ op.text ++ (if greedy then [] else ['?'])
  | .group kind ast => kind.text ++ ast.text ++ [')']
  | .alternation first rest => first.text ++ ['|'] ++ rest.text
  | .concat first rest => first.text ++ rest.text

/-! ## Unsupported constructs -/

/-- The constructs outside the profile. -/
inductive Construct where
  | flags
  | assertion
  | negatedBracket
  | negatedPerl (kind : ClassPerlKind)
  | negatedUnicode
  | negatedPosix
  deriving DecidableEq

def ClassSet.constructs : ClassSet → List Construct
  | .ascii true _ => [.negatedPosix]
  | .unicode true _ => [.negatedUnicode]
  | .perl true kind => [.negatedPerl kind]
  | .bracketed true set => .negatedBracket :: set.constructs
  | .bracketed false set => set.constructs
  | .union first rest => first.constructs ++ rest.constructs
  | .binaryOp _ lhs rhs => lhs.constructs ++ rhs.constructs
  | _ => []

/-- The constructs of a pattern that are outside the profile. -/
def Ast.constructs : Ast → List Construct
  | .flags _ => [.flags]
  | .assertion _ => [.assertion]
  | .classUnicode true _ => [.negatedUnicode]
  | .classPerl true kind => [.negatedPerl kind]
  | .classBracketed true set => .negatedBracket :: set.constructs
  | .classBracketed false set => set.constructs
  | .repetition ast _ _ => ast.constructs
  | .group .captureIndex ast => ast.constructs
  | .group _ ast => .flags :: ast.constructs
  | .alternation first rest => first.constructs ++ rest.constructs
  | .concat first rest => first.constructs ++ rest.constructs
  | _ => []

/-- The look-set is not empty.  It is that of the translated pattern, where nothing is left of
what is repeated at most zero times. -/
def Ast.looks : Ast → Bool
  | .assertion _ => true
  | .repetition _ (.range _ (some 0)) _ => false
  | .repetition ast _ _ => ast.looks
  | .group _ ast => ast.looks
  | .alternation first rest => first.looks || rest.looks
  | .concat first rest => first.looks || rest.looks
  | _ => false

/-! ## The filter -/

/-- `str::contains`. -/
def containsText (text needle : List Char) : Bool := decide (needle <:+: text)

/-- `unsupported_feature`.  `lookSetIsEmpty` parses a pattern with Unicode and UTF-8 off, and
tells whether its look-set is empty. -/
def unsupportedFeature (lookSetIsEmpty : String → Option Bool) (pattern : String) :
    Option String :=
  if containsText pattern.toList ['(', '?'] then some "lookaround or inline flags"
  else if containsText pattern.toList ['[', '^'] || containsText pattern.toList ['\\', 'P', '{']
      || containsText pattern.toList ['\\', 'D'] || containsText pattern.toList ['\\', 'S']
      || containsText pattern.toList ['\\', 'W'] then
    some "complement character classes"
  else if lookSetIsEmpty pattern = some false then some "anchors or boundary assertions"
  else none

/-! ## What the search finds -/

/-- The characters that a construct begins with, where the search looks for them. -/
def Construct.mark : Construct → Option (List Char)
  | .flags => some ['(', '?']
  | .negatedBracket => some ['[', '^']
  | .negatedPerl kind => some (kind.text true)
  | .assertion | .negatedUnicode | .negatedPosix => none

/-- The characters occur in the text that the filter searches for. -/
def Mentions (text : List Char) : Prop :=
  ['(', '?'] <:+: text ∨ ['[', '^'] <:+: text ∨ ['\\', 'P', '{'] <:+: text ∨
    ['\\', 'D'] <:+: text ∨ ['\\', 'S'] <:+: text ∨ ['\\', 'W'] <:+: text

theorem unsupportedFeature_isSome {lookSetIsEmpty : String → Option Bool} {pattern : String} :
    (unsupportedFeature lookSetIsEmpty pattern).isSome = true ↔
      Mentions pattern.toList ∨ lookSetIsEmpty pattern = some false := by
  unfold unsupportedFeature Mentions
  simp only [containsText, Bool.or_eq_true, decide_eq_true_eq]
  split_ifs with hgroup hclass hlook
  · exact iff_of_true rfl (Or.inl (Or.inl hgroup))
  · refine iff_of_true rfl (Or.inl (Or.inr ?_))
    tauto
  · exact iff_of_true rfl (Or.inr hlook)
  · refine iff_of_false Bool.false_ne_true ?_
    tauto

theorem occurs_left {m a b : List Char} (h : m <:+: a) : m <:+: a ++ b :=
  h.trans (List.prefix_append a b).isInfix

theorem occurs_right {m a b : List Char} (h : m <:+: b) : m <:+: a ++ b :=
  h.trans (List.suffix_append a b).isInfix

/-- A negated class is written with its mark, and a class contains what its set does. -/
theorem bracket_occurs {m content : List Char} {negated : Bool} (h : m <:+: content) :
    m <:+: bracketText negated content :=
  occurs_left (occurs_right h)

theorem negatedBracket_occurs (content : List Char) : ['[', '^'] <:+: bracketText true content :=
  occurs_left (List.prefix_append ['[', '^'] content).isInfix

/-- **A set shows its constructs.** -/
theorem ClassSet.mark_occurs {set : ClassSet} {c : Construct} (hc : c ∈ set.constructs)
    {m : List Char} (hm : c.mark = some m) : m <:+: set.text := by
  induction set with
  | empty => cases hc
  | literal _ => cases hc
  | range _ _ => cases hc
  | ascii negated name =>
    cases negated with
    | false => cases hc
    | true =>
      rw [List.mem_singleton.mp hc] at hm
      cases hm
  | unicode negated name =>
    cases negated with
    | false => cases hc
    | true =>
      rw [List.mem_singleton.mp hc] at hm
      cases hm
  | perl negated kind =>
    cases negated with
    | false => cases hc
    | true =>
      rw [List.mem_singleton.mp hc] at hm
      obtain rfl := Option.some_inj.mp hm
      exact List.infix_rfl
  | bracketed negated set ih =>
    cases negated with
    | false => exact bracket_occurs (ih hc)
    | true =>
      rcases List.mem_cons.mp hc with rfl | hset
      · obtain rfl := Option.some_inj.mp hm
        exact negatedBracket_occurs set.text
      · exact bracket_occurs (ih hset)
  | union first rest ihFirst ihRest =>
    rcases List.mem_append.mp hc with hfirst | hrest
    · exact occurs_left (ihFirst hfirst)
    · exact occurs_right (ihRest hrest)
  | binaryOp kind lhs rhs ihLhs ihRhs =>
    rcases List.mem_append.mp hc with hlhs | hrhs
    · exact occurs_left (occurs_left (ihLhs hlhs))
    · exact occurs_right (ihRhs hrhs)

/-- **A pattern shows its constructs**, but for assertions, Unicode classes and the POSIX
kind. -/
theorem Ast.mark_occurs {ast : Ast} {c : Construct} (hc : c ∈ ast.constructs) {m : List Char}
    (hm : c.mark = some m) : m <:+: ast.text := by
  induction ast with
  | empty => cases hc
  | literal _ => cases hc
  | dot => cases hc
  | flags flags =>
    rw [List.mem_singleton.mp hc] at hm
    obtain rfl := Option.some_inj.mp hm
    exact occurs_left (List.prefix_append ['(', '?'] flags).isInfix
  | assertion kind =>
    rw [List.mem_singleton.mp hc] at hm
    cases hm
  | classUnicode negated name =>
    cases negated with
    | false => cases hc
    | true =>
      rw [List.mem_singleton.mp hc] at hm
      cases hm
  | classPerl negated kind =>
    cases negated with
    | false => cases hc
    | true =>
      rw [List.mem_singleton.mp hc] at hm
      obtain rfl := Option.some_inj.mp hm
      exact List.infix_rfl
  | classBracketed negated set =>
    cases negated with
    | false => exact bracket_occurs (ClassSet.mark_occurs hc hm)
    | true =>
      rcases List.mem_cons.mp hc with rfl | hset
      · obtain rfl := Option.some_inj.mp hm
        exact negatedBracket_occurs set.text
      · exact bracket_occurs (ClassSet.mark_occurs hset hm)
  | repetition ast op greedy ih => exact occurs_left (occurs_left (ih hc))
  | group kind ast ih =>
    have hinner : c ∈ ast.constructs → m <:+: (Ast.group kind ast).text := fun h =>
      occurs_left (occurs_right (ih h))
    cases kind with
    | captureIndex => exact hinner hc
    | captureName startsWithP name =>
      rcases List.mem_cons.mp hc with rfl | hast
      · obtain rfl := Option.some_inj.mp hm
        exact occurs_left (occurs_left (occurs_left (occurs_left
          (List.prefix_append ['(', '?'] _).isInfix)))
      · exact hinner hast
    | nonCapturing flags =>
      rcases List.mem_cons.mp hc with rfl | hast
      · obtain rfl := Option.some_inj.mp hm
        exact occurs_left (occurs_left (occurs_left (List.prefix_append ['(', '?'] _).isInfix))
      · exact hinner hast
  | alternation first rest ihFirst ihRest =>
    rcases List.mem_append.mp hc with hfirst | hrest
    · exact occurs_left (occurs_left (ihFirst hfirst))
    · exact occurs_right (ihRest hrest)
  | concat first rest ihFirst ihRest =>
    rcases List.mem_append.mp hc with hfirst | hrest
    · exact occurs_left (ihFirst hfirst)
    · exact occurs_right (ihRest hrest)

theorem Ast.assertion_mem_of_looks {ast : Ast} (h : ast.looks = true) :
    .assertion ∈ ast.constructs := by
  induction ast with
  | assertion _ => exact List.mem_singleton_self _
  | repetition ast op greedy ih =>
    cases op with
    | range spelling maximum =>
      cases maximum with
      | none => exact ih h
      | some maximum =>
        cases maximum with
        | zero => cases h
        | succ maximum => exact ih h
    | _ => exact ih h
  | group kind ast ih =>
    have hinner : .assertion ∈ ast.constructs := ih h
    cases kind with
    | captureIndex => exact hinner
    | captureName _ _ => exact List.mem_cons_of_mem _ hinner
    | nonCapturing _ => exact List.mem_cons_of_mem _ hinner
  | alternation first rest ihFirst ihRest =>
    exact List.mem_append.mpr ((Bool.or_eq_true_iff.mp h).imp ihFirst ihRest)
  | concat first rest ihFirst ihRest =>
    exact List.mem_append.mpr ((Bool.or_eq_true_iff.mp h).imp ihFirst ihRest)
  | _ => cases h

-- the converse fails: an assertion in what is never repeated
example : (Ast.repetition (.assertion .startLine) (.range "{0}".toList (some 0)) true).looks =
    false := rfl

/-! ## How far the search is right -/

/-- The parser of `regex-syntax`, with Unicode and UTF-8 off. -/
structure PatternParser where
  parse : String → Option Ast
  lookSetIsEmpty : String → Option Bool

/-- **What is relied on of the parser.**  A pattern without `(?...)` constructs is spelled as
its tree says, since nothing switches to the mode that ignores white space; a `(?...)`
construct is written so; Unicode classes are refused until a flag allows them; and the look-set
is that of the translated pattern. -/
structure PatternParser.Correct (parser : PatternParser) : Prop where
  spelled : ∀ pattern ast, parser.parse pattern = some ast → .flags ∉ ast.constructs →
    ast.text = pattern.toList
  opened : ∀ pattern ast, parser.parse pattern = some ast → .flags ∈ ast.constructs →
    ['(', '?'] <:+: pattern.toList
  unicode : ∀ pattern ast, parser.parse pattern = some ast → .negatedUnicode ∈ ast.constructs →
    .flags ∈ ast.constructs
  lookSet : ∀ pattern ast, parser.parse pattern = some ast →
    (parser.lookSetIsEmpty pattern = some false ↔ ast.looks = true)

/-- **Anything but a negated POSIX class or an assertion is found.** -/
theorem unsupportedFeature_found {parser : PatternParser} (hparser : parser.Correct)
    {pattern : String} {ast : Ast} (hparse : parser.parse pattern = some ast) {c : Construct}
    (hc : c ∈ ast.constructs) (hposix : c ≠ .negatedPosix) (hassertion : c ≠ .assertion) :
    (unsupportedFeature parser.lookSetIsEmpty pattern).isSome = true := by
  rw [unsupportedFeature_isSome]
  by_cases hflags : .flags ∈ ast.constructs
  · exact Or.inl (Or.inl (hparser.opened pattern ast hparse hflags))
  have hspelled := hparser.spelled pattern ast hparse hflags
  have hshown : ∀ m, c.mark = some m → m <:+: pattern.toList := fun m hm =>
    hspelled ▸ Ast.mark_occurs hc hm
  cases c with
  | flags => exact absurd hc hflags
  | assertion => exact absurd rfl hassertion
  | negatedBracket => exact Or.inl (Or.inr (Or.inl (hshown _ rfl)))
  | negatedPerl kind =>
    have hkind := hshown _ rfl
    cases kind with
    | digit => exact Or.inl (Or.inr (Or.inr (Or.inr (Or.inl hkind))))
    | space => exact Or.inl (Or.inr (Or.inr (Or.inr (Or.inr (Or.inl hkind)))))
    | word => exact Or.inl (Or.inr (Or.inr (Or.inr (Or.inr (Or.inr hkind)))))
  | negatedUnicode => exact absurd (hparser.unicode pattern ast hparse hc) hflags
  | negatedPosix => exact absurd rfl hposix

/-- **The filter is exact just when** the pattern has an unsupported construct that it looks
for in the right place, or it has none and the characters searched for do not occur in it, or it
has a negated POSIX class, or an assertion that is not left in the translated pattern, and they
do. -/
theorem unsupportedFeature_exact_iff {parser : PatternParser} (hparser : parser.Correct)
    {pattern : String} {ast : Ast} (hparse : parser.parse pattern = some ast) :
    ((unsupportedFeature parser.lookSetIsEmpty pattern).isSome = true ↔ ast.constructs ≠ []) ↔
      (∃ c ∈ ast.constructs, c ≠ .negatedPosix ∧ c ≠ .assertion) ∨ ast.looks = true ∨
        (ast.constructs = [] ∧ ¬ Mentions pattern.toList) ∨
        ((.negatedPosix ∈ ast.constructs ∨ .assertion ∈ ast.constructs) ∧
          Mentions pattern.toList) := by
  by_cases hother : ∃ c ∈ ast.constructs, c ≠ .negatedPosix ∧ c ≠ .assertion
  · obtain ⟨c, hc, hposix, hassertion⟩ := hother
    have hfound := unsupportedFeature_found hparser hparse hc hposix hassertion
    exact iff_of_true (iff_of_true hfound (List.ne_nil_of_mem hc))
      (Or.inl ⟨c, hc, hposix, hassertion⟩)
  have hlookSet := hparser.lookSet pattern ast hparse
  by_cases hlooks : ast.looks = true
  · have hfound := unsupportedFeature_isSome.mpr (Or.inr (hlookSet.mpr hlooks))
    have hne := List.ne_nil_of_mem (Ast.assertion_mem_of_looks hlooks)
    exact iff_of_true (iff_of_true hfound hne) (Or.inr (Or.inl hlooks))
  -- what is left: nothing but negated POSIX classes and assertions that are dropped
  have honly : ∀ c ∈ ast.constructs, c = .negatedPosix ∨ c = .assertion := fun c hc =>
    by_contra fun hne => hother ⟨c, hc, not_or.mp hne⟩
  have hfilter : (unsupportedFeature parser.lookSetIsEmpty pattern).isSome = true ↔
      Mentions pattern.toList :=
    unsupportedFeature_isSome.trans (or_iff_left (hlookSet.not.mpr hlooks))
  have hsome : ast.constructs ≠ [] ↔
      .negatedPosix ∈ ast.constructs ∨ .assertion ∈ ast.constructs := by
    refine ⟨fun hne => ?_, fun h => h.elim List.ne_nil_of_mem List.ne_nil_of_mem⟩
    obtain ⟨c, hc⟩ := List.exists_mem_of_ne_nil _ hne
    rcases honly c hc with rfl | rfl
    · exact Or.inl hc
    · exact Or.inr hc
  have hnone : ast.constructs = [] ↔
      ¬ (.negatedPosix ∈ ast.constructs ∨ .assertion ∈ ast.constructs) := by
    rw [← hsome, not_not]
  rw [hfilter, hsome, or_iff_right hother, or_iff_right hlooks, hnone]
  exact iff_comm.trans (iff_iff_and_or_not_and_not.trans or_comm)

/-- `[[:^alpha:]]`. -/
def negatedAlpha : Ast := .classBracketed false (.ascii true "alpha".toList)

/-- `\(?`. -/
def optionalParenthesis : Ast := .repetition (.literal (.escaped '(')) .zeroOrOne true

/-- A parser of the two patterns. -/
def twoPatterns : PatternParser where
  parse pattern :=
    if pattern = "[[:^alpha:]]" then some negatedAlpha
    else if pattern = "\\(?" then some optionalParenthesis
    else none
  lookSetIsEmpty pattern :=
    if pattern = "[[:^alpha:]]" ∨ pattern = "\\(?" then some true else none

theorem twoPatterns_cases {pattern : String} {ast : Ast}
    (h : twoPatterns.parse pattern = some ast) :
    (pattern = "[[:^alpha:]]" ∧ ast = negatedAlpha) ∨
      (pattern = "\\(?" ∧ ast = optionalParenthesis) := by
  simp only [twoPatterns] at h
  split_ifs at h with hfirst hsecond
  · exact Or.inl ⟨hfirst, (Option.some_inj.mp h).symm⟩
  · exact Or.inr ⟨hsecond, (Option.some_inj.mp h).symm⟩

theorem twoPatterns_correct : twoPatterns.Correct := by
  refine ⟨fun pattern ast h _ => ?_, fun pattern ast h => ?_, fun pattern ast h => ?_,
    fun pattern ast h => ?_⟩ <;> rcases twoPatterns_cases h with ⟨rfl, rfl⟩ | ⟨rfl, rfl⟩ <;>
    decide +kernel

/-- **The search misses a negated class, and refuses a literal.** -/
theorem unsupportedFeature_not_exact :
    twoPatterns.Correct ∧
      (twoPatterns.parse "[[:^alpha:]]" = some negatedAlpha ∧
        negatedAlpha.constructs = [.negatedPosix] ∧
        unsupportedFeature twoPatterns.lookSetIsEmpty "[[:^alpha:]]" = none) ∧
      (twoPatterns.parse "\\(?" = some optionalParenthesis ∧
        optionalParenthesis.constructs = [] ∧
        unsupportedFeature twoPatterns.lookSetIsEmpty "\\(?" =
          some "lookaround or inline flags") ∧
      ¬∀ pattern ast, twoPatterns.parse pattern = some ast →
        ((unsupportedFeature twoPatterns.lookSetIsEmpty pattern).isSome = true ↔
          ast.constructs ≠ []) := by
  refine ⟨twoPatterns_correct, by decide +kernel, by decide +kernel, fun hexact => ?_⟩
  have hmissed := (hexact "[[:^alpha:]]" negatedAlpha (by decide +kernel)).mpr (by decide +kernel)
  exact absurd hmissed (by decide +kernel)

theorem unsupportedFeature_exact_iff_twoPatterns :
    ¬((unsupportedFeature twoPatterns.lookSetIsEmpty "[[:^alpha:]]").isSome = true ↔
      negatedAlpha.constructs ≠ []) := by
  have hparse : twoPatterns.parse "[[:^alpha:]]" = some negatedAlpha := by decide +kernel
  have hcondition : ¬((∃ c ∈ negatedAlpha.constructs, c ≠ .negatedPosix ∧ c ≠ .assertion) ∨
      negatedAlpha.looks = true ∨
      (negatedAlpha.constructs = [] ∧ ¬ Mentions "[[:^alpha:]]".toList) ∨
      ((.negatedPosix ∈ negatedAlpha.constructs ∨ .assertion ∈ negatedAlpha.constructs) ∧
        Mentions "[[:^alpha:]]".toList)) := by
    unfold Mentions
    decide +kernel
  exact fun h => hcondition ((unsupportedFeature_exact_iff twoPatterns_correct hparse).mp h)

end GreatGramma
