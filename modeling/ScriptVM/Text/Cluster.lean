/-
# Clusters: the characters of a text as a reader sees them

A text is cut into extended clusters: a base character with its marks, a Hangul syllable, a pair of
regional indicators, a sequence of pictographs fused by joiners, a consonant conjunct, or the line
end `\r\n`.  The cut is made from left to right: `Context` remembers what the open cluster ends
with, and `Context.joins` says whether the next character still belongs to it.

Main statements: the clusters of a text, put together again, are the text (`flatten_split`), and no
cluster is empty (`ne_empty_of_mem_split`).  Reading tokens relies on nothing else: it takes any
`Cutting`, and the one into clusters is `Cluster.cutting`.
-/
import ScriptVM.Text.Ranges
import ScriptVM.Text.Cluster.Tables

namespace ScriptVM.Text.Cluster

/-! ## Character classes -/

/-- The part a character plays in the rules for cluster boundaries. -/
inductive BreakClass where
  /-- The carriage return. -/
  | carriageReturn
  /-- The line feed. -/
  | lineFeed
  /-- Any other control, format or separator. -/
  | control
  /-- A mark that attaches to what stands before it. -/
  | extender
  /-- An extender that links the consonants around it. -/
  | linker
  /-- The zero width non-joiner: an extender that interrupts a conjunct. -/
  | nonJoiner
  /-- The zero width joiner. -/
  | joiner
  /-- One half of a flag. -/
  | regional
  /-- A sign that attaches to what stands after it. -/
  | prepended
  /-- A spacing vowel sign. -/
  | spacingMark
  /-- A leading consonant of a Hangul syllable. -/
  | hangulLead
  /-- A vowel of a Hangul syllable. -/
  | hangulVowel
  /-- A trailing consonant of a Hangul syllable. -/
  | hangulTail
  /-- A precomposed Hangul syllable without a trailing consonant. -/
  | hangulOpen
  /-- A precomposed Hangul syllable with a trailing consonant. -/
  | hangulClosed
  /-- A pictograph. -/
  | pictograph
  /-- A consonant that takes part in conjuncts. -/
  | consonant
  /-- Every other character. -/
  | other
deriving DecidableEq, Repr

/-- The class of a precomposed Hangul syllable: each vowel opens a block of twenty-eight. -/
def hangulClass (n : Nat) : BreakClass :=
  if (n - 0xAC00) % 28 = 0 then .hangulOpen else .hangulClosed

/-- The class of a character beyond the controls and line ends. -/
def plainClass (n : Nat) : BreakClass :=
  if n = 0x200C then .nonJoiner
  else if n = 0x200D then .joiner
  else if inRanges extenders n then (if inRanges linkers n then .linker else .extender)
  else if inRanges spacingMarks n then .spacingMark
  else if inRanges prepended n then .prepended
  else if inRanges consonants n then .consonant
  else if inRanges pictographs n then .pictograph
  else if inRanges [(0x1F1E6, 0x1F1FF)] n then .regional
  else if inRanges [(0x1100, 0x115F), (0xA960, 0xA97C)] n then .hangulLead
  else if inRanges [(0x1160, 0x11A7), (0xD7B0, 0xD7C6), (0x16D63, 0x16D63), (0x16D67, 0x16D6A)] n
    then .hangulVowel
  else if inRanges [(0x11A8, 0x11FF), (0xD7CB, 0xD7FB)] n then .hangulTail
  else if inRanges [(0xAC00, 0xD7A3)] n then hangulClass n
  else .other

/-- The class of a character. -/
def classOf (c : Char) : BreakClass :=
  if c = '\r' then .carriageReturn
  else if c = '\n' then .lineFeed
  else if inRanges controls c.toNat then .control
  else plainClass c.toNat

/-! ## The open cluster -/

/-- How far the open cluster is on the way to a fused sequence of pictographs. -/
inductive Fusion where
  /-- It does not end in a pictograph with marks. -/
  | none
  /-- It ends in a pictograph with marks. -/
  | base
  /-- It ends in a pictograph with marks and a joiner. -/
  | joined
deriving DecidableEq, Repr

/-- How far the open cluster is on the way to a conjunct. -/
inductive Conjunct where
  /-- It does not end in a consonant with marks. -/
  | none
  /-- It ends in a consonant with marks, none of them a linker. -/
  | base
  /-- It ends in a consonant with marks, one of them a linker. -/
  | linked
deriving DecidableEq, Repr

/-- What the open cluster ends with. -/
structure Context where
  /-- The class of its last character. -/
  last : BreakClass
  /-- Its state as a sequence of pictographs. -/
  fusion : Fusion
  /-- Its state as a conjunct. -/
  conjunct : Conjunct
  /-- Whether its last character is the first half of a flag. -/
  halfFlag : Bool
deriving DecidableEq, Repr

namespace Context

/-- The fusion state once a character of class `next` follows. -/
def nextFusion (context : Context) : BreakClass → Fusion
  | .pictograph => .base
  | .extender | .linker | .nonJoiner => if context.fusion = .base then .base else .none
  | .joiner => if context.fusion = .base then .joined else .none
  | _ => .none

/-- The conjunct state once a character of class `next` follows. -/
def nextConjunct (context : Context) : BreakClass → Conjunct
  | .consonant => .base
  | .linker => if context.conjunct = .none then .none else .linked
  | .extender | .joiner => context.conjunct
  | _ => .none

/-- The context once a character of class `next` has joined the open cluster. -/
def extend (context : Context) (next : BreakClass) : Context where
  last := next
  fusion := context.nextFusion next
  conjunct := context.nextConjunct next
  halfFlag := next = .regional && !context.halfFlag

/-- The context of a cluster that starts with a character of class `first`. -/
def start (first : BreakClass) : Context :=
  extend ⟨.other, .none, .none, false⟩ first

/-- Whether a character of class `next` belongs to the open cluster. -/
def joins (context : Context) (next : BreakClass) : Bool :=
  match context.last, next with
  | .carriageReturn, .lineFeed => true
  | .carriageReturn, _ | .lineFeed, _ | .control, _ => false
  | _, .carriageReturn | _, .lineFeed | _, .control => false
  | .hangulLead, .hangulLead | .hangulLead, .hangulVowel => true
  | .hangulLead, .hangulOpen | .hangulLead, .hangulClosed => true
  | .hangulOpen, .hangulVowel | .hangulOpen, .hangulTail => true
  | .hangulVowel, .hangulVowel | .hangulVowel, .hangulTail => true
  | .hangulClosed, .hangulTail | .hangulTail, .hangulTail => true
  | _, .extender | _, .linker | _, .nonJoiner | _, .joiner | _, .spacingMark => true
  | .prepended, _ => true
  | _, .consonant => context.conjunct = .linked
  | _, .pictograph => context.fusion = .joined
  | _, .regional => context.halfFlag
  | _, _ => false

end Context

/-! ## Cutting a text -/

/-- A cut in progress: the finished clusters, and the open one with its last character first. -/
structure Cut where
  /-- The finished clusters in order. -/
  done : Array String
  /-- The characters of the open cluster, last one first. -/
  pending : List Char
  /-- What the open cluster ends with. -/
  context : Context

namespace Cut

/-- The text of the open cluster. -/
def openText (cut : Cut) : String :=
  String.ofList cut.pending.reverse

/-- Reads one more character. -/
def feed (cut : Cut) (c : Char) : Cut :=
  if cut.context.joins (classOf c) then
    { cut with pending := c :: cut.pending, context := cut.context.extend (classOf c) }
  else
    { done := cut.done.push cut.openText, pending := [c], context := .start (classOf c) }

/-- The characters read so far, in order. -/
def chars (cut : Cut) : List Char :=
  cut.done.toList.flatMap String.toList ++ cut.pending.reverse

@[simp] theorem chars_feed (cut : Cut) (c : Char) : (cut.feed c).chars = cut.chars ++ [c] := by
  unfold feed
  split <;> simp [chars, openText]

/-- Feeding characters loses none of them. -/
@[simp] theorem chars_foldl_feed (cut : Cut) (cs : List Char) :
    (cs.foldl feed cut).chars = cut.chars ++ cs := by
  induction cs generalizing cut with
  | nil => simp
  | cons c cs ih => simp [ih]

end Cut

/-- The clusters of a list of characters. -/
def splitChars : List Char → List String
  | [] => []
  | c :: cs =>
    let cut := cs.foldl Cut.feed ⟨#[], [c], .start (classOf c)⟩
    (cut.done.push cut.openText).toList

/-- The clusters of a text, in order. -/
def split (text : String) : List String :=
  splitChars text.toList

/-- The clusters of a list of characters, put together again, are the list. -/
theorem flatMap_splitChars (cs : List Char) : (splitChars cs).flatMap String.toList = cs := by
  cases cs with
  | nil => rfl
  | cons c cs =>
    have h := Cut.chars_foldl_feed ⟨#[], [c], .start (classOf c)⟩ cs
    simp only [Cut.chars, List.flatMap_nil, List.nil_append, List.reverse_cons,
      List.reverse_nil, List.singleton_append] at h
    simp [splitChars, Cut.openText, h]

/-- The clusters of a text, put together again, are the text. -/
theorem flatten_split (text : String) : (split text).flatMap String.toList = text.toList :=
  flatMap_splitChars text.toList

/-! ## No cluster is empty -/

/-- Every finished cluster of a cut has a character, and so has the open one. -/
def Cut.Full (cut : Cut) : Prop :=
  (∀ c ∈ cut.done, c ≠ "") ∧ cut.pending ≠ []

/-- The open cluster of such a cut is not empty. -/
theorem Cut.Full.openText_ne {cut : Cut} (h : cut.Full) : cut.openText ≠ "" := by
  intro hopen
  have hlist := congrArg String.toList hopen
  exact h.2 (by simpa [openText] using hlist)

/-- One more character opens a cluster or makes the open one longer. -/
theorem Cut.Full.feed {cut : Cut} (h : cut.Full) (c : Char) : (cut.feed c).Full := by
  unfold Cut.feed
  split
  · exact ⟨h.1, by simp⟩
  · refine ⟨fun d hd => ?_, by simp⟩
    rcases Array.mem_push.1 hd with hd | rfl
    · exact h.1 d hd
    · exact h.openText_ne

/-- So does any number of characters. -/
theorem Cut.Full.foldl_feed {cut : Cut} (h : cut.Full) (cs : List Char) :
    (cs.foldl Cut.feed cut).Full := by
  induction cs generalizing cut with
  | nil => exact h
  | cons c cs ih => exact ih (h.feed c)

/-- No cluster is empty. -/
theorem ne_empty_of_mem_split {source c : String} (h : c ∈ split source) : c ≠ "" := by
  unfold split at h
  cases hlist : source.toList with
  | nil => simp [hlist, splitChars] at h
  | cons d ds =>
    have hfull : Cut.Full (ds.foldl Cut.feed ⟨#[], [d], .start (classOf d)⟩) :=
      Cut.Full.foldl_feed ⟨by simp, by simp⟩ ds
    rw [hlist, splitChars, Array.mem_toList_iff] at h
    rcases Array.mem_push.1 h with h | rfl
    · exact hfull.1 c h
    · exact hfull.openText_ne

/-- The clusters of a text, joined, are the text. -/
theorem join_split (source : String) : String.join (split source) = source := by
  apply String.toList_injective
  rw [String.toList_join, flatten_split]

end ScriptVM.Text.Cluster

/-! ## Ways to cut a text -/

namespace ScriptVM.Text

/-- A way to cut texts into pieces that are not empty and, joined, are the text again. -/
structure Cutting where
  /-- The pieces of a text, in order. -/
  split : String → List String
  /-- Nothing is lost or moved. -/
  join_split (text : String) : String.join (split text) = text
  /-- Every piece has a character. -/
  ne_empty {text c : String} : c ∈ split text → c ≠ ""

/-- The cutting into clusters. -/
def Cluster.cutting : Cutting where
  split := split
  join_split := join_split
  ne_empty := ne_empty_of_mem_split

@[simp] theorem Cluster.split_cutting : cutting.split = split := rfl

end ScriptVM.Text
