/-
# The lines of a source

A line ends at a line feed, at a carriage return, or at both together as one cluster.  While a
source is read the line is counted along with the offset, through blanks, comments and texts in
quotes, so the line of an item says how many line ends there are in front of it
(`line_of_mem_scan`).

The text of a line is found another way: the whole source is cut at its line feeds, and a carriage
return is dropped where it stands right before one.  The two agree on which line is which as long as
no carriage return stands for itself (`Text.lineAt_eq`).
-/
import Mathlib.Data.List.DropRight
import ScriptVM.Proofs.Token.Tiling
import ScriptVM.Text.Line

namespace ScriptVM

open Text

/-! ## Places -/

/-- The pieces of a source, divided at a byte offset. -/
structure Text.Cutting.DividedAt (cut : Cutting) (source : String) (offset : Nat)
    (before after : List String) : Prop where
  /-- The two parts make up the source. -/
  split : cut.split source = before ++ after
  /-- The offset counts the bytes of the first part. -/
  offset : extentOf before = offset

/-- The clusters of a source, divided at a byte offset. -/
abbrev DividedAt : String → Nat → List String → List String → Prop :=
  Cluster.cutting.DividedAt

/-- A source is divided at an offset in one way only, since no piece is empty. -/
theorem Text.Cutting.DividedAt.unique {cut : Cutting} {source : String} {offset : Nat}
    {before before' after after' : List String} (h : cut.DividedAt source offset before after)
    (h' : cut.DividedAt source offset before' after') : before = before' := by
  -- Of two prefixes of the source one is a prefix of the other, and has as many bytes.
  have key : ∀ {front front' rest rest' : List String}, cut.split source = front ++ rest →
      cut.split source = front' ++ rest' → extentOf front = extentOf front' →
        front <+: front' → front = front' := by
    rintro front front' rest rest' - hsplit hextent ⟨more, rfl⟩
    cases more with
    | nil => rw [List.append_nil]
    | cons c more =>
      have hmem : c ∈ cut.split source := by simp [hsplit]
      have hne : c ≠ "" := cut.ne_empty hmem
      have hpos : 0 < c.utf8ByteSize :=
        Nat.pos_of_ne_zero fun hzero => hne (String.utf8ByteSize_eq_zero_iff.1 hzero)
      rw [extentOf_append, extentOf_cons] at hextent
      omega
  have hextent : extentOf before = extentOf before' := h.offset.trans h'.offset.symm
  have hsplit : before ++ after = before' ++ after' := h.split.symm.trans h'.split
  rcases List.prefix_or_prefix_of_prefix (List.prefix_append before after)
      (hsplit ▸ List.prefix_append before' after') with hlead | hlead
  · exact key h.split h'.split hextent hlead
  · exact (key h'.split h.split hextent.symm hlead).symm

/-- The line of a place: one more than the number of line ends in front of it. -/
def lineBehind (before : List String) : Nat :=
  1 + before.countP Cluster.isNewline

/-- The line that an item carries. -/
def ScanItem.line : ScanItem → Nat
  | .ok token => token.line
  | .error e => e.line

/-- The places of a source, with the right offsets and lines. -/
def Cursor.Within (cut : Cutting) (source : String) (cursor : Cursor) : Prop :=
  ∃ before, cut.DividedAt source cursor.offset before cursor.rest ∧ cursor.line = lineBehind before

/-! ## Counting -/

namespace Cursor

variable {cut : Cutting} {source : String}

/-- Reading starts at a place of the source. -/
theorem within_start (cut : Cutting) (source : String) :
    Within cut source ⟨0, 1, cut.split source⟩ :=
  ⟨[], ⟨rfl, rfl⟩, rfl⟩

/-- A place further on, with the bytes and the line ends of what lies in between. -/
theorem Within.further {cursor cursor' : Cursor} {between : List String}
    (h : cursor.Within cut source) (hrest : cursor.rest = between ++ cursor'.rest)
    (hoffset : cursor'.offset = cursor.offset + extentOf between)
    (hline : cursor'.line = cursor.line + between.countP Cluster.isNewline) :
    cursor'.Within cut source := by
  obtain ⟨before, ⟨hsplit, hextent⟩, hbehind⟩ := h
  refine ⟨before ++ between, ⟨?_, ?_⟩, ?_⟩
  · rw [hsplit, hrest, List.append_assoc]
  · rw [extentOf_append, hextent, hoffset]
  · rw [hline, hbehind, lineBehind, lineBehind, List.countP_append, Nat.add_assoc]

/-- The line moves on by the line ends that are skipped, those behind comments included. -/
theorem line_skip_add (comment : Bool) (offset line : Nat) (clusters : List String) :
    (skip comment offset line clusters).line +
        (skip comment offset line clusters).rest.countP Cluster.isNewline =
      line + clusters.countP Cluster.isNewline := by
  induction clusters generalizing comment offset line with
  | nil => rfl
  | cons c rest ih =>
    rw [skip]
    split
    · next hnewline =>
      rw [ih, List.countP_cons_of_pos hnewline]
      omega
    · next hnewline =>
      rw [List.countP_cons_of_neg hnewline]
      split
      · exact ih ..
      · split
        · exact ih ..
        · rw [List.countP_cons_of_neg hnewline]

/-- What is skipped leads to a place of the source. -/
theorem Within.skipBlanks {cursor : Cursor} (h : cursor.Within cut source) :
    cursor.skipBlanks.Within cut source := by
  obtain ⟨gap, hrest, hoffset, -⟩ := skip_gap false cursor.offset cursor.line cursor.rest
  have hline := line_skip_add false cursor.offset cursor.line cursor.rest
  have hcount := congrArg (List.countP Cluster.isNewline) hrest
  rw [List.countP_append] at hcount
  exact h.further hrest hoffset (by rw [Cursor.skipBlanks]; omega)

/-- So does a piece that is taken. -/
theorem Within.move {cursor : Cursor} {c : String} {tail : List String}
    (h : cursor.Within cut source) (hrest : cursor.rest = c :: tail) :
    (cursor.move (munch c tail)).Within cut source :=
  h.further (hrest.trans (taken_append_rest_munch c tail).symm) rfl rfl

@[simp] theorem line_item (cursor : Cursor) (m : Munch) : (cursor.item m).line = cursor.line := by
  unfold item
  split <;> rfl

/-- Every item that is read is read at a place of the source. -/
theorem exists_within_of_mem_items {bound : Nat} {cursor : Cursor} {done : Array ScanItem}
    {item : ScanItem} (h : cursor.Within cut source) (hmem : item ∈ items done bound cursor) :
    item ∈ done ∨ ∃ here : Cursor, here.Within cut source ∧ item.start = here.offset ∧
      item.line = here.line := by
  induction bound generalizing cursor done with
  | zero => exact .inl hmem
  | succ bound ih =>
    rw [items] at hmem
    dsimp only at hmem
    split at hmem
    · rcases Array.mem_push.1 hmem with hmem | rfl
      · exact .inl hmem
      · exact .inr ⟨_, h.skipBlanks, rfl, rfl⟩
    · next c tail hrest =>
      rcases ih (h.skipBlanks.move hrest) hmem with hmem | hmem
      · rcases Array.mem_push.1 hmem with hmem | rfl
        · exact .inl hmem
        · exact .inr ⟨_, h.skipBlanks, start_item _ _, line_item _ _⟩
      · exact .inr hmem

end Cursor

/-- Every item stands at a place of the source, and carries its line. -/
theorem Text.Cutting.exists_dividedAt_of_mem_scan {cut : Cutting} {source : String}
    {item : ScanItem} (h : item ∈ cut.scan source) :
    ∃ before after, cut.DividedAt source item.start before after ∧
      item.line = lineBehind before := by
  rcases Cursor.exists_within_of_mem_items (Cursor.within_start cut source)
      (Array.mem_toList_iff.1 h) with hdone | ⟨here, ⟨before, hdivided, hline⟩, hstart, hitem⟩
  · simp at hdone
  · exact ⟨before, here.rest, hstart ▸ hdivided, hitem.trans hline⟩

/-- **The line of an item counts the line ends in front of it**, wherever they are and whichever way
the source is cut, so for `scan` too. -/
theorem line_of_mem_scan {cut : Cutting} {source : String} {item : ScanItem}
    (h : item ∈ cut.scan source) :
    (∃ before after, cut.DividedAt source item.start before after) ∧
      ∀ before after, cut.DividedAt source item.start before after →
        item.line = 1 + before.countP fun c => c = "\n" || c = "\r" || c = "\r\n" := by
  obtain ⟨before, after, hdivided, hline⟩ := Cutting.exists_dividedAt_of_mem_scan h
  refine ⟨⟨before, after, hdivided⟩, fun before' after' hdivided' => ?_⟩
  rw [hdivided'.unique hdivided]
  exact hline

/-- Line ends of all kinds: in a text in quotes, behind a comment, and in a text that is not
closed. -/
def brokenLines : String :=
  "\"a\r\nb\" // c\r+ \"\n"

/-- The end of this source is on its fourth line. -/
theorem line_of_mem_scan_brokenLines :
    (.ok ⟨.eof, "", 16, 4⟩ : ScanItem) ∈ scan brokenLines ∧
      (∃ before after, DividedAt brokenLines 16 before after) ∧
      ∀ before after, DividedAt brokenLines 16 before after →
        4 = 1 + before.countP fun c => c = "\n" || c = "\r" || c = "\r\n" := by
  have hmem : (.ok ⟨.eof, "", 16, 4⟩ : ScanItem) ∈ scan brokenLines := by decide +kernel
  exact ⟨hmem, line_of_mem_scan hmem⟩

/-! ## Line ends among the clusters -/

namespace Text.Cluster

/-- The classes of the characters that end a line. -/
def BreakClass.endsLine (c : BreakClass) : Bool :=
  c = .carriageReturn || c = .lineFeed

theorem endsLine_ite {p : Prop} [Decidable p] {c d : BreakClass} (hc : c.endsLine = false)
    (hd : d.endsLine = false) : (if p then c else d).endsLine = false := by
  split <;> assumption

theorem endsLine_plainClass (n : Nat) : (plainClass n).endsLine = false := by
  unfold plainClass hangulClass
  repeat' apply endsLine_ite
  all_goals rfl

/-- Only a carriage return and a line feed are of a class that ends a line. -/
theorem endsLine_classOf (c : Char) : (classOf c).endsLine = (c = '\r' || c = '\n' : Bool) := by
  unfold classOf
  split
  · next h => simp [h, BreakClass.endsLine]
  · next hreturn =>
    split
    · next h => simp [h, BreakClass.endsLine]
    · next hfeed =>
      rw [decide_eq_false hreturn, decide_eq_false hfeed]
      split
      · rfl
      · exact endsLine_plainClass _

/-- A text that ends no line. -/
def Plain (cs : List Char) : Prop :=
  ∀ d ∈ cs, d ≠ '\r' ∧ d ≠ '\n'

/-- The open cluster of a cut, last character first: a line end, or a text that ends no line. -/
inductive Cut.Lined : List Char → BreakClass → Prop
  | plain {pending : List Char} {last : BreakClass} (h : Plain pending)
      (hlast : last.endsLine = false) : Lined pending last
  | carriageReturn : Lined ['\r'] .carriageReturn
  | lineFeed : Lined ['\n'] .lineFeed
  | both : Lined ['\n', '\r'] .lineFeed

theorem plain_cons {c : Char} {cs : List Char} (hc : (classOf c).endsLine = false) (h : Plain cs) :
    Plain (c :: cs) := by
  rw [endsLine_classOf] at hc
  exact List.forall_mem_cons.2 ⟨by simpa using hc, h⟩

/-- One character alone is a line end or ends no line. -/
theorem Cut.lined_single (c : Char) : Lined [c] (classOf c) := by
  cases hclass : (classOf c).endsLine with
  | false => exact .plain (plain_cons hclass (by simp [Plain])) hclass
  | true =>
    rw [endsLine_classOf] at hclass
    rcases Bool.or_eq_true_iff.1 hclass with hc | hc
    · obtain rfl := of_decide_eq_true hc
      exact .carriageReturn
    · obtain rfl := of_decide_eq_true hc
      exact .lineFeed

/-- Nothing joins a line end, but a line feed joins a carriage return. -/
theorem Cut.Lined.joins {context : Context} {pending : List Char} {c : Char}
    (h : Lined pending context.last) (hjoins : context.joins (classOf c) = true) :
    Lined (c :: pending) (classOf c) := by
  obtain ⟨last, fusion, conjunct, halfFlag⟩ := context
  dsimp only at h
  cases h with
  | plain h hlast =>
    have hclass : (classOf c).endsLine = false := by
      generalize classOf c = next at hjoins
      cases next <;> first | rfl | (cases last <;> simp_all [Context.joins, BreakClass.endsLine])
    exact .plain (plain_cons hclass h) hclass
  | carriageReturn =>
    have hclass : classOf c = .lineFeed := by
      generalize classOf c = next at hjoins
      cases next <;> simp_all [Context.joins]
    obtain rfl : c = '\n' := by
      have hends := endsLine_classOf c
      rw [hclass] at hends
      rcases Bool.or_eq_true_iff.1 hends.symm with hc | hc
      · obtain rfl := of_decide_eq_true hc
        cases hclass
      · exact of_decide_eq_true hc
    exact .both
  | lineFeed => simp [Context.joins] at hjoins
  | both => simp [Context.joins] at hjoins

/-- The clusters of a cut are line ends, or texts that end no line. -/
def Cut.Even (cut : Cut) : Prop :=
  (∀ c ∈ cut.done, isNewline c = true ∨ Plain c.toList) ∧ Lined cut.pending cut.context.last

/-- An open cluster is a line end, or ends no line, when it is finished. -/
theorem Cut.Lined.openText {cut : Cut} (h : Lined cut.pending cut.context.last) :
    isNewline cut.openText = true ∨ Plain cut.openText.toList := by
  unfold Cut.openText
  generalize cut.pending = pending, cut.context.last = last at h
  cases h with
  | plain h => exact .inr (by simpa [Plain] using h)
  | carriageReturn => exact .inl (by decide)
  | lineFeed => exact .inl (by decide)
  | both => exact .inl (by decide)

/-- One more character leaves the clusters even. -/
theorem Cut.Even.feed {cut : Cut} (h : cut.Even) (c : Char) : (cut.feed c).Even := by
  unfold Cut.feed
  split
  · next hjoins => exact ⟨h.1, h.2.joins hjoins⟩
  · refine ⟨fun d hd => ?_, lined_single c⟩
    rcases Array.mem_push.1 hd with hd | rfl
    · exact h.1 d hd
    · exact h.2.openText

/-- So does any number of characters. -/
theorem Cut.Even.foldl_feed {cut : Cut} (h : cut.Even) (cs : List Char) :
    (cs.foldl Cut.feed cut).Even := by
  induction cs generalizing cut with
  | nil => exact h
  | cons c cs ih => exact ih (h.feed c)

/-- **A cluster is a line end, or no part of it is one.** -/
theorem newline_or_plain {source c : String} (h : c ∈ split source) :
    isNewline c = true ∨ Plain c.toList := by
  unfold split at h
  cases hlist : source.toList with
  | nil => simp [hlist, splitChars] at h
  | cons d ds =>
    have heven : Cut.Even (ds.foldl Cut.feed ⟨#[], [d], .start (classOf d)⟩) :=
      Cut.Even.foldl_feed ⟨by simp, Cut.lined_single d⟩ ds
    rw [hlist, splitChars, Array.mem_toList_iff] at h
    rcases Array.mem_push.1 h with h | rfl
    · exact heven.1 c h
    · exact heven.2.openText

end Text.Cluster

/-! ## The text of a line -/

/-- The clusters of the line on which a source is divided, without its line end. -/
def lineAround (before after : List String) : List String :=
  before.rtakeWhile (!Cluster.isNewline ·) ++ after.takeWhile (!Cluster.isNewline ·)

namespace Text

open ScriptVM.Text.Cluster (Plain isNewline)

/-- Texts that end no line do not end one when they are put together. -/
theorem plain_flatMap {clusters : List String} (h : ∀ c ∈ clusters, Plain c.toList) :
    Plain (clusters.flatMap String.toList) := by
  intro d hd
  obtain ⟨c, hc, hd⟩ := List.mem_flatMap.1 hd
  exact h c hc d hd

/-- What ends no line is added to the open line. -/
theorem linesFrom_plain {cs : List Char} (h : Plain cs) (done : Array String)
    (pending rest : List Char) :
    linesFrom done pending (cs ++ rest) = linesFrom done (cs.reverse ++ pending) rest := by
  induction cs generalizing pending with
  | nil => rfl
  | cons c cs ih =>
    obtain ⟨hc, h⟩ := List.forall_mem_cons.1 h
    rw [List.cons_append, linesFrom, if_neg hc.2, ih h, List.reverse_cons, List.append_assoc]
    rfl

/-- A line that ends in no carriage return is finished as it is. -/
theorem endLine_plain {pending : List Char} (h : Plain pending) :
    endLine pending = pending.reverse := by
  unfold endLine
  split
  · exact absurd rfl (h _ List.mem_cons_self).1
  · rfl

/-- A line end other than a carriage return ends the open line. -/
theorem linesFrom_newline {c : String} (hc : isNewline c = true) (hlone : c ≠ "\r")
    {pending : List Char} (h : Plain pending) (done : Array String) (rest : List Char) :
    linesFrom done pending (c.toList ++ rest) =
      linesFrom (done.push (String.ofList pending.reverse)) [] rest := by
  have hcases : c = "\n" ∨ c = "\r\n" := by simpa [isNewline, hlone] using hc
  rcases hcases with rfl | rfl
  · show linesFrom done pending ('\n' :: rest) = _
    rw [linesFrom, if_pos rfl, endLine_plain h]
  · show linesFrom done pending ('\r' :: '\n' :: rest) = _
    rw [linesFrom, if_neg (by decide), linesFrom, if_pos rfl]
    rfl

/-- The lines that are finished stay as they are. -/
theorem getElem?_linesFrom {done : Array String} {i : Nat} (h : i < done.size)
    (pending cs : List Char) : (linesFrom done pending cs)[i]? = done[i]? := by
  have hpush : ∀ line, (done.push line)[i]? = done[i]? := fun line => by
    rw [Array.getElem?_push, if_neg (Nat.ne_of_lt h)]
  induction cs generalizing done pending with
  | nil =>
    rw [linesFrom]
    split
    · rfl
    · exact hpush _
  | cons c cs ih =>
    rw [linesFrom]
    split
    · have hlt : i < (done.push (String.ofList (endLine pending))).size := by
        rw [Array.size_push]
        omega
      rw [ih hlt _ fun line => by rw [Array.getElem?_push, if_neg (Nat.ne_of_lt hlt)]]
      exact hpush _
    · exact ih h _ hpush

/-- There are as many finished lines as line ends, and the open line is what follows the last. -/
theorem linesFrom_clusters {clusters : List String}
    (hclusters : ∀ c ∈ clusters, isNewline c = true ∨ Plain c.toList) (hlone : "\r" ∉ clusters) :
    ∃ done : Array String, done.size = clusters.countP isNewline ∧
      Plain ((clusters.rtakeWhile (!isNewline ·)).flatMap String.toList) ∧
      ∀ rest, linesFrom #[] [] (clusters.flatMap String.toList ++ rest) =
        linesFrom done ((clusters.rtakeWhile (!isNewline ·)).flatMap
          String.toList).reverse rest := by
  -- By induction on the clusters from the end: another line end finishes the open line, any other
  -- cluster makes it longer.
  induction clusters using List.reverseRecOn with
  | nil => exact ⟨#[], rfl, by simp [Plain], fun rest => rfl⟩
  | append_singleton clusters c ih =>
    obtain ⟨done, hsize, hplain, hlines⟩ := ih (fun d hd => hclusters d (by simp [hd]))
      fun hd => hlone (by simp [hd])
    have hread : ∀ rest, linesFrom #[] [] ((clusters ++ [c]).flatMap String.toList ++ rest) =
        linesFrom done ((clusters.rtakeWhile (!isNewline ·)).flatMap String.toList).reverse
          (c.toList ++ rest) := fun rest => by
      rw [← hlines, List.flatMap_append, List.append_assoc, List.flatMap_singleton]
    have hreverse : Plain ((clusters.rtakeWhile (!isNewline ·)).flatMap String.toList).reverse :=
      fun d hd => hplain d (List.mem_reverse.1 hd)
    cases hnewline : isNewline c with
    | true =>
      have hempty : (clusters ++ [c]).rtakeWhile (!isNewline ·) = [] :=
        List.rtakeWhile_concat_neg _ _ _ (by simp [hnewline])
      refine ⟨done.push (String.ofList
          ((clusters.rtakeWhile (!isNewline ·)).flatMap String.toList).reverse.reverse),
        ?_, ?_, fun rest => ?_⟩
      · rw [Array.size_push, hsize, List.countP_append, List.countP_cons_of_pos hnewline]
        rfl
      · simp [hempty, Plain]
      · have hc : c ≠ "\r" := fun hc => hlone (by simp [hc])
        rw [hread, linesFrom_newline hnewline hc hreverse, hempty]
        rfl
    | false =>
      have hc : Plain c.toList := (hclusters c (by simp)).resolve_left (by simp [hnewline])
      have hlonger : (clusters ++ [c]).rtakeWhile (!isNewline ·) =
          clusters.rtakeWhile (!isNewline ·) ++ [c] :=
        List.rtakeWhile_concat_pos _ _ _ (by simp [hnewline])
      refine ⟨done, ?_, ?_, fun rest => ?_⟩
      · rw [hsize, List.countP_append, List.countP_cons_of_neg (by simp [hnewline])]
        rfl
      · rw [hlonger, List.flatMap_append, List.flatMap_singleton]
        exact List.forall_mem_append.2 ⟨hplain, hc⟩
      · rw [hread, linesFrom_plain hc, hlonger, List.flatMap_append, List.reverse_append,
          List.flatMap_singleton]

/-- The line that is open goes on up to the next line end. -/
theorem getElem?_linesFrom_open {clusters : List String}
    (hclusters : ∀ c ∈ clusters, isNewline c = true ∨ Plain c.toList)
    (hlone : (clusters.dropWhile (!isNewline ·)).head? ≠ some "\r") {pending : List Char}
    (hpending : Plain pending) (done : Array String) :
    (linesFrom done pending (clusters.flatMap String.toList))[done.size]?.getD "" =
      String.ofList (pending.reverse ++
        (clusters.takeWhile (!isNewline ·)).flatMap String.toList) := by
  have htaken : Plain ((clusters.takeWhile (!isNewline ·)).flatMap String.toList) :=
    plain_flatMap fun c hc => (hclusters c ((List.takeWhile_prefix _).subset hc)).resolve_left
      (by simpa using List.mem_takeWhile_imp hc)
  have hsplit : clusters.flatMap String.toList =
      (clusters.takeWhile (!isNewline ·)).flatMap String.toList ++
        (clusters.dropWhile (!isNewline ·)).flatMap String.toList := by
    rw [← List.flatMap_append, List.takeWhile_append_dropWhile]
  rw [hsplit, linesFrom_plain htaken]
  have hline : ((clusters.takeWhile (!isNewline ·)).flatMap String.toList).reverse ++ pending =
      (pending.reverse ++ (clusters.takeWhile (!isNewline ·)).flatMap String.toList).reverse := by
    rw [List.reverse_append, List.reverse_reverse]
  rw [hline]
  have hplain : Plain
      (pending.reverse ++ (clusters.takeWhile (!isNewline ·)).flatMap String.toList).reverse := by
    intro d hd
    rcases List.mem_append.1 (List.mem_reverse.1 hd) with hd | hd
    · exact hpending d (List.mem_reverse.1 hd)
    · exact htaken d hd
  generalize pending.reverse ++ (clusters.takeWhile (!isNewline ·)).flatMap String.toList = line
    at hplain
  -- What is read next is the end of the text or a line end, and either finishes the open line.
  cases hdrop : clusters.dropWhile (!isNewline ·) with
  | nil =>
    rw [List.flatMap_nil, linesFrom]
    cases line with
    | nil => simp
    | cons c line => simp
  | cons c more =>
    have hnewline : isNewline c = true := by
      simpa [hdrop] using List.head_dropWhile_not (!isNewline ·) (l := clusters) (by simp [hdrop])
    rw [hdrop, List.head?_cons, Ne, Option.some_inj] at hlone
    rw [List.flatMap_cons, linesFrom_newline hnewline hlone hplain,
      getElem?_linesFrom (by simp), Array.getElem?_push_size, List.reverse_reverse]
    rfl

/-- **The lines that are counted are the lines that are shown**, up to the first carriage return
that stands for itself. -/
theorem lineAt_eq {source : String} {before after : List String}
    (hsplit : Cluster.split source = before ++ after) (hbefore : "\r" ∉ before)
    (hafter : (after.dropWhile (!isNewline ·)).head? ≠ some "\r") :
    lineAt source (lineBehind before) = trim (String.join (lineAround before after)) := by
  have hclusters : ∀ c ∈ before ++ after, isNewline c = true ∨ Plain c.toList :=
    fun c hc => Cluster.newline_or_plain (hsplit ▸ hc)
  obtain ⟨hfront, hback⟩ := List.forall_mem_append.1 hclusters
  obtain ⟨done, hsize, hplain, hlines⟩ := linesFrom_clusters hfront hbefore
  have hsource : source.toList = before.flatMap String.toList ++ after.flatMap String.toList := by
    rw [← Cluster.flatten_split, hsplit, List.flatMap_append]
  have hpending : Plain ((before.rtakeWhile (!isNewline ·)).flatMap String.toList).reverse :=
    fun d hd => hplain d (List.mem_reverse.1 hd)
  have hopen := getElem?_linesFrom_open hback hafter hpending done
  rw [lineAt, lines, lineBehind, Nat.add_sub_cancel_left, Array.getElem?_toList, hsource, hlines,
    ← hsize, hopen, List.reverse_reverse, lineAround]
  congr 1
  apply String.toList_injective
  rw [String.toList_ofList, String.toList_join, List.flatMap_append]

end Text

end ScriptVM
