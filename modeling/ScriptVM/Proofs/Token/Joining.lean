/-
# The tokens of sources on lines of their own

A line end belongs to no token, apart from one inside of a text, and ends a comment.  So the tokens
of two sources on lines of their own are those of the first source and then those of the second one;
only their places change.  That holds too if the first source ends in a carriage return, which
becomes one line end together with the line feed behind it.

What is read from clusters without an error is said by `Cursor.Reads`, where places play no part.

Main statement: `scan_newline`.
-/
import ScriptVM.Proofs.Program.Layout
import ScriptVM.Proofs.Token.Lines
import ScriptVM.Proofs.Token.Munching

namespace ScriptVM

open Text

/-! ## Clusters -/

namespace Text.Cluster

/-- The clusters of a cut, if it ends here. -/
def Cut.clusters (cut : Cut) : List String :=
  (cut.done.push cut.openText).toList

/-- Feeding a cut does not look at the clusters that are finished. -/
theorem Cut.feed_done (done : Array String) (cut : Cut) (c : Char) :
    feed { cut with done := done ++ cut.done } c
      = { cut.feed c with done := done ++ (cut.feed c).done } := by
  unfold feed
  dsimp only
  split
  · rfl
  · rw [Array.append_push]
    rfl

/-- Clusters that are finished stay as they are. -/
theorem Cut.foldl_feed_done (done : Array String) (cut : Cut) (cs : List Char) :
    cs.foldl feed { cut with done := done ++ cut.done }
      = { cs.foldl feed cut with done := done ++ (cs.foldl feed cut).done } := by
  induction cs generalizing cut with
  | nil => rfl
  | cons c cs ih =>
    rw [List.foldl_cons, feed_done, ih]
    rfl

/-- Nothing joins a line feed. -/
theorem Cut.clusters_foldl_of_lineFeed {cut : Cut} (h : cut.context.last = .lineFeed)
    (cs : List Char) : (cs.foldl feed cut).clusters = cut.clusters ++ splitChars cs := by
  cases cs with
  | nil => simp [splitChars]
  | cons c cs =>
    have hfeed : cut.feed c
        = ⟨cut.done.push cut.openText ++ #[], [c], .start (classOf c)⟩ := by
      rw [feed, if_neg (by simp [Context.joins, h]), Array.append_empty]
    rw [List.foldl_cons, hfeed, foldl_feed_done _ ⟨#[], [c], .start (classOf c)⟩, clusters]
    simp [splitChars, clusters, openText]

theorem splitChars_lineFeed (cs : List Char) : splitChars ('\n' :: cs) = "\n" :: splitChars cs := by
  have hopen : (⟨#[], ['\n'], .start .lineFeed⟩ : Cut).context.last = .lineFeed := rfl
  exact Cut.clusters_foldl_of_lineFeed hopen cs

/-- What does not join the open cluster is one of its own. -/
theorem Cut.feed_alone {cut : Cut} {c : Char} (h : cut.context.joins (classOf c) = false) :
    (cut.feed c).context.last = classOf c ∧
      (cut.feed c).clusters = cut.clusters ++ [String.ofList [c]] := by
  rw [feed, if_neg (by rw [h]; exact Bool.false_ne_true)]
  exact ⟨rfl, by simp [clusters, openText]⟩

/-- A line feed ends the clusters in front of it, and is one of its own unless it stands behind a
carriage return. -/
theorem Cut.Lined.feed_lineFeed {cut : Cut} (h : Lined cut.pending cut.context.last) :
    (cut.feed '\n').context.last = .lineFeed ∧
      ((cut.feed '\n').clusters = cut.clusters ++ ["\n"] ∨
        ∃ body, cut.clusters = body ++ ["\r"] ∧ (cut.feed '\n').clusters = body ++ ["\r\n"]) := by
  obtain ⟨done, pending, last, fusion, conjunct, halfFlag⟩ := cut
  dsimp only at h
  cases h with
  | plain _ hlast =>
    refine (feed_alone ?_).imp_right .inl
    show Context.joins _ .lineFeed = false
    cases last <;> first | rfl | simp [BreakClass.endsLine] at hlast
  | lineFeed => exact (feed_alone rfl).imp_right .inl
  | both => exact (feed_alone rfl).imp_right .inl
  | carriageReturn =>
    have hjoins :
        Context.joins ⟨.carriageReturn, fusion, conjunct, halfFlag⟩ (classOf '\n') = true := rfl
    rw [feed, if_pos hjoins]
    exact ⟨rfl, .inr ⟨done.toList, by simp [clusters, Cut.openText],
      by simp [clusters, Cut.openText]⟩⟩

/-- **The clusters of two texts on lines of their own** are those of the texts; but a carriage
return at the end of the first one goes with the line feed behind it. -/
theorem split_newline (p q : String) :
    split (p ++ "\n" ++ q) = split p ++ "\n" :: split q ∨
      ∃ body, split p = body ++ ["\r"] ∧ split (p ++ "\n" ++ q) = body ++ "\r\n" :: split q := by
  have htext : (p ++ "\n" ++ q).toList = p.toList ++ '\n' :: q.toList := by simp
  rw [split, split, split, htext]
  cases p.toList with
  | nil => exact .inl (splitChars_lineFeed _)
  | cons c cs =>
    have heven : Cut.Even (cs.foldl Cut.feed ⟨#[], [c], .start (classOf c)⟩) :=
      Cut.Even.foldl_feed ⟨by simp, Cut.lined_single c⟩ cs
    have hsplit : splitChars (c :: cs)
        = Cut.clusters (cs.foldl Cut.feed ⟨#[], [c], .start (classOf c)⟩) := rfl
    have hjoined : splitChars (c :: cs ++ '\n' :: q.toList) = Cut.clusters (q.toList.foldl Cut.feed
        (Cut.feed (cs.foldl Cut.feed ⟨#[], [c], .start (classOf c)⟩) '\n')) := by
      rw [List.cons_append, splitChars, List.foldl_append, List.foldl_cons]
      rfl
    obtain ⟨hlast, hfed⟩ := heven.2.feed_lineFeed
    rw [hjoined, hsplit, Cut.clusters_foldl_of_lineFeed hlast]
    rcases hfed with hfed | ⟨body, hbody, hfed⟩
    · exact .inl (by rw [hfed, List.append_assoc]; rfl)
    · exact .inr ⟨body, hbody, by rw [hfed, List.append_assoc]; rfl⟩

end Text.Cluster

/-! ## One item -/

section

variable {p : String → Bool} {nl c : String} {tail more : List String} {kind : TokenKind}
  {cause : ScanCause}

/-- A stretch ends in front of what does not belong to it. -/
theorem takeWhile_append_of_false (h : p nl = false) (clusters more : List String) :
    (clusters ++ nl :: more).takeWhile p = clusters.takeWhile p := by
  induction clusters with
  | nil => simp [h]
  | cons c clusters ih =>
    rw [List.cons_append, List.takeWhile_cons, List.takeWhile_cons, ih]

/-- What is dropped in front ends where the line end is kept. -/
theorem dropWhile_append_of_false (h : p nl = false) (clusters more : List String) :
    (clusters ++ nl :: more).dropWhile p = clusters.dropWhile p ++ nl :: more := by
  induction clusters with
  | nil => simp [h]
  | cons c clusters ih =>
    rw [List.cons_append, List.dropWhile_cons, List.dropWhile_cons, ih]
    split <;> rfl

/-- A stretch that ends stays as it is. -/
theorem span_append_of_ne_nil (h : tail.dropWhile p ≠ []) (more : List String) :
    (tail ++ more).takeWhile p = tail.takeWhile p ∧
      (tail ++ more).dropWhile p = tail.dropWhile p ++ more := by
  induction tail with
  | nil => exact absurd rfl h
  | cons c tail ih =>
    simp only [List.cons_append, List.takeWhile_cons, List.dropWhile_cons] at h ⊢
    split
    · next hc =>
      rw [if_pos hc] at h
      exact ⟨congrArg _ (ih h).1, (ih h).2⟩
    · exact ⟨rfl, rfl⟩

namespace Text.Cluster

theorem eq_of_isNewline (h : isNewline nl = true) : nl = "\n" ∨ nl = "\r" ∨ nl = "\r\n" := by
  simpa [isNewline, or_assoc] using h

theorem isDigit_newline (h : isNewline nl = true) : isDigit nl = false := by
  rcases eq_of_isNewline h with rfl | rfl | rfl <;> decide

theorem isNamePart_newline (h : isNewline nl = true) : isNamePart nl = false := by
  rcases eq_of_isNewline h with rfl | rfl | rfl <;> decide

end Text.Cluster

/-- A line end is no part of a sign. -/
theorem TokenKind.ofSigns?_newline (h : Cluster.isNewline nl = true) (c : String) :
    ofSigns? c nl = none := by
  rcases Cluster.eq_of_isNewline h with rfl | rfl | rfl <;> simp [ofSigns?]

namespace Munch

/-- A piece with more behind what is left. -/
def before (m : Munch) (more : List String) : Munch :=
  { m with rest := m.rest ++ more }

/-- Only a point with something behind it is the start of a fraction. -/
theorem splitFraction_of_ne {clusters : List String}
    (h : ∀ d rest, clusters = "." :: d :: rest → Cluster.isDigit d = false) :
    splitFraction clusters = ([], clusters) := by
  unfold splitFraction
  split
  · next d rest => rw [if_neg (by rw [h d rest rfl]; exact Bool.false_ne_true)]
  · rfl

/-- The fraction of a number ends in front of a line end. -/
theorem splitFraction_newline (h : Cluster.isNewline nl = true) (clusters : List String) :
    splitFraction (clusters ++ nl :: more)
      = ((splitFraction clusters).1, (splitFraction clusters).2 ++ nl :: more) := by
  have hdigit := Cluster.isDigit_newline h
  by_cases hfraction : ∃ d rest, clusters = "." :: d :: rest ∧ Cluster.isDigit d = true
  · obtain ⟨d, rest, rfl, hd⟩ := hfraction
    have htake := takeWhile_append_of_false hdigit (d :: rest) more
    have hdrop := dropWhile_append_of_false hdigit (d :: rest) more
    rw [List.cons_append] at htake hdrop
    simp only [splitFraction, List.cons_append, hd, if_true, htake, hdrop]
  · have hnone : ∀ d rest, clusters = "." :: d :: rest → Cluster.isDigit d = false :=
      fun d rest heq =>
      Bool.eq_false_iff.2 fun hd => hfraction ⟨d, rest, heq, hd⟩
    rw [splitFraction_of_ne hnone, splitFraction_of_ne]
    rintro d rest heq
    rcases clusters with _ | ⟨c, _ | ⟨c', clusters⟩⟩
    · obtain ⟨rfl, -⟩ := List.cons.inj heq
      exact absurd h (by decide)
    · obtain ⟨-, heq⟩ := List.cons.inj heq
      obtain ⟨rfl, -⟩ := List.cons.inj heq
      exact hdigit
    · obtain ⟨hpoint, heq⟩ := List.cons.inj heq
      obtain ⟨rfl, -⟩ := List.cons.inj heq
      exact hnone _ _ (by rw [hpoint])

/-- A number ends in front of a line end. -/
theorem number_newline (h : Cluster.isNewline nl = true) (clusters : List String) :
    number (clusters ++ nl :: more) = (number clusters).before (nl :: more) := by
  have hdigit := Cluster.isDigit_newline h
  simp only [number, takeWhile_append_of_false hdigit, dropWhile_append_of_false hdigit,
    splitFraction_newline h, before]

theorem name_newline (h : Cluster.isNewline nl = true) (clusters : List String) :
    name (clusters ++ nl :: more) = (name clusters).before (nl :: more) := by
  have hpart := Cluster.isNamePart_newline h
  simp only [name, takeWhile_append_of_false hpart, dropWhile_append_of_false hpart, before]

/-- A text in quotes that is closed stays as it is. -/
theorem string_before (h : (string tail).kind = .ok kind) (more : List String) :
    string (tail ++ more) = (string tail).before more := by
  cases hquote : tail.dropWhile (· ≠ "\"") with
  | nil =>
    simp only [string, hquote] at h
    cases h
  | cons quote rest =>
    obtain ⟨htake, hdrop⟩ := span_append_of_ne_nil (hquote ▸ List.cons_ne_nil _ _) more
    simp only [string, hquote, htake, hdrop, List.cons_append, before]

/-- A text in quotes that is not closed goes on over a line end. -/
theorem string_newline_error (h : Cluster.isNewline nl = true)
    (hkind : (string tail).kind = .error cause) : (string (tail ++ [nl])).kind = .error cause := by
  cases hquote : tail.dropWhile (· ≠ "\"") with
  | nil =>
    have hline : nl ≠ "\"" := by
      rintro rfl
      exact absurd h (by decide)
    have hdrop : (tail ++ [nl]).dropWhile (· ≠ "\"") = [] := by
      rw [List.dropWhile_append, hquote]
      simp [hline]
    simp only [string, hquote] at hkind
    simpa only [string, hdrop] using hkind
  | cons quote rest =>
    simp only [string, hquote] at hkind
    cases hkind

/-- **A line end behind a token changes nothing**: it is left with what was left. -/
theorem simple_newline (h : Cluster.isNewline nl = true) (hkind : (simple c tail).kind = .ok kind) :
    simple c (tail ++ nl :: more) = (simple c tail).before (nl :: more) := by
  unfold simple at hkind ⊢
  split
  · rfl
  · next hsign =>
    rw [hsign] at hkind
    dsimp only at hkind
    split
    · next hquote =>
      rw [if_pos hquote] at hkind
      exact string_before hkind _
    · next hquote =>
      rw [if_neg hquote] at hkind
      split
      · exact number_newline h (c :: tail)
      · next hdigit =>
        split
        · exact name_newline h (c :: tail)
        · next hname =>
          rw [if_neg hdigit, if_neg hname] at hkind
          cases hkind

/-- A simple piece that is no token is none with a line end behind it. -/
theorem simple_newline_error (h : Cluster.isNewline nl = true)
    (hkind : (simple c tail).kind = .error cause) :
      (simple c (tail ++ [nl])).kind = .error cause := by
  unfold simple at hkind ⊢
  split
  · next hsign =>
    rw [hsign] at hkind
    cases hkind
  · next hsign =>
    rw [hsign] at hkind
    dsimp only at hkind
    split
    · next hquote =>
      rw [if_pos hquote] at hkind
      exact string_newline_error h hkind
    · next hquote =>
      rw [if_neg hquote] at hkind
      split
      · next hdigit =>
        rw [if_pos hdigit] at hkind
        cases hkind
      · next hdigit =>
        rw [if_neg hdigit] at hkind
        split
        · next hname =>
          rw [if_pos hname] at hkind
          cases hkind
        · next hname =>
          rw [if_neg hname] at hkind
          exact hkind

end Munch

theorem munch_cons_newline (h : Cluster.isNewline nl = true) :
    munch c (nl :: more) = .simple c (nl :: more) := by
  rw [munch.eq_2, TokenKind.ofSigns?_newline h]

/-- A piece that is a token is the same in front of a line end. -/
theorem munch_newline (h : Cluster.isNewline nl = true) (hkind : (munch c tail).kind = .ok kind)
    (more : List String) :
    munch c (tail ++ nl :: more) = (munch c tail).before (nl :: more) := by
  cases tail with
  | nil =>
    rw [List.nil_append, munch_cons_newline h]
    exact Munch.simple_newline h hkind
  | cons next rest =>
    rw [munch] at hkind ⊢
    rw [List.cons_append, munch]
    split
    · rfl
    · next hsigns =>
      rw [hsigns] at hkind
      exact Munch.simple_newline h hkind

/-- What is no token is none in front of a line end. -/
theorem munch_newline_error (h : Cluster.isNewline nl = true)
    (hkind : (munch c tail).kind = .error cause) :
      (munch c (tail ++ [nl])).kind = .error cause := by
  cases tail with
  | nil =>
    rw [List.nil_append, munch_cons_newline h]
    exact Munch.simple_newline_error h hkind
  | cons next rest =>
    rw [munch] at hkind
    rw [List.cons_append, munch]
    split
    · next hsigns =>
      rw [hsigns] at hkind
      exact hkind
    · next hsigns =>
      rw [hsigns] at hkind
      exact Munch.simple_newline_error h hkind

/-! ## What is read -/

theorem Scanned.ne_nil {clusters : List String} {items : List ScanItem}
    (h : Scanned clusters items) :
    items ≠ [] := by
  cases h <;> exact List.cons_ne_nil _ _

namespace Cursor

/-- What is left behind the blanks, line ends and comments at a place. -/
def ahead (clusters : List String) : List String :=
  (skip false 0 0 clusters).rest

/-- What is skipped does not depend on where it stands. -/
theorem rest_skip (comment : Bool) (offset line offset' line' : Nat) (clusters : List String) :
    (skip comment offset line clusters).rest = (skip comment offset' line' clusters).rest := by
  induction clusters generalizing comment offset line offset' line' with
  | nil => rfl
  | cons c rest ih =>
    rw [skip, skip]
    split
    · exact ih _ _ _ _ _
    · split
      · exact ih _ _ _ _ _
      · split
        · exact ih _ _ _ _ _
        · rfl

theorem rest_skipBlanks (cursor : Cursor) : cursor.skipBlanks.rest = ahead cursor.rest :=
  rest_skip _ _ _ _ _ _

/-- A line end ends what is skipped, or nothing of it is skipped. -/
theorem rest_skip_newline (h : Cluster.isNewline nl = true) (comment : Bool) (offset line : Nat)
    (clusters : List String) :
    ((skip comment offset line clusters).rest = [] ∧
        (skip comment offset line (clusters ++ nl :: more)).rest = ahead more) ∨
      ((skip comment offset line clusters).rest ≠ [] ∧
        (skip comment offset line (clusters ++ nl :: more)).rest
          = (skip comment offset line clusters).rest ++ nl :: more) := by
  induction clusters generalizing comment offset line with
  | nil =>
    rw [List.nil_append, skip.eq_2, if_pos h]
    exact .inl ⟨rfl, rest_skip _ _ _ _ _ _⟩
  | cons c rest ih =>
    have hslash : ((rest ++ nl :: more).head? = some "/") ↔ (rest.head? = some "/") := by
      cases rest with
      | nil =>
        have hne : nl ≠ "/" := by
          rintro rfl
          exact absurd h (by decide)
        simp [hne]
      | cons d rest => rfl
    rw [List.cons_append, skip, skip]
    simp only [hslash]
    split
    · exact ih _ _ _
    · split
      · exact ih _ _ _
      · split
        · exact ih _ _ _
        · exact .inr ⟨List.cons_ne_nil _ _, rfl⟩

/-- In front of a line end the same piece comes next, or none. -/
theorem ahead_newline (h : Cluster.isNewline nl = true) (clusters more : List String) :
    (ahead clusters = [] ∧ ahead (clusters ++ nl :: more) = ahead more) ∨
      (ahead clusters ≠ [] ∧ ahead (clusters ++ nl :: more) = ahead clusters ++ nl :: more) :=
  rest_skip_newline h _ _ _ _

/-- The tokens that are read from clusters without an error, up to their places. -/
inductive Reads : List String → List Token → Prop
  | finish {clusters : List String} (h : ahead clusters = []) : Reads clusters []
  | token {clusters tail : List String} {c : String} {kind : TokenKind} {ts : List Token}
      (h : ahead clusters = c :: tail) (hkind : (munch c tail).kind = .ok kind)
      (hrest : Reads (munch c tail).rest ts) :
      Reads clusters (⟨kind, String.join (munch c tail).taken, 0, 0⟩ :: ts)

namespace Reads

variable {clusters : List String} {ts us : List Token}

/-- Blanks and comments in front make no difference to the tokens that are read. -/
theorem of_ahead_eq {clusters' : List String} (h : Reads clusters ts)
    (hahead : ahead clusters' = ahead clusters) : Reads clusters' ts := by
  cases h with
  | finish hend => exact .finish (hahead.trans hend)
  | token hnext hkind hrest => exact .token (hahead.trans hnext) hkind hrest

/-- **Behind a line end reading goes on**, where it would have ended. -/
theorem newline (hnl : Cluster.isNewline nl = true) (h : Reads clusters ts)
    (hmore : Reads more us) :
    Reads (clusters ++ nl :: more) (ts ++ us) := by
  -- Each token is taken off as before, since no token takes the line end; then the others follow.
  induction h with
  | finish hahead =>
    rcases ahead_newline hnl _ more with ⟨-, hjoined⟩ | ⟨hne, -⟩
    · exact hmore.of_ahead_eq hjoined
    · exact absurd hahead hne
  | token hahead hkind _ ih =>
    rcases ahead_newline hnl _ more with ⟨hnone, -⟩ | ⟨-, hjoined⟩
    · rw [hahead] at hnone
      cases hnone
    · have hmunch := munch_newline hnl hkind more
      rw [hahead, List.cons_append] at hjoined
      have hread := Reads.token hjoined (by rw [hmunch]; exact hkind) (by rw [hmunch]; exact ih)
      rw [hmunch] at hread
      exact hread

/-- A line end at the end may be left out. -/
theorem of_newline (hnl : Cluster.isNewline nl = true) (h : Reads (clusters ++ [nl]) ts) :
    Reads clusters ts := by
  generalize hall : clusters ++ [nl] = all at h
  induction h generalizing clusters with
  | finish hahead =>
    subst hall
    rcases ahead_newline hnl clusters [] with ⟨hnone, -⟩ | ⟨-, hjoined⟩
    · exact .finish hnone
    · rw [hahead] at hjoined
      exact absurd hjoined.symm (by simp)
  | @token _ tail c kind ts hahead hkind _ ih =>
    subst hall
    rcases ahead_newline hnl clusters [] with ⟨-, hjoined⟩ | ⟨hne, hjoined⟩
    · rw [hahead] at hjoined
      exact absurd hjoined (by simp [ahead, skip])
    · cases hclusters : ahead clusters with
      | nil => exact absurd hclusters hne
      | cons c' tail' =>
        rw [hahead, hclusters, List.cons_append] at hjoined
        obtain ⟨rfl, rfl⟩ := List.cons.inj hjoined
        cases hkind' : (munch c tail').kind with
        | error cause =>
          -- A line end mends nothing: a text that is not closed before it stays so.
          rw [munch_newline_error hnl hkind'] at hkind
          cases hkind
        | ok kind' =>
          have hmunch := munch_newline hnl hkind' []
          rw [hmunch] at hkind ⊢
          exact .token hclusters hkind (ih (by rw [hmunch]; rfl))

end Reads

/-- What is left behind a piece is less than what there was. -/
theorem length_rest_munch_lt {clusters : List String} (h : ahead clusters = c :: tail) :
    (munch c tail).rest.length < clusters.length := by
  obtain ⟨gap, hclusters, -, -⟩ := skip_gap false 0 0 clusters
  have hlength := congrArg List.length hclusters
  have hpiece := congrArg List.length (taken_append_rest_munch c tail)
  have hpos := List.length_pos_iff.2 (munch_taken_ne_nil c tail)
  rw [show (skip false 0 0 clusters).rest = c :: tail from h, List.length_append] at hlength
  rw [List.length_append] at hpiece
  omega

/-- Items without an error are read. -/
theorem reads_of_items {bound : Nat} (cursor : Cursor) (done : Array ScanItem) {ts : List Token}
    {last : Token} (hbound : cursor.rest.length < bound)
    (h : (items done bound cursor).toList = done.toList ++ (ts ++ [last]).map .ok) :
    Reads cursor.rest (ts.map Token.unplaced) := by
  -- By induction on the bound, which is greater than the number of clusters that are left.
  induction bound generalizing cursor done ts with
  | zero => omega
  | succ bound ih =>
    rw [items] at h
    have hahead := cursor.rest_skipBlanks
    dsimp only at h
    split at h
    · next hrest =>
      rw [Array.toList_push, List.append_cancel_left_eq] at h
      obtain rfl : ts = [] := by
        have hlength := congrArg List.length h
        simpa using hlength
      exact .finish (hahead.symm.trans hrest)
    · next c tail hrest =>
      have hnext : ahead cursor.rest = c :: tail := hahead.symm.trans hrest
      have hshorter : (munch c tail).rest.length < bound := by
        have hlt := length_rest_munch_lt hnext
        omega
      obtain ⟨more, hmore, hscanned⟩ := scanned_items (cursor.skipBlanks.move (munch c tail))
        (done.push (cursor.skipBlanks.item (munch c tail))) hshorter
      rw [hmore, Array.toList_push, List.append_assoc, List.append_cancel_left_eq] at h
      cases ts with
      | nil =>
        exact absurd (List.cons.inj h).2 hscanned.ne_nil
      | cons t ts =>
        obtain ⟨hitem, hrest'⟩ := List.cons.inj h
        rw [item] at hitem
        split at hitem
        · next kind hkind =>
          obtain rfl := Except.ok.inj hitem
          exact .token hnext hkind (ih _ _ hshorter (hmore.trans (congrArg _ hrest')))
        · cases hitem

/-- What is read are items without an error. -/
theorem Reads.exists_items {bound : Nat} {clusters : List String} {ts : List Token}
    (h : Reads clusters ts) {offset line : Nat} (done : Array ScanItem)
    (hbound : clusters.length < bound) :
    ∃ us last, (items done bound ⟨offset, line, clusters⟩).toList
        = done.toList ++ (us ++ [last]).map .ok ∧ us.map Token.unplaced = ts := by
  induction h generalizing bound offset line done with
  | finish h =>
    obtain ⟨bound, rfl⟩ := Nat.exists_eq_succ_of_ne_zero (Nat.ne_of_gt (Nat.zero_lt_of_lt hbound))
    rw [items, rest_skipBlanks, h]
    exact ⟨[], _, Array.toList_push, rfl⟩
  | @token clusters tail c kind ts hnext hkind _ ih =>
    obtain ⟨bound, rfl⟩ := Nat.exists_eq_succ_of_ne_zero (Nat.ne_of_gt (Nat.zero_lt_of_lt hbound))
    rw [items, rest_skipBlanks, hnext]
    dsimp only
    have hlt := length_rest_munch_lt hnext
    let here := skipBlanks ⟨offset, line, clusters⟩
    have hitem : here.item (munch c tail)
        = .ok ⟨kind, String.join (munch c tail).taken, here.offset, here.line⟩ := by
      rw [item, hkind]
    obtain ⟨us, last, hitems, hus⟩ := ih (done.push (here.item (munch c tail)))
      (Nat.lt_of_lt_of_le hlt (Nat.le_of_lt_succ hbound))
    rw [show here.move (munch c tail) = ⟨_, _, (munch c tail).rest⟩ from rfl, hitems, hitem]
    exact ⟨⟨kind, String.join (munch c tail).taken, here.offset, here.line⟩ :: us, last, by simp,
      congrArg (List.cons _) hus⟩

end Cursor

end

/-- **The tokens of two sources on lines of their own** are those of the first one and then those of
the second one, up to their places. -/
theorem scan_newline {p q : String} {ts us : List Token} {last final : Token}
    (hp : scan p = (ts ++ [last]).map .ok) (hq : scan q = (us ++ [final]).map .ok) :
    ∃ vs closing, scan (p ++ "\n" ++ q) = (vs ++ [closing]).map .ok ∧
      vs.map Token.unplaced = (ts ++ us).map Token.unplaced := by
  have hreads : ∀ {source : String} {ts : List Token} {last : Token},
      scan source = (ts ++ [last]).map .ok →
        Cursor.Reads (Cluster.split source) (ts.map Token.unplaced) := by
    intro source ts last h
    exact Cursor.reads_of_items ⟨0, 1, _⟩ #[] (Nat.lt_succ_self _) h
  have hjoined : Cursor.Reads (Cluster.split (p ++ "\n" ++ q)) ((ts ++ us).map Token.unplaced) := by
    rw [List.map_append]
    rcases Cluster.split_newline p q with hsplit | ⟨body, hbody, hsplit⟩
    · rw [hsplit]
      exact (hreads hp).newline rfl (hreads hq)
    · rw [hsplit]
      exact (Cursor.Reads.of_newline rfl (hbody ▸ hreads hp)).newline rfl (hreads hq)
  obtain ⟨vs, closing, hitems, hvs⟩ := hjoined.exists_items #[] (Nat.lt_succ_self _)
  exact ⟨vs, closing, hitems, hvs⟩

end ScriptVM
