/-
# The items of a source tile it

Reading a source loses nothing.  Each item stands for a stretch of clusters; the stretches follow
one another in the order of the items, and what lies between two of them, before the first and
behind the last, is a gap: blanks, line ends and comments.  The offsets that the items carry are
those of their stretches.

Main statement: the items of a source and its gaps, put together, are the source, and the end token
stands at its end (`scan_tiles`).  It holds for every way to cut the source into pieces that are not
empty.
-/
import ScriptVM.Token.Scan

namespace ScriptVM

open Text

/-! ## Items and gaps -/

namespace ScanItem

/-- The part of the source that an item stands for. -/
def text : ScanItem → String
  | .ok token => token.lexeme
  | .error e => e.text

/-- The byte offset that an item carries. -/
def start : ScanItem → Nat
  | .ok token => token.start
  | .error e => e.start

/-- Whether an item is an end token. -/
def isEnd : ScanItem → Bool
  | .ok token => token.kind = .eof
  | .error _ => false

end ScanItem

/-- The number of bytes of a stretch of clusters. -/
def extentOf (clusters : List String) : Nat :=
  (String.join clusters).utf8ByteSize

@[simp] theorem extentOf_nil : extentOf [] = 0 := rfl

@[simp] theorem extentOf_append (as bs : List String) :
    extentOf (as ++ bs) = extentOf as + extentOf bs := by
  simp [extentOf]

@[simp] theorem extentOf_cons (c : String) (cs : List String) :
    extentOf (c :: cs) = c.utf8ByteSize + extentOf cs := by
  simp [extentOf]

/-- The clusters in front of `rest` that only separate items: blanks, line ends, and comments, each
of which runs up to a line end or to the end of the source. -/
inductive Gap (rest : List String) : List String → Prop
  | nil : Gap rest []
  | blank {c : String} {gap : List String} (hc : Cluster.isBlank c) (hgap : Gap rest gap) :
      Gap rest (c :: gap)
  | newline {c : String} {gap : List String} (hc : Cluster.isNewline c) (hgap : Gap rest gap) :
      Gap rest (c :: gap)
  | comment {body gap : List String} (hbody : ∀ c ∈ body, ¬Cluster.isNewline c)
      (hstop : ∀ c ∈ (gap ++ rest).head?, Cluster.isNewline c) (hgap : Gap rest gap) :
      Gap rest ("/" :: "/" :: (body ++ gap))

/-- A gap that starts inside a comment. -/
def CommentGap (rest : List String) (clusters : List String) : Prop :=
  ∃ body gap, clusters = body ++ gap ∧ (∀ c ∈ body, ¬Cluster.isNewline c) ∧
    (∀ c ∈ (gap ++ rest).head?, Cluster.isNewline c) ∧ Gap rest gap

namespace CommentGap

theorem of_newline {rest gap : List String} {c : String} (hc : Cluster.isNewline c)
    (h : Gap rest gap) : CommentGap rest (c :: gap) :=
  ⟨[], c :: gap, rfl, by simp, by simp [hc], .newline hc h⟩

theorem cons {rest gap : List String} {c : String} (hc : ¬Cluster.isNewline c)
    (h : CommentGap rest gap) : CommentGap rest (c :: gap) := by
  obtain ⟨body, gap, rfl, hbody, hstop, hgap⟩ := h
  exact ⟨c :: body, gap, rfl, by simpa using ⟨by simpa using hc, by simpa using hbody⟩, hstop, hgap⟩

/-- The two signs that open a comment turn the rest of it into a gap. -/
theorem opened {rest gap : List String} (h : CommentGap rest ("/" :: gap)) :
    Gap rest ("/" :: "/" :: gap) := by
  obtain ⟨body, tail, heq, hbody, hstop, hgap⟩ := h
  cases body with
  | nil =>
    obtain rfl : "/" :: gap = tail := heq
    have hslash : Cluster.isNewline "/" := hstop "/" (by simp)
    exact absurd hslash (by decide)
  | cons c body =>
    obtain ⟨rfl, rfl⟩ := List.cons.inj heq
    exact .comment (fun d hd => hbody d (by simp [hd])) hstop hgap

end CommentGap

/-! ## Skipping -/

namespace Cursor

/-- What is skipped is a gap, and the offset moves on by its bytes. -/
theorem skip_gap (comment : Bool) (offset line : Nat) (clusters : List String) :
    ∃ gap, clusters = gap ++ (skip comment offset line clusters).rest ∧
      (skip comment offset line clusters).offset = offset + extentOf gap ∧
      if comment then CommentGap (skip comment offset line clusters).rest gap
      else Gap (skip comment offset line clusters).rest gap := by
  induction clusters generalizing comment offset line with
  | nil =>
    refine ⟨[], rfl, rfl, ?_⟩
    cases comment with
    | false => exact .nil
    | true => exact ⟨[], [], rfl, by simp, by simp [skip], .nil⟩
  | cons c rest ih =>
    by_cases hline : Cluster.isNewline c
    · obtain ⟨gap, hrest, hoffset, hgap⟩ := ih false (offset + c.utf8ByteSize) (line + 1)
      rw [skip, if_pos hline]
      refine ⟨c :: gap, by rw [List.cons_append, ← hrest], ?_, ?_⟩
      · rw [hoffset, extentOf_cons, Nat.add_assoc]
      · have hgap : Gap _ gap := hgap
        cases comment with
        | false => exact .newline hline hgap
        | true => exact .of_newline hline hgap
    · by_cases hblank : comment || Cluster.isBlank c
      · obtain ⟨gap, hrest, hoffset, hgap⟩ := ih comment (offset + c.utf8ByteSize) line
        rw [skip, if_neg hline, if_pos hblank]
        refine ⟨c :: gap, by rw [List.cons_append, ← hrest], ?_, ?_⟩
        · rw [hoffset, extentOf_cons, Nat.add_assoc]
        · cases comment with
          | false => exact .blank (by simpa using hblank) hgap
          | true => exact CommentGap.cons hline hgap
      · obtain ⟨rfl, hc⟩ : comment = false ∧ ¬Cluster.isBlank c := by simpa using hblank
        by_cases hslash : c = "/" && rest.head? = some "/"
        · obtain ⟨gap, hrest, hoffset, hgap⟩ := ih true (offset + c.utf8ByteSize) line
          rw [skip, if_neg hline, if_neg hblank, if_pos hslash]
          obtain ⟨rfl, hhead⟩ : c = "/" ∧ rest.head? = some "/" := by simpa using hslash
          obtain ⟨more, rfl⟩ : ∃ more, rest = "/" :: more := List.head?_eq_some_iff.1 hhead
          refine ⟨"/" :: gap, by rw [List.cons_append, ← hrest], ?_, ?_⟩
          · rw [hoffset, extentOf_cons, Nat.add_assoc]
          · have hgap : CommentGap _ gap := hgap
            -- the comment reaches at least over its second sign, so the gap starts with it
            cases gap with
            | nil =>
              obtain ⟨body, tail, hnil, -, hstop, -⟩ := hgap
              obtain ⟨-, rfl⟩ := List.append_eq_nil_iff.1 hnil.symm
              rw [List.nil_append] at hrest
              rw [← hrest] at hstop
              exact absurd (hstop "/" (by simp)) (by decide)
            | cons d gap =>
              obtain ⟨rfl, -⟩ := List.cons.inj hrest
              exact hgap.opened
        · rw [skip, if_neg hline, if_neg hblank, if_neg hslash]
          exact ⟨[], rfl, rfl, .nil⟩

end Cursor

/-! ## Pieces -/

theorem TokenKind.ofSign?_ne_eof (c : String) : ofSign? c ≠ some .eof := by
  unfold ofSign?
  split <;> simp

theorem TokenKind.ofSigns?_ne_eof (c d : String) : ofSigns? c d ≠ some .eof := by
  unfold ofSigns?
  split <;> simp

theorem TokenKind.ofName_ne_eof (name : String) : ofName name ≠ .eof := by
  unfold ofName
  split <;> simp

/-- No simple piece is an end token. -/
theorem Munch.simple_kind_ne_eof (c : String) (tail : List String) :
    (simple c tail).kind ≠ .ok .eof := by
  unfold simple
  split
  · next kind hsign =>
    rintro heof
    obtain rfl := Except.ok.inj heof
    exact TokenKind.ofSign?_ne_eof c hsign
  · split
    · unfold string
      split <;> simp
    · split
      · simp [number]
      · split
        · simpa [name] using TokenKind.ofName_ne_eof _
        · simp

/-- No piece is an end token. -/
theorem munch_kind_ne_eof (c : String) (tail : List String) : (munch c tail).kind ≠ .ok .eof := by
  cases tail with
  | nil => exact Munch.simple_kind_ne_eof c []
  | cons next rest =>
    rw [munch]
    split
    · next kind hsigns =>
      rintro heof
      obtain rfl := Except.ok.inj heof
      exact TokenKind.ofSigns?_ne_eof c next hsigns
    · exact Munch.simple_kind_ne_eof c (next :: rest)

/-- A simple piece takes at least one cluster. -/
theorem Munch.simple_taken_ne_nil (c : String) (tail : List String) :
    (simple c tail).taken ≠ [] := by
  unfold simple
  split
  · simp
  · split
    · unfold string
      split <;> simp
    · split
      · next hdigit => simp [number, hdigit]
      · split
        · next hname => simp [name, Cluster.isNamePart, hname]
        · simp

/-- Every piece takes at least one cluster, so that reading comes to an end. -/
theorem munch_taken_ne_nil (c : String) (tail : List String) : (munch c tail).taken ≠ [] := by
  cases tail with
  | nil => exact Munch.simple_taken_ne_nil c []
  | cons next rest =>
    rw [munch]
    split
    · simp
    · exact Munch.simple_taken_ne_nil c (next :: rest)

namespace Cursor

@[simp] theorem text_item (cursor : Cursor) (m : Munch) :
    (cursor.item m).text = String.join m.taken := by
  unfold item
  split <;> rfl

@[simp] theorem start_item (cursor : Cursor) (m : Munch) :
    (cursor.item m).start = cursor.offset := by
  unfold item
  split <;> rfl

/-- The item of a piece is no end token. -/
theorem isEnd_item_munch (cursor : Cursor) (c : String) (tail : List String) :
    (cursor.item (munch c tail)).isEnd = false := by
  have hkind := munch_kind_ne_eof c tail
  unfold item
  split
  · next kind hmunch =>
    rw [hmunch] at hkind
    simpa [ScanItem.isEnd] using hkind
  · rfl

end Cursor

/-- Clusters that are not empty are not empty together. -/
theorem join_ne_empty_of_forall {clusters : List String} (hne : clusters ≠ [])
    (h : ∀ c ∈ clusters, c ≠ "") : String.join clusters ≠ "" := by
  cases clusters with
  | nil => exact absurd rfl hne
  | cons c rest =>
    intro hjoin
    have hlist := congrArg String.toList hjoin
    rw [String.toList_join, List.flatMap_cons, String.toList_empty, List.append_eq_nil_iff] at hlist
    exact h c (by simp) (String.toList_injective hlist.1)

/-! ## Tiles -/

/-- An item with the clusters it stands for and the clusters skipped in front of them. -/
structure Tile where
  /-- What is skipped. -/
  gap : List String
  /-- What the item stands for. -/
  taken : List String
  /-- The item. -/
  item : ScanItem

namespace Tile

/-- The clusters of a tile. -/
def clusters (tile : Tile) : List String :=
  tile.gap ++ tile.taken

/-- A tile that starts at an offset and has `after` behind it. -/
structure Fits (tile : Tile) (offset : Nat) (after : List String) : Prop where
  /-- Only a gap is skipped. -/
  gap : Gap (tile.taken ++ after) tile.gap
  /-- The item's text is that of its clusters. -/
  text : tile.item.text = String.join tile.taken
  /-- It is not empty. -/
  text_ne : tile.item.text ≠ ""
  /-- The item carries the offset of its text. -/
  start : tile.item.start = offset + extentOf tile.gap
  /-- The item is no end token. -/
  isEnd : tile.item.isEnd = false

/-- Tiles that fit one behind the other, from an offset on, with `final` behind the last. -/
def Fit (final : List String) : Nat → List Tile → Prop
  | _, [] => True
  | offset, tile :: tiles =>
    tile.Fits offset (tiles.flatMap clusters ++ final) ∧
      Fit final (offset + extentOf tile.clusters) tiles

/-- Of tiles that fit one behind the other each one fits where those in front of it end. -/
theorem Fit.fits {final : List String} {offset : Nat} {before : List Tile} {tile : Tile}
    {after : List Tile} (h : Fit final offset (before ++ tile :: after)) :
    tile.Fits (offset + extentOf (before.flatMap clusters)) (after.flatMap clusters ++ final) := by
  induction before generalizing offset with
  | nil => exact h.1
  | cons first before ih =>
    have htail := ih h.2
    rwa [Nat.add_assoc, ← extentOf_append, ← List.flatMap_cons] at htail

end Tile

namespace Cursor

/-- What one round of reading adds: the gap in front of an item and the item itself. -/
theorem exists_tile (cursor : Cursor) {c : String} {tail : List String}
    (hne : ∀ d ∈ cursor.rest, d ≠ "") (hrest : cursor.skipBlanks.rest = c :: tail) :
    ∃ tile : Tile, tile.item = cursor.skipBlanks.item (munch c tail) ∧
      cursor.rest = tile.clusters ++ (munch c tail).rest ∧
      (cursor.skipBlanks.move (munch c tail)).offset = cursor.offset + extentOf tile.clusters ∧
      tile.taken ≠ [] ∧ tile.Fits cursor.offset (munch c tail).rest := by
  obtain ⟨gap, hclusters, hoffset, hgap⟩ := skip_gap false cursor.offset cursor.line cursor.rest
  have hrest' : (skip false cursor.offset cursor.line cursor.rest).rest
      = (munch c tail).taken ++ (munch c tail).rest := by
    rw [taken_append_rest_munch]
    exact hrest
  rw [hrest'] at hclusters hgap
  have htaken : String.join (munch c tail).taken ≠ "" := by
    refine join_ne_empty_of_forall (munch_taken_ne_nil c tail) fun d hd => hne d ?_
    rw [hclusters]
    exact List.mem_append_right _ (List.mem_append_left _ hd)
  refine ⟨⟨gap, (munch c tail).taken, cursor.skipBlanks.item (munch c tail)⟩, rfl, ?_, ?_,
    munch_taken_ne_nil c tail, hgap, text_item _ _, ?_, ?_, isEnd_item_munch _ _ _⟩
  · simpa [Tile.clusters] using hclusters
  · have hskip : cursor.skipBlanks.offset = cursor.offset + extentOf gap := hoffset
    rw [move, hskip, Tile.clusters, extentOf_append, Nat.add_assoc]
    rfl
  · rwa [text_item]
  · rw [start_item]
    exact hoffset

/-- **Reading from a place on tiles the rest of the source.** -/
theorem items_tile {bound : Nat} (cursor : Cursor) (done : Array ScanItem)
    (hbound : cursor.rest.length < bound) (hne : ∀ d ∈ cursor.rest, d ≠ "") :
    ∃ (tiles : List Tile) (final : List String) (line : Nat),
      (items done bound cursor).toList = done.toList ++ tiles.map (·.item) ++
        [.ok ⟨.eof, "", cursor.offset + extentOf cursor.rest, line⟩] ∧
      cursor.rest = tiles.flatMap Tile.clusters ++ final ∧ Gap [] final ∧
      Tile.Fit final cursor.offset tiles := by
  -- By induction on the bound, as the scanner reads. What a tile takes is not empty, so the bound
  -- goes down.
  induction bound generalizing cursor done with
  | zero => omega
  | succ bound ih =>
    rw [items]
    dsimp only
    split
    · next hrest =>
      obtain ⟨gap, hclusters, hoffset, hgap⟩ :=
        skip_gap false cursor.offset cursor.line cursor.rest
      have hrest' : (skip false cursor.offset cursor.line cursor.rest).rest = [] := hrest
      rw [hrest'] at hclusters hgap
      rw [List.append_nil] at hclusters
      refine ⟨[], gap, cursor.skipBlanks.line, ?_, by simpa using hclusters, hgap, trivial⟩
      have hskip : cursor.skipBlanks.offset = cursor.offset + extentOf gap := hoffset
      simp [endToken, hskip, hclusters]
    · next c tail hrest =>
      obtain ⟨tile, hitem, hclusters, hoffset, htaken, hfits⟩ := exists_tile cursor hne hrest
      have hshorter : (munch c tail).rest.length < bound := by
        have hlength := congrArg List.length hclusters
        have hpos := List.length_pos_iff.2 htaken
        simp only [Tile.clusters, List.length_append] at hlength
        omega
      obtain ⟨tiles, final, line, hitems, hrest', hfinal, hfit⟩ :=
        ih (cursor.skipBlanks.move (munch c tail))
          (done.push (cursor.skipBlanks.item (munch c tail))) hshorter
          (fun d hd => hne d (by rw [hclusters]; exact List.mem_append_right _ hd))
      have hmove : (cursor.skipBlanks.move (munch c tail)).rest = (munch c tail).rest := rfl
      rw [hmove] at hrest' hitems
      rw [hoffset] at hitems hfit
      refine ⟨tile :: tiles, final, line, ?_, ?_, hfinal, ?_, hfit⟩
      · rw [hitems, hclusters, extentOf_append, hitem.symm]
        simp [Nat.add_assoc]
      · rw [hclusters, hrest', List.flatMap_cons, List.append_assoc]
      · rwa [← hrest']

end Cursor

/-- **The items of a source tile it**, whichever way it is cut, so for `scan` too.  Up to the end
token, which stands at the end of the source and nowhere else, each item is a stretch of the source
that is not empty, at the offset the item carries; the stretches are in order and do not overlap,
and between them, before the first and behind the last stand only blanks, line ends and comments. -/
theorem scan_tiles (cut : Cutting) (source : String) :
    ∃ (tiles : List Tile) (final : List String) (line : Nat),
      cut.scan source = tiles.map (·.item) ++ [.ok ⟨.eof, "", source.utf8ByteSize, line⟩] ∧
      tiles.flatMap Tile.clusters ++ final = cut.split source ∧
      String.join (cut.split source) = source ∧
      Gap [] final ∧
      ∀ before tile after, tiles = before ++ tile :: after →
        tile.Fits (extentOf (before.flatMap Tile.clusters))
          (after.flatMap Tile.clusters ++ final) := by
  obtain ⟨tiles, final, line, hitems, hrest, hfinal, hfit⟩ :=
    Cursor.items_tile ⟨0, 1, cut.split source⟩ #[] (Nat.lt_succ_self _) fun _ hc => cut.ne_empty hc
  refine ⟨tiles, final, line, ?_, hrest.symm, cut.join_split source, hfinal, ?_⟩
  · have hextent : extentOf (cut.split source) = source.utf8ByteSize := by
      rw [extentOf, cut.join_split]
    simpa [Cutting.scan, hextent] using hitems
  · rintro before tile after rfl
    simpa using hfit.fits

/-- A source ends with its one end token, which has no text. -/
theorem scan_eq_concat (source : String) :
    ∃ items last, scan source = items ++ [.ok last] ∧ last.kind = .eof ∧
      (∀ t, .ok t ∈ items → t.kind ≠ .eof) ∧ last.lexeme = "" := by
  obtain ⟨tiles, final, line, hitems, -, -, hfit⟩ :=
    Cursor.items_tile ⟨0, 1, Cluster.split source⟩ #[] (Nat.lt_succ_self _)
      (fun c hc => Cluster.ne_empty_of_mem_split hc)
  refine ⟨tiles.map (·.item), _, by simpa [scan, Cutting.scan] using hitems, rfl,
    fun t ht hkind => ?_, rfl⟩
  obtain ⟨tile, htile, hitem⟩ := List.mem_map.1 ht
  obtain ⟨before, after, rfl⟩ := List.append_of_mem htile
  have hend := hfit.fits.isEnd
  simp [hitem, ScanItem.isEnd, hkind] at hend

end ScriptVM
