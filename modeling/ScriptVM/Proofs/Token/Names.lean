/-
# The names in a source

An identifier is never the empty text and never a keyword.  In particular it is neither of the two
names under which a method finds its instance and its superclass, so a program cannot declare a
variable that hides them (`plain_of_mem_scan`).
-/
import ScriptVM.Token.Scan

namespace ScriptVM

open Text

/-- A token that may name a variable does not name a hidden one. -/
structure Token.Plain (token : Token) : Prop where
  /-- An identifier is none of the hidden names. -/
  identifier : token.kind = .identifier →
    token.lexeme ≠ "" ∧ token.lexeme ≠ "self" ∧ token.lexeme ≠ "super"
  /-- The instance is not named like the superclass. -/
  receiver : token.kind = .selfKw → token.lexeme ≠ "super"

/-- An item that is a plain token, or no token. -/
def ScanItem.Plain (item : ScanItem) : Prop :=
  ∀ token, item = .ok token → token.Plain

theorem TokenKind.ofName_eq_identifier {name : String} (h : ofName name = .identifier) :
    name ≠ "self" ∧ name ≠ "super" := by
  constructor <;> (rintro rfl; simp [ofName] at h)

theorem TokenKind.ofName_eq_selfKw {name : String} (h : ofName name = .selfKw) :
    name ≠ "super" := by
  rintro rfl
  simp [ofName] at h

theorem TokenKind.ofSign?_ne {kind : TokenKind} (hkind : kind = .identifier ∨ kind = .selfKw)
    (c : String) : ofSign? c ≠ some kind := by
  unfold ofSign?
  rcases hkind with rfl | rfl <;> split <;> simp

theorem TokenKind.ofSigns?_ne {kind : TokenKind} (hkind : kind = .identifier ∨ kind = .selfKw)
    (c d : String) : ofSigns? c d ≠ some kind := by
  unfold ofSigns?
  rcases hkind with rfl | rfl <;> split <;> simp

namespace Munch

/-- A name is not empty. -/
theorem join_ne_empty {c : String} {rest : List String} (h : Cluster.isNameStart c = true) :
    String.join (c :: rest) ≠ "" := by
  intro hjoin
  have hlist := congrArg String.toList hjoin
  rw [String.toList_join, List.flatMap_cons, String.toList_empty, List.append_eq_nil_iff] at hlist
  simp [Cluster.isNameStart, hlist.1] at h

/-- A piece that names a variable starts like a name, and is of the kind that its text says. -/
theorem simple_named {kind : TokenKind} (hkind : kind = .identifier ∨ kind = .selfKw) {c : String}
    {tail : List String} (h : (simple c tail).kind = .ok kind) :
    String.join (simple c tail).taken ≠ "" ∧
      TokenKind.ofName (String.join (simple c tail).taken) = kind := by
  unfold simple at h ⊢
  split
  · next sign hsign =>
    rw [hsign] at h
    exact absurd (Except.ok.inj h ▸ hsign) (TokenKind.ofSign?_ne hkind c)
  · next hsign =>
    rw [hsign] at h
    dsimp only at h
    split
    · next hquote =>
      rw [if_pos hquote, string] at h
      split at h
      · obtain rfl := Except.ok.inj h
        simp at hkind
      · simp at h
    · next hquote =>
      rw [if_neg hquote] at h
      split
      · next hdigit =>
        rw [if_pos hdigit] at h
        obtain rfl := Except.ok.inj h
        simp at hkind
      · next hdigit =>
        rw [if_neg hdigit] at h
        split
        · next hname =>
          rw [if_pos hname, name] at h
          refine ⟨?_, Except.ok.inj h⟩
          rw [name, List.takeWhile_cons_of_pos (by simp [Cluster.isNamePart, hname])]
          exact join_ne_empty hname
        · next hname => simp [hname] at h

end Munch

/-- A piece that is read as a name or as `self` is not empty, and is read as its kind. -/
theorem munch_named {kind : TokenKind} (hkind : kind = .identifier ∨ kind = .selfKw) {c : String}
    {tail : List String} (h : (munch c tail).kind = .ok kind) :
    String.join (munch c tail).taken ≠ "" ∧
      TokenKind.ofName (String.join (munch c tail).taken) = kind := by
  cases tail with
  | nil => exact Munch.simple_named hkind h
  | cons next rest =>
    rw [munch] at h ⊢
    split
    · next signs hsigns =>
      rw [hsigns] at h
      exact absurd (Except.ok.inj h ▸ hsigns) (TokenKind.ofSigns?_ne hkind c next)
    · next hsigns =>
      rw [hsigns] at h
      exact Munch.simple_named hkind h

/-- The item of a piece is plain. -/
theorem Cursor.item_plain (cursor : Cursor) (c : String) (tail : List String) :
    ScanItem.Plain (cursor.item (munch c tail)) := by
  intro token htoken
  rw [item] at htoken
  split at htoken
  · next kind hmunch =>
    obtain rfl := Except.ok.inj htoken
    constructor
    · rintro rfl
      obtain ⟨hempty, hname⟩ := munch_named (.inl rfl) hmunch
      exact ⟨hempty, TokenKind.ofName_eq_identifier hname⟩
    · rintro rfl
      exact TokenKind.ofName_eq_selfKw (munch_named (.inr rfl) hmunch).2
  · simp at htoken

/-- An item of a source is the piece taken at some place, or the end token. -/
theorem Cursor.mem_items {done : Array ScanItem} {bound : Nat} {cursor : Cursor} {item : ScanItem}
    (h : item ∈ items done bound cursor) :
    item ∈ done ∨ (∃ (here : Cursor) (c : String) (tail : List String),
      item = here.item (munch c tail)) ∨ ∃ here : Cursor, item = .ok here.endToken := by
  induction bound generalizing done cursor with
  | zero => exact .inl h
  | succ bound ih =>
    rw [items] at h
    dsimp only at h
    split at h
    · rcases Array.mem_push.1 h with h | rfl
      · exact .inl h
      · exact .inr (.inr ⟨_, rfl⟩)
    · rcases ih h with h | h
      · rcases Array.mem_push.1 h with h | rfl
        · exact .inl h
        · exact .inr (.inl ⟨_, _, _, rfl⟩)
      · exact .inr h

/-- An item of a source is that of a piece at some place, or the end token. -/
theorem mem_scan {source : String} {item : ScanItem} (h : item ∈ scan source) :
    (∃ (here : Cursor) (c : String) (tail : List String), item = here.item (munch c tail)) ∨
      ∃ here : Cursor, item = .ok here.endToken := by
  rcases Cursor.mem_items (Array.mem_toList_iff.1 h) with h | h
  · simp at h
  · exact h

/-- **The identifiers of a source do not name hidden variables.** -/
theorem plain_of_mem_scan {source : String} {item : ScanItem} (h : item ∈ scan source) :
    item.Plain := by
  rcases mem_scan h with ⟨here, c, tail, rfl⟩ | ⟨here, rfl⟩
  · exact Cursor.item_plain here c tail
  · intro token htoken
    obtain rfl := Except.ok.inj htoken
    constructor <;> (intro hkind; cases hkind)

end ScriptVM
