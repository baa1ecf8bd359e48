/-
# Tokens are maximal munches

The texts of tokens form a lexical grammar (`Lexeme`): signs, numbers, names and keywords, and texts
in quotes.  Where neither a blank nor a comment starts, the longest stretch of clusters that the
grammar has is taken, and where it has none, an error takes the rest of a text that is not closed,
or else one cluster (`Munched`).  Reading goes on right behind it (`Scanned`).

Main statement: `scanned_split`.
-/
import Mathlib.Data.List.TakeWhile
import Mathlib.Tactic.FinCases
import ScriptVM.Proofs.Token.Tiling

namespace ScriptVM

open Text

/-! ## The lexical grammar -/

namespace Text.Cluster

/-- A cluster that is a decimal digit. -/
def Digit (c : String) : Prop :=
  ∃ d : Char, '0' ≤ d ∧ d ≤ '9' ∧ c = String.singleton d

/-- A cluster that is a plain letter or the underscore. -/
def Letter (c : String) : Prop :=
  ∃ d : Char, ('A' ≤ d ∧ d ≤ 'Z' ∨ 'a' ≤ d ∧ d ≤ 'z' ∨ d = '_') ∧ c = String.singleton d

end Text.Cluster

/-- The punctuators and operators. -/
def signTable : List (List String × TokenKind) :=
  [(["("], .leftParen), ([")"], .rightParen), (["\x7b"], .leftBrace), (["\x7d"], .rightBrace),
   (["["], .leftBracket), (["]"], .rightBracket), ([","], .comma), (["."], .dot),
   (["-"], .minus), (["+"], .plus), ([";"], .semicolon), ([":"], .colon), (["/"], .slash),
   (["*"], .asterisk), (["!"], .bang), (["!", "="], .bangEqual), (["="], .equal),
   (["=", "="], .equalEqual), ([">"], .greater), ([">", "="], .greaterEqual), (["<"], .less),
   (["<", "="], .lessEqual), (["&", "&"], .andAnd), (["|", "|"], .orOr)]

/-- The keywords. -/
def keywordTable : List (String × TokenKind) :=
  [("class", .classKw), ("else", .elseKw), ("false", .falseKw), ("func", .funcKw), ("if", .ifKw),
   ("nil", .nilKw), ("print", .printKw), ("return", .returnKw), ("self", .selfKw),
   ("super", .superKw), ("true", .trueKw), ("var", .varKw), ("while", .whileKw)]

/-- The kind of a name: that of a keyword, or an identifier if it is none. -/
def TokenKind.Names (kind : TokenKind) (name : String) : Prop :=
  (name, kind) ∈ keywordTable ∨ kind = .identifier ∧ ∀ other, (name, other) ∉ keywordTable

/-- Possibly a point with digits behind it. -/
inductive Fraction : List String → Prop
  | none : Fraction []
  | digits {digits : List String} (hne : digits ≠ []) (hdigits : ∀ d ∈ digits, Cluster.Digit d) :
      Fraction ("." :: digits)

/-- The clusters of the tokens of a kind. -/
inductive Lexeme : TokenKind → List String → Prop
  | sign {kind : TokenKind} {clusters : List String} (h : (clusters, kind) ∈ signTable) :
      Lexeme kind clusters
  | number {whole fraction : List String} (hne : whole ≠ [])
      (hwhole : ∀ d ∈ whole, Cluster.Digit d) (hfraction : Fraction fraction) :
      Lexeme .number (whole ++ fraction)
  | name {kind : TokenKind} {first : String} {more : List String} (hfirst : Cluster.Letter first)
      (hmore : ∀ c ∈ more, Cluster.Letter c ∨ Cluster.Digit c)
      (hkind : kind.Names (String.join (first :: more))) : Lexeme kind (first :: more)
  | string {body : List String} (hbody : "\"" ∉ body) : Lexeme .string ("\"" :: (body ++ ["\""]))

/-! ## The items of a source -/

/-- What is taken where neither a blank nor a comment starts: the longest lexeme in front, if there
is one. -/
inductive Munched (rest : List String) : Except ScanCause TokenKind → List String → Prop
  | token {kind : TokenKind} {taken : List String} (hlexeme : Lexeme kind taken)
      (hlead : taken <+: rest)
      (hlongest : ∀ other longer, Lexeme other longer → longer <+: rest →
        longer.length ≤ taken.length)
      (honly : ∀ other, Lexeme other taken → other = kind) : Munched rest (.ok kind) taken
  | unterminated (hnone : ∀ kind taken, Lexeme kind taken → ¬taken <+: rest)
      (hquote : rest.head? = some "\"") : Munched rest (.error .unterminatedString) rest
  | unknown {c : String} {tail : List String} (hrest : rest = c :: tail)
      (hnone : ∀ kind taken, Lexeme kind taken → ¬taken <+: rest) (hquote : c ≠ "\"") :
      Munched rest (.error .unknownToken) [c]

/-- The kind of an item: that of a token, or why it is none. -/
def ScanItem.kind : ScanItem → Except ScanCause TokenKind
  | .ok token => .ok token.kind
  | .error e => .error e.cause

/-- A blank, a line end or a comment starts here. -/
def StartsGap (rest : List String) : Prop :=
  (∃ c ∈ rest.head?, Cluster.isBlank c ∨ Cluster.isNewline c) ∨ ["/", "/"] <+: rest

/-- The items that are read from a list of clusters on. -/
inductive Scanned : List String → List ScanItem → Prop
  | finish {gap : List String} {last : Token} (hgap : Gap [] gap) (hlast : last.kind = .eof) :
      Scanned gap [.ok last]
  | item {gap taken after : List String} {item : ScanItem} {items : List ScanItem}
      (hgap : Gap (taken ++ after) gap) (hstart : ¬StartsGap (taken ++ after))
      (hmunched : Munched (taken ++ after) item.kind taken) (htext : item.text = String.join taken)
      (hitems : Scanned after items) : Scanned (gap ++ (taken ++ after)) (item :: items)

/-! ## Classes of clusters -/

namespace Text.Cluster

/-- A cluster is one character just if that is its only one. -/
theorem eq_singleton_iff {c : String} {d : Char} : c = String.singleton d ↔ c.toList = [d] := by
  constructor
  · rintro rfl
    simp
  · intro h
    apply String.toList_injective
    simp [h]

/-- The clusters that are read as digits are the digits. -/
theorem isDigit_iff {c : String} : isDigit c = true ↔ Digit c := by
  unfold isDigit Digit
  simp only [eq_singleton_iff]
  split
  · next d hd => simp [hd, Char.isDigit, Char.le_def]
  · next hne =>
    simp only [Bool.false_eq_true, false_iff, not_exists]
    exact fun d h => hne d h.2.2

/-- The clusters with which a name is read are the letters. -/
theorem isNameStart_iff {c : String} : isNameStart c = true ↔ Letter c := by
  unfold isNameStart Letter
  simp only [eq_singleton_iff]
  split
  · next d hd =>
    unfold Char.isAlpha Char.isUpper Char.isLower
    simp [hd, Char.le_def, or_assoc]
  · next hne =>
    simp only [Bool.false_eq_true, false_iff, not_exists]
    exact fun d h => hne d h.2

theorem isNamePart_iff {c : String} : isNamePart c = true ↔ Letter c ∨ Digit c := by
  rw [isNamePart, Bool.or_eq_true, isNameStart_iff, isDigit_iff]

end Text.Cluster

namespace TokenKind

theorem ofName_of_mem {name : String} {kind : TokenKind} (h : (name, kind) ∈ keywordTable) :
    ofName name = kind := by
  fin_cases h <;> rfl

/-- A name is read as what it names. -/
theorem names_ofName (name : String) : (ofName name).Names name := by
  by_cases h : ∃ kind, (name, kind) ∈ keywordTable
  · obtain ⟨kind, h⟩ := h
    rw [ofName_of_mem h]
    exact .inl h
  · refine .inr ⟨?_, fun other hother => h ⟨other, hother⟩⟩
    unfold ofName
    split <;> first | rfl | simp [keywordTable] at h

/-- A kind names a text just if the text is read as that kind. -/
theorem names_iff {kind : TokenKind} {name : String} : kind.Names name ↔ ofName name = kind := by
  constructor
  · rintro (h | ⟨rfl, h⟩)
    · exact ofName_of_mem h
    · rcases names_ofName name with hkeyword | ⟨hname, -⟩
      · exact absurd hkeyword (h _)
      · exact hname
  · rintro rfl
    exact names_ofName name

end TokenKind

/-- The signs of the table are those that are read as signs. -/
theorem mem_signTable_iff {clusters : List String} {kind : TokenKind} :
    (clusters, kind) ∈ signTable ↔ (∃ c, clusters = [c] ∧ TokenKind.ofSign? c = some kind) ∨
      ∃ c d, clusters = [c, d] ∧ TokenKind.ofSigns? c d = some kind := by
  constructor
  · intro h
    fin_cases h <;> first | exact .inl ⟨_, rfl, rfl⟩ | exact .inr ⟨_, _, rfl, rfl⟩
  · rintro (⟨c, rfl, h⟩ | ⟨c, d, rfl, h⟩)
    · unfold TokenKind.ofSign? at h
      split at h <;> cases h <;> simp only [signTable, List.mem_cons, true_or, or_true]
    · unfold TokenKind.ofSigns? at h
      split at h <;> cases h <;> simp only [signTable, List.mem_cons, true_or, or_true]

/-! ## What a lexeme starts with -/

/-- A sign starts with a cluster of its own class, and has two clusters at most. -/
theorem sign_starts {c : String} {more : List String} {kind : TokenKind}
    (h : (c :: more, kind) ∈ signTable) : Cluster.isDigit c = false ∧
      Cluster.isNameStart c = false ∧ c ≠ "\"" ∧ more.length ≤ 1 := by
  fin_cases h <;> decide

/-- No digit starts a name. -/
theorem Text.Cluster.not_isNameStart_of_isDigit {c : String} (h : isDigit c = true) :
    isNameStart c = false := by
  unfold isDigit at h
  unfold isNameStart
  split at h
  · next d hd =>
    have hne : d ≠ '_' := by
      rintro rfl
      exact absurd h (by decide)
    simp only [Char.isDigit, Bool.and_eq_true, decide_eq_true_eq] at h
    unfold Char.isAlpha Char.isUpper Char.isLower
    grind
  · simp at h

namespace Lexeme

variable {kind : TokenKind} {c : String} {more taken : List String}

/-- Every lexeme has a cluster. -/
theorem ne_nil (h : Lexeme kind taken) : taken ≠ [] := by
  cases h with
  | sign h =>
    rintro rfl
    simp [signTable] at h
  | number hne =>
    intro h
    exact hne (List.append_eq_nil_iff.1 h).1
  | name => simp
  | string => simp

/-- A lexeme that starts with a digit is a number. -/
theorem of_digit (hc : Cluster.isDigit c = true) (h : Lexeme kind (c :: more)) :
    kind = .number ∧ ∃ whole fraction, c :: more = whole ++ fraction ∧
      (∀ d ∈ whole, Cluster.isDigit d = true) ∧ Fraction fraction := by
  generalize hclusters : c :: more = clusters at h
  cases h with
  | sign h =>
    rw [← hclusters] at h
    simp [(sign_starts h).1] at hc
  | number hne hwhole hfraction =>
    exact ⟨rfl, _, _, rfl, fun d hd => Cluster.isDigit_iff.2 (hwhole d hd), hfraction⟩
  | name hfirst =>
    obtain ⟨rfl, -⟩ := List.cons.inj hclusters
    rw [← Cluster.isNameStart_iff, Cluster.not_isNameStart_of_isDigit hc] at hfirst
    cases hfirst
  | string =>
    obtain ⟨rfl, -⟩ := List.cons.inj hclusters
    exact absurd hc (by decide)

/-- A number starts with a digit. -/
theorem isDigit_of_append {whole fraction : List String} (hne : whole ≠ [])
    (hwhole : ∀ d ∈ whole, Cluster.Digit d) (h : c :: more = whole ++ fraction) :
    Cluster.isDigit c = true := by
  obtain ⟨d, digits, rfl⟩ := List.exists_cons_of_ne_nil hne
  obtain ⟨rfl, -⟩ := List.cons.inj h
  exact Cluster.isDigit_iff.2 (hwhole c List.mem_cons_self)

/-- A lexeme that starts with a letter is a name, or a keyword. -/
theorem of_letter (hc : Cluster.isNameStart c = true) (h : Lexeme kind (c :: more)) :
    TokenKind.ofName (String.join (c :: more)) = kind ∧
      ∀ d ∈ c :: more, Cluster.isNamePart d = true := by
  generalize hclusters : c :: more = clusters at h
  cases h with
  | sign h =>
    rw [← hclusters] at h
    simp [(sign_starts h).2.1] at hc
  | number hne hwhole hfraction =>
    have hdigit := isDigit_of_append hne hwhole hclusters
    rw [Cluster.not_isNameStart_of_isDigit hdigit] at hc
    cases hc
  | name hfirst hmore hkind =>
    exact ⟨TokenKind.names_iff.1 hkind, List.forall_mem_cons.2
      ⟨Cluster.isNamePart_iff.2 (.inl hfirst), fun d hd => Cluster.isNamePart_iff.2 (hmore d hd)⟩⟩
  | string =>
    obtain ⟨rfl, -⟩ := List.cons.inj hclusters
    exact absurd hc (by decide)

/-- A lexeme that starts with a quote is a text in quotes. -/
theorem of_quote (h : Lexeme kind ("\"" :: more)) :
    kind = .string ∧ ∃ body, "\"" ∉ body ∧ more = body ++ ["\""] := by
  generalize hclusters : "\"" :: more = clusters at h
  cases h with
  | sign h =>
    rw [← hclusters] at h
    exact absurd rfl (sign_starts h).2.2.1
  | number hne hwhole hfraction =>
    exact absurd (isDigit_of_append hne hwhole hclusters) (by decide)
  | name hfirst =>
    obtain ⟨rfl, -⟩ := List.cons.inj hclusters
    exact absurd (Cluster.isNameStart_iff.2 hfirst) (by decide)
  | string hbody => exact ⟨rfl, _, hbody, (List.cons.inj hclusters).2⟩

/-- All other lexemes are signs. -/
theorem of_other (hdigit : Cluster.isDigit c = false) (hletter : Cluster.isNameStart c = false)
    (hquote : c ≠ "\"") (h : Lexeme kind (c :: more)) : (c :: more, kind) ∈ signTable := by
  generalize hclusters : c :: more = clusters at h
  cases h with
  | sign h => exact h
  | number hne hwhole hfraction =>
    rw [isDigit_of_append hne hwhole hclusters] at hdigit
    cases hdigit
  | name hfirst =>
    obtain ⟨rfl, -⟩ := List.cons.inj hclusters
    rw [Cluster.isNameStart_iff.2 hfirst] at hletter
    cases hletter
  | string => exact absurd (List.cons.inj hclusters).1 hquote

/-- A lexeme in front of some clusters starts with the first of them. -/
theorem cons_of_prefix {tail : List String} (h : Lexeme kind taken) (hlead : taken <+: c :: tail) :
    ∃ more, taken = c :: more ∧ more <+: tail := by
  obtain ⟨d, more, rfl⟩ := List.exists_cons_of_ne_nil h.ne_nil
  obtain ⟨rfl, hmore⟩ := List.cons_prefix_cons.1 hlead
  exact ⟨more, rfl, hmore⟩

end Lexeme

/-! ## Longest stretches -/

/-- A prefix in one class is no longer than the longest one. -/
theorem prefix_takeWhile {p : String → Bool} {front clusters : List String}
    (h : ∀ c ∈ front, p c = true) (hlead : front <+: clusters) :
    front <+: clusters.takeWhile p := by
  obtain ⟨rest, rfl⟩ := hlead
  rw [List.takeWhile_append_of_pos h]
  exact List.prefix_append _ _

namespace Munch

/-- What is split off as a fraction is one. -/
theorem fraction_splitFraction (clusters : List String) :
    Fraction (splitFraction clusters).1 := by
  unfold splitFraction
  split
  · next d more =>
    split
    · next hd =>
      exact .digits (by simp [hd]) fun c hc => Cluster.isDigit_iff.1 (List.mem_takeWhile_imp hc)
    · exact .none
  · exact .none

/-- No other number in front is longer. -/
theorem length_le_number {clusters whole fraction : List String}
    (hwhole : ∀ d ∈ whole, Cluster.isDigit d = true) (hfraction : Fraction fraction)
    (hlead : whole ++ fraction <+: clusters) :
    (whole ++ fraction).length ≤ (number clusters).taken.length := by
  have htaken : (number clusters).taken = clusters.takeWhile Cluster.isDigit ++
      (splitFraction (clusters.dropWhile Cluster.isDigit)).1 := rfl
  cases hfraction with
  | none =>
    rw [List.append_nil] at hlead ⊢
    have hle := (prefix_takeWhile hwhole hlead).length_le
    rw [htaken, List.length_append]
    omega
  | digits hne hdigits =>
    -- The digits in front of the point are all there are, and behind it there is one.
    rename_i digits
    obtain ⟨rest, rfl⟩ := hlead
    obtain ⟨d, digits, rfl⟩ := List.exists_cons_of_ne_nil hne
    have hd : Cluster.isDigit d = true := Cluster.isDigit_iff.2 (hdigits d List.mem_cons_self)
    have hpoint : Cluster.isDigit "." = false := by decide
    have hfront : (whole ++ "." :: d :: digits ++ rest).takeWhile Cluster.isDigit = whole := by
      rw [List.append_assoc, List.takeWhile_append_of_pos hwhole]
      simp [hpoint]
    have hback : (whole ++ "." :: d :: digits ++ rest).dropWhile Cluster.isDigit =
        "." :: d :: (digits ++ rest) := by
      rw [List.append_assoc, List.dropWhile_append_of_pos hwhole]
      simp [hpoint]
    have hle := (prefix_takeWhile (p := Cluster.isDigit)
      (fun c hc => Cluster.isDigit_iff.2 (hdigits c hc))
      (List.prefix_append (d :: digits) rest)).length_le
    rw [htaken, hfront, hback, splitFraction, if_pos hd]
    simp only [List.length_append, List.length_cons, List.cons_append] at hle ⊢
    omega

end Munch

/-! ## One item -/

section

variable {c : String} {tail : List String}

/-- Where no sign starts, a simple piece is taken. -/
theorem munch_eq_simple (h : ∀ more kind, (c :: more, kind) ∉ signTable) :
    munch c tail = Munch.simple c tail := by
  cases tail with
  | nil => rfl
  | cons next rest =>
    have hnone : TokenKind.ofSigns? c next = none := Option.eq_none_iff_forall_ne_some.2
      fun kind hkind => h [next] kind (mem_signTable_iff.2 (.inr ⟨c, next, rfl, hkind⟩))
    rw [munch, hnone]

theorem ofSign?_eq_none (h : ∀ more kind, (c :: more, kind) ∉ signTable) :
    TokenKind.ofSign? c = none :=
  Option.eq_none_iff_forall_ne_some.2
    fun kind hkind => h [] kind (mem_signTable_iff.2 (.inl ⟨c, rfl, hkind⟩))

/-- A digit starts the longest number in front. -/
theorem munched_number (hc : Cluster.isDigit c = true) :
    Munched (c :: tail) (munch c tail).kind (munch c tail).taken := by
  have hsign : ∀ more kind, (c :: more, kind) ∉ signTable := fun more kind h => by
    simp [(sign_starts h).1] at hc
  have hquote : c ≠ "\"" := by
    rintro rfl
    exact absurd hc (by decide)
  have hmunch : munch c tail = Munch.number (c :: tail) := by
    rw [munch_eq_simple hsign, Munch.simple, ofSign?_eq_none hsign]
    simp [hquote, hc]
  have hlexeme : Lexeme .number (Munch.number (c :: tail)).taken :=
    .number (by simp [hc]) (fun d hd => Cluster.isDigit_iff.1 (List.mem_takeWhile_imp hd))
      (Munch.fraction_splitFraction _)
  have hlead : (Munch.number (c :: tail)).taken <+: c :: tail :=
    ⟨_, Munch.taken_append_rest_number _⟩
  rw [hmunch]
  refine .token hlexeme hlead (fun other longer hother hlonger => ?_) fun other hother => ?_
  · obtain ⟨more, rfl, -⟩ := hother.cons_of_prefix hlonger
    obtain ⟨-, whole, fraction, hsplit, hwhole, hfraction⟩ := hother.of_digit hc
    rw [hsplit] at hlonger ⊢
    exact Munch.length_le_number hwhole hfraction hlonger
  · obtain ⟨more, htaken, -⟩ := hlexeme.cons_of_prefix hlead
    rw [htaken] at hother
    exact (hother.of_digit hc).1

/-- A letter starts the longest name or keyword in front. -/
theorem munched_name (hc : Cluster.isNameStart c = true) :
    Munched (c :: tail) (munch c tail).kind (munch c tail).taken := by
  have hsign : ∀ more kind, (c :: more, kind) ∉ signTable := fun more kind h => by
    simp [(sign_starts h).2.1] at hc
  have hquote : c ≠ "\"" := by
    rintro rfl
    exact absurd hc (by decide)
  have hdigit : ¬Cluster.isDigit c = true := fun hdigit => by
    simp [Cluster.not_isNameStart_of_isDigit hdigit] at hc
  have hmunch : munch c tail = Munch.name (c :: tail) := by
    rw [munch_eq_simple hsign, Munch.simple, ofSign?_eq_none hsign]
    simp [hquote, hdigit, hc]
  have hpart : Cluster.isNamePart c = true := by simp [Cluster.isNamePart, hc]
  have htaken : (c :: tail).takeWhile Cluster.isNamePart = c :: tail.takeWhile Cluster.isNamePart :=
    List.takeWhile_cons_of_pos hpart
  have hlead := List.takeWhile_prefix Cluster.isNamePart (l := c :: tail)
  rw [hmunch, Munch.name]
  dsimp only
  rw [htaken] at hlead ⊢
  refine .token ?_ hlead (fun other longer hother hlonger => ?_) fun other hother =>
    (hother.of_letter hc).1.symm
  · exact .name (Cluster.isNameStart_iff.1 hc)
      (fun d hd => Cluster.isNamePart_iff.1 (List.mem_takeWhile_imp hd))
      (TokenKind.names_ofName _)
  · obtain ⟨more, rfl, -⟩ := hother.cons_of_prefix hlonger
    rw [← htaken]
    exact (prefix_takeWhile (hother.of_letter hc).2 hlonger).length_le

/-- A quotation mark starts a text in quotes, if there is a second one. -/
theorem munched_string : Munched ("\"" :: tail) (munch "\"" tail).kind (munch "\"" tail).taken := by
  have hsign : ∀ more kind, ("\"" :: more, kind) ∉ signTable := fun more kind h =>
    (sign_starts h).2.2.1 rfl
  have hmunch : munch "\"" tail = Munch.string tail := by
    rw [munch_eq_simple hsign, Munch.simple, ofSign?_eq_none hsign]
    simp
  -- A text in front ends at the first quote.
  have hfirst : ∀ {kind : TokenKind} {more : List String}, Lexeme kind ("\"" :: more) →
      more <+: tail → more = tail.takeWhile (· ≠ "\"") ++ ["\""] ∧
        tail.dropWhile (· ≠ "\"") ≠ [] := by
    rintro kind more h ⟨rest, rfl⟩
    obtain ⟨-, body, hbody, rfl⟩ := h.of_quote
    have hpos : ∀ c ∈ body, decide (c ≠ "\"") = true := fun c hc =>
      decide_eq_true fun hquote => hbody (hquote ▸ hc)
    rw [List.append_assoc, List.takeWhile_append_of_pos hpos, List.dropWhile_append_of_pos hpos]
    simp
  rw [hmunch, Munch.string]
  split
  · next quote rest hdrop =>
    have hquote : quote = "\"" := by
      have hnot := List.head_dropWhile_not (fun c : String => decide (c ≠ "\"")) (l := tail)
        (by rw [hdrop]; exact List.cons_ne_nil _ _)
      simp only [hdrop, List.head_cons] at hnot
      simpa using hnot
    subst hquote
    have hbody : "\"" ∉ tail.takeWhile (· ≠ "\"") := fun hmem => by
      simpa using List.mem_takeWhile_imp hmem
    refine .token (.string hbody) ⟨rest, ?_⟩ (fun other longer hother hlonger => ?_)
      fun other hother => hother.of_quote.1
    · have hsplit := List.takeWhile_append_dropWhile (p := (· ≠ "\"")) (l := tail)
      rw [hdrop] at hsplit
      simpa using hsplit
    · obtain ⟨more, rfl, hmore⟩ := hother.cons_of_prefix hlonger
      rw [(hfirst hother hmore).1]
      exact Nat.le_refl _
  · next hdrop =>
    refine .unterminated (fun kind taken h hlead => ?_) rfl
    obtain ⟨more, rfl, hmore⟩ := h.cons_of_prefix hlead
    exact (hfirst h hmore).2 hdrop

/-- Any other cluster is the start of the longest sign in front, or no token. -/
theorem munched_other (hdigit : Cluster.isDigit c = false) (hletter : Cluster.isNameStart c = false)
    (hquote : c ≠ "\"") : Munched (c :: tail) (munch c tail).kind (munch c tail).taken := by
  -- Only signs start here.
  have hsigns : ∀ {kind : TokenKind} {taken : List String}, Lexeme kind taken →
      taken <+: c :: tail → (taken = [c] ∧ TokenKind.ofSign? c = some kind) ∨
        ∃ next rest, tail = next :: rest ∧ taken = [c, next] ∧
          TokenKind.ofSigns? c next = some kind := by
    intro kind taken h hlead
    obtain ⟨more, rfl, hmore⟩ := h.cons_of_prefix hlead
    rcases mem_signTable_iff.1 (h.of_other hdigit hletter hquote) with
      ⟨d, hd, hkind⟩ | ⟨d, next, hd, hkind⟩
    · obtain ⟨rfl, rfl⟩ := List.cons.inj hd
      exact .inl ⟨rfl, hkind⟩
    · obtain ⟨rfl, rfl⟩ := List.cons.inj hd
      obtain ⟨rest, rfl⟩ := hmore
      exact .inr ⟨next, rest, rfl, rfl, hkind⟩
  have hsimple (hnone : ∀ next rest, tail = next :: rest → TokenKind.ofSigns? c next = none) :
      Munched (c :: tail) (Munch.simple c tail).kind (Munch.simple c tail).taken := by
    have hone : ∀ {kind : TokenKind} {taken : List String}, Lexeme kind taken →
        taken <+: c :: tail → taken = [c] ∧ TokenKind.ofSign? c = some kind := by
      intro kind taken h hlead
      refine (hsigns h hlead).resolve_right ?_
      rintro ⟨next, rest, htail, -, hkind⟩
      rw [hnone next rest htail] at hkind
      cases hkind
    unfold Munch.simple
    split
    · next kind hkind =>
      have hlexeme : Lexeme kind [c] := .sign (mem_signTable_iff.2 (.inl ⟨c, rfl, hkind⟩))
      have hlead : [c] <+: c :: tail := by simp
      refine .token hlexeme hlead (fun other longer hother hlonger => ?_) fun other hother => ?_
      · rw [(hone hother hlonger).1]
      · exact Option.some.inj ((hone hother hlead).2.symm.trans hkind)
    · next hkind =>
      rw [if_neg hquote, if_neg (by simp [hdigit]), if_neg (by simp [hletter])]
      refine .unknown rfl (fun kind taken h hlead => ?_) hquote
      rw [(hone h hlead).2] at hkind
      cases hkind
  cases tail with
  | nil => exact hsimple fun next rest h => by cases h
  | cons next rest =>
    rw [munch]
    split
    · next kind hkind =>
      have hlexeme : Lexeme kind [c, next] :=
        .sign (mem_signTable_iff.2 (.inr ⟨c, next, rfl, hkind⟩))
      have hlead : [c, next] <+: c :: next :: rest := by simp
      have hle : ∀ {other longer}, Lexeme other longer → longer <+: c :: next :: rest →
          longer.length ≤ 2 := fun hother hlonger => by
        rcases hsigns hother hlonger with ⟨rfl, -⟩ | ⟨d, more, -, rfl, -⟩ <;> simp
      refine .token hlexeme hlead (fun other longer => hle) fun other hother => ?_
      rcases hsigns hother hlead with ⟨heq, -⟩ | ⟨d, more, htail, -, hother⟩
      · cases heq
      · obtain ⟨rfl, rfl⟩ := List.cons.inj htail
        exact Option.some.inj (hother.symm.trans hkind)
    · next hnone =>
      refine hsimple fun d more h => ?_
      obtain ⟨rfl, rfl⟩ := List.cons.inj h
      exact hnone

/-- **What is taken is the longest lexeme in front**, or what is no token. -/
theorem munched_munch (c : String) (tail : List String) :
    Munched (c :: tail) (munch c tail).kind (munch c tail).taken := by
  cases hdigit : Cluster.isDigit c with
  | true => exact munched_number hdigit
  | false =>
    cases hletter : Cluster.isNameStart c with
    | true => exact munched_name hletter
    | false =>
      by_cases hquote : c = "\""
      · subst hquote
        exact munched_string
      · exact munched_other hdigit hletter hquote

end

/-! ## The whole source -/

namespace Cursor

/-- Skipping ends where nothing more is to be skipped. -/
theorem not_startsGap_skip (comment : Bool) (offset line : Nat) (clusters : List String) :
    ¬StartsGap (skip comment offset line clusters).rest := by
  induction clusters generalizing comment offset line with
  | nil => simp [skip, StartsGap]
  | cons c rest ih =>
    rw [skip]
    split
    · exact ih _ _ _
    · next hnewline =>
      split
      · exact ih _ _ _
      · next hblank =>
        split
        · exact ih _ _ _
        · next hslash =>
          rintro (⟨d, hd, hgap⟩ | ⟨more, hmore⟩)
          · obtain rfl : c = d := by simpa using hd
            rcases hgap with hgap | hgap
            · simp [hgap] at hblank
            · exact hnewline hgap
          · obtain ⟨rfl, rfl⟩ := List.cons.inj hmore
            simp at hslash

/-- An item is of the kind of its piece. -/
@[simp] theorem kind_item (cursor : Cursor) (m : Munch) : (cursor.item m).kind = m.kind := by
  unfold item
  split
  · next h => rw [h]; rfl
  · next h => rw [h]; rfl

/-- **What is read from a place on is scanned.** -/
theorem scanned_items {bound : Nat} (cursor : Cursor) (done : Array ScanItem)
    (hbound : cursor.rest.length < bound) :
    ∃ items, (Cursor.items done bound cursor).toList = done.toList ++ items ∧
      Scanned cursor.rest items := by
  -- By induction on the bound, as the scanner reads: a gap, and then the end or one item.
  induction bound generalizing cursor done with
  | zero => omega
  | succ bound ih =>
    obtain ⟨gap, hclusters, -, hgap⟩ := skip_gap false cursor.offset cursor.line cursor.rest
    change cursor.rest = gap ++ cursor.skipBlanks.rest at hclusters
    replace hgap : Gap cursor.skipBlanks.rest gap := hgap
    have hstart : ¬StartsGap cursor.skipBlanks.rest := not_startsGap_skip _ _ _ _
    rw [Cursor.items]
    dsimp only
    split
    · next hrest =>
      rw [hrest] at hclusters hgap
      rw [List.append_nil] at hclusters
      refine ⟨[.ok cursor.skipBlanks.endToken], by simp, ?_⟩
      rw [hclusters]
      exact .finish hgap rfl
    · next c tail hrest =>
      have hsplit : cursor.skipBlanks.rest = (munch c tail).taken ++ (munch c tail).rest := by
        rw [taken_append_rest_munch, hrest]
      rw [hsplit] at hclusters hgap hstart
      have hshorter : (munch c tail).rest.length < bound := by
        have hpos := List.length_pos_iff.2 (munch_taken_ne_nil c tail)
        rw [hclusters] at hbound
        simp only [List.length_append] at hbound
        omega
      obtain ⟨items, hitems, hscanned⟩ := ih (cursor.skipBlanks.move (munch c tail))
        (done.push (cursor.skipBlanks.item (munch c tail))) hshorter
      refine ⟨cursor.skipBlanks.item (munch c tail) :: items, by simp [hitems], ?_⟩
      rw [hclusters]
      refine .item hgap hstart ?_ (text_item _ _) hscanned
      rw [taken_append_rest_munch, kind_item]
      exact munched_munch c tail

end Cursor

/-- **The tokens of a source are maximal munches**, whichever way it is cut, so for `scan` too: each
is the longest lexeme behind the blanks and comments in front of it, what is no lexeme is an error,
and reading goes on behind each. -/
theorem scanned_split (cut : Cutting) (source : String) :
    Scanned (cut.split source) (cut.scan source) := by
  obtain ⟨items, hitems, hscanned⟩ :=
    Cursor.scanned_items ⟨0, 1, cut.split source⟩ #[] (Nat.lt_succ_self _)
  have hscan : cut.scan source = items := by simpa [Cutting.scan] using hitems
  rw [hscan]
  exact hscanned

end ScriptVM
