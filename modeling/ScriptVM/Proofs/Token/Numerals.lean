/-
# The numbers in a source

A number is written with digits and possibly a point with more digits behind it (`Numeral`).  One
with a point always has a value; one without is an integer, and has a value just if that is one of
64 bits.

Main statements: `numeral_of_mem_scan`, `Decimal.read_of_point` and `Decimal.readInt_of_digits`.
-/
import Mathlib.Data.List.TakeWhile
import ScriptVM.Decimal.Reader
import ScriptVM.Proofs.Token.Names

namespace ScriptVM

open Text

/-- Digits, and possibly a point with digits behind it. -/
def Numeral (text : List Char) : Prop :=
  ∃ whole fraction, whole ≠ [] ∧ whole.all Char.isDigit ∧ fraction.all Char.isDigit ∧
    (text = whole ∨ text = whole ++ '.' :: fraction)

/-! ## The written form -/

/-- Clusters that are digits spell digits. -/
theorem Text.Cluster.all_isDigit_join {clusters : List String}
    (h : ∀ c ∈ clusters, isDigit c = true) : (String.join clusters).toList.all Char.isDigit := by
  rw [String.toList_join, List.all_flatMap, List.all_eq_true]
  intro c hc
  have hdigit := h c hc
  unfold isDigit at hdigit
  split at hdigit
  · next d hd => simpa [hd] using hdigit
  · simp at hdigit

namespace Munch

/-- A fraction is nothing, or a point with digits behind it. -/
theorem splitFraction_cases (clusters : List String) :
    (splitFraction clusters).1 = [] ∨
      ∃ fraction, (splitFraction clusters).1 = "." :: fraction ∧
        ∀ c ∈ fraction, Cluster.isDigit c = true := by
  unfold splitFraction
  split
  · split
    · exact .inr ⟨_, rfl, fun c hc => List.mem_takeWhile_imp hc⟩
    · exact .inl rfl
  · exact .inl rfl

/-- A number is spelled by digits, with digits behind the point if there is one. -/
theorem number_numeral {c : String} (tail : List String) (hc : Cluster.isDigit c = true) :
    Numeral (String.join (number (c :: tail)).taken).toList := by
  have hdigits : ∀ d ∈ (c :: tail).takeWhile Cluster.isDigit, Cluster.isDigit d = true :=
    fun d hd => List.mem_takeWhile_imp hd
  have hwhole : (String.join ((c :: tail).takeWhile Cluster.isDigit)).toList ≠ [] := by
    rw [List.takeWhile_cons_of_pos hc, String.toList_join, List.flatMap_cons]
    intro hnil
    rw [List.append_eq_nil_iff] at hnil
    rw [Cluster.isDigit, hnil.1] at hc
    simp at hc
  have htaken : (number (c :: tail)).taken = (c :: tail).takeWhile Cluster.isDigit ++
      (splitFraction ((c :: tail).dropWhile Cluster.isDigit)).1 := rfl
  rw [htaken]
  rcases splitFraction_cases ((c :: tail).dropWhile Cluster.isDigit) with
    hnone | ⟨fraction, hfraction, hfractionDigits⟩
  · rw [hnone, List.append_nil]
    exact ⟨_, [], hwhole, Cluster.all_isDigit_join hdigits, rfl, .inl rfl⟩
  · refine ⟨_, (String.join fraction).toList, hwhole, Cluster.all_isDigit_join hdigits,
      Cluster.all_isDigit_join hfractionDigits, .inr ?_⟩
    rw [hfraction, String.toList_join, String.toList_join, String.toList_join, List.flatMap_append,
      List.flatMap_cons]
    rfl

/-- A piece that is a number is a numeral. -/
theorem simple_numeral {c : String} {tail : List String} (h : (simple c tail).kind = .ok .number) :
    Numeral (String.join (simple c tail).taken).toList := by
  unfold simple at h ⊢
  split
  · next kind hsign =>
    rw [hsign] at h
    obtain rfl := Except.ok.inj h
    unfold TokenKind.ofSign? at hsign
    split at hsign <;> simp at hsign
  · next hsign =>
    rw [hsign] at h
    dsimp only at h
    split
    · next hquote =>
      rw [if_pos hquote, string] at h
      split at h <;> simp at h
    · next hquote =>
      rw [if_neg hquote] at h
      split
      · next hdigit => exact number_numeral tail hdigit
      · next hdigit =>
        rw [if_neg hdigit] at h
        split
        · next hname =>
          rw [if_pos hname, name] at h
          have hkind := Except.ok.inj h
          unfold TokenKind.ofName at hkind
          split at hkind <;> simp at hkind
        · next hname => simp [hname] at h

end Munch

/-- A piece that is a number is a numeral. -/
theorem munch_numeral {c : String} {tail : List String} (h : (munch c tail).kind = .ok .number) :
    Numeral (String.join (munch c tail).taken).toList := by
  cases tail with
  | nil => exact Munch.simple_numeral h
  | cons next rest =>
    rw [munch] at h ⊢
    split
    · next kind hsigns =>
      rw [hsigns] at h
      obtain rfl := Except.ok.inj h
      unfold TokenKind.ofSigns? at hsigns
      split at hsigns <;> simp at hsigns
    · next hsigns =>
      rw [hsigns] at h
      exact Munch.simple_numeral h

/-- **The numbers of a source are numerals.** -/
theorem numeral_of_mem_scan {source : String} {token : Token} (h : .ok token ∈ scan source)
    (hkind : token.kind = .number) : Numeral token.lexeme.toList := by
  rcases mem_scan h with ⟨here, c, tail, hitem⟩ | ⟨here, hitem⟩
  · rw [Cursor.item] at hitem
    split at hitem
    · next kind hmunch =>
      obtain rfl := Except.ok.inj hitem
      subst hkind
      exact munch_numeral hmunch
    · simp at hitem
  · obtain rfl := Except.ok.inj hitem
    simp [Cursor.endToken] at hkind

/-! ## The value -/

namespace Decimal

/-- A text that starts with a digit has no sign. -/
theorem takeSign_of_isDigit {c : Char} {rest : List Char} (h : c.isDigit = true) :
    takeSign (c :: rest) = (false, c :: rest) := by
  unfold takeSign
  split
  · next hcons =>
    obtain ⟨rfl, -⟩ := List.cons.inj hcons
    simp at h
  · next hcons =>
    obtain ⟨rfl, -⟩ := List.cons.inj hcons
    simp at h
  · rfl

theorem toLower_of_isDigit {c : Char} (h : c.isDigit = true) : c.toLower = c := by
  simp only [Char.isDigit, Bool.and_eq_true, decide_eq_true_eq] at h
  unfold Char.toLower
  grind

theorem not_isAlpha_of_isDigit {c : Char} (h : c.isDigit = true) : ¬ c.isAlpha = true := by
  simp only [Char.isDigit, Bool.and_eq_true, decide_eq_true_eq] at h
  unfold Char.isAlpha Char.isUpper Char.isLower
  grind

/-- A numeral with a point has a value. -/
theorem readNumeral_of_point {whole fraction : List Char} (hne : whole ≠ [])
    (hwhole : whole.all Char.isDigit) (hfraction : fraction.all Char.isDigit) :
    (readNumeral (whole ++ '.' :: fraction)).isSome := by
  have htake : (whole ++ '.' :: fraction).takeWhile Char.isDigit = whole := by
    rw [List.takeWhile_append_of_pos (List.all_eq_true.1 hwhole)]
    simp
  have hdrop : (whole ++ '.' :: fraction).dropWhile Char.isDigit = '.' :: fraction := by
    rw [List.dropWhile_append_of_pos (List.all_eq_true.1 hwhole)]
    simp
  have hrest : takeFraction ('.' :: fraction) = (fraction, []) := by
    rw [takeFraction, List.takeWhile_eq_self_iff.2 (List.all_eq_true.1 hfraction),
      List.dropWhile_eq_nil_iff.2 (List.all_eq_true.1 hfraction)]
  unfold readNumeral
  rw [htake, hdrop, hrest]
  simp [hne, readExponent]

/-- Digits with a point and digits behind it can be read. -/
theorem read_of_point {text : String} {whole fraction : List Char} (hne : whole ≠ [])
    (hwhole : whole.all Char.isDigit) (hfraction : fraction.all Char.isDigit)
    (htext : text.toList = whole ++ '.' :: fraction) : (read text).isSome := by
  obtain ⟨c, rest, rfl⟩ := List.exists_cons_of_ne_nil hne
  have hc : c.isDigit = true := List.all_eq_true.1 hwhole c List.mem_cons_self
  -- No name of a special value starts with a digit.
  have hname : ∀ x : Char, x.isAlpha = true → ∀ name : String, name.toList.head? = some x →
      String.ofList ((c :: rest ++ '.' :: fraction).map Char.toLower) ≠ name := by
    rintro x hx name hhead rfl
    rw [String.toList_ofList, List.cons_append, List.map_cons, List.head?_cons] at hhead
    rw [← Option.some.inj hhead, toLower_of_isDigit hc] at hx
    exact not_isAlpha_of_isDigit hc hx
  have hmagnitude : readMagnitude (c :: rest ++ '.' :: fraction) =
      readNumeral (c :: rest ++ '.' :: fraction) := by
    unfold readMagnitude
    dsimp only
    rw [if_neg, if_neg (hname 'n' (by decide) "nan" rfl)]
    rw [Bool.or_eq_true, decide_eq_true_eq, decide_eq_true_eq]
    exact not_or.2 ⟨hname 'i' (by decide) "inf" rfl, hname 'i' (by decide) "infinity" rfl⟩
  rw [read, htext, List.cons_append, takeSign_of_isDigit hc]
  dsimp only
  rw [← List.cons_append, hmagnitude, Option.isSome_map]
  exact readNumeral_of_point hne hwhole hfraction

/-- An integer has a value just if it is one of 64 bits. -/
theorem readInt_of_digits {text : String} (hne : text.toList ≠ [])
    (hdigits : text.toList.all Char.isDigit) :
    (readInt text).isSome ↔ (ofDigits text.toList : Int) ≤ Int64.maxValue.toInt := by
  have hempty : text.toList.isEmpty = false := by simpa using hne
  rw [readInt, hempty, hdigits]
  simp [int64?, fits64]

end Decimal

end ScriptVM
