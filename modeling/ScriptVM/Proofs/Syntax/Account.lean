/-
# Keeping count

While a function is built, the functions around it are unfinished too, and a variable that it
captures may be charged to several of them.  An `Account` says what each of them holds so far, and
`Matches` that the contexts of a builder hold just that: the constants in their order, and a capture
for each name.  Both only grow, so that there is room for a part of a cost if there is room for the
whole (`Account.Room.of_charge`).

Main statement: looking a variable up in the functions around charges its name to the functions in
between, and fails just where there is no room for it (`resolveCapture_of_matches`).
-/
import Mathlib.Data.List.Induction
import Mathlib.Data.List.Nodup
import ScriptVM.Proofs.Chunk.Constants
import ScriptVM.Proofs.Program.Scopes
import ScriptVM.Proofs.Syntax.Legality

namespace ScriptVM

/-! ## Distinct elements -/

section

variable {α : Type} {same : α → α → Bool}

/-- One more item is kept if nothing like it is there. -/
theorem distinct_concat (xs : List α) (x : α) :
    distinct same (xs ++ [x]) =
      if (distinct same xs).any (same · x) then distinct same xs else distinct same xs ++ [x] := by
  rw [distinct, List.foldl_append]
  rfl

/-- Items that come later change nothing about those that are kept. -/
theorem isPrefix_distinct (xs ys : List α) : distinct same xs <+: distinct same (xs ++ ys) := by
  induction ys using List.reverseRecOn with
  | nil => exact (List.append_nil xs).symm ▸ List.prefix_refl _
  | append_singleton ys y ih =>
    rw [← List.append_assoc, distinct_concat]
    split
    · exact ih
    · exact ih.trans (List.prefix_append _ _)

theorem length_distinct_le (xs ys : List α) :
    (distinct same xs).length ≤ (distinct same (xs ++ ys)).length :=
  (isPrefix_distinct xs ys).length_le

/-- No text is kept twice. -/
theorem nodup_distinct (xs : List String) : (distinct (· == ·) xs).Nodup := by
  induction xs using List.reverseRecOn with
  | nil => exact List.nodup_nil
  | append_singleton xs y ih =>
    rw [distinct_concat]
    split
    · exact ih
    · next hmem =>
      simp only [List.any_beq', List.contains_iff_mem] at hmem
      grind

end

/-! ## Costs -/

namespace Cost

variable {a c d : Cost}

@[simp] theorem size_add : (c + d).size = c.size + d.size := rfl

@[simp] theorem captured_add : (c + d).captured = c.captured ++ d.captured := rfl

@[simp] theorem constants_add : (c + d).constants = c.constants ++ d.constants := rfl

@[simp] theorem functions_add : (c + d).functions = c.functions + d.functions := rfl

@[simp] theorem parameters_add : (c + d).parameters = c.parameters + d.parameters := rfl

@[simp] theorem size_zero : (0 : Cost).size = 0 := rfl

@[simp] theorem captured_zero : (0 : Cost).captured = [] := rfl

@[simp] theorem constants_zero : (0 : Cost).constants = [] := rfl

@[simp] theorem functions_zero : (0 : Cost).functions = 0 := rfl

@[simp] theorem parameters_zero : (0 : Cost).parameters = 0 := rfl

@[simp] theorem zero_add : 0 + c = c := by
  ext <;> simp

@[simp] theorem add_zero : c + 0 = c := by
  ext <;> simp

theorem add_assoc : a + c + d = a + (c + d) := by
  ext <;> simp [Nat.add_assoc]

@[simp] theorem bytes_add_bytes (n m : Nat) : bytes n + bytes m = bytes (n + m) := by
  ext <;> simp [bytes]

/-- Costs within the limits are so without a part of them. -/
theorem Within.of_add (h : (c + d).Within) : c.Within where
  constants := by
    have := h.constants
    have : (distinct Value.sameConstant c.constants).length ≤
        (distinct Value.sameConstant (c.constants ++ d.constants)).length :=
      length_distinct_le c.constants d.constants
    simp only [constantCount, constants_add, functions_add] at *
    omega
  captured := Nat.le_trans (length_distinct_le c.captured d.captured) h.captured
  parameters := Nat.le_trans (Nat.le_add_right _ _) h.parameters

end Cost

/-! ## Accounts -/

/-- An unfinished function around. -/
structure Level where
  /-- The place in it. -/
  site : Site
  /-- What it holds so far. -/
  spent : Cost

/-- What the unfinished functions hold so far. -/
structure Account where
  /-- What the function at hand holds. -/
  spent : Cost
  /-- The functions around it, innermost first. -/
  around : List Level

/-- Charges captured names to the functions around, each up to the one of which it is a local. -/
def spread (names : List String) : List Level → List Level
  | [] => []
  | l :: ls =>
    let rest := names.filter (· ∉ l.site.locals)
    ⟨l.site, l.spent + .capturing rest⟩ :: spread rest ls

/-- Capturing nothing costs nothing. -/
theorem spread_nil (ls : List Level) : spread [] ls = ls := by
  induction ls with
  | nil => rfl
  | cons l ls ih =>
    have hzero : Cost.capturing [] = 0 := rfl
    simp [spread, ih, hzero]

/-- Names are captured in the functions around one after the other. -/
theorem spread_append (xs ys : List String) (ls : List Level) :
    spread ys (spread xs ls) = spread (xs ++ ys) ls := by
  induction ls generalizing xs ys with
  | nil => rfl
  | cons l ls ih =>
    have hadd : ∀ xs ys, Cost.capturing xs + Cost.capturing ys = Cost.capturing (xs ++ ys) :=
      fun _ _ => rfl
    simp [spread, ih, Cost.add_assoc, hadd]

/-- Capturing names keeps the places where functions stand. -/
theorem site_spread (names : List String) (ls : List Level) :
    (spread names ls).map (·.site) = ls.map (·.site) := by
  induction ls generalizing names with
  | nil => rfl
  | cons l ls ih => simp [spread, ih]

namespace Account

/-- Charges a cost to the function at hand. -/
def charge (a : Account) (c : Cost) : Account :=
  ⟨a.spent + c, spread c.captured a.around⟩

/-- No function holds too much. -/
structure Room (a : Account) : Prop where
  /-- The function at hand does not. -/
  here : a.spent.Within
  /-- The functions around do not. -/
  around : ∀ l ∈ a.around, l.spent.Within

theorem charge_charge (a : Account) (c d : Cost) : (a.charge c).charge d = a.charge (c + d) := by
  rw [charge, charge, charge, spread_append, Cost.add_assoc]
  rfl

theorem charge_zero (a : Account) : a.charge 0 = a := by
  rw [charge, Cost.add_zero]
  exact congrArg (Account.mk a.spent) (spread_nil a.around)

/-- Functions that keep to their limits with what they capture do so without it. -/
theorem within_of_spread {names : List String} {ls : List Level}
    (h : ∀ l ∈ spread names ls, l.spent.Within) : ∀ l ∈ ls, l.spent.Within := by
  induction ls generalizing names with
  | nil => simp
  | cons l ls ih =>
    simp only [spread, List.forall_mem_cons] at h ⊢
    exact ⟨h.1.of_add, ih h.2⟩

/-- **There is room for the start of a cost if there is room for all of it.** -/
theorem Room.of_charge {a : Account} {c : Cost} (h : (a.charge c).Room) : a.Room :=
  ⟨h.here.of_add, within_of_spread h.around⟩

end Account

/-! ## Constants -/

/-- The constants of a function are those of its cost, each only once, and references to finished
functions. -/
structure Pool (finished : Nat) (constants : Array Value) (spent : Cost) : Prop where
  /-- The constants that are no functions are those of the cost. -/
  values : constants.toList.filter (·.function?.isNone) =
    distinct Value.sameConstant spent.constants
  /-- There are as many functions as the cost says. -/
  functions : (constants.toList.filter (·.function?.isSome)).length = spent.functions
  /-- The functions are finished. -/
  references : ∀ id, .functionRef id ∈ constants.toList → id.index < finished

namespace Pool

variable {n m : Nat} {chunk : Chunk} {spent : Cost} {constants : Array Value} {value : Value}

/-- A pool of constants is as large as what was spent on it. -/
theorem size_eq (h : Pool n constants spent) : constants.size = spent.constantCount := by
  have hsplit := List.length_eq_length_filter_add (l := constants.toList) (·.function?.isNone)
  rw [Array.length_toList, h.values] at hsplit
  rw [hsplit, Cost.constantCount, ← h.functions]
  simp only [Option.not_isNone]

theorem mono (h : Pool n constants spent) (hle : n ≤ m) : Pool m constants spent :=
  ⟨h.values, h.functions, fun id hid => Nat.lt_of_lt_of_le (h.references id hid) hle⟩

theorem congr {spent' : Cost} (h : Pool n constants spent)
    (hconstants : spent'.constants = spent.constants)
    (hfunctions : spent'.functions = spent.functions) : Pool n constants spent' :=
  ⟨hconstants ▸ h.values, hfunctions ▸ h.functions, h.references⟩

/-- A constant is there already, or there is room for it, or there is none. -/
theorem addConstant (h : Pool n chunk.constants spent) (hvalue : value.function? = none) :
    (∃ i constants, chunk.addConstant value = (some i, { chunk with constants }) ∧
        Pool n constants (spent + .constant value)) ∧
      (spent.Within → (spent + .constant value).constantCount ≤ 256) ∨
    (chunk.addConstant value).1 = none ∧ 256 < (spent + .constant value).constantCount := by
  -- A function can stand for no other constant.
  have hany : chunk.constants.toList.any (·.sameConstant value) =
      (distinct Value.sameConstant spent.constants).any (·.sameConstant value) := by
    rw [← h.values, List.any_filter]
    refine List.any_congr rfl fun v => ?_
    cases v with
    | functionRef id =>
      cases value <;> simp_all [Value.function?, Value.sameConstant, Value.equals]
    | _ => rfl
  have hconstants : (spent + .constant value).constants = spent.constants ++ [value] := rfl
  have hfunctions : (spent + .constant value).functions = spent.functions := rfl
  have hnew : chunk.Lacks value → distinct Value.sameConstant (spent + .constant value).constants =
      distinct Value.sameConstant spent.constants ++ [value] := by
    intro hlacks
    rw [hconstants, distinct_concat, if_neg]
    rw [← hany, List.any_eq_true]
    rintro ⟨v, hv, hsame⟩
    simp [hlacks v hv] at hsame
  have hcount : chunk.Lacks value →
      (spent + .constant value).constantCount = chunk.constants.size + 1 := by
    intro hlacks
    rw [h.size_eq, Cost.constantCount, Cost.constantCount, hnew hlacks, hfunctions]
    simp only [List.length_append, List.length_singleton]
    omega
  rcases chunk.addConstant_cases value with
    ⟨i, hlt, hsame, heq⟩ | ⟨hlacks, hroom, heq⟩ | ⟨hlacks, hfull, heq⟩
  · have htrue : (distinct Value.sameConstant spent.constants).any (·.sameConstant value) := by
      rw [← hany, List.any_eq_true]
      exact ⟨chunk.constants[i], by simp, hsame⟩
    have hdistinct : distinct Value.sameConstant (spent + .constant value).constants =
        distinct Value.sameConstant spent.constants := by
      rw [hconstants, distinct_concat, if_pos htrue]
    refine .inl ⟨⟨_, chunk.constants, heq, ⟨hdistinct ▸ h.values, h.functions, h.references⟩⟩, ?_⟩
    intro hwithin
    rw [Cost.constantCount, hdistinct, hfunctions]
    exact hwithin.constants
  · refine .inl ⟨⟨_, _, heq, ⟨?_, ?_, ?_⟩⟩, ?_⟩
    · rw [hnew hlacks, Array.toList_push, List.filter_append, h.values]
      simp [hvalue]
    · rw [hfunctions, ← h.functions, Array.toList_push, List.filter_append]
      simp [hvalue]
    · intro id hid
      rw [Array.toList_push, List.mem_append, List.mem_singleton] at hid
      rcases hid with hid | rfl
      · exact h.references id hid
      · simp [Value.function?] at hvalue
    · intro _
      rw [hcount hlacks]
      exact hroom
  · refine .inr ⟨congrArg Prod.fst heq, ?_⟩
    rw [hcount hlacks]
    exact Nat.lt_succ_of_le hfull

/-- A finished function is a new constant, for which there is room or not. -/
theorem addFunction (h : Pool n chunk.constants spent) {function : Cost}
    (hconstants : function.constants = []) (hfunctions : function.functions = 1) :
    (∃ i constants, chunk.addConstant (.functionRef ⟨n⟩) = (some i, { chunk with constants }) ∧
        Pool (n + 1) constants (spent + function)) ∧
      (spent + function).constantCount ≤ 256 ∨
    (chunk.addConstant (.functionRef ⟨n⟩)).1 = none ∧ 256 < (spent + function).constantCount := by
  have hcount : (spent + function).constantCount = chunk.constants.size + 1 := by
    rw [h.size_eq, Cost.constantCount, Cost.constantCount, Cost.constants_add, Cost.functions_add,
      hconstants, hfunctions, List.append_nil, Nat.add_assoc]
  rcases chunk.addConstant_cases (.functionRef ⟨n⟩) with
    ⟨i, hlt, hsame, -⟩ | ⟨-, hroom, heq⟩ | ⟨-, hfull, heq⟩
  · -- No constant can stand for a function that is not numbered yet.
    have hmem := Array.getElem_mem_toList hlt
    rw [Value.eq_of_sameConstant_functionRef hsame] at hmem
    exact absurd (h.references ⟨n⟩ hmem) (Nat.lt_irrefl n)
  · refine .inl ⟨⟨_, _, heq, ⟨?_, ?_, ?_⟩⟩, ?_⟩
    · rw [Cost.constants_add, hconstants, List.append_nil, ← h.values, Array.toList_push,
        List.filter_append]
      simp [Value.function?]
    · rw [Cost.functions_add, hfunctions, ← h.functions, Array.toList_push, List.filter_append]
      simp [Value.function?]
    · intro id hid
      rw [Array.toList_push, List.mem_append, List.mem_singleton] at hid
      rcases hid with hid | hid
      · exact Nat.lt_succ_of_lt (h.references id hid)
      · injection hid with hid
        rw [hid]
        exact Nat.lt_succ_self n
    · rw [hcount]
      exact hroom
  · refine .inr ⟨congrArg Prod.fst heq, ?_⟩
    rw [hcount]
    exact Nat.lt_succ_of_le hfull

end Pool

/-! ## Captured variables -/

/-- The slot of the newest local of a name. -/
def slotOf (name : String) : List String → Option Nat
  | [] => none
  | x :: xs => if x = name then some xs.length else slotOf name xs

/-- A name has no slot just if it is not there. -/
theorem slotOf_eq_none {name : String} {xs : List String} : slotOf name xs = none ↔ name ∉ xs := by
  induction xs with
  | nil => simp [slotOf]
  | cons x xs ih =>
    rw [slotOf]
    split
    · next hname => simp [hname]
    · next hname => simp [ih, Ne.symm hname]

theorem mem_of_slotOf {name : String} {xs : List String} {i : Nat} (h : slotOf name xs = some i) :
    name ∈ xs := by
  by_contra hname
  rw [slotOf_eq_none.2 hname] at h
  cases h

/-- The slot of a name has the name. -/
theorem slot?_of_slotOf {name : String} {xs : List String} {i : Nat}
    (h : slotOf name xs = some i) : slot? xs i = some name := by
  induction xs with
  | nil => simp [slotOf] at h
  | cons x xs ih =>
    rw [slotOf] at h
    split at h
    · next hname =>
      obtain rfl := Option.some.inj h
      rw [slot?_cons_length, hname]
    · exact slot?_append_of_some (X := [x]) (ih h)

namespace FunctionContext

/-- Finding a local variable by its name is finding the slot of the name. -/
theorem findLocal?_map_fst (name : String) (locals : List Local) :
    (findLocal? name locals).map (·.1) = slotOf name (locals.map (·.name)) := by
  induction locals with
  | nil => rfl
  | cons l rest ih =>
    rw [findLocal?, List.map_cons, slotOf, List.length_map]
    split
    · rfl
    · exact ih

/-- Where all locals have their values, looking a name up among them does not fail. -/
theorem resolveLocal_of_initialized {c : FunctionContext} {name : String}
    (h : ∀ l ∈ c.locals, l.initialized = true) :
    c.resolveLocal name = .ok ((slotOf name (c.locals.map (·.name))).map UInt8.ofNat) := by
  rw [resolveLocal, ← findLocal?_map_fst]
  split
  · next hfind =>
    rw [hfind]
    rfl
  · next slot l hfind =>
    have hmem : l ∈ c.locals := mem_of_slot? (slot?_of_findLocal? hfind).1
    rw [if_pos (h l hmem), hfind]
    rfl

end FunctionContext

/-- A capture stands for a name: for a local of the function around, or for what that function
captures under the name. -/
def Denotes (around : List Level) (c : Capture) (name : String) : Prop :=
  match around with
  | [] => False
  | l :: _ =>
    if c.isLocal then slotOf name l.site.locals = some c.index.toNat
    else name ∉ l.site.locals ∧ (distinct (· == ·) l.spent.captured)[c.index.toNat]? = some name

namespace Denotes

variable {around : List Level} {c d : Capture} {x y : String}

/-- What is captured denotes one name. -/
theorem name_eq (hx : Denotes around c x) (hy : Denotes around c y) : x = y := by
  cases around with
  | nil => exact absurd hx id
  | cons l ls =>
    unfold Denotes at hx hy
    dsimp only at hx hy
    split at hx
    · next hlocal =>
      rw [if_pos hlocal] at hy
      have hslot := (slot?_of_slotOf hx).symm.trans (slot?_of_slotOf hy)
      exact Option.some.inj hslot
    · next hlocal =>
      rw [if_neg hlocal] at hy
      exact Option.some.inj (hx.2.symm.trans hy.2)

/-- What denotes one name in one function is captured alike. -/
theorem capture_eq (hc : Denotes around c x) (hd : Denotes around d x) : c = d := by
  cases around with
  | nil => exact absurd hc id
  | cons l ls =>
    obtain ⟨i, fromLocal⟩ := c
    obtain ⟨j, fromLocal'⟩ := d
    unfold Denotes at hc hd
    dsimp only at hc hd
    rw [Capture.mk.injEq]
    cases fromLocal <;> cases fromLocal' <;>
      simp only [if_true, if_false, Bool.false_eq_true] at hc hd
    · have hi := List.getElem?_eq_some_iff.1 hc.2
      have hj := List.getElem?_eq_some_iff.1 hd.2
      obtain ⟨hi, hx⟩ := hi
      obtain ⟨hj, hy⟩ := hj
      have hnat := (List.Nodup.getElem_inj_iff (nodup_distinct l.spent.captured)).1
        (hx.trans hy.symm)
      exact ⟨UInt8.toNat_inj.1 hnat, rfl⟩
    · rw [slotOf_eq_none.2 hc.1] at hd
      simp at hd
    · rw [slotOf_eq_none.2 hd.1] at hc
      simp at hc
    · rw [hc, Option.some.injEq] at hd
      exact ⟨UInt8.toNat_inj.1 hd, rfl⟩

/-- What a capture stands for stays while the functions around capture more. -/
theorem spread (h : Denotes around c x) (names : List String) :
    Denotes (ScriptVM.spread names around) c x := by
  cases around with
  | nil => exact absurd h id
  | cons l ls =>
    unfold Denotes at h ⊢
    dsimp only [ScriptVM.spread] at h ⊢
    split at h
    · next hlocal => rwa [if_pos hlocal]
    · next hlocal =>
      rw [if_neg hlocal]
      exact ⟨h.1, getElem?_of_isPrefix (isPrefix_distinct _ _) h.2⟩

end Denotes

/-- A variable is captured already, or there is room for it, or there is none. -/
theorem FunctionContext.addCapture_of_denotes {context : FunctionContext} {around : List Level}
    {captured : List String} {c : Capture} {name : String}
    (h : List.Forall₂ (Denotes around) context.captures.toList (distinct (· == ·) captured))
    (hlength : (distinct (· == ·) captured).length ≤ 256) (hc : Denotes around c name) :
    (∃ i captures, context.addCapture c = (.ok i, { context with captures }) ∧
        List.Forall₂ (Denotes around) captures.toList (distinct (· == ·) (captured ++ [name])) ∧
        (distinct (· == ·) (captured ++ [name]))[i.toNat]? = some name) ∧
      (distinct (· == ·) (captured ++ [name])).length ≤ 256 ∨
    (∃ e, (context.addCapture c).1 = .error e) ∧
      256 < (distinct (· == ·) (captured ++ [name])).length := by
  have hsize : context.captures.size = (distinct (· == ·) captured).length := h.length_eq
  rw [addCapture]
  -- Captures denote different variables, so this one has been captured before just if its name has
  -- been charged before.
  split
  · next j hfind =>
    rw [Array.idxOf?_eq_map_finIdxOf?_val, Option.map_eq_some_iff] at hfind
    obtain ⟨⟨j, hj⟩, hfin, rfl⟩ := hfind
    have hget : context.captures[j] = c := (Array.finIdxOf?_eq_some_iff.1 hfin).1
    have hj' : j < (distinct (· == ·) captured).length := hsize ▸ hj
    have hname : (distinct (· == ·) captured)[j] = name := by
      have hdenotes := h.get (i := j) (by simpa using hj) hj'
      simp only [List.get_eq_getElem, Array.getElem_toList] at hdenotes
      rw [hget] at hdenotes
      exact hdenotes.name_eq hc
    have hsame : distinct (· == ·) (captured ++ [name]) = distinct (· == ·) captured := by
      rw [distinct_concat, if_pos]
      rw [List.any_eq_true]
      exact ⟨name, hname ▸ List.getElem_mem hj', beq_self_eq_true name⟩
    rw [hsame]
    refine .inl ⟨⟨_, context.captures, rfl, h, ?_⟩, hlength⟩
    rw [UInt8.toNat_ofNat_of_lt' (Nat.lt_of_lt_of_le hj' hlength), List.getElem?_eq_getElem hj',
      hname]
  · next hfind =>
    have hnot : c ∉ context.captures.toList := by
      rw [Array.idxOf?_eq_none_iff] at hfind
      simpa using hfind
    have hnew : distinct (· == ·) (captured ++ [name]) = distinct (· == ·) captured ++ [name] := by
      rw [distinct_concat, if_neg]
      rw [List.any_eq_true]
      rintro ⟨x, hx, heq⟩
      obtain rfl := eq_of_beq heq
      obtain ⟨d, hd, hdenotes⟩ := exists_mem_of_forall₂ (List.Forall₂.flip h) hx
      exact hnot (hc.capture_eq hdenotes ▸ hd)
    rw [hnew, List.length_append, List.length_singleton]
    split
    · next hroom =>
      refine .inl ⟨⟨_, _, rfl, ?_, ?_⟩, ?_⟩
      · rw [Array.toList_push]
        exact List.rel_append h (.cons hc .nil)
      · rw [UInt8.toNat_ofNat_of_lt' hroom, hsize]
        simp
      · rw [← hsize]
        exact hroom
    · next hroom =>
      refine .inr ⟨⟨_, rfl⟩, ?_⟩
      rw [← hsize]
      exact Nat.lt_succ_of_le (Nat.le_of_not_lt hroom)

/-! ## Unfinished functions -/

/-- The names of the locals in some blocks with the depths of the blocks. -/
def slotsOf (receiver : String) : List (List String) → List (String × Nat)
  | [] => [(receiver, 0)]
  | scope :: rest => scope.map (·, rest.length + 1) ++ slotsOf receiver rest

/-- The slots of scopes are named like their variables, above the slot of the receiver. -/
theorem map_fst_slotsOf (receiver : String) (scopes : List (List String)) :
    (slotsOf receiver scopes).map (·.1) = scopes.flatten ++ [receiver] := by
  induction scopes with
  | nil => rfl
  | cons scope rest ih => simp [slotsOf, ih, Function.comp_def]

/-- No variable is deeper than there are scopes. -/
theorem depth_le_of_mem_slotsOf {receiver name : String} {scopes : List (List String)} {depth : Nat}
    (h : (name, depth) ∈ slotsOf receiver scopes) : depth ≤ scopes.length := by
  induction scopes with
  | nil => simp_all [slotsOf]
  | cons scope rest ih =>
    rw [slotsOf, List.mem_append, List.mem_map] at h
    rcases h with ⟨x, -, hx⟩ | h
    · rw [Prod.mk.injEq] at hx
      simp [← hx.2]
    · exact Nat.le_succ_of_le (ih h)

/-- All locals have their values, except one whose value is being computed. -/
def Initialized : Option String → List Local → Prop
  | none, locals => ∀ l ∈ locals, l.initialized = true
  | some name, locals => ∃ l rest, locals = l :: rest ∧ l.name = name ∧ l.initialized = false ∧
      ∀ x ∈ rest, x.initialized = true

/-- A function is as it looks from a place. -/
structure Site.Describes (site : Site) (c : FunctionContext) : Prop where
  /-- What it is. -/
  kind_eq : c.function.kind = site.kind
  /-- How deep the place is nested. -/
  depth_eq : c.depth = site.scopes.length
  /-- Its locals. -/
  locals_eq : c.locals.map (fun l => (l.name, l.depth)) =
    slotsOf (FunctionContext.receiverName site.kind) site.scopes
  /-- Which of them have their values. -/
  initialized : Initialized site.initializing c.locals

theorem Site.Describes.names_eq {site : Site} {c : FunctionContext} (h : site.Describes c) :
    c.locals.map (·.name) = site.locals := by
  have hnames := congrArg (List.map (·.1)) h.locals_eq
  rwa [map_fst_slotsOf, List.map_map] at hnames

/-- An unfinished function holds what is known about it. -/
structure Tallied (finished : Nat) (c : FunctionContext) (l : Level) (around : List Level) :
    Prop where
  /-- It is as it looks from the place in it. -/
  describes : l.site.Describes c
  /-- Its locals can be numbered by a byte. -/
  slots : l.site.locals.length ≤ 256
  /-- The number of its code bytes is known. -/
  size_eq : c.function.chunk.size = l.spent.size
  /-- The number of its parameters is known. -/
  arity_eq : c.function.arity.toNat = l.spent.parameters
  /-- Its constants are known. -/
  pool : Pool finished c.function.chunk.constants l.spent
  /-- It has a capture for each name that it captures. -/
  captures : List.Forall₂ (Denotes around) c.captures.toList (distinct (· == ·) l.spent.captured)
  /-- It does not hold too much. -/
  within : l.spent.Within

/-- A function at its start has spent nothing. -/
theorem Tallied.start {n : Nat} {site : Site} {name : String} {kind : FunctionKind}
    {around : List Level} (h : site.Describes (.start name kind)) :
    Tallied n (.start name kind) ⟨site, 0⟩ around where
  describes := h
  slots := by
    rw [← h.names_eq]
    exact Nat.le_add_left 1 255
  size_eq := rfl
  arity_eq := rfl
  pool := ⟨rfl, rfl, fun _ hid => absurd hid List.not_mem_nil⟩
  captures := .nil
  within := ⟨Nat.zero_le _, Nat.zero_le _, Nat.zero_le _⟩

/-- The unfinished functions, innermost first, hold what is known about them. -/
def Matches (finished : Nat) : List FunctionContext → List Level → Prop
  | [], [] => True
  | c :: cs, l :: ls => Tallied finished c l ls ∧ Matches finished cs ls
  | _, _ => False

/-- Functions that match their accounts keep to their limits. -/
theorem Matches.room {n : Nat} {cs : List FunctionContext} {ls : List Level} (h : Matches n cs ls) :
    ∀ l ∈ ls, l.spent.Within := by
  induction cs generalizing ls with
  | nil =>
    cases ls with
    | nil => simp
    | cons => exact absurd h id
  | cons c cs ih =>
    cases ls with
    | nil => exact absurd h id
    | cons l ls => exact List.forall_mem_cons.2 ⟨h.1.within, ih h.2⟩

/-- Functions that match their accounts do so with more functions around. -/
theorem Matches.mono {n m : Nat} {cs : List FunctionContext} {ls : List Level} (h : Matches n cs ls)
    (hle : n ≤ m) : Matches m cs ls := by
  induction cs generalizing ls with
  | nil =>
    cases ls with
    | nil => trivial
    | cons => exact absurd h id
  | cons c cs ih =>
    cases ls with
    | nil => exact absurd h id
    | cons l ls => exact ⟨{ h.1 with pool := h.1.pool.mono hle }, ih h.2⟩

/-- A function captures one more variable. -/
theorem Tallied.capturing {n : Nat} {c : FunctionContext} {l : Level} {around around' : List Level}
    {name : String} {captures : Array Capture} (h : Tallied n c l around)
    (hcaptures : List.Forall₂ (Denotes around') captures.toList
      (distinct (· == ·) (l.spent.captured ++ [name])))
    (hlength : (distinct (· == ·) (l.spent.captured ++ [name])).length ≤ 256) :
    Tallied n { c with captures } ⟨l.site, l.spent + .capturing [name]⟩ around' where
  describes := { h.describes with }
  slots := h.slots
  size_eq := h.size_eq
  arity_eq := h.arity_eq
  pool := h.pool.congr (List.append_nil _) rfl
  captures := hcaptures
  within := by
    refine ⟨?_, hlength, h.within.parameters⟩
    have hconstants : (l.spent + .capturing [name]).constants = l.spent.constants :=
      List.append_nil _
    rw [Cost.constantCount, hconstants]
    exact h.within.constants

/-- What does not depend on captures is the same for locals that have been captured. -/
theorem LocalsRaised.map_eq {α : Type} {f : Local → α} {locals locals' : List Local}
    (h : LocalsRaised locals locals') (hf : ∀ l l' : Local, l.Raised l' → f l' = f l) :
    locals'.map f = locals.map f := by
  induction h with
  | nil => rfl
  | cons hl _ ih => rw [List.map_cons, List.map_cons, hf _ _ hl, ih]

/-- Capturing locals does not change which one is being initialized. -/
theorem Initialized.raised {initializing : Option String} {locals locals' : List Local}
    (h : Initialized initializing locals) (hraised : LocalsRaised locals locals') :
    Initialized initializing locals' := by
  have hall : ∀ {xs ys : List Local}, LocalsRaised xs ys → (∀ l ∈ xs, l.initialized = true) →
      ∀ l ∈ ys, l.initialized = true := by
    intro xs ys hraised hxs l hl
    obtain ⟨x, hx, hxl⟩ := hraised.exists_of_mem hl
    exact hxl.initialized.trans (hxs x hx)
  cases initializing with
  | none => exact hall hraised h
  | some name =>
    obtain ⟨l, rest, rfl, hname, hl, hrest⟩ := h
    cases hraised with
    | cons hl' hrest' =>
      exact ⟨_, _, rfl, hl'.name.trans hname, hl'.initialized.trans hl, hall hrest' hrest⟩

/-- Capturing a local keeps an account. -/
theorem Tallied.markCaptured {n : Nat} {c : FunctionContext} {l : Level} {around : List Level}
    (h : Tallied n c l around) (slot : UInt8) : Tallied n (c.markCaptured slot) l around := by
  have hraised := FunctionContext.raised_captureSlot slot.toNat c.locals
  have hlocals := hraised.map_eq (f := fun l => (l.name, l.depth)) fun _ _ hl => by
    rw [hl.name, hl.depth]
  exact {
    h with
    describes := {
      h.describes with
      locals_eq := hlocals.trans h.describes.locals_eq
      initialized := h.describes.initialized.raised hraised } }

/-- **A variable of the functions around is charged to the functions in between**, and it is not
found just where there is no room for it. -/
theorem resolveCapture_of_matches {n : Nat} {name : String} {c : FunctionContext}
    {cs : List FunctionContext} {l : Level} {ls : List Level} (h : Matches n (c :: cs) (l :: ls))
    (hinit : ∀ m ∈ ls, m.site.initializing = none) :
    (name ∉ ls.flatMap (·.site.locals) ∧ resolveCapture name c cs = ⟨.ok none, c, cs⟩) ∨
      name ∈ ls.flatMap (·.site.locals) ∧
        ((∃ i captures cs', resolveCapture name c cs = ⟨.ok (some i), { c with captures }, cs'⟩ ∧
            Matches n ({ c with captures } :: cs')
              (⟨l.site, l.spent + .capturing [name]⟩ :: spread [name] ls) ∧
            (distinct (· == ·) (l.spent.captured ++ [name]))[i.toNat]? = some name) ∨
          (∃ e, (resolveCapture name c cs).index = .error e) ∧
            ¬ ((l.spent + .capturing [name]).Within ∧
              ∀ m ∈ spread [name] ls, m.spent.Within)) := by
  -- By induction on the functions around, innermost first; `Matches` pairs each with its level, so
  -- the two lists are cut together.
  induction cs generalizing c l ls with
  | nil =>
    cases ls with
    | nil => exact .inl ⟨by simp, rfl⟩
    | cons => exact absurd h.2 id
  | cons outer cs ih =>
    cases ls with
    | nil => exact absurd h.2 id
    | cons m ls =>
      obtain ⟨hc, hm, hls⟩ := h
      have hvalues : ∀ x ∈ outer.locals, x.initialized = true := by
        have hinitialized := hm.describes.initialized
        rwa [hinit m List.mem_cons_self] at hinitialized
      have hlocal : outer.resolveLocal name =
          .ok ((slotOf name (outer.locals.map (·.name))).map UInt8.ofNat) :=
        FunctionContext.resolveLocal_of_initialized hvalues
      rw [hm.describes.names_eq] at hlocal
      rw [List.flatMap_cons, List.mem_append]
      rcases hslot : slotOf name m.site.locals with _ | slot
      · -- The function around does not have the variable either, so it is asked first.
        have hname : name ∉ m.site.locals := slotOf_eq_none.1 hslot
        have hspread : spread [name] (m :: ls) =
            ⟨m.site, m.spent + .capturing [name]⟩ :: spread [name] ls := by
          simp [spread, hname]
        rw [hslot, Option.map_none] at hlocal
        rw [resolveCapture, hlocal, hspread]
        dsimp only
        rcases ih ⟨hm, hls⟩ fun c hc => hinit c (List.mem_cons_of_mem _ hc) with
          ⟨hnot, hfound⟩ | ⟨hmem, ⟨i, captures, cs', hfound, hmatches, hi⟩ | ⟨⟨e, he⟩, hfull⟩⟩
        · refine .inl ⟨fun hmem => hmem.elim hname hnot, ?_⟩
          rw [hfound]
        · refine .inr ⟨.inr hmem, ?_⟩
          rw [hfound]
          dsimp only
          have hdenotes : Denotes (spread [name] (m :: ls)) ⟨i, false⟩ name := by
            rw [hspread]
            exact ⟨hname, hi⟩
          have hcaptures := hc.captures.imp fun _ _ hd => hd.spread [name]
          -- An index into the function around now means the variable, so one capture of it is added
          -- here, unless this function captures 256 variables already.
          rcases FunctionContext.addCapture_of_denotes hcaptures hc.within.captured hdenotes with
            ⟨⟨j, captures', hadd, hcaptures', hj⟩, hlength⟩ | ⟨⟨e, he⟩, hlength⟩
          · refine .inl ⟨j, captures', _, ?_, ⟨hc.capturing ?_ hlength, hmatches⟩, hj⟩
            · rw [hadd]
              rfl
            · rw [← hspread]
              exact hcaptures'
          · refine .inr ⟨⟨e, ?_⟩, fun hwithin => ?_⟩
            · rw [he]
              rfl
            · exact absurd hwithin.1.captured (Nat.not_le.2 hlength)
        · -- There was no room for it further out, so the whole account does not fit either.
          refine .inr ⟨.inr hmem, .inr ⟨⟨e, ?_⟩, fun hwithin => hfull ?_⟩⟩
          · rw [he]
          · exact List.forall_mem_cons.1 hwithin.2
      · -- The function around has the variable as a local: it is captured from its slot, and the
        -- search ends without charging anyone further out.
        have hname : name ∈ m.site.locals := mem_of_slotOf hslot
        have hspread : spread [name] (m :: ls) = m :: ls := by
          have hzero : Cost.capturing [] = 0 := rfl
          simp [spread, hname, spread_nil, hzero]
        rw [hslot, Option.map_some] at hlocal
        rw [resolveCapture, hlocal, hspread]
        dsimp only
        refine .inr ⟨.inl hname, ?_⟩
        have hlt : slot < 256 :=
          Nat.lt_of_lt_of_le (lt_length_of_slot? (slot?_of_slotOf hslot)) hm.slots
        have hdenotes : Denotes (m :: ls) ⟨UInt8.ofNat slot, true⟩ name := by
          show slotOf name m.site.locals = some (UInt8.ofNat slot).toNat
          rw [hslot, UInt8.toNat_ofNat_of_lt' hlt]
        rcases FunctionContext.addCapture_of_denotes hc.captures hc.within.captured hdenotes with
          ⟨⟨j, captures', hadd, hcaptures', hj⟩, hlength⟩ | ⟨⟨e, he⟩, hlength⟩
        · refine .inl ⟨j, captures', outer.markCaptured (UInt8.ofNat slot) :: cs, ?_,
            ⟨hc.capturing hcaptures' hlength, hm.markCaptured _, hls⟩, hj⟩
          rw [hadd]
          rfl
        · refine .inr ⟨⟨e, ?_⟩, fun hwithin => ?_⟩
          · rw [he]
            rfl
          · exact absurd hwithin.1.captured (Nat.not_le.2 hlength)

end ScriptVM
