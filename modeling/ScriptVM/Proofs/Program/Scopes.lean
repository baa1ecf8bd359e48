/-
# Which variable a name stands for

Looking a name up gives a stack slot, or the index of a captured variable, and may note on the way
that the functions in between capture the variable.  What a captured variable is used for follows
from its name (`captureKinds`), and each link of the chain of captures leads to a local that is
marked as captured (`Linked`).

Main statements: what is captured stays what it is while the functions around capture more
(`captureKinds_mono`), and a name that is found stands for a variable that is used as the name says
(`resolveCapture_found`).
-/
import ScriptVM.Proofs.Chunk.Flow

namespace ScriptVM

/-! ## Locals -/

/-- A local once more functions may have captured it. -/
structure Local.Raised (l l' : Local) : Prop where
  /-- The name stays. -/
  name : l'.name = l.name
  /-- The depth stays. -/
  depth : l'.depth = l.depth
  /-- Whether it has its value stays. -/
  initialized : l'.initialized = l.initialized
  /-- What is captured stays captured. -/
  captured : l.captured = true → l'.captured = true

theorem Local.Raised.refl (l : Local) : l.Raised l := ⟨rfl, rfl, rfl, id⟩

theorem Local.Raised.trans {l l' l'' : Local} (h₁ : l.Raised l') (h₂ : l'.Raised l'') :
    l.Raised l'' :=
  ⟨h₂.name.trans h₁.name, h₂.depth.trans h₁.depth, h₂.initialized.trans h₁.initialized,
    h₂.captured ∘ h₁.captured⟩

/-- The locals of a function once more of them may be captured. -/
abbrev LocalsRaised (locals locals' : List Local) : Prop :=
  List.Forall₂ Local.Raised locals locals'

theorem LocalsRaised.refl (locals : List Local) : LocalsRaised locals locals :=
  List.forall₂_same.2 fun l _ => Local.Raised.refl l

/-- Locals that are captured in two steps are captured in one. -/
theorem LocalsRaised.trans {locals locals' locals'' : List Local}
    (h₁ : LocalsRaised locals locals') (h₂ : LocalsRaised locals' locals'') :
    LocalsRaised locals locals'' := by
  induction h₁ generalizing locals'' with
  | nil => cases h₂; exact .nil
  | cons hl _ ih =>
    cases h₂ with
    | cons hl' h => exact .cons (hl.trans hl') (ih h)

/-- What is on the left of related lists is related to something on the right. -/
theorem exists_mem_of_forall₂ {α β : Type} {R : α → β → Prop} {xs : List α} {ys : List β}
    (h : List.Forall₂ R xs ys) {x : α} (hx : x ∈ xs) : ∃ y ∈ ys, R x y := by
  induction h with
  | nil => simp at hx
  | @cons x' y' xs ys hxy _ ih =>
    rcases List.mem_cons.1 hx with rfl | hx
    · exact ⟨y', List.mem_cons_self, hxy⟩
    · obtain ⟨y, hy, hR⟩ := ih hx
      exact ⟨y, List.mem_cons_of_mem _ hy, hR⟩

/-- What has an index on the right of related lists is related to what has it on the left. -/
theorem exists_getElem?_of_forall₂ {α β : Type} {R : α → β → Prop} {xs : List α} {ys : List β}
    (h : List.Forall₂ R xs ys) {i : Nat} {y : β} (hy : ys[i]? = some y) :
    ∃ x, xs[i]? = some x ∧ R x y := by
  obtain ⟨hlt, rfl⟩ := List.getElem?_eq_some_iff.1 hy
  have hlt' : i < xs.length := by
    rw [h.length_eq]
    exact hlt
  exact ⟨_, List.getElem?_eq_getElem hlt', h.get hlt' hlt⟩

/-- A raised local comes from one of the same name and depth. -/
theorem LocalsRaised.exists_of_mem {locals locals' : List Local} (h : LocalsRaised locals locals')
    {l' : Local} (hl' : l' ∈ locals') : ∃ l ∈ locals, l.Raised l' := by
  have hflip : List.Forall₂ (flip Local.Raised) locals' locals := List.Forall₂.flip h
  exact exists_mem_of_forall₂ hflip hl'

namespace FunctionContext

/-- A name that is found among locals stands for the local in the slot that is given. -/
theorem slot?_of_findLocal? {name : String} {locals : List Local} {slot : Nat} {l : Local}
    (h : findLocal? name locals = some (slot, l)) :
    slot? locals slot = some l ∧ l.name = name := by
  induction locals with
  | nil => simp [findLocal?] at h
  | cons l' rest ih =>
    rw [findLocal?] at h
    split at h
    · next hname =>
      rw [Option.some.injEq, Prod.mk.injEq] at h
      obtain ⟨rfl, rfl⟩ := h
      exact ⟨slot?_cons_length _ _, hname⟩
    · obtain ⟨hslot, hname⟩ := ih h
      exact ⟨slot?_append_of_some (X := [l']) hslot, hname⟩

/-- A slot that is found is that of a local of the name, which has its initial value. -/
theorem resolveLocal_some {context : FunctionContext} {name : String} {slot : UInt8}
    (hsize : context.locals.length ≤ localLimit)
    (h : context.resolveLocal name = .ok (some slot)) :
    ∃ l, slot? context.locals slot.toNat = some l ∧ l.name = name ∧ l.initialized = true := by
  rw [resolveLocal] at h
  split at h
  · simp at h
  · next i l hfind =>
    split at h
    · next hinit =>
      rw [Except.ok.injEq, Option.some.injEq] at h
      obtain ⟨hslot, hname⟩ := slot?_of_findLocal? hfind
      have hlt : i < 256 := Nat.lt_of_lt_of_le (lt_length_of_slot? hslot) hsize
      have hi : slot.toNat = i := by
        rw [← h, UInt8.toNat_ofNat_of_lt' hlt]
      exact ⟨l, hi ▸ hslot, hname, hinit⟩
    · simp at h

/-- A name that is no local of a function is not found there. -/
theorem resolveLocal_none {context : FunctionContext} {name : String}
    (h : context.resolveLocal name = .ok none) : findLocal? name context.locals = none := by
  rw [resolveLocal] at h
  split at h
  · next hfind => exact hfind
  · split at h <;> simp at h

/-- Capturing a local leaves all else of the locals as it is. -/
theorem raised_captureSlot (slot : Nat) (locals : List Local) :
    LocalsRaised locals (captureSlot slot locals) := by
  induction locals with
  | nil => exact .nil
  | cons l rest ih =>
    rw [captureSlot]
    split
    · exact .cons ⟨rfl, rfl, rfl, fun _ => rfl⟩ (LocalsRaised.refl rest)
    · exact .cons (Local.Raised.refl l) ih

/-- The local that is captured is marked as captured. -/
theorem slot?_captureSlot {slot : Nat} {locals : List Local} {l : Local}
    (h : slot? locals slot = some l) :
    slot? (captureSlot slot locals) slot = some { l with captured := true } := by
  induction locals with
  | nil => simp [slot?] at h
  | cons l' rest ih =>
    rw [slot?] at h
    rw [captureSlot]
    split at h
    · next hslot =>
      injection h with h
      rw [if_pos hslot, slot?, if_pos hslot, h]
    · next hslot =>
      have hlength : (captureSlot slot rest).length = rest.length :=
        (raised_captureSlot slot rest).length_eq.symm
      rw [if_neg hslot, slot?, hlength, if_neg hslot, ih h]

end FunctionContext

/-! ## Functions around -/

/-- A function once the functions inside it may have captured more. -/
structure FunctionContext.Raised (c c' : FunctionContext) : Prop where
  /-- The function stays. -/
  function : c'.function = c.function
  /-- The depth stays. -/
  depth : c'.depth = c.depth
  /-- More locals may be captured. -/
  locals : LocalsRaised c.locals c'.locals
  /-- More variables may be captured. -/
  captures : c.captures.toList <+: c'.captures.toList
  /-- There are never too many captured variables. -/
  size_le : c.captures.size ≤ captureLimit → c'.captures.size ≤ captureLimit

theorem FunctionContext.Raised.refl (c : FunctionContext) : c.Raised c :=
  ⟨rfl, rfl, LocalsRaised.refl _, List.prefix_refl _, id⟩

theorem FunctionContext.Raised.trans {c c' c'' : FunctionContext} (h₁ : c.Raised c')
    (h₂ : c'.Raised c'') : c.Raised c'' :=
  ⟨h₂.function.trans h₁.function, h₂.depth.trans h₁.depth, h₁.locals.trans h₂.locals,
    h₁.captures.trans h₂.captures, h₂.size_le ∘ h₁.size_le⟩

/-- The functions around once they may have captured more. -/
abbrev ContextsRaised (contexts contexts' : List FunctionContext) : Prop :=
  List.Forall₂ FunctionContext.Raised contexts contexts'

theorem ContextsRaised.refl (contexts : List FunctionContext) : ContextsRaised contexts contexts :=
  List.forall₂_same.2 fun c _ => FunctionContext.Raised.refl c

/-- Functions that capture more in two steps do so in one. -/
theorem ContextsRaised.trans {contexts contexts' contexts'' : List FunctionContext}
    (h₁ : ContextsRaised contexts contexts') (h₂ : ContextsRaised contexts' contexts'') :
    ContextsRaised contexts contexts'' := by
  induction h₁ generalizing contexts'' with
  | nil => cases h₂; exact .nil
  | cons hc _ ih =>
    cases h₂ with
    | cons hc' h => exact .cons (hc.trans hc') (ih h)

/-- What the local in a slot of the innermost function around is used for. -/
def localKind (around : List FunctionContext) (slot : Nat) : SlotKind :=
  match around with
  | [] => .value
  | outer :: _ => ((slot? outer.locals slot).map fun l => SlotKind.ofName l.name).getD .value

/-- What the captured variables of the innermost of some functions are used for. -/
def captureKinds : List FunctionContext → List SlotKind
  | [] => []
  | context :: around =>
    context.captures.toList.map fun c =>
      if c.isLocal then localKind around c.index.toNat
      else (captureKinds around).getD c.index.toNat .value

/-- What a captured variable is used for, which is found in the functions around. -/
def Capture.kind (around : List FunctionContext) (c : Capture) : SlotKind :=
  if c.isLocal then localKind around c.index.toNat
  else (captureKinds around).getD c.index.toNat .value

theorem captureKinds_cons (context : FunctionContext) (around : List FunctionContext) :
    captureKinds (context :: around) = context.captures.toList.map (Capture.kind around) := rfl

/-- A captured variable is there in the innermost function around: a local that is marked as
captured, or a variable that that function captures. -/
def Capture.Linked (around : List FunctionContext) (c : Capture) : Prop :=
  match around with
  | [] => False
  | outer :: _ =>
    if c.isLocal then
      ∃ l, slot? outer.locals c.index.toNat = some l ∧ l.initialized = true ∧ l.captured = true
    else c.index.toNat < outer.captures.size

/-- All captured variables of some functions are there. -/
def Linked : List FunctionContext → Prop
  | [] => True
  | context :: around => (∀ c ∈ context.captures.toList, c.Linked around) ∧ Linked around

@[simp] theorem length_captureKinds_cons (context : FunctionContext)
    (around : List FunctionContext) :
    (captureKinds (context :: around)).length = context.captures.size := by
  simp [captureKinds]

theorem getElem?_of_isPrefix {α : Type} {xs ys : List α} (h : xs <+: ys) {i : Nat} {x : α}
    (hx : xs[i]? = some x) : ys[i]? = some x := by
  obtain ⟨more, rfl⟩ := h
  rw [List.getElem?_append_left (List.getElem?_eq_some_iff.1 hx).1, hx]

/-- A captured variable stays there while the functions around capture more. -/
theorem Capture.Linked.mono {around around' : List FunctionContext} {c : Capture}
    (h : c.Linked around) (hraised : ContextsRaised around around') : c.Linked around' := by
  cases hraised with
  | nil => exact h
  | @cons outer outer' _ _ hc _ =>
    simp only [Capture.Linked] at h ⊢
    split at h
    · next hlocal =>
      obtain ⟨l, hl, hinit, hcaptured⟩ := h
      obtain ⟨l', hl', hraise⟩ := exists_slot?_of_forall₂ hc.locals hl
      rw [if_pos hlocal]
      exact ⟨l', hl', hraise.initialized ▸ hinit, hraise.captured hcaptured⟩
    · next hlocal =>
      rw [if_neg hlocal]
      have hle := hc.captures.length_le
      simp only [Array.length_toList] at hle
      exact Nat.lt_of_lt_of_le h hle

/-- What a captured variable is used for stays while the functions around capture more. -/
theorem captureKind_mono {around around' : List FunctionContext} {c : Capture}
    (h : c.Linked around) (hlinked : Linked around) (hraised : ContextsRaised around around') :
    c.kind around' = c.kind around := by
  induction hraised generalizing c with
  | nil => exact absurd h id
  | @cons outer outer' rest rest' houter hrest ih =>
    simp only [Capture.Linked] at h
    unfold Capture.kind
    split at h
    · next hlocal =>
      obtain ⟨l, hl, -, -⟩ := h
      obtain ⟨l', hl', hraise⟩ := exists_slot?_of_forall₂ houter.locals hl
      rw [if_pos hlocal, if_pos hlocal, localKind, localKind, hl, hl', Option.map_some,
        Option.map_some, hraise.name]
    · next hlocal =>
      -- It is a captured variable of the next function out, of which the same is known.
      have hget : outer.captures.toList[c.index.toNat]? = some outer.captures[c.index.toNat] := by
        rw [Array.getElem?_toList, Array.getElem?_eq_getElem h]
      have hkind := ih (hlinked.1 _ (List.mem_of_getElem? hget)) hlinked.2
      rw [if_neg hlocal, if_neg hlocal, captureKinds_cons, captureKinds_cons,
        List.getD_eq_getElem?_getD, List.getD_eq_getElem?_getD, List.getElem?_map,
          List.getElem?_map,
        getElem?_of_isPrefix houter.captures hget, hget, Option.map_some, Option.map_some, hkind]

/-- **What captured variables are used for stays** while the functions capture more. -/
theorem captureKinds_mono {c c' : FunctionContext} {around around' : List FunctionContext}
    (hcaptures : c.captures.toList <+: c'.captures.toList) (hlinked : Linked (c :: around))
    (hraised : ContextsRaised around around') {i : Nat} {k : SlotKind}
    (h : (captureKinds (c :: around))[i]? = some k) :
    (captureKinds (c' :: around'))[i]? = some k := by
  rw [captureKinds_cons, List.getElem?_map, Option.map_eq_some_iff] at h
  obtain ⟨capture, hcapture, rfl⟩ := h
  have hlink := hlinked.1 capture (List.mem_of_getElem? hcapture)
  rw [captureKinds_cons, List.getElem?_map, getElem?_of_isPrefix hcaptures hcapture,
    Option.map_some,
    captureKind_mono hlink hlinked.2 hraised]

/-! ## Superclasses -/

/-- Whether functions of a kind are called on an instance. -/
def FunctionKind.isMember : FunctionKind → Bool
  | .method | .initializer => true
  | .script | .function => false

/-- The innermost class has a superclass, and the function at hand can capture it: the superclass is
the topmost local of the function around the class, and nothing in between is named like it. -/
inductive Derived : List FunctionContext → Prop
  | member {c outer : FunctionContext} {l : Local} {locals : List Local}
      {around : List FunctionContext} (hkind : c.function.kind.isMember = true)
      (hc : ∀ l ∈ c.locals, l.name ≠ "super") (houter : outer.locals = l :: locals)
      (hname : l.name = "super") (hinit : l.initialized = true) : Derived (c :: outer :: around)
  | nested {c : FunctionContext} {around : List FunctionContext}
      (hkind : c.function.kind.isMember = false) (hc : ∀ l ∈ c.locals, l.name ≠ "super")
      (h : Derived around) : Derived (c :: around)

/-- Where a function finds the superclass that it captures: a member in the topmost local of the
function around, and another function among what that one captures. -/
def Capture.Rooted (isMember : Bool) (around : List FunctionContext) (c : Capture) : Prop :=
  c.kind around = .parent →
    if isMember then c.isLocal = true ∧
      ∃ outer rest, around = outer :: rest ∧ c.index.toNat + 1 = outer.locals.length
    else c.isLocal = false

/-- All superclasses that some functions capture are found where they should. -/
def Rooted : List FunctionContext → Prop
  | [] => True
  | context :: around =>
    (∀ c ∈ context.captures.toList, c.Rooted context.function.kind.isMember around) ∧ Rooted around

/-- The function at hand has no local that is named like the superclass. -/
theorem Derived.ne_super {c : FunctionContext} {around : List FunctionContext}
    (h : Derived (c :: around)) : ∀ l ∈ c.locals, l.name ≠ "super" := by
  cases h with
  | member _ hc _ _ _ => exact hc
  | nested _ hc _ => exact hc

/-- The superclass stays in reach while functions capture more. -/
theorem Derived.raised {contexts contexts' : List FunctionContext} (h : Derived contexts)
    (hraised : ContextsRaised contexts contexts') : Derived contexts' := by
  have hother : ∀ {c c' : FunctionContext}, c.Raised c' → (∀ l ∈ c.locals, l.name ≠ "super") →
      ∀ l ∈ c'.locals, l.name ≠ "super" := by
    intro c c' hc hnames l' hl'
    obtain ⟨l, hl, hraise⟩ := hc.locals.exists_of_mem hl'
    rw [hraise.name]
    exact hnames l hl
  induction h generalizing contexts' with
  | member hkind hc houter hname hinit =>
    cases hraised with
    | cons hraise haround =>
      cases haround with
      | cons hraise' _ =>
        have hlocals := hraise'.locals
        rw [houter] at hlocals
        obtain ⟨l', locals', hl, -, houter'⟩ := List.forall₂_cons_left_iff.1 hlocals
        exact .member (hraise.function ▸ hkind) (hother hraise hc) houter' (hl.name.trans hname)
          (hl.initialized.trans hinit)
  | nested hkind hc _ ih =>
    cases hraised with
    | cons hraise haround =>
      exact .nested (hraise.function ▸ hkind) (hother hraise hc) (ih haround)

/-- The function at hand may have other locals, as long as none is named like the superclass. -/
theorem Derived.with {c c' : FunctionContext} {around around' : List FunctionContext}
    (h : Derived (c :: around)) (hkind : c'.function.kind = c.function.kind)
    (hlocals : ∀ l ∈ c'.locals, l.name ≠ "super") (haround : ContextsRaised around around') :
    Derived (c' :: around') := by
  cases h with
  | member hmember _ houter hname hinit =>
    cases haround with
    | cons hraise _ =>
      have hraised := hraise.locals
      rw [houter] at hraised
      obtain ⟨l', locals', hl, -, houter'⟩ := List.forall₂_cons_left_iff.1 hraised
      exact .member (hkind ▸ hmember) hlocals houter' (hl.name.trans hname)
        (hl.initialized.trans hinit)
  | nested hmember _ h => exact .nested (hkind ▸ hmember) hlocals (h.raised haround)

/-- A superclass is found where it was while the functions around capture more. -/
theorem Capture.Rooted.mono {isMember : Bool} {around around' : List FunctionContext} {c : Capture}
    (h : c.Rooted isMember around) (hc : c.Linked around) (hlinked : ScriptVM.Linked around)
    (hraised : ContextsRaised around around') : c.Rooted isMember around' := by
  intro hkind
  rw [captureKind_mono hc hlinked hraised] at hkind
  have hroot := h hkind
  cases isMember with
  | false => exact hroot
  | true =>
    obtain ⟨hlocal, outer, rest, rfl, hindex⟩ := hroot
    cases hraised with
    | @cons _ outer' _ rest' hraise _ =>
      refine ⟨hlocal, outer', rest', rfl, ?_⟩
      rw [hindex]
      exact hraise.locals.length_eq

/-- Only one name is that of a superclass. -/
theorem SlotKind.eq_super_of_ofName {name : String} (h : SlotKind.ofName name = .parent) :
    name = "super" := by
  unfold SlotKind.ofName at h
  split at h
  · cases h
  · split at h
    · next hname => exact hname
    · split at h <;> cases h

theorem SlotKind.ne_super_of_ofName {name : String} (h : SlotKind.ofName name = .value) :
    name ≠ "super" := by
  rintro rfl
  cases h

/-! ## Looking names up -/

/-- What a capture of the innermost function is used for. -/
theorem captureKinds_of_getElem? {context : FunctionContext} {around : List FunctionContext}
    {i : Nat} {c : Capture} (h : context.captures[i]? = some c) :
    (captureKinds (context :: around))[i]? = some (c.kind around) := by
  rw [captureKinds_cons, List.getElem?_map, Array.getElem?_toList, h, Option.map_some]

/-- A capture that is asked for is there, whether it is new or not. -/
theorem FunctionContext.addCapture_ok {context context' : FunctionContext} {c : Capture} {i : UInt8}
    (h : context.addCapture c = (.ok i, context')) (hsize : context.captures.size ≤ captureLimit) :
    context'.captures[i.toNat]? = some c ∧
      (context' = context ∨ context' = { context with captures := context.captures.push c }) ∧
      context'.captures.size ≤ captureLimit := by
  rw [addCapture] at h
  split at h
  · next j hfind =>
    rw [Prod.mk.injEq, Except.ok.injEq] at h
    obtain ⟨hi, rfl⟩ := h
    rw [Array.idxOf?_eq_map_finIdxOf?_val, Option.map_eq_some_iff] at hfind
    obtain ⟨⟨j', hj'⟩, hfin, rfl⟩ := hfind
    have hget := (Array.finIdxOf?_eq_some_iff.1 hfin).1
    have hlt : j' < 256 := Nat.lt_of_lt_of_le hj' hsize
    have hij : i.toNat = j' := by
      rw [← hi, UInt8.toNat_ofNat_of_lt' hlt]
    refine ⟨?_, .inl rfl, hsize⟩
    rw [hij, Array.getElem?_eq_getElem hj']
    exact congrArg some hget
  · split at h
    · next hroom =>
      rw [Prod.mk.injEq, Except.ok.injEq] at h
      obtain ⟨hi, rfl⟩ := h
      have : i.toNat = context.captures.size := by
        rw [← hi, UInt8.toNat_ofNat_of_lt' hroom]
      refine ⟨by simp [this], .inr rfl, ?_⟩
      rw [Array.size_push]
      omega
    · simp at h

/-- The locals and captured variables of a function can be numbered by a byte. -/
def FunctionContext.Sized (c : FunctionContext) : Prop :=
  c.locals.length ≤ localLimit ∧ c.captures.size ≤ captureLimit

theorem FunctionContext.Raised.sized {c c' : FunctionContext} (h : c.Raised c') (hc : c.Sized) :
    c'.Sized :=
  ⟨h.locals.length_eq ▸ hc.1, h.size_le hc.2⟩

/-- A function that captures one more variable, if it has not captured it before. -/
theorem FunctionContext.Raised.addCapture {context context' : FunctionContext} {c : Capture}
    {i : UInt8} (h : context.addCapture c = (.ok i, context')) (hsize : context.Sized) :
    context.Raised context' ∧ context'.locals = context.locals := by
  obtain ⟨-, hcontext, hle⟩ := addCapture_ok h hsize.2
  rcases hcontext with rfl | rfl
  · exact ⟨.refl _, rfl⟩
  · refine ⟨⟨rfl, rfl, LocalsRaised.refl _, ?_, fun _ => hle⟩, rfl⟩
    simp

/-- Capturing a variable that is there keeps all captured variables there. -/
theorem Linked.addCapture {context context' : FunctionContext}
    {around around' : List FunctionContext}
    {c : Capture} {i : UInt8} (h : context.addCapture c = (.ok i, context')) (hsize : context.Sized)
    (hlinked : Linked (context :: around)) (hraised : ContextsRaised around around')
    (haround : Linked around') (hc : c.Linked around') : Linked (context' :: around') := by
  obtain ⟨-, hcontext, -⟩ := FunctionContext.addCapture_ok h hsize.2
  have hold : ∀ c ∈ context.captures.toList, c.Linked around' := fun c hc =>
    (hlinked.1 c hc).mono hraised
  refine ⟨fun d hd => ?_, haround⟩
  rcases hcontext with rfl | rfl
  · exact hold d hd
  · rw [Array.toList_push, List.mem_append, List.mem_singleton] at hd
    rcases hd with hd | rfl
    · exact hold d hd
    · exact hc

/-- Capturing a superclass where it should be found keeps all of them where they should. -/
theorem Rooted.addCapture {context context' : FunctionContext}
    {around around' : List FunctionContext}
    {c : Capture} {i : UInt8} (h : context.addCapture c = (.ok i, context')) (hsize : context.Sized)
    (hlinked : Linked (context :: around)) (hrooted : Rooted (context :: around))
    (hraised : ContextsRaised around around') (haround : Rooted around')
    (hc : c.Rooted context.function.kind.isMember around') : Rooted (context' :: around') := by
  obtain ⟨-, hcontext, -⟩ := FunctionContext.addCapture_ok h hsize.2
  have hold : ∀ c ∈ context.captures.toList, c.Rooted context.function.kind.isMember around' :=
    fun c hc => (hrooted.1 c hc).mono (hlinked.1 c hc) hlinked.2 hraised
  refine ⟨fun d hd => ?_, haround⟩
  rcases hcontext with rfl | rfl
  · exact hold d hd
  · rw [Array.toList_push, List.mem_append, List.mem_singleton] at hd
    rcases hd with hd | rfl
    · exact hold d hd
    · exact hc

/-- What looking up a name in the functions around does to them, if the name is found. -/
structure Found (name : String) (c : FunctionContext) (around : List FunctionContext) (i : UInt8)
    (c' : FunctionContext) (around' : List FunctionContext) : Prop where
  /-- The function may capture one more variable. -/
  raised : c.Raised c'
  /-- Its own locals stay. -/
  locals : c'.locals = c.locals
  /-- The functions around may capture more. -/
  around : ContextsRaised around around'
  /-- All captured variables are there. -/
  linked : Linked (c' :: around')
  /-- All superclasses are found where they should. -/
  rooted : Rooted (c' :: around')
  /-- The variable is used as its name says. -/
  kind : (captureKinds (c' :: around'))[i.toNat]? = some (.ofName name)

/-- A variable of the next function out is captured. -/
theorem Found.of_link {name : String} {context context' : FunctionContext}
    {around around' : List FunctionContext} {c : Capture} {i : UInt8}
    (hadd : context.addCapture c = (.ok i, context')) (hsized : context.Sized)
    (hlinked : Linked (context :: around)) (hrooted : Rooted (context :: around))
    (hraised : ContextsRaised around around') (hlinked' : Linked around')
    (hrooted' : Rooted around')
    (hc : c.Linked around') (hkind : c.kind around' = .ofName name)
    (hroot : name = "super" → c.Rooted context.function.kind.isMember around') :
    Found name context around i context' around' := by
  obtain ⟨hraise, hlocals⟩ := FunctionContext.Raised.addCapture hadd hsized
  obtain ⟨hget, -, -⟩ := FunctionContext.addCapture_ok hadd hsized.2
  have hroot' : c.Rooted context.function.kind.isMember around' := fun hparent =>
    hroot (SlotKind.eq_super_of_ofName (hkind.symm.trans hparent)) hparent
  refine ⟨hraise, hlocals, hraised, hlinked.addCapture hadd hsized hraised hlinked' hc,
    hrooted.addCapture hadd hsized hlinked hraised hrooted' hroot', ?_⟩
  rw [captureKinds_of_getElem? hget, hkind]

/-- A superclass that is a local of the next function out is the topmost one, and only a member
finds it there. -/
theorem Derived.rooted_local {context outer : FunctionContext} {rest : List FunctionContext}
    {slot : UInt8} (h : Derived (context :: outer :: rest)) (hsized : outer.Sized)
    (hslot : outer.resolveLocal "super" = .ok (some slot)) :
    Capture.Rooted context.function.kind.isMember (outer.markCaptured slot :: rest)
      ⟨slot, true⟩ := by
  intro _
  obtain ⟨l, hl, hname, -⟩ := FunctionContext.resolveLocal_some hsized.1 hslot
  cases h with
  | @member _ _ l' locals _ hkind _ houter hname' hinit =>
    rw [hkind]
    have hlt : locals.length < 256 := by
      have hle := hsized.1
      rw [houter] at hle
      exact hle
    have hfind : outer.resolveLocal "super" = .ok (some (UInt8.ofNat locals.length)) := by
      rw [FunctionContext.resolveLocal, houter, FunctionContext.findLocal?, if_pos hname']
      exact if_pos hinit
    obtain rfl := Option.some.inj (Except.ok.inj (hslot.symm.trans hfind))
    refine ⟨rfl, _, _, rfl, ?_⟩
    show _ = (FunctionContext.captureSlot _ outer.locals).length
    rw [UInt8.toNat_ofNat_of_lt' hlt, ← (FunctionContext.raised_captureSlot _ _).length_eq, houter]
    rfl
  | nested _ _ h => exact absurd hname (h.ne_super l (mem_of_slot? hl))

/-- A superclass that is not a local of the next function out is captured by that one as well. -/
theorem Derived.outward {context outer : FunctionContext} {rest : List FunctionContext}
    (h : Derived (context :: outer :: rest)) (hnone : outer.resolveLocal "super" = .ok none) :
    context.function.kind.isMember = false ∧ Derived (outer :: rest) := by
  cases h with
  | member _ _ houter hname _ =>
    have hfind := FunctionContext.resolveLocal_none hnone
    rw [houter, FunctionContext.findLocal?, if_pos hname] at hfind
    cases hfind
  | nested hkind _ h => exact ⟨hkind, h⟩

/-- An index that is found is one without an error. -/
theorem exists_of_map_some {index : Except ErrorKind UInt8} {found : Option UInt8}
    (h : index.map some = .ok found) : ∃ i, index = .ok i ∧ found = some i := by
  cases index with
  | error e => simp [Except.map] at h
  | ok i => exact ⟨i, rfl, by simpa [Except.map] using h.symm⟩

/-- A variable is captured from the next function out, where it is a local or has been captured
first. -/
theorem resolveCapture_cons_some {name : String} {context context' outer : FunctionContext}
    {rest around' : List FunctionContext} {i : UInt8}
    (h : resolveCapture name context (outer :: rest) = ⟨.ok (some i), context', around'⟩) :
    (∃ slot, outer.resolveLocal name = .ok (some slot) ∧
      context.addCapture ⟨slot, true⟩ = (.ok i, context') ∧
      around' = outer.markCaptured slot :: rest) ∨
    ∃ j c₁ around₁, outer.resolveLocal name = .ok none ∧
      resolveCapture name outer rest = ⟨.ok (some j), c₁, around₁⟩ ∧
      context.addCapture ⟨j, false⟩ = (.ok i, context') ∧ around' = c₁ :: around₁ := by
  rw [resolveCapture] at h
  split at h
  · simp at h
  · next slot hlocal =>
    obtain ⟨index, c', hadd⟩ : ∃ j c', context.addCapture ⟨slot, true⟩ = (j, c') := ⟨_, _, rfl⟩
    rw [hadd, Resolution.mk.injEq] at h
    obtain ⟨hindex, rfl, rfl⟩ := h
    obtain ⟨_, rfl, hi⟩ := exists_of_map_some hindex
    obtain rfl := Option.some.inj hi
    exact .inl ⟨slot, hlocal, hadd, rfl⟩
  · next hlocal =>
    obtain ⟨found, c₁, around₁, hfound⟩ : ∃ j c₁ around₁,
        resolveCapture name outer rest = ⟨j, c₁, around₁⟩ := ⟨_, _, _, rfl⟩
    rw [hfound] at h
    dsimp only at h
    split at h
    · simp at h
    · simp at h
    · next j =>
      obtain ⟨index, c', hadd⟩ : ∃ j' c', context.addCapture ⟨j, false⟩ = (j', c') := ⟨_, _, rfl⟩
      rw [hadd, Resolution.mk.injEq] at h
      obtain ⟨hindex, rfl, rfl⟩ := h
      obtain ⟨_, rfl, hi⟩ := exists_of_map_some hindex
      obtain rfl := Option.some.inj hi
      exact .inr ⟨j, c₁, around₁, hlocal, hfound, hadd, rfl⟩

/-- **A name that is found in a function around stands for a captured variable.** -/
theorem resolveCapture_found {name : String} {context context' : FunctionContext}
    {around around' : List FunctionContext} {i : UInt8} (hlinked : Linked (context :: around))
    (hrooted : Rooted (context :: around)) (hsized : ∀ c ∈ context :: around, c.Sized)
    (hderived : name = "super" → Derived (context :: around))
    (h : resolveCapture name context around = ⟨.ok (some i), context', around'⟩) :
    Found name context around i context' around' := by
  induction around generalizing context context' around' i with
  | nil => simp [resolveCapture] at h
  | cons outer rest ih =>
    have hcontext : context.Sized := hsized _ List.mem_cons_self
    have houter : outer.Sized := hsized _ (List.mem_cons_of_mem _ List.mem_cons_self)
    rcases resolveCapture_cons_some h with
      ⟨slot, hlocal, hadd, rfl⟩ | ⟨j, c₁, around₁, hlocal, hfound, hadd, rfl⟩
    · -- The variable is a local of the next function out.
      obtain ⟨l, hl, hname, hinit⟩ := FunctionContext.resolveLocal_some houter.1 hlocal
      have hcaptured := FunctionContext.slot?_captureSlot hl
      refine .of_link hadd hcontext hlinked hrooted ?_ ?_ ?_ ⟨_, hcaptured, hinit, rfl⟩ ?_ ?_
      · exact .cons ⟨rfl, rfl, FunctionContext.raised_captureSlot _ _, List.prefix_refl _, id⟩
          (ContextsRaised.refl rest)
      · exact hlinked.2
      · exact hrooted.2
      · show ((slot? (FunctionContext.captureSlot _ _) _).map _).getD _ = _
        rw [hcaptured, Option.map_some, Option.getD_some, hname]
      · rintro rfl
        exact (hderived rfl).rooted_local houter hlocal
    · -- The next function out has to capture it itself.
      have hin := ih hlinked.2 hrooted.2 (fun c hc => hsized c (List.mem_cons_of_mem _ hc))
        (fun hname => ((hderived hname).outward (hname ▸ hlocal)).2) hfound
      have hlt := (List.getElem?_eq_some_iff.1 hin.kind).1
      rw [length_captureKinds_cons] at hlt
      refine .of_link hadd hcontext hlinked hrooted (.cons hin.raised hin.around) hin.linked
        hin.rooted hlt ?_ ?_
      · show (captureKinds _).getD _ _ = _
        rw [List.getD_eq_getElem?_getD, hin.kind, Option.getD_some]
      · intro hname _
        rw [((hderived hname).outward (hname ▸ hlocal)).1]
        rfl

/-- A name that is found in no function around is a local of none of them, and nothing is
captured. -/
theorem resolveCapture_none {name : String} {context context' : FunctionContext}
    {around around' : List FunctionContext}
    (h : resolveCapture name context around = ⟨.ok none, context', around'⟩) :
    context' = context ∧ around' = around ∧
      ∀ c ∈ around, FunctionContext.findLocal? name c.locals = none := by
  induction around generalizing context context' around' with
  | nil =>
    rw [resolveCapture, Resolution.mk.injEq] at h
    exact ⟨h.2.1.symm, h.2.2.symm, by simp⟩
  | cons outer rest ih =>
    rw [resolveCapture] at h
    split at h
    · simp at h
    · dsimp only at h
      rw [Resolution.mk.injEq] at h
      obtain ⟨i, -, hi⟩ := exists_of_map_some h.1
      simp at hi
    · next hlocal =>
      obtain ⟨found, c₁, around₁, hfound⟩ : ∃ j c₁ around₁,
          resolveCapture name outer rest = ⟨j, c₁, around₁⟩ := ⟨_, _, _, rfl⟩
      rw [hfound] at h
      dsimp only at h
      split at h
      · simp at h
      · obtain ⟨rfl, rfl, hrest⟩ := ih hfound
        rw [Resolution.mk.injEq] at h
        refine ⟨h.2.1.symm, h.2.2.symm, ?_⟩
        intro c hc
        rcases List.mem_cons.1 hc with rfl | hc
        · exact FunctionContext.resolveLocal_none hlocal
        · exact hrest c hc
      · rw [Resolution.mk.injEq] at h
        obtain ⟨i, -, hi⟩ := exists_of_map_some h.1
        simp at hi

end ScriptVM
