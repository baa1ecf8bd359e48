/-
# Names are bound lexically

A name stands for the last local of that name in the function at hand; failing that, for the last
such local of the nearest function around that has one, reached through a chain of captured
variables; failing that, for a global variable.  What is said here holds of any functions around
one another whose tables are within their limits (`FunctionContext.Orderly`), whatever names were
looked up before.

Main statement: `Build.resolve_lexical`, with the two outcomes `Build.Resolved` and
`Build.Refused`.
-/
import ScriptVM.Proofs.Program.Growth

namespace ScriptVM

/-! ## The last local of a name -/

/-- No local has a name. -/
def NoLocal (name : String) (locals : List Local) : Prop :=
  ∀ l ∈ locals, l.name ≠ name

/-- The local of a name that was declared last, and its slot. -/
structure LastLocal (name : String) (locals : List Local) (slot : Nat) (l : Local) : Prop where
  /-- It is in its slot. -/
  at_slot : slot? locals slot = some l
  /-- It has the name. -/
  name_eq : l.name = name
  /-- No local above it has the name. -/
  last : ∀ above l', slot < above → slot? locals above = some l' → l'.name ≠ name

namespace FunctionContext

/-- A name that is not found is the name of no local. -/
theorem noLocal_of_findLocal? {name : String} {locals : List Local}
    (h : findLocal? name locals = none) : NoLocal name locals := by
  induction locals with
  | nil =>
    intro l hl
    simp at hl
  | cons l rest ih =>
    rw [findLocal?] at h
    split at h
    · simp at h
    · next hname =>
      intro l' hl'
      rcases List.mem_cons.1 hl' with rfl | hl'
      · exact hname
      · exact ih h l' hl'

/-- The local that is found is the last one of its name. -/
theorem lastLocal_of_findLocal? {name : String} {locals : List Local} {slot : Nat} {l : Local}
    (h : findLocal? name locals = some (slot, l)) : LastLocal name locals slot l := by
  obtain ⟨hslot, hname⟩ := slot?_of_findLocal? h
  refine ⟨hslot, hname, ?_⟩
  induction locals with
  | nil => simp [slot?] at hslot
  | cons first rest ih =>
    intro above l' habove hl'
    rw [findLocal?] at h
    split at h
    · -- The innermost local has the name, and no slot is above it.
      have hlt := lt_length_of_slot? hl'
      rw [Option.some.injEq, Prod.mk.injEq] at h
      rw [List.length_cons] at hlt
      omega
    · next hfirst =>
      obtain ⟨hrest, -⟩ := slot?_of_findLocal? h
      by_cases hl : rest.length = above
      · rw [slot?, if_pos hl, Option.some.injEq] at hl'
        exact hl' ▸ hfirst
      · rw [slot?, if_neg hl] at hl'
        exact ih h hrest above l' habove hl'

/-- **Looking a name up among the locals of one function.** -/
theorem resolveLocal_spec {context : FunctionContext} (name : String)
    (hsize : context.locals.length ≤ localLimit) :
    (context.resolveLocal name = .ok none ∧ NoLocal name context.locals) ∨
      ∃ slot l, LastLocal name context.locals slot.toNat l ∧
        context.resolveLocal name =
          if l.initialized then .ok (some slot) else .error .localInOwnInitializer := by
  rw [resolveLocal]
  cases hfind : findLocal? name context.locals with
  | none => exact .inl ⟨rfl, noLocal_of_findLocal? hfind⟩
  | some found =>
    obtain ⟨slot, l⟩ := found
    have hlast := lastLocal_of_findLocal? hfind
    have hlt : slot < 256 := Nat.lt_of_lt_of_le (lt_length_of_slot? hlast.at_slot) hsize
    refine .inr ⟨UInt8.ofNat slot, l, ?_, rfl⟩
    rw [UInt8.toNat_ofNat_of_lt' hlt]
    exact hlast

end FunctionContext

/-! ## What the functions around may become -/

namespace FunctionContext

/-- The tables of a function are within their limits, and it captures no variable twice. -/
structure Orderly (c : FunctionContext) : Prop where
  /-- Slots are numbered by a byte. -/
  locals : c.locals.length ≤ localLimit
  /-- Captured variables are numbered by a byte. -/
  captures : c.captures.size ≤ captureLimit
  /-- Constants are numbered by a byte. -/
  constants : c.function.chunk.constants.size ≤ Chunk.constantLimit
  /-- No two entries for captured variables are equal. -/
  nodup : c.captures.toList.Nodup

/-- A function that is just started is in order. -/
theorem orderly_start (name : String) (kind : FunctionKind) : (start name kind).Orderly where
  locals := by simp [start, localLimit]
  captures := by simp [start]
  constants := by simp [start, Function.empty, Chunk.empty]
  nodup := by simp [start]

/-- A function that captures at most one more variable, one that it did not capture before.  All
else stays. -/
inductive Gains (c : FunctionContext) : FunctionContext → Prop where
  /-- It captures what it did. -/
  | same : Gains c c
  /-- It captures one more variable. -/
  | more {capture : Capture} (hnew : capture ∉ c.captures.toList)
      (hroom : c.captures.size < captureLimit) :
      Gains c { c with captures := c.captures.push capture }

/-- A function in which the local in a slot is captured from now on.  All else stays. -/
structure Marks (c : FunctionContext) (slot : Nat) (c' : FunctionContext) : Prop where
  /-- Nothing but locals changes. -/
  rest : c' = { c with locals := c'.locals }
  /-- There are as many of them. -/
  length : c'.locals.length = c.locals.length
  /-- The local is captured. -/
  captured : ∀ l, slot? c.locals slot = some l →
    slot? c'.locals slot = some { l with captured := true }
  /-- The other locals stay. -/
  others : ∀ i, i ≠ slot → slot? c'.locals i = slot? c.locals i

/-- A function that captures more is raised. -/
theorem Gains.raised {c c' : FunctionContext} (h : c.Gains c') : c.Raised c' := by
  cases h with
  | same => exact .refl c
  | more _ hroom =>
    refine ⟨rfl, rfl, LocalsRaised.refl _, by simp, ?_⟩
    intro _
    rw [Array.size_push]
    omega

/-- A function stays in order while it captures more. -/
theorem Gains.orderly {c c' : FunctionContext} (h : c.Gains c') (hc : c.Orderly) : c'.Orderly := by
  cases h with
  | same => exact hc
  | more hnew hroom =>
    refine { hc with captures := ?_, nodup := ?_ }
    · rw [Array.size_push]
      omega
    · rw [Array.toList_push]
      refine List.nodup_append.2 ⟨hc.nodup, by simp, ?_⟩
      intro d hd e he hde
      exact hnew (List.mem_singleton.1 he ▸ hde ▸ hd)

/-- Capturing a local leaves the other slots. -/
theorem slot?_captureSlot_of_ne {slot i : Nat} {locals : List Local} (h : i ≠ slot) :
    slot? (captureSlot slot locals) i = slot? locals i := by
  induction locals with
  | nil => rfl
  | cons l rest ih =>
    have hlength : (captureSlot slot rest).length = rest.length :=
      (raised_captureSlot slot rest).length_eq.symm
    rw [captureSlot]
    by_cases hslot : rest.length = slot
    · have hi : rest.length ≠ i := by omega
      rw [if_pos hslot, slot?, slot?, if_neg hi, if_neg hi]
    · rw [if_neg hslot, slot?, slot?, hlength, ih]

/-- A local that is marked as captured is captured from now on. -/
theorem marks_markCaptured (c : FunctionContext) (slot : UInt8) :
    c.Marks slot.toNat (c.markCaptured slot) where
  rest := rfl
  length := (raised_captureSlot slot.toNat c.locals).length_eq.symm
  captured := by
    intro l hl
    exact slot?_captureSlot hl
  others := by
    intro i hi
    exact slot?_captureSlot_of_ne hi

theorem raised_markCaptured (c : FunctionContext) (slot : UInt8) :
    c.Raised (c.markCaptured slot) :=
  ⟨rfl, rfl, raised_captureSlot _ _, List.prefix_refl _, id⟩

theorem orderly_markCaptured {c : FunctionContext} (hc : c.Orderly) (slot : UInt8) :
    (c.markCaptured slot).Orderly :=
  { hc with locals := (marks_markCaptured c slot).length ▸ hc.locals }

/-- **Asking for a captured variable**: its index, whether it is new or not, unless there is no
room for it. -/
theorem addCapture_spec {c : FunctionContext} (hc : c.Orderly) (capture : Capture) :
    (∃ i c', c.addCapture capture = (.ok i, c') ∧ c.Gains c' ∧
        c'.captures[i.toNat]? = some capture) ∨
      (c.addCapture capture = (.error .tooManyCaptures, c) ∧ c.captures.size = captureLimit) := by
  rw [addCapture]
  cases hfind : c.captures.idxOf? capture with
  | some j =>
    rw [Array.idxOf?_eq_map_finIdxOf?_val, Option.map_eq_some_iff] at hfind
    obtain ⟨⟨j', hj'⟩, hfin, rfl⟩ := hfind
    have hlt : j' < 256 := Nat.lt_of_lt_of_le hj' hc.captures
    refine .inl ⟨_, c, rfl, .same, ?_⟩
    rw [UInt8.toNat_ofNat_of_lt' hlt, Array.getElem?_eq_getElem hj']
    exact congrArg some (Array.finIdxOf?_eq_some_iff.1 hfin).1
  | none =>
    dsimp only
    split
    · next hroom =>
      refine .inl ⟨_, _, rfl, .more ?_ hroom, ?_⟩
      · intro hmem
        rw [Array.idxOf?_eq_none_iff] at hfind
        exact hfind (Array.mem_toList_iff.1 hmem)
      · rw [UInt8.toNat_ofNat_of_lt' hroom]
        simp
    · next hfull =>
      have hle := hc.captures
      exact .inr ⟨rfl, by omega⟩

end FunctionContext

/-! ## Where a chain of captured variables ends -/

/-- The local that a captured variable of the innermost function stands for: how many functions
out it is, and its slot there. -/
def capturedLocal? : List FunctionContext → Nat → Option (Nat × Nat)
  | [], _ => none
  | context :: around, i =>
    match context.captures[i]? with
    | none => none
    | some capture =>
      if capture.isLocal then some (1, capture.index.toNat)
      else (capturedLocal? around capture.index.toNat).map fun found => (found.1 + 1, found.2)

/-- A captured variable stands for a local of the next function out, or for what that function
captures. -/
theorem capturedLocal?_cons {context : FunctionContext} {around : List FunctionContext} {i : Nat}
    {capture : Capture} (h : context.captures[i]? = some capture) :
    capturedLocal? (context :: around) i =
      if capture.isLocal then some (1, capture.index.toNat)
      else (capturedLocal? around capture.index.toNat).map fun found => (found.1 + 1, found.2) := by
  rw [capturedLocal?, h]

/-- **What a captured variable stands for stays** while the functions capture more. -/
theorem capturedLocal?_mono {contexts contexts' : List FunctionContext}
    (h : ContextsRaised contexts contexts') {i : Nat} {found : Nat × Nat}
    (hfound : capturedLocal? contexts i = some found) :
      capturedLocal? contexts' i = some found := by
  induction h generalizing i found with
  | nil => exact hfound
  | @cons c c' around around' hc _ ih =>
    cases hi : c.captures[i]? with
    | none =>
      rw [capturedLocal?, hi] at hfound
      simp at hfound
    | some capture =>
      have hi' : c'.captures[i]? = some capture := by
        rw [← Array.getElem?_toList] at hi ⊢
        exact getElem?_of_isPrefix hc.captures hi
      rw [capturedLocal?_cons hi] at hfound
      rw [capturedLocal?_cons hi']
      split at hfound
      · next hlocal => rw [if_pos hlocal, hfound]
      · next hlocal =>
        obtain ⟨before, hbefore, rfl⟩ := Option.map_eq_some_iff.1 hfound
        rw [if_neg hlocal, ih hbefore, Option.map_some]

/-- Some functions around one another become others, and a captured variable of the innermost
stands for the last local of a name in the nearest function that has one. -/
inductive CapturedLocal (name : String) :
    List FunctionContext → UInt8 → List FunctionContext → Prop where
  /-- The functions `near` have no local of the name, and `k` has; behind `k` nothing changes. -/
  | intro (near near' : List FunctionContext) {far : List FunctionContext}
      {k k' : FunctionContext} {slot : Nat} {l : Local} {i : UInt8}
      (hnear : ∀ c ∈ near, NoLocal name c.locals)
      (hlast : LastLocal name k.locals slot l) (hinit : l.initialized = true)
      (hgains : List.Forall₂ FunctionContext.Gains near near') (hmarks : k.Marks slot k')
      (hchain : capturedLocal? (near' ++ k' :: far) i.toNat = some (near.length, slot)) :
      CapturedLocal name (near ++ k :: far) i (near' ++ k' :: far)

/-- The nearest function that has a local of a name, with its last one. -/
inductive NearestLocal (name : String) :
    List FunctionContext → List FunctionContext → Local → Prop where
  /-- The functions `near` are the ones in front of it. -/
  | intro (near : List FunctionContext) {far : List FunctionContext} {k : FunctionContext}
      {slot : Nat} {l : Local} (hnear : ∀ c ∈ near, NoLocal name c.locals)
      (hlast : LastLocal name k.locals slot l) :
      NearestLocal name (near ++ k :: far) near l

/-- Why a name cannot be used. -/
inductive Hindered (name : String) (contexts : List FunctionContext) : ErrorKind → Prop where
  /-- The variable does not have its initial value yet. -/
  | unfinished {near : List FunctionContext} {l : Local} (h : NearestLocal name contexts near l)
      (hinit : l.initialized = false) : Hindered name contexts .localInOwnInitializer
  /-- A function between the variable and its use cannot capture one more. -/
  | full {near : List FunctionContext} {l : Local} {c : FunctionContext}
      (h : NearestLocal name contexts near l) (hc : c ∈ near)
      (hfull : c.captures.size = FunctionContext.captureLimit) :
      Hindered name contexts .tooManyCaptures

/-- The nearest function with a name is found past one that has no local of that name. -/
theorem NearestLocal.cons {name : String} {context : FunctionContext}
    {around near : List FunctionContext}
    {l : Local} (h : NearestLocal name around near l) (hcontext : NoLocal name context.locals) :
    NearestLocal name (context :: around) (context :: near) l := by
  cases h with
  | intro near hnear hlast =>
    refine .intro (context :: near) ?_ hlast
    intro c hc
    rcases List.mem_cons.1 hc with rfl | hc
    · exact hcontext
    · exact hnear c hc

/-- What hinders a name further out hinders it inside of a function that has no local of that
name. -/
theorem Hindered.cons {name : String} {context : FunctionContext} {around : List FunctionContext}
    {kind : ErrorKind} (h : Hindered name around kind) (hcontext : NoLocal name context.locals) :
    Hindered name (context :: around) kind := by
  cases h with
  | unfinished h hinit => exact .unfinished (h.cons hcontext) hinit
  | full h hc hfull => exact .full (h.cons hcontext) (List.mem_cons_of_mem _ hc) hfull

/-- A captured variable comes from the nearest function that has its name. -/
theorem CapturedLocal.nearest {name : String}
    {contexts contexts' : List FunctionContext} {i : UInt8}
    (h : CapturedLocal name contexts i contexts') : ∃ near l,
      NearestLocal name contexts near l := by
  cases h with
  | intro near _ hnear hlast => exact ⟨near, _, .intro near hnear hlast⟩

/-- The function at hand captures what the next one out captures. -/
theorem CapturedLocal.cons {name : String} {context context' : FunctionContext}
    {around around' : List FunctionContext} {i j : UInt8} (h : CapturedLocal name around j around')
    (hcontext : NoLocal name context.locals) (hgains : context.Gains context')
    (hcapture : context'.captures[i.toNat]? = some ⟨j, false⟩) :
    CapturedLocal name (context :: around) i (context' :: around') := by
  cases h with
  | intro near near' hnear hlast hinit hrest hmarks hchain =>
    refine .intro (context :: near) (context' :: near') ?_ hlast hinit (.cons hgains hrest)
      hmarks ?_
    · intro c hc
      rcases List.mem_cons.1 hc with rfl | hc
      · exact hcontext
      · exact hnear c hc
    · rw [List.cons_append, capturedLocal?_cons hcapture, if_neg (by simp), hchain, Option.map_some,
        List.length_cons]

/-- The function at hand captures a local of the next one out. -/
theorem CapturedLocal.next {name : String} {context context' outer : FunctionContext}
    {rest : List FunctionContext} {i slot : UInt8} {l : Local}
    (hcontext : NoLocal name context.locals) (hlast : LastLocal name outer.locals slot.toNat l)
    (hinit : l.initialized = true) (hgains : context.Gains context')
    (hcapture : context'.captures[i.toNat]? = some ⟨slot, true⟩) :
    CapturedLocal name (context :: outer :: rest) i
      (context' :: outer.markCaptured slot :: rest) := by
  refine .intro [context] [context'] ?_ hlast hinit (.cons hgains .nil)
    (outer.marks_markCaptured slot) ?_
  · intro c hc
    exact List.mem_singleton.1 hc ▸ hcontext
  · rw [List.singleton_append, capturedLocal?_cons hcapture, if_pos rfl, List.length_singleton]

/-! ## Looking names up -/

/-- The outcome of looking a name up in functions around one another, the first of which has no
local of that name. -/
inductive Searched (name : String) (contexts contexts' : List FunctionContext) :
    Except ErrorKind (Option UInt8) → Prop where
  /-- A function around has a local of that name. -/
  | found {i : UInt8} (h : CapturedLocal name contexts i contexts') :
      Searched name contexts contexts' (.ok (some i))
  /-- None has. -/
  | absent (hnone : ∀ c ∈ contexts, NoLocal name c.locals) (hsame : contexts' = contexts) :
      Searched name contexts contexts' (.ok none)
  /-- The variable cannot be used. -/
  | hindered {kind : ErrorKind} (h : Hindered name contexts kind) :
      Searched name contexts contexts' (.error kind)

/-- Functions that may capture more, all in order. -/
structure Settled (contexts contexts' : List FunctionContext) : Prop where
  /-- They only capture more. -/
  raised : ContextsRaised contexts contexts'
  /-- They are in order. -/
  orderly : ∀ c ∈ contexts', c.Orderly

theorem Settled.refl {contexts : List FunctionContext} (h : ∀ c ∈ contexts, c.Orderly) :
    Settled contexts contexts :=
  ⟨.refl contexts, h⟩

/-- One more function that stays in order is settled along with those around it. -/
theorem Settled.cons {c c' : FunctionContext} {around around' : List FunctionContext}
    (h : Settled around around') (hc : c.Raised c') (hc' : c'.Orderly) :
    Settled (c :: around) (c' :: around') := by
  refine ⟨.cons hc h.raised, ?_⟩
  intro d hd
  rcases List.mem_cons.1 hd with rfl | hd
  · exact hc'
  · exact h.orderly d hd

/-- **The search through the functions around**, by induction on how many there are. -/
theorem resolveCapture_spec (name : String) {context : FunctionContext}
    {around : List FunctionContext} (horderly : ∀ c ∈ context :: around, c.Orderly)
    (hcontext : NoLocal name context.locals) :
    let found := resolveCapture name context around
    Searched name (context :: around) (found.context :: found.enclosing) found.index ∧
      Settled (context :: around) (found.context :: found.enclosing) := by
  induction around generalizing context with
  | nil =>
    refine ⟨.absent ?_ rfl, .refl horderly⟩
    intro c hc
    exact List.mem_singleton.1 hc ▸ hcontext
  | cons outer rest ih =>
    have hc : context.Orderly := horderly context List.mem_cons_self
    have hrest : ∀ c ∈ outer :: rest, c.Orderly := fun c hc =>
      horderly c (List.mem_cons_of_mem _ hc)
    have houter : outer.Orderly := hrest outer List.mem_cons_self
    rcases outer.resolveLocal_spec name houter.locals with ⟨hlocal, hnone⟩ |
      ⟨slot, l, hlast, hlocal⟩
    · -- The next function out has no local of the name: what it captures is captured here.
      obtain ⟨hsearched, hsettled⟩ := ih hrest hnone
      rw [resolveCapture, hlocal]
      dsimp only
      generalize resolveCapture name outer rest = found at hsearched hsettled ⊢
      obtain ⟨index, context₁, enclosing₁⟩ := found
      dsimp only at hsearched hsettled ⊢
      cases hsearched with
      | hindered h => exact ⟨.hindered (h.cons hcontext), hsettled.cons (.refl _) hc⟩
      | absent hall hsame =>
        refine ⟨.absent ?_ (hsame ▸ rfl), hsettled.cons (.refl _) hc⟩
        intro c hmem
        rcases List.mem_cons.1 hmem with rfl | hmem
        · exact hcontext
        · exact hall c hmem
      | @found j hcaptured =>
        rcases FunctionContext.addCapture_spec hc ⟨j, false⟩ with
          ⟨i, context', hadd, hgains, hget⟩ | ⟨hadd, hfull⟩
        · simp only [hadd, Except.map]
          exact ⟨.found (hcaptured.cons hcontext hgains hget),
            hsettled.cons hgains.raised (hgains.orderly hc)⟩
        · simp only [hadd, Except.map]
          obtain ⟨near, l, hnear⟩ := hcaptured.nearest
          exact ⟨.hindered (.full (hnear.cons hcontext) List.mem_cons_self hfull),
            hsettled.cons (.refl _) hc⟩
    · -- The nearest local of the name is in the next function out, where the search ends.
      have hnear : NearestLocal name (context :: outer :: rest) [context] l :=
        (NearestLocal.intro [] (by simp) hlast).cons hcontext
      rw [resolveCapture, hlocal]
      by_cases hinit : l.initialized = true
      · -- It is captured from the next function out, which notes it.
        rw [if_pos hinit]
        have hmarked : Settled (outer :: rest) (outer.markCaptured slot :: rest) :=
          (Settled.refl fun c hc => hrest c (List.mem_cons_of_mem _ hc)).cons
            (outer.raised_markCaptured slot) (FunctionContext.orderly_markCaptured houter slot)
        rcases FunctionContext.addCapture_spec hc ⟨slot, true⟩ with
          ⟨i, context', hadd, hgains, hget⟩ | ⟨hadd, hfull⟩
        · simp only [hadd, Except.map]
          exact ⟨.found (.next hcontext hlast hinit hgains hget),
            hmarked.cons hgains.raised (hgains.orderly hc)⟩
        · simp only [hadd, Except.map]
          exact ⟨.hindered (.full hnear List.mem_cons_self hfull), hmarked.cons (.refl _) hc⟩
      · rw [if_neg hinit]
        exact ⟨.hindered (.unfinished hnear (by simpa using hinit)), .refl horderly⟩

/-! ## The variable that a token names -/

/-- The functions under construction, innermost first. -/
def Builder.contexts (b : Builder) : List FunctionContext :=
  b.context :: b.enclosing

namespace Build

/-- What a name stands for, how it is reached, and what the builder becomes. -/
inductive Resolved (name : String) (b : Builder) : Access → Builder → Prop where
  /-- The last local of that name in the function at hand; nothing changes. -/
  | own {slot : Nat} {l : Local} {index : UInt8}
      (hlast : LastLocal name b.context.locals slot l) (hinit : l.initialized = true)
      (hindex : index.toNat = slot) : Resolved name b ⟨.getLocal, .setLocal, index⟩ b
  /-- The last local of that name in the nearest function around that has one; the functions up to
  it capture it, and all other variables that they capture stay what they are. -/
  | outer {index : UInt8} {context : FunctionContext} {enclosing : List FunctionContext}
      (h : CapturedLocal name b.contexts index (context :: enclosing))
      (hkept : ∀ out i found, capturedLocal? (b.contexts.drop out) i = some found →
        capturedLocal? ((context :: enclosing).drop out) i = some found) :
      Resolved name b ⟨.getUpvalue, .setUpvalue, index⟩ { b with context, enclosing }
  /-- A global variable, since no function has a local of that name; its name is a constant. -/
  | global {index : UInt8} {chunk : Chunk} (hnone : ∀ c ∈ b.contexts, NoLocal name c.locals)
      (hchunk : chunk = b.chunk ∨
        chunk = { b.chunk with constants := b.chunk.constants.push (.string name) })
      (hindex : chunk.constants[index.toNat]? = some (.string name)) :
      Resolved name b ⟨.getGlobal, .setGlobal, index⟩ (b.withChunk chunk)

/-- Why a name cannot be used. -/
inductive Refused (name : String) (b : Builder) : ErrorKind → Prop where
  /-- The local that it stands for does not allow it. -/
  | hindered {kind : ErrorKind} (h : Hindered name b.contexts kind) : Refused name b kind
  /-- It stands for a global variable, and there is no room for its name. -/
  | full (hnone : ∀ c ∈ b.contexts, NoLocal name c.locals)
      (hfull : b.chunk.constants.size = Chunk.constantLimit) : Refused name b .tooManyConstants

theorem contextsRaised_drop {contexts contexts' : List FunctionContext}
    (h : ContextsRaised contexts contexts') (n : Nat) :
    ContextsRaised (contexts.drop n) (contexts'.drop n) :=
  List.forall₂_drop n h

/-- A name for which there is room becomes a constant. -/
theorem nameConstant_of_some {b : Builder} (token : Token) {index : UInt8} {chunk : Chunk}
    (h : b.chunk.addConstant (.string token.lexeme) = (some index, chunk)) :
    nameConstant token b = .ok index (b.withChunk chunk) := by
  have hadd : b.context.function.chunk.addConstant (.string token.lexeme) = _ := h
  unfold nameConstant constantAt
  rw [bind_of_ok (x := (get : Build Builder)) rfl, hadd]
  rfl

/-- A name for which there is no room is complained about. -/
theorem nameConstant_of_none {b : Builder} (token : Token)
    (h : b.chunk.addConstant (.string token.lexeme) = (none, b.chunk)) :
    nameConstant token b = .error (errorAt b.source token .tooManyConstants) b := by
  have hadd : b.context.function.chunk.addConstant (.string token.lexeme) = _ := h
  unfold nameConstant constantAt
  rw [bind_of_ok (x := (get : Build Builder)) rfl, hadd]
  rfl

/-- The constant that is a name, unless there is no room for it. -/
theorem nameConstant_spec {b : Builder} (token : Token)
    (hsize : b.chunk.constants.size ≤ Chunk.constantLimit) :
    (∃ index chunk, nameConstant token b = .ok index (b.withChunk chunk) ∧
        (chunk = b.chunk ∨
          chunk = { b.chunk with constants := b.chunk.constants.push (.string token.lexeme) } ∧
            b.chunk.constants.size < Chunk.constantLimit) ∧
        chunk.constants[index.toNat]? = some (.string token.lexeme)) ∨
      (nameConstant token b = .error (errorAt b.source token .tooManyConstants) b ∧
        b.chunk.constants.size = Chunk.constantLimit) := by
  rcases b.chunk.addConstant_cases (.string token.lexeme) with
    ⟨i, hlt, hsame, hadd⟩ | ⟨-, hroom, hadd⟩ | ⟨-, hfull, hadd⟩
  · have hlimit : i < 256 := Nat.lt_of_lt_of_le hlt hsize
    refine .inl ⟨_, _, nameConstant_of_some token hadd, .inl rfl, ?_⟩
    rw [UInt8.toNat_ofNat_of_lt' hlimit, Array.getElem?_eq_getElem hlt]
    exact congrArg some (Value.eq_of_sameConstant_string hsame)
  · refine .inl ⟨_, _, nameConstant_of_some token hadd, .inr ⟨rfl, hroom⟩, ?_⟩
    rw [UInt8.toNat_ofNat_of_lt' hroom]
    simp
  · exact .inr ⟨nameConstant_of_none token hadd, Nat.le_antisymm hsize hfull⟩

section

variable (token : Token) {b : Builder}

/-- A name that is a local of the function at hand is accessed in its slot. -/
theorem resolve_of_some {slot : UInt8}
    (h : b.context.resolveLocal token.lexeme = .ok (some slot)) :
    resolve token b = .ok ⟨.getLocal, .setLocal, slot⟩ b := by
  show (orFailAt token (b.context.resolveLocal token.lexeme) >>= _ : Build Access) b = _
  rw [h]
  rfl

/-- A local in its own initial value is complained about. -/
theorem resolve_of_error {kind : ErrorKind}
    (h : b.context.resolveLocal token.lexeme = .error kind) :
    resolve token b = .error (errorAt b.source token kind) b := by
  show (orFailAt token (b.context.resolveLocal token.lexeme) >>= _ : Build Access) b = _
  rw [h]
  rfl

/-- A name that is no local of the function at hand is looked up further out, and else is global. -/
theorem resolve_of_none (h : b.context.resolveLocal token.lexeme = .ok none) :
    resolve token b =
      let found := resolveCapture token.lexeme b.context b.enclosing
      let b' := { b with context := found.context, enclosing := found.enclosing }
      match found.index with
      | .error kind => .error (errorAt b.source token kind) b'
      | .ok (some index) => .ok ⟨.getUpvalue, .setUpvalue, index⟩ b'
      | .ok none =>
        (do return ⟨.getGlobal, .setGlobal, ← nameConstant token⟩ : Build Access) b' := by
  show (orFailAt token (b.context.resolveLocal token.lexeme) >>= _ : Build Access) b = _
  rw [h]
  show (orFailAt token (resolveCapture token.lexeme b.context b.enclosing).index >>= _ :
    Build Access) _ = _
  generalize resolveCapture token.lexeme b.context b.enclosing = found
  obtain ⟨index, context, enclosing⟩ := found
  cases index with
  | error kind => rfl
  | ok index? => cases index? <;> rfl

end

/-- **Names are bound lexically.**  Looking a name up among functions in order finds the variable
that it stands for, or says why it cannot be used; the functions stay in order. -/
theorem resolve_lexical (token : Token) (b : Builder) (horderly : ∀ c ∈ b.contexts, c.Orderly) :
    (∃ access b', resolve token b = .ok access b' ∧ Resolved token.lexeme b access b' ∧
        ∀ c ∈ b'.contexts, c.Orderly) ∨
      (∃ kind b', resolve token b = .error (errorAt b.source token kind) b' ∧
        Refused token.lexeme b kind ∧ Settled b.contexts b'.contexts) := by
  have hcontext : b.context.Orderly := horderly b.context List.mem_cons_self
  have hrefl : Settled b.contexts b.contexts := .refl horderly
  rcases b.context.resolveLocal_spec token.lexeme hcontext.locals with
    ⟨hlocal, hnone⟩ | ⟨slot, l, hlast, hlocal⟩
  · rw [resolve_of_none token hlocal]
    obtain ⟨hsearched, hsettled⟩ := resolveCapture_spec token.lexeme horderly hnone
    generalize resolveCapture token.lexeme b.context b.enclosing = found at hsearched hsettled ⊢
    obtain ⟨index, context, enclosing⟩ := found
    dsimp only at hsearched hsettled ⊢
    cases hsearched with
    | hindered h => exact .inr ⟨_, _, rfl, .hindered h, hsettled⟩
    | found h =>
      refine .inl ⟨_, _, rfl, .outer h ?_, hsettled.orderly⟩
      intro out i found hfound
      exact capturedLocal?_mono (contextsRaised_drop hsettled.raised out) hfound
    | absent hall hsame =>
      -- Nothing has changed, and the name becomes a constant.
      obtain ⟨rfl, rfl⟩ := List.cons.inj hsame
      rcases nameConstant_spec token hcontext.constants with
        ⟨index, chunk, hrun, hchunk, hindex⟩ | ⟨hrun, hfull⟩
      · refine .inl ⟨_, _, bind_of_ok hrun, .global hall (hchunk.imp_right And.left) hindex, ?_⟩
        intro c hc
        rcases List.mem_cons.1 hc with rfl | hc
        · refine { hcontext with constants := ?_ }
          rcases hchunk with rfl | ⟨rfl, hroom⟩
          · exact hcontext.constants
          · show (b.chunk.constants.push _).size ≤ _
            rw [Array.size_push]
            omega
        · exact horderly c (List.mem_cons_of_mem _ hc)
      · exact .inr ⟨_, _, bind_of_error hrun, .full hall hfull, hrefl⟩
  · by_cases hinit : l.initialized = true
    · rw [if_pos hinit] at hlocal
      exact .inl ⟨_, b, resolve_of_some token hlocal, .own hlast hinit rfl, horderly⟩
    · rw [if_neg hinit] at hlocal
      refine .inr ⟨_, b, resolve_of_error token hlocal, .hindered ?_, hrefl⟩
      exact .unfinished (.intro [] (by simp) hlast) (by simpa using hinit)

/-- Three functions around one another.  The outermost has two locals `x`, the second of which
hides the first; the one in the middle captures the first. -/
def nested : Builder :=
  { Builder.start #[] "x" [] with
    context := .start "inner" .function
    enclosing :=
      [{ FunctionContext.start "middle" .function with captures := #[⟨1, true⟩] },
        { FunctionContext.start "outer" .function with
          locals := [⟨"x", 2, true, false⟩, ⟨"x", 1, true, true⟩, ⟨"", 0, true, false⟩]
          depth := 2 }] }

/-- The innermost function reaches the second `x` through a new entry of the one in the middle. -/
theorem resolve_lexical_nested :
    ∃ b', resolve ⟨.identifier, "x", 0, 1⟩ nested = .ok ⟨.getUpvalue, .setUpvalue, 0⟩ b' ∧
      Resolved "x" nested ⟨.getUpvalue, .setUpvalue, 0⟩ b' ∧
      b'.contexts.map (·.captures) = [#[⟨1, false⟩], #[⟨1, true⟩, ⟨2, true⟩], #[]] := by
  have horderly : ∀ c ∈ nested.contexts, c.Orderly := by
    intro c hc
    simp only [nested, Builder.contexts, List.mem_cons, List.not_mem_nil, or_false] at hc
    rcases hc with rfl | rfl | rfl
    · exact FunctionContext.orderly_start "inner" .function
    · exact { FunctionContext.orderly_start "middle" .function with
        captures := by decide
        nodup := by simp }
    · exact { FunctionContext.orderly_start "outer" .function with locals := by decide }
  have hnew : (#[⟨1, true⟩] : Array Capture).idxOf? ⟨2, true⟩ = none := by
    simp
  have hfound : resolveCapture "x" nested.context nested.enclosing =
      ⟨.ok (some 0), { FunctionContext.start "inner" .function with captures := #[⟨1, false⟩] },
        [{ FunctionContext.start "middle" .function with captures := #[⟨1, true⟩, ⟨2, true⟩] },
          { FunctionContext.start "outer" .function with
            locals := [⟨"x", 2, true, true⟩, ⟨"x", 1, true, true⟩, ⟨"", 0, true, false⟩]
            depth := 2 }]⟩ := by
    simp [nested, resolveCapture, FunctionContext.start, FunctionContext.receiverName,
      FunctionContext.resolveLocal, FunctionContext.findLocal?, FunctionContext.addCapture,
      FunctionContext.captureLimit, FunctionContext.markCaptured, FunctionContext.captureSlot,
      Except.map, hnew]
  have hnone : nested.context.resolveLocal "x" = .ok none := rfl
  have hrun := resolve_of_none ⟨.identifier, "x", 0, 1⟩ hnone
  rw [hfound] at hrun
  rcases resolve_lexical ⟨.identifier, "x", 0, 1⟩ nested horderly with
    ⟨access, b', hok, hresolved, -⟩ | ⟨kind, b', herror, -, -⟩
  · rw [hrun] at hok
    cases hok
    exact ⟨_, hrun, hresolved, rfl⟩
  · rw [hrun] at herror
    cases herror

end Build

end ScriptVM
