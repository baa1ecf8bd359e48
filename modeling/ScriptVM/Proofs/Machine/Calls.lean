/-
# Calls on typed machines

A call that waits for the result of another one goes on where its code expects what it then finds on
the stack: `Waits` says so of a whole stack of calls, and of the slots below the callee that runs.
What a result is traded for depends on what the call was for (`Resume.trade?`).

Every way of calling a value, of reading a property and of leaving a call takes a typed machine to
one that is `Ready` for its next instruction, or ends the run.
-/
import ScriptVM.Proofs.Machine.Captured

namespace ScriptVM

/-! ## Waiting calls -/

/-- The slots that a result takes from the stack, and those that stand there instead. -/
structure Trade where
  /-- What is taken. -/
  taken : Shape
  /-- What stands there instead. -/
  given : Shape

/-- The slots that a description leaves behind. -/
def Purpose.given : Purpose → Shape
  | .print => []
  | .write | .text => [.operand]

/-- What the result of a call is traded for; the result of the run goes nowhere. -/
def Resume.trade? : Resume → Option Trade
  | .finish => none
  | .caller | .superProperty => some ⟨[], [.operand]⟩
  | .property => some ⟨[.operand], [.operand]⟩
  | .invocation arguments => some ⟨List.replicate (arguments.toNat + 1) .operand, [.operand]⟩
  | .description pending => some ⟨[], pending.purpose.given⟩

/-- The calls in progress go on after a trade, above the slots of a shape. -/
inductive Waits (W : World) : Option Trade → List Frame → Shape → Prop
  | finish : Waits W none [] []
  | call {f : Frame} {rest : List Frame} {bp : Blueprint} {taken given X below : Shape}
      (hbp : W.closures[f.closure.index]? = some bp) (hslots : f.slots = below.length)
      (hat : Reaches (bp.marks.point? none) f.ip (.at (given ++ X)))
      (hrest : Waits W f.resume.trade? rest below) :
      Waits W (some ⟨taken, given⟩) (f :: rest) (taken ++ (X ++ bp.receiver :: below))

/-- The innermost call goes on once the given slots are on the stack. -/
abbrev GoesOn (W : World) (given : Shape) (calls : List Frame) (S : Shape) : Prop :=
  Waits W (some ⟨[], given⟩) calls S

namespace Waits

variable {W V : World} {trade : Option Trade} {calls : List Frame} {S given : Shape}

theorem mono (h : Waits W trade calls S) (hle : W.Le V) : Waits V trade calls S := by
  induction h with
  | finish => exact .finish
  | call hbp hslots hat _ ih => exact .call (getElem?_of_isPrefix hle.closures hbp) hslots hat ih

/-- More slots may be there to be taken. -/
theorem take (h : GoesOn W given calls S) (taken : Shape) :
    Waits W (some ⟨taken, given⟩) calls (taken ++ S) := by
  cases h with
  | call hbp hslots hat hrest => exact .call hbp hslots hat hrest

/-- The slots that are given can be there. -/
theorem give (h : GoesOn W given calls S) : GoesOn W [] calls (given ++ S) := by
  cases h with
  | call hbp hslots hat hrest =>
    rw [List.nil_append, ← List.append_assoc]
    exact .call hbp hslots hat hrest

end Waits

/-- A machine that is ready for the next instruction. -/
def Machine.Ready (ground : Ground) (m : Machine) : Prop :=
  ∃ W S, W.toGround = ground ∧ At W S m ∧ GoesOn W [] m.calls S

/-- A machine behind a run: its stacks are empty and no cell of the run is open. -/
structure Machine.Quiet (ground : Ground) (m : Machine) : Prop where
  /-- The global variables and objects are as they should. -/
  typed : ∃ W, W.toGround = ground ∧ At W [] m
  /-- No call is in progress. -/
  calls : m.calls = []

/-- What holds behind an instruction: the run goes on, or it has ended. -/
def Machine.Settled (ground : Ground) (m : Machine) (result : Option Value) : Prop :=
  match result with
  | none => m.Ready ground
  | some _ => m.Quiet ground

theorem Machine.Ready.of_given {W : World} {S given : Shape} {m : Machine} (h : At W (given ++ S) m)
    (hw : GoesOn W given m.calls S) : m.Ready W.toGround :=
  ⟨W, given ++ S, rfl, h, hw.give⟩

/-- The callee stands below the arguments. -/
theorem replicate_succ_append (n : Nat) (S : Shape) :
    List.replicate (n + 1) Slot.operand ++ S = List.replicate n .operand ++ .operand :: S := by
  rw [List.replicate_succ', List.append_assoc]
  rfl

namespace Exec

variable {W : World} {S X given : Shape} {s : Slot} {m : Machine} {v : Value} {arguments : UInt8}
  {closure : ClosureId} {id : InstanceId} {r : Resume}

theorem push_ready (h : At W S m) (hw : GoesOn W [.operand] m.calls S) (hv : v.Ok W) :
    Ensures W.toGround (push v) m fun _ m' => m'.Ready W.toGround :=
  (push_at (s := .operand) h (.value hv)).imp fun _ _ ⟨hat, hcalls⟩ => .of_given hat (hcalls ▸ hw)

/-! ## Starting calls -/

/-- Operands can stand for slots of any values. -/
theorem replicate_le (h : ∀ s ∈ X, s.kind = .value) :
    Shape.Le (List.replicate X.length .operand) X := by
  induction X with
  | nil => exact .nil
  | cons s rest ih =>
    refine .cons ⟨(h s List.mem_cons_self).symm, by simp⟩ (ih fun t ht => ?_)
    exact h t (List.mem_cons_of_mem s ht)

/-- **A closure is called** on what its function is called on, with any arguments. -/
theorem enter_ready {bp : Blueprint}
    (h : At W (List.replicate arguments.toNat .operand ++ s :: S) m)
    (hbp : W.closures[closure.index]? = some bp) (hs : s.captured = false)
    (hkind : s.kind = bp.receiver.kind) (hw : Waits W r.trade? m.calls S) :
    Ensures W.toGround (enter closure arguments r) m fun _ m' => m'.Ready W.toGround := by
  have hfits := h.heap.functionOf hbp
  refine Ensures.bind_heap ?_
  dsimp only
  split
  · exact Ensures.bind_raise h.survives
  · next harity =>
    have harity : (m.heap.functionOf closure).arity = arguments := by simpa using harity
    have hlength := h.length_values
    rw [List.length_append, List.length_replicate, List.length_cons] at hlength
    refine Ensures.bind_of_eq (calleeSlot_eq (n := S.length) (by omega)) ?_
    refine (ensures_pushFrame h.survives _).imp ?_
    rintro - m' ⟨hsize, rfl⟩
    -- The arguments become the parameters.
    have hle : Shape.Le (List.replicate arguments.toNat .operand ++ s :: S)
        (bp.parameters ++ bp.receiver :: S) := by
      refine Shape.Le.append ?_ (.cons ⟨hkind, by simp [hs]⟩ (Shape.Le.refl S))
      rw [← harity, ← hfits.arity]
      exact replicate_le hfits.parameters
    refine ⟨W, _, rfl, (h.le hle).reframe, ?_⟩
    have hcalls : Machine.calls { m with frames := m.frames.pushOf ⟨closure, 0, S.length, r⟩ hsize }
        = ⟨closure, 0, S.length, r⟩ :: m.calls := Stack.down_pushOf hsize
    rw [hcalls]
    exact Waits.call (X := bp.parameters) hbp rfl hfits.entry hw

/-- A closure is called on what stands below the arguments, which is used as an instance. -/
theorem enter_on_instance (h : At W (List.replicate arguments.toNat .operand ++ s :: S) m)
    (hs : s.captured = false) (hcallee : m.values[arguments.toNat]? = some v)
    (hv : v.HasKind W .receiver) (hknows : W.Knows closure) (hw : Waits W r.trade? m.calls S) :
    Ensures W.toGround (enter closure arguments r) m fun _ m' => m'.Ready W.toGround := by
  obtain ⟨bp, hbp⟩ := hknows
  have hkind : v.HasKind W bp.receiver.kind := by
    rw [(h.heap.functionOf hbp).receiver]
    exact hv.called bp.isMember
  exact enter_ready (h.rekind hs (by simpa using hcallee) hkind) hbp rfl rfl hw

/-- A member is evaluated on an instance in a call without arguments. -/
theorem evaluate_ready (h : At W S m) (hknows : W.Knows closure)
    (hw : Waits W r.trade? m.calls S) :
    Ensures W.toGround (evaluate closure (.instanceRef id) r) m fun _ m' =>
      m'.Ready W.toGround := by
  refine Ensures.bind_get ?_
  dsimp only
  split
  · exact Ensures.bind_raise h.survives
  · refine (ensures_push h.survives _).bind fun _ m' hp => ?_
    have hat := h.pushed (s := .operand) hp (.value (.plain rfl))
    have htop : m'.values[(0 : UInt8).toNat]? = some (.instanceRef id) := by
      rw [hp.values]
      rfl
    exact enter_on_instance hat rfl htop .receiver hknows (hp.calls ▸ hw)

/-! ## Descriptions -/

/-- A description goes where it was asked for. -/
theorem deliver_ready {purpose : Purpose} (description : String) (h : At W S m)
    (hw : GoesOn W purpose.given m.calls S) :
    Ensures W.toGround (deliver purpose description) m fun _ m' => m'.Ready W.toGround := by
  have hwritten : ∀ text, At W S { m with sink := m.sink.write text } := fun _ =>
    ⟨h.heap, h.globals, h.values, h.cells⟩
  cases purpose with
  | print => exact ⟨W, S, rfl, hwritten _, hw⟩
  | write => exact push_ready (hwritten description) hw (.plain rfl)
  | text => exact push_ready h hw (.plain rfl)

/-- What describes an instance is a member of its class. -/
theorem leafText_computed {heap : Heap} {value : Value} {property : ClosureId} (h : heap.Ok W)
    (hleaf : heap.leafText value = .computed property) :
    W.Knows property ∧ ∃ id, value = .instanceRef id := by
  unfold Heap.leafText at hleaf
  split at hleaf
  · next id =>
    split at hleaf
    · simp at hleaf
    · split at hleaf
      · next property' hproperty =>
        injection hleaf with hleaf
        subst hleaf
        exact ⟨(h.classAt _).properties _ _ hproperty, id, rfl⟩
      · simp at hleaf
  · simp at hleaf

/-- **A description** is put together, or waits for the description of an instance. -/
theorem describe_ready {purpose : Purpose} (pieces : List Piece) (done : String) (h : At W S m)
    (hw : GoesOn W purpose.given m.calls S) :
    Ensures W.toGround (describe purpose done pieces) m fun _ m' => m'.Ready W.toGround := by
  induction pieces generalizing done with
  | nil => exact deliver_ready done h hw
  | cons piece rest ih =>
    cases piece with
    | text s => exact ih (done ++ s)
    | leaf value =>
      refine Ensures.bind_heap ?_
      split
      · next text _ => exact ih (done ++ text)
      · next property hleaf =>
        obtain ⟨hknows, id, rfl⟩ := leafText_computed h.heap hleaf
        exact evaluate_ready h hknows hw

/-! ## Calling values -/

/-- What a native function gives is made of the arguments. -/
theorem effect_ok {function : Native} {now : Float} {values : List Value} {value : Value}
    (hvalues : ∀ v ∈ values, v.Ok W)
    (h : function.effect now values = .ok (.result value)) : value.Ok W := by
  have hhead : ∀ vs : List Value, (∀ v ∈ vs, v.Ok W) → (vs.headD .nil).Ok W := by
    intro vs hvs
    cases vs with
    | nil => exact .plain rfl
    | cons v rest => exact hvs v List.mem_cons_self
  cases function with
  | clock =>
    simp only [Native.effect, Except.ok.injEq, Native.Effect.result.injEq] at h
    exact h ▸ .plain rfl
  | write => simp [Native.effect] at h
  | describe => simp [Native.effect] at h
  | append =>
    have harray := hhead values hvalues
    have helement := hhead values.tail fun v hv => hvalues v (List.mem_of_mem_tail hv)
    simp only [Native.effect, Native.appended] at h
    split at h
    · next elements heq =>
      simp only [Except.ok.injEq, Native.Effect.result.injEq] at h
      rw [heq] at harray
      subst h
      refine .array fun v hv => ?_
      rcases List.mem_append.1 hv with hv | hv
      · exact harray.elements v hv
      · exact List.mem_singleton.1 hv ▸ helement
    · simp at h

/-- A native function is called, and its result stands in place of the callee and the arguments. -/
theorem callNative_ready (function : Native)
    (h : At W (List.replicate arguments.toNat .operand ++ .operand :: S) m)
    (hw : GoesOn W [.operand] m.calls S) :
    Ensures W.toGround (callNative function arguments) m fun _ m' => m'.Ready W.toGround := by
  unfold callNative
  dsimp only
  split
  · exact Ensures.bind_raise h.survives
  · refine (popMany_at h).bind fun values m₁ ⟨hvalues, h₁, hcalls₁⟩ => ?_
    refine (pop_at h₁ rfl).bind fun _ m₂ ⟨_, h₂, hcalls₂⟩ => ?_
    have hw₂ : GoesOn W [.operand] m₂.calls S := by
      rw [hcalls₂, hcalls₁]
      exact hw
    refine Ensures.bind_get ?_
    split
    · exact Ensures.raise h₂.survives
    · next value heffect => exact push_ready h₂ hw₂ (effect_ok hvalues heffect)
    · next value purpose heffect =>
      refine describe_ready value.pieces "" h₂ ?_
      cases function with
      | clock => simp [Native.effect] at heffect
      | write =>
        obtain ⟨-, rfl⟩ : _ ∧ _ := by simpa [Native.effect] using heffect
        exact hw₂
      | describe =>
        obtain ⟨-, rfl⟩ : _ ∧ _ := by simpa [Native.effect] using heffect
        exact hw₂
      | append =>
        simp only [Native.effect, Native.appended] at heffect
        split at heffect <;> simp at heffect

/-- An element of an array is a value of the world, and so is what stands for one that is not
there. -/
theorem elementAt_ok {elements : List Value} (helements : ∀ v ∈ elements, v.Ok W) (index : Int) :
    (elementAt elements index).Ok W := by
  unfold elementAt
  split
  · exact .plain rfl
  · rw [List.getD_eq_getElem?_getD]
    cases helement : elements[index.toNat]? with
    | none => exact .plain rfl
    | some v => exact helements v (List.mem_of_getElem? helement)

/-- An array is called for one of its elements. -/
theorem callArray_ready {elements : List Value} (helements : ∀ v ∈ elements, v.Ok W)
    (h : At W (List.replicate arguments.toNat .operand ++ .operand :: S) m)
    (hw : GoesOn W [.operand] m.calls S) :
    Ensures W.toGround (callArray elements arguments) m fun _ m' => m'.Ready W.toGround := by
  unfold callArray
  dsimp only
  split
  · exact Ensures.bind_raise h.survives
  · next hone =>
    obtain rfl : arguments = 1 := by simpa using hone
    refine (pop_at (s := .operand) (S := .operand :: S) h rfl).bind fun _ m₁ ⟨_, h₁, hcalls₁⟩ => ?_
    refine (pop_at h₁ rfl).bind fun _ m₂ ⟨_, h₂, hcalls₂⟩ => ?_
    split
    · refine push_ready h₂ ?_ ?_
      · rw [hcalls₂, hcalls₁]
        exact hw
      · exact elementAt_ok helements _
    · exact Ensures.raise h₂.survives

/-- A class is called for an instance, which its initializer may have to prepare. -/
theorem callClass_ready (id : ClassId)
    (h : At W (List.replicate arguments.toNat .operand ++ .operand :: S) m)
    (hw : GoesOn W [.operand] m.calls S) :
    Ensures W.toGround (callClass id arguments) m fun _ m' => m'.Ready W.toGround := by
  let made : Machine := { m with heap := (m.heap.newInstance id).2 }
  have hmade : At W (List.replicate arguments.toNat .operand ++ .operand :: S) made :=
    ⟨h.heap.newInstance id, h.globals, h.values, ⟨h.cells.known, h.cells.opened⟩⟩
  refine Ensures.bind_of_eq (show allocate (·.newInstance id) m = .ok _ made from rfl) ?_
  refine (setCallee_at hmade (by simp) rfl (.value (.plain rfl))).bind ?_
  rintro - m' ⟨hat, hcalls, hcallee⟩
  refine Ensures.bind_heap ?_
  split
  · next init hinit =>
    refine enter_on_instance hat rfl (by simpa using hcallee) .receiver ?_ (hcalls ▸ hw)
    exact (hat.heap.classAt id).methods _ _ hinit
  · split
    · exact Ensures.raise hat.survives
    · next hzero =>
      obtain rfl : arguments = 0 := by simpa using hzero
      exact .of_given (show At W ([.operand] ++ S) m' from hat) (hcalls ▸ hw)

/-- **Any value is called** with any arguments. -/
theorem callValue_ready (h : At W (List.replicate arguments.toNat .operand ++ .operand :: S) m)
    (hcallee : m.values[arguments.toNat]? = some v) (hw : GoesOn W [.operand] m.calls S) :
    Ensures W.toGround (callValue v arguments) m fun _ m' => m'.Ready W.toGround := by
  have hv : v.Ok W := by
    obtain ⟨v', hv', hfills⟩ := h.value (n := arguments.toNat) (s := .operand) (by simp)
    rw [hcallee, Option.some.injEq] at hv'
    exact (hv' ▸ hfills).ok
  unfold callValue
  split
  · next id =>
    cases hv with
    | plain hplain => exact absurd hplain (by simp [Value.isPlain])
    | @closure _ bp hbp hmember =>
      -- A member of a class that has got out of its class is called on itself.
      have hkind : (Value.closureRef id).HasKind W bp.receiver.kind := by
        rw [(h.heap.functionOf hbp).receiver]
        by_cases htrusted : Trusted W.stale
        · rw [hmember htrusted]
          exact .callee (.closure hbp hmember)
        · exact .any htrusted (.closure hbp hmember)
      exact enter_ready (h.rekind rfl (by simpa using hcallee) hkind) hbp rfl rfl hw
  · next id => exact callClass_ready id h hw
  · next receiver method =>
    cases hv with
    | plain hplain => exact absurd hplain (by simp [Value.isPlain])
    | bound hknows =>
      refine (setCallee_at h (by simp) rfl (.value (.plain rfl))).bind ?_
      rintro - m' ⟨hat, hcalls, hreceiver⟩
      exact enter_on_instance hat rfl (by simpa using hreceiver) .receiver hknows (hcalls ▸ hw)
  · next function => exact callNative_ready function h hw
  · next elements => exact callArray_ready hv.elements h hw
  · next id =>
    refine Ensures.bind_heap ?_
    split
    · next subscript hsubscript =>
      exact enter_on_instance h rfl hcallee .receiver ((h.heap.classAt _).methods _ _ hsubscript) hw
    · exact Ensures.raise h.survives
  · exact Ensures.raise h.survives

/-- A value that stands where a name was looked up is called in place of the receiver. -/
theorem callInstead_ready (h : At W (List.replicate arguments.toNat .operand ++ .operand :: S) m)
    (hv : v.Ok W) (hw : GoesOn W [.operand] m.calls S) :
    Ensures W.toGround (callInstead v arguments) m fun _ m' => m'.Ready W.toGround := by
  refine (setCallee_at h (by simp) rfl (.value hv)).bind ?_
  rintro - m' ⟨hat, hcalls, hcallee⟩
  exact callValue_ready hat (by simpa using hcallee) (hcalls ▸ hw)

/-! ## Properties -/

/-- A method of a class is called on the receiver below the arguments. -/
theorem invokeFrom_ready {owner : ClassId} (name : String)
    (h : At W (List.replicate arguments.toNat .operand ++ s :: S) m) (hs : s.captured = false)
    (hcallee : m.values[arguments.toNat]? = some v) (hv : v.HasKind W .receiver)
    (hw : GoesOn W [.operand] m.calls S) :
    Ensures W.toGround (invokeFrom owner name arguments) m fun _ m' => m'.Ready W.toGround := by
  refine Ensures.bind_heap ?_
  split
  · next method hmethod =>
    exact enter_on_instance h hs hcallee hv ((h.heap.classAt owner).methods _ _ hmethod) hw
  · exact Ensures.raise h.survives

/-- A member of the value below the arguments is looked up and called. -/
theorem invoke_ready (name : String)
    (h : At W (List.replicate arguments.toNat .operand ++ .operand :: S) m)
    (hw : GoesOn W [.operand] m.calls S) :
    Ensures W.toGround (invoke name arguments) m fun _ m' => m'.Ready W.toGround := by
  obtain ⟨v, hv, hfills⟩ := h.value (n := arguments.toNat) (s := .operand) (by simp)
  refine Ensures.bind_of_eq (peek_eq hv) ?_
  split
  · next id =>
    refine Ensures.bind_heap ?_
    split
    · next field hfield => exact callInstead_ready h (h.heap.field? hfield) hw
    · split
      · next property hproperty =>
        refine evaluate_ready h ((h.heap.classAt _).properties _ _ hproperty) ?_
        have hwaits := hw.take (List.replicate (arguments.toNat + 1) .operand)
        rw [replicate_succ_append] at hwaits
        exact hwaits
      · exact invokeFrom_ready name h rfl hv .receiver hw
  · exact Ensures.raise h.survives

/-- The value on top of the stack gives way to another one. -/
theorem replaceTop_ready (h : At W (.operand :: S) m) (hv : v.Ok W)
    (hw : GoesOn W [.operand] m.calls S) :
    Ensures W.toGround (replaceTop v) m fun _ m' => m'.Ready W.toGround := by
  refine (pop_at h rfl).bind fun _ m' ⟨_, hat, hcalls⟩ => ?_
  exact push_ready hat (hcalls ▸ hw) hv

/-- A property is read, and a computed one is evaluated first. -/
theorem readProperty_ready (id : InstanceId) (name : String) (h : At W (.operand :: S) m)
    (hw : GoesOn W [.operand] m.calls S) :
    Ensures W.toGround (readProperty id name) m fun _ m' => m'.Ready W.toGround := by
  refine Ensures.bind_heap ?_
  split
  · next value hvalue => exact replaceTop_ready h (h.heap.field? hvalue) hw
  · split
    · next property hproperty =>
      exact evaluate_ready h ((h.heap.classAt _).properties _ _ hproperty) (hw.take [.operand])
    · split
      · next method hmethod =>
        exact replaceTop_ready h (.bound ((h.heap.classAt _).methods _ _ hmethod)) hw
      · exact Ensures.raise h.survives

/-- A property is read from a superclass, and bound to the receiver. -/
theorem readSuperProperty_ready (superclass : ClassId) (receiver : InstanceId) (name : String)
    (h : At W S m) (hw : GoesOn W [.operand] m.calls S) :
    Ensures W.toGround (readSuperProperty superclass receiver name) m fun _ m' =>
      m'.Ready W.toGround := by
  refine Ensures.bind_heap ?_
  dsimp only
  split
  · next property hproperty =>
    exact evaluate_ready h ((h.heap.classAt _).properties _ _ hproperty) hw
  · split
    · next method hmethod =>
      exact push_ready h hw (.bound ((h.heap.classAt _).methods _ _ hmethod))
    · exact Ensures.raise h.survives

/-! ## Leaving calls -/

theorem ensures_none {x : Exec Unit} (h : Ensures W.toGround x m fun _ m' => m'.Ready W.toGround) :
    Ensures W.toGround (do x; return none) m fun result m' => m'.Settled W.toGround result :=
  h.bind fun _ _ hready => hready

/-- **The result of a call** is what the calls below wait for. -/
theorem resume_settled (r : Resume) (h : At W S m) (hv : v.Ok W)
    (hw : Waits W r.trade? m.calls S) : Ensures W.toGround (resume v r) m fun result m' =>
      m'.Settled W.toGround result := by
  cases r with
  | finish =>
    generalize hcalls : m.calls = calls at hw
    cases hw with
    | finish => exact ⟨⟨W, rfl, h⟩, hcalls⟩
  | caller => exact ensures_none (push_ready h hw hv)
  | superProperty => exact ensures_none (push_ready h hw hv)
  | property =>
    generalize hcalls : m.calls = calls at hw
    cases hw with
    | call hbp hslots hat hrest =>
      refine ensures_none (replaceTop_ready h hv ?_)
      rw [hcalls]
      exact .call hbp hslots hat hrest
  | invocation arguments =>
    generalize hcalls : m.calls = calls at hw
    cases hw with
    | call hbp hslots hat hrest =>
      rw [replicate_succ_append] at h
      refine ensures_none (callInstead_ready h hv ?_)
      rw [hcalls]
      exact .call hbp hslots hat hrest
  | description pending =>
    exact Ensures.bind_heap (ensures_none (describe_ready pending.rest _ h hw))

/-- **A call is left** with the value on top. -/
theorem leave_settled {f : Frame} {rest : List Frame} {below : Shape}
    (h : At W (.operand :: X ++ below) m) (hcalls : m.calls = f :: rest)
    (hslots : f.slots = below.length) (hw : Waits W f.resume.trade? rest below) :
    Ensures W.toGround leave m fun result m' => m'.Settled W.toGround result := by
  refine (pop_at h rfl).bind fun result m₁ ⟨hresult, h₁, hcalls₁⟩ => ?_
  refine Ensures.bind_of_eq (popFrame_eq (hcalls₁.trans hcalls)) ?_
  rw [hslots]
  let left : Machine := { m₁ with frames := m₁.frames.dropTop }
  have hleft : left.calls = rest := by
    show m₁.frames.dropTop.down = rest
    rw [Stack.down_dropTop]
    exact congrArg List.tail (hcalls₁.trans hcalls)
  have hat := Machine.truncated_at (m := left) (h₁.reframe)
  refine Ensures.bind_modify (Ensures.bind_modify ?_)
  refine resume_settled f.resume hat hresult.ok ?_
  show Waits W f.resume.trade? left.calls below
  rw [hleft]
  exact hw

end Exec

end ScriptVM
