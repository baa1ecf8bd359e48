/-
# Callers are not disturbed

A call is followed from any point at which it is the innermost one, in particular from its start, to
the return that leaves it (`Machine.During`), whatever other calls it starts in between and whatever
instruction it is a part of.  All along, the calls below stand where they stood, the slots below its
own are captured by the same cells, and those that are not captured keep their values
(`Machine.Undisturbed`).  The slots of pending values are never captured, so a call leaves the
temporaries of its callers alone.

One step leaves alone what stands below the operands of its instruction (`Machine.kept`), apart from
the variable that it assigns; that this is above the slots of every call but the one that is left
makes the induction along the run work.

Main statement: `Session.Reached.undisturbed`.
-/
import ScriptVM.Proofs.Machine.Invocation
import ScriptVM.Proofs.Machine.Pending
import ScriptVM.Proofs.Session.Captured
import ScriptVM.Proofs.Session.Quiescence

namespace ScriptVM

namespace Machine

variable {m m₁ m₂ m' : Machine} {g : Frame} {rest : List Frame} {op : Opcode}

/-! ## Calls that are in progress -/

/-- A call is in progress, wherever it has come to and whatever calls it has started, and the calls
below it are `rest`. -/
def RunsOver (m : Machine) (g : Frame) (rest : List Frame) : Prop :=
  ∃ above ip, m.calls = above ++ { g with ip } :: rest

/-- The next instruction is a return that leaves `floor` calls. -/
structure Leaves (m : Machine) (floor : Nat) : Prop where
  /-- There is one call more before it. -/
  size : m.frames.size = floor + 1
  /-- It is a return. -/
  ret : ∃ m', Exec.readOpcode m = .ok .ret m'

/-- The machines that a run comes to from a machine with one call more than `floor`, up to the
return that leaves `floor` calls. -/
inductive During (m : Machine) (floor : Nat) : Machine → Prop
  | start : During m floor m
  | step {m₁ m₂ : Machine} (h : During m floor m₁) (hstays : ¬m₁.Leaves floor)
      (hstep : Exec.step m₁ = .ok none m₂) : During m floor m₂
  | pause {m₁ : Machine} (h : During m floor m₁) (pause : Pause) : During m floor (pause.apply m₁)

/-- A machine during a call is one that the run visits. -/
theorem During.visits {start : Progress} {floor : Nat} (h : m.During floor m')
    (hm : start.Visits m) : start.Visits m' := by
  induction h with
  | start => exact hm
  | step _ _ hstep ih => exact ih.step hstep
  | pause _ pause ih => exact ih.pause pause

/-- A small change leaves the calls below the one in progress. -/
theorem Change.runsOver (h : Change op m m') (hm : m.RunsOver g rest) : m'.RunsOver g rest := by
  obtain ⟨above, ip, hcalls⟩ := hm
  cases h with
  | goTo ip' =>
    cases above with
    | nil => exact ⟨[], ip', calls_moveTo hcalls ip'⟩
    | cons f above => exact ⟨{ f with ip := ip' } :: above, ip, calls_moveTo hcalls ip'⟩
  | call f hf hsize =>
    refine ⟨f :: above, ip, ?_⟩
    show (m.frames.pushOf f hsize).down = _
    rw [Stack.down_pushOf]
    exact congrArg (f :: ·) hcalls
  | _ => exact ⟨above, ip, hcalls⟩

theorem Becomes.runsOver (h : Becomes op m m') (hm : m.RunsOver g rest) : m'.RunsOver g rest := by
  induction h with
  | refl => exact hm
  | tail _ hchange ih => exact hchange.runsOver ih

/-- **One step** leaves a call in progress, if it is not the return that leaves it. -/
theorem RunsOver.step (h : m.RunsOver g rest) (hstays : ¬m.Leaves rest.length)
    (hstep : Exec.step m = .ok none m') : m'.RunsOver g rest := by
  rcases Exec.step_cases m with ⟨op, -, hbecomes, -⟩ | ⟨f, rest', value, hcalls, hret, -, heq⟩
  · rw [Exec.after_of_ok hstep] at hbecomes
    exact hbecomes.runsOver h
  obtain ⟨above, ip, habove⟩ := h
  rw [heq] at hstep
  have hresume : f.resume ≠ .finish := by
    intro hfinish
    rw [hfinish] at hstep
    cases hstep
  cases above with
  | nil =>
    refine absurd ⟨?_, _, hret⟩ hstays
    rw [← Stack.length_down, show m.frames.down = _ from habove]
    rfl
  | cons f' above =>
    have hunwound : (m.unwound f.slots).RunsOver g rest := by
      obtain ⟨rfl, rfl⟩ := List.cons.inj (hcalls.symm.trans habove)
      exact ⟨above, ip, calls_unwound hcalls _⟩
    have hbecomes := (@Exec.resume_changes .ret _ hresume value).becomes (m.unwound f.slots)
    rw [Exec.after_of_ok hstep] at hbecomes
    exact hbecomes.runsOver hunwound

/-! ## Cells that are opened -/

/-- Where no closure is made, no cell begins to stand for a slot. -/
theorem Change.opened (h : Change op m m') (hop : op ≠ .closure) {j s : Nat}
    (hj : m'.heap.cells[j]? = some (.openAt s)) : m.heap.cells[j]? = some (.openAt s) := by
  cases h with
  | assign id old new _ =>
    have hj : (m.heap.cells.setIfInBounds id.index (.closed new))[j]? = _ := hj
    rw [Array.getElem?_setIfInBounds] at hj
    split at hj
    · split at hj <;> cases hj
    · exact hj
  | capture _ h => exact absurd h hop
  | close bottom =>
    have hj : ((m.closing bottom).foldl (closeCell m.stack) m.heap).cells[j]? = _ := hj
    rw [getElem?_closeAll] at hj
    obtain ⟨cell, hcell, hclose⟩ := Option.map_eq_some_iff.1 hj
    split at hclose
    · cases cell <;> simp [Cell.close] at hclose
    · exact hclose ▸ hcell
  | _ => exact hj

/-- Only a closure that is made opens cells. -/
theorem Becomes.opened (h : Becomes op m m') (hop : op ≠ .closure) {j s : Nat}
    (hj : m'.heap.cells[j]? = some (.openAt s)) : m.heap.cells[j]? = some (.openAt s) := by
  induction h with
  | refl => exact hj
  | tail _ hchange ih => exact ih (hchange.opened hop hj)

end Machine

namespace Exec

variable {α : Type} {x : Exec α} {m m' : Machine} {j s : Nat}

/-- A part of a run that consists of small changes opens no cells, unless it makes a closure. -/
theorem opened_of_changes [Changes .ret x] {a : α} (h : x m = .ok a m')
    (hj : m'.heap.cells[j]? = some (.openAt s)) : m.heap.cells[j]? = some (.openAt s) := by
  have hbecomes : Machine.Becomes .ret m (x.after m) := Changes.becomes m
  rw [after_of_ok h] at hbecomes
  exact hbecomes.opened (by simp) hj

/-- A cell that is opened for a captured variable stands for a slot of its call. -/
theorem captureSlot_opened {base index : Nat} {id : CellId}
    (h : captureSlot (base + index) m = .ok id m') (hj : m'.heap.cells[j]? = some (.openAt s)) :
    m.heap.cells[j]? = some (.openAt s) ∨ base ≤ s := by
  unfold captureSlot at h
  split at h
  · injection h with _ hm
    exact .inl (hm ▸ hj)
  · injection h with _ hm
    rw [← hm] at hj
    have hj : (m.heap.cells.push (.openAt (base + index)))[j]? = _ := hj
    rw [Array.getElem?_push] at hj
    split at hj
    · obtain rfl := Cell.openAt.inj (Option.some.inj hj)
      exact .inr (Nat.le_add_right _ _)
    · exact .inl hj

/-- The captured variables of a new closure are slots of the call in progress. -/
theorem readCaptures_opened {base count : Nat} {around found ids : Array CellId}
    (h : readCaptures base around found count m = .ok ids m')
    (hj : m'.heap.cells[j]? = some (.openAt s)) :
    m.heap.cells[j]? = some (.openAt s) ∨ base ≤ s := by
  induction count generalizing m found with
  | zero =>
    injection h with _ hm
    exact .inl (hm ▸ hj)
  | succ count ih =>
    rw [readCaptures] at h
    obtain ⟨origin, m₁, horigin, h⟩ := exists_of_bind_ok h
    obtain ⟨index, m₂, hindex, h⟩ := exists_of_bind_ok h
    have hcell : m₂.heap.cells[j]? = some (.openAt s) ∨ base ≤ s := by
      by_cases hlocal : origin = 1
      · simp only [hlocal, if_true] at h
        obtain ⟨id, m₃, hid, h⟩ := exists_of_bind_ok h
        exact (ih h).elim (captureSlot_opened hid) .inr
      · simp only [hlocal, if_false] at h
        obtain ⟨id, m₃, hid, h⟩ := exists_of_bind_ok h
        rw [(capturedCell_ok hid).2] at h
        exact ih h
    exact hcell.imp_left fun hj => opened_of_changes horigin (opened_of_changes hindex hj)

end Exec

/-! ## What an instruction leaves alone -/

/-- The slots of a waiting call are below those that wait with it for a result. -/
theorem Waits.slots_lt {W : World} {trade : Option Trade} {calls : List Frame} {S : Shape}
    (hw : Waits W trade calls S) {r : Resume} (hr : trade = r.trade?) {g : Frame}
    (hg : g ∈ calls) : g.slots < S.length - r.waiting := by
  induction hw generalizing r with
  | finish => cases hg
  | @call f rest bp taken given X below hbp hslots hat hrest ih =>
    have htaken := (Resume.length_of_trade? hr.symm).1
    simp only [List.length_append, List.length_cons, htaken]
    rcases List.mem_cons.1 hg with rfl | hg
    · omega
    · have hlt := ih rfl hg
      omega

/-- No call has slots above those of the innermost one. -/
theorem RunsAt.slots_le {W : World} {m : Machine} {f : Frame} {rest : List Frame} {bp : Blueprint}
    {X below : Shape} {st : Stage} (h : RunsAt W m f rest bp X below st) {g : Frame}
    (hg : g ∈ m.calls) : g.slots ≤ f.slots := by
  rw [h.calls] at hg
  rcases List.mem_cons.1 hg with rfl | hg
  · exact Nat.le_refl _
  · have hlt := h.waits.slots_lt rfl hg
    rw [h.slots]
    omega

namespace Executes

variable {W : World} {L : Ledger} {m m' : Machine} {f g : Frame} {rest : List Frame}
  {bp : Blueprint} {X below : Shape} {st : Stage} {op : Opcode} {operands : List UInt8}
  {result : Option Value} {next i j : Nat}

/-- The instruction that is carried out is the one that is read. -/
theorem readOpcode (h : Executes W L m f rest bp X below st op operands result m') :
    Exec.readOpcode m = .ok op (m.moveTo (f.ip + 1)) := by
  obtain ⟨i, hat, -⟩ := h.runs.exists_instruction
  obtain rfl : i.op = op :=
    Option.some.inj ((Machine.opcode?_eq h.runs.calls hat.op).symm.trans h.opcode)
  exact Exec.readOpcode_eq h.runs.calls hat.op

/-- An instruction takes values of its own call, unless it leaves the call. -/
theorem taken_le (h : Executes W L m f rest bp X below st op operands result m')
    (hleads : Leads (.of W m f bp) [bp.receiver] (bp.marks.point? none) next op operands ⟨X, st⟩)
    (hop : op ≠ .ret) : m.taken op ≤ X.length := by
  have hzero : ∀ {i : UInt8} {k : SlotKind} {Y : Shape}, Reads (.of W m f bp) Y op i k →
      m.taken op ≤ X.length := by
    intro i k Y hreads
    cases hreads <;> exact Nat.zero_le _
  cases hleads with
  | run hruns _ =>
    cases hruns with
    | push hop =>
      rcases Opcode.mem_pushes.1 hop with rfl | rfl | rfl <;> exact Nat.zero_le _
    | unary hop => rcases List.mem_pair.1 hop with rfl | rfl <;> simp [Machine.taken]
    | binary hop =>
      rcases Opcode.mem_binaries.1 hop with rfl | rfl | rfl | rfl | rfl | rfl | rfl | rfl <;>
        simp [Machine.taken]
    | read hreads _ => exact hzero hreads
    | choose hreads _ _ => exact hzero hreads
    | pair hreads _ => exact hzero hreads
    | hold hreads _ _ => exact hzero hreads
    | write hwrites => cases hwrites <;> exact Nat.zero_le _
    | call => simp [Machine.taken, h.operand (k := 0) rfl]
    | invoke _ => simp [Machine.taken, h.operand (k := 1) rfl]
    | invokeSuper _ => simp [Machine.taken, h.operand (k := 1) rfl]
    | array => simp [Machine.taken, h.operand (k := 0) rfl]
    | addMember hop _ _ => rcases List.mem_pair.1 hop with rfl | rfl <;> simp [Machine.taken]
    | _ => simp [Machine.taken]
  | ret => exact absurd rfl hop
  | _ => exact Nat.zero_le _

/-- The slots of a call that goes on are among those that an instruction leaves alone. -/
theorem slots_lt_kept (h : Executes W L m f rest bp X below st op operands result m')
    (hleads : Leads (.of W m f bp) [bp.receiver] (bp.marks.point? none) next op operands ⟨X, st⟩)
    (hg : g ∈ m.calls) (hstays : op = .ret → g ∈ rest) : g.slots < m.kept := by
  have hsize : m.stack.size = X.length + (below.length + 1) := by
    rw [m.size_stack, h.runs.typed.length_values, List.length_append, List.length_cons]
  rw [Machine.kept_eq h.opcode]
  by_cases hop : op = .ret
  · have hlt := h.runs.waits.slots_lt rfl (hstays hop)
    have hleft : m.left = below.length - f.resume.waiting := by
      rw [Machine.left, Machine.top?_of_calls h.runs.calls]
      exact congrArg (· - _) h.runs.slots
    rw [hop, Machine.taken, hleft]
    omega
  · have htaken := h.taken_le hleads hop
    have hle := h.runs.slots_le hg
    rw [h.runs.slots] at hle
    omega

/-- A new closure captures slots of its own call. -/
theorem opened_of_closure
    (h : Executes W L m f rest bp X below st .closure operands result m')
    (hleads : Leads (.of W m f bp) [bp.receiver] (bp.marks.point? none) next .closure operands
      ⟨X, st⟩)
    (hj : m'.heap.cells[j]? = some (.openAt i)) :
    m.heap.cells[j]? = some (.openAt i) ∨ f.slots ≤ i := by
  obtain ⟨c, captures, function, -, -, rfl, hc, -, -⟩ := hleads.closes
  have hmake : Exec.makeClosure (m.moveTo (f.ip + 1)) = .ok () m' := Exec.proceed_ok h.execute
  have hmatch := Exec.ok_after (Exec.readConstant_eq h.runs.calls (h.bytes (k := 0) rfl) hc) hmake
  have hframe := Exec.ok_after (Exec.frame_eq (Machine.calls_moveTo h.runs.calls (f.ip + 2))) hmatch
  have hread : (Exec.readCaptures f.slots (m.heap.closure f.closure).captures #[]
      (m.heap.function function).captureCount >>= fun captures =>
        Exec.allocate (·.newClosure ⟨function, captures⟩) >>= fun id =>
          Exec.push (.closureRef id)) (m.moveTo (f.ip + 2)) = .ok () m' := hframe
  obtain ⟨ids, m₁, hcaptures, hmade⟩ := Exec.exists_of_bind_ok hread
  obtain ⟨id, m₂, hallocate, hpush⟩ := Exec.exists_of_bind_ok hmade
  injection hallocate with _ hm₂
  rw [(Exec.push_ok hpush).heap, ← hm₂] at hj
  exact Exec.readCaptures_opened (m := m.moveTo (f.ip + 2)) hcaptures hj

/-- **A step opens cells** for slots of the innermost call only. -/
theorem opened (h : Executes W L m f rest bp X below st op operands none m')
    (hleads : Leads (.of W m f bp) [bp.receiver] (bp.marks.point? none) next op operands ⟨X, st⟩)
    (hstep : Exec.step m = .ok none m') (hj : m'.heap.cells[j]? = some (.openAt i)) :
    m.heap.cells[j]? = some (.openAt i) ∨ f.slots ≤ i := by
  by_cases hop : op = .closure
  · subst hop
    exact h.opened_of_closure hleads hj
  · left
    rcases Exec.step_cases m with ⟨op', hop', hbecomes, -⟩ | ⟨f', rest', value, -, -, -, heq⟩
    · rw [Exec.after_of_ok hstep] at hbecomes
      refine hbecomes.opened ?_ hj
      rcases hop' with rfl | ⟨_, hop'⟩
      · simp
      · rw [h.readOpcode] at hop'
        injection hop' with hop'
        exact hop' ▸ hop
    · rw [heq] at hstep
      have hunwound : (m.unwound f'.slots).heap.cells[j]? = some (.openAt i) := by
        by_cases hfinish : f'.resume = .finish
        · rw [hfinish] at hstep
          cases hstep
        · have := @Exec.resume_changes .ret _ hfinish value
          exact Exec.opened_of_changes hstep hj
      let popped : Machine := { m with stack := m.stack.dropTop, frames := m.frames.dropTop }
      have hclose : Machine.Change .ret popped (popped.closeCells f'.slots) :=
        .close popped f'.slots
      exact hclose.opened (by simp) hunwound

end Executes

namespace Ledger.Describes

variable {L : Ledger} {m m' : Machine} {i j : Nat}

/-- The cells that were there before an instruction stand for the same of the slots that it leaves
alone. -/
theorem opens_after (h : L.Describes m) (h' : (L.after m m').Describes m') (hi : i < m.kept)
    (hj : j < m.heap.cells.size) :
    m'.heap.cells[j]? = some (.openAt i) ↔ m.heap.cells[j]? = some (.openAt i) := by
  obtain ⟨x, hx, hx'⟩ := h.owners_after m' hi
  rw [← h.length_homes] at hj
  have hhome := List.getElem?_eq_getElem hj
  rw [h.opens_iff, h'.opens_iff, hx, hx', hhome,
    getElem?_of_isPrefix (L.homes_after m m') hhome]

/-- **A slot that an instruction leaves alone keeps its value**, unless the instruction assigns it
or a cell stands for it. -/
theorem value_after (h : L.Describes m) (h' : (L.after m m').Describes m') (hi : i < m.kept)
    (hslot : m.written? ≠ some (.slot i))
    (hfree : ∀ j : Nat, m.heap.cells[j]? ≠ some (.openAt i)) :
    m'.stack.toList[i]? = m.stack.toList[i]? := by
  obtain ⟨x, hx, hx'⟩ := h.owners_after m' hi
  have hlt := (List.getElem?_eq_some_iff.1 hx).1
  rw [h.length_owners, ← Stack.length_toList] at hlt
  have hlt' := (List.getElem?_eq_some_iff.1 hx').1
  rw [h'.length_owners, ← Stack.length_toList] at hlt'
  have hv := h.slot hx (List.getElem?_eq_getElem hlt)
  have hv' := h'.slot hx' (List.getElem?_eq_getElem hlt')
  -- What the instruction assigns is another variable.
  have hafter : (L.after m m').contents[x]? = L.contents[x]? := by
    refine contents_after (List.getElem?_eq_some_iff.1 hv).1 fun a ha hax => ?_
    cases a with
    | slot k => exact hslot (eq_of_nodup h.owners_nodup hax hx ▸ ha)
    | cell id => exact hfree id.index (h.opens_iff.2 ⟨x, hax, hx⟩)
  rw [List.getElem?_eq_getElem hlt, List.getElem?_eq_getElem hlt', ← hv, ← hv', hafter]

end Ledger.Describes

namespace Machine

variable {m m₁ m₂ m' : Machine} {g : Frame} {rest : List Frame} {ground : Ground} {L : Ledger}

/-- The slots below a bottom are as they were: the same cells stand for them, and those for which no
cell stands hold the same values. -/
structure Guards (m : Machine) (bottom : Nat) (m' : Machine) : Prop where
  /-- A cell stands for a slot if and only if it did before. -/
  cells : ∀ i < bottom, ∀ j : Nat,
    m'.heap.cells[j]? = some (.openAt i) ↔ m.heap.cells[j]? = some (.openAt i)
  /-- A slot that no cell stands for keeps its value. -/
  values : ∀ i < bottom, (∀ j : Nat, m.heap.cells[j]? ≠ some (.openAt i)) →
    m'.stack.toList[i]? = m.stack.toList[i]?

theorem Guards.refl (m : Machine) (bottom : Nat) : m.Guards bottom m :=
  ⟨fun _ _ _ => Iff.rfl, fun _ _ _ => rfl⟩

/-- Slots that two parts of a run leave alone stay as they are. -/
theorem Guards.trans {bottom : Nat} (h₁ : m.Guards bottom m₁) (h₂ : m₁.Guards bottom m') :
    m.Guards bottom m' where
  cells i hi j := (h₂.cells i hi j).trans (h₁.cells i hi j)
  values i hi hfree := (h₂.values i hi fun j hj => hfree j ((h₁.cells i hi j).1 hj)).trans
    (h₁.values i hi hfree)

/-- What an instruction assigns belongs to the innermost call or is captured by it. -/
theorem le_of_written? {f : Frame} (hcalls : m.calls = f :: rest) {i : Nat}
    (h : m.written? = some (.slot i)) : f.slots ≤ i := by
  unfold written? at h
  split at h
  · rw [alias?_local hcalls] at h
    injection h with h
    injection h with h
    omega
  · rw [alias?, top?_of_calls hcalls] at h
    change ((m.heap.closure f.closure).captures[m.operand 0]?).map Alias.cell = some (.slot i) at h
    obtain ⟨_, -, h⟩ := Option.map_eq_some_iff.1 h
    cases h
  · cases h

/-- A step leaves the slot of a callee alone, if it is not the return that leaves the call. -/
theorem RunsOver.slots_lt_kept (h : m.RunsOver g rest) (hrunning : m.Running ground)
    (htrusted : Trusted ground.stale) (hL : L.Describes m) (hstays : ¬m.Leaves rest.length)
    (hstep : Exec.step m = .ok none m') : g.slots < m.kept := by
  obtain ⟨W, f, rest', bp, X, below, st, rfl, hruns⟩ := hrunning
  obtain ⟨op, operands, next, hexecutes, hleads⟩ := hruns.executes htrusted hL hstep
  obtain ⟨above, ip, hcalls⟩ := h
  have hmem : { g with ip } ∈ m.calls := by
    rw [hcalls]
    exact List.mem_append_right _ List.mem_cons_self
  have hinner : op = .ret → { g with ip } ∈ rest' := by
    rintro rfl
    cases above with
    | nil =>
      refine absurd ⟨?_, _, hexecutes.readOpcode⟩ hstays
      rw [← Stack.length_down, show m.frames.down = _ from hcalls]
      rfl
    | cons f' above =>
      obtain ⟨-, rfl⟩ := List.cons.inj (hruns.calls.symm.trans hcalls)
      exact List.mem_append_right _ List.mem_cons_self
  exact hexecutes.slots_lt_kept (g := { g with ip }) hleads hmem hinner

/-- **One step guards the slots below a call**, if it is not the return that leaves the call. -/
theorem RunsOver.guards (h : m.RunsOver g rest) (hrunning : m.Running ground)
    (htrusted : Trusted ground.stale) (hL : L.Describes m) (hstays : ¬m.Leaves rest.length)
    (hstep : Exec.step m = .ok none m') : m.Guards g.slots m' := by
  have hL' := hL.after hrunning htrusted hstep
  have hkept := h.slots_lt_kept hrunning htrusted hL hstays hstep
  obtain ⟨W, f, rest', bp, X, below, st, rfl, hruns⟩ := hrunning
  obtain ⟨op, operands, next, hexecutes, hleads⟩ := hruns.executes htrusted hL hstep
  obtain ⟨above, ip, hcalls⟩ := h
  have hle : g.slots ≤ f.slots := by
    refine hruns.slots_le (g := { g with ip }) ?_
    rw [hcalls]
    exact List.mem_append_right _ List.mem_cons_self
  refine ⟨fun i hi j => ?_, fun i hi hfree => ?_⟩
  · rcases Nat.lt_or_ge j m.heap.cells.size with hj | hj
    · exact hL.opens_after hL' (Nat.lt_trans hi hkept) hj
    · rw [Array.getElem?_eq_none hj]
      refine iff_of_false (fun hopen => ?_) (by simp)
      rcases hexecutes.opened hleads hstep hopen with hold | hge
      · rw [Array.getElem?_eq_none hj] at hold
        cases hold
      · omega
  · refine hL.value_after hL' (Nat.lt_trans hi hkept) (fun hwritten => ?_) hfree
    have := le_of_written? hruns.calls hwritten
    omega

/-! ## Calls that are left -/

theorem size_frames_moveTo (m : Machine) (ip : Nat) :
    (m.moveTo ip).frames.size = m.frames.size := by
  rw [← length_windows, ← length_windows, windows_moveTo]

/-- A loop that waits for a call does what the run does, as long as the call is not left. -/
theorem stepAbove_of_stays {floor : Nat} (h : ¬m.Leaves floor) :
    Exec.stepAbove floor m = Exec.step m := by
  cases hread : Exec.readOpcode m with
  | error e m₁ =>
    show EStateM.bind Exec.readOpcode _ m = EStateM.bind Exec.readOpcode _ m
    rw [EStateM.bind, EStateM.bind, hread]
  | ok op m₁ =>
    obtain ⟨f, rest, -, rfl⟩ := Exec.readOpcode_ok hread
    rw [Exec.stepAbove, Exec.bind_of_ok hread, Exec.step, Exec.bind_of_ok hread]
    show (if op = .ret ∧ (m.moveTo (f.ip + 1)).frames.size = floor + 1 then _ else _ :
      Exec (Option Value)) _ = _
    rw [size_frames_moveTo, if_neg]
    rintro ⟨rfl, hsize⟩
    exact h ⟨hsize, _, hread⟩

/-- **A call is left** by a return with its result on top: the loop that waits for it ends, and the
run uses the result. -/
theorem Leaves.step_eq {f : Frame} {value : Value} (h : m.Leaves rest.length)
    (hcalls : m.calls = f :: rest) (htop : m.stack.top? = some value) :
    Exec.stepAbove rest.length m = .ok (some value) (m.unwound f.slots) ∧
      Exec.step m = Exec.resume value f.resume (m.unwound f.slots) := by
  obtain ⟨hsize, m', hread⟩ := h
  obtain ⟨f', rest', hcalls', rfl⟩ := Exec.readOpcode_ok hread
  obtain ⟨rfl, rfl⟩ := List.cons.inj (hcalls'.symm.trans hcalls)
  have hunwind := Exec.unwind_eq_ok (calls_moveTo hcalls (f'.ip + 1)) htop
  dsimp only at hunwind
  rw [Exec.unwound_moveTo hcalls] at hunwind
  constructor
  · rw [Exec.stepAbove, Exec.bind_of_ok hread]
    show (if Opcode.ret = .ret ∧ (m.moveTo (f'.ip + 1)).frames.size = rest'.length + 1 then
      Exec.unwind >>= fun outcome => pure (some outcome.1) else _ : Exec (Option Value)) _ = _
    rw [size_frames_moveTo, if_pos ⟨rfl, hsize⟩, Exec.bind_of_ok hunwind]
    rfl
  · have hstep : Exec.step m = Exec.leave (m.moveTo (f'.ip + 1)) := Exec.bind_of_ok hread
    rw [hstep, Exec.leave_eq, Exec.bind_of_ok hunwind]

/-- The call that is left is the innermost one. -/
theorem RunsOver.calls_of_size (h : m.RunsOver g rest) (hsize : m.frames.size = rest.length + 1) :
    ∃ ip, m.calls = { g with ip } :: rest := by
  obtain ⟨above, ip, hcalls⟩ := h
  rw [← Stack.length_down, show m.frames.down = _ from hcalls, List.length_append,
    List.length_cons] at hsize
  obtain rfl := List.length_eq_zero_iff.1 (show above.length = 0 by omega)
  exact ⟨ip, hcalls⟩

/-- A call that is evaluated inside an instruction stands on top of the stack and of the calls. -/
theorem calls_of_evaluate {closure : ClosureId} {receiver : Value} {purpose : Resume} {u : Unit}
    (h : Exec.evaluate closure receiver purpose m = .ok u m') :
    m'.calls = ⟨closure, 0, m.stack.size, purpose⟩ :: m.calls := by
  have hevaluate : Exec.evaluate closure receiver purpose m =
      if nestingLimit ≤ m.nesting then .error (.runtime .stackOverflow) m
      else (Exec.push receiver >>= fun _ => Exec.enter closure 0 purpose) m := by
    show (if nestingLimit ≤ m.nesting then _ else _ : Exec Unit) m = _
    split <;> rfl
  rw [hevaluate] at h
  split at h
  · cases h
  · obtain ⟨_, m₁, hpush, henter⟩ := Exec.exists_of_bind_ok h
    have hpushed := Exec.push_ok hpush
    obtain ⟨hsize, rfl⟩ := enter_ok henter
    show (m₁.frames.pushOf _ hsize).down = _
    have hslots : m₁.stack.size - ((0 : UInt8).toNat + 1) = m.stack.size := by
      rw [m₁.size_stack, hpushed.values, m.size_stack]
      rfl
    rw [Stack.down_pushOf, hslots]
    exact congrArg _ hpushed.calls

/-! ## Calls from their start to their end -/

/-- What a call leaves behind: the calls below it at the same places, and their values. -/
structure Restores (m : Machine) (g : Frame) (rest : List Frame) (m' : Machine) : Prop where
  /-- The calls below are in progress, at the same places. -/
  calls : m'.calls = rest
  /-- The stack ends below the slots of the call. -/
  size : m'.stack.size = g.slots
  /-- A slot that no cell stands for holds the same value. -/
  values : ∀ i < g.slots, (∀ j : Nat, m.heap.cells[j]? ≠ some (.openAt i)) →
    m'.stack.toList[i]? = m.stack.toList[i]?

/-- The innermost call of a machine leaves everything below it alone until its end, and at its
end. -/
structure Undisturbed (m : Machine) (g : Frame) (rest : List Frame) : Prop where
  /-- While the call goes on, those below it stand where they stood. -/
  calls : ∀ m', m.During rest.length m' → m'.RunsOver g rest
  /-- While the call goes on, a slot below its own keeps its value unless a cell stands for it, and
  the cells that stand for the slot are the same. -/
  guards : ∀ m', m.During rest.length m' → m.Guards g.slots m'
  /-- While the call goes on, the pending values of the other calls stay. -/
  pending : ∀ m', m.During rest.length m' → ∀ i < g.slots, m.Pending i →
    m'.stack.toList[i]? = m.stack.toList[i]?
  /-- The return that leaves the call restores the other calls; a loop that waits for the call ends
  there, and the run goes on with the use of the result. -/
  restores : ∀ m', m.During rest.length m' → m'.Leaves rest.length → ∃ value m₁,
    Exec.stepAbove rest.length m' = .ok (some value) m₁ ∧
    Exec.step m' = Exec.resume value g.resume m₁ ∧ m.Restores g rest m₁
  /-- If the call was started to evaluate a closure inside an instruction, the end of the evaluation
  has the stack height, the calls and the nesting of the machine before it. -/
  evaluates : ∀ before closure receiver purpose,
    Exec.evaluate closure receiver purpose before = .ok () m → ∀ steps value m₁,
    m.advanceAbove before.frames.size steps = .finished value m₁ →
    m₁.stack.size = before.stack.size ∧ m₁.calls = before.calls ∧ m₁.nesting = before.nesting

/-- A call is in progress up to the return that leaves it. -/
theorem During.runsOver (h : m.During rest.length m') (hm : m.RunsOver g rest) :
    m'.RunsOver g rest := by
  induction h with
  | start => exact hm
  | step _ hstays hstep ih => exact ih.step hstays hstep
  | pause _ pause ih => exact ih

/-- The step that ends a run leaves the call that the run consists of. -/
theorem Running.leaves_of_step {value : Value} (h : m.Running ground) (hm : m.RunsOver g rest)
    (hstep : Exec.step m = .ok (some value) m') : m.Leaves rest.length := by
  obtain ⟨W, f, rest', bp, X, below, st, rfl, hruns⟩ := h
  rcases Exec.step_cases m with ⟨_, -, -, hgoes⟩ | ⟨f', rest'', value', hcalls, hread, -, heq⟩
  · exact absurd hstep (hgoes value m')
  obtain ⟨rfl, rfl⟩ := List.cons.inj (hruns.calls.symm.trans hcalls)
  have hfinish : f.resume = .finish := by
    by_cases hfinish : f.resume = .finish
    · exact hfinish
    · rw [heq] at hstep
      cases Exec.resume_eq_none hfinish hstep
  -- No call waits for the result of the run.
  have hwaits := hruns.waits
  rw [hfinish] at hwaits
  generalize below = S at hwaits
  cases hwaits
  obtain ⟨above, ip, habove⟩ := hm
  obtain ⟨rfl, hrest⟩ : above = [] ∧ rest = [] := by
    rw [hcalls] at habove
    cases above with
    | nil => exact ⟨rfl, ((List.cons.inj habove).2).symm⟩
    | cons f' above => simpa using (List.cons.inj habove).2
  refine ⟨?_, _, hread⟩
  rw [← Stack.length_down, show m.frames.down = _ from hcalls, hrest]
  rfl

section

variable {start : Progress}

/-- Wherever a run comes, it is sound, and some ledger is right. -/
abbrev Progress.Right (start : Progress) (ground : Ground) : Prop :=
  ∀ m, start.Visits m → m.Running ground ∧ ∃ L : Ledger, L.Describes m

/-- **A call guards the slots below its own** as long as it goes on. -/
theorem During.guards (h : m.During rest.length m') (hright : start.Right ground)
    (htrusted : Trusted ground.stale) (hvisits : start.Visits m) (hm : m.RunsOver g rest) :
    m.Guards g.slots m' := by
  induction h with
  | start => exact .refl m g.slots
  | step h hstays hstep ih =>
    obtain ⟨hrunning, L, hL⟩ := hright _ (h.visits hvisits)
    exact ih.trans ((h.runsOver hm).guards hrunning htrusted hL hstays hstep)
  | pause h pause ih => exact ⟨ih.cells, ih.values⟩

/-- The return that leaves a call restores the calls below it. -/
theorem Leaves.restores (h : m'.Leaves rest.length) (hrunning : m'.Running ground)
    (hcalls : m'.RunsOver g rest) (hguards : m.Guards g.slots m') : ∃ value m₁,
    Exec.stepAbove rest.length m' = .ok (some value) m₁ ∧
    Exec.step m' = Exec.resume value g.resume m₁ ∧ m.Restores g rest m₁ := by
  obtain ⟨ip, hcalls⟩ := hcalls.calls_of_size h.size
  obtain ⟨W, f, rest', bp, X, below, st, rfl, hruns⟩ := hrunning
  obtain ⟨rfl, rfl⟩ := List.cons.inj (hruns.calls.symm.trans hcalls)
  have hslots : g.slots = below.length := hruns.slots
  have hsize : m'.stack.toList.length = X.length + (below.length + 1) := by
    rw [Stack.length_toList, m'.size_stack, hruns.typed.length_values, List.length_append,
      List.length_cons]
  obtain ⟨value, htop⟩ : ∃ value, m'.stack.top? = some value := by
    rw [Stack.top?_eq]
    cases hlist : m'.stack.toList with
    | nil => simp [hlist] at hsize
    | cons v vs => exact ⟨_, List.getLast?_cons⟩
  obtain ⟨habove, hstep⟩ := h.step_eq hcalls htop
  have hlist : (m'.unwound g.slots).stack.toList = m'.stack.toList.take g.slots := by
    show (m'.stack.dropTop.truncate g.slots).toList = _
    rw [Stack.toList_truncate, Stack.toList_dropTop, List.dropLast_eq_take, List.take_take,
      Nat.min_eq_left (by omega)]
  refine ⟨value, m'.unwound g.slots, habove, hstep, calls_unwound hcalls _, ?_,
    fun i hi hfree => ?_⟩
  · rw [← Stack.length_toList, hlist, List.length_take]
    omega
  · rw [hlist, List.getElem?_take_of_lt hi]
    exact hguards.values i hi hfree

/-- A loop that waits for a call ends with what the call leaves behind. -/
theorem During.restores {steps : Nat} {value : Value} (h : m.During rest.length m')
    (hright : start.Right ground) (htrusted : Trusted ground.stale) (hvisits : start.Visits m)
    (hm : m.RunsOver g rest) (hend : m'.advanceAbove rest.length steps = .finished value m₁) :
    m.Restores g rest m₁ := by
  induction steps generalizing m' with
  | zero => cases hend
  | succ steps ih =>
    have hrunning := (hright _ (h.visits hvisits)).1
    by_cases hleaves : m'.Leaves rest.length
    · obtain ⟨v, m₂, habove, -, hrestores⟩ := hleaves.restores hrunning (h.runsOver hm)
        (h.guards hright htrusted hvisits hm)
      rw [advanceAbove, habove] at hend
      injection hend with _ hm₁
      exact hm₁ ▸ hrestores
    · rw [advanceAbove, stepAbove_of_stays hleaves] at hend
      split at hend
      · next m₂ hstep => exact ih (h.step hleaves hstep) hend
      · next value' m₂ hstep =>
        exact absurd (hrunning.leaves_of_step (h.runsOver hm) hstep) hleaves
      · cases hend

/-- **The innermost call disturbs none of the others**, wherever the run has come. -/
theorem Progress.Right.isolates (hright : start.Right ground) (htrusted : Trusted ground.stale)
    (hvisits : start.Visits m) (hcalls : m.calls = g :: rest) : m.Undisturbed g rest := by
  have hm : m.RunsOver g rest := ⟨[], g.ip, hcalls⟩
  have hguards : ∀ m', m.During rest.length m' → m.Guards g.slots m' :=
    fun m' h => h.guards hright htrusted hvisits hm
  refine ⟨fun m' h => h.runsOver hm, hguards, fun m' h i hi hpending => ?_,
    fun m' h hleaves => ?_, fun before closure receiver purpose hevaluate steps value m₁ hend => ?_⟩
  · exact (hguards m' h).values i hi fun j =>
      (hright m hvisits).1.pending_not_open htrusted hpending
  · exact hleaves.restores (hright m' (h.visits hvisits)).1 (h.runsOver hm) (hguards m' h)
  · obtain ⟨rfl, rfl⟩ := List.cons.inj (hcalls.symm.trans (calls_of_evaluate hevaluate))
    have hfloor : before.frames.size = before.calls.length := (Stack.length_down _).symm
    rw [hfloor] at hend
    have hrestores := During.restores .start hright htrusted hvisits hm hend
    refine ⟨hrestores.size, hrestores.calls, ?_⟩
    rw [nesting_eq, nesting_eq, windows, windows, hrestores.calls]

end

end Machine

namespace Session

variable {natives : List Native} {s : Session} {source : String} {m : Machine}

/-- A run on a clean session is sound wherever it comes. -/
theorem Clean.right {program : Program} (h : s.Clean)
    (hcompile : Program.compileAfter s.machine.heap.functions source = .ok program) :
    ∃ blueprints, ((s.machine.load program).launch program.main).Right
      ⟨blueprints, s.machine.heap.slots⟩ := by
  obtain ⟨blueprints, hsound⟩ := h.rests.launch hcompile
  refine ⟨blueprints, fun m' hvisits => ?_⟩
  obtain ⟨L, htracked⟩ := hvisits.exists_tracked
  exact ⟨hsound.visits hvisits, L, (h.describes hcompile htracked).1⟩

/-- **A callee cannot disturb its caller's temporaries**, in every run of a session whose runs have
returned values so far: wherever the run has come, no cell stands for the slot of a pending value,
and the innermost call leaves all that stands below it alone until it has returned. -/
theorem Reached.undisturbed (h : Reached natives s) (hm : s.machine.Executes source m) :
    (∀ i j : Nat, m.Pending i → m.heap.cells[j]? ≠ some (.openAt i)) ∧
      ∀ g rest, m.calls = g :: rest → m.Undisturbed g rest := by
  obtain ⟨program, hcompile, hvisits⟩ := hm
  obtain ⟨blueprints, hright⟩ := h.clean.right hcompile
  exact ⟨fun i j hpending => (hright m hvisits).1.pending_not_open h.clean.trusted hpending,
    fun g rest hcalls => hright.isolates h.clean.trusted hvisits hcalls⟩

/-- A machine that a program comes to is one that a new session comes to with it. -/
theorem executes_of_reached? {steps : Nat} (h : Machine.reached? source steps = some m) :
    (Session.new [] .reliable 0).machine.Executes source m := by
  unfold Machine.reached? at h
  split at h
  · next program hcompile =>
    split at h
    · next m' hm =>
      obtain rfl := Option.some.inj h
      cases hlaunch : ((Session.new [] .reliable 0).machine.load program).launch program.main with
      | running m₀ =>
        have hm : (Machine.Progress.advance steps (.running m₀)) = .running m' := hlaunch ▸ hm
        exact ⟨program, hcompile, (Machine.Progress.Visits.start hlaunch).advance hm⟩
      | finished value m₀ =>
        have hm : Machine.Progress.advance steps (.finished value m₀) = .running m' := hlaunch ▸ hm
        cases hm
      | failed fault m₀ =>
        have hm : Machine.Progress.advance steps (.failed fault m₀) = .running m' := hlaunch ▸ hm
        cases hm
    · cases h
  · cases h

/-- Whether a program comes to a call that a loop of its own waits for, above a slot of the code
around it. -/
def evaluatesAbove (source : String) (steps slot : Nat) : Bool :=
  match Machine.reached? source steps with
  | some m =>
    match m.calls with
    | g :: _ => decide (m.nesting = 1 ∧ g.slots - g.resume.waiting ≤ slot ∧ slot < g.slots)
    | [] => false
  | none => false

/-- A computed property is evaluated in the middle of an expression, with the instance above the
first operand. -/
theorem Reached.undisturbed_property : ∃ m g rest, (Session.new [] .reliable 0).machine.Executes
      "class A \x7b var p \x7b return 2; \x7d \x7d print 1 + A().p;" m ∧
    m.calls = g :: rest ∧ m.nesting = 1 ∧ m.Pending 2 ∧
    (∀ i j : Nat, m.Pending i → m.heap.cells[j]? ≠ some (.openAt i)) ∧
    ∀ g rest, m.calls = g :: rest → m.Undisturbed g rest := by
  have hchecked : evaluatesAbove
      "class A \x7b var p \x7b return 2; \x7d \x7d print 1 + A().p;" 10 2 = true := by
    decide +kernel
  unfold evaluatesAbove at hchecked
  split at hchecked
  · next m hm =>
    split at hchecked
    · next g rest hcalls =>
      obtain ⟨hnesting, hle, hlt⟩ := of_decide_eq_true hchecked
      have hpending : m.Pending 2 := by
        rw [Machine.Pending, hcalls]
        exact .held hle hlt
      have hexecutes := executes_of_reached? hm
      exact ⟨m, g, rest, hexecutes, hcalls, hnesting, hpending,
        Reached.undisturbed (.new .reliable 0) hexecutes⟩
    · cases hchecked
  · cases hchecked

end Session

end ScriptVM
