/-
# What functions are called on

Slot 0 of a call holds the callee, or the instance that a method is called on.  It has no name that
could be assigned: no function assigns its slot 0, no assignment goes to a cell that has captured a
slot 0, and so slot 0 holds one value from the start of a call to its end, whatever the call starts
in between (`Machine.KeepsReceivers`).  An initializer ends with slot 0 on top, so it returns the
instance it was called on, however it was called.

Main statement: `Session.Reached.keepsReceivers`.
-/
import ScriptVM.Proofs.Session.Fixed
import ScriptVM.Proofs.Session.Lasting
import ScriptVM.Proofs.Session.Shielding

namespace ScriptVM

/-! ## Slot 0 in the code -/

namespace Function.Fits

variable {bps : List Blueprint} {f : Function} {bp : Blueprint} {heap : Heap} {offset : Nat}

/-- Slot 0 is not used as a plain value. -/
theorem receiver_ne (h : f.Fits bps bp) : bp.receiver.kind ≠ .value := by
  rw [h.receiver]
  split <;> simp

/-- An initializer is called on an instance. -/
theorem isMember_of_initializes (h : f.Fits bps bp) (hinit : bp.initializes = true) :
    bp.isMember = true := by
  rw [h.initializer] at hinit
  exact h.member.2 (.inr (of_decide_eq_true hinit))

/-- A function does not assign its slot 0. -/
theorem setLocal_ne_zero (h : f.Fits bps bp) (htable : TableFits bps heap.functions.toList)
    (hmem : (offset, .setLocal) ∈ f.chunk.instructions heap) :
    f.chunk.code[offset + 1]? ≠ some 0 := by
  rw [h.instructions_eq htable] at hmem
  obtain ⟨front, ⟨⟨X, st⟩, i⟩, back, hmarks, hoffset, hop⟩ := Marks.mem_listing.1 hmem
  obtain rfl : offset = front.code.extent := hoffset.trans (Nat.zero_add _)
  have hleads := h.leads hmarks
  obtain ⟨index, Y, hoperands, -, hwrites⟩ := hleads.writes (.inl hop.symm)
  have hbyte : f.chunk.code[front.code.extent + 1]? = some index :=
    (h.hasAt hmarks).operand (k := 0) (by rw [hoperands]; rfl)
  rw [hbyte]
  rintro hzero
  obtain rfl : index = 0 := Option.some.inj hzero
  have hop : i.op = .setLocal := hop.symm
  change Writes _ _ i.op 0 at hwrites
  rw [hop] at hwrites
  cases hwrites with
  | toSlot hs hkind =>
    have hreceiver : slot? (Y ++ [bp.receiver]) 0 = some bp.receiver := slot?_append (by simp)
    obtain rfl := Option.some.inj (hreceiver.symm.trans hs)
    exact h.receiver_ne hkind

end Function.Fits

/-- A return of an initializer has slot 0 on top, another one need not. -/
theorem Leads.stage_of_ret {Γ : Env} {S X : Shape} {points : Nat → Option Point} {next : Nat}
    {operands : List UInt8} {st : Stage} (h : Leads Γ S points next .ret operands ⟨X, st⟩) :
    st = if Γ.initializes then .own else .plain := by
  cases h with
  | run hruns _ =>
    cases hruns with
    | push hop => exact absurd hop (by decide)
    | unary hop => exact absurd hop (by decide)
    | binary hop => exact absurd hop (by decide)
    | addMember hop _ _ => exact absurd hop (by decide)
    | read hreads _ => cases hreads
    | write hwrites => cases hwrites
    | choose hreads _ _ => cases hreads
    | pair hreads _ => cases hreads
    | hold hreads _ _ => cases hreads
  | ret hst => exact hst

/-! ## Slot 0 on the stack -/

/-- Where the callees of waiting calls stand. -/
theorem Waits.slot_of_mem {W : World} {trade : Option Trade} {calls : List Frame} {S : Shape}
    {g : Frame} (h : Waits W trade calls S) (hg : g ∈ calls) :
    ∃ bp, W.closures[g.closure.index]? = some bp ∧ slot? S g.slots = some bp.receiver := by
  induction h with
  | finish => cases hg
  | @call f rest bp taken given X below hbp hslots _ _ ih =>
    rcases List.mem_cons.1 hg with rfl | hg
    · refine ⟨bp, hbp, slot?_append_of_some (slot?_append_of_some ?_)⟩
      rw [hslots]
      exact slot?_cons_length _ _
    · obtain ⟨bp', hbp', hslot⟩ := ih hg
      exact ⟨bp', hbp', slot?_append_of_some (slot?_append_of_some
        (slot?_append_of_some (X := [bp.receiver]) hslot))⟩

section

variable {W : World} {m : Machine} {f g : Frame} {rest : List Frame} {bp : Blueprint}
  {X below : Shape} {st : Stage}

/-- Where the callees of the calls in progress stand. -/
theorem RunsAt.slot_of_mem (h : RunsAt W m f rest bp X below st) (hg : g ∈ m.calls) :
    ∃ bp', W.closures[g.closure.index]? = some bp' ∧
      slot? (X ++ bp.receiver :: below) g.slots = some bp'.receiver := by
  rw [h.calls] at hg
  rcases List.mem_cons.1 hg with rfl | hg
  · refine ⟨bp, h.function, slot?_append_of_some ?_⟩
    rw [h.slots]
    exact slot?_cons_length _ _
  · obtain ⟨bp', hbp', hslot⟩ := h.waits.slot_of_mem hg
    exact ⟨bp', hbp', slot?_append_of_some (slot?_append_of_some (X := [bp.receiver]) hslot)⟩

/-- The slot of a callee is not used as a plain value. -/
theorem RunsAt.usedAs_callee (h : RunsAt W m f rest bp X below st) (hg : g ∈ m.calls) :
    ∃ kind, kind ≠ .value ∧ Alias.UsedAs W (X ++ bp.receiver :: below) kind (.slot g.slots) := by
  obtain ⟨bp', hbp', hslot⟩ := h.slot_of_mem hg
  exact ⟨bp'.receiver.kind, (h.typed.heap.functionOf hbp').receiver_ne,
    bp'.receiver.captured, hslot⟩

/-- A slot of the stack, counted from the bottom. -/
theorem Machine.getElem?_toList (m : Machine) (i : Nat) :
    m.stack.toList[i]? = slot? m.values i := by
  rw [Machine.values, Stack.slot?_down, Stack.toList, Array.getElem?_toList]

end

namespace Machine

variable {m m₁ m' : Machine} {g : Frame} {rest : List Frame} {ground : Ground} {L : Ledger}
  {start : Progress}

/-- **One step** keeps what a call is on, if it is not the return that leaves the call. -/
theorem RunsOver.callee_step (h : m.RunsOver g rest) (hrunning : m.Running ground)
    (htrusted : Trusted ground.stale) (hL : L.Describes m) (hstays : ¬m.Leaves rest.length)
    (hstep : Exec.step m = .ok none m') :
    m'.stack.toList[g.slots]? = m.stack.toList[g.slots]? := by
  have hL' := hL.after hrunning htrusted hstep
  have hkept := h.slots_lt_kept hrunning htrusted hL hstays hstep
  obtain ⟨W, f, rest', bp, X, below, st, rfl, hruns⟩ := hrunning
  obtain ⟨above, ip, hcalls⟩ := h
  have hmem : { g with ip } ∈ m.calls := by
    rw [hcalls]
    exact List.mem_append_right _ List.mem_cons_self
  obtain ⟨kind, hkind, hslot⟩ := hruns.usedAs_callee hmem
  exact hruns.slot_after htrusted hL hL' hkept hslot hkind

/-- **What a call is on** stays the same as long as the call goes on. -/
theorem During.callee (h : m.During rest.length m') (hright : start.Right ground)
    (htrusted : Trusted ground.stale) (hvisits : start.Visits m) (hm : m.RunsOver g rest) :
    m'.stack.toList[g.slots]? = m.stack.toList[g.slots]? := by
  induction h with
  | start => rfl
  | step h hstays hstep ih =>
    obtain ⟨hrunning, L, hL⟩ := hright _ (h.visits hvisits)
    exact ((h.runsOver hm).callee_step hrunning htrusted hL hstays hstep).trans ih
  | pause h pause ih => exact ih

/-- A machine during a call comes after the one at its start. -/
theorem During.precedes {floor : Nat} (h : m.During floor m') : m.Precedes m' := by
  induction h with
  | start => exact .refl
  | step _ _ hstep ih => exact ih.step hstep
  | pause _ pause ih => exact ih.pause pause

/-! ## Captured callees -/

/-- The next instruction makes a closure, which captures slot 0 of the call in progress in a
cell. -/
structure CapturesCallee (m m₁ : Machine) (cell : CellId) : Prop where
  /-- The instruction makes a closure. -/
  opcode : m.opcode? = some .closure
  /-- It is carried out. -/
  step : Exec.step m = .ok none m₁
  /-- The cell is among those of the closure, in the place of one for slot 0. -/
  captured : ∃ id k g rest, m₁.values.head? = some (.closureRef id) ∧
    (m₁.heap.closure id).captures[k]? = some cell ∧ m.calls = g :: rest ∧
    m.captured? k = some (.slot g.slots)

/-- A closure has captured a cell for something else than a plain value. -/
def Reserved (blueprints : List Blueprint) (m : Machine) (cell : CellId) : Prop :=
  ∃ (i k : Nat) (c : Closure) (bp : Blueprint) (kind : SlotKind), m.heap.closures[i]? = some c ∧
    blueprints[c.function.index]? = some bp ∧ c.captures[k]? = some cell ∧
    bp.captures[k]? = some kind ∧ kind ≠ .value

variable {blueprints blueprints' : List Blueprint} {cell : CellId}

/-- A cell stays reserved while there come to be more closures. -/
theorem Reserved.mono (h : m.Reserved blueprints cell) (hle : blueprints <+: blueprints')
    (hclosures : m.heap.closures.toList <+: m'.heap.closures.toList) :
    m'.Reserved blueprints' cell := by
  obtain ⟨i, k, c, bp, kind, hc, hbp, hcell, hkind, hne⟩ := h
  rw [← Array.getElem?_toList] at hc
  refine ⟨i, k, c, bp, kind, ?_, getElem?_of_isPrefix hle hbp, hcell, hkind, hne⟩
  rw [← Array.getElem?_toList]
  exact getElem?_of_isPrefix hclosures hc

/-- A reserved cell is not assigned. -/
theorem Reserved.not_written (h : m.Reserved blueprints cell) (hm : m.Lives blueprints) :
    m.written? ≠ some (.cell cell) := by
  obtain ⟨i, k, c, bp, kind, hc, hbp, hcell, hkind, hne⟩ := h
  intro hwritten
  cases hm with
  | running hrunning _ _ =>
    obtain ⟨W, f, rest, bp', X, below, st, hground, hruns⟩ := hrunning
    obtain rfl : W.blueprints = blueprints := congrArg Ground.blueprints hground
    have hvalue : W.cells[cell.index]? = some .value := hruns.usedAs_of_written? hwritten
    rw [hruns.typed.heap.kind_of_captured hc hbp hcell hkind] at hvalue
    exact hne (Option.some.inj hvalue)
  | resting hrests _ =>
    have htop : m.frames.top? = none := by
      rw [Stack.top?_eq_head?, show m.frames.down = [] from hrests.calls]
      rfl
    have hopcode : m.opcode? = none := by
      rw [opcode?, byte?, htop]
      rfl
    rw [written?, hopcode] at hwritten
    cases hwritten

/-- **A cell that captures slot 0** is reserved. -/
theorem CapturesCallee.reserved (h : m.CapturesCallee m₁ cell) (hm : m.Lives blueprints) :
    m₁.Reserved blueprints cell := by
  obtain ⟨id, k, g, rest, hhead, hcell, hcalls, hcaptured⟩ := h.captured
  obtain ⟨stale, L, hrunning, htrusted, hL⟩ := hm.exists_running h.step
  obtain ⟨id', hvalues, hcaptures⟩ := hL.captures hrunning htrusted h.opcode h.step
  obtain rfl : id = id' := by
    rw [hvalues] at hhead
    exact (Value.closureRef.inj (Option.some.inj hhead)).symm
  obtain ⟨a, x, ha, hslot, hx⟩ := hcaptures k cell hcell
  obtain rfl := Option.some.inj (hcaptured.symm.trans ha)
  have hL' := hL.after hrunning htrusted h.step
  -- The call goes on, and its slot 0 with it.
  have hstays : ¬m.Leaves rest.length := by
    rintro ⟨-, m', hret⟩
    cases h.opcode.symm.trans (hrunning.opcode?_of_readOpcode hret)
  have hover : m₁.RunsOver g rest := RunsOver.step ⟨[], g.ip, hcalls⟩ hstays h.step
  have hcontinues := step_continues hrunning
  rw [Exec.Ensures, h.step] at hcontinues
  obtain ⟨W, f, rest', bp, X, below, st, hground, hruns⟩ := hcontinues
  obtain ⟨above, ip, habove⟩ := hover
  have hmem : { g with ip } ∈ m₁.calls := by
    rw [habove]
    exact List.mem_append_right _ List.mem_cons_self
  obtain ⟨use, huse, hused⟩ := hruns.usedAs_callee hmem
  -- The new closure is on top of the stack.
  obtain ⟨bp₁, hbp₁⟩ : W.Knows id := by
    obtain ⟨s, -, hfills⟩ := exists_getElem?_of_forall₂ hruns.typed.values.flip
      (i := 0) (by rw [hvalues]; rfl)
    exact hfills.knows
  obtain ⟨c, hc, hok⟩ := hruns.typed.heap.exists_closure hbp₁
  have hclosure : m₁.heap.closure id = c := by
    rw [Heap.closure, Array.getD_eq_getD_getElem?, hc, Option.getD_some]
  rw [hclosure] at hcell
  obtain ⟨kind, hkind, hcellKind⟩ := exists_getElem?_of_forall₂ hok.captures.flip
    (Array.getElem?_toList.trans hcell)
  have hsame : kind = use := hL'.eq_of_usedAs hruns.typed (hground ▸ htrusted) hx hslot
    hcellKind hused
  have hblueprints : W.blueprints = blueprints := congrArg Ground.blueprints hground
  exact ⟨id.index, k, c, bp₁, kind, hc, hblueprints ▸ hok.function, hcell, hkind, hsame ▸ huse⟩

/-- **A cell that captures slot 0** is never assigned from then on. -/
theorem CapturesCallee.not_written (h : m.CapturesCallee m₁ cell) (hm : m.Lives blueprints)
    (hlater : m₁.Precedes m') : m'.written? ≠ some (.cell cell) := by
  obtain ⟨blueprints', hle, hlives, hclosures⟩ := hlater.lives (hm.step h.step)
  exact ((h.reserved hm).mono hle hclosures).not_written hlives

/-! ## What initializers return -/

/-- A closure sets the instances of a class up. -/
def Constructs (m : Machine) (closure : ClosureId) : Prop :=
  ∃ id, (m.heap.classAt id).methods.get? "init" = some closure

/-- The innermost call returns a value, if it returns at all. -/
structure Returns (m : Machine) (g : Frame) (rest : List Frame) (value : Value) : Prop where
  /-- The return that leaves the call has the value: the loop that waits for the call ends with it,
  and the run uses it. -/
  ends : ∀ m', m.During rest.length m' → m'.Leaves rest.length → ∃ m₁,
    Exec.stepAbove rest.length m' = .ok (some value) m₁ ∧
    Exec.step m' = Exec.resume value g.resume m₁ ∧ m₁.calls = rest
  /-- If the call was made by the code of another one, that goes on with the value on top. -/
  caller : g.resume = .caller → ∀ m', m.During rest.length m' → m'.Leaves rest.length →
    ∃ m₁, Exec.step m' = .ok none m₁ ∧ m₁.calls = rest ∧ m₁.values.head? = some value

/-- A return of an initializer has slot 0 on top. -/
theorem Leaves.top_of_initializes {W : World} {f : Frame} {bp : Blueprint} {X below : Shape}
    {st : Stage} (h : m.Leaves rest.length) (hruns : RunsAt W m f rest bp X below st)
    (hinit : bp.initializes = true) : m.stack.top? = m.stack.toList[f.slots]? := by
  obtain ⟨-, m', hret⟩ := h
  have hrunning : m.Running W.toGround := ⟨W, f, rest, bp, X, below, st, rfl, hruns⟩
  obtain ⟨op, operands, next, hop, -, -, hleads⟩ := hruns.next
  obtain rfl : op = .ret := Option.some.inj (hop.symm.trans (hrunning.opcode?_of_readOpcode hret))
  obtain rfl : st = .own := by
    rw [hleads.stage_of_ret, if_pos hinit]
  obtain ⟨v, values, hvalues, hv⟩ := hruns.stage
  rw [getElem?_toList, hruns.slots, hv, Stack.top?_eq_head?]
  exact congrArg List.head? hvalues

/-- What an initializer is called on is an instance. -/
theorem Running.instance_of_constructs (h : m.Running ground) (htrusted : Trusted ground.stale)
    (hg : g ∈ m.calls) (hinit : m.Constructs g.closure) :
    ∃ id, m.stack.toList[g.slots]? = some (.instanceRef id) := by
  obtain ⟨W, f, rest', bp, X, below, st, rfl, hruns⟩ := h
  obtain ⟨classId, hclass⟩ := hinit
  obtain ⟨bp₁, hbp₁, hinitializes⟩ := (hruns.typed.heap.classAt classId).initializer _ hclass
  obtain ⟨bp', hbp', hslot⟩ := hruns.slot_of_mem hg
  obtain rfl : bp₁ = bp' := Option.some.inj (hbp₁.symm.trans hbp')
  have hfits := hruns.typed.heap.functionOf hbp₁
  obtain ⟨v, hv, hfills⟩ := hruns.typed.slot hslot
  have hreceiver : v.HasKind W .receiver := by
    rw [Value.Fills, hfits.receiver, if_pos (hfits.isMember_of_initializes hinitializes)] at hfills
    exact hfills
  obtain ⟨id, rfl⟩ := hreceiver.instance_of_trusted htrusted
  exact ⟨id, (getElem?_toList m _).trans hv⟩

/-- An initializer that has come to its end has on top what it was called on. -/
theorem During.top_of_constructs (h : m.During rest.length m') (hleaves : m'.Leaves rest.length)
    (hright : start.Right ground) (htrusted : Trusted ground.stale) (hvisits : start.Visits m)
    (hcalls : m.calls = g :: rest) (hinit : m.Constructs g.closure) :
    m'.stack.top? = m.stack.toList[g.slots]? := by
  have hm : m.RunsOver g rest := ⟨[], g.ip, hcalls⟩
  obtain ⟨hrunning, L, hL⟩ := hright m hvisits
  obtain ⟨_, -, -, hclosures⟩ := h.precedes.lives (.running hrunning htrusted hL)
  obtain ⟨W, f, rest₁, bp₁, X₁, below₁, st₁, hground₁, hruns₁⟩ := hrunning
  obtain ⟨V, f', rest', bp, X, below, st, hground, hruns⟩ := (hright m' (h.visits hvisits)).1
  obtain ⟨ip, hcalls'⟩ := (h.runsOver hm).calls_of_size hleaves.size
  obtain ⟨rfl, rfl⟩ := List.cons.inj (hruns.calls.symm.trans hcalls')
  -- The closure of the call still runs the function of an initializer.
  obtain ⟨classId, hclass⟩ := hinit
  obtain ⟨bp', hbp', hinitializes⟩ := (hruns₁.typed.heap.classAt classId).initializer _ hclass
  have hblueprints : W.blueprints = V.blueprints :=
    congrArg Ground.blueprints (hground₁.trans hground.symm)
  have hsame := hruns₁.typed.heap.closure_of_isPrefix hruns.typed.heap
    (hblueprints ▸ List.prefix_rfl) hclosures hbp'
  obtain rfl : bp' = bp := Option.some.inj (hsame.symm.trans hruns.function)
  rw [hleaves.top_of_initializes hruns hinitializes]
  exact h.callee hright htrusted hvisits hm

/-- The call that is left makes room for its result. -/
theorem size_unwound_lt {value : Value} (htop : m.stack.top? = some value) (slots : Nat) :
    (m.unwound slots).stack.size < stackLimit := by
  have hlist : (m.unwound slots).stack.toList = m.stack.toList.dropLast.take slots := by
    show (m.stack.dropTop.truncate slots).toList = _
    rw [Stack.toList_truncate, Stack.toList_dropTop]
  have hpos : 0 < m.stack.size := by
    rw [Stack.top?_eq] at htop
    rw [← Stack.length_toList]
    exact List.length_pos_iff.2 fun hnil => by simp [hnil] at htop
  have hle : m.stack.size ≤ stackLimit := m.stack.size_le
  rw [← Stack.length_toList, hlist, List.length_take, List.length_dropLast, Stack.length_toList]
  omega

/-- **A call of an initializer** returns the instance in its slot 0. -/
theorem Progress.Right.initializer_returns (hright : start.Right ground)
    (htrusted : Trusted ground.stale) (hvisits : start.Visits m) (hcalls : m.calls = g :: rest)
    (hinit : m.Constructs g.closure) :
    ∃ id, m.stack.toList[g.slots]? = some (.instanceRef id) ∧
      m.Returns g rest (.instanceRef id) := by
  have hm : m.RunsOver g rest := ⟨[], g.ip, hcalls⟩
  have hg : g ∈ m.calls := by
    rw [hcalls]
    exact List.mem_cons_self
  obtain ⟨id, hid⟩ := (hright m hvisits).1.instance_of_constructs htrusted hg hinit
  -- At its end the instance is on top, and what the call was for is done with it.
  have hends : ∀ m', m.During rest.length m' → m'.Leaves rest.length →
      m'.stack.top? = some (.instanceRef id) ∧ ∃ ip, m'.calls = { g with ip } :: rest := by
    intro m' hduring hleaves
    refine ⟨?_, (hduring.runsOver hm).calls_of_size hleaves.size⟩
    rw [hduring.top_of_constructs hleaves hright htrusted hvisits hcalls hinit, hid]
  refine ⟨id, hid, fun m' hduring hleaves => ?_, fun hresume m' hduring hleaves => ?_⟩
  · obtain ⟨htop, ip, hcalls'⟩ := hends m' hduring hleaves
    obtain ⟨habove, hstep⟩ := hleaves.step_eq hcalls' htop
    exact ⟨_, habove, hstep, calls_unwound hcalls' _⟩
  · obtain ⟨htop, ip, hcalls'⟩ := hends m' hduring hleaves
    obtain ⟨-, hstep⟩ := hleaves.step_eq hcalls' htop
    obtain ⟨m₁, hpush, hpushed⟩ := Exec.push_of_lt (.instanceRef id) (size_unwound_lt htop g.slots)
    refine ⟨m₁, ?_, hpushed.calls.trans (calls_unwound hcalls' _), ?_⟩
    · rw [hstep, show ({ g with ip } : Frame).resume = .caller from hresume]
      exact Exec.bind_of_ok hpush
    · rw [hpushed.values]
      rfl

end Machine

/-! ## Ways to call an initializer -/

namespace Exec

/-- The next instruction, with the number of arguments. -/
def fetchCount : Exec (Opcode × UInt8) := do
  let op ← readOpcode
  return (op, ← readByte)

variable {m₀ m m₁ : Machine} {op : Opcode} {arguments : UInt8} {closure : ClosureId} {value : Value}
  {result : Option Value}

/-- An instruction that calls is done once the number of arguments has been read. -/
theorem step_of_fetchCount {x : UInt8 → Exec Unit} (hop : execute op = proceed (readByte >>= x))
    (h : fetchCount m₀ = .ok (op, arguments) m) : step m₀ = proceed (x arguments) m := by
  obtain ⟨op', m', hread, h⟩ := exists_of_bind_ok h
  obtain ⟨arguments', m'', hbyte, h⟩ := exists_of_bind_ok h
  obtain ⟨⟨rfl, rfl⟩, rfl⟩ : (op' = op ∧ arguments' = arguments) ∧ m'' = m := by
    injection h with hpair hm
    exact ⟨Prod.mk.inj hpair, hm⟩
  rw [step, bind_of_ok hread, hop, proceed, bind_assoc, bind_of_ok hbyte]
  rfl

/-- A value at a distance from the top has its slot below the top. -/
theorem slot_of_peek {n : Nat} (h : m.stack.peek n = .ok value) :
    n < m.stack.size ∧ m.stack.toList[m.stack.size - (n + 1)]? = some value := by
  unfold Stack.peek at h
  split at h
  · next hlt =>
    refine ⟨hlt, ?_⟩
    rw [Stack.get] at h
    split at h
    · next hitem =>
      rw [Stack.toList, Array.getElem?_toList, hitem, Except.ok.inj h]
    · cases h
  · cases h

/-- A call starts on the value below its arguments. -/
theorem calls_of_enter (h : proceed (enter closure arguments .caller) m = .ok result m₁)
    (hcallee : m.stack.peek arguments.toNat = .ok value) :
    ∃ slots, m₁.calls = ⟨closure, 0, slots, .caller⟩ :: m.calls ∧
      m₁.stack.toList[slots]? = some value ∧ m₁.heap = m.heap := by
  obtain ⟨_, m₂, henter, h⟩ := exists_of_bind_ok h
  injection h with _ hm
  subst hm
  obtain ⟨hsize, rfl⟩ := Machine.enter_ok henter
  exact ⟨_, Stack.down_pushOf hsize, (slot_of_peek hcallee).2, rfl⟩

/-- A method of a class is called. -/
theorem invokeFrom_eq {id : ClassId} {name : String}
    (h : (m.heap.classAt id).methods.get? name = some closure) :
    invokeFrom id name arguments m = enter closure arguments .caller m := by
  rw [invokeFrom, bind_of_ok (x := heap) rfl]
  simp only [h]

/-- The callee is replaced by another value. -/
theorem peek_replace {s : Stack Value stackLimit} {n : Nat} (h : n < s.size) (value : Value) :
    (s.replace (s.size - (n + 1)) value).peek n = .ok value := by
  have hlt : s.size - (n + 1) < s.items.size := by
    show s.size - (n + 1) < s.size
    omega
  rw [Stack.peek, Stack.size_replace, if_pos h, Stack.get, Stack.replace]
  simp [hlt]

end Exec

namespace Machine

variable {m m₁ m' : Machine} {arguments : UInt8} {init : ClosureId} {receiver : InstanceId}
  {result : Option Value}

/-- The next instruction calls the initializer of a class on an instance: a call of the class, which
makes the instance, a call of the method bound to the instance, a call of the method by its name, or
one through a superclass.  With the operands the machine is `m'`. -/
inductive CallsInit (m : Machine) : Machine → ClosureId → InstanceId → Prop
  | ofClass {m' : Machine} {arguments : UInt8} {id : ClassId} {init : ClosureId}
      (hfetch : Exec.fetchCount m = .ok (.call, arguments) m')
      (hcallee : m'.stack.peek arguments.toNat = .ok (.classRef id))
      (hinit : (m'.heap.classAt id).methods.get? "init" = some init) :
      CallsInit m m' init ⟨m'.heap.instances.size⟩
  | ofBound {m' : Machine} {arguments : UInt8} {init : ClosureId} {receiver : InstanceId}
      (hfetch : Exec.fetchCount m = .ok (.call, arguments) m')
      (hcallee : m'.stack.peek arguments.toNat = .ok (.bound receiver init))
      (hinit : m'.Constructs init) : CallsInit m m' init receiver
  | ofInstance {m' : Machine} {arguments : UInt8} {init : ClosureId} {receiver : InstanceId}
      (hfetch : Exec.fetchCall m = .ok (.invoke, "init", arguments) m')
      (hreceiver : m'.stack.peek arguments.toNat = .ok (.instanceRef receiver))
      (hfield : m'.heap.field? receiver "init" = none)
      (hproperty : (m'.heap.classOf receiver).properties.get? "init" = none)
      (hinit : (m'.heap.classOf receiver).methods.get? "init" = some init) :
      CallsInit m m' init receiver
  | ofSuper {m₂ m' : Machine} {arguments : UInt8} {superclass : ClassId} {init : ClosureId}
      {receiver : InstanceId} (hfetch : Exec.fetchCall m = .ok (.invokeSuper, "init", arguments) m₂)
      (hclass : Exec.popClass m₂ = .ok superclass m')
      (hreceiver : m'.stack.peek arguments.toNat = .ok (.instanceRef receiver))
      (hinit : (m'.heap.classAt superclass).methods.get? "init" = some init) :
      CallsInit m m' init receiver

/-- The machine with another callee below the arguments. -/
def withCallee (m : Machine) (arguments : UInt8) (value : Value) : Machine :=
  { m with stack := m.stack.replace (m.stack.size - (arguments.toNat + 1)) value }

/-- A machine calls a closure on an instance. -/
structure Enters (m' : Machine) (init : ClosureId) (receiver : InstanceId)
    (m₁ : Machine) (g : Frame) :
    Prop where
  /-- The call is the innermost one. -/
  calls : m₁.calls = g :: m'.calls
  /-- It is one of the closure. -/
  closure : g.closure = init
  /-- The code in progress waits for its result. -/
  resume : g.resume = .caller
  /-- It is on the instance. -/
  callee : m₁.stack.toList[g.slots]? = some (.instanceRef receiver)
  /-- The closure is an initializer. -/
  constructs : m₁.Constructs g.closure

/-- A closure that is entered on an instance has it in slot 0. -/
theorem Enters.of_enter {m₂ : Machine}
    (h : Exec.proceed (Exec.enter init arguments .caller) m₂ = .ok result m₁)
    (hcallee : m₂.stack.peek arguments.toNat = .ok (.instanceRef receiver))
    (hcalls : m₂.calls = m'.calls) (hinit : m₂.Constructs init) : ∃ g,
      m'.Enters init receiver m₁ g := by
  obtain ⟨slots, hentered, hslot, hheap⟩ := Exec.calls_of_enter h hcallee
  refine ⟨⟨init, 0, slots, .caller⟩, hcalls ▸ hentered, rfl, rfl, hslot, ?_⟩
  rw [Constructs, hheap]
  exact hinit

/-- **Every way to call an initializer** starts a call of it on the instance. -/
theorem CallsInit.enters (h : m.CallsInit m' init receiver) (hstep : Exec.step m = .ok none m₁) :
    ∃ g, m'.Enters init receiver m₁ g := by
  -- In every way the receiver is put where the callee was, or is there already, before `enter` is
  -- reached.
  cases h with
  | @ofClass _ arguments id _ hfetch hcallee hinit =>
    obtain ⟨hlt, -⟩ := Exec.slot_of_peek hcallee
    let made : Machine := { m' with heap := (m'.heap.newInstance id).2 }
    let fresh : Value := .instanceRef ⟨m'.heap.instances.size⟩
    have hallocate : Exec.allocate (·.newInstance id) m' = .ok ⟨m'.heap.instances.size⟩ made := rfl
    have hclass : (made.heap.classAt id).methods.get? "init" = some init := hinit
    have hcall : Exec.callValue (.classRef id) arguments m'
        = Exec.enter init arguments .caller (made.withCallee arguments fresh) := by
      refine (Exec.bind_of_ok hallocate).trans ?_
      refine (Exec.bind_of_ok (Exec.setCallee_eq (m := made) hlt)).trans ?_
      refine (Exec.bind_of_ok (x := Exec.heap) rfl).trans ?_
      dsimp only
      rw [hclass]
      rfl
    rw [Exec.step_of_fetchCount rfl hfetch,
      Exec.proceed_congr (Exec.bind_of_ok (Exec.peek_eq_of_stack hcallee)),
      Exec.proceed_congr hcall] at hstep
    exact Enters.of_enter hstep (Exec.peek_replace hlt _) rfl ⟨id, hinit⟩
  | @ofBound _ arguments _ _ hfetch hcallee hinit =>
    obtain ⟨hlt, -⟩ := Exec.slot_of_peek hcallee
    have hcall : Exec.callValue (.bound receiver init) arguments m'
        = Exec.enter init arguments .caller (m'.withCallee arguments (.instanceRef receiver)) := by
      rw [Exec.callValue, Exec.bind_of_ok (Exec.setCallee_eq hlt)]
      rfl
    rw [Exec.step_of_fetchCount rfl hfetch,
      Exec.proceed_congr (Exec.bind_of_ok (Exec.peek_eq_of_stack hcallee)),
      Exec.proceed_congr hcall] at hstep
    exact Enters.of_enter hstep (Exec.peek_replace hlt _) rfl hinit
  | @ofInstance _ arguments _ _ hfetch hreceiver hfield hproperty hinit =>
    have hcall : Exec.invoke "init" arguments m' = Exec.enter init arguments .caller m' := by
      rw [Exec.invoke, Exec.bind_of_ok (Exec.peek_eq_of_stack hreceiver)]
      dsimp only
      rw [Exec.bind_of_ok (x := Exec.heap) rfl, hfield]
      simp only [hproperty]
      exact Exec.invokeFrom_eq hinit
    rw [Exec.step_of_fetchCall rfl hfetch, Exec.proceed_congr hcall] at hstep
    exact Enters.of_enter hstep hreceiver rfl ⟨_, hinit⟩
  | @ofSuper m₂ _ arguments superclass _ _ hfetch hclass hreceiver hinit =>
    have hcall : (Exec.popClass >>= fun id => Exec.invokeFrom id "init" arguments) m₂
        = Exec.enter init arguments .caller m' := by
      rw [Exec.bind_of_ok hclass]
      exact Exec.invokeFrom_eq hinit
    rw [Exec.step_of_fetchCall (x := fun name arguments => do
      Exec.invokeFrom (← Exec.popClass) name arguments) rfl hfetch,
        Exec.proceed_congr hcall] at hstep
    exact Enters.of_enter hstep hreceiver rfl ⟨superclass, hinit⟩

/-- What functions are called on stays where it is, and initializers return it. -/
structure KeepsReceivers (m : Machine) : Prop where
  /-- No function assigns its slot 0. -/
  code : ∀ f ∈ m.heap.functions.toList, ∀ offset,
    (offset, .setLocal) ∈ f.chunk.instructions m.heap → f.chunk.code[offset + 1]? ≠ some 0
  /-- A cell that captures slot 0 is never assigned from then on, in this run or in a later one. -/
  cells : ∀ m₁ cell, m.CapturesCallee m₁ cell → ∀ m', m₁.Precedes m' →
    m'.written? ≠ some (.cell cell)
  /-- Slot 0 of a call in progress keeps its value as long as the call goes on. -/
  slots : ∀ above g rest, m.calls = above ++ g :: rest → ∀ m', m.During rest.length m' →
    m'.stack.toList[g.slots]? = m.stack.toList[g.slots]?
  /-- A call of an initializer has an instance in slot 0 and returns it, if it returns at all. -/
  returns : ∀ g rest, m.calls = g :: rest → m.Constructs g.closure →
    ∃ id, m.stack.toList[g.slots]? = some (.instanceRef id) ∧ m.Returns g rest (.instanceRef id)
  /-- However an initializer is called on an instance, the call returns the instance, if it returns
  at all. -/
  calls : ∀ m' init receiver m₁, m.CallsInit m' init receiver → Exec.step m = .ok none m₁ →
    ∃ g, m'.Enters init receiver m₁ g ∧ m₁.Returns g m'.calls (.instanceRef receiver)

/-- Wherever a sound run comes, what functions are called on stays where it is. -/
theorem Progress.Right.keeps {start : Progress} {ground : Ground} (hright : start.Right ground)
    (htrusted : Trusted ground.stale) (hvisits : start.Visits m) : m.KeepsReceivers := by
  have hlives : ∀ {m₁ : Machine}, start.Visits m₁ → m₁.Lives ground.blueprints := fun hvisits => by
    obtain ⟨hrunning, L, hL⟩ := hright _ hvisits
    exact .running hrunning htrusted hL
  refine ⟨fun f hf offset hmem => ?_, fun m₁ cell h m' hlater => ?_,
    fun above g rest hcalls m' h => ?_, fun g rest hcalls hinit => ?_,
    fun m' init receiver m₁ h hstep => ?_⟩
  · have htable := (hlives hvisits).table
    obtain ⟨bp, -, hfits⟩ := exists_mem_of_forall₂ htable hf
    exact hfits.setLocal_ne_zero htable hmem
  · exact h.not_written (hlives hvisits) hlater
  · exact h.callee hright htrusted hvisits ⟨above, g.ip, hcalls⟩
  · exact hright.initializer_returns htrusted hvisits hcalls hinit
  · obtain ⟨g, henters⟩ := h.enters hstep
    obtain ⟨id, hid, hreturns⟩ := hright.initializer_returns htrusted (hvisits.step hstep)
      henters.calls henters.constructs
    obtain rfl : receiver = id :=
      Value.instanceRef.inj (Option.some.inj (henters.callee.symm.trans hid))
    exact ⟨g, henters, hreturns⟩

end Machine

namespace Session

variable {natives : List Native} {s : Session} {source : String} {m : Machine}

/-- **Initializers return what they are called on**, in every run of a session whose runs have
returned values so far, and nothing changes what a function is called on. -/
theorem Reached.keepsReceivers (h : Reached natives s) (hm : s.machine.Executes source m) :
    m.KeepsReceivers := by
  obtain ⟨program, hcompile, hvisits⟩ := hm
  obtain ⟨_, hright⟩ := h.clean.right hcompile
  exact hright.keeps h.clean.trusted hvisits

/-- Whether a program comes to a call of a class that has an initializer. -/
def callsClass (source : String) (steps : Nat) : Bool :=
  match Machine.reached? source steps with
  | some m =>
    match Exec.fetchCount m with
    | .ok (op, arguments) m' =>
      match m'.stack.peek arguments.toNat with
      | .ok (.classRef id) =>
        decide (op = .call) && ((m'.heap.classAt id).methods.get? "init").isSome
      | _ => false
    | _ => false
  | none => false

/-- A class with an inherited initializer is called. -/
theorem Reached.keepsReceivers_inherited : ∃ m m' init receiver,
    (Session.new [] .reliable 0).machine.Executes "class A \x7b init(x) \x7b self.x = x; \x7d \x7d
      class B: A \x7b \x7d B(1);" m ∧
    m.CallsInit m' init receiver ∧ m.KeepsReceivers := by
  have hchecked : callsClass "class A \x7b init(x) \x7b self.x = x; \x7d \x7d
      class B: A \x7b \x7d B(1);" 16 = true := by
    decide +kernel
  unfold callsClass at hchecked
  split at hchecked
  · next m hm =>
    split at hchecked
    · next op arguments m' hfetch =>
      split at hchecked
      · next id hcallee =>
        obtain ⟨hop, hinit⟩ := Bool.and_eq_true_iff.1 hchecked
        obtain rfl := of_decide_eq_true hop
        obtain ⟨init, hinit⟩ := Option.isSome_iff_exists.1 hinit
        have hexecutes := executes_of_reached? hm
        exact ⟨m, m', init, _, hexecutes, .ofClass hfetch hcallee hinit,
          Reached.keepsReceivers (.new .reliable 0) hexecutes⟩
      · cases hchecked
    · cases hchecked
  · cases hchecked

end Session

end ScriptVM
