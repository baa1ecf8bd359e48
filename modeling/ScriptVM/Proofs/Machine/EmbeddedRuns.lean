/-
# Runs of a script and of one that contains its code

Two machines in step, of which the first runs a script and the second one a script that has the code
of its declarations as a part, stay in step until the declarations have been done
(`Machine.Abreast`): a call of a script comes to stand behind one instruction after the other, and
no declaration leads it any further than the end of the last one.  There both machines are, and the
objects and global variables of both are the same.

So if one of the two runs ends, both come to that place, at the same times of the clock.

Main statement: `Machine.Abreast.exists_end`.
-/
import ScriptVM.Proofs.Machine.Pointer
import ScriptVM.Proofs.Machine.RenamedRuns
import ScriptVM.Proofs.Machine.Sound
import ScriptVM.Proofs.Machine.Timed
import ScriptVM.Proofs.Program.Scripts

namespace ScriptVM

/-! ## Where a call comes to stand -/

/-- The operands of a jump are read as its distance. -/
theorem Chunk.HasAt.short? {chunk : Chunk} {offset : Nat} {i : Instruction} {high low : UInt8}
    (h : chunk.HasAt offset i) (hi : i.operands = [high, low]) :
    chunk.short? (offset + 1) = some (distanceOf high low) := by
  have hhigh : chunk.code[offset + 1]? = some high := h.operand (k := 0) (by rw [hi]; rfl)
  have hlow : chunk.code[offset + 1 + 1]? = some low := h.operand (k := 1) (by rw [hi]; rfl)
  rw [Chunk.short?, hhigh, hlow]
  rfl

namespace Exec

variable {m m' : Machine} {f : Frame} {rest : List Frame} {i : Instruction} {height : Nat}

/-- **A call that does an instruction of its own** comes to stand where the instruction leads,
unless it leaves; other calls may be above it then. -/
theorem exists_target_of_step (hcalls : m.calls = f :: rest) (hat : (chunkOf m f).HasAt f.ip i)
    (hadmits : (m.heap.functionOf f.closure).Admits m.heap height i.op i.operands)
    (hret : i.op ≠ .ret) (hstep : step m = .ok none m') :
    ∃ above ip, m'.calls = above ++ { f with ip } :: rest ∧
      ip ∈ i.op.targets i.operands (f.ip + i.size) := by
  have hbreaks := not_breaks_of_ok hstep
  have hop := hat.opcodeAt?
  have hmoved : ∀ {ip : Nat}, step m = .ok none (m.moveTo ip) →
      m'.calls = [] ++ { f with ip } :: rest := by
    intro ip heq
    rw [hstep] at heq
    injection heq with _ hm'
    exact hm' ▸ Machine.calls_moveTo hcalls ip
  obtain ⟨op, operands, line⟩ := i
  have hshape := hadmits.shape
  dsimp only at hop hadmits hret hshape ⊢
  have hbytes : ∀ {high low : UInt8}, operands = [high, low] →
      (chunkOf m f).short? (f.ip + 1) = some (distanceOf high low) := fun h => hat.short? h
  -- Jumps go where their distance says; every other instruction that stays goes on behind itself.
  cases op with
  | ret => exact absurd rfl hret
  | jump =>
    obtain ⟨high, low, rfl⟩ := hshape
    obtain ⟨distance, hshort, heq⟩ := step_jump hcalls hop hbreaks
    obtain rfl := Option.some.inj (hshort.symm.trans (hbytes rfl))
    exact ⟨[], _, hmoved heq, by simp [Opcode.targets, Instruction.size]⟩
  | jumpIfFalse =>
    obtain ⟨high, low, rfl⟩ := hshape
    obtain ⟨distance, value, hshort, -, heq⟩ := step_jumpIfFalse hcalls hop hbreaks
    obtain rfl := Option.some.inj (hshort.symm.trans (hbytes rfl))
    refine ⟨[], _, hmoved heq, ?_⟩
    split <;> simp [Opcode.targets, Instruction.size]
  | loop =>
    obtain ⟨high, low, rfl⟩ := hshape
    obtain ⟨distance, hshort, -, heq⟩ := step_loop hcalls hop hbreaks
    obtain rfl := Option.some.inj (hshort.symm.trans (hbytes rfl))
    exact ⟨[], _, hmoved heq, by simp [Opcode.targets, Instruction.size]⟩
  | _ =>
    obtain ⟨length, above, hlength, -, hafter⟩ := step_advances hcalls hop (by decide) hbreaks
    obtain rfl := Option.some.inj (hlength.symm.trans (hat.instructionLength? hadmits))
    rw [after_of_ok hstep] at hafter
    exact ⟨above, _, hafter, by simp [Opcode.targets, Instruction.size, Nat.add_comm]⟩

end Exec

/-! ## Steps -/

/-- Two machines are in step but for the time, and the lowest call of the first has not come behind
its declarations, whose code the lowest call of the second has too. -/
structure Machine.Abreast (P : Pairing) (ground : Ground) (code : Code)
    (m m' : Machine) : Prop where
  /-- The machines are in step once the second one shows the time of the first one. -/
  inStep : m.InStep P 0 (m'.showing m.now)
  /-- The first one runs. -/
  running : m.Running ground
  /-- No cell of an earlier run is open. -/
  trusted : Trusted ground.stale
  /-- The lowest call of the first one runs a script. -/
  script : ∃ bp, ground.blueprints[P.script.index]? = some bp ∧ bp.Script code.extent
  /-- The second one has the code of its declarations. -/
  aligned : P.Aligned m.heap m'.heap code
  /-- The lowest call is not behind them. -/
  within : ∃ above f, m.calls = above ++ [f] ∧ f.ip ≤ code.extent

/-- The lowest call is at the end of its declarations, and there is no other. -/
def Machine.AtEnd (m : Machine) (extent : Nat) : Prop :=
  ∃ f, m.calls = [f] ∧ f.ip = extent

namespace Machine.Abreast

variable {P : Pairing} {ground : Ground} {code : Code} {m m' : Machine}

/-- The lowest call of the first machine runs the script. -/
theorem blueprint_eq {W : World} {f : Frame} {rest : List Frame} {bp bp' : Blueprint}
    {X below : Shape} {st : Stage} (h : m.Abreast P W.toGround code m')
    (hrun : RunsAt W m f rest bp' X below st) (hf : f.closure = P.main)
    (hbp : W.blueprints[P.script.index]? = some bp) : bp' = bp := by
  have hfunction := (hrun.typed.heap.closure hrun.function).function
  rw [hf, Heap.closure, Array.getD_eq_getD_getElem?, h.inStep.main] at hfunction
  exact Option.some.inj (hfunction.symm.trans hbp)

/-- The innermost call of the first machine is the lowest one of all if there is no other. -/
theorem lowest {f : Frame} (h : m.Abreast P ground code m') (hcalls : m.calls = [f]) :
    ∃ f', m'.calls = [f'] ∧ f.Lowest P f' := by
  have hframes : OnBottom _ _ m.calls m'.calls := h.inStep.calls
  rw [hcalls] at hframes
  generalize m'.calls = calls' at hframes
  cases hframes with
  | bottom hf => exact ⟨_, rfl, hf⟩
  | above _ hrest => cases hrest

/-- A step does not lead the lowest call behind its declarations. -/
theorem within_step {k : Machine} (h : m.Abreast P ground code m') (hend : ¬m.AtEnd code.extent)
    (hstep : Exec.step m = .ok none k) : ∃ above f, k.calls = above ++ [f] ∧
      f.ip ≤ code.extent := by
  obtain ⟨above, g, hcalls, hle⟩ := h.within
  rcases List.eq_nil_or_concat above with rfl | ⟨_, _, rfl⟩
  · obtain ⟨W, f, rest, bp', X, below, st, rfl, hrun⟩ := h.running
    obtain ⟨rfl, rfl⟩ := List.cons.inj (hrun.calls.symm.trans hcalls)
    obtain ⟨f', -, hlowest⟩ := h.lowest hcalls
    obtain ⟨bp, hbp, hscript⟩ := h.script
    obtain rfl := h.blueprint_eq hrun hlowest.closure hbp
    obtain ⟨front, mark, back, hmarks, hip, -⟩ := Marks.exists_cut_of_point? hrun.point
    have hlt : front.code.extent < code.extent :=
      Nat.lt_of_le_of_ne (hip ▸ hle) fun heq => hend ⟨f, hcalls, hip.trans heq⟩
    have hfits := hrun.fits
    have hat := hfits.hasAt hmarks
    have hadmits := ((hfits.leads hmarks).checked hrun.typed.heap.table hfits.captures).1
    rw [← hip] at hat
    by_cases hret : mark.instruction.op = .ret
    · -- A return from the lowest call would end the run.
      have hop := hat.opcodeAt?
      rw [hret] at hop
      obtain ⟨value, heq⟩ := Exec.step_ret hcalls hop (Exec.not_breaks_of_ok hstep)
      rw [hlowest.resume, hstep] at heq
      cases heq
    · obtain ⟨above, ip, hcalls', htarget⟩ :=
        Exec.exists_target_of_step hcalls hat hadmits hret hstep
      exact ⟨above, _, hcalls', hscript.inside hmarks hlt ip (hip ▸ htarget)⟩
  · rw [List.concat_eq_append] at hcalls
    obtain ⟨above', hcalls'⟩ := exists_above_of_step hcalls (by simp) hstep
    exact ⟨above', g, hcalls', hle⟩

/-- Machines that are abreast are so at any other time. -/
theorem showing (h : m.Abreast P ground code m') (now : Float) :
    (m.showing now).Abreast P ground code (m'.showing now) :=
  { h with
    inStep := { h.inStep with now := rfl }
    running := h.running.showing now }

/-- **A step of machines that are abreast** and show the same time is the same on both, and they are
abreast behind it, unless they are at the end of the declarations. -/
theorem step (h : m.Abreast P ground code m') (htime : m.now = m'.now)
    (hend : ¬m.AtEnd code.extent) :
    (∃ k k', Exec.step m = .ok none k ∧ Exec.step m' = .ok none k' ∧ k.Abreast P ground code k') ∨
      ∃ e k k', Exec.step m = .error (.runtime e) k ∧ Exec.step m' = .error (.runtime e) k' := by
  obtain ⟨W, f, rest, bp, X, below, st, hground, hrun⟩ := id h.running
  -- The lowest call is still within the common piece, since it is not at its end.
  have hbefore : rest = [] → f.ip < code.extent := by
    rintro rfl
    obtain ⟨above, g, hcalls, hle⟩ := h.within
    rw [hrun.calls, ← List.nil_append [f]] at hcalls
    obtain ⟨rfl, hg⟩ := List.append_inj' hcalls rfl
    obtain rfl := (List.cons.inj hg).1
    exact Nat.lt_of_le_of_ne hle fun heq => hend ⟨f, hrun.calls, heq⟩
  have hbetween : m.InStep P 0 m' := { h.inStep with now := htime }
  have hmirrors := hrun.step_mirrors hbetween h.aligned hbefore
  have hcontinues := step_continues h.running
  rw [Exec.Mirrors] at hmirrors
  rw [Exec.Ensures] at hcontinues
  split at hmirrors
  · next o k o' k' hstep hstep' =>
    obtain ⟨⟨rfl, rfl⟩, hinStep⟩ := hmirrors
    rw [hstep] at hcontinues
    have hfunctions := m.functions_step
    have hfunctions' := m'.functions_step
    rw [Exec.after_of_ok hstep] at hfunctions
    rw [Exec.after_of_ok hstep'] at hfunctions'
    exact .inl ⟨k, k', hstep, hstep', {
      inStep := { hinStep with now := rfl }
      running := hcontinues
      trusted := h.trusted
      script := h.script
      aligned := h.aligned.congr hfunctions hfunctions'
      within := h.within_step hend hstep }⟩
  · next defect k hstep =>
    rw [hstep] at hcontinues
    obtain ⟨e, he⟩ := hcontinues.1 h.trusted
    cases he
  · next e k e' k' hstep hstep' => exact .inr ⟨e, k, k', hstep, hmirrors ▸ hstep'⟩
  · exact hmirrors.elim

/-! ## Runs -/

/-- **If one of two runs that are abreast ends with a value**, both have come to the end of the
declarations before, abreast and at the same times. -/
theorem exists_end (h : m.Abreast P ground code m') {times : List Float}
    {value : Value} {k : Machine}
    (hrun : (Progress.running m).timed times = some (.finished value k) ∨
      (Progress.running m').timed times = some (.finished value k)) :
    ∃ front back b b', times = front ++ back ∧
      (Progress.running m).timed front = some (.running b) ∧
      (Progress.running m').timed front = some (.running b') ∧ b.Abreast P ground code b' ∧
      b.AtEnd code.extent := by
  -- The induction is on the times; each step keeps the machines abreast, or ends both runs.
  induction times generalizing m m' with
  | nil => rcases hrun with hrun | hrun <;> cases hrun
  | cons now times ih =>
    by_cases hend : m.AtEnd code.extent
    · exact ⟨[], now :: times, m, m', rfl, rfl, rfl, h, hend⟩
    rcases (h.showing now).step rfl hend with
      ⟨k₁, k₁', hstep, hstep', hnext⟩ | ⟨e, k₁, k₁', hstep, hstep'⟩
    · have htimed := Progress.timed_cons_of_step hstep
      have htimed' := Progress.timed_cons_of_step hstep'
      rw [htimed, htimed'] at hrun
      obtain ⟨front, back, b, b', rfl, hb, hb', hmore⟩ := ih hnext hrun
      exact ⟨now :: front, back, b, b', rfl, (htimed front).trans hb,
        (htimed' front).trans hb', hmore⟩
    · -- A run that fails does not end with a value.
      rw [Progress.timed, Progress.timed, Machine.advance, Machine.advance, hstep, hstep'] at hrun
      rcases hrun with hrun | hrun <;> cases times <;> cases hrun

/-- At the end of the declarations there is nothing on the stack but the script, and no cell is
open. -/
theorem settled (h : m.Abreast P ground code m') (hend : m.AtEnd code.extent) :
    m.values.length = 1 ∧ m.openCells = [] := by
  obtain ⟨f, hcalls, hip⟩ := hend
  obtain ⟨W, g, rest, bp', X, below, st, rfl, hrun⟩ := h.running
  obtain ⟨rfl, rfl⟩ := List.cons.inj (hrun.calls.symm.trans hcalls)
  obtain ⟨f', -, hlowest⟩ := h.lowest hcalls
  obtain ⟨bp, hbp, hscript⟩ := h.script
  obtain rfl := h.blueprint_eq hrun hlowest.closure hbp
  have hpoint := hrun.point
  rw [hip, hscript.settled] at hpoint
  obtain ⟨rfl, rfl⟩ := Point.mk.inj (Option.some.inj hpoint)
  obtain rfl : below = [] := List.eq_nil_of_length_eq_zero (hrun.slots.symm.trans hlowest.slots)
  refine ⟨hrun.typed.length_values, List.eq_nil_iff_forall_not_mem.2 fun id hid => ?_⟩
  -- An open cell would stand for the lowest slot.
  obtain ⟨hnew, slot, hcell⟩ := hrun.typed.cells.known id hid
  obtain ⟨-, kind, -, hslot⟩ := hrun.typed.cells.opened _ _ hnew hcell
  have hlt : slot < 1 := by simpa using lt_length_of_slot? hslot
  have hlt' := (Array.getElem?_eq_some_iff.1 hcell).1
  have hrenamed := h.inStep.heap.cell hlt'
  rw [Heap.cell, Array.getD_eq_getD_getElem?, hcell] at hrenamed
  generalize (m'.showing m.now).heap.cell id = cell' at hrenamed
  cases hrenamed with
  | openAt hpos => exact absurd hpos (Nat.not_lt.2 (Nat.le_of_lt_succ hlt))

end Machine.Abreast

end ScriptVM
