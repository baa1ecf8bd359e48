/-
# The scripts of compiled sources

The code of a script is that of its declarations and then that of its end.  Behind the declarations
there is nothing on the stack but the script itself, as at the start, and none of them leads any
further (`Blueprint.Script`).

Main statement: `compileAfter_script`.
-/
import ScriptVM.Proofs.Machine.Pending
import ScriptVM.Proofs.Program.Joining

namespace ScriptVM

/-- What is known of the code of a script whose declarations have an extent. -/
structure Blueprint.Script (bp : Blueprint) (extent : Nat) : Prop where
  /-- A script captures nothing. -/
  captures : bp.captures = []
  /-- It is not called on an instance. -/
  member : bp.isMember = false
  /-- It has no parameters. -/
  parameters : bp.parameters = []
  /-- Behind the declarations the stack is as at the start. -/
  settled : bp.marks.point? none extent = some (.at [])
  /-- The declarations lead nowhere behind their end. -/
  inside : ∀ {front : Marks} {mark : Mark} {back : Marks}, bp.marks = front ++ mark :: back →
    front.code.extent < extent → ∀ target ∈ mark.instruction.op.targets mark.instruction.operands
      (front.code.extent + mark.instruction.size), target ≤ extent

/-- The end of a script, with what is known before its instructions. -/
def Marks.scriptEnd (line : Nat) : Marks :=
  [⟨.at [], ⟨.pushNil, [], line⟩⟩, ⟨.at [.operand], ⟨.ret, [], line⟩⟩]

namespace Marks

variable {Γ : Env} {S : Shape} {declared : Marks} {line : Nat}

/-- An instruction that stands within a piece of marked code is one of its instructions. -/
theorem exists_cut_of_lt {declared rest front back : Marks} {mark : Mark}
    (h : declared ++ rest = front ++ mark :: back)
    (hlt : front.code.extent < declared.code.extent) :
    ∃ back', declared = front ++ mark :: back' := by
  rcases List.append_eq_append_iff.1 h with ⟨more, rfl, -⟩ | ⟨more, rfl, hmore⟩
  · rw [code_append, Code.extent_append] at hlt
    exact absurd hlt (Nat.not_lt.2 (Nat.le_add_right _ _))
  · cases more with
    | nil =>
      rw [List.append_nil] at hlt
      exact absurd hlt (Nat.lt_irrefl _)
    | cons mark' more =>
      obtain ⟨rfl, rfl⟩ := List.cons.inj hmore
      exact ⟨more, rfl⟩

/-- The declarations of a script and its end lead to known points. -/
theorem Hold.script (h : declared.Hold Γ S (declared.point? (some (.at []))) 0)
    (hplain : Γ.initializes = false) :
    (declared ++ scriptEnd line).Hold Γ S ((declared ++ scriptEnd line).point? none) 0 := by
  refine hold_append.2 ⟨h.embed [] _ (reaches_cons _ _) rfl rfl, ?_, ?_, trivial⟩
  · have hpush : Opcode.pushNil ∈ Opcode.pushes := by decide
    exact .run (.push hpush) (reaches_behind (a := declared ++ [⟨.at [], ⟨.pushNil, [], line⟩⟩])
      (reaches_cons ⟨.at [.operand], ⟨.ret, [], line⟩⟩ []) (by simp [scriptEnd]) (by simp))
  · exact .ret (by simp [hplain])

/-- Instructions that lead to known points within a piece of marked code do not lead behind it. -/
theorem Hold.target_le {p : Point} (h : declared.Hold Γ S (declared.point? (some p)) 0)
    {front back : Marks} {mark : Mark} (hmarks : declared = front ++ mark :: back) {target : Nat}
    (htarget : target ∈ mark.instruction.op.targets mark.instruction.operands
      (front.code.extent + mark.instruction.size)) : target ≤ declared.code.extent := by
  have hleads := h
  rw [hmarks] at hleads
  obtain ⟨-, hleads, -⟩ := hold_append.1 hleads
  rw [Nat.zero_add, ← hmarks] at hleads
  obtain ⟨q, ⟨r, hr, -⟩, -⟩ := hleads.drop_eq htarget
  exact (boundary_of_point? hr).le_extent

end Marks

/-- **A source that compiles adds functions and a script.**  All of them are as their blueprints
say, and none of them refers to the script. -/
theorem compileAfter_script {bps : List Blueprint} {functions : Array Function} {source : String}
    {program : Program} (h : Program.compileAfter functions source = .ok program)
    (hbps : TableFits bps functions.toList) :
    ∃ (bps' : List Blueprint) (bp : Blueprint) (fs : Array Function) (f : Function) (extent : Nat),
      bps <+: bps' ∧ program = ⟨fs.push f, ⟨fs.size⟩⟩ ∧ TableFits bps' fs.toList ∧
      ConstantsOk fs.size f.chunk.constants ∧ f.Fits (bps' ++ [bp]) bp ∧ bp.Script extent ∧
      f.chunk.size = extent + scriptEnd.length := by
  obtain ⟨ts, b, hb⟩ := Program.exists_built hbps h
  obtain ⟨bps', new, old, code, hbody⟩ := hb.declares
  obtain ⟨line, rfl⟩ := hb.ended
  obtain ⟨henclosing, -, -, -⟩ := hb.at_end
  have hgrown := hbody.grown
  have hkind : b.context.function.kind = .script := hgrown.kind
  -- The script itself is the only local.
  obtain ⟨callee, rest, hcallee, hrest, rfl⟩ := List.forall₂_cons_left_iff.1 hbody.raised
  obtain rfl := List.forall₂_nil_left_iff.1 hrest
  obtain rfl := hbody.top rfl
  obtain ⟨marks, rfl, hentry, hhold⟩ :=
    hbody.flow [callee.slot] ⟨Covers.singleton callee, fun _ => rfl⟩
  have hcaptures : captureKinds (b.context :: b.enclosing) = [] := by
    have hlinked := hgrown.sound.linked.1
    rw [henclosing] at hlinked
    have hnone : b.context.captures = #[] := Array.eq_empty_of_size_eq_zero (by
      rw [← Array.length_toList, List.length_eq_zero_iff]
      exact List.eq_nil_iff_forall_not_mem.2 fun c hc => hlinked c hc)
    rw [henclosing, captureKinds, hnone]
    rfl
  have hwhole : (Chunk.empty "main").Appends ((b.emit .pushNil line).emit .ret line).chunk
      (marks.code ++ [⟨.pushNil, [], line⟩, ⟨.ret, [], line⟩]) :=
    hgrown.code.trans ((Chunk.Appends.addOpcode b.chunk .pushNil line).trans
      (Chunk.Appends.addOpcode (b.emit .pushNil line).chunk .ret line))
  let bp : Blueprint := ⟨[], false, false, callee.slot, [], marks ++ Marks.scriptEnd line⟩
  -- The script is one blueprint more; no code refers to it.
  have hle : (b.env bps').Le ⟨b.chunk.constants, bps' ++ [bp], [], false⟩ := {
    constants := id
    blueprints := fun hf => getElem?_of_isPrefix (List.prefix_append _ _) hf
    captures := hcaptures ▸ id
    initializes := by
      show false = decide (b.context.function.kind = .initializer)
      rw [hkind]
      rfl }
  have hsize : bps'.length = b.functions.size := by
    rw [← Array.length_toList, hgrown.sound.table.length_eq]
  have hconstants := hgrown.sound.contexts.1.constants
  refine ⟨bps', bp, b.functions, _, marks.code.extent, hgrown.blueprints, rfl, hgrown.sound.table,
    hsize ▸ hconstants, ?_, ?_, ?_⟩
  · exact {
      code := by rw [Marks.code_append]; exact hwhole.code_eq
      lines := by rw [Marks.code_append]; exact hwhole.lines_eq
      arity := by
        show 0 = b.context.function.arity.toNat
        rw [hgrown.arity]
        rfl
      parameters := fun s hs => absurd hs List.not_mem_nil
      captures := hgrown.captureCount.symm
      constants := hconstants.mono (by simp)
      member := by
        show false = true ↔ b.context.function.kind = .method ∨
          b.context.function.kind = .initializer
        rw [hkind]
        decide
      initializer := by
        show false = decide (b.context.function.kind = .initializer)
        rw [hkind]
        rfl
      receiver := by
        show SlotKind.ofName callee.name = .callee
        rw [hcallee.name]
        rfl
      entry := Marks.reaches_front hentry (Marks.reaches_cons _ _)
      hold := (hhold.mono hle (Shape.Le.refl _)).script rfl
      last := ⟨marks.code ++ [⟨.pushNil, [], line⟩], line, by simp [bp, Marks.scriptEnd]⟩ }
  · exact {
      captures := rfl
      member := rfl
      parameters := rfl
      settled := Marks.point?_append_right none marks (Marks.scriptEnd line) 0
      inside := by
        intro front mark back hmarks hlt
        obtain ⟨back', rfl⟩ := Marks.exists_cut_of_lt hmarks hlt
        exact fun target => hhold.target_le rfl }
  · rw [Chunk.size, ← Array.length_toList, hwhole.code_eq]
    simp [scriptEnd, Code.extent, Instruction.bytes, Chunk.empty]

end ScriptVM
