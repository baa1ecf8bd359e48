/-
# Running code is never broken

Each instruction that leads on takes a running machine to a running or quiet one, whatever kind of
instruction it is.  So a run that starts well never finds its code broken, however long it goes on,
and no class ever inherits from itself.

Main statements: `step_continues`, `Machine.Running.advance_sound`,
`Machine.Running.not_inheritsItself`.
-/
import ScriptVM.Proofs.Machine.Declarations

namespace ScriptVM

namespace RunsAt

open Exec

variable {W : World} {m : Machine} {f : Frame} {rest : List Frame} {bp : Blueprint}
  {X below : Shape} {st : Stage} {op : Opcode} {operands : List UInt8} {q : Point} {next : Nat}

/-! ## One instruction -/

/-- **An instruction that goes on behind itself** takes a running machine to a running one. -/
theorem execute_of_runs (h : RunsAt W m f rest bp X below st)
    (hbytes : ∀ {k byte}, operands[k]? = some byte →
      (chunkOf m f).code[f.ip + 1 + k]? = some byte)
    (hnext : next = f.ip + 1 + operands.length)
    (hruns : Runs (.of W m f bp) [bp.receiver] op operands ⟨X, st⟩ q)
    (hreaches : Reaches (bp.marks.point? none) next q) :
    Ensures W.toGround (execute op) (m.moveTo (f.ip + 1))
      fun result m' => m'.ContinuesOn W.toGround q.stage result := by
  subst hnext
  have hat := h.typed
  -- One case for each way an instruction runs. What it leaves is typed, and `goesOn` carries the
  -- rest of the code to the point behind it.
  cases hruns with
  | @constant c v X hc hv =>
    refine proceed_ready (Ensures.bind_of_eq (readConstant_eq h.calls (hbytes (k := 0) rfl) hc) ?_)
    refine push_ready (h.typed.moveTo _) (h.goesOn hreaches) (.plain ?_)
    cases v <;> first | rfl | simp [Value.isLiteral] at hv
  | push hop =>
    have hready : ∀ v : Value, v.isPlain = true →
        Ensures W.toGround (proceed (push v)) (m.moveTo (f.ip + 1))
          fun result m' => m'.ContinuesOn W.toGround .plain result :=
      fun v hv => proceed_ready
        (push_ready (h.typed.moveTo _) (h.goesOn hreaches) (.plain hv))
    rcases Opcode.mem_pushes.1 hop with rfl | rfl | rfl
    · exact hready .nil rfl
    · exact hready (.bool true) rfl
    · exact hready (.bool false) rfl
  | unary hop =>
    have hready : ∀ g : Value → Except ValueError Value,
        (∀ a v, g a = .ok v → v.isScalar = true) →
        Ensures W.toGround (proceed (applyUnary g)) (m.moveTo (f.ip + 1))
          fun result m' => m'.ContinuesOn W.toGround .plain result :=
      fun g hg => proceed_ready (applyUnary_ready hg (h.typed.moveTo _) (h.goesOn hreaches))
    rcases List.mem_pair.1 hop with rfl | rfl
    · exact hready _ fun _ _ => Value.isScalar_of_negate
    · exact hready _ fun _ _ hv => Except.ok.inj hv ▸ rfl
  | binary hop =>
    have hready : ∀ g : Value → Value → Except ValueError Value,
        (∀ a b v, g a b = .ok v → v.isScalar = true) →
        Ensures W.toGround (proceed (applyBinary g)) (m.moveTo (f.ip + 1))
          fun result m' => m'.ContinuesOn W.toGround .plain result :=
      fun g hg => proceed_ready (applyBinary_ready hg (h.typed.moveTo _) (h.goesOn hreaches))
    rcases Opcode.mem_binaries.1 hop with rfl | rfl | rfl | rfl | rfl | rfl | rfl | rfl
    · exact hready _ fun _ _ _ => Value.isScalar_of_add
    · exact hready _ fun _ _ _ => Value.isScalar_of_arithmetic
    · exact hready _ fun _ _ _ => Value.isScalar_of_arithmetic
    · exact hready _ fun _ _ _ => Value.isScalar_of_divide
    · exact hready _ fun _ _ _ hv => Except.ok.inj hv ▸ rfl
    · exact hready _ fun _ _ _ hv => Except.ok.inj hv ▸ rfl
    · exact hready _ fun _ _ _ => Value.isScalar_of_compare
    · exact hready _ fun _ _ _ => Value.isScalar_of_compare
  | print => exact proceed_ready (print_ready (h.typed.moveTo _) (h.goesOn hreaches))
  | pop => exact proceed_ready (drop_ready (h.typed.moveTo _) rfl (h.goesOn hreaches))
  | close => exact proceed_ready (dropCaptured_ready (h.typed.moveTo _) (h.goesOn hreaches))
  | @read op i k use X hreads hk =>
    obtain ⟨x, hx, hensures⟩ :=
      h.read (hbytes (k := 0) rfl) hreads (Q := Machine.RunsOn W.toGround .plain)
      fun v m' _ hkind hp => by
        have hat' := (h.typed.moveTo (f.ip + 2)).pushed (s := .temp use) hp (hkind.serves hk)
        exact h.runsOn (.refl W) rfl (Y := .temp use :: X) hat' hp.calls hreaches trivial
    rw [hx]
    exact proceed_runsOn hensures
  | write hwrites => exact h.write (hbytes (k := 0) rfl) hwrites hreaches
  | define hname =>
    refine proceed_ready (Ensures.bind_of_eq (readName_eq h.calls (hbytes (k := 0) rfl) hname) ?_)
    refine (pop_at (h.typed.moveTo _) rfl).bind fun v m' hpop => ?_
    obtain ⟨hv, hat', hcalls⟩ := hpop
    refine ⟨W, _, rfl, ⟨hat'.heap, hat'.globals.insert hv.ok, hat'.values, hat'.cells⟩, ?_⟩
    show GoesOn W _ m'.calls _
    rw [hcalls]
    exact h.goesOn hreaches
  | call =>
    -- The callee and its arguments are the top of the shape, and the rest belongs to the call in
    -- progress.
    rw [List.append_assoc] at hat
    refine proceed_ready (Ensures.bind_of_eq (readByte_eq h.calls (hbytes (k := 0) rfl)) ?_)
    exact callOperand_ready (hat.moveTo _) (h.goesOn hreaches)
  | closure hc hg _ hsupplies _ =>
    rw [List.length_cons, length_captureBytes] at hreaches
    rw [show ∀ n, f.ip + 1 + (2 * n + 1) = f.ip + 2 + 2 * n by omega] at hreaches
    exact proceed_runsOn (h.makeClosure hbytes hc hg hsupplies hreaches)
  | getProperty hname =>
    refine proceed_ready (Ensures.bind_of_eq (readName_eq h.calls (hbytes (k := 0) rfl) hname) ?_)
    obtain ⟨v, hv, -⟩ := (h.typed.moveTo (f.ip + 2)).value (n := 0) rfl
    refine Ensures.bind_of_eq (peek_eq hv) ?_
    split
    · exact readProperty_ready _ _ (h.typed.moveTo _) (h.goesOn hreaches)
    · exact Ensures.raise (h.typed.moveTo _).survives
  | setProperty hname =>
    refine proceed_ready (Ensures.bind_of_eq (readName_eq h.calls (hbytes (k := 0) rfl) hname) ?_)
    exact assignField_ready _ (h.typed.moveTo _) (h.goesOn hreaches)
  | invoke hname =>
    rw [List.append_assoc, replicate_succ_append] at hat
    refine proceed_ready (Ensures.bind_of_eq (readName_eq h.calls (hbytes (k := 0) rfl) hname) ?_)
    refine Ensures.bind_of_eq (readByte_eq h.calls (hbytes (k := 1) rfl)) ?_
    exact invoke_ready _ (hat.moveTo _) (h.goesOn hreaches)
  | @readSuper i X hparent =>
    obtain ⟨x, hx, hensures⟩ := h.read (hbytes (k := 0) rfl) (.fromCell hparent)
      (Q := Machine.RunsOn W.toGround .bound) fun v m' _ hkind hp => by
        have hat' := (h.typed.moveTo (f.ip + 2)).pushed (s := .temp .parent) hp hkind
        exact h.runsOn (.refl W) rfl (Y := .temp .parent :: X) hat' hp.calls hreaches trivial
    rw [hx]
    exact proceed_runsOn hensures
  | @readOwn s X hs huse =>
    obtain ⟨x, hx, hensures⟩ := h.read (hbytes (k := 0) rfl) (.fromSlot (i := 0) hs)
      (Q := Machine.RunsOn W.toGround .own) fun v m' hreading hkind hp => by
        have hat' := (h.typed.moveTo (f.ip + 2)).pushed (s := .operand) hp (hkind.serves huse)
        refine h.runsOn (.refl W) rfl (Y := .operand :: X) hat' hp.calls hreaches
          ⟨v, m.values, hp.values, ?_⟩
        -- The value read from the receiver's slot is still there, so the two stay equal.
        cases hreading with
        | fromSlot hv =>
          rw [hp.values, ← h.slots]
          exact slot?_append_of_some (X := [v]) hv
    rw [hx]
    exact proceed_runsOn hensures
  | getSuper hname =>
    refine proceed_ready (Ensures.bind_of_eq (readName_eq h.calls (hbytes (k := 0) rfl) hname) ?_)
    exact superProperty_ready _ (h.typed.moveTo _) (h.goesOn hreaches)
  | invokeSuper hname =>
    rw [List.cons_append, List.append_assoc, List.cons_append] at hat
    refine proceed_ready (Ensures.bind_of_eq (readName_eq h.calls (hbytes (k := 0) rfl) hname) ?_)
    refine Ensures.bind_of_eq (readByte_eq h.calls (hbytes (k := 1) rfl)) ?_
    exact superMethod_ready _ (hat.moveTo _) (h.goesOn hreaches)
  | array =>
    rw [List.append_assoc] at hat
    refine proceed_ready (Ensures.bind_of_eq (readByte_eq h.calls (hbytes (k := 0) rfl)) ?_)
    exact makeArray_ready (hat.moveTo _) (h.goesOn hreaches)
  | addMember hop hname hinit =>
    rcases List.mem_pair.1 hop with rfl | rfl
    · exact proceed_runsOn (h.addMember (hbytes (k := 0) rfl) hname
        (fun _ id _ hheap hknows hmember =>
          ⟨hheap.defineMethod id _ hknows (hmember ∘ hinit rfl), rfl⟩) hreaches)
    · exact proceed_runsOn (h.addMember (hbytes (k := 0) rfl) hname
        (fun _ id _ hheap hknows _ => ⟨hheap.defineProperty id _ hknows, rfl⟩) hreaches)
  | newClass hname => exact proceed_runsOn (h.makeClass (hbytes (k := 0) rfl) hname hreaches)
  | defineClass hname => exact proceed_runsOn (h.defineClass (hbytes (k := 0) rfl) hname hreaches)
  | choose hreads hk hhome => exact h.choose (hbytes (k := 0) rfl) hreads hk hhome hreaches
  | pair hreads hhome => exact h.pair (hbytes (k := 0) rfl) hreads hhome hreaches
  | inherit => exact proceed_runsOn (h.inherit hreaches)
  | hold hreads hhome hst => exact h.hold (hbytes (k := 0) rfl) hreads hhome hst hreaches

/-- The stage that an instruction comes to: what is known behind it, or nothing in particular if it
leaves the call or goes elsewhere. -/
inductive Comes (Γ : Env) (S : Shape) (op : Opcode) (operands : List UInt8)
    (p : Point) : Stage → Prop
  | run {q : Point} (h : Runs Γ S op operands p q) : Comes Γ S op operands p q.stage
  | other (h : op ∈ [.ret, .jump, .jumpIfFalse, .loop]) : Comes Γ S op operands p .plain

/-- **An instruction that leads on** takes a running machine to a running or quiet one. -/
theorem execute (h : RunsAt W m f rest bp X below st)
    (hbytes : ∀ {k byte}, operands[k]? = some byte →
      (chunkOf m f).code[f.ip + 1 + k]? = some byte)
    (hnext : next = f.ip + 1 + operands.length)
    (hleads : Leads (.of W m f bp) [bp.receiver] (bp.marks.point? none) next op operands ⟨X, st⟩) :
    ∃ st', Comes (.of W m f bp) [bp.receiver] op operands ⟨X, st⟩ st' ∧
      Ensures W.toGround (execute op) (m.moveTo (f.ip + 1))
        fun result m' => m'.ContinuesOn W.toGround st' result := by
  cases hleads with
  | run hruns hreaches => exact ⟨_, .run hruns, h.execute_of_runs hbytes hnext hruns hreaches⟩
  | @ret X =>
    have hat : At W (.operand :: (X ++ [bp.receiver]) ++ below) (m.moveTo (f.ip + 1)) := by
      rw [List.cons_append, List.append_assoc]
      exact h.typed.moveTo _
    refine ⟨_, .other (by simp),
      (leave_settled hat (Machine.calls_moveTo h.calls _) h.slots h.waits).imp ?_⟩
    exact fun result m' hsettled => hsettled.continuesOn
  | jump hreaches =>
    subst hnext
    exact ⟨_, .other (by simp),
      proceed_runsOn (h.jump (hbytes (k := 0) rfl) (hbytes (k := 1) rfl) hreaches)⟩
  | jumpIfFalse hthen helse =>
    subst hnext
    exact ⟨_, .other (by simp),
      proceed_runsOn (h.jumpIfFalse (hbytes (k := 0) rfl) (hbytes (k := 1) rfl) hthen helse)⟩
  | loop hle hreaches =>
    subst hnext
    exact ⟨_, .other (by simp),
      proceed_runsOn (h.loop (hbytes (k := 0) rfl) (hbytes (k := 1) rfl) hle hreaches)⟩

end RunsAt

/-! ## One step -/

/-- Where a machine runs there is an instruction, which leads on. -/
theorem RunsAt.exists_instruction {W : World} {m : Machine} {f : Frame} {rest : List Frame}
    {bp : Blueprint} {X below : Shape} {st : Stage} (h : RunsAt W m f rest bp X below st) :
    ∃ i : Instruction, (Exec.chunkOf m f).HasAt f.ip i ∧
      Leads (.of W m f bp) [bp.receiver] (bp.marks.point? none) (f.ip + i.size) i.op i.operands
        ⟨X, st⟩ := by
  obtain ⟨front, mark, back, hmarks, hip, hpoint⟩ := Marks.exists_cut_of_point? h.point
  have hleads := h.fits.leads hmarks
  rw [hpoint, ← hip] at hleads
  exact ⟨mark.instruction, hip ▸ h.fits.hasAt hmarks, hleads⟩

/-- **A step of a running machine** never finds the code broken: the machine runs on, or the run has
ended. -/
theorem step_continues {ground : Ground} {m : Machine} (h : m.Running ground) :
    Exec.Ensures ground Exec.step m fun result m' => m'.Continues ground result := by
  obtain ⟨W, f, rest, bp, X, below, st, rfl, h⟩ := h
  obtain ⟨i, hat, hleads⟩ := h.exists_instruction
  refine Exec.Ensures.bind_of_eq (Exec.readOpcode_eq h.calls hat.op) ?_
  have hsize : f.ip + i.size = f.ip + 1 + i.operands.length := by
    rw [Instruction.size]
    omega
  obtain ⟨st', -, hensures⟩ := h.execute hat.operand hsize hleads
  exact hensures.imp fun _ _ hcontinues => hcontinues.continues

/-- Only the instruction for it makes a class inherit, and only where the class and the value below
it are known to differ. -/
theorem Leads.stage_of_inherit {Γ : Env} {S X : Shape} {points : Nat → Option Point} {next : Nat}
    {operands : List UInt8} {st : Stage}
    (h : Leads Γ S points next .inherit operands ⟨X, st⟩) : ∃ home, st = .paired home := by
  cases h with
  | run hruns _ =>
    cases hruns with
    | push hop => exact absurd hop (by decide)
    | unary hop => exact absurd hop (by decide)
    | binary hop => exact absurd hop (by decide)
    | addMember hop _ _ => exact absurd hop (by decide)
    | read hreads _ => cases hreads
    | write hwrites => cases hwrites
    | choose hreads _ _ => cases hreads
    | pair hreads _ => cases hreads
    | hold hreads _ _ => cases hreads
    | inherit => exact ⟨_, rfl⟩

/-- A machine is about to make a class inherit from itself. -/
def Machine.InheritsItself (m : Machine) : Prop :=
  ∃ m' id, Exec.readOpcode m = .ok .inherit m' ∧ m'.stack.peek 0 = .ok (.classRef id) ∧
    m'.stack.peek 1 = .ok (.classRef id)

/-- **No class inherits from itself.** -/
theorem Machine.Running.not_inheritsItself {ground : Ground} {m : Machine}
    (h : m.Running ground) (htrusted : Trusted ground.stale) : ¬m.InheritsItself := by
  rintro ⟨m', id, hread, htop, hsecond⟩
  obtain ⟨W, f, rest, bp, X, below, st, rfl, h⟩ := h
  obtain ⟨i, hat, hleads⟩ := h.exists_instruction
  rw [Exec.readOpcode_eq h.calls hat.op] at hread
  injection hread with hop hm
  subst hm
  rw [hop] at hleads
  obtain ⟨home, rfl⟩ := hleads.stage_of_inherit
  obtain ⟨id', v, values, -, hvalues, -, hne⟩ := h.stage
  have htop' := Stack.peek_eq_ok (s := m.stack) (i := 0) (congrArg (·[0]?) hvalues)
  have hsecond' := Stack.peek_eq_ok (s := m.stack) (i := 1) (congrArg (·[1]?) hvalues)
  have hid := Except.ok.inj (htop'.symm.trans htop)
  have hv := Except.ok.inj (hsecond'.symm.trans hsecond)
  exact hne htrusted (hv.trans hid.symm)

/-! ## Runs -/

/-- A fault is one of the program, if no cell of an earlier run is open, and the objects and global
variables are as they should after it. -/
structure Machine.Breaks (ground : Ground) (fault : Fault) (m : Machine) : Prop where
  /-- The fault is one of the program. -/
  runtime : Trusted ground.stale → ∃ e, fault = .runtime e
  /-- The objects and global variables are as they should. -/
  survives : m.Survives ground

/-- How far a run has come that never finds its code broken. -/
def Machine.Progress.Sound (ground : Ground) : Machine.Progress → Prop
  | .running m => m.Running ground
  | .finished _ m => m.Quiet ground
  | .failed fault m => m.Breaks ground fault

/-- A part of a run that never finds the code broken succeeds, or fails with a fault of the
program. -/
theorem Exec.Ensures.cases {α : Type} {ground : Ground} {x : Exec α} {m : Machine}
    {Q : α → Machine → Prop} (h : Exec.Ensures ground x m Q) :
    (∃ a m', x m = .ok a m' ∧ Q a m') ∨ ∃ fault m', x m = .error fault m' ∧
      m'.Breaks ground fault := by
  unfold Exec.Ensures at h
  split at h
  · next hx => exact .inl ⟨_, _, hx, h⟩
  · next hx => exact .inr ⟨_, _, hx, h.1, h.2⟩

/-- **A run goes on for any number of steps** without finding its code broken. -/
theorem Machine.Running.advance_sound {ground : Ground} {m : Machine}
    (h : m.Running ground) (steps : Nat) : (m.advance steps).Sound ground := by
  induction steps generalizing m with
  | zero => exact h
  | succ steps ih =>
    rcases (step_continues h).cases with ⟨result, m', hstep, hcontinues⟩ |
      ⟨fault, m', hstep, hbreaks⟩
    · cases result with
      | none =>
        rw [Machine.advance, hstep]
        exact ih hcontinues
      | some value =>
        rw [Machine.advance, hstep]
        exact hcontinues
    · rw [Machine.advance, hstep]
      exact hbreaks

end ScriptVM
