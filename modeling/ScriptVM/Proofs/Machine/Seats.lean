/-
# Where calls find their slots

A call counts its slots from its callee, which lies below the arguments on top of the stack.  So the
call that an instruction starts has only slots that the instruction has taken off the stack, or that
lie above them (`Exec.Seats`); the slots that the instruction keeps belong to the calls that were
there before.

This holds of any code whatsoever.  Main statement: `Machine.Running.exists_calls`.
-/
import ScriptVM.Proofs.Machine.Pointer
import ScriptVM.Proofs.Machine.Variables

namespace ScriptVM

namespace Exec

variable {α β : Type} {d e : Nat} {x : Exec α} {f : α → Exec β} {m m' : Machine}

/-! ## Where calls are started -/

/-- A part of a run that starts calls on the top `d` values only. -/
class Seats (d : Nat) (x : Exec α) : Prop where
  /-- If it succeeds and there is a new call behind it, no lower slot belongs to that call. -/
  slots : ∀ {m a m' g rest}, x m = .ok a m' → m'.calls = g :: rest →
    m.calls.length ≤ rest.length → m.values.length ≤ g.slots + d

theorem Seats.mono (h : Seats d x) (hle : d ≤ e) : Seats e x where
  slots hrun hcalls hlength :=
    Nat.le_trans (h.slots hrun hcalls hlength) (Nat.add_le_add_left hle _)

instance (priority := low) [Starts 0 x] : Seats d x where
  slots {m a m' g rest} hrun hcalls hlength := by
    have hsame := Starts.eq (x := x) m
    rw [after_of_ok hrun, hcalls] at hsame
    rw [← hsame, List.length_cons] at hlength
    omega

/-- What comes after a part that starts no call and changes the number of values. -/
theorem Seats.after [Starts 0 x] {k n : Nat}
    (hx : ∀ {m a m'}, x m = .ok a m' → m.values.length + n ≤ m'.values.length + k)
    (hf : ∀ a, Seats e (f a)) (hle : e + k ≤ d + n) : Seats d (x >>= f) where
  slots {m b m' g rest} hrun hcalls hlength := by
    obtain ⟨a, m₁, hrun, hnext⟩ := exists_of_bind_ok hrun
    have hsame := Starts.eq (x := x) m
    rw [after_of_ok hrun] at hsame
    have hvalues := hx hrun
    have hslots := (hf a).slots hnext hcalls (by rwa [hsame])
    omega

/-- What comes after a part that leaves the stack and the calls alone. -/
theorem Seats.after_still [Still x] [Starts 0 x] (hf : ∀ a, Seats d (f a)) : Seats d (x >>= f) := by
  refine .after (k := 0) (n := 0) (fun hrun => ?_) hf (Nat.le_refl _)
  exact Nat.le_of_eq (congrArg List.length (Still.same hrun).1).symm

/-- What comes after a push may use that value as well. -/
theorem Seats.after_push {v : Value} {f : Unit → Exec β} (hf : ∀ u, Seats (d + 1) (f u)) :
    Seats d (push v >>= f) := by
  refine .after (k := 0) (n := 1) (fun hrun => ?_) hf (Nat.le_refl _)
  exact Nat.le_of_eq (congrArg List.length (push_ok hrun).values).symm

/-- What comes after a pop. -/
theorem Seats.after_pop {f : Value → Exec β} (hf : ∀ v, Seats d (f v)) :
    Seats (d + 1) (pop >>= f) := by
  refine .after (k := 1) (n := 0) (fun hrun => ?_) hf (Nat.le_refl _)
  exact Nat.le_of_eq (congrArg List.length (pop_ok hrun).1)

/-- What comes after a number of values are taken. -/
theorem Seats.after_popMany {n : Nat} {f : List Value → Exec β}
    (hf : ∀ values, Seats d (f values)) :
    Seats (d + n) (popMany n >>= f) := by
  refine .after (k := n) (n := 0) (fun {m a m'} hrun => ?_) hf (Nat.le_refl _)
  unfold popMany at hrun
  split at hrun
  · next hle =>
    injection hrun with _ hm
    subst hm
    rw [m.size_stack] at hle
    have hcut : m.values = m.values.take n ++ m.values.drop n := (List.take_append_drop n _).symm
    have hdown := Stack.down_truncate hcut (n := m.stack.size - n)
      (by rw [m.size_stack, List.length_drop])
    have hvalues : Machine.values { m with stack := m.stack.truncate (m.stack.size - n) }
        = m.values.drop n := hdown
    rw [hvalues, List.length_drop]
    omega
  · cases hrun

/-- What comes after the callee is replaced. -/
theorem Seats.after_setCallee {arguments : UInt8} {v : Value} {f : Unit → Exec β}
    (hf : ∀ u, Seats d (f u)) : Seats d (setCallee arguments v >>= f) := by
  refine .after (k := 0) (n := 0) (fun {m a m'} hrun => ?_) hf (Nat.le_refl _)
  obtain ⟨slot, m₂, hslot, hset⟩ := exists_of_bind_ok hrun
  obtain ⟨hvalues, -⟩ := Still.same hslot
  unfold setSlot at hset
  split at hset
  · injection hset with _ hm
    subst hm
    rw [← hvalues, ← m₂.size_stack, ← Machine.size_stack]
    simp
  · cases hset

theorem Seats.bind_raise {e : RuntimeError} : Seats d (raise e >>= f) where
  slots h := by
    obtain ⟨a, m₁, hraise, -⟩ := exists_of_bind_ok h
    exact absurd hraise not_raise_ok

/-- The result of a part may be given in another form. -/
theorem Seats.bind_pure (hx : Seats d x) (g : α → β) : Seats d (x >>= fun a => pure (g a)) where
  slots hrun := by
    obtain ⟨a, m₁, hrun, hpure⟩ := exists_of_bind_ok hrun
    injection hpure with _ hm
    exact hx.slots (hm ▸ hrun)

/-- A call has its callee below the arguments. -/
instance (closure : ClosureId) (arguments : UInt8) (r : Resume) :
    Seats (arguments.toNat + 1) (enter closure arguments r) := by
  unfold enter
  refine .after_still fun heap => ?_
  dsimp only
  split
  · exact .bind_raise
  · refine ⟨fun {m a m' g rest} hrun hcalls hlength => ?_⟩
    obtain ⟨slot, m₁, hslot, hpush⟩ := exists_of_bind_ok hrun
    obtain ⟨m₂, m₃, hget, hslot⟩ := exists_of_bind_ok hslot
    injection hget with hm₂ hm₃
    subst hm₂ hm₃
    dsimp only at hslot
    split at hslot
    · injection hslot with hslot hm₁
      subst hslot hm₁
      unfold pushFrame at hpush
      split at hpush
      · next hsize =>
        injection hpush with _ hm
        subst hm
        have hhead : g = ⟨closure, 0, m.stack.size - (arguments.toNat + 1), r⟩ :=
          (List.cons.inj (hcalls.symm.trans (Stack.down_pushOf hsize))).1
        rw [hhead, ← m.size_stack]
        dsimp only
        omega
      · cases hpush
    · exact absurd hslot not_defect_ok

instance (closure : ClosureId) (receiver : Value) (r : Resume) :
    Seats 0 (evaluate closure receiver r) := by
  unfold evaluate
  refine .after_still fun m => ?_
  dsimp only
  split
  · exact .bind_raise
  · exact .after_push fun _ => inferInstanceAs (Seats ((0 : UInt8).toNat + 1) (enter closure 0 r))

instance (purpose : Purpose) (done : String) (pieces : List Piece) :
    Seats 0 (describe purpose done pieces) := by
  induction pieces generalizing done with
  | nil =>
    unfold describe
    infer_instance
  | cons piece rest ih =>
    cases piece with
    | text s => exact ih (done ++ s)
    | leaf value =>
      unfold describe
      refine .after_still fun heap => ?_
      split
      · exact ih _
      · infer_instance

instance (function : Native) (arguments : UInt8) :
    Seats (arguments.toNat + 1) (callNative function arguments) := by
  unfold callNative
  dsimp only
  split
  · exact .bind_raise
  · rw [Nat.add_comm]
    refine .after_popMany fun values => .after_pop (d := 0) fun _ => .after_still fun m => ?_
    split <;> infer_instance

instance (id : ClassId) (arguments : UInt8) :
    Seats (arguments.toNat + 1) (callClass id arguments) := by
  unfold callClass
  refine .after_still fun instanceId => .after_setCallee fun _ => .after_still fun heap => ?_
  split <;> infer_instance

instance (callee : Value) (arguments : UInt8) :
    Seats (arguments.toNat + 1) (callValue callee arguments) := by
  unfold callValue
  split
  · infer_instance
  · infer_instance
  · exact .after_setCallee fun _ => inferInstance
  · infer_instance
  · infer_instance
  · refine .after_still fun heap => ?_
    split <;> infer_instance
  · infer_instance

instance (id : ClassId) (name : String) (arguments : UInt8) :
    Seats (arguments.toNat + 1) (invokeFrom id name arguments) := by
  unfold invokeFrom
  refine .after_still fun heap => ?_
  split <;> infer_instance

instance (value : Value) (arguments : UInt8) :
    Seats (arguments.toNat + 1) (callInstead value arguments) :=
  .after_setCallee fun _ => inferInstance

instance (name : String) (arguments : UInt8) :
    Seats (arguments.toNat + 1) (invoke name arguments) := by
  unfold invoke
  refine .after_still fun callee => ?_
  split
  · refine .after_still fun heap => ?_
    split
    · infer_instance
    · split
      · exact Seats.mono (d := 0) inferInstance (Nat.zero_le _)
      · infer_instance
  · infer_instance

instance (id : InstanceId) (name : String) : Seats 0 (readProperty id name) := by
  unfold readProperty
  refine .after_still fun heap => ?_
  split
  · infer_instance
  · split
    · infer_instance
    · split <;> infer_instance

instance (superclass : ClassId) (receiver : InstanceId) (name : String) :
    Seats 0 (readSuperProperty superclass receiver name) := by
  unfold readSuperProperty
  refine .after_still fun heap => ?_
  dsimp only
  split
  · infer_instance
  · split <;> infer_instance

instance : Seats 1 print :=
  .after_pop (d := 0) fun _ => inferInstance

/-- The use of a result starts calls on the values that wait for it. -/
theorem resume_seats (v : Value) (r : Resume) : Seats r.waiting (resume v r) := by
  cases r with
  | finish => exact inferInstanceAs (Seats 0 (pure (some v)))
  | caller => exact .bind_pure (inferInstanceAs (Seats 0 (push v))) _
  | superProperty => exact .bind_pure (inferInstanceAs (Seats 0 (push v))) _
  | property => exact .bind_pure (inferInstanceAs (Seats 1 (replaceTop v))) _
  | invocation arguments =>
    exact .bind_pure (inferInstanceAs (Seats (arguments.toNat + 1) (callInstead v arguments))) _
  | description pending =>
    exact .after_still fun _ => .bind_pure (inferInstanceAs (Seats 0 (describe _ _ _))) _

/-! ## Instructions that start calls -/

/-- What comes after a class is taken. -/
theorem Seats.after_popClass {f : ClassId → Exec β} (hf : ∀ id, Seats d (f id)) :
    Seats (d + 1) (popClass >>= f) := by
  refine .after (k := 1) (n := 0) (fun hrun => ?_) hf (Nat.le_refl _)
  obtain ⟨v, m₁, hpop, hclass⟩ := exists_of_bind_ok hrun
  split at hclass
  · injection hclass with _ hm
    exact hm ▸ Nat.le_of_eq (congrArg List.length (pop_ok hpop).1)
  · exact absurd hclass not_defect_ok

variable {g : Frame} {rest above : List Frame} {ip n : Nat}

/-- A part that goes on after it has read a byte. -/
theorem readByte_then {f : UInt8 → Exec β} {b : β} (hcalls : m.calls = g :: rest)
    (hrun : (readByte >>= f) (m.moveTo ip) = .ok b m') :
    ∃ byte, (chunkOf m g).code[ip]? = some byte ∧ f byte (m.moveTo (ip + 1)) = .ok b m' := by
  rcases readByte_cases hcalls ip with hbroken | ⟨byte, hbyte, hread⟩
  · exact absurd (hbroken.bind f) (not_breaks_of_ok hrun)
  · exact ⟨byte, hbyte, ok_after hread hrun⟩

/-- A part that goes on after it has read something of the code. -/
theorem Reads.ok_after {b : β} (hx : Reads n x) (hcalls : m.calls = g :: rest)
    (hrun : (x >>= f) (m.moveTo ip) = .ok b m') :
    ∃ a, x (m.moveTo ip) = .ok a (m.moveTo (ip + n)) ∧ f a (m.moveTo (ip + n)) = .ok b m' := by
  obtain ⟨a, m₁, hread, hnext⟩ := exists_of_bind_ok hrun
  have hmoved := hx _ _ _ (Machine.calls_moveTo hcalls ip)
  rw [hread] at hmoved
  obtain rfl : m₁ = m.moveTo (ip + n) := hmoved.trans (Machine.moveTo_moveTo ..)
  exact ⟨a, hread, hnext⟩

/-- A call that a part starts, where the innermost call has come to another offset. -/
theorem Seats.slots_moveTo {a : α} (h : Seats d x) (hcalls : m.calls = g :: rest)
    (hrun : x (m.moveTo ip) = .ok a m') {f : Frame} (hcalls' : m'.calls = f :: above)
    (hlength : m.calls.length ≤ above.length) : m.stack.size ≤ f.slots + d := by
  rw [m.size_stack]
  refine h.slots (m := m.moveTo ip) hrun hcalls' ?_
  rw [Machine.calls_moveTo hcalls]
  rwa [hcalls] at hlength

/-- **An instruction that calls something** takes the slots of the call it starts off the stack. -/
theorem slots_of_calling {op : Opcode} {result : Option Value} {f : Frame}
    (hcalls : m.calls = g :: rest) (hop : 0 < op.starts)
    (hrun : execute op (m.moveTo (g.ip + 1)) = .ok result m') (hcalls' : m'.calls = f :: above)
    (hlength : m.calls.length ≤ above.length) : m.stack.size ≤ f.slots + m.taken op := by
  -- Only these instructions can start a call, which begins at the lowest value that they take.
  cases op
  case call =>
    obtain ⟨n, hbyte, hnext⟩ := readByte_then hcalls (proceed_ok hrun)
    have htaken : m.taken .call = n.toNat + 1 :=
      congrArg (· + 1) (Machine.operand_eq (k := 0) hcalls hbyte)
    rw [htaken]
    refine Seats.slots_moveTo ?_ hcalls hnext hcalls' hlength
    exact .after_still fun _ => inferInstance
  case invoke =>
    obtain ⟨name, -, hnext⟩ := reads_readName.ok_after hcalls (proceed_ok hrun)
    obtain ⟨n, hbyte, hnext⟩ := readByte_then hcalls hnext
    have htaken : m.taken .invoke = n.toNat + 1 :=
      congrArg (· + 1) (Machine.operand_eq (k := 1) hcalls hbyte)
    rw [htaken]
    exact Seats.slots_moveTo inferInstance hcalls hnext hcalls' hlength
  case invokeSuper =>
    obtain ⟨name, -, hnext⟩ := reads_readName.ok_after hcalls (proceed_ok hrun)
    obtain ⟨n, hbyte, hnext⟩ := readByte_then hcalls hnext
    have htaken : m.taken .invokeSuper = n.toNat + 1 + 1 :=
      congrArg (· + 2) (Machine.operand_eq (k := 1) hcalls hbyte)
    rw [htaken]
    refine Seats.slots_moveTo ?_ hcalls hnext hcalls' hlength
    exact .after_popClass fun _ => inferInstance
  case arrayLiteral =>
    obtain ⟨n, hbyte, hnext⟩ := readByte_then hcalls (proceed_ok hrun)
    have htaken : m.taken .arrayLiteral = 0 + n.toNat :=
      (Machine.operand_eq (k := 0) hcalls hbyte).trans (Nat.zero_add _).symm
    rw [htaken]
    refine Seats.slots_moveTo ?_ hcalls hnext hcalls' hlength
    refine .after_popMany fun elements => .after_still fun m => ?_
    split
    · infer_instance
    · -- The class and its two arguments are pushed before they are taken.
      refine .after_push fun _ => .after_push fun _ => .after_push fun _ => ?_
      exact inferInstanceAs (Seats ((2 : UInt8).toNat + 1) (callValue _ 2))
  case getProperty =>
    obtain ⟨name, -, hnext⟩ := reads_readName.ok_after hcalls (proceed_ok hrun)
    refine Seats.slots_moveTo (d := 1) ?_ hcalls hnext hcalls' hlength
    refine .after_still fun value => ?_
    split
    · exact Seats.mono (d := 0) inferInstance (Nat.zero_le _)
    · infer_instance
  case getSuper =>
    obtain ⟨name, -, hnext⟩ := reads_readName.ok_after hcalls (proceed_ok hrun)
    refine Seats.slots_moveTo (d := 2) ?_ hcalls hnext hcalls' hlength
    refine .after_popClass (d := 1) fun superclass => .after_pop (d := 0) fun target => ?_
    split <;> infer_instance
  case print =>
    have hprint : Seats 1 print := inferInstance
    exact hprint.slots_moveTo hcalls (proceed_ok hrun) hcalls' hlength
  all_goals exact absurd hop (by decide)

end Exec

/-! ## One step -/

theorem eq_singleton_of_mem {α : Type} {l : List α} {a : α} (ha : a ∈ l) (h : l.length ≤ 1) :
    l = [a] := by
  match l, h with
  | [b], _ => rw [List.mem_singleton.1 ha]

namespace Machine

variable {m m' : Machine} {f : Frame} {rest : List Frame} {ground : Ground}

/-- Behind a call that is left are the slots below its callee. -/
theorem length_values_unwound {slots : Nat} (h : slots < m.stack.size) :
    (m.unwound slots).values.length = slots := by
  have hsize : m.stack.items.size = m.stack.size := rfl
  rw [← size_stack]
  show ((m.stack.items.pop).take slots).size = slots
  simp only [Array.take_eq_extract, Array.size_extract, Array.size_pop, hsize]
  omega

/-- **The calls behind a step** that goes on: new ones have only slots that the instruction does not
keep, and the innermost one is still there, unless it was left and so were its slots. -/
theorem Running.exists_calls (h : m.Running ground) (hcalls : m.calls = f :: rest)
    (hstep : Exec.step m = .ok none m') :
    ∃ above below, m'.calls = above ++ below ∧ (∀ g ∈ above, m.kept ≤ g.slots) ∧
      ((∃ ip, below = { f with ip } :: rest) ∨ below = rest ∧ m.kept ≤ f.slots) := by
  obtain ⟨W, f', rest', bp, X, below, st, -, hruns⟩ := h
  obtain ⟨rfl, rfl⟩ := List.cons.inj (hruns.calls.symm.trans hcalls)
  obtain ⟨op, operands, next, hopcode, hbytes, hexecute, hleads⟩ := hruns.next
  have hop : (Exec.chunkOf m f').opcodeAt? f'.ip = some op := by
    rw [← hopcode, opcode?, byte?, top?_of_calls hcalls]
    rfl
  have hbreaks := Exec.not_breaks_of_ok hstep
  have hkept := kept_eq hopcode
  have hmoved : ∀ {ip : Nat}, m' = m.moveTo ip →
      ∃ above below, m'.calls = above ++ below ∧ (∀ g ∈ above, m.kept ≤ g.slots) ∧
        ((∃ ip, below = { f' with ip } :: rest') ∨ below = rest' ∧ m.kept ≤ f'.slots) := by
    rintro ip rfl
    exact ⟨[], _, calls_moveTo hcalls ip, by simp, .inl ⟨ip, rfl⟩⟩
  by_cases hplain : op ∉ [Opcode.ret, .jump, .jumpIfFalse, .loop]
  · -- The call in progress stays, and at most one new call stands above it.
    obtain ⟨length, above, -, hle, hafter⟩ := Exec.step_advances hcalls hop hplain hbreaks
    rw [Exec.after_of_ok hstep] at hafter
    refine ⟨above, _, hafter, fun g hg => ?_, .inl ⟨_, rfl⟩⟩
    rw [Exec.allowance_of_ok hstep] at hle
    have hone := Nat.le_trans hle op.starts_le
    obtain rfl := eq_singleton_of_mem hg hone
    rw [hexecute] at hstep
    have hslots := Exec.slots_of_calling hcalls hle hstep hafter (by simp [hcalls])
    omega
  · have hmem : op ∈ [Opcode.ret, .jump, .jumpIfFalse, .loop] := not_not.1 hplain
    simp only [List.mem_cons, List.not_mem_nil, or_false] at hmem
    rcases hmem with rfl | rfl | rfl | rfl
    · -- A return leaves the innermost call and its slots; going on in the caller may start another.
      have hsize : f'.slots < m.stack.size := by
        rw [m.size_stack, hruns.typed.length_values, hruns.slots, List.length_append,
          List.length_cons]
        omega
      have hkept : m.kept = f'.slots - f'.resume.waiting := by
        have hleft : m.left = f'.slots - f'.resume.waiting := by
          rw [left, top?_of_calls hcalls]
        rw [hkept, taken, hleft]
        omega
      obtain ⟨value, hresume⟩ := Exec.step_ret hcalls hop hbreaks
      obtain ⟨above, hle, hafter⟩ := Exec.step_leaves hcalls hop hbreaks
      rw [Exec.after_of_ok hstep] at hafter
      rw [Exec.allowance_of_ok hstep] at hle
      refine ⟨above, rest', hafter, fun g hg => ?_, .inr ⟨rfl, by omega⟩⟩
      obtain rfl := eq_singleton_of_mem hg hle
      have hseats := (Exec.resume_seats value f'.resume).slots (hresume.symm.trans hstep) hafter
        (by simp [calls_unwound hcalls])
      rw [length_values_unwound hsize] at hseats
      omega
    · obtain ⟨_, -, heq⟩ := Exec.step_jump hcalls hop hbreaks
      injection hstep.symm.trans heq with _ hm
      exact hmoved hm
    · obtain ⟨_, _, -, -, heq⟩ := Exec.step_jumpIfFalse hcalls hop hbreaks
      injection hstep.symm.trans heq with _ hm
      exact hmoved hm
    · obtain ⟨_, -, -, heq⟩ := Exec.step_loop hcalls hop hbreaks
      injection hstep.symm.trans heq with _ hm
      exact hmoved hm

end Machine

end ScriptVM
