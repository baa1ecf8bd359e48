/-
# Lines that are run one after the other or at once

Two lines are compiled and run one after the other, or both at once.  The script of the first line
does what the script of both does first (`Pairing.opening`), and the script of the second line does
what it does then (`Pairing.closing`).

The functions of the first line and all earlier ones have the same numbers.  Those of the second
line come behind the script of the first one if there is such a script.  The closures have the same
numbers while the first line runs, and those that come later are one closure behind, because a
script of its own is one closure more.
-/
import ScriptVM.Proofs.Machine.Rebasing
import ScriptVM.Proofs.Machine.RenamedRuns
import ScriptVM.Proofs.Program.Continuing

namespace ScriptVM

/-! ## Functions that are the same -/

/-- A constant has the same meaning in two tables, each of which finds the functions at its own
place. -/
theorem Value.Restated.displaced {ρ : Renaming} {m n : Nat} {v : Value}
    (h : ∀ id, v = .functionRef id → ρ.function ⟨id.index + m⟩ ⟨id.index + n⟩) :
    (v.displaced m).Restated ρ (v.displaced n) := by
  cases v with
  | functionRef id => exact .functionRef (h id rfl)
  | _ => exact .same rfl

theorem Value.Restated.self {ρ : Renaming} {v : Value}
    (h : ∀ id, v = .functionRef id → ρ.function id id) : v.Restated ρ v := by
  have hzero := displaced (m := 0) (n := 0) h
  rwa [Value.displaced_zero] at hzero

namespace Function

variable {ρ : Renaming} {e f g : Function} {m n : Nat}

theorem SameButLines.refl (f : Function) : f.SameButLines f :=
  ⟨rfl, rfl, rfl, rfl, rfl, rfl, rfl⟩

theorem SameButLines.symm (h : f.SameButLines g) : g.SameButLines f :=
  ⟨h.name.symm, h.kind.symm, h.arity.symm, h.captureCount.symm, h.chunkName.symm, h.code.symm,
    h.constants.symm⟩

theorem SameButLines.trans (h : e.SameButLines f) (h' : f.SameButLines g) : e.SameButLines g :=
  ⟨h.name.trans h'.name, h.kind.trans h'.kind, h.arity.trans h'.arity,
    h.captureCount.trans h'.captureCount, h.chunkName.trans h'.chunkName, h.code.trans h'.code,
    h.constants.trans h'.constants⟩

/-- Functions that are the same but for their lines refer to the same functions. -/
theorem SameButLines.renamed (h : f.SameButLines g)
    (hrefers : ∀ id, .functionRef id ∈ f.chunk.constants.toList → ρ.function id id) :
    f.Renamed ρ g where
  name := h.name
  arity := h.arity
  captureCount := h.captureCount
  kind := h.kind
  chunkName := h.chunkName
  code := h.code
  constants := by
    rw [← h.constants]
    exact List.forall₂_same.2 fun v hv => .self fun id heq => hrefers id (heq ▸ hv)

/-- A function behind some functions is the same as it is behind others. -/
theorem renamed_of_displaced (hf : f.SameButLines (e.displaced m))
    (hg : g.SameButLines (e.displaced n))
    (hrefers : ∀ id, .functionRef id ∈ e.chunk.constants.toList →
      ρ.function ⟨id.index + m⟩ ⟨id.index + n⟩) : f.Renamed ρ g where
  name := hf.name.trans hg.name.symm
  arity := hf.arity.trans hg.arity.symm
  captureCount := hf.captureCount.trans hg.captureCount.symm
  kind := hf.kind.trans hg.kind.symm
  chunkName := hf.chunkName.trans hg.chunkName.symm
  code := hf.code.trans hg.code.symm
  constants := by
    rw [hf.constants, hg.constants, Array.toList_map, Array.toList_map, List.forall₂_map_left_iff,
      List.forall₂_map_right_iff]
    exact List.forall₂_same.2 fun v hv => .displaced fun id heq => hrefers id (heq ▸ hv)

/-- No function of a table refers to one from a number on. -/
def ReferBelow (n : Nat) (functions : Array Function) : Prop :=
  ∀ (i : Nat) (id : FunctionId),
    .functionRef id ∈ (functions.getD i default).chunk.constants.toList → id.index < n

end Function

/-! ## Looking functions up -/

namespace Program.Continues

variable {fs gs : Array Function} {f g h : Function} {a a' d d' : Code}
  {one two whole : Array Function} {i : Nat}

/-- Behind the first line its functions are found. -/
theorem one_shared (hlines : Continues fs gs f g h a a' d d' one two whole) (hi : i < fs.size) :
    (one.getD i default).SameButLines (fs.getD i default) := by
  have hsame := rel_getD_of_forall₂ hlines.first (.refl default) i
  rwa [show (fs.push f).getD i default = fs.getD i default by
    simp [Array.getD_eq_getD_getElem?, Array.getElem?_push, Nat.ne_of_lt hi]] at hsame

theorem one_script (hlines : Continues fs gs f g h a a' d d' one two whole) :
    (one.getD fs.size default).SameButLines f := by
  have hsame := rel_getD_of_forall₂ hlines.first (.refl default) fs.size
  rwa [show (fs.push f).getD fs.size default = f by simp [Array.getD_eq_getD_getElem?]] at hsame

theorem size_one (hlines : Continues fs gs f g h a a' d d' one two whole) :
    one.size = fs.size + 1 := by
  simpa using hlines.first.length_eq

/-- So they are behind the second line, and behind both. -/
theorem two_shared (hlines : Continues fs gs f g h a a' d d' one two whole) (hi : i < fs.size) :
    (two.getD i default).SameButLines (one.getD i default) := by
  have hsame := rel_getD_of_forall₂ hlines.second (.refl default) i
  have hlt : i < one.size := by
    rw [hlines.size_one]
    omega
  rwa [show (one ++ (gs.push g).map (Function.displaced (fs.size + 1))).getD i default
    = one.getD i default by
      rw [Array.getD_eq_getD_getElem?, Array.getElem?_append_left hlt, Array.getD_eq_getD_getElem?]]
    at hsame

/-- Behind both lines the functions from before are found. -/
theorem whole_shared (hlines : Continues fs gs f g h a a' d d' one two whole) (hi : i < fs.size) :
    (whole.getD i default).SameButLines (fs.getD i default) := by
  have hsame := rel_getD_of_forall₂ hlines.both (.refl default) i
  rwa [show ((fs ++ gs.map (Function.displaced fs.size)).push h).getD i default =
    fs.getD i default by
    rw [Array.getD_eq_getD_getElem?, Array.getElem?_push, if_neg (by simp; omega),
      Array.getElem?_append_left hi, Array.getD_eq_getD_getElem?]] at hsame

/-- The functions of the second line are found behind it and behind both. -/
theorem two_later (hlines : Continues fs gs f g h a a' d d' one two whole) (hi : i < gs.size) :
    (two.getD (fs.size + 1 + i) default).SameButLines
      ((gs.getD i default).displaced (fs.size + 1)) := by
  have hsame := rel_getD_of_forall₂ hlines.second (.refl default) (fs.size + 1 + i)
  rwa [show (one ++ (gs.push g).map (Function.displaced (fs.size + 1))).getD
    (fs.size + 1 + i) default
    = (gs.getD i default).displaced (fs.size + 1) by
      rw [Array.getD_eq_getD_getElem?, ← hlines.size_one,
        Array.getElem?_append_right (Nat.le_add_right _ _), Nat.add_sub_cancel_left,
        Array.getElem?_map, Array.getElem?_push, if_neg (Nat.ne_of_lt hi),
        Array.getElem?_eq_getElem hi, Array.getD_eq_getD_getElem?, Array.getElem?_eq_getElem hi]
      rfl] at hsame

/-- The script of the second line is found behind it. -/
theorem two_script (hlines : Continues fs gs f g h a a' d d' one two whole) :
    (two.getD (fs.size + 1 + gs.size) default).SameButLines (g.displaced (fs.size + 1)) := by
  have hsame := rel_getD_of_forall₂ hlines.second (.refl default) (fs.size + 1 + gs.size)
  rwa [show (one ++ (gs.push g).map (Function.displaced (fs.size + 1))).getD (fs.size + 1 + gs.size)
    default = g.displaced (fs.size + 1) by
      rw [Array.getD_eq_getD_getElem?, ← hlines.size_one,
        Array.getElem?_append_right (Nat.le_add_right _ _), Nat.add_sub_cancel_left,
        Array.getElem?_map, Array.getElem?_push, if_pos rfl]
      rfl] at hsame

/-- Behind both lines the functions of the second one are found. -/
theorem whole_later (hlines : Continues fs gs f g h a a' d d' one two whole) (hi : i < gs.size) :
    (whole.getD (fs.size + i) default).SameButLines ((gs.getD i default).displaced fs.size) := by
  have hsame := rel_getD_of_forall₂ hlines.both (.refl default) (fs.size + i)
  rwa [show ((fs ++ gs.map (Function.displaced fs.size)).push h).getD (fs.size + i) default
    = (gs.getD i default).displaced fs.size by
      rw [Array.getD_eq_getD_getElem?, Array.getElem?_push, if_neg (by simp; omega),
        Array.getElem?_append_right (Nat.le_add_right _ _), Nat.add_sub_cancel_left,
        Array.getElem?_map, Array.getElem?_eq_getElem hi, Array.getD_eq_getD_getElem?,
        Array.getElem?_eq_getElem hi]
      rfl] at hsame

/-- Behind both lines the script of both is found. -/
theorem whole_script (hlines : Continues fs gs f g h a a' d d' one two whole) :
    (whole.getD (fs.size + gs.size) default).SameButLines h := by
  have hsame := rel_getD_of_forall₂ hlines.both (.refl default) (fs.size + gs.size)
  rwa [show ((fs ++ gs.map (Function.displaced fs.size)).push h).getD
    (fs.size + gs.size) default = h by
    rw [Array.getD_eq_getD_getElem?, Array.getElem?_push, if_pos (by simp)]
    rfl] at hsame

end Program.Continues

/-! ## Pairings -/

namespace Pairing

/-- The first line by itself, and as the beginning of both: so many functions are shared, and the
closure of the script has a number. -/
def opening (shared more closures : Nat) : Pairing where
  function f f' := f = f' ∧ f.index < shared
  closure c c' := c = c' ∧ c.index ≠ closures
  function_iff := by
    rintro f _ g _ ⟨rfl, -⟩ ⟨rfl, -⟩
    exact Iff.rfl
  closure_iff := by
    rintro c _ d _ ⟨rfl, -⟩ ⟨rfl, -⟩
    exact Iff.rfl
  main := ⟨closures⟩
  main' := ⟨closures⟩
  script := ⟨shared⟩
  script' := ⟨shared + more⟩
  shift := 0

/-- The second line by itself, and as the rest of both: its own functions come behind one script
more, and so do the closures that are made from some number on. -/
def closing (shared more closures later shift : Nat) : Pairing where
  function f f' := f = f' ∧ f.index < shared ∨
    ∃ i < more, f = ⟨shared + 1 + i⟩ ∧ f' = ⟨shared + i⟩
  closure c c' := c = c' ∧ c.index < later ∧ c.index ≠ closures ∨
    ∃ i, c = ⟨later + 1 + i⟩ ∧ c' = ⟨later + i⟩
  function_iff := by
    rintro f f' g g' (⟨rfl, hf⟩ | ⟨i, hi, rfl, rfl⟩) (⟨rfl, hg⟩ | ⟨j, hj, rfl, rfl⟩)
    · exact Iff.rfl
    · constructor <;> rintro rfl <;> dsimp only at hf <;> omega
    · constructor <;> rintro rfl <;> dsimp only at hg <;> omega
    · simp
  closure_iff := by
    rintro c c' d d' (⟨rfl, hc, -⟩ | ⟨i, rfl, rfl⟩) (⟨rfl, hd, -⟩ | ⟨j, rfl, rfl⟩)
    · exact Iff.rfl
    · constructor <;> rintro rfl <;> dsimp only at hc <;> omega
    · constructor <;> rintro rfl <;> dsimp only at hd <;> omega
    · simp
  main := ⟨later⟩
  main' := ⟨closures⟩
  script := ⟨shared + 1 + more⟩
  script' := ⟨shared + more⟩
  shift := shift

end Pairing

/-- The operands of an instruction for constants that are the same are so for constants that are the
same up to a renaming. -/
theorem Opcode.Renumbers.restate {ρ : Renaming} {op : Opcode} {K K' L : Array Value}
    {operands operands' : List UInt8} (h : op.Renumbers (· = ·) K K' operands operands')
    (hsame : ∀ {index : Nat} {v : Value}, K[index]? = some v →
      ∃ w, L[index]? = some w ∧ w.Restated ρ v) :
    op.Renumbers (Value.Restated ρ) L K' operands operands' := by
  cases h with
  | same hrefers => exact .same hrefers
  | constant hrefers hv hv' heq =>
    subst heq
    obtain ⟨w, hw, hrestated⟩ := hsame hv
    exact .constant hrefers hw hv' hrestated

namespace Program.Continues

variable {fs gs : Array Function} {f g h : Function} {a a' d d' : Code}
  {one two whole : Array Function} {closures later shift : Nat} {heap heap' : Heap}

/-- While the first line runs the functions are the same. -/
theorem opening_renamed (hlines : Continues fs gs f g h a a' d d' one two whole)
    (hone : Function.ReferBelow fs.size one) {x x' : FunctionId}
    (hx : (Pairing.opening fs.size gs.size closures).function x x') :
    (one.getD x.index default).Renamed (Pairing.opening fs.size gs.size closures).toRenaming
      (whole.getD x'.index default) := by
  obtain ⟨rfl, hlt⟩ := hx
  exact ((hlines.one_shared hlt).trans (hlines.whole_shared hlt).symm).renamed
    fun id hid => ⟨rfl, hone _ id hid⟩

/-- While the second line runs the functions are the same. -/
theorem closing_renamed (hlines : Continues fs gs f g h a a' d d' one two whole)
    (hone : Function.ReferBelow fs.size one)
    (htwo : Function.ReferBelow (fs.size + 1 + gs.size) two) {x x' : FunctionId}
    (hx : (Pairing.closing fs.size gs.size closures later shift).function x x') :
    (two.getD x.index default).Renamed
      (Pairing.closing fs.size gs.size closures later shift).toRenaming
      (whole.getD x'.index default) := by
  obtain ⟨rfl, hlt⟩ | ⟨i, hi, rfl, rfl⟩ := hx
  · have hsame := hlines.two_shared hlt
    refine ((hsame.trans (hlines.one_shared hlt)).trans (hlines.whole_shared hlt).symm).renamed
      fun id hid => .inl ⟨rfl, hone x.index id ?_⟩
    exact hsame.constants ▸ hid
  · refine Function.renamed_of_displaced (hlines.two_later hi) (hlines.whole_later hi)
      fun id hid => .inr ⟨id.index, ?_, ?_, ?_⟩
    · have hbelow := htwo (fs.size + 1 + i) ⟨id.index + (fs.size + 1)⟩ (by
        rw [(hlines.two_later hi).constants, Array.toList_map]
        exact List.mem_map.2 ⟨_, hid, rfl⟩)
      dsimp only at hbelow
      omega
    · exact congrArg FunctionId.mk (Nat.add_comm _ _)
    · exact congrArg FunctionId.mk (Nat.add_comm _ _)

/-- The script of the first line does what the script of both does first. -/
theorem opening_aligned (hlines : Continues fs gs f g h a a' d d' one two whole)
    (hone : Function.ReferBelow fs.size one) (hheap : heap.functions = one)
    (hheap' : heap'.functions = whole) :
    (Pairing.opening fs.size gs.size closures).Aligned heap heap' a := by
  have hscript : (heap.function ⟨fs.size⟩).SameButLines f := by
    rw [Heap.function, hheap]
    exact hlines.one_script
  have hscript' : (heap'.function ⟨fs.size + gs.size⟩).SameButLines h := by
    rw [Heap.function, hheap']
    exact hlines.whole_script
  -- The common piece starts both scripts; what is behind it is the end of the first, and the second
  -- line in the other.
  refine ⟨⟨scriptEnd, ?_⟩, fun i hi => ?_, fun i hi => ?_, [], a',
    d'.bytes ++ scriptEnd, ?_, rfl, ?_⟩
  · exact hscript.code ▸ hlines.code
  · obtain ⟨i', -, hpair⟩ := exists_mem_of_forall₂ hlines.pairs hi
    refine hpair.formed.transfer fun index id x hid hx => ?_
    obtain ⟨hlt, rfl⟩ := Array.getElem?_eq_some_iff.1 hx
    have hsame := hlines.one_shared hlt
    refine ⟨id, one.getD id.index default, ?_, ?_, ?_⟩
    · exact hscript.constants ▸ hid
    · rw [hheap, Array.getD_eq_getD_getElem?,
        Array.getElem?_eq_getElem (by rw [hlines.size_one]; omega)]
      rfl
    · rw [hsame.captureCount, Array.getD_eq_getD_getElem?, hx]
      rfl
  · obtain ⟨i', -, hpair⟩ := exists_mem_of_forall₂ hlines.pairs hi
    exact hpair.spares
  · rw [List.nil_append, ← List.append_assoc]
    exact hscript'.code ▸ hlines.codes
  · refine hlines.pairs.imp fun i i' hpair => ⟨hpair.op, ?_⟩
    show i.op.Renumbers _ (heap.function ⟨fs.size⟩).chunk.constants
      (heap'.function ⟨fs.size + gs.size⟩).chunk.constants _ _
    rw [hscript'.constants]
    refine hpair.operands.restate fun {index v} hv => ⟨v, hscript.constants ▸ hv, .self ?_⟩
    rintro id rfl
    refine ⟨rfl, hone fs.size id ?_⟩
    rw [hlines.one_script.constants]
    exact List.mem_of_getElem? (Array.getElem?_toList.trans hv)

/-- The script of the second line does what the script of both does then. -/
theorem closing_aligned (hlines : Continues fs gs f g h a a' d d' one two whole)
    (htwo : Function.ReferBelow (fs.size + 1 + gs.size) two) (hheap : heap.functions = two)
    (hheap' : heap'.functions = whole) :
    (Pairing.closing fs.size gs.size closures later a.extent).Aligned heap heap' d := by
  have hscript : (heap.function ⟨fs.size + 1 + gs.size⟩).SameButLines
    (g.displaced (fs.size + 1)) := by
    rw [Heap.function, hheap]
    exact hlines.two_script
  have hscript' : (heap'.function ⟨fs.size + gs.size⟩).SameButLines h := by
    rw [Heap.function, hheap']
    exact hlines.whole_script
  -- A constant behind the shared functions is one behind one function more.
  have hconstant : ∀ {index : Nat} {v : Value},
      (g.chunk.constants.map (Value.displaced fs.size))[index]? = some v → ∃ u,
        g.chunk.constants[index]? = some u ∧ v = u.displaced fs.size ∧
          (heap.function ⟨fs.size + 1 + gs.size⟩).chunk.constants[index]?
            = some (u.displaced (fs.size + 1)) := by
    intro index v hv
    rw [Array.getElem?_map] at hv
    obtain ⟨u, hu, rfl⟩ := Option.map_eq_some_iff.1 hv
    refine ⟨u, hu, rfl, ?_⟩
    rw [hscript.constants, Array.getElem?_map, hu]
    rfl
  -- The second line refers to functions of its own only.
  have hrefers : ∀ {index : Nat} {id : FunctionId},
      g.chunk.constants[index]? = some (.functionRef id) → id.index < gs.size := by
    intro index id hid
    have hbelow := htwo (fs.size + 1 + gs.size) ⟨id.index + (fs.size + 1)⟩ (by
      rw [hlines.two_script.constants, Array.toList_map]
      exact List.mem_map.2 ⟨_, List.mem_of_getElem? (Array.getElem?_toList.trans hid), rfl⟩)
    dsimp only at hbelow
    omega
  refine ⟨⟨scriptEnd, ?_⟩, fun i hi => ?_, fun i hi => ?_, a'.bytes, d', scriptEnd, ?_, ?_, ?_⟩
  · exact hscript.code ▸ hlines.code'
  · obtain ⟨i', -, hpair⟩ := exists_mem_of_forall₂ hlines.pairs' hi
    refine hpair.formed.transfer fun index id x hid hx => ?_
    obtain ⟨u, hu, heq, hget⟩ := hconstant hid
    obtain ⟨j, rfl⟩ : ∃ j, u = .functionRef ⟨j⟩ := by
      cases u <;> first | exact ⟨_, rfl⟩ | cases heq
    obtain rfl : id = ⟨j + fs.size⟩ := Value.functionRef.inj heq
    have hj : j < gs.size := hrefers hu
    have hlater := hlines.two_later hj
    refine ⟨⟨j + (fs.size + 1)⟩, two.getD (fs.size + 1 + j) default, hget, ?_, ?_⟩
    · have hlt : fs.size + 1 + j < two.size := by
        have hlength := hlines.second.length_eq
        simp only [Array.length_toList, Array.size_append, Array.size_map, Array.size_push,
          hlines.size_one] at hlength
        omega
      rw [hheap, Array.getD_eq_getD_getElem?, Array.getElem?_eq_getElem hlt]
      exact (congrArg (two[·]?) (Nat.add_comm _ _)).trans (Array.getElem?_eq_getElem hlt)
    · rw [hlater.captureCount]
      rw [Array.getElem?_append_right (Nat.le_add_left _ _), Nat.add_sub_cancel, Array.getElem?_map,
        Array.getElem?_eq_getElem hj] at hx
      obtain rfl := Option.some.inj hx
      rw [Array.getD_eq_getD_getElem?, Array.getElem?_eq_getElem hj]
      rfl
  · obtain ⟨i', -, hpair⟩ := exists_mem_of_forall₂ hlines.pairs' hi
    exact hpair.spares
  · exact hscript'.code ▸ hlines.codes
  · exact (Code.extent_eq_of_forall₂ hlines.pairs fun _ _ hpair => hpair.operands.length_eq).symm
  · refine hlines.pairs'.imp fun i i' hpair => ⟨hpair.op, ?_⟩
    show i.op.Renumbers _ (heap.function ⟨fs.size + 1 + gs.size⟩).chunk.constants
      (heap'.function ⟨fs.size + gs.size⟩).chunk.constants _ _
    rw [hscript'.constants]
    refine hpair.operands.restate fun {index v} hv => ?_
    obtain ⟨u, hu, rfl, hget⟩ := hconstant hv
    refine ⟨_, hget, .displaced ?_⟩
    rintro id rfl
    exact .inr ⟨id.index, hrefers hu, congrArg FunctionId.mk (Nat.add_comm _ _),
      congrArg FunctionId.mk (Nat.add_comm _ _)⟩

end Program.Continues

end ScriptVM
