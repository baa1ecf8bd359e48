/-
# Sources that go on, behind other functions

A source and one that goes on on the next line are compiled behind functions that are there already:
at once, or one after the other.  The functions of the second source get lower numbers in the first
case, because there is no script of the first source in front of them (`Program.Continues`).

Main statement: `Program.compileAfter_newline`.
-/
import ScriptVM.Proofs.Program.Joining

namespace ScriptVM

/-! ## Moving behind other functions -/

/-- Values that are displaced twice are displaced by the sum. -/
theorem Value.displaced_displaced (m n : Nat) (v : Value) :
    (v.displaced m).displaced n = v.displaced (m + n) := by
  cases v with
  | functionRef id => exact congrArg (fun i => functionRef ⟨i⟩) (Nat.add_assoc id.index m n)
  | _ => rfl

/-- Functions that are displaced twice are displaced by the sum. -/
theorem Function.displaced_displaced (m n : Nat) (f : Function) :
    (f.displaced m).displaced n = f.displaced (m + n) := by
  have hvalues : (Value.displaced n) ∘ (Value.displaced m) = Value.displaced (m + n) :=
    funext (Value.displaced_displaced m n)
  simp [Function.displaced, Chunk.displaced, hvalues]

/-- Functions that are the same behind some functions are so behind more. -/
theorem Function.map_displaced_map (functions : Array Function) (m n : Nat) :
    (functions.map (displaced m)).map (displaced n) = functions.map (displaced (m + n)) := by
  rw [Array.map_map]
  exact congrArg (functions.map ·) (funext (Function.displaced_displaced m n))

/-- An instruction is as well formed for other constants and functions, if these have functions with
as many captured variables. -/
theorem Instruction.Formed.transfer {functions functions' : Array Function}
    {constants constants' : Array Value} {i : Instruction} (h : i.Formed functions constants)
    (hsame : ∀ (index : Nat) id f, constants[index]? = some (.functionRef id) →
      functions[id.index]? = some f → ∃ id' f', constants'[index]? = some (.functionRef id') ∧
        functions'[id'.index]? = some f' ∧ f'.captureCount = f.captureCount) :
    i.Formed functions' constants' := by
  rw [Formed] at h ⊢
  split at h
  · next hop =>
    rw [if_pos hop]
    obtain ⟨index, rest, id, f, hoperands, hid, hf, hlength⟩ := h
    obtain ⟨id', f', hid', hf', hcount⟩ := hsame _ id f hid hf
    exact ⟨index, rest, id', f', hoperands, hid', hf', hcount ▸ hlength⟩
  · next hop =>
    rw [if_neg hop]
    exact h

/-- Instructions that do the same do so behind other functions. -/
theorem Instruction.Pairs.behind {functions : Array Function} {K K' : Array Value}
    {i i' : Instruction} (earlier : Array Function) (h : i.Pairs functions K K' i') :
    i.Pairs (earlier ++ functions.map (Function.displaced earlier.size))
      (K.map (Value.displaced earlier.size)) (K'.map (Value.displaced earlier.size)) i' where
  op := h.op
  operands := by
    have hoperands := h.operands
    generalize i.operands = operands at hoperands ⊢
    generalize i'.operands = operands' at hoperands ⊢
    cases hoperands with
    | same hrefers => exact .same hrefers
    | constant hrefers hv hv' hsame =>
      subst hsame
      exact .constant hrefers (by rw [Array.getElem?_map, hv]; rfl)
        (by rw [Array.getElem?_map, hv']; rfl) rfl
  formed := h.formed.transfer fun index id f hid hf =>
    ⟨⟨id.index + earlier.size⟩, f.displaced earlier.size, by rw [Array.getElem?_map, hid]; rfl,
      by rw [Array.getElem?_append_right (Nat.le_add_left _ _), Nat.add_sub_cancel,
        Array.getElem?_map, hf]; rfl, rfl⟩
  spares := h.spares

/-! ## Line by line -/

/-- The tables behind the lines of a source: behind the first line, behind the second one, and
behind both if they are compiled at once. -/
structure Program.Continues (fs gs : Array Function) (f g h : Function) (a a' d d' : Code)
    (one two whole : Array Function) : Prop where
  /-- The first line has some functions and a script. -/
  first : List.Forall₂ Function.SameButLines one.toList (fs.push f).toList
  /-- The second line has functions and a script, which come behind those of the first one. -/
  second : List.Forall₂ Function.SameButLines two.toList
    (one ++ (gs.push g).map (Function.displaced (fs.size + 1))).toList
  /-- Both lines have the functions of each and one script. -/
  both : List.Forall₂ Function.SameButLines whole.toList
    ((fs ++ gs.map (Function.displaced fs.size)).push h).toList
  /-- The code of the first script. -/
  code : f.chunk.code.toList = a.bytes ++ scriptEnd
  /-- The code of the second script. -/
  code' : g.chunk.code.toList = d.bytes ++ scriptEnd
  /-- The script of the whole has both pieces of code. -/
  codes : h.chunk.code.toList = a'.bytes ++ d'.bytes ++ scriptEnd
  /-- It does first what the first script does. -/
  pairs : List.Forall₂ (Instruction.Pairs fs f.chunk.constants h.chunk.constants) a a'
  /-- Then it does what the second script does behind the functions of the first one. -/
  pairs' : List.Forall₂ (Instruction.Pairs (fs ++ gs.map (Function.displaced fs.size))
    (g.chunk.constants.map (Value.displaced fs.size)) h.chunk.constants) d d'

/-- **Two lines compile behind any functions**, one after the other and at once. -/
theorem Program.compileAfter_newline {p q : String} {P Q S : Program} (functions : Array Function)
    (hP : compile p = .ok P) (hQ : compile q = .ok Q) (hS : compile (p ++ "\n" ++ q) = .ok S) :
    ∃ (fs gs : Array Function) (f g h : Function) (a a' d d' : Code)
      (one two whole : Array Function),
      compileAfter functions p = .ok ⟨one, ⟨fs.size⟩⟩ ∧
      compileAfter one q = .ok ⟨two, ⟨fs.size + 1 + gs.size⟩⟩ ∧
      compileAfter functions (p ++ "\n" ++ q) = .ok ⟨whole, ⟨fs.size + gs.size⟩⟩ ∧
      functions.size ≤ fs.size ∧ Continues fs gs f g h a a' d d' one two whole := by
  obtain ⟨fs, gs, hs, f, g, h, a, a', d, d', rfl, rfl, rfl, hjoins⟩ := compile_newline hP hQ hS
  obtain ⟨⟨one, main⟩, hfirst, hmain, htable⟩ := compile_behind functions hP
  obtain ⟨⟨two, main'⟩, hsecond, hmain', htable'⟩ := compile_behind one hQ
  obtain ⟨⟨whole, main''⟩, hboth, hmain'', htable''⟩ := compile_behind functions hS
  dsimp only at hmain htable hmain' htable' hmain'' htable''
  have hsize : (functions ++ fs.map (Function.displaced functions.size)).size
      = fs.size + functions.size := by
    rw [Array.size_append, Array.size_map, Nat.add_comm]
  have hsize' : hs.size = fs.size + gs.size := by
    simpa using congrArg Array.size hjoins.functions
  have hsize₁ : one.size = fs.size + functions.size + 1 := by
    have hlength := htable.length_eq
    simp only [Array.length_toList, List.length_append, List.length_map, Array.size_push] at hlength
    omega
  -- The functions of the second line come behind the earlier ones and those of the first line.
  have hall : hs.map (Function.displaced functions.size) =
    fs.map (Function.displaced functions.size)
      ++ gs.map (Function.displaced (fs.size + functions.size)) := by
    have hdisplaced := congrArg (·.map (Function.displaced functions.size)) hjoins.functions
    simpa only [Array.map_append, Function.map_displaced_map, Nat.zero_add] using hdisplaced
  have hzero : ∀ functions' : Array Function, (functions'.map (Function.displaced 0)).map
      (Function.displaced functions.size) = functions'.map (Function.displaced functions.size) := by
    intro functions'
    rw [Function.map_displaced_map, Nat.zero_add]
  refine ⟨functions ++ fs.map (Function.displaced functions.size), gs,
    f.displaced functions.size, g, h.displaced functions.size, a, a', d, d', one, two, whole,
    ?_, ?_, ?_, hsize ▸ Nat.le_add_left _ _, ?_⟩
  · rw [hfirst, hmain, hsize]
  · rw [hsecond, hmain', hsize, hsize₁, Nat.add_comm gs.size]
  · rw [hboth, hmain'', hsize, hsize', Nat.add_right_comm]
  · exact {
      first := by simpa using htable
      second := by
        rw [hsize, ← hsize₁]
        simpa using htable'
      both := by
        rw [hsize, Array.append_assoc, ← hall]
        simpa using htable''
      code := hjoins.first
      code' := hjoins.second
      codes := hjoins.both
      pairs := hjoins.pairs.imp fun i i' hi => by
        have hbehind := hi.behind functions
        rwa [hzero] at hbehind
      pairs' := hjoins.pairs'.imp fun i i' hi => by
        have hbehind := hi.behind functions
        have hvalues : Value.displaced functions.size ∘ Value.displaced fs.size
            = Value.displaced (fs.size + functions.size) :=
          funext (Value.displaced_displaced _ _)
        rwa [hzero, hall, ← Array.append_assoc, Array.map_map, hvalues, ← hsize] at hbehind }

end ScriptVM
