/-
# The functions of a compiled source

All phrases of a source are built as they should be, to any depth, so a source that compiles adds
functions to the table that are as their blueprints say.

Main statement: `compileAfter_fits`.
-/
import ScriptVM.Proofs.Program.Classes

namespace ScriptVM

namespace Build

variable {bps bps' : List Blueprint} {b b' : Builder} {u : Unit}

section

set_option synthInstance.maxSize 512

variable {inner : Phrase → Build Unit} [∀ p, Cumulative (inner p)]
  (hexpression : ∀ least, EmitsOperand (inner (.expression least)))
  (hconditional : EmitsStatement (inner .conditional))
  (hdeclaration : EmitsDeclaration (inner .declaration))
include hexpression hconditional hdeclaration

/-- Each kind of declaration appends the code of a declaration. -/
theorem tryDeclaration_declares : EmitsDeclaration (tryDeclaration inner) := by
  intro bps b b' u hb hscoped h
  unfold tryDeclaration at h
  obtain ⟨token, _, hpeek, h⟩ := h.bind_of_cumulative fun token => by split <;> infer_instance
  obtain ⟨rfl, rfl⟩ := hpeek.of_peek
  have htaken := Grown.take hb
  have hafter : ∀ {step : Build Unit}, EmitsDeclaration step → Cumulative step →
      Clean (advance >>= fun _ => step) b u b' →
      ∃ bps' new old code, Declares bps b bps' b' new old code := by
    intro step hstep _ h
    obtain ⟨_, b₁, hadvance, h⟩ := h.bind
    obtain ⟨-, rfl⟩ := hadvance.of_advance
    obtain ⟨bps', new, old, code, hd⟩ :=
      hstep htaken.sound (htaken.scoped_of_locals rfl hscoped) h
    exact ⟨bps', new, old, code, { hd with grown := htaken.trans hd.grown }⟩
  split at h
  · exact hafter (classDeclaration_declares hdeclaration) inferInstance h
  · exact hafter (functionDeclaration_declares hdeclaration) inferInstance h
  · exact hafter (variableDeclaration_declares hexpression) inferInstance h
  · exact (statement_emits hexpression hconditional hdeclaration).declaration hb hscoped h

/-- A clean declaration is one without recovery. -/
theorem declaration_declares : EmitsDeclaration (declaration inner) := by
  intro bps b b' u hb hscoped h
  unfold declaration at h
  obtain ⟨outcome, b₁, htry, h⟩ := h.bind_of_cumulative fun outcome => by
    split <;> infer_instance
  split at h
  · obtain ⟨-, rfl⟩ := h.of_pure
    exact tryDeclaration_declares hexpression hconditional hdeclaration hb hscoped htry.attempt_ok
  · obtain ⟨_, _, hnote, -⟩ := h.bind
    exact absurd hnote Clean.not_note

end

/-- **All phrases are built as they should be.** -/
theorem phrase_emits (depth : Nat) :
    EmitsDeclaration (phrase depth .declaration) ∧ EmitsStatement (phrase depth .conditional) ∧
      ∀ least, EmitsOperand (phrase depth (.expression least)) := by
  induction depth with
  | zero =>
    have hfail : ∀ {p : Phrase} {b b' : Builder} {u : Unit}, ¬ Clean (phrase 0 p) b u b' := by
      intro p b b' u h
      unfold phrase at h
      obtain ⟨_, _, _, h⟩ := h.bind
      exact Clean.not_fail h
    exact ⟨fun _ _ _ _ _ _ h => absurd h hfail, fun _ _ _ _ _ _ h => absurd h hfail,
      fun _ _ _ _ _ _ _ h => absurd h hfail⟩
  | succ depth ih =>
    obtain ⟨hdeclaration, hconditional, hexpression⟩ := ih
    exact ⟨declaration_declares hexpression hconditional hdeclaration,
      conditional_emits hexpression hconditional hdeclaration, fun least =>
      expression_emits hexpression least⟩

end Build

/-! ## Whole sources -/

/-- A source that compiles is built without complaints. -/
theorem Builder.clean_of_finish {functions : Array Function} {source : String} {program : Program}
    (h : (complete functions source).finish = .ok program) :
    Build.Clean (do Build.declarations (2 * (scan source).length + 2); Build.emitReturn)
        (start functions source (scan source)) () (complete functions source) ∧
      program = ⟨(complete functions source).functions.push
        (complete functions source).context.function,
        ⟨(complete functions source).functions.size⟩⟩ := by
  rw [finish] at h
  split at h
  · next hempty =>
    refine ⟨?_, (Except.ok.inj h).symm⟩
    have herrors := Array.isEmpty_iff.1 hempty
    unfold complete at herrors ⊢
    dsimp only at herrors ⊢
    split at herrors
    · next hrun => exact ⟨hrun, herrors⟩
    · simp at herrors
  · simp at h

/-- The builder that a source starts with is sound, behind functions with blueprints. -/
theorem Sound.start {bps : List Blueprint} {functions : Array Function} (source : String)
    (h : TableFits bps functions.toList) :
    Sound bps (Builder.start functions source (scan source)) where
  tokens item hitem := plain_of_mem_scan hitem
  contexts := by
    refine ⟨⟨⟨?_, ?_⟩, ?_, ?_, fun _ => ⟨rfl, _, rfl, rfl⟩⟩, trivial⟩
    · show 1 ≤ 256
      decide
    · show 0 ≤ 256
      decide
    · exact .empty _
    · intro l hl
      obtain rfl := List.mem_singleton.1 hl
      exact Nat.zero_le 0
  linked := ⟨by simp [Builder.start, FunctionContext.start], trivial⟩
  rooted := ⟨by simp [Builder.start, FunctionContext.start], trivial⟩
  table := h

/-- **A source that compiles adds functions that are as their blueprints say.**  The last one runs
first; it captures nothing and has no parameters. -/
theorem compileAfter_fits {bps : List Blueprint} {functions : Array Function} {source : String}
    {program : Program} (h : Program.compileAfter functions source = .ok program)
    (hbps : TableFits bps functions.toList) :
    ∃ bps' bp, bps <+: bps' ∧ functions.toList <+: program.functions.toList ∧
      TableFits (bps' ++ [bp]) program.functions.toList ∧
      program.main = ⟨bps'.length⟩ ∧ bp.captures = [] ∧ bp.isMember = false ∧
      bp.parameters = [] := by
  obtain ⟨hclean, rfl⟩ := Builder.clean_of_finish h
  generalize Builder.complete functions source = b at hclean ⊢
  obtain ⟨_, b₁, hdeclarations, hreturn⟩ := hclean.bind
  have hscoped : Scoped (Builder.start functions source (scan source)) := fun hsuper =>
    absurd hsuper (by simp [Builder.start])
  obtain ⟨bps', new, old, code, hbody⟩ := Build.declarations_declare (Build.phrase_emits _).1
    (Sound.start source hbps) hscoped hdeclarations
  obtain ⟨code', bp, hgrown, -, hmember, -, hcaptures, hfits⟩ := Build.fits_of_declares hbody
    (show _ = [] ++ _ from rfl) rfl rfl (by simp) hreturn
  have henclosing : b.enclosing = [] := List.forall₂_nil_left_iff.1 hgrown.enclosing
  -- There is no function around a script from which it could capture.
  have hnone : b.context.captures = #[] := by
    have hlinked := hgrown.sound.linked.1
    rw [henclosing] at hlinked
    exact Array.eq_empty_of_size_eq_zero (by
      rw [← Array.length_toList, List.length_eq_zero_iff]
      exact List.eq_nil_iff_forall_not_mem.2 fun c hc => hlinked c hc)
  have hcomplete : b.context.complete = b.context.function := by
    have hcount : b.context.function.captureCount = 0 := hgrown.captureCount
    rw [FunctionContext.complete, hnone, Array.size_empty, ← hcount]
  rw [hcomplete] at hfits
  refine ⟨bps', bp, hgrown.blueprints, ?_, ?_, ?_, ?_, hmember, ?_⟩
  · rw [Array.toList_push]
    exact hgrown.functions.trans (List.prefix_append _ _)
  · rw [Array.toList_push]
    exact hgrown.sound.table.push (hfits.mono (List.prefix_append _ _))
  · have hlength := hgrown.sound.table.length_eq
    rw [Array.length_toList] at hlength
    rw [hlength]
  · rw [hcaptures, henclosing, captureKinds, hnone]
    rfl
  · have harity := hfits.arity
    rw [hgrown.arity] at harity
    exact List.length_eq_zero_iff.1 harity

end ScriptVM
