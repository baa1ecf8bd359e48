/-
# Two sources in one

A source that goes on with another one on the next line is built like the two of them.  Its
declarations are those of the first and then those of the second, and behind the first ones the
second ones are built as at the start of a source of their own, up to the numbers of constants and
of functions (`Program.Joins`).

Places and earlier functions are left out first, so that builders of different sources can be
compared.  What the first source leaves behind is a script without locals, like the one with which
the second one starts; that its tokens are not read any further is known from the grammar.

Main statement: `Program.compile_newline`.
-/
import ScriptVM.Proofs.Program.Compiled
import ScriptVM.Proofs.Syntax.Relocation
import ScriptVM.Proofs.Token.Joining

namespace ScriptVM

open Build

/-! ## Declarations in a row -/

/-- Declarations are spelt one behind the other. -/
theorem Derives.append {ds es : List Decl} {ts us : List Token} (h : Derives (.declarations ds) ts)
    (h' : Derives (.declarations es) us) : Derives (.declarations (ds ++ es)) (ts ++ us) := by
  induction ds generalizing ts with
  | nil =>
    cases h
    exact h'
  | cons d ds ih =>
    cases h with
    | declarations hd hds =>
      rw [List.cons_append, List.append_assoc]
      exact .declarations hd (ih hds)

/-- Declarations are built one behind the other. -/
theorem Decl.buildAll_append (ds es : List Decl) :
    Decl.buildAll (ds ++ es) = (do Decl.buildAll ds; Decl.buildAll es) := by
  induction ds with
  | nil => rw [List.nil_append, Decl.buildAll, pure_bind]
  | cons d ds ih => rw [List.cons_append, Decl.buildAll, Decl.buildAll, ih, bind_assoc]

/-- Behind declarations comes no alternative if none comes next. -/
theorem Derives.exists_next {ds : List Decl} {ts rest : List Token}
    (h : Derives (.declarations ds) ts)
    (hrest : ∃ t us, rest = t :: us ∧ t.kind ≠ .elseKw) :
    ∃ t us, ts ++ rest = t :: us ∧ t.kind ≠ .elseKw := by
  rcases h.first with rfl | ⟨t, ts, rfl, ht⟩
  · exact hrest
  · refine ⟨t, _, rfl, fun helse => ?_⟩
    rw [helse] at ht
    exact absurd ht (by decide)

/-- Building declarations takes their tokens, and none behind them. -/
theorem Derives.reads_of_buildAll {ds : List Decl} {ts rest : List Token} {b b' : Builder}
    (h : Derives (.declarations ds) ts) (hrest : ∃ t us, rest = t :: us ∧ t.kind ≠ .elseKw)
    (hb : b.Reads (ts ++ rest)) (hrun : Clean (Decl.buildAll ds) b () b') : b'.Reads rest := by
  induction ds generalizing ts b with
  | nil =>
    cases h
    rw [Decl.buildAll] at hrun
    obtain ⟨-, rfl⟩ := hrun.of_pure
    exact hb
  | cons d ds ih =>
    cases h with
    | declarations hd hds =>
      rw [Decl.buildAll] at hrun
      have hcumulative := Decl.cumulative_buildAll ds
      obtain ⟨_, b₁, hfirst, hmore⟩ := hrun.bind
      obtain ⟨t, us, hnext, ht⟩ := hds.exists_next hrest
      rw [List.append_assoc] at hb
      have hparses := hd.parsed _ _ t us (Nat.lt_succ_self _) hnext ht
      exact ih hds (hparses.ends _ hb () b₁ hfirst) hmore

/-! ## Builders without places -/

/-- A builder before tokens without places, with earlier functions. -/
def Builder.fresh (functions : Array Function) (tokens : List Token) : Builder where
  source := ""
  pending := tokens.map .ok
  previous := ⟨.eof, "", 0, 0⟩
  context := .start "main" .script
  enclosing := []
  classes := []
  errors := #[]
  functions := functions

theorem Builder.reads_fresh (functions : Array Function) (tokens : List Token) :
    (Builder.fresh functions tokens).Reads tokens :=
  rfl

/-- The end token without its place. -/
def Token.final : Token :=
  ⟨.eof, "", 0, 0⟩

/-- The builder that a source starts with is one without places and behind any earlier functions. -/
theorem Builder.displaced_start {source : String} {items : List ScanItem} {ts : List Token}
    (earlier functions : Array Function) (h : items = ts.map .ok) :
    (Builder.start functions source items).displaced earlier =
      .fresh (earlier ++ functions.map (Function.displaced earlier.size))
        (ts.map Token.unplaced) := by
  subst h
  simp [Builder.start, Builder.displaced, Builder.fresh, Build.start_displaced, Except.map]

/-- Clean runs do not depend on places and on earlier functions. -/
theorem Build.Clean.displaced {x y : Build Unit} {earlier : Array Function} {b b' : Builder}
    [hxy : Displaces earlier x y] (h : Clean x b () b') :
    Clean y (b.displaced earlier) () (b'.displaced earlier) := by
  obtain ⟨hrun, herrors⟩ := h
  refine ⟨?_, by simp [herrors]⟩
  rw [hxy.run, hrun]
  rfl

/-- What is read of tokens in front of the end token spells declarations. -/
theorem Build.Clean.derives {depth : Nat} {ts : List Token} {last : Token} {b b' : Builder}
    (h : Clean (declarations depth) b () b') (hb : b.Reads (ts ++ [last]))
    (hlast : last.kind = .eof)
    (hts : ∀ t ∈ ts, t.kind ≠ .eof) : ∃ ds, Derives (.declarations ds) ts := by
  obtain ⟨ds, us, htook, hds, hend⟩ := recognized_declarations (recognizes_phrase depth) h
  rw [Builder.Took, hb] at htook
  rcases hpending : b'.pending with _ | ⟨item, rest⟩
  · -- The end token is none of those that were taken.
    rw [hpending, List.append_nil, List.map_append] at htook
    have hmem : (.ok last : ScanItem) ∈ us.map .ok :=
      htook ▸ List.mem_append_right _ List.mem_cons_self
    obtain ⟨t, ht, htlast⟩ := List.mem_map.1 hmem
    obtain rfl := Except.ok.inj htlast
    exact absurd hlast (hds.kind_ne_eof t ht)
  · obtain ⟨us', rest', hsplit, hus, hrest⟩ := List.map_eq_append_iff.1 htook
    rw [hpending] at hrest
    obtain ⟨t, rest', rfl, rfl, rfl⟩ := List.map_eq_cons_iff.1 hrest
    obtain rfl : us' = us := List.map_injective_iff.2 (fun _ _ => Except.ok.inj) hus
    have ht : t.kind = .eof := by
      have hnext : b'.next = t := by
        rw [Builder.next, hpending]
        rfl
      rw [hnext] at hend
      exact hend.elim id id
    rcases List.eq_nil_or_concat rest' with rfl | ⟨others, final, rfl⟩
    · obtain ⟨rfl, -⟩ := List.append_inj' hsplit rfl
      exact ⟨ds, hds⟩
    · -- Otherwise it would be one of the tokens in front of the last.
      rw [List.concat_eq_append, ← List.cons_append, ← List.append_assoc] at hsplit
      obtain ⟨rfl, -⟩ := List.append_inj' hsplit rfl
      exact absurd ht (hts t (List.mem_append_right _ List.mem_cons_self))

/-! ## Sources that compile -/

/-- The program of a script at hand, which returns nil at its end. -/
def Builder.ended (b : Builder) (line : Nat) : Program :=
  ⟨b.functions.push ((b.emit .pushNil line).emit .ret line).context.function, ⟨b.functions.size⟩⟩

/-- How a source is built as a program behind functions with blueprints: its tokens without their
places, and the builder behind the last declaration. -/
structure Program.Built (bps : List Blueprint) (functions : Array Function) (source : String)
    (program : Program) (ts : List Token) (b : Builder) : Prop where
  /-- The tokens are those of the source. -/
  tokens : ∃ us last, scan source = (us ++ [last]).map .ok ∧ us.map Token.unplaced = ts
  /-- They are as a source can have them. -/
  clear : ∀ t ∈ ts, t.Clear
  /-- They spell declarations. -/
  derives : ∃ ds, Derives (.declarations ds) ts
  /-- The builder is what building the declarations comes to, whatever other functions there are. -/
  runs : ∀ earlier ds, Derives (.declarations ds) ts →
    Clean (Decl.buildAll ds)
      (.fresh (earlier ++ functions.map (Function.displaced earlier.size)) (ts ++ [.final])) ()
      (b.displaced earlier)
  /-- The declarations are built as their blueprints say. -/
  declares : ∃ bps' new old code,
    Declares bps (Builder.start functions source (scan source)) bps' b new old code
  /-- The program is the script at hand. -/
  ended : ∃ line, program = b.ended line

/-- The last token of a source is empty. -/
theorem unplaced_last {source : String} {us : List Token} {last : Token}
    (h : scan source = (us ++ [last]).map .ok) : last.unplaced = .final := by
  obtain ⟨items, final, hscan, hkind, -, hlexeme⟩ := scan_eq_concat source
  rw [h, List.map_append] at hscan
  obtain ⟨-, hlast⟩ := List.append_inj' hscan rfl
  obtain rfl := Except.ok.inj (List.cons.inj hlast).1
  rw [Token.unplaced, hkind, hlexeme]
  rfl

/-- **What compiles has been built**: by the declarations that its tokens spell, behind functions
with blueprints. -/
theorem Program.exists_built {bps : List Blueprint} {functions : Array Function} {source : String}
    {program : Program} (hbps : TableFits bps functions.toList)
    (h : Program.compileAfter functions source = .ok program) :
    ∃ ts b, Program.Built bps functions source program ts b := by
  obtain ⟨hclean, hprogram⟩ := Builder.clean_of_finish h
  obtain ⟨_, b, hrun, hreturn⟩ := hclean.bind
  have hscoped : Scoped (Builder.start functions source (scan source)) := fun hsuper =>
    absurd hsuper (by simp [Builder.start])
  obtain ⟨bps', new, old, code, hbody⟩ := Build.declarations_declare (Build.phrase_emits _).1
    (Sound.start source hbps) hscoped hrun
  obtain ⟨ds, us, last, hscan, hlast, hds⟩ := spells_of_clean hrun
  -- The same tokens are read alike without their places, and behind any other functions.
  have hfresh : ∀ earlier, Clean (declarations (2 * (scan source).length + 2))
      (.fresh (earlier ++ functions.map (Function.displaced earlier.size))
        (us.map Token.unplaced ++ [.final])) () (b.displaced earlier) := by
    intro earlier
    have hrun' : Clean (declarations (2 * (scan source).length + 2)) _ () (b.displaced earlier) :=
      hrun.displaced
    rwa [Builder.displaced_start _ _ hscan, List.map_append, List.map_singleton,
      unplaced_last hscan] at hrun'
  have heof : ∀ t ∈ us.map Token.unplaced, t.kind ≠ .eof := by
    intro t ht
    obtain ⟨u, hu, rfl⟩ := List.mem_map.1 ht
    exact hds.kind_ne_eof u hu
  have hlength : (us.map Token.unplaced).length < 2 * (scan source).length + 2 := by
    rw [hscan, List.length_map, List.length_map, List.length_append]
    omega
  refine ⟨us.map Token.unplaced, b, ?_⟩
  exact {
    tokens := ⟨us, last, hscan, rfl⟩
    clear := by
      intro t ht
      obtain ⟨u, hu, rfl⟩ := List.mem_map.1 ht
      have hmem : .ok u ∈ scan source := by
        rw [hscan]
        exact List.mem_map_of_mem (List.mem_append_left _ hu)
      have hclear := Token.clear_of_mem_scan hmem
      exact ⟨hclear.name, hclear.number⟩
    derives := (hfresh #[]).derives rfl rfl heof
    runs := fun earlier ds hds =>
      ((parses_declarations hds rfl hlength).runs _ (Builder.reads_fresh _ _) () _).1
        (hfresh earlier)
    declares := ⟨bps', new, old, code, hbody⟩
    ended := by
      obtain ⟨hinit, -⟩ | ⟨-, hend⟩ := hreturn.of_emitReturn
      · rw [hbody.grown.kind] at hinit
        cases hinit
      · exact ⟨b.previous.line, by rw [hprogram, ← hend]; rfl⟩ }

namespace Program.Built

variable {bps : List Blueprint} {functions : Array Function} {source : String} {program : Program}
  {ts : List Token} {b : Builder}

/-- Behind the last declaration a builder is as before the first one, but for what it has built. -/
theorem at_end (h : Built bps functions source program ts b) :
    b.enclosing = [] ∧ b.classes = [] ∧ b.context.depth = 0 ∧ b.context.locals.length = 1 := by
  obtain ⟨bps', new, old, code, hbody⟩ := h.declares
  refine ⟨List.forall₂_nil_left_iff.1 hbody.grown.enclosing, hbody.grown.classes,
    hbody.grown.depth, ?_⟩
  rw [hbody.locals, hbody.top rfl, List.nil_append, ← hbody.raised.length_eq]
  rfl

theorem kind_ne_eof (h : Built bps functions source program ts b) : ∀ t ∈ ts, t.kind ≠ .eof := by
  obtain ⟨ds, hds⟩ := h.derives
  exact hds.kind_ne_eof

/-- The tokens of two sources on lines of their own. -/
theorem tokens_newline {functions' functions'' : Array Function} {bps' bps'' : List Blueprint}
    {p q : String} {P Q S : Program} {us vs : List Token} {b' b'' : Builder}
    (hP : Built bps functions p P ts b) (hQ : Built bps' functions' q Q us b')
    (hS : Built bps'' functions'' (p ++ "\n" ++ q) S vs b'') : vs = ts ++ us := by
  obtain ⟨ts, last, hp, rfl⟩ := hP.tokens
  obtain ⟨us, last', hq, rfl⟩ := hQ.tokens
  obtain ⟨vs, last'', hs, rfl⟩ := hS.tokens
  obtain ⟨vs', closing, hs', hvs'⟩ := scan_newline hp hq
  rw [hs'] at hs
  obtain ⟨rfl, -⟩ := List.append_inj' (List.map_injective_iff.2 (fun _ _ => Except.ok.inj) hs) rfl
  rw [hvs', List.map_append]

end Program.Built

/-! ## Builders of two sources -/

/-- Two scripts that are just started are alongside each other. -/
theorem FunctionContext.alongside_start :
    (FunctionContext.start "main" .script).Alongside (.start "main" .script) where
  same := rfl
  kind := rfl
  kind' := rfl
  captures := rfl
  stocked := ⟨Nat.zero_le _, fun v hv => absurd hv List.not_mem_nil⟩
  stocked' := ⟨Nat.zero_le _, fun v hv => absurd hv List.not_mem_nil⟩
  limit := by decide
  callee := ⟨[], rfl⟩

/-- A source and the same source with another one behind it start alongside. -/
theorem Builder.alongside_fresh (functions : Array Function) (ts : List Token) {us : List Token}
    (hus : ∀ t ∈ us, t.kind ≠ .eof) :
    (fresh functions (ts ++ [.final])).Alongside [.ok .final] ((us ++ [Token.final]).map .ok)
      (fresh functions (ts ++ us ++ [.final])) where
  pending := ⟨ts, by simp [fresh], by simp [fresh]⟩
  tail := by
    cases us with
    | nil => exact .inl ⟨rfl, .final, rfl, rfl⟩
    | cons t us => exact .inr ⟨t, _, rfl, hus t List.mem_cons_self⟩
  line := rfl
  classes := rfl
  functions := rfl
  contexts := .script FunctionContext.alongside_start

/-- A source starts alongside a script that has come to the same tokens. -/
theorem Builder.alongside_of_reads {us : List Token} {b b' : Builder}
    (halongside : b.context.Alongside b'.context) (hreads : b'.Reads (us ++ [.final]))
    (hline : b'.previous.line = 0) (hclasses : b'.classes = []) (henclosing : b'.enclosing = [])
    (hdepth : b.context.depth = 0) (hlocals : b.context.locals.length = 1) :
    (fresh b'.functions (us ++ [.final])).Alongside [.ok .final] [.ok .final] b' where
  pending := ⟨us, by simp [fresh], by rw [show b'.pending = _ from hreads]; simp⟩
  tail := .inl ⟨rfl, .final, rfl, rfl⟩
  line := hline
  classes := hclasses
  functions := rfl
  contexts := by
    obtain ⟨above, hcallee⟩ := halongside.callee
    obtain rfl : above = [] := by
      rw [hcallee, List.length_append, List.length_singleton] at hlocals
      exact List.eq_nil_of_length_eq_zero (by omega)
    have hsame : b'.context = { FunctionContext.start "main" .script with
        function := b'.context.function } := by
      rw [halongside.same]
      show FunctionContext.mk _ _ _ _ = FunctionContext.mk _ _ _ _
      rw [hcallee, hdepth, halongside.captures]
      rfl
    rw [henclosing]
    refine .script { FunctionContext.alongside_start with
      same := hsame
      kind' := halongside.kind'
      stocked' := halongside.stocked' }

/-- The bytes with which a script ends. -/
def scriptEnd : List UInt8 :=
  [Opcode.pushNil.toByte, Opcode.ret.toByte]

/-- The functions of a source, those of a second one, and those of a source that goes on with the
second one behind the first one; the script of each is given by itself. -/
structure Program.Joins (fs gs hs : Array Function) (f g h : Function)
    (a a' d d' : Code) : Prop where
  /-- The functions are those of the first source and then those of the second one. -/
  functions : hs.map (Function.displaced 0)
    = fs.map (Function.displaced 0) ++ gs.map (Function.displaced fs.size)
  /-- The code of the first script. -/
  first : f.chunk.code.toList = a.bytes ++ scriptEnd
  /-- The code of the second script. -/
  second : g.chunk.code.toList = d.bytes ++ scriptEnd
  /-- The script of the whole has both pieces of code. -/
  both : h.chunk.code.toList = a'.bytes ++ d'.bytes ++ scriptEnd
  /-- It does first what the first script does. -/
  pairs : List.Forall₂ (Instruction.Pairs (fs.map (Function.displaced 0)) f.chunk.constants
    h.chunk.constants) a a'
  /-- Then it does what the second script does behind the functions of the first one. -/
  pairs' : List.Forall₂ (Instruction.Pairs (hs.map (Function.displaced 0))
    (g.chunk.constants.map (Value.displaced fs.size)) h.chunk.constants) d d'

theorem Builder.code_ended (b : Builder) (line : Nat) :
    ((b.emit .pushNil line).emit .ret line).chunk.code.toList = b.chunk.code.toList ++
      scriptEnd := by
  simp [Builder.emit, Builder.chunk, Builder.withChunk, Chunk.addOpcode, Chunk.addByte, scriptEnd]

theorem Builder.constants_displaced_nil (b : Builder) :
    (b.displaced #[]).chunk.constants = b.chunk.constants := by
  show b.chunk.constants.map (Value.displaced 0) = _
  rw [Value.displaced_zero, Array.map_id]

/-- **A source that goes on with another one on the next line** has the functions of the first and
then those of the second, and its script does what the first script does and then what the second
one does. -/
theorem Program.compile_newline {p q : String} {P Q S : Program} (hP : compile p = .ok P)
    (hQ : compile q = .ok Q) (hS : compile (p ++ "\n" ++ q) = .ok S) :
    ∃ fs gs hs f g h a a' d d', P = ⟨fs.push f, ⟨fs.size⟩⟩ ∧ Q = ⟨gs.push g, ⟨gs.size⟩⟩ ∧
      S = ⟨hs.push h, ⟨hs.size⟩⟩ ∧ Joins fs gs hs f g h a a' d d' := by
  have hnone : TableFits [] (#[] : Array Function).toList := .nil
  obtain ⟨ts, b, hb⟩ := exists_built hnone hP
  obtain ⟨us, c, hc⟩ := exists_built hnone hQ
  obtain ⟨vs, d, hd⟩ := exists_built hnone hS
  obtain rfl := hb.tokens_newline hc hd
  obtain ⟨ds, hds⟩ := hb.derives
  obtain ⟨es, hes⟩ := hc.derives
  obtain ⟨henclosing, hclasses, hdepth, hlocals⟩ := hb.at_end
  have hend : ∃ t us', [Token.final] = t :: us' ∧ t.kind ≠ .elseKw := ⟨.final, [], rfl, by decide⟩
  have hcumulative := Decl.cumulative_buildAll es
  have hnone : ∀ n, (#[] : Array Function).map (Function.displaced n) = #[] :=
    fun _ => Array.map_empty
  -- The first source is built alongside the whole.
  have hrun := hb.runs #[] ds hds
  have hrun' := hd.runs #[] (ds ++ es) (hds.append hes)
  rw [Decl.buildAll_append] at hrun'
  obtain ⟨_, v, hfront, hback⟩ := hrun'.bind
  rw [hnone, Array.append_empty] at hrun hfront
  have hreads : v.Reads (us ++ [.final]) := by
    refine hds.reads_of_buildAll (hes.exists_next hend) ?_ hfront
    rw [← List.append_assoc]
    exact Builder.reads_fresh _ _
  obtain hpast | ⟨⟨a, a', hpass⟩, -⟩ := (Decl.twin_buildAll hds hb.clear).runs
    (Builder.alongside_fresh #[] ts hc.kind_ne_eof) trivial hrun hfront
  · -- The tokens of the second source have not been touched.
    rw [show v.pending = _ from hreads] at hpast
    exact absurd hpast (Nat.lt_irrefl _)
  obtain ⟨-, henclosing', hscript⟩ | ⟨-, hinside, -⟩ := hpass.alongside.cases_context
  swap
  · exact absurd (congrArg (List.map _) henclosing) hinside
  have hfunctions : v.functions = b.functions.map (Function.displaced 0) :=
    hpass.alongside.functions.trans (Array.empty_append)
  -- Behind it the second source is built alongside the rest.
  have hrest := hc.runs v.functions es hes
  rw [hnone, Array.append_empty] at hrest
  have halongside := Builder.alongside_of_reads hscript hreads hpass.alongside.line
    (hpass.alongside.classes.trans hclasses) henclosing' hdepth hlocals
  obtain hpast | ⟨⟨e, e', hpass'⟩, -⟩ :=
    (Decl.twin_buildAll hes hc.clear).runs halongside trivial hrest hback
  · rw [show (d.displaced #[]).pending = _ from
      hes.reads_of_buildAll hend hreads hback] at hpast
    exact absurd hpast (Nat.lt_irrefl _)
  obtain ⟨line, rfl⟩ := hb.ended
  obtain ⟨line', rfl⟩ := hc.ended
  obtain ⟨line'', rfl⟩ := hd.ended
  have hall : d.functions.map (Function.displaced 0)
      = v.functions ++ c.functions.map (Function.displaced v.functions.size) :=
    (Array.empty_append).symm.trans hpass'.alongside.functions
  have hsize : v.functions.size = b.functions.size := by rw [hfunctions, Array.size_map]
  have hcode := hpass.code.appends.code_eq
  have hcode' := hpass.code.appends'.code_eq
  have hcode₁ := hpass'.code.appends.code_eq
  have hcode₁' := hpass'.code.appends'.code_eq
  refine ⟨_, _, _, _, _, _, a, a', e, e', rfl, rfl, rfl, ?_⟩
  exact {
    functions := by rw [hall, hfunctions, Array.size_map]
    first := (b.code_ended line).trans (congrArg (· ++ scriptEnd) hcode)
    second := (c.code_ended line').trans (congrArg (· ++ scriptEnd) hcode₁)
    both := by
      refine (d.code_ended line'').trans (congrArg (· ++ scriptEnd) (hcode₁'.trans ?_))
      rw [hcode']
      rfl
    pairs := hpass.code.code.imp fun i i' hi => by
      refine (hi.1 rfl).mono ?_ ?_ ?_
      · rw [show (b.displaced #[]).functions = _ from Array.empty_append]
        exact List.prefix_refl _
      · rw [b.constants_displaced_nil]
        exact List.prefix_refl _
      · exact d.constants_displaced_nil ▸ hpass'.code.constants'
    pairs' := hpass'.code.code.imp fun i i' hi => by
      refine (hi.1 rfl).mono ?_ ?_ ?_
      · exact hall ▸ List.prefix_refl _
      · rw [← hsize]
        exact List.prefix_refl _
      · rw [d.constants_displaced_nil]
        exact List.prefix_refl _ }

end ScriptVM
