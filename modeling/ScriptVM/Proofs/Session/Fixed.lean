/-
# Variables that are never assigned

Compiled code assigns only variables that are used as plain values.  What a function is called on
and the superclass of a class are used for something else, in their slots and in the cells of every
closure that captures them.  So a variable like that keeps its value, whatever alias is used
(`RunsAt.contents_after`): its slot as long as it is left alone, and its cell for ever.
-/
import ScriptVM.Proofs.Session.Captured

namespace ScriptVM

/-- What the variable of an alias is used for. -/
def Alias.UsedAs (W : World) (S : Shape) (kind : SlotKind) : Alias → Prop
  | .slot i => ∃ captured, slot? S i = some ⟨kind, captured⟩
  | .cell id => W.cells[id.index]? = some kind

section

variable {W : World} {S : Shape} {L : Ledger} {m m' : Machine} {kind use : SlotKind} {a b : Alias}
  {x : Nat}

/-- A slot and the cell that stands for it are used for the same. -/
theorem At.eq_of_opened (h : At W S m) (htrusted : Trusted W.stale) {i j : Nat}
    (hopen : m.heap.cells[j]? = some (.openAt i)) (hcell : W.cells[j]? = some kind)
    (hslot : Alias.UsedAs W S use (.slot i)) : kind = use := by
  obtain ⟨captured, hslot⟩ := hslot
  obtain ⟨-, kind', hkind', hslot'⟩ := h.cells.opened j i (h.heap.stale_le htrusted hopen) hopen
  obtain rfl := Option.some.inj (hcell.symm.trans hkind')
  cases hslot'.symm.trans hslot
  rfl

/-- All aliases of a variable are used for the same. -/
theorem Ledger.Describes.eq_of_usedAs (h : L.Describes m) (hat : At W S m)
    (htrusted : Trusted W.stale) (ha : L.varOf? a = some x) (hb : L.varOf? b = some x)
    (hka : a.UsedAs W S kind) (hkb : b.UsedAs W S use) : kind = use := by
  cases a with
  | slot i =>
    cases b with
    | slot j =>
      obtain rfl := eq_of_nodup h.owners_nodup ha hb
      obtain ⟨_, hi⟩ := hka
      obtain ⟨_, hj⟩ := hkb
      cases hi.symm.trans hj
      rfl
    | cell id => exact (hat.eq_of_opened htrusted (h.opens_iff.2 ⟨x, hb, ha⟩) hkb hka).symm
  | cell id =>
    cases b with
    | slot j => exact hat.eq_of_opened htrusted (h.opens_iff.2 ⟨x, ha, hb⟩) hka hkb
    | cell id' =>
      have hindex : id.index = id'.index := eq_of_nodup h.homes_nodup ha hb
      have hka : W.cells[id.index]? = some kind := hka
      rw [hindex] at hka
      exact Option.some.inj (hka.symm.trans hkb)

/-- The variable of a slot that holds a value. -/
theorem Ledger.Describes.slot_value (h : L.Describes m) {i : Nat} (hx : L.owners[i]? = some x) :
    m.stack.toList[i]? = L.contents[x]? := by
  have hlt := (List.getElem?_eq_some_iff.1 hx).1
  rw [h.length_owners, ← Stack.length_toList] at hlt
  have hget := List.getElem?_eq_getElem hlt
  rw [hget, h.slot hx hget]

end

namespace RunsAt

variable {W : World} {L : Ledger} {m m' : Machine} {f : Frame} {rest : List Frame}
  {bp : Blueprint} {X below : Shape} {st : Stage} {kind : SlotKind} {a : Alias} {x : Nat}

/-- **What an instruction assigns** is used as a plain value. -/
theorem usedAs_of_written? (h : RunsAt W m f rest bp X below st) (ha : m.written? = some a) :
    a.UsedAs W (X ++ bp.receiver :: below) .value := by
  obtain ⟨op, operands, next, hop, hbytes, -, hleads⟩ := h.next
  have hset : op = .setLocal ∨ op = .setUpvalue := by
    rw [Machine.written?, hop] at ha
    cases op <;> first | exact .inl rfl | exact .inr rfl | cases ha
  obtain ⟨i, Y, rfl, rfl, hwrites⟩ := hleads.writes hset
  have hoperand : m.operand 0 = i.toNat := Machine.operand_eq h.calls (hbytes (k := 0) rfl)
  rw [Machine.written?, hop, hoperand] at ha
  cases hwrites with
  | @toSlot i s hs hkind =>
    obtain rfl := Option.some.inj ((Machine.alias?_local h.calls _).symm.trans ha)
    refine ⟨s.captured, ?_⟩
    rw [h.slot (slot?_append_of_some (X := [.operand]) hs), ← hkind]
  | toCell hk =>
    obtain ⟨id, hid, -, hkind⟩ :=
      Exec.readCell_captures h.typed.heap h.calls h.function (hbytes (k := 0) rfl) hk
    obtain rfl := Option.some.inj ((Machine.alias?_captured h.calls hid).symm.trans ha)
    exact hkind
  | toGlobal _ => simp at hset

/-- **A variable that is used otherwise** keeps its value. -/
theorem contents_after (h : RunsAt W m f rest bp X below st) (htrusted : Trusted W.stale)
    (hL : L.Describes m) (hx : L.varOf? a = some x)
    (ha : a.UsedAs W (X ++ bp.receiver :: below) kind) (hkind : kind ≠ .value) :
    (L.after m m').contents[x]? = L.contents[x]? := by
  have hlt : x < L.contents.length := by
    cases a with
    | slot i => exact hL.owner_lt (List.mem_of_getElem? hx)
    | cell id => exact hL.home_lt (List.mem_of_getElem? hx)
  refine Ledger.contents_after hlt fun b hb hbx => hkind ?_
  exact hL.eq_of_usedAs h.typed htrusted hx hbx ha (h.usedAs_of_written? hb)

/-- **A slot keeps its value** if it is left alone and used for something else than plain values. -/
theorem slot_after (h : RunsAt W m f rest bp X below st) (htrusted : Trusted W.stale)
    (hL : L.Describes m) (hL' : (L.after m m').Describes m') {i : Nat} (hi : i < m.kept)
    (hslot : Alias.UsedAs W (X ++ bp.receiver :: below) kind (.slot i)) (hkind : kind ≠ .value) :
    m'.stack.toList[i]? = m.stack.toList[i]? := by
  obtain ⟨x, hx, hx'⟩ := hL.owners_after m' hi
  rw [hL.slot_value hx, hL'.slot_value hx']
  exact h.contents_after htrusted hL (a := .slot i) hx hslot hkind

/-- **A cell keeps its value** if it is used for something else than plain values. -/
theorem holds_after (h : RunsAt W m f rest bp X below st) (htrusted : Trusted W.stale)
    (hL : L.Describes m) (hL' : (L.after m m').Describes m') {id : CellId} {v : Value}
    (hcell : W.cells[id.index]? = some kind) (hkind : kind ≠ .value) (hv : Exec.Holds m id v) :
    Exec.Holds m' id v := by
  have hlt := (Array.getElem?_eq_some_iff.1 (h.typed.heap.getElem?_cells hcell)).1
  obtain ⟨w, hw, hvalue⟩ := hL.value_cell hlt
  obtain ⟨x, hx, hxw⟩ := Option.bind_eq_some_iff.1 hvalue
  have hx' : (L.after m m').varOf? (.cell id) = some x :=
    Ledger.varOf?_after hx fun i hi => by cases hi
  have hlt' : id.index < m'.heap.cells.size := by
    rw [← hL'.length_homes]
    exact (List.getElem?_eq_some_iff.1 hx').1
  obtain ⟨w', hw', hvalue'⟩ := hL'.value_cell hlt'
  have hcontents : (L.after m m').contents[x]? = L.contents[x]? :=
    h.contents_after htrusted hL hx hcell hkind
  rw [Ledger.value?, hx', Option.bind_some, hcontents, hxw] at hvalue'
  obtain rfl := Option.some.inj hvalue'
  obtain rfl := hv.unique hw
  exact hw'

end RunsAt

end ScriptVM
