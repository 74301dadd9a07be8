import InfixCompiler.Chunk
import InfixCompiler.Proofs.Encoding
import InfixCompiler.Proofs.Numbers
import InfixCompiler.Proofs.Text.Rows

/-!
# Listings are faithful

The listing of a module is one text, in which nothing says where a chunk ends. But it is made of
rows, which are had back from it as no name has a line end. The row of an instruction begins with a
digit and the header of a chunk does not, whatever the name of the chunk looks like, so that the
code of a chunk ends before the next header (`Chunk.listing_append_injective`). A name is what is
between two fixed texts, an index is known from its place, and what is behind it is a mnemonic or
one with a blank and a number, which is printed as no other is.

Constants, and nothing else, must have an operand, and no operand may be a NaN. The first is true of
all code that is lowered.
-/

namespace InfixCompiler

open Text

/-! ## Instructions -/

namespace Opcode

theorem name_injective {op op' : Opcode} (h : op.name = op'.name) : op = op' := by
  cases op <;> cases op' <;> first | rfl | exact absurd h (by decide)

theorem notMem_name {c : Char} (hc : c = ' ' ∨ c = '\n') (op : Opcode) : c ∉ op.name.toList := by
  rcases hc with rfl | rfl <;> cases op <;> decide

end Opcode

namespace Instruction

variable {i j : Instruction}

/-- The instructions that are known from their rows. -/
structure IsLegible (i : Instruction) : Prop where
  /-- A constant, and nothing else, has an operand. -/
  isRegular : i.IsRegular
  /-- The operand is a number. -/
  not_isNaN : ∀ x, i.operand? = some x → ¬ x.isNaN

theorem render_constant (x : Binary64) :
    (constant x).render = alignLeft 12 Opcode.storeConst.name ++ x.render := rfl

theorem space_mem_render_constant (x : Binary64) : ' ' ∈ (constant x).render.toList := by
  rw [render_constant, String.toList_append]
  exact List.mem_append_left _ (by decide)

theorem IsLegible.newline_notMem (h : i.IsLegible) : '\n' ∉ i.render.toList := by
  rcases h.isRegular.cases with ⟨x, rfl⟩ | ⟨op, -, rfl⟩
  · rw [render_constant, notMem_toList_append]
    exact ⟨by decide, x.newline_notMem_render⟩
  · exact op.notMem_name (.inr rfl)

theorem IsLegible.render_injective (hi : i.IsLegible) (hj : j.IsLegible)
    (h : i.render = j.render) : i = j := by
  have hspace (op : Opcode) : ' ' ∉ (plain op).render.toList := op.notMem_name (.inl rfl)
  rcases hi.isRegular.cases with ⟨x, rfl⟩ | ⟨op, -, rfl⟩ <;>
    rcases hj.isRegular.cases with ⟨y, rfl⟩ | ⟨op', -, rfl⟩
  · rw [render_constant, render_constant, String.append_right_inj] at h
    rw [Binary64.render_injective (hi.not_isNaN x rfl) (hj.not_isNaN y rfl) h]
  · exact absurd (h ▸ space_mem_render_constant x) (hspace op')
  · exact absurd (h ▸ space_mem_render_constant y) (hspace op)
  · exact congrArg plain (Opcode.name_injective h)

end Instruction

/-! ## Chunks -/

namespace Chunk

variable {c d : Chunk} {code code' : List Instruction} {rest rest' : List String}

/-- The chunks that are known from their rows. -/
structure IsLegible (c : Chunk) : Prop where
  /-- The header is one row. -/
  newline_notMem : '\n' ∉ c.name.toList
  /-- The instructions are known from theirs. -/
  code : ∀ i ∈ c.code, i.IsLegible

/-- The row above the code of a chunk. -/
def header (c : Chunk) : String := s!"-- chunk {c.name} --"

/-- The rows of instructions, numbered from `index` on. -/
def codeRows (index : Nat) (code : List Instruction) : List String :=
  (code.zipIdx index).map fun (i, index) ↦ listingRow index i

/-- The rows of a chunk. -/
def listing (c : Chunk) : List String := c.header :: codeRows 0 c.code

theorem render_eq_rows (c : Chunk) : c.render = rows c.listing := rfl

theorem codeRows_cons (index : Nat) (i : Instruction) (code : List Instruction) :
    codeRows index (i :: code) = listingRow index i :: codeRows (index + 1) code := rfl

theorem toList_listingRow (index : Nat) (i : Instruction) : (listingRow index i).toList =
    Binary64.paddedDigits 4 index ++ [' ', ' '] ++ i.render.toList := by
  rw [listingRow, String.toList_append, String.toList_append, numberRight, String.toList_ofList]
  rfl

theorem toList_header (c : Chunk) :
    c.header.toList = "-- chunk ".toList ++ c.name.toList ++ " --".toList := by
  rw [header, String.toList_append, String.toList_append]
  rfl

theorem header_injective (h : c.header = d.header) : c.name = d.name :=
  (String.append_right_inj _).mp ((String.append_left_inj _).mp h)

theorem listingRow_injective {index : Nat} {i j : Instruction} (hi : i.IsLegible)
    (hj : j.IsLegible) (h : listingRow index i = listingRow index j) : i = j :=
  hi.render_injective hj ((String.append_right_inj _).mp h)

/-! ### Where the code ends -/

/-- The row begins with a digit. -/
def IsNumbered (r : String) : Prop := ∃ c ∈ r.toList.head?, c.isDigit

theorem isNumbered_listingRow (index : Nat) (i : Instruction) :
    IsNumbered (listingRow index i) := by
  have hlength := Binary64.le_length_paddedDigits 4 index
  obtain ⟨c, cs, hcs⟩ := List.exists_cons_of_length_pos (Nat.lt_of_lt_of_le (by decide) hlength)
  refine ⟨c, ?_, Binary64.isDigit_of_mem_paddedDigits (hcs ▸ List.mem_cons_self)⟩
  rw [toList_listingRow, hcs]
  rfl

theorem not_isNumbered_header (c : Chunk) : ¬ IsNumbered c.header := by
  rintro ⟨c', hc, hdigit⟩
  rw [toList_header] at hc
  obtain rfl : '-' = c' := Option.some.inj hc
  exact absurd hdigit (by decide)

/-- There are no rows, or the first one does not begin with a digit. -/
def EndsCode (rest : List String) : Prop := ∀ r ∈ rest.head?, ¬ IsNumbered r

theorem endsCode_listings (cs : List Chunk) : EndsCode (cs.flatMap listing) := by
  cases cs with
  | nil => exact nofun
  | cons c cs =>
    intro r hr
    obtain rfl : c.header = r := Option.some.inj hr
    exact c.not_isNumbered_header

theorem isNumbered_of_mem_codeRows {index : Nat} {code : List Instruction} {r : String}
    (h : r ∈ codeRows index code) : IsNumbered r := by
  obtain ⟨⟨i, k⟩, -, rfl⟩ := List.mem_map.mp h
  exact isNumbered_listingRow k i

theorem codeRows_injective {index : Nat} (hc : ∀ i ∈ code, i.IsLegible)
    (hd : ∀ i ∈ code', i.IsLegible) (h : codeRows index code = codeRows index code') :
    code = code' := by
  induction code generalizing code' index with
  | nil =>
    cases code' with
    | nil => rfl
    | cons j code' => exact absurd h (List.cons_ne_nil _ _).symm
  | cons i code ih =>
    cases code' with
    | nil => exact absurd h (List.cons_ne_nil _ _)
    | cons j code' =>
      obtain ⟨hi, hc⟩ := List.forall_mem_cons.mp hc
      obtain ⟨hj, hd⟩ := List.forall_mem_cons.mp hd
      rw [codeRows_cons, codeRows_cons, List.cons.injEq] at h
      rw [listingRow_injective hi hj h.1, ih hc hd h.2]

/-- A chunk is known from its rows and whatever comes after them, if that does not go on with
code. -/
theorem listing_append_injective (hc : c.IsLegible) (hd : d.IsLegible) (hrest : EndsCode rest)
    (hrest' : EndsCode rest') (h : c.listing ++ rest = d.listing ++ rest') :
    c = d ∧ rest = rest' := by
  rw [listing, listing, List.cons_append, List.cons_append, List.cons.injEq] at h
  -- behind the header, the code ends where the digits in front do
  obtain ⟨hcode, hrest⟩ := append_inj_of_head? (fun _ ↦ isNumbered_of_mem_codeRows)
    (fun _ ↦ isNumbered_of_mem_codeRows) hrest hrest' h.2
  refine ⟨?_, hrest⟩
  rcases c with ⟨name, code⟩
  rcases d with ⟨name', code'⟩
  rw [mk.injEq]
  exact ⟨header_injective h.1, codeRows_injective hc.code hd.code hcode⟩

theorem listings_injective {cs ds : List Chunk} (hcs : ∀ c ∈ cs, c.IsLegible)
    (hds : ∀ d ∈ ds, d.IsLegible) (h : cs.flatMap listing = ds.flatMap listing) : cs = ds := by
  induction cs generalizing ds with
  | nil =>
    cases ds with
    | nil => rfl
    | cons d ds => exact absurd h (List.cons_ne_nil _ _).symm
  | cons c cs ih =>
    cases ds with
    | nil => exact absurd h (List.cons_ne_nil _ _)
    | cons d ds =>
      obtain ⟨hc, hcs⟩ := List.forall_mem_cons.mp hcs
      obtain ⟨hd, hds⟩ := List.forall_mem_cons.mp hds
      rw [List.flatMap_cons, List.flatMap_cons] at h
      obtain ⟨hcd, hrest⟩ :=
        listing_append_injective hc hd (endsCode_listings cs) (endsCode_listings ds) h
      rw [hcd, ih hcs hds hrest]

/-! ### Rows and line ends -/

theorem IsLegible.newline_notMem_header (h : c.IsLegible) : '\n' ∉ c.header.toList := by
  rw [header, notMem_toList_append, notMem_toList_append]
  exact ⟨⟨by decide, h.newline_notMem⟩, by decide⟩

theorem newline_notMem_listingRow {i : Instruction} (h : i.IsLegible) (index : Nat) :
    '\n' ∉ (listingRow index i).toList := by
  rw [toList_listingRow, List.mem_append, List.mem_append, not_or, not_or]
  refine ⟨⟨fun hmem ↦ ?_, by decide⟩, h.newline_notMem⟩
  exact absurd (Binary64.isDigit_of_mem_paddedDigits hmem) (by decide)

theorem IsLegible.newline_notMem_listing (h : c.IsLegible) :
    ∀ r ∈ c.listing, '\n' ∉ r.toList := by
  refine List.forall_mem_cons.mpr ⟨h.newline_notMem_header, List.forall_mem_map.mpr ?_⟩
  rintro ⟨i, index⟩ hi
  exact newline_notMem_listingRow (h.code i (List.fst_mem_of_mem_zipIdx hi)) index

end Chunk

/-! ## Modules -/

namespace Module

variable {m n : Module}

/-- The modules that are known from their listings. -/
structure IsLegible (m : Module) : Prop where
  /-- The header is one row. -/
  newline_notMem : '\n' ∉ m.name.toList
  /-- The chunks are known from theirs. -/
  chunks : ∀ c ∈ m.chunks, c.IsLegible

/-- The row above the chunks of a module. -/
def header (m : Module) : String := s!"== module {m.name} =="

/-- The rows of a module. -/
def listing (m : Module) : List String := m.header :: m.chunks.flatMap Chunk.listing

theorem render_eq_rows (m : Module) : m.render = rows m.listing := by
  rw [listing, rows_cons, rows_flatMap]
  rfl

theorem IsLegible.newline_notMem_listing (h : m.IsLegible) :
    ∀ r ∈ m.listing, '\n' ∉ r.toList := by
  refine List.forall_mem_cons.mpr ⟨?_, fun r hr ↦ ?_⟩
  · rw [header, notMem_toList_append, notMem_toList_append]
    exact ⟨⟨by decide, h.newline_notMem⟩, by decide⟩
  · obtain ⟨c, hc, hr⟩ := List.mem_flatMap.mp hr
    exact (h.chunks c hc).newline_notMem_listing r hr

theorem IsLegible.render_injective (hm : m.IsLegible) (hn : n.IsLegible)
    (h : m.render = n.render) : m = n := by
  rw [render_eq_rows, render_eq_rows] at h
  have hrows := rows_injective hm.newline_notMem_listing hn.newline_notMem_listing h
  rw [listing, listing, List.cons.injEq] at hrows
  have hname : m.name = n.name :=
    (String.append_right_inj _).mp ((String.append_left_inj _).mp hrows.1)
  rcases m with ⟨name, chunks⟩
  rcases n with ⟨name', chunks'⟩
  rw [mk.injEq]
  exact ⟨hname, Chunk.listings_injective hm.chunks hn.chunks hrows.2⟩

end Module

/-! ## Lowered modules -/

theorem Tree.name_of_lower {t : Tree} {m : Module} (h : t.lower = .ok m) : m.name = "main" := by
  cases t with
  | root ds =>
    rw [lower] at h
    split at h
    · rw [← Except.ok.inj h]
    · exact absurd h (by simp)
  | _ => exact absurd h (by simp [lower])

theorem Tree.isLegible_of_lower {t : Tree} {m : Module} (h : t.lower = .ok m)
    (hname : ∀ c ∈ m.chunks, '\n' ∉ c.name.toList) (hnan : ∀ c ∈ m.chunks, ¬ c.HasNaN) :
    m.IsLegible := by
  refine ⟨?_, fun c hc ↦ ⟨hname c hc, fun i hi ↦ ⟨?_, fun x hx hisNaN ↦ ?_⟩⟩⟩
  · rw [name_of_lower h]
    decide
  · exact (Chunk.Obtainable.lowered h hc).isRegular i hi
  · exact hnan c hc ⟨i, hi, x, hx, hisNaN⟩

/-- **Listings are faithful.** Modules of any trees are the same, bit for bit, if their listings
are, whatever their names look like, unless a name has a line end or a constant is a NaN. -/
theorem Tree.lower_eq_of_listing_eq {t u : Tree} {m n : Module} (ht : t.lower = .ok m)
    (hu : u.lower = .ok n) (hm : ∀ c ∈ m.chunks, '\n' ∉ c.name.toList)
    (hn : ∀ c ∈ n.chunks, '\n' ∉ c.name.toList) (hx : ∀ c ∈ m.chunks, ¬ c.HasNaN)
    (hy : ∀ c ∈ n.chunks, ¬ c.HasNaN) (h : m.render = n.render) : m = n :=
  (isLegible_of_lower ht hm hx).render_injective (isLegible_of_lower hu hn hy) h

/-- A name may look like an instruction, and another like a header. The listing does not show
parameters, nor operations that stand for their only operand. -/
theorem Tree.lower_eq_of_listing_eq_row : ∃ (t u : Tree) (m n : Module), t ≠ u ∧
    t.lower = .ok m ∧ u.lower = .ok n ∧
    m.render = "== module main ==\n-- chunk 0000  RET --\n0000  STORE_CONST 1\n0001  RET\n" ++
      "-- chunk f --\n-- chunk -- chunk g -- --\n" ∧ m.render = n.render ∧ m = n := by
  let one : Tree := .value ⟨0x3FF0000000000000⟩
  let t : Tree := .root [.function "0000  RET" ["x"] [.ret (.ofOperand one)], .function "f" [] [],
    .function "-- chunk g --" [] []]
  let u : Tree := .root [.function "0000  RET" [] [.ret (.ofOperand (.operation (.ofOperand one)))],
    .function "f" [] [], .function "-- chunk g --" [] []]
  let m : Module := ⟨"main", [⟨"0000  RET", [.constant ⟨0x3FF0000000000000⟩, .plain .ret]⟩,
    ⟨"f", []⟩, ⟨"-- chunk g --", []⟩]⟩
  have ht : t.lower = .ok m := by decide +kernel
  have hu : u.lower = .ok m := by decide +kernel
  have hname : ∀ c ∈ m.chunks, '\n' ∉ c.name.toList := by decide +kernel
  have hequal : ∀ c ∈ m.chunks, c.ieeeEq c := by decide +kernel
  have hnan : ∀ c ∈ m.chunks, ¬ c.HasNaN := fun c hc ↦ c.ieeeEq_self_iff.mp (hequal c hc)
  refine ⟨t, u, m, m, by simp [t, u], ht, hu, by decide +kernel, rfl, ?_⟩
  exact Tree.lower_eq_of_listing_eq ht hu hname hname hnan hnan rfl

/-! ## Modules of texts -/

/-- The chunks of a text are named by names. -/
theorem Source.newline_notMem_name_of_compile {s : Source} {m : Module} (h : s.compile = .ok m) :
    ∀ c ∈ m.chunks, '\n' ∉ c.name.toList := by
  intro c hc hmem
  obtain ⟨ls, hlexeme, part, hpart, hchunk⟩ := exists_isChunkOf h hc
  obtain ⟨name, hname, hkind, htext⟩ := hchunk.named
  have hidentifier : IsLexeme name.text.toList .identifier :=
    hkind ▸ hlexeme name (name_mem_of_mem_declared part hpart name hname) (by simp [hkind])
  exact absurd (hidentifier.isNameChar_of_mem '\n' (htext ▸ hmem)) (by decide)

/-- So the listings of texts tell their modules apart. -/
theorem Source.compile_eq_of_listing_eq {s s' : Source} {m n : Module} (hm : s.compile = .ok m)
    (hn : s'.compile = .ok n) (h : m.render = n.render) : m = n := by
  have hlegible {s : Source} {m : Module} (h : s.compile = .ok m) : m.IsLegible := by
    obtain ⟨p, -, hp⟩ := compile_eq_ok_iff.mp h
    exact Tree.isLegible_of_lower hp (newline_notMem_name_of_compile h) (not_hasNaN_of_compile h)
  exact (hlegible hm).render_injective (hlegible hn) h

end InfixCompiler
