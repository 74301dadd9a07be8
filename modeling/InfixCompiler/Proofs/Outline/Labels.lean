import InfixCompiler.Proofs.Lexing.Concatenation
import InfixCompiler.Proofs.Numbers
import InfixCompiler.Proofs.Outline
import InfixCompiler.Proofs.Text.Rows

/-!
# Labels and printed trees

A printed tree has one row for each entry of its outline. The depth is known from the blanks before
the label, as no label begins with one. A label begins with a word, which is different for each form
and ends at the first blank, and goes on with what the node has of its own. Names end before the
first character that is in no name, be it a parenthesis or a comma, so the parameters of a function
can be told apart. A symbol is the only one of its spelling, and a number is printed as no other is.

All this is so if names are names, operators symbols and numbers not NaN. Then a tree is known from
what is printed, but for the places of its operators (`Tree.IsLegible.unplaced_eq`).
-/

namespace InfixCompiler

open Text

/-! ## Names in a row -/

/-- The text could be a name. -/
def IsName (s : String) : Prop := s.toList ≠ [] ∧ ∀ c ∈ s.toList, isNameChar c

theorem IsName.notMem {s : String} (h : IsName s) {c : Char} (hc : ¬ isNameChar c) :
    c ∉ s.toList := fun hmem ↦ hc (h.2 c hmem)

/-- Names, each with a comma in front. -/
def commaNames (names : List String) : List Char := names.flatMap fun s ↦ ',' :: ' ' :: s.toList

theorem not_isNameChar_head?_commaNames (names : List String) :
    ∀ c ∈ (commaNames names).head?, ¬ isNameChar c := by
  cases names with
  | nil => exact nofun
  | cons s names =>
    rintro c ⟨⟩
    decide

theorem toList_intercalate_comma (s : String) (names : List String) :
    (String.intercalate ", " (s :: names)).toList = s.toList ++ commaNames names := by
  induction names generalizing s with
  | nil => simp [commaNames]
  | cons s' names ih =>
    rw [String.intercalate_cons_cons, String.toList_append, ih, String.toList_append,
      List.append_assoc]
    rfl

theorem commaNames_cons (s : String) (names : List String) : commaNames (s :: names) =
    ',' :: ' ' :: (String.intercalate ", " (s :: names)).toList := by
  rw [toList_intercalate_comma]
  rfl

theorem commaNames_injective {names names' : List String} (h : ∀ s ∈ names, IsName s)
    (h' : ∀ s ∈ names', IsName s) (heq : commaNames names = commaNames names') :
    names = names' := by
  induction names generalizing names' with
  | nil =>
    cases names' with
    | nil => rfl
    | cons s' names' => exact absurd heq nofun
  | cons s names ih =>
    cases names' with
    | nil => exact absurd heq nofun
    | cons s' names' =>
      obtain ⟨hs, h⟩ := List.forall_mem_cons.mp h
      obtain ⟨hs', h'⟩ := List.forall_mem_cons.mp h'
      rw [commaNames, commaNames, List.flatMap_cons, List.flatMap_cons, List.cons_append,
        List.cons_append, List.cons_append, List.cons_append, List.cons.injEq,
        List.cons.injEq] at heq
      obtain ⟨hname, hnames⟩ := append_inj_of_head? hs.2 hs'.2
        (not_isNameChar_head?_commaNames names) (not_isNameChar_head?_commaNames names') heq.2.2
      rw [String.toList_inj.mp hname, ih h h' hnames]

theorem newline_notMem_intercalate_comma {names : List String} (h : ∀ s ∈ names, IsName s) :
    '\n' ∉ (String.intercalate ", " names).toList := by
  have hname {s : String} (hs : IsName s) : '\n' ∉ s.toList := hs.notMem (by decide)
  cases names with
  | nil => exact nofun
  | cons s names =>
    obtain ⟨hs, h⟩ := List.forall_mem_cons.mp h
    rw [toList_intercalate_comma, List.mem_append, not_or]
    refine ⟨hname hs, fun hmem ↦ ?_⟩
    obtain ⟨s', hs', hmem⟩ := List.mem_flatMap.mp hmem
    rw [List.mem_cons, List.mem_cons] at hmem
    rcases hmem with hcomma | hspace | hmem
    · exact absurd hcomma (by decide)
    · exact absurd hspace (by decide)
    · exact hname (h s' hs') hmem

theorem intercalate_comma_injective {names names' : List String} (h : ∀ s ∈ names, IsName s)
    (h' : ∀ s ∈ names', IsName s)
    (heq : String.intercalate ", " names = String.intercalate ", " names') : names = names' := by
  have hne {s : String} (hs : IsName s) (names : List String) :
      String.intercalate ", " (s :: names) ≠ "" := by
    rw [ne_eq, ← String.toList_inj, toList_intercalate_comma]
    exact List.append_ne_nil_of_left_ne_nil hs.1 _
  cases names with
  | nil =>
    cases names' with
    | nil => rfl
    | cons s' names' => exact absurd heq.symm (hne (List.forall_mem_cons.mp h').1 names')
  | cons s names =>
    cases names' with
    | nil => exact absurd heq (hne (List.forall_mem_cons.mp h).1 names)
    | cons s' names' =>
      refine commaNames_injective h h' ?_
      rw [commaNames_cons, commaNames_cons, heq]

/-! ## Labels -/

/-- A token of a symbol, as long as the symbol is. -/
def Token.IsSymbol (t : Token) : Prop :=
  ∃ s : Symbol, t.kind = .symbol s ∧ t.length = byteLength s.spelling.toList

namespace Tree.Label

variable {l l' : Tree.Label}

/-- The labels that are known from their texts, but for the places of operators. -/
def IsLegible : Tree.Label → Prop
  | function name params => IsName name ∧ ∀ s ∈ params, IsName s
  | operation operator? => ∀ t ∈ operator?, t.IsSymbol
  | value x => ¬ x.isNaN
  | root | block | ret => True

/-- The word that a label begins with. -/
def word : Tree.Label → String
  | root => "Root"
  | function .. => "Func"
  | block => "Block"
  | ret => "Return"
  | operation _ => "Expr"
  | value _ => "Value"

/-- What a label shows behind its word. -/
def details : Tree.Label → String
  | function name params => " " ++ (name ++ ("(" ++ (String.intercalate ", " params ++ ")")))
  | operation operator? =>
    match operator?.bind fun t ↦ t.kind.spelling? with
    | some spelling => " " ++ spelling
    | none => ""
  | value x => " " ++ x.render
  | root | block | ret => ""

theorem text_eq_append (l : Tree.Label) : l.text = l.word ++ l.details := by
  have hspace (s w rest : String) (h : s = w ++ " ") : s ++ rest = w ++ (" " ++ rest) := by
    rw [h, String.append_assoc]
  cases l with
  | function name params =>
    rw [word, details, ← hspace "Func " "Func" _ (by decide)]
    exact (String.append_assoc ..).trans ((String.append_assoc ..).trans (String.append_assoc ..))
  | operation operator? =>
    rw [text, word, details]
    cases operator?.bind fun t ↦ t.kind.spelling? with
    | some spelling => exact hspace "Expr " "Expr" _ (by decide)
    | none => exact String.append_empty.symm
  | value x => exact hspace "Value " "Value" _ (by decide)
  | _ => exact String.append_empty.symm

theorem notMem_word {c : Char} (hc : c = ' ' ∨ c = '\n') (l : Tree.Label) : c ∉ l.word.toList := by
  rcases hc with rfl | rfl <;> cases l <;> simp only [word] <;> decide

theorem word_ne_nil (l : Tree.Label) : l.word.toList ≠ [] := by
  cases l <;> simp only [word] <;> decide

theorem head?_details (l : Tree.Label) : ∀ c ∈ l.details.toList.head?, c = ' ' := by
  have hspace (rest : String) : ∀ c ∈ (" " ++ rest).toList.head?, c = ' ' := by
    rw [String.toList_append]
    rintro c ⟨⟩
    rfl
  cases l with
  | function name params => exact hspace _
  | operation operator? =>
    rw [details]
    cases operator?.bind fun t ↦ t.kind.spelling? with
    | some spelling => exact hspace _
    | none => exact nofun
  | value x => exact hspace _
  | _ => exact nofun

theorem head?_text (l : Tree.Label) : ∀ c ∈ l.text.toList.head?, c ≠ ' ' := by
  intro c hc hspace
  rw [text_eq_append, String.toList_append, List.head?_append_of_ne_nil _ l.word_ne_nil] at hc
  exact l.notMem_word (.inl hspace) (List.mem_of_mem_head? hc)

/-- The word of a label ends at the first blank. -/
theorem word_eq_of_text_eq (h : l.text = l'.text) : l.word = l'.word ∧ l.details = l'.details := by
  rw [text_eq_append, text_eq_append, ← String.toList_inj, String.toList_append,
    String.toList_append] at h
  have hfront (l : Tree.Label) : ∀ c ∈ l.word.toList, c ≠ ' ' :=
    fun c hc hspace ↦ l.notMem_word (.inl hspace) hc
  have hrest (l : Tree.Label) : ∀ c ∈ l.details.toList.head?, ¬ c ≠ ' ' :=
    fun c hc hne ↦ hne (l.head?_details c hc)
  obtain ⟨hword, hdetails⟩ := append_inj_of_head? (hfront l) (hfront l') (hrest l) (hrest l') h
  exact ⟨String.toList_inj.mp hword, String.toList_inj.mp hdetails⟩

theorem function_eq_of_details_eq {name name' : String} {params params' : List String}
    (h : (function name params).IsLegible) (h' : (function name' params').IsLegible)
    (heq : (function name params).details = (function name' params').details) :
    function name params = function name' params' := by
  rw [details, details, String.append_right_inj] at heq
  have hlist := congrArg String.toList heq
  rw [String.toList_append, @String.toList_append name'] at hlist
  have hrest (rest : String) : ∀ c ∈ ("(" ++ rest).toList.head?, ¬ isNameChar c := by
    rw [String.toList_append]
    rintro c ⟨⟩
    decide
  obtain ⟨hname, hparams⟩ := append_inj_of_head? h.1.2 h'.1.2 (hrest _) (hrest _) hlist
  rw [String.toList_inj, String.append_right_inj, String.append_left_inj] at hparams
  rw [String.toList_inj.mp hname, intercalate_comma_injective h.2 h'.2 hparams]

theorem details_operation {t : Token} {s : Symbol} (h : t.kind = .symbol s) :
    (operation (some t)).details = " " ++ s.spelling := by
  rw [details, Option.bind_some, h]
  rfl

theorem operation_eq_of_details_eq {operator? operator'? : Option Token}
    (h : (operation operator?).IsLegible) (h' : (operation operator'?).IsLegible)
    (heq : (operation operator?).details = (operation operator'?).details) :
    (operation operator?).unplaced = (operation operator'?).unplaced := by
  have hne (s : String) : " " ++ s ≠ "" := by
    rw [ne_eq, ← String.toList_inj, String.toList_append]
    exact nofun
  cases operator? with
  | none =>
    cases operator'? with
    | none => rfl
    | some t' =>
      obtain ⟨s', hkind', -⟩ := h' t' rfl
      rw [details_operation hkind'] at heq
      exact absurd heq.symm (hne _)
  | some t =>
    obtain ⟨s, hkind, hlength⟩ := h t rfl
    rw [details_operation hkind] at heq
    cases operator'? with
    | none => exact absurd heq (hne _)
    | some t' =>
      obtain ⟨s', hkind', hlength'⟩ := h' t' rfl
      rw [details_operation hkind', String.append_right_inj] at heq
      have hkinds : Kind.symbol s = .symbol s' := (IsLexeme.symbol s).unique (heq ▸ .symbol s')
      rw [← heq, ← hlength] at hlength'
      rw [unplaced, unplaced, Option.map_some, Option.map_some, Token.unplaced, Token.unplaced,
        hkind, hkind', hkinds, hlength']

/-- A label is known from its text, but for the place of its operator. -/
theorem IsLegible.unplaced_eq (h : l.IsLegible) (h' : l'.IsLegible) (heq : l.text = l'.text) :
    l.unplaced = l'.unplaced := by
  obtain ⟨hword, hdetails⟩ := word_eq_of_text_eq heq
  cases l with
  | root =>
    cases l' with
    | root => rfl
    | _ => exact absurd hword (by simp [word])
  | function name params =>
    cases l' with
    | function name' params' => exact function_eq_of_details_eq h h' hdetails
    | _ => exact absurd hword (by simp [word])
  | block =>
    cases l' with
    | block => rfl
    | _ => exact absurd hword (by simp [word])
  | ret =>
    cases l' with
    | ret => rfl
    | _ => exact absurd hword (by simp [word])
  | operation operator? =>
    cases l' with
    | operation operator'? => exact operation_eq_of_details_eq h h' hdetails
    | _ => exact absurd hword (by simp [word])
  | value x =>
    cases l' with
    | value y =>
      have hrender : x.render = y.render := (String.append_right_inj _).mp hdetails
      exact congrArg value (Binary64.render_injective h h' hrender)
    | _ => exact absurd hword (by simp [word])

theorem IsLegible.newline_notMem (h : l.IsLegible) : '\n' ∉ l.text.toList := by
  have hspace {rest : String} (hrest : '\n' ∉ rest.toList) : '\n' ∉ (" " ++ rest).toList := by
    rw [notMem_toList_append]
    exact ⟨by decide, hrest⟩
  rw [text_eq_append, notMem_toList_append]
  refine ⟨l.notMem_word (.inr rfl), ?_⟩
  cases l with
  | function name params =>
    refine hspace ?_
    rw [notMem_toList_append, notMem_toList_append, notMem_toList_append]
    exact ⟨h.1.notMem (by decide), by decide, newline_notMem_intercalate_comma h.2, by decide⟩
  | operation operator? =>
    cases operator? with
    | none => exact nofun
    | some t =>
      obtain ⟨s, hkind, -⟩ := h t rfl
      rw [details_operation hkind]
      refine hspace ?_
      cases s <;> decide
  | value x => exact hspace x.newline_notMem_render
  | _ => exact nofun

end Tree.Label

/-! ## Printed trees -/

namespace Tree

variable {t u : Tree}

/-- Trees that are known from what is printed, but for the places of operators. -/
def IsLegible (t : Tree) : Prop := ∀ depth, ∀ x ∈ t.outline depth, x.2.IsLegible

/-- The row of an entry of an outline. -/
def outlineRow (x : Nat × Tree.Label) : String := blank (2 * x.1) ++ x.2.text

theorem render_eq_rows (t : Tree) : t.render = rows ((t.outline 0).map outlineRow) := rfl

theorem toList_outlineRow (x : Nat × Tree.Label) :
    (outlineRow x).toList = List.replicate (2 * x.1) ' ' ++ x.2.text.toList := by
  rw [outlineRow, String.toList_append, toList_blank]

theorem newline_notMem_outlineRow {x : Nat × Tree.Label} (h : x.2.IsLegible) :
    '\n' ∉ (outlineRow x).toList := by
  rw [toList_outlineRow, List.mem_append, not_or]
  exact ⟨fun hmem ↦ absurd (List.eq_of_mem_replicate hmem) (by decide), h.newline_notMem⟩

/-- The depth of an entry is known from the blanks in front of its label. -/
theorem unplacedEntry_eq_of_outlineRow_eq {x y : Nat × Tree.Label} (hx : x.2.IsLegible)
    (hy : y.2.IsLegible) (h : outlineRow x = outlineRow y) :
    unplacedEntry x = unplacedEntry y := by
  have hlist := congrArg String.toList h
  rw [toList_outlineRow, toList_outlineRow] at hlist
  have hblank (n : Nat) : ∀ c ∈ List.replicate n ' ', c = ' ' := fun _ ↦ List.eq_of_mem_replicate
  obtain ⟨hdepth, htext⟩ :=
    append_inj_of_head? (hblank _) (hblank _) x.2.head?_text y.2.head?_text hlist
  have hlength := congrArg List.length hdepth
  rw [List.length_replicate, List.length_replicate] at hlength
  rw [unplacedEntry, unplacedEntry, hx.unplaced_eq hy (String.toList_inj.mp htext),
    Nat.eq_of_mul_eq_mul_left (by decide) hlength]

theorem map_unplacedEntry_eq {xs ys : List (Nat × Tree.Label)} (hxs : ∀ x ∈ xs, x.2.IsLegible)
    (hys : ∀ y ∈ ys, y.2.IsLegible) (h : xs.map outlineRow = ys.map outlineRow) :
    xs.map unplacedEntry = ys.map unplacedEntry := by
  induction xs generalizing ys with
  | nil => rw [List.map_eq_nil_iff.mp h.symm]
  | cons x xs ih =>
    cases ys with
    | nil => exact absurd h (List.cons_ne_nil _ _)
    | cons y ys =>
      obtain ⟨hx, hxs⟩ := List.forall_mem_cons.mp hxs
      obtain ⟨hy, hys⟩ := List.forall_mem_cons.mp hys
      obtain ⟨hrow, hrows⟩ := List.cons.inj h
      rw [List.map_cons, List.map_cons, unplacedEntry_eq_of_outlineRow_eq hx hy hrow,
        ih hxs hys hrows]

theorem IsLegible.unplaced_eq (ht : t.IsLegible) (hu : u.IsLegible) (h : t.render = u.render) :
    t.unplaced = u.unplaced := by
  have hnewline {t : Tree} (ht : t.IsLegible) :
      ∀ r ∈ (t.outline 0).map outlineRow, '\n' ∉ r.toList :=
    List.forall_mem_map.mpr fun x hx ↦ newline_notMem_outlineRow (ht 0 x hx)
  rw [render_eq_rows, render_eq_rows] at h
  have hrows := rows_injective (hnewline ht) (hnewline hu) h
  have hentries := map_unplacedEntry_eq (ht 0) (hu 0) hrows
  rw [← outline_unplaced, ← outline_unplaced] at hentries
  exact outline_injective hentries

/-- Places of operators are not printed. -/
theorem render_unplaced (t : Tree) : t.unplaced.render = t.render := by
  have hrow (x : Nat × Tree.Label) : outlineRow (unplacedEntry x) = outlineRow x := by
    rcases x with ⟨depth, label⟩
    cases label with
    | operation operator? => cases operator? <;> rfl
    | _ => rfl
  rw [render_eq_rows, outline_unplaced, List.map_map, render_eq_rows]
  exact congrArg rows (List.map_congr_left fun x _ ↦ hrow x)

end Tree

end InfixCompiler
