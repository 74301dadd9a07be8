import InfixCompiler.Proofs.Compilation

/-!
# Two sources in a row

A source that compiles may be put before any other one. Both together have the chunks of both, or
the failure of the second, further on by the length of the first (`Source.compile_append`). Nothing
has to be put between them.

A source that compiles ends with the brace of its last function, perhaps with blanks behind it, and
a brace joins nothing. So the lexemes are those of both. The functions of the first are read, and
leave the reader as it was at the start, but with the lexemes of the second ahead, which are further
on than they were. Readers do not look at places, so the rest is `Parser.program_correspond`.
-/

namespace InfixCompiler

open Grammar Text

/-! ## Where a source ends -/

theorem IsLexeme.eq_spelling {text : List Char} {s : Symbol} (h : IsLexeme text (.symbol s)) :
    text = s.spelling.toList := by
  cases h
  rfl

theorem IsReading.eq_nil {cs : List Char} {ps : List Piece} (h : IsReading cs ps) (hcs : cs = []) :
    ps = [] := by
  cases h with
  | blanks _ => rfl
  | piece _ _ hlongest _ =>
    rw [List.append_eq_nil_iff, List.append_eq_nil_iff] at hcs
    exact absurd hcs.2.1 hlongest.isLexeme.ne_nil

/-- A text of which the last lexeme is a brace ends with that or with a blank. -/
theorem IsReading.isCloser {cs : List Char} {ps : List Piece} (h : IsReading cs ps)
    (hlast : ∀ p ∈ ps.getLast?, p.kind = .symbol .rightBrace) : ∀ x ∈ cs.getLast?, IsCloser x := by
  induction h with
  | blanks hws => exact fun x hx ↦ isCloser_of_isBlank (hws x (List.mem_of_getLast? hx))
  | @piece p rest ps _ _ hlongest hrest ih =>
    intro x hx
    rcases List.eq_nil_or_concat' rest with rfl | ⟨front, y, rfl⟩
    · obtain rfl := hrest.eq_nil rfl
      have hlexeme := hlongest.isLexeme
      rw [hlast p rfl] at hlexeme
      have hbrace : Symbol.rightBrace.spelling.toList = ['\x7d'] := rfl
      rw [List.append_nil, hlexeme.eq_spelling, hbrace, List.getLast?_concat] at hx
      obtain rfl := Option.some.inj hx
      exact ⟨by decide, by decide⟩
    · rw [← List.append_assoc, ← List.append_assoc, List.getLast?_concat] at hx
      refine ih (fun q hq ↦ hlast q ?_) x (by rwa [List.getLast?_concat])
      rw [List.getLast?_cons, Option.mem_def.mp hq]
      rfl

theorem map_kind_tokens (offset : Nat) (ps : List Piece) :
    (Piece.tokens offset ps).map Token.kind = ps.map Piece.kind := by
  induction ps generalizing offset with
  | nil => rfl
  | cons p ps ih => rw [Piece.tokens, List.map_cons, List.map_cons, ih]

theorem Lexes.apart {a b : List Char} {ls : List Lexeme} (h : Lexes [] a ls)
    (hlast : ∀ l ∈ ls.getLast?, l.kind = .symbol .rightBrace) : Apart a b := by
  obtain ⟨ps, hps⟩ := exists_isReading (congrArg Scan.failure? h.scan)
  have hkinds : ps.map Piece.kind = ls.map Lexeme.kind := by
    have hscan := h.scan
    rw [scan_of_isReading hps] at hscan
    rw [← map_kind_tokens, (Scan.mk.inj hscan).1, List.map_map]
    rfl
  refine apart_of_isCloser (hps.isCloser fun p hp ↦ ?_)
  have hkind : p.kind ∈ (ls.map Lexeme.kind).getLast? := by
    rw [← hkinds, List.getLast?_map, Option.mem_def.mp hp]
    rfl
  rw [List.getLast?_map] at hkind
  obtain ⟨l, hl, hkind⟩ := Option.map_eq_some_iff.mp hkind
  rw [← hkind, hlast l hl]

theorem Grammar.getLast?_declarations (ds : List Declaration) :
    ∀ l ∈ (ds.flatMap Declaration.lexemes).getLast?, l.kind = .symbol .rightBrace := by
  intro l hl
  rw [List.getLast?_flatMap] at hl
  obtain ⟨d, -, hd⟩ := List.exists_of_findSome?_eq_some hl
  have hlexemes : d.lexemes = d.header ++ (d.leftBrace.1 :: d.body.flatMap Statement.lexemes)
      ++ [d.rightBrace.1] := by
    simp [Declaration.lexemes]
  rw [hlexemes, List.getLast?_concat] at hd
  obtain rfl := Option.some.inj hd
  exact d.rightBrace.2

/-! ## Failures further on -/

/-- The second token is the first one, `k` bytes further on. -/
def IsShift (k : Nat) (t t' : Token) : Prop := t' = t.shift k

theorem keepsKinds_isShift (k : Nat) : KeepsKinds (IsShift k) := by
  rintro t _ rfl
  rfl

theorem Cursor.alike_shift (ls : List Lexeme) (size k : Nat) :
    Cursor.Alike (IsShift k) ⟨ls, size, 0, 0⟩ ⟨ls.map (Lexeme.shift k), size + k, 0, 0⟩ := by
  refine ⟨?_, ⟨rfl, rfl⟩, rfl⟩
  rw [List.forall₂_map_right_iff, List.forall₂_same]
  exact fun l _ ↦ ⟨rfl, rfl⟩

theorem Span.combine_shift (source : Source) (k : Nat) (a b : Span) :
    (a.shift source k).combine (b.shift source k) = (a.combine b).shift source k := by
  simp only [combine, shift, stop, Span.mk.injEq, true_and]
  omega

section Places

variable {s t : Source} {k : Nat} (hsize : t.size = s.size + k)
include hsize

theorem Span.point_shift : Span.point t t.size = (Span.point s s.size).shift t k := by
  rw [point, hsize]
  rfl

theorem Token.place_shift (token : Token) :
    (token.shift k).place t = (token.place s).shift t k := by
  rw [Token.place, Token.place, Span.point_shift hsize, apply_ite (Span.shift t k)]
  rfl

theorem ParseFault.Alike.notes_shift {f f' : ParseFault} (h : f.Alike (IsShift k) f') :
    f'.notes t = (f.notes s).map (Note.shift t k) := by
  cases h with
  | unexpected e h | tooDeep limit h | badNumber h =>
    rw [show _ = _ from h]
    simp only [ParseFault.notes, Token.place_shift hsize]
    rfl
  | unclosedBlock h =>
    rw [show _ = _ from h]
    simp only [ParseFault.notes, Token.place_shift hsize, Span.point_shift hsize,
      Span.combine_shift]
    rfl

theorem ParseFault.Alike.diagnostic_shift {f f' : ParseFault} (h : f.Alike (IsShift k) f') :
    f'.diagnostic t = (f.diagnostic s).shift t k := by
  rw [diagnostic, diagnostic, Diagnostic.shift, h.notes_shift hsize,
    h.reason (keepsKinds_isShift k)]

end Places

/-! ## Programs in a row -/

theorem assemble_append {ds : List Tree} (h : (assemble ds).fault? = none) (es : List Tree) :
    assemble (ds ++ es) = ⟨(assemble ds).chunks ++ (assemble es).chunks, (assemble es).fault?⟩ := by
  induction ds with
  | nil => rfl
  | cons d ds ih =>
    cases d with
    | function name params body =>
      rw [List.cons_append, assemble, assemble]
      rw [assemble] at h
      dsimp only at h ⊢
      split at h
      · next hfault =>
        rw [ih h]
        rfl
      · exact absurd h (by simp)
    | _ => exact absurd h (by simp [assemble])

namespace Source

variable {s t u : Source} (hu : u.contents = s.contents ++ t.contents)
include hu

/-- What a source is read as behind another one that is a program. -/
theorem program_append {p : Program} (hp : s.program = .ok p) :
    (∀ q, t.program = .ok q → ∃ q', q.Alike (IsShift s.size) q' ∧
      u.program = .ok ⟨p.functions ++ q'.functions⟩) ∧
    ∀ fault, t.program = .error fault → ∃ fault', u.program = .error fault' ∧
      fault'.diagnostic u = (fault.diagnostic t).shift u s.size := by
  obtain ⟨ls, d, hls, hd, hwithin, rfl⟩ := program_eq_ok_iff.mp hp
  obtain ⟨rfl, -⟩ := List.append_inj' hd rfl
  have hapart : Apart s.chars t.chars := hls.apart (getLast?_declarations d.declarations)
  cases htokens : t.tokens with
  | error failure =>
    rw [program, program, htokens, tokens_append_of_error hu hls hapart htokens]
    refine ⟨fun q h ↦ absurd h (by simp), fun fault h ↦ ?_⟩
    obtain rfl := Except.error.inj h
    exact ⟨_, rfl, rfl⟩
  | ok tokens =>
    obtain ⟨ms, hms, -⟩ := exists_lexes_of_tokens htokens
    have hboth : Lexes [] u.chars (_ ++ ms.map (Lexeme.shift s.size)) :=
      lexes_append hu hls hms hapart
    have hread : ∀ l ∈ d.declarations.flatMap Declaration.lexemes, Readable l := fun l hl ↦
      ((ofTokens_of_lexes hls).2 l hl).readable
    have hstatements : ∀ f ∈ d.declarations, ∀ r ∈ f.body,
        Parser.StatementWithin defaultLimit (defaultLimit - 0) r := hwithin
    have hrun := Parser.run_program_append ⟨[], u.size, 0, 0⟩ d.declarations
      (ms.map (Lexeme.shift s.size)) hstatements hread
    have hresult := Parser.program_correspond (keepsKinds_isShift s.size) defaultLimit
      (Cursor.alike_shift ms t.size s.size)
    rw [← size_append hu] at hresult
    rw [program_of_lexes hms, program_of_lexes hboth]
    rw [EStateM.run_bind] at hrun
    dsimp only [Cursor.seek] at hrun
    rw [hrun]
    generalize (Parser.program defaultLimit).run ⟨ms, t.size, 0, 0⟩ = r at hresult ⊢
    generalize (Parser.program defaultLimit).run ⟨_, u.size, 0, 0⟩ = r' at hresult ⊢
    cases hresult with
    | ok hq _ =>
      refine ⟨fun q h ↦ ?_, fun fault h ↦ absurd h (by simp)⟩
      obtain rfl := Except.ok.inj h
      exact ⟨_, hq, rfl⟩
    | error hf _ =>
      refine ⟨fun q h ↦ absurd h (by simp), fun fault h ↦ ?_⟩
      obtain rfl := Except.error.inj h
      exact ⟨_, rfl, hf.diagnostic_shift (size_append hu)⟩

end Source

theorem Module.map_fst_find? (m : Module) (name : String) :
    (m.find? name).map Prod.fst = m.chunks.find? (·.name == name) := by
  rw [find?]
  generalize 0 = i
  induction m.chunks generalizing i with
  | nil => rfl
  | cons c cs ih =>
    rw [List.zipIdx_cons, List.find?_cons, List.find?_cons]
    dsimp only
    cases c.name == name with
    | true => rfl
    | false => exact ih (i + 1)

/-- **Sources in a row.** Behind a source that compiles, another one adds its chunks, or fails as it
does alone, with all notes further on by the length of the first. A name is looked up in the first,
and in the second if the first does not have it. -/
theorem Source.compile_append {s t u : Source} (hu : u.contents = s.contents ++ t.contents)
    {m : Module} (h : s.compile = .ok m) :
    (∀ n, t.compile = .ok n → ∃ k, u.compile = .ok k ∧ k.name = m.name ∧
      k.chunks = m.chunks ++ n.chunks ∧ ∀ name, (k.find? name).map Prod.fst
        = ((m.find? name).map Prod.fst).or ((n.find? name).map Prod.fst)) ∧
    ∀ fault, t.compile = .error fault → ∃ fault', u.compile = .error fault' ∧
      fault'.diagnostic u = (fault.diagnostic t).shift u s.size := by
  obtain ⟨p, hp, hm⟩ := compile_eq_ok_iff.mp h
  obtain ⟨hfault, rfl⟩ := Program.lower_tree_eq_ok_iff.mp hm
  obtain ⟨hok, herror⟩ := program_append hu hp
  -- the code of both programs, if the second source spells one
  have hassemble {q q' : Program} (hq : q.Alike (IsShift s.size) q') :
      assemble ((p.functions ++ q'.functions).map Function.tree)
        = ⟨(assemble (p.functions.map Function.tree)).chunks ++
            (assemble (q.functions.map Function.tree)).chunks,
          (assemble (q.functions.map Function.tree)).fault?⟩ := by
    rw [List.map_append, assemble_append hfault, assemble_congr (keepsKinds_isShift s.size) hq]
  constructor
  · intro n hn
    obtain ⟨q, hq, hn⟩ := compile_eq_ok_iff.mp hn
    obtain ⟨hfault', rfl⟩ := Program.lower_tree_eq_ok_iff.mp hn
    obtain ⟨q', halike, hprogram⟩ := hok q hq
    refine ⟨_, compile_eq_ok_iff.mpr ⟨_, hprogram, Program.lower_tree_eq_ok_iff.mpr ⟨?_, rfl⟩⟩,
      rfl, ?_, fun name ↦ ?_⟩
    · rw [hassemble halike, hfault']
    · rw [hassemble halike]
    · rw [Module.map_fst_find?, Module.map_fst_find?, Module.map_fst_find?, hassemble halike,
        List.find?_append]
  · intro fault hf
    rcases compile_eq_error_iff.mp hf with hfault' | ⟨q, f, hq, hlower, rfl⟩
    · obtain ⟨fault', hfault', hdiagnostic⟩ := herror fault hfault'
      exact ⟨fault', compile_eq_error_iff.mpr (.inl hfault'), hdiagnostic⟩
    · obtain ⟨q', halike, hprogram⟩ := hok q hq
      rw [Program.lower_tree_eq_error_iff] at hlower
      refine ⟨.lowering f, compile_eq_error_iff.mpr (.inr ⟨_, f, hprogram, ?_, rfl⟩), rfl⟩
      rw [Program.lower_tree_eq_error_iff, hassemble halike, hlower]

/-- A function behind another one, with and without the brace that closes it. -/
theorem Source.compile_append_unclosed :
    (∃ k, (ofString "func f() \x7b\x7dfunc g() \x7b\x7d").compile = .ok k ∧
      k.chunks = [⟨"f", []⟩, ⟨"g", []⟩] ∧ (k.find? "g").map Prod.fst = some ⟨"g", []⟩) ∧
    ∃ fault, (ofString "func f() \x7b\x7dfunc g() \x7b").compile = .error fault ∧
      fault.diagnostic (ofString "func f() \x7b\x7dfunc g() \x7b")
        = ((CompileFault.parsing (.unclosedBlock ⟨.symbol .leftBrace, 9, 1⟩)).diagnostic
            (ofString "func g() \x7b")).shift
          (ofString "func f() \x7b\x7dfunc g() \x7b") (ofString "func f() \x7b\x7d").size := by
  have hf : (ofString "func f() \x7b\x7d").compile = .ok ⟨"main", [⟨"f", []⟩]⟩ := by
    decide +kernel
  have hg : (ofString "func g() \x7b\x7d").compile = .ok ⟨"main", [⟨"g", []⟩]⟩ := by
    decide +kernel
  have hopen : (ofString "func g() \x7b").compile
      = .error (.parsing (.unclosedBlock ⟨.symbol .leftBrace, 9, 1⟩)) := by
    decide +kernel
  obtain ⟨k, hk, -, hchunks, hfind⟩ :=
    (compile_append (u := ofString "func f() \x7b\x7dfunc g() \x7b\x7d") rfl hf).1 _ hg
  exact ⟨⟨k, hk, hchunks, hfind "g"⟩,
    (compile_append (u := ofString "func f() \x7b\x7dfunc g() \x7b") rfl hf).2 _ hopen⟩

end InfixCompiler
