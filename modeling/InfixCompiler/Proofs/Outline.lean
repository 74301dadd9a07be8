import InfixCompiler.Tree.Lowering
import InfixCompiler.Tree.Outline

/-!
# Outlines and trees

The outline of a tree has depths and labels in a row, and nothing that says where a part ends. But
all that is beneath a node is deeper than the node is. So what comes after a part begins at the
first entry that is not deeper (`IsOutside`), and a tree is known from its outline and whatever
comes after it (`Tree.outline_append_injective`). The induction is on the tree, with the trees of a
list and an operation with its operands beside it; the one place to look at is behind a left
operand, where a right one is deeper than the operation and anything else is not.

Labels have the tokens of operators, and with them places in a text, which are neither printed nor
turned to code. `Tree.unplaced` forgets them, in the tree and in its outline.
-/

namespace InfixCompiler

/-! ## Trees without places -/

/-- The token at the beginning of the text. -/
def Token.unplaced (t : Token) : Token := { t with start := 0 }

mutual

/-- The tree with all its operators at the beginning of the text. -/
def Tree.unplaced : Tree → Tree
  | .root ds => .root (Tree.unplacedList ds)
  | .function name params body => .function name params (Tree.unplacedList body)
  | .block b => .block (Tree.unplacedList b)
  | .ret e => .ret e.unplaced
  | .operation e => .operation e.unplaced
  | .value x => .value x

/-- The operation with all its operators at the beginning of the text. -/
def Operation.unplaced : Operation → Operation
  | ⟨operator?, left, some right⟩ =>
    ⟨operator?.map Token.unplaced, left.unplaced, some right.unplaced⟩
  | ⟨operator?, left, none⟩ => ⟨operator?.map Token.unplaced, left.unplaced, none⟩

/-- The trees with all their operators at the beginning of the text. -/
def Tree.unplacedList : List Tree → List Tree
  | [] => []
  | t :: ts => t.unplaced :: Tree.unplacedList ts

end

/-- The label with its operator at the beginning of the text. -/
def Tree.Label.unplaced : Tree.Label → Tree.Label
  | .operation operator? => .operation (operator?.map Token.unplaced)
  | l => l

/-- The entry of an outline with its operator at the beginning of the text. -/
def Tree.unplacedEntry (x : Nat × Tree.Label) : Nat × Tree.Label := (x.1, x.2.unplaced)

mutual

theorem Tree.outline_unplaced (depth : Nat) : ∀ t : Tree,
    t.unplaced.outline depth = (t.outline depth).map Tree.unplacedEntry
  | .root ds => by
    rw [Tree.unplaced, Tree.outline, Tree.outlines_unplaced, Tree.outline, List.map_cons]
    rfl
  | .function name params body => by
    rw [Tree.unplaced, Tree.outline, Tree.outlines_unplaced, Tree.outline, List.map_cons,
      List.map_cons]
    rfl
  | .block b => by
    rw [Tree.unplaced, Tree.outline, Tree.outlines_unplaced, Tree.outline, List.map_cons]
    rfl
  | .ret e => by
    rw [Tree.unplaced, Tree.outline, Operation.outline_unplaced, Tree.outline, List.map_cons]
    rfl
  | .operation e => by
    rw [Tree.unplaced, Tree.outline, Operation.outline_unplaced, Tree.outline]
  | .value x => rfl

theorem Operation.outline_unplaced (depth : Nat) : ∀ e : Operation,
    e.unplaced.outline depth = (e.outline depth).map Tree.unplacedEntry
  | ⟨operator?, left, some right⟩ => by
    rw [Operation.unplaced, Operation.outline, Tree.outline_unplaced, Tree.outline_unplaced,
      Operation.outline, List.map_cons, List.map_append]
    rfl
  | ⟨operator?, left, none⟩ => by
    rw [Operation.unplaced, Operation.outline, Tree.outline_unplaced, Operation.outline,
      List.map_cons]
    rfl

theorem Tree.outlines_unplaced (depth : Nat) : ∀ ts : List Tree,
    Tree.outlines depth (Tree.unplacedList ts) = (Tree.outlines depth ts).map Tree.unplacedEntry
  | [] => rfl
  | t :: ts => by
    rw [Tree.unplacedList, Tree.outlines, Tree.outline_unplaced, Tree.outlines_unplaced,
      Tree.outlines, List.map_append]

end

/-! ### Code -/

mutual

theorem Tree.lowerOperand_unplaced : ∀ t : Tree, t.unplaced.lowerOperand = t.lowerOperand
  | .operation e => by
    rw [Tree.unplaced, Tree.lowerOperand, Operation.lower_unplaced, Tree.lowerOperand]
  | .value _ | .root _ | .function .. | .block _ | .ret _ => rfl

theorem Operation.lower_unplaced : ∀ e : Operation, e.unplaced.lower = e.lower
  | ⟨some o, left, some right⟩ => by
    rw [Operation.unplaced, Option.map_some, Operation.lower, Tree.lowerOperand_unplaced,
      Tree.lowerOperand_unplaced, Operation.lower]
    rfl
  | ⟨none, left, some right⟩ => by
    rw [Operation.unplaced, Option.map_none, Operation.lower, Tree.lowerOperand_unplaced,
      Operation.lower]
  | ⟨some o, left, none⟩ => by
    rw [Operation.unplaced, Option.map_some, Operation.lower, Tree.lowerOperand_unplaced,
      Operation.lower]
    rfl
  | ⟨none, left, none⟩ => by
    rw [Operation.unplaced, Option.map_none, Operation.lower, Tree.lowerOperand_unplaced,
      Operation.lower]

end

theorem Tree.lowerStatement_unplaced (t : Tree) : t.unplaced.lowerStatement = t.lowerStatement := by
  cases t with
  | ret e => rw [Tree.unplaced, Tree.lowerStatement, Operation.lower_unplaced, Tree.lowerStatement]
  | _ => rfl

theorem lowerBody_unplaced (body : List Tree) :
    lowerBody (Tree.unplacedList body) = lowerBody body := by
  induction body with
  | nil => rfl
  | cons t body ih =>
    rw [Tree.unplacedList, lowerBody_cons, Tree.lowerStatement_unplaced, ih, lowerBody_cons]

theorem assemble_unplaced (declarations : List Tree) :
    assemble (Tree.unplacedList declarations) = assemble declarations := by
  induction declarations with
  | nil => rfl
  | cons t declarations ih =>
    cases t with
    | function name params body =>
      rw [Tree.unplacedList, Tree.unplaced, assemble, lowerBody_unplaced, ih, assemble]
    | _ => rfl

/-- Code has no places. -/
theorem Tree.lower_unplaced (t : Tree) : t.unplaced.lower = t.lower := by
  cases t with
  | root ds => rw [Tree.unplaced, Tree.lower, assemble_unplaced, Tree.lower]
  | _ => rfl

/-! ## Trees and outlines -/

/-- The label of the topmost node. -/
def Tree.label : Tree → Tree.Label
  | .root _ => .root
  | .function name params _ => .function name params
  | .block _ => .block
  | .ret _ => .ret
  | .operation e => .operation e.operator?
  | .value x => .value x

/-- What is beneath an operation at a depth. -/
def Operation.beneath (depth : Nat) : Operation → List (Nat × Tree.Label)
  | ⟨_, left, some right⟩ => left.outline (depth + 1) ++ right.outline (depth + 1)
  | ⟨_, left, none⟩ => left.outline (depth + 1)

/-- What is beneath the topmost node at a depth. -/
def Tree.beneath (depth : Nat) : Tree → List (Nat × Tree.Label)
  | .root ds => Tree.outlines (depth + 1) ds
  | .function _ _ body => (depth + 1, .block) :: Tree.outlines (depth + 2) body
  | .block b => Tree.outlines (depth + 1) b
  | .ret e => e.outline (depth + 1)
  | .operation e => e.beneath depth
  | .value _ => []

theorem Operation.outline_eq_cons (depth : Nat) (e : Operation) :
    e.outline depth = (depth, .operation e.operator?) :: e.beneath depth := by
  rcases e with ⟨operator?, left, _ | right⟩
  · rw [outline, beneath]
  · rw [outline, beneath]

theorem Tree.outline_eq_cons (depth : Nat) (t : Tree) :
    t.outline depth = (depth, t.label) :: t.beneath depth := by
  cases t with
  | operation e => exact e.outline_eq_cons depth
  | _ => rw [outline, label, beneath]

variable {depth : Nat} {rest rest' : List (Nat × Tree.Label)}

/-- There is nothing, or the first entry is not beneath this depth. -/
def IsOutside (depth : Nat) (rest : List (Nat × Tree.Label)) : Prop :=
  ∀ x ∈ rest.head?, x.1 ≤ depth

namespace IsOutside

theorem nil : IsOutside depth [] := nofun

theorem outline_append (t : Tree) (rest : List (Nat × Tree.Label)) :
    IsOutside depth (t.outline depth ++ rest) := by
  rw [t.outline_eq_cons]
  rintro x ⟨⟩
  exact Nat.le_refl depth

variable (h : IsOutside depth rest)
include h

theorem succ : IsOutside (depth + 1) rest := fun x hx ↦ Nat.le_succ_of_le (h x hx)

theorem outlines_append (ts : List Tree) :
    IsOutside (depth + 1) (Tree.outlines (depth + 1) ts ++ rest) := by
  cases ts with
  | nil => exact h.succ
  | cons t ts =>
    rw [Tree.outlines, List.append_assoc]
    exact outline_append t _

theorem ne_outline_append (t : Tree) (others : List (Nat × Tree.Label)) :
    rest ≠ t.outline (depth + 1) ++ others := by
  rintro rfl
  rw [t.outline_eq_cons] at h
  exact absurd (h _ rfl) (Nat.not_succ_le_self depth)

end IsOutside

/-- What outlines have first, and what they have behind it. -/
theorem Tree.label_eq_of_outline_append {t u : Tree}
    (h : t.outline depth ++ rest = u.outline depth ++ rest') :
    t.label = u.label ∧ t.beneath depth ++ rest = u.beneath depth ++ rest' := by
  rw [t.outline_eq_cons, u.outline_eq_cons, List.cons_append, List.cons_append,
    List.cons.injEq, Prod.mk.injEq] at h
  exact ⟨h.1.2, h.2⟩

theorem Operation.operator_eq_of_outline_append {e e' : Operation}
    (h : e.outline depth ++ rest = e'.outline depth ++ rest') :
    e.operator? = e'.operator? ∧ e.beneath depth ++ rest = e'.beneath depth ++ rest' := by
  rw [e.outline_eq_cons, e'.outline_eq_cons, List.cons_append, List.cons_append,
    List.cons.injEq, Prod.mk.injEq, Tree.Label.operation.injEq] at h
  exact ⟨h.1.2, h.2⟩

mutual

/-- A tree is known from its outline and whatever comes after it, if that is not beneath it. -/
theorem Tree.outline_append_injective {depth : Nat} {rest rest' : List (Nat × Tree.Label)}
    (hrest : IsOutside depth rest) (hrest' : IsOutside depth rest') : ∀ t u : Tree,
    t.outline depth ++ rest = u.outline depth ++ rest' → t = u ∧ rest = rest'
  | .root ds, u => fun h ↦ by
    obtain ⟨hlabel, hbeneath⟩ := Tree.label_eq_of_outline_append h
    cases u with
    | root es =>
      obtain ⟨rfl, hrest⟩ := Tree.outlines_append_injective hrest hrest' ds es hbeneath
      exact ⟨rfl, hrest⟩
    | _ => exact absurd hlabel nofun
  | .function name params body, u => fun h ↦ by
    obtain ⟨hlabel, hbeneath⟩ := Tree.label_eq_of_outline_append h
    cases u with
    | function name' params' body' =>
      obtain ⟨rfl, hrest⟩ := Tree.outlines_append_injective hrest.succ hrest'.succ body body'
        (List.cons.inj hbeneath).2
      obtain ⟨rfl, rfl⟩ := Tree.Label.function.inj hlabel
      exact ⟨rfl, hrest⟩
    | _ => exact absurd hlabel nofun
  | .block b, u => fun h ↦ by
    obtain ⟨hlabel, hbeneath⟩ := Tree.label_eq_of_outline_append h
    cases u with
    | block b' =>
      obtain ⟨rfl, hrest⟩ := Tree.outlines_append_injective hrest hrest' b b' hbeneath
      exact ⟨rfl, hrest⟩
    | _ => exact absurd hlabel nofun
  | .ret e, u => fun h ↦ by
    obtain ⟨hlabel, hbeneath⟩ := Tree.label_eq_of_outline_append h
    cases u with
    | ret e' =>
      obtain ⟨rfl, hrest⟩ :=
        Operation.outline_append_injective hrest.succ hrest'.succ e e' hbeneath
      exact ⟨rfl, hrest⟩
    | _ => exact absurd hlabel nofun
  | .operation e, u => fun h ↦ by
    obtain ⟨hlabel, -⟩ := Tree.label_eq_of_outline_append h
    cases u with
    | operation e' =>
      obtain ⟨rfl, hrest⟩ := Operation.outline_append_injective hrest hrest' e e' h
      exact ⟨rfl, hrest⟩
    | _ => exact absurd hlabel nofun
  | .value x, u => fun h ↦ by
    obtain ⟨hlabel, hbeneath⟩ := Tree.label_eq_of_outline_append h
    cases u with
    | value y =>
      obtain rfl := Tree.Label.value.inj hlabel
      exact ⟨rfl, hbeneath⟩
    | _ => exact absurd hlabel nofun

/-- An operation is known from its outline in the same way. Whether it has a right operand is known
from what comes after the left one. -/
theorem Operation.outline_append_injective {depth : Nat} {rest rest' : List (Nat × Tree.Label)}
    (hrest : IsOutside depth rest) (hrest' : IsOutside depth rest') : ∀ e e' : Operation,
    e.outline depth ++ rest = e'.outline depth ++ rest' → e = e' ∧ rest = rest'
  | ⟨operator?, left, some right⟩, e' => fun h ↦ by
    obtain ⟨hoperator, hbeneath⟩ := Operation.operator_eq_of_outline_append h
    obtain rfl : operator? = e'.operator? := hoperator
    rcases e' with ⟨operator?, left', _ | right'⟩
    · rw [Operation.beneath, Operation.beneath, List.append_assoc] at hbeneath
      obtain ⟨-, hright⟩ := Tree.outline_append_injective (.outline_append right rest) hrest'.succ
        left left' hbeneath
      exact absurd hright.symm (hrest'.ne_outline_append right rest)
    · rw [Operation.beneath, Operation.beneath, List.append_assoc, List.append_assoc] at hbeneath
      obtain ⟨rfl, hright⟩ := Tree.outline_append_injective (.outline_append right rest)
        (.outline_append right' rest') left left' hbeneath
      obtain ⟨rfl, hrest⟩ :=
        Tree.outline_append_injective hrest.succ hrest'.succ right right' hright
      exact ⟨rfl, hrest⟩
  | ⟨operator?, left, none⟩, e' => fun h ↦ by
    obtain ⟨hoperator, hbeneath⟩ := Operation.operator_eq_of_outline_append h
    obtain rfl : operator? = e'.operator? := hoperator
    rcases e' with ⟨operator?, left', _ | right'⟩
    · obtain ⟨rfl, hrest⟩ :=
        Tree.outline_append_injective hrest.succ hrest'.succ left left' hbeneath
      exact ⟨rfl, hrest⟩
    · rw [Operation.beneath, Operation.beneath, List.append_assoc] at hbeneath
      obtain ⟨-, hright⟩ := Tree.outline_append_injective hrest.succ
        (.outline_append right' rest') left left' hbeneath
      exact absurd hright (hrest.ne_outline_append right' rest')

/-- So are trees that are all at one depth. -/
theorem Tree.outlines_append_injective {depth : Nat} {rest rest' : List (Nat × Tree.Label)}
    (hrest : IsOutside depth rest) (hrest' : IsOutside depth rest') : ∀ ts us : List Tree,
    Tree.outlines (depth + 1) ts ++ rest = Tree.outlines (depth + 1) us ++ rest' →
      ts = us ∧ rest = rest'
  | [], us => fun h ↦ by
    cases us with
    | nil => exact ⟨rfl, h⟩
    | cons u us =>
      rw [Tree.outlines, Tree.outlines, List.nil_append, List.append_assoc] at h
      exact absurd h (hrest.ne_outline_append u _)
  | t :: ts, us => fun h ↦ by
    cases us with
    | nil =>
      rw [Tree.outlines, Tree.outlines, List.nil_append, List.append_assoc] at h
      exact absurd h.symm (hrest'.ne_outline_append t _)
    | cons u us =>
      rw [Tree.outlines, Tree.outlines, List.append_assoc, List.append_assoc] at h
      obtain ⟨rfl, hothers⟩ := Tree.outline_append_injective (hrest.outlines_append ts)
        (hrest'.outlines_append us) t u h
      obtain ⟨rfl, hrest⟩ := Tree.outlines_append_injective hrest hrest' ts us hothers
      exact ⟨rfl, hrest⟩

end

theorem Tree.outline_injective {t u : Tree} (h : t.outline depth = u.outline depth) : t = u := by
  have hnil : t.outline depth ++ [] = u.outline depth ++ [] := congrArg (· ++ []) h
  exact (Tree.outline_append_injective .nil .nil t u hnil).1

end InfixCompiler
