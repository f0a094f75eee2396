import ShellTree.Proofs.Render.Words

/-! Logical expressions and what their texts say. A text shows how an expression is grouped only as
far as there is a convention for reading it. -/
namespace ShellTree

def Connective.eval : Connective → Bool → Bool → Bool
  | .and, a, b => a && b
  | .or, a, b => a || b

theorem Connective.eval_assoc (op : Connective) (a b c : Bool) :
    op.eval (op.eval a b) c = op.eval a (op.eval b c) := by
  cases op with
  | and => exact Bool.and_assoc a b c
  | or => exact Bool.or_assoc a b c

/-- How operands are grouped where nothing is written for it. -/
inductive Reading where
  /-- All connectives bind alike, the first ones first. -/
  | leftToRight
  /-- An `and` binds before an `or`. -/
  | andFirst

namespace Reading

/-- The value of operands with connectives between them: the first operand, then the others, each
with the connective before it. -/
def value : Reading → Bool → List (Connective × Bool) → Bool
  | _, a, [] => a
  | .leftToRight, a, (op, b) :: links => value .leftToRight (op.eval a b) links
  | .andFirst, a, (.and, b) :: links => value .andFirst (a && b) links
  | .andFirst, a, (.or, b) :: links => a || value .andFirst b links

/-- Whether an operation is grouped as it is read, given the connectives in its operands. -/
def Admits : Reading → Connective → List Connective → List Connective → Prop
  | .leftToRight, op, _, right => ∀ c ∈ right, c = op
  | .andFirst, op, left, right => op = .and → ∀ c ∈ left ++ right, c = .and

instance (r : Reading) (op : Connective) (left right : List Connective) :
    Decidable (r.Admits op left right) :=
  match r with
  | .leftToRight => inferInstanceAs (Decidable (∀ c ∈ right, c = op))
  | .andFirst => inferInstanceAs (Decidable (op = .and → ∀ c ∈ left ++ right, c = .and))

section
variable {r : Reading} {op : Connective}

/-- Along one connective it does not matter where to begin. -/
theorem value_eval {links : List (Connective × Bool)} (h : ∀ c ∈ links.map (·.1), c = op)
    (a b : Bool) : r.value (op.eval a b) links = op.eval a (r.value b links) := by
  induction links generalizing a b with
  | nil => simp [value]
  | cons link links ih =>
    obtain ⟨c, x⟩ := link
    obtain ⟨rfl, h⟩ := List.forall_mem_cons.mp h
    cases r with
    | leftToRight => rw [value, value, c.eval_assoc, ih h]
    | andFirst =>
      cases c with
      | and =>
        calc value .andFirst (a && b && x) links
            = value .andFirst (a && (b && x)) links := by rw [Bool.and_assoc]
          _ = _ := ih h a (b && x)
      | or => exact Bool.or_assoc a b _

theorem Admits.tail {c : Connective} {left right : List Connective}
    (h : r.Admits op (c :: left) right) : r.Admits op left right := by
  cases r with
  | leftToRight => exact h
  | andFirst => exact fun hop => (List.forall_mem_cons.mp (h hop)).2

/-- Where an operation is grouped as it is read, its operands are read on their own. -/
theorem value_append {left right : List (Connective × Bool)}
    (h : r.Admits op (left.map (·.1)) (right.map (·.1))) (a b : Bool) :
    r.value a (left ++ (op, b) :: right) = op.eval (r.value a left) (r.value b right) := by
  induction left generalizing a with
  | nil =>
    cases r with
    | leftToRight => exact value_eval h a b
    | andFirst =>
      cases op with
      | and => exact value_eval (h rfl) a b
      | or => rfl
  | cons link left ih =>
    obtain ⟨c, x⟩ := link
    cases r with
    | leftToRight => exact ih h (c.eval a x)
    | andFirst =>
      cases c with
      | and => exact ih h.tail (a && x)
      | or =>
        cases op with
        | and => cases h rfl .or (.head _)
        | or =>
          calc (a || value .andFirst x (left ++ (.or, b) :: right))
              = (a || (value .andFirst x left || value .andFirst b right)) := by
                rw [ih h.tail]
                rfl
            _ = _ := (Bool.or_assoc _ _ _).symm

end
end Reading

namespace Word

/-- The value of the first operand among words, and those of the others with their connectives. -/
def operands (ρ : String → Bool) : List Word → Bool × List (Connective × Bool)
  | [] => (false, [])
  | .name s :: ws => (ρ s, (operands ρ ws).2)
  | .not :: ws => (!(operands ρ ws).1, (operands ρ ws).2)
  | .op c :: ws => (false, (c, (operands ρ ws).1) :: (operands ρ ws).2)

def connective? : Word → Option Connective
  | .op c => some c
  | _ => none

theorem operands_connectives (ρ : String → Bool) (ws : List Word) :
    (operands ρ ws).2.map (·.1) = ws.filterMap connective? := by
  induction ws with
  | nil => rfl
  | cons w ws ih => cases w <;> simp [operands, connective?, List.filterMap_cons, ih]

end Word

namespace Node

/-- The truth value of a logical expression, given those of its variables. -/
def truth (ρ : String → Bool) : Node → Bool :=
  fold fun k _ => match k with
    | .var name => ρ name
    | .not b => !b
    | .logic op a b => op.eval a b
    | _ => false

/-- The connectives in an expression, from left to right. -/
def connectives (n : Node) : List Connective := n.words.filterMap Word.connective?

/-- Expressions that are grouped as their texts are read: a negation is only that of the operand
right behind it, and the reading admits all operations. -/
inductive GroupedBy (r : Reading) : Node → Prop
  | var {name : String} {p : Option Position} : GroupedBy r ⟨.var name, p⟩
  | not {n : Node} {p : Option Position} (h : GroupedBy r n) (hc : n.connectives = []) :
    GroupedBy r ⟨.not n, p⟩
  | logic {op : Connective} {lhs rhs : Node} {p : Option Position} (hl : GroupedBy r lhs)
    (hr : GroupedBy r rhs) (hc : r.Admits op lhs.connectives rhs.connectives) :
    GroupedBy r ⟨.logic op lhs rhs, p⟩

section
variable {r : Reading} {ρ : String → Bool} {name : String} {op : Connective} {n lhs rhs : Node}
  {p : Option Position}

theorem truth_var : truth ρ ⟨.var name, p⟩ = ρ name := fold_mk _ _ _

theorem truth_not : truth ρ ⟨.not n, p⟩ = !truth ρ n := fold_mk _ _ _

theorem truth_logic : truth ρ ⟨.logic op lhs rhs, p⟩ = op.eval (truth ρ lhs) (truth ρ rhs) :=
  fold_mk _ _ _

end

namespace IsLogical
variable {r : Reading} {n n' : Node}

/-- The words of an expression are a first operand and others after connectives. -/
theorem operands_append (h : n.IsLogical) (ρ : String → Bool) (ws : List Word) :
    Word.operands ρ (n.words ++ ws) =
      ((Word.operands ρ n.words).1, (Word.operands ρ n.words).2 ++ (Word.operands ρ ws).2) := by
  induction h generalizing ws with
  | var => simp [words_var, Word.operands]
  | not _ ih => simp [words_not, Word.operands, ih]
  | logic _ _ ihl ihr => simp [words_logic, Word.operands, ihl, ihr]

/-- The value of an expression that is grouped as its text is read can be read off its words. -/
theorem truth_eq_value (h : n.IsLogical) (hg : n.GroupedBy r) (ρ : String → Bool) :
    n.truth ρ = r.value (Word.operands ρ n.words).1 (Word.operands ρ n.words).2 := by
  induction h with
  | var =>
    rw [truth_var, words_var]
    rfl
  | @not n p h ih =>
    cases hg with
    | not hg hc =>
      have hl : (Word.operands ρ n.words).2 = [] := by
        rw [← List.map_eq_nil_iff, Word.operands_connectives]
        exact hc
      rw [truth_not, ih hg, words_not, Word.operands, hl]
      rfl
  | @logic op lhs rhs p hl hr ihl ihr =>
    cases hg with
    | logic hgl hgr hc =>
      have hops : Word.operands ρ (words ⟨.logic op lhs rhs, p⟩) =
          ((Word.operands ρ lhs.words).1, (Word.operands ρ lhs.words).2 ++
            (op, (Word.operands ρ rhs.words).1) :: (Word.operands ρ rhs.words).2) := by
        rw [words_logic, hl.operands_append]
        rfl
      rw [truth_logic, ihl hgl, ihr hgr, hops, Reading.value_append]
      rwa [Word.operands_connectives, Word.operands_connectives]

end IsLogical
end Node

/-- Logical expressions with one text consist of the same variables, negations and connectives in
the same order. They are equally true too, if one way of reading groups both as they are. -/
theorem eq_of_renderNode_eq (d : Dialect) {n n' : Node} (h : n.IsLogical) (h' : n'.IsLogical)
    (ht : renderNode d n = renderNode d n') : n.words = n'.words ∧
      ∀ r, n.GroupedBy r → n'.GroupedBy r → ∀ ρ, n.truth ρ = n'.truth ρ := by
  have hw : n.words = n'.words := (h.renderNode_eq_iff h' d).mp ht
  refine ⟨hw, fun r hg hg' ρ => ?_⟩
  rw [h.truth_eq_value hg, h'.truth_eq_value hg', hw]

/-- Three operands, the last two together and the first two together. One variable has the name of
an operator. -/
def groupedRight : Node := .both (.var "a") (.both (.negation (.var "or")) (.var "c"))

def groupedLeft : Node := .both (.both (.var "a") (.negation (.var "or"))) (.var "c")

theorem eq_of_renderNode_eq_grouped :
    renderNode .xonsh groupedRight = .ok "a and not or and c" ∧
      groupedRight.words = groupedLeft.words ∧
        groupedRight.truth (· == "a") = groupedLeft.truth (· == "a") := by
  have a : (Node.var "a").IsLogical := .var (by decide)
  have b : (Node.negation (.var "or")).IsLogical := .not (.var (by decide))
  have c : (Node.var "c").IsLogical := .var (by decide)
  have ht : renderNode .xonsh groupedRight = renderNode .xonsh groupedLeft := by rfl
  have right : groupedRight.GroupedBy .leftToRight :=
    .logic .var (.logic (.not .var (by rfl)) .var (by decide)) (by decide)
  have left : groupedLeft.GroupedBy .leftToRight :=
    .logic (.logic .var (.not .var (by rfl)) (by decide)) .var (by decide)
  have same := eq_of_renderNode_eq .xonsh (.logic a (.logic b c)) (.logic (.logic a b) c) ht
  exact ⟨by rfl, same.1, same.2 .leftToRight right left _⟩

/-- The negation of an operation. -/
def negatedBoth : Node := .negation (.both (.var "a") (.var "b"))

/-- The negation of a first operand. -/
def negatedFirst : Node := .both (.negation (.var "a")) (.var "b")

/-- One text can stand for expressions of different truth: it does not show how far a negation
reaches. -/
theorem truth_ne_of_renderNode_eq : negatedBoth.IsLogical ∧ negatedFirst.IsLogical ∧
    renderNode .bash negatedBoth = .ok "! $a && $b" ∧
      renderNode .bash negatedFirst = .ok "! $a && $b" ∧
        negatedBoth.truth (fun _ => false) = true ∧
          negatedFirst.truth (fun _ => false) = false := by
  have a : (Node.var "a").IsLogical := .var (by decide)
  have b : (Node.var "b").IsLogical := .var (by decide)
  exact ⟨.not (.logic a b), .logic (.not a) b, by rfl, by rfl, by rfl, by rfl⟩

end ShellTree
