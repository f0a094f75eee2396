import ShellTree.Proofs.Render.Tree

/-! Logical expressions as text. An expression over variables is rendered as words with blanks
between them and nothing that groups them. The words can be read back from the text, although a
variable may have the name of an operator. -/
namespace ShellTree
open Render

/-- Texts without blanks can be read back when they are joined by blanks. -/
theorem Text.splitOn_intercalate {ts : List String} (hne : ts ≠ [])
    (hb : ∀ t ∈ ts, ' ' ∉ t.toList) :
    (" ".intercalate ts).toList.splitOn ' ' = ts.map String.toList := by
  rw [String.toList_intercalate]
  apply List.splitOn_intercalate
  · simpa using hb
  · simpa using hne

/-- Logical expressions over variables whose names have no blank in them. -/
inductive Node.IsLogical : Node → Prop
  | var {name : String} {p : Option Position} (h : ' ' ∉ name.toList) : IsLogical ⟨.var name, p⟩
  | not {n : Node} {p : Option Position} (h : IsLogical n) : IsLogical ⟨.not n, p⟩
  | logic {op : Connective} {lhs rhs : Node} {p : Option Position} (hl : IsLogical lhs)
    (hr : IsLogical rhs) : IsLogical ⟨.logic op lhs rhs, p⟩

inductive Word where
  | name (s : String)
  | not
  | op (op : Connective)
  deriving DecidableEq, Repr

namespace Word

/-- A negation is written before a blank, which is not part of the word. -/
def text (d : Dialect) : Word → String
  | .name s => d.phrasing.var s
  | .not => String.ofList d.phrasing.negation.toList.dropLast
  | .op c => d.phrasing.connective c

section
variable {d : Dialect}

theorem text_not_append : (Word.not.text d) ++ " " = d.phrasing.negation := by
  cases d <;> rfl

theorem text_name_inj {s s' : String} : (Word.name s).text d = (Word.name s').text d ↔ s = s' := by
  cases d <;> simp [text, Dialect.phrasing, Phrasing.bash, Phrasing.xonsh, Phrasing.fish]

theorem text_op_inj {c c' : Connective} : (Word.op c).text d = (Word.op c').text d ↔ c = c' := by
  cases d <;> cases c <;> cases c' <;> decide

theorem text_not_ne_op (c : Connective) : Word.not.text d ≠ (Word.op c).text d := by
  cases d <;> cases c <;> decide

theorem blank_not_mem_text {w : Word} (h : ∀ s, w = .name s → ' ' ∉ s.toList) :
    ' ' ∉ (w.text d).toList := by
  cases w with
  | name s =>
    have hs := h s rfl
    cases d <;> simpa [text, Dialect.phrasing, Phrasing.bash, Phrasing.xonsh, Phrasing.fish]
  | not => cases d <;> decide
  | op c => cases d <;> cases c <;> decide

end

/-- Words that can be read to their end, from where an operand comes next (`true`) or has just ended
(`false`). -/
inductive Readable : Bool → List Word → Prop
  | done : Readable false []
  | name {s : String} {ws : List Word} (h : Readable false ws) : Readable true (.name s :: ws)
  | not {ws : List Word} (h : Readable true ws) : Readable true (.not :: ws)
  | op {c : Connective} {ws : List Word} (h : Readable true ws) : Readable false (.op c :: ws)

/-- Where two readings of a text differ, one takes a word as a name and the other as an operator.
From there on they never agree on whether an operand comes next, so that only one can end. -/
theorem Readable.eq_of_text_eq {d : Dialect} {operand operand' : Bool} {ws ws' : List Word}
    (h : Readable operand ws) (h' : Readable operand' ws')
    (ht : ws.map (text d) = ws'.map (text d)) : operand = operand' ∧ ws = ws' := by
  induction h generalizing operand' ws' with
  | done =>
    cases h' with
    | done => exact ⟨rfl, rfl⟩
    | _ => cases ht
  | name h ih =>
    cases h' with
    | done => cases ht
    | name h' =>
      obtain ⟨hw, ht⟩ := List.cons.inj ht
      obtain ⟨-, rfl⟩ := ih h' ht
      rw [text_name_inj.mp hw]
      exact ⟨rfl, rfl⟩
    -- A variable may have the name of an operator, so that the texts do not tell here.
    | not h' | op h' => cases (ih h' (List.cons.inj ht).2).1
  | not h ih =>
    cases h' with
    | done => cases ht
    | name h' => cases (ih h' (List.cons.inj ht).2).1
    | not h' =>
      obtain ⟨-, rfl⟩ := ih h' (List.cons.inj ht).2
      exact ⟨rfl, rfl⟩
    | op h' => exact absurd (List.cons.inj ht).1 (text_not_ne_op _)
  | op h ih =>
    cases h' with
    | done => cases ht
    | name h' => cases (ih h' (List.cons.inj ht).2).1
    | not h' => exact absurd (List.cons.inj ht).1.symm (text_not_ne_op _)
    | op h' =>
      obtain ⟨hw, ht⟩ := List.cons.inj ht
      obtain ⟨-, rfl⟩ := ih h' ht
      rw [text_op_inj.mp hw]
      exact ⟨rfl, rfl⟩

end Word

namespace Node

/-- The words of a logical expression, from left to right. -/
def words : Node → List Word :=
  fold fun k _ => match k with
    | .var name => [.name name]
    | .not ws => .not :: ws
    | .logic op lhs rhs => lhs ++ .op op :: rhs
    | _ => []

section
variable {name : String} {op : Connective} {n lhs rhs : Node} {p : Option Position}

theorem words_var : words ⟨.var name, p⟩ = [.name name] := fold_mk _ _ _

theorem words_not : words ⟨.not n, p⟩ = .not :: n.words := fold_mk _ _ _

theorem words_logic : words ⟨.logic op lhs rhs, p⟩ = lhs.words ++ .op op :: rhs.words :=
  fold_mk _ _ _

end

namespace IsLogical
variable {n n' : Node}

theorem words_ne_nil (h : n.IsLogical) : n.words ≠ [] := by
  cases h with
  | var => simp [words_var]
  | not => simp [words_not]
  | logic => simp [words_logic]

/-- After the words of an expression, an operand has just ended. -/
theorem readable_append (h : n.IsLogical) {ws : List Word} (hw : Word.Readable false ws) :
    Word.Readable true (n.words ++ ws) := by
  induction h generalizing ws with
  | var =>
    rw [words_var]
    exact .name hw
  | not _ ih =>
    rw [words_not]
    exact .not (ih hw)
  | logic _ _ ihl ihr =>
    rw [words_logic, List.append_assoc]
    exact ihl (.op (ihr hw))

theorem blank_not_mem_text (h : n.IsLogical) (d : Dialect) :
    ∀ w ∈ n.words, ' ' ∉ (w.text d).toList := by
  induction h with
  | var h =>
    rw [words_var, List.forall_mem_singleton]
    exact Word.blank_not_mem_text fun s hs => (Word.name.inj hs) ▸ h
  | not _ ih =>
    rw [words_not, List.forall_mem_cons]
    exact ⟨Word.blank_not_mem_text nofun, ih⟩
  | logic _ _ ihl ihr =>
    rw [words_logic, List.forall_mem_append, List.forall_mem_cons]
    exact ⟨ihl, Word.blank_not_mem_text nofun, ihr⟩

/-- A logical expression is always rendered, as its words with blanks between them. -/
theorem renderNode_eq (h : n.IsLogical) (d : Dialect) :
    renderNode d n = .ok (" ".intercalate (n.words.map (Word.text d))) := by
  induction h with
  | var =>
    rw [renderNode_mk, words_var]
    simp [Render.kind, Kind.map, Word.text, pure, Except.pure]
  | @not n p h ih =>
    have ht : n.words.map (Word.text d) ≠ [] := by simp [h.words_ne_nil]
    calc renderNode d ⟨.not n, p⟩
        = .ok (d.phrasing.negation ++ " ".intercalate (n.words.map (Word.text d))) := by
          rw [renderNode_mk]
          simp only [Render.kind, Kind.map, nodePart, ih]
          rfl
      _ = .ok (" ".intercalate ([Word.not.text d] ++ n.words.map (Word.text d))) := by
          rw [String.intercalate_append_of_ne_nil (by simp) ht, ← Word.text_not_append,
            String.intercalate_singleton]
      _ = _ := by rw [words_not, List.map_cons, List.singleton_append]
  | @logic op lhs rhs p hl hr ihl ihr =>
    have htl : lhs.words.map (Word.text d) ≠ [] := by simp [hl.words_ne_nil]
    have htr : rhs.words.map (Word.text d) ≠ [] := by simp [hr.words_ne_nil]
    calc renderNode d ⟨.logic op lhs rhs, p⟩
        = .ok (" ".intercalate (lhs.words.map (Word.text d)) ++ " " ++ d.phrasing.connective op ++
            " " ++ " ".intercalate (rhs.words.map (Word.text d))) := by
          rw [renderNode_mk]
          simp only [Render.kind, Kind.map, nodePart, ihl, ihr]
          rfl
      _ = .ok (" ".intercalate (lhs.words.map (Word.text d) ++
            ([(Word.op op).text d] ++ rhs.words.map (Word.text d)))) := by
          rw [String.intercalate_append_of_ne_nil htl (by simp),
            String.intercalate_append_of_ne_nil (by simp) htr, String.intercalate_singleton]
          simp only [Word.text, String.append_assoc]
      _ = _ := by rw [words_logic, List.map_append, List.map_cons, List.singleton_append]

theorem splitOn_text (h : n.IsLogical) (d : Dialect) :
    (" ".intercalate (n.words.map (Word.text d))).toList.splitOn ' ' =
      (n.words.map (Word.text d)).map String.toList :=
  Text.splitOn_intercalate (by simp [h.words_ne_nil])
    (List.forall_mem_map.mpr (h.blank_not_mem_text d))

/-- The words of a logical expression can be read back from its text. -/
theorem renderNode_eq_iff (h : n.IsLogical) (h' : n'.IsLogical) (d : Dialect) :
    renderNode d n = renderNode d n' ↔ n.words = n'.words := by
  constructor
  · intro ht
    rw [h.renderNode_eq, h'.renderNode_eq] at ht
    have hs := congrArg (fun t => t.toList.splitOn ' ') (Except.ok.inj ht)
    simp only [h.splitOn_text, h'.splitOn_text] at hs
    have hs := List.map_injective_iff.mpr (fun _ _ => String.toList_inj.mp) hs
    have hr := h.readable_append .done
    have hr' := h'.readable_append .done
    rw [List.append_nil] at hr hr'
    exact (hr.eq_of_text_eq hr' hs).2
  · intro hw
    rw [h.renderNode_eq, h'.renderNode_eq, hw]

end IsLogical
end Node

end ShellTree
