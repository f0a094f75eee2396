import ShellTree.Proofs.Render.Tree
import ShellTree.Proofs.Text.Indent

/-! Statements and the lines that they are rendered as. -/
namespace ShellTree
open Outcome Text Render

/-- The statements without blocks. -/
def Tag.simpleStatements : List Tag :=
  [.comment, .statement, .assign, .envAssign, .delete, .envDelete, .aliasAssign, .aliasDelete,
    .pass]

/-- Statement trees: all blocks in them, however deep, are made of statements. What a statement
holds beside its blocks may be anything. -/
inductive Node.IsStatement : Node → Prop
  | simple {k : Kind Node} {p : Option Position} (h : k.tag ∈ Tag.simpleStatements) :
    IsStatement ⟨k, p⟩
  | script {body : List Node} {p : Option Position} (hb : ∀ n ∈ body, IsStatement n) :
    IsStatement ⟨.script body, p⟩
  | ifElse {test : Node} {body orelse : List Node} {p : Option Position}
    (hb : ∀ n ∈ body, IsStatement n) (ho : ∀ n ∈ orelse, IsStatement n) :
    IsStatement ⟨.ifElse test body orelse, p⟩
  | forIn {target iter : Node} {body : List Node} {p : Option Position}
    (hb : ∀ n ∈ body, IsStatement n) : IsStatement ⟨.forIn target iter body, p⟩
  | function {name : String} {body : List Node} {p : Option Position}
    (hb : ∀ n ∈ body, IsStatement n) : IsStatement ⟨.function name body, p⟩

/-- Statement trees with no script among the statements. -/
inductive Node.IsScriptless : Node → Prop
  | simple {k : Kind Node} {p : Option Position} (h : k.tag ∈ Tag.simpleStatements) :
    IsScriptless ⟨k, p⟩
  | ifElse {test : Node} {body orelse : List Node} {p : Option Position}
    (hb : ∀ n ∈ body, IsScriptless n) (ho : ∀ n ∈ orelse, IsScriptless n) :
    IsScriptless ⟨.ifElse test body orelse, p⟩
  | forIn {target iter : Node} {body : List Node} {p : Option Position}
    (hb : ∀ n ∈ body, IsScriptless n) : IsScriptless ⟨.forIn target iter body, p⟩
  | function {name : String} {body : List Node} {p : Option Position}
    (hb : ∀ n ∈ body, IsScriptless n) : IsScriptless ⟨.function name body, p⟩

theorem Node.IsScriptless.isStatement {n : Node} (h : n.IsScriptless) : n.IsStatement := by
  induction h with
  | simple h => exact .simple h
  | ifElse _ _ ihb iho => exact .ifElse ihb iho
  | forIn _ ih => exact .forIn ih
  | function _ ih => exact .function ih

/-- The phrases of statements end their lines. -/
structure Phrasing.EndsLines (ph : Phrasing) : Prop where
  emptyBlock : IsLines ph.emptyBlock
  assign : match ph.assign with
    | .unscoped write => ∀ name value, EndsLine (write name value)
    | .scoped write => ∀ scope name value, EndsLine (write scope name value)
  envAssign : ∀ name value, EndsLine (ph.envAssign name value)
  delete : ∀ name, EndsLine (ph.delete name)
  envDelete : ∀ name, EndsLine (ph.envDelete name)
  aliasAssign : ∀ name value, EndsLine (ph.aliasAssign name value)
  aliasDelete : ∀ name, EndsLine (ph.aliasDelete name)
  pass : EndsLine ph.pass
  ifHeader : ∀ test, EndsLine (ph.ifHeader test)
  elseHeader : EndsLine ph.elseHeader
  ifClose : IsLines ph.ifClose
  forHeader : ∀ target iter, EndsLine (ph.forHeader target iter)
  forClose : IsLines ph.forClose
  functionHeader : ∀ name, EndsLine (ph.functionHeader name)
  functionClose : IsLines ph.functionClose

theorem Dialect.endsLines (d : Dialect) : d.phrasing.EndsLines where
  emptyBlock := by cases d <;> rfl
  assign := by
    cases d with
    | fish => exact fun _ _ _ => .append_left (fun _ => rfl) _
    | _ => exact fun _ _ => .append_left (fun _ => rfl) _
  envAssign _ _ := by cases d <;> exact .append_left (fun _ => rfl) _
  delete _ := by cases d <;> exact .append_left (fun _ => rfl) _
  envDelete _ := by cases d <;> exact .append_left (fun _ => rfl) _
  aliasAssign _ _ := by cases d <;> exact .append_left (fun _ => rfl) _
  aliasDelete _ := by cases d <;> exact .append_left (fun _ => rfl) _
  pass := by cases d <;> exact fun _ => rfl
  ifHeader _ := by cases d <;> exact .append_left (fun _ => rfl) _
  elseHeader := by cases d <;> exact fun _ => rfl
  ifClose := by cases d <;> rfl
  forHeader _ _ := by cases d <;> exact .append_left (fun _ => rfl) _
  forClose := by cases d <;> rfl
  functionHeader _ := by cases d <;> exact .append_left (fun _ => rfl) _
  functionClose := by cases d <;> rfl

namespace Render
variable {d : Dialect}

/-- A block of whole statements, empty or not, consists of whole lines. -/
theorem isLines_indentBlock (d : Dialect) {texts : List String} (h : ∀ t ∈ texts, IsLines t) :
    IsLines (indentBlock d texts) := by
  apply IsLines.indent
  split
  · exact d.endsLines.emptyBlock
  · exact isLines_join h

/-- A statement without blocks ends its line, whatever it holds. -/
theorem endsLine_simple {k : Kind Node} (hk : k.tag ∈ Tag.simpleStatements)
    {p : Option Position} {t : String} (h : renderNode d ⟨k, p⟩ = .ok t) : EndsLine t := by
  rw [renderNode_mk] at h
  cases k with
  | comment value =>
    obtain rfl := pure_eq_ok.mp h
    exact .append_left (fun _ => rfl) _
  | statement n =>
    obtain ⟨text, -, h⟩ := bind_eq_ok.mp h
    obtain rfl := pure_eq_ok.mp h
    exact .append_left (fun _ => rfl) _
  | assign name value scope =>
    have ha := d.endsLines.assign
    simp only [kind, Kind.map] at h
    cases hw : d.phrasing.assign <;>
    · simp only [hw] at h ha
      obtain ⟨text, -, h⟩ := bind_eq_ok.mp h
      obtain rfl := pure_eq_ok.mp h
      simp only [ha]
  | envAssign name value =>
    obtain ⟨text, -, h⟩ := bind_eq_ok.mp h
    obtain rfl := pure_eq_ok.mp h
    exact d.endsLines.envAssign _ _
  | aliasAssign name value =>
    obtain ⟨text, -, h⟩ := bind_eq_ok.mp h
    obtain rfl := pure_eq_ok.mp h
    exact d.endsLines.aliasAssign _ _
  | delete name =>
    obtain rfl := pure_eq_ok.mp h
    exact d.endsLines.delete _
  | envDelete name =>
    obtain rfl := pure_eq_ok.mp h
    exact d.endsLines.envDelete _
  | aliasDelete name =>
    obtain rfl := pure_eq_ok.mp h
    exact d.endsLines.aliasDelete _
  | pass =>
    obtain rfl := pure_eq_ok.mp h
    exact d.endsLines.pass
  | stream s => cases s <;> simp [Kind.tag, Stream.tag, Tag.simpleStatements] at hk
  | command mode c => cases mode <;> simp [Kind.tag, Tag.simpleStatements] at hk
  | logic op lhs rhs => cases op <;> simp [Kind.tag, Tag.simpleStatements] at hk
  | _ => simp [Kind.tag, Tag.simpleStatements] at hk

/-- A node is rendered as whole lines, of which there is at least one unless it is a script. -/
def Lined (d : Dialect) (n : Node) : Prop :=
  ∀ t, renderNode d n = .ok t → IsLines t ∧ (n.tag ≠ .script → EndsLine t)

theorem lined_of_endsLine {n : Node} (h : ∀ t, renderNode d n = .ok t → EndsLine t) : Lined d n :=
  fun t ht => ⟨(h t ht).isLines, fun _ => h t ht⟩

theorem isLines_texts {ns : List Node} {ts : List String} (h : ∀ n ∈ ns, Lined d n)
    (hts : texts (ns.map (nodePart d)) = .ok ts) : ∀ t ∈ ts, IsLines t := by
  intro t ht
  obtain ⟨n, hn, hr⟩ := exists_node_of_mem (texts_nodePart_eq_ok.mp hts) ht
  exact (h n hn t hr).1

theorem isLines_rest {orelse : List Node} {ts : List String} (h : ∀ n ∈ orelse, Lined d n)
    (hts : texts (orelse.map (nodePart d)) = .ok ts) :
    IsLines (rest d (orelse.map (nodePart d)) ts) := by
  rw [rest_nodePart]
  split
  · exact d.endsLines.ifClose
  · split
    · next hn =>
      -- The keyword alone ends no line, but the header of the only node does.
      obtain ⟨n, rfl, htag⟩ := List.map_eq_singleton_iff.mp hn
      obtain ⟨t, rfl, ht⟩ := List.map_eq_singleton_iff.mp (texts_nodePart_eq_ok.mp hts).symm
      have hl : EndsLine t := (h n (by simp) t ht.symm).2 (by rw [htag]; decide)
      rw [String.join_cons, String.join_nil, String.append_empty]
      exact (hl.append_left _).isLines
    · have block := isLines_indentBlock d (isLines_texts h hts)
      exact (d.endsLines.elseHeader.isLines.append block).append d.endsLines.ifClose

end Render

/-- All that statements are rendered as are whole lines. -/
theorem Node.IsStatement.lined {n : Node} (h : n.IsStatement) (d : Dialect) : Lined d n := by
  induction h with
  | simple hk => exact lined_of_endsLine fun t ht => endsLine_simple hk ht
  | script hb ih =>
    intro t ht
    rw [renderNode_mk] at ht
    obtain ⟨ts, hts, ht⟩ := bind_eq_ok.mp ht
    obtain rfl := pure_eq_ok.mp ht
    exact ⟨isLines_join (isLines_texts ih hts), fun h => absurd rfl h⟩
  | ifElse hb ho ihb iho =>
    apply lined_of_endsLine
    intro t ht
    rw [renderNode_mk] at ht
    obtain ⟨test, -, ht⟩ := bind_eq_ok.mp ht
    obtain ⟨bodies, hbs, ht⟩ := bind_eq_ok.mp ht
    obtain ⟨others, hos, ht⟩ := bind_eq_ok.mp ht
    obtain rfl := pure_eq_ok.mp ht
    have block := isLines_indentBlock d (isLines_texts ihb hbs)
    exact ((d.endsLines.ifHeader _).append block).append (isLines_rest iho hos)
  | forIn hb ih =>
    apply lined_of_endsLine
    intro t ht
    rw [renderNode_mk] at ht
    obtain ⟨name, -, ht⟩ := bind_eq_ok.mp ht
    obtain ⟨iter, -, ht⟩ := bind_eq_ok.mp ht
    obtain ⟨ts, hts, ht⟩ := bind_eq_ok.mp ht
    obtain rfl := pure_eq_ok.mp ht
    have block := isLines_indentBlock d (isLines_texts ih hts)
    exact ((d.endsLines.forHeader _ _).append block).append d.endsLines.forClose
  | function hb ih =>
    apply lined_of_endsLine
    intro t ht
    rw [renderNode_mk] at ht
    obtain ⟨ts, hts, ht⟩ := bind_eq_ok.mp ht
    obtain rfl := pure_eq_ok.mp ht
    have block := isLines_indentBlock d (isLines_texts ih hts)
    exact ((d.endsLines.functionHeader _).append block).append d.endsLines.functionClose

end ShellTree
