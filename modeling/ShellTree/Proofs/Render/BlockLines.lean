import ShellTree.Proofs.Render.Chain
import ShellTree.Proofs.Text.Lines

/-! The blocks in a text. Without scripts among the statements no statement comes out as nothing, so
that blocks consist of whole lines, of which there is at least one if the dialect fills empty
blocks. Nothing joins on to the last line of a block, however deep. -/
namespace ShellTree
open Outcome Text Render

/-- The blocks that are written for a statement itself. An `orelse` without statements is not
written, and one that holds a conditional alone is an else-if. -/
def Kind.blocks : Kind Node → List (List Node)
  | .ifElse _ body orelse =>
    if orelse = [] ∨ orelse.map Node.tag = [.ifElse] then [body] else [body, orelse]
  | .forIn _ _ body => [body]
  | .function _ body => [body]
  | _ => []

/-- The blocks that are written for a statement and those below, with the depth of the statement
that each belongs to. -/
inductive Node.HasBlock : Node → Nat → List Node → Prop
  | own {k : Kind Node} {p : Option Position} {body : List Node} (h : body ∈ k.blocks) :
    HasBlock ⟨k, p⟩ 0 body
  | inner {k : Kind Node} {p : Option Position} {block body : List Node} {n : Node} {depth : Nat}
    (hb : block ∈ k.blocks) (hn : n ∈ block) (h : HasBlock n depth body) :
    HasBlock ⟨k, p⟩ (depth + 1) body
  | elseIf {test n : Node} {block body : List Node} {p : Option Position} {depth : Nat}
    (hn : n.tag = .ifElse) (h : HasBlock n depth body) :
    HasBlock ⟨.ifElse test block [n], p⟩ depth body

namespace Node
variable {n : Node} {d : Dialect}

namespace IsScriptless

theorem endsLine (h : n.IsScriptless) {t : String} (ht : renderNode d n = .ok t) : EndsLine t := by
  apply (h.isStatement.lined d t ht).2
  cases h with
  | @simple k p hk =>
    intro hs
    rw [show k.tag = .script from hs] at hk
    simp [Tag.simpleStatements] at hk
  | _ => simp [Node.tag, Kind.tag]

theorem of_mem_orelse {test : Node} {body orelse : List Node} {p : Option Position}
    (h : IsScriptless ⟨.ifElse test body orelse, p⟩) : ∀ n ∈ orelse, n.IsScriptless := by
  cases h with
  | simple hk => simp [Kind.tag, Tag.simpleStatements] at hk
  | ifElse _ ho => exact ho

theorem of_mem_blocks {k : Kind Node} {p : Option Position} {block : List Node}
    (h : IsScriptless ⟨k, p⟩) (hb : block ∈ k.blocks) : ∀ n ∈ block, n.IsScriptless := by
  cases h with
  | simple hk =>
    cases k with
    | ifElse | forIn | function => simp [Kind.tag, Tag.simpleStatements] at hk
    | _ => cases hb
  | ifElse hbody horelse =>
    rw [Kind.blocks] at hb
    split at hb
    · rwa [List.mem_singleton.mp hb]
    · rcases List.mem_pair.mp hb with rfl | rfl
      · exact hbody
      · exact horelse
  | forIn hbody => rwa [List.mem_singleton.mp hb]
  | function hbody => rwa [List.mem_singleton.mp hb]

end IsScriptless

theorem HasBlock.isScriptless {depth : Nat} {body : List Node} (h : n.HasBlock depth body)
    (hn : n.IsScriptless) : ∀ m ∈ body, m.IsScriptless := by
  induction h with
  | own hb => exact hn.of_mem_blocks hb
  | inner hb hm _ ih => exact ih (hn.of_mem_blocks hb _ hm)
  | elseIf _ _ ih => exact ih (hn.of_mem_orelse _ (.head _))

end Node

namespace Printer
variable {d : Dialect} {depth : Nat}

theorem margin_succ (d : Dialect) (depth : Nat) :
    margin d (depth + 1) = d.unit ++ margin d depth := by
  rw [margin, List.replicate_succ, String.join_cons]
  rfl

theorem margin_noBreak (d : Dialect) (depth : Nat) : '\n' ∉ (margin d depth).toList :=
  mt mem_join_replicate (unit_noBreak d)

/-- What is printed at a depth and then moved to the right is one level deeper. -/
theorem indent_emit (text : String) :
    indent d.phrasing.unit (emit d depth text) = emit d (depth + 1) text := by
  rw [emit, d.speaks.unit, indent_indent _ (margin_noBreak d depth), emit, margin_succ]

theorem lines_emit (text : String) : lines (emit d depth text).toList =
    (lines text.toList).map ((margin d depth).toList ++ ·) :=
  lines_indent (margin_noBreak d depth) text

/-- Every line of a block starts with what the lines one level further in start with. -/
theorem margin_isPrefix (ts : List String) :
    ∀ line ∈ lines (emit d depth (indentBlock d ts)).toList,
      (margin d (depth + 1)).toList <+: line := by
  intro line hline
  rw [indentBlock, emit_indent, lines_emit] at hline
  obtain ⟨content, -, rfl⟩ := List.mem_map.mp hline
  exact List.prefix_append _ _

end Printer

open Printer

/-- A block stands in a text at a depth, from the start of a line. -/
def Stands (d : Dialect) (depth : Nat) (block t : String) : Prop :=
  ∃ before after, EndsLine before ∧ t = before ++ emit d depth block ++ after

namespace Stands
variable {d : Dialect} {depth : Nat} {block t : String}

theorem append_left (h : Stands d depth block t) (s : String) : Stands d depth block (s ++ t) := by
  obtain ⟨before, after, hb, rfl⟩ := h
  exact ⟨s ++ before, after, hb.append_left s, by simp only [String.append_assoc]⟩

theorem append_right (h : Stands d depth block t) (s : String) :
    Stands d depth block (t ++ s) := by
  obtain ⟨before, after, hb, rfl⟩ := h
  exact ⟨before, after ++ s, hb, by simp only [String.append_assoc]⟩

theorem join {ts : List String} (h : Stands d depth block t) (ht : t ∈ ts) :
    Stands d depth block (String.join ts) := by
  induction ht with
  | head ts =>
    rw [String.join_cons]
    exact h.append_right _
  | tail s _ ih =>
    rw [String.join_cons]
    exact ih.append_left s

theorem indent (h : Stands d depth block t) (hl : IsLines block) :
    Stands d (depth + 1) block (Text.indent d.phrasing.unit t) := by
  obtain ⟨before, after, hb, rfl⟩ := h
  have line : IsLines (before ++ emit d depth block) := (hb.append (hl.indent _)).isLines
  refine ⟨Text.indent d.phrasing.unit before, Text.indent d.phrasing.unit after, hb.indent _, ?_⟩
  rw [indent_append line, indent_append hb.isLines, indent_emit]

/-- A block in a statement goes one level deeper when the statement is put into a block. -/
theorem indentBlock {ts : List String} (h : Stands d depth block t) (hl : IsLines block)
    (ht : t ∈ ts) : Stands d (depth + 1) block (Render.indentBlock d ts) := by
  have hne : ts.isEmpty = false := List.isEmpty_eq_false_iff.mpr (List.ne_nil_of_mem ht)
  rw [Render.indentBlock, hne]
  exact (h.join ht).indent hl

end Stands

namespace Render
variable {d : Dialect}

/-- The block of an `orelse` stands behind its header, if it has one. -/
theorem stands_rest {orelse : List Node} {ts : List String}
    (hts : orelse.map (renderNode d) = ts.map .ok) (hne : orelse ≠ [])
    (not_elseIf : orelse.map Node.tag ≠ [.ifElse]) :
    Stands d 0 (indentBlock d ts) (rest d (orelse.map (nodePart d)) ts) := by
  have he : ts ≠ [] := by
    rintro rfl
    exact hne (List.map_eq_nil_iff.mp hts)
  rw [rest_nodePart, List.isEmpty_eq_false_iff.mpr he, if_neg Bool.false_ne_true,
    if_neg not_elseIf]
  exact ⟨_, _, d.endsLines.elseHeader, by rw [emit_zero]⟩

/-- Each block of a statement stands behind a header. -/
theorem stands_blocks {k : Kind Node} {p : Option Position} {t : String}
    (h : renderNode d ⟨k, p⟩ = .ok t) {body : List Node} (hb : body ∈ k.blocks) :
    ∃ ts, body.map (renderNode d) = ts.map .ok ∧ Stands d 0 (indentBlock d ts) t := by
  have behind : ∀ {header block : String}, EndsLine header →
      Stands d 0 block (header ++ block) :=
    fun hh => ⟨_, "", hh, by rw [emit_zero, String.append_empty]⟩
  rw [renderNode_mk] at h
  cases k with
  | ifElse test block orelse =>
    obtain ⟨test, -, h⟩ := bind_eq_ok.mp h
    obtain ⟨bodies, hbs, h⟩ := bind_eq_ok.mp h
    obtain ⟨others, hos, h⟩ := bind_eq_ok.mp h
    obtain rfl := pure_eq_ok.mp h
    have first : Stands d 0 (indentBlock d bodies) (d.phrasing.ifHeader test ++
        indentBlock d bodies ++ rest d (orelse.map (nodePart d)) others) :=
      (behind (d.endsLines.ifHeader test)).append_right _
    rw [Kind.blocks] at hb
    split at hb
    · obtain rfl := List.mem_singleton.mp hb
      exact ⟨bodies, texts_nodePart_eq_ok.mp hbs, first⟩
    · next ho =>
      obtain ⟨hne, not_elseIf⟩ := not_or.mp ho
      rcases List.mem_pair.mp hb with rfl | rfl
      · exact ⟨bodies, texts_nodePart_eq_ok.mp hbs, first⟩
      · have hos := texts_nodePart_eq_ok.mp hos
        exact ⟨others, hos, (stands_rest hos hne not_elseIf).append_left _⟩
  | forIn target iter block =>
    obtain ⟨name, -, h⟩ := bind_eq_ok.mp h
    obtain ⟨iter, -, h⟩ := bind_eq_ok.mp h
    obtain ⟨bodies, hbs, h⟩ := bind_eq_ok.mp h
    obtain rfl := pure_eq_ok.mp h
    obtain rfl := List.mem_singleton.mp hb
    exact ⟨bodies, texts_nodePart_eq_ok.mp hbs,
      (behind (d.endsLines.forHeader name iter)).append_right _⟩
  | function name block =>
    obtain ⟨bodies, hbs, h⟩ := bind_eq_ok.mp h
    obtain rfl := pure_eq_ok.mp h
    obtain rfl := List.mem_singleton.mp hb
    exact ⟨bodies, texts_nodePart_eq_ok.mp hbs,
      (behind (d.endsLines.functionHeader name)).append_right _⟩
  | _ => cases hb

/-- An else-if stands whole in the text of the conditional before. -/
theorem exists_elseIf {test n : Node} {block : List Node} {p : Option Position} {t : String}
    (h : renderNode d ⟨.ifElse test block [n], p⟩ = .ok t) (hn : n.tag = .ifElse) :
    ∃ s next, renderNode d n = .ok next ∧ t = s ++ next := by
  rw [renderNode_mk] at h
  obtain ⟨text, -, h⟩ := bind_eq_ok.mp h
  obtain ⟨bodies, -, h⟩ := bind_eq_ok.mp h
  obtain ⟨others, hos, h⟩ := bind_eq_ok.mp h
  obtain rfl := pure_eq_ok.mp h
  have hos := texts_nodePart_eq_ok.mp hos
  obtain ⟨next, rfl, hnext⟩ := List.map_eq_singleton_iff.mp hos.symm
  have follows : rest d ([n].map (nodePart d)) [next] = d.phrasing.elseIf ++ next := by
    rw [rest_nodePart, List.map_singleton, hn, if_pos rfl, String.join_cons, String.join_nil,
      String.append_empty]
    rfl
  exact ⟨_, next, hnext.symm, by rw [follows, ← String.append_assoc]⟩

/-- A block of texts that end their lines consists of whole lines. Some dialects write nothing for
an empty one. -/
theorem endsLine_indentBlock {ts : List String} (h : ∀ t ∈ ts, EndsLine t)
    (filled : d ≠ .fish ∨ ts ≠ []) : EndsLine (indentBlock d ts) := by
  apply EndsLine.indent
  cases ts with
  | nil =>
    cases d with
    | fish => simp at filled
    | _ => exact fun _ => rfl
  | cons t ts =>
    obtain ⟨ht, hts⟩ := List.forall_mem_cons.mp h
    rw [List.isEmpty_cons, String.join_cons]
    exact ht.append (isLines_join fun s hs => (hts s hs).isLines)

end Render

namespace Node
variable {n : Node} {d : Dialect} {depth : Nat} {body : List Node}

theorem IsScriptless.endsLine_of_mem (h : ∀ n ∈ body, n.IsScriptless) {ts : List String}
    (hts : body.map (renderNode d) = ts.map .ok) : ∀ t ∈ ts, EndsLine t := by
  intro t ht
  obtain ⟨m, hm, hr⟩ := exists_node_of_mem hts ht
  exact (h m hm).endsLine hr

theorem HasBlock.stands (h : n.HasBlock depth body) (hn : n.IsScriptless) {t : String}
    (ht : renderNode d n = .ok t) :
    ∃ ts, body.map (renderNode d) = ts.map .ok ∧ Stands d depth (indentBlock d ts) t := by
  induction h generalizing t with
  | own hb => exact stands_blocks ht hb
  | @inner k p block body m depth hb hm below ih =>
    obtain ⟨ts, hts, outer⟩ := stands_blocks ht hb
    obtain ⟨s, hs, hr⟩ := exists_text_of_mem hts hm
    have statements := hn.of_mem_blocks hb
    obtain ⟨inner, hinner, stands⟩ := ih (statements m hm) hr
    have lined : IsLines (indentBlock d inner) := isLines_indentBlock d fun t ht =>
      (IsScriptless.endsLine_of_mem (below.isScriptless (statements m hm)) hinner t ht).isLines
    obtain ⟨before, after, -, rfl⟩ := outer
    rw [emit_zero]
    exact ⟨inner, hinner, ((stands.indentBlock lined hs).append_left _).append_right _⟩
  | elseIf htag _ ih =>
    obtain ⟨s, next, hnext, rfl⟩ := exists_elseIf ht htag
    obtain ⟨ts, hts, stands⟩ := ih (hn.of_mem_orelse _ (.head _)) hnext
    exact ⟨ts, hts, stands.append_left s⟩

end Node

/-- The text of a statement ends its line, and each block that is written in it stands there from
the start of a line, moved to the right line by line. Where empty blocks are filled, there is at
least one line in each. -/
theorem renderNode_blocks {d : Dialect} {n : Node} (hn : n.IsScriptless) {t : String}
    (h : renderNode d n = .ok t) :
    (∃ s, t = s ++ "\n") ∧ ∀ depth body, n.HasBlock depth body →
      ∃ ts, body.map (renderNode d) = ts.map .ok ∧ Stands d depth (indentBlock d ts) t ∧
        (∀ line ∈ lines (emit d depth (indentBlock d ts)).toList,
          (margin d (depth + 1)).toList <+: line) ∧
        (d ≠ .fish ∨ body ≠ [] → lines (emit d depth (indentBlock d ts)).toList ≠ [] ∧
          ∃ s, emit d depth (indentBlock d ts) = s ++ "\n") := by
  refine ⟨endsLine_iff.mp (hn.endsLine h), fun depth body hb => ?_⟩
  obtain ⟨ts, hts, stands⟩ := hb.stands hn h
  have ends : ∀ t ∈ ts, EndsLine t :=
    Node.IsScriptless.endsLine_of_mem (hb.isScriptless hn) hts
  refine ⟨ts, hts, stands, margin_isPrefix ts, fun filled => ?_⟩
  have filled : d ≠ .fish ∨ ts ≠ [] := filled.imp_right fun hne hts' => by
    rw [hts'] at hts
    exact hne (List.map_eq_nil_iff.mp hts)
  obtain ⟨s, hs⟩ := endsLine_iff.mp ((endsLine_indentBlock ends filled).indent (margin d depth))
  refine ⟨?_, s, hs⟩
  rw [emit, hs, Ne, lines_eq_nil]
  simp

/-- The function without statements is in the block of a conditional, in the block of the loop. -/
theorem hasBlock_nestedLoop : nestedLoop.HasBlock 2 [] := by
  have empty : (Node.function "f" []).HasBlock 0 [] := .own (.head _)
  exact .inner (.head _) (.head _) (.inner (.head _) (.head _) empty)

theorem renderNode_blocks_nestedLoop :
    let t := "for x in *:\n    if a:\n        def f():\n            pass\n" ++
      "    elif b:\n        # 1\n        2\n    else:\n        c\n"
    (nestedLoop.IsScriptless ∧ renderNode .xonsh nestedLoop = .ok t ∧ nestedLoop.HasBlock 2 []) ∧
      (∃ s, t = s ++ "\n") ∧
      ∃ ts, [].map (renderNode .xonsh) = ts.map .ok ∧ Stands .xonsh 2 (indentBlock .xonsh ts) t ∧
        (∀ line ∈ lines (emit .xonsh 2 (indentBlock .xonsh ts)).toList,
          (margin .xonsh 3).toList <+: line) ∧
        (Dialect.xonsh ≠ .fish ∨ ([] : List Node) ≠ [] →
          lines (emit .xonsh 2 (indentBlock .xonsh ts)).toList ≠ [] ∧
          ∃ s, emit .xonsh 2 (indentBlock .xonsh ts) = s ++ "\n") := by
  intro t
  have printed := (agrees_of_isStatement isStatement_nestedLoop).statement_eq (d := .xonsh) 0
  have text : renderNode .xonsh nestedLoop = .ok t := by
    rw [funext emit_zero, id_map'] at printed
    exact printed.symm.trans (by rfl)
  obtain ⟨ends, blocks⟩ := renderNode_blocks isScriptless_nestedLoop text
  exact ⟨⟨isScriptless_nestedLoop, text, hasBlock_nestedLoop⟩, ends,
    blocks 2 [] hasBlock_nestedLoop⟩

end ShellTree
