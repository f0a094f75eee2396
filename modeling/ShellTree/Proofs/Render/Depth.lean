import ShellTree.Proofs.Render.Statement
import ShellTree.Proofs.Render.Wording

/-! Printing with a depth. A printer that walks a tree once and carries the depth of the block that
it is in writes what rendering makes by moving finished blocks to the right over and over. -/
namespace ShellTree
open Outcome Text Render

namespace Printer

section
variable (d : Dialect)

/-- What every line at a depth starts with. -/
def margin (depth : Nat) : String := String.join (List.replicate depth d.unit)

/-- Writes a text, of one line or more, at a depth. -/
def emit (depth : Nat) (text : String) : String := Text.indent (margin d depth) text

/-- A block below a depth, given what its statements are printed as. -/
def block (depth : Nat) (body : List Node) (printed : Result String) : Result String :=
  if body.isEmpty then return emit d (depth + 1) d.emptyBlock else printed

mutual

/-- Prints a statement. Of a conditional that follows an `else`, `lead` is what comes before its
header on the same line. -/
def statement (depth : Nat) (lead : String) : Node → Result String
  | ⟨.script body, _⟩ => statements depth body
  | ⟨.ifElse test body orelse, _⟩ => do
    let test ← renderNode d test
    let block ← block d depth body (statements (depth + 1) body)
    let rest ← alternative depth orelse
    return emit d depth (lead ++ d.ifHeader test) ++ block ++ rest
  | ⟨.forIn target iter body, _⟩ => do
    let name ← target.kind.loopName d
    let iter ← renderNode d iter
    let block ← block d depth body (statements (depth + 1) body)
    return emit d depth (d.forHeader name iter) ++ block ++ emit d depth (d.closing .forIn)
  | ⟨.function name body, _⟩ => do
    let block ← block d depth body (statements (depth + 1) body)
    return emit d depth (d.functionHeader name) ++ block ++ emit d depth (d.closing .function)
  | ⟨k, p⟩ => return emit d depth (← renderNode d ⟨k, p⟩)

def statements (depth : Nat) : List Node → Result String
  | [] => return ""
  | n :: ns => do
    let first ← statement depth "" n
    let others ← statements depth ns
    return first ++ others

/-- What follows the first block of a conditional: nothing but its end, an else-if at the same
depth, or a block of its own. -/
def alternative (depth : Nat) : List Node → Result String
  | [] => return emit d depth (d.closing .ifElse)
  | n :: ns =>
    if ns = [] ∧ n.tag = .ifElse then statement depth d.elseIf n
    else do
      let first ← statement (depth + 1) "" n
      let others ← statements (depth + 1) ns
      return emit d depth d.elseHeader ++ (first ++ others) ++ emit d depth (d.closing .ifElse)

end

end

section
variable {d : Dialect} {depth : Nat}

theorem emit_zero (text : String) : emit d 0 text = text := indent_empty_unit text

theorem emit_append {s : String} (hs : IsLines s) (t : String) :
    emit d depth (s ++ t) = emit d depth s ++ emit d depth t := indent_append hs _ t

theorem unit_noBreak (d : Dialect) : '\n' ∉ d.unit.toList := by
  cases d <;> decide

theorem endsLine_ifHeader (d : Dialect) (test : String) : EndsLine (d.ifHeader test) := by
  rw [← d.speaks.ifHeader]
  exact d.endsLines.ifHeader test

/-- A block that is moved to the right goes one level deeper. -/
theorem emit_indent (text : String) :
    emit d depth (indent d.phrasing.unit text) = emit d (depth + 1) text := by
  have hm : margin d (depth + 1) = margin d depth ++ d.unit := by
    simp [margin, List.replicate_succ']
  rw [emit, emit, d.speaks.unit, indent_indent _ (unit_noBreak d), hm]

/-- What holds of each statement: moved to a depth, its text is what is printed there. -/
def Agrees (d : Dialect) (n : Node) : Prop :=
  ∀ depth lead, lead = "" ∨ n.tag = .ifElse →
    statement d depth lead n = (fun t => emit d depth (lead ++ t)) <$> renderNode d n

theorem Agrees.statement_eq {n : Node} (h : Agrees d n) (depth : Nat) :
    statement d depth "" n = emit d depth <$> renderNode d n := by
  simpa using h depth "" (.inl rfl)

theorem statements_eq {ns : List Node} (h : ∀ n ∈ ns, Agrees d n) (hl : ∀ n ∈ ns, Lined d n)
    (depth : Nat) : statements d depth ns =
      (fun ts => emit d depth (String.join ts)) <$> texts (ns.map (nodePart d)) := by
  rw [texts_nodePart]
  induction ns with
  | nil => rfl
  | cons n ns ih =>
    rw [statements, (h n (by simp)).statement_eq,
      ih (fun c hc => h c (by simp [hc])) fun c hc => hl c (by simp [hc])]
    simp only [List.map_cons, Tagged.collect_cons, map_eq_pure_bind, bind_assoc, pure_bind]
    apply bind_congr_ok
    intro t ht
    simp only [String.join_cons, emit_append (hl n (by simp) t ht).1]

/-- As many texts as there are nodes. -/
theorem isEmpty_texts {ns : List Node} {ts : List String}
    (h : texts (ns.map (nodePart d)) = .ok ts) : ts.isEmpty = ns.isEmpty := by
  rw [← List.isEmpty_map, ← texts_nodePart_eq_ok.mp h, List.isEmpty_map]

/-- A block stands between whole lines, so that each part is moved to the right by itself. -/
theorem emit_compound {header : String} (hh : IsLines header) {body : List Node}
    (hl : ∀ n ∈ body, Lined d n) {ts : List String} (hts : texts (body.map (nodePart d)) = .ok ts)
    (after : String) : emit d depth (header ++ indentBlock d ts ++ after) =
      emit d depth header ++ emit d depth (indentBlock d ts) ++ emit d depth after := by
  have block := isLines_indentBlock d (isLines_texts hl hts)
  rw [emit_append (hh.append block), emit_append hh]

theorem block_eq {body : List Node} (h : ∀ n ∈ body, Agrees d n) (hl : ∀ n ∈ body, Lined d n)
    (depth : Nat) : block d depth body (statements d (depth + 1) body) =
      (fun ts => emit d depth (indentBlock d ts)) <$> texts (body.map (nodePart d)) := by
  rw [statements_eq h hl, block]
  simp only [indentBlock, emit_indent, d.speaks.emptyBlock, map_eq_pure_bind]
  split
  · next hb =>
    obtain rfl := List.isEmpty_iff.mp hb
    rfl
  · next hb =>
    apply bind_congr_ok
    intro ts hts
    rw [isEmpty_texts hts, if_neg hb]

/-- What follows the first block, printed at a depth. -/
theorem alternative_eq {orelse : List Node} (h : ∀ n ∈ orelse, Agrees d n)
    (hl : ∀ n ∈ orelse, Lined d n) (depth : Nat) : alternative d depth orelse =
      (fun ts => emit d depth (rest d (orelse.map (nodePart d)) ts)) <$>
        texts (orelse.map (nodePart d)) := by
  simp only [rest_nodePart, d.speaks.ifClose, d.speaks.elseIf]
  match orelse with
  | [] => rfl
  | n :: ns =>
    rw [alternative]
    split
    · next hc =>
      obtain ⟨rfl, ht⟩ := hc
      rw [h n (by simp) depth _ (.inr ht), texts_nodePart]
      simp only [List.map_cons, List.map_nil, Tagged.collect_cons, Tagged.collect_nil, ht,
        map_eq_pure_bind, bind_assoc, pure_bind]
      simp
    · next hc =>
      have hc : ¬(n :: ns).map Node.tag = [.ifElse] := by
        simpa [and_comm] using hc
      calc (do
            let first ← statement d (depth + 1) "" n
            let others ← statements d (depth + 1) ns
            return emit d depth d.elseHeader ++ (first ++ others) ++
              emit d depth (d.closing .ifElse))
          = (fun t => emit d depth d.elseHeader ++ t ++ emit d depth (d.closing .ifElse)) <$>
              statements d (depth + 1) (n :: ns) := by
            simp only [statements, map_eq_pure_bind, bind_assoc, pure_bind]
        _ = _ := by
            rw [statements_eq h hl]
            simp only [map_eq_pure_bind, bind_assoc, pure_bind]
            apply bind_congr_ok
            intro ts hts
            have he : ts.isEmpty = false := isEmpty_texts hts
            rw [if_neg (by simp [he]), if_neg hc,
              emit_compound d.endsLines.elseHeader.isLines hl hts, indentBlock, he, emit_indent,
              d.speaks.elseHeader]
            rfl

theorem statement_simple {k : Kind Node} (hk : k.tag ∈ Tag.simpleStatements)
    {p : Option Position} (depth : Nat) (lead : String) :
    statement d depth lead ⟨k, p⟩ = emit d depth <$> renderNode d ⟨k, p⟩ := by
  rw [map_eq_pure_bind]
  cases k with
  | script | ifElse | forIn | function => simp [Kind.tag, Tag.simpleStatements] at hk
  | _ => rfl

theorem agrees_of_isStatement {n : Node} (h : n.IsStatement) : Agrees d n := by
  induction h with
  | @simple k p hk =>
    rintro depth lead (rfl | ht)
    · simp only [statement_simple hk, String.empty_append]
    · rw [show k.tag = .ifElse from ht] at hk
      simp [Tag.simpleStatements] at hk
  | @script body p hb ih =>
    have hl : ∀ n ∈ body, Lined d n := fun n hn => (hb n hn).lined d
    rintro depth lead (rfl | ht)
    · rw [statement, statements_eq ih hl, renderNode_mk]
      simp only [Render.kind, Kind.map, map_eq_pure_bind, bind_assoc, pure_bind,
        String.empty_append]
    · cases ht
  | @ifElse test body orelse p hb ho ihb iho =>
    have hlb : ∀ n ∈ body, Lined d n := fun n hn => (hb n hn).lined d
    have hlo : ∀ n ∈ orelse, Lined d n := fun n hn => (ho n hn).lined d
    intro depth lead _
    rw [statement, block_eq ihb hlb, alternative_eq iho hlo, renderNode_mk]
    simp only [Render.kind, Kind.map, map_eq_pure_bind, bind_assoc, pure_bind,
      d.speaks.ifHeader]
    apply bind_congr_ok
    intro test _
    apply bind_congr_ok
    intro bodies hbs
    have header : IsLines (lead ++ d.ifHeader test) :=
      ((endsLine_ifHeader d test).append_left lead).isLines
    simp only [← String.append_assoc, emit_compound header hlb hbs]
  | @forIn target iter body p hb ih =>
    have hl : ∀ n ∈ body, Lined d n := fun n hn => (hb n hn).lined d
    rintro depth lead (rfl | ht)
    · rw [statement, block_eq ih hl, renderNode_mk]
      simp only [Render.kind, Kind.map, map_eq_pure_bind, bind_assoc, pure_bind,
        String.empty_append, nodePart, loopName_encode, ← d.speaks.forHeader,
        ← d.speaks.forClose]
      apply bind_congr_ok
      intro name _
      apply bind_congr_ok
      intro iter _
      apply bind_congr_ok
      intro ts hts
      rw [emit_compound (d.endsLines.forHeader name iter).isLines hl hts]
    · cases ht
  | @function name body p hb ih =>
    have hl : ∀ n ∈ body, Lined d n := fun n hn => (hb n hn).lined d
    rintro depth lead (rfl | ht)
    · rw [statement, block_eq ih hl, renderNode_mk]
      simp only [Render.kind, Kind.map, map_eq_pure_bind, bind_assoc, pure_bind,
        String.empty_append, ← d.speaks.functionHeader, ← d.speaks.functionClose]
      apply bind_congr_ok
      intro ts hts
      rw [emit_compound (d.endsLines.functionHeader name).isLines hl hts]
    · cases ht

end

end Printer

/-- Rendering a statement tree, text or error, is printing it in one walk that carries the depth. -/
theorem renderNode_eq_printed (d : Dialect) {n : Node} (h : n.IsStatement) :
    renderNode d n = Printer.statement d 0 "" n := by
  rw [(Printer.agrees_of_isStatement h).statement_eq, funext Printer.emit_zero, id_map']

/-- A loop over a conditional with an else-if, which holds a function without statements and a
comment of two lines. -/
def nestedLoop : Node :=
  .forIn (.var "x") (.raw "*")
    [.ifElse (.raw "a") [.function "f" []]
      [.ifElse (.raw "b") [.comment "1\n2"] [.statement (.raw "c")]]]

theorem isScriptless_nestedLoop : nestedLoop.IsScriptless := by
  have comment : (Node.comment "1\n2").IsScriptless := .simple (by decide)
  have last : (Node.statement (.raw "c")).IsScriptless := .simple (by decide)
  have empty : (Node.function "f" []).IsScriptless := .function nofun
  have inner : (Node.ifElse (.raw "b") [.comment "1\n2"] [.statement (.raw "c")]).IsScriptless :=
    .ifElse (List.forall_mem_singleton.mpr comment) (List.forall_mem_singleton.mpr last)
  exact .forIn (List.forall_mem_singleton.mpr
    (.ifElse (List.forall_mem_singleton.mpr empty) (List.forall_mem_singleton.mpr inner)))

theorem isStatement_nestedLoop : nestedLoop.IsStatement := isScriptless_nestedLoop.isStatement

theorem renderNode_nestedLoop : nestedLoop.IsStatement ∧
    (∀ d, renderNode d nestedLoop = Printer.statement d 0 "" nestedLoop) ∧
    Printer.statement .bash 0 "" nestedLoop =
      .ok ("for x in *; do\n  if a; then\n    function f \x7b\n      :\n    \x7d\n" ++
        "  elif b; then\n    # 1\n    2\n  else\n    c\n  fi\ndone\n") ∧
    Printer.statement .xonsh 0 "" nestedLoop =
      .ok ("for x in *:\n    if a:\n        def f():\n            pass\n" ++
        "    elif b:\n        # 1\n        2\n    else:\n        c\n") ∧
    Printer.statement .fish 0 "" nestedLoop =
      .ok ("for x in *\n    if a\n        function f\n        end\n" ++
        "    else if b\n        # 1\n        2\n    else\n        c\n    end\nend\n") :=
  ⟨isStatement_nestedLoop, fun d => renderNode_eq_printed d isStatement_nestedLoop, by rfl, by rfl,
    by rfl⟩

end ShellTree
