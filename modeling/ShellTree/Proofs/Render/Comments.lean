import ShellTree.Proofs.Codec.Normal
import ShellTree.Proofs.Render.Depth
import ShellTree.Proofs.Text.Lines

/-! What comments do to the text of a script. As long as each keeps to its line, nothing that runs
depends on what they say. -/
namespace ShellTree
open Outcome Text Render

namespace Node

mutual

/-- The tree with nothing in its comments, where these are statements. -/
def silence : Node → Node
  | ⟨.comment _, p⟩ => ⟨.comment "", p⟩
  | ⟨.script body, p⟩ => ⟨.script (silences body), p⟩
  | ⟨.ifElse test body orelse, p⟩ => ⟨.ifElse test (silences body) (silences orelse), p⟩
  | ⟨.forIn target iter body, p⟩ => ⟨.forIn target iter (silences body), p⟩
  | ⟨.function name body, p⟩ => ⟨.function name (silences body), p⟩
  | n => n

def silences : List Node → List Node
  | [] => []
  | n :: ns => n.silence :: silences ns

end

mutual

/-- What the comments among the statements of a tree say. -/
def comments : Node → List String
  | ⟨.comment value, _⟩ => [value]
  | ⟨.script body, _⟩ => commentsAll body
  | ⟨.ifElse _ body orelse, _⟩ => commentsAll body ++ commentsAll orelse
  | ⟨.forIn _ _ body, _⟩ => commentsAll body
  | ⟨.function _ body, _⟩ => commentsAll body
  | _ => []

def commentsAll : List Node → List String
  | [] => []
  | n :: ns => n.comments ++ commentsAll ns

end

theorem silences_eq_map (ns : List Node) : silences ns = ns.map silence := by
  induction ns with
  | nil => rfl
  | cons n ns ih => rw [silences, ih, List.map_cons]

theorem commentsAll_eq_flatMap (ns : List Node) : commentsAll ns = ns.flatMap comments := by
  induction ns with
  | nil => rfl
  | cons n ns ih => rw [commentsAll, ih, List.flatMap_cons]

theorem tag_silence (n : Node) : n.silence.tag = n.tag := by
  obtain ⟨k, p⟩ := n
  cases k <;> rfl

theorem IsStatement.silence {n : Node} (h : n.IsStatement) : n.silence.IsStatement := by
  induction h with
  | @simple k p hk =>
    cases k with
    | script | ifElse | forIn | function => simp [Kind.tag, Tag.simpleStatements] at hk
    | _ => exact .simple hk
  | script _ ih =>
    rw [Node.silence, silences_eq_map]
    exact .script (List.forall_mem_map.mpr ih)
  | ifElse _ _ ihb iho =>
    rw [Node.silence, silences_eq_map, silences_eq_map]
    exact .ifElse (List.forall_mem_map.mpr ihb) (List.forall_mem_map.mpr iho)
  | forIn _ ih =>
    rw [Node.silence, silences_eq_map]
    exact .forIn (List.forall_mem_map.mpr ih)
  | function _ ih =>
    rw [Node.silence, silences_eq_map]
    exact .function (List.forall_mem_map.mpr ih)

theorem comments_subset {n : Node} {ns : List Node} (h : n ∈ ns) :
    n.comments ⊆ commentsAll ns := by
  rw [commentsAll_eq_flatMap]
  exact fun value hv => List.mem_flatMap.mpr ⟨n, h, hv⟩

/-- Every comment among the statements keeps to one line. -/
def OneLineComments (n : Node) : Prop := ∀ value ∈ n.comments, '\n' ∉ value.toList

theorem OneLineComments.of_subset {n : Node} {ns : List Node} (h : n.OneLineComments)
    (hs : commentsAll ns ⊆ n.comments) : ∀ c ∈ ns, c.OneLineComments :=
  fun _ hc value hv => h value (hs (comments_subset hc hv))

end Node

namespace Printer
open Node

variable {d : Dialect}

/-- Two results that run alike: the same error, or texts of whole lines with the same code. -/
inductive Alike : Result String → Result String → Prop
  | error (e : RenderError) : Alike (.error e) (.error e)
  | ok {s t : String} (hs : IsLines s) (ht : IsLines t) (h : codeLines s = codeLines t) :
    Alike (.ok s) (.ok t)

namespace Alike

theorem codeLines_eq {x y : Result String} (h : Alike x y) :
    codeLines <$> x = codeLines <$> y := by
  cases h with
  | error e => rfl
  | ok _ _ h => exact congrArg Except.ok h

theorem refl {s : String} (hs : IsLines s) : Alike (.ok s) (.ok s) := .ok hs hs rfl

/-- What comes first may be anything, if it is the same. -/
theorem bind_same {α : Type} (x : Result α) {f g : α → Result String}
    (h : ∀ a, x = .ok a → Alike (f a) (g a)) : Alike (x >>= f) (x >>= g) := by
  cases x with
  | error e => exact .error e
  | ok a => exact h a rfl

theorem bind {x y : Result String} (hxy : Alike x y) {f g : String → Result String}
    (h : ∀ s t, IsLines s → IsLines t → codeLines s = codeLines t → Alike (f s) (g t)) :
    Alike (x >>= f) (y >>= g) := by
  cases hxy with
  | error e => exact .error e
  | ok hs ht hst => exact h _ _ hs ht hst

end Alike

theorem codeLines_append_congr {s t s' t' : String} (hs : IsLines s) (ht : IsLines t)
    (h : codeLines s = codeLines t) (h' : codeLines s' = codeLines t') :
    codeLines (s ++ s') = codeLines (t ++ t') := by
  rw [codeLines_append hs, codeLines_append ht, h, h']

theorem mem_margin {depth : Nat} {c : Char} (h : c ∈ (margin d depth).toList) : c = ' ' := by
  have unit : ∀ c ∈ d.unit.toList, c = ' ' := by cases d <;> simp [Dialect.unit]
  exact unit c (mem_join_replicate h)

theorem codeLines_emit_comment {value : String} (hv : '\n' ∉ value.toList) (depth : Nat) :
    codeLines (emit d depth ("# " ++ value ++ "\n")) = [] := by
  have hn : '\n' ∉ ' ' :: value.toList := by simpa using hv
  have line : emit d depth ("# " ++ value ++ "\n") =
      String.ofList ((margin d depth).toList ++ '#' :: ' ' :: value.toList ++ ['\n']) := by
    have hl : ("# " ++ value ++ "\n").toList = '#' :: (' ' :: value.toList ++ ['\n']) := by simp
    rw [emit, indent, hl, indentFrom, if_pos rfl, indentFrom_append,
      show ('#' == '\n') = false from rfl, indentFrom_false hn, startsAfter_false hn]
    simp [indentFrom]
  rw [line]
  exact codeLines_comment (fun c hc => mem_margin hc) hn

theorem alike_statements {ns : List Node}
    (h : ∀ n ∈ ns, ∀ depth, Alike (statement d depth "" n) (statement d depth "" n.silence))
    (depth : Nat) : Alike (statements d depth ns) (statements d depth (silences ns)) := by
  induction ns with
  | nil => exact .ok isLines_empty isLines_empty rfl
  | cons n ns ih =>
    obtain ⟨hn, hns⟩ := List.forall_mem_cons.mp h
    rw [statements, silences, statements]
    refine (hn depth).bind fun s t hs ht hst => (ih hns).bind fun s' t' hs' ht' hst' => ?_
    exact .ok (hs.append hs') (ht.append ht') (codeLines_append_congr hs ht hst hst')

theorem alike_block {ns : List Node}
    (h : ∀ n ∈ ns, ∀ depth, Alike (statement d depth "" n) (statement d depth "" n.silence))
    (depth : Nat) : Alike (block d depth ns (statements d (depth + 1) ns))
      (block d depth (silences ns) (statements d (depth + 1) (silences ns))) := by
  cases ns with
  | nil =>
    have line : IsLines d.emptyBlock := d.speaks.emptyBlock ▸ d.endsLines.emptyBlock
    exact .refl (line.indent _)
  | cons n ns => exact alike_statements h (depth + 1)

/-- A block between a header and its end. -/
theorem alike_closed {header close s t : String} (hh : EndsLine header) (hc : IsLines close)
    {depth : Nat} (hs : IsLines s) (ht : IsLines t) (hst : codeLines s = codeLines t) :
    Alike (.ok (emit d depth header ++ s ++ emit d depth close))
      (.ok (emit d depth header ++ t ++ emit d depth close)) := by
  have hh : IsLines (emit d depth header) := hh.isLines.indent _
  have hc : IsLines (emit d depth close) := hc.indent _
  have open_eq := codeLines_append_congr hh hh rfl hst
  exact .ok ((hh.append hs).append hc) ((hh.append ht).append hc)
    (codeLines_append_congr (hh.append hs) (hh.append ht) open_eq rfl)

theorem alike_alternative {ns : List Node}
    (h : ∀ n ∈ ns, ∀ depth lead,
      Alike (statement d depth lead n) (statement d depth lead n.silence))
    (depth : Nat) : Alike (alternative d depth ns) (alternative d depth (silences ns)) := by
  cases ns with
  | nil =>
    have close : IsLines (d.closing .ifElse) := d.speaks.ifClose ▸ d.endsLines.ifClose
    exact .refl (close.indent _)
  | cons n ns =>
    obtain ⟨hn, hns⟩ := List.forall_mem_cons.mp h
    have single : (silences ns = [] ∧ n.silence.tag = .ifElse) ↔ (ns = [] ∧ n.tag = .ifElse) := by
      rw [tag_silence, silences_eq_map, List.map_eq_nil_iff]
    rw [silences, alternative, alternative]
    simp only [single, ← d.speaks.elseHeader, ← d.speaks.ifClose]
    split
    · exact hn depth d.elseIf
    · have others := alike_statements (fun c hc depth => hns c hc depth "") (depth + 1)
      refine (hn (depth + 1) "").bind fun s t hs ht hst =>
        others.bind fun s' t' hs' ht' hst' => ?_
      exact alike_closed d.endsLines.elseHeader d.endsLines.ifClose (hs.append hs')
        (ht.append ht') (codeLines_append_congr hs ht hst hst')

theorem alike_simple {k : Kind Node} (hk : k.tag ∈ Tag.simpleStatements) {p : Option Position}
    (hc : (⟨k, p⟩ : Node).OneLineComments) (depth : Nat) (lead : String) :
    Alike (statement d depth lead ⟨k, p⟩) (statement d depth lead (silence ⟨k, p⟩)) := by
  have same : Alike (statement d depth lead ⟨k, p⟩) (statement d depth lead ⟨k, p⟩) := by
    rw [statement_simple hk, map_eq_pure_bind]
    refine .bind_same _ fun t ht => .refl ?_
    exact (endsLine_simple hk ht).isLines.indent _
  cases k with
  | comment value =>
    have printed : ∀ value : String, statement d depth lead ⟨.comment value, p⟩ =
        .ok (emit d depth ("# " ++ value ++ "\n")) := by
      intro value
      rw [statement_simple (k := .comment value) hk, renderNode_mk]
      rfl
    have lines : ∀ value : String, IsLines (emit d depth ("# " ++ value ++ "\n")) :=
      fun value => (EndsLine.append_left (fun _ => rfl) _).isLines.indent _
    have hv : '\n' ∉ value.toList := hc value (by simp [comments])
    rw [silence, printed, printed]
    exact .ok (lines value) (lines "") ((codeLines_emit_comment hv depth).trans
      (codeLines_emit_comment (by simp) depth).symm)
  | script | ifElse | forIn | function => simp [Kind.tag, Tag.simpleStatements] at hk
  | _ => exact same

/-- Taking out what the comments say does not change what runs. -/
theorem alike_silence {n : Node} (h : n.IsStatement) (hc : n.OneLineComments) (depth : Nat)
    (lead : String) : Alike (statement d depth lead n) (statement d depth lead n.silence) := by
  induction h generalizing depth lead with
  | simple hk => exact alike_simple hk hc depth lead
  | @script body p hb ih =>
    have one : ∀ n ∈ body, n.OneLineComments := hc.of_subset (by simp [comments])
    have alike := fun n hn depth => ih n hn (one n hn) depth ""
    rw [silence, statement, statement]
    exact alike_statements alike depth
  | @ifElse test body orelse p hb ho ihb iho =>
    have body_one : ∀ n ∈ body, n.OneLineComments := hc.of_subset (by simp [comments])
    have orelse_one : ∀ n ∈ orelse, n.OneLineComments := hc.of_subset (by simp [comments])
    have body_alike := fun n hn depth => ihb n hn (body_one n hn) depth ""
    have orelse_alike := fun n hn => iho n hn (orelse_one n hn)
    rw [silence, statement, statement]
    refine .bind_same _ fun test _ => (alike_block body_alike depth).bind fun s t hs ht hst =>
      (alike_alternative orelse_alike depth).bind fun s' t' hs' ht' hst' => ?_
    have header : IsLines (emit d depth (lead ++ d.ifHeader test)) :=
      ((endsLine_ifHeader d test).append_left lead).isLines.indent _
    exact .ok ((header.append hs).append hs') ((header.append ht).append ht')
      (codeLines_append_congr (header.append hs) (header.append ht)
        (codeLines_append_congr header header rfl hst) hst')
  | @forIn target iter body p hb ih =>
    have one : ∀ n ∈ body, n.OneLineComments := hc.of_subset (by simp [comments])
    have alike := fun n hn depth => ih n hn (one n hn) depth ""
    rw [silence, statement, statement, ← d.speaks.forHeader, ← d.speaks.forClose]
    refine .bind_same _ fun name _ => .bind_same _ fun iter _ =>
      (alike_block alike depth).bind fun s t hs ht hst => ?_
    exact alike_closed (d.endsLines.forHeader name iter) d.endsLines.forClose hs ht hst
  | @function name body p hb ih =>
    have one : ∀ n ∈ body, n.OneLineComments := hc.of_subset (by simp [comments])
    have alike := fun n hn depth => ih n hn (one n hn) depth ""
    rw [silence, statement, statement, ← d.speaks.functionHeader, ← d.speaks.functionClose]
    refine (alike_block alike depth).bind fun s t hs ht hst => ?_
    exact alike_closed (d.endsLines.functionHeader name) d.endsLines.functionClose hs ht hst

end Printer

open Printer

/-- What the comments say does not matter as long as they keep to their lines: statement trees that
differ only in it have the same code, or the same error. -/
theorem codeLines_renderNode_eq (d : Dialect) {n n' : Node} (h : n.IsStatement)
    (h' : n'.IsStatement) (hc : n.OneLineComments) (hc' : n'.OneLineComments)
    (hs : n.silence.same n'.silence = true) :
    codeLines <$> renderNode d n = codeLines <$> renderNode d n' := by
  have printed : ∀ {n : Node}, n.IsStatement → statement d 0 "" n = renderNode d n := by
    intro n hn
    rw [(agrees_of_isStatement hn).statement_eq, funext emit_zero, id_map']
  have silent : ∀ {n : Node}, n.IsStatement → n.OneLineComments →
      codeLines <$> renderNode d n = codeLines <$> renderNode d n.silence := by
    intro n hn hc
    rw [← printed hn, ← printed hn.silence]
    exact (alike_silence hn hc 0 "").codeLines_eq
  have same : renderNode d n.silence = renderNode d n'.silence := by
    rw [renderNode, renderNode, ← encode_erase, (Node.same_iff_erase _ _).mp hs, encode_erase]
  rw [silent h hc, silent h' hc', same]

/-- A loop over a comment and a command. -/
def remarked (value : String) : Node :=
  .forIn (.var "x") (.raw "*") [.comment value, .statement (.raw "ls")]

theorem isStatement_remarked (value : String) : (remarked value).IsStatement := by
  refine .forIn fun n hn => ?_
  obtain rfl | rfl : n = .comment value ∨ n = .statement (.raw "ls") := by simpa using hn
  · exact .simple (by simp [Kind.tag, Tag.simpleStatements])
  · exact .simple (by simp [Kind.tag, Tag.simpleStatements])

theorem codeLines_remarked :
    ((remarked "a").IsStatement ∧ (remarked "b").IsStatement ∧ (remarked "a").OneLineComments ∧
      (remarked "b").OneLineComments ∧ (remarked "a").silence.same (remarked "b").silence = true) ∧
    codeLines <$> renderNode .bash (remarked "a") =
      codeLines <$> renderNode .bash (remarked "b") ∧
    codeLines <$> renderNode .bash (remarked "a") =
      .ok ["for x in *; do\n", "  ls\n", "done\n"] := by
  have line : ∀ value, '\n' ∉ value.toList → (remarked value).OneLineComments := by
    intro value hv v hm
    obtain rfl := List.mem_singleton.mp (show v ∈ [value] from hm)
    exact hv
  have a := line "a" (by decide)
  have b := line "b" (by decide)
  have same : (remarked "a").silence.same (remarked "b").silence = true := by rfl
  exact ⟨⟨isStatement_remarked _, isStatement_remarked _, a, b, same⟩,
    codeLines_renderNode_eq .bash (isStatement_remarked _) (isStatement_remarked _) a b same,
    by rfl⟩

/-- A comment with a line break runs what comes after the break. -/
theorem codeLines_brokenComment :
    (Node.comment "a").IsStatement ∧ (Node.comment "a\nls").IsStatement ∧
      (Node.comment "a").silence.same (Node.comment "a\nls").silence = true ∧
      (∃ t, renderNode .bash (.comment "a") = .ok t ∧ codeLines t = []) ∧
      ∃ t, renderNode .bash (.comment "a\nls") = .ok t ∧ codeLines t = ["ls\n"] :=
  ⟨.simple (by decide), .simple (by decide), rfl, ⟨"# a\n", rfl, by rfl⟩,
    "# a\nls\n", rfl, by rfl⟩

end ShellTree
