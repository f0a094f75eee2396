import ShellTree.Proofs.Codec.Normal
import ShellTree.Proofs.Render.Header
import ShellTree.Proofs.Render.Statement

/-! Blocks as text. In scripts of comments and blocks, every line is a header, a keyword or the line
of an empty block, and how far it is moved to the right tells which block it is in. So the tree can
be read back from the text, in dialects with closing keywords and in the one without. -/
namespace ShellTree
open Outcome Text Render

/-- Comments of one line, and blocks over variables, made of such statements in turn. Names are
words, so that they may be more than letters, digits and underscores. -/
inductive Node.IsStructured : Node → Prop
  | comment {value : String} {p : Option Position} (hv : '\n' ∉ value.toList) :
    IsStructured ⟨.comment value, p⟩
  | ifElse {x : String} {body orelse : List Node} {q p : Option Position} (hx : IsWord x)
    (hb : ∀ n ∈ body, IsStructured n) (ho : ∀ n ∈ orelse, IsStructured n) :
    IsStructured ⟨.ifElse ⟨.var x, q⟩ body orelse, p⟩
  | forIn {x y : String} {body : List Node} {q q' p : Option Position} (hx : IsWord x)
    (hy : IsWord y) (hb : ∀ n ∈ body, IsStructured n) :
    IsStructured ⟨.forIn ⟨.var x, q⟩ ⟨.var y, q'⟩ body, p⟩
  | function {f : String} {body : List Node} {p : Option Position} (hf : IsWord f)
    (hb : ∀ n ∈ body, IsStructured n) : IsStructured ⟨.function f body, p⟩

theorem Node.IsStructured.isStatement {n : Node} (h : n.IsStructured) : n.IsStatement := by
  induction h with
  | comment => exact .simple (by simp [Kind.tag, Tag.simpleStatements])
  | ifElse _ _ _ ihb iho => exact .ifElse ihb iho
  | forIn _ _ _ ih => exact .forIn ih
  | function _ _ ih => exact .function ih

/-- What can follow a statement: not a line that is further in, and no other branch. -/
def Follows (r : List Char) : Prop := r.head? ≠ some ' ' ∧ r.head? ≠ some 'e'

/-- A statement begins neither like a line that is further in nor like another branch. -/
theorem Header.follows (h : Header) (d : Dialect) (s : List Char) :
    Follows ((h.text d).toList ++ s) := by
  obtain ⟨t, ht⟩ := exists_lead h d
  rw [ht]
  cases h <;> cases d <;> simp [Follows, lead]

namespace Node

def header? (n : Node) : Option Header :=
  match n.kind with
  | .comment value => some (.comment value)
  | .ifElse ⟨.var x, _⟩ _ _ => some (.ifElse x)
  | .forIn ⟨.var x, _⟩ ⟨.var y, _⟩ _ => some (.forIn x y)
  | .function f _ => some (.function f)
  | _ => none

variable (d : Dialect)

/-- The text of a node, if it can be rendered. -/
def text (n : Node) : String := (renderNode d n).toOption.getD ""

/-- The text of an `orelse`. -/
def alternative (orelse : List Node) : String :=
  rest d (orelse.map (nodePart d)) (orelse.map (text d))

/-- The text of a statement after its header. -/
def tail (n : Node) : String :=
  match n.kind with
  | .ifElse _ body orelse => indentBlock d (body.map (text d)) ++ alternative d orelse
  | .forIn _ _ body => indentBlock d (body.map (text d)) ++ d.phrasing.forClose
  | .function _ body => indentBlock d (body.map (text d)) ++ d.phrasing.functionClose
  | _ => ""

variable {d} {n n' : Node}

theorem text_eq {t : String} (h : renderNode d n = .ok t) : n.text d = t := by
  rw [text, h]
  rfl

theorem texts_eq {ns : List Node} (h : ∀ n ∈ ns, renderNode d n = .ok (n.text d)) :
    texts (ns.map (nodePart d)) = .ok (ns.map (text d)) := by
  rw [texts_nodePart_eq_ok, List.map_map]
  exact List.map_congr_left h

namespace IsStructured

/-- A structured statement is rendered as its header and its tail. -/
theorem renderNode_eq (h : n.IsStructured) (d : Dialect) : ∃ header : Header,
    n.header? = some header ∧ header.IsPlain ∧
      renderNode d n = .ok (header.text d ++ n.tail d) := by
  have all : ∀ {ns : List Node}, (∀ n ∈ ns, ∃ header : Header, n.header? = some header ∧
      header.IsPlain ∧ renderNode d n = .ok (header.text d ++ n.tail d)) →
        texts (ns.map (nodePart d)) = .ok (ns.map (Node.text d)) := by
    intro ns hns
    apply texts_eq
    intro n hn
    obtain ⟨header, -, -, hr⟩ := hns n hn
    rw [text_eq hr, hr]
  have var : ∀ (x : String) (q : Option Position),
      renderNode d ⟨.var x, q⟩ = .ok (d.phrasing.var x) := by
    intro x q
    rw [renderNode_mk]
    rfl
  induction h with
  | @comment value p hv =>
    refine ⟨.comment value, rfl, hv, ?_⟩
    rw [renderNode_mk, tail, String.append_empty]
    rfl
  | @ifElse x body orelse q p hx hb ho ihb iho =>
    refine ⟨.ifElse x, rfl, hx, ?_⟩
    rw [renderNode_mk, tail, ← String.append_assoc]
    simp only [Render.kind, Kind.map, all ihb, all iho, nodePart, var]
    rfl
  | @forIn x y body q q' p hx hy hb ih =>
    refine ⟨.forIn x y, rfl, ⟨hx, hy⟩, ?_⟩
    rw [renderNode_mk, tail, ← String.append_assoc]
    simp only [Render.kind, Kind.map, all ih, nodePart, var, loopName_encode]
    rfl
  | @function f body p hf hb ih =>
    refine ⟨.function f, rfl, hf, ?_⟩
    rw [renderNode_mk, tail, ← String.append_assoc]
    simp only [Render.kind, Kind.map, all ih]
    rfl

/-- A structured statement's text is its header and its tail. -/
theorem text_eq_append (h : n.IsStructured) (d : Dialect) : ∃ header : Header,
    n.header? = some header ∧ header.IsPlain ∧ n.text d = header.text d ++ n.tail d := by
  obtain ⟨header, hh, hp, hr⟩ := h.renderNode_eq d
  exact ⟨header, hh, hp, text_eq hr⟩

theorem renderNode_eq_text (h : n.IsStructured) (d : Dialect) :
    renderNode d n = .ok (n.text d) := by
  obtain ⟨header, -, -, hr⟩ := h.renderNode_eq d
  rw [text_eq hr, hr]

theorem isLines_text (h : n.IsStructured) (d : Dialect) : IsLines (n.text d) :=
  (h.isStatement.lined d _ (h.renderNode_eq_text d)).1

/-- The header and where it ends can be read back from the text of a statement. -/
theorem header?_eq (h : n.IsStructured) (h' : n'.IsStructured) {r r' : List Char}
    (heq : (n.text d).toList ++ r = (n'.text d).toList ++ r') :
    n.header? = n'.header? ∧ (n.tail d).toList ++ r = (n'.tail d).toList ++ r' := by
  obtain ⟨header, hh, hp, ht⟩ := h.text_eq_append d
  obtain ⟨header', hh', hp', ht'⟩ := h'.text_eq_append d
  rw [ht, ht', String.toList_append, String.toList_append, List.append_assoc,
    List.append_assoc] at heq
  obtain ⟨rfl, htail⟩ := Header.text_append_injective hp hp' heq
  exact ⟨hh.trans hh'.symm, htail⟩

end IsStructured

/-- A statement and where it ends can be read back from its text and what follows. -/
def ReadsBack (d : Dialect) (n : Node) : Prop :=
  ∀ n' : Node, n'.IsStructured → ∀ r r', Follows r → Follows r' →
    (n.text d).toList ++ r = (n'.text d).toList ++ r' → n.erase = n'.erase ∧ r = r'

section
variable {ns ns' : List Node}

theorem exists_join (h : ∀ n ∈ ns, n.IsStructured) (hne : ns ≠ []) (d : Dialect) :
    ∃ (header : Header) (s : List Char),
      (String.join (ns.map (text d))).toList = (header.text d).toList ++ s := by
  cases ns with
  | nil => exact absurd rfl hne
  | cons n ns =>
    obtain ⟨header, -, -, ht⟩ := (h n (by simp)).text_eq_append d
    rw [List.map_cons, String.join_cons, ht, String.append_assoc, String.toList_append]
    exact ⟨header, _, rfl⟩

theorem follows_join (h : ∀ n ∈ ns, n.IsStructured) :
    Follows (String.join (ns.map (text d))).toList := by
  by_cases hne : ns = []
  · simp [hne, Follows]
  · obtain ⟨header, s, hs⟩ := exists_join h hne d
    rw [hs]
    exact header.follows d s

theorem join_injective (ih : ∀ n ∈ ns, ReadsBack d n) (h : ∀ n ∈ ns, n.IsStructured)
    (h' : ∀ n ∈ ns', n.IsStructured)
    (heq : (String.join (ns.map (text d))).toList = (String.join (ns'.map (text d))).toList) :
    ns.map erase = ns'.map erase := by
  induction ns generalizing ns' with
  | nil =>
    by_cases hne : ns' = []
    · rw [hne]
    · obtain ⟨header, s, hs⟩ := exists_join h' hne d
      exact absurd (heq.trans hs).symm (header.text_append_ne_nil d s)
  | cons n ns tail =>
    cases ns' with
    | nil =>
      obtain ⟨header, s, hs⟩ := exists_join h (by simp) d
      exact absurd (hs.symm.trans heq) (header.text_append_ne_nil d s)
    | cons n' ns' =>
      have hn := List.forall_mem_of_forall_mem_cons h
      have hn' := List.forall_mem_of_forall_mem_cons h'
      simp only [List.map_cons, String.join_cons, String.toList_append] at heq
      obtain ⟨he, heq⟩ := ih n (by simp) n' (h' n' (by simp)) _ _ (follows_join hn)
        (follows_join hn') heq
      have hs := tail (fun m hm => ih m (by simp [hm])) hn hn' heq
      simp only [List.map_cons, he, hs]

/-- The lines of a block before they are moved to the right. -/
def blockText (d : Dialect) (ns : List Node) : String :=
  if ns = [] then d.phrasing.emptyBlock else String.join (ns.map (text d))

theorem indentBlock_eq (ns : List Node) :
    indentBlock d (ns.map (text d)) = Text.indent d.phrasing.unit (blockText d ns) := by
  simp only [indentBlock, blockText, List.isEmpty_iff, List.map_eq_nil_iff]

theorem isLines_blockText (h : ∀ n ∈ ns, n.IsStructured) : IsLines (blockText d ns) := by
  unfold blockText
  split
  · exact d.endsLines.emptyBlock
  · exact isLines_join (List.forall_mem_map.mpr fun n hn => (h n hn).isLines_text d)

/-- A block without statements is told from others by its line, or by having none. -/
theorem blockText_injective (ih : ∀ n ∈ ns, ReadsBack d n) (h : ∀ n ∈ ns, n.IsStructured)
    (h' : ∀ n ∈ ns', n.IsStructured)
    (heq : (blockText d ns).toList = (blockText d ns').toList) :
    ns.map erase = ns'.map erase := by
  unfold blockText at heq
  split at heq
  · next hn =>
    split at heq
    · next hn' => rw [hn, hn']
    · next hn' =>
      obtain ⟨header, s, hs⟩ := exists_join h' hn' d
      exact absurd (heq.trans hs).symm (header.text_append_ne_emptyBlock d s)
  · next hn =>
    split at heq
    · next hn' =>
      obtain ⟨header, s, hs⟩ := exists_join h hn d
      exact absurd (hs.symm.trans heq) (header.text_append_ne_emptyBlock d s)
    · exact join_injective ih h h' heq

/-- The statements of a block, and where it ends, can be read back. -/
theorem indentBlock_injective (ih : ∀ n ∈ ns, ReadsBack d n) (h : ∀ n ∈ ns, n.IsStructured)
    (h' : ∀ n ∈ ns', n.IsStructured) {r r' : List Char} (hr : r.head? ≠ some ' ')
    (hr' : r'.head? ≠ some ' ')
    (heq : (indentBlock d (ns.map (text d))).toList ++ r =
      (indentBlock d (ns'.map (text d))).toList ++ r') :
    ns.map erase = ns'.map erase ∧ r = r' := by
  have unit : ∃ u, d.phrasing.unit.toList = ' ' :: u := by
    cases d <;> exact ⟨_, rfl⟩
  obtain ⟨u, hu⟩ := unit
  simp only [indentBlock_eq, Text.indent, String.toList_ofList, hu] at heq
  obtain ⟨hs, rfl⟩ := indentFrom_append_injective (isLines_blockText h) (isLines_blockText h')
    hr hr' heq
  exact ⟨blockText_injective ih h h' hs, rfl⟩

section
variable {r r' : List Char}

theorem closing_append (d : Dialect) {closing : String} (hc : closing ∈ [d.phrasing.ifClose,
    d.phrasing.forClose, d.phrasing.functionClose]) (hr : Follows r) :
    (closing.toList ++ r).head? ≠ some ' ' := by
  simp only [List.mem_cons, List.not_mem_nil, or_false] at hc
  rcases hc with rfl | rfl | rfl <;> cases d <;>
    simp [Dialect.phrasing, Phrasing.bash, Phrasing.xonsh, Phrasing.fish, hr.1]

/-- A block ends at its closing keyword, or where what follows begins. -/
theorem closedBlock_injective (ih : ∀ n ∈ ns, ReadsBack d n) (h : ∀ n ∈ ns, n.IsStructured)
    (h' : ∀ n ∈ ns', n.IsStructured) {closing : String} (hc : closing ∈ [d.phrasing.ifClose,
      d.phrasing.forClose, d.phrasing.functionClose]) (hr : Follows r) (hr' : Follows r')
    (heq : (indentBlock d (ns.map (text d))).toList ++ (closing.toList ++ r) =
      (indentBlock d (ns'.map (text d))).toList ++ (closing.toList ++ r')) :
    ns.map erase = ns'.map erase ∧ r = r' := by
  obtain ⟨hs, hrest⟩ := indentBlock_injective ih h h' (closing_append d hc hr)
    (closing_append d hc hr') heq
  exact ⟨hs, List.append_cancel_left hrest⟩

end

/-! The other branches of a conditional -/

theorem alternative_nil : alternative d [] = d.phrasing.ifClose := by
  simp [alternative, rest]

theorem alternative_elseIf (hn : n.tag = .ifElse) :
    alternative d [n] = d.phrasing.elseIf ++ n.text d := by
  rw [alternative, rest_nodePart]
  simp [hn]

theorem alternative_block (hne : ns ≠ []) (hn : ns.map Node.tag ≠ [.ifElse]) :
    alternative d ns = d.phrasing.elseHeader ++ indentBlock d (ns.map (text d)) ++
      d.phrasing.ifClose := by
  rw [alternative, rest_nodePart]
  simp [hne, hn]

theorem elseIf_or_block (orelse : List Node) :
    (∃ n, orelse = [n] ∧ n.tag = .ifElse) ∨ orelse.map Node.tag ≠ [.ifElse] := by
  by_cases hn : orelse.map Node.tag = [.ifElse]
  · exact .inl (List.map_eq_singleton_iff.mp hn)
  · exact .inr hn

theorem IsStructured.text_ifElse (h : n.IsStructured) (hn : n.tag = .ifElse) (d : Dialect) :
    ∃ s, (n.text d).toList = 'i' :: s := by
  obtain ⟨header, hh, -, ht⟩ := h.text_eq_append d
  obtain ⟨s, hs⟩ := header.exists_lead d
  cases h with
  | ifElse =>
    obtain rfl := Option.some.inj hh
    rw [ht, String.toList_append, hs]
    exact ⟨_, rfl⟩
  | _ => cases hn

theorem exists_alternative (hne : ns ≠ []) (d : Dialect) :
    ∃ s, (alternative d ns).toList = 'e' :: 'l' :: s := by
  rcases elseIf_or_block ns with ⟨n, rfl, hn⟩ | hn
  · rw [alternative_elseIf hn]
    cases d <;> exact ⟨_, String.toList_append⟩
  · rw [alternative_block hne hn, String.append_assoc]
    cases d <;> exact ⟨_, String.toList_append⟩

section
variable {r r' : List Char}

/-- The end of a conditional is not taken for another branch. -/
theorem ifClose_append_ne (hr : Follows r) (s : List Char) :
    d.phrasing.ifClose.toList ++ r ≠ 'e' :: 'l' :: s := by
  intro h
  cases d with
  | xonsh =>
    have hr := hr.2
    obtain rfl : r = _ := h
    simp at hr
  | _ => simp [Dialect.phrasing, Phrasing.bash, Phrasing.fish] at h

theorem elseIf_append_ne (s s' : List Char) :
    d.phrasing.elseIf.toList ++ 'i' :: s ≠ d.phrasing.elseHeader.toList ++ s' := by
  cases d <;> simp [Dialect.phrasing, Phrasing.bash, Phrasing.xonsh, Phrasing.fish]

theorem alternative_append (hr : Follows r) (ns : List Node) :
    ((alternative d ns).toList ++ r).head? ≠ some ' ' := by
  by_cases hne : ns = []
  · rw [hne, alternative_nil]
    exact closing_append d (by simp) hr
  · obtain ⟨s, hs⟩ := exists_alternative hne d
    simp [hs]

/-- The other branches and where they end can be read back. -/
theorem alternative_injective (ih : ∀ n ∈ ns, ReadsBack d n) (h : ∀ n ∈ ns, n.IsStructured)
    (h' : ∀ n ∈ ns', n.IsStructured) (hr : Follows r) (hr' : Follows r')
    (heq : (alternative d ns).toList ++ r = (alternative d ns').toList ++ r') :
    ns.map erase = ns'.map erase ∧ r = r' := by
  by_cases hne : ns = [] <;> by_cases hne' : ns' = []
  · subst hne hne'
    exact ⟨rfl, List.append_cancel_left heq⟩
  · obtain ⟨s, hs⟩ := exists_alternative hne' d
    rw [hne, alternative_nil, hs] at heq
    exact absurd heq (ifClose_append_ne hr _)
  · obtain ⟨s, hs⟩ := exists_alternative hne d
    rw [hne', alternative_nil, hs] at heq
    exact absurd heq.symm (ifClose_append_ne hr' _)
  -- A conditional alone is written as an else-if, so that no block holds just one.
  rcases elseIf_or_block ns with ⟨n, rfl, hn⟩ | hn <;>
    rcases elseIf_or_block ns' with ⟨n', rfl, hn'⟩ | hn'
  · rw [alternative_elseIf hn, alternative_elseIf hn'] at heq
    simp only [String.toList_append, List.append_assoc, List.append_cancel_left_eq] at heq
    obtain ⟨he, hr⟩ := ih n (by simp) n' (h' n' (by simp)) _ _ hr hr' heq
    simp [he, hr]
  · obtain ⟨s, hs⟩ := (h n (by simp)).text_ifElse hn d
    rw [alternative_elseIf hn, alternative_block hne' hn'] at heq
    simp only [String.toList_append, List.append_assoc, hs] at heq
    exact absurd heq (elseIf_append_ne _ _)
  · obtain ⟨s, hs⟩ := (h' n' (by simp)).text_ifElse hn' d
    rw [alternative_elseIf hn', alternative_block hne hn] at heq
    simp only [String.toList_append, List.append_assoc, hs] at heq
    exact absurd heq.symm (elseIf_append_ne _ _)
  · rw [alternative_block hne hn, alternative_block hne' hn'] at heq
    simp only [String.toList_append, List.append_assoc, List.append_cancel_left_eq] at heq
    exact closedBlock_injective ih h h' (by simp) hr hr' heq

end

end

/-- Every structured statement can be read back: its header, then its blocks, each of which ends
where the text is not moved to the right any more. -/
theorem IsStructured.readsBack (h : n.IsStructured) (d : Dialect) : ReadsBack d n := by
  induction h with
  | comment hv =>
    intro n' h' r r' _ _ heq
    obtain ⟨hh, htail⟩ := header?_eq (.comment hv) h' heq
    cases h' with
    | comment =>
      cases hh
      exact ⟨by simp only [erase_mk, Kind.map], htail⟩
    -- Statements of different kinds have different headers.
    | _ => cases hh
  | ifElse hx hb ho ihb iho =>
    intro n' h' r r' hr hr' heq
    obtain ⟨hh, htail⟩ := header?_eq (.ifElse hx hb ho) h' heq
    cases h' with
    | ifElse _ hb' ho' =>
      cases hh
      simp only [tail, String.toList_append, List.append_assoc] at htail
      obtain ⟨hbody, hrest⟩ := indentBlock_injective ihb hb hb' (alternative_append hr _)
        (alternative_append hr' _) htail
      obtain ⟨horelse, rfl⟩ := alternative_injective iho ho ho' hr hr' hrest
      exact ⟨by simp only [erase_mk, Kind.map, hbody, horelse], rfl⟩
    | _ => cases hh
  | forIn hx hy hb ih =>
    intro n' h' r r' hr hr' heq
    obtain ⟨hh, htail⟩ := header?_eq (.forIn hx hy hb) h' heq
    cases h' with
    | forIn _ _ hb' =>
      cases hh
      simp only [tail, String.toList_append, List.append_assoc] at htail
      obtain ⟨hbody, rfl⟩ := closedBlock_injective ih hb hb' (by simp) hr hr' htail
      exact ⟨by simp only [erase_mk, Kind.map, hbody], rfl⟩
    | _ => cases hh
  | function hf hb ih =>
    intro n' h' r r' hr hr' heq
    obtain ⟨hh, htail⟩ := header?_eq (.function hf hb) h' heq
    cases h' with
    | function _ hb' =>
      cases hh
      simp only [tail, String.toList_append, List.append_assoc] at htail
      obtain ⟨hbody, rfl⟩ := closedBlock_injective ih hb hb' (by simp) hr hr' htail
      exact ⟨by simp only [erase_mk, Kind.map, hbody], rfl⟩
    | _ => cases hh

theorem renderNode_script {body : List Node} (h : ∀ n ∈ body, n.IsStructured)
    (p : Option Position) (d : Dialect) :
    renderNode d ⟨.script body, p⟩ = .ok (String.join (body.map (text d))) := by
  rw [renderNode_mk]
  simp only [Render.kind, Kind.map, texts_eq fun n hn => (h n hn).renderNode_eq_text d]
  rfl

end Node

open Node in
/-- The block structure of a script can be read back from its text, in every dialect: scripts of
structured statements have the same text just when they are equal. -/
theorem renderNode_script_eq_iff {body body' : List Node} (h : ∀ n ∈ body, n.IsStructured)
    (h' : ∀ n ∈ body', n.IsStructured) (p p' : Option Position) (d : Dialect) :
    renderNode d ⟨.script body, p⟩ = renderNode d ⟨.script body', p'⟩ ↔
      Node.same ⟨.script body, p⟩ ⟨.script body', p'⟩ = true := by
  rw [same_iff_erase]
  constructor
  · intro heq
    rw [renderNode_script h, renderNode_script h', Except.ok.injEq, ← String.toList_inj] at heq
    have hb := join_injective (fun n hn => (h n hn).readsBack d) h h' heq
    simp only [erase_mk, Kind.map, hb]
  · intro he
    rw [renderNode, renderNode, ← encode_erase, he, encode_erase]

/-- A comment in the branch of the outer conditional, or of the inner one. In Xonsh only the margin
of two lines tells them apart, in Fish also the place of an `end`. -/
theorem renderNode_dangling_else :
    let outer := [Node.ifElse (.var "x") [.ifElse (.var "y") [] []] [.comment "z"]]
    let inner := [Node.ifElse (.var "x") [.ifElse (.var "y") [] [.comment "z"]] []]
    ((∀ n ∈ outer, n.IsStructured) ∧ ∀ n ∈ inner, n.IsStructured) ∧
      (∀ d, renderNode d (.script outer) = renderNode d (.script inner) ↔
        (Node.script outer).same (.script inner) = true) ∧
      (Node.script outer).same (.script inner) = false ∧
      (∀ d, renderNode d (.script outer) ≠ renderNode d (.script inner)) ∧
      renderNode .xonsh (.script outer) =
        .ok "if x:\n    if y:\n        pass\nelse:\n    # z\n" ∧
      renderNode .xonsh (.script inner) =
        .ok "if x:\n    if y:\n        pass\n    else:\n        # z\n" ∧
      renderNode .fish (.script outer) =
        .ok "if $x\n    if $y\n    end\nelse\n    # z\nend\n" ∧
      renderNode .fish (.script inner) =
        .ok "if $x\n    if $y\n    else\n        # z\n    end\nend\n" := by
  intro outer inner
  have x : IsWord "x" := isWord_of_alphanum (by simp)
  have y : IsWord "y" := isWord_of_alphanum (by simp)
  have z : ∀ n ∈ [Node.comment "z"], n.IsStructured :=
    List.forall_mem_singleton.mpr (.comment (by decide))
  have houter : ∀ n ∈ outer, n.IsStructured := List.forall_mem_singleton.mpr
    (.ifElse x (List.forall_mem_singleton.mpr (.ifElse y nofun nofun)) z)
  have hinner : ∀ n ∈ inner, n.IsStructured := List.forall_mem_singleton.mpr
    (.ifElse x (List.forall_mem_singleton.mpr (.ifElse y nofun z)) nofun)
  have differ : (Node.script outer).same (.script inner) = false := by rfl
  have read_back := renderNode_script_eq_iff houter hinner none none
  refine ⟨⟨houter, hinner⟩, read_back, differ, ?_, by rfl, by rfl, by rfl, by rfl⟩
  intro d heq
  exact Bool.false_ne_true (differ.symm.trans ((read_back d).mp heq))

end ShellTree
