import ShellTree.Proofs.Render.Depth

/-! Chains of conditionals. However many conditionals follow each other through the `orelse` of the
one before, they are rendered side by side, with their blocks one level in and one end. -/
namespace ShellTree
open Outcome Text Render

namespace Json

/-- A conditional that goes on with another one as long as its `orelse` holds nothing else: the
tests with the blocks under them, and what is left for the last `else`. -/
inductive IsChain : Json → List (Json × List Json) → List Json → Prop
  | last {attrs : List (String × Json)} {test : Json} {body rest : List Json}
    (ht : attrs.lookup "test" = some test) (hb : attrs.lookup "body" = some (.arr body))
    (ho : attrs.lookup "orelse" = some (.arr rest) ∨ attrs.lookup "orelse" = none ∧ rest = [])
    (ends : ∀ m, rest = [m] → Tagged.tagOf? m ≠ some "If") :
    IsChain (.obj [("If", .obj attrs)]) [(test, body)] rest
  | link {attrs : List (String × Json)} {test next : Json} {body rest : List Json}
    {links : List (Json × List Json)} (ht : attrs.lookup "test" = some test)
    (hb : attrs.lookup "body" = some (.arr body))
    (ho : attrs.lookup "orelse" = some (.arr [next])) (h : IsChain next links rest) :
    IsChain (.obj [("If", .obj attrs)]) ((test, body) :: links) rest

theorem IsChain.tagOf?_eq {m : Json} {links : List (Json × List Json)} {rest : List Json}
    (h : m.IsChain links rest) : Tagged.tagOf? m = some "If" := by
  cases h <;> rfl

end Json

namespace Printer
variable (d : Dialect)

/-- The pieces of a chain from some test on, each with the depth that it stands at: headers and
blocks, the last `else` if there is something in it, and the end. -/
def chain (header : String → String) : List (String × List String) → List String →
    List (Nat × String)
  | [], rest =>
    (if rest.isEmpty then [] else [(0, d.elseHeader), (1, String.join rest)]) ++
      [(0, d.closing .ifElse)]
  | (test, body) :: links, rest =>
    (0, header test) ::
      (1, if body.isEmpty then d.emptyBlock else String.join body) ::
        chain d.elseIfHeader links rest

/-- The text of pieces at their depths, one after the other. -/
def pieces (ps : List (Nat × String)) : String :=
  String.join (ps.map fun (depth, text) => emit d depth text)

variable {d}

theorem pieces_cons (depth : Nat) (text : String) (ps : List (Nat × String)) :
    pieces d ((depth, text) :: ps) = emit d depth text ++ pieces d ps := by
  rw [pieces, List.map_cons, String.join_cons]
  rfl

theorem pieces_nil : pieces d [] = "" := rfl

/-- Only the first header of a chain tells whether the chain goes on from another one. -/
theorem pieces_elseIf (test : String) (body : List String) (links : List (String × List String))
    (rest : List String) :
    d.elseIf ++ pieces d (chain d d.ifHeader ((test, body) :: links) rest) =
      pieces d (chain d d.elseIfHeader ((test, body) :: links) rest) := by
  simp only [chain, pieces_cons, emit_zero, ← String.append_assoc, Dialect.elseIf_ifHeader]

theorem indentBlock_eq_emit (body : List String) : indentBlock d body =
    emit d 1 (if body.isEmpty then d.emptyBlock else String.join body) := by
  rw [indentBlock, ← emit_indent, emit_zero, d.speaks.emptyBlock]

theorem isLines_chain {header : String → String} (hh : ∀ test, IsLines (header test))
    {links : List (String × List String)} {rest : List String}
    (hl : ∀ link ∈ links, ∀ s ∈ link.2, IsLines s) (hr : ∀ s ∈ rest, IsLines s) :
    ∀ piece ∈ chain d header links rest, IsLines piece.2 := by
  induction links generalizing header with
  | nil =>
    rw [chain, ← d.speaks.ifClose, ← d.speaks.elseHeader]
    split
    · simpa using d.endsLines.ifClose
    · simp only [List.cons_append, List.nil_append, List.forall_mem_cons]
      exact ⟨d.endsLines.elseHeader.isLines, isLines_join hr, d.endsLines.ifClose, nofun⟩
  | cons link links ih =>
    obtain ⟨test, body⟩ := link
    obtain ⟨hb, hl⟩ := List.forall_mem_cons.mp hl
    have elseIf : ∀ test, IsLines (d.elseIfHeader test) := by
      intro test
      rw [← d.elseIf_ifHeader]
      exact ((endsLine_ifHeader d test).append_left _).isLines
    have block : IsLines (if body.isEmpty then d.emptyBlock else String.join body) := by
      split
      · rw [← d.speaks.emptyBlock]
        exact d.endsLines.emptyBlock
      · exact isLines_join hb
    rw [chain, List.forall_mem_cons, List.forall_mem_cons]
    exact ⟨hh test, block, ih elseIf hl⟩

end Printer

section
variable {d : Dialect} {attrs : List (String × Json)} {test : Json} {body orelse : List Json}

theorem exists_obj_of_render {m : Json} {t : String} (h : render d m = .ok t) :
    ∃ fields, m = .obj fields := by
  rw [render_eq] at h
  cases hp : Tagged.parse m with
  | error e =>
    rw [hp] at h
    cases h
  | ok opened =>
    obtain ⟨tag, attrs, rfl, -⟩ := Tagged.parse_eq_ok.mp hp
    exact ⟨_, rfl⟩

/-- One conditional, written from the texts of its parts. An absent `orelse` is an empty one. -/
theorem render_ifElse {t : String} {ts others : List String}
    (ht : attrs.lookup "test" = some test) (hb : attrs.lookup "body" = some (.arr body))
    (ho : attrs.lookup "orelse" = some (.arr orelse) ∨
      attrs.lookup "orelse" = none ∧ orelse = [])
    (test_ok : render d test = .ok t) (body_ok : renderAll d body = .ok ts)
    (orelse_ok : renderAll d orelse = .ok others) :
    render d (.obj [("If", .obj attrs)]) = .ok (d.ifHeader t ++ indentBlock d ts ++
      Render.rest d (orelse.map (part d)) others) := by
  obtain ⟨fields, rfl⟩ := exists_obj_of_render test_ok
  have test_eq : Render.node ((Tagged.opened "If" attrs).map (render d)) "test" = .ok t := by
    rw [Render.node, Tagged.node_eq_ok.mpr ⟨fields, ht, rfl⟩]
    exact test_ok
  have body_eq : Render.nodes ((Tagged.opened "If" attrs).map (render d)) "body" = .ok ts := by
    rw [Render.nodes, Tagged.nodes_eq_ok.mpr ⟨body, hb, rfl⟩]
    exact body_ok
  have orelse_eq : ((Tagged.opened "If" attrs).map (render d)).optionalNodes "orelse" =
      .ok (orelse.map (render d)) := by
    rw [Tagged.optionalNodes, Tagged.find?_opened]
    rcases ho with ho | ⟨ho, rfl⟩
    · rw [ho, Tagged.nodes_eq_ok.mpr ⟨orelse, ho, rfl⟩]
      rfl
    · rw [ho]
      rfl
  have rest_eq : Render.rest d (orelse.map (part d)) others =
      if others.isEmpty then d.phrasing.ifClose
      else if isElseIf ((((Tagged.opened "If" attrs).map (render d)).find? "orelse").map
          (·.value)) then d.phrasing.elseIf ++ String.join others
      else d.phrasing.elseHeader ++ indentBlock d others ++ d.phrasing.ifClose := by
    rw [Render.rest, sources_part, Tagged.find?_opened]
    rcases ho with ho | ⟨ho, rfl⟩
    · rw [ho]
      rfl
    · obtain rfl : [] = others := pure_eq_ok.mp orelse_ok
      rw [ho]
      rfl
  have name : Tag.ofName? "If" = some .ifElse := Tag.ofName?_name .ifElse
  rw [render_eq, Tagged.parse_eq_ok.mpr ⟨_, _, rfl, rfl⟩]
  simp only [Render.tagged, Tagged.tag_opened, name, construct, Render.ifElse, test_eq, body_eq,
    orelse_eq, rest_eq, lift_ok, ok_bind]
  rw [show Tagged.collect (orelse.map (render d)) = .ok others from orelse_ok, ok_bind,
    d.speaks.ifHeader]
  rfl

end

open Printer

/-- A chain is rendered as its pieces. All of them are whole lines if the statements in its blocks
are, so that the headers stand below one another, as do the blocks. -/
theorem render_chain {d : Dialect} {m : Json} {links : List (Json × List Json)} {rest : List Json}
    (h : m.IsChain links rest) {texts : List (String × List String)} {others : List String}
    (links_ok : List.Forall₂ (fun link text =>
      render d link.1 = .ok text.1 ∧ renderAll d link.2 = .ok text.2) links texts)
    (rest_ok : renderAll d rest = .ok others) :
    render d m = .ok (pieces d (chain d d.ifHeader texts others)) ∧
      ((∀ text ∈ texts, ∀ s ∈ text.2, IsLines s) → (∀ s ∈ others, IsLines s) →
        ∀ piece ∈ chain d d.ifHeader texts others, IsLines piece.2) := by
  refine ⟨?_, isLines_chain fun test => (endsLine_ifHeader d test).isLines⟩
  induction h generalizing texts with
  | @last attrs test body rest ht hb ho ends =>
    obtain _ | ⟨⟨test_ok, body_ok⟩, ⟨⟩⟩ := links_ok
    have rest_eq : Render.rest d (rest.map (part d)) others =
        pieces d (chain d d.elseIfHeader [] others) := by
      have not : isElseIf (some (.arr rest)) = false := by
        match rest with
        | [] => rfl
        | [m] => exact beq_false_of_ne (ends m rfl)
        | _ :: _ :: _ => rfl
      rw [Render.rest, sources_part, not, chain, d.speaks.ifClose, d.speaks.elseHeader]
      cases others with
      | nil => simp [pieces_cons, pieces_nil, emit_zero]
      | cons s others =>
        simp [pieces_cons, pieces_nil, emit_zero, indentBlock_eq_emit, String.append_assoc]
    rw [render_ifElse ht hb ho test_ok body_ok rest_ok, rest_eq]
    simp only [chain, pieces_cons, emit_zero, indentBlock_eq_emit, String.append_assoc]
  | @link attrs test next body rest links ht hb ho h ih =>
    cases links_ok with
    | @cons _ text _ texts text_ok links_ok =>
      obtain ⟨t, ts⟩ := text
      have next_ok := ih links_ok rest_ok
      have all : renderAll d [next] =
          .ok [pieces d (chain d d.ifHeader texts others)] := by
        rw [renderAll, List.map_singleton, next_ok]
        rfl
      have elseIf : isElseIf (some (.arr [next])) = true := beq_iff_eq.mpr h.tagOf?_eq
      rw [render_ifElse ht hb (.inl ho) text_ok.1 text_ok.2 all, Render.rest, sources_part,
        elseIf, d.speaks.elseIf]
      -- The chain that follows has a first test, whose header comes behind the keyword.
      obtain ⟨⟨t', ts'⟩, texts, rfl⟩ : ∃ first others, texts = first :: others := by
        cases h <;> cases links_ok <;> exact ⟨_, _, rfl⟩
      simp only [List.isEmpty_cons, Bool.false_eq_true, if_false, if_true, String.join_cons,
        String.join_nil, String.append_empty, pieces_elseIf]
      simp only [chain, pieces_cons, emit_zero, indentBlock_eq_emit, String.append_assoc]

/-- Three conditionals, of which the second has no statements and the last no `orelse`. -/
def threeWay : Json :=
  .obj [("If", .obj [("test", encode (.var "a")),
    ("orelse", .arr [.obj [("If", .obj [("test", encode (.var "b")), ("body", .arr []),
      ("orelse", .arr [.obj [("If", .obj [("test", encode (.var "c")),
        ("body", .arr [encode (.comment "2"), encode .pass])])]])])]]),
    ("body", .arr [encode (.comment "1")])])]

/-- The tests of the three, with what is under them. -/
def threeWayLinks : List (Json × List Json) :=
  [(encode (.var "a"), [encode (.comment "1")]), (encode (.var "b"), []),
    (encode (.var "c"), [encode (.comment "2"), encode .pass])]

theorem isChain_threeWay : threeWay.IsChain threeWayLinks [] :=
  .link rfl rfl rfl (.link rfl rfl rfl (.last rfl rfl (.inr ⟨rfl, rfl⟩) nofun))

/-- What is left for an `else` when it begins with a conditional, but does not end there. -/
def leftOver : List Json := [encode (.ifElse (.var "c") [.pass] []), encode (.comment "2")]

/-- Two conditionals, of which the second has no statements, with something left over. -/
def twoWay : Json :=
  .obj [("If", .obj [("test", encode (.var "a")), ("body", .arr [encode (.comment "1")]),
    ("orelse", .arr [.obj [("If", .obj [("test", encode (.var "b")), ("body", .arr []),
      ("orelse", .arr leftOver)])]])])]

def twoWayLinks : List (Json × List Json) :=
  [(encode (.var "a"), [encode (.comment "1")]), (encode (.var "b"), [])]

theorem isChain_twoWay : twoWay.IsChain twoWayLinks leftOver :=
  .link rfl rfl rfl (.last rfl rfl (.inl rfl) nofun)

/-- A chain with its parts, in a dialect: that the parts are rendered, and the whole with them. -/
def RendersAs (d : Dialect) (m : Json) (links : List (Json × List Json)) (rest : List Json)
    (texts : List (String × List String)) (others : List String) (t : String) : Prop :=
  (m.IsChain links rest ∧
    List.Forall₂ (fun link text => render d link.1 = .ok text.1 ∧
      renderAll d link.2 = .ok text.2) links texts ∧
    renderAll d rest = .ok others) ∧
  render d m = .ok (pieces d (chain d d.ifHeader texts others)) ∧
  ((∀ text ∈ texts, ∀ s ∈ text.2, IsLines s) → (∀ s ∈ others, IsLines s) →
    ∀ piece ∈ chain d d.ifHeader texts others, IsLines piece.2) ∧
  pieces d (chain d d.ifHeader texts others) = t

theorem render_threeWay :
    RendersAs .bash threeWay threeWayLinks []
      [("$a", ["# 1\n"]), ("$b", []), ("$c", ["# 2\n", ":\n"])] []
      ("if $a; then\n  # 1\nelif $b; then\n  :\n" ++ "elif $c; then\n  # 2\n  :\nfi\n") ∧
    RendersAs .xonsh twoWay twoWayLinks leftOver
      [("a", ["# 1\n"]), ("b", [])] ["if c:\n    pass\n", "# 2\n"]
      ("if a:\n    # 1\nelif b:\n    pass\n" ++ "else:\n    if c:\n        pass\n    # 2\n") ∧
    RendersAs .fish twoWay twoWayLinks leftOver
      [("$a", ["# 1\n"]), ("$b", [])] ["if $c\n    true\nend\n", "# 2\n"]
      ("if $a\n    # 1\nelse if $b\n" ++
        "else\n    if $c\n        true\n    end\n    # 2\nend\n") := by
  have three : List.Forall₂ (fun link text => render .bash link.1 = .ok text.1 ∧
      renderAll .bash link.2 = .ok text.2) threeWayLinks
      [("$a", ["# 1\n"]), ("$b", []), ("$c", ["# 2\n", ":\n"])] :=
    .cons ⟨rfl, rfl⟩ (.cons ⟨rfl, rfl⟩ (.cons ⟨rfl, rfl⟩ .nil))
  have xonsh : List.Forall₂ (fun link text => render .xonsh link.1 = .ok text.1 ∧
      renderAll .xonsh link.2 = .ok text.2) twoWayLinks [("a", ["# 1\n"]), ("b", [])] :=
    .cons ⟨rfl, rfl⟩ (.cons ⟨rfl, rfl⟩ .nil)
  have fish : List.Forall₂ (fun link text => render .fish link.1 = .ok text.1 ∧
      renderAll .fish link.2 = .ok text.2) twoWayLinks [("$a", ["# 1\n"]), ("$b", [])] :=
    .cons ⟨rfl, rfl⟩ (.cons ⟨rfl, rfl⟩ .nil)
  obtain ⟨three_eq, three_lines⟩ := render_chain isChain_threeWay three rfl
  obtain ⟨xonsh_eq, xonsh_lines⟩ := render_chain isChain_twoWay xonsh rfl
  obtain ⟨fish_eq, fish_lines⟩ := render_chain isChain_twoWay fish rfl
  exact ⟨⟨⟨isChain_threeWay, three, rfl⟩, three_eq, three_lines, by rfl⟩,
    ⟨⟨isChain_twoWay, xonsh, rfl⟩, xonsh_eq, xonsh_lines, by rfl⟩,
    ⟨⟨isChain_twoWay, fish, rfl⟩, fish_eq, fish_lines, by rfl⟩⟩

end ShellTree
