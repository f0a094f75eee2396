import ShellTree.Proofs.Codec.RoundTrip
import ShellTree.Proofs.Render.Construct

/-! Rendering trees one level at a time, through the maps that they are written as. -/
namespace ShellTree

/-- The map of a tree opens as the kind at its root, over the maps of the nodes below. -/
theorem opens_encode (n : Node) : Opens (encode n) (n.kind.map encode) none := by
  obtain ⟨k, p⟩ := n
  rw [encode_mk]
  apply opens_encodeKind
  intro m hm
  rw [Kind.nodeList_map] at hm
  obtain ⟨n, -, rfl⟩ := List.mem_map.mp hm
  exact encode_isObject n

namespace Render
variable (d : Dialect)

/-- What is seen of a node from the node above it. -/
def nodePart (n : Node) : Part := ⟨encode n, renderNode d n⟩

theorem texts_nodePart (ns : List Node) :
    texts (ns.map (nodePart d)) = Tagged.collect (ns.map (renderNode d)) := by
  simp [texts, nodePart, Function.comp_def]

theorem texts_nodePart_eq_ok {d : Dialect} {ns : List Node} {ts : List String} :
    texts (ns.map (nodePart d)) = .ok ts ↔ ns.map (renderNode d) = ts.map .ok := by
  rw [texts_nodePart, Tagged.collect_eq_ok]

theorem exists_text_of_mem {d : Dialect} {ns : List Node} {ts : List String}
    (h : ns.map (renderNode d) = ts.map .ok) {n : Node} (hn : n ∈ ns) :
    ∃ t ∈ ts, renderNode d n = .ok t := by
  have hm : renderNode d n ∈ ts.map .ok := h ▸ List.mem_map_of_mem hn
  obtain ⟨t, ht, hr⟩ := List.mem_map.mp hm
  exact ⟨t, ht, hr.symm⟩

theorem exists_node_of_mem {d : Dialect} {ns : List Node} {ts : List String}
    (h : ns.map (renderNode d) = ts.map .ok) {t : String} (ht : t ∈ ts) :
    ∃ n ∈ ns, renderNode d n = .ok t := by
  have hm : Except.ok t ∈ ns.map (renderNode d) := h ▸ List.mem_map_of_mem ht
  exact List.mem_map.mp hm

theorem loopName_encode (n : Node) : loopName d (encode n) = n.kind.loopName d := by
  rw [loopName_of_opens d (opens_encode n), Kind.loopName_map]

/-- Only a single `If` makes an else-if. -/
theorem isElseIf_encode (ns : List Node) :
    isElseIf (some (.arr (ns.map encode))) = decide (ns.map Node.tag = [.ifElse]) := by
  match ns with
  | [] => rfl
  | [n] =>
    have ht : Tagged.tagOf? (encode n) = some n.tag.name := by
      rw [(opens_encode n).tagOf?_eq, Kind.tag_map]
      rfl
    rw [Bool.eq_iff_iff]
    simp [isElseIf, ht, Tag.name_injective.eq_iff]
  | _ :: _ :: _ => simp [isElseIf]

theorem rest_nodePart (ns : List Node) (ts : List String) : rest d (ns.map (nodePart d)) ts =
    if ts.isEmpty then d.phrasing.ifClose
    else if ns.map Node.tag = [.ifElse] then d.phrasing.elseIf ++ String.join ts
    else d.phrasing.elseHeader ++ indentBlock d ts ++ d.phrasing.ifClose := by
  have hs : (ns.map (nodePart d)).map (·.source) = ns.map encode := by
    simp [nodePart, Function.comp_def]
  rw [rest, hs, isElseIf_encode]
  simp only [decide_eq_true_eq]

end Render

open Render

/-- The text of a node comes from its kind and what is seen of the nodes right below. -/
theorem renderNode_mk (d : Dialect) (k : Kind Node) (p : Option Position) :
    renderNode d ⟨k, p⟩ = Render.kind d (k.map (nodePart d)) := by
  rw [renderNode, render_of_opens d (opens_encode _), Kind.map_map]
  rfl

end ShellTree
