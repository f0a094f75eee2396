import ShellTree.Proofs.Codec.Opening
import ShellTree.Proofs.Node.Same

/-! What is written can be read again: the map of a tree decodes to the tree without positions. -/
namespace ShellTree

namespace Tag

theorem positionKeys_not_declared (t : Tag) :
    ∀ name ∈ Decode.positionKeys, name ∉ t.attributes := by
  cases t <;> decide +kernel

theorem not_position_of_declared {t : Tag} {d : String × Form} (hd : d ∈ t.signature) :
    d.1 ∉ Decode.positionKeys := by
  intro hp
  apply t.positionKeys_not_declared _ hp
  rw [← t.signature_names]
  exact List.mem_map_of_mem hd

end Tag

/-- The attributes of a kind as its map has them. -/
def encodedAttrs (k : Kind Json) : List (String × Json) :=
  k.attributes.map fun (name, v) => (name, encodeAttr v)

theorem encodedAttrs_names (k : Kind Json) : (encodedAttrs k).map (·.1) = k.tag.attributes := by
  rw [← k.attributes_names]
  simp [encodedAttrs]

theorem lookup_encodedAttrs {k : Kind Json} {a : String × AttrValue Json} (h : a ∈ k.attributes) :
    (encodedAttrs k).lookup a.1 = some (encodeAttr a.2) := by
  apply lookup_of_mem
  · rw [encodedAttrs_names]
    exact k.tag.attributes_nodup
  · exact List.mem_map_of_mem h

theorem gives_encodedAttrs {k : Kind Json} (hk : ∀ m ∈ k.nodeList, ∃ fields, m = .obj fields) :
    List.Forall₂ (Form.Gives (encodedAttrs k)) k.tag.signature k.attributes := by
  apply forall₂_imp_mem k.attributes_declared
  rintro ⟨name, form⟩ hd a ha h
  have hl := lookup_encodedAttrs ha
  cases h with
  | node n =>
    obtain ⟨fields, rfl⟩ := hk n (Kind.mem_nodeList ha (by simp [AttrValue.nodeList]))
    exact .node hl
  | stream s n =>
    obtain ⟨fields, rfl⟩ := hk n (Kind.mem_nodeList ha (by simp [AttrValue.nodeList]))
    obtain rfl := Tag.signature_stream hd
    exact .stream hl
  | nodes ns => exact .nodes hl
  | text s => exact .text hl
  | flag b => exact .flag hl
  | scope s =>
    obtain rfl := Tag.signature_scope hd
    exact .scope hl

/-- The map of a kind opens as that kind, and has no position. -/
theorem opens_encodeKind {k : Kind Json} (hk : ∀ m ∈ k.nodeList, ∃ fields, m = .obj fields) :
    Opens (encodeKind k) k none := by
  refine .mk ?_ (gives_encodedAttrs hk) ?_
  · intro name hn
    left
    rwa [← encodedAttrs_names]
  · have absent : ∀ name ∈ Decode.positionKeys, (encodedAttrs k).lookup name = none := by
      intro name hn
      rw [List.lookup_eq_none_iff]
      intro a ha
      have hd : a.1 ∈ k.tag.attributes := by
        rw [← encodedAttrs_names]
        exact List.mem_map_of_mem ha
      rw [bne_iff_ne]
      rintro rfl
      exact k.tag.positionKeys_not_declared _ hn hd
    rw [Tagged.position_eq_ok_none]
    exact ⟨absent _ (by simp [Decode.positionKeys]), absent _ (by simp [Decode.positionKeys])⟩

theorem encode_isObject (n : Node) : ∃ fields, encode n = .obj fields := by
  obtain ⟨k, p⟩ := n
  exact ⟨_, encode_mk k p⟩

theorem decode_encode (n : Node) : decode (encode n) = .ok n.erase := by
  induction n using Node.induction with
  | step k p ih =>
    rw [encode_mk, decode_eq_ok]
    refine ⟨k.map encode, ?_, ?_⟩
    · rw [Node.erase_mk]
      apply opens_encodeKind
      intro m hm
      rw [Kind.nodeList_map] at hm
      obtain ⟨n, -, rfl⟩ := List.mem_map.mp hm
      exact encode_isObject n
    · rw [Node.erase_mk, Kind.map_map, Kind.map_map]
      exact Kind.map_congr ih

/-- Reading back what was written never fails. It gives the same tree, and no node of it, at any
depth, has a position. -/
theorem decode_encode_same (n : Node) :
    decode (encode n) = .ok n.erase ∧ n.erase.positions = [] ∧ n.erase.same n = true :=
  ⟨decode_encode n, n.positions_erase, n.erase_same⟩

end ShellTree
