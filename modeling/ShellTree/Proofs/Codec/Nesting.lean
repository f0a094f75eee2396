import ShellTree.Proofs.Codec.Normal
import ShellTree.Proofs.Json.Printer

/-! The nesting of written trees. To write out the streams that a map leaves out makes it deeper by
one level at most. -/
namespace ShellTree
open Json

theorem plain_encodeAttr {v : AttrValue Json} (h : ∀ m ∈ v.nodeList, m.Plain) :
    (encodeAttr v).Plain := by
  cases v with
  | node m => exact h m (by simp [AttrValue.nodeList])
  | nodes ms => exact .arr h
  | text s => exact .str s
  | flag b => exact .bool b
  | scope s => exact .str s.name

/-- The map of a tree has no numbers in it, and no key twice. -/
theorem plain_encode (n : Node) : (encode n).Plain := by
  induction n using Node.induction with
  | step k p ih =>
    have attrs : (Json.obj (encodedAttrs (k.map encode))).Plain := by
      refine .obj ?_ (List.forall_mem_map.mpr fun a ha => plain_encodeAttr fun m hm => ?_)
      · rw [encodedAttrs_names]
        exact Tag.attributes_nodup _
      · have hk := Kind.mem_nodeList ha hm
        rw [Kind.nodeList_map] at hk
        obtain ⟨c, hc, rfl⟩ := List.mem_map.mp hk
        exact ih c hc
    rw [encode_mk]
    exact .obj (by simp) (List.forall_mem_singleton.mpr attrs)

theorem nesting_encodeKind_le {k : Kind Json} {n : Nat} :
    (encodeKind k).nesting ≤ n + 2 ↔ ∀ a ∈ k.attributes, (encodeAttr a.2).nesting ≤ n := by
  rw [encodeKind, nesting_obj_le, List.forall_mem_singleton, nesting_obj_le, List.forall_mem_map]

theorem nesting_le_of_lookup {attrs : List (String × Json)} {name : String} {v : Json}
    (h : attrs.lookup name = some v) : v.nesting ≤ nestingFields attrs :=
  nestingFields_le.mp (Nat.le_refl _) _ (mem_of_lookup h)

theorem Tag.signature_args {t : Tag} {name : String} {s : Stream}
    (h : (name, Form.stream s) ∈ t.signature) : ("args", Form.nodes) ∈ t.signature := by
  cases t <;> simp [signature] at h <;> simp [signature]

/-- Where a stream is left out there is a list of arguments, so that its sentinel goes only one
level further down than that. -/
theorem one_le_nesting_of_stream {attrs : List (String × Json)} {t : Tag}
    {as : List (String × AttrValue Json)} (gives : List.Forall₂ (Form.Gives attrs) t.signature as)
    {name : String} {s : Stream} (hd : (name, Form.stream s) ∈ t.signature) :
    1 ≤ nestingFields attrs := by
  obtain ⟨a, -, ha⟩ := forall₂_mem_left gives (Tag.signature_args hd)
  cases ha with
  | nodes h =>
    have args := nesting_le_of_lookup h
    rw [nesting] at args
    omega

/-- The normal form of a tree's map nests one level deeper than the map at most. -/
theorem nesting_normalize_le {m : Json} {n : Node} (h : decode m = .ok n) :
    m.normalize.nesting ≤ m.nesting + 1 := by
  induction n using Node.induction generalizing m with
  | step k p ih =>
    obtain ⟨k', ho, hk⟩ := decode_eq_ok.mp h
    have below : ∀ c ∈ k'.nodeList, c.normalize.nesting ≤ c.nesting + 1 := by
      intro c hc
      obtain ⟨n, hn, hdec⟩ := Kind.mem_of_map_ok hk hc
      exact ih n hn hdec
    rw [ho.normalize]
    obtain @⟨_, _, attrs, -, gives, -⟩ := ho
    have whole : (Json.obj [(k'.tag.name, .obj attrs)]).nesting = nestingFields attrs + 2 := by
      simp [nesting, nestingFields]
    rw [whole, Nat.add_right_comm, nesting_encodeKind_le, Kind.attributes_map, List.forall_mem_map]
    intro a ha
    obtain ⟨d, hd, hg⟩ := forall₂_mem_left gives.flip ha
    cases hg with
    | node h | stream h =>
      have here := below (.obj _) (Kind.mem_nodeList ha (List.mem_singleton.mpr rfl))
      have given := nesting_le_of_lookup h
      exact Nat.le_trans here (Nat.add_le_add_right given 1)
    | @noStream name s =>
      have args := one_le_nesting_of_stream gives hd
      have sentinel : s.sentinel.normalize.nesting = 2 := by cases s <;> rfl
      rw [AttrValue.map, encodeAttr, sentinel]
      omega
    | @nodes name ms h =>
      have given := nesting_le_of_lookup h
      rw [AttrValue.map, encodeAttr, nesting_arr_le, List.forall_mem_map]
      intro c hc
      have here := below c (Kind.mem_nodeList ha hc)
      have item := nestingItems_le.mp (Nat.le_refl _) c hc
      rw [nesting] at given
      omega
    | _ => simp [AttrValue.map, encodeAttr, nesting]

end ShellTree
