import ShellTree.Proofs.Node.Induction

/-! Trees are equal, their positions left aside, just when they are the same without positions. -/
namespace ShellTree
namespace Node

@[simp] theorem erase_mk (k : Kind Node) (p : Option Position) :
    erase ⟨k, p⟩ = ⟨k.map erase, none⟩ := fold_mk _ k p

/-- What is computed from kinds alone never sees a position. -/
theorem fold_erase {ρ : Type} (f : Kind ρ → ρ) (n : Node) :
    fold (fun k _ => f k) n.erase = fold (fun k _ => f k) n := by
  induction n using Node.induction with
  | step k p ih =>
    rw [erase_mk, fold_mk, fold_mk, Kind.map_map]
    exact congrArg f (Kind.map_congr ih)

theorem erase_erase (n : Node) : n.erase.erase = n.erase := by
  induction n using Node.induction with
  | step k p ih =>
    simp only [erase_mk, Kind.map_map, mk.injEq, and_true]
    exact Kind.map_congr ih

theorem go_mk (k : Kind Node) (p : Option Position) (path : List Step) :
    positions.go ⟨k, p⟩ path = (p.map (path, ·)).toList ++ k.attributes.flatMap fun (attr, value) =>
      match value with
      | .node below => positions.go below (path ++ [⟨attr, none⟩])
      | .nodes below =>
        below.zipIdx.flatMap fun (n, i) => positions.go n (path ++ [⟨attr, some i⟩])
      | _ => [] := by
  have h : positions.go ⟨k, p⟩ = _ := fold_mk _ k p
  rw [h, ← positions.go]
  simp only [Kind.attributes_map, List.flatMap_map]
  congr 1
  apply List.flatMap_congr
  rintro ⟨attr, value⟩ -
  cases value with
  | nodes ns => simp [AttrValue.map, List.zipIdx_map, List.flatMap_map]
  | _ => rfl

/-- No node has a position, at any depth, once positions are erased. -/
theorem positions_erase (n : Node) : n.erase.positions = [] := by
  suffices h : ∀ path, positions.go n.erase path = [] from h []
  induction n using Node.induction with
  | step k p ih =>
    intro path
    rw [erase_mk, go_mk]
    simp only [Option.map_none, Option.toList_none, List.nil_append, List.flatMap_eq_nil_iff]
    rintro ⟨attr, value⟩ ha
    rw [Kind.attributes_map] at ha
    obtain ⟨⟨attr, value⟩, ha', h⟩ := List.mem_map.mp ha
    obtain ⟨rfl, rfl⟩ := Prod.mk.inj h
    cases value with
    | node c => exact ih c (Kind.mem_nodeList ha' (by simp [AttrValue.nodeList])) _
    | nodes cs =>
      simp only [AttrValue.map, List.flatMap_eq_nil_iff]
      rintro ⟨_, i⟩ hi
      obtain ⟨c, hc, rfl⟩ := List.mem_map.mp (List.fst_mem_of_mem_zipIdx hi)
      exact ih c (Kind.mem_nodeList ha' hc) _
    | _ => rfl

theorem same_mk (k k' : Kind Node) (p p' : Option Position) :
    same ⟨k, p⟩ ⟨k', p'⟩ = (k.tag == k'.tag &&
      (k.attributes.zip k'.attributes).all fun (a, b) => agree (a.2.map same) b.2) := by
  have h : same ⟨k, p⟩ = _ := fold_mk _ k p
  rw [h, ← same]
  simp [Node.tag, List.zip_map_left, List.all_map, Function.comp_def]

/-- The nodes of two lists agree in pairs just when they are the same in pairs. -/
theorem agree_nodes_iff (ns ms : List Node)
    (ih : ∀ n ∈ ns, ∀ m : Node, n.same m = true ↔ n.erase = m.erase) :
    agree (.nodes (ns.map same)) (.nodes ms) = true ↔ ns.map erase = ms.map erase := by
  simp only [agree]
  induction ns generalizing ms with
  | nil => cases ms <;> simp
  | cons n ns tail =>
    cases ms with
    | nil => simp
    | cons m ms =>
      have hn := ih n (by simp) m
      have ht := tail ms fun c hc => ih c (by simp [hc])
      simp at hn ht ⊢
      rw [hn, ← ht]
      tauto

theorem agree_iff {v w : AttrValue Node}
    (ih : ∀ n ∈ v.nodeList, ∀ m : Node, n.same m = true ↔ n.erase = m.erase) :
    agree (v.map same) w = true ↔ v.map erase = w.map erase := by
  cases v with
  | node n =>
    cases w with
    | node m => simpa [agree, AttrValue.map] using ih n (by simp [AttrValue.nodeList]) m
    | _ => simp [agree, AttrValue.map]
  | nodes ns =>
    cases w with
    | nodes ms => simpa only [AttrValue.map, AttrValue.nodes.injEq] using agree_nodes_iff ns ms ih
    | _ => simp [agree, AttrValue.map]
  | _ => cases w <;> simp [agree, AttrValue.map]

theorem all_agree_iff {as bs : List (String × AttrValue Node)}
    (hn : as.map (·.1) = bs.map (·.1))
    (ih : ∀ a ∈ as, ∀ n ∈ a.2.nodeList, ∀ m : Node, n.same m = true ↔ n.erase = m.erase) :
    ((as.zip bs).all fun (a, b) => agree (a.2.map same) b.2) = true ↔
      (as.map fun a => (a.1, a.2.map erase)) = bs.map fun b => (b.1, b.2.map erase) := by
  induction as generalizing bs with
  | nil => cases bs <;> simp_all
  | cons a as tail =>
    cases bs with
    | nil => simp at hn
    | cons b bs =>
      simp only [List.map_cons, List.cons.injEq] at hn
      have ha := agree_iff (w := b.2) (ih a (by simp))
      have ht := tail hn.2 fun c hc => ih c (by simp [hc])
      simp only [List.zip_cons_cons, List.all_cons, Bool.and_eq_true, List.map_cons,
        List.cons.injEq, Prod.mk.injEq, ha, ht, hn.1, true_and]

/-- Equality of trees sees everything but the positions. -/
theorem same_iff_erase (n m : Node) : n.same m = true ↔ n.erase = m.erase := by
  induction n using Node.induction generalizing m with
  | step k p ih =>
    obtain ⟨k', p'⟩ := m
    simp only [same_mk, erase_mk, mk.injEq, and_true, Bool.and_eq_true, beq_iff_eq]
    constructor
    · rintro ⟨ht, ha⟩
      have hn : k.attributes.map (·.1) = k'.attributes.map (·.1) := by
        rw [k.attributes_names, k'.attributes_names, ht]
      rw [all_agree_iff hn fun a ha n hn => ih n (Kind.mem_nodeList ha hn)] at ha
      apply Kind.ext_attributes
      · simpa using ht
      · simpa using ha
    · intro h
      have ht : k.tag = k'.tag := by simpa using congrArg Kind.tag h
      have hn : k.attributes.map (·.1) = k'.attributes.map (·.1) := by
        rw [k.attributes_names, k'.attributes_names, ht]
      refine ⟨ht, ?_⟩
      rw [all_agree_iff hn fun a ha n hn => ih n (Kind.mem_nodeList ha hn)]
      simpa using congrArg Kind.attributes h

theorem erase_same (n : Node) : n.erase.same n = true := by
  rw [same_iff_erase, erase_erase]

end Node
end ShellTree
