import ShellTree.Proofs.Node.Induction

/-! The order in which the nodes of a tree are rendered. -/
namespace ShellTree

namespace Kind
variable {ν ρ : Type}

/-- The nodes right below, in the order in which they are rendered. Only the streams of a command
are not in declared order. -/
def renderOrder : Kind ν → List ν
  | .command _ c => c.args ++ [c.stderr, c.stdout, c.stdin]
  | k => k.nodeList

theorem renderOrder_map (f : ν → ρ) (k : Kind ν) :
    (k.map f).renderOrder = k.renderOrder.map f := by
  cases k with
  | command _ c => simp [renderOrder, map, Command.map]
  | _ => exact nodeList_map f _

theorem mem_renderOrder {k : Kind ν} {n : ν} : n ∈ k.renderOrder ↔ n ∈ k.nodeList := by
  cases k with
  | command _ c =>
    simp only [renderOrder, nodeList, attributes, AttrValue.nodeList, List.flatMap_cons,
      List.flatMap_nil, List.mem_append, List.mem_cons, List.not_mem_nil, or_false]
    tauto
  | _ => rfl

end Kind

namespace Node

/-- A node occurs in a tree, at any depth. -/
inductive Within (n : Node) : Node → Prop
  | here : Within n n
  | down {c m : Node} (h : c ∈ m.kind.nodeList) (hn : Within n c) : Within n m

/-- The nodes of a tree in the order in which they are rendered, a node before those below it. -/
def visits (n : Node) : List Node :=
  (go n).2
where
  go : Node → Node × List Node :=
    fold fun k p =>
      let n : Node := ⟨k.map (·.1), p⟩
      (n, n :: k.renderOrder.flatMap (·.2))

theorem visits_go (n : Node) : visits.go n = (n, n.visits) := by
  suffices h : (visits.go n).1 = n from Prod.ext h rfl
  induction n using Node.induction with
  | step k p ih =>
    have hk : (k.map visits.go).map (·.1) = k := by
      rw [Kind.map_map]
      exact (Kind.map_congr ih).trans k.map_id
    calc (visits.go ⟨k, p⟩).1
        = ⟨(k.map visits.go).map (·.1), p⟩ := by
          rw [visits.go, fold_mk]
      _ = ⟨k, p⟩ := by rw [hk]

theorem visits_mk (k : Kind Node) (p : Option Position) :
    visits ⟨k, p⟩ = ⟨k, p⟩ :: k.renderOrder.flatMap visits := by
  have hf : k.map visits.go = k.map fun n => (n, n.visits) := by
    apply Kind.map_congr
    intro n _
    exact visits_go n
  have hk : (k.map fun n => (n, n.visits)).map (·.1) = k := by
    rw [Kind.map_map]
    exact k.map_id
  calc visits ⟨k, p⟩
      = ⟨(k.map visits.go).map (·.1), p⟩ :: (k.map visits.go).renderOrder.flatMap (·.2) := by
        rw [visits, visits.go, fold_mk]
    _ = ⟨k, p⟩ :: k.renderOrder.flatMap visits := by
        rw [hf, hk, Kind.renderOrder_map, List.flatMap_map]

/-- What is visited is all of the tree. -/
theorem mem_visits {c n : Node} : c ∈ n.visits ↔ c.Within n := by
  constructor
  · intro h
    induction n using Node.induction with
    | step k p ih =>
      rw [visits_mk] at h
      rcases List.mem_cons.mp h with rfl | h
      · exact .here
      · obtain ⟨m, hm, h⟩ := List.mem_flatMap.mp h
        rw [Kind.mem_renderOrder] at hm
        exact .down hm (ih m hm h)
  · intro h
    induction h with
    | here =>
      obtain ⟨k, p⟩ := c
      simp [visits_mk]
    | @down b m h _ ih =>
      obtain ⟨k, p⟩ := m
      rw [visits_mk]
      right
      exact List.mem_flatMap.mpr ⟨b, Kind.mem_renderOrder.mpr h, ih⟩

end Node
end ShellTree
