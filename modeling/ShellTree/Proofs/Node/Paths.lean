import ShellTree.Proofs.Node.Same

/-! Ways down a tree. The positions that a tree lists are those of the nodes at the ends of its
ways. -/
namespace ShellTree

theorem lookup_map_snd {α β : Type} (f : α → β) (fields : List (String × α)) (name : String) :
    (fields.map fun a => (a.1, f a.2)).lookup name = (fields.lookup name).map f := by
  induction fields with
  | nil => rfl
  | cons a fields ih =>
    rw [List.map_cons, List.lookup_cons, List.lookup_cons, ih]
    cases name == a.1 <;> rfl

section
variable {ν ρ : Type}

/-- The node in a value: at a place if it is a list, and else without one. -/
def AttrValue.item? : Option Nat → AttrValue ν → Option ν
  | none, .node n => some n
  | some i, .nodes ns => ns[i]?
  | _, _ => none

theorem AttrValue.item?_map (f : ν → ρ) (i : Option Nat) (v : AttrValue ν) :
    (v.map f).item? i = (v.item? i).map f := by
  cases i <;> cases v <;> simp [item?, map]

theorem AttrValue.mem_of_item? {i : Option Nat} {v : AttrValue ν} {n : ν}
    (h : v.item? i = some n) : n ∈ v.nodeList := by
  cases i <;> cases v <;> simp only [item?, reduceCtorEq] at h
  · exact List.mem_singleton.mpr (Option.some.inj h).symm
  · exact List.mem_of_getElem? h

namespace Kind

/-- The node that is one step below. -/
def below? (k : Kind ν) (s : Node.Step) : Option ν :=
  (k.attributes.lookup s.attr).bind (AttrValue.item? s.index)

theorem below?_eq_some {k : Kind ν} {s : Node.Step} {n : ν} :
    k.below? s = some n ↔ ∃ v, (s.attr, v) ∈ k.attributes ∧ v.item? s.index = some n := by
  rw [below?, Option.bind_eq_some_iff]
  have names : (k.attributes.map (·.1)).Nodup := by
    rw [attributes_names]
    exact k.tag.attributes_nodup
  constructor
  · rintro ⟨v, hv, hn⟩
    exact ⟨v, mem_of_lookup hv, hn⟩
  · rintro ⟨v, hv, hn⟩
    exact ⟨v, lookup_of_mem names hv, hn⟩

theorem below?_map (f : ν → ρ) (k : Kind ν) (s : Node.Step) :
    (k.map f).below? s = (k.below? s).map f := by
  rw [below?, below?, attributes_map, lookup_map_snd, Option.bind_map, Option.map_bind]
  exact congrArg _ (funext (AttrValue.item?_map f s.index))

theorem mem_of_below? {k : Kind ν} {s : Node.Step} {n : ν} (h : k.below? s = some n) :
    n ∈ k.nodeList := by
  obtain ⟨v, hv, hn⟩ := below?_eq_some.mp h
  exact mem_nodeList hv (AttrValue.mem_of_item? hn)

end Kind
end

namespace Node

/-- The node at the end of a way down a tree. -/
def at? : List Step → Node → Option Node
  | [], n => some n
  | s :: path, n => (n.kind.below? s).bind (at? path)

/-- The positions in a tree are its own and those in the trees one step below. -/
theorem mem_go_mk {k : Kind Node} {p : Option Position} {start path : List Step} {q : Position} :
    (path, q) ∈ positions.go ⟨k, p⟩ start ↔ path = start ∧ p = some q ∨
      ∃ s c, k.below? s = some c ∧ (path, q) ∈ positions.go c (start ++ [s]) := by
  rw [go_mk, List.mem_append, List.mem_flatMap]
  refine or_congr ?_ ?_
  · cases p <;> simp [eq_comm]
  · constructor
    · rintro ⟨⟨attr, value⟩, ha, hq⟩
      cases value with
      | node c => exact ⟨⟨attr, none⟩, c, Kind.below?_eq_some.mpr ⟨_, ha, rfl⟩, hq⟩
      | nodes cs =>
        obtain ⟨⟨c, i⟩, hc, hq⟩ := List.mem_flatMap.mp hq
        refine ⟨⟨attr, some i⟩, c, Kind.below?_eq_some.mpr ⟨_, ha, ?_⟩, hq⟩
        exact List.mem_zipIdx_iff_getElem?.mp hc
      | _ => cases hq
    · rintro ⟨⟨attr, i⟩, c, hc, hq⟩
      obtain ⟨value, ha, hc⟩ := Kind.below?_eq_some.mp hc
      refine ⟨_, ha, ?_⟩
      cases i <;> cases value <;> simp only [AttrValue.item?, reduceCtorEq] at hc
      · obtain rfl := Option.some.inj hc
        exact hq
      · exact List.mem_flatMap.mpr ⟨(c, _), List.mem_zipIdx_iff_getElem?.mpr hc, hq⟩

theorem mem_go {n : Node} {start path : List Step} {q : Position} :
    (path, q) ∈ positions.go n start ↔
      ∃ way c, path = start ++ way ∧ n.at? way = some c ∧ c.position = some q := by
  induction n using Node.induction generalizing start with
  | step k p ih =>
    rw [mem_go_mk]
    constructor
    · rintro (⟨rfl, rfl⟩ | ⟨s, c, hc, hq⟩)
      · exact ⟨[], _, by simp, rfl, rfl⟩
      · obtain ⟨way, c', rfl, hw, hp⟩ := (ih c (Kind.mem_of_below? hc)).mp hq
        refine ⟨s :: way, c', by simp, ?_, hp⟩
        rw [at?, hc, Option.bind_some, hw]
    · rintro ⟨way, c, rfl, hw, hp⟩
      cases way with
      | nil =>
        obtain rfl := Option.some.inj hw
        exact .inl ⟨by simp, hp⟩
      | cons s way =>
        obtain ⟨c', hc', hw⟩ := Option.bind_eq_some_iff.mp hw
        refine .inr ⟨s, c', hc', ?_⟩
        exact (ih c' (Kind.mem_of_below? hc')).mpr ⟨way, c, by simp, hw, hp⟩

theorem mem_positions {n : Node} {path : List Step} {q : Position} :
    (path, q) ∈ n.positions ↔ ∃ c, n.at? path = some c ∧ c.position = some q := by
  rw [positions, mem_go]
  simp

end Node
end ShellTree
