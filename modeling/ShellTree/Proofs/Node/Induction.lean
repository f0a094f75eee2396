import ShellTree.Proofs.Node.Signature

/-! Induction on trees: what holds of a node as soon as it holds of the nodes right below it holds
of every tree. -/
namespace ShellTree

section
variable {ν ρ σ : Type}

/-- Lists that look alike through two maps are one list of pairs that look alike. -/
theorem exists_zip {f : ν → σ} {g : ρ → σ} {as : List ν} {bs : List ρ}
    (h : as.map f = bs.map g) : ∃ ps : List (ν × ρ), ps.map Prod.fst = as ∧
      ps.map Prod.snd = bs ∧ ∀ p ∈ ps, f p.1 = g p.2 := by
  induction as generalizing bs with
  | nil =>
    obtain rfl : bs = [] := List.map_eq_nil_iff.mp h.symm
    exact ⟨[], rfl, rfl, nofun⟩
  | cons a as ih =>
    cases bs with
    | nil => cases h
    | cons b bs =>
      obtain ⟨hab, h⟩ := List.cons.inj h
      obtain ⟨ps, rfl, rfl, hp⟩ := ih h
      exact ⟨(a, b) :: ps, rfl, rfl, List.forall_mem_cons.mpr ⟨hab, hp⟩⟩

namespace AttrValue

/-- The nodes in a value, in order. -/
def nodeList : AttrValue ν → List ν
  | .node n => [n]
  | .nodes ns => ns
  | _ => []

theorem nodeList_map (f : ν → ρ) (v : AttrValue ν) :
    (v.map f).nodeList = v.nodeList.map f := by
  cases v <;> rfl

theorem map_map (f : ν → ρ) (g : ρ → σ) (v : AttrValue ν) :
    (v.map f).map g = v.map (g ∘ f) := by
  cases v <;> simp [map]

theorem map_congr {f g : ν → ρ} {v : AttrValue ν} (h : ∀ n ∈ v.nodeList, f n = g n) :
    v.map f = v.map g := by
  cases v with
  | node n => simp [map, h n (by simp [nodeList])]
  | nodes ns => simpa [map, nodeList] using h
  | _ => rfl

theorem exists_zip {f : ν → σ} {g : ρ → σ} {v : AttrValue ν} {w : AttrValue ρ}
    (h : v.map f = w.map g) : ∃ z : AttrValue (ν × ρ), z.map Prod.fst = v ∧
      z.map Prod.snd = w ∧ ∀ p ∈ z.nodeList, f p.1 = g p.2 := by
  have leaf : ∀ z : AttrValue (ν × ρ), z.nodeList = [] → ∀ p ∈ z.nodeList, f p.1 = g p.2 := by
    intro z hz p hp
    rw [hz] at hp
    cases hp
  cases v <;> cases w <;> simp only [map, reduceCtorEq] at h
  · next n m =>
    refine ⟨.node (n, m), rfl, rfl, ?_⟩
    simpa [nodeList] using h
  · next ns ms =>
    obtain ⟨ps, rfl, rfl, hp⟩ := ShellTree.exists_zip (nodes.inj h)
    exact ⟨.nodes ps, rfl, rfl, hp⟩
  · next s _ =>
    obtain rfl := text.inj h
    exact ⟨.text s, rfl, rfl, leaf _ rfl⟩
  · next b _ =>
    obtain rfl := flag.inj h
    exact ⟨.flag b, rfl, rfl, leaf _ rfl⟩
  · next c _ =>
    obtain rfl := scope.inj h
    exact ⟨.scope c, rfl, rfl, leaf _ rfl⟩

theorem map_injective {f : ν → ρ} (hf : Function.Injective f) :
    Function.Injective (AttrValue.map f) := by
  intro v v' h
  cases v <;> cases v' <;> simp_all [map, hf.eq_iff, (List.map_injective_iff.mpr hf).eq_iff]

theorem sizeOf_lt [SizeOf ν] {v : AttrValue ν} {n : ν} (h : n ∈ v.nodeList) :
    sizeOf n < sizeOf v := by
  cases v with
  | node m =>
    obtain rfl : n = m := by simpa [nodeList] using h
    simp
  | nodes ns =>
    have hn : sizeOf n < sizeOf ns := List.sizeOf_lt_of_mem h
    simp
    omega
  | _ => simp [nodeList] at h

end AttrValue

namespace Kind

/-- The nodes right below, in declared order. -/
def nodeList (k : Kind ν) : List ν := k.attributes.flatMap (·.2.nodeList)

theorem nodeList_map (f : ν → ρ) (k : Kind ν) : (k.map f).nodeList = k.nodeList.map f := by
  simp [nodeList, List.map_flatMap, List.flatMap_map, AttrValue.nodeList_map]

theorem mem_nodeList {k : Kind ν} {a : String × AttrValue ν} {n : ν} (ha : a ∈ k.attributes)
    (hn : n ∈ a.2.nodeList) : n ∈ k.nodeList :=
  List.mem_flatMap.mpr ⟨a, ha, hn⟩

theorem forall_mem_nodeList {P : ν → Prop} {k : Kind ν} :
    (∀ n ∈ k.nodeList, P n) ↔ ∀ a ∈ k.attributes, ∀ n ∈ a.2.nodeList, P n :=
  List.forall_mem_flatMap

theorem map_map (f : ν → ρ) (g : ρ → σ) (k : Kind ν) : (k.map f).map g = k.map (g ∘ f) := by
  apply ext_attributes
  · simp
  · simp [AttrValue.map_map]

@[simp] theorem map_id (k : Kind ν) : k.map id = k := by
  cases k <;> simp [map, Command.map]

theorem map_congr {f g : ν → ρ} {k : Kind ν} (h : ∀ n ∈ k.nodeList, f n = g n) :
    k.map f = k.map g := by
  apply ext_attributes
  · simp
  · simp only [attributes_map]
    apply List.map_congr_left
    intro a ha
    rw [AttrValue.map_congr fun n hn => h n (mem_nodeList ha hn)]

theorem map_injective {f : ν → ρ} (hf : Function.Injective f) :
    Function.Injective (Kind.map f) := by
  intro k k' h
  have ht : k.tag = k'.tag := by simpa using congrArg tag h
  have ha := congrArg attributes h
  simp only [attributes_map] at ha
  refine ext_attributes ht (List.map_injective_iff.mpr ?_ ha)
  rintro ⟨name, v⟩ ⟨name', v'⟩ h
  obtain ⟨hn, hv⟩ := Prod.mk.inj h
  exact Prod.ext hn (AttrValue.map_injective hf hv)

/-- Maps agree on a kind just when they agree on the nodes in it. -/
theorem map_eq_map_iff {f g : ν → ρ} {k : Kind ν} :
    k.map f = k.map g ↔ ∀ n ∈ k.nodeList, f n = g n := by
  constructor
  · intro h
    have below := congrArg nodeList h
    rwa [nodeList_map, nodeList_map, List.map_inj_left] at below
  · exact map_congr

/-- Kinds that look alike through two maps are one kind of pairs that look alike. -/
theorem exists_zip {f : ν → σ} {g : ρ → σ} {k : Kind ν} {k' : Kind ρ} (h : k.map f = k'.map g) :
    ∃ z : Kind (ν × ρ), z.map Prod.fst = k ∧ z.map Prod.snd = k' ∧
      ∀ p ∈ z.nodeList, f p.1 = g p.2 := by
  have ht : k.tag = k'.tag := by simpa using congrArg tag h
  have ha := congrArg attributes h
  rw [attributes_map, attributes_map, ← List.forall₂_eq_eq_eq, List.forall₂_map_left_iff,
    List.forall₂_map_right_iff] at ha
  have zipped : List.Forall₂ (fun a b => ∃ c : String × AttrValue (ν × ρ),
      ((c.1, c.2.map Prod.fst) = a ∧ ∀ p ∈ c.2.nodeList, f p.1 = g p.2) ∧
        (c.1, c.2.map Prod.snd) = b) k.attributes k'.attributes := by
    refine ha.imp ?_
    rintro ⟨name, v⟩ ⟨name', v'⟩ h
    obtain ⟨rfl, hv⟩ := Prod.mk.inj h
    obtain ⟨z, rfl, rfl, hz⟩ := AttrValue.exists_zip hv
    exact ⟨(name, z), ⟨rfl, hz⟩, rfl⟩
  obtain ⟨as, hl, hr⟩ := forall₂_exists_iff.mp zipped
  have left : k.attributes = as.map fun c => (c.1, c.2.map Prod.fst) := by
    rw [← List.forall₂_eq_eq_eq, List.forall₂_map_right_iff]
    exact hl.imp fun _ _ h => h.1.symm
  have right : as.map (fun c => (c.1, c.2.map Prod.snd)) = k'.attributes := by
    rw [← List.forall₂_eq_eq_eq, List.forall₂_map_left_iff]
    exact hr
  have declared : Declared k.tag.signature as := by
    have hd := k.attributes_declared
    rw [left, Declared, List.forall₂_map_right_iff] at hd
    exact hd.imp fun _ _ h => h.of_map
  obtain ⟨z, hz, rfl⟩ := exists_of_declared declared
  refine ⟨z, ext_attributes ?_ ?_, ext_attributes ?_ ?_, ?_⟩
  · rw [tag_map, hz]
  · rw [attributes_map, left]
  · rw [tag_map, hz, ht]
  · rw [attributes_map, right]
  · intro p hp
    obtain ⟨c, hc, hp⟩ := List.mem_flatMap.mp hp
    obtain ⟨-, -, -, hf⟩ := forall₂_mem_left hl.flip hc
    exact hf p hp

/-- The nodes of a kind all of whose results are there. -/
theorem mem_of_map_ok {ε : Type} {f : ν → Except ε ρ} {k : Kind ν} {k' : Kind ρ}
    (h : k.map f = k'.map .ok) {m : ν} (hm : m ∈ k.nodeList) : ∃ n ∈ k'.nodeList, f m = .ok n := by
  have hl : k.nodeList.map f = k'.nodeList.map .ok := by
    rw [← nodeList_map, ← nodeList_map, h]
  have hf : f m ∈ k.nodeList.map f := List.mem_map_of_mem hm
  rw [hl] at hf
  obtain ⟨n, hn, he⟩ := List.mem_map.mp hf
  exact ⟨n, hn, he.symm⟩

/-- What agrees on each node and its result agrees on kinds. -/
theorem map_eq_of_map_ok {ε : Type} {f : ν → Except ε ρ} {g : ρ → σ} {g' : ν → σ} {k : Kind ν}
    {k' : Kind ρ} (h : k.map f = k'.map .ok)
    (hg : ∀ n ∈ k'.nodeList, ∀ m, f m = .ok n → g n = g' m) : k'.map g = k.map g' := by
  apply map_injective fun _ _ => Option.some.inj
  calc (k'.map g).map some
      = (k'.map Except.ok).map fun x : Except ε ρ => x.toOption.map g := by
        rw [map_map, map_map]
        rfl
    _ = (k.map f).map fun x => x.toOption.map g := by rw [h]
    _ = (k.map g').map some := by
        rw [map_map, map_map]
        apply map_congr
        intro m hm
        obtain ⟨n, hn, he⟩ := mem_of_map_ok h hm
        simp [he, Except.toOption, hg n hn m he]

theorem sizeOf_attribute_le [SizeOf ν] {k : Kind ν} {a : String × AttrValue ν}
    (h : a ∈ k.attributes) : sizeOf a.2 ≤ sizeOf k := by
  cases k with
  | command mode c =>
    obtain ⟨args, i, o, e, b⟩ := c
    simp [attributes] at h
    rcases h with rfl | rfl | rfl | rfl | rfl <;> simp <;> omega
  | assign | forIn | ifElse =>
    simp [attributes] at h
    rcases h with rfl | rfl | rfl <;> simp <;> omega
  | logic | envAssign | aliasAssign | function =>
    simp [attributes] at h
    rcases h with rfl | rfl <;> simp <;> omega
  | stream | pass => simp [attributes] at h
  | _ =>
    simp [attributes] at h
    subst h
    simp

theorem sizeOf_lt [SizeOf ν] {k : Kind ν} {n : ν} (h : n ∈ k.nodeList) : sizeOf n < sizeOf k := by
  obtain ⟨a, ha, hn⟩ := List.mem_flatMap.mp h
  exact Nat.lt_of_lt_of_le (AttrValue.sizeOf_lt hn) (sizeOf_attribute_le ha)

end Kind
end

/-- Induction on a tree: a node may use what holds of all the nodes right below it. -/
@[elab_as_elim]
theorem Node.induction {P : Node → Prop}
    (step : ∀ (k : Kind Node) (p : Option Position), (∀ n ∈ k.nodeList, P n) → P ⟨k, p⟩)
    (n : Node) : P n :=
  match n with
  | ⟨k, p⟩ => step k p fun c _ => Node.induction step c
termination_by sizeOf n
decreasing_by
  have hc : sizeOf c < sizeOf k := Kind.sizeOf_lt ‹_›
  simp
  omega

end ShellTree
