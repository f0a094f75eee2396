import ShellTree.Proofs.Json.Reader

/-! How deep lists and objects are nested. No text reads as a value that nests deeper than the limit
that it is read with. -/
namespace ShellTree.Json

mutual

/-- The greatest number of lists and objects around one another. -/
def nesting : Json → Nat
  | .arr items => nestingItems items + 1
  | .obj fields => nestingFields fields + 1
  | _ => 0

def nestingItems : List Json → Nat
  | [] => 0
  | v :: rest => max (nesting v) (nestingItems rest)

def nestingFields : List (String × Json) → Nat
  | [] => 0
  | (_, v) :: rest => max (nesting v) (nestingFields rest)

end

theorem nestingItems_le {items : List Json} {n : Nat} :
    nestingItems items ≤ n ↔ ∀ v ∈ items, v.nesting ≤ n := by
  induction items with
  | nil => simp [nestingItems]
  | cons v rest ih => rw [nestingItems, Nat.max_le, ih, List.forall_mem_cons]

theorem nestingFields_le {fields : List (String × Json)} {n : Nat} :
    nestingFields fields ≤ n ↔ ∀ field ∈ fields, field.2.nesting ≤ n := by
  induction fields with
  | nil => simp [nestingFields]
  | cons field rest ih => rw [nestingFields, Nat.max_le, ih, List.forall_mem_cons]

theorem nesting_arr_le {items : List Json} {n : Nat} :
    (arr items).nesting ≤ n + 1 ↔ ∀ v ∈ items, v.nesting ≤ n := by
  rw [nesting, Nat.add_le_add_iff_right, nestingItems_le]

theorem nesting_obj_le {fields : List (String × Json)} {n : Nat} :
    (obj fields).nesting ≤ n + 1 ↔ ∀ field ∈ fields, field.2.nesting ≤ n := by
  rw [nesting, Nat.add_le_add_iff_right, nestingFields_le]

theorem nesting_eq_zero {m : Json} (h : m.kind ≠ .list ∧ m.kind ≠ .object) : m.nesting = 0 := by
  cases m with
  | arr => exact absurd rfl h.1
  | obj => exact absurd rfl h.2
  | _ => rfl

/-- The values of an object are values of its members. -/
theorem nesting_ofMembers_le {members : List (String × Json)} {n : Nat}
    (h : ∀ member ∈ members, member.2.nesting ≤ n) : (ofMembers members).nesting ≤ n + 1 := by
  refine nesting_obj_le.mpr (List.foldlRecOn (motive := fun fields : List (String × Json) =>
    ∀ field ∈ fields, field.2.nesting ≤ n) members _ (List.forall_mem_nil _) ?_)
  intro fields hf member hm field hi
  rcases mem_insertField hi with hi | rfl
  · exact hf field hi
  · exact h member hm

theorem built_nesting : Built fun depth m => m.nesting ≤ depth where
  leaf h := by
    rw [nesting_eq_zero h]
    exact Nat.zero_le _
  list := nesting_arr_le.mpr
  object := nesting_ofMembers_le

theorem nesting_le_of_read {depth : Nat} {text : String} {m : Json}
    (h : read depth text = .ok m) : m.nesting ≤ depth := built_nesting.read h

end ShellTree.Json
