import ShellTree.Json.Reader
import ShellTree.Proofs.Json.KeyOrder
import ShellTree.Proofs.Outcome

/-! Values as they are read. However often a text gives a key, the object that is read has it once. -/
namespace ShellTree.Json
open Outcome

theorem insertField_names (fields : List (String × Json)) (key : String) (value : Json) :
    (insertField fields key value).map (·.1) =
      if key ∈ fields.map (·.1) then fields.map (·.1) else fields.map (·.1) ++ [key] := by
  have same : (fields.map fun field => if field.1 == key then (key, value) else field).map (·.1) =
      fields.map (·.1) := by
    rw [List.map_map]
    apply List.map_congr_left
    intro field _
    by_cases h : field.1 = key <;> simp [h]
  have found : fields.any (·.1 == key) = true ↔ key ∈ fields.map (·.1) := by
    simp only [List.any_eq_true, beq_iff_eq, List.mem_map]
  unfold insertField
  by_cases h : key ∈ fields.map (·.1)
  · rw [if_pos (found.mpr h), if_pos h, same]
  · rw [if_neg (mt found.mp h), if_neg h, List.map_append]
    rfl

theorem mem_insertField {fields : List (String × Json)} {key : String} {value : Json}
    {field : String × Json} (h : field ∈ insertField fields key value) :
    field ∈ fields ∨ field = (key, value) := by
  unfold insertField at h
  split at h
  · obtain ⟨other, ho, rfl⟩ := List.mem_map.mp h
    split
    · exact .inr rfl
    · exact .inl ho
  · simpa using h

/-- Inserting a field keeps the keys of an object distinct. -/
theorem DistinctKeys.insertField {fields : List (String × Json)} {key : String} {value : Json}
    (h : (obj fields).DistinctKeys) (hv : value.DistinctKeys) :
    (obj (insertField fields key value)).DistinctKeys := by
  obtain ⟨hd, below⟩ := distinctKeys_obj.mp h
  refine distinctKeys_obj.mpr ⟨?_, ?_⟩
  · rw [insertField_names]
    split
    · exact hd
    · next hk =>
      refine List.nodup_append.mpr ⟨hd, by simp, fun name hn other ho => ?_⟩
      obtain rfl := List.mem_singleton.mp ho
      exact ne_of_mem_of_not_mem hn hk
  · intro field hf
    rcases mem_insertField hf with hf | rfl
    · exact below field hf
    · exact hv

theorem distinctKeys_ofMembers {members : List (String × Json)}
    (h : ∀ member ∈ members, member.2.DistinctKeys) : (ofMembers members).DistinctKeys := by
  refine List.foldlRecOn (motive := fun fields => (obj fields).DistinctKeys) members _ ?_ ?_
  · exact distinctKeys_obj.mpr (by simp)
  · intro fields hf member hm
    exact hf.insertField (h member hm)

theorem unexpected_ne_ok {α : Type} {s : List Char} {x : α} : unexpected s ≠ .ok x := by
  cases s <;> simp [unexpected]

/-- Every value that a reading can give has the property. -/
def Yields {α : Type} (P : α → Prop) (reading : List Char → Reading (α × List Char)) : Prop :=
  ∀ s x rest, reading s = .ok (x, rest) → P x

section
variable {α : Type} {P : α → Prop} {reading : List Char → Reading (α × List Char)} {closing : Char}
  {fuel : Nat}

theorem Yields.items (h : Yields P reading) :
    Yields (fun xs => ∀ x ∈ xs, P x) (items closing reading fuel) := by
  induction fuel with
  | zero =>
    intro s xs rest hs
    cases hs
  | succ fuel ih =>
    intro s xs rest hs
    simp only [Json.items, bind_eq_ok, Prod.exists] at hs
    obtain ⟨x, s', hx, hs⟩ := hs
    split at hs
    · cases hs
    · split at hs
      · cases hs
        simpa using h s x s' hx
      · split at hs
        · obtain ⟨⟨xs', s''⟩, hxs, heq⟩ := bind_eq_ok.mp hs
          cases heq
          simpa using ⟨h s x s' hx, ih _ _ _ hxs⟩
        · cases hs

theorem Yields.bracketed (h : Yields P reading) :
    Yields (fun xs => ∀ x ∈ xs, P x) (bracketed fuel closing reading) := by
  intro s xs rest hs
  unfold Json.bracketed at hs
  split at hs
  · cases hs
  · split at hs
    · cases hs
      simp
    · exact h.items _ _ _ hs

theorem Yields.member {P : Json → Prop} {reading : List Char → Reading (Json × List Char)}
    (h : Yields P reading) : Yields (fun field => P field.2) (member fuel reading) := by
  intro s field rest hs
  unfold Json.member at hs
  split at hs
  · obtain ⟨⟨key, s'⟩, -, hs⟩ := bind_eq_ok.mp hs
    dsimp only at hs
    split at hs
    · obtain ⟨⟨v, s''⟩, hv, heq⟩ := bind_eq_ok.mp hs
      cases heq
      exact h _ _ _ hv
    · exact absurd hs unexpected_ne_ok
  · exact absurd hs unexpected_ne_ok

end

/-- What a value has that was read with at most `depth` lists and objects around one another, if it
can be told from the values inside, which nest less deep. -/
structure Built (P : Nat → Json → Prop) : Prop where
  leaf : ∀ {depth m}, m.kind ≠ .list ∧ m.kind ≠ .object → P depth m
  list : ∀ {depth items}, (∀ v ∈ items, P depth v) → P (depth + 1) (.arr items)
  object : ∀ {depth members}, (∀ member ∈ members, P depth member.2) →
    P (depth + 1) (ofMembers members)

namespace Built
variable {P : Nat → Json → Prop} {fuel depth : Nat}

theorem value_of_below (h : Built P)
    (below : ∀ n, depth = n+1 → Yields (P n) (value fuel n)) :
    Yields (P depth) (value fuel depth) := by
  intro s m rest hs
  unfold value at hs
  split at hs
  case h_1 => cases hs
  case h_2 | h_3 | h_4 | h_5 =>
    obtain ⟨_, -, heq⟩ := bind_eq_ok.mp hs
    cases heq
    exact h.leaf (by simp [kind])
  case h_6 =>
    split at hs
    · cases depth with
      | zero => cases hs
      | succ depth =>
        obtain ⟨⟨items, _⟩, hi, heq⟩ := bind_eq_ok.mp hs
        cases heq
        exact h.list ((below depth rfl).bracketed _ _ _ hi)
    · split at hs
      · cases depth with
        | zero => cases hs
        | succ depth =>
          obtain ⟨⟨members, _⟩, hm, heq⟩ := bind_eq_ok.mp hs
          cases heq
          exact h.object ((below depth rfl).member.bracketed _ _ _ hm)
      · obtain ⟨_, -, heq⟩ := bind_eq_ok.mp hs
        cases heq
        exact h.leaf (by simp [kind])

theorem value (h : Built P) (fuel depth : Nat) : Yields (P depth) (value fuel depth) := by
  induction depth with
  | zero => exact h.value_of_below nofun
  | succ depth ih =>
    apply h.value_of_below
    rintro n ⟨⟩
    exact ih

theorem read (h : Built P) {text : String} {m : Json} (hr : read depth text = .ok m) :
    P depth m := by
  obtain ⟨⟨v, s⟩, hv, hr⟩ := bind_eq_ok.mp hr
  dsimp only at hr
  split at hr
  · cases hr
    exact h.value _ _ _ _ _ hv
  · cases hr

end Built

theorem built_distinctKeys : Built fun _ => DistinctKeys where
  leaf := distinctKeys_of_kind
  list := distinctKeys_arr.mpr
  object := distinctKeys_ofMembers

/-- No text reads as a value with a key twice. -/
theorem distinctKeys_of_read {depth : Nat} {text : String} {m : Json}
    (h : read depth text = .ok m) : m.DistinctKeys := built_distinctKeys.read h

end ShellTree.Json
