import ShellTree.Tagged

/-! What is inside a JSON value, and induction on JSON values as maps: what holds of a map as soon as
it holds of the values of its attributes, and of their elements, holds of every value. -/
namespace ShellTree.Json

/-- A value occurs in another, at any depth. -/
inductive Inside (v : Json) : Json → Prop
  | here : Inside v v
  | item {items : List Json} {m : Json} (hm : m ∈ items) (h : Inside v m) : Inside v (.arr items)
  | field {fields : List (String × Json)} {name : String} {m : Json}
    (hm : (name, m) ∈ fields) (h : Inside v m) : Inside v (.obj fields)

theorem Inside.trans {u v w : Json} (huv : u.Inside v) (hvw : v.Inside w) : u.Inside w := by
  induction hvw with
  | here => exact huv
  | item hm _ ih => exact .item hm ih
  | field hm _ ih => exact .field hm ih

theorem inside_obj {v : Json} {fields : List (String × Json)} :
    v.Inside (.obj fields) ↔ v = .obj fields ∨ ∃ field ∈ fields, v.Inside field.2 := by
  constructor
  · intro h
    cases h with
    | here => exact .inl rfl
    | field hm h => exact .inr ⟨_, hm, h⟩
  · rintro (rfl | ⟨field, hm, h⟩)
    · exact .here
    · exact .field hm h

theorem inside_arr {v : Json} {items : List Json} :
    v.Inside (.arr items) ↔ v = .arr items ∨ ∃ m ∈ items, v.Inside m := by
  constructor
  · intro h
    cases h with
    | here => exact .inl rfl
    | item hm h => exact .inr ⟨_, hm, h⟩
  · rintro (rfl | ⟨m, hm, h⟩)
    · exact .here
    · exact .item hm h

theorem sizeOf_attr_lt {tag name : String} {attrs : List (String × Json)} {v : Json}
    (h : (name, v) ∈ attrs) : sizeOf v < sizeOf (obj [(tag, obj attrs)]) := by
  have ha : sizeOf (name, v) < sizeOf attrs := List.sizeOf_lt_of_mem h
  simp at ha ⊢
  omega

theorem sizeOf_element_lt {v c : Json} (h : c ∈ Tagged.elements v) : sizeOf c < sizeOf v := by
  cases v with
  | arr items =>
    have hc : sizeOf c < sizeOf items := List.sizeOf_lt_of_mem h
    simp
    omega
  | _ => simp [Tagged.elements] at h

@[elab_as_elim]
theorem induction {P : Json → Prop}
    (step : ∀ m, (∀ tag attrs, m = obj [(tag, obj attrs)] → ∀ name v, (name, v) ∈ attrs →
      P v ∧ ∀ c ∈ Tagged.elements v, P c) → P m) (m : Json) : P m :=
  step m fun tag attrs hm _ v hv => by
    have hlt : sizeOf v < sizeOf m := by
      rw [hm]
      exact sizeOf_attr_lt hv
    exact ⟨induction step v, fun c hc =>
      have := sizeOf_element_lt hc
      induction step c⟩
termination_by sizeOf m

end ShellTree.Json
