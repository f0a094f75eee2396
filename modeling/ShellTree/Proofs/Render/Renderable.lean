import ShellTree.Proofs.Json.Induction
import ShellTree.Proofs.Render.Needs

/-! The maps that can be rendered. They need not be trees: only what is written out is looked at, so
that a map may have keys of its own and leave out what is not written. -/
namespace ShellTree
open Outcome Render

/-- The values that an attribute can have, where the maps below have to be in `P`. -/
inductive Need.Fits (P : Json → Prop) : Need → Json → Prop
  | map {m} (h : P m) : Fits P .map m
  | maps {ms} (h : ∀ m ∈ ms, P m) : Fits P .maps (.arr ms)
  | text (s : String) : Fits P .text (.str s)
  | scope (s : Scope) : Fits P .scope (.str s.name)
  | target {t : Tag} {attrs s} (ht : t = .var ∨ t = .envVar)
    (name : attrs.lookup "name" = some (.str s)) : Fits P .target (.obj [(t.name, .obj attrs)])
  | stream {s m} (h : P m) : Fits P (.stream s) m
  | optionalMaps {ms} (h : ∀ m ∈ ms, P m) : Fits P .optionalMaps (.arr ms)
  | flag (b : Bool) : Fits P .flag (.bool b)
  | foreground : Fits P .foreground (.bool false)

/-- The lenient grammar of a dialect: one key, which is a tag, over an object whose attributes are
there where they are needed and fit wherever they are read. -/
inductive Renderable (d : Dialect) : Json → Prop
  | mk {t : Tag} {attrs : List (String × Json)}
    (given : ∀ name need, (name, need) ∈ d.needs t ++ t.needs → need.optional = false →
      (attrs.lookup name).isSome)
    (fits : ∀ name need v, (name, need) ∈ d.needs t ++ t.needs → attrs.lookup name = some v →
      need.Fits (Renderable d) v) :
    Renderable d (.obj [(t.name, .obj attrs)])

theorem Renderable.isObject {d : Dialect} {m : Json} (h : Renderable d m) :
    ∃ fields, m = .obj fields := by
  cases h
  exact ⟨_, rfl⟩

theorem lift_eq_ok {α : Type} {x : Except ShapeError α} {a : α} :
    (liftM x : Result α) = .ok a ↔ x = .ok a := mapError_eq_ok

theorem fault?_eq_none {ε α : Type} {x : Except ε α} : fault? x = none ↔ ∃ a, x = .ok a := by
  cases x <;> simp

theorem renderable_tag {d : Dialect} {t : Tag} {attrs : List (String × Json)} :
    Renderable d (.obj [(t.name, .obj attrs)]) ↔
      (∀ name need, (name, need) ∈ d.needs t ++ t.needs → need.optional = false →
        (attrs.lookup name).isSome) ∧
      ∀ name need v, (name, need) ∈ d.needs t ++ t.needs → attrs.lookup name = some v →
        need.Fits (Renderable d) v := by
  constructor
  · generalize hm : Json.obj [(t.name, .obj attrs)] = m
    rintro ⟨given, fits⟩
    simp only [Json.obj.injEq, List.cons.injEq, Prod.mk.injEq, and_true] at hm
    obtain ⟨ht, rfl⟩ := hm
    obtain rfl := Tag.name_injective ht
    exact ⟨given, fits⟩
  · rintro ⟨given, fits⟩
    exact .mk given fits

/-- A loop has a name to assign to just when its target fits. -/
theorem fault?_loopName_eq_none {d : Dialect} {P : Json → Prop} {m : Json} :
    fault? (loopName d m) = none ↔ Need.target.Fits P m := by
  simp only [fault?_eq_none, loopName, bind_eq_ok, lift_eq_ok]
  constructor
  · rintro ⟨s, opened, hp, h⟩
    obtain ⟨tag, attrs, rfl, rfl⟩ := Tagged.parse_eq_ok.mp hp
    rw [← Tagged.map_id_opened] at h
    split at h
    · next ht =>
      rw [lift_eq_ok, Tagged.text_eq_ok] at h
      obtain rfl : tag = Tag.var.name := Tag.ofName?_eq_some.mp ht
      exact .target (.inl rfl) h
    · next ht =>
      obtain ⟨name, hs, -⟩ := bind_eq_ok.mp h
      rw [lift_eq_ok, Tagged.text_eq_ok] at hs
      obtain rfl : tag = Tag.envVar.name := Tag.ofName?_eq_some.mp ht
      exact .target (.inr rfl) hs
    · cases h
  · rintro (_ | _ | _ | _ | @⟨t, attrs, s, ht, name⟩)
    have text : (Tagged.opened t.name attrs).text "name" = .ok s := by
      rw [← Tagged.map_id_opened]
      exact Tagged.text_eq_ok.mpr name
    rcases ht with rfl | rfl
    · exact ⟨s, _, rfl, lift_eq_ok.mpr text⟩
    · exact ⟨_, _, rfl, bind_eq_ok.mpr ⟨s, lift_eq_ok.mpr text, rfl⟩⟩

section
variable {d : Dialect} {P : Json → Prop} {tag name : String} {below : Json → Option RenderError}
  {need : Need}

/-- A value has no fault just when it fits, if that is so for the maps in it. -/
theorem Need.valueFault?_eq_none {v : Json} (ho : ∀ m, P m → ∃ fields, m = .obj fields)
    (hv : below v = none ↔ P v) (he : ∀ c ∈ Tagged.elements v, below c = none ↔ P c) :
    need.valueFault? d tag name below v = none ↔ need.Fits P v := by
  have items : ∀ ms, v = .arr ms → (ms.findSome? below = none ↔ ∀ m ∈ ms, P m) := by
    rintro ms rfl
    rw [List.findSome?_eq_none_iff]
    exact forall₂_congr he
  cases need with
  | map =>
    have hm : Need.map.Fits P v ↔ P v := by
      refine ⟨fun h => ?_, .map⟩
      cases h with
      | map h => exact h
    rw [hm]
    cases v with
    | obj fields => exact hv
    | _ =>
      refine ⟨by rintro ⟨⟩, fun h => ?_⟩
      obtain ⟨fields, h⟩ := ho _ h
      cases h
  | stream s =>
    refine hv.trans ⟨.stream, fun h => ?_⟩
    cases h with
    | stream h => exact h
  | maps =>
    cases v with
    | arr ms =>
      refine (items ms rfl).trans ⟨.maps, fun h => ?_⟩
      cases h with
      | maps h => exact h
    | _ => constructor <;> rintro ⟨⟩
  | optionalMaps =>
    cases v with
    | arr ms =>
      refine (items ms rfl).trans ⟨.optionalMaps, fun h => ?_⟩
      cases h with
      | optionalMaps h => exact h
    | _ => constructor <;> rintro ⟨⟩
  | text =>
    cases v with
    | str s => exact ⟨fun _ => .text s, fun _ => rfl⟩
    | _ => constructor <;> rintro ⟨⟩
  | flag =>
    cases v with
    | bool b => exact ⟨fun _ => .flag b, fun _ => rfl⟩
    | _ => constructor <;> rintro ⟨⟩
  | foreground =>
    cases v with
    | bool b =>
      cases b with
      | false => exact ⟨fun _ => .foreground, fun _ => rfl⟩
      | true => constructor <;> rintro ⟨⟩
    | _ => constructor <;> rintro ⟨⟩
  | scope =>
    cases v with
    | str s =>
      cases hs : Scope.ofName? s with
      | none =>
        refine ⟨fun h => by simp [valueFault?, hs] at h, ?_⟩
        rintro ⟨⟩
        simp at hs
      | some scope =>
        obtain rfl := Scope.ofName?_eq_some.mp hs
        simp [valueFault?, Fits.scope]
    | _ => constructor <;> rintro ⟨⟩
  | target =>
    cases v with
    | obj fields => exact fault?_loopName_eq_none
    | _ => constructor <;> rintro ⟨⟩

theorem Need.fault?_eq_none {o : Option Json} (h : ∀ v, o = some v →
      (need.valueFault? d tag name below v = none ↔ need.Fits P v)) :
    need.fault? d tag name below o = none ↔
      (need.optional = false → o.isSome) ∧ ∀ v, o = some v → need.Fits P v := by
  cases o with
  | none => cases hn : need.optional <;> simp [fault?, hn]
  | some v => simpa [fault?] using h v rfl

end

theorem mapFault?_eq_none {d : Dialect} {m : Json} : mapFault? d m = none ↔ Renderable d m := by
  induction m using Json.induction with
  | step m ih =>
    by_cases hm : ∃ (t : Tag) (attrs : List (String × Json)), m = .obj [(t.name, .obj attrs)]
    · obtain ⟨t, attrs, rfl⟩ := hm
      have met : ∀ (name : String) (need : Need),
          need.fault? d t.name name (mapFault? d) (attrs.lookup name) = none ↔
            (need.optional = false → (attrs.lookup name).isSome) ∧
              ∀ v, attrs.lookup name = some v → need.Fits (Renderable d) v := by
        intro name need
        apply Need.fault?_eq_none
        intro v hv
        obtain ⟨here, below⟩ := ih _ _ rfl name v (mem_of_lookup hv)
        exact Need.valueFault?_eq_none (fun _ => Renderable.isObject) here below
      rw [mapFault?_tag, List.findSome?_eq_none_iff, renderable_tag]
      simp only [Prod.forall, met]
      constructor
      · intro h
        exact ⟨fun name need hn => (h name need hn).1, fun name need v hn => (h name need hn).2 v⟩
      · rintro ⟨given, fits⟩ name need hn
        exact ⟨given name need hn, fun v => fits name need v hn⟩
    · simp only [not_exists] at hm
      have not : ¬Renderable d m := by
        rintro ⟨⟩
        exact hm _ _ rfl
      rcases mapFault?_unknown hm with ⟨e, he⟩ | ⟨tag, he⟩ <;> simp [he, not]

/-- A dialect can render exactly what is in its lenient grammar. -/
theorem render_isOk_iff_renderable (d : Dialect) (m : Json) :
    (∃ s, render d m = .ok s) ↔ Renderable d m := by
  rw [← mapFault?_eq_none, mapFault?, fault?_eq_none]

end ShellTree
