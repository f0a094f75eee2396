import ShellTree.Proofs.Render.Renderable

/-! What the dialects can render. Two of them read the same attributes in the same order, and fish
reads two more, so that it refuses more. -/
namespace ShellTree
open Outcome Render

namespace RenderError

/-- The same error as another dialect reports it. -/
def inDialect (d : Dialect) : RenderError → RenderError
  | .shape e => .shape e
  | .unsupported _ tag => .unsupported d tag
  | .loopTarget _ tag => .loopTarget d tag
  | .backgroundCapture _ => .backgroundCapture d

/-- Errors that only fish has a reason for: it does not run captured commands in the background, and
writes down the scope of an assignment. -/
inductive FishOnly : RenderError → Prop
  | background : FishOnly (.backgroundCapture .fish)
  | noScope : FishOnly (.shape (.missing Tag.assign.name "scope"))
  | scope (expected : Expected) : FishOnly (.shape (.invalid Tag.assign.name "scope" expected))

end RenderError

open RenderError

theorem findSome?_map_congr {α β : Type} {f f' : α → Option β} {g : β → β} {as : List α}
    (h : ∀ a ∈ as, f' a = (f a).map g) : as.findSome? f' = (as.findSome? f).map g := by
  induction as with
  | nil => rfl
  | cons a as ih =>
    have hs := ih fun b hb => h b (by simp [hb])
    rw [findSome?_cons_or, findSome?_cons_or, h a (by simp), hs, Option.map_or]

section
variable {d : Dialect} {tag name : String}

theorem fault?_loopName_inDialect (d d' : Dialect) (m : Json) :
    fault? (loopName d' m) = (fault? (loopName d m)).map (inDialect d') := by
  unfold loopName
  cases Tagged.parse m with
  | error e => rfl
  | ok t =>
    simp only [lift_ok, ok_bind]
    split
    · cases t.text "name" <;> rfl
    · cases t.text "name" <;> rfl
    · rfl

/-- A need that is not met is not met in another dialect, if that is so for the maps in the value. -/
theorem Need.valueFault?_inDialect {d d' : Dialect} {below below' : Json → Option RenderError}
    (need : Need) {v : Json} (hv : below' v = (below v).map (inDialect d'))
    (he : ∀ c ∈ Tagged.elements v, below' c = (below c).map (inDialect d')) :
    need.valueFault? d' tag name below' v =
      (need.valueFault? d tag name below v).map (inDialect d') := by
  have items : ∀ ms, v = .arr ms →
      ms.findSome? below' = (ms.findSome? below).map (inDialect d') := by
    rintro ms rfl
    exact findSome?_map_congr he
  cases need with
  | map | stream s => cases v <;> first | rfl | exact hv
  | maps | optionalMaps =>
    cases v with
    | arr ms => exact items ms rfl
    | _ => rfl
  | target =>
    cases v with
    | obj fields => exact fault?_loopName_inDialect d d' _
    | _ => rfl
  | scope =>
    cases v with
    | str s => simp only [valueFault?]; split <;> rfl
    | _ => rfl
  | foreground =>
    cases v with
    | bool b => cases b <;> rfl
    | _ => rfl
  | text | flag => cases v <;> rfl

theorem Need.fault?_inDialect {d d' : Dialect} {below below' : Json → Option RenderError}
    {need : Need} {o : Option Json} (h : ∀ v, o = some v → need.valueFault? d' tag name below' v =
      (need.valueFault? d tag name below v).map (inDialect d')) :
    need.fault? d' tag name below' o = (need.fault? d tag name below o).map (inDialect d') := by
  cases o with
  | none => cases hn : need.optional <;> simp [fault?, hn, inDialect]
  | some v => exact h v rfl

end

namespace Render

/-- Dialects that need the same of every tag find the same faults. -/
theorem mapFault?_inDialect {d d' : Dialect} (hd : ∀ t, d.needs t = d'.needs t) (m : Json) :
    mapFault? d' m = (mapFault? d m).map (inDialect d') := by
  induction m using Json.induction with
  | step m ih =>
    by_cases hm : ∃ (t : Tag) (attrs : List (String × Json)), m = .obj [(t.name, .obj attrs)]
    · obtain ⟨t, attrs, rfl⟩ := hm
      rw [mapFault?_tag, mapFault?_tag, hd]
      apply findSome?_map_congr
      rintro ⟨name, need⟩ -
      apply Need.fault?_inDialect
      intro v hv
      obtain ⟨here, below⟩ := ih _ _ rfl name v (mem_of_lookup hv)
      exact need.valueFault?_inDialect here below
    · simp only [not_exists] at hm
      rcases mapFault?_unknown hm with ⟨e, he⟩ | ⟨tag, he⟩ <;> simp [he, inDialect]

/-- What fish finds where another dialect finds a fault or none: it finds none only if the other does
too, and if it alone finds one then it has a reason of its own. -/
structure Stricter (other fish : Option RenderError) : Prop where
  accepted : fish = none → other = none
  refused : other = none → ∀ e, fish = some e → e.FishOnly

namespace Stricter
variable {o o' f f' : Option RenderError}

theorem of_iff (h : o = none ↔ f = none) : Stricter o f where
  accepted := h.mpr
  refused ho e he := by simp [h.mp ho] at he

theorem or (h : Stricter o f) (h' : Stricter o' f') : Stricter (o.or o') (f.or f') where
  accepted hf := by
    obtain ⟨hf, hf'⟩ := Option.or_eq_none_iff.mp hf
    rw [h.accepted hf, h'.accepted hf']
    rfl
  refused ho e he := by
    obtain ⟨ho, ho'⟩ := Option.or_eq_none_iff.mp ho
    rcases Option.or_eq_some_iff.mp he with he | ⟨-, he⟩
    · exact h.refused ho e he
    · exact h'.refused ho' e he

theorem findSome? {α : Type} {as : List α} {g g' : α → Option RenderError}
    (h : ∀ a ∈ as, Stricter (g a) (g' a)) : Stricter (as.findSome? g) (as.findSome? g') := by
  induction as with
  | nil => exact .of_iff Iff.rfl
  | cons a as ih =>
    rw [findSome?_cons_or, findSome?_cons_or]
    exact (h a (by simp)).or (ih fun b hb => h b (by simp [hb]))

/-- Faults that fish looks for first and only fish has do not count. -/
theorem fish_first (h : Stricter o f) (hf : o = none → ∀ e, f' = some e → e.FishOnly) :
    Stricter o (f'.or f) where
  accepted hn := h.accepted (Option.or_eq_none_iff.mp hn).2
  refused ho e he := by
    rcases Option.or_eq_some_iff.mp he with he | ⟨-, he⟩
    · exact hf ho e he
    · exact h.refused ho e he

end Stricter

theorem stricter_valueFault? {tag name : String} {below below' : Json → Option RenderError}
    (need : Need) {v : Json} (hv : Stricter (below v) (below' v))
    (he : ∀ c ∈ Tagged.elements v, Stricter (below c) (below' c)) :
    Stricter (need.valueFault? .bash tag name below v)
      (need.valueFault? .fish tag name below' v) := by
  cases need with
  | map | stream s => cases v <;> first | exact .of_iff Iff.rfl | exact hv
  | maps | optionalMaps =>
    cases v with
    | arr ms => exact .findSome? he
    | _ => exact .of_iff Iff.rfl
  | target =>
    cases v with
    | obj fields =>
      apply Stricter.of_iff
      simp only [Need.valueFault?]
      rw [fault?_loopName_inDialect .bash .fish, Option.map_eq_none_iff]
    | _ => exact .of_iff Iff.rfl
  | foreground =>
    cases v with
    | bool b => cases b <;> exact .of_iff (by simp [Need.valueFault?])
    | _ => exact .of_iff Iff.rfl
  | text | scope | flag => cases v <;> exact .of_iff Iff.rfl

theorem stricter_fault? {tag name : String} {below below' : Json → Option RenderError}
    {need : Need} {o : Option Json} (h : ∀ v, o = some v →
      Stricter (need.valueFault? .bash tag name below v)
        (need.valueFault? .fish tag name below' v)) :
    Stricter (need.fault? .bash tag name below o) (need.fault? .fish tag name below' o) := by
  cases o with
  | none => exact .of_iff Iff.rfl
  | some v => exact h v rfl

/-- What fish alone needs is missed for reasons of its own. -/
theorem fishOnly_needs {t : Tag} {attrs : List (String × Json)} {e : RenderError}
    (hc : (t.needs.findSome? fun (name, need) =>
      need.fault? .bash t.name name (mapFault? .bash) (attrs.lookup name)) = none)
    (he : (Dialect.fish.needs t).findSome? (fun (name, need) =>
      need.fault? .fish t.name name (mapFault? .fish) (attrs.lookup name)) = some e) :
    e.FishOnly := by
  cases t with
  | assign =>
    simp only [Dialect.needs, findSome?_cons_or, List.findSome?_nil, Option.or_none] at he
    cases hs : attrs.lookup "scope" with
    | none =>
      rw [hs] at he
      obtain rfl := Option.some.inj he
      exact .noScope
    | some v =>
      rw [hs] at he
      cases v with
      | str s =>
        simp only [Need.fault?, Need.valueFault?] at he
        split at he
        · cases he
        · obtain rfl := Option.some.inj he
          exact .scope _
      | _ =>
        obtain rfl := Option.some.inj he
        exact .scope _
  | capturedCommand =>
    simp only [Dialect.needs, findSome?_cons_or, List.findSome?_nil, Option.or_none] at he
    have flag : Need.flag.fault? .bash Tag.capturedCommand.name "background" (mapFault? .bash)
        (attrs.lookup "background") = none :=
      List.findSome?_eq_none_iff.mp hc ("background", .flag) (by simp [Tag.needs])
    cases hb : attrs.lookup "background" with
    | none =>
      rw [hb] at he
      cases he
    | some v =>
      rw [hb] at he flag
      cases v with
      | bool b =>
        cases b with
        | false => cases he
        | true =>
          obtain rfl := Option.some.inj he
          exact .background
      | _ => cases flag
  | _ => simp [Dialect.needs] at he

theorem stricter_mapFault? (m : Json) : Stricter (mapFault? .bash m) (mapFault? .fish m) := by
  induction m using Json.induction with
  | step m ih =>
    by_cases hm : ∃ (t : Tag) (attrs : List (String × Json)), m = .obj [(t.name, .obj attrs)]
    · obtain ⟨t, attrs, rfl⟩ := hm
      rw [mapFault?_tag .fish, List.findSome?_append, mapFault?_tag .bash]
      apply Stricter.fish_first
      · apply Stricter.findSome?
        rintro ⟨name, need⟩ -
        apply stricter_fault?
        intro v hv
        obtain ⟨here, below⟩ := ih _ _ rfl name v (mem_of_lookup hv)
        exact stricter_valueFault? need here below
      · intro hc e he
        exact fishOnly_needs hc he
    · simp only [not_exists] at hm
      rcases mapFault?_unknown hm with ⟨e, he⟩ | ⟨tag, he⟩ <;>
        exact .of_iff (by simp [he])

end Render

theorem exists_ok_iff {d : Dialect} {m : Json} :
    (∃ s, render d m = .ok s) ↔ mapFault? d m = none := fault?_eq_none.symm

/-- Bash and xonsh can render the same maps, and find the same error in all others. What fish can
render they can render too. Of what they can render, fish only refuses captured commands in the
background and assignments without a scope. -/
theorem render_dialects_agree (m : Json) :
    (((∃ s, render .bash m = .ok s) ∧ ∃ s, render .xonsh m = .ok s) ∨
      ∃ e, render .bash m = .error e ∧ render .xonsh m = .error (e.inDialect .xonsh)) ∧
    ((∃ s, render .fish m = .ok s) →
      (∃ s, render .bash m = .ok s) ∧ ∃ s, render .xonsh m = .ok s) ∧
    ((∃ s, render .bash m = .ok s) → ∀ e, render .fish m = .error e → e.FishOnly) := by
  have lockstep : mapFault? .xonsh m = (mapFault? .bash m).map (inDialect .xonsh) :=
    mapFault?_inDialect (fun t => by cases t <;> rfl) m
  have fish := stricter_mapFault? m
  have both : mapFault? .bash m = none → mapFault? .xonsh m = none := by
    intro h
    rw [lockstep, h]
    rfl
  simp only [exists_ok_iff, ← fault?_eq_some]
  refine ⟨?_, ?_, fish.refused⟩
  · cases h : mapFault? .bash m with
    | none => exact .inl ⟨rfl, both h⟩
    | some e =>
      refine .inr ⟨e, h, ?_⟩
      rw [h] at lockstep
      exact lockstep
  · intro hf
    exact ⟨fish.accepted hf, both (fish.accepted hf)⟩

end ShellTree
