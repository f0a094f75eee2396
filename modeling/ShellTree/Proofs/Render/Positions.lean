import ShellTree.Proofs.Render.Rewriting

/-! Positions and what is rendered. Taking all positions off a map leaves its errors as they are,
and its text too unless a stream is sent to itself by a map with a position. -/
namespace ShellTree
open Outcome Render

namespace Json

mutual

/-- The map with no position left on any map in it. -/
def unplaced : Json → Json
  | .obj [(tag, .obj attrs)] => .obj [(tag, .obj (unplacedAttrs attrs))]
  | .arr items => .arr (unplacedItems items)
  | m => m

def unplacedAttrs : List (String × Json) → List (String × Json)
  | [] => []
  | (name, v) :: attrs =>
    if Decode.positionKeys.contains name then unplacedAttrs attrs
    else (name, unplaced v) :: unplacedAttrs attrs

def unplacedItems : List Json → List Json
  | [] => []
  | m :: items => unplaced m :: unplacedItems items

end

theorem unplacedItems_eq_map (items : List Json) : unplacedItems items = items.map unplaced := by
  induction items with
  | nil => rfl
  | cons m items ih => simp [unplacedItems, ih]

/-- No attribute is a position any more, and none other is lost. -/
theorem lookup_unplacedAttrs (attrs : List (String × Json)) (name : String) :
    (unplacedAttrs attrs).lookup name =
      if name ∈ Decode.positionKeys then none else (attrs.lookup name).map unplaced := by
  induction attrs with
  | nil => simp [unplacedAttrs]
  | cons a attrs ih =>
    obtain ⟨name', v⟩ := a
    by_cases hp : name' ∈ Decode.positionKeys
    · simp only [unplacedAttrs, List.contains_eq_mem, hp, decide_true, if_true, ih]
      by_cases hn : name ∈ Decode.positionKeys
      · simp [hn]
      · have hne : name ≠ name' := fun h => hn (h ▸ hp)
        simp [hn, List.lookup_cons, beq_false_of_ne hne]
    · simp only [unplacedAttrs, List.contains_eq_mem, hp, decide_false, Bool.false_eq_true,
        if_false, List.lookup_cons]
      cases h : name == name' with
      | true => simp [beq_iff_eq.mp h, hp]
      | false => exact ih

theorem mem_names_unplacedAttrs {attrs : List (String × Json)} {name : String} :
    name ∈ (unplacedAttrs attrs).map (·.1) ↔
      name ∈ attrs.map (·.1) ∧ name ∉ Decode.positionKeys := by
  induction attrs with
  | nil => simp [unplacedAttrs]
  | cons a attrs ih =>
    rw [unplacedAttrs, List.map_cons, List.mem_cons]
    split
    · next hp =>
      have hp : a.1 ∈ Decode.positionKeys := List.contains_iff_mem.mp hp
      rw [ih]
      grind
    · next hp =>
      have hp : a.1 ∉ Decode.positionKeys := fun h => hp (List.contains_iff_mem.mpr h)
      rw [List.map_cons, List.mem_cons, ih]
      grind

theorem unplaced_isObject (fields : List (String × Json)) :
    ∃ fields', unplaced (.obj fields) = .obj fields' := by
  unfold unplaced
  split <;> simp_all

theorem unplaced_sentinel (s : Stream) : s.sentinel.unplaced = s.sentinel := rfl

end Json

open Json

/-- A declared attribute is given as before, the maps in it without their positions. -/
theorem Form.Gives.unplaced {attrs : List (String × Json)} {t : Tag} {d : String × Form}
    {a : String × AttrValue Json} (h : Gives attrs d a) (hd : d ∈ t.signature) :
    Gives (unplacedAttrs attrs) d (a.1, a.2.map Json.unplaced) := by
  have hn : d.1 ∉ Decode.positionKeys := Tag.not_position_of_declared hd
  have hl : (unplacedAttrs attrs).lookup d.1 = (attrs.lookup d.1).map Json.unplaced := by
    rw [lookup_unplacedAttrs, if_neg hn]
  cases h with
  | @node name fields h =>
    obtain ⟨fields', hf⟩ := unplaced_isObject fields
    simp only [AttrValue.map, hf]
    exact .node (by rw [hl, h, Option.map_some, hf])
  | @stream name s fields h =>
    obtain rfl := Tag.signature_stream hd
    obtain ⟨fields', hf⟩ := unplaced_isObject fields
    simp only [AttrValue.map, hf]
    exact .stream (by rw [hl, h, Option.map_some, hf])
  | noStream h =>
    obtain rfl := Tag.signature_stream hd
    exact .noStream (by rw [hl, h, Option.map_none])
  | nodes h =>
    refine .nodes ?_
    rw [hl, h, Option.map_some, Json.unplaced, unplacedItems_eq_map]
  | text h => exact .text (by rw [hl, h]; rfl)
  | flag h => exact .flag (by rw [hl, h]; rfl)
  | noFlag h => exact .noFlag (by rw [hl, h]; rfl)
  | scope h =>
    obtain rfl := Tag.signature_scope hd
    exact .scope (by rw [hl, h]; rfl)

theorem Opens.unplaced {m : Json} {k : Kind Json} {p : Option Position} (h : Opens m k p) :
    Opens m.unplaced (k.map Json.unplaced) none := by
  obtain @⟨_, _, attrs, known, gives, -⟩ := h
  rw [Json.unplaced, ← Kind.tag_map Json.unplaced k]
  refine .mk ?_ ?_ ?_
  · intro name hn
    rw [Kind.tag_map]
    exact known name (mem_names_unplacedAttrs.mp hn).1
  · rw [Kind.tag_map, Kind.attributes_map, List.forall₂_map_right_iff]
    exact forall₂_imp_mem gives fun d hd a _ ha => ha.unplaced hd
  · rw [Tagged.position_eq_ok_none, lookup_unplacedAttrs, lookup_unplacedAttrs]
    exact ⟨rfl, rfl⟩

theorem Json.keepsKinds_unplaced : KeepsKinds Json.unplaced where
  opens ho _ := ⟨none, ho.unplaced⟩
  sentinel := unplaced_sentinel

/-- Positions are never seen in errors. In texts they are not seen either, unless a stream is sent
to itself by a map with a position. -/
theorem render_unplaced (d : Dialect) {m : Json} {n : Node} (h : decode m = .ok n) :
    (∀ e, render d m.unplaced = .error e ↔ render d m = .error e) ∧
      (m.StreamsBare → render d m.unplaced = render d m) := by
  constructor
  · intro e
    rw [← fault?_eq_some, ← fault?_eq_some, Json.keepsKinds_unplaced.fault?_render_eq d h]
  · exact Json.keepsKinds_unplaced.render_eq d h

theorem render_unplaced_mergedCommand : decode mergedCommand = .ok mergedCommandTree ∧
    render .xonsh mergedCommand.unplaced = render .xonsh mergedCommand :=
  ⟨by rfl, (render_unplaced .xonsh (n := mergedCommandTree) (by rfl)).2 streamsBare_mergedCommand⟩

/-- A command whose output goes where it goes anyway, by a map with a position. -/
def placedOutput : Json :=
  .obj [("Command", .obj [("args", .arr [.obj [("RawString", .obj [("value", .str "ls")])]]),
    ("stdout", .obj [("StdOut", .obj [("lineno", .num (.int 1 (by decide)))])])])]

/-- There a position is seen: with it the stream is redirected, and without it left alone. -/
theorem render_unplaced_placedOutput : (∃ n, decode placedOutput = .ok n) ∧
    render .bash placedOutput = .ok "ls > /dev/stdout" ∧
    render .bash placedOutput.unplaced = .ok "ls" :=
  ⟨⟨_, by rfl⟩, by rfl, by rfl⟩

end ShellTree
