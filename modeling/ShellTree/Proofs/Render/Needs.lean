import ShellTree.Proofs.Render.Construct

/-! What rendering reads of a map. Each tag has a list of needs, which are looked at one after the
other, and the fault of a map is that of the first need that it does not meet. -/
namespace ShellTree
open Outcome

/-- What an attribute has to be so that it can be rendered. -/
inductive Need where
  | map
  | maps
  | text
  | scope
  /-- The target of a loop. -/
  | target
  | stream (s : Stream)
  | optionalMaps
  | flag
  /-- A flag that must not be set. -/
  | foreground
  deriving DecidableEq, Repr

/-- Whether the attribute may be left out. -/
def Need.optional : Need → Bool
  | .stream _ | .optionalMaps | .flag | .foreground => true
  | _ => false

/-- The fault of a value, given those of the maps in it. -/
def Need.valueFault? (d : Dialect) (tag name : String) (below : Json → Option RenderError) :
    Need → Json → Option RenderError
  | .map, .obj fields => below (.obj fields)
  | .map, _ => some (.shape (.invalid tag name .map))
  | .maps, .arr ms | .optionalMaps, .arr ms => ms.findSome? below
  | .maps, _ | .optionalMaps, _ => some (.shape (.invalid tag name .maps))
  | .text, .str _ => none
  | .text, _ => some (.shape (.invalid tag name .text))
  | .scope, .str s =>
    if (Scope.ofName? s).isSome then none else some (.shape (.invalid tag name .scope))
  | .scope, _ => some (.shape (.invalid tag name .text))
  | .target, .obj fields => Outcome.fault? (Render.loopName d (.obj fields))
  | .target, _ => some (.shape (.invalid tag name .map))
  | .stream _, m => below m
  | .flag, .bool _ | .foreground, .bool false => none
  | .foreground, .bool true => some (.backgroundCapture d)
  | .flag, _ | .foreground, _ => some (.shape (.invalid tag name .flag))

/-- The fault of an attribute, which is missing if it has no value. -/
def Need.fault? (d : Dialect) (tag name : String) (below : Json → Option RenderError)
    (need : Need) : Option Json → Option RenderError
  | some v => need.valueFault? d tag name below v
  | none => if need.optional then none else some (.shape (.missing tag name))

/-- What every dialect needs of the attributes of a tag, in the order in which they are read. -/
def Tag.needs : Tag → List (String × Need)
  | .script => [("body", .maps)]
  | .comment | .rawString => [("value", .text)]
  | .string => [("parts", .maps)]
  | .var | .envVar | .delete | .envDelete | .aliasDelete => [("name", .text)]
  | .stdIn | .stdOut | .stdErr | .pass => []
  | .command | .capturedCommand =>
    [("args", .maps), ("stderr", .stream .error), ("stdout", .stream .output),
      ("stdin", .stream .input), ("background", .flag)]
  | .and | .or => [("lhs", .map), ("rhs", .map)]
  | .not | .statement => [("node", .map)]
  | .assign | .envAssign | .aliasAssign => [("name", .text), ("value", .map)]
  | .ifElse => [("test", .map), ("body", .maps), ("orelse", .optionalMaps)]
  | .forIn => [("target", .target), ("iter", .map), ("body", .maps)]
  | .function => [("name", .text), ("body", .maps)]

/-- What a dialect needs beside that, and reads first. -/
def Dialect.needs : Dialect → Tag → List (String × Need)
  | .fish, .assign => [("scope", .scope)]
  | .fish, .capturedCommand => [("background", .foreground)]
  | _, _ => []

namespace Render

/-- The fault of a map when it is rendered. -/
def mapFault? (d : Dialect) (m : Json) : Option RenderError := fault? (render d m)

section
variable {d : Dialect} {tag name : String} {attrs : List (String × Json)}

theorem fault?_node : fault? (node ((Tagged.opened tag attrs).map (render d)) name) =
    Need.map.fault? d tag name (mapFault? d) (attrs.lookup name) := by
  simp only [node, Tagged.node, Tagged.nested, Tagged.get, Tagged.find?_opened]
  cases attrs.lookup name with
  | none => rfl
  | some v => cases v <;> rfl

theorem fault?_nodes : fault? (nodes ((Tagged.opened tag attrs).map (render d)) name) =
    Need.maps.fault? d tag name (mapFault? d) (attrs.lookup name) := by
  simp only [nodes, Tagged.nodes, Tagged.get, Tagged.find?_opened]
  cases attrs.lookup name with
  | none => rfl
  | some v =>
    cases v with
    | arr ms =>
      calc fault? (Tagged.collect (ms.map (render d)))
          = (ms.map (render d)).findSome? fault? := Tagged.fault?_collect _
        _ = ms.findSome? (mapFault? d) := List.findSome?_map
    | _ => rfl

theorem fault?_optionalNodes :
    fault? (do
      let texts ← ((Tagged.opened tag attrs).map (render d)).optionalNodes name
      Tagged.collect texts : Result (List String)) =
    Need.optionalMaps.fault? d tag name (mapFault? d) (attrs.lookup name) := by
  have h : fault? (nodes ((Tagged.opened tag attrs).map (render d)) name) = _ := fault?_nodes
  rw [nodes] at h
  rw [Tagged.optionalNodes, Tagged.find?_opened]
  cases hv : attrs.lookup name with
  | none => rfl
  | some v =>
    rw [hv] at h
    cases v <;> exact h

theorem fault?_text :
    fault? (liftM (((Tagged.opened tag attrs).map (render d)).text name) : Result String) =
      Need.text.fault? d tag name (mapFault? d) (attrs.lookup name) := by
  simp only [Tagged.text, Tagged.get, Tagged.find?_opened]
  cases attrs.lookup name with
  | none => rfl
  | some v => cases v <;> rfl

theorem fault?_scope :
    fault? (liftM ((Tagged.opened tag attrs).map (render d)).scope : Result Scope) =
      Need.scope.fault? d tag "scope" (mapFault? d) (attrs.lookup "scope") := by
  cases hv : attrs.lookup "scope" with
  | none =>
    simp only [Tagged.scope, Tagged.text, Tagged.get, Tagged.find?_opened, hv]
    rfl
  | some v =>
    cases v with
    | str s =>
      rw [Tagged.scope_of_string hv, Need.fault?, Need.valueFault?]
      cases Scope.ofName? s <;> rfl
    | _ =>
      simp only [Tagged.scope, Tagged.text, Tagged.get, Tagged.find?_opened, hv]
      rfl

theorem fault?_flag :
    fault? (liftM (((Tagged.opened tag attrs).map (render d)).flag name false) : Result Bool) =
      Need.flag.fault? d tag name (mapFault? d) (attrs.lookup name) := by
  simp only [Tagged.flag, Tagged.find?_opened]
  cases attrs.lookup name with
  | none => rfl
  | some v => cases v <;> rfl

/-- A sentinel is passed over, but can be rendered as well. -/
theorem fault?_redirect (s : Stream) :
    fault? (redirect d ((Tagged.opened tag attrs).map (render d)) s) =
      (Need.stream s).fault? d tag s.attr (mapFault? d) (attrs.lookup s.attr) := by
  rw [redirect, Tagged.find?_opened]
  cases attrs.lookup s.attr with
  | none => rfl
  | some v =>
    simp only [Option.map_some]
    split
    · next h =>
      obtain rfl := isSentinel_iff.mp h
      cases s <;> rfl
    · simp only [bind_pure_comp, fault?_map]
      rfl

theorem fault?_loopTarget :
    fault? (loopTarget d ((Tagged.opened tag attrs).map (render d))) =
      Need.target.fault? d tag "target" (mapFault? d) (attrs.lookup "target") := by
  simp only [loopTarget, Tagged.nested, Tagged.get, Tagged.find?_opened]
  cases attrs.lookup "target" with
  | none => rfl
  | some v => cases v <;> rfl

theorem fault?_commandLine :
    fault? (commandLine d ((Tagged.opened tag attrs).map (render d))) =
      Tag.command.needs.findSome? fun (name, need) =>
        need.fault? d tag name (mapFault? d) (attrs.lookup name) := by
  simp only [commandLine, bind_pure_comp]
  rw [fault?_bind fun _ => fault?_bind fun _ => fault?_bind fun _ => fault?_bind fun _ => fault?_map,
    fault?_nodes, fault?_redirect .error, fault?_redirect .output, fault?_redirect .input,
    fault?_flag]
  simp only [Tag.needs, findSome?_cons_or, List.findSome?_nil, Option.or_none, Stream.attr]

/-- Whether a captured command runs in the background is the first thing that fish looks at. -/
theorem fault?_captured_fish :
    fault? (command .fish ((Tagged.opened tag attrs).map (render .fish)) .captured) =
      (Need.foreground.fault? .fish tag "background" (mapFault? .fish)
        (attrs.lookup "background")).or
          (fault? (commandLine .fish ((Tagged.opened tag attrs).map (render .fish)))) := by
  have line : ∀ x : Result String,
      fault? (do return Phrasing.fish.command .captured (← x)) = fault? x := by
    intro x
    rw [bind_pure_comp, fault?_map]
  simp only [command, Dialect.phrasing, Phrasing.fish] at line ⊢
  simp only [Tagged.flag, Tagged.find?_opened]
  cases attrs.lookup "background" with
  | none => exact line _
  | some v =>
    cases v with
    | bool b =>
      cases b with
      | false => exact line _
      | true => rfl
    | _ => rfl

/-- A construct has the fault of the first of its needs that is not met. -/
theorem fault?_construct (t : Tag) :
    fault? (construct d ((Tagged.opened tag attrs).map (render d)) t) =
      (d.needs t ++ t.needs).findSome? fun (name, need) =>
        need.fault? d tag name (mapFault? d) (attrs.lookup name) := by
  cases t with
  | stdIn | stdOut | stdErr | pass => cases d <;> rfl
  | script | string =>
    cases d <;> simp [construct, fault?_nodes, Dialect.needs, Tag.needs, findSome?_cons_or]
  | comment | rawString | var | envVar | delete | envDelete | aliasDelete =>
    cases d <;> simp [construct, fault?_text, Dialect.needs, Tag.needs, findSome?_cons_or]
  | not | statement =>
    cases d <;> simp [construct, fault?_node, Dialect.needs, Tag.needs, findSome?_cons_or]
  | command =>
    cases d <;> simp [construct, command, fault?_commandLine, Dialect.needs]
  | capturedCommand =>
    cases d with
    | fish =>
      simp only [construct, fault?_captured_fish, fault?_commandLine, Dialect.needs,
        List.cons_append, List.nil_append, findSome?_cons_or]
      rfl
    | _ =>
      simp [construct, command, fault?_commandLine, Dialect.needs, Dialect.phrasing, Phrasing.bash,
        Phrasing.xonsh]
      rfl
  | and | or =>
    simp only [construct, logic, bind_pure_comp]
    rw [fault?_bind fun _ => fault?_map]
    cases d <;> simp [fault?_node, Dialect.needs, Tag.needs, findSome?_cons_or]
  | envAssign | aliasAssign =>
    simp only [construct, bind_pure_comp]
    rw [fault?_bind fun _ => fault?_map]
    cases d <;> simp [fault?_text, fault?_node, Dialect.needs, Tag.needs, findSome?_cons_or]
  | assign =>
    cases d with
    | fish =>
      simp only [construct, assign, Dialect.phrasing, Phrasing.fish, bind_pure_comp]
      rw [fault?_bind fun _ => fault?_bind fun _ => fault?_map]
      simp [fault?_scope, fault?_text, fault?_node, Dialect.needs, Tag.needs, findSome?_cons_or]
    | _ =>
      simp only [construct, assign, Dialect.phrasing, Phrasing.bash, Phrasing.xonsh, bind_pure_comp]
      rw [fault?_bind fun _ => fault?_map]
      simp [fault?_text, fault?_node, Dialect.needs, Tag.needs, findSome?_cons_or]
  | ifElse =>
    simp only [construct, ifElse, bind_pure_comp, ← map_bind]
    rw [fault?_bind fun _ => fault?_bind fun _ => fault?_map]
    cases d <;>
      simp [fault?_optionalNodes, fault?_node, fault?_nodes, Dialect.needs, Tag.needs,
        findSome?_cons_or]
  | forIn =>
    simp only [construct, forIn, bind_pure_comp]
    rw [fault?_bind fun _ => fault?_bind fun _ => fault?_map]
    cases d <;>
      simp [fault?_loopTarget, fault?_node, fault?_nodes, Dialect.needs, Tag.needs,
        findSome?_cons_or]
  | function =>
    simp only [construct, function, bind_pure_comp]
    rw [fault?_bind fun _ => fault?_map]
    cases d <;> simp [fault?_text, fault?_nodes, Dialect.needs, Tag.needs, findSome?_cons_or]

/-- A map of no known tag has the same fault in every dialect. -/
theorem mapFault?_unknown {m : Json}
    (h : ∀ (t : Tag) (attrs : List (String × Json)), m ≠ .obj [(t.name, .obj attrs)]) :
    (∃ e, ∀ d, mapFault? d m = some (.shape e)) ∨
      ∃ tag, ∀ d, mapFault? d m = some (.unsupported d tag) := by
  cases hp : Tagged.parse m with
  | error e =>
    refine .inl ⟨e, fun d => ?_⟩
    rw [mapFault?, render_eq, hp]
    rfl
  | ok opened =>
    obtain ⟨tag, attrs, rfl, rfl⟩ := Tagged.parse_eq_ok.mp hp
    cases ht : Tag.ofName? tag with
    | some t => exact absurd (by rw [Tag.ofName?_eq_some.mp ht]) (h t attrs)
    | none =>
      refine .inr ⟨tag, fun d => ?_⟩
      rw [mapFault?, render_eq, hp]
      simp only [tagged, Tagged.tag_opened, ht]
      rfl

/-- The fault of a map over the name of a tag. -/
theorem mapFault?_tag (d : Dialect) (t : Tag) (attrs : List (String × Json)) :
    mapFault? d (.obj [(t.name, .obj attrs)]) =
      (d.needs t ++ t.needs).findSome? fun (name, need) =>
        need.fault? d t.name name (mapFault? d) (attrs.lookup name) := by
  rw [mapFault?, render_eq, Tagged.parse_eq_ok.mpr ⟨_, _, rfl, rfl⟩]
  simp only [tagged, Tagged.tag_opened, Tag.ofName?_name]
  exact fault?_construct t

end

end Render
end ShellTree
