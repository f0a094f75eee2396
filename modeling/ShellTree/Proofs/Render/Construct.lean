import ShellTree.Proofs.Codec.Opening
import ShellTree.Render

/-! Rendering one level at a time. The text of a map that opens as a kind depends only on that kind
and on the maps and the texts of the nodes right below. -/
namespace ShellTree
open Outcome

namespace Render

/-- What is seen of a node from the node above it when that is rendered. -/
structure Part where
  source : Json
  text : Result String

section
variable (d : Dialect)

def part (m : Json) : Part := ⟨m, render d m⟩

def texts (ps : List Part) : Result (List String) := Tagged.collect (ps.map (·.text))

def segment (s : Stream) (p : Part) : Result String :=
  if isSentinel s p.source then .ok ""
  else return d.phrasing.redirect s ++ (← p.text)

def line (c : Command Part) : Result String := do
  let args ← texts c.args
  let error ← segment d .error c.stderr
  let output ← segment d .output c.stdout
  let input ← segment d .input c.stdin
  return " ".intercalate args ++ error ++ output ++ input ++
    (if c.background then d.phrasing.background else "")

/-- What follows the first block of an `if`. -/
def rest (orelse : List Part) (texts : List String) : String :=
  if texts.isEmpty then d.phrasing.ifClose
  else if isElseIf (some (.arr (orelse.map (·.source)))) then
    d.phrasing.elseIf ++ String.join texts
  else d.phrasing.elseHeader ++ indentBlock d texts ++ d.phrasing.ifClose

/-- The name that a loop over a target assigns to. -/
def loopName (target : Json) : Result String := do
  let t ← Tagged.parse target
  match Tag.ofName? t.tag with
  | some .var => t.text "name"
  | some .envVar => return d.phrasing.envTarget (← t.text "name")
  | _ => throw (.loopTarget d t.tag)

/-- The text of a node from what is seen of the nodes right below. -/
def kind : Kind Part → Result String
  | .script body => return String.join (← texts body)
  | .comment value => return "# " ++ value ++ "\n"
  | .string parts => return "\"" ++ String.join (← texts parts) ++ "\""
  | .rawString value => return value
  | .var name => return d.phrasing.var name
  | .envVar name => return "$" ++ name
  | .stream s => return s.device
  | .command mode c =>
    if mode = .captured ∧ !d.phrasing.capturesBackground ∧ c.background then
      .error (.backgroundCapture d)
    else return d.phrasing.command mode (← line d c)
  | .logic op lhs rhs =>
    return (← lhs.text) ++ " " ++ d.phrasing.connective op ++ " " ++ (← rhs.text)
  | .not node => return d.phrasing.negation ++ (← node.text)
  | .statement node => return (← node.text) ++ "\n"
  | .assign name value scope =>
    match d.phrasing.assign with
    | .unscoped write => return write name (← value.text)
    | .scoped write => return write scope name (← value.text)
  | .envAssign name value => return d.phrasing.envAssign name (← value.text)
  | .delete name => return d.phrasing.delete name
  | .envDelete name => return d.phrasing.envDelete name
  | .aliasAssign name value => return d.phrasing.aliasAssign name (← value.text)
  | .aliasDelete name => return d.phrasing.aliasDelete name
  | .pass => return d.phrasing.pass
  | .ifElse test body orelse => do
    let test ← test.text
    let body ← texts body
    let other ← texts orelse
    return d.phrasing.ifHeader test ++ indentBlock d body ++ rest d orelse other
  | .forIn target iter body => do
    let name ← loopName d target.source
    let iter ← iter.text
    let body ← texts body
    return d.phrasing.forHeader name iter ++ indentBlock d body ++ d.phrasing.forClose
  | .function name body =>
    return d.phrasing.functionHeader name ++ indentBlock d (← texts body) ++
      d.phrasing.functionClose

end

section
variable {d : Dialect} {tag name name' : String} {attrs : List (String × Json)}

theorem isSentinel_iff {s : Stream} {m : Json} : isSentinel s m = true ↔ m = s.sentinel := by
  constructor
  · intro h
    unfold isSentinel at h
    split at h
    · rw [beq_iff_eq.mp h]
      rfl
    · cases h
  · rintro rfl
    simp [Stream.sentinel, isSentinel]

theorem texts_part (ms : List Json) :
    texts (ms.map (part d)) = Tagged.collect (ms.map (render d)) := by
  simp [texts, part, Function.comp_def]

theorem sources_part (ms : List Json) : (ms.map (part d)).map (·.source) = ms := by
  simp [part, Function.comp_def]

theorem node_of_gives {m : Json} (h : Form.Gives attrs (name, .node) (name', .node m)) :
    node ((Tagged.opened tag attrs).map (render d)) name = render d m := by
  cases h with
  | node h =>
    rw [node, Tagged.node_eq_ok.mpr ⟨_, h, rfl⟩]
    rfl

theorem nodes_of_gives {ms : List Json} (h : Form.Gives attrs (name, .nodes) (name', .nodes ms)) :
    nodes ((Tagged.opened tag attrs).map (render d)) name = texts (ms.map (part d)) := by
  cases h with
  | nodes h =>
    rw [nodes, Tagged.nodes_eq_ok.mpr ⟨_, h, rfl⟩, texts_part]
    rfl

theorem text_of_gives {ρ : Type} {f : Json → ρ} {s : String}
    (h : Form.Gives attrs (name, .text) (name', .text s)) :
    ((Tagged.opened tag attrs).map f).text name = .ok s := by
  cases h with
  | text h => exact Tagged.text_eq_ok.mpr h

theorem flag_of_gives {b : Bool} (h : Form.Gives attrs (name, .flag) (name', .flag b)) :
    ((Tagged.opened tag attrs).map (render d)).flag name false = .ok b := by
  cases h with
  | flag h => exact Tagged.flag_eq_ok.mpr (.inl h)
  | noFlag h => exact Tagged.flag_eq_ok.mpr (.inr ⟨h, rfl⟩)

theorem scope_of_gives {s : Scope} (h : Form.Gives attrs (name, .scope) (name', .scope s)) :
    ((Tagged.opened tag attrs).map (render d)).scope = .ok s := by
  cases h with
  | scope h => exact Tagged.scope_eq_ok.mpr h

/-- A stream that was left out is rendered like its sentinel: not at all. -/
theorem redirect_of_gives {s : Stream} {m : Json}
    (h : Form.Gives attrs (name, .stream s) (name', .node m)) :
    redirect d ((Tagged.opened tag attrs).map (render d)) s = segment d s (part d m) := by
  rw [redirect, Tagged.find?_opened]
  cases h with
  | stream h => simp [h, segment, part]
  | noStream h => simp [h, segment, part, Stream.sentinel, isSentinel]

theorem loopTarget_of_gives {m : Json}
    (h : Form.Gives attrs ("target", .node) (name', .node m)) :
    loopTarget d ((Tagged.opened tag attrs).map (render d)) = loopName d m := by
  cases h with
  | node h =>
    rw [loopTarget, Tagged.nested_eq_ok.mpr ⟨_, h, rfl⟩]
    rfl

theorem orelse_of_gives {ms : List Json}
    (h : Form.Gives attrs ("orelse", .nodes) (name', .nodes ms)) :
    ((Tagged.opened tag attrs).map (render d)).optionalNodes "orelse" = .ok (ms.map (render d)) ∧
      (((Tagged.opened tag attrs).map (render d)).find? "orelse").map (·.value) =
        some (.arr ms) := by
  cases h with
  | nodes h =>
    rw [Tagged.optionalNodes, Tagged.find?_opened, h, Tagged.nodes_eq_ok.mpr ⟨_, h, rfl⟩]
    exact ⟨rfl, rfl⟩

theorem lift_ok {α : Type} (a : α) : (liftM (.ok a : Except ShapeError α) : Result α) = .ok a :=
  rfl

theorem command_of_gives {mode : Mode} {c : Command Json}
    (gives : List.Forall₂ (Form.Gives attrs) Tag.command.signature
      (Kind.command mode c).attributes) :
    command d ((Tagged.opened tag attrs).map (render d)) mode =
      kind d ((Kind.command mode c).map (part d)) := by
  obtain _ | ⟨g₁, _ | ⟨g₂, _ | ⟨g₃, _ | ⟨g₄, _ | ⟨g₅, -⟩⟩⟩⟩⟩ := gives
  have hl : commandLine d ((Tagged.opened tag attrs).map (render d)) =
      line d (c.map (part d)) := by
    simp only [commandLine, line, Command.map, nodes_of_gives g₁, redirect_of_gives g₂,
      redirect_of_gives g₃, redirect_of_gives g₄, flag_of_gives g₅, lift_ok, ok_bind]
    rfl
  simp only [command, hl, flag_of_gives g₅, lift_ok, ok_bind, kind, Kind.map]
  by_cases hc : mode = .captured ∧ !d.phrasing.capturesBackground
  · by_cases hb : c.background
    · simp only [hc, hb, Command.map, and_self, if_true]
      rfl
    · simp only [hc, hb, Command.map]
      rfl
  · rw [if_neg hc, if_neg fun h => hc ⟨h.1, h.2.1⟩]

theorem construct_of_gives {k : Kind Json}
    (gives : List.Forall₂ (Form.Gives attrs) k.tag.signature k.attributes) :
    construct d ((Tagged.opened tag attrs).map (render d)) k.tag = kind d (k.map (part d)) := by
  cases k with
  | stream s => cases s <;> rfl
  | pass => rfl
  | script | string =>
    obtain _ | ⟨g, -⟩ := gives
    simp only [construct, kind, Kind.tag, Kind.map, nodes_of_gives g]
  | rawString =>
    obtain _ | ⟨g, -⟩ := gives
    exact congrArg liftM (text_of_gives g)
  | comment | var | envVar | delete | envDelete | aliasDelete =>
    obtain _ | ⟨g, -⟩ := gives
    simp only [construct, kind, Kind.tag, Kind.map, text_of_gives g, lift_ok, ok_bind]
  | not | statement =>
    obtain _ | ⟨g, -⟩ := gives
    simp only [construct, kind, Kind.tag, Kind.map, node_of_gives g, part]
  | logic op =>
    cases op <;>
    · obtain _ | ⟨g₁, _ | ⟨g₂, -⟩⟩ := gives
      simp only [construct, logic, kind, Kind.tag, Kind.map, node_of_gives g₁, node_of_gives g₂,
        part]
  | envAssign | aliasAssign =>
    obtain _ | ⟨g₁, _ | ⟨g₂, -⟩⟩ := gives
    simp only [construct, kind, Kind.tag, Kind.map, text_of_gives g₁, node_of_gives g₂, lift_ok,
      ok_bind, part]
  | function =>
    obtain _ | ⟨g₁, _ | ⟨g₂, -⟩⟩ := gives
    simp only [construct, function, kind, Kind.tag, Kind.map, text_of_gives g₁, nodes_of_gives g₂,
      lift_ok, ok_bind]
  | assign =>
    obtain _ | ⟨g₁, _ | ⟨g₂, _ | ⟨g₃, -⟩⟩⟩ := gives
    cases hd : d.phrasing.assign <;>
      simp only [construct, assign, kind, Kind.tag, Kind.map, hd, text_of_gives g₁,
        node_of_gives g₂, scope_of_gives g₃, lift_ok, ok_bind, part]
  | ifElse =>
    obtain _ | ⟨g₁, _ | ⟨g₂, _ | ⟨g₃, -⟩⟩⟩ := gives
    simp only [construct, ifElse, kind, Kind.tag, Kind.map, node_of_gives g₁, nodes_of_gives g₂,
      (orelse_of_gives g₃).1, (orelse_of_gives g₃).2, lift_ok, ok_bind, part, texts_part, rest,
      sources_part]
  | forIn =>
    obtain _ | ⟨g₁, _ | ⟨g₂, _ | ⟨g₃, -⟩⟩⟩ := gives
    simp only [construct, forIn, kind, Kind.tag, Kind.map, loopTarget_of_gives g₁,
      node_of_gives g₂, nodes_of_gives g₃, part]
  | command mode c => cases mode <;> exact command_of_gives gives

end
end Render

open Render

/-- The text of a map that opens comes from its kind alone, whatever attributes it leaves out,
whatever order the others have and whatever position it carries. -/
theorem render_of_opens (d : Dialect) {m : Json} {k : Kind Json} {p : Option Position}
    (h : Opens m k p) : render d m = Render.kind d (k.map (part d)) := by
  obtain ⟨-, gives, -⟩ := h
  rw [render_eq, Tagged.parse_eq_ok.mpr ⟨_, _, rfl, rfl⟩]
  simp only [tagged, Tagged.tag_opened, Tag.ofName?_name]
  exact construct_of_gives gives

/-- How a loop names a target of a kind. Only variables have names that can be assigned to. -/
def Kind.loopName {ν : Type} (d : Dialect) : Kind ν → Result String
  | .var name => .ok name
  | .envVar name => .ok (d.phrasing.envTarget name)
  | k => .error (.loopTarget d k.tag.name)

theorem Kind.loopName_map {ν ρ : Type} (d : Dialect) (f : ν → ρ) (k : Kind ν) :
    (k.map f).loopName d = k.loopName d := by
  cases k with
  | command mode c => cases mode <;> rfl
  | logic op lhs rhs => cases op <;> rfl
  | _ => rfl

theorem Opens.tagOf?_eq {m : Json} {k : Kind Json} {p : Option Position} (h : Opens m k p) :
    Tagged.tagOf? m = some k.tag.name := by
  cases h
  rfl

theorem loopName_of_opens (d : Dialect) {m : Json} {k : Kind Json} {p : Option Position}
    (h : Opens m k p) : Render.loopName d m = k.loopName d := by
  obtain @⟨_, _, attrs, -, gives, -⟩ := h
  rw [Render.loopName, Tagged.parse_eq_ok.mpr ⟨_, _, rfl, rfl⟩, lift_ok, ok_bind,
    ← Tagged.map_id_opened]
  simp only [Tagged.tag_opened, Tag.ofName?_name]
  cases k with
  | var name =>
    obtain _ | ⟨g, -⟩ := gives
    simp only [Kind.tag, Kind.loopName, text_of_gives g, lift_ok]
  | envVar name =>
    obtain _ | ⟨g, -⟩ := gives
    simp only [Kind.tag, Kind.loopName, text_of_gives g, lift_ok, ok_bind]
    rfl
  | stream s => cases s <;> rfl
  | command mode c => cases mode <;> rfl
  | logic op lhs rhs => cases op <;> rfl
  | _ => rfl

end ShellTree
