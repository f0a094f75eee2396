import ShellTree.Node.Build
import ShellTree.Node.Outline
import ShellTree.Proofs.Node.Induction
import ShellTree.Proofs.Text.Hang
import ShellTree.Proofs.Text.Quoted

/-! Outlines by depth. A printer that walks a tree once and starts each line with the margin of its
depth writes what an outline makes by hanging finished texts over and over. -/
namespace ShellTree.Node
open Text

section
variable (lineBreak : Nat → String)

/-- Members between brackets, one a line. The closing bracket stands at a depth, and the members one
level further in. -/
def enclosed (depth : Nat) (opening closing : String) (members : List String) : String :=
  opening ++ lineBreak (depth + 1) ++ ("," ++ lineBreak (depth + 1)).intercalate members ++
    lineBreak depth ++ closing

/-- The text of an attribute at a depth, given printers of its nodes. -/
def layoutValue (depth : Nat) : AttrValue (Nat → String) → String
  | .node print => print depth
  | .nodes [] => "[]"
  | .nodes prints => enclosed lineBreak depth "[" "]" (prints.map (· (depth + 1)))
  | .text s => Text.quoted s
  | .flag b => if b then "true" else "false"
  | .scope s => Text.quoted s.name

def layoutKind (k : Kind (Nat → String)) (depth : Nat) : String :=
  match k.attributes with
  | [] => k.tag.name ++ "()"
  | attrs =>
    enclosed lineBreak depth (k.tag.name ++ "(") ")"
      (attrs.map fun (name, v) => name ++ "=" ++ layoutValue lineBreak (depth + 1) v)

/-- Prints a tree at a depth, given the line breaks with the margins that follow them. -/
def layout : Node → Nat → String := Node.fold fun k _ => layoutKind lineBreak k

theorem layout_mk (k : Kind Node) (p : Option Position) (depth : Nat) :
    layout lineBreak ⟨k, p⟩ depth = match k.attributes with
      | [] => k.tag.name ++ "()"
      | attrs => enclosed lineBreak depth (k.tag.name ++ "(") ")" (attrs.map fun (name, v) =>
          name ++ "=" ++ layoutValue lineBreak (depth + 1) (v.map (layout lineBreak))) := by
  have h : layout lineBreak ⟨k, p⟩ = layoutKind lineBreak (k.map (layout lineBreak)) :=
    fold_mk _ k p
  rw [h, layoutKind, Kind.attributes_map, Kind.tag_map]
  cases k.attributes with
  | nil => rfl
  | cons a as =>
    simp only [List.map_cons, List.map_map]
    rfl

end

/-- A line break with the margin of a depth behind it. -/
def lineBreak (unit : String) (depth : Nat) : String :=
  "\n" ++ String.join (List.replicate depth unit)

theorem name_marks (t : Tag) : '\n' ∉ t.name.toList ∧ '(' ∉ t.name.toList := by
  cases t <;> decide

theorem attribute_marks {k : Kind Node} {a : String × AttrValue Node} (ha : a ∈ k.attributes) :
    '\n' ∉ a.1.toList ∧ '=' ∉ a.1.toList := by
  have declared : ∀ t : Tag, ∀ name ∈ t.attributes, '\n' ∉ name.toList ∧ '=' ∉ name.toList := by
    intro t
    cases t <;> decide
  apply declared k.tag
  rw [← k.attributes_names]
  exact List.mem_map_of_mem ha

/-- A block is hung line by line: its members one level further in than its brackets. -/
theorem iterate_hang_block (unit : String) (depth : Nat) {opening closing : String}
    (ho : '\n' ∉ opening.toList) (hc : '\n' ∉ closing.toList) (members : List String) :
    (hang unit)^[depth] (block unit opening closing members) =
      enclosed (hangBreak unit) depth opening closing
        (members.map (hang unit)^[depth + 1]) := by
  have hg : Hanging (hang unit)^[depth] := (hanging_hang unit).iterate depth
  have comma : (hang unit)^[depth] "," = "," := hg.line "," (by decide)
  have start : opening ++ "\n" ++ unit = opening ++ hang unit "\n" := by
    rw [hang_break, String.append_assoc]
  have sep : ",\n" ++ unit = "," ++ hang unit "\n" := by
    rw [hang_break, ← String.append_assoc]
    rfl
  rw [block, start, sep]
  simp only [hg.append, hg.intercalate, hg.line _ ho, hg.line _ hc, comma, List.map_map]
  rfl

section
variable {unit : String}

theorem iterate_hang_value {v : AttrValue Node}
    (ih : ∀ n ∈ v.nodeList, ∀ depth, (hang unit)^[depth] (n.outline unit) =
      n.layout (hangBreak unit) depth) (depth : Nat) :
    (hang unit)^[depth] (outlineValue unit (v.map (outline unit))) =
      layoutValue (hangBreak unit) depth (v.map (layout (hangBreak unit))) := by
  have hg : Hanging (hang unit)^[depth] := (hanging_hang unit).iterate depth
  cases v with
  | node n => exact ih n (by simp [AttrValue.nodeList]) depth
  | nodes ns =>
    cases ns with
    | nil => exact hg.line "[]" (by decide)
    | cons n ns =>
      have members : ((n :: ns).map (outline unit)).map (hang unit)^[depth + 1] =
          ((n :: ns).map (layout (hangBreak unit))).map (· (depth + 1)) := by
        rw [List.map_map, List.map_map]
        exact List.map_congr_left fun m hm => ih m hm (depth + 1)
      refine (iterate_hang_block unit depth (by decide) (by decide) _).trans ?_
      rw [members]
      rfl
  | text s => exact hg.line _ (break_not_mem_quoted s)
  | flag b =>
    cases b with
    | false => exact hg.line "false" (by decide)
    | true => exact hg.line "true" (by decide)
  | scope s => exact hg.line _ (break_not_mem_quoted s.name)

theorem iterate_hang_attribute {k : Kind Node} {a : String × AttrValue Node}
    (ha : a ∈ k.attributes) (ih : ∀ n ∈ k.nodeList, ∀ depth,
      (hang unit)^[depth] (n.outline unit) = n.layout (hangBreak unit) depth) (depth : Nat) :
    (hang unit)^[depth] (a.1 ++ "=" ++ outlineValue unit (a.2.map (outline unit))) =
      a.1 ++ "=" ++ layoutValue (hangBreak unit) depth (a.2.map (layout (hangBreak unit))) := by
  have hg : Hanging (hang unit)^[depth] := (hanging_hang unit).iterate depth
  have value := iterate_hang_value (fun n hn => ih n (Kind.mem_nodeList ha hn)) depth
  rw [hg.append, hg.append, hg.line _ (attribute_marks ha).1, hg.line "=" (by decide), value]

/-- Hanging the outline of a tree over and over writes the tree at that depth. -/
theorem iterate_hang_outline (n : Node) (depth : Nat) :
    (hang unit)^[depth] (n.outline unit) = n.layout (hangBreak unit) depth := by
  -- A finished text is hung once by every level around it, so the depth has to be free: what is
  -- hung `depth` times here holds texts that are hung `depth + 1` times.
  induction n using Node.induction generalizing depth with
  | step k p ih =>
    have name : '\n' ∉ k.tag.name.toList := (name_marks k.tag).1
    have members : (k.attributes.map fun a => a.1 ++ "=" ++
          outlineValue unit (a.2.map (outline unit))).map (hang unit)^[depth + 1] =
        k.attributes.map fun a => a.1 ++ "=" ++
          layoutValue (hangBreak unit) (depth + 1) (a.2.map (layout (hangBreak unit))) := by
      rw [List.map_map]
      exact List.map_congr_left fun a ha => iterate_hang_attribute ha ih (depth + 1)
    rw [outline_mk, layout_mk, outlineKind, Kind.attributes_map, Kind.tag_map]
    cases ha : k.attributes with
    | nil =>
      apply ((hanging_hang unit).iterate depth).line
      simpa using name
    | cons a as =>
      rw [ha] at members
      refine (iterate_hang_block unit depth (by simpa using name) (by decide) _).trans ?_
      simp only [List.map_map] at members ⊢
      exact congrArg (enclosed _ depth _ ")") members

end

/-- An outline is written in one pass, line by line, each with the margin of its depth. Nothing is
put into a quoted text, whatever line breaks the text has. -/
theorem outline_eq_layout {unit : String} (hu : '\n' ∉ unit.toList) (n : Node) :
    n.outline unit = n.layout (lineBreak unit) 0 ∧
      ∀ s, hang unit (quoted s) = quoted s := by
  have breaks : hangBreak unit = lineBreak unit := funext (hangBreak_eq hu)
  constructor
  · rw [← breaks]
    exact iterate_hang_outline n 0
  · exact fun s => (hanging_hang unit).line _ (break_not_mem_quoted s)

/-- A script with a function in it, so that there are lists and nodes below lists and nodes. -/
def greeting : Node := script [comment "a\nb", function "f" [statement (var "x")]]

theorem outline_greeting :
    '\n' ∉ "-".toList ∧ greeting.outline "-" = greeting.layout (lineBreak "-") 0 ∧
      greeting.outline "-" = "Script(\n-body=[\n--Comment(\n---value=\"a\\nb\"\n--),\n" ++
        "--Function(\n---name=\"f\",\n---body=[\n----Statement(\n-----node=Var(\n" ++
        "------name=\"x\"\n-----)\n----)\n---]\n--)\n-]\n)" := by
  have hu : '\n' ∉ "-".toList := by decide
  obtain ⟨h, -⟩ := outline_eq_layout hu greeting
  refine ⟨hu, h, ?_⟩
  rw [h]
  decide +kernel

end ShellTree.Node
