import Mathlib.Logic.Function.Iterate
import ShellTree.Proofs.Text.Lines

/-! Indentation undone. Moving a text to the right puts the unit before each of its lines and does
nothing else, so that the text comes back when the unit is taken away from each line. -/
namespace ShellTree.Text

/-- Takes one `unit` away from the front of every line, if all of them have it there. -/
def outdent (unit text : String) : Option String := do
  let rests ← (lines text.toList).mapM fun line => line.dropPrefix? unit.toList
  return String.ofList rests.flatten

section
variable {unit : String}

theorem outdent_indent (hu : '\n' ∉ unit.toList) (s : String) :
    outdent unit (indent unit s) = some s := by
  have taken (line : List Char) : (unit.toList ++ line).dropPrefix? unit.toList = some line :=
    List.dropPrefix?_append_of_beq line (beq_self_eq_true _)
  have rests : ((lines s.toList).map (unit.toList ++ ·)).mapM
      (fun line => line.dropPrefix? unit.toList) = some (lines s.toList) := by
    rw [List.mapM_map, Function.comp_def, funext taken]
    exact List.mapM_pure.trans (congrArg some (List.map_id' _))
  rw [outdent, lines_indent hu, rests]
  exact congrArg some (by rw [flatten_lines, String.ofList_toList])

/-- A text that is moved to the right over and over starts its lines with as many units. -/
theorem iterate_indent (hu : '\n' ∉ unit.toList) (k : Nat) (s : String) :
    (indent unit)^[k] s = indent (String.join (List.replicate k unit)) s := by
  induction k with
  | zero => exact (indent_empty_unit s).symm
  | succ k ih =>
    have margin : '\n' ∉ (String.join (List.replicate k unit)).toList := mt mem_join_replicate hu
    rw [Function.iterate_succ_apply', ih, indent_indent unit margin, List.replicate_succ,
      String.join_cons]

end

/-- Indentation goes line by line, blank lines and a last line without its break included, and it can
be undone. The line breaks stay as many as they were, a text of whole lines is moved apart from what
follows it, and moving a text over and over adds the units up. -/
theorem indent_linewise {unit : String} (hu : '\n' ∉ unit.toList) :
    (∀ s, (indent unit s).toList.count '\n' = s.toList.count '\n') ∧
      (∀ s, outdent unit (indent unit s) = some s) ∧
      (∀ s, lines (indent unit s).toList = (lines s.toList).map (unit.toList ++ ·)) ∧
      (∀ s t, (s = "" ∨ ∃ r, s = r ++ "\n") →
        indent unit (s ++ t) = indent unit s ++ indent unit t) ∧
      ∀ k s, (indent unit)^[k] s = indent (String.join (List.replicate k unit)) s := by
  refine ⟨count_indent hu, outdent_indent hu, lines_indent hu, ?_, iterate_indent hu⟩
  intro s t hs
  have whole : IsLines s := isLines_iff.mpr (hs.imp_right endsLine_iff.mpr)
  exact indent_append whole unit t

/-- The second line is blank, and the third one is not ended. -/
theorem indent_linewise_blank :
    let t := "  a\n  \n   b"
    ('\n' ∉ "  ".toList ∧ indent "  " "a\n\n b" = t ∧ "a\n\n" = "a\n" ++ "\n") ∧
      t.toList.count '\n' = 2 ∧ outdent "  " t = some "a\n\n b" ∧
      lines t.toList = ["  a\n".toList, "  \n".toList, "   b".toList] ∧
      t = indent "  " "a\n\n" ++ indent "  " " b" ∧
      (indent "  ")^[3] "a\n\n b" = indent "      " "a\n\n b" := by
  intro t
  have noBreak : '\n' ∉ "  ".toList := by decide
  have text : indent "  " "a\n\n b" = t := by rfl
  have blank : "a\n\n" = "a\n" ++ "\n" := by rfl
  obtain ⟨breaks, undone, apart, pieces, repeated⟩ := indent_linewise noBreak
  refine ⟨⟨noBreak, text, blank⟩, ?_, ?_, ?_, ?_, ?_⟩
  · rw [← text, breaks]
    rfl
  · rw [← text, undone]
  · rw [← text, apart]
    rfl
  · rw [← pieces _ _ (.inr ⟨_, blank⟩)]
    rfl
  · rw [repeated]
    rfl

end ShellTree.Text
