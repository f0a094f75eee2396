import Mathlib.Logic.Function.Iterate
import ShellTree.Text.Lines

/-! Laws of hanging texts, of which all lines but the first are moved to the right. Only line breaks
grow, so that texts are hung piece by piece, and what is hung can be read back. -/
namespace ShellTree.Text

theorem indentBreaks_append (margin s t : List Char) :
    indentBreaks margin (s ++ t) = indentBreaks margin s ++ indentBreaks margin t :=
  List.flatMap_append

/-- Within a line nothing is put in. -/
theorem indentBreaks_line {s : List Char} (h : '\n' ∉ s) (margin : List Char) :
    indentBreaks margin s = s := by
  induction s with
  | nil => rfl
  | cons c s ih =>
    have hc : c ≠ '\n' := (List.ne_of_not_mem_cons h).symm
    rw [indentBreaks, List.flatMap_cons, if_neg hc, List.singleton_append]
    exact congrArg (c :: ·) (ih (List.not_mem_of_not_mem_cons h))

/-- A rewriting of texts that lets line breaks grow and leaves all else as it is. -/
structure Hanging (g : String → String) : Prop where
  append : ∀ s t, g (s ++ t) = g s ++ g t
  line : ∀ s, '\n' ∉ s.toList → g s = s

theorem hanging_hang (unit : String) : Hanging (hang unit) where
  append s t := by
    rw [hang, String.toList_append, indentBreaks_append, String.ofList_append]
    rfl
  line s h := by rw [hang, indentBreaks_line h, String.ofList_toList]

theorem hang_break (unit : String) : hang unit "\n" = "\n" ++ unit := by
  simp [hang, indentBreaks]

namespace Hanging
variable {g : String → String}

theorem iterate (h : Hanging g) (k : Nat) : Hanging g^[k] where
  append s t := by
    induction k generalizing s t with
    | zero => rfl
    | succ k ih => rw [Function.iterate_succ_apply, h.append, ih]; rfl
  line s hs := Function.iterate_fixed (h.line s hs) k

theorem intercalate (h : Hanging g) (sep : String) (texts : List String) :
    g (sep.intercalate texts) = (g sep).intercalate (texts.map g) := by
  induction texts with
  | nil => exact h.line "" (by simp)
  | cons t texts ih =>
    cases texts with
    | nil => simp
    | cons t' texts =>
      rw [String.intercalate_cons_cons, h.append, h.append, ih]
      simp only [List.map_cons, String.intercalate_cons_cons]

end Hanging

/-- A line break that is hung over and over. -/
def hangBreak (unit : String) (depth : Nat) : String := (hang unit)^[depth] "\n"

theorem hangBreak_succ (unit : String) (depth : Nat) :
    hangBreak unit (depth + 1) = hangBreak unit depth ++ (hang unit)^[depth] unit := by
  rw [hangBreak, Function.iterate_succ_apply, hang_break,
    ((hanging_hang unit).iterate depth).append]
  rfl

theorem exists_hangBreak (unit : String) (depth : Nat) :
    ∃ margin, hangBreak unit depth = "\n" ++ margin := by
  induction depth with
  | zero => exact ⟨"", by simp [hangBreak]⟩
  | succ depth ih =>
    obtain ⟨margin, ih⟩ := ih
    rw [hangBreak_succ, ih, String.append_assoc]
    exact ⟨_, rfl⟩

/-- A unit without line breaks comes behind the line break as often as that is hung. -/
theorem hangBreak_eq {unit : String} (hu : '\n' ∉ unit.toList) (depth : Nat) :
    hangBreak unit depth = "\n" ++ String.join (List.replicate depth unit) := by
  induction depth with
  | zero => rfl
  | succ depth ih =>
    rw [hangBreak_succ, ih, ((hanging_hang unit).iterate depth).line unit hu,
      List.replicate_succ', String.join_append, String.append_assoc]
    simp

end ShellTree.Text
