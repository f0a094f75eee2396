import Mathlib.Data.List.Basic
import ShellTree.Text.Lines

/-! Laws of indentation. Texts of whole lines are indented piece by piece, and a text that is
indented twice is indented by both units at once. -/
namespace ShellTree.Text

/-- Whether a line starts at the end of a text, given whether one starts at its beginning. -/
def startsAfter (starts : Bool) (s : List Char) : Bool := s.foldl (fun _ c => c == '\n') starts

theorem startsAfter_append (starts : Bool) (s t : List Char) :
    startsAfter starts (s ++ t) = startsAfter (startsAfter starts s) t := List.foldl_append

theorem startsAfter_false {s : List Char} (h : '\n' ∉ s) : startsAfter false s = false := by
  induction s with
  | nil => rfl
  | cons c s ih =>
    have hc : (c == '\n') = false := beq_false_of_ne fun hc => h (hc ▸ .head _)
    rw [startsAfter, List.foldl_cons, hc]
    exact ih fun hs => h (.tail _ hs)

/-- A text of whole lines: it is empty or ends with a line break. -/
def IsLines (s : String) : Prop := startsAfter true s.toList = true

theorem isLines_empty : IsLines "" := rfl

theorem IsLines.append {s t : String} (hs : IsLines s) (ht : IsLines t) : IsLines (s ++ t) := by
  rw [IsLines, String.toList_append, startsAfter_append, hs]
  exact ht

/-- A text that ends with a line break. -/
def EndsLine (s : String) : Prop := ∀ starts, startsAfter starts s.toList = true

theorem EndsLine.isLines {s : String} (h : EndsLine s) : IsLines s := h true

theorem EndsLine.append_left {t : String} (h : EndsLine t) (s : String) : EndsLine (s ++ t) := by
  intro starts
  rw [String.toList_append, startsAfter_append]
  exact h _

theorem EndsLine.append {s t : String} (hs : EndsLine s) (ht : IsLines t) : EndsLine (s ++ t) := by
  intro starts
  rw [String.toList_append, startsAfter_append, hs]
  exact ht

theorem endsLine_iff {s : String} : EndsLine s ↔ ∃ r, s = r ++ "\n" := by
  constructor
  · intro h
    have hs : startsAfter false s.toList = true := h false
    rcases List.eq_nil_or_concat s.toList with hl | ⟨r, c, hl⟩
    · rw [hl] at hs
      cases hs
    · rw [hl, List.concat_eq_append, startsAfter_append] at hs
      obtain rfl : c = '\n' := beq_iff_eq.mp hs
      refine ⟨String.ofList r, ?_⟩
      rw [← String.toList_inj, hl]
      simp
  · rintro ⟨r, rfl⟩
    exact .append_left (fun _ => rfl) r

theorem isLines_iff {s : String} : IsLines s ↔ s = "" ∨ EndsLine s := by
  constructor
  · intro h
    cases hs : s.toList with
    | nil => exact .inl (String.toList_eq_nil_iff.mp hs)
    | cons c r =>
      right
      intro starts
      rw [IsLines, hs] at h
      rw [hs]
      exact h
  · rintro (rfl | h)
    · exact isLines_empty
    · exact h.isLines

theorem isLines_join {texts : List String} (h : ∀ t ∈ texts, IsLines t) :
    IsLines (String.join texts) := by
  induction texts with
  | nil => exact isLines_empty
  | cons t texts ih =>
    rw [String.join_cons]
    exact (h t (by simp)).append (ih fun t' ht' => h t' (by simp [ht']))

theorem mem_join_replicate {c : Char} {k : Nat} {s : String}
    (h : c ∈ (String.join (List.replicate k s)).toList) : c ∈ s.toList := by
  rw [String.toList_join, List.mem_flatMap] at h
  obtain ⟨t, ht, hc⟩ := h
  rwa [List.eq_of_mem_replicate ht] at hc

/-- What is before the first of some character, and what is after it, can be read back. -/
theorem append_cons_injective {α : Type} {c : α} {a a' s s' : List α} (ha : c ∉ a) (ha' : c ∉ a')
    (h : a ++ c :: s = a' ++ c :: s') : a = a' ∧ s = s' := by
  induction a generalizing a' with
  | nil =>
    cases a' with
    | nil => exact ⟨rfl, (List.cons.inj h).2⟩
    | cons x a' => exact absurd (List.cons.inj h).1 (List.ne_of_not_mem_cons ha')
  | cons x a ih =>
    cases a' with
    | nil => exact absurd (List.cons.inj h).1.symm (List.ne_of_not_mem_cons ha)
    | cons x' a' =>
      obtain ⟨rfl, ht⟩ := List.cons.inj h
      obtain ⟨rfl, rfl⟩ :=
        ih (List.not_mem_of_not_mem_cons ha) (List.not_mem_of_not_mem_cons ha') ht
      exact ⟨rfl, rfl⟩

section
variable {unit : List Char}

theorem indentFrom_append (starts : Bool) (s t : List Char) : indentFrom unit starts (s ++ t) =
    indentFrom unit starts s ++ indentFrom unit (startsAfter starts s) t := by
  induction s generalizing starts with
  | nil => rfl
  | cons c s ih => simp [indentFrom, ih, startsAfter]

/-- Within a line nothing is put in. -/
theorem indentFrom_false {s : List Char} (h : '\n' ∉ s) : indentFrom unit false s = s := by
  induction s with
  | nil => rfl
  | cons c s ih =>
    have hc : (c == '\n') = false := beq_false_of_ne fun hc => h (hc ▸ .head _)
    simp [indentFrom, hc, ih fun hs => h (.tail _ hs)]

theorem indentFrom_nil (starts : Bool) (s : List Char) : indentFrom [] starts s = s := by
  induction s generalizing starts with
  | nil => rfl
  | cons c s ih => simp [indentFrom, ih]

/-- What stands before a line in that line gets its unit together with it. -/
theorem indentFrom_line {v : List Char} (hv : '\n' ∉ v) (c : Char) (s : List Char) :
    indentFrom unit true (v ++ c :: s) = unit ++ v ++ c :: indentFrom unit (c == '\n') s := by
  cases v with
  | nil => simp [indentFrom]
  | cons x v =>
    have hx : (x == '\n') = false := beq_false_of_ne fun hx => hv (hx ▸ .head _)
    have hv : '\n' ∉ v := fun h => hv (.tail _ h)
    simp [indentFrom, hx, indentFrom_append, indentFrom_false hv, startsAfter_false hv]

theorem indentFrom_indentFrom {v : List Char} (hv : '\n' ∉ v) (starts : Bool) (s : List Char) :
    indentFrom unit starts (indentFrom v starts s) = indentFrom (unit ++ v) starts s := by
  induction s generalizing starts with
  | nil => rfl
  | cons c s ih =>
    cases starts with
    | false => simp [indentFrom, ih]
    | true => simp [indentFrom, indentFrom_line hv, ih]

/-- What has no line break makes no lines. -/
theorem count_indentFrom (hu : '\n' ∉ unit) (starts : Bool) (s : List Char) :
    (indentFrom unit starts s).count '\n' = s.count '\n' := by
  induction s generalizing starts with
  | nil => rfl
  | cons c s ih =>
    have none : (if starts then unit else []).count '\n' = 0 := by
      apply List.count_eq_zero_of_not_mem
      split
      · exact hu
      · exact List.not_mem_nil
    rw [indentFrom, List.count_append, none, Nat.zero_add, List.count_cons, List.count_cons, ih]

/-- Whole lines and where they end can be read back when they are indented, if what follows is not. -/
theorem indentFrom_append_injective {c : Char} {starts : Bool} {s s' r r' : List Char}
    (hs : startsAfter starts s = true) (hs' : startsAfter starts s' = true)
    (hr : r.head? ≠ some c) (hr' : r'.head? ≠ some c)
    (h : indentFrom (c :: unit) starts s ++ r = indentFrom (c :: unit) starts s' ++ r') :
    s = s' ∧ r = r' := by
  induction s generalizing starts s' with
  | nil =>
    obtain rfl : starts = true := hs
    cases s' with
    | nil => exact ⟨rfl, h⟩
    | cons x s' =>
      obtain rfl : r = _ := h
      simp [indentFrom] at hr
  | cons x s ih =>
    cases s' with
    | nil =>
      obtain rfl : starts = true := hs'
      obtain rfl : _ = r' := h
      simp [indentFrom] at hr'
    | cons x' s' =>
      simp only [indentFrom, List.append_assoc, List.append_cancel_left_eq, List.cons_append,
        List.cons.injEq] at h
      obtain ⟨rfl, h⟩ := h
      obtain ⟨rfl, rfl⟩ := ih hs hs' h
      exact ⟨rfl, rfl⟩

theorem startsAfter_indentFrom (starts : Bool) (s : List Char) :
    startsAfter starts (indentFrom unit starts s) = startsAfter starts s := by
  induction s generalizing starts with
  | nil => rfl
  | cons c s ih =>
    rw [indentFrom, startsAfter_append]
    exact ih _

end

theorem indent_append {s : String} (hs : IsLines s) (unit t : String) :
    indent unit (s ++ t) = indent unit s ++ indent unit t := by
  rw [← String.toList_inj]
  simp [indent, indentFrom_append, show startsAfter true s.toList = true from hs]

theorem indent_indent (unit : String) {v : String} (hv : '\n' ∉ v.toList) (s : String) :
    indent unit (indent v s) = indent (unit ++ v) s := by
  rw [← String.toList_inj]
  simp [indent, indentFrom_indentFrom hv]

theorem count_indent {unit : String} (hu : '\n' ∉ unit.toList) (s : String) :
    (indent unit s).toList.count '\n' = s.toList.count '\n' := by
  rw [indent, String.toList_ofList, count_indentFrom hu]

theorem indent_empty_unit (s : String) : indent "" s = s := by
  rw [← String.toList_inj]
  simp [indent, indentFrom_nil]

theorem EndsLine.indent {s : String} (hs : EndsLine s) (unit : String) :
    EndsLine (indent unit s) := by
  obtain ⟨r, rfl⟩ := endsLine_iff.mp hs
  rw [Text.indent, String.toList_append, indentFrom_append, String.ofList_append]
  rw [show "\n".toList = ['\n'] from rfl, indentFrom, indentFrom, String.ofList_append]
  exact .append_left (.append_left (fun _ => rfl) _) _

theorem IsLines.indent {s : String} (hs : IsLines s) (unit : String) :
    IsLines (indent unit s) := by
  rw [IsLines, Text.indent, String.toList_ofList, startsAfter_indentFrom]
  exact hs

end ShellTree.Text
