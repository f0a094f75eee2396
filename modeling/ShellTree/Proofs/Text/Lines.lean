import ShellTree.Proofs.Text.Indent

/-! The lines of a text. Whole lines that follow each other keep their lines apart. -/
namespace ShellTree.Text

/-- The lines of a text, each with the line break that ends it. -/
def lines : List Char → List (List Char)
  | [] => []
  | c :: s =>
    if c = '\n' then [c] :: lines s
    else
      match lines s with
      | [] => [[c]]
      | line :: rest => (c :: line) :: rest

theorem lines_break (s : List Char) : lines ('\n' :: s) = ['\n'] :: lines s := rfl

theorem lines_cons {c : Char} (hc : c ≠ '\n') {s line : List Char} {rest : List (List Char)}
    (h : lines s = line :: rest) : lines (c :: s) = (c :: line) :: rest := by
  rw [lines, if_neg hc, h]

theorem lines_eq_nil {s : List Char} : lines s = [] ↔ s = [] := by
  cases s with
  | nil => simp [lines]
  | cons c s =>
    rw [lines]
    split
    · simp
    · split <;> simp

/-- Nothing is lost between the lines. -/
theorem flatten_lines (s : List Char) : (lines s).flatten = s := by
  induction s with
  | nil => rfl
  | cons c s ih =>
    by_cases hc : c = '\n'
    · subst hc
      rw [lines_break, List.flatten_cons, ih]
      rfl
    · cases hl : lines s with
      | nil =>
        obtain rfl := lines_eq_nil.mp hl
        simp [lines]
      | cons line rest =>
        rw [lines_cons hc hl, List.flatten_cons, List.cons_append, ← List.flatten_cons, ← hl, ih]

/-- A line that has begun ends where the text has a line break. -/
theorem startsAfter_true_of_false {s : List Char} (h : startsAfter false s = true) :
    s ≠ [] ∧ startsAfter true s = true := by
  cases s with
  | nil => cases h
  | cons c s => exact ⟨List.cons_ne_nil c s, h⟩

theorem lines_append {s : List Char} (h : startsAfter true s = true) (t : List Char) :
    lines (s ++ t) = lines s ++ lines t := by
  induction s with
  | nil => rfl
  | cons c s ih =>
    by_cases hc : c = '\n'
    · subst hc
      rw [List.cons_append, lines_break, lines_break, ih h]
      rfl
    · have hs : startsAfter false s = true := by
        rw [← h, startsAfter, startsAfter, List.foldl_cons, beq_false_of_ne hc]
      obtain ⟨hne, hs⟩ := startsAfter_true_of_false hs
      obtain ⟨line, rest, hl⟩ := List.exists_cons_of_ne_nil (mt lines_eq_nil.mp hne)
      have hst : lines (s ++ t) = line :: (rest ++ lines t) := by
        rw [ih hs, hl]
        rfl
      rw [List.cons_append, lines_cons hc hst, lines_cons hc hl]
      rfl

/-- A text with its only line break at the end is one line. -/
theorem lines_line {s : List Char} (h : '\n' ∉ s) : lines (s ++ ['\n']) = [s ++ ['\n']] := by
  induction s with
  | nil => rfl
  | cons c s ih =>
    have hc : c ≠ '\n' := fun hc => h (hc ▸ .head _)
    exact lines_cons hc (ih fun hs => h (.tail _ hs))

/-- What stands in front of a text comes into its first line. -/
theorem lines_append_left {v : List Char} (hv : '\n' ∉ v) {s line : List Char}
    {rest : List (List Char)} (h : lines s = line :: rest) :
    lines (v ++ s) = (v ++ line) :: rest := by
  induction v with
  | nil => exact h
  | cons c v ih =>
    have hc : c ≠ '\n' := fun hc => hv (hc ▸ .head _)
    exact lines_cons hc (ih fun hv' => hv (.tail _ hv'))

section
variable {unit : List Char}

/-- All lines but the one that has begun get the unit. -/
theorem lines_cons_indentFrom {c : Char} {s line : List Char} {rest : List (List Char)}
    (hu : '\n' ∉ unit) (h : lines (c :: s) = line :: rest) :
    lines (c :: indentFrom unit (c == '\n') s) = line :: rest.map (unit ++ ·) := by
  induction s generalizing c line rest with
  | nil =>
    have single : lines [c] = [[c]] := by simp [lines]
    obtain ⟨rfl, rfl⟩ := List.cons.inj (single.symm.trans h)
    exact single
  | cons x s ih =>
    obtain ⟨first, others, hl⟩ := List.exists_cons_of_ne_nil
      (mt lines_eq_nil.mp (List.cons_ne_nil x s))
    have below := ih hl
    by_cases hc : c = '\n'
    · subst hc
      rw [lines_break, hl, List.cons.injEq] at h
      obtain ⟨rfl, rfl⟩ := h
      rw [lines_break, beq_self_eq_true, indentFrom, if_pos rfl, lines_append_left hu below]
      rfl
    · rw [lines_cons hc hl, List.cons.injEq] at h
      obtain ⟨rfl, rfl⟩ := h
      rw [beq_false_of_ne hc, indentFrom]
      exact lines_cons hc below

/-- Moving a text to the right puts the unit before each of its lines. -/
theorem lines_indentFrom (hu : '\n' ∉ unit) (s : List Char) :
    lines (indentFrom unit true s) = (lines s).map (unit ++ ·) := by
  cases s with
  | nil => rfl
  | cons c s =>
    obtain ⟨line, rest, hl⟩ := List.exists_cons_of_ne_nil
      (mt lines_eq_nil.mp (List.cons_ne_nil c s))
    rw [indentFrom, if_pos rfl, lines_append_left hu (lines_cons_indentFrom hu hl), hl]
    rfl

end

theorem lines_indent {unit : String} (hu : '\n' ∉ unit.toList) (s : String) :
    lines (indent unit s).toList = (lines s.toList).map (unit.toList ++ ·) := by
  rw [indent, String.toList_ofList, lines_indentFrom hu]

/-- Whether a line does not begin with `#` after the spaces in front. -/
def isCode (line : List Char) : Bool := (line.dropWhile (· == ' ')).head? != some '#'

/-- The lines of a text that a shell does not pass over as commentary. -/
def codeLines (s : String) : List String := ((lines s.toList).filter isCode).map String.ofList

theorem codeLines_append {s : String} (h : IsLines s) (t : String) :
    codeLines (s ++ t) = codeLines s ++ codeLines t := by
  rw [codeLines, String.toList_append, lines_append h, List.filter_append, List.map_append]
  rfl

/-- Commentary of one line has no code, however far it is moved to the right. -/
theorem codeLines_comment {margin value : List Char} (hm : ∀ c ∈ margin, c = ' ')
    (hv : '\n' ∉ value) :
    codeLines (String.ofList (margin ++ '#' :: value ++ ['\n'])) = [] := by
  have hn : '\n' ∉ margin ++ '#' :: value := by
    simp only [List.mem_append, List.mem_cons]
    rintro (h | h | h)
    · cases hm _ h
    · cases h
    · exact hv h
  have comment : isCode (margin ++ '#' :: value ++ ['\n']) = false := by
    have hd : (margin ++ '#' :: value ++ ['\n']).dropWhile (· == ' ') =
        '#' :: value ++ ['\n'] := by
      rw [List.append_assoc, List.dropWhile_append_of_pos fun c hc => beq_iff_eq.mpr (hm c hc)]
      rfl
    rw [isCode, hd]
    rfl
  rw [codeLines, String.toList_ofList, lines_line hn, List.filter_cons, comment]
  rfl

end ShellTree.Text
