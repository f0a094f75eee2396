import Mathlib.Data.List.Forall2
import ShellTree.Proofs.Text.Indent

/-! Texts that can be found in a longer one, in order and apart from one another. -/
namespace ShellTree.Text

/-- All of some texts stand in a text unchanged, each after the end of the one before. -/
inductive InOrder : List String → String → Prop
  | nil (s : String) : InOrder [] s
  | cons (s x : String) {xs : List String} {t : String} (h : InOrder xs t) :
    InOrder (x :: xs) (s ++ x ++ t)

namespace InOrder
variable {x s t : String} {xs ys : List String}

theorem append_left (h : InOrder xs t) (s : String) : InOrder xs (s ++ t) := by
  cases h with
  | nil => exact .nil _
  | cons r x h =>
    rw [← String.append_assoc, ← String.append_assoc]
    exact .cons _ x h

theorem append (hs : InOrder xs s) (ht : InOrder ys t) : InOrder (xs ++ ys) (s ++ t) := by
  induction hs with
  | nil r => exact ht.append_left r
  | cons r x _ ih =>
    rw [String.append_assoc]
    exact .cons r x ih

theorem append_right (h : InOrder xs s) (t : String) : InOrder xs (s ++ t) := by
  simpa using h.append (.nil t)

theorem self (x : String) : InOrder [x] x := by
  simpa using InOrder.cons "" x (.nil "")

/-- What is found in texts that are found in a text is found there too. -/
theorem trans {xss : List (List String)} (hy : InOrder ys t) (hx : List.Forall₂ InOrder xss ys) :
    InOrder xss.flatten t := by
  induction hy generalizing xss with
  | nil s =>
    cases hx
    exact .nil s
  | cons s x _ ih =>
    obtain _ | ⟨h, hx⟩ := hx
    rw [List.flatten_cons]
    exact (h.append_left s).append (ih hx)

theorem join (ts : List String) : InOrder ts (String.join ts) := by
  induction ts with
  | nil => exact .nil _
  | cons t ts ih =>
    rw [String.join_cons]
    exact (self t).append ih

theorem intercalate (sep : String) (ts : List String) : InOrder ts (sep.intercalate ts) := by
  induction ts with
  | nil => exact .nil _
  | cons t ts ih =>
    cases ts with
    | nil => exact self t
    | cons t' ts =>
      rw [String.intercalate_cons_cons, String.append_assoc]
      exact (self t).append (ih.append_left sep)

/-- Texts within their lines stay whole when a text is moved to the right. -/
theorem indent (unit : String) (h : InOrder xs t) (hx : ∀ x ∈ xs, '\n' ∉ x.toList) :
    InOrder xs (Text.indent unit t) := by
  suffices hi : ∀ starts, InOrder xs (String.ofList (indentFrom unit.toList starts t.toList)) from
    hi true
  induction h with
  | nil => exact fun _ => .nil _
  | @cons s x xs t h ih =>
    obtain ⟨line, hx⟩ := List.forall_mem_cons.mp hx
    intro starts
    have whole : ∀ starts, ∃ margin, indentFrom unit.toList starts x.toList = margin ++ x.toList := by
      intro starts
      cases hl : x.toList with
      | nil => exact ⟨[], rfl⟩
      | cons c cs =>
        rw [hl] at line
        have hc : (c == '\n') = false := beq_false_of_ne (List.ne_of_not_mem_cons line).symm
        rw [indentFrom, hc, indentFrom_false (List.not_mem_of_not_mem_cons line)]
        exact ⟨_, rfl⟩
    obtain ⟨margin, hm⟩ := whole (startsAfter starts s.toList)
    rw [String.toList_append, String.toList_append, indentFrom_append, indentFrom_append, hm,
      String.ofList_append, String.ofList_append, String.ofList_append, String.ofList_toList,
      ← String.append_assoc]
    exact .cons _ x (ih hx _)

end InOrder
end ShellTree.Text
