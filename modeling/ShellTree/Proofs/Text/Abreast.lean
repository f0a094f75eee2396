import Mathlib.Data.List.Forall2
import ShellTree.Proofs.Text.Bytes
import ShellTree.Proofs.Text.Indent

/-! Texts abreast, of one length and with their line breaks in the same places. Texts that are made
of such pieces in the same way are abreast in turn, and they are one text just when their pieces
are. -/
namespace ShellTree.Text

/-- Characters that take as many bytes, and are line breaks both or neither. -/
def Level (c c' : Char) : Prop := c.utf8Size = c'.utf8Size ∧ (c = '\n' ↔ c' = '\n')

theorem forall₂_level_refl (cs : List Char) : List.Forall₂ Level cs cs :=
  List.forall₂_same.mpr fun _ _ => ⟨rfl, Iff.rfl⟩

/-- Units are put in at the same places. -/
theorem forall₂_level_indentFrom {cs cs' : List Char} (h : List.Forall₂ Level cs cs')
    (unit : List Char) (starts : Bool) :
    List.Forall₂ Level (indentFrom unit starts cs) (indentFrom unit starts cs') ∧
      (indentFrom unit starts cs = indentFrom unit starts cs' ↔ cs = cs') := by
  induction h generalizing starts with
  | nil => exact ⟨.nil, Iff.rfl⟩
  | @cons c c' cs cs' hc _ ih =>
    have next : (c == '\n') = (c' == '\n') := by
      rw [Bool.eq_iff_iff, beq_iff_eq, beq_iff_eq]
      exact hc.2
    obtain ⟨tails, tails_eq⟩ := ih (c' == '\n')
    rw [indentFrom, indentFrom, next]
    constructor
    · exact List.rel_append (forall₂_level_refl _) (.cons hc tails)
    · rw [List.append_cancel_left_eq, List.cons.injEq, List.cons.injEq, tails_eq]

/-- Two texts run abreast, character by character, and are one text just when `P` holds. -/
structure Abreast (P : Prop) (s t : String) : Prop where
  level : List.Forall₂ Level s.toList t.toList
  same : s = t ↔ P

namespace Abreast
variable {P Q : Prop} {s t s' t' : String}

theorem refl (s : String) : Abreast True s s where
  level := forall₂_level_refl _
  same := iff_of_true rfl trivial

theorem of_iff (h : Abreast P s t) (hPQ : P ↔ Q) : Abreast Q s t := ⟨h.level, h.same.trans hPQ⟩

theorem length_eq (h : Abreast P s t) : s.length = t.length := by
  rw [← String.length_toList, ← String.length_toList]
  exact h.level.length_eq

theorem utf8ByteSize_eq (h : Abreast P s t) : s.utf8ByteSize = t.utf8ByteSize := by
  rw [← length_bytes, ← length_bytes, bytes_eq_flatMap, bytes_eq_flatMap]
  have level := h.level
  generalize s.toList = cs, t.toList = cs' at level
  induction level with
  | nil => rfl
  | cons hc _ ih =>
    rw [List.flatMap_cons, List.flatMap_cons, List.length_append, List.length_append, ih,
      String.length_utf8EncodeChar, String.length_utf8EncodeChar, hc.1]

/-- The first pieces end at one place, so that what comes before is never mixed up with what comes
after. -/
theorem append (h : Abreast P s t) (h' : Abreast Q s' t') :
    Abreast (P ∧ Q) (s ++ s') (t ++ t') where
  level := by
    rw [String.toList_append, String.toList_append]
    exact List.rel_append h.level h'.level
  same := by
    rw [← h.same, ← h'.same, ← String.toList_inj, String.toList_append, String.toList_append,
      ← String.toList_inj, ← String.toList_inj]
    constructor
    · intro heq
      exact List.append_inj heq h.level.length_eq
    · rintro ⟨hs, hs'⟩
      rw [hs, hs']

/-! What is written alike before and behind two texts does not tell them apart. -/

theorem before (h : Abreast P s t) (u : String) : Abreast P (u ++ s) (u ++ t) :=
  ((refl u).append h).of_iff (iff_of_eq (true_and P))

theorem behind (h : Abreast P s t) (u : String) : Abreast P (s ++ u) (t ++ u) :=
  (h.append (refl u)).of_iff (iff_of_eq (and_true P))

theorem between (h : Abreast P s t) (u v : String) : Abreast P (u ++ s ++ v) (u ++ t ++ v) :=
  (h.before u).behind v

theorem indent (h : Abreast P s t) (unit : String) :
    Abreast P (Text.indent unit s) (Text.indent unit t) := by
  obtain ⟨level, level_eq⟩ := forall₂_level_indentFrom h.level unit.toList true
  constructor
  · simpa only [Text.indent, String.toList_ofList] using level
  · rw [Text.indent, Text.indent, String.ofList_inj, level_eq, String.toList_inj, h.same]

end Abreast

/-- Lists of texts abreast, one pair of texts for each of some things. -/
inductive AbreastAll {α : Type} (P : α → Prop) : List α → List String → List String → Prop
  | nil : AbreastAll P [] [] []
  | cons {a : α} {as : List α} {s t : String} {ss ts : List String} (h : Abreast (P a) s t)
    (rest : AbreastAll P as ss ts) : AbreastAll P (a :: as) (s :: ss) (t :: ts)

namespace AbreastAll
variable {α : Type} {P : α → Prop} {as : List α} {ss ts : List String}

theorem join (h : AbreastAll P as ss ts) :
    Abreast (∀ a ∈ as, P a) (String.join ss) (String.join ts) := by
  induction h with
  | nil => exact (Abreast.refl "").of_iff (by simp)
  | cons h _ ih =>
    rw [String.join_cons, String.join_cons]
    exact (h.append ih).of_iff (by simp)

theorem intercalate (h : AbreastAll P as ss ts) (sep : String) :
    Abreast (∀ a ∈ as, P a) (sep.intercalate ss) (sep.intercalate ts) := by
  induction h with
  | nil => exact (Abreast.refl "").of_iff (by simp)
  | cons h rest ih =>
    cases rest with
    | nil =>
      rw [String.intercalate_singleton, String.intercalate_singleton]
      exact h.of_iff (by simp)
    | cons _ _ =>
      rw [String.intercalate_cons_cons, String.intercalate_cons_cons]
      exact ((h.behind sep).append ih).of_iff (by simp)

theorem isEmpty_eq (h : AbreastAll P as ss ts) : ss.isEmpty = ts.isEmpty := by
  cases h <;> rfl

end AbreastAll
end ShellTree.Text
