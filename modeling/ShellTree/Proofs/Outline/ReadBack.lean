import ShellTree.Proofs.Node.Same
import ShellTree.Proofs.Outline.Layout

/-! Outlines read back. Every part of an outline shows where it ends, whatever comes behind it, so
that an outline tells the tree that it was written from, all but its positions. -/
namespace ShellTree.Node
open Text

section Parts
variable {α γ : Type} {f : α → String} {F : α → γ}

/-- When the texts of two things begin alike, with anything behind them, the things show the same
and their texts end at the same place. -/
def Legible (f : α → String) (F : α → γ) (a b : α) : Prop :=
  ∀ r s : List Char, (f a).toList ++ r = (f b).toList ++ s → F a = F b ∧ r = s

/-- Texts with separators between them can be read back one by one, if no separator comes behind. -/
theorem intercalate_append_injective {sep : String} {a b : α} {as bs : List α} {r s : List Char}
    (each : ∀ x ∈ a :: as, ∀ y ∈ b :: bs, Legible f F x y)
    (hr : r.head? ≠ some ',') (hs : s.head? ≠ some ',')
    (h : (("," ++ sep).intercalate ((a :: as).map f)).toList ++ r =
      (("," ++ sep).intercalate ((b :: bs).map f)).toList ++ s) :
    (a :: as).map F = (b :: bs).map F ∧ r = s := by
  induction as generalizing a b bs with
  | nil =>
    cases bs with
    | nil =>
      obtain ⟨head, rest⟩ := each a (by simp) b (by simp) r s (by simpa using h)
      exact ⟨by simp [head], rest⟩
    | cons b' bs =>
      simp only [List.map_cons, List.map_nil, String.intercalate_singleton,
        String.intercalate_cons_cons, String.toList_append, List.append_assoc] at h
      obtain ⟨-, rfl⟩ := each a (by simp) b (by simp) _ _ h
      exact absurd rfl hr
  | cons a' as ih =>
    cases bs with
    | nil =>
      simp only [List.map_cons, List.map_nil, String.intercalate_singleton,
        String.intercalate_cons_cons, String.toList_append, List.append_assoc] at h
      obtain ⟨-, rfl⟩ := each a (by simp) b (by simp) _ _ h
      exact absurd rfl hs
    | cons b' bs =>
      simp only [List.map_cons, String.intercalate_cons_cons, String.toList_append,
        List.append_assoc] at h
      obtain ⟨head, rest⟩ := each a (by simp) b (by simp) _ _ h
      simp only [List.append_cancel_left_eq] at rest
      obtain ⟨tail, rfl⟩ := ih (fun x hx y hy => each x (.tail _ hx) y (.tail _ hy)) rest
      exact ⟨congrArg₂ List.cons head tail, rfl⟩

end Parts

theorem layout_opening (lineBreak : Nat → String) (k : Kind Node) (p : Option Position)
    (depth : Nat) :
    ∃ members, (layout lineBreak ⟨k, p⟩ depth).toList = k.tag.name.toList ++ '(' :: members := by
  rw [layout_mk]
  cases k.attributes with
  | nil => exact ⟨[')'], String.toList_append⟩
  | cons a as =>
    simp only [enclosed, String.toList_append, List.append_assoc]
    exact ⟨_, rfl⟩

section
variable {lineBreak : Nat → String} (breaks : ∀ depth, ∃ margin, lineBreak depth = "\n" ++ margin)
include breaks

theorem enclosed_append_injective {α γ : Type} {f : α → String} {F : α → γ} {a b : α}
    {as bs : List α} (each : ∀ x ∈ a :: as, ∀ y ∈ b :: bs, Legible f F x y) {depth : Nat}
    {opening closing : String} {r s : List Char}
    (h : (enclosed lineBreak depth opening closing ((a :: as).map f)).toList ++ r =
      (enclosed lineBreak depth opening closing ((b :: bs).map f)).toList ++ s) :
    (a :: as).map F = (b :: bs).map F ∧ r = s := by
  obtain ⟨margin, hm⟩ := breaks depth
  simp only [enclosed, String.toList_append, List.append_assoc, List.append_cancel_left_eq] at h
  have noComma : ∀ t : List Char, ((lineBreak depth).toList ++ t).head? ≠ some ',' := by
    intro t
    rw [hm]
    simp
  obtain ⟨members, rest⟩ := intercalate_append_injective each (noComma _) (noComma _) h
  exact ⟨members, by simpa using rest⟩

/-- An attribute can be read back by one who knows its form. -/
theorem value_legible {form : Form} {name : String} {a b : String × AttrValue Node}
    (ha : form.Declares name a) (hb : form.Declares name b)
    (ih : ∀ n ∈ a.2.nodeList, ∀ depth m, Legible (layout lineBreak · depth) erase n m)
    (depth : Nat) :
    Legible (fun v => layoutValue lineBreak depth (v.map (layout lineBreak)))
      (AttrValue.map erase) a.2 b.2 := by
  intro r s h
  cases ha with
  | node n =>
    cases hb with
    | node m =>
      obtain ⟨hn, rest⟩ := ih n (by simp [AttrValue.nodeList]) depth m r s h
      exact ⟨congrArg AttrValue.node hn, rest⟩
  | stream _ n =>
    cases hb with
    | stream _ m =>
      obtain ⟨hn, rest⟩ := ih n (by simp [AttrValue.nodeList]) depth m r s h
      exact ⟨congrArg AttrValue.node hn, rest⟩
  | nodes ns =>
    cases hb with
    | nodes ms =>
      obtain ⟨margin, hm⟩ := breaks (depth + 1)
      cases ns with
      | nil =>
        cases ms with
        | nil => exact ⟨rfl, List.append_cancel_left h⟩
        | cons m ms => simp [AttrValue.map, layoutValue, enclosed, hm] at h
      | cons n ns =>
        cases ms with
        | nil => simp [AttrValue.map, layoutValue, enclosed, hm] at h
        | cons m ms =>
          simp only [AttrValue.map, List.map_cons, layoutValue, List.map_map] at h
          obtain ⟨hn, rest⟩ := enclosed_append_injective breaks
            (fun x hx y _ => ih x hx (depth + 1) y) h
          exact ⟨congrArg AttrValue.nodes hn, rest⟩
  | text t =>
    cases hb with
    | text t' =>
      obtain ⟨rfl, rest⟩ := quoted_append_injective h
      exact ⟨rfl, rest⟩
  | flag b =>
    cases hb with
    | flag b' =>
      cases b <;> cases b' <;> simp [AttrValue.map, layoutValue] at h ⊢ <;> exact h
  | scope c =>
    cases hb with
    | scope c' =>
      obtain ⟨hc, rest⟩ := quoted_append_injective h
      have same : some c = some c' := by
        rw [← Scope.ofName?_name c, hc, Scope.ofName?_name]
      exact ⟨congrArg AttrValue.scope (Option.some.inj same), rest⟩

theorem attribute_legible {k k' : Kind Node} (ht : k.tag = k'.tag) {a b : String × AttrValue Node}
    (ha : a ∈ k.attributes) (hb : b ∈ k'.attributes)
    (ih : ∀ n ∈ k.nodeList, ∀ depth m, Legible (layout lineBreak · depth) erase n m)
    (depth : Nat) :
    Legible (fun a => a.1 ++ "=" ++ layoutValue lineBreak depth (a.2.map (layout lineBreak)))
      (fun a => (a.1, a.2.map erase)) a b := by
  intro r s h
  simp only [String.toList_append, List.append_assoc] at h
  obtain ⟨hn, h⟩ := append_cons_injective (attribute_marks ha).2 (attribute_marks hb).2 h
  have name : a.1 = b.1 := String.toList_inj.mp hn
  obtain ⟨form, hfa, hfb⟩ := Kind.exists_declares ht ha hb name
  obtain ⟨value, rest⟩ :=
    value_legible breaks hfa hfb (fun n hn => ih n (Kind.mem_nodeList ha hn)) depth r s h
  exact ⟨Prod.ext name value, rest⟩

/-- The tree at the beginning of a text can be read back, positions aside, and where it ends. -/
theorem layout_legible (n : Node) (depth : Nat) (m : Node) :
    Legible (layout lineBreak · depth) erase n m := by
  induction n using Node.induction generalizing depth m with
  | step k p ih =>
    obtain ⟨k', p'⟩ := m
    intro r s h
    -- The names are read first. They tell what attributes there are, in what order and in what form,
    -- so that the rest is read attribute by attribute.
    obtain ⟨members, hk⟩ := layout_opening lineBreak k p depth
    obtain ⟨members', hk'⟩ := layout_opening lineBreak k' p' depth
    have ht : k.tag = k'.tag := by
      simp only [hk, hk', List.append_assoc] at h
      obtain ⟨name, -⟩ := append_cons_injective (name_marks _).2 (name_marks _).2 h
      exact Tag.name_injective (String.toList_inj.mp name)
    suffices same : (k.attributes.map fun a => (a.1, a.2.map erase)) =
        (k'.attributes.map fun a => (a.1, a.2.map erase)) ∧ r = s by
      have kinds : k.map erase = k'.map erase := by
        apply Kind.ext_attributes
        · simpa using ht
        · simpa using same.1
      exact ⟨by rw [erase_mk, erase_mk, kinds], same.2⟩
    have names : k.attributes.map (·.1) = k'.attributes.map (·.1) := by
      rw [k.attributes_names, k'.attributes_names, ht]
    have each := fun a (ha : a ∈ k.attributes) b (hb : b ∈ k'.attributes) =>
      attribute_legible breaks ht ha hb ih (depth + 1)
    simp only [layout_mk, ht] at h
    cases ha : k.attributes with
    | nil =>
      cases hb : k'.attributes with
      | nil =>
        rw [ha, hb] at h
        exact ⟨rfl, List.append_cancel_left h⟩
      | cons b bs => simp [ha, hb] at names
    | cons a as =>
      cases hb : k'.attributes with
      | nil => simp [ha, hb] at names
      | cons b bs =>
        rw [ha, hb] at h each
        exact enclosed_append_injective breaks each h

end

/-- Two trees have one outline just when they are the same, whatever the unit is and whatever their
texts hold. -/
theorem outline_eq_outline_iff (unit : String) (n m : Node) :
    n.outline unit = m.outline unit ↔ n.same m = true := by
  rw [same_iff_erase]
  constructor
  · intro h
    -- The unit may itself hold line breaks, so the margins are those that hanging makes of it.
    have same : n.layout (hangBreak unit) 0 = m.layout (hangBreak unit) 0 := by
      rw [← iterate_hang_outline, ← iterate_hang_outline, h]
    have legible := layout_legible (exists_hangBreak unit) n 0 m
    exact (legible [] [] (congrArg (·.toList ++ []) same)).1
  · intro h
    have same := congrArg (outline unit) h
    rwa [outline, fold_erase, fold_erase] at same

end ShellTree.Node
