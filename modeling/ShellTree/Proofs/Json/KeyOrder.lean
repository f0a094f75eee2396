import Mathlib.Data.List.Perm.Subperm
import Mathlib.Data.Option.Basic
import ShellTree.Proofs.Codec.RoundTrip
import ShellTree.Proofs.Json.Induction

/-! Values that are equal up to the order of their keys. Where no key is repeated, such objects have
the same keys, and equal values under each of them. -/
namespace ShellTree

theorem cases_of_rel {α β : Type} {R : α → β → Prop} {o : Option α} {o' : Option β}
    (h : Option.Rel R o o') :
    o = none ∧ o' = none ∨ ∃ a b, o = some a ∧ o' = some b ∧ R a b := by
  cases h with
  | none => exact .inl ⟨rfl, rfl⟩
  | some h => exact .inr ⟨_, _, rfl, rfl, h⟩

theorem lookup_eq_none {α : Type} {fields : List (String × α)} {name : String} :
    fields.lookup name = none ↔ name ∉ fields.map (·.1) := by
  simp only [List.lookup_eq_none_iff, bne_iff_ne, List.mem_map, not_exists, not_and]
  exact ⟨fun h p hp hn => h p hp hn.symm, fun h p hp hn => h p hp hn.symm⟩

theorem Number.natural?_of_sameValue {n n' : Number} (h : n.sameValue n' = true) :
    n.natural? = n'.natural? := by
  cases n with
  | int a ha =>
    cases n' with
    | int b hb =>
      obtain rfl : a = b := by simpa [sameValue] using h
      rfl
    | double y => simp [sameValue] at h
  | double x =>
    cases n' with
    | int b hb => simp [sameValue] at h
    | double y => rfl

namespace Json

/-- No object inside has a key twice. -/
def DistinctKeys (m : Json) : Prop :=
  ∀ fields, Inside (.obj fields) m → (fields.map (·.1)).Nodup

theorem DistinctKeys.inside {c m : Json} (hd : m.DistinctKeys) (h : c.Inside m) :
    c.DistinctKeys :=
  fun fields hi => hd fields (hi.trans h)

theorem distinctKeys_obj {fields : List (String × Json)} : (obj fields).DistinctKeys ↔
    (fields.map (·.1)).Nodup ∧ ∀ field ∈ fields, field.2.DistinctKeys := by
  constructor
  · intro h
    exact ⟨h fields .here, fun field hf => h.inside (.field hf .here)⟩
  · rintro ⟨hd, h⟩ inner hi
    rcases inside_obj.mp hi with heq | ⟨field, hf, hi⟩
    · cases heq
      exact hd
    · exact h field hf inner hi

theorem distinctKeys_arr {items : List Json} :
    (arr items).DistinctKeys ↔ ∀ m ∈ items, m.DistinctKeys := by
  constructor
  · intro h m hm
    exact h.inside (.item hm .here)
  · intro h inner hi
    rcases inside_arr.mp hi with heq | ⟨m, hm, hi⟩
    · cases heq
    · exact h m hm inner hi

theorem distinctKeys_of_kind {m : Json} (h : m.kind ≠ .list ∧ m.kind ≠ .object) :
    m.DistinctKeys := by
  intro fields hi
  cases hi <;> simp [kind] at h

theorem equivItems_iff {as bs : List Json} :
    equivItems as bs = true ↔ List.Forall₂ (fun a b => a.equiv b = true) as bs := by
  induction as generalizing bs with
  | nil => cases bs <;> simp [equivItems]
  | cons a as ih => cases bs <;> simp [equivItems, ih]

theorem equivFields_iff {as bs : List (String × Json)} : equivFields as bs = true ↔
    ∀ name a, (name, a) ∈ as → ∃ b, bs.lookup name = some b ∧ a.equiv b = true := by
  induction as with
  | nil => simp [equivFields]
  | cons field as ih =>
    obtain ⟨name, a⟩ := field
    simp only [equivFields, Bool.and_eq_true, ih, List.mem_cons, Prod.mk.injEq]
    constructor
    · rintro ⟨h, hs⟩ name' a' (⟨rfl, rfl⟩ | hm)
      · cases hb : bs.lookup name' with
        | none => simp [hb] at h
        | some b => exact ⟨b, rfl, by simpa [hb] using h⟩
      · exact hs name' a' hm
    · intro h
      obtain ⟨b, hb, hab⟩ := h name a (.inl ⟨rfl, rfl⟩)
      exact ⟨by simpa [hb] using hab, fun name' a' hm => h name' a' (.inr hm)⟩

/-- A value without repeated keys, and the same up to the order of keys. -/
structure Reordered (m m' : Json) : Prop where
  distinct : m.DistinctKeys
  equiv : m.equiv m' = true

/-- The ways in which a value can be reordered: only objects have an order of keys, but a number may
be written as another that is equal. -/
inductive Reordering : Json → Json → Prop
  | null : Reordering .null .null
  | bool (b : Bool) : Reordering (.bool b) (.bool b)
  | num {n n' : Number} (h : n.sameValue n' = true) : Reordering (.num n) (.num n')
  | str (s : String) : Reordering (.str s) (.str s)
  | arr {items items' : List Json} (h : List.Forall₂ Reordered items items') :
    Reordering (.arr items) (.arr items')
  | obj {fields fields' : List (String × Json)}
    (names : (fields.map (·.1)).Perm (fields'.map (·.1)))
    (values : ∀ name, Option.Rel Reordered (fields.lookup name) (fields'.lookup name)) :
    Reordering (.obj fields) (.obj fields')

/-- Each key of the first object is one of the other, which has no more keys than that. -/
theorem names_perm {fields fields' : List (String × Json)} (hd : (fields.map (·.1)).Nodup)
    (length : fields.length = fields'.length)
    (h : ∀ name v, (name, v) ∈ fields → ∃ w, fields'.lookup name = some w ∧ v.equiv w = true) :
    (fields.map (·.1)).Perm (fields'.map (·.1)) := by
  apply List.Subperm.perm_of_length_le
  · apply hd.subperm
    intro name hn
    obtain ⟨⟨_, v⟩, hv, rfl⟩ := List.mem_map.mp hn
    obtain ⟨w, hw, -⟩ := h _ v hv
    exact List.mem_map.mpr ⟨_, mem_of_lookup hw, rfl⟩
  · simp [length]

theorem Reordered.reordering {m m' : Json} (h : m.Reordered m') : Reordering m m' := by
  obtain ⟨distinct, h⟩ := h
  cases m <;> cases m'
  case null.null => exact .null
  case bool.bool =>
    obtain rfl := beq_iff_eq.mp h
    exact .bool _
  case num.num => exact .num h
  case str.str =>
    obtain rfl := beq_iff_eq.mp h
    exact .str _
  case arr.arr items items' =>
    apply Reordering.arr
    apply forall₂_imp_mem (equivItems_iff.mp h)
    intro a ha _ _ hab
    exact ⟨distinct.inside (.item ha .here), hab⟩
  case obj.obj fields fields' =>
    obtain ⟨length, found⟩ := Bool.and_eq_true_iff.mp h
    rw [equivFields_iff] at found
    have hd := distinct fields .here
    have names := names_perm hd (beq_iff_eq.mp length) found
    refine .obj names fun name => ?_
    cases hv : fields.lookup name with
    | some v =>
      obtain ⟨w, hw, hvw⟩ := found name v (mem_of_lookup hv)
      rw [hw]
      exact .some ⟨distinct.inside (.field (mem_of_lookup hv) .here), hvw⟩
    | none =>
      rw [lookup_eq_none.mpr]
      · exact .none
      · rwa [← names.mem_iff, ← lookup_eq_none]
  all_goals simp [Json.equiv] at h

end Json
end ShellTree
