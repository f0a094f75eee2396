import ShellTree.Tagged

/-! When a computation that can fail gives a result, and with what error it fails, step by step. -/
namespace ShellTree

namespace Outcome
variable {ε ε' α β : Type}

theorem ok_bind (a : α) (f : α → Except ε β) : (Except.ok a >>= f) = f a := rfl

theorem bind_eq_ok {x : Except ε α} {f : α → Except ε β} {b : β} :
    (x >>= f) = .ok b ↔ ∃ a, x = .ok a ∧ f a = .ok b := by
  cases x with
  | error e => simp [bind, Except.bind]
  | ok a => simp [bind, Except.bind]

theorem map_eq_ok {x : Except ε α} {f : α → β} {b : β} :
    (f <$> x) = .ok b ↔ ∃ a, x = .ok a ∧ f a = b := by
  cases x with
  | error e => simp [Functor.map, Except.map]
  | ok a => simp [Functor.map, Except.map]

theorem pure_eq_ok {a b : α} : (pure a : Except ε α) = .ok b ↔ a = b := by
  simp [pure, Except.pure]

theorem mapError_eq_ok {f : ε → ε'} {x : Except ε α} {a : α} :
    x.mapError f = .ok a ↔ x = .ok a := by
  cases x with
  | error e => exact ⟨nofun, nofun⟩
  | ok b =>
    constructor
    · rintro ⟨⟩
      rfl
    · rintro ⟨⟩
      rfl

theorem bind_eq_error {x : Except ε α} {f : α → Except ε β} {e : ε} :
    (x >>= f) = .error e ↔ x = .error e ∨ ∃ a, x = .ok a ∧ f a = .error e := by
  cases x with
  | error e' => simp [bind, Except.bind]
  | ok a => simp [bind, Except.bind]

theorem map_eq_error {x : Except ε α} {f : α → β} {e : ε} :
    (f <$> x) = .error e ↔ x = .error e := by
  cases x with
  | error e' => simp [Functor.map, Except.map]
  | ok a => simp [Functor.map, Except.map]

theorem pure_ne_error {a : α} {e : ε} : (pure a : Except ε α) ≠ .error e := nofun

theorem mapError_eq_error {f : ε → ε'} {x : Except ε α} {e : ε'} :
    x.mapError f = .error e ↔ ∃ e', x = .error e' ∧ f e' = e := by
  cases x with
  | error e' =>
    constructor
    · rintro ⟨⟩
      exact ⟨e', rfl, rfl⟩
    · rintro ⟨_, ⟨⟩, rfl⟩
      rfl
  | ok a =>
    constructor
    · rintro ⟨⟩
    · rintro ⟨_, ⟨⟩, -⟩

/-- The steps that follow only count for results that are there. -/
theorem bind_congr_ok {x : Except ε α} {f g : α → Except ε β} (h : ∀ a, x = .ok a → f a = g a) :
    (x >>= f) = (x >>= g) := by
  cases x with
  | error e => rfl
  | ok a => exact h a rfl

/-- The error, if there is one. -/
def fault? : Except ε α → Option ε
  | .error e => some e
  | .ok _ => none

@[simp] theorem fault?_ok (a : α) : fault? (.ok a : Except ε α) = none := rfl

@[simp] theorem fault?_pure (a : α) : fault? (pure a : Except ε α) = none := rfl

@[simp] theorem fault?_error (e : ε) : fault? (.error e : Except ε α) = some e := rfl

theorem fault?_eq_some {x : Except ε α} {e : ε} : fault? x = some e ↔ x = .error e := by
  cases x <;> simp

/-- Steps that follow and have one error, whatever they are given, only come second. -/
theorem fault?_bind {x : Except ε α} {f : α → Except ε β} {o : Option ε}
    (h : ∀ a, fault? (f a) = o) : fault? (x >>= f) = (fault? x).or o := by
  cases x with
  | error e => rfl
  | ok a =>
    rw [fault?_ok, Option.none_or]
    exact h a

@[simp] theorem fault?_map {x : Except ε α} {f : α → β} : fault? (f <$> x) = fault? x := by
  cases x <;> rfl

/-- Two outcomes that agree: one error, or results of which `R` holds. -/
inductive Agree (R : α → β → Prop) : Except ε α → Except ε β → Prop
  | error (e : ε) : Agree R (.error e) (.error e)
  | ok {a : α} {b : β} (h : R a b) : Agree R (.ok a) (.ok b)

namespace Agree
variable {γ δ : Type} {R R' : α → β → Prop} {S : γ → δ → Prop} {x : Except ε α} {y : Except ε β}

theorem imp (h : Agree R x y) (hR : ∀ a b, R a b → R' a b) : Agree R' x y := by
  cases h with
  | error e => exact .error e
  | ok h => exact .ok (hR _ _ h)

/-- Steps that agree on what they may be given agree one after the other. -/
theorem bind (h : Agree R x y) {f : α → Except ε γ} {g : β → Except ε δ}
    (hf : ∀ a b, R a b → Agree S (f a) (g b)) : Agree S (x >>= f) (y >>= g) := by
  cases h with
  | error e => exact .error e
  | ok h => exact hf _ _ h

end Agree

end Outcome

theorem findSome?_cons_or {α β : Type} (f : α → Option β) (a : α) (as : List α) :
    (a :: as).findSome? f = (f a).or (as.findSome? f) := by
  rw [List.findSome?_cons]
  cases f a <;> rfl

theorem findSome?_flatMap {α β γ : Type} (f : β → Option γ) (g : α → List β) (as : List α) :
    (as.flatMap g).findSome? f = as.findSome? fun a => (g a).findSome? f := by
  induction as with
  | nil => rfl
  | cons a as ih => rw [List.flatMap_cons, List.findSome?_append, ih, findSome?_cons_or]

namespace Tagged
open Outcome
variable {ε α : Type}

@[simp] theorem collect_nil : collect ([] : List (Except ε α)) = pure [] := rfl

@[simp] theorem collect_cons (x : Except ε α) (xs : List (Except ε α)) :
    collect (x :: xs) = (do let a ← x; let rest ← collect xs; pure (a :: rest)) := rfl

/-- A list is collected when every result in it is there. -/
theorem collect_eq_ok {xs : List (Except ε α)} {as : List α} :
    collect xs = .ok as ↔ xs = as.map .ok := by
  induction xs generalizing as with
  | nil => cases as <;> simp [pure_eq_ok]
  | cons x xs ih =>
    simp only [collect_cons, bind_eq_ok, pure_eq_ok, ih]
    constructor
    · rintro ⟨a, rfl, rest, rfl, rfl⟩
      rfl
    · intro h
      cases as with
      | nil => simp at h
      | cons a rest =>
        obtain ⟨rfl, rfl⟩ := List.cons.inj h
        exact ⟨a, rfl, rest, rfl, rfl⟩

theorem exists_collect_map {β : Type} {f : β → Except ε α} {bs : List β} :
    (∃ as, collect (bs.map f) = .ok as) ↔ ∀ b ∈ bs, ∃ a, f b = .ok a := by
  induction bs with
  | nil => simp [pure_eq_ok]
  | cons b bs ih =>
    rw [List.forall_mem_cons, ← ih]
    simp only [List.map_cons, collect_cons, bind_eq_ok, pure_eq_ok]
    constructor
    · rintro ⟨_, a, ha, as, has, -⟩
      exact ⟨⟨a, ha⟩, as, has⟩
    · rintro ⟨⟨a, ha⟩, as, has⟩
      exact ⟨_, a, ha, as, has, rfl⟩

/-- Results cannot be collected when one is not there, and the first of these counts. -/
theorem collect_map_eq_error {β : Type} {f : β → Except ε α} {bs : List β} {e : ε} :
    collect (bs.map f) = .error e ↔ ∃ before b after, bs = before ++ b :: after ∧
      (∀ c ∈ before, ∃ a, f c = .ok a) ∧ f b = .error e := by
  induction bs with
  | nil => simp [pure_ne_error]
  | cons b bs ih =>
    simp only [List.map_cons, collect_cons, bind_eq_error, pure_ne_error, and_false, exists_false,
      or_false, ih]
    constructor
    · rintro (h | ⟨a, ha, before, c, after, rfl, good, h⟩)
      · exact ⟨[], b, bs, rfl, by simp, h⟩
      · exact ⟨b :: before, c, after, rfl, List.forall_mem_cons.mpr ⟨⟨a, ha⟩, good⟩, h⟩
    · rintro ⟨before, c, after, heq, good, h⟩
      cases before with
      | nil =>
        obtain ⟨rfl, rfl⟩ := List.cons.inj heq
        exact .inl h
      | cons d before =>
        obtain ⟨rfl, rfl⟩ := List.cons.inj heq
        obtain ⟨⟨a, ha⟩, good⟩ := List.forall_mem_cons.mp good
        exact .inr ⟨a, ha, before, c, after, rfl, good, h⟩

/-- A list has the first error in it. -/
theorem fault?_collect (xs : List (Except ε α)) : fault? (collect xs) = xs.findSome? fault? := by
  induction xs with
  | nil => rfl
  | cons x xs ih =>
    have hr : ∀ a, fault? (do let rest ← collect xs; pure (a :: rest) : Except ε (List α)) =
        xs.findSome? fault? := by
      intro a
      rw [bind_pure_comp, fault?_map, ih]
    rw [collect_cons, fault?_bind hr, findSome?_cons_or]

end Tagged
end ShellTree
