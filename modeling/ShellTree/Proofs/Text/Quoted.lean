import ShellTree.Proofs.Text.Indent
import ShellTree.Text.Quoted

/-! Quoted texts. A quoted text is one line, and it can be read back together with where it ends,
whatever comes after it. -/
namespace ShellTree.Text

section Digits

theorem digitChar_injective : ∀ a < 16, ∀ b < 16, Nat.digitChar a = Nat.digitChar b → a = b := by
  decide

theorem exists_digitChar {n : Nat} {c : Char} (h : c ∈ Nat.toDigits 16 n) :
    ∃ a < 16, c = Nat.digitChar a := by
  induction n using Nat.strongRecOn with
  | ind n ih =>
    rw [Nat.toDigits_eq_if (by decide)] at h
    split at h
    · next hn => exact ⟨n, hn, List.mem_singleton.mp h⟩
    · next hn =>
      rcases List.mem_append.mp h with h | h
      · exact ih (n / 16) (by omega) h
      · exact ⟨n % 16, Nat.mod_lt n (by decide), List.mem_singleton.mp h⟩

/-- Hexadecimal digits are no marks that stand around them. -/
theorem not_mem_toDigits {c : Char} (hc : ∀ a < 16, c ≠ Nat.digitChar a) (n : Nat) :
    c ∉ Nat.toDigits 16 n := by
  intro h
  obtain ⟨a, ha, h⟩ := exists_digitChar h
  exact hc a ha h

theorem toDigits_injective : Function.Injective (Nat.toDigits 16) := by
  intro n
  induction n using Nat.strongRecOn with
  | ind n ih =>
    intro m h
    rw [Nat.toDigits_eq_if (n := n) (by decide), Nat.toDigits_eq_if (n := m) (by decide)] at h
    split at h <;> split at h
    · next hn hm => exact digitChar_injective n hn m hm (List.singleton_inj.mp h)
    · have hl := congrArg List.length h
      simp [Nat.toDigits_ne_nil] at hl
    · have hl := congrArg List.length h
      simp [Nat.toDigits_ne_nil] at hl
    · obtain ⟨high, low⟩ := List.append_inj' h rfl
      have hq : n / 16 = m / 16 := ih (n / 16) (by omega) high
      have hr : n % 16 = m % 16 := digitChar_injective _ (Nat.mod_lt _ (by decide)) _
        (Nat.mod_lt _ (by decide)) (List.singleton_inj.mp low)
      omega

end Digits

/-- The characters that are spelt by a letter of their own. -/
def shortSpellings : List (Char × Char) :=
  [('"', '"'), ('\\', '\\'), ('\n', 'n'), ('\r', 'r'), ('\t', 't'), ('\x00', '0')]

/-- A character stands for itself, or a backslash comes first and then its letter or its code. -/
theorem spell_cases (c : Char) :
    (spell c = [c] ∧ c ≠ '"' ∧ c ≠ '\\' ∧ c ≠ '\n') ∨
      (∃ letter, (c, letter) ∈ shortSpellings ∧ spell c = ['\\', letter]) ∨
        spell c = '\\' :: 'u' :: '\x7b' :: (Nat.toDigits 16 c.toNat ++ ['\x7d']) := by
  by_cases short : ∃ letter, (c, letter) ∈ shortSpellings
  · obtain ⟨letter, hl⟩ := short
    refine .inr (.inl ⟨letter, hl, ?_⟩)
    simp only [shortSpellings, List.mem_cons, Prod.mk.injEq, List.not_mem_nil, or_false] at hl
    rcases hl with ⟨rfl, rfl⟩ | ⟨rfl, rfl⟩ | ⟨rfl, rfl⟩ | ⟨rfl, rfl⟩ | ⟨rfl, rfl⟩ | ⟨rfl, rfl⟩ <;>
      rfl
  · have other : ∀ p ∈ shortSpellings, c ≠ p.1 := fun p hp hc => short ⟨p.2, hc ▸ hp⟩
    simp only [shortSpellings, List.forall_mem_cons] at other
    obtain ⟨quote, backslash, break_, return_, tab, zero, -⟩ := other
    have hz : c.toNat ≠ 0 := fun h => zero (Char.toNat_inj.mp h)
    rw [spell, if_neg quote, if_neg backslash, if_neg break_, if_neg return_, if_neg tab, if_neg hz]
    split
    · exact .inl ⟨rfl, quote, backslash, break_⟩
    · exact .inr (.inr rfl)

theorem shortSpellings_injective : ∀ p ∈ shortSpellings, ∀ q ∈ shortSpellings,
    p.2 = q.2 → p.1 = q.1 := by
  decide

theorem shortSpellings_ne : ∀ p ∈ shortSpellings, p.2 ≠ 'u' ∧ p.2 ≠ '\n' := by
  decide

/-- The first character of a text, and where its spelling ends, can be read back. -/
theorem spell_append_injective {c c' : Char} {r r' : List Char}
    (h : spell c ++ r = spell c' ++ r') : c = c' ∧ r = r' := by
  obtain ⟨hs, -, hc, -⟩ | ⟨l, hl, hs⟩ | hs := spell_cases c <;>
    obtain ⟨hs', -, hc', -⟩ | ⟨l', hl', hs'⟩ | hs' := spell_cases c' <;>
    rw [hs, hs'] at h <;>
    simp only [List.cons_append, List.nil_append, List.cons.injEq, List.append_assoc, true_and] at h
  · exact h
  · exact absurd h.1 hc
  · exact absurd h.1 hc
  · exact absurd h.1.symm hc'
  · exact ⟨shortSpellings_injective _ hl _ hl' h.1, h.2⟩
  · exact absurd h.1 (shortSpellings_ne _ hl).1
  · exact absurd h.1.symm hc'
  · exact absurd h.1.symm (shortSpellings_ne _ hl').1
  · have brace : ∀ n, '\x7d' ∉ Nat.toDigits 16 n := not_mem_toDigits (by decide)
    obtain ⟨hn, hr⟩ := append_cons_injective (brace _) (brace _) h
    exact ⟨Char.toNat_inj.mp (toDigits_injective hn), hr⟩

theorem spell_append_ne (c : Char) (r s : List Char) : spell c ++ r ≠ '"' :: s := by
  intro h
  obtain ⟨hs, hc, -⟩ | ⟨l, -, hs⟩ | hs := spell_cases c <;> rw [hs] at h
  · exact hc (List.cons.inj h).1
  · exact absurd (List.cons.inj h).1 (by decide)
  · exact absurd (List.cons.inj h).1 (by decide)

theorem flatMap_spell_append_injective {s t r r' : List Char}
    (h : s.flatMap spell ++ '"' :: r = t.flatMap spell ++ '"' :: r') : s = t ∧ r = r' := by
  induction s generalizing t with
  | nil =>
    cases t with
    | nil => exact ⟨rfl, (List.cons.inj h).2⟩
    | cons c t =>
      rw [List.flatMap_cons, List.append_assoc] at h
      exact absurd h.symm (spell_append_ne c _ _)
  | cons c s ih =>
    rw [List.flatMap_cons, List.append_assoc] at h
    cases t with
    | nil => exact absurd h (spell_append_ne c _ _)
    | cons c' t =>
      rw [List.flatMap_cons, List.append_assoc] at h
      obtain ⟨rfl, hrest⟩ := spell_append_injective h
      obtain ⟨rfl, rfl⟩ := ih hrest
      exact ⟨rfl, rfl⟩

/-- A quoted text ends at the first quote in it that is not spelt. -/
theorem quoted_append_injective {s t : String} {r r' : List Char}
    (h : (quoted s).toList ++ r = (quoted t).toList ++ r') : s = t ∧ r = r' := by
  simp only [quoted, String.toList_ofList, List.cons_append, List.append_assoc, List.nil_append,
    List.cons.injEq, true_and] at h
  obtain ⟨hs, rfl⟩ := flatMap_spell_append_injective h
  exact ⟨String.toList_inj.mp hs, rfl⟩

theorem break_not_mem_spell (c : Char) : '\n' ∉ spell c := by
  obtain ⟨hs, -, -, hc⟩ | ⟨l, hl, hs⟩ | hs := spell_cases c <;> rw [hs]
  · simpa using hc.symm
  · simpa using (shortSpellings_ne _ hl).2.symm
  · simpa using not_mem_toDigits (by decide) c.toNat

/-- Whatever line breaks a text has, there is none when it is quoted. -/
theorem break_not_mem_quoted (s : String) : '\n' ∉ (quoted s).toList := by
  simp only [quoted, String.toList_ofList, List.cons_append, List.mem_cons, List.mem_append,
    List.mem_flatMap, List.not_mem_nil, or_false, not_or, not_exists, not_and]
  exact ⟨by decide, fun c _ => break_not_mem_spell c, by decide⟩

end ShellTree.Text
