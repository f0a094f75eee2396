import ShellTree.Dialect
import ShellTree.Proofs.Text.Indent

/-! The first lines of statements. Each can be told from the others, from what follows it, and from
the line of an empty block. -/
namespace ShellTree

namespace Text

/-- A text that stands as one word in a line. -/
def IsWord (s : String) : Prop := ' ' ∉ s.toList ∧ '\n' ∉ s.toList

/-- Names of letters, digits and underscores are words. -/
theorem isWord_of_alphanum {s : String} (h : ∀ c ∈ s.toList, c.isAlphanum ∨ c = '_') :
    IsWord s := by
  constructor
  · intro hc
    exact absurd (h _ hc) (by decide)
  · intro hc
    exact absurd (h _ hc) (by decide)

/-- A single line with its line break. -/
def IsLine (s : String) : Prop := ∃ line, '\n' ∉ line ∧ s.toList = line ++ ['\n']

theorem IsLine.append_left {s t : String} (hs : '\n' ∉ s.toList) (ht : IsLine t) :
    IsLine (s ++ t) := by
  obtain ⟨line, hl, ht⟩ := ht
  refine ⟨s.toList ++ line, ?_, ?_⟩
  · simp [hs, hl]
  · rw [String.toList_append, ht, List.append_assoc]

end Text

open Text

/-- What the first line of a statement says. -/
inductive Header where
  | comment (value : String)
  | ifElse (x : String)
  | forIn (x y : String)
  | function (f : String)
  deriving DecidableEq, Repr

namespace Header

def text (d : Dialect) : Header → String
  | .comment value => "# " ++ value ++ "\n"
  | .ifElse x => d.phrasing.ifHeader (d.phrasing.var x)
  | .forIn x y => d.phrasing.forHeader x (d.phrasing.var y)
  | .function f => d.phrasing.functionHeader f

def IsPlain : Header → Prop
  | .comment value => '\n' ∉ value.toList
  | .ifElse x => IsWord x
  | .forIn x y => IsWord x ∧ IsWord y
  | .function f => IsWord f

/-- The two characters that a header starts with. -/
def lead (d : Dialect) : Header → List Char
  | .comment _ => ['#', ' ']
  | .ifElse _ => ['i', 'f']
  | .forIn _ _ => ['f', 'o']
  | .function _ => if d = .xonsh then ['d', 'e'] else ['f', 'u']

variable {d : Dialect} {h h' : Header}

theorem exists_lead (h : Header) (d : Dialect) : ∃ s, (h.text d).toList = h.lead d ++ s := by
  cases h <;> cases d <;>
    simp [text, lead, Dialect.phrasing, Phrasing.bash, Phrasing.xonsh, Phrasing.fish]

theorem lead_eq (heq : h.text d = h'.text d) : h.lead d = h'.lead d := by
  obtain ⟨s, hs⟩ := exists_lead h d
  obtain ⟨s', hs'⟩ := exists_lead h' d
  have two : ∀ h : Header, (h.lead d).length = 2 := by
    intro h
    cases h <;> cases d <;> rfl
  rw [← String.toList_inj, hs, hs'] at heq
  exact (List.append_inj heq ((two h).trans (two h').symm)).1

theorem text_ifElse_injective {x x' : String}
    (heq : (ifElse x).text d = (ifElse x').text d) : x = x' := by
  cases d <;> simpa [text, Dialect.phrasing, Phrasing.bash, Phrasing.xonsh, Phrasing.fish] using heq

theorem text_function_injective {f f' : String}
    (heq : (function f).text d = (function f').text d) : f = f' := by
  cases d <;> simpa [text, Dialect.phrasing, Phrasing.bash, Phrasing.xonsh, Phrasing.fish] using heq

/-- The target of a loop ends at the first blank after it. -/
theorem text_forIn_injective {x y x' y' : String} (hx : IsWord x) (hx' : IsWord x')
    (heq : (forIn x y).text d = (forIn x' y').text d) : x = x' ∧ y = y' := by
  have cut : ∀ s s', x.toList ++ ' ' :: s = x'.toList ++ ' ' :: s' → x = x' ∧ s = s' := by
    intro s s' h
    simpa only [String.toList_inj] using append_cons_injective hx.1 hx'.1 h
  rw [← String.toList_inj] at heq
  cases d <;>
  · simp [text, Dialect.phrasing, Phrasing.bash, Phrasing.xonsh, Phrasing.fish] at heq
    simpa [String.toList_inj] using cut _ _ heq

theorem text_injective (hp : h.IsPlain) (hp' : h'.IsPlain) (heq : h.text d = h'.text d) :
    h = h' := by
  have hl := lead_eq heq
  cases h with
  | comment v =>
    cases h' with
    | comment v' => simpa [text] using heq
    | _ => cases d <;> simp [lead] at hl
  | ifElse x =>
    cases h' with
    | ifElse x' => rw [text_ifElse_injective heq]
    | _ => cases d <;> simp [lead] at hl
  | forIn x y =>
    cases h' with
    | forIn x' y' =>
      obtain ⟨rfl, rfl⟩ := text_forIn_injective hp.1 hp'.1 heq
      rfl
    | _ => cases d <;> simp [lead] at hl
  | function f =>
    cases h' with
    | function f' => rw [text_function_injective heq]
    | _ => cases d <;> simp [lead] at hl

/-- A header is a line of its own. -/
theorem isLine_text (hp : h.IsPlain) (d : Dialect) : IsLine (h.text d) := by
  have ends : ∀ {s t : String}, '\n' ∉ s.toList → '\n' ∉ t.toList.dropLast →
      t.toList = t.toList.dropLast ++ ['\n'] → IsLine (s ++ t) :=
    fun hs ht hl => .append_left hs ⟨_, ht, hl⟩
  have var : ∀ {x : String}, '\n' ∉ x.toList → '\n' ∉ (d.phrasing.var x).toList := by
    intro x hx
    cases d <;> simpa [Dialect.phrasing, Phrasing.bash, Phrasing.xonsh, Phrasing.fish]
  cases h with
  | comment v =>
    have hv : '\n' ∉ v.toList := hp
    exact ends (by simpa) (by decide) (by decide)
  | ifElse x =>
    have hx := var hp.2
    cases d <;> exact ends (by simpa) (by decide) (by decide)
  | forIn x y =>
    have hx : '\n' ∉ x.toList := hp.1.2
    have hy := var hp.2.2
    cases d <;> exact ends (by simp [hx, hy]) (by decide) (by decide)
  | function f =>
    have hf : '\n' ∉ f.toList := hp.2
    cases d <;> exact ends (by simpa) (by decide) (by decide)

/-- A header and where it ends can be read back. -/
theorem text_append_injective (hp : h.IsPlain) (hp' : h'.IsPlain) {r r' : List Char}
    (heq : (h.text d).toList ++ r = (h'.text d).toList ++ r') : h = h' ∧ r = r' := by
  obtain ⟨line, hl, ht⟩ := isLine_text hp d
  obtain ⟨line', hl', ht'⟩ := isLine_text hp' d
  rw [ht, ht', List.append_assoc, List.append_assoc] at heq
  obtain ⟨rfl, rfl⟩ := append_cons_injective hl hl' heq
  refine ⟨text_injective hp hp' (d := d) ?_, rfl⟩
  rw [← String.toList_inj, ht, ht']

/-- No header is the line of an empty block, and none is empty. -/
theorem text_append_ne_emptyBlock (h : Header) (d : Dialect) (s : List Char) :
    (h.text d).toList ++ s ≠ d.phrasing.emptyBlock.toList := by
  obtain ⟨t, ht⟩ := exists_lead h d
  rw [ht]
  cases h <;> cases d <;>
    simp [lead, Dialect.phrasing, Phrasing.bash, Phrasing.xonsh, Phrasing.fish]

theorem text_append_ne_nil (h : Header) (d : Dialect) (s : List Char) :
    (h.text d).toList ++ s ≠ [] := by
  obtain ⟨t, ht⟩ := exists_lead h d
  rw [ht]
  cases h <;> cases d <;> simp [lead]

end Header
end ShellTree
