import ShellTree.Proofs.Codec.Nesting
import ShellTree.Tool.Run

/-! Output that is input again. What the tool writes for a document it reads back as the same
document, unless what it wrote out made it too deep to be read. -/
namespace ShellTree.Tool
open ShellTree.Outcome Json

theorem isBlank_unit (n : Nat) : ∀ c ∈ ("".pushn ' ' n).toList, isBlank c = true := by
  induction n with
  | zero => nofun
  | succ n ih =>
    have step : "".pushn ' ' (n + 1) = ("".pushn ' ' n).push ' ' := rfl
    intro c hc
    rw [step, String.toList_push, List.mem_append] at hc
    rcases hc with hc | hc
    · exact ih c hc
    · rw [List.mem_singleton.mp hc]
      rfl

/-- A run that writes the tagged map of a JSON document, step by step. -/
theorem run_tagged_eq_ok {o : Options} (hi : o.input = .json) (he : o.emission = .tagged)
    {s out : String} : run o s = .ok out ↔ ∃ m n, Json.read documentDepth s = .ok m ∧
      decode m = .ok n ∧ out = (encode n).pretty ("".pushn ' ' o.indent) ++ "\n" := by
  simp only [run, readDocument, hi, he, bind_eq_ok, mapError_eq_ok, pure_eq_ok]
  constructor
  · rintro ⟨m, hm, n, hn, rfl⟩
    exact ⟨m, n, hm, hn, rfl⟩
  · rintro ⟨m, n, hm, hn, rfl⟩
    exact ⟨m, hm, n, hn, rfl⟩

/-- A written tree is read back if it is not too deep. -/
theorem read_encode (unit depth : Nat) (n : Node) :
    Json.read depth ((encode n).pretty ("".pushn ' ' unit) ++ "\n") = within depth (encode n) :=
  read_pretty (plain_encode n) (isBlank_unit unit) depth

/-- If it is, it is written as before. -/
theorem run_encode {o : Options} (hi : o.input = .json) (he : o.emission = .tagged) (n : Node) :
    run o ((encode n).pretty ("".pushn ' ' o.indent) ++ "\n") =
      if (encode n).nesting ≤ documentDepth then
        .ok ((encode n).pretty ("".pushn ' ' o.indent) ++ "\n")
      else .error (.json .malformed) := by
  have reads := read_encode o.indent documentDepth n
  split
  · next h =>
    rw [within, if_pos h] at reads
    exact (run_tagged_eq_ok hi he).mpr ⟨_, _, reads, decode_encode n, by rw [encode_erase]⟩
  · next h =>
    rw [within, if_neg h] at reads
    simp only [run, readDocument, hi, reads]
    rfl

/-- The tagged output for a document is its normal form on indented lines, which can be read back
with enough depth. It nests one level deeper than the document at most, and running the tool on it
gives it back as long as that does not pass the limit. -/
theorem run_tagged_again {o : Options} {s out : String} (hi : o.input = .json)
    (he : o.emission = .tagged) (h : run o s = .ok out) :
    ∃ m, Json.read documentDepth s = .ok m ∧ m.nesting ≤ documentDepth ∧
      out = m.normalize.pretty ("".pushn ' ' o.indent) ++ "\n" ∧
      (∀ depth, Json.read depth out = within depth m.normalize) ∧
      m.normalize.nesting ≤ m.nesting + 1 ∧
      run o out = if m.normalize.nesting ≤ documentDepth then .ok out
        else .error (.json .malformed) := by
  obtain ⟨m, n, hm, hn, rfl⟩ := (run_tagged_eq_ok hi he).mp h
  have deeper := nesting_normalize_le hn
  refine ⟨m, hm, nesting_le_of_read hm, ?_⟩
  rw [← encode_of_decode hn] at deeper ⊢
  exact ⟨rfl, fun depth => read_encode o.indent depth n, deeper, run_encode hi he n⟩

/-- A command without arguments, with its streams left out, below so many negations. -/
def negated : Nat → Json
  | 0 => .obj [("Command", .obj [("args", .arr [])])]
  | k + 1 => .obj [("Not", .obj [("node", negated k)])]

def negatedTree : Nat → Node
  | 0 => .command []
  | k + 1 => .negation (negatedTree k)

theorem decode_negated (k : Nat) : decode (negated k) = .ok (negatedTree k) := by
  induction k with
  | zero => rfl
  | succ k ih =>
    have below : ∃ fields, negated k = .obj fields := by cases k <;> exact ⟨_, rfl⟩
    obtain ⟨fields, hf⟩ := below
    have opens : Opens (.obj [(Tag.not.name, .obj [("node", .obj fields)])])
        (.not (.obj fields)) none :=
      .mk (k := .not (.obj fields)) (by simp [Kind.tag, Tag.attributes])
        (.cons (.node rfl) .nil) rfl
    rw [hf] at ih
    rw [negated, hf]
    exact decode_eq_ok.mpr ⟨_, opens, congrArg Kind.not ih⟩

theorem plain_negated (k : Nat) : (negated k).Plain := by
  induction k with
  | zero =>
    have args : (Json.arr []).Plain := .arr nofun
    exact .obj (by simp) (by simpa using .obj (by simp) (by simpa using args))
  | succ k ih => exact .obj (by simp) (by simpa using .obj (by simp) (by simpa using ih))

theorem nesting_negated (k : Nat) : (negated k).nesting = 2 * k + 3 := by
  induction k with
  | zero => rfl
  | succ k ih =>
    simp only [negated, nesting, nestingFields, ih]
    omega

theorem nesting_encode_negatedTree (k : Nat) : (encode (negatedTree k)).nesting = 2 * k + 4 := by
  induction k with
  | zero => rfl
  | succ k ih =>
    have map : encode (negatedTree (k + 1)) =
        .obj [("Not", .obj [("node", encode (negatedTree k))])] := encode_mk _ _
    simp only [map, nesting, nestingFields, ih]
    omega

theorem run_negated {k : Nat} (hk : k ≤ 62) :
    run { emission := .tagged } ((negated k).pretty " " ++ "\n") =
      .ok ((encode (negatedTree k)).pretty " " ++ "\n") := by
  have reads := read_pretty (plain_negated k) (isBlank_unit 1) documentDepth
  have fits : (negated k).nesting ≤ documentDepth := by
    rw [nesting_negated, documentDepth]
    omega
  rw [within, if_pos fits] at reads
  exact (run_tagged_eq_ok rfl rfl).mpr ⟨_, _, reads, decode_negated k, rfl⟩

/-- The empty command is written with all its streams, and read back. -/
theorem run_tagged_again_empty :
    let o : Options := { emission := .tagged }
    let out := (encode (.command [])).pretty " " ++ "\n"
    run o ((negated 0).pretty " " ++ "\n") = .ok out ∧
      ∃ m, Json.read documentDepth ((negated 0).pretty " " ++ "\n") = .ok m ∧
        m.nesting ≤ documentDepth ∧
        out = m.normalize.pretty ("".pushn ' ' o.indent) ++ "\n" ∧
        (∀ depth, Json.read depth out = within depth m.normalize) ∧
        m.normalize.nesting ≤ m.nesting + 1 ∧
        run o out = if m.normalize.nesting ≤ documentDepth then .ok out
          else .error (.json .malformed) := by
  have first := run_negated (Nat.zero_le 62)
  exact ⟨first, run_tagged_again rfl rfl first⟩

/-- Below 62 negations it is read, but what is written for it is not. -/
theorem run_tagged_too_deep :
    let o : Options := { emission := .tagged }
    let out := (encode (negatedTree 62)).pretty " " ++ "\n"
    run o ((negated 62).pretty " " ++ "\n") = .ok out ∧
      run o out = .error (.json .malformed) := by
  refine ⟨run_negated (Nat.le_refl 62), ?_⟩
  have again := run_encode (o := { emission := .tagged }) rfl rfl (negatedTree 62)
  rwa [if_neg (by rw [nesting_encode_negatedTree]; decide)] at again

end ShellTree.Tool
