import ShellTree.Proofs.Render.Redirection

/-! Trees with marked places. Of a tree that is put into a marked place only the text is seen, with
three exceptions: the target of a loop, a stream of a command, and an `orelse` with nothing else in
it. -/
namespace ShellTree
open Render

/-- One level of a tree, with `none` for the nodes that are marked, be it one or several. -/
structure Frame where
  kind : Kind (Option Node)
  position : Option Position

/-- The levels of a tree around a marked place, the innermost first. -/
abbrev Context := List Frame

namespace Frame

/-- The level with a tree for the nodes that are marked. -/
def fill (f : Frame) (n : Node) : Node := ⟨f.kind.map (·.getD n), f.position⟩

/-- No place of a level is marked in which two nodes could be told apart beside their texts. -/
structure Admits (f : Frame) (a b : Node) : Prop where
  target : ∀ iter body, f.kind ≠ .forIn none iter body
  stream : ∀ mode c s, f.kind = .command mode c → c.target s = none →
    a.same (.stream s) = false ∧ b.same (.stream s) = false
  orelse : ∀ test body, f.kind = .ifElse test body [none] → (a.tag = .ifElse ↔ b.tag = .ifElse)

end Frame

/-- The tree of a context with a tree in the marked place. -/
def Context.fill : Context → Node → Node
  | [], n => n
  | f :: c, n => Context.fill c (f.fill n)

namespace Frame
variable {d : Dialect} {a b : Node}

/-- Two nodes that a level does not tell apart beside their texts. -/
structure Blind (d : Dialect) (f : Frame) (a b : Node) : Prop where
  target : ∀ iter body, f.kind = .forIn none iter body → a.kind.loopName d = b.kind.loopName d
  stream : ∀ mode c s, f.kind = .command mode c → c.target s = none →
    a.same (.stream s) = b.same (.stream s)
  orelse : ∀ test body, f.kind = .ifElse test body [none] → (a.tag = .ifElse ↔ b.tag = .ifElse)

theorem Admits.blind {f : Frame} (h : f.Admits a b) : f.Blind d a b where
  target iter body hf := absurd hf (h.target iter body)
  stream mode c s hf hs := by
    obtain ⟨ha, hb⟩ := h.stream mode c s hf hs
    rw [ha, hb]
  orelse := h.orelse

/-- Levels further out see a node of the same kind whatever has been put into it. -/
theorem blind_fill (f g : Frame) : f.Blind d (g.fill a) (g.fill b) where
  target _ _ _ := by
    rw [fill, fill, Kind.loopName_map, Kind.loopName_map]
  stream _ _ _ _ _ := by
    simp only [Node.same_stream, Node.tag, fill, Kind.tag_map]
  orelse _ _ _ := by
    simp only [Node.tag, fill, Kind.tag_map]

/-- An `orelse` is an else-if, or is not, with either node in its marked places. -/
theorem isElseIf_fill {ns : List (Option Node)}
    (h : ns = [none] → (a.tag = .ifElse ↔ b.tag = .ifElse)) :
    isElseIf (some (.arr (ns.map fun n => encode (n.getD a)))) =
      isElseIf (some (.arr (ns.map fun n => encode (n.getD b)))) := by
  have seen : ∀ n : Node, isElseIf (some (.arr (ns.map fun m => encode (m.getD n)))) =
      decide ((ns.map (·.getD n)).map Node.tag = [.ifElse]) := by
    intro n
    rw [← isElseIf_encode, List.map_map]
    rfl
  rw [seen, seen]
  match ns, h with
  | [], _ | [some _], _ | _ :: _ :: _, _ => simp
  | [none], h => simpa using h rfl

/-- One level with either of two nodes in its marked places. -/
theorem renderNode_fill_of_blind {f : Frame} (h : renderNode d a = renderNode d b)
    (blind : f.Blind d a b) : renderNode d (f.fill a) = renderNode d (f.fill b) := by
  rw [fill, fill, renderNode_mk, renderNode_mk, Kind.map_map, Kind.map_map]
  apply kind_congr
  · intro n _
    cases n with
    | none => exact h
    | some n => rfl
  · intro target iter body hf
    cases target with
    | none =>
      simp only [Function.comp_apply, nodePart, loopName_encode]
      exact blind.target iter body hf
    | some n => rfl
  · intro test body orelse hf
    apply isElseIf_fill
    rintro rfl
    exact blind.orelse test body hf
  · intro mode c hf s
    simp only [Function.comp_apply, nodePart, isSentinel_encode]
    cases hs : c.target s with
    | none => exact blind.stream mode c s hf hs
    | some n => rfl

end Frame

theorem Context.renderNode_fill_of_blind {d : Dialect} {c : Context} {a b : Node}
    (h : renderNode d a = renderNode d b) (blind : ∀ f ∈ c.head?, f.Blind d a b) :
    renderNode d (c.fill a) = renderNode d (c.fill b) := by
  induction c generalizing a b with
  | nil => exact h
  | cons f c ih =>
    have hf := f.renderNode_fill_of_blind h (blind f rfl)
    exact ih hf fun g _ => g.blind_fill f

/-- Rendering is compositional: nodes with the same text, or the same error, can be exchanged at any
depth of a tree, but for the three places that see more of a node than its text. -/
theorem renderNode_fill {d : Dialect} {c : Context} {a b : Node}
    (h : renderNode d a = renderNode d b) (admits : ∀ f ∈ c.head?, f.Admits a b) :
    renderNode d (c.fill a) = renderNode d (c.fill b) :=
  c.renderNode_fill_of_blind h fun f hf => (admits f hf).blind

/-- A conditional with nothing in its `orelse` but a command, whose output is marked. -/
def outputContext : Context :=
  [⟨.command .streamed ⟨[some (.raw "ls")], some (.stream .input), none, some (.stream .error),
      false⟩, none⟩,
    ⟨.statement none, some ⟨3, 1⟩⟩, ⟨.ifElse (some (.var "x")) [] [none], none⟩]

theorem renderNode_fill_outputContext :
    renderNode .bash (.raw "$log") = renderNode .bash (.var "log") ∧
      (∀ f ∈ outputContext.head?, f.Admits (.raw "$log") (.var "log")) ∧
      renderNode .bash (outputContext.fill (.raw "$log")) =
        renderNode .bash (outputContext.fill (.var "log")) ∧
      renderNode .bash (outputContext.fill (.raw "$log")) =
        .ok "if $x; then\n  :\nelse\n  ls > $log\nfi\n" := by
  have text : renderNode .bash (.raw "$log") = renderNode .bash (.var "log") := by rfl
  have admits : ∀ f ∈ outputContext.head?, f.Admits (.raw "$log") (.var "log") := by
    rintro _ ⟨⟩
    refine ⟨nofun, fun _ _ s _ _ => ?_, nofun⟩
    cases s <;> exact ⟨rfl, rfl⟩
  exact ⟨text, admits, renderNode_fill text admits, by rfl⟩

end ShellTree
