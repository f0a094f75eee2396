import ShellTree.Proofs.Render.Rewriting
import ShellTree.Proofs.Render.Tree
import ShellTree.Proofs.Render.Wording

/-! Where commands send their streams. A stream that goes where it goes anyway is left alone. Every
other one has a segment of the command line to itself. -/
namespace ShellTree
open Outcome Render

/-- A tree is written as a bare sentinel just when it stands for that stream, with or without a
position. -/
theorem isSentinel_encode (s : Stream) (n : Node) :
    isSentinel s (encode n) = n.same (.stream s) := by
  have hs : s.sentinel = encode (.stream s) := by cases s <;> rfl
  rw [Bool.eq_iff_iff, isSentinel_iff, hs, encode_eq_encode_iff]

/-- Only nodes that stand for a stream are equal to it. -/
theorem Node.same_stream (n : Node) (s : Stream) : n.same (.stream s) = decide (n.tag = s.tag) := by
  obtain ⟨k, p⟩ := n
  have leaf : (Kind.stream s : Kind Node).attributes = [] := rfl
  rw [Bool.eq_iff_iff, Node.stream, ofKind, same_mk, leaf, List.zip_nil_right, List.all_nil,
    Bool.and_true, beq_iff_eq, decide_eq_true_iff]
  rfl

namespace Command

/-- The streams that a command redirects, in the order in which it says so. -/
def redirected (c : Command Node) : List Stream :=
  [.error, .output, .input].filter fun s => !(c.target s).same (.stream s)

/-- The command with another node for a stream. -/
def retarget (c : Command Node) (s : Stream) (n : Node) : Command Node :=
  match s with
  | .input => { c with stdin := n }
  | .output => { c with stdout := n }
  | .error => { c with stderr := n }

theorem target_retarget (c : Command Node) (s : Stream) (n : Node) (s' : Stream) :
    (c.retarget s n).target s' = if s' = s then n else c.target s' := by
  cases s <;> cases s' <;> rfl

theorem redirected_eq_nil {c : Command Node} :
    c.redirected = [] ↔ ∀ s, (c.target s).same (.stream s) = true := by
  rw [redirected, List.filter_eq_nil_iff]
  constructor
  · intro h s
    have hs : s ∈ [Stream.error, .output, .input] := by cases s <;> decide
    simpa using h s hs
  · intro h s _
    simp [h s]

end Command

namespace Render
variable {d : Dialect}

/-- What is written for a stream that goes to a node with a text. -/
def redirection (d : Dialect) (s : Stream) (n : Node) (text : String) : String :=
  if n.same (.stream s) then "" else d.operator s ++ text

/-- The node of a stream is rendered in any case, but its text is not written if the stream goes
there anyway. -/
theorem segment_eq_ok {s : Stream} {n : Node} {seg : String} :
    segment d s (nodePart d n) = .ok seg ↔
      ∃ text, renderNode d n = .ok text ∧ seg = redirection d s n text := by
  rw [segment, nodePart, isSentinel_encode, d.speaks.redirect]
  by_cases h : n.same (.stream s) = true
  · have hr : renderNode d n = .ok s.device := by
      rw [renderNode, encode_eq_encode_iff.mpr h]
      cases s <;> rfl
    simp [h, hr, redirection, eq_comm]
  · simp only [h, redirection, Bool.false_eq_true, if_false, bind_eq_ok, pure_eq_ok]
    simp only [eq_comm]

/-- The text of a command line, given the texts of its arguments and of the nodes that its streams
go to. -/
def lineText (d : Dialect) (c : Command Node) (args : List String) (dest : Stream → String) :
    String :=
  " ".intercalate args ++ String.join (c.redirected.map fun s => d.operator s ++ dest s) ++
    (if c.background then d.background else "")

theorem lineText_eq (c : Command Node) (args : List String) (dest : Stream → String) :
    lineText d c args dest = " ".intercalate args ++ redirection d .error c.stderr (dest .error) ++
      redirection d .output c.stdout (dest .output) ++ redirection d .input c.stdin (dest .input) ++
      (if c.background then d.background else "") := by
  have segments : String.join (c.redirected.map fun s => d.operator s ++ dest s) =
      redirection d .error c.stderr (dest .error) ++
        redirection d .output c.stdout (dest .output) ++
        redirection d .input c.stdin (dest .input) := by
    simp only [Command.redirected, Command.target, redirection, List.filter_cons, List.filter_nil]
    cases c.stderr.same (.stream .error) <;> cases c.stdout.same (.stream .output) <;>
      cases c.stdin.same (.stream .input) <;> simp [String.append_assoc]
  rw [lineText, segments]
  simp only [String.append_assoc]

/-- Only the segment of a stream depends on where that stream goes. -/
theorem exists_lineText_retarget (d : Dialect) (c : Command Node) (s : Stream) (args : List String)
    (dest : Stream → String) : ∃ before after, ∀ n text,
      lineText d (c.retarget s n) args (Function.update dest s text) =
        before ++ redirection d s n text ++ after := by
  let words := " ".intercalate args
  let error := redirection d .error c.stderr (dest .error)
  let output := redirection d .output c.stdout (dest .output)
  let input := redirection d .input c.stdin (dest .input)
  let background := if c.background then d.background else ""
  cases s with
  | input =>
    refine ⟨words ++ error ++ output, background, fun n text => ?_⟩
    rw [lineText_eq]
    rfl
  | output =>
    refine ⟨words ++ error, input ++ background, fun n text => ?_⟩
    rw [lineText_eq, ← String.append_assoc]
    rfl
  | error =>
    refine ⟨words, output ++ input ++ background, fun n text => ?_⟩
    rw [lineText_eq, ← String.append_assoc, ← String.append_assoc]
    rfl

theorem line_eq_ok {c : Command Node} {t : String} :
    line d (c.map (nodePart d)) = .ok t ↔ ∃ (args : List String) (dest : Stream → String),
      c.args.map (renderNode d) = args.map .ok ∧ (∀ s, renderNode d (c.target s) = .ok (dest s)) ∧
        t = lineText d c args dest := by
  simp only [line, Command.map, texts_nodePart, bind_eq_ok, pure_eq_ok, Tagged.collect_eq_ok,
    segment_eq_ok, d.speaks.background]
  constructor
  · rintro ⟨args, ha, _, ⟨e, he, rfl⟩, _, ⟨o, ho, rfl⟩, _, ⟨i, hi, rfl⟩, rfl⟩
    let dest : Stream → String
      | .input => i
      | .output => o
      | .error => e
    have streams : ∀ s, renderNode d (c.target s) = .ok (dest s) := by
      intro s
      cases s with
      | input => exact hi
      | output => exact ho
      | error => exact he
    exact ⟨args, dest, ha, streams, (lineText_eq c args dest).symm⟩
  · rintro ⟨args, dest, ha, hs, rfl⟩
    exact ⟨args, ha, _, ⟨_, hs .error, rfl⟩, _, ⟨_, hs .output, rfl⟩, _, ⟨_, hs .input, rfl⟩,
      (lineText_eq c args dest).symm⟩

end Render

/-- A command is rendered when its arguments and the nodes of its streams are, unless fish would
have to take the output of a command in the background. -/
theorem renderNode_command_eq_ok {d : Dialect} {mode : Mode} {c : Command Node}
    {p : Option Position} {t : String} : renderNode d ⟨.command mode c, p⟩ = .ok t ↔
      ¬(mode = .captured ∧ d = .fish ∧ c.background = true) ∧
      ∃ (args : List String) (dest : Stream → String), c.args.map (renderNode d) = args.map .ok ∧
        (∀ s, renderNode d (c.target s) = .ok (dest s)) ∧
          t = (d.bracket mode).1 ++ lineText d c args dest ++ (d.bracket mode).2 := by
  have fish : (!d.phrasing.capturesBackground) = true ↔ d = .fish := by
    rw [← capturesBackground_eq_false, Bool.not_eq_true']
  rw [renderNode_mk]
  simp only [Render.kind, Kind.map, fish]
  by_cases h : mode = .captured ∧ d = .fish ∧ c.background = true
  · have hc : mode = .captured ∧ d = .fish ∧ (c.map (nodePart d)).background = true := h
    rw [if_pos hc]
    constructor
    · intro ht
      cases ht
    · exact fun h' => absurd h h'.1
  · have hc : ¬(mode = .captured ∧ d = .fish ∧ (c.map (nodePart d)).background = true) := h
    rw [if_neg hc]
    simp only [h, bind_eq_ok, pure_eq_ok, line_eq_ok, d.speaks.command, not_false_eq_true, true_and]
    constructor
    · rintro ⟨_, ⟨args, dest, ha, hs, rfl⟩, rfl⟩
      exact ⟨args, dest, ha, hs, rfl⟩
    · rintro ⟨args, dest, ha, hs, rfl⟩
      exact ⟨_, ⟨args, dest, ha, hs, rfl⟩, rfl⟩

/-- How a command is written: between the brackets of the dialect stand its arguments with blanks
between them, a segment for each stream that it redirects and for no other, and then whether it runs
in the background. What stands around the segment of a stream stays as it is wherever the stream is
sent. -/
theorem renderNode_command {d : Dialect} {mode : Mode} {c : Command Node} {p : Option Position}
    {t : String} (h : renderNode d ⟨.command mode c, p⟩ = .ok t) :
    ∃ (args : List String) (dest : Stream → String),
      c.args.map (renderNode d) = args.map .ok ∧
      (∀ s, renderNode d (c.target s) = .ok (dest s)) ∧
      t = (d.bracket mode).1 ++ lineText d c args dest ++ (d.bracket mode).2 ∧
      ((∀ s, (c.target s).same (.stream s) = true) →
        t = (d.bracket mode).1 ++
          (" ".intercalate args ++ (if c.background then d.background else "")) ++
          (d.bracket mode).2) ∧
      ∀ s, ∃ before after,
        t = (d.bracket mode).1 ++ (before ++ redirection d s (c.target s) (dest s) ++ after) ++
          (d.bracket mode).2 ∧
        ∀ n t', renderNode d ⟨.command mode (c.retarget s n), p⟩ = .ok t' →
          ∃ text, renderNode d n = .ok text ∧
            t' = (d.bracket mode).1 ++ (before ++ redirection d s n text ++ after) ++
              (d.bracket mode).2 := by
  obtain ⟨-, args, dest, ha, hs, rfl⟩ := renderNode_command_eq_ok.mp h
  refine ⟨args, dest, ha, hs, rfl, ?_, fun s => ?_⟩
  · intro bare
    rw [lineText, Command.redirected_eq_nil.mpr bare, List.map_nil, String.join_nil,
      String.append_empty]
  · obtain ⟨before, after, line⟩ := exists_lineText_retarget d c s args dest
    refine ⟨before, after, ?_, fun n t' h' => ?_⟩
    · have same : c.retarget s (c.target s) = c := by cases s <;> rfl
      rw [← line, same, Function.update_eq_self]
    · obtain ⟨-, args', dest', ha', hs', rfl⟩ := renderNode_command_eq_ok.mp h'
      have args_eq : args' = args := by
        have hm : c.args.map (renderNode d) = args'.map .ok := by cases s <;> exact ha'
        rw [ha] at hm
        exact (List.map_injective_iff.mpr (fun _ _ => Except.ok.inj) hm).symm
      have dest_eq : dest' = Function.update dest s (dest' s) := by
        funext s'
        have hs' := hs' s'
        rw [Command.target_retarget] at hs'
        by_cases hss : s' = s
        · rw [hss, Function.update_self]
        · rw [if_neg hss, hs s'] at hs'
          rw [Function.update_of_ne hss, Except.ok.inj hs']
      refine ⟨dest' s, ?_, ?_⟩
      · rw [← hs' s, Command.target_retarget, if_pos rfl]
      · rw [← line, ← dest_eq, args_eq]

/-- A command in the background that reads a file and sends its errors to its output, and its output
to itself by a node with a position. -/
def build : Command Node where
  args := [.raw "make", .var "x"]
  stdin := .raw "in"
  stdout := ⟨.stream .output, some ⟨1, 9⟩⟩
  stderr := .stream .output
  background := true

theorem renderNode_build :
    let t := "$(make $x 2> /dev/stdout < in  &)"
    let t' := "$(make $x 2> /dev/stdout > log < in  &)"
    let fish := "make $x 2> /dev/stdout < in &"
    (renderNode .bash ⟨.command .captured build, none⟩ = .ok t ∧
      build.redirected = [.error, .input] ∧
      renderNode .bash ⟨.command .captured (build.retarget .output (.raw "log")), none⟩ = .ok t') ∧
    (∃ (args : List String) (dest : Stream → String),
      build.args.map (renderNode .bash) = args.map .ok ∧
      (∀ s, renderNode .bash (build.target s) = .ok (dest s)) ∧
      t = "$(" ++ lineText .bash build args dest ++ ")" ∧
      ∃ before after,
        t = "$(" ++ (before ++ redirection .bash .output build.stdout (dest .output) ++ after) ++
          ")" ∧
        ∃ text, renderNode .bash (.raw "log") = .ok text ∧
          t' = "$(" ++ (before ++ redirection .bash .output (.raw "log") text ++ after) ++ ")") ∧
    renderNode .fish ⟨.command .streamed build, none⟩ = .ok fish ∧
    ∃ (args : List String) (dest : Stream → String),
      build.args.map (renderNode .fish) = args.map .ok ∧
      (∀ s, renderNode .fish (build.target s) = .ok (dest s)) ∧
      fish = "" ++ lineText .fish build args dest ++ "" := by
  intro t t' fish
  have bash_text : renderNode .bash ⟨.command .captured build, none⟩ = .ok t := by rfl
  have log_text :
      renderNode .bash ⟨.command .captured (build.retarget .output (.raw "log")), none⟩ = .ok t' := by
    rfl
  have fish_text : renderNode .fish ⟨.command .streamed build, none⟩ = .ok fish := by rfl
  obtain ⟨args, dest, ha, hs, line, -, streams⟩ := renderNode_command bash_text
  obtain ⟨before, after, here, elsewhere⟩ := streams .output
  obtain ⟨args', dest', ha', hs', line', -⟩ := renderNode_command fish_text
  exact ⟨⟨bash_text, by rfl, log_text⟩,
    ⟨args, dest, ha, hs, line, before, after, here, elsewhere _ _ log_text⟩,
    fish_text, args', dest', ha', hs', line'⟩

/-- A command that redirects nothing is its arguments in their bracket. -/
example : renderNode .xonsh (.command [.raw "ls", .var "x"]) = .ok "![ls x]" := by rfl

end ShellTree
