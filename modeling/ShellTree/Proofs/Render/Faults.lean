import ShellTree.Proofs.Render.Construct
import ShellTree.Proofs.Render.Order

/-! Why a tree cannot be rendered. What decodes is rendered but for loops over targets that are no
variables and for captured commands that fish would have to run in the background. -/
namespace ShellTree
open Outcome

namespace Render

/-- Why a kind cannot be rendered whatever the texts right below are. -/
def ownFault? (d : Dialect) : Kind Json → Option RenderError
  | .forIn target _ _ => fault? (loopName d target)
  | .command .captured c =>
    if d = .fish ∧ c.background then some (.backgroundCapture d) else none
  | _ => none

section
variable {d : Dialect}

theorem fault?_texts (ms : List Json) :
    fault? (texts (ms.map (part d))) = ms.findSome? fun m => fault? (render d m) := by
  rw [texts_part, Tagged.fault?_collect, List.findSome?_map]
  rfl

/-- A bare sentinel is passed over, but can be rendered as well. -/
theorem fault?_segment (s : Stream) (m : Json) :
    fault? (segment d s (part d m)) = fault? (render d m) := by
  by_cases h : isSentinel s m
  · obtain rfl := isSentinel_iff.mp h
    have hr : render d s.sentinel = .ok s.device := by
      cases s <;> rfl
    simp [segment, part, h, hr]
  · simp [segment, part, h]

theorem fault?_line (c : Command Json) : fault? (line d (c.map (part d))) =
    (c.args ++ [c.stderr, c.stdout, c.stdin]).findSome? fun m => fault? (render d m) := by
  simp only [line, Command.map, bind_pure_comp]
  rw [fault?_bind fun _ => fault?_bind fun _ => fault?_bind fun _ => fault?_map]
  simp only [fault?_texts, fault?_segment, List.findSome?_append, findSome?_cons_or,
    List.findSome?_nil, Option.or_none]

theorem capturesBackground_eq_false : d.phrasing.capturesBackground = false ↔ d = .fish := by
  cases d <;> simp [Dialect.phrasing, Phrasing.bash, Phrasing.xonsh, Phrasing.fish]

theorem fault?_loopName {ν : Type} (k : Kind ν) : fault? (k.loopName d) =
    if k.tag = .var ∨ k.tag = .envVar then none else some (.loopTarget d k.tag.name) := by
  cases k with
  | stream s => cases s <;> rfl
  | command mode c => cases mode <;> rfl
  | logic op lhs rhs => cases op <;> rfl
  | _ => rfl

/-- A target that gives a loop its name is a leaf, which can be rendered itself. -/
theorem fault?_render_target {m : Json} {k : Kind Json} {p : Option Position} (h : Opens m k p)
    (hl : fault? (loopName d m) = none) : fault? (render d m) = none := by
  rw [render_of_opens d h]
  rw [loopName_of_opens d h] at hl
  cases k with
  | var | envVar => rfl
  | _ => simp [Kind.loopName] at hl

/-- A kind has its own fault, if it has one, and else the first one right below. -/
theorem fault?_kind {k : Kind Json} (hk : ∀ m ∈ k.nodeList, ∃ k' p, Opens m k' p) :
    fault? (kind d (k.map (part d))) =
      (ownFault? d k).or (k.renderOrder.findSome? fun m => fault? (render d m)) := by
  cases k with
  | command mode c =>
    have hl := fault?_line (d := d) c
    simp only [kind, Kind.map, bind_pure_comp, Kind.renderOrder]
    cases mode with
    | streamed => simpa [ownFault?] using hl
    | captured =>
      by_cases h : d = .fish ∧ c.background
      · obtain ⟨rfl, hb⟩ := h
        simp [ownFault?, Command.map, hb, Dialect.phrasing, Phrasing.fish]
      · have hd : ¬(d.phrasing.capturesBackground = false ∧ c.background) := by
          rwa [capturesBackground_eq_false]
        simpa [ownFault?, h, hd, Command.map] using hl
  | forIn target iter body =>
    have order : (Kind.forIn target iter body).renderOrder = target :: iter :: body := by
      simp [Kind.renderOrder, Kind.nodeList, Kind.attributes, AttrValue.nodeList]
    obtain ⟨k, p, ho⟩ := hk target (Kind.mem_renderOrder.mp (by simp [order]))
    simp only [kind, Kind.map, bind_pure_comp, ownFault?, order]
    rw [fault?_bind fun _ => fault?_bind fun _ => fault?_map]
    cases h : fault? (loopName d target) with
    | some e => simp only [part, h, Option.some_or]
    | none =>
      simp only [part, h, Option.none_or, fault?_texts, findSome?_cons_or,
        fault?_render_target ho h]
  | ifElse test body orelse =>
    have order : (Kind.ifElse test body orelse).renderOrder = test :: (body ++ orelse) := by
      simp [Kind.renderOrder, Kind.nodeList, Kind.attributes, AttrValue.nodeList]
    simp only [kind, Kind.map, bind_pure_comp, ownFault?, Option.none_or, order]
    rw [fault?_bind fun _ => fault?_bind fun _ => fault?_map]
    simp only [part, fault?_texts, findSome?_cons_or, List.findSome?_append]
  | logic op lhs rhs =>
    have order : (Kind.logic op lhs rhs).renderOrder = [lhs, rhs] := rfl
    simp only [kind, Kind.map, bind_pure_comp, ownFault?, Option.none_or, order]
    rw [fault?_bind fun _ => fault?_map]
    simp only [part, findSome?_cons_or, List.findSome?_nil, Option.or_none]
  | assign name value scope =>
    have order : (Kind.assign name value scope).renderOrder = [value] := rfl
    simp only [kind, Kind.map, bind_pure_comp, ownFault?, Option.none_or, order]
    cases d.phrasing.assign <;>
      simp only [fault?_map, part, findSome?_cons_or, List.findSome?_nil, Option.or_none]
  | _ =>
    simp [kind, Kind.map, ownFault?, Kind.renderOrder, Kind.nodeList, Kind.attributes,
      AttrValue.nodeList, fault?_texts, part, findSome?_cons_or]

end
end Render

open Render

/-- Why a node cannot be rendered whatever is below it: for a loop, because its target has another
tag than the two of variables, and for a captured command, because fish cannot run it in the
background. -/
def Node.obstacle? (d : Dialect) (n : Node) : Option RenderError :=
  match n.kind with
  | .forIn target _ _ =>
    if target.tag = .var ∨ target.tag = .envVar then none
    else some (.loopTarget d target.tag.name)
  | .command .captured c =>
    if d = .fish ∧ c.background then some (.backgroundCapture d) else none
  | _ => none

/-- The tag of a target is the same in its map and in its tree, so that a map and its tree have the
same fault. -/
theorem ownFault?_of_decode {d : Dialect} {k : Kind Json} {n : Node}
    (h : k.map decode = n.kind.map .ok) : ownFault? d k = n.obstacle? d := by
  obtain ⟨k', p⟩ := n
  cases k with
  | forIn target iter body =>
    cases k' with
    | forIn target' iter' body' =>
      simp only [Kind.map, Kind.forIn.injEq] at h
      obtain ⟨kt, ho, hk⟩ := decode_eq_ok.mp h.1
      have htag : kt.tag = target'.kind.tag := by simpa using congrArg Kind.tag hk
      rw [ownFault?, loopName_of_opens d ho, fault?_loopName, htag]
      rfl
    | _ => simp [Kind.map] at h
  | command mode c =>
    cases k' with
    | command mode' c' =>
      simp only [Kind.map, Command.map, Kind.command.injEq, Command.mk.injEq] at h
      obtain ⟨rfl, -, -, -, -, hb⟩ := h
      cases mode with
      | streamed => rfl
      | captured => simp only [ownFault?, Node.obstacle?, hb]
    | _ => simp [Kind.map] at h
  | _ =>
    cases k' <;> simp [Kind.map] at h
    rfl

/-- What decodes has the first obstacle in its tree, in the order in which that is rendered. -/
theorem fault?_render (d : Dialect) {m : Json} {n : Node} (h : decode m = .ok n) :
    fault? (render d m) = n.visits.findSome? (·.obstacle? d) := by
  induction n using Node.induction generalizing m with
  | step k p ih =>
    obtain ⟨k', ho, hk⟩ := decode_eq_ok.mp h
    have below : k.map (fun c => c.visits.findSome? (·.obstacle? d)) =
        k'.map fun m => fault? (render d m) := by
      apply Kind.map_eq_of_map_ok hk
      intro c hc m hm
      exact (ih c hc hm).symm
    have order : k.renderOrder.findSome? (fun c => c.visits.findSome? (·.obstacle? d)) =
        k'.renderOrder.findSome? fun m => fault? (render d m) := by
      have hm := congrArg (fun l => l.renderOrder.findSome? id) below
      simpa only [Kind.renderOrder_map, List.findSome?_map, Function.id_comp] using hm
    have opens : ∀ m ∈ k'.nodeList, ∃ k p, Opens m k p := by
      intro m hm
      obtain ⟨c, -, hc⟩ := Kind.mem_of_map_ok hk hm
      obtain ⟨kc, ho, -⟩ := decode_eq_ok.mp hc
      exact ⟨kc, _, ho⟩
    rw [render_of_opens d ho, fault?_kind opens, ownFault?_of_decode hk, ← order, Node.visits_mk,
      findSome?_cons_or, findSome?_flatMap]

theorem Node.obstacle?_isSome {d : Dialect} {n : Node} : (n.obstacle? d).isSome ↔
    (∃ target iter body, n.kind = .forIn target iter body ∧
      target.tag ≠ .var ∧ target.tag ≠ .envVar) ∨
    d = .fish ∧ ∃ c, n.kind = .command .captured c ∧ c.background = true := by
  obtain ⟨k, p⟩ := n
  cases k with
  | forIn target iter body => simp [obstacle?]
  | command mode c => cases mode <;> simp [obstacle?]
  | _ => simp [obstacle?]

theorem Node.obstacle?_eq_some {d : Dialect} {n : Node} {e : RenderError}
    (h : n.obstacle? d = some e) : (∃ tag, e = .loopTarget d tag) ∨ e = .backgroundCapture d := by
  unfold obstacle? at h
  split at h
  · split at h
    · cases h
    · exact .inl ⟨_, (Option.some.inj h).symm⟩
  · split at h
    · exact .inr (Option.some.inj h).symm
    · cases h
  · cases h

/-- What decodes is rendered, unless somewhere in its tree a loop has a target that is no variable
or, in fish, a captured command is to run in the background. The error is then that of the first
such node in the order of rendering, and never one about the shape of a map. -/
theorem render_eq_error_of_decode (d : Dialect) {m : Json} {n : Node} (h : decode m = .ok n) :
    ((∃ e, render d m = .error e) ↔ ∃ c : Node, c.Within n ∧
      ((∃ target iter body, c.kind = .forIn target iter body ∧
          target.tag ≠ .var ∧ target.tag ≠ .envVar) ∨
        d = .fish ∧ ∃ line, c.kind = .command .captured line ∧ line.background = true)) ∧
    (∀ e, render d m = .error e ↔ n.visits.findSome? (·.obstacle? d) = some e) ∧
    (∀ e, render d m ≠ .error (.shape e)) ∧
    ∀ d' tag, render d m ≠ .error (.unsupported d' tag) := by
  have first : ∀ e, render d m = .error e ↔ n.visits.findSome? (·.obstacle? d) = some e := by
    intro e
    rw [← fault?_render d h, fault?_eq_some]
  have named : ∀ e, render d m = .error e →
      (∃ tag, e = .loopTarget d tag) ∨ e = .backgroundCapture d := by
    intro e he
    obtain ⟨c, -, hc⟩ := List.exists_of_findSome?_eq_some ((first e).mp he)
    exact Node.obstacle?_eq_some hc
  refine ⟨?_, first, ?_, ?_⟩
  · simp only [first, ← Option.isSome_iff_exists, List.findSome?_isSome_iff, Node.mem_visits,
      ← Node.obstacle?_isSome]
  · intro e he
    rcases named _ he with ⟨_, h⟩ | h <;> cases h
  · intro d' tag he
    rcases named _ he with ⟨_, h⟩ | h <;> cases h

/-- A command of which fish can render neither the input nor the error stream. The error stream is
rendered first, although it is declared last. -/
def misdirected : Json :=
  .obj [("Command", .obj [("args", .arr []),
    ("stdin", .obj [("CapturedCommand", .obj [("args", .arr []), ("background", .bool true)])]),
    ("stderr", .obj [("For", .obj [("target", .obj [("RawString", .obj [("value", .str "i")])]),
      ("iter", .obj [("Pass", .obj [])]), ("body", .arr [])])])])]

def misdirectedTree : Node :=
  ⟨.command .streamed
    ⟨[], ⟨.command .captured
      ⟨[], Node.stream .input, Node.stream .output, Node.stream .error, true⟩, none⟩,
    Node.stream .output, ⟨.forIn (Node.raw "i") Node.pass [], none⟩, false⟩, none⟩

theorem render_eq_error_misdirected :
    decode misdirected = .ok misdirectedTree ∧
      render .fish misdirected = .error (.loopTarget .fish "RawString") :=
  ⟨by rfl, ((render_eq_error_of_decode .fish (m := misdirected) (n := misdirectedTree)
    (by rfl)).2.1 _).mpr (by rfl)⟩

end ShellTree
