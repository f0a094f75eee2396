import ShellTree.Proofs.Codec.Normal
import ShellTree.Proofs.Json.Induction
import ShellTree.Proofs.Render.Faults

/-! Rewriting maps under rendering. What is rendered stays the same when the maps in a tree are
rewritten so that each still opens as the same kind. Only one thing is seen beside the kinds: a
stream is left alone just when its map is the bare sentinel. It changes a text, but no error. -/
namespace ShellTree
open Outcome

/-- Nothing but itself is inside a value that is neither a list nor an object. -/
theorem Json.not_inside_leaf {tag : String} {body v : Json}
    (h : v.kind ≠ .list ∧ v.kind ≠ .object) : ¬Inside (.obj [(tag, body)]) v := by
  intro hi
  cases hi <;> simp [kind] at h

/-- No command inside sends a stream to that same stream by a map with a position. -/
def Json.StreamsBare (m : Json) : Prop :=
  ∀ t ∈ [Tag.command, .capturedCommand], ∀ attrs, Inside (.obj [(t.name, .obj attrs)]) m →
    ∀ (s : Stream) (body : List (String × Json)),
      attrs.lookup s.attr = some (.obj [(s.tag.name, .obj body)]) →
        ∀ key ∈ ["lineno", "column"], key ∉ body.map (·.1)

theorem Json.StreamsBare.inside {c m : Json} (hb : m.StreamsBare) (h : c.Inside m) :
    c.StreamsBare :=
  fun t ht attrs hi => hb t ht attrs (hi.trans h)

/-- Where a command sends a stream. -/
def Command.target {ν : Type} (c : Command ν) : Stream → ν
  | .input => c.stdin
  | .output => c.stdout
  | .error => c.stderr

theorem Command.target_mem {ν : Type} (mode : Mode) (c : Command ν) (s : Stream) :
    c.target s ∈ (Kind.command mode c).nodeList := by
  cases s <;> simp [target, Kind.nodeList, Kind.attributes, AttrValue.nodeList]

namespace Opens
variable {m : Json} {k : Kind Json} {p : Option Position}

/-- The maps right below a map are inside it, unless they stand for streams that it leaves out. -/
theorem inside_or_sentinel (h : Opens m k p) {c : Json} (hc : c ∈ k.nodeList) :
    c.Inside m ∨ ∃ s : Stream, c = s.sentinel := by
  obtain ⟨-, gives, -⟩ := h
  obtain ⟨a, ha, hc⟩ := List.mem_flatMap.mp hc
  obtain ⟨d, -, hg⟩ := forall₂_mem_left gives.flip ha
  have below : ∀ {attrs : List (String × Json)} {name : String} {v : Json},
      attrs.lookup name = some v → c.Inside v →
        c.Inside (.obj [(k.tag.name, .obj attrs)]) := by
    intro attrs name v hv hi
    exact .field (.head _) (.field (mem_of_lookup hv) hi)
  cases hg with
  | node h | stream h =>
    obtain rfl := List.mem_singleton.mp hc
    exact .inl (below h .here)
  | noStream h => exact .inr ⟨_, List.mem_singleton.mp hc⟩
  | nodes h => exact .inl (below h (.item hc .here))
  | _ => simp [AttrValue.nodeList] at hc

/-- A stream is given by a map, or else goes where the sentinel says. -/
theorem lookup_target {mode : Mode} {c : Command Json} (h : Opens m (.command mode c) p)
    (s : Stream) : ∃ attrs, m = .obj [((Kind.command mode c).tag.name, .obj attrs)] ∧
      (attrs.lookup s.attr = some (c.target s) ∨ c.target s = s.sentinel) := by
  obtain @⟨_, _, attrs, -, gives, -⟩ := h
  refine ⟨attrs, rfl, ?_⟩
  have hs : (s.attr, Form.stream s) ∈ (Kind.command mode c).tag.signature := by
    cases mode <;> cases s <;> simp [Kind.tag, Tag.signature, Stream.attr]
  obtain ⟨a, ha, hg⟩ := forall₂_mem_left gives hs
  have hv : ∀ v, (s.attr, AttrValue.node v) ∈ (Kind.command mode c).attributes →
      v = c.target s := by
    intro v hv
    cases s <;> simpa [Kind.attributes, Stream.attr, Command.target] using hv
  cases hg with
  | stream h => exact .inl (hv _ ha ▸ h)
  | noStream h => exact .inr (hv _ ha).symm

end Opens

namespace Render

section
variable {ν : Type} {d : Dialect} {f g : ν → Part}

/-- A node sees the texts of the nodes right below it, and nothing else of them but for three
places: a loop takes its name from its target, a command looks for sentinels among its streams, and
a conditional for another one that is alone in its `orelse`. -/
theorem kind_congr {k : Kind ν} (text : ∀ n ∈ k.nodeList, (f n).text = (g n).text)
    (name : ∀ target iter body, k = .forIn target iter body →
      loopName d (f target).source = loopName d (g target).source)
    (elseIf : ∀ test body orelse, k = .ifElse test body orelse →
      isElseIf (some (.arr (orelse.map fun n => (f n).source))) =
        isElseIf (some (.arr (orelse.map fun n => (g n).source))))
    (sentinel : ∀ mode c, k = .command mode c → ∀ s,
      isSentinel s (f (c.target s)).source = isSentinel s (g (c.target s)).source) :
    kind d (k.map f) = kind d (k.map g) := by
  have one : ∀ {name n}, (name, AttrValue.node n) ∈ k.attributes → (f n).text = (g n).text :=
    fun ha => text _ (Kind.mem_nodeList ha (.head _))
  have all : ∀ {name ns}, (name, AttrValue.nodes ns) ∈ k.attributes →
      texts (ns.map f) = texts (ns.map g) := by
    intro name ns ha
    rw [texts, texts, List.map_map, List.map_map]
    exact congrArg Tagged.collect (List.map_congr_left fun n hn =>
      text n (Kind.mem_nodeList ha hn))
  cases k with
  | script | string =>
    simp only [kind, Kind.map, all (.head _)]
  | function =>
    simp only [kind, Kind.map, all (.tail _ (.head _))]
  | command mode c =>
    have segment_eq : ∀ s, segment d s (f (c.target s)) = segment d s (g (c.target s)) := by
      intro s
      rw [segment, segment, sentinel mode c rfl s, text _ (c.target_mem mode s)]
    have hi := segment_eq .input
    have ho := segment_eq .output
    have he := segment_eq .error
    simp only [Command.target] at hi ho he
    simp only [kind, line, Kind.map, Command.map, all (.head _), hi, ho, he]
  | ifElse test body orelse =>
    simp only [kind, Kind.map, one (.head _), all (.tail _ (.head _)),
      all (.tail _ (.tail _ (.head _))), rest, List.map_map, Function.comp_def,
      elseIf test body orelse rfl]
  | forIn target iter body =>
    simp only [kind, Kind.map, name target iter body rfl, one (.tail _ (.head _)),
      all (.tail _ (.tail _ (.head _)))]
  | logic =>
    simp only [kind, Kind.map, one (.head _), one (.tail _ (.head _))]
  | not | statement =>
    simp only [kind, Kind.map, one (.head _)]
  | assign | envAssign | aliasAssign =>
    simp only [kind, Kind.map, one (.tail _ (.head _))]
  | _ => rfl

end

/-- The nodes above do not tell two maps apart, except as the source or target of a stream. -/
structure Alike (d : Dialect) (m m' : Json) : Prop where
  text : render d m = render d m'
  name : loopName d m = loopName d m'
  tag : Tagged.tagOf? m = Tagged.tagOf? m'

section
variable {d : Dialect} {f : Json → Json}

theorem isElseIf_rewrite {ms : List Json} (h : ∀ m ∈ ms, Alike d (f m) m) :
    isElseIf (some (.arr (ms.map f))) = isElseIf (some (.arr ms)) := by
  match ms with
  | [] => rfl
  | [m] => simp [isElseIf, (h m (by simp)).tag]
  | _ :: _ :: _ => rfl

/-- Rewriting the maps right below keeps what is rendered. -/
theorem kind_rewrite {k : Kind Json} (h : ∀ m ∈ k.nodeList, Alike d (f m) m)
    (hs : ∀ mode c, k = .command mode c →
      ∀ s, isSentinel s (f (c.target s)) = isSentinel s (c.target s)) :
    kind d ((k.map f).map (part d)) = kind d (k.map (part d)) := by
  rw [Kind.map_map]
  apply kind_congr
  · exact fun m hm => (h m hm).text
  · rintro target iter body rfl
    exact (h target (Kind.mem_nodeList (.head _) (.head _))).name
  · rintro test body orelse rfl
    have below : ∀ m ∈ orelse, Alike d (f m) m := fun m hm =>
      h m (Kind.mem_nodeList (.tail _ (.tail _ (.head _))) hm)
    simpa [part] using isElseIf_rewrite below
  · exact hs

theorem ownFault?_rewrite {k : Kind Json}
    (h : ∀ m ∈ k.nodeList, loopName d (f m) = loopName d m) :
    ownFault? d (k.map f) = ownFault? d k := by
  cases k with
  | forIn target iter body =>
    exact congrArg fault? (h target (Kind.mem_nodeList (.head _) (.head _)))
  | command mode c => cases mode <;> rfl
  | _ => rfl

end
end Render

open Render

/-- A map that a bare command gives for a stream is the sentinel if it has the stream's tag. -/
theorem Opens.target_eq_sentinel {m : Json} {mode : Mode} {c : Command Json} {k : Kind Json}
    {p p' : Option Position} {s : Stream} (h : Opens m (.command mode c) p) (hb : m.StreamsBare)
    (ho : Opens (c.target s) k p') (ht : k.tag = s.tag) : c.target s = s.sentinel := by
  obtain ⟨attrs, rfl, hs | hs⟩ := h.lookup_target s
  · generalize c.target s = target at *
    obtain @⟨_, _, body, known, -, -⟩ := ho
    rw [ht] at hs known ⊢
    have bare := hb _ (by cases mode <;> simp [Kind.tag]) attrs .here s body hs
    cases body with
    | nil => rfl
    | cons a body =>
      have hn := known a.1 (by simp)
      have ha : a.1 ∉ s.tag.attributes := by cases s <;> simp [Stream.tag, Tag.attributes]
      exact absurd (by simp) (bare a.1 (hn.resolve_left ha))
  · exact hs

theorem Opens.isSentinel_eq_false {m : Json} {k : Kind Json} {p : Option Position} {s : Stream}
    (h : Opens m k p) (ht : k.tag ≠ s.tag) : isSentinel s m = false := by
  rw [Bool.eq_false_iff, ne_eq, isSentinel_iff]
  rintro rfl
  have hn : s.tag.name = k.tag.name := Option.some.inj h.tagOf?_eq
  exact ht (Tag.name_injective hn).symm

/-- A rewriting of maps that decode: a map still opens as the same kind, the maps below rewritten,
and sentinels stay as they are. -/
structure KeepsKinds (f : Json → Json) : Prop where
  opens : ∀ {m : Json} {k : Kind Json} {n : Node}, Opens m k n.position →
    k.map decode = n.kind.map .ok → ∃ p, Opens (f m) (k.map f) p
  sentinel : ∀ s : Stream, f s.sentinel = s.sentinel

namespace KeepsKinds
variable {f : Json → Json} (hf : KeepsKinds f)
include hf

theorem opens_of_decode {m : Json} {n : Node} (h : decode m = .ok n) :
    ∃ k p, Opens m k n.position ∧ Opens (f m) (k.map f) p := by
  obtain ⟨k, ho, hk⟩ := decode_eq_ok.mp h
  obtain ⟨p, hp⟩ := hf.opens ho hk
  exact ⟨k, p, ho, hp⟩

/-- A bare command redirects the same streams after the maps below it are rewritten. -/
theorem isSentinel_target {m : Json} {mode : Mode} {c : Command Json} {p : Option Position}
    {s : Stream} {n : Node} (h : Opens m (.command mode c) p) (hb : m.StreamsBare)
    (hn : decode (c.target s) = .ok n) :
    isSentinel s (f (c.target s)) = isSentinel s (c.target s) := by
  obtain ⟨k, q, ho, hq⟩ := hf.opens_of_decode hn
  by_cases ht : k.tag = s.tag
  · rw [h.target_eq_sentinel hb ho ht, hf.sentinel]
  · rw [ho.isSentinel_eq_false ht, hq.isSentinel_eq_false (by rwa [Kind.tag_map])]

theorem render_eq (d : Dialect) {m : Json} {n : Node} (h : decode m = .ok n)
    (hb : m.StreamsBare) : render d (f m) = render d m := by
  induction n using Node.induction generalizing m with
  | step k p ih =>
    obtain ⟨k', ho, hk⟩ := decode_eq_ok.mp h
    obtain ⟨p', ho'⟩ := hf.opens ho hk
    rw [render_of_opens d ho, render_of_opens d ho']
    apply kind_rewrite
    · intro c hc
      obtain ⟨n, hn, hdec⟩ := Kind.mem_of_map_ok hk hc
      obtain ⟨kc, q, hq, hq'⟩ := hf.opens_of_decode hdec
      refine ⟨?_, ?_, ?_⟩
      · rcases ho.inside_or_sentinel hc with hi | ⟨s, rfl⟩
        · exact ih n hn hdec (hb.inside hi)
        · rw [hf.sentinel]
      · rw [loopName_of_opens d hq, loopName_of_opens d hq', Kind.loopName_map]
      · rw [hq.tagOf?_eq, hq'.tagOf?_eq, Kind.tag_map]
    · rintro mode c rfl s
      obtain ⟨n, -, hdec⟩ := Kind.mem_of_map_ok hk (c.target_mem mode s)
      exact hf.isSentinel_target ho hb hdec

/-- A rewriting that keeps kinds keeps errors, whatever it does to sentinels. -/
theorem fault?_render_eq (d : Dialect) {m : Json} {n : Node} (h : decode m = .ok n) :
    fault? (render d (f m)) = fault? (render d m) := by
  induction n using Node.induction generalizing m with
  | step k p ih =>
    obtain ⟨k', ho, hk⟩ := decode_eq_ok.mp h
    obtain ⟨p', ho'⟩ := hf.opens ho hk
    have opens : ∀ c ∈ k'.nodeList, ∃ kc q q', Opens c kc q ∧ Opens (f c) (kc.map f) q' := by
      intro c hc
      obtain ⟨n, -, hn⟩ := Kind.mem_of_map_ok hk hc
      obtain ⟨kc, q', hq, hq'⟩ := hf.opens_of_decode hn
      exact ⟨kc, _, q', hq, hq'⟩
    have own : ownFault? d (k'.map f) = ownFault? d k' := by
      apply ownFault?_rewrite
      intro c hc
      obtain ⟨kc, q, q', hq, hq'⟩ := opens c hc
      rw [loopName_of_opens d hq, loopName_of_opens d hq', Kind.loopName_map]
    have below : (k'.map fun c => fault? (render d (f c))) =
        k'.map fun c => fault? (render d c) := by
      apply Kind.map_congr
      intro c hc
      obtain ⟨n, hn, hdec⟩ := Kind.mem_of_map_ok hk hc
      exact ih n hn hdec
    have order : ((k'.map f).renderOrder.findSome? fun c => fault? (render d c)) =
        k'.renderOrder.findSome? fun c => fault? (render d c) := by
      have hm := congrArg (fun l => l.renderOrder.findSome? id) below
      simp only [Kind.renderOrder_map, List.findSome?_map, Function.id_comp] at hm ⊢
      exact hm
    rw [render_of_opens d ho, render_of_opens d ho', fault?_kind, fault?_kind, own, order]
    · intro c hc
      obtain ⟨kc, q, -, hq, -⟩ := opens c hc
      exact ⟨kc, q, hq⟩
    · intro c hc
      rw [Kind.nodeList_map] at hc
      obtain ⟨b, hb, rfl⟩ := List.mem_map.mp hc
      obtain ⟨kb, -, q', -, hq'⟩ := opens b hb
      exact ⟨_, q', hq'⟩

end KeepsKinds

theorem Json.keepsKinds_normalize : KeepsKinds normalize where
  opens {m k n} ho hk := by
    rw [ho.normalize]
    refine ⟨none, opens_encodeKind ?_⟩
    intro c hc
    rw [Kind.nodeList_map] at hc
    obtain ⟨m, hm, rfl⟩ := List.mem_map.mp hc
    obtain ⟨n, -, hn⟩ := Kind.mem_of_map_ok hk hm
    obtain ⟨k', h, -⟩ := decode_eq_ok.mp hn
    exact ⟨_, h.normalize⟩
  sentinel := normalize_sentinel

/-- A map that decodes is rendered like its tree, whatever it leaves out, in whatever order its keys
are and wherever it carries positions, but for those on streams that go where they go anyway. -/
theorem render_eq_renderNode_of_decode (d : Dialect) {m : Json} {n : Node} (h : decode m = .ok n)
    (hb : m.StreamsBare) : render d m = renderNode d n := by
  rw [renderNode, encode_of_decode h, Json.keepsKinds_normalize.render_eq d h hb]

/-- A command in the background with a position, its keys in another order. It leaves its input
out, gives its error stream bare, and sends its output to the error stream by a map with a
position. -/
def mergedCommand : Json :=
  .obj [("Command", .obj [("lineno", .num (.int 5 (by decide))), ("background", .bool true),
    ("stderr", .obj [("StdErr", .obj [])]),
    ("stdout", .obj [("StdErr", .obj [("column", .num (.int 9 (by decide)))])]),
    ("args", .arr [.obj [("Var", .obj [("column", .num (.int 8 (by decide))),
      ("name", .str "x")])]])])]

def mergedCommandTree : Node :=
  ⟨.command .streamed ⟨[⟨.var "x", some ⟨1, 8⟩⟩], Node.stream .input,
    ⟨.stream .error, some ⟨1, 9⟩⟩, Node.stream .error, true⟩, some ⟨5, 1⟩⟩

theorem streamsBare_mergedCommand : mergedCommand.StreamsBare := by
  intro t ht attrs hi s body hs
  simp [mergedCommand, Json.inside_obj, Json.inside_arr, Json.not_inside_leaf, Json.kind] at hi
  have bare : body = [] := by
    rcases hi with ⟨-, rfl⟩ | ⟨-, rfl⟩ | ⟨-, rfl⟩ | ⟨-, rfl⟩ <;> cases s <;>
      simp [List.lookup_cons, Stream.attr, Stream.tag, Tag.name] at hs
    exact hs
  simp [bare]

theorem render_mergedCommand : decode mergedCommand = .ok mergedCommandTree ∧
    render .fish mergedCommand = renderNode .fish mergedCommandTree :=
  ⟨by rfl, render_eq_renderNode_of_decode .fish (by rfl) streamsBare_mergedCommand⟩

end ShellTree
