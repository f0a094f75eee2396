import ShellTree.Proofs.Render.Redirection
import ShellTree.Proofs.Text.Abreast

/-! Scopes of assignments in texts. Two of the three dialects do not write them. Fish shows each of
them, in the same place and with as many characters whatever it is. -/
namespace ShellTree
open Outcome Render Text

/-- The kind with the scope of an assignment set to global. -/
def Kind.global {ν : Type} : Kind ν → Kind ν
  | .assign name value _ => .assign name value .global
  | k => k

/-- The tree with the scopes of all its assignments set to global. -/
def Node.unscoped : Node → Node := Node.fold fun k p => ⟨k.global, p⟩

/-- Trees that are the same but for positions and for scopes. -/
inductive SameButScopes : Node → Node → Prop
  | level {z : Kind (Node × Node)} {p q : Option Position}
    (below : ∀ c ∈ z.nodeList, SameButScopes c.1 c.2) :
    SameButScopes ⟨z.map Prod.fst, p⟩ ⟨z.map Prod.snd, q⟩
  | assign {name : String} {v w : Node} (s s' : Scope) {p q : Option Position}
    (value : SameButScopes v w) : SameButScopes ⟨.assign name v s, p⟩ ⟨.assign name w s', q⟩

namespace Kind
variable {ν ρ : Type}

theorem global_map (f : ν → ρ) (k : Kind ν) : (k.map f).global = k.global.map f := by
  cases k <;> rfl

@[simp] theorem nodeList_global (k : Kind ν) : k.global.nodeList = k.nodeList := by
  cases k <;> rfl

theorem global_eq_self {k : Kind ν} (h : k.global.tag ≠ .assign) : k.global = k := by
  cases k with
  | assign => exact absurd rfl h
  | _ => rfl

theorem exists_scope {k : Kind ν} {name : String} {value : ν} {s : Scope}
    (h : k.global = .assign name value s) : ∃ s, k = .assign name value s := by
  cases k <;> cases h
  exact ⟨_, rfl⟩

/-! What gives a loop its name, and what stands for a stream, are leaves. -/

theorem nodeList_of_stream {ν : Type} {k : Kind ν} {s : Stream} (h : k.tag = s.tag) :
    k.nodeList = [] := by
  have names := k.attributes_names
  have leaf : s.tag.attributes = [] := by cases s <;> rfl
  rw [h, leaf, List.map_eq_nil_iff] at names
  rw [Kind.nodeList, names, List.flatMap_nil]

theorem nodeList_of_loopName {ν : Type} {d : Dialect} {k : Kind ν} {s : String}
    (h : k.loopName d = .ok s) : k.nodeList = [] := by
  cases k with
  | var | envVar => rfl
  | _ => cases h

end Kind

namespace Node

theorem unscoped_mk (k : Kind Node) (p : Option Position) :
    unscoped ⟨k, p⟩ = ⟨k.global.map unscoped, p⟩ := by
  rw [unscoped, fold_mk, Kind.global_map]

end Node

theorem sameButScopes_of_unscoped {a b : Node} (h : a.unscoped.erase = b.unscoped.erase) :
    SameButScopes a b := by
  induction a using Node.induction generalizing b with
  | step k p ih =>
    obtain ⟨k', p'⟩ := b
    simp only [Node.unscoped_mk, Node.erase_mk, Kind.map_map, Node.mk.injEq, and_true] at h
    obtain ⟨z, hz, hz', hc⟩ := Kind.exists_zip h
    have below : ∀ c ∈ z.nodeList, SameButScopes c.1 c.2 := by
      intro c hmem
      refine ih c.1 ?_ (hc c hmem)
      rw [← k.nodeList_global, ← hz, Kind.nodeList_map]
      exact List.mem_map_of_mem hmem
    by_cases ht : z.tag = .assign
    · cases z with
      | assign name value s =>
        obtain ⟨s, rfl⟩ := Kind.exists_scope hz.symm
        obtain ⟨s', rfl⟩ := Kind.exists_scope hz'.symm
        exact .assign s s' (below value (Kind.mem_nodeList (.tail _ (.head _)) (.head _)))
      | stream s => cases s <;> cases ht
      | command mode c => cases mode <;> cases ht
      | logic op lhs rhs => cases op <;> cases ht
      | _ => cases ht
    · have hk : k.global.tag ≠ .assign := by rwa [← hz, Kind.tag_map]
      have hk' : k'.global.tag ≠ .assign := by rwa [← hz', Kind.tag_map]
      rw [← Kind.global_eq_self hk, ← Kind.global_eq_self hk', ← hz, ← hz']
      exact .level below

/-- Two trees that are the same, their positions left aside. -/
abbrev SamePair (c : Node × Node) : Prop := c.1.erase = c.2.erase

theorem samePair_level {z : Kind (Node × Node)} {p q : Option Position} :
    SamePair (⟨z.map Prod.fst, p⟩, ⟨z.map Prod.snd, q⟩) ↔ ∀ c ∈ z.nodeList, SamePair c := by
  rw [SamePair, Node.erase_mk, Node.erase_mk, Kind.map_map, Kind.map_map, Node.mk.injEq,
    Kind.map_eq_map_iff]
  exact and_iff_left rfl

namespace SameButScopes
variable {a b : Node}

theorem tag_eq (h : SameButScopes a b) : a.tag = b.tag := by
  cases h with
  | level => rw [Node.tag, Node.tag, Kind.tag_map, Kind.tag_map]
  | assign => rfl

theorem loopName_eq (d : Dialect) (h : SameButScopes a b) :
    a.kind.loopName d = b.kind.loopName d := by
  cases h with
  | level => rw [Kind.loopName_map, Kind.loopName_map]
  | assign => rfl

theorem isSentinel_eq (s : Stream) (h : SameButScopes a b) :
    isSentinel s (encode a) = isSentinel s (encode b) := by
  rw [isSentinel_encode, isSentinel_encode, Node.same_stream, Node.same_stream, h.tag_eq]

/-- Scopes are the values of assignments alone, which are no leaves. -/
theorem erase_eq_of_leaf (h : SameButScopes a b) (leaf : a.kind.nodeList = []) :
    a.erase = b.erase := by
  cases h with
  | @level z _ _ below =>
    rw [Kind.nodeList_map, List.map_eq_nil_iff] at leaf
    apply samePair_level.mpr
    rw [leaf]
    exact nofun
  | assign => cases leaf

theorem tags_eq {cs : List (Node × Node)} (h : ∀ c ∈ cs, SameButScopes c.1 c.2) :
    (cs.map Prod.fst).map Node.tag = (cs.map Prod.snd).map Node.tag := by
  rw [List.map_map, List.map_map]
  exact List.map_congr_left fun c hc => (h c hc).tag_eq

/-- Where scopes are not written they are not seen. -/
theorem renderNode_eq {d : Dialect} {write : String → String → String}
    (hd : d.phrasing.assign = .unscoped write) (h : SameButScopes a b) :
    renderNode d a = renderNode d b := by
  induction h with
  | @level z p q below ih =>
    rw [renderNode_mk, renderNode_mk, Kind.map_map, Kind.map_map]
    apply kind_congr
    · exact ih
    · rintro target iter body rfl
      have hc := below target (Kind.mem_nodeList (.head _) (.head _))
      simp only [Function.comp_apply, nodePart, loopName_encode]
      exact hc.loopName_eq d
    · rintro test body orelse rfl
      have tags : (orelse.map Prod.fst).map Node.tag = (orelse.map Prod.snd).map Node.tag :=
        tags_eq fun c hc => below c (Kind.mem_nodeList (.tail _ (.tail _ (.head _))) hc)
      have seen : ∀ f : Node × Node → Node,
          orelse.map (fun c => (nodePart d (f c)).source) = (orelse.map f).map encode := by
        intro f
        rw [List.map_map]
        rfl
      simp only [Function.comp_apply, seen, isElseIf_encode, tags]
    · rintro mode c rfl s
      exact (below _ (c.target_mem mode s)).isSentinel_eq s
  | assign s s' _ ih =>
    rw [renderNode_mk, renderNode_mk]
    simp only [Kind.map, kind, hd, nodePart, ih]

end SameButScopes

/-- Fish fails alike on two trees, or their texts run abreast and are the same just when the trees
are. -/
def FishAgree (c : Node × Node) : Prop :=
  Agree (Abreast (SamePair c)) (renderNode .fish c.1) (renderNode .fish c.2)

namespace Render.Fish

theorem agree_texts {cs : List (Node × Node)} (h : ∀ c ∈ cs, FishAgree c) :
    Agree (AbreastAll SamePair cs)
      (texts ((cs.map Prod.fst).map (nodePart .fish)))
      (texts ((cs.map Prod.snd).map (nodePart .fish))) := by
  rw [texts_nodePart, texts_nodePart]
  induction cs with
  | nil => exact .ok .nil
  | cons c cs ih =>
    obtain ⟨hc, hcs⟩ := List.forall_mem_cons.mp h
    exact hc.bind fun s t hst => (ih hcs).bind fun ss ts hss => .ok (.cons hst hss)

/-- An empty block is empty in fish, so that it is no special case. -/
theorem indentBlock_eq (ts : List String) :
    indentBlock .fish ts = indent Phrasing.fish.unit (String.join ts) := by
  cases ts <;> rfl

theorem abreast_block {P : Node × Node → Prop} {cs : List (Node × Node)} {ss ts : List String}
    (h : AbreastAll P cs ss ts) :
    Abreast (∀ c ∈ cs, P c) (indentBlock .fish ss) (indentBlock .fish ts) := by
  rw [indentBlock_eq, indentBlock_eq]
  exact h.join.indent _

theorem agree_segment {c : Node × Node} (h : SameButScopes c.1 c.2) (hc : FishAgree c)
    (s : Stream) : Agree (Abreast (SamePair c))
      (segment .fish s (nodePart .fish c.1)) (segment .fish s (nodePart .fish c.2)) := by
  have seen : isSentinel s (nodePart .fish c.1).source = isSentinel s (nodePart .fish c.2).source :=
    h.isSentinel_eq s
  rw [segment, segment, ← seen]
  split
  · next hs =>
    rw [nodePart, isSentinel_encode, Node.same_stream, decide_eq_true_iff] at hs
    have same := h.erase_eq_of_leaf (Kind.nodeList_of_stream hs)
    exact .ok ((Abreast.refl "").of_iff (iff_of_true trivial same))
  · refine hc.bind fun t t' ht => .ok ?_
    exact ht.before _

theorem agree_line {mode : Mode} {c : Command (Node × Node)}
    (below : ∀ n ∈ (Kind.command mode c).nodeList, SameButScopes n.1 n.2)
    (ih : ∀ n ∈ (Kind.command mode c).nodeList, FishAgree n) :
    Agree (Abreast ((∀ n ∈ c.args, SamePair n) ∧
        SamePair c.stdin ∧ SamePair c.stdout ∧ SamePair c.stderr))
      (line .fish ((c.map Prod.fst).map (nodePart .fish)))
      (line .fish ((c.map Prod.snd).map (nodePart .fish))) := by
  have args := agree_texts fun n hn => ih n (Kind.mem_nodeList (.head _) hn)
  have stream : ∀ s, Agree (Abreast (SamePair (c.target s)))
      (segment .fish s (nodePart .fish (c.target s).1))
      (segment .fish s (nodePart .fish (c.target s).2)) := by
    intro s
    have hs := c.target_mem mode s
    exact agree_segment (below _ hs) (ih _ hs) s
  refine args.bind fun as as' ha => (stream .error).bind fun e e' he =>
    (stream .output).bind fun o o' ho => (stream .input).bind fun i i' hi => .ok ?_
  have whole := (((ha.intercalate " ").append he).append ho).append hi
  refine (whole.behind (if c.background then Phrasing.fish.background else "")).of_iff ?_
  -- The streams are written the other way round than they are declared.
  simp only [AttrValue.nodeList, Command.target]
  tauto

theorem abreast_rest {P : Node × Node → Prop} {cs : List (Node × Node)} {ss ts : List String}
    (below : ∀ c ∈ cs, SameButScopes c.1 c.2) (h : AbreastAll P cs ss ts) :
    Abreast (∀ c ∈ cs, P c) (rest .fish ((cs.map Prod.fst).map (nodePart .fish)) ss)
      (rest .fish ((cs.map Prod.snd).map (nodePart .fish)) ts) := by
  rw [rest_nodePart, rest_nodePart, SameButScopes.tags_eq below, h.isEmpty_eq]
  split
  · next hts =>
    cases h with
    | nil => exact (Abreast.refl _).of_iff (by simp)
    | cons => cases hts
  · split
    · exact h.join.before _
    · exact (abreast_block h).between _ _

/-- One level of two trees that differ in nothing there. -/
theorem agree_level {z : Kind (Node × Node)} (below : ∀ c ∈ z.nodeList, SameButScopes c.1 c.2)
    (ih : ∀ c ∈ z.nodeList, FishAgree c) :
    Agree (Abreast (∀ c ∈ z.nodeList, SamePair c))
      (kind .fish ((z.map Prod.fst).map (nodePart .fish)))
      (kind .fish ((z.map Prod.snd).map (nodePart .fish))) := by
  have one : ∀ {name c}, (name, AttrValue.node c) ∈ z.attributes → FishAgree c :=
    fun ha => ih _ (Kind.mem_nodeList ha (.head _))
  have all : ∀ {name cs}, (name, AttrValue.nodes cs) ∈ z.attributes →
      Agree (AbreastAll SamePair cs) (texts ((cs.map Prod.fst).map (nodePart .fish)))
        (texts ((cs.map Prod.snd).map (nodePart .fish))) :=
    fun ha => agree_texts fun c hc => ih c (Kind.mem_nodeList ha hc)
  rw [Kind.forall_mem_nodeList]
  cases z <;> simp only [Kind.attributes, AttrValue.nodeList, List.forall_mem_cons,
    List.not_mem_nil, false_imp_iff, implies_true, and_true, true_and]
  case script body => exact (all (.head _)).bind fun ss ts h => .ok h.join
  case string parts => exact (all (.head _)).bind fun ss ts h => .ok (h.join.between "\"" "\"")
  case command mode c =>
    have hl := agree_line below ih
    cases mode with
    | streamed => exact hl.bind fun s t h => .ok h
    | captured =>
      simp only [kind, Kind.map, Command.map]
      split
      · exact .error _
      · exact hl.bind fun s t h => .ok (h.between "(" ")")
  case logic op lhs rhs =>
    refine (one (.head _)).bind fun s t h => (one (.tail _ (.head _))).bind fun s' t' h' => .ok ?_
    exact (((h.behind " ").behind (Phrasing.fish.connective op)).behind " ").append h'
  case not node => exact (one (.head _)).bind fun s t h => .ok (h.before "not ")
  case statement node => exact (one (.head _)).bind fun s t h => .ok (h.behind "\n")
  case assign name value _ | envAssign name value | aliasAssign name value =>
    exact (one (.tail _ (.head _))).bind fun s t h => .ok (h.between _ "\n")
  case ifElse test body orelse =>
    refine (one (.head _)).bind fun s t h => (all (.tail _ (.head _))).bind fun ss ts hb =>
      (all (.tail _ (.tail _ (.head _)))).bind fun ss' ts' ho => .ok ?_
    have branch := abreast_rest
      (fun c hc => below c (Kind.mem_nodeList (.tail _ (.tail _ (.head _))) hc)) ho
    have whole := ((h.between "if " "\n").append (abreast_block hb)).append branch
    exact whole.of_iff and_assoc
  case forIn target iter body =>
    have ht := below target (Kind.mem_nodeList (.head _) (.head _))
    simp only [kind, Kind.map, nodePart, loopName_encode, ← ht.loopName_eq]
    cases hn : target.1.kind.loopName .fish with
    | error e => exact .error e
    | ok loop =>
      -- The target is not written, but then it has no scope in it.
      have same : SamePair target := ht.erase_eq_of_leaf (Kind.nodeList_of_loopName hn)
      refine (one (.tail _ (.head _))).bind fun s t h =>
        (all (.tail _ (.tail _ (.head _)))).bind fun ss ts hb => .ok ?_
      have header := h.between ("for " ++ loop ++ " in ") "\n"
      have whole := (header.append (abreast_block hb)).behind "end\n"
      exact whole.of_iff (and_iff_right same).symm
  case function name body =>
    exact (all (.tail _ (.head _))).bind fun ss ts h => .ok ((abreast_block h).between _ "end\n")
  all_goals exact .ok (.refl _)

/-- The option that says in which scope a variable is set. -/
def option : Scope → String
  | .localOnly => "-l"
  | .global => "-g"

/-- Options have one length, and each scope has its own. -/
theorem abreast_option (s s' : Scope) : Abreast (s = s') (option s) (option s') := by
  have letters : ∀ c c' : Char, Level c c' → List.Forall₂ Level ['-', c] ['-', c'] :=
    fun c c' h => .cons ⟨rfl, Iff.rfl⟩ (.cons h .nil)
  constructor
  · cases s <;> cases s' <;> exact letters _ _ ⟨rfl, by decide⟩
  · cases s <;> cases s' <;> decide

theorem abreast_assign {P : Prop} {v w : String} (h : Abreast P v w) (s s' : Scope)
    (name : String) : Abreast (s = s' ∧ P)
      ("set " ++ option s ++ " " ++ name ++ " " ++ v ++ "\n")
      ("set " ++ option s' ++ " " ++ name ++ " " ++ w ++ "\n") := by
  have start := ((((abreast_option s s').before "set ").behind " ").behind name).behind " "
  exact (start.append h).behind "\n"

end Render.Fish

open Render.Fish in
theorem SameButScopes.fishAgree {a b : Node} (h : SameButScopes a b) : FishAgree (a, b) := by
  induction h with
  | @level z p q below ih =>
    rw [FishAgree, renderNode_mk, renderNode_mk]
    exact (agree_level below ih).imp fun s t hst => hst.of_iff samePair_level.symm
  | @assign name v w s s' p q _ ih =>
    rw [FishAgree, renderNode_mk, renderNode_mk]
    refine ih.bind fun t t' ht => .ok ?_
    refine (abreast_assign ht s s' name).of_iff ?_
    rw [SamePair, SamePair, Node.erase_mk, Node.erase_mk]
    simp [Kind.map, and_comm]

/-- Scopes are seen in fish alone, and there each of them is. Trees that are the same but for the
scopes of their assignments, wherever these are, are rendered alike in bash and in xonsh. In fish
both fail in the same way, or their texts have one length and are the same just when the trees
are. -/
theorem renderNode_of_unscoped {a b : Node} (h : a.unscoped.same b.unscoped = true) :
    renderNode .bash a = renderNode .bash b ∧ renderNode .xonsh a = renderNode .xonsh b ∧
      ((∃ e, renderNode .fish a = .error e ∧ renderNode .fish b = .error e) ∨
        ∃ s t, renderNode .fish a = .ok s ∧ renderNode .fish b = .ok t ∧ s.length = t.length ∧
          s.utf8ByteSize = t.utf8ByteSize ∧ (s = t ↔ a.same b = true)) := by
  have hs : SameButScopes a b := sameButScopes_of_unscoped ((Node.same_iff_erase _ _).mp h)
  refine ⟨hs.renderNode_eq rfl, hs.renderNode_eq rfl, ?_⟩
  have agree : Agree (Abreast (a.erase = b.erase)) (renderNode .fish a) (renderNode .fish b) :=
    hs.fishAgree
  generalize renderNode .fish a = x, renderNode .fish b = y at agree
  cases agree with
  | error e => exact .inl ⟨e, rfl, rfl⟩
  | @ok s t h =>
    refine .inr ⟨s, t, rfl, rfl, h.length_eq, h.utf8ByteSize_eq, ?_⟩
    rw [Node.same_iff_erase]
    exact h.same

/-- A loop with an assignment in its body and another one deeper in. -/
def scopedLoop (s s' : Scope) : Node :=
  .forIn (.var "x") (.raw "*") [.assign "y" (.captured [.raw "pwd"]) s,
    .ifElse (.var "y") [.assign "z" (.raw "a\nb") s'] []]

theorem renderNode_scopedLoop :
    (scopedLoop .localOnly .global).unscoped.same
        ((scopedLoop .global .global).placed ⟨2, 1⟩).unscoped = true ∧
      renderNode .bash (scopedLoop .localOnly .global) =
        renderNode .bash ((scopedLoop .global .global).placed ⟨2, 1⟩) ∧
      renderNode .fish (scopedLoop .localOnly .global) =
        .ok ("for x in *\n    set -l y (pwd)\n    if $y\n        set -g z a\n        b\n" ++
          "    end\nend\n") ∧
      renderNode .fish (scopedLoop .localOnly .global) ≠
        renderNode .fish ((scopedLoop .global .global).placed ⟨2, 1⟩) := by
  have h : (scopedLoop .localOnly .global).unscoped.same
      ((scopedLoop .global .global).placed ⟨2, 1⟩).unscoped = true := by rfl
  have differ : (scopedLoop .localOnly .global).same
      ((scopedLoop .global .global).placed ⟨2, 1⟩) = false := by rfl
  obtain ⟨bash, -, ⟨e, he, -⟩ | ⟨s, t, hs, ht, -, -, same⟩⟩ := renderNode_of_unscoped h
  · cases he
  · refine ⟨h, bash, by rfl, ?_⟩
    rw [hs, ht, ne_eq, Except.ok.injEq, same, differ]
    decide

end ShellTree
