import ShellTree.Proofs.Render.Order
import ShellTree.Proofs.Render.Redirection
import ShellTree.Proofs.Text.InOrder

/-! The names and values in a tree. All of them can be found in its text, in the order in which the
tree is rendered. -/
namespace ShellTree
open Outcome Text Render

section
variable {ν ρ : Type}

/-- The names and values in an attribute, given those in the nodes of it. -/
def AttrValue.literals : AttrValue (List String) → List String
  | .node xs => xs
  | .nodes xss => xss.flatten
  | .text s => [s]
  | .flag _ | .scope _ => []

namespace Kind

/-- The attributes in the order in which they are rendered. Only the streams of a command are not in
declared order. -/
def renderedValues : Kind ν → List (AttrValue ν)
  | .command _ c =>
    [.nodes c.args, .node c.stderr, .node c.stdout, .node c.stdin, .flag c.background]
  | k => k.attributes.map (·.2)

theorem renderedValues_map (f : ν → ρ) (k : Kind ν) :
    (k.map f).renderedValues = k.renderedValues.map (AttrValue.map f) := by
  cases k <;> rfl

theorem renderOrder_eq_flatMap (k : Kind ν) :
    k.renderOrder = k.renderedValues.flatMap AttrValue.nodeList := by
  cases k with
  | command => rfl
  | _ => simp only [renderOrder, nodeList, renderedValues, List.flatMap_map]

end Kind
end

namespace Node

/-- The names and values in a tree, in the order in which they are rendered. -/
def literals : Node → List String :=
  fold fun k _ => (k.renderedValues.map AttrValue.literals).flatten

theorem literals_mk (k : Kind Node) (p : Option Position) :
    literals ⟨k, p⟩ = ((k.map literals).renderedValues.map AttrValue.literals).flatten :=
  fold_mk _ k p

theorem literals_subset {k : Kind Node} {p : Option Position} {c : Node} (h : c ∈ k.nodeList) :
    c.literals ⊆ literals ⟨k, p⟩ := by
  rw [← Kind.mem_renderOrder, Kind.renderOrder_eq_flatMap] at h
  obtain ⟨v, hv, hc⟩ := List.mem_flatMap.mp h
  intro x hx
  have below : x ∈ (v.map literals).literals := by
    cases v with
    | node n =>
      obtain rfl := List.mem_singleton.mp hc
      exact hx
    | nodes ns => exact List.mem_flatten_of_mem (List.mem_map_of_mem hc) hx
    | _ => cases hc
  rw [literals_mk, Kind.renderedValues_map, List.map_map]
  exact List.mem_flatten_of_mem (List.mem_map_of_mem hv) below

/-- No name or value in the tree has a line break in it. -/
def OneLineLiterals (n : Node) : Prop := ∀ x ∈ n.literals, '\n' ∉ x.toList

end Node

namespace Text.InOrder

theorem single (s x r : String) : InOrder [x] (s ++ x ++ r) := .cons s x (.nil r)

theorem pair (s x r y q : String) : InOrder [x, y] (s ++ x ++ r ++ y ++ q) :=
  ((single s x r).append (self y)).append_right q

end Text.InOrder

/-- The phrases of a dialect hold what they are given, in the order in which it is given. -/
structure Phrasing.Shows (ph : Phrasing) : Prop where
  var : ∀ name, InOrder [name] (ph.var name)
  assign : match ph.assign with
    | .unscoped write => ∀ name value, InOrder [name, value] (write name value)
    | .scoped write => ∀ scope name value, InOrder [name, value] (write scope name value)
  envAssign : ∀ name value, InOrder [name, value] (ph.envAssign name value)
  delete : ∀ name, InOrder [name] (ph.delete name)
  envDelete : ∀ name, InOrder [name] (ph.envDelete name)
  aliasAssign : ∀ name value, InOrder [name, value] (ph.aliasAssign name value)
  aliasDelete : ∀ name, InOrder [name] (ph.aliasDelete name)
  ifHeader : ∀ test, InOrder [test] (ph.ifHeader test)
  envTarget : ∀ name, InOrder [name] (ph.envTarget name)
  forHeader : ∀ target iter, InOrder [target, iter] (ph.forHeader target iter)
  functionHeader : ∀ name, InOrder [name] (ph.functionHeader name)

theorem Dialect.shows (d : Dialect) : d.phrasing.Shows where
  var name := by
    cases d with
    | xonsh => exact .self name
    | _ => exact (InOrder.self name).append_left _
  assign := by
    cases d with
    | fish => exact fun _ name value => .pair _ name _ value _
    | _ =>
      exact fun name value =>
        (((InOrder.self name).append_right _).append (.self value)).append_right _
  envAssign name value := by cases d <;> exact .pair _ name _ value _
  delete name := by cases d <;> exact .single _ name _
  envDelete name := by cases d <;> exact .single _ name _
  aliasAssign name value := by cases d <;> exact .pair _ name _ value _
  aliasDelete name := by cases d <;> exact .single _ name _
  ifHeader test := by cases d <;> exact .single _ test _
  envTarget name := by
    cases d with
    | fish => exact .self name
    | _ => exact (InOrder.self name).append_left _
  forHeader target iter := by cases d <;> exact .pair _ target _ iter _
  functionHeader name := by cases d <;> exact .single _ name _

namespace Render
variable {d : Dialect}

/-- All names and values in a node are found in its text. -/
def Shown (d : Dialect) (n : Node) : Prop := ∀ t, renderNode d n = .ok t → InOrder n.literals t

theorem forall₂_literals {ns : List Node} {ts : List String} (h : ∀ n ∈ ns, Shown d n)
    (hts : ns.map (renderNode d) = ts.map .ok) :
    List.Forall₂ InOrder (ns.map Node.literals) ts := by
  induction ns generalizing ts with
  | nil =>
    obtain rfl := List.map_eq_nil_iff.mp hts.symm
    exact .nil
  | cons n ns ih =>
    obtain ⟨hn, hns⟩ := List.forall_mem_cons.mp h
    obtain ⟨t, ts, rfl, ht, hts⟩ := List.map_eq_cons_iff.mp hts.symm
    exact .cons (hn t ht.symm) (ih hns hts.symm)

theorem inOrder_join {xss : List (List String)} {ts : List String}
    (h : List.Forall₂ InOrder xss ts) : InOrder xss.flatten (String.join ts) :=
  (InOrder.join ts).trans h

theorem inOrder_indentBlock {xss : List (List String)} {ts : List String}
    (h : List.Forall₂ InOrder xss ts) (line : ∀ x ∈ xss.flatten, '\n' ∉ x.toList) :
    InOrder xss.flatten (indentBlock d ts) := by
  cases ts with
  | nil =>
    cases h
    exact .nil _
  | cons t ts => exact (inOrder_join h).indent _ line

/-- A block is found whole in an `orelse`, and so is an else-if. -/
theorem inOrder_rest {orelse : List Part} {xss : List (List String)} {ts : List String}
    (h : List.Forall₂ InOrder xss ts) (line : ∀ x ∈ xss.flatten, '\n' ∉ x.toList) :
    InOrder xss.flatten (rest d orelse ts) := by
  rw [rest]
  split
  · next he =>
    obtain rfl := List.isEmpty_iff.mp he
    cases h
    exact .nil _
  · split
    · exact (inOrder_join h).append_left _
    · exact ((inOrder_indentBlock h line).append_left _).append_right _

/-- The node of a stream that is left alone has no names or values. -/
theorem inOrder_redirection {s : Stream} {n : Node} {text : String} (h : InOrder n.literals text) :
    InOrder n.literals (redirection d s n text) := by
  rw [redirection]
  split
  · next hs =>
    obtain ⟨k, p⟩ := n
    rw [Node.same_stream, decide_eq_true_iff] at hs
    have names : k.attributes.map (·.1) = [] := by
      rw [k.attributes_names, show k.tag = s.tag from hs]
      cases s <;> rfl
    have leaf : k.attributes = (Kind.stream s).attributes := List.map_eq_nil_iff.mp names
    obtain rfl : k = .stream s := Kind.ext_attributes hs leaf
    exact .nil _
  · exact h.append_left _

/-- The name of a loop over a target is, or holds, what the target says. -/
theorem inOrder_loopName {target : Node} {name : String}
    (h : loopName d (encode target) = .ok name) : InOrder target.literals name := by
  obtain ⟨k, p⟩ := target
  rw [loopName_encode] at h
  rw [Node.literals_mk]
  cases k with
  | var x =>
    obtain rfl := Except.ok.inj h
    exact .self x
  | envVar x =>
    obtain rfl := Except.ok.inj h
    exact d.shows.envTarget x
  | _ => cases h

theorem inOrder_lineText {c : Command Node} {args : List String} {dest : Stream → String}
    (ha : List.Forall₂ InOrder (c.args.map Node.literals) args)
    (hs : ∀ s, InOrder (c.target s).literals (dest s)) :
    InOrder ((c.args.map Node.literals).flatten ++ c.stderr.literals ++ c.stdout.literals ++
      c.stdin.literals) (lineText d c args dest) := by
  have error : InOrder c.stderr.literals (redirection d .error c.stderr (dest .error)) :=
    inOrder_redirection (hs .error)
  have output : InOrder c.stdout.literals (redirection d .output c.stdout (dest .output)) :=
    inOrder_redirection (hs .output)
  have input : InOrder c.stdin.literals (redirection d .input c.stdin (dest .input)) :=
    inOrder_redirection (hs .input)
  rw [lineText_eq]
  exact ((((InOrder.intercalate " " args).trans ha |>.append error).append output).append
    input).append_right _

/-- One level of a tree shows its own names and values around those of the nodes below. -/
theorem shown_mk {k : Kind Node} {p : Option Position} (ih : ∀ n ∈ k.nodeList, Shown d n)
    (line : Node.OneLineLiterals ⟨k, p⟩) : Shown d ⟨k, p⟩ := by
  have one : ∀ {name n}, (name, AttrValue.node n) ∈ k.attributes → Shown d n :=
    fun ha => ih _ (Kind.mem_nodeList ha (.head _))
  have all : ∀ {name ns ts}, (name, AttrValue.nodes ns) ∈ k.attributes →
      texts (ns.map (nodePart d)) = .ok ts → List.Forall₂ InOrder (ns.map Node.literals) ts := by
    intro name ns ts ha hts
    exact forall₂_literals (fun n hn => ih n (Kind.mem_nodeList ha hn))
      (texts_nodePart_eq_ok.mp hts)
  have lines : ∀ {name ns}, (name, AttrValue.nodes ns) ∈ k.attributes →
      ∀ x ∈ (ns.map Node.literals).flatten, '\n' ∉ x.toList := by
    intro name ns ha x hx
    obtain ⟨xs, hxs, hx⟩ := List.mem_flatten.mp hx
    obtain ⟨n, hn, rfl⟩ := List.mem_map.mp hxs
    exact line x (Node.literals_subset (Kind.mem_nodeList ha hn) hx)
  intro t ht
  have hk := ht
  rw [renderNode_mk] at hk
  rw [Node.literals_mk]
  cases k with
  | script body =>
    obtain ⟨ts, hts, hk⟩ := bind_eq_ok.mp hk
    obtain rfl := pure_eq_ok.mp hk
    exact (InOrder.self _).trans (.cons (inOrder_join (all (.head _) hts)) .nil)
  | comment value =>
    obtain rfl := pure_eq_ok.mp hk
    exact .single _ value _
  | string parts =>
    obtain ⟨ts, hts, hk⟩ := bind_eq_ok.mp hk
    obtain rfl := pure_eq_ok.mp hk
    exact (InOrder.single _ _ _).trans (.cons (inOrder_join (all (.head _) hts)) .nil)
  | rawString value =>
    obtain rfl := pure_eq_ok.mp hk
    exact .self value
  | var name =>
    obtain rfl := pure_eq_ok.mp hk
    exact d.shows.var name
  | envVar name =>
    obtain rfl := pure_eq_ok.mp hk
    exact (InOrder.self name).append_left _
  | stream => exact .nil _
  | pass => exact .nil _
  | command mode c =>
    obtain ⟨-, args, dest, ha, hs, rfl⟩ := renderNode_command_eq_ok.mp ht
    have args_shown := forall₂_literals (fun n hn => ih n (Kind.mem_nodeList (.head _) hn)) ha
    have shown := inOrder_lineText (d := d) args_shown
      fun s => ih _ (c.target_mem mode s) _ (hs s)
    simpa [Kind.map, Command.map, Kind.renderedValues, AttrValue.literals] using
      (InOrder.single _ _ _).trans (.cons shown .nil)
  | logic op lhs rhs =>
    obtain ⟨l, hl, hk⟩ := bind_eq_ok.mp hk
    obtain ⟨r, hr, hk⟩ := bind_eq_ok.mp hk
    obtain rfl := pure_eq_ok.mp hk
    have both : InOrder [l, r] (l ++ " " ++ d.phrasing.connective op ++ " " ++ r) :=
      ((((InOrder.self l).append_right _).append_right _).append_right _).append (.self r)
    exact both.trans (.cons (one (.head _) l hl) (.cons (one (.tail _ (.head _)) r hr) .nil))
  | not node =>
    obtain ⟨text, hn, hk⟩ := bind_eq_ok.mp hk
    obtain rfl := pure_eq_ok.mp hk
    exact ((InOrder.self text).append_left _).trans (.cons (one (.head _) text hn) .nil)
  | statement node =>
    obtain ⟨text, hn, hk⟩ := bind_eq_ok.mp hk
    obtain rfl := pure_eq_ok.mp hk
    exact ((InOrder.self text).append_right _).trans (.cons (one (.head _) text hn) .nil)
  | assign name value scope =>
    have ha := d.shows.assign
    simp only [kind, Kind.map] at hk
    cases hw : d.phrasing.assign <;>
    · simp only [hw] at hk ha
      obtain ⟨text, hv, hk⟩ := bind_eq_ok.mp hk
      obtain rfl := pure_eq_ok.mp hk
      have hv := one (.tail _ (.head _)) text hv
      simpa [Kind.map, Kind.renderedValues, Kind.attributes, AttrValue.literals] using
        (ha ..).trans (.cons (.self name) (.cons hv .nil))
  | envAssign name value =>
    obtain ⟨text, hv, hk⟩ := bind_eq_ok.mp hk
    obtain rfl := pure_eq_ok.mp hk
    have hv := one (.tail _ (.head _)) text hv
    exact (d.shows.envAssign name text).trans (.cons (.self name) (.cons hv .nil))
  | aliasAssign name value =>
    obtain ⟨text, hv, hk⟩ := bind_eq_ok.mp hk
    obtain rfl := pure_eq_ok.mp hk
    have hv := one (.tail _ (.head _)) text hv
    exact (d.shows.aliasAssign name text).trans (.cons (.self name) (.cons hv .nil))
  | delete name =>
    obtain rfl := pure_eq_ok.mp hk
    exact d.shows.delete name
  | envDelete name =>
    obtain rfl := pure_eq_ok.mp hk
    exact d.shows.envDelete name
  | aliasDelete name =>
    obtain rfl := pure_eq_ok.mp hk
    exact d.shows.aliasDelete name
  | ifElse test body orelse =>
    obtain ⟨text, htest, hk⟩ := bind_eq_ok.mp hk
    obtain ⟨bodies, hbs, hk⟩ := bind_eq_ok.mp hk
    obtain ⟨others, hos, hk⟩ := bind_eq_ok.mp hk
    obtain rfl := pure_eq_ok.mp hk
    have block := inOrder_indentBlock (d := d) (all (.tail _ (.head _)) hbs)
      (lines (.tail _ (.head _)))
    have rest : InOrder (orelse.map Node.literals).flatten
        (Render.rest d (orelse.map (nodePart d)) others) :=
      inOrder_rest (all (.tail _ (.tail _ (.head _))) hos) (lines (.tail _ (.tail _ (.head _))))
    have pieces := ((d.shows.ifHeader text).append (.self (indentBlock d bodies))).append
      (.self (Render.rest d (orelse.map (nodePart d)) others))
    exact pieces.trans (.cons (one (.head _) text htest) (.cons block (.cons rest .nil)))
  | forIn target iter body =>
    obtain ⟨name, hn, hk⟩ := bind_eq_ok.mp hk
    obtain ⟨text, hi, hk⟩ := bind_eq_ok.mp hk
    obtain ⟨bodies, hbs, hk⟩ := bind_eq_ok.mp hk
    obtain rfl := pure_eq_ok.mp hk
    have block := inOrder_indentBlock (d := d) (all (.tail _ (.tail _ (.head _))) hbs)
      (lines (.tail _ (.tail _ (.head _))))
    have pieces := ((d.shows.forHeader name text).append (.self (indentBlock d bodies))).append_right
      d.phrasing.forClose
    exact pieces.trans (.cons (inOrder_loopName hn)
      (.cons (one (.tail _ (.head _)) text hi) (.cons block .nil)))
  | function name body =>
    obtain ⟨bodies, hbs, hk⟩ := bind_eq_ok.mp hk
    obtain rfl := pure_eq_ok.mp hk
    have block := inOrder_indentBlock (d := d) (all (.tail _ (.head _)) hbs)
      (lines (.tail _ (.head _)))
    have pieces := ((d.shows.functionHeader name).append (.self (indentBlock d bodies))).append_right
      d.phrasing.functionClose
    exact pieces.trans (.cons (.self name) (.cons block .nil))

end Render

/-- Nothing that is written in a tree is lost or put elsewhere: the names and values in it stand in
its text, whole, apart, and in the order in which they are rendered. -/
theorem inOrder_renderNode {d : Dialect} {n : Node} (line : n.OneLineLiterals) {t : String}
    (h : renderNode d n = .ok t) : InOrder n.literals t := by
  suffices shown : Shown d n from shown t h
  clear h
  induction n using Node.induction with
  | step k p ih =>
    apply shown_mk
    · exact fun c hc => ih c hc fun x hx => line x (Node.literals_subset hc hx)
    · exact line

/-- A loop over a conditional, in which all streams of a command are redirected. -/
def redirectingLoop : Node :=
  .forIn (.envVar "x") (.raw "*")
    [.ifElse (.var "a")
      [.statement ⟨.command .streamed ⟨[.raw "ls"], .raw "in", .raw "out", .raw "err", true⟩, none⟩]
      [.comment "c"]]

theorem literals_redirectingLoop :
    redirectingLoop.literals = ["x", "*", "a", "ls", "err", "out", "in", "c"] := rfl

theorem inOrder_redirectingLoop :
    let t := "for $x in *:\n    if a:\n        ![ls e> err > out < in &]\n" ++
      "    else:\n        # c\n"
    redirectingLoop.OneLineLiterals ∧ renderNode .xonsh redirectingLoop = .ok t ∧
      InOrder ["x", "*", "a", "ls", "err", "out", "in", "c"] t := by
  intro t
  have line : redirectingLoop.OneLineLiterals := by
    rw [Node.OneLineLiterals, literals_redirectingLoop]
    decide
  have text : renderNode .xonsh redirectingLoop = .ok t := by rfl
  rw [← literals_redirectingLoop]
  exact ⟨line, text, inOrder_renderNode line text⟩

end ShellTree
