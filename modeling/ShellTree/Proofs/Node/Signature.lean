import Mathlib.Data.List.Forall2
import Mathlib.Data.List.Nodup
import ShellTree.Node.Basic

/-! The forms of attributes. A kind is its tag together with values of the forms that the tag
declares, so that what holds of every attribute holds of every node. -/
namespace ShellTree

theorem forall₂_exists_iff {α β γ : Type} {R : α → β → Prop} {S : β → γ → Prop} {as : List α}
    {cs : List γ} : List.Forall₂ (fun a c => ∃ b, R a b ∧ S b c) as cs ↔
      ∃ bs, List.Forall₂ R as bs ∧ List.Forall₂ S bs cs := by
  constructor
  · intro h
    induction h with
    | nil => exact ⟨[], .nil, .nil⟩
    | cons h _ ih =>
      obtain ⟨b, hr, hs⟩ := h
      obtain ⟨bs, hrs, hss⟩ := ih
      exact ⟨b :: bs, .cons hr hrs, .cons hs hss⟩
  · rintro ⟨bs, hr, hs⟩
    induction hr generalizing cs with
    | nil =>
      cases hs
      exact .nil
    | cons h _ ih =>
      obtain _ | ⟨h', hs⟩ := hs
      exact .cons ⟨_, h, h'⟩ (ih hs)

theorem forall₂_mem_left {α β : Type} {R : α → β → Prop} {as : List α} {bs : List β}
    (h : List.Forall₂ R as bs) {a : α} (ha : a ∈ as) : ∃ b ∈ bs, R a b := by
  induction h with
  | nil => simp at ha
  | cons h _ ih =>
    rcases List.mem_cons.mp ha with rfl | ha
    · exact ⟨_, by simp, h⟩
    · obtain ⟨b, hb, h⟩ := ih ha
      exact ⟨b, by simp [hb], h⟩

theorem forall₂_imp_mem {α β : Type} {R S : α → β → Prop} {as : List α} {bs : List β}
    (h : List.Forall₂ R as bs) (hi : ∀ a ∈ as, ∀ b ∈ bs, R a b → S a b) :
    List.Forall₂ S as bs := by
  induction h with
  | nil => exact .nil
  | cons h _ ih =>
    refine .cons (hi _ (by simp) _ (by simp) h) (ih ?_)
    intro a ha b hb
    exact hi a (by simp [ha]) b (by simp [hb])

theorem exists_forall₂ {α β : Type} {R : α → β → Prop} {as : List α}
    (h : ∀ a ∈ as, ∃ b, R a b) : ∃ bs, List.Forall₂ R as bs := by
  induction as with
  | nil => exact ⟨[], .nil⟩
  | cons a as ih =>
    obtain ⟨b, hb⟩ := h a (by simp)
    obtain ⟨bs, hbs⟩ := ih fun c hc => h c (by simp [hc])
    exact ⟨b :: bs, .cons hb hbs⟩

theorem mem_of_lookup {α : Type} {fields : List (String × α)} {name : String} {v : α}
    (h : fields.lookup name = some v) : (name, v) ∈ fields := by
  obtain ⟨l, r, rfl, -⟩ := List.lookup_eq_some_iff.mp h
  simp

theorem lookup_of_mem {α : Type} {fields : List (String × α)} {name : String} {v : α}
    (hd : (fields.map (·.1)).Nodup) (h : (name, v) ∈ fields) : fields.lookup name = some v := by
  induction fields with
  | nil => simp at h
  | cons a fields ih =>
    obtain ⟨name', v'⟩ := a
    obtain ⟨hn, hd⟩ := List.nodup_cons.mp hd
    rcases List.mem_cons.mp h with h' | h'
    · obtain ⟨rfl, rfl⟩ := Prod.mk.inj h'
      simp
    · have hne : name ≠ name' := by
        rintro rfl
        exact hn (List.mem_map.mpr ⟨_, h', rfl⟩)
      rw [List.lookup_cons, beq_false_of_ne hne]
      exact ih hd h'

/-- What an attribute holds. The target of a stream and a flag may be left out. -/
inductive Form where
  | node
  | stream (s : Stream)
  | nodes
  | text
  | flag
  | scope
  deriving DecidableEq, Repr

def Form.optional : Form → Bool
  | .stream _ | .flag => true
  | _ => false

/-- An attribute that is as it was declared: under its name, with a value of its form. -/
inductive Form.Declares {ν : Type} (name : String) : Form → String × AttrValue ν → Prop
  | node (n : ν) : Declares name .node (name, .node n)
  | stream (s : Stream) (n : ν) : Declares name (.stream s) (name, .node n)
  | nodes (ns : List ν) : Declares name .nodes (name, .nodes ns)
  | text (s : String) : Declares name .text (name, .text s)
  | flag (b : Bool) : Declares name .flag (name, .flag b)
  | scope (s : Scope) : Declares name .scope (name, .scope s)

theorem Form.Declares.name {ν : Type} {attr : String} {form : Form} {a : String × AttrValue ν}
    (h : form.Declares attr a) : a.1 = attr := by
  cases h <;> rfl

theorem Form.Declares.of_map {ν ρ : Type} {f : ν → ρ} {attr : String} {form : Form}
    {a : String × AttrValue ν} (h : form.Declares attr (a.1, a.2.map f)) :
    form.Declares attr a := by
  obtain ⟨name, v⟩ := a
  cases v <;> simp only [AttrValue.map] at h <;> cases h <;> constructor

namespace Tag

/-- The declared attributes with their forms, in declared order. -/
def signature : Tag → List (String × Form)
  | .script => [("body", .nodes)]
  | .comment | .rawString => [("value", .text)]
  | .string => [("parts", .nodes)]
  | .var | .envVar | .delete | .envDelete | .aliasDelete => [("name", .text)]
  | .stdIn | .stdOut | .stdErr | .pass => []
  | .command | .capturedCommand =>
    [("args", .nodes), ("stdin", .stream .input), ("stdout", .stream .output),
      ("stderr", .stream .error), ("background", .flag)]
  | .and | .or => [("lhs", .node), ("rhs", .node)]
  | .not | .statement => [("node", .node)]
  | .assign => [("name", .text), ("value", .node), ("scope", .scope)]
  | .envAssign | .aliasAssign => [("name", .text), ("value", .node)]
  | .ifElse => [("test", .node), ("body", .nodes), ("orelse", .nodes)]
  | .forIn => [("target", .node), ("iter", .node), ("body", .nodes)]
  | .function => [("name", .text), ("body", .nodes)]

theorem signature_names (t : Tag) : t.signature.map (·.1) = t.attributes := by cases t <;> rfl

theorem attributes_nodup (t : Tag) : t.attributes.Nodup := by cases t <;> decide +kernel

theorem signature_required (t : Tag) :
    t.required = (t.signature.filter (!·.2.optional)).map (·.1) := by
  cases t <;> decide +kernel

/-- Only a stream is declared under the attribute of that stream. -/
theorem signature_stream {t : Tag} {name : String} {s : Stream}
    (h : (name, Form.stream s) ∈ t.signature) : name = s.attr := by
  cases t <;> simp [signature] at h <;> rcases h with h | h | h <;> simp [h, Stream.attr]

theorem signature_scope {t : Tag} {name : String}
    (h : (name, Form.scope) ∈ t.signature) : name = "scope" := by
  cases t <;> simp [signature] at h
  exact h

theorem ofName?_eq_some {s : String} {t : Tag} : ofName? s = some t ↔ s = t.name := by
  constructor
  · intro h
    have hs := List.find?_some h
    simpa using (beq_iff_eq.mp hs).symm
  · rintro rfl
    exact ofName?_name t

theorem name_injective : Function.Injective name := by
  intro t t' h
  apply Option.some.inj
  rw [← ofName?_name t, ← ofName?_name t', h]

end Tag

theorem Scope.ofName?_eq_some {s : String} {scope : Scope} :
    ofName? s = some scope ↔ s = scope.name := by
  constructor
  · intro h
    have hs := List.find?_some h
    simpa using (beq_iff_eq.mp hs).symm
  · rintro rfl
    exact ofName?_name scope

section
variable {ν : Type}

namespace Kind

/-- The kind with a tag and attributes, if these are the declared ones. -/
def ofAttributes? : Tag → List (String × AttrValue ν) → Option (Kind ν)
  | .script, [(_, .nodes body)] => some (.script body)
  | .comment, [(_, .text value)] => some (.comment value)
  | .string, [(_, .nodes parts)] => some (.string parts)
  | .rawString, [(_, .text value)] => some (.rawString value)
  | .var, [(_, .text name)] => some (.var name)
  | .envVar, [(_, .text name)] => some (.envVar name)
  | .stdIn, [] => some (.stream .input)
  | .stdOut, [] => some (.stream .output)
  | .stdErr, [] => some (.stream .error)
  | .command, [(_, .nodes args), (_, .node i), (_, .node o), (_, .node e), (_, .flag b)] =>
    some (.command .streamed ⟨args, i, o, e, b⟩)
  | .capturedCommand, [(_, .nodes args), (_, .node i), (_, .node o), (_, .node e), (_, .flag b)] =>
    some (.command .captured ⟨args, i, o, e, b⟩)
  | .and, [(_, .node lhs), (_, .node rhs)] => some (.logic .and lhs rhs)
  | .or, [(_, .node lhs), (_, .node rhs)] => some (.logic .or lhs rhs)
  | .not, [(_, .node node)] => some (.not node)
  | .statement, [(_, .node node)] => some (.statement node)
  | .assign, [(_, .text name), (_, .node value), (_, .scope s)] => some (.assign name value s)
  | .envAssign, [(_, .text name), (_, .node value)] => some (.envAssign name value)
  | .delete, [(_, .text name)] => some (.delete name)
  | .envDelete, [(_, .text name)] => some (.envDelete name)
  | .aliasAssign, [(_, .text name), (_, .node value)] => some (.aliasAssign name value)
  | .aliasDelete, [(_, .text name)] => some (.aliasDelete name)
  | .pass, [] => some .pass
  | .ifElse, [(_, .node test), (_, .nodes body), (_, .nodes orelse)] =>
    some (.ifElse test body orelse)
  | .forIn, [(_, .node target), (_, .node iter), (_, .nodes body)] =>
    some (.forIn target iter body)
  | .function, [(_, .text name), (_, .nodes body)] => some (.function name body)
  | _, _ => none

theorem ofAttributes?_attributes (k : Kind ν) : ofAttributes? k.tag k.attributes = some k := by
  cases k with
  | command mode _ => cases mode <;> rfl
  | logic op _ _ => cases op <;> rfl
  | stream s => cases s <;> rfl
  | _ => rfl

/-- A kind has nothing but its tag and its attributes. -/
theorem ext_attributes {k k' : Kind ν} (ht : k.tag = k'.tag)
    (ha : k.attributes = k'.attributes) : k = k' := by
  apply Option.some.inj
  rw [← ofAttributes?_attributes k, ← ofAttributes?_attributes k', ht, ha]

/-- The attributes of a kind, in the order of a signature. -/
def Declared (signature : List (String × Form)) (as : List (String × AttrValue ν)) : Prop :=
  List.Forall₂ (fun d a => d.2.Declares d.1 a) signature as

theorem attributes_declared (k : Kind ν) : Declared k.tag.signature k.attributes := by
  cases k with
  | command mode _ => cases mode <;> repeat' constructor
  | logic op _ _ => cases op <;> repeat' constructor
  | stream s => cases s <;> exact .nil
  | _ => repeat' constructor

/-- Attributes of one name in kinds of one tag have one form. -/
theorem exists_declares {k k' : Kind ν} (ht : k.tag = k'.tag) {a b : String × AttrValue ν}
    (ha : a ∈ k.attributes) (hb : b ∈ k'.attributes) (hn : a.1 = b.1) :
    ∃ form : Form, form.Declares a.1 a ∧ form.Declares a.1 b := by
  obtain ⟨d, hd, had⟩ := forall₂_mem_left k.attributes_declared.flip ha
  obtain ⟨d', hd', hbd⟩ := forall₂_mem_left k'.attributes_declared.flip hb
  rw [← ht] at hd'
  have names : (k.tag.signature.map (·.1)).Nodup := by
    rw [Tag.signature_names]
    exact k.tag.attributes_nodup
  have first : d.1 = a.1 := had.name.symm
  obtain rfl : d = d' := List.inj_on_of_nodup_map names hd hd' (by rw [first, hn, hbd.name])
  rw [← first]
  exact ⟨d.2, had, hbd⟩

/-- All that a tag declares are the attributes of some kind. -/
theorem exists_of_declared {t : Tag} {as : List (String × AttrValue ν)}
    (h : Declared t.signature as) : ∃ k : Kind ν, k.tag = t ∧ k.attributes = as := by
  suffices hk : ∃ k, ofAttributes? t as = some k ∧ k.tag = t ∧ k.attributes = as by
    obtain ⟨k, _, hk⟩ := hk
    exact ⟨k, hk⟩
  cases t with
  | stdIn | stdOut | stdErr | pass =>
    cases h
    exact ⟨_, rfl, rfl, rfl⟩
  | script | comment | string | rawString | var | envVar | not | statement | delete | envDelete
  | aliasDelete =>
    obtain _ | ⟨⟨⟩, _ | _⟩ := h
    exact ⟨_, rfl, rfl, rfl⟩
  | and | or | envAssign | aliasAssign | function =>
    obtain _ | ⟨⟨⟩, _ | ⟨⟨⟩, _ | _⟩⟩ := h
    exact ⟨_, rfl, rfl, rfl⟩
  | assign | ifElse | forIn =>
    obtain _ | ⟨⟨⟩, _ | ⟨⟨⟩, _ | ⟨⟨⟩, _ | _⟩⟩⟩ := h
    exact ⟨_, rfl, rfl, rfl⟩
  | command | capturedCommand =>
    obtain _ | ⟨⟨⟩, _ | ⟨⟨⟩, _ | ⟨⟨⟩, _ | ⟨⟨⟩, _ | ⟨⟨⟩, _ | _⟩⟩⟩⟩⟩ := h
    exact ⟨_, rfl, rfl, rfl⟩

end Kind
end

end ShellTree
