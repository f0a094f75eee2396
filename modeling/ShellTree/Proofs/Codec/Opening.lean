import ShellTree.Codec
import ShellTree.Proofs.Node.Induction
import ShellTree.Proofs.Outcome

/-! Maps opened one level. A map decodes just when it opens as a kind with maps in the place of the
nodes below, and all of these decode. -/
namespace ShellTree
open Outcome

/-- The bare map of a stream that stands for itself. -/
def Stream.sentinel (s : Stream) : Json := .obj [(s.tag.name, .obj [])]

namespace Tagged

/-- An open map with what is nested in it as it stands. -/
def opened (tag : String) (attrs : List (String × Json)) : Tagged Json :=
  ⟨tag, attrs.map fun (name, v) => (name, ⟨v, v, elements v⟩)⟩

theorem parse_eq_ok {m : Json} {t : Tagged Json} :
    parse m = .ok t ↔ ∃ tag attrs, m = .obj [(tag, .obj attrs)] ∧ t = opened tag attrs := by
  constructor
  · intro h
    unfold parse at h
    split at h
    · exact ⟨_, _, rfl, (Except.ok.inj h).symm⟩
    all_goals simp at h
  · rintro ⟨tag, attrs, rfl, rfl⟩
    rfl

section
variable {ρ : Type} (f : Json → ρ) (tag : String) (attrs : List (String × Json))

@[simp] theorem tag_opened : ((opened tag attrs).map f).tag = tag := rfl

theorem names_opened : ((opened tag attrs).map f).attrs.map (·.1) = attrs.map (·.1) := by
  simp [opened, map]

theorem find?_opened (name : String) : ((opened tag attrs).map f).find? name =
    (attrs.lookup name).map fun v => ⟨v, f v, (elements v).map f⟩ := by
  induction attrs with
  | nil => rfl
  | cons a attrs ih =>
    obtain ⟨name', v⟩ := a
    simp only [find?, opened, map, List.map_cons, List.lookup_cons] at ih ⊢
    cases name == name' with
    | true => rfl
    | false => exact ih

theorem map_id_opened : (opened tag attrs).map id = opened tag attrs := by
  simp [map, opened, Function.comp_def]

theorem position_opened : ((opened tag attrs).map f).position = (opened tag attrs).position := by
  rw [show (opened tag attrs).position = ((opened tag attrs).map id).position by
    rw [map_id_opened]]
  simp only [position, ordinal, find?_opened]
  cases attrs.lookup "lineno" <;> cases attrs.lookup "column" <;> rfl

theorem text_opened (name : String) :
    ((opened tag attrs).map f).text name = (opened tag attrs).text name := by
  rw [show (opened tag attrs).text name = ((opened tag attrs).map id).text name by
    rw [map_id_opened]]
  simp only [text, get, find?_opened]
  cases attrs.lookup name with
  | none => rfl
  | some v => cases v <;> rfl

variable {f tag attrs} {name : String}

theorem get_eq_ok {a : Attr ρ} : ((opened tag attrs).map f).get name = .ok a ↔
    ∃ v, attrs.lookup name = some v ∧ a = ⟨v, f v, (elements v).map f⟩ := by
  rw [get, find?_opened]
  cases attrs.lookup name <;> simp [eq_comm]

theorem text_eq_ok {s : String} : ((opened tag attrs).map f).text name = .ok s ↔
    attrs.lookup name = some (.str s) := by
  simp only [text, bind_eq_ok, get_eq_ok]
  constructor
  · rintro ⟨_, ⟨v, hv, rfl⟩, h⟩
    cases v <;> simp at h
    rw [hv, h]
  · intro h
    exact ⟨_, ⟨_, h, rfl⟩, rfl⟩

theorem nested_eq_ok {a : Attr ρ} : ((opened tag attrs).map f).nested name = .ok a ↔
    ∃ fields, attrs.lookup name = some (.obj fields) ∧ a = ⟨.obj fields, f (.obj fields), []⟩ := by
  simp only [nested, bind_eq_ok, get_eq_ok]
  constructor
  · rintro ⟨_, ⟨v, hv, rfl⟩, h⟩
    cases v <;> simp at h
    exact ⟨_, hv, h.symm⟩
  · rintro ⟨fields, h, rfl⟩
    exact ⟨_, ⟨_, h, rfl⟩, rfl⟩

theorem node_eq_ok {r : ρ} : ((opened tag attrs).map f).node name = .ok r ↔
    ∃ fields, attrs.lookup name = some (.obj fields) ∧ f (.obj fields) = r := by
  simp only [node, bind_eq_ok, nested_eq_ok, Except.ok.injEq]
  constructor
  · rintro ⟨_, ⟨fields, h, rfl⟩, hr⟩
    exact ⟨fields, h, hr⟩
  · rintro ⟨fields, h, hr⟩
    exact ⟨_, ⟨fields, h, rfl⟩, hr⟩

theorem nodes_eq_ok {rs : List ρ} : ((opened tag attrs).map f).nodes name = .ok rs ↔
    ∃ ms, attrs.lookup name = some (.arr ms) ∧ ms.map f = rs := by
  simp only [nodes, bind_eq_ok, get_eq_ok]
  constructor
  · rintro ⟨_, ⟨v, hv, rfl⟩, h⟩
    cases v <;> simp at h
    exact ⟨_, hv, h⟩
  · rintro ⟨ms, h, rfl⟩
    exact ⟨_, ⟨_, h, rfl⟩, rfl⟩

theorem flag_eq_ok {absent b : Bool} : ((opened tag attrs).map f).flag name absent = .ok b ↔
    attrs.lookup name = some (.bool b) ∨ attrs.lookup name = none ∧ b = absent := by
  rw [flag, find?_opened]
  cases attrs.lookup name with
  | none => simp [eq_comm]
  | some v => cases v <;> simp

theorem scope_eq_ok {s : Scope} : ((opened tag attrs).map f).scope = .ok s ↔
    attrs.lookup "scope" = some (.str s.name) := by
  simp only [scope, bind_eq_ok, text_eq_ok]
  constructor
  · rintro ⟨str, hstr, h⟩
    split at h
    · next s' hs' =>
      obtain rfl : s' = s := by simpa using h
      rw [hstr, Scope.ofName?_eq_some.mp hs']
    · simp at h
  · intro h
    refine ⟨_, h, ?_⟩
    simp

theorem scope_of_string {s : String} (h : attrs.lookup "scope" = some (.str s)) :
    ((opened tag attrs).map f).scope =
      match Scope.ofName? s with
      | some scope => .ok scope
      | none => .error (.invalid tag "scope" .scope) := by
  rw [scope, text_eq_ok.mpr h]
  rfl

theorem ordinal_eq_ok {absent k : Nat} : (opened tag attrs).ordinal name absent = .ok k ↔
    attrs.lookup name = none ∧ k = absent ∨
      ∃ n, attrs.lookup name = some (.num n) ∧ n.natural? = some k := by
  rw [← map_id_opened, ordinal, find?_opened]
  cases attrs.lookup name with
  | none => simp [eq_comm]
  | some v =>
    cases v with
    | num n => cases h : n.natural? <;> simp [h]
    | _ => simp

theorem position_eq_ok_none : (opened tag attrs).position = .ok none ↔
    attrs.lookup "lineno" = none ∧ attrs.lookup "column" = none := by
  rw [← map_id_opened, position, find?_opened, find?_opened]
  cases attrs.lookup "lineno" <;> cases attrs.lookup "column" <;> simp [bind_eq_ok]

theorem position_eq_ok_some {p : Position} : (opened tag attrs).position = .ok (some p) ↔
    ¬(attrs.lookup "lineno" = none ∧ attrs.lookup "column" = none) ∧
      (opened tag attrs).ordinal "lineno" Position.first.line = .ok p.line ∧
      (opened tag attrs).ordinal "column" Position.first.column = .ok p.column := by
  obtain ⟨line, column⟩ := p
  rw [← map_id_opened, position, find?_opened, find?_opened]
  cases attrs.lookup "lineno" <;> cases attrs.lookup "column" <;> simp [bind_eq_ok]

end
end Tagged

/-- What a map's attributes give for a declared attribute. Only the targets of streams and flags
have something to fall back on. -/
inductive Form.Gives (attrs : List (String × Json)) :
    String × Form → String × AttrValue Json → Prop
  | node {name fields} (h : attrs.lookup name = some (.obj fields)) :
    Gives attrs (name, .node) (name, .node (.obj fields))
  | stream {name s fields} (h : attrs.lookup s.attr = some (.obj fields)) :
    Gives attrs (name, .stream s) (name, .node (.obj fields))
  | noStream {name s} (h : attrs.lookup s.attr = none) :
    Gives attrs (name, .stream s) (name, .node s.sentinel)
  | nodes {name ms} (h : attrs.lookup name = some (.arr ms)) :
    Gives attrs (name, .nodes) (name, .nodes ms)
  | text {name s} (h : attrs.lookup name = some (.str s)) :
    Gives attrs (name, .text) (name, .text s)
  | flag {name b} (h : attrs.lookup name = some (.bool b)) :
    Gives attrs (name, .flag) (name, .flag b)
  | noFlag {name} (h : attrs.lookup name = none) :
    Gives attrs (name, .flag) (name, .flag false)
  | scope {name} {s : Scope} (h : attrs.lookup "scope" = some (.str s.name)) :
    Gives attrs (name, .scope) (name, .scope s)

namespace Form

theorem Gives.declares {attrs : List (String × Json)} {d : String × Form}
    {a : String × AttrValue Json} (h : Gives attrs d a) : d.2.Declares d.1 a := by
  cases h <;> constructor

/-- Only an optional attribute can be given by leaving it out. -/
theorem Gives.isSome_lookup {attrs : List (String × Json)} {t : Tag} {d : String × Form}
    {a : String × AttrValue Json} (h : Gives attrs d a) (hd : d ∈ t.signature)
    (ho : d.2.optional = false) : (attrs.lookup d.1).isSome := by
  cases h with
  | scope h => simp [Tag.signature_scope hd, h]
  | stream | noStream | flag | noFlag => simp [optional] at ho
  | _ h => simp [h]

/-- Where nothing that is required is missing, only optional attributes are left out. -/
theorem optional_of_absent {t : Tag} {attrs : List (String × Json)} {name : String} {form : Form}
    (required : ∀ name ∈ t.required, (attrs.lookup name).isSome)
    (hd : (name, form) ∈ t.signature) (absent : attrs.lookup name = none) :
    form.optional = true := by
  by_contra ho
  have hr : name ∈ t.required := by
    rw [Tag.signature_required]
    exact List.mem_map.mpr ⟨_, List.mem_filter.mpr ⟨hd, by simp [ho]⟩, rfl⟩
  simpa [absent] using required name hr

theorem isSome_lookup_required {attrs : List (String × Json)} {t : Tag}
    {as : List (String × AttrValue Json)} (h : List.Forall₂ (Gives attrs) t.signature as) :
    ∀ name ∈ t.required, (attrs.lookup name).isSome := by
  intro name hn
  rw [Tag.signature_required] at hn
  obtain ⟨d, hd, rfl⟩ := List.mem_map.mp hn
  obtain ⟨hd, ho⟩ := List.mem_filter.mp hd
  obtain ⟨a, _, ha⟩ := forall₂_mem_left h hd
  exact ha.isSome_lookup hd (by simpa using ho)

end Form

/-- A map opens as a kind, whose nodes are the maps below, with a position. -/
inductive Opens : Json → Kind Json → Option Position → Prop
  | mk {k : Kind Json} {p : Option Position} {attrs : List (String × Json)}
    (known : ∀ name ∈ attrs.map (·.1), name ∈ k.tag.attributes ∨ name ∈ Decode.positionKeys)
    (gives : List.Forall₂ (Form.Gives attrs) k.tag.signature k.attributes)
    (position : (Tagged.opened k.tag.name attrs).position = .ok p) :
    Opens (.obj [(k.tag.name, .obj attrs)]) k p

namespace Decode

theorem lift_eq_ok {α : Type} {x : Except ShapeError α} {a : α} :
    (liftM x : Result α) = .ok a ↔ x = .ok a := mapError_eq_ok

section
variable (t : Tagged (Result Node))

/-- One attribute, read as its form says. -/
def attr : String × Form → Result (String × AttrValue Node)
  | (name, .node) => return (name, .node (← node t name))
  | (name, .stream s) => return (name, .node (← stream t s))
  | (name, .nodes) => return (name, .nodes (← nodes t name))
  | (name, .text) => return (name, .text (← t.text name))
  | (name, .flag) => return (name, .flag (← t.flag name false))
  | (name, .scope) => return (name, .scope (← t.scope))

/-- A kind is read by reading its attributes in declared order. -/
theorem attributes_kind (tag : Tag) :
    Kind.attributes <$> kind t tag = Tagged.collect (tag.signature.map (attr t)) := by
  cases tag <;>
    simp [kind, command, Tag.signature, attr, Kind.attributes, map_eq_pure_bind, -bind_pure_comp]

theorem tag_kind {tag : Tag} {k : Kind Node} (h : kind t tag = .ok k) : k.tag = tag := by
  cases tag <;> simp only [kind, bind_eq_ok, pure_eq_ok] at h <;> grind [Kind.tag, Stream.tag]

theorem kind_eq_ok {tag : Tag} {k : Kind Node} :
    kind t tag = .ok k ↔ k.tag = tag ∧ tag.signature.map (attr t) = k.attributes.map .ok := by
  rw [← Tagged.collect_eq_ok, ← attributes_kind, map_eq_ok]
  constructor
  · intro h
    exact ⟨tag_kind t h, k, h, rfl⟩
  · rintro ⟨ht, k', hk', ha⟩
    rwa [← Kind.ext_attributes ((tag_kind t hk').trans ht.symm) ha]

end

theorem decode_sentinel (s : Stream) : decode s.sentinel = .ok (Node.stream s) := by
  cases s <;> rfl

section
variable {tag : String} {attrs : List (String × Json)}

theorem node_eq_ok {name : String} {n : Node} :
    node ((Tagged.opened tag attrs).map decode) name = .ok n ↔
      ∃ fields, attrs.lookup name = some (.obj fields) ∧ decode (.obj fields) = .ok n := by
  simp only [node, bind_eq_ok, lift_eq_ok, Tagged.node_eq_ok]
  constructor
  · rintro ⟨_, ⟨fields, h, rfl⟩, hn⟩
    exact ⟨fields, h, hn⟩
  · rintro ⟨fields, h, hn⟩
    exact ⟨_, ⟨fields, h, rfl⟩, hn⟩

theorem nodes_eq_ok {name : String} {ns : List Node} :
    nodes ((Tagged.opened tag attrs).map decode) name = .ok ns ↔
      ∃ ms, attrs.lookup name = some (.arr ms) ∧ ms.map decode = ns.map .ok := by
  simp only [nodes, bind_eq_ok, lift_eq_ok, Tagged.nodes_eq_ok, Tagged.collect_eq_ok]
  constructor
  · rintro ⟨_, ⟨ms, h, rfl⟩, hn⟩
    exact ⟨ms, h, hn⟩
  · rintro ⟨ms, h, hn⟩
    exact ⟨_, ⟨ms, h, rfl⟩, hn⟩

theorem stream_eq_ok {s : Stream} {n : Node} :
    stream ((Tagged.opened tag attrs).map decode) s = .ok n ↔
      (attrs.lookup s.attr = none ∧ n = Node.stream s) ∨
        ∃ fields, attrs.lookup s.attr = some (.obj fields) ∧ decode (.obj fields) = .ok n := by
  rw [stream, Tagged.find?_opened]
  cases h : attrs.lookup s.attr with
  | none => simp [eq_comm]
  | some v => simp [node_eq_ok, h]

/-- An attribute reads as a value just when the maps that it gives decode to that value's nodes. -/
theorem attr_eq_ok {d : String × Form} {a : String × AttrValue Node} :
    attr ((Tagged.opened tag attrs).map decode) d = .ok a ↔
      ∃ b, Form.Gives attrs d b ∧ a.1 = b.1 ∧ b.2.map decode = a.2.map .ok := by
  obtain ⟨name, form⟩ := d
  constructor
  · intro h
    cases form with
    | node =>
      simp only [attr, bind_eq_ok, node_eq_ok, pure_eq_ok] at h
      obtain ⟨n, ⟨fields, hf, hn⟩, rfl⟩ := h
      exact ⟨_, .node hf, rfl, by simp [AttrValue.map, hn]⟩
    | stream s =>
      simp only [attr, bind_eq_ok, stream_eq_ok, pure_eq_ok] at h
      obtain ⟨n, ⟨hf, rfl⟩ | ⟨fields, hf, hn⟩, rfl⟩ := h
      · exact ⟨_, .noStream hf, rfl, by simp [AttrValue.map, decode_sentinel]⟩
      · exact ⟨_, .stream hf, rfl, by simp [AttrValue.map, hn]⟩
    | nodes =>
      simp only [attr, bind_eq_ok, nodes_eq_ok, pure_eq_ok] at h
      obtain ⟨ns, ⟨ms, hm, hn⟩, rfl⟩ := h
      exact ⟨_, .nodes hm, rfl, by simp [AttrValue.map, hn]⟩
    | text =>
      simp only [attr, bind_eq_ok, lift_eq_ok, Tagged.text_eq_ok, pure_eq_ok] at h
      obtain ⟨s, hs, rfl⟩ := h
      exact ⟨_, .text hs, rfl, rfl⟩
    | flag =>
      simp only [attr, bind_eq_ok, lift_eq_ok, Tagged.flag_eq_ok, pure_eq_ok] at h
      obtain ⟨b, hb | ⟨hb, rfl⟩, rfl⟩ := h
      · exact ⟨_, .flag hb, rfl, rfl⟩
      · exact ⟨_, .noFlag hb, rfl, rfl⟩
    | scope =>
      simp only [attr, bind_eq_ok, lift_eq_ok, Tagged.scope_eq_ok, pure_eq_ok] at h
      obtain ⟨s, hs, rfl⟩ := h
      exact ⟨_, .scope hs, rfl, rfl⟩
  · obtain ⟨name', v⟩ := a
    rintro ⟨b, hb, rfl, hv⟩
    cases hb with
    | node h =>
      cases v <;> simp [AttrValue.map] at hv
      simp only [attr, bind_eq_ok, node_eq_ok, pure_eq_ok]
      exact ⟨_, ⟨_, h, hv⟩, rfl⟩
    | stream h =>
      cases v <;> simp [AttrValue.map] at hv
      simp only [attr, bind_eq_ok, stream_eq_ok, pure_eq_ok]
      exact ⟨_, .inr ⟨_, h, hv⟩, rfl⟩
    | noStream h =>
      cases v <;> simp [AttrValue.map, decode_sentinel] at hv
      simp only [attr, bind_eq_ok, stream_eq_ok, pure_eq_ok]
      exact ⟨_, .inl ⟨h, hv.symm⟩, rfl⟩
    | nodes h =>
      cases v <;> simp [AttrValue.map] at hv
      simp only [attr, bind_eq_ok, nodes_eq_ok, pure_eq_ok]
      exact ⟨_, ⟨_, h, hv⟩, rfl⟩
    | text h =>
      cases v <;> simp [AttrValue.map] at hv
      simp only [attr, bind_eq_ok, lift_eq_ok, Tagged.text_eq_ok, pure_eq_ok]
      exact ⟨_, h, by rw [hv]⟩
    | flag h =>
      cases v <;> simp [AttrValue.map] at hv
      simp only [attr, bind_eq_ok, lift_eq_ok, Tagged.flag_eq_ok, pure_eq_ok]
      exact ⟨_, .inl h, by rw [hv]⟩
    | noFlag h =>
      cases v <;> simp [AttrValue.map] at hv
      simp only [attr, bind_eq_ok, lift_eq_ok, Tagged.flag_eq_ok, pure_eq_ok]
      exact ⟨_, .inr ⟨h, rfl⟩, by rw [hv]⟩
    | scope h =>
      cases v <;> simp [AttrValue.map] at hv
      simp only [attr, bind_eq_ok, lift_eq_ok, Tagged.scope_eq_ok, pure_eq_ok]
      exact ⟨_, h, by rw [hv]⟩

/-- A kind is read just when the attributes give a kind whose maps read as its nodes. -/
theorem kind_opened_eq_ok {t : Tag} {k : Kind Node} :
    kind ((Tagged.opened tag attrs).map decode) t = .ok k ↔ ∃ k' : Kind Json, k'.tag = t ∧
      List.Forall₂ (Form.Gives attrs) t.signature k'.attributes ∧
        k'.map decode = k.map .ok := by
  have ha : t.signature.map (attr ((Tagged.opened tag attrs).map decode)) = k.attributes.map .ok ↔
      ∃ as, List.Forall₂ (Form.Gives attrs) t.signature as ∧
        (as.map fun b => (b.1, b.2.map decode)) = (k.map .ok).attributes := by
    simp only [← List.forall₂_eq_eq_eq, List.forall₂_map_left_iff, List.forall₂_map_right_iff,
      attr_eq_ok, Kind.attributes_map, Prod.mk.injEq, forall₂_exists_iff]
    simp only [eq_comm]
  rw [kind_eq_ok, ha]
  constructor
  · rintro ⟨rfl, as, hg, hm⟩
    obtain ⟨k', ht, rfl⟩ := Kind.exists_of_declared (hg.imp fun _ _ h => h.declares)
    refine ⟨k', ht, hg, ?_⟩
    apply Kind.ext_attributes
    · simpa using ht
    · simpa using hm
  · rintro ⟨k', rfl, hg, hm⟩
    refine ⟨by simpa using (congrArg Kind.tag hm).symm, k'.attributes, hg, ?_⟩
    rw [← hm, Kind.attributes_map]

/-- All required attributes are there, and every key is known. -/
theorem check_eq_ok {t : Tag} {u : Unit} :
    check ((Tagged.opened tag attrs).map decode) t = .ok u ↔
    (∀ name ∈ t.required, (attrs.lookup name).isSome) ∧
      ∀ name ∈ attrs.map (·.1), name ∈ t.attributes ∨ name ∈ positionKeys := by
  have hr : (t.required.find? fun name =>
      (((Tagged.opened tag attrs).map decode).find? name).isNone) = none ↔
      ∀ name ∈ t.required, (attrs.lookup name).isSome := by
    simp only [List.find?_eq_none, Tagged.find?_opened, Option.isNone_map,
      Bool.not_eq_true, Option.isNone_eq_false_iff]
  rw [check, ← hr]
  cases h : t.required.find? fun name =>
      (((Tagged.opened tag attrs).map decode).find? name).isNone with
  | some name => simp
  | none =>
    simp only [Tagged.names_opened, true_and]
    split
    · next hu =>
      simp only [List.isEmpty_iff, List.filter_eq_nil_iff, Bool.and_eq_true, Bool.not_eq_true',
        List.contains_eq_mem, decide_eq_false_iff_not, not_and_or, not_not] at hu
      simpa using hu
    · next hu =>
      simp only [List.isEmpty_iff, List.filter_eq_nil_iff, Bool.and_eq_true, Bool.not_eq_true',
        List.contains_eq_mem, decide_eq_false_iff_not, not_and_or, not_not] at hu
      simpa using hu

end
end Decode

open Decode in
/-- A map decodes to a node just when it opens as a kind whose maps decode to the nodes below. -/
theorem decode_eq_ok {m : Json} {n : Node} :
    decode m = .ok n ↔ ∃ k, Opens m k n.position ∧ k.map decode = n.kind.map .ok := by
  rw [decode_eq]
  constructor
  · intro h
    cases hp : Tagged.parse m with
    | error e => simp [hp] at h
    | ok t =>
      obtain ⟨tag, attrs, rfl, rfl⟩ := Tagged.parse_eq_ok.mp hp
      simp only [hp, Decode.tagged, Tagged.tag_opened] at h
      cases ht : Tag.ofName? tag with
      | none => simp [ht] at h
      | some t =>
        obtain rfl := Tag.ofName?_eq_some.mp ht
        simp only [ht, bind_eq_ok, check_eq_ok, lift_eq_ok, Tagged.position_opened, pure_eq_ok] at h
        obtain ⟨_, ⟨-, known⟩, k, hk, p, position, rfl⟩ := h
        obtain ⟨k', rfl, gives, hk⟩ := kind_opened_eq_ok.mp hk
        exact ⟨k', .mk known gives position, hk⟩
  · obtain ⟨kind, pos⟩ := n
    rintro ⟨k, ⟨known, gives, position⟩, hk⟩
    simp only [Tagged.parse_eq_ok.mpr ⟨_, _, rfl, rfl⟩, Decode.tagged, Tagged.tag_opened,
      Tag.ofName?_name, bind_eq_ok, check_eq_ok, lift_eq_ok, Tagged.position_opened, pure_eq_ok]
    exact ⟨(), ⟨Form.isSome_lookup_required gives, known⟩, _,
      kind_opened_eq_ok.mpr ⟨k, rfl, gives, hk⟩, _, position, rfl⟩

end ShellTree
