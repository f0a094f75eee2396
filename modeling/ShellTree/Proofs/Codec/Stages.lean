import Mathlib.Data.List.Sort
import ShellTree.Proofs.Codec.Grammar
import ShellTree.Proofs.Text.Bytes

/-! How decoding an open map fails, stage by stage: the shape, the tag, the keys, the attributes in
declared order, the position. -/
namespace ShellTree
open Outcome

/-- The kind of value that an attribute of a form has to have. -/
def Form.kind : Form → Json.Kind
  | .node | .stream _ => .object
  | .nodes => .list
  | .text | .scope => .string
  | .flag => .boolean

def Form.expected : Form → Expected
  | .node | .stream _ => .map
  | .nodes => .maps
  | .text | .scope => .text
  | .flag => .flag

/-- Values that do not have the shape of a tagged map. -/
inductive Json.Malformed : Json → ShapeError → Prop
  | value {m} (h : m.kind ≠ .object) : Malformed m (.notAnObject m.kind)
  | keys {fields} (h : fields.length ≠ 1) : Malformed (.obj fields) (.notOneKey fields.length)
  | body {tag body} (h : body.kind ≠ .object) :
    Malformed (.obj [(tag, body)]) (.bodyNotAnObject tag body.kind)

/-- The keys that a tag does not declare and that are no part of a position. -/
def Tag.undeclared (t : Tag) (attrs : List (String × Json)) : List String :=
  (attrs.map (·.1)).filter fun name => name ∉ t.attributes ∧ name ∉ ["lineno", "column"]

/-- Nothing is missing that a tag requires, and nothing is there that it does not declare. -/
structure Tag.Admits (t : Tag) (attrs : List (String × Json)) : Prop where
  required : ∀ name ∈ t.required, (attrs.lookup name).isSome
  declared : t.undeclared attrs = []

/-- The attributes that are given have values that decode. -/
def Form.Decode (attrs : List (String × Json)) (ds : List (String × Form)) : Prop :=
  ∀ name form v, (name, form) ∈ ds → attrs.lookup name = some v →
    form.Fits (fun m => ∃ n, decode m = .ok n) v

/-- An attribute is given with a value, and all that is looked at before it is right. -/
structure Form.Reached (t : Tag) (attrs : List (String × Json)) (name : String) (form : Form)
    (v : Json) : Prop where
  admits : t.Admits attrs
  declared : ∃ before after,
    t.signature = before ++ (name, form) :: after ∧ Form.Decode attrs before
  given : attrs.lookup name = some v

theorem Form.Reached.mem {t : Tag} {attrs : List (String × Json)} {name : String} {form : Form}
    {v : Json} (h : Form.Reached t attrs name form v) : (name, form) ∈ t.signature := by
  obtain ⟨before, after, hs, -⟩ := h.declared
  rw [hs]
  exact List.mem_append_right _ List.mem_cons_self

/-- What is wrong with the value of an attribute itself. -/
inductive Form.Misfit (tag name : String) : Form → Json → ShapeError → Prop
  | kind {form v} (h : v.kind ≠ form.kind) :
    Misfit tag name form v (.invalid tag name form.expected)
  | scope {s} (h : ∀ scope : Scope, s ≠ scope.name) :
    Misfit tag name .scope (.str s) (.invalid tag name .scope)

theorem Tagged.parse_eq_error {m : Json} {e : ShapeError} :
    parse m = .error e ↔ m.Malformed e := by
  constructor
  · intro h
    unfold parse at h
    split at h
    · cases h
    · next tag body hb =>
      cases h
      refine .body fun hk => ?_
      cases body <;> simp [Json.kind] at hk
      exact hb _ rfl
    · next fields hb hf =>
      cases h
      refine .keys fun hl => ?_
      obtain ⟨⟨tag, body⟩, rfl⟩ := List.length_eq_one_iff.mp hl
      exact hf _ _ rfl
    · next hm =>
      cases h
      refine .value fun hk => ?_
      cases m <;> simp [Json.kind] at hk
      exact hm _ rfl
  · rintro (@⟨m, h⟩ | @⟨fields, h⟩ | @⟨tag, body, h⟩)
    · cases m <;> first | rfl | exact absurd rfl h
    · match fields with
      | [] => rfl
      | [_] => exact absurd rfl h
      | _ :: _ :: _ => simp only [parse]
    · cases body <;> first | rfl | exact absurd rfl h

theorem AttrValue.exists_map_ok {v : AttrValue Json} :
    (∃ v' : AttrValue Node, v.map decode = v'.map .ok) ↔
      ∀ m ∈ v.nodeList, ∃ n, decode m = .ok n := by
  constructor
  · rintro ⟨v', h⟩ m hm
    have results : v.nodeList.map decode = v'.nodeList.map .ok := by
      rw [← nodeList_map, ← nodeList_map, h]
    have hd : decode m ∈ v.nodeList.map decode := List.mem_map_of_mem hm
    rw [results] at hd
    obtain ⟨n, -, hn⟩ := List.mem_map.mp hd
    exact ⟨n, hn.symm⟩
  · intro h
    cases v with
    | node m =>
      obtain ⟨n, hn⟩ := h m (.head _)
      exact ⟨.node n, congrArg AttrValue.node hn⟩
    | nodes ms =>
      obtain ⟨ns, hns⟩ := Tagged.exists_collect_map.mpr h
      exact ⟨.nodes ns, congrArg AttrValue.nodes (Tagged.collect_eq_ok.mp hns)⟩
    | text s => exact ⟨.text s, rfl⟩
    | flag b => exact ⟨.flag b, rfl⟩
    | scope s => exact ⟨.scope s, rfl⟩

theorem Tag.undeclared_eq_nil {t : Tag} {attrs : List (String × Json)} :
    t.undeclared attrs = [] ↔
      ∀ name ∈ attrs.map (·.1), name ∈ t.attributes ∨ name ∈ Decode.positionKeys := by
  simp only [undeclared, List.filter_eq_nil_iff, decide_eq_true_eq, not_and_or, not_not]
  rfl

/-- The keys in order of their bytes are those that sorting gives. -/
theorem eq_mergeSort_iff {keys names : List String} : keys = names.mergeSort (· ≤ ·) ↔
    keys.Perm names ∧ keys.Pairwise fun a b => Text.bytes a ≤ Text.bytes b := by
  simp only [← Text.le_iff_bytes_le]
  constructor
  · rintro rfl
    exact ⟨List.mergeSort_perm _ _, List.pairwise_mergeSort' (· ≤ ·) names⟩
  · rintro ⟨all, sorted⟩
    have perm := all.trans (List.mergeSort_perm names (· ≤ ·)).symm
    exact perm.eq_of_pairwise (fun _ _ _ _ => String.le_antisymm) sorted
      (List.pairwise_mergeSort' (· ≤ ·) names)

namespace Decode

section
variable {attrs : List (String × Json)} {e : DecodeError}

theorem lift_eq_error {α : Type} {x : Except ShapeError α} :
    (liftM x : Result α) = .error e ↔ ∃ e', x = .error e' ∧ .shape e' = e := mapError_eq_error

theorem check_eq_ok_iff_admits {t : Tag} {u : Unit} :
    check ((Tagged.opened t.name attrs).map decode) t = .ok u ↔ t.Admits attrs := by
  rw [check_eq_ok, ← Tag.undeclared_eq_nil]
  exact ⟨fun ⟨hr, hd⟩ => ⟨hr, hd⟩, fun ⟨hr, hd⟩ => ⟨hr, hd⟩⟩

/-- A map that is not admitted lacks an attribute, of which the first is reported, or else has keys
that are not declared. -/
theorem check_eq_error {t : Tag} :
    check ((Tagged.opened t.name attrs).map decode) t = .error e ↔
      (∃ name, e = .shape (.missing t.name name) ∧ ∃ before after,
        t.required = before ++ name :: after ∧
          (∀ other ∈ before, (attrs.lookup other).isSome) ∧ attrs.lookup name = none) ∨
      (∀ name ∈ t.required, (attrs.lookup name).isSome) ∧ ∃ keys, e = .unknown t keys ∧
        keys ≠ [] ∧ keys.Perm (t.undeclared attrs) ∧
          keys.Pairwise fun a b => Text.bytes a ≤ Text.bytes b := by
  have absent : ∀ name, (((Tagged.opened t.name attrs).map decode).find? name).isNone =
      (attrs.lookup name).isNone := by
    intro name
    rw [Tagged.find?_opened, Option.isNone_map]
  have keys : (((Tagged.opened t.name attrs).map decode).attrs.map (·.1)).filter
      (fun key => !t.attributes.contains key && !positionKeys.contains key) =
        t.undeclared attrs := by
    rw [Tagged.names_opened, Tag.undeclared]
    apply List.filter_congr
    intro name _
    simp [positionKeys]
  have first : ∀ name, t.required.find? (fun name => (attrs.lookup name).isNone) = some name ↔
      ∃ before after, t.required = before ++ name :: after ∧
        (∀ other ∈ before, (attrs.lookup other).isSome) ∧ attrs.lookup name = none := by
    intro name
    simp only [List.find?_eq_some_iff_append, Option.isNone_iff_eq_none, Option.not_isNone]
    constructor
    · rintro ⟨hn, before, after, hr, given⟩
      exact ⟨before, after, hr, given, hn⟩
    · rintro ⟨before, after, hr, given, hn⟩
      exact ⟨hn, before, after, hr, given⟩
  simp only [check, absent, keys, ← first]
  cases hm : t.required.find? fun name => (attrs.lookup name).isNone with
  | some name =>
    have lacks : ¬∀ name ∈ t.required, (attrs.lookup name).isSome := by
      intro required
      have hn := required name (List.mem_of_find?_eq_some hm)
      rw [← Option.not_isNone, List.find?_some hm] at hn
      exact absurd hn (by decide)
    constructor
    · rintro ⟨⟩
      exact .inl ⟨name, rfl, rfl⟩
    · rintro (⟨_, rfl, ⟨⟩⟩ | ⟨required, -⟩)
      · rfl
      · exact absurd required lacks
  | none =>
    have required : ∀ name ∈ t.required, (attrs.lookup name).isSome := by
      intro name hn
      simpa using List.find?_eq_none.mp hm name hn
    cases hu : t.undeclared attrs with
    | nil => simp +contextual
    | cons key rest =>
      simp only [List.isEmpty_cons, ← eq_mergeSort_iff]
      constructor
      · rintro ⟨⟩
        have some : (key :: rest).mergeSort (· ≤ ·) ≠ [] := by
          rw [← List.length_pos_iff, List.length_mergeSort]
          exact Nat.succ_pos _
        exact .inr ⟨required, _, rfl, some, rfl⟩
      · rintro (⟨_, -, ⟨⟩⟩ | ⟨-, _, rfl, -, rfl⟩)
        rfl

section
variable {t : Tag} {name : String} {form : Form} {v : Json}

theorem exists_attr_iff_gives {d : String × Form} :
    (∃ a, attr ((Tagged.opened t.name attrs).map decode) d = .ok a) ↔
      ∃ b, Form.Gives attrs d b ∧ ∀ c ∈ b.2.nodeList, ∃ n, decode c = .ok n := by
  simp only [attr_eq_ok, ← AttrValue.exists_map_ok]
  constructor
  · rintro ⟨a, b, hb, -, h⟩
    exact ⟨b, hb, a.2, h⟩
  · rintro ⟨b, hb, v, h⟩
    exact ⟨(b.1, v), b, hb, rfl, h⟩

theorem attr_of_kind_ne (hd : (name, form) ∈ t.signature) (hv : attrs.lookup name = some v)
    (h : v.kind ≠ form.kind) : attr ((Tagged.opened t.name attrs).map decode) (name, form) =
      .error (.shape (.invalid t.name name form.expected)) := by
  cases form with
  | node =>
    simp only [attr, node, Tagged.node, Tagged.nested, Tagged.get, Tagged.find?_opened, hv]
    cases v <;> first | exact absurd rfl h | rfl
  | stream s =>
    obtain rfl := Tag.signature_stream hd
    simp only [attr, stream, node, Tagged.node, Tagged.nested, Tagged.get, Tagged.find?_opened, hv]
    cases v <;> first | exact absurd rfl h | rfl
  | nodes =>
    simp only [attr, nodes, Tagged.nodes, Tagged.get, Tagged.find?_opened, hv]
    cases v <;> first | exact absurd rfl h | rfl
  | text =>
    simp only [attr, Tagged.text, Tagged.get, Tagged.find?_opened, hv]
    cases v <;> first | exact absurd rfl h | rfl
  | flag =>
    simp only [attr, Tagged.flag, Tagged.find?_opened, hv]
    cases v <;> first | exact absurd rfl h | rfl
  | scope =>
    obtain rfl := Tag.signature_scope hd
    simp only [attr, Tagged.scope, Tagged.text, Tagged.get, Tagged.find?_opened, hv]
    cases v <;> first | exact absurd rfl h | rfl

theorem attr_object {fields : List (String × Json)} (hd : (name, form) ∈ t.signature)
    (hv : attrs.lookup name = some (.obj fields)) (hf : form.kind = .object) :
    attr ((Tagged.opened t.name attrs).map decode) (name, form) =
      (fun n => (name, .node n)) <$> decode (.obj fields) := by
  cases form with
  | node =>
    simp only [attr, node, Tagged.node, Tagged.nested, Tagged.get, Tagged.find?_opened, hv]
    rfl
  | stream s =>
    obtain rfl := Tag.signature_stream hd
    simp only [attr, stream, node, Tagged.node, Tagged.nested, Tagged.get, Tagged.find?_opened, hv]
    rfl
  | _ => cases hf

theorem attr_list {ms : List Json} (hv : attrs.lookup name = some (.arr ms)) :
    attr ((Tagged.opened t.name attrs).map decode) (name, .nodes) =
      (fun ns => (name, .nodes ns)) <$> Tagged.collect (ms.map decode) := by
  simp only [attr, nodes, Tagged.nodes, Tagged.get, Tagged.find?_opened, hv]
  rfl

theorem attr_scope {s : String} (hv : attrs.lookup "scope" = some (.str s)) :
    attr ((Tagged.opened t.name attrs).map decode) (name, .scope) =
      match Scope.ofName? s with
      | some scope => .ok (name, .scope scope)
      | none => .error (.shape (.invalid t.name "scope" .scope)) := by
  rw [attr, Tagged.scope_of_string hv]
  cases Scope.ofName? s <;> rfl

/-- The error of an attribute that is given: its value does not fit, or a map in it has that
error. -/
theorem attr_eq_error (hd : (name, form) ∈ t.signature) (hv : attrs.lookup name = some v) :
    attr ((Tagged.opened t.name attrs).map decode) (name, form) = .error e ↔
      (∃ e', form.Misfit t.name name v e' ∧ e = .shape e') ∨
      (form.kind = .object ∧ v.kind = .object ∧ decode v = .error e) ∨
      (form = .nodes ∧ ∃ before m after, v = .arr (before ++ m :: after) ∧
        (∀ c ∈ before, ∃ n, decode c = .ok n) ∧ decode m = .error e) := by
  by_cases hk : v.kind = form.kind
  · have fits : ∀ e', form.Misfit t.name name v e' → form = .scope := by
      rintro e' (⟨h⟩ | _)
      · exact absurd hk h
      · rfl
    cases form with
    | node | stream =>
      cases v <;> cases hk
      rw [attr_object hd hv rfl, map_eq_error]
      constructor
      · intro h
        exact .inr (.inl ⟨rfl, rfl, h⟩)
      · rintro (⟨e', h, -⟩ | ⟨-, -, h⟩ | ⟨h, -⟩)
        · cases fits e' h
        · exact h
        · cases h
    | nodes =>
      cases v <;> cases hk
      rw [attr_list hv, map_eq_error, Tagged.collect_map_eq_error]
      constructor
      · rintro ⟨before, m, after, rfl, good, h⟩
        exact .inr (.inr ⟨rfl, before, m, after, rfl, good, h⟩)
      · rintro (⟨e', h, -⟩ | ⟨h, -⟩ | ⟨-, before, m, after, hms, good, h⟩)
        · cases fits e' h
        · cases h
        · exact ⟨before, m, after, Json.arr.inj hms, good, h⟩
    | text | flag =>
      cases v <;> cases hk
      have gives : ∃ b, Form.Gives attrs (name, _) b ∧ ∀ c ∈ b.2.nodeList, ∃ n, decode c = .ok n :=
        Form.Fits.exists_gives (by constructor) hd hv fun _ => isObject_of_decode
      obtain ⟨a, ok⟩ := exists_attr_iff_gives.mpr gives
      rw [ok]
      refine iff_of_false nofun ?_
      rintro (⟨e', h, -⟩ | ⟨h, -⟩ | ⟨h, -⟩)
      · cases fits e' h
      · cases h
      · cases h
    | scope =>
      cases v <;> cases hk
      obtain rfl := Tag.signature_scope hd
      rw [attr_scope hv]
      split
      · next scope hs =>
        refine iff_of_false nofun ?_
        rintro (⟨_, ⟨h⟩ | ⟨h⟩, -⟩ | ⟨h, -⟩ | ⟨h, -⟩)
        · exact h rfl
        · exact h scope (Scope.ofName?_eq_some.mp hs)
        · cases h
        · cases h
      · next hs =>
        constructor
        · rintro ⟨⟩
          refine .inl ⟨_, .scope fun scope h => ?_, rfl⟩
          rw [Scope.ofName?_eq_some.mpr h] at hs
          cases hs
        · rintro (⟨_, ⟨h⟩ | ⟨h⟩, rfl⟩ | ⟨h, -⟩ | ⟨h, -⟩)
          · exact absurd rfl h
          · rfl
          · cases h
          · cases h
  · rw [attr_of_kind_ne hd hv hk]
    constructor
    · rintro ⟨⟩
      exact .inl ⟨_, .kind hk, rfl⟩
    · rintro (⟨_, _ | _, rfl⟩ | ⟨hf, hv, -⟩ | ⟨rfl, _, _, _, rfl, -⟩)
      · rfl
      · exact absurd rfl hk
      · exact absurd (hv.trans hf.symm) hk
      · exact absurd rfl hk

/-- An attribute is read unless it is given with a value that does not fit. -/
theorem exists_attr (required : ∀ name ∈ t.required, (attrs.lookup name).isSome)
    (hd : (name, form) ∈ t.signature) :
    (∃ a, attr ((Tagged.opened t.name attrs).map decode) (name, form) = .ok a) ↔
      ∀ v, attrs.lookup name = some v → form.Fits (fun m => ∃ n, decode m = .ok n) v := by
  rw [exists_attr_iff_gives]
  constructor
  · rintro ⟨b, hb, below⟩ v hv
    exact hb.fits hd hv below
  · exact exists_gives required hd

end

/-- The attributes that come before another are read just when those that are given decode. -/
theorem exists_attrs {t : Tag} (required : ∀ name ∈ t.required, (attrs.lookup name).isSome)
    {ds : List (String × Form)} (hs : ∀ d ∈ ds, d ∈ t.signature) :
    (∀ d ∈ ds, ∃ a, attr ((Tagged.opened t.name attrs).map decode) d = .ok a) ↔
      Form.Decode attrs ds := by
  constructor
  · intro h name form v hd hv
    exact (exists_attr required (hs _ hd)).mp (h _ hd) v hv
  · rintro h ⟨name, form⟩ hd
    exact (exists_attr required (hs _ hd)).mpr (h name form · hd)

/-- The error of the attributes is that of the first one that is not read. -/
theorem kind_eq_error {t : Tag} (admits : t.Admits attrs) :
    kind ((Tagged.opened t.name attrs).map decode) t = .error e ↔
      ∃ name form v, Form.Reached t attrs name form v ∧
        attr ((Tagged.opened t.name attrs).map decode) (name, form) = .error e := by
  rw [← map_eq_error (f := Kind.attributes), attributes_kind, Tagged.collect_map_eq_error]
  constructor
  · rintro ⟨before, ⟨name, form⟩, after, hs, good, h⟩
    have mem : ∀ d ∈ before ++ [(name, form)], d ∈ t.signature := by
      intro d hd
      rw [hs, List.append_cons]
      exact List.mem_append_left after hd
    have hd : (name, form) ∈ t.signature := mem _ (by simp)
    have decodes : Form.Decode attrs before :=
      (exists_attrs admits.required fun d hd => mem d (List.mem_append_left _ hd)).mp good
    cases hv : attrs.lookup name with
    | none =>
      obtain ⟨a, ha⟩ := (exists_attr admits.required hd).mpr (by simp [hv])
      rw [ha] at h
      cases h
    | some v => exact ⟨name, form, v, ⟨admits, ⟨before, after, hs, decodes⟩, hv⟩, h⟩
  · rintro ⟨name, form, v, ⟨-, ⟨before, after, hs, decodes⟩, -⟩, h⟩
    have mem : ∀ d ∈ before, d ∈ t.signature := by
      intro d hd
      rw [hs]
      exact List.mem_append_left _ hd
    exact ⟨before, (name, form), after, hs, (exists_attrs admits.required mem).mpr decodes, h⟩

theorem exists_kind {t : Tag} (admits : t.Admits attrs) :
    (∃ k, kind ((Tagged.opened t.name attrs).map decode) t = .ok k) ↔
      Form.Decode attrs t.signature := by
  rw [← exists_attrs admits.required fun d hd => hd, ← Tagged.exists_collect_map,
    ← attributes_kind]
  simp only [map_eq_ok]
  constructor
  · rintro ⟨k, hk⟩
    exact ⟨_, k, hk, rfl⟩
  · rintro ⟨-, k, hk, -⟩
    exact ⟨k, hk⟩

end

end Decode

namespace Tagged

section
variable {tag : String} {attrs : List (String × Json)} {e : ShapeError}

theorem ordinal_eq_error {name : String} {absent : Nat} :
    (opened tag attrs).ordinal name absent = .error e ↔
      ∃ v, attrs.lookup name = some v ∧ ¬v.IsOrdinal ∧ e = .invalid tag name .natural := by
  rw [← map_id_opened, ordinal, find?_opened]
  cases attrs.lookup name with
  | none => simp
  | some v =>
    simp only [Option.some.injEq, exists_eq_left', Json.isOrdinal_iff]
    cases v with
    | num n =>
      cases hk : n.natural? with
      | none => simp [hk, eq_comm (b := e)]
      | some k => simp [hk]
    | _ => simp [eq_comm]

/-- The error of a position is that of its line, or else that of its column. -/
theorem position_eq_error : (opened tag attrs).position = .error e ↔
    (∃ v, attrs.lookup "lineno" = some v ∧ ¬v.IsOrdinal ∧ e = .invalid tag "lineno" .natural) ∨
    (∀ v, attrs.lookup "lineno" = some v → v.IsOrdinal) ∧
      ∃ v, attrs.lookup "column" = some v ∧ ¬v.IsOrdinal ∧ e = .invalid tag "column" .natural := by
  have line : (∃ k, (opened tag attrs).ordinal "lineno" Position.first.line = .ok k) ↔
      ∀ v, attrs.lookup "lineno" = some v → v.IsOrdinal := exists_ordinal _ _
  have both : (opened tag attrs).position = .error e ↔
      (do let line ← (opened tag attrs).ordinal "lineno" Position.first.line
          let column ← (opened tag attrs).ordinal "column" Position.first.column
          .ok (line, column) : Except ShapeError (Nat × Nat)) = .error e := by
    rw [← map_id_opened, position, ordinal, ordinal, find?_opened, find?_opened]
    cases attrs.lookup "lineno" <;> cases attrs.lookup "column" <;> simp [bind_eq_error]
  rw [both, bind_eq_error, ← line, ordinal_eq_error]
  simp [bind_eq_error, ordinal_eq_error]

end

end Tagged

namespace Decode

/-- The error of an open map with a known tag, stage by stage. -/
theorem tagged_eq_error {t : Tag} {attrs : List (String × Json)} {e : DecodeError} :
    tagged ((Tagged.opened t.name attrs).map decode) = .error e ↔
      check ((Tagged.opened t.name attrs).map decode) t = .error e ∨
      t.Admits attrs ∧ (kind ((Tagged.opened t.name attrs).map decode) t = .error e ∨
        Form.Decode attrs t.signature ∧
          ∃ e', (Tagged.opened t.name attrs).position = .error e' ∧ .shape e' = e) := by
  simp only [tagged, Tagged.tag_opened, Tag.ofName?_name, bind_eq_error, lift_eq_error,
    Tagged.position_opened, pure_ne_error, and_false, exists_false, or_false,
    check_eq_ok_iff_admits, exists_const]
  refine or_congr_right (and_congr_right fun admits => or_congr_right ?_)
  rw [← exists_kind admits, exists_and_right]

end Decode

end ShellTree
