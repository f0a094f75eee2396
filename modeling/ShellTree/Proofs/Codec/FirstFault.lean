import ShellTree.Proofs.Codec.Stages

/-! The fault that decoding reports. A map that is no tree has faults of its own and faults in the
maps below it, at the ends of ways down, and they are looked for in one order throughout. -/
namespace ShellTree

/-- The first fault of a map and the way to it. At each map on the way these come one after the
other: its shape, its tag, the first required attribute that is missing, all the undeclared ones,
the attributes in declared order, each with all that is below it, the line, the column. -/
inductive FirstFault : Json → List Node.Step → DecodeError → Prop
  | malformed {m e} (h : m.Malformed e) : FirstFault m [] (.shape e)
  | unsupported {tag attrs} (h : ∀ t : Tag, tag ≠ t.name) :
    FirstFault (.obj [(tag, .obj attrs)]) [] (.unsupported tag)
  | missing {t : Tag} {attrs before name after} (declared : t.required = before ++ name :: after)
    (given : ∀ other ∈ before, (attrs.lookup other).isSome) (absent : attrs.lookup name = none) :
    FirstFault (.obj [(t.name, .obj attrs)]) [] (.shape (.missing t.name name))
  | undeclared {t : Tag} {attrs keys}
    (required : ∀ name ∈ t.required, (attrs.lookup name).isSome) (some : keys ≠ [])
    (all : keys.Perm (t.undeclared attrs))
    (sorted : keys.Pairwise fun a b => Text.bytes a ≤ Text.bytes b) :
    FirstFault (.obj [(t.name, .obj attrs)]) [] (.unknown t keys)
  | misfit {t attrs name form v e} (reached : Form.Reached t attrs name form v)
    (h : form.Misfit t.name name v e) : FirstFault (.obj [(t.name, .obj attrs)]) [] (.shape e)
  | node {t attrs name form fields path e} (hf : form.kind = .object)
    (reached : Form.Reached t attrs name form (.obj fields))
    (below : FirstFault (.obj fields) path e) :
    FirstFault (.obj [(t.name, .obj attrs)]) (⟨name, none⟩ :: path) e
  | element {t attrs name before m after path e}
    (reached : Form.Reached t attrs name .nodes (.arr (before ++ m :: after)))
    (good : ∀ c ∈ before, ∃ n, decode c = .ok n) (below : FirstFault m path e) :
    FirstFault (.obj [(t.name, .obj attrs)]) (⟨name, some before.length⟩ :: path) e
  | line {t : Tag} {attrs v} (admits : t.Admits attrs) (good : Form.Decode attrs t.signature)
    (given : attrs.lookup "lineno" = some v) (h : ¬v.IsOrdinal) :
    FirstFault (.obj [(t.name, .obj attrs)]) [] (.shape (.invalid t.name "lineno" .natural))
  | column {t : Tag} {attrs v} (admits : t.Admits attrs) (good : Form.Decode attrs t.signature)
    (line : ∀ v, attrs.lookup "lineno" = some v → v.IsOrdinal)
    (given : attrs.lookup "column" = some v) (h : ¬v.IsOrdinal) :
    FirstFault (.obj [(t.name, .obj attrs)]) [] (.shape (.invalid t.name "column" .natural))

open Decode

/-- A map that does not decode has a first fault, which is what the decoder reports. -/
theorem exists_firstFault {m : Json} {e : DecodeError} (h : decode m = .error e) :
    ∃ path, FirstFault m path e := by
  induction m using Json.induction generalizing e with
  | step m ih =>
    rw [decode_eq] at h
    cases hp : Tagged.parse m with
    | error e' =>
      rw [hp] at h
      cases h
      exact ⟨[], .malformed (Tagged.parse_eq_error.mp hp)⟩
    | ok opened =>
      obtain ⟨tag, attrs, rfl, rfl⟩ := Tagged.parse_eq_ok.mp hp
      simp only [hp] at h
      cases ht : Tag.ofName? tag with
      | none =>
        rw [tagged, Tagged.tag_opened, ht] at h
        cases h
        refine ⟨[], .unsupported ?_⟩
        rintro t rfl
        rw [Tag.ofName?_name] at ht
        cases ht
      | some t =>
        obtain rfl := Tag.ofName?_eq_some.mp ht
        obtain hc | ⟨admits, hk | ⟨good, e', hp, rfl⟩⟩ := tagged_eq_error.mp h
        · obtain ⟨name, rfl, before, after, declared, given, absent⟩ |
            ⟨required, keys, rfl, some, all, sorted⟩ := check_eq_error.mp hc
          · exact ⟨[], .missing declared given absent⟩
          · exact ⟨[], .undeclared required some all sorted⟩
        · obtain ⟨name, form, v, reached, hv⟩ := (kind_eq_error admits).mp hk
          obtain ⟨here, below⟩ := ih _ _ rfl name v (mem_of_lookup reached.given)
          obtain ⟨e', misfit, rfl⟩ | ⟨hf, hv, he⟩ | ⟨rfl, before, m, after, rfl, good, he⟩ :=
            (attr_eq_error reached.mem reached.given).mp hv
          · exact ⟨[], .misfit reached misfit⟩
          · cases v <;> cases hv
            obtain ⟨path, hp⟩ := here he
            exact ⟨_, .node hf reached hp⟩
          · obtain ⟨path, hp⟩ := below m (by simp [Tagged.elements]) he
            exact ⟨_, .element reached good hp⟩
        · obtain ⟨v, given, hv, rfl⟩ | ⟨line, v, given, hv, rfl⟩ := Tagged.position_eq_error.mp hp
          · exact ⟨[], .line admits good given hv⟩
          · exact ⟨[], .column admits good line given hv⟩

/-- The first fault of a map is what the decoder reports. -/
theorem FirstFault.decode_eq {m : Json} {path : List Node.Step} {e : DecodeError}
    (h : FirstFault m path e) : decode m = .error e := by
  have opened : ∀ (t : Tag) attrs, decode (.obj [(t.name, .obj attrs)]) =
      tagged ((Tagged.opened t.name attrs).map decode) := by
    intro t attrs
    rw [ShellTree.decode_eq, Tagged.parse_eq_ok.mpr ⟨_, _, rfl, rfl⟩]
  have value : ∀ {t : Tag} {attrs name form v e}, Form.Reached t attrs name form v →
      attr ((Tagged.opened t.name attrs).map decode) (name, form) = .error e →
        decode (.obj [(t.name, .obj attrs)]) = .error e := by
    intro t attrs name form v e reached hv
    rw [opened, tagged_eq_error, kind_eq_error reached.admits]
    exact .inr ⟨reached.admits, .inl ⟨name, form, v, reached, hv⟩⟩
  induction h with
  | malformed h => rw [ShellTree.decode_eq, Tagged.parse_eq_error.mpr h]
  | @unsupported tag attrs h =>
    have unknown : Tag.ofName? tag = none := by
      cases ht : Tag.ofName? tag with
      | none => rfl
      | some t => exact absurd (Tag.ofName?_eq_some.mp ht) (h t)
    rw [ShellTree.decode_eq, Tagged.parse_eq_ok.mpr ⟨_, _, rfl, rfl⟩]
    simp only [tagged, Tagged.tag_opened, unknown]
  | missing declared given absent =>
    rw [opened, tagged_eq_error, check_eq_error]
    exact .inl (.inl ⟨_, rfl, _, _, declared, given, absent⟩)
  | undeclared required some all sorted =>
    rw [opened, tagged_eq_error, check_eq_error]
    exact .inl (.inr ⟨required, _, rfl, some, all, sorted⟩)
  | misfit reached h =>
    exact value reached ((attr_eq_error reached.mem reached.given).mpr (.inl ⟨_, h, rfl⟩))
  | node hf reached _ ih =>
    exact value reached
      ((attr_eq_error reached.mem reached.given).mpr (.inr (.inl ⟨hf, rfl, ih⟩)))
  | element reached good _ ih =>
    exact value reached ((attr_eq_error reached.mem reached.given).mpr
      (.inr (.inr ⟨rfl, _, _, _, rfl, good, ih⟩)))
  | line admits good given h =>
    rw [opened, tagged_eq_error]
    exact .inr ⟨admits, .inr ⟨good, _,
      Tagged.position_eq_error.mpr (.inl ⟨_, given, h, rfl⟩), rfl⟩⟩
  | column admits good line given h =>
    rw [opened, tagged_eq_error]
    exact .inr ⟨admits, .inr ⟨good, _,
      Tagged.position_eq_error.mpr (.inr ⟨line, _, given, h, rfl⟩), rfl⟩⟩

/-- The decoder reports the first fault, at the end of a way down on which all is right. -/
theorem decode_eq_error_iff (m : Json) (e : DecodeError) :
    decode m = .error e ↔ ∃ path, FirstFault m path e :=
  ⟨exists_firstFault, fun ⟨_, h⟩ => h.decode_eq⟩

end ShellTree
