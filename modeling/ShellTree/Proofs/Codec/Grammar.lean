import ShellTree.Proofs.Codec.Opening
import ShellTree.Proofs.Json.Induction

/-! The grammar of maps, and that the decoder accepts it and nothing else. -/
namespace ShellTree
open Outcome

/-- Exact integers of 64 bits that are not negative. -/
inductive Json.IsOrdinal : Json → Prop
  | mk {n : Nat} {h} (lt : n < 0x10000000000000000) : IsOrdinal (.num (.int n h))

/-- The values that an attribute of a form can have, where the maps below have to be in `P`. -/
inductive Form.Fits (P : Json → Prop) : Form → Json → Prop
  | node {m} (h : P m) : Fits P .node m
  | stream {s m} (h : P m) : Fits P (.stream s) m
  | nodes {ms} (h : ∀ m ∈ ms, P m) : Fits P .nodes (.arr ms)
  | text (s : String) : Fits P .text (.str s)
  | flag (b : Bool) : Fits P .flag (.bool b)
  | scope (s : Scope) : Fits P .scope (.str s.name)

/-- The grammar: one key, which is a tag, over an object that has all required attributes and no
others than those declared and a position, each with a value that fits. -/
inductive WellFormed : Json → Prop
  | mk {t : Tag} {attrs : List (String × Json)}
    (required : ∀ name ∈ t.required, (attrs.lookup name).isSome)
    (known : ∀ name ∈ attrs.map (·.1), name ∈ t.attributes ∨ name ∈ ["lineno", "column"])
    (fits : ∀ name form v, (name, form) ∈ t.signature → attrs.lookup name = some v →
      form.Fits WellFormed v)
    (position : ∀ name ∈ ["lineno", "column"], ∀ v, attrs.lookup name = some v → v.IsOrdinal) :
    WellFormed (.obj [(t.name, .obj attrs)])

theorem Json.isOrdinal_iff {v : Json} :
    v.IsOrdinal ↔ ∃ n k, v = .num n ∧ n.natural? = some k := by
  constructor
  · rintro ⟨_⟩
    exact ⟨_, _, rfl, rfl⟩
  · rintro ⟨n, k, rfl, hk⟩
    unfold Number.natural? at hk
    split at hk
    · next k' h =>
      have hr : (k' : Int) < 0x10000000000000000 := h.2
      exact .mk (by omega)
    · simp at hk

theorem WellFormed.isObject {m : Json} (h : WellFormed m) : ∃ fields, m = .obj fields := by
  cases h
  exact ⟨_, rfl⟩

/-- Half of a position can be read unless it is given and no ordinal. -/
theorem Tagged.exists_ordinal {tag : String} {attrs : List (String × Json)} (name : String)
    (absent : Nat) : (∃ k, (opened tag attrs).ordinal name absent = .ok k) ↔
      ∀ v, attrs.lookup name = some v → v.IsOrdinal := by
  simp only [ordinal_eq_ok, Json.isOrdinal_iff]
  cases attrs.lookup name with
  | none => simp
  | some v =>
    simp only [reduceCtorEq, false_and, false_or, Option.some.injEq, forall_eq']
    exact exists_comm

theorem exists_position {tag : String} {attrs : List (String × Json)} :
    (∃ p, (Tagged.opened tag attrs).position = .ok p) ↔
      ∀ name ∈ Decode.positionKeys, ∀ v, attrs.lookup name = some v → v.IsOrdinal := by
  have halves : (∀ name ∈ Decode.positionKeys, ∀ v, attrs.lookup name = some v → v.IsOrdinal) ↔
      (∃ l, (Tagged.opened tag attrs).ordinal "lineno" Position.first.line = .ok l) ∧
        ∃ c, (Tagged.opened tag attrs).ordinal "column" Position.first.column = .ok c := by
    rw [Tagged.exists_ordinal, Tagged.exists_ordinal]
    simp [Decode.positionKeys]
  rw [halves]
  constructor
  · rintro ⟨none | p, h⟩
    · obtain ⟨hl, hc⟩ := Tagged.position_eq_ok_none.mp h
      exact ⟨⟨_, Tagged.ordinal_eq_ok.mpr (.inl ⟨hl, rfl⟩)⟩,
        _, Tagged.ordinal_eq_ok.mpr (.inl ⟨hc, rfl⟩)⟩
    · obtain ⟨-, hl, hc⟩ := Tagged.position_eq_ok_some.mp h
      exact ⟨⟨_, hl⟩, _, hc⟩
  · rintro ⟨⟨l, hl⟩, c, hc⟩
    by_cases h : attrs.lookup "lineno" = none ∧ attrs.lookup "column" = none
    · exact ⟨none, Tagged.position_eq_ok_none.mpr h⟩
    · exact ⟨some ⟨l, c⟩, Tagged.position_eq_ok_some.mpr ⟨h, hl, hc⟩⟩

section
variable {P : Json → Prop} {t : Tag} {attrs : List (String × Json)} {name : String} {form : Form}
  {v : Json}

/-- The value of an attribute fits if the maps in what the attribute gives are in `P`. -/
theorem Form.Gives.fits {a : String × AttrValue Json} (h : Gives attrs (name, form) a)
    (hd : (name, form) ∈ t.signature) (hv : attrs.lookup name = some v)
    (below : ∀ c ∈ a.2.nodeList, P c) : form.Fits P v := by
  cases h with
  | node h =>
    obtain rfl := Option.some.inj (h.symm.trans hv)
    exact .node (below _ (by simp [AttrValue.nodeList]))
  | stream h =>
    obtain rfl := Tag.signature_stream hd
    obtain rfl := Option.some.inj (h.symm.trans hv)
    exact .stream (below _ (by simp [AttrValue.nodeList]))
  | noStream h =>
    obtain rfl := Tag.signature_stream hd
    simp [h] at hv
  | nodes h =>
    obtain rfl := Option.some.inj (h.symm.trans hv)
    exact .nodes below
  | text h =>
    obtain rfl := Option.some.inj (h.symm.trans hv)
    exact .text _
  | flag h =>
    obtain rfl := Option.some.inj (h.symm.trans hv)
    exact .flag _
  | noFlag h => simp [h] at hv
  | scope h =>
    obtain rfl := Tag.signature_scope hd
    obtain rfl := Option.some.inj (h.symm.trans hv)
    exact .scope _

/-- An attribute with a value that fits gives something, whose maps are in `P`. -/
theorem Form.Fits.exists_gives (h : form.Fits P v) (hd : (name, form) ∈ t.signature)
    (hv : attrs.lookup name = some v) (objects : ∀ m, P m → ∃ fields, m = .obj fields) :
    ∃ a, Gives attrs (name, form) a ∧ ∀ c ∈ a.2.nodeList, P c := by
  cases h with
  | node h =>
    obtain ⟨fields, rfl⟩ := objects _ h
    exact ⟨_, .node hv, by simpa [AttrValue.nodeList] using h⟩
  | stream h =>
    obtain ⟨fields, rfl⟩ := objects _ h
    obtain rfl := Tag.signature_stream hd
    exact ⟨_, .stream hv, by simpa [AttrValue.nodeList] using h⟩
  | nodes h => exact ⟨_, .nodes hv, h⟩
  | text s => exact ⟨_, .text hv, by simp [AttrValue.nodeList]⟩
  | flag b => exact ⟨_, .flag hv, by simp [AttrValue.nodeList]⟩
  | scope s =>
    obtain rfl := Tag.signature_scope hd
    exact ⟨_, .scope hv, by simp [AttrValue.nodeList]⟩

theorem Form.Fits.imp {Q : Json → Prop} (h : form.Fits P v) (here : P v → Q v)
    (below : ∀ c ∈ Tagged.elements v, P c → Q c) : form.Fits Q v := by
  cases h with
  | node h => exact .node (here h)
  | stream h => exact .stream (here h)
  | nodes h => exact .nodes fun c hc => below c hc (h c hc)
  | text s => exact .text s
  | flag b => exact .flag b
  | scope s => exact .scope s

end

/-- What decodes is in the grammar. -/
theorem wellFormed_of_decode {m : Json} {n : Node} (h : decode m = .ok n) : WellFormed m := by
  induction n using Node.induction generalizing m with
  | step k p ih =>
    obtain ⟨k', ⟨known, gives, position⟩, hk⟩ := decode_eq_ok.mp h
    refine .mk (Form.isSome_lookup_required gives) known ?_ (exists_position.mp ⟨_, position⟩)
    intro name form v hd hv
    obtain ⟨a, ha, hg⟩ := forall₂_mem_left gives hd
    refine hg.fits hd hv fun c hc => ?_
    obtain ⟨n, hn, hdec⟩ := Kind.mem_of_map_ok hk (Kind.mem_nodeList ha hc)
    exact ih n hn hdec

theorem isObject_of_decode {m : Json} (h : ∃ n, decode m = .ok n) : ∃ fields, m = .obj fields := by
  obtain ⟨n, hn⟩ := h
  exact (wellFormed_of_decode hn).isObject

/-- A kind all of whose maps decode has a kind of nodes. -/
theorem Kind.exists_map_ok {k : Kind Json} (h : ∀ m ∈ k.nodeList, ∃ n, decode m = .ok n) :
    ∃ k' : Kind Node, k.map decode = k'.map .ok := by
  refine ⟨k.map fun m => (decode m).toOption.getD Node.pass, ?_⟩
  rw [Kind.map_map]
  apply Kind.map_congr
  intro m hm
  obtain ⟨n, hn⟩ := h m hm
  simp [hn, Except.toOption]

/-- A declared attribute gives something, whose maps decode, if nothing is missing that is required
and its value, if there is one, fits with maps that decode. -/
theorem exists_gives {t : Tag} {attrs : List (String × Json)}
    (required : ∀ name ∈ t.required, (attrs.lookup name).isSome) {name : String} {form : Form}
    (hd : (name, form) ∈ t.signature)
    (fits : ∀ v, attrs.lookup name = some v → form.Fits (fun m => ∃ n, decode m = .ok n) v) :
    ∃ a, Form.Gives attrs (name, form) a ∧ ∀ c ∈ a.2.nodeList, ∃ n, decode c = .ok n := by
  cases hv : attrs.lookup name with
  | none =>
    have ho := Form.optional_of_absent required hd hv
    cases form with
    | stream s =>
      obtain rfl := Tag.signature_stream hd
      refine ⟨_, .noStream hv, ?_⟩
      intro c hc
      obtain rfl : c = s.sentinel := by simpa [AttrValue.nodeList] using hc
      exact ⟨_, Decode.decode_sentinel s⟩
    | flag => exact ⟨_, .noFlag hv, by simp [AttrValue.nodeList]⟩
    | _ => simp [Form.optional] at ho
  | some v => exact (fits v hv).exists_gives hd hv fun _ => isObject_of_decode

/-- Whatever is in the grammar decodes. -/
theorem exists_decode {m : Json} (h : WellFormed m) : ∃ n, decode m = .ok n := by
  induction m using Json.induction with
  | step m ih =>
    obtain @⟨t, attrs, required, known, fits, position⟩ := h
    have each : ∀ d ∈ t.signature, ∃ a, Form.Gives attrs d a ∧
        ∀ c ∈ a.2.nodeList, ∃ n, decode c = .ok n := by
      rintro ⟨name, form⟩ hd
      refine exists_gives required hd fun v hv => ?_
      obtain ⟨here, below⟩ := ih _ _ rfl name v (mem_of_lookup hv)
      exact (fits name form v hd hv).imp here below
    obtain ⟨as, hs⟩ := exists_forall₂ each
    have gives : List.Forall₂ (Form.Gives attrs) t.signature as := hs.imp fun _ _ h => h.1
    obtain ⟨k, rfl, rfl⟩ := Kind.exists_of_declared (gives.imp fun _ _ h => h.declares)
    have below : ∀ c ∈ k.nodeList, ∃ n, decode c = .ok n := by
      intro c hc
      obtain ⟨a, ha, hc⟩ := List.mem_flatMap.mp hc
      obtain ⟨d, -, -, h⟩ := forall₂_mem_left hs.flip ha
      exact h c hc
    obtain ⟨k', hk⟩ := Kind.exists_map_ok below
    obtain ⟨p, hp⟩ := exists_position.mpr position
    exact ⟨⟨k', p⟩, decode_eq_ok.mpr ⟨k, .mk known gives hp, hk⟩⟩

/-- The decoder accepts exactly the grammar. -/
theorem decode_isOk_iff_wellFormed (m : Json) : (∃ n, decode m = .ok n) ↔ WellFormed m :=
  ⟨fun ⟨_, h⟩ => wellFormed_of_decode h, exists_decode⟩

end ShellTree
