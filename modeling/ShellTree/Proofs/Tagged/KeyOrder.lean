import Mathlib.Data.List.Sort
import Mathlib.Data.String.Basic
import ShellTree.Proofs.Json.KeyOrder
import ShellTree.Proofs.Render.Construct

/-! Maps with their keys in another order. They open alike: with the same tag, the same names, and
the same under each name. All that is read of an open map is then the same, what is missing or
unknown in it as well, so that decoding and rendering do not depend on the order of keys. -/
namespace ShellTree

namespace Json.Reordered
variable {m m' : Json}

theorem elements (h : m.Reordered m') :
    List.Forall₂ Reordered (Tagged.elements m) (Tagged.elements m') := by
  cases h.reordering with
  | arr items => exact items
  | _ => exact .nil

theorem length_eq {fields fields' : List (String × Json)}
    (h : (obj fields).Reordered (obj fields')) : fields.length = fields'.length := by
  cases h.reordering with
  | obj names values => simpa using names.length_eq

/-- A single key stays as it is. -/
theorem single {tag : String} {body : Json} (h : (obj [(tag, body)]).Reordered m') :
    ∃ body', m' = obj [(tag, body')] ∧ body.Reordered body' := by
  cases h.reordering with
  | obj names values =>
    have ht := (List.singleton_perm.mp names).symm
    obtain ⟨⟨tag', body'⟩, rfl, rfl⟩ := List.map_eq_singleton_iff.mp ht
    have hb := values tag'
    simp only [List.lookup_cons_self, Option.rel_some_some] at hb
    exact ⟨body', rfl, hb⟩

end Json.Reordered

open Json (Reordered)

/-- The value of an attribute reordered, and read as the same. -/
structure Attr.Alike {ρ : Type} (a a' : Attr ρ) : Prop where
  value : a.value.Reordered a'.value
  asNode : a.asNode = a'.asNode
  asNodes : a.asNodes = a'.asNodes

/-- Open maps that do not differ beside the order of their keys. -/
structure Tagged.Alike {ρ : Type} (t t' : Tagged ρ) : Prop where
  tag : t.tag = t'.tag
  names : (t.attrs.map (·.1)).Perm (t'.attrs.map (·.1))
  find? : ∀ name, Option.Rel Attr.Alike (t.find? name) (t'.find? name)

namespace Tagged

theorem parse_of_length_ne {fields : List (String × Json)} (h : fields.length ≠ 1) :
    parse (.obj fields) = .error (.notOneKey fields.length) := by
  match fields with
  | [] => rfl
  | [_] => exact absurd rfl h
  | _ :: _ :: _ => simp only [parse]

theorem parse_reordered {m m' : Json} (h : m.Reordered m') :
    (∃ e, parse m = .error e ∧ parse m' = .error e) ∨ ∃ tag attrs attrs',
      m = .obj [(tag, .obj attrs)] ∧ m' = .obj [(tag, .obj attrs')] ∧
        (Json.obj attrs).Reordered (.obj attrs') := by
  cases h.reordering with
  | @obj fields fields' names values =>
    have length := h.length_eq
    by_cases hl : fields.length = 1
    · obtain ⟨⟨tag, body⟩, rfl⟩ := List.length_eq_one_iff.mp hl
      obtain ⟨body', hm, hb⟩ := h.single
      rw [hm]
      cases hb.reordering with
      | obj => exact .inr ⟨tag, _, _, rfl, rfl, hb⟩
      | _ => exact .inl ⟨_, rfl, rfl⟩
    · refine .inl ⟨_, parse_of_length_ne hl, ?_⟩
      rw [parse_of_length_ne (by rwa [← length]), length]
  | _ => exact .inl ⟨_, rfl, rfl⟩

theorem tagOf?_reordered {m m' : Json} (h : m.Reordered m') : tagOf? m = tagOf? m' := by
  cases h.reordering with
  | @obj fields fields' names values =>
    have length := h.length_eq
    match fields, fields' with
    | [], [] | _ :: _ :: _, _ :: _ :: _ => rfl
    | [(tag, body)], _ =>
      obtain ⟨body', hm, -⟩ := h.single
      rw [hm]
      rfl
  | _ => rfl

section
variable {ρ : Type} {tag : String} {attrs attrs' : List (String × Json)}

/-- Maps open alike if what is nested in them reads as the same when it is reordered. -/
theorem alike_opened {f : Json → ρ} (h : (Json.obj attrs).Reordered (.obj attrs'))
    (hf : ∀ name v, (name, v) ∈ attrs → (∀ w, v.Reordered w → f v = f w) ∧
      ∀ c ∈ elements v, ∀ w, c.Reordered w → f c = f w) :
    ((opened tag attrs).map f).Alike ((opened tag attrs').map f) := by
  cases h.reordering with
  | obj names values =>
    refine ⟨rfl, by simpa only [names_opened] using names, fun name => ?_⟩
    rw [find?_opened, find?_opened]
    rcases cases_of_rel (values name) with ⟨hl, hl'⟩ | ⟨v, w, hl, hl', hv⟩
    · rw [hl, hl']
      exact .none
    · rw [hl, hl']
      obtain ⟨here, below⟩ := hf name v (mem_of_lookup hl)
      refine .some ⟨hv, here w hv, ?_⟩
      rw [← List.forall₂_eq_eq_eq, List.forall₂_map_left_iff, List.forall₂_map_right_iff]
      exact forall₂_imp_mem hv.elements fun c hc w _ hcw => below c hc w hcw

/-- What is read of a map does not depend on the order of keys if no step of the reading does. -/
theorem read_reordered {step : Except ShapeError (Tagged ρ) → ρ}
    (hs : ∀ t t', t.Alike t' → step (.ok t) = step (.ok t')) {m m' : Json}
    (h : m.Reordered m') : read step m = read step m' := by
  induction m using Json.induction generalizing m' with
  | step m ih =>
    rw [read_eq, read_eq]
    rcases parse_reordered h with ⟨e, hm, hm'⟩ | ⟨tag, attrs, attrs', rfl, rfl, ha⟩
    · rw [hm, hm']
    · apply hs
      apply alike_opened ha
      intro name v hv
      obtain ⟨here, below⟩ := ih tag attrs rfl name v hv
      exact ⟨fun w => here, fun c hc w => below c hc⟩

end

/-! Reading an attribute -/

namespace Alike
variable {ρ : Type} {t t' : Tagged ρ}

theorem attr (h : t.Alike t') (name : String) : t.find? name = none ∧ t'.find? name = none ∨
    ∃ v v' r rs, t.find? name = some ⟨v, r, rs⟩ ∧ t'.find? name = some ⟨v', r, rs⟩ ∧
      v.Reordered v' := by
  rcases cases_of_rel (h.find? name) with hn | ⟨⟨v, r, rs⟩, ⟨v', r', rs'⟩, ho, ho', hv, hr, hrs⟩
  · exact .inl hn
  · obtain rfl : r = r' := hr
    obtain rfl : rs = rs' := hrs
    exact .inr ⟨v, v', r, rs, ho, ho', hv⟩

theorem node (h : t.Alike t') (name : String) : t.node name = t'.node name := by
  simp only [Tagged.node, nested, get, h.tag]
  rcases h.attr name with ⟨ho, ho'⟩ | ⟨v, v', r, rs, ho, ho', hv⟩
  · rw [ho, ho']
  · rw [ho, ho']
    cases hv.reordering <;> rfl

theorem nodes (h : t.Alike t') (name : String) : t.nodes name = t'.nodes name := by
  simp only [Tagged.nodes, get, h.tag]
  rcases h.attr name with ⟨ho, ho'⟩ | ⟨v, v', r, rs, ho, ho', hv⟩
  · rw [ho, ho']
  · rw [ho, ho']
    cases hv.reordering <;> rfl

theorem optionalNodes (h : t.Alike t') (name : String) :
    t.optionalNodes name = t'.optionalNodes name := by
  simp only [Tagged.optionalNodes, h.nodes]
  rcases h.attr name with ⟨ho, ho'⟩ | ⟨v, v', r, rs, ho, ho', -⟩ <;> rw [ho, ho']

theorem text (h : t.Alike t') (name : String) : t.text name = t'.text name := by
  simp only [Tagged.text, get, h.tag]
  rcases h.attr name with ⟨ho, ho'⟩ | ⟨v, v', r, rs, ho, ho', hv⟩
  · rw [ho, ho']
  · rw [ho, ho']
    cases hv.reordering <;> rfl

theorem scope (h : t.Alike t') : t.scope = t'.scope := by
  simp only [Tagged.scope, h.text, h.tag]

theorem flag (h : t.Alike t') (name : String) (absent : Bool) :
    t.flag name absent = t'.flag name absent := by
  simp only [Tagged.flag, h.tag]
  rcases h.attr name with ⟨ho, ho'⟩ | ⟨v, v', r, rs, ho, ho', hv⟩
  · rw [ho, ho']
  · rw [ho, ho']
    cases hv.reordering <;> rfl

theorem ordinal (h : t.Alike t') (name : String) (absent : Nat) :
    t.ordinal name absent = t'.ordinal name absent := by
  simp only [Tagged.ordinal, h.tag]
  rcases h.attr name with ⟨ho, ho'⟩ | ⟨v, v', r, rs, ho, ho', hv⟩
  · rw [ho, ho']
  · rw [ho, ho']
    cases hv.reordering with
    | num same => simp only [Number.natural?_of_sameValue same]
    | _ => rfl

theorem position (h : t.Alike t') : t.position = t'.position := by
  simp only [Tagged.position, h.ordinal]
  rcases h.attr "lineno" with ⟨hl, hl'⟩ | ⟨v, v', r, rs, hl, hl', -⟩ <;>
    rcases h.attr "column" with ⟨hc, hc'⟩ | ⟨w, w', r, rs, hc, hc', -⟩ <;>
      rw [hl, hl', hc, hc']

end Alike
end Tagged

namespace Decode
variable {t t' : Tagged (Result Node)}

theorem mergeSort_eq_of_perm {l l' : List String} (h : l.Perm l') :
    l.mergeSort (· ≤ ·) = l'.mergeSort (· ≤ ·) := by
  have sorted : ∀ l : List String, (l.mergeSort (· ≤ ·)).Pairwise (· ≤ ·) :=
    List.pairwise_mergeSort' (· ≤ ·)
  have perm := ((List.mergeSort_perm l (· ≤ ·)).trans h).trans
    (List.mergeSort_perm l' (· ≤ ·)).symm
  exact perm.eq_of_pairwise (fun _ _ _ _ => String.le_antisymm) (sorted l) (sorted l')

/-- Missing attributes are looked for in declared order, and unknown ones are sorted. -/
theorem check_alike (h : t.Alike t') (tag : Tag) : check t tag = check t' tag := by
  have given : ∀ name, (t.find? name).isNone = (t'.find? name).isNone := by
    intro name
    rcases h.attr name with ⟨ho, ho'⟩ | ⟨v, v', r, rs, ho, ho', -⟩
    · rw [ho, ho']
    · rw [ho, ho']
      rfl
  have unknown := h.names.filter fun key =>
    !tag.attributes.contains key && !positionKeys.contains key
  simp only [check, given, h.tag, unknown.isEmpty_eq, mergeSort_eq_of_perm unknown]

theorem tagged_alike (h : t.Alike t') : tagged t = tagged t' := by
  have hn : ∀ name, node t name = node t' name := by
    intro name
    rw [node, node, h.node]
  have hns : ∀ name, nodes t name = nodes t' name := by
    intro name
    rw [nodes, nodes, h.nodes]
  have stream : ∀ s, stream t s = stream t' s := by
    intro s
    simp only [stream, hn]
    rcases h.attr s.attr with ⟨ho, ho'⟩ | ⟨v, v', r, rs, ho, ho', -⟩ <;> rw [ho, ho']
  have kind : ∀ tag, kind t tag = kind t' tag := by
    intro tag
    cases tag <;> simp only [kind, command, hn, hns, stream, h.text, h.scope, h.flag]
  simp only [tagged, check_alike h, kind, h.position, h.tag]

end Decode

namespace Render
variable {d : Dialect} {t t' : Tagged (Result String)} {m m' : Json}

theorem isSentinel_of_length_ne {fields : List (String × Json)} (h : fields.length ≠ 1)
    (s : Stream) : isSentinel s (.obj fields) = false := by
  unfold isSentinel
  split
  · next heq =>
    cases heq
    exact absurd rfl h
  · rfl

theorem isSentinel_reordered (h : m.Reordered m') (s : Stream) :
    isSentinel s m = isSentinel s m' := by
  cases h.reordering with
  | @obj fields fields' =>
    by_cases hl : fields.length = 1
    · obtain ⟨⟨tag, body⟩, rfl⟩ := List.length_eq_one_iff.mp hl
      obtain ⟨body', hm, hb⟩ := h.single
      rw [hm]
      cases hb.reordering with
      | @obj attrs attrs' =>
        have length := hb.length_eq
        cases attrs with
        | nil =>
          obtain rfl := List.eq_nil_of_length_eq_zero length.symm
          rfl
        | cons a attrs =>
          cases attrs' with
          | nil => cases length
          | cons a' attrs' => rfl
      | _ => rfl
    · rw [isSentinel_of_length_ne hl, isSentinel_of_length_ne (by rwa [← h.length_eq])]
  | _ => rfl

theorem isElseIf_reordered (h : m.Reordered m') : isElseIf (some m) = isElseIf (some m') := by
  cases h.reordering with
  | arr items =>
    rcases items with _ | ⟨hm, _ | _⟩
    · rfl
    · simp only [isElseIf, Tagged.tagOf?_reordered hm]
    · rfl
  | _ => rfl

theorem loopName_reordered (h : m.Reordered m') : loopName d m = loopName d m' := by
  unfold loopName
  rcases Tagged.parse_reordered h with ⟨e, hm, hm'⟩ | ⟨tag, attrs, attrs', rfl, rfl, ha⟩
  · rw [hm, hm']
  -- What is nested in a target is never read, so that it may as well read as nothing.
  · have alike : ((Tagged.opened tag attrs).map fun _ => ()).Alike
        ((Tagged.opened tag attrs').map fun _ => ()) :=
      Tagged.alike_opened ha fun _ _ _ => ⟨fun _ _ => rfl, fun _ _ _ _ => rfl⟩
    have text := alike.text "name"
    rw [Tagged.text_opened, Tagged.text_opened] at text
    rw [Tagged.parse_eq_ok.mpr ⟨tag, attrs, rfl, rfl⟩,
      Tagged.parse_eq_ok.mpr ⟨tag, attrs', rfl, rfl⟩]
    simp only [lift_ok, Outcome.ok_bind, text]
    rfl

theorem redirect_alike (h : t.Alike t') (s : Stream) : redirect d t s = redirect d t' s := by
  unfold redirect
  rcases h.attr s.attr with ⟨ho, ho'⟩ | ⟨v, v', r, rs, ho, ho', hv⟩
  · rw [ho, ho']
  · rw [ho, ho']
    simp only [isSentinel_reordered hv]

theorem loopTarget_alike (h : t.Alike t') : loopTarget d t = loopTarget d t' := by
  simp only [loopTarget, Tagged.nested, Tagged.get, h.tag]
  rcases h.attr "target" with ⟨ho, ho'⟩ | ⟨v, v', r, rs, ho, ho', hv⟩
  · rw [ho, ho']
  · rw [ho, ho']
    cases hv.reordering with
    | obj => exact loopName_reordered hv
    | _ => rfl

theorem ifElse_alike (h : t.Alike t') : ifElse d t = ifElse d t' := by
  have elseIf : isElseIf ((t.find? "orelse").map (·.value)) =
      isElseIf ((t'.find? "orelse").map (·.value)) := by
    rcases h.attr "orelse" with ⟨ho, ho'⟩ | ⟨v, v', r, rs, ho, ho', hv⟩
    · rw [ho, ho']
    · rw [ho, ho']
      exact isElseIf_reordered hv
  simp only [ifElse, node, nodes, h.node, h.nodes, h.optionalNodes, elseIf]

theorem construct_alike (h : t.Alike t') (tag : Tag) : construct d t tag = construct d t' tag := by
  have hn : ∀ name, node t name = node t' name := by
    intro name
    rw [node, node, h.node]
  have hns : ∀ name, nodes t name = nodes t' name := by
    intro name
    rw [nodes, nodes, h.nodes]
  cases tag <;> simp only [construct, command, commandLine, logic, assign, forIn, function, hn, hns,
    h.text, h.scope, h.flag, redirect_alike h, loopTarget_alike h, ifElse_alike h]

theorem tagged_alike (h : t.Alike t') : tagged d t = tagged d t' := by
  simp only [tagged, construct_alike h, h.tag]

end Render

/-- The order of keys carries no meaning: values without repeated keys that are equal up to that
order decode to the same tree or fail with the same error, and so they do when they are rendered.
Values that are read from text have no repeated keys. -/
theorem decode_render_eq_of_equiv {m m' : Json} (hd : m.DistinctKeys) (h : m.equiv m' = true) :
    decode m = decode m' ∧ ∀ d, render d m = render d m' := by
  have hr : m.Reordered m' := ⟨hd, h⟩
  exact ⟨Tagged.read_reordered (fun _ _ ha => Decode.tagged_alike ha) hr,
    fun d => Tagged.read_reordered (fun _ _ ha => Render.tagged_alike ha) hr⟩

/-- An assignment with all keys the other way round. -/
theorem decode_render_swapped_assignment :
    let value := Json.obj [("RawString", .obj [("value", .str "1"), ("lineno", .num (.int 3 (by decide)))])]
    let value' := Json.obj [("RawString", .obj [("lineno", .num (.int 3 (by decide))), ("value", .str "1")])]
    let m := Json.obj [("EnvAssign", .obj [("name", .str "x"), ("value", value)])]
    let m' := Json.obj [("EnvAssign", .obj [("value", value'), ("name", .str "x")])]
    (m.DistinctKeys ∧ m.equiv m' = true) ∧
      decode m = decode m' ∧ ∀ d, render d m = render d m' := by
  intro value value' m m'
  have distinct : m.DistinctKeys := by
    simp [m, value, Json.distinctKeys_obj, Json.distinctKeys_of_kind, Json.kind]
  have equiv : m.equiv m' = true := by decide
  exact ⟨⟨distinct, equiv⟩, decode_render_eq_of_equiv distinct equiv⟩

end ShellTree
