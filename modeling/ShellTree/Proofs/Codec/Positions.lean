import ShellTree.Node.Outline
import ShellTree.Proofs.Codec.Grammar
import ShellTree.Proofs.Node.Paths
import ShellTree.Proofs.Render.Positions

/-! Positions in maps. Each node of a decoded tree has the position that the map in its place gives,
and nothing else of the tree hangs on positions. -/
namespace ShellTree
open Outcome

namespace Json

/-- The value at a place if it is a list, and else, without a place, the value itself. -/
def item? : Option Nat → Json → Option Json
  | none, v => some v
  | some i, .arr items => items[i]?
  | some _, _ => none

/-- The value that is one step below a map. -/
def below? (s : Node.Step) : Json → Option Json
  | .obj [(_, .obj attrs)] => (attrs.lookup s.attr).bind (item? s.index)
  | _ => none

/-- The value at the end of a way down a map. -/
def at? : List Node.Step → Json → Option Json
  | [], m => some m
  | s :: path, m => (m.below? s).bind (at? path)

end Json

/-- Half of a position, which is 1 where it is not given. -/
def Half (attrs : List (String × Json)) (name : String) (k : Nat) : Prop :=
  attrs.lookup name = none ∧ k = 1 ∨ ∃ h, attrs.lookup name = some (.num (.int k h))

/-- The position that a map's attributes give: none without a line and a column. -/
inductive Carries (attrs : List (String × Json)) : Option Position → Prop
  | none (line : attrs.lookup "lineno" = none) (column : attrs.lookup "column" = none) :
    Carries attrs none
  | some {p : Position}
    (given : ¬(attrs.lookup "lineno" = .none ∧ attrs.lookup "column" = .none))
    (line : Half attrs "lineno" p.line) (column : Half attrs "column" p.column) :
    Carries attrs (some p)

theorem half_iff {tag name : String} {attrs : List (String × Json)} {k : Nat} :
    (Tagged.opened tag attrs).ordinal name 1 = .ok k ↔ Half attrs name k := by
  rw [Tagged.ordinal_eq_ok, Half]
  apply or_congr_right
  constructor
  · rintro ⟨n, hn, hk⟩
    unfold Number.natural? at hk
    split at hk
    · obtain rfl := Option.some.inj hk
      exact ⟨_, hn⟩
    · cases hk
  · rintro ⟨h, hn⟩
    exact ⟨_, hn, rfl⟩

/-- A map is read with the position that its attributes carry. -/
theorem carries_iff {tag : String} {attrs : List (String × Json)} {p : Option Position} :
    (Tagged.opened tag attrs).position = .ok p ↔ Carries attrs p := by
  cases p with
  | none =>
    rw [Tagged.position_eq_ok_none]
    constructor
    · rintro ⟨line, column⟩
      exact .none line column
    · rintro ⟨line, column⟩
      exact ⟨line, column⟩
  | some p =>
    rw [Tagged.position_eq_ok_some]
    constructor
    · rintro ⟨given, line, column⟩
      exact .some given (half_iff.mp line) (half_iff.mp column)
    · rintro ⟨⟩
      next given line column => exact ⟨given, half_iff.mpr line, half_iff.mpr column⟩

theorem Carries.unique {attrs : List (String × Json)} {p p' : Option Position}
    (h : Carries attrs p) (h' : Carries attrs p') : p = p' := by
  have read : (Tagged.opened "" attrs).position = .ok p := carries_iff.mpr h
  rw [carries_iff.mpr h'] at read
  exact (Except.ok.inj read).symm

section
variable {attrs : List (String × Json)} {t : Tag} {d : String × Form} {a : String × AttrValue Json}
  {i : Option Nat} {c : Json}

/-- What is one step below a kind is one step below its map, if it is not a stream left out. -/
theorem Form.Gives.item_of_value (h : Gives attrs d a) (hd : d ∈ t.signature)
    (hc : a.2.item? i = some c) : (attrs.lookup d.1).bind (Json.item? i) = some c ∨
      ∃ s : Stream, d.1 = s.attr ∧ i = none ∧ attrs.lookup s.attr = none ∧ c = s.sentinel := by
  cases h with
  | node h =>
    cases i <;> simp only [AttrValue.item?, reduceCtorEq] at hc
    exact .inl (by rw [h]; exact hc)
  | stream h =>
    obtain rfl := Tag.signature_stream hd
    cases i <;> simp only [AttrValue.item?, reduceCtorEq] at hc
    exact .inl (by rw [h]; exact hc)
  | noStream h =>
    obtain rfl := Tag.signature_stream hd
    cases i <;> simp only [AttrValue.item?, reduceCtorEq] at hc
    exact .inr ⟨_, rfl, rfl, h, (Option.some.inj hc).symm⟩
  | nodes h =>
    cases i <;> simp only [AttrValue.item?, reduceCtorEq] at hc
    exact .inl (by rw [h]; exact hc)
  | _ => cases i <;> cases hc

/-- A map that is one step below a map is one step below its kind. -/
theorem Form.Gives.value_of_item (h : Gives attrs d a) (hd : d ∈ t.signature)
    {fields : List (String × Json)}
    (hc : (attrs.lookup d.1).bind (Json.item? i) = some (.obj fields)) :
    a.2.item? i = some (.obj fields) := by
  cases h with
  | node h =>
    rw [h] at hc
    cases i <;> exact hc
  | stream h =>
    obtain rfl := Tag.signature_stream hd
    rw [h] at hc
    cases i <;> exact hc
  | noStream h =>
    obtain rfl := Tag.signature_stream hd
    rw [h] at hc
    cases hc
  | nodes h =>
    rw [h] at hc
    cases i <;> first | exact hc | cases hc
  | scope h =>
    obtain rfl := Tag.signature_scope hd
    rw [h] at hc
    cases i <;> cases hc
  | noFlag h =>
    rw [h] at hc
    cases hc
  | _ h =>
    rw [h] at hc
    cases i <;> cases hc

end

namespace Opens
variable {m : Json} {k : Kind Json} {p : Option Position} {s : Node.Step}

/-- A node below is read from the map in its place, or else it is a stream that is left out. -/
theorem below_map (h : Opens m k p) {c : Json} (hc : k.below? s = some c) :
    m.below? s = some c ∨ ∃ (tag : String) (attrs : List (String × Json)) (stream : Stream),
      m = .obj [(tag, .obj attrs)] ∧ attrs.lookup stream.attr = none ∧
        s = ⟨stream.attr, none⟩ ∧ c = stream.sentinel := by
  obtain @⟨_, _, attrs, -, gives, -⟩ := h
  obtain ⟨v, hv, hc⟩ := Kind.below?_eq_some.mp hc
  obtain ⟨d, hd, hg⟩ := forall₂_mem_left gives.flip hv
  obtain hn : s.attr = d.1 := hg.declares.name
  obtain hl | ⟨stream, hs, hi, hl, rfl⟩ := hg.item_of_value hd hc
  · rw [← hn] at hl
    exact .inl hl
  · refine .inr ⟨_, attrs, stream, rfl, hl, ?_, rfl⟩
    rw [← hs, ← hn, ← hi]

/-- A map below is read as the node in its place. -/
theorem map_below (h : Opens m k p) {fields : List (String × Json)}
    (hc : m.below? s = some (.obj fields)) : k.below? s = some (.obj fields) := by
  obtain @⟨_, _, attrs, known, gives, position⟩ := h
  obtain ⟨v, hv, hi⟩ := Option.bind_eq_some_iff.mp hc
  have declared : s.attr ∈ k.tag.signature.map (·.1) := by
    rw [Tag.signature_names]
    refine (known s.attr (List.mem_map_of_mem (mem_of_lookup hv))).resolve_right fun hp => ?_
    obtain ⟨_⟩ := exists_position.mp ⟨_, position⟩ _ hp v hv
    cases hs : s.index <;> rw [hs] at hi <;> cases hi
  obtain ⟨d, hd, hn⟩ := List.mem_map.mp declared
  obtain ⟨a, ha, hg⟩ := forall₂_mem_left gives hd
  refine Kind.below?_eq_some.mpr ⟨a.2, ?_, hg.value_of_item hd ?_⟩
  · rw [← hn, ← hg.declares.name]
    exact ha
  · rw [hn, hv]
    exact hi

end Opens

/-- The node at the end of a way has the position that the map there carries. If there is no map, it
is a stream that the map above leaves out. -/
theorem position_of_at {m : Json} {n : Node} (h : decode m = .ok n) {path : List Node.Step}
    {c : Node} (hc : n.at? path = some c) :
    (∃ tag attrs, m.at? path = some (.obj [(tag, .obj attrs)]) ∧ Carries attrs c.position) ∨
      m.at? path = none ∧ ∃ above tag attrs, ∃ s : Stream, path = above ++ [⟨s.attr, none⟩] ∧
        m.at? above = some (.obj [(tag, .obj attrs)]) ∧ attrs.lookup s.attr = none ∧
          c = Node.stream s := by
  induction path generalizing m n with
  | nil =>
    obtain rfl := Option.some.inj hc
    obtain ⟨k, ⟨-, -, position⟩, -⟩ := decode_eq_ok.mp h
    exact .inl ⟨_, _, rfl, carries_iff.mp position⟩
  | cons s path ih =>
    obtain ⟨k, ho, hk⟩ := decode_eq_ok.mp h
    obtain ⟨b, hb, hc⟩ := Option.bind_eq_some_iff.mp hc
    have hkb : (k.map decode).below? s = some (.ok b) := by
      rw [hk, Kind.below?_map, hb, Option.map_some]
    rw [Kind.below?_map, Option.map_eq_some_iff] at hkb
    obtain ⟨v, hv, hd⟩ := hkb
    obtain hm | ⟨tag, attrs, stream, rfl, hl, rfl, rfl⟩ := ho.below_map hv
    · have down : ∀ path, m.at? (s :: path) = v.at? path := by
        intro path
        rw [Json.at?, hm, Option.bind_some]
      simp only [down]
      obtain here | ⟨hn, above, tag, attrs, stream, rfl, ha, hl, rfl⟩ := ih hd hc
      · exact .inl here
      · exact .inr ⟨hn, s :: above, tag, attrs, stream, rfl, by rw [down, ha], hl, rfl⟩
    · -- A stream that is left out has no map, and no way goes on below it.
      obtain rfl : b = Node.stream stream := by
        rw [Decode.decode_sentinel] at hd
        exact (Except.ok.inj hd).symm
      cases path with
      | nil =>
        obtain rfl := Option.some.inj hc
        refine .inr ⟨?_, [], tag, attrs, stream, rfl, rfl, hl, rfl⟩
        rw [Json.at?, Json.below?, hl]
        rfl
      | cons s path => cases hc

/-- A map in a map is read as the node in its place. -/
theorem exists_node_at {m : Json} {n : Node} (h : decode m = .ok n) {path : List Node.Step}
    {fields : List (String × Json)} (hc : m.at? path = some (.obj fields)) :
    ∃ c, n.at? path = some c := by
  induction path generalizing m n with
  | nil => exact ⟨n, rfl⟩
  | cons s path ih =>
    obtain ⟨k, ho, hk⟩ := decode_eq_ok.mp h
    obtain ⟨v, hv, hc⟩ := Option.bind_eq_some_iff.mp hc
    -- Texts and flags are values below a map too. The way goes on to a map, so this one is a map.
    have object : ∃ fields, v = .obj fields := by
      cases path with
      | nil => exact ⟨_, Option.some.inj hc⟩
      | cons s path =>
        obtain ⟨w, hw, -⟩ := Option.bind_eq_some_iff.mp hc
        unfold Json.below? at hw
        split at hw
        · exact ⟨_, rfl⟩
        · cases hw
    obtain ⟨fields, rfl⟩ := object
    have hb : (n.kind.map Except.ok).below? s = some (decode (.obj fields)) := by
      rw [← hk, Kind.below?_map, ho.map_below hv, Option.map_some]
    rw [Kind.below?_map, Option.map_eq_some_iff] at hb
    obtain ⟨b, hb, hd⟩ := hb
    obtain ⟨c, hc⟩ := ih hd.symm hc
    exact ⟨c, by rw [Node.at?, hb, Option.bind_some, hc]⟩

/-- Whatever a map inside gives as a line or a column is an ordinal. -/
def Json.OrdinalPositions (m : Json) : Prop :=
  ∀ (t : Tag) (attrs : List (String × Json)), Inside (.obj [(t.name, .obj attrs)]) m →
    ∀ name ∈ ["lineno", "column"], ∀ v, attrs.lookup name = some v → v.IsOrdinal

namespace Json

theorem OrdinalPositions.inside {c m : Json} (hm : m.OrdinalPositions) (h : c.Inside m) :
    c.OrdinalPositions :=
  fun t attrs hi => hm t attrs (hi.trans h)

theorem unplaced_eq_obj {m : Json} {tag : String} {body : List (String × Json)}
    (h : m.unplaced = .obj [(tag, .obj body)]) :
    ∃ attrs, m = .obj [(tag, .obj attrs)] ∧ body = unplacedAttrs attrs := by
  unfold unplaced at h
  split at h
  · cases h
    exact ⟨_, rfl, rfl⟩
  · cases h
  · next shape _ => exact absurd h (shape tag body)

/-- Only lists and objects change when they lose positions. -/
theorem unplaced_eq_leaf {v w : Json} (h : v.unplaced = w)
    (hw : w.kind ≠ .list ∧ w.kind ≠ .object) : v = w := by
  subst h
  cases v with
  | arr items => exact absurd rfl hw.1
  | obj fields =>
    obtain ⟨fields', hf⟩ := unplaced_isObject fields
    rw [hf] at hw
    exact absurd rfl hw.2
  | _ => rfl

end Json

theorem Json.inside_of_element {c v : Json} (h : c ∈ Tagged.elements v) : c.Inside v := by
  cases v with
  | arr items => exact .item h .here
  | _ => cases h

/-- What fits without positions fits with them, if the maps in it do well. -/
theorem Form.Fits.of_unplaced {P Q : Json → Prop} {form : Form} {v : Json}
    (h : form.Fits P v.unplaced) (here : P v.unplaced → Q v)
    (below : ∀ c ∈ Tagged.elements v, P c.unplaced → Q c) : form.Fits Q v := by
  generalize hw : v.unplaced = w at h
  cases h with
  | node h => exact .node (here (hw ▸ h))
  | stream h => exact .stream (here (hw ▸ h))
  | nodes h =>
    cases v with
    | arr items =>
      rw [Json.unplaced, Json.unplacedItems_eq_map] at hw
      cases hw
      exact .nodes fun c hc => below c hc (h _ (List.mem_map_of_mem hc))
    | obj fields =>
      obtain ⟨fields', hf⟩ := Json.unplaced_isObject fields
      rw [hf] at hw
      cases hw
    | _ => cases hw
  | text s =>
    obtain rfl := Json.unplaced_eq_leaf hw (by simp [Json.kind])
    exact .text s
  | flag b =>
    obtain rfl := Json.unplaced_eq_leaf hw (by simp [Json.kind])
    exact .flag b
  | scope s =>
    obtain rfl := Json.unplaced_eq_leaf hw (by simp [Json.kind])
    exact .scope s

/-- A map that is in the grammar without its positions is in it with them if these are ordinals. -/
theorem wellFormed_of_unplaced {m : Json} (h : WellFormed m.unplaced)
    (ordinal : m.OrdinalPositions) : WellFormed m := by
  induction m using Json.induction with
  | step m ih =>
    generalize hw : m.unplaced = w at h
    obtain @⟨t, body, required, known, fits, -⟩ := h
    obtain ⟨attrs, rfl, rfl⟩ := Json.unplaced_eq_obj hw
    refine .mk ?_ ?_ ?_ (ordinal t attrs .here)
    · intro name hn
      have given := required name hn
      rw [Json.lookup_unplacedAttrs] at given
      split at given
      · cases given
      · rwa [Option.isSome_map] at given
    · intro name hn
      by_cases hp : name ∈ Decode.positionKeys
      · exact .inr hp
      · exact known name (Json.mem_names_unplacedAttrs.mpr ⟨hn, hp⟩)
    · intro name form v hd hv
      have hl : (Json.unplacedAttrs attrs).lookup name = some v.unplaced := by
        have hn := Tag.not_position_of_declared hd
        rw [Json.lookup_unplacedAttrs, if_neg hn, hv, Option.map_some]
      have inside : v.Inside (.obj [(t.name, .obj attrs)]) :=
        .field (.head _) (.field (mem_of_lookup hv) .here)
      obtain ⟨here, below⟩ := ih _ _ rfl name v (mem_of_lookup hv)
      refine (fits name form _ hd hl).of_unplaced (fun h => here h (ordinal.inside inside)) ?_
      intro c hc h
      exact below c hc h (ordinal.inside ((Json.inside_of_element hc).trans inside))

/-- A tree that was read from a map is read without its positions once the map has none. -/
theorem decode_unplaced {m : Json} {n : Node} (h : decode m = .ok n) :
    decode m.unplaced = .ok n.erase := by
  induction n using Node.induction generalizing m with
  | step k p ih =>
    obtain ⟨k', ho, hk⟩ := decode_eq_ok.mp h
    have below : k.map (fun n => Except.ok n.erase) = k'.map fun c => decode c.unplaced :=
      Kind.map_eq_of_map_ok hk fun n hn c hc => (ih n hn hc).symm
    rw [Node.erase_mk, decode_eq_ok]
    refine ⟨_, ho.unplaced, ?_⟩
    rw [Kind.map_map, Kind.map_map]
    exact below.symm

/-- The positions that a tree lists are those that the maps in the places of its nodes carry. -/
theorem mem_positions_of_decode {m : Json} {n : Node} (h : decode m = .ok n)
    {path : List Node.Step} {p : Position} : (path, p) ∈ n.positions ↔
      ∃ tag attrs, m.at? path = some (.obj [(tag, .obj attrs)]) ∧ Carries attrs (some p) := by
  rw [Node.mem_positions]
  constructor
  · rintro ⟨c, hc, hp⟩
    obtain ⟨tag, attrs, ha, carries⟩ | ⟨-, _, _, _, s, -, -, -, rfl⟩ := position_of_at h hc
    · exact ⟨tag, attrs, ha, hp ▸ carries⟩
    · cases hp
  · rintro ⟨tag, attrs, ha, carries⟩
    obtain ⟨c, hc⟩ := exists_node_at h ha
    obtain ⟨tag', attrs', ha', carries'⟩ | ⟨hn, -⟩ := position_of_at h hc
    · rw [ha] at ha'
      cases ha'
      exact ⟨c, hc, carries'.unique carries⟩
    · rw [ha] at hn
      cases hn

/-- Positions are carried just as the maps give them, node by node, and nothing else sees them. When
lines and columns are put in, taken out or changed, wherever it may be, there is the same tree with
the same map and the same outlines. -/
theorem decode_carries_positions {m : Json} {n : Node} (h : decode m = .ok n) :
    (∀ path c, n.at? path = some c →
      (∃ tag attrs, m.at? path = some (.obj [(tag, .obj attrs)]) ∧ Carries attrs c.position) ∨
        m.at? path = none ∧ ∃ above tag attrs, ∃ s : Stream, path = above ++ [⟨s.attr, none⟩] ∧
          m.at? above = some (.obj [(tag, .obj attrs)]) ∧ attrs.lookup s.attr = none ∧
            c = Node.stream s) ∧
      (∀ path fields, m.at? path = some (.obj fields) → ∃ c, n.at? path = some c) ∧
      (∀ path p, (path, p) ∈ n.positions ↔
        ∃ tag attrs, m.at? path = some (.obj [(tag, .obj attrs)]) ∧ Carries attrs (some p)) ∧
      ∀ m', m'.unplaced = m.unplaced → m'.OrdinalPositions →
        ∃ n', decode m' = .ok n' ∧ n'.same n = true ∧ encode n' = encode n ∧
          ∀ unit, n'.outline unit = n.outline unit := by
  refine ⟨fun _ _ => position_of_at h, fun _ _ => exists_node_at h,
    fun _ _ => mem_positions_of_decode h, ?_⟩
  intro m' edited ordinal
  have plain : WellFormed m'.unplaced := by
    rw [edited]
    exact wellFormed_of_decode (decode_unplaced h)
  obtain ⟨n', h'⟩ := exists_decode (wellFormed_of_unplaced plain ordinal)
  have erased : n'.erase = n.erase := by
    apply Except.ok.inj
    rw [← decode_unplaced h', ← decode_unplaced h, edited]
  refine ⟨n', h', ?_, ?_, ?_⟩
  · rw [Node.same_iff_erase, erased]
  · rw [← encode_erase, erased, encode_erase]
  · intro unit
    have outlines := congrArg (Node.outline unit) erased
    rwa [Node.outline, Node.fold_erase, Node.fold_erase] at outlines

/-- The shuffled command with other positions: one half is put in where there was none, one is taken
out and one is moved. -/
def movedCommand : Json :=
  .obj [("Command", .obj [("background", .bool true), ("column", .num (.int 4 (by decide))),
    ("stdout", .obj [("RawString", .obj [("lineno", .num (.int 6 (by decide))),
      ("value", .str "log")])]),
    ("args", .arr [.obj [("Var", .obj [("name", .str "x")])]])])]

theorem ordinalPositions_movedCommand : movedCommand.OrdinalPositions := by
  intro t attrs hi name hn v hv
  simp [movedCommand, Json.inside_obj, Json.inside_arr, Json.not_inside_leaf, Json.kind] at hi
  have given := mem_of_lookup hv
  have ordinal : ∀ (k : Nat) h, k < 100 → (Json.num (.int k h)).IsOrdinal :=
    fun k h hk => .mk (by omega)
  rcases hi with ⟨-, rfl⟩ | ⟨-, rfl⟩ | ⟨-, rfl⟩ <;> simp at hn given <;>
    rcases hn with rfl | rfl <;> simp at given <;> subst given
  · exact ordinal 4 _ (by decide)
  · exact ordinal 6 _ (by decide)

theorem decode_movedCommand :
    decode shuffledCommand = .ok shuffledCommandTree ∧
      shuffledCommandTree.positions =
        [([], ⟨3, 1⟩), ([⟨"args", some 0⟩], ⟨1, 7⟩)] ∧
      (∃ tag attrs, shuffledCommand.at? [⟨"args", some 0⟩] = some (.obj [(tag, .obj attrs)]) ∧
        Carries attrs (some ⟨1, 7⟩)) ∧
      movedCommand.unplaced = shuffledCommand.unplaced ∧
      ∃ n, decode movedCommand = .ok n ∧ n.same shuffledCommandTree = true := by
  have h : decode shuffledCommand = .ok shuffledCommandTree := by rfl
  obtain ⟨-, -, listed, edited⟩ := decode_carries_positions h
  obtain ⟨n, hn, same, -⟩ := edited movedCommand (by rfl) ordinalPositions_movedCommand
  exact ⟨h, by rfl, (listed _ _).mp (by decide), by rfl, n, hn, same⟩

end ShellTree
