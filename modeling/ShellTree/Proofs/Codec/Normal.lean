import ShellTree.Proofs.Codec.RoundTrip

/-! The normal form of maps. Decoding a map and writing the tree again gives the map in normal form,
so that nothing is lost but positions, the order of keys, and whether a default was written out. -/
namespace ShellTree

/-- What an attribute stands for where it may be left out. -/
def Tag.default? (t : Tag) (name : String) : Option Json :=
  if t.defaulted.contains name then
    [("stdin", Stream.input.sentinel), ("stdout", Stream.output.sentinel),
      ("stderr", Stream.error.sentinel), ("background", .bool false)].lookup name
  else none

namespace Json

/-- The attributes that a tag declares, in declared order, with the defaults of those left out. -/
def arrange (t : Tag) (attrs : List (String × Json)) : List (String × Json) :=
  t.attributes.filterMap fun name => ((attrs.lookup name).or (t.default? name)).map (name, ·)

mutual

/-- The normal form: at every depth the attributes of a map are arranged. -/
def normalize : Json → Json
  | .obj [(tag, .obj attrs)] =>
    match Tag.ofName? tag with
    | some t => .obj [(tag, .obj (arrange t (normalizeFields attrs)))]
    | none => .obj [(tag, .obj attrs)]
  | .arr items => .arr (normalizeItems items)
  | m => m

def normalizeFields : List (String × Json) → List (String × Json)
  | [] => []
  | (name, v) :: fields => (name, normalize v) :: normalizeFields fields

def normalizeItems : List Json → List Json
  | [] => []
  | m :: items => normalize m :: normalizeItems items

end

theorem normalizeItems_eq_map (items : List Json) : normalizeItems items = items.map normalize := by
  induction items with
  | nil => rfl
  | cons m items ih => simp [normalizeItems, ih]

theorem lookup_normalizeFields (fields : List (String × Json)) (name : String) :
    (normalizeFields fields).lookup name = (fields.lookup name).map normalize := by
  induction fields with
  | nil => rfl
  | cons a fields ih =>
    obtain ⟨name', v⟩ := a
    simp only [normalizeFields, List.lookup_cons]
    cases name == name' with
    | true => rfl
    | false => exact ih

theorem normalize_sentinel (s : Stream) : s.sentinel.normalize = s.sentinel := by
  cases s <;> rfl

end Json

theorem Tag.default?_stream {t : Tag} {name : String} {s : Stream}
    (h : (name, Form.stream s) ∈ t.signature) : t.default? s.attr = some s.sentinel := by
  cases t <;> simp [signature] at h <;> cases s <;> rfl

theorem Tag.default?_flag {t : Tag} {name : String} (h : (name, Form.flag) ∈ t.signature) :
    t.default? name = some (.bool false) := by
  cases t <;> simp [signature] at h <;> subst h <;> rfl

/-- An attribute that is given is written again in its normal form. -/
theorem Form.Gives.normalize {attrs : List (String × Json)} {t : Tag} {d : String × Form}
    {a : String × AttrValue Json} (h : Gives attrs d a) (hd : d ∈ t.signature) :
    (((Json.normalizeFields attrs).lookup d.1).or (t.default? d.1)).map (d.1, ·) =
      some (a.1, encodeAttr (a.2.map Json.normalize)) := by
  rw [Json.lookup_normalizeFields]
  cases h with
  | node h => simp [h, AttrValue.map, encodeAttr]
  | stream h =>
    obtain rfl := Tag.signature_stream hd
    simp [h, AttrValue.map, encodeAttr]
  | noStream h =>
    have hs := Tag.default?_stream hd
    obtain rfl := Tag.signature_stream hd
    simp [h, hs, AttrValue.map, encodeAttr, Json.normalize_sentinel]
  | nodes h => simp [h, AttrValue.map, encodeAttr, Json.normalize, Json.normalizeItems_eq_map]
  | noFlag h => simp [h, Tag.default?_flag hd, AttrValue.map, encodeAttr]
  | scope h =>
    obtain rfl := Tag.signature_scope hd
    simp [h, AttrValue.map, encodeAttr, Json.normalize]
  | _ h => simp [h, AttrValue.map, encodeAttr, Json.normalize]

theorem filterMap_eq_map {α β γ : Type} {f : α → Option γ} {g : β → γ} {as : List α} {bs : List β}
    (h : List.Forall₂ (fun a b => f a = some (g b)) as bs) : as.filterMap f = bs.map g := by
  induction h with
  | nil => rfl
  | cons h _ ih => rw [List.filterMap_cons_some h, ih, List.map_cons]

/-- The normal form of a map that opens as a kind. -/
theorem Opens.normalize {m : Json} {k : Kind Json} {p : Option Position} (h : Opens m k p) :
    m.normalize = encodeKind (k.map Json.normalize) := by
  obtain ⟨_, gives, _⟩ := h
  simp only [Json.normalize, Tag.ofName?_name, encodeKind, Kind.tag_map, Kind.attributes_map,
    Json.arrange, ← Tag.signature_names, List.filterMap_map, List.map_map]
  congr 4
  apply filterMap_eq_map
  apply forall₂_imp_mem gives
  intro d hd a _ ha
  exact ha.normalize hd

/-- A tree that was read from a map is written as the normal form of the map. -/
theorem encode_of_decode {m : Json} {n : Node} (h : decode m = .ok n) : encode n = m.normalize := by
  induction n using Node.induction generalizing m with
  | step k p ih =>
    obtain ⟨k', ho, hk⟩ := decode_eq_ok.mp h
    rw [encode_mk, ho.normalize, Kind.map_eq_of_map_ok hk ih]

theorem encode_erase (n : Node) : encode n.erase = encode n := Node.fold_erase encodeKind n

/-- Trees are written as the same map just when they are equal. -/
theorem encode_eq_encode_iff {n m : Node} : encode n = encode m ↔ n.same m = true := by
  rw [Node.same_iff_erase]
  constructor
  · intro h
    have hd : decode (encode n) = decode (encode m) := congrArg decode h
    rw [decode_encode, decode_encode] at hd
    exact Except.ok.inj hd
  · intro h
    rw [← encode_erase, h, encode_erase]

/-- What a map gives under a key is in its normal form, positions apart. -/
theorem Opens.lookup_normalize {tag : String} {attrs : List (String × Json)} {k : Kind Json}
    {p : Option Position} (h : Opens (.obj [(tag, .obj attrs)]) k p) {name : String} {v : Json}
    (hv : attrs.lookup name = some v) (hn : name ∉ Decode.positionKeys) :
    (encodedAttrs (k.map Json.normalize)).lookup name = some v.normalize := by
  obtain ⟨known, gives, _⟩ := h
  have hmem : name ∈ attrs.map (·.1) := List.mem_map_of_mem (mem_of_lookup hv)
  have hs : name ∈ k.tag.signature.map (·.1) := by
    rw [Tag.signature_names]
    exact (known name hmem).resolve_right hn
  obtain ⟨d, hd, rfl⟩ := List.mem_map.mp hs
  obtain ⟨a, ha, hg⟩ := forall₂_mem_left gives hd
  have hw := hg.normalize hd
  rw [Json.lookup_normalizeFields, hv] at hw
  obtain ⟨hname, hvalue⟩ := Prod.mk.inj (Option.some.inj hw)
  have hk : (a.1, a.2.map Json.normalize) ∈ (k.map Json.normalize).attributes := by
    rw [Kind.attributes_map]
    exact List.mem_map_of_mem ha
  rw [hname, hvalue]
  exact lookup_encodedAttrs hk

/-- Decoding and writing again gives the normal form. All that a map gave, positions apart, is
still there under its key, itself in normal form. Reading and writing again what was written from a
tree changes nothing. -/
theorem encode_decode_normal {m : Json} {n : Node} (h : decode m = .ok n) :
    encode n = m.normalize ∧
      (∀ tag attrs name v, m = .obj [(tag, .obj attrs)] → attrs.lookup name = some v →
        name ∉ Decode.positionKeys → ∃ given, encode n = .obj [(tag, .obj given)] ∧
          given.lookup name = some v.normalize) ∧
      ∀ tree, (decode (encode tree)).map encode = .ok (encode tree) := by
  refine ⟨encode_of_decode h, ?_, ?_⟩
  · rintro tag attrs name v rfl hv hn
    obtain ⟨k, ho, -⟩ := decode_eq_ok.mp h
    have ht : tag = k.tag.name := by
      cases ho
      rfl
    refine ⟨_, ?_, ho.lookup_normalize hv hn⟩
    rw [encode_of_decode h, ho.normalize, encodeKind, Kind.tag_map, ht]
    rfl
  · intro tree
    rw [decode_encode, Except.map, encode_erase]

/-- A command in the background, with its keys in another order, two streams left out, and
positions. -/
def shuffledCommand : Json :=
  .obj [("Command", .obj [("lineno", .num (.int 3 (by decide))), ("background", .bool true),
    ("stdout", .obj [("RawString", .obj [("value", .str "log")])]),
    ("args", .arr [.obj [("Var", .obj [("column", .num (.int 7 (by decide))),
      ("name", .str "x")])]])])]

def shuffledCommandTree : Node :=
  ⟨.command .streamed ⟨[⟨.var "x", some ⟨1, 7⟩⟩], Node.stream .input, Node.raw "log",
    Node.stream .error, true⟩, some ⟨3, 1⟩⟩

theorem encode_decode_normal_command :
    decode shuffledCommand = .ok shuffledCommandTree ∧
      encode shuffledCommandTree = shuffledCommand.normalize :=
  ⟨by rfl, (encode_decode_normal (m := shuffledCommand) (by rfl)).1⟩

end ShellTree
