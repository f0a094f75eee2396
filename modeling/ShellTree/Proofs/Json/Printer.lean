import ShellTree.Json.Printer
import ShellTree.Proofs.Json.Nesting

/-! Printed values read back. The text of a value without numbers reads as that value, as long as it
nests no deeper than the limit. -/
namespace ShellTree.Json
open Outcome

section Strings

theorem hexValue?_digitChar : ∀ n < 16, hexValue? (Nat.digitChar n) = some n := by decide

theorem utf8Size_digitChar : ∀ n < 16, (Nat.digitChar n).utf8Size = 1 := by decide

/-- Two hexadecimal digits give the code of a character back. -/
theorem hex4_digits {n : Nat} (hn : n < 256) (s : List Char) :
    hex4 ('0' :: '0' :: Nat.digitChar (n / 16) :: Nat.digitChar (n % 16) :: s) = .ok (n, s) := by
  have high : n / 16 < 16 := by omega
  have low : n % 16 < 16 := by omega
  have zero : hexValue? '0' = some 0 := by decide
  have size : '0'.utf8Size = 1 := by decide
  have digits : 16 * (n / 16) + n % 16 = n := Nat.div_add_mod n 16
  simp [hex4, hexValue?_digitChar _ high, hexValue?_digitChar _ low, zero, size,
    utf8Size_digitChar _ high, utf8Size_digitChar _ low, digits]

theorem escaped_control {c : Char} (h : c.toNat < 0x20) (s : List Char) :
    escaped ('u' :: '0' :: '0' :: Nat.digitChar (c.toNat / 16) ::
      Nat.digitChar (c.toNat % 16) :: s) = .ok (c, s) := by
  have low : ¬(0xDC00 ≤ c.toNat ∧ c.toNat ≤ 0xDFFF) := by omega
  have high : ¬(0xD800 ≤ c.toNat ∧ c.toNat ≤ 0xDBFF) := by omega
  rw [escaped, unicodeEscape, hex4_digits (by omega)]
  simp [bind, Except.bind, low, high]

/-- A character stands for itself, or it is written behind a backslash in a way that reads back. -/
theorem escape_cases (c : Char) :
    (escape c = [c] ∧ c ≠ '"' ∧ c ≠ '\\' ∧ ¬c.toNat < 0x20) ∨
      ∃ cs, escape c = '\\' :: cs ∧ ∀ s, escaped (cs ++ s) = .ok (c, s) := by
  unfold escape
  by_cases quote : c = '"'
  · subst quote
    exact .inr ⟨['"'], rfl, fun _ => rfl⟩
  by_cases backslash : c = '\\'
  · subst backslash
    exact .inr ⟨['\\'], rfl, fun _ => rfl⟩
  rw [if_neg quote, if_neg backslash]
  -- Five control characters have a letter of their own, the others are given by their code.
  iterate 5
    split
    · next letter =>
      subst letter
      exact .inr ⟨_, rfl, fun _ => rfl⟩
  split
  · next control => exact .inr ⟨_, rfl, escaped_control control⟩
  · next control => exact .inl ⟨rfl, quote, backslash, control⟩

/-- An escaped character is read as the character, by one step. -/
theorem characters_escape (n : Nat) (c : Char) (s : List Char) :
    characters (n + 1) (escape c ++ s) =
      (fun (cs, rest) => (c :: cs, rest)) <$> characters n s := by
  obtain ⟨he, quote, backslash, control⟩ | ⟨cs, he, hs⟩ := escape_cases c
  · rw [he, List.singleton_append, characters, if_neg control]
    · rfl
    · exact quote
    · exact backslash
  · rw [he, List.cons_append, characters, hs]
    rfl

theorem characters_quoted {s : List Char} {n : Nat} (hn : s.length < n) (rest : List Char) :
    characters n (s.flatMap escape ++ '"' :: rest) = .ok (s, rest) := by
  induction s generalizing n with
  | nil =>
    cases n with
    | zero => cases hn
    | succ n => rfl
  | cons c s ih =>
    cases n with
    | zero => cases hn
    | succ n =>
      rw [List.flatMap_cons, List.append_assoc, characters_escape, ih (Nat.lt_of_succ_lt_succ hn)]
      rfl

/-- A quoted text reads as the text. -/
theorem string_quote {fuel : Nat} {s : String} (hf : s.length < fuel) (rest : List Char) :
    string fuel ((quote s).toList.tail ++ rest) = .ok (s, rest) := by
  have tail : (quote s).toList.tail ++ rest = s.toList.flatMap escape ++ '"' :: rest := by
    simp [quote]
  rw [tail, string, characters_quoted (by rwa [String.length_toList])]
  simp [bind, Except.bind]

end Strings

section Brackets

theorem length_le_intercalate {α : Type} {sep l : List α} {ls : List (List α)} (h : l ∈ ls) :
    l.length ≤ (sep.intercalate ls).length := by
  induction ls with
  | nil => cases h
  | cons l' ls ih =>
    cases ls with
    | nil =>
      obtain rfl := List.mem_singleton.mp h
      exact Nat.le_of_eq (congrArg List.length List.intercalate_singleton.symm)
    | cons l'' ls =>
      rw [List.intercalate_cons_cons, List.length_append, List.length_append]
      rcases List.mem_cons.mp h with rfl | h
      · omega
      · have := ih h
        omega

theorem length_lt_intercalate {α : Type} {sep : List α} (hs : sep ≠ []) (ls : List (List α)) :
    ls.length ≤ (sep.intercalate ls).length + 1 := by
  have pos : 0 < sep.length := List.length_pos_of_ne_nil hs
  induction ls with
  | nil => simp
  | cons l ls ih =>
    cases ls with
    | nil => simp
    | cons l' ls =>
      rw [List.intercalate_cons_cons, List.length_append, List.length_append, List.length_cons]
      omega

variable {opening closing margin unit : String} {members : List String}

theorem toList_bracket (h : members ≠ []) :
    (bracket opening closing margin unit members).toList = opening.toList ++
      ('\n' :: (margin.toList ++ unit.toList) ++
        ((',' :: '\n' :: (margin.toList ++ unit.toList)).intercalate
          (members.map String.toList) ++ ('\n' :: margin.toList ++ closing.toList))) := by
  obtain ⟨member, members, rfl⟩ := List.exists_cons_of_ne_nil h
  simp [bracket, List.append_assoc]

theorem exists_toList_bracket (opening closing margin unit : String) (members : List String) :
    ∃ s, (bracket opening closing margin unit members).toList = opening.toList ++ s := by
  cases members with
  | nil => exact ⟨closing.toList, String.toList_append⟩
  | cons member members => exact ⟨_, toList_bracket (List.cons_ne_nil _ _)⟩

theorem length_member_le {member : String} (h : member ∈ members) :
    member.length ≤ (bracket opening closing margin unit members).length := by
  have hl : member.toList.length ≤ ((',' :: '\n' :: (margin.toList ++ unit.toList)).intercalate
      (members.map String.toList)).length := length_le_intercalate (List.mem_map_of_mem h)
  rw [← String.length_toList, ← String.length_toList, toList_bracket (List.ne_nil_of_mem h)]
  simp only [List.length_append, List.length_cons] at hl ⊢
  omega

theorem length_members_le :
    members.length ≤ (bracket opening closing margin unit members).length := by
  cases members with
  | nil => simp
  | cons member members =>
    have hl := length_lt_intercalate (List.cons_ne_nil ',' ('\n' :: (margin.toList ++ unit.toList)))
      ((member :: members).map String.toList)
    rw [← String.length_toList, toList_bracket (List.cons_ne_nil _ _)]
    simp only [List.length_append, List.length_cons, List.length_map] at hl ⊢
    omega

end Brackets

section Items
variable {α : Type}

/-- A reading takes a text off the front and has an outcome, whatever follows. -/
def Takes (reading : List Char → Reading (α × List Char)) (text : List Char) (x : Reading α) :
    Prop :=
  ∀ rest, reading (text ++ rest) = (·, rest) <$> x

/-- A text that begins with a character that is neither blank nor a closing bracket. -/
def Begins (text : List Char) : Prop :=
  ∃ c s, text = c :: s ∧ isBlank c = false ∧ c ≠ ']' ∧ c ≠ '\x7d'

theorem exists_intercalate_eq {text : List Char} {c : Char} {s : List Char} (h : text = c :: s)
    (sep : List Char) (texts : List (List Char)) (rest : List Char) :
    ∃ s', sep.intercalate (text :: texts) ++ rest = c :: s' := by
  subst h
  cases texts with
  | nil => exact ⟨s ++ rest, by simp⟩
  | cons =>
    rw [List.intercalate_cons_cons]
    exact ⟨_, rfl⟩

theorem skipBlank_append {margin : List Char} (hm : ∀ c ∈ margin, isBlank c = true) {c : Char}
    (hc : isBlank c = false) (s : List Char) : skipBlank (margin ++ c :: s) = c :: s := by
  rw [skipBlank, List.dropWhile_append_of_pos hm, List.dropWhile_cons_of_neg (by simp [hc])]

section
variable {reading : List Char → Reading (α × List Char)} {closing : Char}
  {gap margin : List Char}

theorem items_last (hc : isBlank closing = false) (hm : ∀ c ∈ margin, isBlank c = true)
    {text : List Char} {x : Reading α} (h : Takes reading text x) (n : Nat) (rest : List Char) :
    items closing reading (n + 1) (text ++ (margin ++ closing :: rest)) =
      (fun a => ([a], rest)) <$> x := by
  rw [items, h]
  cases x with
  | error e => rfl
  | ok a =>
    simp only [map_eq_pure_bind, pure_bind, ok_bind]
    rw [skipBlank_append hm hc]
    exact if_pos rfl

theorem items_more (hn : closing ≠ ',') (hg : ∀ c ∈ gap, isBlank c = true)
    {text : List Char} {x : Reading α} (h : Takes reading text x) (n : Nat) {c : Char}
    (hc : isBlank c = false) (s : List Char) :
    items closing reading (n + 1) (text ++ (',' :: gap ++ c :: s)) = (do
      let a ← x
      let (as, rest) ← items closing reading n (c :: s)
      .ok (a :: as, rest)) := by
  rw [items, h]
  cases x with
  | error e => rfl
  | ok a =>
    have comma : skipBlank (',' :: gap ++ c :: s) = ',' :: (gap ++ c :: s) := rfl
    simp only [map_eq_pure_bind, pure_bind, ok_bind, comma, if_neg hn.symm, if_true]
    rw [skipBlank_append hg hc]

/-- Texts between commas are read one after the other, up to the first that fails. -/
theorem items_intercalate (hc : isBlank closing = false) (hn : closing ≠ ',')
    (hg : ∀ c ∈ gap, isBlank c = true) (hm : ∀ c ∈ margin, isBlank c = true)
    {texts : List (List Char)} {xs : List (Reading α)}
    (h : List.Forall₂ (Takes reading) texts xs) (hb : ∀ text ∈ texts, Begins text)
    (hne : texts ≠ []) {n : Nat} (hl : texts.length ≤ n) (rest : List Char) :
    items closing reading n ((',' :: gap).intercalate texts ++ (margin ++ closing :: rest)) =
      (·, rest) <$> Tagged.collect xs := by
  induction h generalizing n with
  | nil => exact absurd rfl hne
  | @cons text x texts xs hx h ih =>
    obtain ⟨n, rfl⟩ : ∃ k, n = k + 1 := ⟨n - 1, by simp at hl; omega⟩
    cases texts with
    | nil =>
      cases h
      rw [List.intercalate_singleton, items_last hc hm hx]
      cases x <;> rfl
    | cons text' texts =>
      have ih := ih (fun t ht => hb t (List.mem_cons_of_mem _ ht)) (List.cons_ne_nil _ _)
        (Nat.le_of_succ_le_succ hl)
      -- What follows the comma begins with the next text, so that only the gap is skipped.
      obtain ⟨c, s, begins, hc', -⟩ := hb text' (by simp)
      obtain ⟨s', hs'⟩ := exists_intercalate_eq begins (',' :: gap) texts
        (margin ++ closing :: rest)
      rw [hs'] at ih
      rw [List.intercalate_cons_cons, List.append_assoc, List.append_assoc, hs',
        items_more hn hg hx _ hc', ih, Tagged.collect_cons]
      simp only [map_eq_pure_bind, bind_assoc, pure_bind]
      rfl

theorem bracketed_intercalate (hc : closing = ']' ∨ closing = '\x7d')
    (hg : ∀ c ∈ gap, isBlank c = true) (hm : ∀ c ∈ margin, isBlank c = true)
    {texts : List (List Char)} {xs : List (Reading α)}
    (h : List.Forall₂ (Takes reading) texts xs) (hb : ∀ text ∈ texts, Begins text)
    (hne : texts ≠ []) {fuel : Nat} (hl : texts.length ≤ fuel) (rest : List Char) :
    bracketed fuel closing reading
      (gap ++ ((',' :: gap).intercalate texts ++ (margin ++ closing :: rest))) =
        (·, rest) <$> Tagged.collect xs := by
  have blank : isBlank closing = false := by rcases hc with rfl | rfl <;> rfl
  have comma : closing ≠ ',' := by rcases hc with rfl | rfl <;> decide
  have read := items_intercalate blank comma hg hm h hb hne hl rest
  obtain ⟨text, texts, rfl⟩ := List.exists_cons_of_ne_nil hne
  -- The first text tells that the bracket is not closed at once.
  obtain ⟨c, s, begins, hcb, hcc⟩ := hb text (by simp)
  have first : c ≠ closing := by
    rintro rfl
    exact hc.elim hcc.1 hcc.2
  obtain ⟨s', hs'⟩ := exists_intercalate_eq begins (',' :: gap) texts (margin ++ closing :: rest)
  rw [hs'] at read ⊢
  rw [bracketed, skipBlank_append hg hcb]
  simp only [if_neg first, read]

/-- A printed bracket, its opening aside, is read as what its members are read as. -/
theorem takes_bracket (opening : String) {margin unit : String}
    (hm : ∀ c ∈ margin.toList, isBlank c = true) (hu : ∀ c ∈ unit.toList, isBlank c = true)
    (hc : closing = ']' ∨ closing = '\x7d')
    {members : List String} {xs : List (Reading α)}
    (h : List.Forall₂ (fun member => Takes reading member.toList) members xs)
    (hb : ∀ member ∈ members, Begins member.toList) {fuel : Nat} (hl : members.length ≤ fuel) :
    ∃ s, (bracket opening (String.singleton closing) margin unit members).toList =
        opening.toList ++ s ∧ Takes (bracketed fuel closing reading) s (Tagged.collect xs) := by
  cases members with
  | nil =>
    cases h
    have blank : isBlank closing = false := by rcases hc with rfl | rfl <;> rfl
    refine ⟨[closing], by simp [bracket], fun rest => ?_⟩
    rw [List.singleton_append, bracketed, skipBlank, List.dropWhile_cons_of_neg (by simp [blank])]
    exact if_pos rfl
  | cons member members =>
    have blanks : ∀ s : List Char, (∀ c ∈ s, isBlank c = true) →
        ∀ c ∈ '\n' :: s, isBlank c = true := fun s hs => List.forall_mem_cons.mpr ⟨rfl, hs⟩
    have gap : ∀ c ∈ '\n' :: (margin.toList ++ unit.toList), isBlank c = true :=
      blanks _ fun c hc => (List.mem_append.mp hc).elim (hm c) (hu c)
    refine ⟨_, toList_bracket (List.cons_ne_nil _ _), fun rest => ?_⟩
    rw [String.toList_singleton, List.append_assoc, List.append_assoc, List.append_assoc,
      List.singleton_append]
    exact bracketed_intercalate hc gap (blanks _ hm) (List.forall₂_map_left_iff.mpr h)
      (List.forall_mem_map.mpr hb) (by simp) (by simpa using hl) rest

end

end Items

/-- Values without numbers, with no key twice in any object. -/
inductive Plain : Json → Prop
  | null : Plain .null
  | bool (b : Bool) : Plain (.bool b)
  | str (s : String) : Plain (.str s)
  | arr {items : List Json} (h : ∀ v ∈ items, Plain v) : Plain (.arr items)
  | obj {fields : List (String × Json)} (distinct : (fields.map (·.1)).Nodup)
    (h : ∀ field ∈ fields, Plain field.2) : Plain (.obj fields)

/-- The value, if it nests no deeper than the limit. -/
def within (depth : Nat) (v : Json) : Reading Json :=
  if v.nesting ≤ depth then .ok v else .error .malformed

theorem collect_guard {α ε : Type} (p : α → Prop) [DecidablePred p] (e : ε) (as : List α) :
    Tagged.collect (as.map fun a => if p a then .ok a else .error e) =
      if ∀ a ∈ as, p a then .ok as else .error e := by
  induction as with
  | nil => simp [pure, Except.pure]
  | cons a as ih =>
    simp only [List.map_cons, Tagged.collect_cons, ih, List.forall_mem_cons]
    by_cases ha : p a
    · by_cases has : ∀ b ∈ as, p b
      · rw [if_pos ha, if_pos has, if_pos ⟨ha, has⟩]
        rfl
      · rw [if_pos ha, if_neg has, if_neg (not_and_of_not_right _ has)]
        rfl
    · rw [if_neg ha, if_neg (not_and_of_not_left _ ha)]
      rfl

theorem collect_within (depth : Nat) (items : List Json) :
    arr <$> Tagged.collect (items.map (within depth)) = within (depth + 1) (.arr items) := by
  have guard := collect_guard (fun v => v.nesting ≤ depth) ReadError.malformed items
  rw [show items.map (within depth) = items.map fun v =>
    if v.nesting ≤ depth then .ok v else .error .malformed from rfl, guard, within]
  simp only [nesting_arr_le]
  split <;> rfl

/-- Members under different keys stay as they are. -/
theorem ofMembers_eq {fields : List (String × Json)} (h : (fields.map (·.1)).Nodup) :
    ofMembers fields = .obj fields := by
  have run : ∀ given : List (String × Json), ((given ++ fields).map (·.1)).Nodup →
      fields.foldl (fun fields field => insertField fields field.1 field.2) given =
        given ++ fields := by
    induction fields with
    | nil => simp
    | cons field fields ih =>
      intro given hd
      obtain ⟨key, v⟩ := field
      have new : key ∉ given.map (·.1) := by
        rw [List.map_append, List.nodup_append] at hd
        exact fun hk => hd.2.2 key hk key (by simp) rfl
      have insert : insertField given key v = given ++ [(key, v)] := by
        rw [insertField, if_neg]
        simpa using new
      have rest := ih (List.nodup_cons.mp h).2 (given ++ [(key, v)])
        (by rwa [List.append_assoc])
      rw [List.append_assoc, List.singleton_append] at rest
      simpa only [List.foldl_cons, insert] using rest
  exact congrArg obj (run [] h)

theorem collect_members_within (depth : Nat) {fields : List (String × Json)}
    (h : (fields.map (·.1)).Nodup) :
    ofMembers <$> Tagged.collect (fields.map fun (key, v) => (key, ·) <$> within depth v) =
      within (depth + 1) (.obj fields) := by
  have guard := collect_guard (fun field => field.2.nesting ≤ depth) ReadError.malformed fields
  have each : (fields.map fun (key, v) => (key, ·) <$> within depth v) = fields.map fun field =>
      if field.2.nesting ≤ depth then .ok field else .error .malformed := by
    apply List.map_congr_left
    rintro ⟨key, v⟩ -
    dsimp only [within]
    split <;> rfl
  rw [each, guard, within]
  simp only [nesting_obj_le]
  split
  · exact congrArg Except.ok (ofMembers_eq h)
  · rfl

theorem begins_indented {v : Json} (h : v.Plain) (unit margin : String) :
    Begins (indented unit margin v).toList := by
  cases h with
  | null => exact ⟨'n', ['u', 'l', 'l'], by simp [indented], by decide⟩
  | bool b =>
    cases b with
    | false => exact ⟨'f', ['a', 'l', 's', 'e'], by simp [indented], by decide⟩
    | true => exact ⟨'t', ['r', 'u', 'e'], by simp [indented], by decide⟩
  | str s =>
    refine ⟨'"', s.toList.flatMap escape ++ ['"'], ?_, by decide⟩
    simp [indented, quote]
  | arr =>
    rw [indented]
    obtain ⟨s, hs⟩ := exists_toList_bracket "[" "]" margin unit _
    exact ⟨'[', s, hs, by decide⟩
  | obj =>
    rw [indented]
    obtain ⟨s, hs⟩ := exists_toList_bracket "\x7b" "\x7d" margin unit _
    exact ⟨'\x7b', s, hs, by decide⟩

theorem indentedItems_eq_map (unit margin : String) (items : List Json) :
    indentedItems unit margin items = items.map (indented unit margin) := by
  induction items with
  | nil => rfl
  | cons v rest ih => rw [indentedItems, ih, List.map_cons]

theorem indentedFields_eq_map (unit margin : String) (fields : List (String × Json)) :
    indentedFields unit margin fields =
      fields.map fun (key, v) => quote key ++ ": " ++ indented unit margin v := by
  induction fields with
  | nil => rfl
  | cons field rest ih => rw [indentedFields, ih, List.map_cons]

section
variable (fuel depth : Nat) (s : List Char)

theorem value_list : value fuel (depth + 1) ('[' :: s) = (do
    let (items, rest) ← bracketed fuel ']' (value fuel depth) s
    .ok (.arr items, rest)) := rfl

theorem value_list_zero : value fuel 0 ('[' :: s) = .error .malformed := rfl

theorem value_object : value fuel (depth + 1) ('\x7b' :: s) = (do
    let (members, rest) ← bracketed fuel '\x7d' (member fuel (value fuel depth)) s
    .ok (ofMembers members, rest)) := rfl

theorem value_object_zero : value fuel 0 ('\x7b' :: s) = .error .malformed := rfl

end

theorem quote_eq (s : String) : (quote s).toList = '"' :: (quote s).toList.tail := by
  simp [quote]

theorem begins_member (key text : String) : Begins (quote key ++ ": " ++ text).toList := by
  rw [String.toList_append, String.toList_append, quote_eq]
  exact ⟨'"', _, rfl, by decide⟩

theorem length_lt_quote (s : String) : s.length < (quote s).length := by
  have one : ∀ c, 1 ≤ (escape c).length := by
    intro c
    obtain ⟨he, -⟩ | ⟨cs, he, -⟩ := escape_cases c <;> simp [he]
  have all : ∀ cs : List Char, cs.length ≤ (cs.flatMap escape).length := by
    intro cs
    induction cs with
    | nil => simp
    | cons c cs ih =>
      have := one c
      rw [List.flatMap_cons, List.length_append, List.length_cons]
      omega
  have := all s.toList
  rw [← String.length_toList, ← String.length_toList, quote]
  simp only [String.toList_ofList, List.length_append, List.length_cons]
  omega

/-- A member is read by reading its value. -/
theorem takes_member {fuel : Nat} {reading : List Char → Reading (Json × List Char)}
    {key text : String} {x : Reading Json} (hk : key.length < fuel) (hb : Begins text.toList)
    (h : Takes reading text.toList x) :
    Takes (member fuel reading) (quote key ++ ": " ++ text).toList ((key, ·) <$> x) := by
  intro rest
  obtain ⟨c, s, begins, hc, -⟩ := hb
  have split : (quote key ++ ": " ++ text).toList ++ rest =
      '"' :: ((quote key).toList.tail ++ ':' :: ' ' :: (text.toList ++ rest)) := by
    rw [String.toList_append, String.toList_append, quote_eq]
    simp
  have colon : skipBlank (':' :: ' ' :: (text.toList ++ rest)) =
      ':' :: ' ' :: (text.toList ++ rest) := rfl
  have space : skipBlank (' ' :: (text.toList ++ rest)) = text.toList ++ rest := by
    rw [begins, List.cons_append]
    exact skipBlank_append (List.forall_mem_singleton.mpr rfl) hc _
  rw [split, member, string_quote hk]
  simp only [ok_bind, colon, space, h rest]
  cases x <;> rfl

section
variable {unit margin : String} {fuel : Nat}

/-- A list or an object is read unless its own bracket or a member of it is too deep. -/
theorem takes_compound {α : Type} {opening closing : Char} {build : List α → Json}
    {reading : Nat → List Char → Reading (α × List Char)} {v : Json}
    (here : ∀ depth s, value fuel (depth + 1) (opening :: s) = (do
      let (members, rest) ← bracketed fuel closing (reading depth) s
      .ok (build members, rest)))
    (tooDeep : ∀ s, value fuel 0 (opening :: s) = .error .malformed) (hv : v.nesting ≠ 0)
    (hc : closing = ']' ∨ closing = '\x7d') (hm : ∀ c ∈ margin.toList, isBlank c = true)
    (hu : ∀ c ∈ unit.toList, isBlank c = true) {texts : List String} {xs : Nat → List (Reading α)}
    (h : ∀ depth, List.Forall₂ (fun text => Takes (reading depth) text.toList) texts (xs depth))
    (below : ∀ depth, build <$> Tagged.collect (xs depth) = within (depth + 1) v)
    (hb : ∀ text ∈ texts, Begins text.toList)
    (hf : (bracket (String.singleton opening) (String.singleton closing) margin unit texts).length ≤
      fuel) (depth : Nat) :
    Takes (value fuel depth)
      (bracket (String.singleton opening) (String.singleton closing) margin unit texts).toList
      (within depth v) := by
  have members := fun depth => takes_bracket (String.singleton opening) hm hu hc (h depth) hb
    (Nat.le_trans length_members_le hf)
  intro rest
  cases depth with
  | zero =>
    obtain ⟨s, hs, -⟩ := members 0
    have outside : within 0 v = .error .malformed := if_neg (mt Nat.le_zero.mp hv)
    rw [hs, String.toList_singleton, outside]
    exact tooDeep _
  | succ depth =>
    obtain ⟨s, hs, takes⟩ := members depth
    rw [hs, String.toList_singleton, List.singleton_append, List.cons_append, here, takes rest,
      ← below]
    cases Tagged.collect (xs depth) <;> rfl

/-- The text of a plain value reads as the value, unless it nests too deep. -/
theorem takes_indented {v : Json} (h : v.Plain) (hu : ∀ c ∈ unit.toList, isBlank c = true)
    (hm : ∀ c ∈ margin.toList, isBlank c = true) (hf : (indented unit margin v).length ≤ fuel)
    (depth : Nat) : Takes (value fuel depth) (indented unit margin v).toList (within depth v) := by
  have further : ∀ {margin : String}, (∀ c ∈ margin.toList, isBlank c = true) →
      ∀ c ∈ (margin ++ unit).toList, isBlank c = true := by
    intro margin hm c hc
    rw [String.toList_append, List.mem_append] at hc
    exact hc.elim (hm c) (hu c)
  induction h generalizing margin depth with
  | null =>
    intro rest
    simp [indented, value, word, within, nesting, ok_bind]
  | bool b =>
    intro rest
    cases b <;> simp [indented, value, word, within, nesting, ok_bind]
  | str s =>
    intro rest
    rw [indented] at hf ⊢
    rw [quote_eq, List.cons_append, value,
      string_quote (Nat.lt_of_lt_of_le (length_lt_quote s) hf)]
    simp [within, nesting, ok_bind]
  | @arr items h ih =>
    rw [indented, indentedItems_eq_map] at hf ⊢
    refine takes_compound (value_list fuel) (value_list_zero fuel) (by simp [nesting]) (.inl rfl)
      hm hu (fun depth => ?_) (collect_within · items)
      (List.forall_mem_map.mpr fun v hv => begins_indented (h v hv) _ _) hf depth
    rw [List.forall₂_map_left_iff, List.forall₂_map_right_iff, List.forall₂_same]
    intro v hv
    have hl := Nat.le_trans (length_member_le (List.mem_map_of_mem hv)) hf
    exact ih v hv (further hm) hl depth
  | @obj fields distinct h ih =>
    rw [indented, indentedFields_eq_map] at hf ⊢
    refine takes_compound (value_object fuel) (value_object_zero fuel) (by simp [nesting])
      (.inr rfl) hm hu (fun depth => ?_) (collect_members_within · distinct)
      (List.forall_mem_map.mpr fun field _ => begins_member _ _) hf depth
    rw [List.forall₂_map_left_iff, List.forall₂_map_right_iff, List.forall₂_same]
    intro field hfield
    have hl := Nat.le_trans (length_member_le (List.mem_map_of_mem hfield)) hf
    have hq := length_lt_quote field.1
    simp only [String.length_append] at hl
    exact takes_member (by omega) (begins_indented (h field hfield) _ _)
      (ih field hfield (further hm) (by omega) depth)

end

/-- The text of a plain document, with a line break at its end, reads as the document. -/
theorem read_pretty {v : Json} (h : v.Plain) {unit : String}
    (hu : ∀ c ∈ unit.toList, isBlank c = true) (depth : Nat) :
    read depth (v.pretty unit ++ "\n") = within depth v := by
  have text : (v.pretty unit ++ "\n").toList = (v.pretty unit).toList ++ ['\n'] := by simp
  obtain ⟨c, s, hs, hc, -⟩ := begins_indented h unit ""
  have start : skipBlank ((v.pretty unit).toList ++ ['\n']) =
      (v.pretty unit).toList ++ ['\n'] := by
    rw [pretty, hs, List.cons_append]
    exact List.dropWhile_cons_of_neg (by simp [hc])
  have fits : (indented unit "" v).length ≤ ((v.pretty unit).toList ++ ['\n']).length := by
    rw [List.length_append, String.length_toList]
    exact Nat.le_add_right _ _
  have noMargin : ∀ c ∈ "".toList, isBlank c = true := by simp
  have reads : value _ depth ((v.pretty unit).toList ++ ['\n']) = (·, ['\n']) <$> within depth v :=
    takes_indented h hu noMargin fits depth ['\n']
  rw [read, text]
  simp only [start, reads]
  cases within depth v <;> rfl

end ShellTree.Json
