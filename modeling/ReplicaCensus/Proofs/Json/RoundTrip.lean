import Mathlib
import ReplicaCensus.Json.Encoding
import ReplicaCensus.Proofs.Json.Scalar
import ReplicaCensus.Proofs.OrderedMap
import ReplicaCensus.Proofs.Text.Utf8
/-!
# JSON survives being written and read

A value without doubles, with integers of not too many digits, with member names that differ and
nested not too deep is read back from its text in every layout, and from the bytes of that text.
-/

namespace ReplicaCensus.Json

/-! ## 1. White space -/

/-- A layout that puts nothing but white space between the parts of a value. -/
structure Layout.IsBlank (layout : Layout) : Prop where
  afterComma : layout.afterComma.all isSpace = true
  afterColon : layout.afterColon.all isSpace = true

theorem isBlank_compact : Layout.compact.IsBlank := ⟨rfl, rfl⟩

theorem isBlank_line : Layout.line.IsBlank := ⟨rfl, rfl⟩

theorem isBlank_indented : Layout.indented.IsBlank := ⟨rfl, rfl⟩

theorem all_isSpace_lineBreak (layout : Layout) (depth : Nat) :
    (layout.lineBreak depth).all isSpace = true := by
  unfold Layout.lineBreak
  cases layout.indent with
  | none => rfl
  | some k =>
    rw [List.all_cons, show isSpace '\n' = true from rfl, Bool.true_and, List.all_eq_true]
    intro c hc
    rw [List.eq_of_mem_replicate hc]
    rfl

theorem skipSpace_append {ws : List Char} (h : ws.all isSpace = true) (cs : List Char) :
    skipSpace (ws ++ cs) = skipSpace cs := by
  unfold skipSpace
  rw [List.dropWhile_append_of_pos (List.all_eq_true.1 h)]

theorem skipSpace_cons {c : Char} (h : isSpace c = false) (cs : List Char) :
    skipSpace (c :: cs) = c :: cs := by
  unfold skipSpace
  rw [List.dropWhile_cons, h]
  rfl

/-- A text that ends a number and then closes with a bracket, past white space. -/
structure Closes (bracket : Char) (tail rest : List Char) : Prop where
  endsNumber : endsNumber tail = true
  skipSpace : skipSpace tail = bracket :: rest

theorem closes_lineBreak (layout : Layout) (depth : Nat) {bracket : Char}
    (hb : bracket = ']' ∨ bracket = '\x7d') (rest : List Char) :
    Closes bracket (layout.lineBreak depth ++ bracket :: rest) rest := by
  constructor
  · unfold Layout.lineBreak
    cases layout.indent with
    | none => rcases hb with rfl | rfl <;> rfl
    | some k => rfl
  · rw [skipSpace_append (all_isSpace_lineBreak layout depth)]
    rcases hb with rfl | rfl <;> rfl

/-! ## 2. Values that are read back -/

mutual

/-- No doubles, integers of not too many digits, member names that differ, and no more than `room`
arrays and objects within each other. -/
def IsPlain : Json → Nat → Prop
  | null, _ => True
  | bool _, _ => True
  | int n, _ => Number.IsShort n
  | double _, _ => False
  | str _, _ => True
  | arr _, 0 => False
  | arr items, room + 1 => ArePlain items room
  | obj _, 0 => False
  | obj members, room + 1 => MembersPlain members room ∧ (members.map Prod.fst).Nodup

def ArePlain : List Json → Nat → Prop
  | [], _ => True
  | item :: rest, room => IsPlain item room ∧ ArePlain rest room

def MembersPlain : List (String × Json) → Nat → Prop
  | [], _ => True
  | (_, value) :: rest, room => IsPlain value room ∧ MembersPlain rest room

end

variable {room : Nat}

theorem arePlain_iff {items : List Json} :
    ArePlain items room ↔ ∀ item ∈ items, IsPlain item room := by
  induction items with
  | nil => exact ⟨fun _ _ h => absurd h List.not_mem_nil, fun _ => trivial⟩
  | cons item rest ih => rw [ArePlain, ih, List.forall_mem_cons]

theorem membersPlain_iff {members : List (String × Json)} :
    MembersPlain members room ↔ ∀ member ∈ members, IsPlain member.2 room := by
  induction members with
  | nil => exact ⟨fun _ _ h => absurd h List.not_mem_nil, fun _ => trivial⟩
  | cons member rest ih =>
    obtain ⟨name, value⟩ := member
    rw [MembersPlain, ih, List.forall_mem_cons]

theorem arePlain_map {α : Type} {f : α → Json} {l : List α} (h : ∀ a ∈ l, (f a).IsPlain room) :
    ArePlain (l.map f) room := by
  rw [arePlain_iff]
  intro item hitem
  obtain ⟨a, ha, rfl⟩ := List.mem_map.1 hitem
  exact h a ha

theorem isPlain_list (name : String) {α : Type} {f : α → Json} {l : List α}
    (h : ∀ a ∈ l, (f a).IsPlain room) : IsPlain (obj [(name, arr (l.map f))]) (room + 2) :=
  ⟨⟨arePlain_map h, trivial⟩, List.nodup_singleton name⟩

/-! ## 3. Reading a value -/

/-- The first character of a value is no white space and no closing bracket. -/
theorem exists_first (layout : Layout) (depth : Nat) {json : Json} (h : IsPlain json room) :
    ∃ c cs, valueChars layout depth json = c :: cs ∧ isSpace c = false ∧ c ≠ ']' := by
  cases json with
  | null => exact ⟨'n', _, rfl, rfl, by decide⟩
  | bool b => cases b <;> exact ⟨_, _, rfl, rfl, by decide⟩
  | double x => exact absurd h id
  | str s => exact ⟨'"', _, rfl, rfl, by decide⟩
  | arr items => cases items <;> exact ⟨'[', _, rfl, rfl, by decide⟩
  | obj members => cases members <;> exact ⟨'\x7b', _, rfl, rfl, by decide⟩
  | int n =>
    have hne : (toString n).toList ≠ [] := by
      rw [Number.toList_toString]
      split
      · exact List.cons_ne_nil _ _
      · exact Number.digits_ne_nil _
    obtain ⟨c, cs, hcs⟩ := List.exists_cons_of_ne_nil hne
    -- a digit or a minus sign stands below the letters and above the blanks
    have hrange := Number.toNat_of_isIntegerChar
      (Number.isIntegerChar_of_mem (hcs ▸ List.mem_cons_self : c ∈ (toString n).toList))
    refine ⟨c, cs, hcs, ?_, ?_⟩
    · have hlow : ∀ d : Char, d.toNat < 45 → c ≠ d := by
        rintro d hd rfl
        omega
      rw [isSpace, decide_eq_false (hlow ' ' (by decide)), decide_eq_false (hlow '\t' (by decide)),
        decide_eq_false (hlow '\n' (by decide)), decide_eq_false (hlow '\r' (by decide))]
      rfl
    · rintro rfl
      exact absurd hrange.2 (by decide)

theorem skipSpace_valueChars (layout : Layout) (depth : Nat) {json : Json}
    (h : IsPlain json room) (rest : List Char) :
    skipSpace (valueChars layout depth json ++ rest) = valueChars layout depth json ++ rest := by
  obtain ⟨c, cs, hcs, hc, -⟩ := exists_first layout depth h
  rw [hcs, List.cons_append, skipSpace_cons hc]

theorem value_scalar (calls : Nat) {c : Char} {cs : List Char} (hquote : c ≠ '"') (harr : c ≠ '[')
    (hobj : c ≠ '\x7b') : value (calls + 1) room (c :: cs) = scalar (c :: cs) := by
  rw [value, if_neg hquote, if_neg harr, if_neg hobj]

theorem value_str (calls : Nat) (asciiOnly : Bool) (s : String) (rest : List Char) :
    value (calls + 1) room (stringChars asciiOnly s ++ rest) = .ok (str s, rest) := by
  have hshape : stringChars asciiOnly s ++ rest =
      '"' :: (s.toList.flatMap (escapeChar asciiOnly) ++ '"' :: rest) := by
    rw [stringChars, List.append_assoc]
    rfl
  rw [hshape, value, if_pos rfl, stringBody_flatMap]
  dsimp only
  rw [String.ofList_toList]

theorem value_arr (calls : Nat) {tail cs : List Char} {c : Char} (h : skipSpace tail = c :: cs)
    (hc : c ≠ ']') :
    value (calls + 1) (room + 1) ('[' :: tail) = items calls room [] (c :: cs) := by
  rw [value, if_neg (by decide), if_pos rfl, if_neg (Nat.succ_ne_zero room), h]
  split
  · next heq => exact absurd (List.cons.inj heq).1 hc
  · rfl

theorem value_obj (calls : Nat) {tail cs : List Char} (h : skipSpace tail = '"' :: cs) :
    value (calls + 1) (room + 1) ('\x7b' :: tail) = members calls room [] ('"' :: cs) := by
  rw [value, if_neg (by decide), if_neg (by decide), if_pos rfl, if_neg (Nat.succ_ne_zero room), h]
  rfl

theorem items_last (calls : Nat) (done : List Json) {cs tail rest : List Char} {item : Json}
    (hv : value calls room cs = .ok (item, tail)) (hs : skipSpace tail = ']' :: rest) :
    items (calls + 1) room done cs = .ok (arr (item :: done).reverse, rest) := by
  rw [items, hv]
  dsimp only
  rw [hs]
  rfl

theorem items_more (calls : Nat) (done : List Json) {cs tail rest : List Char} {item : Json}
    (hv : value calls room cs = .ok (item, tail)) (hs : skipSpace tail = ',' :: rest) :
    items (calls + 1) room done cs = items calls room (item :: done) (skipSpace rest) := by
  rw [items, hv]
  dsimp only
  rw [hs]
  rfl

/-- A member up to its value. -/
theorem members_eq (calls : Nat) (done : List (String × Json)) (layout : Layout)
    (hl : layout.IsBlank) (name : String) {cs tail : List Char} {item : Json}
    (hskip : skipSpace cs = cs) (hv : value calls room cs = .ok (item, tail)) :
    members (calls + 1) room done
        (stringChars layout.asciiOnly name ++ (':' :: (layout.afterColon ++ cs))) =
      match skipSpace tail with
      | '\x7d' :: rest => .ok (obj (OrderedMap.put name item done), rest)
      | ',' :: rest => members calls room (OrderedMap.put name item done) (skipSpace rest)
      | rest => .error (.failed .comma rest.length) := by
  have hshape : stringChars layout.asciiOnly name ++ (':' :: (layout.afterColon ++ cs)) =
      '"' :: (name.toList.flatMap (escapeChar layout.asciiOnly) ++
        '"' :: ':' :: (layout.afterColon ++ cs)) := by
    rw [stringChars, List.append_assoc]
    rfl
  rw [hshape, members, stringBody_flatMap]
  dsimp only
  rw [skipSpace_cons (by decide)]
  -- past the name come the colon and the white space after it
  have hvalue : value calls room (skipSpace (layout.afterColon ++ cs)) = .ok (item, tail) := by
    rw [skipSpace_append hl.afterColon, hskip, hv]
  split
  · next rest heq =>
    obtain rfl := (List.cons.inj heq).2
    rw [hvalue]
    dsimp only
    rewrite [String.ofList_toList]
    rfl
  · next hother => exact absurd rfl (hother _)

theorem skipSpace_separator (layout : Layout) (hl : layout.IsBlank) (depth : Nat)
    (cs : List Char) :
    skipSpace (layout.separator depth ++ cs) =
      ',' :: (layout.afterComma ++ (layout.lineBreak depth ++ cs)) ∧
      skipSpace (layout.afterComma ++ (layout.lineBreak depth ++ cs)) = skipSpace cs := by
  constructor
  · rw [Layout.separator, List.cons_append, List.cons_append, skipSpace_cons (by decide),
      List.append_assoc]
  · rw [skipSpace_append hl.afterComma, skipSpace_append (all_isSpace_lineBreak layout depth)]

theorem endsNumber_separator (layout : Layout) (depth : Nat) (cs : List Char) :
    endsNumber (layout.separator depth ++ cs) = true := rfl

theorem scalar_null (rest : List Char) : scalar ("null".toList ++ rest) = .ok (null, rest) := by
  simp [scalar, constant?, constants, after?]

theorem scalar_bool (b : Bool) (rest : List Char) :
    scalar ((if b then "true" else "false").toList ++ rest) = .ok (bool b, rest) := by
  cases b <;> simp [scalar, constant?, constants, after?]

theorem value_int (calls : Nat) {n : Int} (hn : Number.IsShort n) {rest : List Char}
    (h : endsNumber rest = true) :
    value (calls + 1) room ((toString n).toList ++ rest) = .ok (int n, rest) := by
  obtain ⟨c, cs, hcs⟩ : ∃ c cs, (toString n).toList = c :: cs := by
    rw [Number.toList_toString]
    split
    · exact ⟨_, _, rfl⟩
    · exact List.exists_cons_of_ne_nil (Number.digits_ne_nil _)
  have hrange := Number.toNat_of_isIntegerChar
    (Number.isIntegerChar_of_mem (hcs ▸ List.mem_cons_self : c ∈ (toString n).toList))
  have hne : ∀ d : Char, d.toNat < 45 ∨ 57 < d.toNat → c ≠ d := by
    rintro d hd rfl
    omega
  have hread := scalar_toString hn h
  rw [hcs, List.cons_append] at hread ⊢
  rw [value_scalar calls (hne '"' (by decide)) (hne '[' (by decide)) (hne '\x7b' (by decide)),
    hread]

theorem length_valueChars_pos (layout : Layout) (depth : Nat) {json : Json}
    (h : IsPlain json room) : 0 < (valueChars layout depth json).length := by
  obtain ⟨c, cs, hcs, -, -⟩ := exists_first layout depth h
  rw [hcs, List.length_cons]
  exact Nat.succ_pos _

theorem valueChars_arr (layout : Layout) (depth : Nat) (item : Json) (more : List Json)
    (rest : List Char) :
    valueChars layout depth (arr (item :: more)) ++ rest =
      '[' :: (layout.lineBreak (depth + 1) ++ (valueChars layout (depth + 1) item ++
        (itemsChars layout (depth + 1) more ++ (layout.lineBreak depth ++ ']' :: rest)))) := by
  rw [valueChars]
  simp only [List.append_assoc, List.cons_append, List.nil_append]

theorem valueChars_obj (layout : Layout) (depth : Nat) (name : String) (value : Json)
    (more : List (String × Json)) (rest : List Char) :
    valueChars layout depth (obj ((name, value) :: more)) ++ rest =
      '\x7b' :: (layout.lineBreak (depth + 1) ++ (stringChars layout.asciiOnly name ++
        (':' :: (layout.afterColon ++ (valueChars layout (depth + 1) value ++
          (membersChars layout (depth + 1) more ++
            (layout.lineBreak depth ++ '\x7d' :: rest))))))) := by
  rw [valueChars]
  simp only [List.append_assoc, List.cons_append, List.nil_append]

theorem not_mem_of_nodup {name : String} {item : Json} {done more : List (String × Json)}
    (h : ((done ++ (name, item) :: more).map Prod.fst).Nodup) : name ∉ done.map Prod.fst := by
  rw [List.map_append, List.map_cons] at h
  exact fun hmem => List.disjoint_of_nodup_append h hmem List.mem_cons_self

theorem skipSpace_stringChars (asciiOnly : Bool) (s : String) (rest : List Char) :
    skipSpace (stringChars asciiOnly s ++ rest) = stringChars asciiOnly s ++ rest :=
  skipSpace_cons (by decide) _

mutual

/-- A value is read back from its text, whatever follows that does not go on with a number. -/
theorem value_valueChars {layout : Layout} (hl : layout.IsBlank) :
    ∀ (json : Json) (depth calls room : Nat) (rest : List Char), IsPlain json room →
      2 * (valueChars layout depth json).length ≤ calls → endsNumber rest = true →
      value calls room (valueChars layout depth json ++ rest) = .ok (json, rest)
  | json, depth, 0, _, rest, hp, hlen, _ => by
    -- a value has a character, so there are calls left for it
    have hpos := length_valueChars_pos layout depth hp
    omega
  | .null, depth, calls + 1, _, rest, _, _, _ =>
    (value_scalar calls (by decide) (by decide) (by decide)).trans (scalar_null rest)
  | .bool true, depth, calls + 1, _, rest, _, _, _ =>
    (value_scalar calls (by decide) (by decide) (by decide)).trans (scalar_bool true rest)
  | .bool false, depth, calls + 1, _, rest, _, _, _ =>
    (value_scalar calls (by decide) (by decide) (by decide)).trans (scalar_bool false rest)
  | .int n, depth, calls + 1, _, rest, hp, _, hrest => value_int calls hp hrest
  | .double x, depth, calls + 1, _, rest, hp, _, _ => absurd hp id
  | .str s, depth, calls + 1, _, rest, _, _, _ => value_str calls layout.asciiOnly s rest
  | .arr _, depth, calls + 1, 0, rest, hp, _, _ => absurd hp id
  | .obj _, depth, calls + 1, 0, rest, hp, _, _ => absurd hp id
  | .arr [], depth, calls + 1, room + 1, rest, _, _, _ => by
    show value (calls + 1) (room + 1) ('[' :: ']' :: rest) = _
    rw [value, if_neg (by decide), if_pos rfl, if_neg (Nat.succ_ne_zero room),
      skipSpace_cons (by decide)]
    rfl
  | .arr (item :: more), depth, calls + 1, room + 1, rest, hp, hlen, _ => by
    have hclose := closes_lineBreak layout depth (.inl rfl) rest
    -- the calls that the items need are counted by the length of their text
    have hshape := congrArg List.length (valueChars_arr layout depth item more rest)
    simp only [List.length_append, List.length_cons] at hshape
    obtain ⟨c, cs, hcs, hc, hne⟩ := exists_first layout (depth + 1) hp.1
    have hread := items_itemsChars hl item more [] (depth + 1) calls room _ rest hp.1 hp.2
      (by omega) hclose
    rw [valueChars_arr]
    rw [hcs, List.cons_append] at hread ⊢
    rw [value_arr calls _ hne, hread]
    · rfl
    · rw [skipSpace_append (all_isSpace_lineBreak layout _), skipSpace_cons hc]
  | .obj [], depth, calls + 1, room + 1, rest, _, _, _ => by
    show value (calls + 1) (room + 1) ('\x7b' :: '\x7d' :: rest) = _
    rw [value, if_neg (by decide), if_neg (by decide), if_pos rfl,
      if_neg (Nat.succ_ne_zero room), skipSpace_cons (by decide)]
    rfl
  | .obj ((name, item) :: more), depth, calls + 1, room + 1, rest, hp, hlen, _ => by
    have hclose := closes_lineBreak layout depth (.inr rfl) rest
    have hshape := congrArg List.length (valueChars_obj layout depth name item more rest)
    simp only [List.length_append, List.length_cons] at hshape
    have hread := members_membersChars hl name item more [] (depth + 1) calls room _ rest hp.1.1
      hp.1.2 hp.2 (by omega) hclose
    rw [valueChars_obj]
    refine (value_obj calls ?_).trans hread
    rw [skipSpace_append (all_isSpace_lineBreak layout _)]
    exact skipSpace_cons (by decide) _
termination_by structural _ _ calls => calls

theorem items_itemsChars {layout : Layout} (hl : layout.IsBlank) :
    ∀ (item : Json) (more : List Json) (done : List Json) (depth calls room : Nat)
      (tail rest : List Char), IsPlain item room → ArePlain more room →
      2 * ((valueChars layout depth item).length + (itemsChars layout depth more).length) + 1 ≤
        calls → Closes ']' tail rest →
      items calls room done
          (valueChars layout depth item ++ (itemsChars layout depth more ++ tail)) =
        .ok (arr (done.reverse ++ item :: more), rest)
  | item, more, done, depth, 0, _, tail, rest, _, _, hlen, _ => by
    omega
  | item, [], done, depth, calls + 1, room, tail, rest, hp, _, hlen, hc => by
    have hv := value_valueChars hl item depth calls room tail hp (by omega) hc.endsNumber
    rw [itemsChars, List.nil_append, items_last calls done hv hc.skipSpace, List.reverse_cons]
  | item, next :: more, done, depth, calls + 1, room, tail, rest, hp, hps, hlen, hc => by
    have hshape : itemsChars layout depth (next :: more) ++ tail = layout.separator depth ++
        (valueChars layout depth next ++ (itemsChars layout depth more ++ tail)) := by
      rw [itemsChars, List.append_assoc, List.append_assoc]
    have hsize := congrArg List.length hshape
    have hcomma : 0 < (layout.separator depth).length := Nat.succ_pos _
    simp only [List.length_append] at hsize
    rw [hshape]
    -- the separator after an item ends a number, too
    have hv := value_valueChars hl item depth calls room _ hp (by omega)
      (endsNumber_separator layout depth
        (valueChars layout depth next ++ (itemsChars layout depth more ++ tail)))
    obtain ⟨hskip, hskip'⟩ := skipSpace_separator layout hl depth
      (valueChars layout depth next ++ (itemsChars layout depth more ++ tail))
    rw [items_more calls done hv hskip, hskip', skipSpace_valueChars layout depth hps.1,
      items_itemsChars hl next more (item :: done) depth calls room tail rest hps.1 hps.2
        (by omega) hc, List.reverse_cons, List.append_assoc]
    rfl
termination_by structural _ _ _ _ calls => calls

theorem members_membersChars {layout : Layout} (hl : layout.IsBlank) :
    ∀ (name : String) (item : Json) (more done : List (String × Json)) (depth calls room : Nat)
      (tail rest : List Char), IsPlain item room → MembersPlain more room →
      ((done ++ (name, item) :: more).map Prod.fst).Nodup →
      2 * ((valueChars layout depth item).length + (membersChars layout depth more).length) + 1 ≤
        calls → Closes '\x7d' tail rest →
      members calls room done (stringChars layout.asciiOnly name ++ (':' :: (layout.afterColon ++
          (valueChars layout depth item ++ (membersChars layout depth more ++ tail))))) =
        .ok (obj (done ++ (name, item) :: more), rest)
  | name, item, more, done, depth, 0, _, tail, rest, _, _, _, hlen, _ => by
    omega
  | name, item, [], done, depth, calls + 1, room, tail, rest, hp, _, hnd, hlen, hc => by
    have hv := value_valueChars hl item depth calls room tail hp (by omega) hc.endsNumber
    rw [membersChars, List.nil_append, members_eq calls done layout hl name
      (skipSpace_valueChars layout depth hp tail) hv, hc.skipSpace,
      OrderedMap.put_eq_append (not_mem_of_nodup hnd)]
    rfl
  | name, item, (next, value) :: more, done, depth, calls + 1, room, tail, rest, hp, hps, hnd, hlen,
      hc => by
    have hshape : membersChars layout depth ((next, value) :: more) ++ tail =
        layout.separator depth ++ (stringChars layout.asciiOnly next ++
          (':' :: (layout.afterColon ++ (valueChars layout depth value ++
            (membersChars layout depth more ++ tail))))) := by
      rw [membersChars]
      simp only [List.append_assoc, List.cons_append]
    have hsize := congrArg List.length hshape
    simp only [List.length_append, List.length_cons] at hsize
    rw [hshape]
    have hv := value_valueChars hl item depth calls room _ hp (by omega)
      (endsNumber_separator layout depth (stringChars layout.asciiOnly next ++
        (':' :: (layout.afterColon ++ (valueChars layout depth value ++
          (membersChars layout depth more ++ tail))))))
    obtain ⟨hskip, hskip'⟩ := skipSpace_separator layout hl depth
      (stringChars layout.asciiOnly next ++ (':' :: (layout.afterColon ++
        (valueChars layout depth value ++ (membersChars layout depth more ++ tail)))))
    -- the names still differ when the member has moved to the ones done
    have hnd' : ((done ++ [(name, item)] ++ (next, value) :: more).map Prod.fst).Nodup := by
      rw [List.append_assoc]
      exact hnd
    have hread := members_membersChars hl next value more (done ++ [(name, item)]) depth calls
      room tail rest hps.1 hps.2 hnd' (by omega) hc
    rw [members_eq calls done layout hl name (skipSpace_valueChars layout depth hp _) hv, hskip,
      OrderedMap.put_eq_append (not_mem_of_nodup hnd)]
    show members calls room (done ++ [(name, item)]) (skipSpace _) = _
    rw [hskip', skipSpace_stringChars, hread, List.append_assoc]
    rfl
termination_by structural _ _ _ _ _ calls => calls

end

/-! ## 4. Texts and bytes -/

theorem ofChars_valueChars {layout : Layout} (hl : layout.IsBlank) {json : Json}
    (h : IsPlain json maxNesting) : ofChars (valueChars layout 0 json) = .ok json := by
  have hread := value_valueChars hl json 0 (2 * (valueChars layout 0 json).length + 2) maxNesting []
    h (by omega) rfl
  have hskip := skipSpace_valueChars layout 0 h []
  rw [List.append_nil] at hread hskip
  rw [ofChars, readWhole, hskip, hread]
  rfl

/-- The text of an object with a member starts with a brace and not with a byte order mark. -/
theorem ofText_valueChars {layout : Layout} (hl : layout.IsBlank) {name : String} {value : Json}
    {more : List (String × Json)} (h : IsPlain (obj ((name, value) :: more)) maxNesting) :
    ofText (valueChars layout 0 (obj ((name, value) :: more))) =
      .ok (obj ((name, value) :: more)) := by
  have hread := ofChars_valueChars hl h
  obtain ⟨rest, hrest⟩ : ∃ rest, valueChars layout 0 (obj ((name, value) :: more)) =
      '\x7b' :: rest := ⟨_, rfl⟩
  rw [hrest] at hread ⊢
  rw [ofText, if_neg (by decide), hread]

/-- An object with a member starts with a brace and a quote, which no other encoding does. -/
theorem detect_object (rest : Bytes) :
    Encoding.detect (0x7b :: 0x22 :: rest) = .utf8 0 := by
  -- the third and fourth bytes play no part, whether they are there or not
  rcases rest with _ | ⟨c, _ | ⟨d, rest⟩⟩ <;> rfl

theorem decodeBytes_object (rest : List Char) :
    decodeBytes (Utf8.encode ('\x7b' :: '"' :: rest)) = .ok ('\x7b' :: '"' :: rest) := by
  have hshape : Utf8.encode ('\x7b' :: '"' :: rest) = 0x7b :: 0x22 :: Utf8.encode rest := rfl
  have hdetect := detect_object (Utf8.encode rest)
  rw [← hshape] at hdetect
  rw [decodeBytes, hdetect]
  dsimp only
  rw [List.drop_zero, Utf8.decodeFrom_encode]

/-- The body of an answer is read back: an object with a member, compactly written. -/
theorem ofBytes_encode {name : String} {value : Json} {more : List (String × Json)}
    (h : IsPlain (obj ((name, value) :: more)) maxNesting) :
    ofBytes (Utf8.encode (valueChars .compact 0 (obj ((name, value) :: more)))) =
      .ok (obj ((name, value) :: more)) := by
  have hread := ofChars_valueChars isBlank_compact h
  obtain ⟨rest, hrest⟩ : ∃ rest, valueChars .compact 0 (obj ((name, value) :: more)) =
      '\x7b' :: '"' :: rest := ⟨_, rfl⟩
  rw [hrest] at hread ⊢
  rw [ofBytes, decodeBytes_object]
  dsimp only
  rw [hread]

end ReplicaCensus.Json
