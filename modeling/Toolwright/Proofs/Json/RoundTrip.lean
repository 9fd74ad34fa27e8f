import Toolwright.Proofs.Json.Numbers

/-!
Reading what `pretty` writes. `Reads reader tree a` says that a reader takes the indented text of a
tree for `a`, whatever stands around that text. Lists and objects are read item by item and member
by member; from that, every readable tree with ordered keys is read back as itself, its numbers
replaced by what they are read as.
-/

namespace Toolwright.Json

open Reader

/-- The reader takes the indented text of the tree for `a`: blanks may stand in front of it, and
behind it whatever can follow a value. -/
def Reads {α : Type} (reader : Reader α) (tree : Json) (a : α) : Prop :=
  ∀ gap level rest, (∀ c ∈ gap, isBlank c = true) → EndsValue rest →
    reader (gap ++ (tree.pretty level ++ rest)) = .ok (a, rest)

/-- The first character is neither blank nor what separates or closes lists. -/
def BeginsItem (s : List Char) : Prop :=
  ∃ c more, s = c :: more ∧ isBlank c = false ∧ c ≠ ',' ∧ c ≠ ']'

theorem skipBlank_append {gap : List Char} (h : ∀ c ∈ gap, isBlank c = true) (s : List Char) :
    skipBlank (gap ++ s) = skipBlank s := List.dropWhile_append_of_pos h

theorem skipBlank_cons {c : Char} (h : isBlank c = false) (s : List Char) :
    skipBlank (c :: s) = c :: s := by
  simp [skipBlank, h]

theorem newLine_blank (level : Nat) : ∀ c ∈ newLine level, isBlank c = true := by
  intro c hc
  rcases List.mem_cons.1 hc with rfl | hc
  · rfl
  · rw [List.eq_of_mem_replicate hc]
    rfl

theorem skipBlank_newLine (level : Nat) (s : List Char) :
    skipBlank (newLine level ++ s) = skipBlank s := skipBlank_append (newLine_blank level) s

theorem skipBlank_gap {gap : List Char} (hg : ∀ c ∈ gap, isBlank c = true) {c : Char}
    (hc : isBlank c = false) (s : List Char) : skipBlank (gap ++ c :: s) = c :: s := by
  rw [skipBlank_append hg, skipBlank_cons hc]

/-- What stands between an item or member and those before it. -/
def separator (first : Bool) : List Char := if first then [] else [',']

/-- Texts of items in front of `tail`, each on a line of its own. -/
def itemTexts (level : Nat) (tail : List Char) : Bool → List Json → List Char
  | _, [] => tail
  | first, item :: rest =>
    separator first ++ (newLine level ++ (item.pretty level ++ itemTexts level tail false rest))

theorem prettyItems_append (level : Nat) (tail : List Char) (items : List Json)
    (h : items ≠ []) : prettyItems level items ++ tail = itemTexts level tail true items := by
  suffices general : ∀ items first, items ≠ [] →
      separator first ++ (prettyItems level items ++ tail) = itemTexts level tail first items by
    simpa [separator] using general items true h
  intro items
  induction items with
  | nil => simp
  | cons item rest ih =>
    intro first _
    cases rest with
    | nil => simp [prettyItems, itemTexts]
    | cons next more =>
      have tails := ih false (by simp)
      rw [itemTexts, ← tails]
      simp [prettyItems, separator]

theorem endsValue_itemTexts (level outer : Nat) (rest : List Char) (items : List Json) :
    EndsValue (itemTexts level (newLine outer ++ rest) false items) := by
  cases items with
  | nil => exact endsValue_newLine outer rest
  | cons item more => exact endsValue_comma _

theorem length_le_itemTexts (level : Nat) (tail : List Char) (first : Bool) (items : List Json) :
    items.length ≤ (itemTexts level tail first items).length := by
  induction items generalizing first with
  | nil => simp
  | cons item rest ih =>
    have tails := ih false
    simp only [itemTexts, newLine, List.length_append, List.length_cons]
    omega

theorem itemStart_item {s : List Char} (h : BeginsItem s) (first : Bool) (level : Nat) :
    itemStart first (separator first ++ (newLine level ++ s)) = .ok (.item s) := by
  obtain ⟨c, more, rfl, blank, comma, bracket⟩ := h
  cases first with
  | true =>
    have start : skipBlank (newLine level ++ c :: more) = c :: more := by
      rw [skipBlank_newLine, skipBlank_cons blank]
    simp only [separator, if_true, List.nil_append, itemStart, start]
    split <;> simp_all
  | false =>
    have start : skipBlank (newLine level ++ c :: more) = c :: more := by
      rw [skipBlank_newLine, skipBlank_cons blank]
    have sep : skipBlank (',' :: (newLine level ++ c :: more)) =
        ',' :: (newLine level ++ c :: more) := skipBlank_cons (by rfl) _
    simp only [separator, Bool.false_eq_true, if_false, List.singleton_append, itemStart, sep,
      start]
    split <;> simp_all

theorem itemStart_close (first : Bool) (level : Nat) (rest : List Char) :
    itemStart first (newLine level ++ ']' :: rest) = .ok (.close rest) := by
  have stop : skipBlank (newLine level ++ ']' :: rest) = ']' :: rest := by
    rw [skipBlank_newLine]
    rfl
  simp only [itemStart, stop]

section Items

variable {α β : Type} {item : Reader α} {tree : β → Json} {f : β → α} {xs : List β}

theorem items_itemTexts (hread : ∀ x ∈ xs, Reads item (tree x) (f x))
    (hbegin : ∀ x ∈ xs, ∀ level, BeginsItem ((tree x).pretty level)) {fuel : Nat}
    (hfuel : xs.length < fuel) (first : Bool) (level outer : Nat) (rest : List Char) :
    items item fuel first (itemTexts level (newLine outer ++ ']' :: rest) first (xs.map tree)) =
      .ok (xs.map f, rest) := by
  induction xs generalizing fuel first with
  | nil =>
    cases fuel with
    | zero => simp at hfuel
    | succ fuel =>
      simp only [List.map_nil, itemTexts, items, itemStart_close, bind, Except.bind]
  | cons x xs ih =>
    cases fuel with
    | zero => simp at hfuel
    | succ fuel =>
      have more := @ih (fun y hy => hread y (by simp [hy])) (fun y hy => hbegin y (by simp [hy]))
        fuel (by simpa using hfuel) false
      have begins : BeginsItem ((tree x).pretty level ++
          itemTexts level (newLine outer ++ ']' :: rest) false (xs.map tree)) := by
        obtain ⟨c, more, text, h⟩ := hbegin x (by simp) level
        exact ⟨c, _, by rw [text, List.cons_append], h⟩
      have read := hread x (by simp) [] level _ (by simp)
        (endsValue_itemTexts level outer (']' :: rest) (xs.map tree))
      rw [List.nil_append] at read
      simp only [List.map_cons, itemTexts, items, itemStart_item begins, bind, Except.bind, read,
        more]

theorem items_pretty (hread : ∀ x ∈ xs, Reads item (tree x) (f x))
    (hbegin : ∀ x ∈ xs, ∀ level, BeginsItem ((tree x).pretty level)) (level : Nat)
    (rest : List Char) :
    ∃ s, (array (xs.map tree)).pretty level ++ rest = '[' :: s ∧
      items item (s.length + 1) true s = .ok (xs.map f, rest) := by
  cases xs with
  | nil => exact ⟨']' :: rest, by simp [pretty], by simp [items, itemStart, skipBlank, isBlank,
      bind, Except.bind]⟩
  | cons x xs =>
    have texts := prettyItems_append (level + 1) (newLine level ++ ']' :: rest)
      ((x :: xs).map tree) (by simp)
    have fuel := length_le_itemTexts (level + 1) (newLine level ++ ']' :: rest) true
      ((x :: xs).map tree)
    refine ⟨_, ?_, items_itemTexts hread hbegin ?_ true (level + 1) level rest⟩
    · rw [← texts]
      simp [pretty]
    · rw [List.length_map] at fuel
      omega

end Items

/-- Texts of members in front of `tail`, each on a line of its own. -/
def memberTexts (level : Nat) (tail : List Char) : Bool → List (String × Json) → List Char
  | _, [] => tail
  | first, (key, value) :: rest =>
    separator first ++ (newLine level ++ (writeString key ++ ':' :: ([' '] ++
      (value.pretty level ++ memberTexts level tail false rest))))

theorem prettyMembers_append (level : Nat) (tail : List Char) (members : List (String × Json))
    (h : members ≠ []) :
    prettyMembers level members ++ tail = memberTexts level tail true members := by
  suffices general : ∀ members first, members ≠ [] →
      separator first ++ (prettyMembers level members ++ tail) =
        memberTexts level tail first members by
    simpa [separator] using general members true h
  intro members
  induction members with
  | nil => simp
  | cons member rest ih =>
    obtain ⟨key, value⟩ := member
    intro first _
    cases rest with
    | nil => simp [prettyMembers, memberTexts]
    | cons next more =>
      have tails := ih false (by simp)
      rw [memberTexts, ← tails]
      simp [prettyMembers, separator]

theorem endsValue_memberTexts (level outer : Nat) (rest : List Char)
    (members : List (String × Json)) :
    EndsValue (memberTexts level (newLine outer ++ rest) false members) := by
  cases members with
  | nil => exact endsValue_newLine outer rest
  | cons member more => exact endsValue_comma _

theorem length_le_memberTexts (level : Nat) (tail : List Char) (first : Bool)
    (members : List (String × Json)) :
    members.length ≤ (memberTexts level tail first members).length := by
  induction members generalizing first with
  | nil => simp
  | cons member rest ih =>
    have tails := ih false
    simp only [memberTexts, newLine, List.length_append, List.length_cons]
    omega

theorem memberStart_key (first : Bool) (level : Nat) (key : String) (s : List Char) :
    memberStart first (separator first ++ (newLine level ++ (writeString key ++ s))) =
      .ok (.key (key.toList.flatMap escape ++ '"' :: s)) := by
  have start : skipBlank (newLine level ++ (writeString key ++ s)) =
      '"' :: (key.toList.flatMap escape ++ '"' :: s) := by
    rw [skipBlank_newLine, writeString_append]
    rfl
  cases first with
  | true => simp only [separator, if_true, List.nil_append, memberStart, start]
  | false =>
    have sep : skipBlank (',' :: (newLine level ++ (writeString key ++ s))) =
        ',' :: (newLine level ++ (writeString key ++ s)) := skipBlank_cons (by rfl) _
    simp only [separator, Bool.false_eq_true, if_false, List.singleton_append, memberStart, sep,
      start]

theorem memberStart_close (first : Bool) (level : Nat) (rest : List Char) :
    memberStart first (newLine level ++ '\x7d' :: rest) = .ok (.close rest) := by
  have stop : skipBlank (newLine level ++ '\x7d' :: rest) = '\x7d' :: rest := by
    rw [skipBlank_newLine]
    rfl
  simp only [memberStart, stop]

theorem colon_colon (s : List Char) : colon (':' :: s) = .ok s := rfl

theorem members_memberTexts {α β σ : Type} {item : Reader α} {add : String → α → σ → σ}
    {tree : β → Json} {f : β → α} {entries : List (String × β)}
    (hread : ∀ e ∈ entries, Reads item (tree e.2) (f e.2)) {fuel : Nat}
    (hfuel : entries.length < fuel) (first : Bool) (acc : σ) (level outer : Nat)
    (rest : List Char) :
    Reader.members item add fuel first acc
      (memberTexts level (newLine outer ++ '\x7d' :: rest) first
        (entries.map fun e => (e.1, tree e.2))) =
      .ok (entries.foldl (fun acc e => add e.1 (f e.2) acc) acc, rest) := by
  induction entries generalizing fuel first acc with
  | nil =>
    cases fuel with
    | zero => simp at hfuel
    | succ fuel =>
      simp only [List.map_nil, memberTexts, Reader.members, memberStart_close, bind, Except.bind,
        List.foldl_nil]
  | cons e entries ih =>
    cases fuel with
    | zero => simp at hfuel
    | succ fuel =>
      have more := @ih (fun e he => hread e (by simp [he])) fuel (by simpa using hfuel) false
        (add e.1 (f e.2) acc)
      have read := hread e (by simp) [' '] level _ (by simp [isBlank])
        (endsValue_memberTexts level outer ('\x7d' :: rest) (entries.map fun e => (e.1, tree e.2)))
      simp only [List.map_cons, memberTexts, Reader.members, memberStart_key, stringTail_escaped,
        colon_colon, bind, Except.bind, read, more, List.foldl_cons]

theorem pretty_object_append (level : Nat) (members : List (String × Json)) (rest : List Char) :
    (object members).pretty level ++ rest =
      '\x7b' :: (if members = [] then '\x7d' :: rest
        else memberTexts (level + 1) (newLine level ++ '\x7d' :: rest) true members) := by
  cases members with
  | nil => simp [pretty]
  | cons m more =>
    rw [← prettyMembers_append _ _ _ (by simp)]
    simp [pretty]

theorem members_pretty {α β σ : Type} {item : Reader α} (add : String → α → σ → σ)
    {tree : β → Json} {f : β → α} {entries : List (String × β)}
    (hread : ∀ e ∈ entries, Reads item (tree e.2) (f e.2)) (acc : σ) (level : Nat)
    (rest : List Char) :
    ∃ s, (object (entries.map fun e => (e.1, tree e.2))).pretty level ++ rest = '\x7b' :: s ∧
      Reader.members item add (s.length + 1) true acc s =
        .ok (entries.foldl (fun acc e => add e.1 (f e.2) acc) acc, rest) := by
  refine ⟨_, pretty_object_append level _ rest, ?_⟩
  cases entries with
  | nil => simp [Reader.members, memberStart, skipBlank, isBlank, bind, Except.bind]
  | cons e entries =>
    rw [if_neg (by simp)]
    have fuel := length_le_memberTexts (level + 1) (newLine level ++ '\x7d' :: rest) true
      ((e :: entries).map fun e => (e.1, tree e.2))
    rw [List.length_map] at fuel
    exact members_memberTexts hread (by omega) true acc (level + 1) level rest

theorem isBlank_of_isDigit {c : Char} (h : Reader.isDigit c = true) : isBlank c = false := by
  simp only [isBlank, Bool.or_eq_false_iff, beq_eq_false_iff_ne]
  refine ⟨⟨⟨?_, ?_⟩, ?_⟩, ?_⟩ <;> (rintro rfl; exact absurd h (by decide))

theorem pretty_head {ρ : Number → Number} {tree : Json}
    (h : tree.AllNumbers fun n => n.ReadAs (ρ n)) (level : Nat) :
    BeginsItem (tree.pretty level) := by
  cases tree with
  | null => exact ⟨'n', _, rfl, by decide⟩
  | bool b => cases b <;> exact ⟨_, _, rfl, by decide⟩
  | string s => exact ⟨'"', _, rfl, by decide⟩
  | array items => cases items <;> exact ⟨'[', _, rfl, by decide⟩
  | object members => cases members <;> exact ⟨'\x7b', _, rfl, by decide⟩
  | number n =>
    obtain ⟨c, more, text, minus | digit⟩ := Number.ReadAs.head h
    · exact ⟨c, more, text, by rw [minus]; decide⟩
    · refine ⟨c, more, text, isBlank_of_isDigit digit, ?_, ?_⟩
      all_goals rintro rfl; exact absurd digit (by decide)

theorem value_gap {limit : Nat} {gap : List Char} (h : ∀ c ∈ gap, isBlank c = true)
    (s : List Char) : value limit (gap ++ s) = value limit s := by
  rw [value.eq_def, value.eq_def limit s, skipBlank_append h]

theorem value_signedNumber {limit : Nat} {c : Char} {s rest : List Char} {n : Number}
    (hc : c = '-' ∨ Reader.isDigit c = true) (h : signedNumber (c :: s) = .ok (n, rest)) :
    value limit (c :: s) = .ok (⟨.number n, trivial⟩, rest) := by
  rcases hc with rfl | digit
  · rw [signedNumber] at h
    rw [value.eq_def, skipBlank_cons (by rfl)]
    simp only [bind, Except.bind, h]
  · have plain : c ≠ '-' := by
      rintro rfl
      exact absurd digit (by decide)
    rw [signedNumber_of_ne plain] at h
    rw [value.eq_def, skipBlank_cons (isBlank_of_isDigit digit)]
    split
    all_goals first
      | rename_i start; cases start; exact absurd digit (by decide)
      | skip
    · simp_all
    · rename_i start
      cases start
      simp only [if_pos digit, bind, Except.bind, h]

theorem reads_scalar {ρ : Number → Number} {limit : Nat} {v : FreeValue}
    (h : v.tree.AllNumbers fun n => n.ReadAs (ρ n)) (scalar : v.tree.depth = 0) :
    Reads (value limit) v.tree (v.mapNumbers ρ) := by
  intro gap level rest blanks ends
  rw [value_gap blanks]
  obtain ⟨tree, ordered⟩ := v
  cases tree with
  | null =>
    rw [value.eq_def]
    rfl
  | bool b =>
    rw [value.eq_def]
    cases b <;> rfl
  | string s =>
    rw [pretty, writeString_append, value.eq_def, skipBlank_cons (by rfl)]
    simp only [bind, Except.bind, stringTail_escaped]
    rfl
  | number n =>
    obtain ⟨c, more, text, head⟩ := Number.ReadAs.head h
    have read := h rest ends
    rw [pretty, text, List.cons_append]
    rw [text, List.cons_append] at read
    exact value_signedNumber head read
  | array items => simp [depth_array] at scalar
  | object members => simp [depth_object] at scalar

theorem exists_values : ∀ {items : List Json}, OrderedItems items →
    ∃ values : List FreeValue, values.map (·.tree) = items
  | [], _ => ⟨[], rfl⟩
  | item :: _, ⟨first, rest⟩ =>
    have ⟨values, h⟩ := exists_values rest
    ⟨⟨item, first⟩ :: values, by rw [List.map_cons, h]⟩

theorem exists_entries : ∀ {members : List (String × Json)}, OrderedMembers members →
    ∃ entries : List (String × FreeValue), entries.map (fun e => (e.1, e.2.tree)) = members
  | [], _ => ⟨[], rfl⟩
  | (key, value) :: _, ⟨first, rest⟩ =>
    have ⟨entries, h⟩ := exists_entries rest
    ⟨(key, ⟨value, first⟩) :: entries, by rw [List.map_cons, h]⟩

theorem keysAscend_iff {members : List (String × Json)} :
    keysAscend members ↔ members.Pairwise fun a b => a.1 < b.1 := by
  induction members with
  | nil => simp [keysAscend]
  | cons m rest ih => simp [keysAscend, ih]

theorem insertMember_last {key : String} {members : List (String × Json)} (value : Json)
    (h : ∀ m ∈ members, m.1 < key) :
    insertMember key value members = members ++ [(key, value)] := by
  induction members with
  | nil => rfl
  | cons m rest ih =>
    obtain ⟨k, v⟩ := m
    have less : k < key := h (k, v) (by simp)
    have notLess : ¬ key < k := fun h => String.lt_irrefl _ (String.lt_trans less h)
    have ne : key ≠ k := by
      rintro rfl
      exact String.lt_irrefl _ less
    rw [insertMember, if_neg notLess, if_neg ne, ih fun m hm => h m (by simp [hm])]
    rfl

theorem foldl_insert_val {β : Type} (f : β → FreeValue) (object : OrderedObject)
    {entries : List (String × β)}
    (h : keysAscend (object.val ++ entries.map fun e => (e.1, (f e.2).tree))) :
    (entries.foldl (fun acc e => OrderedObject.insert e.1 (f e.2) acc) object).val =
      object.val ++ entries.map fun e => (e.1, (f e.2).tree) := by
  induction entries generalizing object with
  | nil => simp
  | cons e entries ih =>
    have below : ∀ m ∈ object.val, m.1 < e.1 := by
      rw [keysAscend_iff, List.pairwise_append] at h
      exact fun m hm => h.2.2 m hm (e.1, (f e.2).tree) (by simp)
    have last : (OrderedObject.insert e.1 (f e.2) object).val =
        object.val ++ [(e.1, (f e.2).tree)] := insertMember_last (f e.2).tree below
    rw [List.foldl_cons, ih _ (by rw [last]; simpa using h), last]
    simp

theorem FreeValue.eq_of_tree {v w : FreeValue} (h : v.tree = w.tree) : v = w := by
  cases v
  cases w
  cases h
  rfl

/-- A value is read back with its numbers replaced by what they are read as. -/
theorem reads_value {ρ : Number → Number} {limit : Nat} {v : FreeValue}
    (h : ReadableAs ρ limit v.tree) : Reads (value limit) v.tree (v.mapNumbers ρ) := by
  -- by the depth that is left; lists and objects are read by the lemmas about their loops
  induction limit generalizing v with
  | zero =>
    obtain ⟨tree, ordered⟩ := v
    cases tree with
    | array items => exact absurd h.depth_le (by simp [depth_array])
    | object members => exact absurd h.depth_le (by simp [depth_object])
    | _ => exact reads_scalar (v := ⟨_, ordered⟩) h.numbers rfl
  | succ limit ih =>
    intro gap level rest blanks ends
    obtain ⟨tree, ordered⟩ := v
    cases tree with
    | array items =>
      obtain ⟨values, rfl⟩ := exists_values ordered
      have each : ∀ v ∈ values, ReadableAs ρ limit v.tree := fun v hv =>
        readableAs_array.1 h v.tree (List.mem_map_of_mem hv)
      obtain ⟨s, text, read⟩ := items_pretty (f := FreeValue.mapNumbers ρ)
        (fun v hv => ih (each v hv)) (fun v hv => pretty_head (each v hv).numbers) level rest
      have same : FreeValue.ofItems (values.map (FreeValue.mapNumbers ρ)) =
          FreeValue.mapNumbers ρ ⟨array (values.map (·.tree)), ordered⟩ :=
        FreeValue.eq_of_tree (by simp [FreeValue.ofItems, FreeValue.mapNumbers])
      rw [value_gap blanks, text, value.eq_def, skipBlank_cons (by rfl)]
      simp only [bind, Except.bind, read, same]
    | object members =>
      obtain ⟨ascend, parts⟩ := ordered
      obtain ⟨entries, rfl⟩ := exists_entries parts
      have each : ∀ e ∈ entries, ReadableAs ρ limit e.2.tree := fun e he =>
        readableAs_object.1 h (e.1, e.2.tree) (List.mem_map_of_mem he)
      have ascends : keysAscend (entries.map fun e => (e.1, (e.2.mapNumbers ρ).tree)) := by
        have mapped := keysAscend_mapMembers (ρ := ρ) ascend
        rwa [mapMembers_eq, List.map_map] at mapped
      have fold := foldl_insert_val (FreeValue.mapNumbers ρ) ⟨[], trivial, trivial⟩ ascends
      obtain ⟨s, text, read⟩ := members_pretty OrderedObject.insert (f := FreeValue.mapNumbers ρ)
        (fun e he => ih (each e he)) ⟨[], trivial, trivial⟩ level rest
      have same : FreeValue.ofObject (entries.foldl
            (fun acc e => OrderedObject.insert e.1 (e.2.mapNumbers ρ) acc) ⟨[], trivial, trivial⟩) =
          FreeValue.mapNumbers ρ ⟨object (entries.map fun e => (e.1, e.2.tree)), ascend, parts⟩ :=
        FreeValue.eq_of_tree <| by
          change object _ = (object _).mapNumbers ρ
          rw [fold, mapNumbers_object, List.map_map]
          rfl
      rw [value_gap blanks, text, value.eq_def, skipBlank_cons (by rfl)]
      simp only [bind, Except.bind, read, same]
    | _ => exact reads_scalar (v := ⟨_, ordered⟩) h.numbers rfl gap level rest blanks ends

end Toolwright.Json
