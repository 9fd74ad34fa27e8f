import Toolwright.Proofs.Wrapper.Shown

/-!
What generated expressions mean. An expression is read as the syntax of literals and of the types
that fields are stored in: texts, switches, whole numbers within the range of their type, variants
of enumerations, and lists and maps of them. A variant means the text that the wrapper shows it as.
A reader takes as much of a text as makes sense and gives back what stands behind it.
-/

namespace Toolwright.Wrapper

open Text (readLiteral readLiteral_literal literalOf)

inductive Meaning where
  | text (s : String)
  | switch (b : Bool)
  | number (i : Int)
  deriving DecidableEq, Repr

def readDigits (s : List Char) : Option (Nat × List Char) :=
  if s.takeWhile Char.isDigit = [] then none
  else some (Nat.ofDigitChars 10 (s.takeWhile Char.isDigit) 0, s.dropWhile Char.isDigit)

def readWhole : List Char → Option (Int × List Char)
  | '-' :: rest => (readDigits rest).map fun (n, rest) => (-(n : Int), rest)
  | s => (readDigits s).map fun (n, rest) => ((n : Int), rest)

/-- A whole number of a type that holds those from `low` to below `high`. -/
def readNumber (low high : Int) (s : List Char) : Option (Meaning × List Char) := do
  let (i, rest) ← readWhole s
  if low ≤ i ∧ i < high then some (.number i, rest) else none

def readOwned (s : List Char) : Option (String × List Char) := do
  let (text, rest) ← readLiteral s
  let rest ← behind? ".to_string()" rest
  some (String.ofList text, rest)

def readSwitch (s : List Char) : Option (Meaning × List Char) :=
  match behind? "true" s with
  | some rest => some (.switch true, rest)
  | none => (behind? "false" s).map fun rest => (.switch false, rest)

def readVariant (source : Source) (type : String) (s : List Char) :
    Option (Meaning × List Char) := do
  let named ← behind? (type ++ "::") s
  let e ← source.enumeration? type
  let text ← e.shown? (String.ofList (named.takeWhile Char.isAlphanum))
  some (.text text, named.dropWhile Char.isAlphanum)

def readElement (source : Source) (type : String) (s : List Char) : Option (Meaning × List Char) :=
  if type = "String" then (readOwned s).map fun (text, rest) => (.text text, rest)
  else if type = "bool" then readSwitch s
  else if type = "i64" then readNumber (-0x8000000000000000) 0x8000000000000000 s
  else if type = "u64" then readNumber 0 0x10000000000000000 s
  else readVariant source type s

def readEntry (source : Source) (type : String) (s : List Char) :
    Option ((String × Meaning) × List Char) := do
  let s ← behind? "(" s
  let (key, s) ← readOwned s
  let s ← behind? ", " s
  let (value, s) ← readElement source type s
  let s ← behind? ")" s
  some ((key, value), s)

/-- One or more of something with commas between them, at most as many as there is fuel. -/
def readSeries {α : Type} (one : List Char → Option (α × List Char)) :
    Nat → List Char → Option (List α × List Char)
  | 0, _ => none
  | fuel + 1, s => do
    let (first, s) ← one s
    match behind? ", " s with
    | none => some ([first], s)
    | some s =>
      let (more, s) ← readSeries one fuel s
      some (first :: more, s)

inductive Content where
  | absent
  | present (value : Meaning)
  | items (values : List Meaning)
  | entries (values : List (String × Meaning))
  deriving DecidableEq, Repr

def readWithin {α : Type} (opening closing : String) (inner : List Char → Option (α × List Char))
    (s : List Char) : Option α := do
  let s ← behind? opening s
  let (value, rest) ← inner s
  if rest = closing.toList then some value else none

/-- What stands between an opening text and the last bracket of a type. -/
def argument? (opening storage : String) : Option String := do
  let rest ← behind? opening storage.toList
  let argument ← List.isSuffixOf? ['>'] rest
  some (String.ofList argument)

def readOptional (source : Source) (type : String) (s : List Char) : Option Content :=
  if s = "None".toList then some .absent
  else (readWithin "Some(" ")" (readElement source type) s).map .present

def readItems (source : Source) (type : String) (s : List Char) : Option Content :=
  if s = "Vec::new()".toList then some (.items [])
  else (readWithin "vec![" "]" (readSeries (readElement source type) s.length) s).map .items

def readEntries (source : Source) (type : String) (s : List Char) : Option Content :=
  if s = "BTreeMap::new()".toList then some (.entries [])
  else
    (readWithin "BTreeMap::from([" "])" (readSeries (readEntry source type) s.length) s).map
      .entries

def readStored (source : Source) (storage expression : String) : Option Content :=
  match argument? "Option<" storage with
  | some type => readOptional source type expression.toList
  | none =>
    match argument? "Vec<" storage with
    | some type => readItems source type expression.toList
    | none =>
      (argument? "BTreeMap<String, " storage).bind fun type =>
        readEntries source type expression.toList

def Stops (rest : List Char) : Prop := ∀ c ∈ rest.head?, c.isAlphanum = false

def Reads {α : Type} (one : List Char → Option (α × List Char)) (text : List Char) (value : α) :
    Prop :=
  ∀ rest, Stops rest → one (text ++ rest) = some (value, rest)

theorem Stops.digit {rest : List Char} (h : Stops rest) : ∀ c ∈ rest.head?, c.isDigit = false :=
  fun c hc => by
    have other := h c hc
    rw [← Bool.not_eq_true, Text.isAlphanum_iff] at other
    simp only [not_or, Bool.not_eq_true] at other
    exact other.2.2

theorem reads_owned (s : String) : Reads readOwned (literalOf s ++ ".to_string()").toList s := by
  intro rest _
  rw [String.toList_append, literalOf, String.toList_ofList, List.append_assoc, readOwned,
    readLiteral_literal]
  simp only [bind, Option.bind_some, behind?_append, String.ofList_toList]

theorem reads_switch (b : Bool) :
    Reads readSwitch (if b then "true" else "false").toList (.switch b) := by
  intro rest _
  cases b with
  | true =>
    rw [if_pos rfl, readSwitch, behind?_append]
  | false =>
    have other := @behind?_of_clash "true" "false".toList (by decide) rest
    rw [if_neg Bool.false_ne_true, readSwitch, other, behind?_append]
    rfl

theorem readDigits_toString {rest : List Char} (h : Stops rest) (n : Nat) :
    readDigits ((toString n).toList ++ rest) = some (n, rest) := by
  have text : (toString n).toList = Nat.toDigits 10 n := by simp
  have digits : ∀ c ∈ Nat.toDigits 10 n, c.isDigit = true :=
    fun c hc => Nat.isDigit_of_mem_toDigits (by omega) (by omega) hc
  obtain ⟨run, behind⟩ := takeWhile_run digits h.digit
  rw [text, readDigits, run, behind, if_neg Nat.toDigits_ne_nil, Nat.ofDigitChars_ten_toDigits]

theorem readWhole_toString {rest : List Char} (h : Stops rest) (i : Int) :
    readWhole ((toString i).toList ++ rest) = some (i, rest) := by
  cases i with
  | ofNat n =>
    have text : toString (Int.ofNat n) = toString n := rfl
    have plain : ∀ more, (toString n).toList ++ rest ≠ '-' :: more := fun more same => by
      have digits : ∀ c ∈ (toString n).toList, c.isDigit = true := fun c hc =>
        Nat.isDigit_of_mem_toDigits (b := 10) (n := n) (by omega) (by omega) (by simpa using hc)
      cases first : (toString n).toList with
      | nil => simp [Nat.toDigits_ne_nil] at first
      | cons c others =>
        rw [first] at same digits
        have sign := (List.cons.inj same).1
        exact absurd (digits c List.mem_cons_self) (by rw [sign]; decide)
    rw [text]
    unfold readWhole
    split
    · rename_i more same
      exact absurd same (plain more)
    · rw [readDigits_toString h]
      rfl
  | negSucc n =>
    have text : toString (Int.negSucc n) = "-" ++ toString (n + 1) := rfl
    have sign : ("-" ++ toString (n + 1)).toList ++ rest =
        '-' :: ((toString (n + 1)).toList ++ rest) := by
      rw [String.toList_append]
      rfl
    rw [text, sign, readWhole, readDigits_toString h]
    rfl

theorem reads_number {low high i : Int} (least : low ≤ i) (most : i < high) :
    Reads (readNumber low high) (toString i).toList (.number i) := by
  intro rest stops
  rw [readNumber, readWhole_toString stops]
  simp only [bind, Option.bind_some, if_pos (And.intro least most)]

theorem length_le_intercalate (texts : List (List Char)) :
    texts.length ≤ (", ".toList.intercalate texts).length + 1 := by
  induction texts with
  | nil => simp
  | cons text more ih =>
    cases more with
    | nil => simp
    | cons next more =>
      have separator : ", ".toList.length = 2 := rfl
      rw [List.intercalate_cons_cons, List.length_append, List.length_append, separator,
        List.length_cons]
      omega

theorem readSeries_intercalate {α : Type} {one : List Char → Option (α × List Char)}
    {texts : List (List Char)} {values : List α} (read : List.Forall₂ (Reads one) texts values)
    (nonempty : texts ≠ []) {fuel : Nat} (enough : texts.length ≤ fuel) {rest : List Char}
    (stops : Stops rest) (last : behind? ", " rest = none) :
    readSeries one fuel (", ".toList.intercalate texts ++ rest) = some (values, rest) := by
  induction read generalizing fuel with
  | nil => exact absurd rfl nonempty
  | @cons text value texts values first others ih =>
    obtain ⟨fuel, rfl⟩ : ∃ k, fuel = k + 1 := ⟨fuel - 1, by rw [List.length_cons] at enough; omega⟩
    cases texts with
    | nil =>
      cases others
      rw [List.intercalate_singleton, readSeries, first rest stops]
      simp only [bind, Option.bind_some, last]
    | cons next texts =>
      -- the item is read in front of the separator, which it cannot go on into
      have comma : Stops (", ".toList ++ (", ".toList.intercalate (next :: texts) ++ rest)) := by
        intro c hc
        cases hc
        decide
      have later := ih (by simp) (by simpa using enough)
      rw [List.intercalate_cons_cons, List.append_assoc, List.append_assoc, readSeries,
        first _ comma]
      simp only [bind, Option.bind_some, behind?_append, later]

theorem reads_variant {source : Source} {type ident value : String} {e : EnumerationItem}
    (there : source.enumeration? type = some e) (name : ∀ c ∈ ident.toList, c.isAlphanum = true)
    (shown : e.shown? ident = some value) :
    Reads (readVariant source type) (type ++ "::" ++ ident).toList (.text value) := by
  intro rest stops
  obtain ⟨run, behind⟩ := takeWhile_run name stops
  rw [String.toList_append, List.append_assoc, readVariant, behind?_append]
  simp only [bind, Option.bind_some, run, behind, String.ofList_toList, there, shown]

theorem readElement_text (source : Source) (s : String) :
    Reads (readElement source "String") (Atom.text s).source.toList (.text s) :=
  fun rest stops => by
  have text : (Atom.text s).source = literalOf s ++ ".to_string()" := rfl
  rw [text, readElement, if_pos rfl, reads_owned s rest stops, Option.map_some]

theorem readElement_switch (source : Source) (b : Bool) :
    Reads (readElement source "bool") (Atom.bool b).source.toList (.switch b) := fun rest stops =>
  reads_switch b rest stops

theorem readElement_signed (source : Source) {i : Int} (least : -0x8000000000000000 ≤ i)
    (most : i < 0x8000000000000000) :
    Reads (readElement source "i64") (Atom.integer i).source.toList (.number i) := fun rest stops =>
  reads_number least most rest stops

theorem readElement_unsigned (source : Source) {i : Int} (least : 0 ≤ i)
    (most : i < 0x10000000000000000) :
    Reads (readElement source "u64") (Atom.integer i).source.toList (.number i) := fun rest stops =>
  reads_number least most rest stops

theorem readElement_variant {source : Source} {type ident value : String}
    (other : type ∉ ["String", "bool", "i64", "u64"])
    (read : Reads (readVariant source type) (type ++ "::" ++ ident).toList (.text value)) :
    Reads (readElement source type) (Atom.variant type ident).source.toList (.text value) :=
  fun rest stops => by
    simp only [List.mem_cons, List.not_mem_nil, or_false, not_or] at other
    obtain ⟨text, switch, signed, unsigned⟩ := other
    rw [readElement, if_neg text, if_neg switch, if_neg signed, if_neg unsigned]
    exact read rest stops

theorem reads_entry {source : Source} {type : String} {atom : Atom} {value : Meaning}
    (read : Reads (readElement source type) atom.source.toList value) (key : String) :
    Reads (readEntry source type) (entrySource (key, atom)).toList (key, value) := by
  intro rest _
  have owned := reads_owned key (", ".toList ++ (atom.source.toList ++ (")".toList ++ rest)))
    (by intro c hc; cases hc; decide)
  have inner := read (")".toList ++ rest) (by intro c hc; cases hc; decide)
  have text : (entrySource (key, atom)).toList ++ rest = "(".toList ++
      ((Text.literalOf key ++ ".to_string()").toList ++
        (", ".toList ++ (atom.source.toList ++ (")".toList ++ rest)))) := by
    have together : ".to_string(), " = ".to_string()" ++ ", " := rfl
    simp only [entrySource, together, String.toList_append, List.append_assoc]
  rw [text, readEntry, behind?_append]
  simp only [bind, Option.bind_some, owned, inner, behind?_append]

theorem readWithin_text {α : Type} {opening closing : String}
    {inner : List Char → Option (α × List Char)} {text : List Char} {value : α}
    (read : inner (text ++ closing.toList) = some (value, closing.toList)) :
    readWithin opening closing inner (opening.toList ++ (text ++ closing.toList)) = some value := by
  rw [readWithin, behind?_append]
  simp only [bind, Option.bind_some, read, if_pos]

@[simp] theorem argument?_append (opening type : String) :
    argument? opening (opening ++ type ++ ">") = some type := by
  have close : List.isSuffixOf? ['>'] (type.toList ++ ">".toList) = some type.toList :=
    List.isSuffixOf?_eq_some_iff_append_eq.2 rfl
  rw [argument?, String.toList_append, String.toList_append, List.append_assoc, behind?_append]
  simp only [bind, Option.bind_some, close, String.ofList_toList]

theorem argument?_of_clash (opening other : String) (h : clash opening.toList other.toList = true)
    (type : String) : argument? opening (other ++ type ++ ">") = none := by
  rw [argument?, String.toList_append, String.toList_append, List.append_assoc, behind?_of_clash h]
  rfl

theorem readStored_scalar (source : Source) (type expression : String) :
    readStored source ("Option<" ++ type ++ ">") expression =
      readOptional source type expression.toList := by
  simp only [readStored, argument?_append]

theorem readStored_list (source : Source) (type expression : String) :
    readStored source ("Vec<" ++ type ++ ">") expression =
      readItems source type expression.toList := by
  have other := argument?_of_clash "Option<" "Vec<" (by decide) type
  simp only [readStored, other, argument?_append]

theorem readStored_map (source : Source) (type expression : String) :
    readStored source ("BTreeMap<String, " ++ type ++ ">") expression =
      readEntries source type expression.toList := by
  have option := argument?_of_clash "Option<" "BTreeMap<String, " (by decide) type
  have list := argument?_of_clash "Vec<" "BTreeMap<String, " (by decide) type
  simp only [readStored, option, list, argument?_append, Option.bind_some]

section Expressions

variable {source : Source} {type : String}

theorem readOptional_present {atom : Atom} {value : Meaning}
    (read : Reads (readElement source type) atom.source.toList value) :
    readOptional source type (Expression.present atom).source.toList = some (.present value) := by
  have text : (Expression.present atom).source.toList =
      "Some(".toList ++ (atom.source.toList ++ ")".toList) := by
    change ("Some(" ++ atom.source ++ ")").toList = _
    simp only [String.toList_append, List.append_assoc]
  have inner := read ")".toList (by intro c hc; cases hc; decide)
  rw [text, readOptional, if_neg (@ne_of_clash "Some(" _ (by decide) _),
    readWithin_text inner, Option.map_some]

theorem readWithin_series {α : Type} {one : List Char → Option (α × List Char)}
    {texts : List String}
    {values : List α} (read : List.Forall₂ (Reads one) (texts.map String.toList) values)
    (nonempty : texts ≠ []) (opening closing : String) (stops : Stops closing.toList)
    (last : behind? ", " closing.toList = none) (some_ : closing ≠ "") :
    let s := (opening ++ ", ".intercalate texts ++ closing).toList
    readWithin opening closing (readSeries one s.length) s = some values := by
  intro s
  have text : s = opening.toList ++ (", ".toList.intercalate (texts.map String.toList) ++
      closing.toList) := by
    simp only [s, String.toList_append, String.toList_intercalate, List.append_assoc]
  have enough : (texts.map String.toList).length ≤ s.length := by
    have series := length_le_intercalate (texts.map String.toList)
    have more : 0 < closing.toList.length := List.length_pos_of_ne_nil (by simpa using some_)
    rw [text, List.length_append, List.length_append]
    omega
  have inner := readSeries_intercalate read (by simpa using nonempty) enough stops last
  generalize s.length = fuel at inner
  rw [text]
  exact readWithin_text inner

theorem readItems_items {atoms : List Atom} {values : List Meaning}
    (read : List.Forall₂ (fun atom value => Reads
      (readElement source type) atom.source.toList value)
      atoms values) (nonempty : atoms ≠ []) :
    readItems source type (Expression.items atoms).source.toList = some (.items values) := by
  have texts : List.Forall₂ (Reads (readElement source type))
      ((atoms.map Atom.source).map String.toList) values := by
    rw [List.map_map]
    exact List.forall₂_map_left_iff.2 read
  have other : (Expression.items atoms).source.toList ≠ "Vec::new()".toList := by
    change ("vec![" ++ ", ".intercalate (atoms.map Atom.source) ++ "]").toList ≠ _
    rw [String.append_assoc, String.toList_append]
    exact ne_of_clash (by decide) _
  have series := readWithin_series texts (by simpa using nonempty) "vec![" "]"
    (by intro c hc; cases hc; decide) (by decide) (by decide)
  rw [readItems, if_neg other]
  exact congrArg (Option.map Content.items) series

theorem readEntries_entries {atoms : List (String × Atom)} {values : List (String × Meaning)}
    (read : List.Forall₂ (fun entry value => entry.1 = value.1 ∧
      Reads (readElement source type) entry.2.source.toList value.2) atoms values)
    (nonempty : atoms ≠ []) :
    readEntries source type (Expression.entries atoms).source.toList = some (.entries values) := by
  have texts : List.Forall₂ (Reads (readEntry source type))
      ((atoms.map entrySource).map String.toList) values := by
    rw [List.map_map]
    refine List.forall₂_map_left_iff.2 (read.imp fun entry value both => ?_)
    obtain ⟨key, atom⟩ := entry
    obtain ⟨_, value⟩ := value
    obtain ⟨rfl, read⟩ := both
    exact reads_entry read key
  have other : (Expression.entries atoms).source.toList ≠ "BTreeMap::new()".toList := by
    change ("BTreeMap::from([" ++ ", ".intercalate (atoms.map entrySource) ++ "])").toList ≠ _
    rw [String.append_assoc, String.toList_append]
    exact ne_of_clash (by decide) _
  have series := readWithin_series texts (by simpa using nonempty) "BTreeMap::from([" "])"
    (by intro c hc; cases hc; decide) (by decide) (by decide)
  rw [readEntries, if_neg other]
  exact congrArg (Option.map Content.entries) series

end Expressions

end Toolwright.Wrapper
