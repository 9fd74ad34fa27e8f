import Toolwright.Proofs.Selector.Grammar

/-!
What the CSS of a location path is made of. Every part of it is cut into the tokens that it was put
together from, whatever stands behind it, and brackets and functions hold what stands between them.
-/

namespace Toolwright.Css

open XPath (isName isNameStart isNameRest)

structure Leads (s : List Char) (ts : List Token) (more : List Char) : Prop where
  shorter : more.length ≤ s.length
  scan : ∀ fuel, s.length ≤ fuel →
    ∃ fuel', more.length ≤ fuel' ∧ scan fuel s = ts ++ Css.scan fuel' more

theorem Leads.refl (s : List Char) : Leads s [] s :=
  ⟨Nat.le_refl _, fun fuel enough => ⟨fuel, enough, rfl⟩⟩

theorem Leads.cons {c : Char} {rest more last : List Char} {t : Token} {ts : List Token}
    (first : firstToken c rest = (t, more)) (shorter : more.length ≤ rest.length)
    (h : Leads more ts last) : Leads (c :: rest) (t :: ts) last := by
  refine ⟨Nat.le_succ_of_le (Nat.le_trans h.shorter shorter), fun fuel enough => ?_⟩
  cases fuel with
  | zero => exact absurd enough (Nat.not_succ_le_zero _)
  | succ fuel =>
    rw [List.length_cons] at enough
    obtain ⟨fuel', enough', scanned⟩ := h.scan fuel (by omega)
    exact ⟨fuel', enough', by simp only [Css.scan, first, scanned, List.cons_append]⟩

def Reads (s : List Char) (ps : List Piece) : Prop :=
  ∃ ts : List Token, (∀ fuel, s.length ≤ fuel → scan fuel s = ts) ∧
    (∀ t ∈ ts, isComment t = false) ∧ ∀ fuel, ts.length < fuel → nestFrom fuel none ts = (ps, [])

theorem pieces_of_reads {s : List Char} {ps : List Piece} (h : Reads s ps) : pieces s = ps := by
  obtain ⟨ts, scanned, noComment, nested⟩ := h
  have kept : ts.filter (fun t => !isComment t) = ts :=
    List.filter_eq_self.2 fun t ht => by rw [noComment t ht]; rfl
  simp only [pieces, scanned _ (Nat.le_succ _), kept, nested _ (Nat.lt_succ_self _)]

theorem reads_nil : Reads [] [] := by
  refine ⟨[], fun fuel _ => ?_, by simp, fun fuel _ => ?_⟩ <;> cases fuel <;> rfl

theorem Reads.leaf {c : Char} {rest more : List Char} {t : Token} {ps : List Piece}
    (h : Reads more ps) (first : firstToken c rest = (t, more))
    (shorter : more.length ≤ rest.length) (plain : isComment t = false)
    (single : t.closer? = none) : Reads (c :: rest) (.leaf t :: ps) := by
  obtain ⟨ts, scanned, noComment, nested⟩ := h
  refine ⟨t :: ts, fun fuel enough => ?_, ?_, fun fuel enough => ?_⟩
  · cases fuel with
    | zero => exact absurd enough (Nat.not_succ_le_zero _)
    | succ fuel =>
      rw [List.length_cons] at enough
      simp only [scan, first, scanned fuel (by omega)]
  · exact List.forall_mem_cons.2 ⟨plain, noComment⟩
  · cases fuel with
    | zero => exact absurd enough (Nat.not_lt_zero _)
    | succ fuel =>
      rw [List.length_cons] at enough
      simp [nestFrom, single, nested fuel (by omega)]

theorem nestFrom_append {closer : Token} {content more : List Token}
    (plain : ∀ t ∈ content, t.closer? = none ∧ t.isCloser closer = false) (fuel : Nat) :
    nestFrom (fuel + content.length) (some closer) (content ++ more) =
      (content.map .leaf ++ (nestFrom fuel (some closer) more).1,
        (nestFrom fuel (some closer) more).2) := by
  induction content with
  | nil => rfl
  | cons t content ih =>
    obtain ⟨⟨single, other⟩, others⟩ := List.forall_mem_cons.1 plain
    rw [List.length_cons, ← Nat.add_assoc]
    simp [nestFrom, single, other, ih others]

theorem nestFrom_leaves {closer close : Token} {content after : List Token}
    (closes : close.isCloser closer = true)
    (plain : ∀ t ∈ content, t.closer? = none ∧ t.isCloser closer = false) (fuel : Nat)
    (enough : content.length < fuel) :
    nestFrom fuel (some closer) (content ++ close :: after) = (content.map .leaf, after) := by
  obtain ⟨f, rfl⟩ : ∃ f, fuel = (f + 1) + content.length :=
    ⟨fuel - content.length - 1, by omega⟩
  rw [nestFrom_append plain]
  simp [nestFrom, closes]

theorem Reads.block {c : Char} {rest inner more : List Char} {t closer close : Token}
    {content : List Token} {ps : List Piece} (h : Reads more ps)
    (first : firstToken c rest = (t, inner)) (shorter : inner.length ≤ rest.length)
    (open_ : t.closer? = some closer) (notComment : isComment t = false)
    (leads : Leads inner (content ++ [close]) more) (closes : close.isCloser closer = true)
    (noComment : ∀ u ∈ close :: content, isComment u = false)
    (plain : ∀ u ∈ content, u.closer? = none ∧ u.isCloser closer = false) :
    Reads (c :: rest) (.block t (content.map .leaf) :: ps) := by
  obtain ⟨ts, scanned, noComment', nested⟩ := h
  refine ⟨t :: (content ++ close :: ts), fun fuel enough => ?_, ?_, fun fuel enough => ?_⟩
  · cases fuel with
    | zero => exact absurd enough (Nat.not_succ_le_zero _)
    | succ fuel =>
      rw [List.length_cons] at enough
      obtain ⟨fuel', enough', scanned'⟩ := leads.scan fuel (by omega)
      simp [scan, first, scanned', scanned fuel' enough']
  · obtain ⟨hc, hcontent⟩ := List.forall_mem_cons.1 noComment
    intro u hu
    rcases List.mem_cons.1 hu with rfl | hu
    · exact notComment
    · rcases List.mem_append.1 hu with hu | hu
      · exact hcontent u hu
      · rcases List.mem_cons.1 hu with rfl | hu
        · exact hc
        · exact noComment' u hu
  · cases fuel with
    | zero => exact absurd enough (Nat.not_lt_zero _)
    | succ fuel =>
      simp only [List.length_cons, List.length_append] at enough
      simp [nestFrom, open_, nestFrom_leaves closes plain fuel (by omega),
        nested fuel (by omega)]

theorem ne_of_isNameStart {c d : Char} (h : isNameStart c = true) (hd : isNameStart d = false) :
    c ≠ d := by
  rintro rfl
  cases h.symm.trans hd

theorem ne_of_isNameRest {c d : Char} (h : isNameRest c = true) (hd : isNameRest d = false) :
    c ≠ d := by
  rintro rfl
  cases h.symm.trans hd

theorem not_isDigit_of_isNameStart {c : Char} (h : isNameStart c = true) : c.isDigit = false := by
  simp only [isNameStart, Bool.or_eq_true, beq_iff_eq] at h
  rcases h with letter | rfl
  · exact Text.isDigit_of_isAlpha letter
  · decide

theorem not_isBlank_of_isNameStart {c : Char} (h : isNameStart c = true) : isBlank c = false := by
  have ne {d : Char} (hd : isNameStart d = false) : c ≠ d := ne_of_isNameStart h hd
  simp [isBlank, isNewline, ne (d := ' ') rfl, ne (d := '\t') rfl, ne (d := '\n') rfl,
    ne (d := '\r') rfl, ne (d := '\x0c') rfl]

theorem firstToken_of_isNameStart {c : Char} (h : isNameStart c = true) (rest : List Char) :
    firstToken c rest = identLikeToken (c :: rest) := by
  have ne {d : Char} (hd : isNameStart d = false) : c ≠ d := ne_of_isNameStart h hd
  have start : startsName c = true := by
    simp only [isNameStart, Bool.or_eq_true] at h
    rcases h with h | h <;> simp [startsName, h]
  have begins : startsIdent (c :: rest) = true := by
    unfold startsIdent
    split
    · next same =>
      cases same
      exact absurd h (by decide)
    · simp [start]
  have digit : startsNumber (c :: rest) = false := by
    unfold startsNumber
    split
    · next same =>
      cases same
      exact absurd h (by decide)
    · next same =>
      cases same
      exact not_isDigit_of_isNameStart h
    · rfl
  unfold firstToken
  simp only [not_isBlank_of_isNameStart h, digit, begins, ne (d := '"') rfl, ne (d := '\'') rfl,
    ne (d := '+') rfl, ne (d := '-') rfl, Bool.false_eq_true, if_false, or_self, false_and, if_true]
  -- no mark of its own can be the first character of a name
  split
  all_goals first | exact absurd h (by decide) | rfl

def Stops (s : List Char) : Prop :=
  ∀ c ∈ s.head?, continuesName c = false ∧ c ≠ '\\'

theorem name_append {w rest : List Char} (hw : ∀ c ∈ w, isNameRest c = true) (stop : Stops rest)
    (fuel : Nat) (enough : w.length < fuel) : name fuel (w ++ rest) = (w, rest) := by
  induction w generalizing fuel with
  | nil =>
    cases fuel with
    | zero => exact absurd enough (Nat.not_lt_zero _)
    | succ fuel =>
      cases rest with
      | nil => rfl
      | cons c rest =>
        obtain ⟨ends, backslash⟩ := stop c rfl
        simp [name, ends, backslash]
  | cons c w ih =>
    obtain ⟨first, more⟩ := List.forall_mem_cons.1 hw
    have goesOn : continuesName c = true := by
      simp only [isNameRest, Char.isAlphanum, Bool.or_eq_true] at first
      simp only [continuesName, startsName, Bool.or_eq_true]
      tauto
    cases fuel with
    | zero => exact absurd enough (Nat.not_lt_zero _)
    | succ fuel =>
      rw [List.length_cons] at enough
      simp [name, goesOn, ne_of_isNameRest first (d := '\\') rfl,
        ne_of_isNameRest first (d := '\x00') rfl, ih more fuel (by omega)]

theorem nameOf_append {w rest : List Char} (hw : isName w = true) (stop : Stops rest) :
    nameOf (w ++ rest) = (String.ofList w, rest) := by
  have all := XPath.isNameRest_of_isName hw
  have enough : w.length < (w ++ rest).length + 1 := by
    rw [List.length_append]
    omega
  simp only [nameOf, name_append all stop _ enough]

theorem exists_isNameStart {w : List Char} (hw : isName w = true) :
    ∃ c more, w = c :: more ∧ isNameStart c = true := by
  cases w with
  | nil => cases hw
  | cons c more =>
    simp only [isName, Bool.and_eq_true] at hw
    exact ⟨c, more, rfl, hw.1⟩

theorem firstToken_ident {c : Char} {more rest : List Char} (hw : isName (c :: more) = true)
    (stop : Stops rest) (plain : rest.head? ≠ some '(') :
    firstToken c (more ++ rest) = (.ident (String.ofList (c :: more)), rest) := by
  obtain ⟨_, _, same, start⟩ := exists_isNameStart hw
  cases same
  rw [firstToken_of_isNameStart start, ← List.cons_append, identLikeToken, nameOf_append hw stop]
  dsimp only
  split
  · exact absurd rfl plain
  · rfl

theorem firstToken_function {word : String} {c : Char} {more : List Char} (rest : List Char)
    (letters : word.toList = c :: more) (hw : isName word.toList = true)
    (other : word.toList.map Char.toLower ≠ "url".toList) :
    firstToken c (more ++ '(' :: rest) = (.function word, rest) := by
  obtain ⟨_, _, same, start⟩ := exists_isNameStart hw
  rw [letters] at same
  cases same
  have stop : Stops ('(' :: rest) := by
    rintro _ ⟨⟩
    decide
  have url : String.ofList (word.toList.map Char.toLower) ≠ "url" := fun same =>
    other (by rw [← same, String.toList_ofList])
  rw [firstToken_of_isNameStart start, ← List.cons_append, ← letters, identLikeToken,
    nameOf_append hw stop, String.ofList_toList]
  simp only [if_neg url]

/-- An operand without line breaks, which a string can hold up to its end. -/
def Unbroken (v : List Char) : Prop := ∀ c ∈ v, isNewline c = false

def held (v : List Char) : List Char := v.map fun c => if c = '\x00' then replacement else c

def OneLine (v : List Char) : Prop := ∀ c ∈ v, isNewline c = false ∧ c ≠ '\x00'

theorem OneLine.unbroken {v : List Char} (h : OneLine v) : Unbroken v := fun c hc => (h c hc).1

theorem OneLine.held_eq {v : List Char} (h : OneLine v) : held v = v := by
  rw [held, List.map_congr_left fun c hc => if_neg (h c hc).2, List.map_id']

def quotedBody (v : List Char) : List Char :=
  v.flatMap fun c => if c = '\\' ∨ c = '"' then ['\\', c] else [c]

theorem length_le_quotedBody (v : List Char) : v.length ≤ (quotedBody v).length := by
  induction v with
  | nil => exact Nat.le_refl _
  | cons c v ih =>
    simp only [quotedBody, List.flatMap_cons, List.length_append, List.length_cons] at ih ⊢
    split <;> simp only [List.length_cons, List.length_nil] <;> omega

theorem stringText_quotedBody {v : List Char} (h : Unbroken v) (fuel : Nat) (rest : List Char) :
    stringText '"' (fuel + v.length) (quotedBody v ++ rest) =
      (held v ++ (stringText '"' fuel rest).1, (stringText '"' fuel rest).2) := by
  induction v with
  | nil => rfl
  | cons c v ih =>
    obtain ⟨line, more⟩ := List.forall_mem_cons.1 h
    have behind := ih more
    have cut : quotedBody (c :: v) ++ rest =
        (if c = '\\' ∨ c = '"' then ['\\', c] else [c]) ++ (quotedBody v ++ rest) := by
      simp [quotedBody]
    rw [cut, List.length_cons, ← Nat.add_assoc]
    by_cases mark : c = '\\' ∨ c = '"'
    · rw [if_pos mark]
      rcases mark with rfl | rfl <;>
        simp [stringText, isNewline, escaped, hexValue?, behind, held]
    · rw [if_neg mark]
      obtain ⟨backslash, quote⟩ := not_or.1 mark
      simp [stringText, line, backslash, quote, behind, held]

theorem firstToken_quotedBody {v rest after : List Char} {closed : Bool} (h : Unbroken v)
    (behind : ∀ fuel, 0 < fuel → stringText '"' fuel rest = ([], closed, after)) :
    firstToken '"' (quotedBody v ++ rest) = (if closed then .quoted (String.ofList (held v))
      else .badString (String.ofList (held v)), after) := by
  have bound := length_le_quotedBody v
  obtain ⟨fuel, positive, enough⟩ :
      ∃ fuel, 0 < fuel ∧ (quotedBody v ++ rest).length + 1 = fuel + v.length := by
    refine ⟨(quotedBody v ++ rest).length + 1 - v.length, ?_, ?_⟩ <;>
      simp only [List.length_append] <;> omega
  have isString : firstToken '"' (quotedBody v ++ rest) =
      stringToken '"' (quotedBody v ++ rest) := rfl
  rw [isString, stringToken, enough, stringText_quotedBody h, behind fuel positive, List.append_nil]

theorem firstToken_quoted {v rest : List Char} (h : Unbroken v) :
    firstToken '"' (quotedBody v ++ '"' :: rest) = (.quoted (String.ofList (held v)), rest) := by
  have ends : ∀ fuel, 0 < fuel → stringText '"' fuel ('"' :: rest) = ([], true, rest) := by
    intro fuel positive
    obtain ⟨fuel, rfl⟩ := Nat.exists_eq_succ_of_ne_zero positive.ne'
    rfl
  exact firstToken_quotedBody h ends

theorem firstToken_broken {v rest : List Char} {c : Char} (h : Unbroken v)
    (line : isNewline c = true) : firstToken '"' (quotedBody v ++ c :: rest) =
      (.badString (String.ofList (held v)), c :: rest) := by
  have other : c ≠ '"' := by
    rintro rfl
    cases line
  have breaks : ∀ fuel, 0 < fuel → stringText '"' fuel (c :: rest) = ([], false, c :: rest) := by
    intro fuel positive
    obtain ⟨fuel, rfl⟩ := Nat.exists_eq_succ_of_ne_zero positive.ne'
    simp [stringText, other, line]
  exact firstToken_quotedBody h breaks

def positionNumeral (n : Nat) : Numeral :=
  ⟨false, 1.0 * (digitsValue (Nat.toDigits 10 n) + fractionValue []), some n⟩

theorem wholeOf_toDigits (n : Nat) : wholeOf (Nat.toDigits 10 n) = n :=
  (XPath.foldl_eq_ofDigitChars _).trans Nat.ofDigitChars_ten_toDigits

theorem cut_digits {digits : List Char} (rest : List Char)
    (all : ∀ d ∈ digits, d.isDigit = true) :
    (digits ++ ')' :: rest).takeWhile Char.isDigit = digits ∧
      (digits ++ ')' :: rest).dropWhile Char.isDigit = ')' :: rest := by
  have close : Char.isDigit ')' = false := rfl
  constructor
  · rw [List.takeWhile_append_of_pos all, List.takeWhile_cons_of_neg (by simp [close]),
      List.append_nil]
  · rw [List.dropWhile_append_of_pos all, List.dropWhile_cons_of_neg (by simp [close])]

theorem startsNumber_digit {c : Char} (h : c.isDigit = true) (s : List Char) :
    startsNumber (c :: s) = true := by
  unfold startsNumber
  split
  · next same =>
    cases same
    exact absurd h (by decide)
  · next same =>
    cases same
    exact h
  · next same => cases same

theorem signOf_digit {c : Char} (h : c.isDigit = true) (s : List Char) :
    signOf (c :: s) = (false, false, c :: s) := by
  unfold signOf
  split
  · next same =>
    cases same
    exact absurd h (by decide)
  · next same =>
    cases same
    exact absurd h (by decide)
  · rfl

theorem firstToken_position {n : Nat} {c : Char} {more rest : List Char}
    (digits : Nat.toDigits 10 n = c :: more) (fits : n < 2147483648) :
    firstToken c (more ++ ')' :: rest) = (.number (positionNumeral n), ')' :: rest) := by
  have all : ∀ d ∈ c :: more, d.isDigit = true := by
    intro d hd
    rw [← digits] at hd
    exact Nat.isDigit_of_mem_toDigits (by omega) (by omega) hd
  have digit := all c List.mem_cons_self
  have ne {d : Char} (hd : d.isDigit = false) : c ≠ d := by
    rintro rfl
    cases digit.symm.trans hd
  obtain ⟨front, behind⟩ := cut_digits rest all
  rw [List.cons_append] at front behind
  have notBlank : isBlank c = false := by
    simp [isBlank, isNewline, ne (d := ' ') rfl, ne (d := '\t') rfl, ne (d := '\n') rfl,
      ne (d := '\r') rfl, ne (d := '\x0c') rfl]
  have whole : clamp (wholeOf (c :: more)) = n := by
    rw [← digits, wholeOf_toDigits, clamp]
    omega
  have isNumber : firstToken c (more ++ ')' :: rest) =
      numericToken (c :: (more ++ ')' :: rest)) := by
    simp only [firstToken, notBlank, ne (d := '"') rfl, ne (d := '\'') rfl,
      startsNumber_digit digit, or_self, true_or, if_true, if_false, Bool.false_eq_true]
  rw [isNumber]
  simp only [numericToken, signOf_digit digit, front, behind, fraction?, exponent?]
  simp [withUnit, startsIdent, startsName, escapes, isAscii, whole, positionNumeral, digits]

end Toolwright.Css
