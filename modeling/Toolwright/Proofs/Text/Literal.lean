import Mathlib.Data.Nat.Digits.Lemmas
import Toolwright.Proofs.Json.Scalar
import Toolwright.Text.Literal

/-!
Reading string literals back. The reader knows the escapes of string literals and nothing about what
writes them. It reads the literal of a text as that text, whatever stands behind the literal, so a
literal ends at its own last quote and different texts have different literals.
-/

namespace Toolwright.Text

open Json (hexValue?_hexDigit)
open Json.Reader (hexValue?)

inductive LiteralState where
  | plain
  /-- Behind a backslash. -/
  | escaped
  /-- Behind the letter that numbers are announced by. -/
  | announced
  /-- Behind an opening brace and some digits, given with their value. -/
  | number (digits value : Nat)

def shortEscape? : Char → Option Char
  | '"' => some '"'
  | '\\' => some '\\'
  | 'n' => some '\n'
  | 'r' => some '\r'
  | 't' => some '\t'
  | '0' => some '\x00'
  | _ => none

def andThen (c : Char) (read : Option (List Char × List Char)) : Option (List Char × List Char) :=
  read.map fun (text, rest) => (c :: text, rest)

/-- The text up to the closing quote, and what stands behind it. -/
def readQuoted : LiteralState → List Char → Option (List Char × List Char)
  | _, [] => none
  | .plain, c :: rest =>
    if c = '"' then some ([], rest)
    else if c = '\\' then readQuoted .escaped rest
    else andThen c (readQuoted .plain rest)
  | .escaped, c :: rest =>
    if c = 'u' then readQuoted .announced rest
    else (shortEscape? c).bind fun d => andThen d (readQuoted .plain rest)
  | .announced, c :: rest => if c = '\x7b' then readQuoted (.number 0 0) rest else none
  | .number digits value, c :: rest =>
    if c = '\x7d' then
      if 0 < digits ∧ digits ≤ 6 ∧ value.isValidChar then
        andThen (Char.ofNat value) (readQuoted .plain rest)
      else none
    else (hexValue? c).bind fun d => readQuoted (.number (digits + 1) (value * 16 + d)) rest

/-- The text that a literal stands for, and what stands behind the literal. -/
def readLiteral : List Char → Option (List Char × List Char)
  | '"' :: rest => readQuoted .plain rest
  | _ => none

theorem hexFrom_eq (fuel n : Nat) (acc : List Char) (h : n < fuel) :
    ∃ ds : List Nat, ds ≠ [] ∧ (∀ d ∈ ds, d < 16) ∧ hexFrom fuel n acc = ds.map hexDigit ++ acc ∧
      ds.foldl (fun value d => value * 16 + d) 0 = n ∧ ∀ k, 0 < k → n < 16 ^ k → ds.length ≤ k := by
  induction fuel generalizing n acc with
  | zero => omega
  | succ fuel ih =>
    rw [hexFrom]
    split
    · rename_i small
      exact ⟨[n], by simp, by simpa using small, rfl, by simp, fun k hk _ => hk⟩
    · rename_i large
      obtain ⟨ds, nonempty, digits, text, value, short⟩ :=
        ih (n / 16) (hexDigit (n % 16) :: acc) (by omega)
      refine ⟨ds ++ [n % 16], by simp, ?_, ?_, ?_, fun k hk less => ?_⟩
      · rw [List.forall_mem_append]
        exact ⟨digits, List.forall_mem_singleton.2 (Nat.mod_lt _ (by omega))⟩
      · simp [text]
      · rw [List.foldl_append, value, List.foldl_cons, List.foldl_nil]
        omega
      · obtain ⟨k, rfl⟩ : ∃ j, k = j + 1 := ⟨k - 1, by omega⟩
        have positive : 0 < k := by
          rcases Nat.eq_zero_or_pos k with rfl | positive
          · omega
          · exact positive
        have fewer := short k positive (by rw [Nat.pow_succ] at less; omega)
        rw [List.length_append, List.length_singleton]
        omega

theorem hexDigit_ne_brace {d : Nat} (h : d < 16) : hexDigit d ≠ '\x7d' := by
  revert d
  decide

theorem readQuoted_digits (ds : List Nat) (h : ∀ d ∈ ds, d < 16) (digits value : Nat)
    (rest : List Char) :
    readQuoted (.number digits value) (ds.map hexDigit ++ rest) =
      readQuoted (.number (digits + ds.length) (ds.foldl (fun value d => value * 16 + d) value))
        rest := by
  induction ds generalizing digits value with
  | nil => rfl
  | cons d ds ih =>
    obtain ⟨small, others⟩ := List.forall_mem_cons.1 h
    rw [List.map_cons, List.cons_append, readQuoted, if_neg (hexDigit_ne_brace small),
      hexValue?_hexDigit small, Option.bind_some, ih others, List.length_cons, List.foldl_cons,
      Nat.add_right_comm, Nat.add_assoc]

theorem readQuoted_escape (c : Char) (rest : List Char) :
    readQuoted .plain (escape c ++ rest) = andThen c (readQuoted .plain rest) := by
  unfold escape
  iterate 6
    split
    · rename_i special
      subst special
      rfl
  split
  · rename_i quote backslash _ _ _ _ _
    rw [List.singleton_append, readQuoted, if_neg quote, if_neg backslash]
  · obtain ⟨ds, nonempty, digits, text, value, short⟩ :=
      hexFrom_eq (c.toNat + 1) c.toNat [] (by omega)
    have valid : c.toNat.isValidChar := c.valid
    -- the reader takes six digits at most, which is enough for every character
    have few : ds.length ≤ 6 := by
      unfold Nat.isValidChar at valid
      exact short 6 (by omega) (by omega)
    have one : 0 < ds.length := List.length_pos_of_ne_nil nonempty
    have read := readQuoted_digits ds digits 0 0 ('\x7d' :: rest)
    rw [value, Nat.zero_add] at read
    have whole : ('\\' :: 'u' :: '\x7b' :: (hex c.toNat ++ ['\x7d'])) ++ rest =
        '\\' :: 'u' :: '\x7b' :: (ds.map hexDigit ++ '\x7d' :: rest) := by
      simp [hex, text]
    rw [whole]
    change readQuoted (.number 0 0) (ds.map hexDigit ++ '\x7d' :: rest) = _
    rw [read, readQuoted, if_pos rfl, if_pos ⟨one, few, valid⟩, Char.ofNat_toNat]

theorem readLiteral_literal (s rest : List Char) :
    readLiteral (literal s ++ rest) = some (s, rest) := by
  have body : readQuoted .plain (s.flatMap escape ++ '"' :: rest) = some (s, rest) := by
    induction s with
    | nil => rfl
    | cons c s ih => rw [List.flatMap_cons, List.append_assoc, readQuoted_escape, ih]; rfl
  simpa [literal, readLiteral] using body

def escapeChars : List Char :=
  ['\\', '"', 'n', 'r', 't', '0', 'u', '\x7b', '\x7d'] ++ (List.range 16).map hexDigit

theorem hexDigit_mem_escapeChars {d : Nat} (h : d < 16) : hexDigit d ∈ escapeChars :=
  List.mem_append_right _ (List.mem_map_of_mem (List.mem_range.2 h))

theorem mem_escape {c d : Char} (h : d ∈ escape c) :
    d = c ∧ isPrintable c = true ∨ d ∈ escapeChars := by
  unfold escape at h
  iterate 6
    split at h
    · right
      refine List.mem_append_left _ ?_
      rcases List.mem_pair.1 h with rfl | rfl <;> simp
  split at h
  · rename_i printable
    exact .inl ⟨List.mem_singleton.1 h, printable⟩
  · obtain ⟨ds, _, digits, text, _⟩ := hexFrom_eq (c.toNat + 1) c.toNat [] (by omega)
    simp only [hex, text, List.append_nil, List.mem_cons, List.mem_append, List.mem_map,
      List.not_mem_nil, or_false] at h
    right
    rcases h with rfl | rfl | rfl | ⟨n, hn, rfl⟩ | rfl
    · exact List.mem_append_left _ (by simp)
    · exact List.mem_append_left _ (by simp)
    · exact List.mem_append_left _ (by simp)
    · exact hexDigit_mem_escapeChars (digits n hn)
    · exact List.mem_append_left _ (by simp)

theorem feed_notMem_literalOf (s : String) : '\n' ∉ (literalOf s).toList := by
  rw [literalOf, String.toList_ofList, literal]
  have plain : isPrintable '\n' = false := by decide
  have other : '\n' ∉ escapeChars := by decide
  have inside : '\n' ∉ s.toList.flatMap escape := fun feed => by
    obtain ⟨c, _, hc⟩ := List.mem_flatMap.1 feed
    rcases mem_escape hc with ⟨rfl, printable⟩ | escaped
    · rw [plain] at printable
      cases printable
    · exact other escaped
  simp [inside]

end Toolwright.Text
