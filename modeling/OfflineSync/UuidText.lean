import OfflineSync.Item
import Mathlib.Algebra.Group.Int.Defs

/-!
# The text of an id

`ItemView` and `ItemDto` carry the text of an id, and `parse_id` reads it. How the `uuid` crate
writes and reads ids is a parameter, `UuidText`, of which only is used that `parse_str` reads what
`to_string` writes.
-/

namespace OfflineSync

/-- The text of an id. -/
structure UuidText where
  /-- `Uuid::to_string`. -/
  print : Uuid → String
  /-- `Uuid::parse_str`. -/
  parse : String → Option Uuid
  parse_print : ∀ id, parse (print id) = some id

theorem UuidText.print_injective (text : UuidText) : Function.Injective text.print := by
  intro id id' h
  exact Option.some.inj ((text.parse_print id).symm.trans (h ▸ text.parse_print id'))

/-! ### The text of an id

The form that `to_string` writes: 32 digits in five groups. -/

namespace Uuid

/-- The last `width` hexadecimal digits of a number. -/
def hexDigits : ℕ → ℕ → List Char
  | 0, _ => []
  | width + 1, n => hexDigits width (n / 16) ++ [Nat.digitChar (n % 16)]

/-- The value of a hexadecimal digit. -/
def hexValue (c : Char) : Option ℕ :=
  if '0' ≤ c ∧ c ≤ '9' then some (c.toNat - '0'.toNat)
  else if 'a' ≤ c ∧ c ≤ 'f' then some (c.toNat - 'a'.toNat + 10)
  else if 'A' ≤ c ∧ c ≤ 'F' then some (c.toNat - 'A'.toNat + 10)
  else none

/-- The number with the given hexadecimal digits. -/
def ofHexDigits (digits : List Char) : Option ℕ :=
  digits.foldlM (fun n c => (hexValue c).map (16 * n + ·)) 0

/-- Put hyphens between the groups. -/
def hyphenate (digits : List Char) : List Char :=
  digits.take 8 ++ '-' :: (digits.drop 8).take 4 ++ '-' :: (digits.drop 12).take 4 ++
    '-' :: (digits.drop 16).take 4 ++ '-' :: digits.drop 20

/-- `Uuid::to_string`. -/
def toString (id : Uuid) : String :=
  String.ofList (hyphenate (hexDigits 32 id.val))

/-- `Uuid::parse_str`, of the hyphenated form. -/
def parseStr (s : String) : Option Uuid :=
  let digits := s.toList.filter (· ≠ '-')
  if s.toList = hyphenate digits then
    (ofHexDigits digits).bind fun n => if h : n < 2 ^ 128 then some ⟨n, h⟩ else none
  else none

private theorem hexValue_digitChar {k : ℕ} (h : k < 16) : hexValue k.digitChar = some k := by
  revert k
  decide

private theorem ofHexDigits_hexDigits (width n : ℕ) :
    ofHexDigits (hexDigits width n) = some (n % 16 ^ width) := by
  induction width generalizing n with
  | zero => rw [pow_zero, Nat.mod_one]; rfl
  | succ width ih =>
    have ih := ih (n / 16)
    rw [ofHexDigits] at ih ⊢
    rw [hexDigits, List.foldlM_append, ih]
    have hdigit := hexValue_digitChar (Nat.mod_lt n (by decide : 16 > 0))
    simp only [List.foldlM_cons, List.foldlM_nil, hdigit, Option.map_some]
    rw [pow_succ', Nat.mod_mul, Nat.add_comm]
    rfl

private theorem digitChar_ne {k : ℕ} (h : k < 16) : k.digitChar ≠ '-' := by
  revert k
  decide

private theorem notMem_hexDigits (width n : ℕ) : '-' ∉ hexDigits width n := by
  induction width generalizing n with
  | zero => exact List.not_mem_nil
  | succ width ih =>
    rw [hexDigits, List.mem_append, List.mem_singleton, not_or]
    exact ⟨ih _, (digitChar_ne (Nat.mod_lt n (by decide))).symm⟩

private theorem filter_hyphenate {digits : List Char} (h : '-' ∉ digits) :
    (hyphenate digits).filter (· ≠ '-') = digits := by
  have hself : digits.filter (fun c => decide (c ≠ '-')) = digits :=
    List.filter_eq_self.mpr fun c hc => decide_eq_true fun heq => h (heq ▸ hc)
  have hgroups : digits.take 8 ++ (digits.drop 8).take 4 ++ (digits.drop 12).take 4 ++
      (digits.drop 16).take 4 ++ digits.drop 20 = digits := by
    simp only [← List.take_add, List.take_append_drop]
  conv_rhs => rw [← hself, ← hgroups]
  simp only [hyphenate, List.filter_append]
  rw [List.filter_cons_of_neg (by decide), List.filter_cons_of_neg (by decide),
    List.filter_cons_of_neg (by decide), List.filter_cons_of_neg (by decide)]

private theorem parseStr_toString (id : Uuid) : parseStr id.toString = some id := by
  have hfilter := filter_hyphenate (notMem_hexDigits 32 id.val)
  have hval : id.val % 16 ^ 32 = id.val := Nat.mod_eq_of_lt id.isLt
  rw [parseStr, toString, String.toList_ofList, hfilter, if_pos rfl, ofHexDigits_hexDigits, hval,
    Option.bind_some, dif_pos id.isLt]
  rfl

example : Uuid.toString 0x1f = "00000000-0000-0000-0000-00000000001f" := by rfl

end Uuid

/-- The text of an id as the crate writes it. -/
def UuidText.hyphenated : UuidText where
  print := Uuid.toString
  parse := Uuid.parseStr
  parse_print := Uuid.parseStr_toString

end OfflineSync
