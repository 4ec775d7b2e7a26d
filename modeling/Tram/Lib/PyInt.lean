import Mathlib.Algebra.Ring.Nat
import Mathlib.Data.List.Basic

/-! # Integer literals as Python's `int` reads them

Surrounding white space, one sign, decimal digits of any script, single underscores between
digits, at most 4300 digits. -/

namespace PyInt

open List

/-- The code points of the digit zero of every script (Unicode 15.1). -/
def zeros : List Nat :=
  [0x30, 0x660, 0x6f0, 0x7c0, 0x966, 0x9e6, 0xa66, 0xae6, 0xb66, 0xbe6, 0xc66, 0xce6, 0xd66, 0xde6,
   0xe50, 0xed0, 0xf20, 0x1040, 0x1090, 0x17e0, 0x1810, 0x1946, 0x19d0, 0x1a80, 0x1a90, 0x1b50,
   0x1bb0, 0x1c40, 0x1c50, 0xa620, 0xa8d0, 0xa900, 0xa9d0, 0xa9f0, 0xaa50, 0xabf0, 0xff10, 0x104a0,
   0x10d30, 0x11066, 0x110f0, 0x11136, 0x111d0, 0x112f0, 0x11450, 0x114d0, 0x11650, 0x116c0, 0x11730,
   0x118e0, 0x11950, 0x11c50, 0x11d50, 0x11da0, 0x11f50, 0x16a60, 0x16ac0, 0x16b50, 0x1d7ce, 0x1d7d8,
   0x1d7e2, 0x1d7ec, 0x1d7f6, 0x1e140, 0x1e2f0, 0x1e4f0, 0x1e950, 0x1fbf0]

def digitValue (c : Char) : Option Nat :=
  zeros.findSome? fun z => if z ≤ c.toNat ∧ c.toNat < z + 10 then some (c.toNat - z) else none

def isSpace (c : Char) : Bool :=
  (0x9 ≤ c.toNat && c.toNat ≤ 0xd) || (0x2000 ≤ c.toNat && c.toNat ≤ 0x200a) ||
    [0x20, 0x85, 0xa0, 0x1680, 0x2028, 0x2029, 0x202f, 0x205f, 0x3000].contains c.toNat

/-- Digits with single underscores between them. -/
def digits : List Char → Option (List Nat)
  | [] => none
  | [c] => (digitValue c).map ([·])
  | c :: '_' :: rest => do return (← digitValue c) :: (← digits rest)
  | c :: rest => do return (← digitValue c) :: (← digits rest)

def magnitude (cs : List Char) : Option Int :=
  match digits cs with
  | some ds => if ds.length ≤ 4300 then some (ds.foldl (fun n d => 10 * n + d) 0 : Nat) else none
  | none => none

/-- `int(s)`; `none` is `ValueError`. -/
def parse (s : String) : Option Int :=
  match ((s.toList.dropWhile isSpace).reverse.dropWhile isSpace).reverse with
  | '-' :: ds => (magnitude ds).map (- ·)
  | '+' :: ds => magnitude ds
  | ds => magnitude ds

/-! ## Reading back what was written -/

variable {c : Char}

theorem toNat_of_isDigit (h : c.isDigit = true) : 48 ≤ c.toNat ∧ c.toNat ≤ 57 :=
  Char.isDigit_iff_toNat.mp h

theorem digitValue_of_isDigit (h : c.isDigit = true) : digitValue c = some (c.toNat - 48) := by
  obtain ⟨hlo, hhi⟩ := toNat_of_isDigit h
  unfold digitValue zeros
  rw [findSome?_cons, if_pos (by omega)]

variable {cs : List Char}

theorem digits_of_isDigit (hne : cs ≠ []) (h : ∀ c ∈ cs, c.isDigit = true) :
    digits cs = some (cs.map fun c => c.toNat - 48) := by
  induction cs with
  | nil => exact absurd rfl hne
  | cons c cs ih =>
    have hc := digitValue_of_isDigit (h c mem_cons_self)
    cases cs with
    | nil => simp only [digits, hc, Option.map_some, map_cons, map_nil]
    | cons d rest =>
      have htail := ih (cons_ne_nil d rest) fun e he => h e (mem_cons_of_mem c he)
      have hd : d ≠ '_' := by
        rintro rfl
        exact absurd (h '_' (by simp)) (by decide)
      rw [digits.eq_4 c (d :: rest) (by simp) (by simpa using fun hd' => absurd hd' hd), hc, htail]
      rfl

theorem isSpace_of_isDigit (h : c.isDigit = true) : isSpace c = false := by
  obtain ⟨hlo, hhi⟩ := toNat_of_isDigit h
  have hmem : [0x20, 0x85, 0xa0, 0x1680, 0x2028, 0x2029, 0x202f, 0x205f, 0x3000].contains c.toNat
      = false := by
    simp only [contains_eq_mem, mem_cons, not_mem_nil, or_false, decide_eq_false_iff_not]
    omega
  simp only [isSpace, hmem, Bool.or_false, Bool.or_eq_false_iff, Bool.and_eq_false_iff,
    decide_eq_false_iff_not]
  omega

theorem dropWhile_eq_self {p : Char → Bool} (h : ∀ c ∈ cs, p c = false) : cs.dropWhile p = cs := by
  cases cs with
  | nil => rfl
  | cons c cs => rw [dropWhile_cons_of_neg (by simp [h c mem_cons_self])]

theorem magnitude_toDigits (n : Nat) :
    magnitude (Nat.toDigits 10 n) =
      if (Nat.toDigits 10 n).length ≤ 4300 then some (n : Int) else none := by
  have hdigits : digits (Nat.toDigits 10 n) = _ := digits_of_isDigit Nat.toDigits_ne_nil
    fun c hc => Nat.isDigit_of_mem_toDigits (by decide) (by decide) hc
  have hvalue : ((Nat.toDigits 10 n).map fun c => c.toNat - 48).foldl (fun n d => 10 * n + d) 0 = n := by
    rw [foldl_map]
    exact Nat.ofDigitChars_toDigits (b := 10) (n := n) (by decide) (by decide)
  unfold magnitude
  rw [hdigits]
  simp only [length_map, hvalue]

theorem trim_eq_self (h : ∀ c ∈ cs, isSpace c = false) :
    ((cs.dropWhile isSpace).reverse.dropWhile isSpace).reverse = cs := by
  rw [dropWhile_eq_self h, dropWhile_eq_self fun c hc => h c (mem_reverse.mp hc),
    reverse_reverse]

/-- The decimal text of an integer is read back as that integer, if it is short enough to be
read. -/
theorem parse_repr_eq (n : Int) :
    parse n.repr = if (Nat.toDigits 10 n.natAbs).length ≤ 4300 then some n else none := by
  have hdigit : ∀ (m : Nat), ∀ c ∈ Nat.toDigits 10 m, c.isDigit = true :=
    fun m c hc => Nat.isDigit_of_mem_toDigits (by decide) (by decide) hc
  cases n with
  | ofNat m =>
    have htext : (Int.ofNat m).repr.toList = Nat.toDigits 10 m := by simp [Int.repr]
    unfold parse
    rw [htext, trim_eq_self fun c hc => isSpace_of_isDigit (hdigit m c hc)]
    split
    · rename_i ds heq
      exact absurd (hdigit m '-' (heq ▸ mem_cons_self)) (by decide)
    · rename_i ds heq
      exact absurd (hdigit m '+' (heq ▸ mem_cons_self)) (by decide)
    · exact magnitude_toDigits m
  | negSucc m =>
    have htext : (Int.negSucc m).repr.toList = '-' :: Nat.toDigits 10 (m + 1) := by simp [Int.repr]
    have hspace : ∀ c ∈ '-' :: Nat.toDigits 10 (m + 1), isSpace c = false := by
      exact forall_mem_cons.mpr
        ⟨by decide, fun c hc => isSpace_of_isDigit (hdigit (m + 1) c hc)⟩
    unfold parse
    rw [htext, trim_eq_self hspace]
    simp only [magnitude_toDigits, Int.natAbs_negSucc, Nat.succ_eq_add_one]
    split_ifs <;> rfl

theorem parse_repr_of_lt {n : Int} (h : n.natAbs < 10 ^ 4300) : parse n.repr = some n := by
  rw [parse_repr_eq, if_pos ((Nat.length_toDigits_le_iff (by decide) (by decide)).mpr h)]

theorem parse_repr (n : Int) : parse n.repr = some n ∨ parse n.repr = none := by
  rw [parse_repr_eq]
  split_ifs
  · exact .inl rfl
  · exact .inr rfl

/-- `str(n)`; `none` is the `ValueError` for an integer of more than 4300 digits. -/
def str (n : Int) : Option String :=
  if (Nat.toDigits 10 n.natAbs).length ≤ 4300 then some n.repr else none

theorem parse_str {n : Int} {text : String} (h : str n = some text) : parse text = some n := by
  unfold str at h
  split_ifs at h with hlen
  cases h
  rw [parse_repr_eq, if_pos hlen]

example : parse " -1_0 " = some (-10) := by decide +kernel

end PyInt
