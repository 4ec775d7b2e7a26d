import Mathlib.Data.List.Basic

/-! # Lines of a byte string

`bytes.splitlines(keepends=True)`: a line ends with a line feed, a carriage return, or both in this
order, and keeps its end. -/

namespace Lines

open List

def lf : UInt8 := 10

def cr : UInt8 := 13

/-- `data.splitlines(keepends=True)` -/
def splitLines : List UInt8 → List (List UInt8)
  | [] => []
  | c :: rest =>
    if c = lf ∨ c = cr ∧ rest.head? ≠ some lf then [c] :: splitLines rest
    else
      match splitLines rest with
      | [] => [[c]]
      | line :: lines => (c :: line) :: lines

inductive Newline where
  | lf | crlf | cr
  deriving DecidableEq, Repr

def Newline.bytes : Newline → List UInt8
  | .lf => [Lines.lf]
  | .crlf => [Lines.cr, Lines.lf]
  | .cr => [Lines.cr]

/-- A text without line breaks. -/
def Unbroken (text : List UInt8) : Prop := ∀ c ∈ text, c ≠ lf ∧ c ≠ cr

variable {rest : List UInt8}

theorem splitLines_newline (nl : Newline) (h : nl = .cr → rest.head? ≠ some lf) :
    splitLines (nl.bytes ++ rest) = nl.bytes :: splitLines rest := by
  cases nl with
  | lf => simp [Newline.bytes, splitLines]
  | crlf => simp [Newline.bytes, splitLines, lf, cr]
  | cr => simp [Newline.bytes, splitLines, h rfl]

theorem splitLines_line {text : List UInt8} (htext : Unbroken text) (nl : Newline)
    (h : nl = .cr → rest.head? ≠ some lf) :
    splitLines (text ++ nl.bytes ++ rest) = (text ++ nl.bytes) :: splitLines rest := by
  induction text with
  | nil => exact splitLines_newline nl h
  | cons c text ih =>
    have hc := htext c mem_cons_self
    have hrec := ih fun d hd => htext d (mem_cons_of_mem _ hd)
    rw [cons_append, cons_append, splitLines, if_neg (by simp [hc.1, hc.2]), hrec]

/-- The lines with their ends, put together. -/
def join (nl : Newline) (lines : List (List UInt8)) : List UInt8 := lines.flatMap (· ++ nl.bytes)

variable {lines : List (List UInt8)}

theorem head_join_ne_lf (h : ∀ line ∈ lines, Unbroken line) : (join .cr lines).head? ≠ some lf := by
  cases lines with
  | nil => simp [join]
  | cons line lines =>
    cases line with
    | nil => simp [join, Newline.bytes, lf, cr]
    | cons c line =>
      have hc := (h (c :: line) mem_cons_self c mem_cons_self).1
      simpa [join] using hc

theorem splitLines_join (nl : Newline) (h : ∀ line ∈ lines, Unbroken line) :
    splitLines (join nl lines) = lines.map (· ++ nl.bytes) := by
  induction lines with
  | nil => rfl
  | cons line lines ih =>
    have htail : ∀ l ∈ lines, Unbroken l := fun l hl => h l (mem_cons_of_mem _ hl)
    have hjoin : join nl (line :: lines) = line ++ nl.bytes ++ join nl lines := by simp [join]
    rw [hjoin, splitLines_line (h line mem_cons_self) nl, ih htail, map_cons]
    rintro rfl
    exact head_join_ne_lf htail

end Lines
