import ZeroWidth.Symbol

/-!
# Instructions

The catalog: each instruction has a name for assembly text, a code of at most four symbols, and a
kind of argument. No code begins another, so a program is read off its symbols without looking
ahead. Three instructions speak to the checker alone and need the symbol `x`.
-/

namespace ZeroWidth

/-- What follows the code of an instruction. -/
inductive ArgKind where
  | nothing
  | number
  | label
  | type
deriving DecidableEq

inductive Instruction where
  | readChar
  | readInt
  | writeChar
  | writeInt
  | push
  | duplicate
  | swap
  | pop
  | copy
  | slide
  | add
  | subtract
  | multiply
  | divide
  | mod
  | label
  | call
  | jump
  | jumpZero
  | jumpNegative
  | ret
  | stop
  | store
  | retrieve
  | cast
  | assert
  | strict
deriving DecidableEq

namespace Instruction

open ZeroWidth.Symbol in
/-- The symbols an instruction is spelled with. -/
def code : Instruction → List Symbol
  | readChar     => [t, n, t, s]
  | readInt      => [t, n, t, t]
  | writeChar    => [t, n, s, s]
  | writeInt     => [t, n, s, t]
  | push         => [s, s]
  | duplicate    => [s, n, s]
  | swap         => [s, n, t]
  | pop          => [s, n, n]
  | copy         => [s, t, s]
  | slide        => [s, t, n]
  | add          => [t, s, s, s]
  | subtract     => [t, s, s, t]
  | multiply     => [t, s, s, n]
  | divide       => [t, s, t, s]
  | mod          => [t, s, t, t]
  | label        => [n, s, s]
  | call         => [n, s, t]
  | jump         => [n, s, n]
  | jumpZero     => [n, t, s]
  | jumpNegative => [n, t, t]
  | ret          => [n, t, n]
  | stop         => [n, n, n]
  | store        => [t, t, s]
  | retrieve     => [t, t, t]
  | cast         => [x, s]
  | assert       => [x, t]
  | strict       => [x, x, x]

/-- The name used in assembly text. -/
def name : Instruction → String
  | readChar     => "ReadChar"
  | readInt      => "ReadInt"
  | writeChar    => "WriteChar"
  | writeInt     => "WriteInt"
  | push         => "Push"
  | duplicate    => "Duplicate"
  | swap         => "Swap"
  | pop          => "Pop"
  | copy         => "Copy"
  | slide        => "Slide"
  | add          => "Add"
  | subtract     => "Subtract"
  | multiply     => "Multiply"
  | divide       => "Divide"
  | mod          => "Mod"
  | label        => "Label"
  | call         => "Call"
  | jump         => "Jump"
  | jumpZero     => "JumpZero"
  | jumpNegative => "JumpNegative"
  | ret          => "Return"
  | stop         => "End"
  | store        => "Store"
  | retrieve     => "Retrieve"
  | cast         => "Cast"
  | assert       => "Assert"
  | strict       => "Strict"

def argKind : Instruction → ArgKind
  | push | copy | slide                             => .number
  | label | call | jump | jumpZero | jumpNegative   => .label
  | cast | assert                                   => .type
  | _                                               => .nothing

/-- The whole catalog, in its own order. -/
def all : List Instruction :=
  [readChar, readInt, writeChar, writeInt, push, duplicate, swap, pop, copy, slide, add, subtract,
    multiply, divide, mod, label, call, jump, jumpZero, jumpNegative, ret, stop, store, retrieve,
    cast, assert, strict]

def ofCode? (code : List Symbol) : Option Instruction := all.find? fun i => i.code = code

def ofName? (name : String) : Option Instruction := all.find? fun i => i.name = name

def takesArgument (i : Instruction) : Bool := i.argKind ≠ .nothing

/-- Whether an instruction is there for the checker alone, and so is lost without `x`. -/
def isAdvisory : Instruction → Bool
  | cast | assert | strict => true
  | _                      => false

/-- The name as it stands in the middle of a sentence. -/
def verb (i : Instruction) : String := i.name.map Char.toLower

/-- The length of the longest code. -/
def maxCodeLength : Nat := 4

@[simp]
theorem ofCode?_code (i : Instruction) : ofCode? i.code = some i := by
  cases i <;> rfl

@[simp]
theorem ofName?_name (i : Instruction) : ofName? i.name = some i := by
  cases i <;> decide

theorem length_code_le (i : Instruction) : i.code.length ≤ maxCodeLength := by
  cases i <;> decide

/-- No code is the beginning of another. -/
theorem eq_of_code_isPrefix {i j : Instruction} (h : i.code <+: j.code) : i = j := by
  revert h
  cases i <;> cases j <;> decide

end Instruction

end ZeroWidth
