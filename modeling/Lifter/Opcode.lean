/-
  Lifter.Opcode — the tags of micro-operations.

  Seventy-one operations, numbered from 1 to 72; 45 is unused. A name is upper case
  and read without regard to case.
-/

import Lifter.Text.Case

namespace Lifter

inductive Opcode where
  | copy
  | load
  | store
  | branch
  | condBranch
  | branchInd
  | call
  | callInd
  | callOther
  | ret
  | intEqual
  | intNotEqual
  | intSLess
  | intSLessEqual
  | intLess
  | intLessEqual
  | intZExt
  | intSExt
  | intAdd
  | intSub
  | intCarry
  | intSCarry
  | intSBorrow
  | int2Comp
  | intNegate
  | intXor
  | intAnd
  | intOr
  | intLeft
  | intRight
  | intSRight
  | intMult
  | intDiv
  | intSDiv
  | intRem
  | intSRem
  | boolNegate
  | boolXor
  | boolAnd
  | boolOr
  | floatEqual
  | floatNotEqual
  | floatLess
  | floatLessEqual
  | floatNan
  | floatAdd
  | floatDiv
  | floatMult
  | floatSub
  | floatNeg
  | floatAbs
  | floatSqrt
  | floatInt2Float
  | floatFloat2Float
  | floatTrunc
  | floatCeil
  | floatFloor
  | floatRound
  | multiEqual
  | indirect
  | piece
  | subPiece
  | cast
  | ptrAdd
  | ptrSub
  | segmentOp
  | constPoolRef
  | new
  | insert
  | extract
  | popCount
  deriving DecidableEq, Repr

namespace Opcode

def name : Opcode → String
  | .copy => "COPY"
  | .load => "LOAD"
  | .store => "STORE"
  | .branch => "BRANCH"
  | .condBranch => "CBRANCH"
  | .branchInd => "BRANCHIND"
  | .call => "CALL"
  | .callInd => "CALLIND"
  | .callOther => "CALLOTHER"
  | .ret => "RETURN"
  | .intEqual => "INT_EQUAL"
  | .intNotEqual => "INT_NOTEQUAL"
  | .intSLess => "INT_SLESS"
  | .intSLessEqual => "INT_SLESSEQUAL"
  | .intLess => "INT_LESS"
  | .intLessEqual => "INT_LESSEQUAL"
  | .intZExt => "INT_ZEXT"
  | .intSExt => "INT_SEXT"
  | .intAdd => "INT_ADD"
  | .intSub => "INT_SUB"
  | .intCarry => "INT_CARRY"
  | .intSCarry => "INT_SCARRY"
  | .intSBorrow => "INT_SBORROW"
  | .int2Comp => "INT_2COMP"
  | .intNegate => "INT_NEGATE"
  | .intXor => "INT_XOR"
  | .intAnd => "INT_AND"
  | .intOr => "INT_OR"
  | .intLeft => "INT_LEFT"
  | .intRight => "INT_RIGHT"
  | .intSRight => "INT_SRIGHT"
  | .intMult => "INT_MULT"
  | .intDiv => "INT_DIV"
  | .intSDiv => "INT_SDIV"
  | .intRem => "INT_REM"
  | .intSRem => "INT_SREM"
  | .boolNegate => "BOOL_NEGATE"
  | .boolXor => "BOOL_XOR"
  | .boolAnd => "BOOL_AND"
  | .boolOr => "BOOL_OR"
  | .floatEqual => "FLOAT_EQUAL"
  | .floatNotEqual => "FLOAT_NOTEQUAL"
  | .floatLess => "FLOAT_LESS"
  | .floatLessEqual => "FLOAT_LESSEQUAL"
  | .floatNan => "FLOAT_NAN"
  | .floatAdd => "FLOAT_ADD"
  | .floatDiv => "FLOAT_DIV"
  | .floatMult => "FLOAT_MULT"
  | .floatSub => "FLOAT_SUB"
  | .floatNeg => "FLOAT_NEG"
  | .floatAbs => "FLOAT_ABS"
  | .floatSqrt => "FLOAT_SQRT"
  | .floatInt2Float => "FLOAT_INT2FLOAT"
  | .floatFloat2Float => "FLOAT_FLOAT2FLOAT"
  | .floatTrunc => "FLOAT_TRUNC"
  | .floatCeil => "FLOAT_CEIL"
  | .floatFloor => "FLOAT_FLOOR"
  | .floatRound => "FLOAT_ROUND"
  | .multiEqual => "MULTIEQUAL"
  | .indirect => "INDIRECT"
  | .piece => "PIECE"
  | .subPiece => "SUBPIECE"
  | .cast => "CAST"
  | .ptrAdd => "PTRADD"
  | .ptrSub => "PTRSUB"
  | .segmentOp => "SEGMENTOP"
  | .constPoolRef => "CPOOLREF"
  | .new => "NEW"
  | .insert => "INSERT"
  | .extract => "EXTRACT"
  | .popCount => "POPCOUNT"

def number : Opcode → Nat
  | .copy => 1
  | .load => 2
  | .store => 3
  | .branch => 4
  | .condBranch => 5
  | .branchInd => 6
  | .call => 7
  | .callInd => 8
  | .callOther => 9
  | .ret => 10
  | .intEqual => 11
  | .intNotEqual => 12
  | .intSLess => 13
  | .intSLessEqual => 14
  | .intLess => 15
  | .intLessEqual => 16
  | .intZExt => 17
  | .intSExt => 18
  | .intAdd => 19
  | .intSub => 20
  | .intCarry => 21
  | .intSCarry => 22
  | .intSBorrow => 23
  | .int2Comp => 24
  | .intNegate => 25
  | .intXor => 26
  | .intAnd => 27
  | .intOr => 28
  | .intLeft => 29
  | .intRight => 30
  | .intSRight => 31
  | .intMult => 32
  | .intDiv => 33
  | .intSDiv => 34
  | .intRem => 35
  | .intSRem => 36
  | .boolNegate => 37
  | .boolXor => 38
  | .boolAnd => 39
  | .boolOr => 40
  | .floatEqual => 41
  | .floatNotEqual => 42
  | .floatLess => 43
  | .floatLessEqual => 44
  | .floatNan => 46
  | .floatAdd => 47
  | .floatDiv => 48
  | .floatMult => 49
  | .floatSub => 50
  | .floatNeg => 51
  | .floatAbs => 52
  | .floatSqrt => 53
  | .floatInt2Float => 54
  | .floatFloat2Float => 55
  | .floatTrunc => 56
  | .floatCeil => 57
  | .floatFloor => 58
  | .floatRound => 59
  | .multiEqual => 60
  | .indirect => 61
  | .piece => 62
  | .subPiece => 63
  | .cast => 64
  | .ptrAdd => 65
  | .ptrSub => 66
  | .segmentOp => 67
  | .constPoolRef => 68
  | .new => 69
  | .insert => 70
  | .extract => 71
  | .popCount => 72

/-- Every opcode, in numeric order. -/
def all : List Opcode :=
  [.copy, .load, .store, .branch, .condBranch, .branchInd, .call, .callInd, .callOther, .ret,
   .intEqual, .intNotEqual, .intSLess, .intSLessEqual, .intLess, .intLessEqual, .intZExt,
   .intSExt, .intAdd, .intSub, .intCarry, .intSCarry, .intSBorrow, .int2Comp, .intNegate, .intXor,
   .intAnd, .intOr, .intLeft, .intRight, .intSRight, .intMult, .intDiv, .intSDiv, .intRem,
   .intSRem, .boolNegate, .boolXor, .boolAnd, .boolOr, .floatEqual, .floatNotEqual, .floatLess,
   .floatLessEqual, .floatNan, .floatAdd, .floatDiv, .floatMult, .floatSub, .floatNeg, .floatAbs,
   .floatSqrt, .floatInt2Float, .floatFloat2Float, .floatTrunc, .floatCeil, .floatFloor,
   .floatRound, .multiEqual, .indirect, .piece, .subPiece, .cast, .ptrAdd, .ptrSub, .segmentOp,
   .constPoolRef, .new, .insert, .extract, .popCount]

def ofNumber? (n : Nat) : Option Opcode := all.find? (·.number == n)

def ofName? (s : String) : Option Opcode :=
  let key := Text.upper s
  all.find? (·.name == key)

/-- Operations that transfer control. -/
def isBranch : Opcode → Bool
  | .branch | .condBranch | .branchInd | .call | .callInd | .ret => true
  | _ => false

/-! ## The list is complete and in order -/

theorem mem_all (op : Opcode) : op ∈ all := by cases op <;> decide

theorem number_ascending : (all.map number).Pairwise (· < ·) := by decide

end Opcode

end Lifter
