/-!
# Flags of abstract values

A value says by flags which primitives it may be, whether the slot that holds it may be absent or
modified, which attributes the slot has, and whether the value has been summarised at all.
-/

namespace ScriptHeap

/-- The flags of an abstract value. -/
structure Flags where
  undefined : Bool := false
  null : Bool := false
  isTrue : Bool := false
  isFalse : Bool := false
  number : Bool := false
  anyString : Bool := false
  /-- The slot may hold nothing. -/
  absent : Bool := false
  /-- The slot may have been written since the function was entered. -/
  modified : Bool := false
  /-- The value is not summarised here and has to be recovered from elsewhere. -/
  unknown : Bool := false
  dontDelete : Bool := false
  dontEnum : Bool := false
  readOnly : Bool := false
deriving DecidableEq, Repr, Inhabited

namespace Flags

/-- The flags that either side has. -/
def join (a b : Flags) : Flags where
  undefined := a.undefined || b.undefined
  null := a.null || b.null
  isTrue := a.isTrue || b.isTrue
  isFalse := a.isFalse || b.isFalse
  number := a.number || b.number
  anyString := a.anyString || b.anyString
  absent := a.absent || b.absent
  modified := a.modified || b.modified
  unknown := a.unknown || b.unknown
  dontDelete := a.dontDelete || b.dontDelete
  dontEnum := a.dontEnum || b.dontEnum
  readOnly := a.readOnly || b.readOnly

/-- The flags of the first side that the second does not have. -/
def diff (a b : Flags) : Flags where
  undefined := a.undefined && !b.undefined
  null := a.null && !b.null
  isTrue := a.isTrue && !b.isTrue
  isFalse := a.isFalse && !b.isFalse
  number := a.number && !b.number
  anyString := a.anyString && !b.anyString
  absent := a.absent && !b.absent
  modified := a.modified && !b.modified
  unknown := a.unknown && !b.unknown
  dontDelete := a.dontDelete && !b.dontDelete
  dontEnum := a.dontEnum && !b.dontEnum
  readOnly := a.readOnly && !b.readOnly

/-- Whether no flag is set. -/
def isEmpty (f : Flags) : Bool :=
  f = {}

/-- Whether some primitive is possible. -/
def somePrimitive (f : Flags) : Bool :=
  f.undefined || f.null || f.isTrue || f.isFalse || f.number || f.anyString

/-- Without the attributes of the slot. -/
def withoutAttributes (f : Flags) : Flags :=
  { f with dontDelete := false, dontEnum := false, readOnly := false }

/-- The flags as a bit mask. -/
def bits (f : Flags) : Nat :=
  f.undefined.toNat + f.null.toNat * 2 + f.isTrue.toNat * 4 + f.isFalse.toNat * 8
    + f.number.toNat * 16 + f.anyString.toNat * 32 + f.absent.toNat * 64 + f.modified.toNat * 128
    + f.unknown.toNat * 256 + f.dontDelete.toNat * 512 + f.dontEnum.toNat * 2048
    + f.readOnly.toNat * 8192

theorem join_comm (a b : Flags) : a.join b = b.join a := by
  simp [join, Bool.or_comm]

theorem join_assoc (a b c : Flags) : (a.join b).join c = a.join (b.join c) := by
  simp [join, Bool.or_assoc]

@[simp] theorem join_self (a : Flags) : a.join a = a := by
  simp [join]

@[simp] theorem join_empty (a : Flags) : a.join {} = a := by
  simp [join]

@[simp] theorem empty_join (a : Flags) : Flags.join {} a = a := by
  simp [join]

end Flags

end ScriptHeap
