import NobugDb.Types.Value

/-!
# Rows

`Row` (`include/core/row.h`, `src/core/row.cc`): the column values and the version stamps.
`xmin` is the id of the transaction that wrote the version and `xmax` that of the one that
deleted it; 0 stands for a write outside any transaction and for no deletion.
-/

namespace NobugDb

/-- `Row`. The stamps are 64-bit ids handed out one by one from 1. -/
structure Row where
  values : List Value
  xmin : Nat := 0
  xmax : Nat := 0
  deriving DecidableEq

namespace Row

variable (row : Row)

/-- `Row::get_value`; `none` is the exception for an index out of range. -/
def getValue? (i : Nat) : Option Value := row.values[i]?

def setXmin (xid : Nat) : Row := { row with xmin := xid }

def setXmax (xid : Nat) : Row := { row with xmax := xid }

variable (row : Row) (xid : Nat)

@[simp] theorem setXmin_values (xid : Nat) : (row.setXmin xid).values = row.values :=
  rfl

@[simp] theorem setXmin_xmin (xid : Nat) : (row.setXmin xid).xmin = xid := rfl

@[simp] theorem setXmin_xmax (xid : Nat) : (row.setXmin xid).xmax = row.xmax := rfl

@[simp] theorem setXmax_values (xid : Nat) : (row.setXmax xid).values = row.values :=
  rfl

@[simp] theorem setXmax_xmin (xid : Nat) : (row.setXmax xid).xmin = row.xmin := rfl

@[simp] theorem setXmax_xmax (xid : Nat) : (row.setXmax xid).xmax = xid := rfl

end Row

end NobugDb
