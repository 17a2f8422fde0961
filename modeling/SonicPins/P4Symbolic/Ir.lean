import SonicPins.Pdpi.Messages

/-! The parts of a P4-Symbolic program and of its table entries that the evaluation reads. -/
namespace SonicPins.P4Symbolic.Ir
open Lib Pdpi

structure FieldValue where
  headerName : String
  fieldName : String
  deriving DecidableEq,Repr

structure Table where
  tableDefinition : IrTableDefinition
  matchNameToField : List (String × FieldValue) := []
  deriving DecidableEq,Repr

structure Action where
  actionDefinition : IrActionDefinition
  parameterToBitwidth : List (String × Nat) := []
  deriving DecidableEq,Repr

/-- The widths of a header's fields, and their names from the first to the last. -/
structure HeaderType where
  fields : List (String × Nat) := []
  orderedFieldsList : List String := []
  deriving DecidableEq,Repr

structure P4Program where
  headers : List (String × HeaderType) := []
  tables : List (String × Table) := []
  actions : List (String × Action) := []
  deriving DecidableEq,Repr

/-- The value of a sketched match; values that are not given are symbolic. -/
inductive SketchMatchValue where
  | notSet
  | exact (value : IrValue)
  | lpm (value : Option IrValue) (prefixLength : Int32)
  | ternary (value mask : Option IrValue)
  | optional (value : Option IrValue)
  deriving DecidableEq,Repr

structure SketchMatch where
  name : String
  value : SketchMatchValue
  deriving DecidableEq,Repr

/-- A symbolic entry, with the parts of its sketch that constrain or order it. -/
structure SymbolicTableEntry where
  tableName : String
  matches_ : List SketchMatch := []
  type : IrTableEntryType := .notSet
  index : Int32 := 0
  priority : Int32 := 0
  deriving DecidableEq

inductive TableEntry where
  | notSet
  | concreteEntry (entity : IrEntity) (index : Int32)
  | symbolicEntry (entry : SymbolicTableEntry)

/-- Entries by table, in the order of the table names. -/
abbrev TableEntries := List (String × List TableEntry)

end SonicPins.P4Symbolic.Ir
