/-
The standard operator table.

Addition and subtraction bind loosest, then multiplication and division, both
grouped from the left; powers bind tightest and are grouped from the right.  The
signs form one unary group, with the priority of the loosest level, so a sign takes
a product or a power with it, and leaves a sum.
-/
import Calculator.Table.Draft

namespace Calculator

/-- The registrations of the standard table. -/
def Draft.standard : Draft :=
  Draft.empty.registerAll
    [.level [.add, .sub] .left,
     .level [.mul, .div] .left,
     .level [.pow] .right,
     .group [.pos, .neg],
     .binarySymbol .add "+",
     .binarySymbol .sub "-",
     .binarySymbol .mul "*",
     .binarySymbol .div "/",
     .binarySymbol .pow "**",
     .unarySymbol .pos "+",
     .unarySymbol .neg "-"]

/-- The standard table. -/
def Table.standard : Table :=
  Draft.standard.table

/-- The standard table is sound. -/
theorem Draft.build_standard : Draft.standard.build = .ok Table.standard := by
  rw [Draft.build_eq_ok_iff]
  exact ⟨by decide +kernel, rfl⟩

end Calculator
