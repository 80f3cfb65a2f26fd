/-! # Cycle costs

How many machine cycles the interpreter of the COSMAC VIP took for an instruction. Where that
depends on data the cost is a base and additions to it. The VIP had no extended instructions; they
are charged like clearing the screen.
-/
namespace Chip8.Cost

def clearScreen : Nat := 24
def ret : Nat := 10
def jump : Nat := 12
def call : Nat := 26
def skipByte : Nat := 10
def skipRegister : Nat := 14
def skipKey : Nat := 14
def skipTaken : Nat := 4
def loadByte : Nat := 6
def addByte : Nat := 10
def loadRegister : Nat := 12
def arithmetic : Nat := 44
def loadIndex : Nat := 12
def jumpOffset : Nat := 22
def jumpOffsetPage : Nat := 2
def random : Nat := 36
def drawBase : Nat := 3072
def drawRow : Nat := 94
def drawCollision : Nat := 8
def loadDelay : Nat := 10
def waitKey : Nat := 2
def setTimer : Nat := 10
def addIndex : Nat := 16
def addIndexPage : Nat := 6
def loadGlyph : Nat := 20
def decimal : Nat := 84
def decimalDigit : Nat := 16
def registerBlock : Nat := 18
def registerBlockEach : Nat := 14
def extended : Nat := clearScreen
def nothing : Nat := 1

def skip (base : Nat) (taken : Bool) : Nat := if taken then base + skipTaken else base

/-- Costs are 32-bit words: a larger one counts as the largest word. -/
def word (n : Nat) : Nat := min n (UInt32.size - 1)

/-- A draw costs a row charge for each row, and a charge for each collision in every row. Of both
counts only the low 32 bits matter. -/
def draw (rows collisions : Nat) : Nat :=
  let perRow := word (drawRow + word (collisions % UInt32.size * drawCollision))
  word (drawBase + word (rows % UInt32.size * perRow))

/-- Whether adding to an address carries out of its low byte, into the next page. -/
def crossesPage (base : UInt16) (offset : UInt8) : Bool := 256 ≤ base.toNat % 256 + offset.toNat

end Chip8.Cost
