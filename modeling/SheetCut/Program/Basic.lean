import SheetCut.Command.Basic
import SheetCut.Contour.Basic

/-!
# Cutting programs

A program as it is understood: the sheet and its material, the placements of parts on the sheet,
and the contours of every part in its own coordinates.
-/

namespace SheetCut

structure Material where
  material : Code .material
  dbName : String
  assistGas : Code .gas

structure SheetSetup (α : Type) where
  /-- The number of parts that the program declares. -/
  totalParts : UInt32
  width : α
  height : α

structure Placement (α : Type) where
  /-- The block number in force where the placement is declared. -/
  originBlockNumber : UInt32
  origin : Point α
  /-- In degrees; the part is turned first and moved then. -/
  rotation : α
  /-- The block number where the code of the part begins. -/
  partCodeBlock : UInt32
  contourCount : UInt32

/-- The id of the placed part. It names the placement and not the code, so that a part placed
twice gets two ids. -/
def Placement.partId {α : Type} (p : Placement α) : String :=
  "part-" ++ toString p.originBlockNumber.toNat

structure Part (α : Type) where
  id : String
  blockNumber : UInt32
  originBlockNumber : UInt32
  origin : Point α
  rotation : α
  contours : List (Contour α)

/-- A placement whose code is nowhere in the program. -/
structure SkippedPart where
  partId : String
  partCodeBlock : UInt32

structure Program (α : Type) where
  version : String
  material : Material
  setup : SheetSetup α
  workpiece : Extent α
  placements : List (Placement α)
  parts : List (Part α)
  skippedParts : List SkippedPart
  /-- The commands that the program was read from, if they are kept. -/
  rawCommands : List (Command α)

namespace Part

variable {α : Type}

/-- The extent that the last contour declares; only good for a placement box. -/
def nominalExtent? (p : Part α) : Option (Extent α) := p.contours.getLast?.map Contour.declaredSize

variable [Scalar α]

/-- The box around all contours, in the part's own coordinates. -/
def bounds? (p : Part α) : Option (Bounds α) :=
  (p.contours.foldl (fun b c => b.merge c.bounds) Bounds.empty).valid?

/-- The place on the sheet of a point of the part. -/
def toWorld (p : Part α) (q : Point α) : Point α :=
  (q.rotated p.rotation).offset p.origin.x p.origin.y

end Part

namespace Program

variable {α : Type}

def contourCount (p : Program α) : Nat :=
  p.parts.foldl (fun n part => n + part.contours.length) 0

/-- Every placement gave a part. -/
def isComplete (p : Program α) : Bool := p.skippedParts.isEmpty

/-- The first part with this id. -/
def part? (p : Program α) (id : String) : Option (Part α) := p.parts.find? fun part => part.id = id

end Program

end SheetCut
