/-!
# What a host can do

The size of the screen and the abilities that the header of a story reports.
-/

namespace StoryMachine

/-- Screen size, default colours and abilities of a host. -/
structure HostInfo where
  lines : UInt8 := 24
  columns : UInt8 := 80
  fontWidth : UInt8 := 1
  fontHeight : UInt8 := 1
  foreground : UInt8 := 9
  background : UInt8 := 2
  statusLine : Bool := true
  splitWindow : Bool := true
  colours : Bool := false
  bold : Bool := true
  italic : Bool := true
  fixed : Bool := true
  pictures : Bool := false
  sound : Bool := false
  timedInput : Bool := true
  mouse : Bool := false
  menus : Bool := false
  undo : Bool := true
  deriving DecidableEq

/-- How a machine is set up. -/
structure Options where
  /-- Undo generations kept; none disables undo. -/
  undoLevels : Nat := 5
  /-- Whether undo generations are kept compressed. -/
  compressUndo : Bool := true
  /-- Whether every warning is a fault. -/
  fatalWarnings : Bool := false
  interpreterNumber : UInt8 := 6
  interpreterVersion : UInt8 := 90
  /-- The seed of the random numbers; none takes one from the host. -/
  randomSeed : Option UInt32 := none
  deriving DecidableEq

end StoryMachine
