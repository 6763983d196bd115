import PinNumbering.Builder
import PinNumbering.Machine
/-! # Sample tables

Small tables that show the numberings at work.

* `singleInstance`: one tile with one instance of one block.
* `multiInstance`: an input and output pad with four instances.
* `heterogeneous`: a tile with a slot of two instances for either of two blocks and a slot for a
  third block, beside a pad with two instances.
* `allLocations`, `halfLocations`, `overdeclaredBlock`, `overdeclaredTile`, `overdeclaredPort`,
  `overdeclaredSlot`: tables from which more is counted than a word can hold.
-/
set_option autoImplicit false

namespace PinNumbering

namespace Samples

/-- One tile with one instance, which hosts a block of one port. -/
def singleInstance : Tables :=
  Tables.build
    [⟨0, "B", [⟨"A", .input, 4⟩], [], [0]⟩]
    [⟨0, "T", [⟨"T", ⟨0, 0⟩, [0], [⟨"A", .input, 4⟩]⟩]⟩]

/-- The ports of a pad. -/
def padPorts : List PortSpec := [⟨"outpad", .input, 1⟩, ⟨"inpad", .output, 1⟩]

/-- The block of a pad. -/
def padBlock (id : BlockId) (tiles : List TileId) : BlockSpec := ⟨id, "PAD", padPorts, [], tiles⟩

/-- The tile of a pad over blocks that are already built. It is an input and an output pad. -/
def padTile (id : TileId) (capacity : CapacityRange) (pad : BlockId) (blocks : List Block) : Tile :=
  { TileSpec.build ⟨id, "IO", [⟨"io", capacity, [pad], padPorts⟩]⟩ blocks with
    isInput := true
    isOutput := true }

/-- A pad with four instances. -/
def multiInstance : Tables :=
  let blocks := [(padBlock 0 [0]).build]
  ⟨[padTile 0 ⟨0, 3⟩ 0 blocks], blocks⟩

/-- The ports of a block of logic elements, which are also those of its slot. -/
def logicPorts : List PortSpec := [⟨"I", .input, 4⟩, ⟨"O", .output, 2⟩, ⟨"clk", .clock, 1⟩]

/-- The ports of a memory, which are also those of its slot. -/
def memoryPorts : List PortSpec := [⟨"addr", .input, 3⟩, ⟨"data", .output, 2⟩]

/-- The blocks of the heterogeneous sample: two blocks of logic elements, a memory and a pad. -/
def heterogeneousBlocks : List BlockSpec :=
  [⟨0, "CLB_A", logicPorts,
      [⟨"lut", [⟨"in", .input, 4⟩, ⟨"out", .output, 1⟩]⟩,
        ⟨"ff", [⟨"D", .input, 1⟩, ⟨"Q", .output, 1⟩, ⟨"clk", .clock, 1⟩]⟩],
      [0]⟩,
    ⟨1, "CLB_B", [⟨"I", .input, 2⟩, ⟨"O", .output, 1⟩],
      [⟨"lut2", [⟨"in", .input, 2⟩, ⟨"out", .output, 1⟩]⟩],
      [0]⟩,
    ⟨2, "MEM", memoryPorts, [⟨"ram", [⟨"addr", .input, 3⟩, ⟨"dout", .output, 2⟩]⟩], [0]⟩,
    padBlock 3 [1]]

/-- A tile for logic elements and a memory, beside a pad. -/
def heterogeneous : Tables :=
  let blocks := heterogeneousBlocks.map BlockSpec.build
  let logicTile : TileSpec :=
    ⟨0, "CLB_TILE", [⟨"CLB", ⟨0, 1⟩, [0, 1], logicPorts⟩, ⟨"MEM", ⟨2, 2⟩, [2], memoryPorts⟩]⟩
  ⟨[logicTile.build blocks, padTile 1 ⟨0, 1⟩ 3 blocks], blocks⟩

/-! ## Tables past the limit of words

Each number in these tables is a word, but something that is counted from them is not. -/

/-- A tile whose only slot is at every location that a word can name. It has no pins. -/
def allLocationsTile : TileSpec := ⟨0, "T", [⟨"T", ⟨0, wordLimit - 1⟩, [], []⟩]⟩

/-- The tables of that tile. -/
def allLocations : Tables := Tables.build [] [allLocationsTile]

/-- A tile that declares as many root pins as a word can count, for a block with one pin. -/
def overdeclaredTile : Tables :=
  let T := Tables.build
    [⟨0, "B", [⟨"A", .input, 1⟩], [], [0]⟩]
    [⟨0, "T", [⟨"T", ⟨0, 0⟩, [0], []⟩]⟩]
  { T with tiles := T.tiles.map fun tile => { tile with numPins := wordLimit - 1 } }

/-- A tile whose second slot declares so many pins that those of the first two slots add up to two
more than there are words. -/
def overdeclaredSlot : Tables :=
  let T := Tables.build []
    [⟨0, "T", [⟨"T", ⟨0, 0⟩, [], []⟩, ⟨"U", ⟨1, 1⟩, [], []⟩, ⟨"V", ⟨2, 2⟩, [], []⟩]⟩]
  { T with tiles := T.tiles.map fun tile =>
    { tile with
      subTiles := tile.subTiles.zipWith (fun s numPins => { s with numPins := numPins })
        [5, wordLimit - 3, 10] } }

end Samples

end PinNumbering
