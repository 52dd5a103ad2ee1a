import XianAbci.Builtins
import XianAbci.Lib.PyDict

/-!
# The storage driver

contracting's `Driver` is a durable key/value store (LMDB) under a set of pending writes. It is not
part of this repository, so it stays a parameter: `Driver D` lists the operations the node calls on
it and what the node relies on. `durable` is what `value_from_disk` and, with nothing pending,
`items()` read; `pending` is `pending_writes`, where `None` is a deletion. A commit is atomic and
passes every value through the storage codec (`stored`).
-/

namespace XianAbci

/-- What a key holds after a commit, from what it held and from its pending write. -/
def committedValue (stored : Value → Value) (old : Option Value) : Option Value → Option Value
  | none => old
  | some v => if v = .none then none else some (stored v)

class Driver (D : Type) where
  durable : D → PyDict String Value
  pending : D → PyDict String Value
  -- a value as it reads after it was encoded, written and decoded
  stored : Value → Value
  -- a second `Driver` over the same storage
  fresh : D → D
  flushFull : D → D
  applyWrites : D → PyDict String Value → D
  -- `pending_writes = writes`, which `detach_pending_state` and `attach_pending_state` come to
  setPending : D → PyDict String Value → D
  -- `commit()` and `hard_apply(nanos)`, where the storage transaction goes through
  commit : D → D
  durable_fresh : ∀ d, durable (fresh d) = durable d
  pending_fresh : ∀ d, pending (fresh d) = .empty
  durable_flushFull : ∀ d, durable (flushFull d) = .empty
  pending_flushFull : ∀ d, pending (flushFull d) = .empty
  durable_applyWrites : ∀ d w, durable (applyWrites d w) = durable d
  pending_applyWrites : ∀ d w, pending (applyWrites d w) = (pending d).update w.items
  durable_setPending : ∀ d w, durable (setPending d w) = durable d
  pending_setPending : ∀ d w, pending (setPending d w) = w
  get?_durable_commit : ∀ d k, (durable (commit d)).get? k =
    committedValue stored ((durable d).get? k) ((pending d).get? k)
  pending_commit : ∀ d, pending (commit d) = .empty
  -- the codec keeps a mapping of plain text and integers under names that are no type markers
  stored_latestBlock : ∀ (hash : String) (height nanos : Int),
    stored (.dict [("hash", .str hash), ("height", .int height), ("nanos", .int nanos)]) =
      .dict [("hash", .str hash), ("height", .int height), ("nanos", .int nanos)]

attribute [simp] Driver.durable_fresh Driver.pending_fresh Driver.durable_flushFull Driver.pending_flushFull
  Driver.durable_applyWrites Driver.pending_applyWrites Driver.durable_setPending Driver.pending_setPending
  Driver.get?_durable_commit Driver.pending_commit Driver.stored_latestBlock

/-! ### A driver in memory -/

/-- A storage codec. -/
structure StoreCodec where
  stored : Value → Value
  stored_latestBlock : ∀ (hash : String) (height nanos : Int),
    stored (.dict [("hash", .str hash), ("height", .int height), ("nanos", .int nanos)]) =
      .dict [("hash", .str hash), ("height", .int height), ("nanos", .int nanos)]

def StoreCodec.identity : StoreCodec := ⟨id, fun _ _ _ => rfl⟩

/-- The two maps themselves, over a codec. -/
structure CodecDriver (S : StoreCodec) where
  durable : PyDict String Value
  pending : PyDict String Value

abbrev MemoryDriver := CodecDriver .identity

namespace CodecDriver

variable {S : StoreCodec}

def commitItem (stored : Value → Value) (m : PyDict String Value) (p : String × Value) : PyDict String Value :=
  if p.2 = .none then m.erase p.1 else m.set p.1 (stored p.2)

def commit (d : CodecDriver S) : CodecDriver S := ⟨d.pending.items.foldl (commitItem S.stored) d.durable, .empty⟩

theorem get?_foldl_commitItem (stored : Value → Value) (l : List (String × Value)) (hl : (l.map Prod.fst).Nodup)
    (m : PyDict String Value) (k : String) :
    (l.foldl (commitItem stored) m).get? k = committedValue stored (m.get? k) (l.lookup k) := by
  induction l generalizing m with
  | nil => rfl
  | cons p rest ih =>
    obtain ⟨a, v⟩ := p
    simp only [List.map_cons, List.nodup_cons] at hl
    rw [List.foldl_cons, ih hl.2, PyDict.lookup_cons_ite]
    by_cases hk : k = a
    · subst hk
      rw [PyDict.lookup_eq_none hl.1, if_pos rfl]
      by_cases hv : v = .none <;> simp [commitItem, committedValue, hv]
    · rw [if_neg hk]
      by_cases hv : v = .none <;> simp [commitItem, hv, hk]

instance : Driver (CodecDriver S) where
  durable := durable
  pending := pending
  stored := S.stored
  fresh d := ⟨d.durable, .empty⟩
  flushFull _ := ⟨.empty, .empty⟩
  applyWrites d w := { d with pending := d.pending.update w.items }
  setPending d w := { d with pending := w }
  commit := commit
  durable_fresh _ := rfl
  pending_fresh _ := rfl
  durable_flushFull _ := rfl
  pending_flushFull _ := rfl
  durable_applyWrites _ _ := rfl
  pending_applyWrites _ _ := rfl
  durable_setPending _ _ := rfl
  pending_setPending _ _ := rfl
  get?_durable_commit d k := get?_foldl_commitItem S.stored d.pending.items d.pending.nodup d.durable k
  pending_commit _ := rfl
  stored_latestBlock := S.stored_latestBlock

end CodecDriver

end XianAbci
