import XianAbci.Lib.Bytes

/-!
# A buffer of bytes with a position (`io.BytesIO`)

What can still be read is `rest`; reading takes from its front, and the lemmas say what each operation does to
it.
-/

structure ByteBuffer where
  value : Bytes
  pos : Nat

namespace ByteBuffer

def empty : ByteBuffer := ⟨[], 0⟩

def tell (b : ByteBuffer) : Nat := b.pos

def seek (b : ByteBuffer) (pos : Nat) : ByteBuffer := { b with pos := pos }

def seekEnd (b : ByteBuffer) : ByteBuffer := { b with pos := b.value.length }

/-- The bytes from the position on. -/
def rest (b : ByteBuffer) : Bytes := b.value.drop b.pos

/-- `read(n)`: at most `n` bytes. -/
def read (b : ByteBuffer) (n : Nat) : Bytes × ByteBuffer :=
  (b.rest.take n, { b with pos := b.pos + (b.rest.take n).length })

/-- `read()`. -/
def readAll (b : ByteBuffer) : Bytes × ByteBuffer := (b.rest, { b with pos := b.pos + b.rest.length })

/-- Bytes at the position are overwritten; a gap before it is filled with zeros. -/
def write (b : ByteBuffer) (bytes : Bytes) : ByteBuffer where
  value := b.value.take b.pos ++ List.replicate (b.pos - b.value.length) 0 ++ bytes ++
    b.value.drop (b.pos + bytes.length)
  pos := b.pos + bytes.length

variable {b : ByteBuffer} {n : Nat} {front back : Bytes}

theorem length_rest (b : ByteBuffer) : b.rest.length = b.value.length - b.pos := List.length_drop ..

@[simp] theorem seek_tell (b : ByteBuffer) (n : Nat) : ({ b with pos := n } : ByteBuffer).seek b.tell = b := rfl

/-- Moving on by as many bytes as stand at the front. -/
theorem rest_advance (h : b.rest = front ++ back) :
    ({ b with pos := b.pos + front.length } : ByteBuffer).rest = back := by
  show b.value.drop (b.pos + front.length) = back
  rw [← List.drop_drop, show b.value.drop b.pos = b.rest from rfl, h, List.drop_left]

theorem read_append (h : b.rest = front ++ back) :
    b.read front.length = (front, { b with pos := b.pos + front.length }) := by
  rw [read, h, List.take_left]

/-- Less is there than was asked for. -/
theorem read_short (h : b.rest.length < n) : (b.read n).1.length < n := by
  show (b.rest.take n).length < n
  rw [List.length_take]
  omega

/-- Bytes written at the end. -/
theorem write_end (b : ByteBuffer) (bytes : Bytes) :
    ((b.seekEnd.write bytes).seek 0) = ⟨b.value ++ bytes, 0⟩ := by
  simp [seekEnd, write, seek]

end ByteBuffer
