import XianAbci.Lib.ByteBuffer
import XianAbci.Builtins

/-!
# Messages on the socket (`abci/utils.py`, `abci/server.py`)

CometBFT sends each request behind its length, a varint. `handler` collects what arrives in a buffer and
dispatches the messages that are complete, whatever the reads cut the stream into
(`framing_chunk_invariant`). A request whose dispatch raises is the last one of the connection.

The protobuf classes are parameters: `serialize` and `parse` of a message, and the dispatch of a message to the
application, which answers with bytes or raises.
-/

namespace XianAbci

/-! ### Varints -/

def encodeVarint (number : Nat) : Bytes :=
  if number >>> 7 ≠ 0 then UInt8.ofNat (number &&& 0x7F ||| 0x80) :: encodeVarint (number >>> 7)
  else [UInt8.ofNat (number &&& 0x7F)]
termination_by number
decreasing_by
  rw [Nat.shiftRight_eq_div_pow] at *
  omega

/-- `none` is the `EOFError`. -/
def readOne (stream : ByteBuffer) : Option Nat × ByteBuffer :=
  match stream.read 1 with
  | (c :: _, stream) => (some c.toNat, stream)
  | ([], stream) => (none, stream)

theorem readOne_some {stream stream' : ByteBuffer} {i : Nat} (h : readOne stream = (some i, stream')) :
    stream' = { stream with pos := stream.pos + 1 } ∧ stream.pos < stream.value.length := by
  unfold readOne ByteBuffer.read at h
  rcases hrest : stream.rest with _ | ⟨c, rest⟩
  · rw [hrest] at h
    cases h
  · rw [hrest] at h
    cases h
    have hlength := stream.length_rest
    rw [hrest, List.length_cons] at hlength
    exact ⟨rfl, by omega⟩

def decodeVarintLoop (shift result : Nat) (stream : ByteBuffer) : Option Nat × ByteBuffer :=
  match h : readOne stream with
  | (none, stream) => (none, stream)
  | (some i, stream) =>
    let result := result ||| (i &&& 0x7F) <<< shift
    if i &&& 0x80 = 0 then (some result, stream) else decodeVarintLoop (shift + 7) result stream
termination_by stream.value.length - stream.pos
decreasing_by
  obtain ⟨rfl, hlt⟩ := readOne_some h
  dsimp only
  omega

def decodeVarint (stream : ByteBuffer) : Option Nat × ByteBuffer := decodeVarintLoop 0 0 stream

theorem decodeVarintLoop_nil {stream : ByteBuffer} (h : stream.rest = []) (shift result : Nat) :
    decodeVarintLoop shift result stream = (none, stream) := by
  have hone : readOne stream = (none, stream) := by
    rw [readOne, ByteBuffer.read, h]
    rfl
  rw [decodeVarintLoop]
  split
  · rename_i hone'
    cases hone.symm.trans hone'
    rfl
  · rename_i hone'
    cases hone.symm.trans hone'

theorem decodeVarintLoop_cons {stream : ByteBuffer} {c : UInt8} {rest : Bytes} (h : stream.rest = c :: rest)
    (shift result : Nat) : decodeVarintLoop shift result stream =
      if c.toNat &&& 0x80 = 0 then
        (some (result ||| (c.toNat &&& 0x7F) <<< shift), { stream with pos := stream.pos + 1 })
      else decodeVarintLoop (shift + 7) (result ||| (c.toNat &&& 0x7F) <<< shift)
        { stream with pos := stream.pos + 1 } := by
  have hone : readOne stream = (some c.toNat, { stream with pos := stream.pos + 1 }) := by
    rw [readOne, ByteBuffer.read, h]
    rfl
  rw [decodeVarintLoop]
  split
  · rename_i hone'
    cases hone.symm.trans hone'
  · rename_i hone'
    cases hone.symm.trans hone'
    rfl

/-- Decoding only moves the position, and a number that was read lies in the buffer. -/
theorem decodeVarintLoop_pos (rest : Bytes) : ∀ (stream : ByteBuffer) (shift result : Nat), stream.rest = rest →
    ∃ r k, decodeVarintLoop shift result stream = (r, { stream with pos := stream.pos + k }) ∧ k ≤ rest.length ∧
      (r.isSome = true → 0 < k) := by
  induction rest with
  | nil =>
    intro stream shift result h
    exact ⟨none, 0, decodeVarintLoop_nil h shift result, by simp, by simp⟩
  | cons c rest ih =>
    intro stream shift result h
    rw [decodeVarintLoop_cons h]
    split
    · exact ⟨_, 1, rfl, by simp, by simp⟩
    · have hnext : ({ stream with pos := stream.pos + 1 } : ByteBuffer).rest = rest := ByteBuffer.rest_advance (show _ = [c] ++ rest from h)
      obtain ⟨r, k, hr, hk, -⟩ := ih _ (shift + 7) (result ||| (c.toNat &&& 0x7F) <<< shift) hnext
      refine ⟨r, k + 1, ?_, by simp [hk], by simp⟩
      rw [hr, show stream.pos + (k + 1) = stream.pos + 1 + k by omega]

theorem decodeVarint_some {stream stream' : ByteBuffer} {n : Nat} (h : decodeVarint stream = (some n, stream')) :
    ∃ k, 0 < k ∧ stream' = { stream with pos := stream.pos + k } ∧ stream.pos + k ≤ stream.value.length := by
  obtain ⟨r, k, hr, hk, hpos⟩ := decodeVarintLoop_pos _ stream 0 0 rfl
  cases hr.symm.trans h
  rw [ByteBuffer.length_rest] at hk
  have := hpos rfl
  exact ⟨k, this, rfl, by omega⟩

/-! ### Messages -/

section Messages

variable {M : Type} (serialize : M → Bytes) (parse : Bytes → Except PyErr M)

def writeMessage (message : M) : Bytes :=
  encodeVarint (serialize message).length ++ serialize message

/-- The messages of the buffer, and the buffer behind the last of them. A message that does not parse raises,
and `list` is left without the ones before it. -/
def readMessages (reader : ByteBuffer) : Except PyErr (List M × ByteBuffer) :=
  let startPos := reader.tell
  match _h : decodeVarint reader with
  | (none, reader) => .ok ([], reader.seek startPos)
  | (some length, reader) =>
    let data := reader.read length
    if data.1.length < length then .ok ([], data.2.seek startPos)
    else do
      let msg ← parse data.1
      let (messages, reader) ← readMessages data.2
      return (msg :: messages, reader)
termination_by reader.value.length - reader.pos
decreasing_by
  obtain ⟨k, hk, rfl, hle⟩ := decodeVarint_some _h
  show _ - (_ + _) < _
  dsimp only [ByteBuffer.read]
  omega

theorem readMessages_eq (reader : ByteBuffer) : readMessages parse reader =
    match decodeVarint reader with
    | (none, _) => .ok ([], reader)
    | (some length, reader') =>
      if (reader'.read length).1.length < length then .ok ([], reader)
      else do
        let msg ← parse (reader'.read length).1
        let (messages, reader'') ← readMessages parse (reader'.read length).2
        return (msg :: messages, reader'') := by
  obtain ⟨r, k, hr, -⟩ := decodeVarintLoop_pos _ reader 0 0 rfl
  have hr : decodeVarint reader = _ := hr
  rw [readMessages, hr]
  rcases r with _ | length
  · rfl
  · rfl

/-- Messages that were read lie in the buffer, each with at least one byte. -/
theorem readMessages_pos {reader reader' : ByteBuffer} {messages : List M}
    (h : readMessages parse reader = .ok (messages, reader')) : ∃ k, messages.length ≤ k ∧
      reader' = { reader with pos := reader.pos + k } ∧ (k = 0 ∨ reader.pos + k ≤ reader.value.length) := by
  induction hn : reader.value.length - reader.pos using Nat.strong_induction_on generalizing reader messages with
  | _ n ih =>
    rw [readMessages_eq] at h
    split at h
    · cases h
      exact ⟨0, le_rfl, rfl, .inl rfl⟩
    · rename_i length reader₁ hdecode
      obtain ⟨k, hk, rfl, hle⟩ := decodeVarint_some hdecode
      split at h
      · cases h
        exact ⟨0, le_rfl, rfl, .inl rfl⟩
      · obtain ⟨msg, -, h⟩ := bind_eq_ok.1 h
        obtain ⟨⟨later, reader₂⟩, hlater, h⟩ := bind_eq_ok.1 h
        cases h
        -- the rest of the buffer is shorter by the number and the message
        set body := (ByteBuffer.read { reader with pos := reader.pos + k } length).1 with hbody
        have hbodyLength : body.length ≤ reader.value.length - (reader.pos + k) := by
          rw [hbody, ← ByteBuffer.length_rest { reader with pos := reader.pos + k }]
          exact List.length_take_le' ..
        obtain ⟨j, hj, rfl, hend⟩ := ih _ (by dsimp only [ByteBuffer.read] at *; omega) hlater rfl
        refine ⟨k + body.length + j, ?_, ?_, .inr ?_⟩
        · rw [List.length_cons]
          omega
        · rw [show reader.pos + (k + body.length + j) = reader.pos + k + body.length + j by omega]
          rfl
        · change j = 0 ∨ reader.pos + k + body.length + j ≤ reader.value.length at hend
          omega

/-! ### The connection -/

/-- What the handler of a connection holds: the buffer, the messages dispatched so far, the bytes written for
them, and the exception that has ended the handler. -/
structure Connection (M : Type) where
  data : ByteBuffer
  dispatched : List M
  written : Bytes
  raised : Option PyErr

def Connection.opened : Connection M := ⟨.empty, [], [], none⟩

variable (process : M → Except PyErr Bytes)

/-- The loop over the messages of a read. -/
def Connection.dispatch (c : Connection M) : List M → Connection M
  | [] => c
  | message :: rest =>
    match process message with
    | .ok response =>
      ({ c with dispatched := c.dispatched ++ [message], written := c.written ++ response } : Connection M).dispatch rest
    | .error e => { c with dispatched := c.dispatched ++ [message], raised := some e }

theorem Connection.dispatch_data (c : Connection M) (messages : List M) : (c.dispatch process messages).data = c.data := by
  induction messages generalizing c with
  | nil => rfl
  | cons message rest ih =>
    unfold Connection.dispatch
    split
    · rw [ih]
    · rfl

/-- The loop that parses the buffer. -/
def Connection.parseLoop (c : Connection M) : Connection M :=
  let startPos := c.data.tell
  match _h : readMessages parse c.data with
  | .error e => { c with raised := some e }
  | .ok ([], data) => { c with data := data.seek startPos }
  | .ok (message :: rest, data) =>
    let c := ({ c with data := data } : Connection M).dispatch process (message :: rest)
    match c.raised with
    | some _ => c
    | none => c.parseLoop
termination_by c.data.value.length - c.data.pos
decreasing_by
  obtain ⟨k, hk, rfl, hle⟩ := readMessages_pos parse _h
  rw [Connection.dispatch_data]
  rw [List.length_cons] at hk
  dsimp only
  omega

/-- One turn of the handler: new bytes are appended, messages are dispatched, what is left is kept. -/
def Connection.receive (c : Connection M) (bits : Bytes) : Connection M :=
  let c := ({ c with data := (c.data.seekEnd.write bits).seek 0 } : Connection M).parseLoop parse process
  match c.raised with
  | some _ => c
  | none => { c with data := (ByteBuffer.empty.write c.data.readAll.1).seek 0 }

/-- The handler over the reads that have returned so far; an empty one means that the peer has closed. -/
def Connection.handler (c : Connection M) : List Bytes → Connection M
  | [] => c
  | bits :: reads =>
    if bits = [] then c
    else
      let c := c.receive parse process bits
      match c.raised with
      | some _ => c
      | none => c.handler reads

/-! ### Numbers and messages that have arrived -/

theorem encodeVarint_eq (n : Nat) : encodeVarint n =
    if n / 128 = 0 then [UInt8.ofNat (n % 128)] else UInt8.ofNat (n % 128 + 128) :: encodeVarint (n / 128) := by
  have hlow : n &&& 0x7F = n % 128 := Nat.and_two_pow_sub_one_eq_mod n 7
  have hhigh : n % 128 ||| 0x80 = n % 128 + 128 := by
    have : 128 + n % 128 = 128 ||| n % 128 := Nat.two_pow_add_eq_or_of_lt (i := 7) (by omega) 1
    rw [Nat.or_comm, ← this, Nat.add_comm]
  rw [encodeVarint, hlow, hhigh, Nat.shiftRight_eq_div_pow, ite_not]

theorem byte_and_low {m : Nat} (h : m < 128) :
    (UInt8.ofNat m).toNat &&& 0x80 = 0 ∧ (UInt8.ofNat m).toNat &&& 0x7F = m := by
  revert m
  decide

theorem byte_and_high {m : Nat} (h : m < 128) :
    (UInt8.ofNat (m + 128)).toNat &&& 0x80 ≠ 0 ∧ (UInt8.ofNat (m + 128)).toNat &&& 0x7F = m := by
  revert m
  decide

theorem or_shiftLeft {result shift : Nat} (h : result < 2 ^ shift) (m : Nat) :
    result ||| m <<< shift = result + m * 2 ^ shift := by
  rw [Nat.or_comm, Nat.shiftLeft_eq, Nat.mul_comm m, ← Nat.two_pow_add_eq_or_of_lt h]
  omega

/-- A number is read back, whatever follows it. -/
theorem decodeVarintLoop_encodeVarint {n shift result : Nat} {stream : ByteBuffer} {back : Bytes}
    (h : stream.rest = encodeVarint n ++ back) (hresult : result < 2 ^ shift) :
    decodeVarintLoop shift result stream =
      (some (result + n * 2 ^ shift), { stream with pos := stream.pos + (encodeVarint n).length }) := by
  induction n using Nat.strong_induction_on generalizing stream shift result with
  | _ n ih =>
    rw [encodeVarint_eq] at h ⊢
    by_cases hlast : n / 128 = 0
    · rw [if_pos hlast] at h ⊢
      obtain ⟨hstop, hbits⟩ := byte_and_low (show n % 128 < 128 by omega)
      rw [decodeVarintLoop_cons h, if_pos hstop, hbits, or_shiftLeft hresult, show n % 128 = n by omega]
      rfl
    · rw [if_neg hlast] at h ⊢
      obtain ⟨hmore, hbits⟩ := byte_and_high (show n % 128 < 128 by omega)
      have hnext : ({ stream with pos := stream.pos + 1 } : ByteBuffer).rest = encodeVarint (n / 128) ++ back :=
        ByteBuffer.rest_advance (show _ = [UInt8.ofNat (n % 128 + 128)] ++ _ from h)
      have hbound : result + n % 128 * 2 ^ shift < 2 ^ (shift + 7) := by
        have : n % 128 * 2 ^ shift ≤ 127 * 2 ^ shift := Nat.mul_le_mul_right _ (by omega)
        rw [pow_add]
        omega
      have hvalue : result + n % 128 * 2 ^ shift + n / 128 * 2 ^ (shift + 7) = result + n * 2 ^ shift := by
        have hn : n = n % 128 + n / 128 * 128 := by omega
        conv_rhs => rw [hn]
        ring
      rw [decodeVarintLoop_cons h, if_neg hmore, hbits, or_shiftLeft hresult,
        ih (n / 128) (by omega) hnext hbound, hvalue, List.length_cons,
        show stream.pos + ((encodeVarint (n / 128)).length + 1) = stream.pos + 1 + (encodeVarint (n / 128)).length by omega]

/-- A number that is not there to its last byte is not read. -/
theorem decodeVarintLoop_cut {n shift result : Nat} {stream : ByteBuffer} {back : Bytes}
    (h : encodeVarint n = stream.rest ++ back) (hback : back ≠ []) :
    (decodeVarintLoop shift result stream).1 = none := by
  induction n using Nat.strong_induction_on generalizing stream shift result with
  | _ n ih =>
    rcases hrest : stream.rest with _ | ⟨c, rest⟩
    · rw [decodeVarintLoop_nil hrest]
    · rw [hrest, encodeVarint_eq] at h
      by_cases hlast : n / 128 = 0
      · rw [if_pos hlast] at h
        simp_all
      · rw [if_neg hlast, List.cons_append, List.cons.injEq] at h
        obtain ⟨rfl, h⟩ := h
        obtain ⟨hmore, -⟩ := byte_and_high (show n % 128 < 128 by omega)
        have hnext : ({ stream with pos := stream.pos + 1 } : ByteBuffer).rest = rest :=
          ByteBuffer.rest_advance (show _ = [UInt8.ofNat (n % 128 + 128)] ++ rest from hrest)
        rw [decodeVarintLoop_cons hrest, if_neg hmore]
        exact ih (n / 128) (by omega) (hnext ▸ h)

/-- Bytes left over by the messages that have arrived: a piece of what is still to come, with no message
complete in it. -/
structure Unfinished (later : List M) (left : Bytes) : Prop where
  piece : left <+: later.flatMap (writeMessage serialize)
  incomplete : ∀ m ∈ later.head?, ¬ writeMessage serialize m <+: left

variable {serialize parse}

theorem Unfinished.eq_nil {left : Bytes} (h : Unfinished serialize ([] : List M) left) : left = [] :=
  List.prefix_nil.1 h.piece

theorem unfinished_nil (later : List M) : Unfinished serialize later [] := by
  refine ⟨List.nil_prefix, fun m _ h => ?_⟩
  have hlength := h.length_le
  have hpos : 0 < (encodeVarint (serialize m).length).length := by
    rw [encodeVarint_eq]
    split
    · simp
    · simp
  rw [writeMessage, List.length_append, List.length_nil] at hlength
  omega

/-- The next message is not there to its last byte. -/
theorem Unfinished.cut {m : M} {later : List M} {left : Bytes} (h : Unfinished serialize (m :: later) left) :
    ∃ back, writeMessage serialize m = left ++ back ∧ back ≠ [] := by
  have hframe : writeMessage serialize m <+: (m :: later).flatMap (writeMessage serialize) := by
    rw [List.flatMap_cons]
    exact List.prefix_append ..
  rcases List.prefix_or_prefix_of_prefix h.piece hframe with ⟨back, hback⟩ | hcomplete
  · refine ⟨back, hback.symm, ?_⟩
    rintro rfl
    rw [List.append_nil] at hback
    exact h.incomplete m rfl (hback ▸ List.prefix_rfl)
  · exact absurd hcomplete (h.incomplete m rfl)

theorem decodeVarint_append {n : Nat} {stream : ByteBuffer} {back : Bytes} (h : stream.rest = encodeVarint n ++ back) :
    decodeVarint stream = (some n, { stream with pos := stream.pos + (encodeVarint n).length }) := by
  rw [decodeVarint, decodeVarintLoop_encodeVarint h (by decide), Nat.zero_add, pow_zero, Nat.mul_one]

theorem readMessages_of_decode_none {reader : ByteBuffer} (h : (decodeVarint reader).1 = none) :
    readMessages parse reader = .ok ([], reader) := by
  rw [readMessages_eq]
  rcases hdecode : decodeVarint reader with ⟨r, reader'⟩
  rw [hdecode] at h
  obtain rfl : r = none := h
  rfl

/-- Nothing is dispatched while no message is complete. -/
theorem readMessages_unfinished {later : List M} {reader : ByteBuffer} (h : Unfinished serialize later reader.rest) :
    readMessages parse reader = .ok ([], reader) := by
  rcases later with _ | ⟨m, later⟩
  · apply readMessages_of_decode_none
    rw [decodeVarint, decodeVarintLoop_nil h.eq_nil]
  · obtain ⟨back, hback, hne⟩ := h.cut
    rw [writeMessage] at hback
    -- the cut is in the number, or behind it
    rcases List.append_eq_append_iff.1 hback with ⟨body, hrest, hbody⟩ | ⟨tail, hnumber, htail⟩
    · have hshort : body.length < (serialize m).length := by
        have := List.length_pos_iff.2 hne
        rw [hbody, List.length_append]
        omega
      rw [readMessages_eq, decodeVarint_append hrest]
      dsimp only
      rw [if_pos]
      apply ByteBuffer.read_short
      rw [ByteBuffer.rest_advance hrest]
      exact hshort
    · by_cases htailNil : tail = []
      · rw [htailNil, List.append_nil] at hnumber
        rw [htailNil, List.nil_append] at htail
        have hrest : reader.rest = encodeVarint (serialize m).length ++ [] := by rw [List.append_nil, hnumber]
        rw [readMessages_eq, decodeVarint_append hrest]
        dsimp only
        rw [if_pos]
        apply ByteBuffer.read_short
        rw [ByteBuffer.rest_advance hrest, ← htail]
        exact List.length_pos_iff.2 hne
      · exact readMessages_of_decode_none (decodeVarintLoop_cut hnumber htailNil)

/-- The messages that have arrived are read one after another. -/
theorem readMessages_arrived (hparse : ∀ m, parse (serialize m) = .ok m) {arrived later : List M} {left : Bytes}
    {reader : ByteBuffer} (h : reader.rest = arrived.flatMap (writeMessage serialize) ++ left)
    (hleft : Unfinished serialize later left) : readMessages parse reader =
      .ok (arrived, { reader with pos := reader.pos + (arrived.flatMap (writeMessage serialize)).length }) := by
  induction arrived generalizing reader with
  | nil =>
    obtain rfl : reader.rest = left := h
    exact readMessages_unfinished hleft
  | cons m arrived ih =>
    rw [List.flatMap_cons, writeMessage, List.append_assoc, List.append_assoc] at h
    have hbody := ByteBuffer.rest_advance h
    have hnext := ByteBuffer.rest_advance hbody
    rw [readMessages_eq, decodeVarint_append h]
    dsimp only
    rw [ByteBuffer.read_append hbody, if_neg (by simp), hparse, ih hnext]
    simp only [List.flatMap_cons, List.length_append, writeMessage, bind, Except.bind, pure, Except.pure, Nat.add_assoc]

/-! ### The handler -/

section Handler

variable {process}

/-- The messages up to the first whose dispatch raises, this one included. -/
def untilRaise (process : M → Except PyErr Bytes) : List M → List M
  | [] => []
  | message :: rest => match process message with
    | .ok _ => message :: untilRaise process rest
    | .error _ => [message]

/-- The dispatch of every one of the messages returns. -/
def Answered (process : M → Except PyErr Bytes) (messages : List M) : Prop :=
  ∀ m ∈ messages, ∃ response, process m = .ok response

theorem untilRaise_append {first : List M} (second : List M) (h : Answered process first) :
    untilRaise process (first ++ second) = first ++ untilRaise process second := by
  induction first with
  | nil => rfl
  | cons m first ih =>
    obtain ⟨response, hm⟩ := h m (List.mem_cons_self ..)
    rw [List.cons_append, untilRaise, hm, ih fun n hn => h n (List.mem_cons_of_mem _ hn)]
    rfl

theorem untilRaise_eq_self {messages : List M} (h : Answered process messages) :
    untilRaise process messages = messages := by
  have := untilRaise_append [] h
  rwa [List.append_nil, untilRaise, List.append_nil] at this

theorem untilRaise_append_of_raise {first second : List M} (h : ¬ Answered process first) :
    untilRaise process (first ++ second) = untilRaise process first := by
  induction first with
  | nil => exact absurd (fun m hm => by cases hm) h
  | cons m first ih =>
    rw [List.cons_append, untilRaise, untilRaise]
    rcases hm : process m with e | response
    · rfl
    · rw [ih]
      intro hfirst
      exact h (List.forall_mem_cons.2 ⟨⟨response, hm⟩, hfirst⟩)

theorem Connection.dispatch_spec (c : Connection M) (hc : c.raised = none) (messages : List M) :
    (c.dispatch process messages).dispatched = c.dispatched ++ untilRaise process messages ∧
    ((c.dispatch process messages).raised = none ↔ Answered process messages) := by
  induction messages generalizing c with
  | nil => exact ⟨by simp [dispatch, untilRaise], by simp [dispatch, hc, Answered]⟩
  | cons m messages ih =>
    rw [dispatch, untilRaise]
    rcases hm : process m with e | response
    · refine ⟨rfl, by simp, fun h => ?_⟩
      obtain ⟨response, hok⟩ := h m (List.mem_cons_self ..)
      rw [hm] at hok
      cases hok
    · obtain ⟨hdispatched, hraised⟩ := ih { c with dispatched := c.dispatched ++ [m], written := c.written ++ response } hc
      refine ⟨?_, ?_⟩
      · rw [hdispatched, List.append_assoc]
        rfl
      · rw [hraised, Answered, Answered, List.forall_mem_cons]
        exact ⟨fun h => ⟨⟨response, hm⟩, h⟩, fun h => h.2⟩

/-- The bytes received so far hold the messages that have arrived and a piece of the next one. -/
theorem exists_arrived {messages : List M} {received : Bytes}
    (h : received <+: messages.flatMap (writeMessage serialize)) : ∃ arrived later left, messages = arrived ++ later ∧
      received = arrived.flatMap (writeMessage serialize) ++ left ∧ Unfinished serialize later left := by
  induction messages generalizing received with
  | nil => exact ⟨[], [], received, rfl, rfl, h, by simp⟩
  | cons m messages ih =>
    by_cases hm : writeMessage serialize m <+: received
    · obtain ⟨tail, rfl⟩ := hm
      rw [List.flatMap_cons, List.prefix_append_right_inj] at h
      obtain ⟨arrived, later, left, rfl, rfl, hleft⟩ := ih h
      exact ⟨m :: arrived, later, left, rfl, by rw [List.flatMap_cons, List.append_assoc], hleft⟩
    · refine ⟨[], m :: messages, received, rfl, rfl, h, ?_⟩
      rintro n ⟨⟩
      exact hm

/-- The loop dispatches the messages that have arrived; its second turn finds none. -/
theorem Connection.parseLoop_arrived (hparse : ∀ m, parse (serialize m) = .ok m) {c : Connection M}
    {arrived later : List M} {left : Bytes} (h : c.data.rest = arrived.flatMap (writeMessage serialize) ++ left)
    (hleft : Unfinished serialize later left) : c.parseLoop parse process = ({ c with
      data := { c.data with pos := c.data.pos + (arrived.flatMap (writeMessage serialize)).length } } :
        Connection M).dispatch process arrived := by
  have hidle : ∀ {c : Connection M}, c.data.rest = left → c.parseLoop parse process = c := by
    rintro c rfl
    rw [parseLoop]
    split
    · rename_i hread
      rw [readMessages_unfinished hleft] at hread
      cases hread
    · rename_i hread
      rw [readMessages_unfinished hleft] at hread
      cases hread
      rfl
    · rename_i hread
      rw [readMessages_unfinished hleft] at hread
      cases hread
  rcases arrived with _ | ⟨m, arrived⟩
  · exact hidle h
  · have hread := readMessages_arrived hparse h hleft
    rw [parseLoop]
    split
    · rename_i hread'
      cases hread.symm.trans hread'
    · rename_i hread'
      cases hread.symm.trans hread'
    · rename_i hread'
      cases hread.symm.trans hread'
      dsimp only
      split
      · rfl
      · apply hidle
        rw [dispatch_data]
        exact ByteBuffer.rest_advance h

variable (process) in
theorem Connection.receive_arrived (hparse : ∀ m, parse (serialize m) = .ok m) {c : Connection M} {buffer bits : Bytes}
    {arrived later : List M} {left : Bytes} (hdata : c.data = ⟨buffer, 0⟩) (hc : c.raised = none)
    (h : buffer ++ bits = arrived.flatMap (writeMessage serialize) ++ left) (hleft : Unfinished serialize later left) :
    (c.receive parse process bits).dispatched = c.dispatched ++ untilRaise process arrived ∧
    ((c.receive parse process bits).raised = none ↔ Answered process arrived) ∧
    ((c.receive parse process bits).raised = none → (c.receive parse process bits).data = ⟨left, 0⟩) := by
  have hbuffer : (c.data.seekEnd.write bits).seek 0 = ⟨buffer ++ bits, 0⟩ := by
    rw [ByteBuffer.write_end, hdata]
  have hrest : (⟨buffer ++ bits, 0⟩ : ByteBuffer).rest = arrived.flatMap (writeMessage serialize) ++ left := h
  set d := ({ c with data := ⟨buffer ++ bits, 0⟩ } : Connection M).parseLoop parse process with hd
  have hloop : d = ({ c with data := ⟨buffer ++ bits, 0 + (arrived.flatMap (writeMessage serialize)).length⟩ } :
      Connection M).dispatch process arrived := parseLoop_arrived hparse hrest hleft
  obtain ⟨hdispatched, hanswered⟩ : d.dispatched = c.dispatched ++ untilRaise process arrived ∧
      (d.raised = none ↔ Answered process arrived) := by
    rw [hloop]
    apply dispatch_spec
    exact hc
  have hleftRest : d.data.readAll.1 = left := by
    rw [hloop]
    show (dispatch process _ arrived).data.rest = left
    rw [dispatch_data]
    exact ByteBuffer.rest_advance hrest
  have hreceive : c.receive parse process bits = match d.raised with
      | some _ => d
      | none => { d with data := (ByteBuffer.empty.write d.data.readAll.1).seek 0 } := by
    rw [receive, hbuffer]
  rw [hreceive]
  rcases hraised : d.raised with _ | e
  · refine ⟨hdispatched, ?_, fun _ => ?_⟩
    · rw [← hanswered, hraised]
    · dsimp only
      rw [hleftRest]
      simp [ByteBuffer.empty, ByteBuffer.write, ByteBuffer.seek]
  · refine ⟨hdispatched, hanswered, fun h => ?_⟩
    cases hraised.symm.trans h

/-- The handler from a buffer that holds a piece of the messages still to come. -/
theorem Connection.handler_arrived (hparse : ∀ m, parse (serialize m) = .ok m) {c : Connection M} {buffer : Bytes}
    {messages : List M} {reads : List Bytes} (hdata : c.data = ⟨buffer, 0⟩) (hc : c.raised = none)
    (hbuffer : Unfinished serialize messages buffer) (hreads : ∀ bits ∈ reads, bits ≠ [])
    (hstream : buffer ++ reads.flatten <+: messages.flatMap (writeMessage serialize)) :
    ∃ arrived later left, messages = arrived ++ later ∧
      buffer ++ reads.flatten = arrived.flatMap (writeMessage serialize) ++ left ∧ Unfinished serialize later left ∧
      (c.handler parse process reads).dispatched = c.dispatched ++ untilRaise process arrived ∧
      ((c.handler parse process reads).raised = none ↔ Answered process arrived) ∧
      ((c.handler parse process reads).raised = none → (c.handler parse process reads).data = ⟨left, 0⟩) := by
  induction reads generalizing c buffer messages with
  | nil =>
    refine ⟨[], messages, buffer, rfl, by simp, hbuffer, ?_, ?_, fun _ => hdata⟩
    · simp [handler, untilRaise]
    · simp [handler, hc, Answered]
  | cons bits reads ih =>
    obtain ⟨hbits, hreads⟩ := List.forall_mem_cons.1 hreads
    rw [List.flatten_cons, ← List.append_assoc] at hstream
    -- what this read completes, and what the later ones do
    obtain ⟨first, rest, left, rfl, hfirst, hleft⟩ := exists_arrived ((List.prefix_append ..).trans hstream)
    obtain ⟨hdispatched, hanswered, hkept⟩ := receive_arrived process hparse hdata hc hfirst hleft
    rw [hfirst, List.append_assoc, List.flatMap_append, List.prefix_append_right_inj] at hstream
    rw [handler, if_neg hbits]
    dsimp only
    split
    · -- the dispatch of one of the first messages has raised
      rename_i e hraised
      obtain ⟨second, later, left', rfl, hsecond, hleft'⟩ := exists_arrived hstream
      have hraise : ¬ Answered process first := fun h => by
        rw [hanswered.2 h] at hraised
        cases hraised
      refine ⟨first ++ second, later, left', by simp, ?_, hleft', ?_, ?_, ?_⟩
      · rw [List.flatten_cons, ← List.append_assoc, hfirst, List.append_assoc, hsecond, List.flatMap_append,
          List.append_assoc]
      · rw [untilRaise_append_of_raise hraise]
        exact hdispatched
      · rw [hraised]
        refine ⟨nofun, fun h => ?_⟩
        exact absurd (fun m hm => h m (List.mem_append_left _ hm)) hraise
      · rw [hraised]
        intro h
        cases h
    · rename_i hraised
      have hfirstAnswered := hanswered.1 hraised
      obtain ⟨second, later, left', rfl, hsecond, hleft', hdispatched', hanswered', hkept'⟩ :=
        ih (hkept hraised) hraised hleft hreads hstream
      refine ⟨first ++ second, later, left', by simp, ?_, hleft', ?_, ?_, hkept'⟩
      · rw [List.flatten_cons, ← List.append_assoc, hfirst, List.append_assoc, hsecond, List.flatMap_append,
          List.append_assoc]
      · rw [hdispatched', hdispatched, untilRaise_eq_self hfirstAnswered, untilRaise_append second hfirstAnswered,
          List.append_assoc]
      · rw [hanswered', Answered, Answered, List.forall_mem_append]
        exact ⟨fun h => ⟨hfirstAnswered, h⟩, fun h => h.2⟩

variable (process) in
/-- However the stream of messages is cut into reads: after each read the messages that have arrived to their
last byte have been dispatched, in order and once, up to the first whose dispatch raises; while none has raised
the buffer holds the bytes received behind them, a piece of the next message. Once the whole stream has arrived
this is all messages and an empty buffer. -/
theorem framing_chunk_invariant (hparse : ∀ m, parse (serialize m) = .ok m) (messages : List M) (reads : List Bytes)
    (hreads : ∀ bits ∈ reads, bits ≠ []) (hstream : reads.flatten <+: messages.flatMap (writeMessage serialize)) :
    ∃ arrived later left, messages = arrived ++ later ∧
      reads.flatten = arrived.flatMap (writeMessage serialize) ++ left ∧ Unfinished serialize later left ∧
      (reads.flatten = messages.flatMap (writeMessage serialize) → arrived = messages ∧ left = []) ∧
      (Connection.opened.handler parse process reads).dispatched = untilRaise process arrived ∧
      ((Connection.opened.handler parse process reads).raised = none ↔ Answered process arrived) ∧
      ((Connection.opened.handler parse process reads).raised = none →
        (Connection.opened.handler parse process reads).dispatched = arrived ∧
        (Connection.opened.handler parse process reads).data = ⟨left, 0⟩) := by
  obtain ⟨arrived, later, left, rfl, hreceived, hleft, hdispatched, hanswered, hkept⟩ :=
    Connection.handler_arrived (c := Connection.opened) hparse rfl rfl (unfinished_nil messages) hreads hstream
  refine ⟨arrived, later, left, rfl, hreceived, hleft, ?_, hdispatched, hanswered, fun h => ⟨?_, hkept h⟩⟩
  · intro hall
    have hleftAll : left = later.flatMap (writeMessage serialize) := by
      rw [List.flatMap_append] at hall
      exact List.append_cancel_left (hreceived.symm.trans hall)
    -- a message still to come would be complete
    rcases later with _ | ⟨m, later⟩
    · exact ⟨(List.append_nil _).symm, hleftAll⟩
    · refine absurd ?_ (hleft.incomplete m rfl)
      rw [hleftAll, List.flatMap_cons]
      exact List.prefix_append ..
  · rw [hdispatched, untilRaise_eq_self (hanswered.1 h)]
    rfl

end Handler

end Messages

/-! ### Two requests in one read -/

/-- `Request(init_chain=RequestInitChain())`. -/
def initChainRequest : Bytes := [0x2a, 0]

/-- `Request(flush=RequestFlush())`. -/
def flushRequest : Bytes := [0x12, 0]

/-- A node whose genesis declares the root of another state refuses `init_chain` and answers the rest. -/
def mismatchedGenesis (request : Bytes) : Except PyErr Bytes :=
  if request = initChainRequest then .error (.valueError "genesis state root does not match abci_genesis.hash")
  else .ok [2, 0x1a, 0]

theorem flatMap_requests (first second : UInt8) :
    [[first, 0], [second, 0]].flatMap (writeMessage id) = [2, first, 0, 2, second, 0] := by
  simp [writeMessage, encodeVarint_eq]

theorem parse_serialize_bytes (m : Bytes) : (.ok (id m) : Except PyErr Bytes) = .ok m := rfl

theorem framing_chunk_invariant_flush :
    (Connection.opened.handler .ok mismatchedGenesis [[2], [0x12, 0, 2], [0x12], [0]]).dispatched =
      [flushRequest, flushRequest] := by
  have hstream : [[2], [0x12, 0, 2], [0x12], [0]].flatten = [flushRequest, flushRequest].flatMap (writeMessage id) :=
    (flatMap_requests 0x12 0x12).symm
  obtain ⟨arrived, later, left, -, -, -, hall, hdispatched, -⟩ := framing_chunk_invariant mismatchedGenesis
    parse_serialize_bytes [flushRequest, flushRequest] [[2], [0x12, 0, 2], [0x12], [0]] (by decide)
    (hstream ▸ List.prefix_rfl)
  rw [hdispatched, (hall hstream).1]
  rfl

/-- The exception of `init_chain` ends the handler: the request behind it has arrived and is not dispatched. -/
theorem raise_ends_dispatch :
    [[2, 0x2a, 0, 2, 0x12, 0]].flatten = [initChainRequest, flushRequest].flatMap (writeMessage id) ∧
    (Connection.opened.handler .ok mismatchedGenesis [[2, 0x2a, 0, 2, 0x12, 0]]).dispatched = [initChainRequest] ∧
    (Connection.opened.handler .ok mismatchedGenesis [[2, 0x2a, 0, 2, 0x12, 0]]).dispatched ≠
      [initChainRequest, flushRequest] := by
  have hstream : [[2, 0x2a, 0, 2, 0x12, 0]].flatten = [initChainRequest, flushRequest].flatMap (writeMessage id) :=
    (flatMap_requests 0x2a 0x12).symm
  have hall : Unfinished id ([] : List Bytes) [] := unfinished_nil []
  have hreceived : ([] : Bytes) ++ [2, 0x2a, 0, 2, 0x12, 0] =
      [initChainRequest, flushRequest].flatMap (writeMessage id) ++ [] := by
    rw [List.append_nil, List.nil_append, ← hstream]
    rfl
  obtain ⟨hdispatched, hanswered, -⟩ := Connection.receive_arrived mismatchedGenesis parse_serialize_bytes
    (c := Connection.opened) rfl rfl hreceived hall
  have hhandler : (Connection.opened.handler .ok mismatchedGenesis [[2, 0x2a, 0, 2, 0x12, 0]]).dispatched =
      [initChainRequest] := by
    rw [Connection.handler, if_neg (by decide)]
    dsimp only
    split
    · rw [hdispatched]
      rfl
    · rw [Connection.handler, hdispatched]
      rfl
  refine ⟨hstream, hhandler, ?_⟩
  rw [hhandler]
  decide

end XianAbci
