import XianAbci.Proposal

/-!
# Nonces of the mempool (`nonce.py`)

CheckTx reserves the nonce of each transaction it admits, so that a sender can have several transactions
waiting. A reservation belongs to one transaction hash, expires on its own, and goes when a commit reaches
its nonce. Expiries leave holes: the next nonce is the first one above the committed nonce without a
reservation, wherever that is.

Times are those of `time.monotonic`, as rationals. A call reads the clock where it prunes and where it
reserves, and the reads of one call never go back (`ClockReads`).
-/

namespace XianAbci

structure NonceReservation where
  txHash : String
  reservedAt : ℚ
deriving DecidableEq

structure NonceSettings where
  reservationTtlSeconds : ℚ
  maxPendingNoncesPerSender : Nat
  -- `max(int(max_pending_nonces_per_sender), 1)`
  max_pos : 1 ≤ maxPendingNoncesPerSender

/-- The clock in one call. -/
structure ClockReads where
  first : ℚ
  second : ℚ
  third : ℚ
  first_le : first ≤ second
  second_le : second ≤ third

abbrev SenderPending := PyDict Int NonceReservation

abbrev PendingNonces := PyDict String SenderPending

/-- What `check_nonce` reads of a transaction. -/
structure NonceTx where
  sender : String
  nonce : Int
  hash : String
deriving DecidableEq

section Storage

variable (C : NonceSettings)

def NonceReservation.expired (now : ℚ) (r : NonceReservation) : Bool :=
  0 < C.reservationTtlSeconds ∧ r.reservedAt < now - C.reservationTtlSeconds

/-- `_prune_pending_for_sender`; a sender without reservations has no entry. -/
def prunePendingForSender (now : ℚ) (sender : String) (pending : PendingNonces) : PendingNonces :=
  match pending.get? sender with
  | none => pending
  | some senderPending =>
    let kept := senderPending.filter fun _ r => !r.expired C now
    if kept.isEmpty then pending.erase sender else pending.set sender kept

def pendingOf (pending : PendingNonces) (sender : String) : SenderPending := (pending.get? sender).getD .empty

/-- The loop of `get_pending_nonce`, for at most as many steps as there are reservations. -/
def climb (senderPending : SenderPending) : Nat → Int → Int
  | 0, latest => latest
  | fuel + 1, latest =>
    if senderPending.contains (latest + 1) then climb senderPending fuel (latest + 1) else latest

/-- `get_pending_nonce`, after it has pruned. -/
def getPendingNonce (committed : Option Int) (senderPending : SenderPending) : Option Int :=
  if senderPending.isEmpty then none
  else
    let current := committed.getD (-1)
    let latest := climb senderPending senderPending.items.length current
    if latest = current then none else some latest

/-- `get_next_nonce`, after it has pruned. -/
def getNextNonce (committed : Option Int) (senderPending : SenderPending) : Int :=
  match (getPendingNonce committed senderPending).orElse fun _ => committed with
  | none => 0
  | some current => current + 1

/-- `check_nonce`: the reservations of the sender are pruned, again before the next nonce is sought. -/
def checkNonce (clock : ClockReads) (committed : Option Int) (tx : NonceTx) (pending : PendingNonces) :
    Except PyErr Unit × PendingNonces :=
  let pending := prunePendingForSender C clock.first tx.sender pending
  let existing := (pendingOf pending tx.sender).get? tx.nonce
  if existing.any (·.txHash = tx.hash) then
    (.ok (), pending.set tx.sender ((pendingOf pending tx.sender).set tx.nonce ⟨tx.hash, clock.second⟩))
  else
    let pending := prunePendingForSender C clock.second tx.sender pending
    let senderPending := pendingOf pending tx.sender
    let expected := getNextNonce committed senderPending
    if tx.nonce ≠ expected then
      (.error (.transactionException ("Transaction nonce is invalid. Expected " ++ toString expected ++ ", got " ++
        toString tx.nonce)), pending)
    else if C.maxPendingNoncesPerSender ≤ senderPending.items.length then
      (.error (.transactionException "Too many pending transactions reserved for sender"), pending)
    else (.ok (), pending.set tx.sender (senderPending.set tx.nonce ⟨tx.hash, clock.third⟩))

/-- The second loop of `reconcile_pending`. -/
def dropCommitted (committed : String → Option Int) (sender : String) (pending : PendingNonces) : PendingNonces :=
  match pending.get? sender, committed sender with
  | some senderPending, some committedNonce =>
    let kept := senderPending.filter fun nonce _ => committedNonce < nonce
    if kept.isEmpty then pending.erase sender else pending.set sender kept
  | _, _ => pending

/-- `reconcile_pending`; the clock is read for each sender. -/
def reconcilePending (now : String → ℚ) (committed : String → Option Int) (pending : PendingNonces) : PendingNonces :=
  let pruned := pending.keys.foldl (fun p sender => prunePendingForSender C (now sender) sender p) pending
  pruned.keys.foldl (fun p sender => dropCommitted committed sender p) pruned

/-! ### Runs -/

structure NonceState where
  pending : PendingNonces
  -- the nonces that `raw_driver` has
  committed : String → Option Int

inductive NonceCall
  -- an admission, with the outcome of the checks before `check_nonce`
  | admission (checks : Except PyErr Unit) (tx : NonceTx) (clock : ClockReads)
  -- `get_pending_nonce` and what calls it
  | query (sender : String) (now : ℚ)
  | commit (committed : String → Option Int) (now : String → ℚ)

inductive NonceOutcome
  | admitted
  | rejected
  | done
deriving DecidableEq, Repr

def nonceStep (s : NonceState) : NonceCall → NonceOutcome × NonceState
  | .admission (.error _) _ _ => (.rejected, s)
  | .admission (.ok _) tx clock =>
    match checkNonce C clock (s.committed tx.sender) tx s.pending with
    | (.ok _, pending) => (.admitted, { s with pending := pending })
    | (.error _, pending) => (.rejected, { s with pending := pending })
  | .query sender now => (.done, { s with pending := prunePendingForSender C now sender s.pending })
  | .commit committed now => (.done, ⟨reconcilePending C now committed s.pending, committed⟩)

structure NonceEvent where
  before : NonceState
  call : NonceCall
  outcome : NonceOutcome
  after : NonceState

def nonceRun (s : NonceState) : List NonceCall → List NonceEvent
  | [] => []
  | call :: calls =>
    let r := nonceStep C s call
    ⟨s, call, r.1, r.2⟩ :: nonceRun r.2 calls

end Storage

end XianAbci
