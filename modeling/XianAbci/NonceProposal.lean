import Mathlib
import XianAbci.NonceSafety

/-!
# What the mempool admits a proposal takes

Between commits and without expiry the reservations of a sender are an interval above its committed nonce, with
one transaction at each. `Simulates` relates them to the list of the transactions admitted so far and to the
latest nonce of each sender in it, which is what `SequentialNonceTracker` keeps over that list.
-/

namespace XianAbci

section Run

variable (C : NonceSettings) (committed : String → Option Int)

/-- The transactions that `check_nonce` admits, one call after another. -/
def admittedTxs : List (NonceTx × ClockReads) → PendingNonces → List NonceTx
  | [], _ => []
  | (tx, clock) :: rest, pending =>
    match checkNonce C clock (committed tx.sender) tx pending with
    | (.ok _, pending) => tx :: admittedTxs rest pending
    | (.error _, pending) => admittedTxs rest pending

/-- No reservation a call looks at has expired. -/
def NoExpiry : List (NonceTx × ClockReads) → PendingNonces → Prop
  | [], _ => True
  | (tx, clock) :: rest, pending =>
    (∀ n r, (pendingOf pending tx.sender).get? n = some r → r.expired C clock.second = false) ∧
      NoExpiry rest (checkNonce C clock (committed tx.sender) tx pending).2

end Run

/-- `SequentialNonceTracker` over committed nonces. -/
def NonceTracker.ofCommitted (committed : String → Option Int) : NonceTracker :=
  ⟨fun sender => (committed sender).elim .none .int, .empty⟩

/-- What the tracker reads of a transaction. -/
def NonceTx.ReadOf (p : NonceTx) (tx : Tx) : Prop := tx.sender = p.sender ∧ tx.nonce = .int p.nonce

/-! ### Lists the tracker takes -/

def committedNonce (committed : String → Option Int) (sender : String) : Int := (committed sender).getD (-1)

def latestAfter (latest : String → Int) (txs : List NonceTx) : String → Int :=
  txs.foldl (fun latest tx => Function.update latest tx.sender tx.nonce) latest

/-- Each transaction has the nonce after the latest of its sender. -/
def InSequence (latest : String → Int) : List NonceTx → Prop
  | [] => True
  | tx :: rest => tx.nonce = latest tx.sender + 1 ∧ InSequence (Function.update latest tx.sender tx.nonce) rest

variable {C : NonceSettings} {committed : String → Option Int} {latest : String → Int} {txs : List NonceTx}
  {tx : NonceTx}

theorem inSequence_append : InSequence latest (txs ++ [tx]) ↔
    InSequence latest txs ∧ tx.nonce = latestAfter latest txs tx.sender + 1 := by
  induction txs generalizing latest with
  | nil => simp [InSequence, latestAfter]
  | cons first rest ih =>
    rw [List.cons_append, InSequence, InSequence, ih]
    exact and_assoc.symm

theorem latestAfter_append : latestAfter latest (txs ++ [tx]) =
    Function.update (latestAfter latest txs) tx.sender tx.nonce := by
  simp [latestAfter]

theorem validateAll_inSequence (B : Builtins) {t : NonceTracker}
    (ht : ∀ sender, t.expectedNonce sender = .ok (latest sender + 1)) (hsequence : InSequence latest txs)
    {raws : List Tx} (hread : List.Forall₂ NonceTx.ReadOf txs raws) :
    ∃ t', raws.foldlM (NonceTracker.validateAndAdvance B) t = .ok t' := by
  induction hread generalizing t latest with
  | nil => exact ⟨t, rfl⟩
  | @cons p raw txs raws hp _ ih =>
    obtain ⟨hsender, hnonce⟩ := hp
    obtain ⟨hnext, hrest⟩ := hsequence
    have hadvance : t.validateAndAdvance B raw =
        .ok { t with latestNonces := t.latestNonces.set raw.sender raw.nonce } := by
      unfold NonceTracker.validateAndAdvance
      rw [ht, hsender, hnonce, hnext]
      simp [bind, Except.bind, require, pure, Except.pure]
    have ht' : ∀ sender, NonceTracker.expectedNonce { t with latestNonces := t.latestNonces.set raw.sender raw.nonce } sender =
        .ok (Function.update latest p.sender p.nonce sender + 1) := by
      intro sender
      have hsame := ht sender
      unfold NonceTracker.expectedNonce NonceTracker.currentNonce at hsame ⊢
      dsimp only at hsame ⊢
      rw [PyDict.get?_set, hsender, hnonce]
      by_cases hs : sender = p.sender
      · rw [if_pos hs, hs, Function.update_self]
      · rw [if_neg hs, Function.update_of_ne hs]
        exact hsame
    obtain ⟨t', htail⟩ := ih ht' hrest
    exact ⟨t', by rw [List.foldlM_cons, hadvance]; exact htail⟩

/-! ### Reservations and the list -/

/-- The reservations are those of the transactions seen, one at each nonce from the committed to the latest one. -/
structure Simulates (committed : String → Option Int) (pending : PendingNonces) (seen : List NonceTx) : Prop where
  interval : ∀ sender n, ((pendingOf pending sender).get? n).isSome ↔
    committedNonce committed sender < n ∧ n ≤ latestAfter (committedNonce committed) seen sender
  above : ∀ sender, committedNonce committed sender ≤ latestAfter (committedNonce committed) seen sender
  mem_seen : ∀ tx, tx ∈ seen ↔ ∃ r, (pendingOf pending tx.sender).get? tx.nonce = some r ∧ r.txHash = tx.hash

theorem simulates_empty : Simulates committed .empty [] where
  interval sender n := by
    have hnone : (pendingOf .empty sender).get? n = none := rfl
    rw [hnone]
    simp only [latestAfter, List.foldl_nil, Option.isSome_none, Bool.false_eq_true, false_iff]
    omega
  above _ := le_rfl
  mem_seen tx := by
    have hnone : (pendingOf .empty tx.sender).get? tx.nonce = none := rfl
    simp [hnone]

theorem liveOf_eq_pendingOf {pending : PendingNonces} {now : ℚ} {sender : String}
    (h : ∀ n r, (pendingOf pending sender).get? n = some r → r.expired C now = false) :
    liveOf C now pending sender = pendingOf pending sender := by
  refine PyDict.ext_items (List.filter_eq_self.2 fun p hp => ?_)
  have hlive := h p.1 p.2 (PyDict.mem_items_iff.1 hp)
  simp [hlive]

/-- The next nonce is the one after the latest. -/
theorem Simulates.getNextNonce {pending : PendingNonces} {seen : List NonceTx} (h : Simulates committed pending seen)
    (sender : String) : getNextNonce (committed sender) (pendingOf pending sender) =
      latestAfter (committedNonce committed) seen sender + 1 := by
  refine (getNextNonce_isLeast _ _).unique ⟨⟨?_, ?_⟩, fun n hn => ?_⟩
  · have habove := h.above sender
    unfold committedNonce at habove ⊢
    omega
  · rw [← Option.not_isSome_iff_eq_none, h.interval]
    omega
  · obtain ⟨hcommitted, hfree⟩ := hn
    rw [← Option.not_isSome_iff_eq_none, h.interval] at hfree
    have habove : committedNonce committed sender < n := hcommitted
    omega

/-- What is done to the reservations of one sender. -/
theorem Simulates.congr {pending after : PendingNonces} {seen : List NonceTx} (h : Simulates committed pending seen)
    (hget : ∀ sender n, ((pendingOf after sender).get? n).map NonceReservation.txHash =
      ((pendingOf pending sender).get? n).map NonceReservation.txHash) : Simulates committed after seen where
  interval sender n := by
    rw [← h.interval, ← Option.isSome_map (f := NonceReservation.txHash), hget, Option.isSome_map]
  above := h.above
  mem_seen tx := by
    have hmem : ∀ p : PendingNonces, (∃ r, (pendingOf p tx.sender).get? tx.nonce = some r ∧ r.txHash = tx.hash) ↔
        ((pendingOf p tx.sender).get? tx.nonce).map NonceReservation.txHash = some tx.hash := by
      intro p
      rw [Option.map_eq_some_iff]
    rw [h.mem_seen, hmem, hmem, hget]

/-- The admission of a transaction without a reservation. -/
theorem Simulates.reserve {pending after : PendingNonces} {seen : List NonceTx} (h : Simulates committed pending seen)
    {reservedAt : ℚ} (hnonce : tx.nonce = latestAfter (committedNonce committed) seen tx.sender + 1)
    (hafter : ∀ sender, pendingOf after sender = if sender = tx.sender then
      (pendingOf pending tx.sender).set tx.nonce ⟨tx.hash, reservedAt⟩ else pendingOf pending sender) :
    Simulates committed after (seen ++ [tx]) := by
  have hget : ∀ sender n, (pendingOf after sender).get? n =
      if sender = tx.sender ∧ n = tx.nonce then some ⟨tx.hash, reservedAt⟩ else (pendingOf pending sender).get? n := by
    intro sender n
    rw [hafter]
    by_cases hsender : sender = tx.sender
    · rw [if_pos hsender, PyDict.get?_set, hsender]
      simp
    · simp [hsender]
  have hlatest : ∀ sender, latestAfter (committedNonce committed) (seen ++ [tx]) sender =
      if sender = tx.sender then tx.nonce else latestAfter (committedNonce committed) seen sender := by
    intro sender
    rw [latestAfter_append, Function.update_apply]
  constructor
  · intro sender n
    have hold := h.interval sender n
    have habove := h.above sender
    rw [hget, hlatest]
    by_cases hsender : sender = tx.sender
    · subst hsender
      by_cases hn : n = tx.nonce
      · simp only [hn, and_self, ↓reduceIte, Option.isSome_some, le_refl, and_true, true_iff]
        omega
      · simp only [hn, and_false, ↓reduceIte, hold]
        omega
    · simp only [hsender, false_and, ↓reduceIte, hold]
  · intro sender
    have habove := h.above sender
    rw [hlatest]
    split_ifs with hsender
    · subst hsender
      omega
    · exact habove
  · intro tx'
    -- the nonce was free
    have hfree : (pendingOf pending tx.sender).get? tx.nonce = none := by
      rw [← Option.not_isSome_iff_eq_none, h.interval]
      omega
    rw [List.mem_append, List.mem_singleton, h.mem_seen, hget]
    by_cases hsame : tx'.sender = tx.sender ∧ tx'.nonce = tx.nonce
    · have heq : tx' = tx ↔ tx.hash = tx'.hash := by
        obtain ⟨sender, nonce, hash⟩ := tx
        obtain ⟨sender', nonce', hash'⟩ := tx'
        obtain ⟨rfl, rfl⟩ := hsame
        simp [eq_comm]
      rw [if_pos hsame, hsame.1, hsame.2, hfree, heq]
      simp
    · rw [if_neg hsame]
      constructor
      · rintro (hold | rfl)
        · exact hold
        · exact absurd ⟨rfl, rfl⟩ hsame
      · exact .inl

/-! ### Every sequence of admissions -/

/-- Whatever is admitted next, the distinct transactions admitted so far are in sequence. -/
theorem inSequence_admitted {calls : List (NonceTx × ClockReads)} {pending : PendingNonces} {done : List NonceTx}
    (hsimulates : Simulates committed pending done.eraseDups)
    (hsequence : InSequence (committedNonce committed) done.eraseDups)
    (hlive : NoExpiry C committed calls pending) :
    InSequence (committedNonce committed) (done ++ admittedTxs C committed calls pending).eraseDups := by
  induction calls generalizing pending done with
  | nil =>
    rw [admittedTxs, List.append_nil]
    exact hsequence
  | cons call calls ih =>
    obtain ⟨tx, clock⟩ := call
    obtain ⟨hcall, hrest⟩ := hlive
    have hsecond := liveOf_eq_pendingOf hcall
    have hfirst : liveOf C clock.first pending tx.sender = pendingOf pending tx.sender := by
      refine liveOf_eq_pendingOf fun n r hr => ?_
      have hmono : r.expired C clock.first = true → r.expired C clock.second = true :=
        NonceReservation.expired_mono clock.first_le
      rw [hcall n r hr] at hmono
      simpa using hmono
    have hchecked := checkNonce_checked (C := C) clock (committed tx.sender) tx pending
    rw [admittedTxs]
    generalize checkNonce C clock (committed tx.sender) tx pending = outcome at hchecked hrest
    -- an admitted transaction is seen now
    have hstep : ∀ after, Simulates committed after (done ++ [tx]).eraseDups →
        InSequence (committedNonce committed) (done ++ [tx]).eraseDups → NoExpiry C committed calls after →
        InSequence (committedNonce committed) (done ++ tx :: admittedTxs C committed calls after).eraseDups := by
      intro after hsimulates' hsequence' hrest'
      have hnext := ih hsimulates' hsequence' hrest'
      rwa [List.append_assoc] at hnext
    cases hchecked with
    | again r after hreserved hhash hafter =>
      rw [hfirst] at hreserved hafter
      have hseen : tx ∈ done := by
        rw [← List.mem_eraseDups, hsimulates.mem_seen]
        exact ⟨r, hreserved, hhash⟩
      have hsame : (done ++ [tx]).eraseDups = done.eraseDups := by
        rw [List.eraseDups_append]
        simp [List.removeAll, hseen]
      refine hstep after ?_ (by rwa [hsame]) hrest
      rw [hsame]
      refine hsimulates.congr fun sender n => ?_
      rw [hafter]
      split_ifs with hsender
      · subst hsender
        rw [PyDict.get?_set]
        split_ifs with hn
        · rw [hn, hreserved]
          simp [hhash]
        · rfl
      · rfl
    | reserved after hnonce hroom hafter =>
      rw [hsecond, hsimulates.getNextNonce] at hnonce
      rw [hsecond] at hafter
      have hnew : tx ∉ done := by
        rw [← List.mem_eraseDups, hsimulates.mem_seen]
        rintro ⟨r, hr, -⟩
        have hinterval := (hsimulates.interval tx.sender tx.nonce).1 (by rw [hr]; rfl)
        omega
      have hsnoc : (done ++ [tx]).eraseDups = done.eraseDups ++ [tx] := by
        rw [List.eraseDups_append]
        simp [List.removeAll, hnew, List.eraseDups_cons]
      refine hstep after ?_ ?_ hrest
      · rw [hsnoc]
        exact hsimulates.reserve hnonce hafter
      · rw [hsnoc, inSequence_append]
        exact ⟨hsequence, hnonce⟩
    | rejected e after hafter =>
      refine ih (hsimulates.congr fun sender n => ?_) hsequence hrest
      rw [hafter, hsecond]
      split_ifs with hsender
      · rw [hsender]
      · rfl

/-- A time to live of zero turns expiry off. -/
theorem noExpiry_of_ttl (h : C.reservationTtlSeconds ≤ 0) (calls : List (NonceTx × ClockReads)) (pending : PendingNonces) :
    NoExpiry C committed calls pending := by
  induction calls generalizing pending with
  | nil => trivial
  | cons call calls ih =>
    refine ⟨fun n r _ => ?_, ih _⟩
    have hnot : ¬ 0 < C.reservationTtlSeconds := not_lt.2 h
    simp [NonceReservation.expired, hnot]

/-- From no reservations, the distinct transactions that the mempool admits are taken by the tracker of a proposal
in the order of their admission. -/
theorem admitted_accepted_by_tracker (B : Builtins) (C : NonceSettings) (committed : String → Option Int)
    (calls : List (NonceTx × ClockReads)) (hlive : NoExpiry C committed calls .empty) {raws : List Tx}
    (hread : List.Forall₂ NonceTx.ReadOf (admittedTxs C committed calls .empty).eraseDups raws) :
    ∃ t, raws.foldlM (NonceTracker.validateAndAdvance B) (NonceTracker.ofCommitted committed) = .ok t := by
  have hempty : Simulates committed .empty ([] : List NonceTx).eraseDups := simulates_empty
  have hsequence : InSequence (committedNonce committed) (admittedTxs C committed calls .empty).eraseDups :=
    inSequence_admitted hempty trivial hlive
  refine validateAll_inSequence B (fun sender => ?_) hsequence hread
  have hcurrent : (NonceTracker.ofCommitted committed).currentNonce sender = (committed sender).elim .none .int := rfl
  unfold NonceTracker.expectedNonce committedNonce
  rw [hcurrent]
  rcases committed sender with _ | nonce <;> rfl

theorem clock_stands : (5 : ℚ) ≤ 5 := le_rfl

/-- Two senders, a repeated transaction and one that comes too early. -/
def twoSenders : List (NonceTx × ClockReads) :=
  [⟨"ab", 0, "h0"⟩, ⟨"cd", 8, "h1"⟩, ⟨"ab", 0, "h0"⟩, ⟨"ab", 2, "h2"⟩, ⟨"ab", 1, "h3"⟩].map
    fun tx => (tx, ⟨5, 5, 5, clock_stands, clock_stands⟩)

def oneCommitted (sender : String) : Option Int := if sender = "cd" then some 7 else none

def mempoolTx (sender : String) (nonce : Int) : Tx := ⟨sender, "currency", "transfer", .dict [], .int nonce, 10, "", .none, 40⟩

theorem twoSenders_accepted_by_tracker :
    admittedTxs ⟨0, 2, by decide⟩ oneCommitted twoSenders .empty =
      [⟨"ab", 0, "h0"⟩, ⟨"cd", 8, "h1"⟩, ⟨"ab", 0, "h0"⟩, ⟨"ab", 1, "h3"⟩] ∧
    ∃ t, [mempoolTx "ab" 0, mempoolTx "cd" 8, mempoolTx "ab" 1].foldlM (NonceTracker.validateAndAdvance .plain)
      (NonceTracker.ofCommitted oneCommitted) = .ok t := by
  have hadmitted : admittedTxs ⟨0, 2, by decide⟩ oneCommitted twoSenders .empty =
      [⟨"ab", 0, "h0"⟩, ⟨"cd", 8, "h1"⟩, ⟨"ab", 0, "h0"⟩, ⟨"ab", 1, "h3"⟩] := by decide +kernel
  refine ⟨hadmitted, admitted_accepted_by_tracker .plain ⟨0, 2, by decide⟩ oneCommitted twoSenders
    (noExpiry_of_ttl le_rfl _ _) ?_⟩
  rw [hadmitted]
  have hdistinct : ([⟨"ab", 0, "h0"⟩, ⟨"cd", 8, "h1"⟩, ⟨"ab", 0, "h0"⟩, ⟨"ab", 1, "h3"⟩] : List NonceTx).eraseDups =
      [⟨"ab", 0, "h0"⟩, ⟨"cd", 8, "h1"⟩, ⟨"ab", 1, "h3"⟩] := by decide +kernel
  rw [hdistinct]
  exact .cons ⟨rfl, rfl⟩ (.cons ⟨rfl, rfl⟩ (.cons ⟨rfl, rfl⟩ .nil))

end XianAbci
