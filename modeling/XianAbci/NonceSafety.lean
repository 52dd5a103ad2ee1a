import XianAbci.NonceStorage

/-!
# Reservations are safe

Every call leaves the reservations of each sender as they were, up to expiry, commits and the one it makes.
`pendingOf` says what each operation does to each sender, and the next nonce is the least free one
(`getNextNonce_isLeast`): a climb over the reservations stops within as many steps as there are of them.
-/

namespace XianAbci

variable {C : NonceSettings} {pending : PendingNonces} {sender sender' : String}

/-! ### What the operations do to each sender -/

theorem filter_empty (p : Int → NonceReservation → Bool) : (PyDict.empty : SenderPending).filter p = .empty := rfl

/-- A sender whose reservations are narrowed, without an entry when none is left. -/
theorem pendingOf_narrow {senderPending : SenderPending} {p : Int → NonceReservation → Bool}
    (h : pending.get? sender = some senderPending) :
    pendingOf (if (senderPending.filter p).isEmpty then pending.erase sender
      else pending.set sender (senderPending.filter p)) sender' =
    if sender' = sender then (pendingOf pending sender).filter p else pendingOf pending sender' := by
  have hown : pendingOf pending sender = senderPending := by rw [pendingOf, h]; rfl
  unfold pendingOf at hown ⊢
  rw [hown]
  by_cases hempty : (senderPending.filter p).isEmpty = true
  · rw [if_pos hempty, PyDict.get?_erase]
    split_ifs
    · exact PyDict.ext_items (List.isEmpty_iff.1 hempty).symm
    · rfl
  · rw [if_neg hempty, PyDict.get?_set]
    split_ifs <;> rfl

theorem pendingOf_prune (now : ℚ) : pendingOf (prunePendingForSender C now sender pending) sender' =
    if sender' = sender then (pendingOf pending sender).filter fun _ r => !r.expired C now
    else pendingOf pending sender' := by
  unfold prunePendingForSender
  rcases h : pending.get? sender with _ | senderPending
  · have hown : pendingOf pending sender = .empty := by rw [pendingOf, h]; rfl
    dsimp only
    split_ifs with hs
    · rw [hs, hown, filter_empty]
    · rfl
  · exact pendingOf_narrow h

theorem pendingOf_drop (committed : String → Option Int) : pendingOf (dropCommitted committed sender pending) sender' =
    if sender' = sender then (pendingOf pending sender).filter fun nonce _ => (committed sender).all (· < nonce)
    else pendingOf pending sender' := by
  unfold dropCommitted
  rcases h : pending.get? sender with _ | senderPending
  · have hown : pendingOf pending sender = .empty := by rw [pendingOf, h]; rfl
    dsimp only
    split_ifs with hs
    · rw [hs, hown, filter_empty]
    · rfl
  · rcases committed sender with _ | committedNonce
    · dsimp only
      split_ifs with hs
      · rw [hs]
        exact PyDict.ext_items (by simp [PyDict.filter])
      · rfl
    · exact pendingOf_narrow h

theorem pendingOf_set (senderPending : SenderPending) : pendingOf (pending.set sender senderPending) sender' =
    if sender' = sender then senderPending else pendingOf pending sender' := by
  unfold pendingOf
  rw [PyDict.get?_set]
  split_ifs <;> rfl

/-- A loop over the senders that treats each of them alike. -/
theorem pendingOf_foldl (op : String → PendingNonces → PendingNonces) (f : String → SenderPending → SenderPending)
    (hop : ∀ sender pending sender', pendingOf (op sender pending) sender' =
      if sender' = sender then f sender (pendingOf pending sender) else pendingOf pending sender')
    (hempty : ∀ sender, f sender .empty = .empty) :
    pendingOf (pending.keys.foldl (fun p sender => op sender p) pending) sender = f sender (pendingOf pending sender) := by
  have hloop : ∀ (l : List String) (pending : PendingNonces), l.Nodup →
      pendingOf (l.foldl (fun p sender => op sender p) pending) sender =
        if sender ∈ l then f sender (pendingOf pending sender) else pendingOf pending sender := by
    intro l
    induction l with
    | nil =>
      intro pending _
      rfl
    | cons x l ih =>
      intro pending hnodup
      obtain ⟨hx, hl⟩ := List.nodup_cons.1 hnodup
      rw [List.foldl_cons, ih _ hl, hop]
      by_cases hs : sender = x
      · subst hs
        simp [hx]
      · simp [hs]
  rw [hloop pending.keys pending pending.nodup]
  split_ifs with hmem
  · rfl
  · have hnone : pending.get? sender = none := PyDict.get?_eq_none_iff.2 hmem
    have hown : pendingOf pending sender = .empty := by rw [pendingOf, hnone]; rfl
    rw [hown, hempty]

theorem pendingOf_reconcile (now : String → ℚ) (committed : String → Option Int) :
    pendingOf (reconcilePending C now committed pending) sender =
      ((pendingOf pending sender).filter fun _ r => !r.expired C (now sender)).filter
        fun nonce _ => (committed sender).all (· < nonce) := by
  unfold reconcilePending
  dsimp only
  rw [pendingOf_foldl (fun sender p => dropCommitted committed sender p)
      (fun sender p => p.filter fun nonce _ => (committed sender).all (· < nonce))
      (fun _ _ _ => pendingOf_drop committed) fun _ => rfl,
    pendingOf_foldl (fun sender p => prunePendingForSender C (now sender) sender p)
      (fun sender p => p.filter fun _ r => !r.expired C (now sender))
      (fun sender _ _ => pendingOf_prune (now sender)) fun _ => rfl]

/-! ### The next nonce -/

/-- The climb passes over reservations only, and stops early only at a free nonce. -/
theorem climb_spec (senderPending : SenderPending) (fuel : Nat) (latest : Int) :
    ∃ k : Nat, climb senderPending fuel latest = latest + k ∧ k ≤ fuel ∧
      (∀ j : Nat, j < k → senderPending.contains (latest + j + 1) = true) ∧
      (k < fuel → senderPending.contains (latest + k + 1) = false) := by
  induction fuel generalizing latest with
  | zero => exact ⟨0, by simp [climb], le_rfl, by omega, by omega⟩
  | succ fuel ih =>
    unfold climb
    split_ifs with hnext
    · obtain ⟨k, hclimb, hk, hpassed, hstop⟩ := ih (latest + 1)
      refine ⟨k + 1, by rw [hclimb]; push_cast; omega, by omega, fun j hj => ?_, fun hlt => ?_⟩
      · rcases j with _ | j
        · simpa using hnext
        · have hpass := hpassed j (by omega)
          rw [show latest + ((j + 1 : Nat) : Int) + 1 = latest + 1 + j + 1 by push_cast; omega]
          exact hpass
      · rw [show latest + ((k + 1 : Nat) : Int) + 1 = latest + 1 + k + 1 by push_cast; omega]
        exact hstop (by omega)
    · exact ⟨0, by simp, by omega, by omega, fun _ => by simpa using hnext⟩

/-- As many steps as there are reservations are enough. -/
theorem climb_stops (senderPending : SenderPending) (latest : Int) :
    ∃ k : Nat, climb senderPending senderPending.items.length latest = latest + k ∧
      (∀ j : Nat, j < k → senderPending.contains (latest + j + 1) = true) ∧
      senderPending.contains (latest + k + 1) = false := by
  obtain ⟨k, hclimb, hk, hpassed, hstop⟩ := climb_spec senderPending senderPending.items.length latest
  refine ⟨k, hclimb, hpassed, ?_⟩
  rcases hk.lt_or_eq with hlt | heq
  · exact hstop hlt
  · -- one more would be more reservations than there are
    by_contra hmore
    have hall : ∀ j ∈ List.range (k + 1), latest + ((j : Nat) : Int) + 1 ∈ senderPending.keys := by
      intro j hj
      rw [← PyDict.contains_iff]
      rcases Nat.lt_succ_iff_lt_or_eq.1 (List.mem_range.1 hj) with hj | rfl
      · exact hpassed j hj
      · simpa using hmore
    have hnodup : ((List.range (k + 1)).map fun j : Nat => latest + (j : Int) + 1).Nodup := by
      refine (List.nodup_range (n := k + 1)).map fun a b hab => ?_
      have : latest + (a : Int) + 1 = latest + (b : Int) + 1 := hab
      omega
    have hsubset : ((List.range (k + 1)).map fun j : Nat => latest + (j : Int) + 1) ⊆ senderPending.keys := by
      intro n hn
      obtain ⟨j, hj, rfl⟩ := List.mem_map.1 hn
      exact hall j hj
    have hlength := (hnodup.subperm hsubset).length_le
    simp only [List.length_map, List.length_range, PyDict.keys] at hlength
    omega

theorem getNextNonce_eq (committed : Option Int) (senderPending : SenderPending) :
    getNextNonce committed senderPending =
      climb senderPending senderPending.items.length (committed.getD (-1)) + 1 := by
  unfold getNextNonce getPendingNonce
  by_cases hempty : senderPending.isEmpty = true
  · rw [if_pos hempty, List.isEmpty_iff.1 hempty]
    rcases committed with _ | committed <;> rfl
  · rw [if_neg hempty]
    dsimp only
    split_ifs with hsame
    · rw [hsame]
      rcases committed with _ | committed <;> rfl
    · rfl

/-- Above what is committed, which is -1 where nothing is, and without a reservation. -/
def Unreserved (committed : Option Int) (senderPending : SenderPending) (n : Int) : Prop :=
  committed.getD (-1) < n ∧ senderPending.get? n = none

theorem getNextNonce_isLeast (committed : Option Int) (senderPending : SenderPending) :
    IsLeast {n | Unreserved committed senderPending n} (getNextNonce committed senderPending) := by
  obtain ⟨k, hclimb, hpassed, hfree⟩ := climb_stops senderPending (committed.getD (-1))
  rw [getNextNonce_eq, hclimb]
  constructor
  · refine ⟨by omega, ?_⟩
    simpa [PyDict.contains] using hfree
  · rintro n ⟨habove, hn⟩
    by_contra hlt
    obtain ⟨j, rfl⟩ : ∃ j : Nat, n = committed.getD (-1) + j + 1 := ⟨(n - committed.getD (-1) - 1).toNat, by omega⟩
    have hreserved := hpassed j (by omega)
    rw [PyDict.contains, hn] at hreserved
    cases hreserved

/-! ### One call -/

/-- The reservations of a sender that have not expired. -/
def liveOf (C : NonceSettings) (now : ℚ) (pending : PendingNonces) (sender : String) : SenderPending :=
  (pendingOf pending sender).filter fun _ r => !r.expired C now

theorem liveOf_eq_some {now : ℚ} {n : Int} {r : NonceReservation} :
    (liveOf C now pending sender).get? n = some r ↔
      (pendingOf pending sender).get? n = some r ∧ r.expired C now = false := by
  rw [liveOf, PyDict.get?_filter, Option.filter_eq_some_iff]
  simp

theorem NonceReservation.expired_mono {r : NonceReservation} {now later : ℚ} (h : now ≤ later)
    (hexpired : r.expired C now = true) : r.expired C later = true := by
  simp only [expired, decide_eq_true_eq] at hexpired ⊢
  obtain ⟨hpos, hlt⟩ := hexpired
  exact ⟨hpos, by linarith⟩

/-- Pruning twice is pruning at the later time. -/
theorem pendingOf_prune_prune (clock : ClockReads) :
    pendingOf (prunePendingForSender C clock.second sender (prunePendingForSender C clock.first sender pending)) sender' =
      if sender' = sender then liveOf C clock.second pending sender else pendingOf pending sender' := by
  rw [pendingOf_prune, pendingOf_prune, pendingOf_prune, if_pos rfl]
  split_ifs
  · refine PyDict.ext_items ?_
    simp only [PyDict.filter, liveOf, List.filter_filter]
    refine List.filter_congr fun p _ => ?_
    have hmono : p.2.expired C clock.first = true → p.2.expired C clock.second = true :=
      NonceReservation.expired_mono clock.first_le
    rcases hfirst : p.2.expired C clock.first
    · simp
    · simp [hmono hfirst]
  · rfl

/-- How `check_nonce` can end. -/
inductive Checked (C : NonceSettings) (clock : ClockReads) (committed : Option Int) (tx : NonceTx)
    (pending : PendingNonces) : Except PyErr Unit × PendingNonces → Prop
  -- the transaction has its reservation already
  | again (r : NonceReservation) (after : PendingNonces)
      (hreserved : (liveOf C clock.first pending tx.sender).get? tx.nonce = some r) (hhash : r.txHash = tx.hash)
      (hafter : ∀ sender, pendingOf after sender = if sender = tx.sender then
        (liveOf C clock.first pending tx.sender).set tx.nonce ⟨tx.hash, clock.second⟩ else pendingOf pending sender) :
      Checked C clock committed tx pending (.ok (), after)
  | reserved (after : PendingNonces)
      (hnonce : tx.nonce = getNextNonce committed (liveOf C clock.second pending tx.sender))
      (hroom : (liveOf C clock.second pending tx.sender).items.length < C.maxPendingNoncesPerSender)
      (hafter : ∀ sender, pendingOf after sender = if sender = tx.sender then
        (liveOf C clock.second pending tx.sender).set tx.nonce ⟨tx.hash, clock.third⟩ else pendingOf pending sender) :
      Checked C clock committed tx pending (.ok (), after)
  | rejected (e : PyErr) (after : PendingNonces)
      (hafter : ∀ sender, pendingOf after sender = if sender = tx.sender then liveOf C clock.second pending tx.sender
        else pendingOf pending sender) : Checked C clock committed tx pending (.error e, after)

theorem checkNonce_checked (clock : ClockReads) (committed : Option Int) (tx : NonceTx) (pending : PendingNonces) :
    Checked C clock committed tx pending (checkNonce C clock committed tx pending) := by
  have hfirst : ∀ sender, pendingOf (prunePendingForSender C clock.first tx.sender pending) sender =
      if sender = tx.sender then liveOf C clock.first pending tx.sender else pendingOf pending sender := fun _ =>
    pendingOf_prune clock.first
  have hown := hfirst tx.sender
  have hsecond : pendingOf (prunePendingForSender C clock.second tx.sender
      (prunePendingForSender C clock.first tx.sender pending)) tx.sender = liveOf C clock.second pending tx.sender := by
    rw [pendingOf_prune_prune, if_pos rfl]
  rw [if_pos rfl] at hown
  unfold checkNonce
  dsimp only
  rw [hown, hsecond]
  split_ifs with hexisting hnonce hroom
  · obtain ⟨r, hreserved, hhash⟩ := (Option.any_eq_true _ _).1 hexisting
    refine .again r _ hreserved (by simpa using hhash) fun sender => ?_
    rw [pendingOf_set, hfirst]
    split_ifs <;> rfl
  · exact .rejected _ _ fun sender => pendingOf_prune_prune clock
  · exact .rejected _ _ fun sender => pendingOf_prune_prune clock
  · refine .reserved _ (not_not.1 hnonce) (by omega) fun sender => ?_
    rw [pendingOf_set, pendingOf_prune_prune]
    split_ifs <;> rfl

/-! ### Every run -/

/-- No sender has more reservations than it may have. -/
def Bounded (C : NonceSettings) (s : NonceState) : Prop :=
  ∀ sender, (pendingOf s.pending sender).items.length ≤ C.maxPendingNoncesPerSender

structure NonceEvent.Safe (C : NonceSettings) (e : NonceEvent) : Prop where
  /-- A transaction that has no reservation yet is admitted at the smallest nonce above the committed one without a
  live reservation. -/
  least : ∀ checks tx clock, e.call = .admission checks tx clock → e.outcome = .admitted →
    (∀ r, (liveOf C clock.first e.before.pending tx.sender).get? tx.nonce = some r → r.txHash ≠ tx.hash) →
    IsLeast {n | Unreserved (e.before.committed tx.sender) (liveOf C clock.second e.before.pending tx.sender) n} tx.nonce
  /-- Only an expired reservation goes to another transaction. -/
  kept : ∀ sender n r r', (pendingOf e.before.pending sender).get? n = some r →
    (pendingOf e.after.pending sender).get? n = some r' → r'.txHash = r.txHash ∨
      ∃ checks tx clock, e.call = .admission checks tx clock ∧ r.expired C clock.second = true
  /-- A rejected transaction takes expired reservations away, and nothing else. -/
  rejected : ∀ checks tx clock, e.call = .admission checks tx clock → e.outcome = .rejected → ∀ sender n r,
    ((pendingOf e.after.pending sender).get? n = some r → (pendingOf e.before.pending sender).get? n = some r) ∧
    ((pendingOf e.before.pending sender).get? n = some r → r.expired C clock.second = false →
      (pendingOf e.after.pending sender).get? n = some r)
  bounded : Bounded C e.after
  reconciled : ∀ committed now, e.call = .commit committed now → ∀ sender n r,
    (pendingOf e.after.pending sender).get? n = some r → ∀ c, committed sender = some c → c < n

theorem length_liveOf_le (now : ℚ) (sender : String) :
    (liveOf C now pending sender).items.length ≤ (pendingOf pending sender).items.length :=
  PyDict.length_filter_le _ _

/-- A call whose effect on each sender is known. -/
theorem Bounded.of_pendingOf {s : NonceState} (h : Bounded C s) {after : PendingNonces} {committed : String → Option Int}
    {sender : String} {own : SenderPending} (hown : own.items.length ≤ C.maxPendingNoncesPerSender)
    (hafter : ∀ sender', pendingOf after sender' = if sender' = sender then own else pendingOf s.pending sender') :
    Bounded C ⟨after, committed⟩ := by
  intro sender'
  rw [hafter]
  split_ifs
  · exact hown
  · exact h sender'

theorem admission_safe {s : NonceState} (h : Bounded C s) (tx : NonceTx) (clock : ClockReads) :
    NonceEvent.Safe C ⟨s, .admission (.ok ()) tx clock, (nonceStep C s (.admission (.ok ()) tx clock)).1,
      (nonceStep C s (.admission (.ok ()) tx clock)).2⟩ := by
  have hchecked := checkNonce_checked (C := C) clock (s.committed tx.sender) tx s.pending
  unfold nonceStep
  dsimp only
  generalize checkNonce C clock (s.committed tx.sender) tx s.pending = outcome at hchecked
  cases hchecked with
  | again r after hreserved hhash hafter =>
    have hbefore := (liveOf_eq_some.1 hreserved).1
    constructor
    · intro _ tx' clock' hcall _ hnew
      obtain ⟨-, rfl, rfl⟩ := NonceCall.admission.inj hcall
      exact absurd hhash (hnew r hreserved)
    · intro sender n r₀ r' hr₀ hr'
      dsimp only at hr₀ hr'
      rw [hafter] at hr'
      split_ifs at hr' with hsender
      · subst hsender
        rw [PyDict.get?_set] at hr'
        split_ifs at hr' with hn
        · subst hn
          obtain rfl := Option.some.inj hr'
          obtain rfl := Option.some.inj (hbefore.symm.trans hr₀)
          exact .inl hhash.symm
        · obtain rfl := Option.some.inj ((liveOf_eq_some.1 hr').1.symm.trans hr₀)
          exact .inl rfl
      · obtain rfl := Option.some.inj (hr'.symm.trans hr₀)
        exact .inl rfl
    · intro _ _ _ _ hrejected
      cases hrejected
    · refine h.of_pendingOf ?_ hafter
      rw [PyDict.length_set, if_pos (PyDict.mem_keys_iff.2 ⟨r, hreserved⟩)]
      exact (length_liveOf_le _ _).trans (h tx.sender)
    · intro _ _ hcall
      cases hcall
  | reserved after hnonce hroom hafter =>
    constructor
    · intro _ tx' clock' hcall _ _
      obtain ⟨-, rfl, rfl⟩ := NonceCall.admission.inj hcall
      rw [hnonce]
      exact getNextNonce_isLeast _ _
    · intro sender n r₀ r' hr₀ hr'
      dsimp only at hr₀ hr'
      rw [hafter] at hr'
      split_ifs at hr' with hsender
      · subst hsender
        rw [PyDict.get?_set] at hr'
        split_ifs at hr' with hn
        · -- the nonce had no live reservation
          refine .inr ⟨_, tx, clock, rfl, ?_⟩
          have hfree := (getNextNonce_isLeast (s.committed tx.sender) (liveOf C clock.second s.pending tx.sender)).1.2
          rw [← hnonce, ← hn] at hfree
          by_contra hlive
          rw [liveOf_eq_some.2 ⟨hr₀, by simpa using hlive⟩] at hfree
          cases hfree
        · obtain rfl := Option.some.inj ((liveOf_eq_some.1 hr').1.symm.trans hr₀)
          exact .inl rfl
      · obtain rfl := Option.some.inj (hr'.symm.trans hr₀)
        exact .inl rfl
    · intro _ _ _ _ hrejected
      cases hrejected
    · refine h.of_pendingOf ?_ hafter
      rw [PyDict.length_set]
      split_ifs <;> omega
    · intro _ _ hcall
      cases hcall
  | rejected e after hafter =>
    constructor
    · intro _ _ _ _ hadmitted
      cases hadmitted
    · intro sender n r₀ r' hr₀ hr'
      dsimp only at hr₀ hr'
      rw [hafter] at hr'
      split_ifs at hr' with hsender
      · subst hsender
        obtain rfl := Option.some.inj ((liveOf_eq_some.1 hr').1.symm.trans hr₀)
        exact .inl rfl
      · obtain rfl := Option.some.inj (hr'.symm.trans hr₀)
        exact .inl rfl
    · intro _ tx' clock' hcall _ sender n r
      obtain ⟨-, rfl, rfl⟩ := NonceCall.admission.inj hcall
      dsimp only
      rw [hafter]
      split_ifs with hsender
      · subst hsender
        rw [liveOf_eq_some]
        exact ⟨And.left, And.intro⟩
      · exact ⟨id, fun hr _ => hr⟩
    · exact h.of_pendingOf ((length_liveOf_le _ _).trans (h tx.sender)) hafter
    · intro _ _ hcall
      cases hcall

theorem nonceStep_safe {s : NonceState} (h : Bounded C s) (call : NonceCall) :
    NonceEvent.Safe C ⟨s, call, (nonceStep C s call).1, (nonceStep C s call).2⟩ := by
  cases call with
  | admission checks tx clock =>
    rcases checks with e | ⟨⟩
    · -- the admission fails before it comes to the nonce
      constructor
      · intro _ _ _ _ hadmitted
        cases hadmitted
      · intro sender n r r' hr hr'
        obtain rfl := Option.some.inj (hr.symm.trans hr')
        exact .inl rfl
      · exact fun _ _ _ _ _ _ _ _ => ⟨id, fun hr _ => hr⟩
      · exact h
      · intro _ _ hcall
        cases hcall
    · exact admission_safe h tx clock
  | query sender now =>
    have hafter : ∀ sender', pendingOf (prunePendingForSender C now sender s.pending) sender' =
        if sender' = sender then liveOf C now s.pending sender else pendingOf s.pending sender' := fun _ =>
      pendingOf_prune now
    constructor
    · intro _ _ _ hcall
      cases hcall
    · intro sender' n r r' hr hr'
      change (pendingOf (prunePendingForSender C now sender s.pending) sender').get? n = some r' at hr'
      rw [hafter] at hr'
      split_ifs at hr' with hsender
      · subst hsender
        obtain rfl := Option.some.inj ((liveOf_eq_some.1 hr').1.symm.trans hr)
        exact .inl rfl
      · obtain rfl := Option.some.inj (hr'.symm.trans hr)
        exact .inl rfl
    · intro _ _ _ hcall
      cases hcall
    · exact h.of_pendingOf ((length_liveOf_le _ _).trans (h sender)) hafter
    · intro _ _ hcall
      cases hcall
  | commit committed now =>
    have hafter : ∀ sender, pendingOf (reconcilePending C now committed s.pending) sender =
        (liveOf C (now sender) s.pending sender).filter fun nonce _ => (committed sender).all (· < nonce) := fun _ =>
      pendingOf_reconcile now committed
    constructor
    · intro _ _ _ hcall
      cases hcall
    · intro sender n r r' hr hr'
      change (pendingOf (reconcilePending C now committed s.pending) sender).get? n = some r' at hr'
      rw [hafter, PyDict.get?_filter, Option.filter_eq_some_iff, liveOf_eq_some] at hr'
      obtain rfl := Option.some.inj (hr'.1.1.symm.trans hr)
      exact .inl rfl
    · intro _ _ _ hcall
      cases hcall
    · intro sender
      change (pendingOf (reconcilePending C now committed s.pending) sender).items.length ≤ _
      rw [hafter]
      exact (PyDict.length_filter_le _ _).trans ((length_liveOf_le _ _).trans (h sender))
    · intro committed' now' hcall sender n r hr c hc
      obtain ⟨rfl, rfl⟩ := NonceCall.commit.inj hcall
      change (pendingOf (reconcilePending C now committed s.pending) sender).get? n = some r at hr
      rw [hafter, PyDict.get?_filter, Option.filter_eq_some_iff, hc] at hr
      simpa using hr.2

/-- In every run from no reservations each call is safe. -/
theorem nonce_reservations_safe (C : NonceSettings) (committed : String → Option Int) (calls : List NonceCall) :
    ∀ e ∈ nonceRun C ⟨.empty, committed⟩ calls, e.Safe C := by
  have hrun : ∀ (calls : List NonceCall) (s : NonceState), Bounded C s → ∀ e ∈ nonceRun C s calls, e.Safe C := by
    intro calls
    induction calls with
    | nil =>
      intro s _ e he
      cases he
    | cons call calls ih =>
      intro s hs e he
      have hsafe := nonceStep_safe hs call
      rcases List.mem_cons.1 he with rfl | he
      · exact hsafe
      · exact ih _ hsafe.bounded e he
  refine hrun calls _ fun sender => ?_
  exact Nat.zero_le _

/-- The first transaction of a sender. -/
def firstAdmission : NonceCall := .admission (.ok ()) ⟨"ab", 0, "h0"⟩ ⟨5, 5, 5, le_rfl, le_rfl⟩

theorem nonce_reservations_safe_first :
    NonceEvent.Safe ⟨300, 2, by decide⟩ ⟨⟨.empty, fun _ => none⟩, firstAdmission, .admitted,
      (nonceStep ⟨300, 2, by decide⟩ ⟨.empty, fun _ => none⟩ firstAdmission).2⟩ := by
  have hadmitted : (nonceStep ⟨300, 2, by decide⟩ ⟨.empty, fun _ => none⟩ firstAdmission).1 = .admitted := by
    decide +kernel
  have hsafe := nonce_reservations_safe ⟨300, 2, by decide⟩ (fun _ => none) [firstAdmission] _ (List.mem_singleton_self _)
  rwa [hadmitted] at hsafe

end XianAbci
