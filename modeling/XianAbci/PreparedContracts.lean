import XianAbci.Builtins
import XianAbci.Lib.PyDict
import XianAbci.Lib.Reach

/-!
# The prepared-contract cache (`execution_engine.py`)

Before a contract runs, `prepare_vm_contract` walks its imports depth first: every contract met must
have a stored module, must not use a disabled feature, and must validate, and no contract may import
itself through others. What was prepared is kept for the life of the process under the contract's name
and the digest of its module, and a contract found there is not walked again.

The entry of a contract is written before its imports are walked, and stays when one of them raises.
So the cache is transparent exactly for the calls that meet a fault, if there is one, before they meet
the cache (`prepareVmContract_transparent_iff`).
-/

namespace XianAbci

structure VmPreparedContract where
  contractName : String
  artifactHash : String
  importedContracts : List String
deriving DecidableEq, Repr

abbrev PreparedCache := PyDict (String × String) VmPreparedContract

/-- What the VM package and the JSON module do with a module's text. -/
structure VmBindings where
  jsonLoads : String → Except PyErr Value
  usesZk : Value → Bool
  validateModuleIr : Value → Except PyErr Unit

/-- What the walk reads of a driver state: the stored modules and the zk switch. -/
structure ContractState where
  ir : PyDict String Value
  zkEnabled : Bool

section Prepare

variable (B : Builtins) (V : VmBindings)

def loadVmModuleIrJson (st : ContractState) (contractName : String) : Except PyErr (String × String) :=
  let err := PyErr.valueError ("xian_vm_v1 requires persisted __xian_ir_v1__ for contract '" ++ contractName ++
    "'; stored source is inspection-only")
  match st.ir.get? contractName with
  | some (.str text) => if text = "" then .error err else .ok (sha256Hex (encodeStr text), text)
  | _ => .error err

def rejectDisabledRuntimeFeatures (st : ContractState) (contractName : String) (moduleIr : Value) :
    Except PyErr Unit :=
  require (¬ (V.usesZk moduleIr = true ∧ st.zkEnabled = false))
    (.valueError ("contract '" ++ contractName ++ "' uses zk host syscalls, " ++
      "but the chain zk runtime feature is disabled"))

/-- `sorted({...})` of strings. -/
def sortedSet (names : List String) : List String := names.dedup.insertionSort (· ≤ ·)

def readImports (moduleIr : Value) : Except PyErr (List String) := do
  let imports ← (← moduleIr.get "imports" (.list [])).iter
  let names ← imports.mapM fun importSpec => do
    let module ← importSpec.get "module" .none
    return if B.truthy module then some (B.format module) else none
  return sortedSet (names.filterMap id)

/-- What every visit of a contract evaluates, cached or not: its digest and its module. -/
def enterContract (st : ContractState) (contractName : String) : Except PyErr (String × Value) := do
  let (artifactHash, moduleIrJson) ← loadVmModuleIrJson st contractName
  let moduleIr ← V.jsonLoads moduleIrJson
  rejectDisabledRuntimeFeatures V st contractName moduleIr
  return (artifactHash, moduleIr)

/-- What a visit evaluates where the contract is not in the cache: its imports. -/
def expandContract (moduleIr : Value) : Except PyErr (List String) := do
  V.validateModuleIr moduleIr
  readImports B moduleIr

/-- The loop over the imports; the first one that raises ends it. -/
def prepareImports (prepare : String → PreparedCache → Except PyErr VmPreparedContract × PreparedCache) :
    List String → PreparedCache → Except PyErr Unit × PreparedCache
  | [], cache => (.ok (), cache)
  | imported :: rest, cache =>
    match prepare imported cache with
    | (.error e, cache) => (.error e, cache)
    | (.ok _, cache) => prepareImports prepare rest cache

/-- `_prepare_vm_contract_bundle`, with the cache afterwards. The recursion is as deep as the stack, so
it ends; `fuel` bounds it for Lean (`prepareVmContract` gives enough). -/
def prepareVmContractBundle (st : ContractState) : Nat → List String → String → PreparedCache →
    Except PyErr VmPreparedContract × PreparedCache
  | 0, _, _, cache => (.error (.other "out of fuel"), cache)
  | fuel + 1, stack, contractName, cache =>
    if contractName ∈ stack then
      (.error (.valueError ("xian_vm_v1 import graph contains a cycle: " ++
        " -> ".intercalate (stack ++ [contractName]))), cache)
    else match enterContract V st contractName with
      | .error e => (.error e, cache)
      | .ok (artifactHash, moduleIr) =>
        match cache.get? (contractName, artifactHash) with
        | some cached => (.ok cached, cache)
        | none =>
          match expandContract B V moduleIr with
          | .error e => (.error e, cache)
          | .ok importedContracts =>
            let prepared : VmPreparedContract := ⟨contractName, artifactHash, importedContracts⟩
            match prepareImports (prepareVmContractBundle st fuel (stack ++ [contractName])) importedContracts
                (cache.set (contractName, artifactHash) prepared) with
            | (.error e, cache) => (.error e, cache)
            | (.ok _, cache) => (.ok prepared, cache)

def prepareVmContract (st : ContractState) (contractName : String) (cache : PreparedCache) :
    Except PyErr VmPreparedContract × PreparedCache :=
  prepareVmContractBundle B V st (st.ir.keys.length + 1) [] contractName cache

/-- The cache after a history of calls, whatever each of them returned or raised. -/
def preparedCache (history : List (ContractState × String)) : PreparedCache :=
  history.foldl (fun cache call => (prepareVmContract B V call.1 call.2 cache).2) .empty

end Prepare

/-! ### The import graph as the walk sees it -/

section Walk

variable (B : Builtins) (V : VmBindings) (C : PreparedCache) (st : ContractState)

/-- `n` is walked into `m`: `n` is not in the cache under its present digest, and imports `m`. -/
def ImportEdge (n m : String) : Prop :=
  ∃ h ir imports, enterContract V st n = .ok (h, ir) ∧ C.get? (n, h) = none ∧
    expandContract B V ir = .ok imports ∧ m ∈ imports

/-- A visit of `n` raises by itself: no module, a disabled feature, or, where it is not in the cache,
an invalid module. -/
def ImportFault (n : String) : Prop :=
  (∃ e, enterContract V st n = .error e) ∨
    ∃ h ir e, enterContract V st n = .ok (h, ir) ∧ C.get? (n, h) = none ∧ expandContract B V ir = .error e

/-- A fault or an import cycle is reachable from `n` through contracts that are not in the cache `C`. -/
def FaultReachable (n : String) : Prop := Reach.Fails (ImportEdge B V C st) (ImportFault B V C st) n

variable {B V C st}

theorem FaultReachable.empty {n : String} (h : FaultReachable B V C st n) : FaultReachable B V .empty st n := by
  refine Reach.Fails.mono (fun a b hab => ?_) (fun a ha => ?_) h
  · obtain ⟨h, ir, imports, henter, -, hexp, hb⟩ := hab
    exact ⟨h, ir, imports, henter, rfl, hexp, hb⟩
  · rcases ha with he | ⟨h, ir, e, henter, -, hexp⟩
    · exact .inl he
    · exact .inr ⟨h, ir, e, henter, rfl, hexp⟩

theorem enterContract_mem {n h : String} {ir : Value} (henter : enterContract V st n = .ok (h, ir)) :
    n ∈ st.ir.keys := by
  simp only [enterContract, bind_eq_ok] at henter
  obtain ⟨⟨h', text⟩, hload, -⟩ := henter
  unfold loadVmModuleIrJson at hload
  split at hload
  · rename_i hget
    exact PyDict.mem_keys_iff.2 ⟨_, hget⟩
  · cases hload

/-- The walk's cache holds the cache it started from, and otherwise contracts that are on the stack or
were walked to the end. -/
structure WalkInv (B : Builtins) (V : VmBindings) (C : PreparedCache) (st : ContractState)
    (stack : List String) (cache : PreparedCache) : Prop where
  extends_start : ∀ key p, C.get? key = some p → cache.get? key = some p
  finished : ∀ n h ir, enterContract V st n = .ok (h, ir) → cache.get? (n, h) ≠ none → C.get? (n, h) = none →
    n ∈ stack ∨ ¬ FaultReachable B V C st n

/-- The rule for the loop: from what one import does to what the loop does. -/
theorem prepareImports_spec {P : PreparedCache → Prop} {Bad : String → Prop}
    {prepare : String → PreparedCache → Except PyErr VmPreparedContract × PreparedCache} (l : List String)
    (hstep : ∀ n ∈ l, ∀ cache, P cache → (∃ e, (prepare n cache).1 = .error e ∧ Bad n) ∨
      (∃ p, (prepare n cache).1 = .ok p) ∧ ¬ Bad n ∧ P (prepare n cache).2)
    {cache : PreparedCache} (h : P cache) :
    (∃ e, (prepareImports prepare l cache).1 = .error e ∧ ∃ n ∈ l, Bad n) ∨
    (prepareImports prepare l cache).1 = .ok () ∧ (∀ n ∈ l, ¬ Bad n) ∧ P (prepareImports prepare l cache).2 := by
  induction l generalizing cache with
  | nil => exact .inr ⟨rfl, by simp, h⟩
  | cons n rest ih =>
    unfold prepareImports
    have hn := hstep n (List.mem_cons_self ..) cache h
    generalize prepare n cache = prepared at hn ⊢
    obtain ⟨r, cache'⟩ := prepared
    rcases hn with ⟨e, he, hbad⟩ | ⟨⟨p, hp⟩, hgood, h'⟩
    · dsimp only at he
      subst he
      exact .inl ⟨e, rfl, n, List.mem_cons_self .., hbad⟩
    · dsimp only at hp h'
      subst hp
      rcases ih (fun m hm => hstep m (List.mem_cons_of_mem _ hm)) h' with ⟨e, he, m, hm, hbad⟩ | ⟨hok, hall, hP⟩
      · exact .inl ⟨e, he, m, List.mem_cons_of_mem _ hm, hbad⟩
      · refine .inr ⟨hok, fun m hm => ?_, hP⟩
        rcases List.mem_cons.1 hm with rfl | hm
        · exact hgood
        · exact hall m hm

/-- The walk raises exactly where a fault or a cycle is reachable. The stack is a path to the contract;
what the walk has put into the cache does not matter, as it was walked to the end or is on the stack. -/
theorem prepareVmContractBundle_spec (fuel : Nat) (stack : List String) (n : String) (cache : PreparedCache)
    (hnd : stack.Nodup) (hmem : ∀ s ∈ stack, s ∈ st.ir.keys) (hfuel : st.ir.keys.length < fuel + stack.length)
    (hpath : ∀ s ∈ stack, Relation.TransGen (ImportEdge B V C st) s n) (hinv : WalkInv B V C st stack cache) :
    (∃ e, (prepareVmContractBundle B V st fuel stack n cache).1 = .error e ∧ FaultReachable B V C st n) ∨
    (∃ p, (prepareVmContractBundle B V st fuel stack n cache).1 = .ok p) ∧ ¬ FaultReachable B V C st n ∧
      WalkInv B V C st stack (prepareVmContractBundle B V st fuel stack n cache).2 := by
  induction fuel generalizing stack n cache with
  | zero =>
    have : stack.length ≤ st.ir.keys.length := (hnd.subperm hmem).length_le
    omega
  | succ fuel ih =>
    unfold prepareVmContractBundle
    split
    · rename_i hstack
      exact .inl ⟨_, rfl, .of_cycle (hpath n hstack)⟩
    rename_i hstack
    cases henter : enterContract V st n with
    | error e => exact .inl ⟨e, rfl, .of_fault (.inl ⟨e, henter⟩)⟩
    | ok entered =>
      obtain ⟨h, ir⟩ := entered
      dsimp only
      cases hcache : cache.get? (n, h) with
      | some p =>
        refine .inr ⟨⟨p, rfl⟩, ?_, hinv⟩
        cases hC : C.get? (n, h) with
        | none =>
          -- put there by this walk: it was walked to the end
          exact (hinv.finished n h ir henter (by rw [hcache]; simp) hC).resolve_left hstack
        | some q =>
          refine Reach.not_fails_of_children ?_ ?_
          · rintro (⟨e, he⟩ | ⟨h', ir', e, he, hnone, -⟩)
            · rw [henter] at he; cases he
            · rw [henter] at he
              cases he
              rw [hC] at hnone; cases hnone
          · rintro m ⟨h', ir', imports, he, hnone, -⟩
            rw [henter] at he
            cases he
            rw [hC] at hnone; cases hnone
      | none =>
        have hC : C.get? (n, h) = none := by
          cases hC : C.get? (n, h) with
          | none => rfl
          | some q => rw [hinv.extends_start _ q hC] at hcache; cases hcache
        cases hexp : expandContract B V ir with
        | error e => exact .inl ⟨e, rfl, .of_fault (.inr ⟨h, ir, e, henter, hC, hexp⟩)⟩
        | ok imports =>
          dsimp only
          have hedge : ∀ m ∈ imports, ImportEdge B V C st n m := fun m hm =>
            ⟨h, ir, imports, henter, hC, hexp, hm⟩
          have hn : n ∈ st.ir.keys := enterContract_mem henter
          have hinv' : WalkInv B V C st (stack ++ [n]) (cache.set (n, h) ⟨n, h, imports⟩) := by
            refine ⟨fun key p hp => ?_, fun n' h' ir' henter' hne hnone => ?_⟩
            · rw [PyDict.get?_set, if_neg]
              · exact hinv.extends_start key p hp
              · rintro rfl; rw [hC] at hp; cases hp
            · by_cases hsame : n' = n
              · exact .inl (by simp [hsame])
              · rw [PyDict.get?_set, if_neg (by simp [hsame])] at hne
                exact (hinv.finished n' h' ir' henter' hne hnone).imp (by simp +contextual) id
          have hstep : ∀ m ∈ imports, ∀ c, WalkInv B V C st (stack ++ [n]) c → _ := fun m hm c hc =>
            ih (stack ++ [n]) m c (List.nodup_append.2 ⟨hnd, by simp, fun a ha b hb => by
                rw [List.mem_singleton.1 hb]; exact fun hab => hstack (hab ▸ ha)⟩)
              (fun s hs => by
                rcases List.mem_append.1 hs with hs | hs
                · exact hmem s hs
                · rw [List.mem_singleton.1 hs]; exact hn)
              (by rw [List.length_append, List.length_singleton]; omega)
              (fun s hs => by
                rcases List.mem_append.1 hs with hs | hs
                · exact (hpath s hs).tail (hedge m hm)
                · rw [List.mem_singleton.1 hs]; exact .single (hedge m hm)) hc
          have hloop := prepareImports_spec imports hstep hinv'
          generalize prepareImports _ imports _ = walked at hloop ⊢
          obtain ⟨r, cache'⟩ := walked
          rcases hloop with ⟨e, he, m, hm, hbad⟩ | ⟨hok, hgood, hinv''⟩
          · dsimp only at he
            subst he
            exact .inl ⟨e, rfl, .of_edge (hedge m hm) hbad⟩
          · dsimp only at hok hinv''
            subst hok
            have hnot : ¬ FaultReachable B V C st n := by
              refine Reach.not_fails_of_children ?_ ?_
              · rintro (⟨e, he⟩ | ⟨h', ir', e, he, -, hexp'⟩)
                · rw [henter] at he; cases he
                · rw [henter] at he
                  cases he
                  rw [hexp] at hexp'; cases hexp'
              · rintro m ⟨h', ir', imports', he, -, hexp', hm⟩
                rw [henter] at he
                cases he
                rw [hexp] at hexp'
                cases hexp'
                exact hgood m hm
            refine .inr ⟨⟨_, rfl⟩, hnot, hinv''.extends_start, fun n' h' ir' henter' hne hnone => ?_⟩
            rcases hinv''.finished n' h' ir' henter' hne hnone with hs | hg
            · rcases List.mem_append.1 hs with hs | hs
              · exact .inl hs
              · rw [List.mem_singleton.1 hs]; exact .inr hnot
            · exact .inr hg

/-! ### What the cache holds -/

/-- The texts of the modules of a state. -/
def ContractState.texts (st : ContractState) : Set String := {text | ∃ n, st.ir.get? n = some (.str text)}

/-- Every entry was prepared from a valid module whose text is in `T`. -/
def CacheOk (B : Builtins) (V : VmBindings) (T : Set String) (cache : PreparedCache) : Prop :=
  ∀ n h p, cache.get? (n, h) = some p → ∃ text ∈ T, ∃ ir imports, sha256Hex (encodeStr text) = h ∧
    V.jsonLoads text = .ok ir ∧ expandContract B V ir = .ok imports ∧ p = ⟨n, h, imports⟩

theorem enterContract_text {n h : String} {ir : Value} (henter : enterContract V st n = .ok (h, ir)) :
    ∃ text ∈ st.texts, sha256Hex (encodeStr text) = h ∧ V.jsonLoads text = .ok ir := by
  simp only [enterContract, bind_eq_ok] at henter
  obtain ⟨⟨h', text⟩, hload, ir', hjson, -, -, henter⟩ := henter
  cases henter
  unfold loadVmModuleIrJson at hload
  split at hload
  · rename_i text' hget
    split at hload
    · cases hload
    · cases hload
      exact ⟨text, ⟨n, hget⟩, rfl, hjson⟩
  · cases hload

theorem prepareImports_preserves {P : PreparedCache → Prop}
    {prepare : String → PreparedCache → Except PyErr VmPreparedContract × PreparedCache}
    (hstep : ∀ n cache, P cache → P (prepare n cache).2) (l : List String) {cache : PreparedCache} (h : P cache) :
    P (prepareImports prepare l cache).2 := by
  induction l generalizing cache with
  | nil => exact h
  | cons n rest ih =>
    unfold prepareImports
    have hn := hstep n cache h
    generalize prepare n cache = prepared at hn ⊢
    obtain ⟨_ | _, cache'⟩ := prepared
    · exact hn
    · exact ih hn

/-- A call keeps the cache in order, also when it raises. -/
theorem CacheOk.bundle {T : Set String} (hT : st.texts ⊆ T) (fuel : Nat) (stack : List String) (n : String)
    {cache : PreparedCache} (h : CacheOk B V T cache) :
    CacheOk B V T (prepareVmContractBundle B V st fuel stack n cache).2 := by
  induction fuel generalizing stack n cache with
  | zero => exact h
  | succ fuel ih =>
    unfold prepareVmContractBundle
    split
    · exact h
    cases henter : enterContract V st n with
    | error e => exact h
    | ok entered =>
      obtain ⟨hash, ir⟩ := entered
      dsimp only
      cases hcache : cache.get? (n, hash) with
      | some p => exact h
      | none =>
        cases hexp : expandContract B V ir with
        | error e => exact h
        | ok imports =>
          dsimp only
          have hset : CacheOk B V T (cache.set (n, hash) ⟨n, hash, imports⟩) := by
            intro n' h' p hp
            rw [PyDict.get?_set] at hp
            split at hp
            · rename_i hkey
              cases hkey
              cases hp
              obtain ⟨text, htext, hhash, hjson⟩ := enterContract_text henter
              exact ⟨text, hT htext, ir, imports, hhash, hjson, hexp, rfl⟩
            · exact h n' h' p hp
          have hloop := prepareImports_preserves (fun m c hc => ih (stack ++ [n]) m hc) imports hset
          generalize prepareImports _ imports _ = walked at hloop ⊢
          obtain ⟨_ | _, cache'⟩ := walked
          · exact hloop
          · exact hloop

theorem CacheOk.preparedCache {T : Set String} (history : List (ContractState × String))
    (hT : ∀ call ∈ history, call.1.texts ⊆ T) : CacheOk B V T (preparedCache B V history) := by
  unfold XianAbci.preparedCache
  have h₀ : CacheOk B V T .empty := fun n h p hp => by cases hp
  revert h₀
  generalize (PyDict.empty : PreparedCache) = cache
  induction history generalizing cache with
  | nil => exact id
  | cons call rest ih =>
    intro h
    exact ih (fun c hc => hT c (List.mem_cons_of_mem _ hc)) _ (h.bundle (hT call (List.mem_cons_self ..)) _ _ _)

/-- What a call returns is prepared from the present module, also when it comes from the cache. -/
theorem prepareVmContractBundle_value {T : Set String} (hT : st.texts ⊆ T)
    (hsha : Set.InjOn (fun text => sha256Hex (encodeStr text)) T) {fuel : Nat} {stack : List String} {n : String}
    {cache cache' : PreparedCache} {p : VmPreparedContract} (h : CacheOk B V T cache)
    (hp : prepareVmContractBundle B V st fuel stack n cache = (.ok p, cache')) :
    ∃ hash ir imports, enterContract V st n = .ok (hash, ir) ∧ expandContract B V ir = .ok imports ∧
      p = ⟨n, hash, imports⟩ := by
  cases fuel with
  | zero => cases hp
  | succ fuel =>
    unfold prepareVmContractBundle at hp
    split at hp
    · cases hp
    cases henter : enterContract V st n with
    | error e => rw [henter] at hp; cases hp
    | ok entered =>
      obtain ⟨hash, ir⟩ := entered
      rw [henter] at hp
      dsimp only at hp
      cases hcache : cache.get? (n, hash) with
      | some q =>
        rw [hcache] at hp
        cases hp
        obtain ⟨text, htext, ir', imports, hhash, hjson, hexp, rfl⟩ := h n hash p hcache
        obtain ⟨text', htext', hhash', hjson'⟩ := enterContract_text henter
        have : text = text' := hsha htext (hT htext') (hhash.trans hhash'.symm)
        subst this
        rw [hjson] at hjson'
        cases hjson'
        exact ⟨hash, ir, imports, rfl, hexp, rfl⟩
      | none =>
        rw [hcache] at hp
        dsimp only at hp
        cases hexp : expandContract B V ir with
        | error e => rw [hexp] at hp; cases hp
        | ok imports =>
          rw [hexp] at hp
          dsimp only at hp
          split at hp
          · cases hp
          · cases hp
            exact ⟨hash, ir, imports, rfl, hexp, rfl⟩

theorem prepareVmContract_spec (st : ContractState) (n : String) (cache : PreparedCache) :
    ((∃ e, (prepareVmContract B V st n cache).1 = .error e) ∧ FaultReachable B V cache st n) ∨
    ((∃ p, (prepareVmContract B V st n cache).1 = .ok p) ∧ ¬ FaultReachable B V cache st n) := by
  have hinv : WalkInv B V cache st [] cache :=
    ⟨fun _ _ h => h, fun _ _ _ _ hne hnone => absurd hnone hne⟩
  rcases prepareVmContractBundle_spec (st.ir.keys.length + 1) [] n cache .nil (by simp) (by simp) (by simp)
    hinv with ⟨e, he, hbad⟩ | ⟨hok, hgood, -⟩
  · exact .inl ⟨⟨e, he⟩, hbad⟩
  · exact .inr ⟨hok, hgood⟩

/-- After every history of calls, a call does what it does with an empty cache exactly when, if a fault
or a cycle is reachable from the contract, one is reachable without passing through the cache. -/
theorem prepareVmContract_transparent_iff (history : List (ContractState × String)) (st : ContractState)
    (n : String)
    (hsha : Set.InjOn (fun text => sha256Hex (encodeStr text))
      {text | text ∈ st.texts ∨ ∃ call ∈ history, text ∈ call.1.texts}) :
    (prepareVmContract B V st n (preparedCache B V history)).1.toOption =
        (prepareVmContract B V st n .empty).1.toOption ↔
      (FaultReachable B V .empty st n → FaultReachable B V (preparedCache B V history) st n) := by
  generalize hTdef : {text | text ∈ st.texts ∨ ∃ call ∈ history, text ∈ call.1.texts} = T at hsha
  have hT : st.texts ⊆ T := by
    rw [← hTdef]; exact fun text h => .inl h
  have hok : CacheOk B V T (preparedCache B V history) := by
    refine CacheOk.preparedCache history fun call hcall text htext => ?_
    rw [← hTdef]; exact .inr ⟨call, hcall, htext⟩
  have hempty : CacheOk B V T .empty := fun n h p hp => by cases hp
  generalize preparedCache B V history = cache at hok ⊢
  rcases prepareVmContract_spec (B := B) (V := V) st n .empty with ⟨⟨e₀, he₀⟩, hbad₀⟩ | ⟨⟨p₀, hp₀⟩, hgood₀⟩
  · rcases prepareVmContract_spec (B := B) (V := V) st n cache with ⟨⟨e, he⟩, hbad⟩ | ⟨⟨p, hp⟩, hgood⟩
    · rw [he₀, he]
      exact ⟨fun _ _ => hbad, fun _ => rfl⟩
    · rw [he₀, hp]
      constructor
      · intro h; cases h
      · intro h; exact absurd (h hbad₀) hgood
  · rcases prepareVmContract_spec (B := B) (V := V) st n cache with ⟨⟨e, he⟩, hbad⟩ | ⟨⟨p, hp⟩, hgood⟩
    · exact absurd hbad.empty hgood₀
    · rw [hp₀, hp]
      refine ⟨fun _ h => absurd h hgood₀, fun _ => ?_⟩
      obtain ⟨hash, ir, imports, henter, hexp, rfl⟩ := prepareVmContractBundle_value hT hsha hok
        (Prod.ext hp rfl : prepareVmContract B V st n cache = (.ok p, _))
      obtain ⟨hash', ir', imports', henter', hexp', rfl⟩ := prepareVmContractBundle_value hT hsha hempty
        (Prod.ext hp₀ rfl : prepareVmContract B V st n .empty = (.ok p₀, _))
      rw [henter] at henter'
      cases henter'
      rw [hexp] at hexp'
      cases hexp'
      rfl

end Walk

/-! ### A parent that is asked for before its child is there -/

/-- The module of a contract without functions that imports the given contracts. -/
def moduleIr (name : String) (imports : List String) : Value :=
  .dict [("functions", .list []), ("global_declarations", .list []), ("imports", .list (imports.map fun m =>
      .dict [("alias", .none), ("module", .str m), ("node", .str "import")])),
    ("ir_version", .str "xian_ir_v1"), ("module_name", .str name), ("vm_profile", .str "xian_vm_v1")]

def parentText : String :=
  "\x7b\"functions\":[],\"global_declarations\":[],\"imports\":[\x7b\"alias\":null," ++
  "\"module\":\"con_child\",\"node\":\"import\"\x7d],\"ir_version\":\"xian_ir_v1\"," ++
  "\"module_name\":\"con_parent\",\"vm_profile\":\"xian_vm_v1\"\x7d"

def childText : String :=
  "\x7b\"functions\":[],\"global_declarations\":[],\"imports\":[],\"ir_version\":\"xian_ir_v1\"," ++
  "\"module_name\":\"con_child\",\"vm_profile\":\"xian_vm_v1\"\x7d"

/-- Bindings that see these two modules only, and find both valid. -/
def familyBindings : VmBindings where
  jsonLoads text := .ok (if text = childText then moduleIr "con_child" [] else moduleIr "con_parent" ["con_child"])
  usesZk _ := false
  validateModuleIr _ := .ok ()

def parentOnly : ContractState := ⟨.ofList [("con_parent", .str parentText)], true⟩

def parentAndChild : ContractState :=
  ⟨.ofList [("con_parent", .str parentText), ("con_child", .str childText)], true⟩

theorem prepareVmContract_transparent_iff_deployed :
    let cache := preparedCache .plain familyBindings [(parentOnly, "con_parent")]
    (prepareVmContract .plain familyBindings parentAndChild "con_parent" cache).1.toOption =
        (prepareVmContract .plain familyBindings parentAndChild "con_parent" .empty).1.toOption ↔
      (FaultReachable .plain familyBindings .empty parentAndChild "con_parent" →
        FaultReachable .plain familyBindings cache parentAndChild "con_parent") := by
  have hne : sha256Hex (encodeStr parentText) ≠ sha256Hex (encodeStr childText) := by decide +kernel
  have htexts : ∀ text, (text ∈ parentAndChild.texts ∨
      ∃ call ∈ [(parentOnly, "con_parent")], text ∈ call.1.texts) → text = parentText ∨ text = childText := by
    have hmem : ∀ (d : PyDict String Value) n text, d.get? n = some (.str text) → Value.str text ∈ d.values :=
      fun d n text h => List.mem_map.2 ⟨_, PyDict.mem_items_iff.2 h, rfl⟩
    rintro text (⟨n, hn⟩ | ⟨call, hcall, n, hn⟩)
    · have : Value.str text ∈ [Value.str parentText, Value.str childText] := hmem _ n text hn
      simpa using this
    · rw [List.mem_singleton.1 hcall] at hn
      have : Value.str text ∈ [Value.str parentText] := hmem _ n text hn
      exact .inl (by simpa using this)
  refine prepareVmContract_transparent_iff _ _ _ fun a ha b hb hab => ?_
  rcases htexts a ha with rfl | rfl <;> rcases htexts b hb with rfl | rfl
  · rfl
  · exact absurd hab hne
  · exact absurd hab.symm hne
  · rfl

/-- The first call raises on the missing import and leaves the parent in the cache: the second call
returns it. -/
theorem prepareVmContract_not_transparent :
    let cache := preparedCache .plain familyBindings [(parentOnly, "con_parent")]
    (prepareVmContract .plain familyBindings parentOnly "con_parent" .empty).1.toOption = none ∧
      (prepareVmContract .plain familyBindings parentOnly "con_parent" cache).1.toOption =
        some ⟨"con_parent", sha256Hex (encodeStr parentText), ["con_child"]⟩ := by
  decide +kernel

end XianAbci
