import AmmState.Lib.Newest
import AmmState.Slipstream.FeeEvidence

/-! The fee-evidence store keeps the newest records of each chain: beside the store without a bound, it holds as many
    records as fit and leaves out none that is newer than one it holds. -/

namespace AmmState.Slipstream
open V3 Checked

inductive EvidenceOp
  | inject (evidence : SlipstreamSwapFeeEvidence)
  | remove (evidence : SlipstreamSwapFeeEvidence)
  | prune (chainId minimumBlock : Nat)
  | retainForBlock (chainId blockNumber : Nat) (canonicalHash : B256)

def EvidenceOp.chainId : EvidenceOp → Nat
  | .inject evidence | .remove evidence => evidence.chainId
  | .prune chainId _ | .retainForBlock chainId _ _ => chainId

/-- The keys that an operation leaves in the store. -/
def EvidenceOp.keeps : EvidenceOp → SlipstreamFeeEvidenceKey → Bool
  | .inject _, _ => true
  | .remove evidence, key => decide (key ≠ .fromEvidence evidence)
  | .prune chainId minimumBlock, key => decide (key.chainId ≠ chainId ∨ minimumBlock ≤ key.blockNumber)
  | .retainForBlock chainId blockNumber canonicalHash, key =>
    decide (key.chainId ≠ chainId ∨ key.blockNumber ≠ blockNumber ∨ key.blockHash = canonicalHash)

namespace FeeEvidenceStore

def apply (store : FeeEvidenceStore) : EvidenceOp → FeeEvidenceStore
  | .inject evidence => (store.injectSlipstreamFeeEvidence evidence).2
  | .remove evidence => (store.removeSlipstreamFeeEvidence evidence).2
  | .prune chainId minimumBlock => (store.pruneSlipstreamFeeEvidence chainId minimumBlock).2
  | .retainForBlock chainId blockNumber canonicalHash =>
    (store.retainSlipstreamFeeEvidenceForBlock chainId blockNumber canonicalHash).2

def applyAll (store : FeeEvidenceStore) (ops : List EvidenceOp) : FeeEvidenceStore := ops.foldl apply store

def injectUnbounded (live : FeeEvidenceStore) (evidence : SlipstreamSwapFeeEvidence) : FeeEvidenceStore :=
  match validate evidence with
  | .ok () => live.insert (.fromEvidence evidence) evidence
  | .error _ => live

/-- The store without a bound: what was injected and neither removed nor pruned since. -/
def applyUnbounded (live : FeeEvidenceStore) : EvidenceOp → FeeEvidenceStore
  | .inject evidence => live.injectUnbounded evidence
  | op => live.retain fun key _ => op.keeps key

def applyAllUnbounded (live : FeeEvidenceStore) (ops : List EvidenceOp) : FeeEvidenceStore := ops.foldl applyUnbounded live

def onChain (store : FeeEvidenceStore) (chainId : Nat) : Finset SlipstreamFeeEvidenceKey :=
  (store.chainKeys chainId).toFinset

/-- The store holds the newest of the live records of a chain, as they were last injected. -/
structure Retains (chainId : Nat) (live store : FeeEvidenceStore) : Prop where
  newest : Newest (·.order) MAX_SLIPSTREAM_FEE_EVIDENCE_PER_CHAIN (live.onChain chainId) (store.onChain chainId)
  values : ∀ key ∈ store.onChain chainId, store.get key = live.get key

/-- What a removal by name or by block hash must find: all that it leaves is retained, or nothing retained goes. -/
def Meets (chainId : Nat) (live store : FeeEvidenceStore) : EvidenceOp → Prop
  | .inject _ | .prune _ _ => True
  | op => (∀ key ∈ live.onChain chainId, op.keeps key = true → key ∈ store.onChain chainId) ∨
      ∀ key ∈ store.onChain chainId, op.keeps key = true

def RunMeets (chainId : Nat) : FeeEvidenceStore → FeeEvidenceStore → List EvidenceOp → Prop
  | _, _, [] => True
  | live, store, op :: ops => Meets chainId live store op ∧ RunMeets chainId (live.applyUnbounded op) (store.apply op) ops

section
variable {store live : FeeEvidenceStore} {chainId : Nat} {key : SlipstreamFeeEvidenceKey}
  {evidence : SlipstreamSwapFeeEvidence} {op : EvidenceOp}

/-! ### The keys of a chain -/

theorem mem_onChain : key ∈ store.onChain chainId ↔ (store.get key).isSome ∧ key.chainId = chainId := by
  rw [onChain, List.mem_toFinset, chainKeys, List.mem_filter, SortedMap.mem_keys, decide_eq_true_eq]

theorem card_onChain : (store.onChain chainId).card = (store.chainKeys chainId).length :=
  List.toFinset_card_of_nodup ((SortedMap.nodup_keys store).filter _)

theorem onChain_insert (h : key.chainId = chainId) :
    onChain (store.insert key evidence) chainId = insert key (store.onChain chainId) := by
  ext other
  rw [Finset.mem_insert, mem_onChain, mem_onChain, SortedMap.get_insert]
  by_cases hkey : other = key
  · simp [hkey, h]
  · simp [hkey]

theorem mem_onChain_insert {key' : SlipstreamFeeEvidenceKey} (h : key' ∈ store.onChain chainId) :
    key' ∈ onChain (store.insert key evidence) chainId := by
  rw [mem_onChain, SortedMap.get_insert]
  refine ⟨?_, (mem_onChain.mp h).2⟩
  split
  · rfl
  · exact (mem_onChain.mp h).1

theorem onChain_retain (keep : SlipstreamFeeEvidenceKey → Bool) :
    onChain (store.retain fun key _ => keep key) chainId = (store.onChain chainId).filter (keep · = true) := by
  ext other
  rw [Finset.mem_filter, mem_onChain, mem_onChain, SortedMap.get_retain]
  cases keep other <;> simp

theorem onChain_erase (key : SlipstreamFeeEvidenceKey) :
    onChain (store.erase key) chainId = (store.onChain chainId).erase key := by
  rw [SortedMap.erase, onChain_retain fun other => decide (other ≠ key)]
  ext other
  simp [and_comm]

/-- The same records on one chain. -/
def SameOn (chainId : Nat) (store store' : FeeEvidenceStore) : Prop :=
  ∀ key : SlipstreamFeeEvidenceKey, key.chainId = chainId → store'.get key = store.get key

theorem SameOn.onChain {store' : FeeEvidenceStore} (h : SameOn chainId store store') :
    store'.onChain chainId = store.onChain chainId := by
  ext key
  rw [mem_onChain, mem_onChain]
  exact and_congr_left fun hkey => by rw [h key hkey]

/-! ### One operation -/

theorem apply_of_keeps (store live : FeeEvidenceStore) (h : ∀ evidence, op ≠ .inject evidence) :
    store.apply op = store.retain (fun key _ => op.keeps key) ∧
      live.applyUnbounded op = live.retain (fun key _ => op.keeps key) := by
  cases op with
  | inject evidence => exact absurd rfl (h evidence)
  | remove evidence => exact ⟨rfl, rfl⟩
  | prune chainId minimumBlock => exact ⟨rfl, rfl⟩
  | retainForBlock chainId blockNumber canonicalHash => exact ⟨rfl, rfl⟩

/-- What an injection does: nothing, a store where there is room or an earlier record, or a store in place of the
    oldest. -/
theorem inject_cases (store : FeeEvidenceStore) (evidence : SlipstreamSwapFeeEvidence) :
    ((∃ error, validate evidence = .error error) ∧ store.apply (.inject evidence) = store) ∨
    (validate evidence = .ok () ∧
      let key := SlipstreamFeeEvidenceKey.fromEvidence evidence
      (key ∈ store.onChain evidence.chainId ∨
        (store.onChain evidence.chainId).card < MAX_SLIPSTREAM_FEE_EVIDENCE_PER_CHAIN) ∧
        store.apply (.inject evidence) = store.insert key evidence ∨
      key ∉ store.onChain evidence.chainId ∧
        MAX_SLIPSTREAM_FEE_EVIDENCE_PER_CHAIN ≤ (store.onChain evidence.chainId).card ∧
        ∃ oldest ∈ store.onChain evidence.chainId, (∀ other ∈ store.onChain evidence.chainId, oldest.order ≤ other.order) ∧
          (key.order ≤ oldest.order ∧ store.apply (.inject evidence) = store ∨
            oldest.order < key.order ∧
              store.apply (.inject evidence) = SortedMap.insert (store.erase oldest) key evidence)) := by
  have happly : store.apply (.inject evidence) = (store.injectSlipstreamFeeEvidence evidence).2 := rfl
  rw [happly, injectSlipstreamFeeEvidence]
  cases hvalid : validate evidence with
  | error error => exact .inl ⟨⟨error, rfl⟩, rfl⟩
  | ok _ =>
    refine .inr ⟨rfl, ?_⟩
    have hkey : (SlipstreamFeeEvidenceKey.fromEvidence evidence).chainId = evidence.chainId := rfl
    simp only []
    cases hget : SortedMap.get store (.fromEvidence evidence) with
    | some previous => exact .inl ⟨.inl (mem_onChain.mpr ⟨Option.isSome_of_eq_some hget, hkey⟩), rfl⟩
    | none =>
      have hnot : SlipstreamFeeEvidenceKey.fromEvidence evidence ∉ store.onChain evidence.chainId := fun h => by
        simpa [hget] using (mem_onChain.mp h).1
      by_cases hroom : (store.chainKeys evidence.chainId).length < MAX_SLIPSTREAM_FEE_EVIDENCE_PER_CHAIN
      · exact .inl ⟨.inr (card_onChain.trans_lt hroom), congrArg Prod.snd (dif_pos hroom)⟩
      · have hfull := Nat.le_of_not_lt hroom
        have holdest := (oldest (store.chainKeys evidence.chainId) hfull).property
        refine .inr ⟨hnot, card_onChain.symm ▸ hfull, (oldest (store.chainKeys evidence.chainId) hfull).val,
          List.mem_toFinset.mpr (List.argmin_mem holdest),
          fun other hother => List.le_of_mem_argmin (List.mem_toFinset.mp hother) holdest, ?_⟩
        rw [dif_neg hroom]
        by_cases hle : (SlipstreamFeeEvidenceKey.fromEvidence evidence).order ≤
            (oldest (store.chainKeys evidence.chainId) hfull).val.order
        · exact .inl ⟨hle, congrArg Prod.snd (if_pos hle)⟩
        · exact .inr ⟨not_le.mp hle, congrArg Prod.snd (if_neg hle)⟩

/-- An operation on one chain leaves every other chain alone. -/
theorem apply_sameOn (store live : FeeEvidenceStore) (h : op.chainId ≠ chainId) :
    SameOn chainId store (store.apply op) ∧ SameOn chainId live (live.applyUnbounded op) := by
  by_cases hop : ∀ evidence, op ≠ .inject evidence
  · obtain ⟨hstore, hlive⟩ := apply_of_keeps store live hop
    have hkeeps : ∀ key : SlipstreamFeeEvidenceKey, key.chainId = chainId → op.keeps key = true := by
      rintro key rfl
      cases op with
      | inject evidence => rfl
      | remove evidence => exact decide_eq_true fun heq => h (heq ▸ rfl)
      | prune other minimumBlock => exact decide_eq_true (.inl (Ne.symm h))
      | retainForBlock other blockNumber canonicalHash => exact decide_eq_true (.inl (Ne.symm h))
    rw [hstore, hlive]
    exact ⟨fun key hkey => by rw [SortedMap.get_retain, if_pos (hkeeps key hkey)],
      fun key hkey => by rw [SortedMap.get_retain, if_pos (hkeeps key hkey)]⟩
  · push Not at hop
    obtain ⟨evidence, rfl⟩ := hop
    have hne : ∀ key : SlipstreamFeeEvidenceKey, key.chainId = chainId → key ≠ .fromEvidence evidence :=
      fun key hkey heq => h (hkey ▸ heq ▸ rfl)
    have hinsert : ∀ store : FeeEvidenceStore, SameOn chainId store (store.insert (.fromEvidence evidence) evidence) :=
      fun store key hkey => by rw [SortedMap.get_insert, if_neg (hne key hkey)]
    refine ⟨?_, ?_⟩
    · rcases inject_cases store evidence with ⟨-, heq⟩ | ⟨-, ⟨-, heq⟩ | ⟨-, -, oldest, holdest, -, ⟨-, heq⟩ | ⟨-, heq⟩⟩⟩
      · rw [heq]
        exact fun _ _ => rfl
      · rw [heq]
        exact hinsert store
      · rw [heq]
        exact fun _ _ => rfl
      · rw [heq]
        intro key hkey
        have hne' : key ≠ oldest := fun hold => h ((mem_onChain.mp holdest).2.symm.trans (hold ▸ hkey))
        rw [hinsert _ key hkey, SortedMap.erase, SortedMap.get_retain _ fun other => decide (other ≠ oldest),
          if_pos (decide_eq_true hne')]
    · show SameOn chainId live (live.injectUnbounded evidence)
      unfold injectUnbounded
      cases validate evidence with
      | ok _ => exact hinsert live
      | error _ => exact fun _ _ => rfl

namespace Retains

theorem of_sameOn {live' store' : FeeEvidenceStore} (h : Retains chainId live store) (hlive : SameOn chainId live live')
    (hstore : SameOn chainId store store') : Retains chainId live' store' where
  newest := by
    rw [hlive.onChain, hstore.onChain]
    exact h.newest
  values key hkey := by
    rw [hstore.onChain] at hkey
    have hchain := (mem_onChain.mp hkey).2
    rw [hstore key hchain, hlive key hchain]
    exact h.values key hkey

theorem insert (h : Retains chainId live store) (hkey : key.chainId = chainId)
    (hnewest : Newest (·.order) MAX_SLIPSTREAM_FEE_EVIDENCE_PER_CHAIN (Insert.insert key (live.onChain chainId))
      (Insert.insert key (store.onChain chainId))) :
    Retains chainId (SortedMap.insert live key evidence) (SortedMap.insert store key evidence) where
  newest := by
    rw [onChain_insert hkey, onChain_insert hkey]
    exact hnewest
  values other hother := by
    rw [onChain_insert hkey] at hother
    rw [SortedMap.get_insert, SortedMap.get_insert]
    split
    · rfl
    · exact h.values other ((Finset.mem_insert.mp hother).resolve_left ‹_›)

/-- An injection keeps the newest records: it stores where there is room, and else in place of the oldest or not at
    all. -/
theorem inject (h : Retains evidence.chainId live store) :
    Retains evidence.chainId (live.applyUnbounded (.inject evidence)) (store.apply (.inject evidence)) := by
  have hchain : (SlipstreamFeeEvidenceKey.fromEvidence evidence).chainId = evidence.chainId := rfl
  rcases inject_cases store evidence with ⟨⟨error, hinvalid⟩, heq⟩ | ⟨hvalid, hcases⟩
  · rw [heq, applyUnbounded, injectUnbounded, hinvalid]
    exact h
  · have hlive : live.applyUnbounded (.inject evidence) = live.insert (.fromEvidence evidence) evidence := by
      rw [applyUnbounded, injectUnbounded, hvalid]
    rw [hlive]
    rcases hcases with ⟨hroom, heq⟩ | ⟨hnot, hfull, oldest, holdest, hmin, ⟨hle, heq⟩ | ⟨hlt, heq⟩⟩
    · rw [heq]
      refine h.insert hchain ?_
      by_cases hmem : SlipstreamFeeEvidenceKey.fromEvidence evidence ∈ store.onChain evidence.chainId
      · rw [Finset.insert_eq_of_mem hmem]
        exact h.newest.insert_mem hmem
      · exact h.newest.insert_room (hroom.resolve_left hmem) hmem
    · have hcard := Nat.le_antisymm h.newest.card_le hfull
      rw [heq]
      refine ⟨?_, fun other hother => ?_⟩
      · rw [onChain_insert hchain]
        exact h.newest.insert_reject hcard fun other hother => hle.trans (hmin other hother)
      · have hne : other ≠ .fromEvidence evidence := fun hsame => hnot (hsame ▸ hother)
        rw [SortedMap.get_insert, if_neg hne]
        exact h.values other hother
    · have hcard := Nat.le_antisymm h.newest.card_le hfull
      rw [heq]
      refine ⟨?_, fun other hother => ?_⟩
      · rw [onChain_insert hchain, onChain_insert hchain, onChain_erase]
        exact h.newest.insert_evict hnot holdest hmin hlt hcard
      · rw [onChain_insert hchain, onChain_erase] at hother
        rw [SortedMap.get_insert, SortedMap.get_insert]
        split
        · rfl
        · have hother := (Finset.mem_insert.mp hother).resolve_left ‹_›
          rw [SortedMap.erase, SortedMap.get_retain _ fun other => decide (other ≠ oldest),
            if_pos (decide_eq_true (Finset.ne_of_mem_erase hother))]
          exact h.values other (Finset.mem_of_mem_erase hother)

theorem retain (h : Retains chainId live store) (keep : SlipstreamFeeEvidenceKey → Bool)
    (hnewest : Newest (·.order) MAX_SLIPSTREAM_FEE_EVIDENCE_PER_CHAIN ((live.onChain chainId).filter (keep · = true))
      ((store.onChain chainId).filter (keep · = true))) :
    Retains chainId (SortedMap.retain live fun key _ => keep key) (SortedMap.retain store fun key _ => keep key) where
  newest := by
    rw [onChain_retain, onChain_retain]
    exact hnewest
  values key hkey := by
    rw [onChain_retain] at hkey
    obtain ⟨hmem, hkeep⟩ := Finset.mem_filter.mp hkey
    rw [SortedMap.get_retain, SortedMap.get_retain, if_pos hkeep, if_pos hkeep]
    exact h.values key hmem

/-- Pruning drops the old records, of whatever is live. -/
theorem prune (h : Retains chainId live store) (minimumBlock : Nat) :
    Retains chainId (live.applyUnbounded (.prune chainId minimumBlock)) (store.apply (.prune chainId minimumBlock)) := by
  refine h.retain (EvidenceOp.prune chainId minimumBlock).keeps (h.newest.filter_of_upward ?_)
  intro key hkey other _ horder hkeeps
  have hblock : key.blockNumber ≤ other.blockNumber := by
    rcases Prod.Lex.toLex_le_toLex.mp horder with hlt | ⟨heq, -⟩
    · exact hlt.le
    · exact heq.le
  have hchain := (mem_onChain.mp hkey).2
  have hold : minimumBlock ≤ key.blockNumber := (of_decide_eq_true hkeeps).resolve_left fun hne => hne hchain
  exact decide_eq_true (.inr (hold.trans hblock))

/-- An operation that meets the condition keeps the newest records. -/
theorem step (h : Retains chainId live store) (hmeets : Meets chainId live store op) :
    Retains chainId (live.applyUnbounded op) (store.apply op) := by
  by_cases hop : op.chainId = chainId
  · subst hop
    have hfilter : ∀ op' : EvidenceOp, ((∀ key ∈ live.onChain op.chainId, op'.keeps key = true →
        key ∈ store.onChain op.chainId) ∨
        ∀ key ∈ store.onChain op.chainId, op'.keeps key = true) →
        Newest (·.order) MAX_SLIPSTREAM_FEE_EVIDENCE_PER_CHAIN ((live.onChain op.chainId).filter (op'.keeps · = true))
          ((store.onChain op.chainId).filter (op'.keeps · = true)) :=
      fun op' hmeets => hmeets.elim h.newest.filter_of_all h.newest.filter_of_kept
    cases op with
    | inject evidence => exact inject h
    | prune chainId minimumBlock => exact h.prune minimumBlock
    | remove evidence => exact h.retain _ (hfilter (.remove evidence) hmeets)
    | retainForBlock chainId blockNumber canonicalHash =>
      exact h.retain _ (hfilter (.retainForBlock chainId blockNumber canonicalHash) hmeets)
  · obtain ⟨hstore, hlive⟩ := apply_sameOn store live hop
    exact h.of_sameOn hlive hstore

theorem run {ops : List EvidenceOp} (h : Retains chainId live store) (hmeets : RunMeets chainId live store ops) :
    Retains chainId (live.applyAllUnbounded ops) (store.applyAll ops) := by
  induction ops generalizing live store with
  | nil => exact h
  | cons op ops ih => exact ih (h.step hmeets.1) hmeets.2

theorem self (h : (store.onChain chainId).card ≤ MAX_SLIPSTREAM_FEE_EVIDENCE_PER_CHAIN) :
    Retains chainId store store :=
  ⟨Newest.all h, fun _ _ => rfl⟩

end Retains

theorem card_apply (h : (store.onChain chainId).card ≤ MAX_SLIPSTREAM_FEE_EVIDENCE_PER_CHAIN) (op : EvidenceOp) :
    ((store.apply op).onChain chainId).card ≤ MAX_SLIPSTREAM_FEE_EVIDENCE_PER_CHAIN := by
  have hmeets : Meets chainId store store op := by
    cases op with
    | inject evidence => trivial
    | prune chainId minimumBlock => trivial
    | remove evidence => exact .inl fun key hkey _ => hkey
    | retainForBlock chainId blockNumber canonicalHash => exact .inl fun key hkey _ => hkey
  exact ((Retains.self h).step hmeets).newest.card_le

theorem card_applyAll (h : (store.onChain chainId).card ≤ MAX_SLIPSTREAM_FEE_EVIDENCE_PER_CHAIN) (ops : List EvidenceOp) :
    ((store.applyAll ops).onChain chainId).card ≤ MAX_SLIPSTREAM_FEE_EVIDENCE_PER_CHAIN := by
  induction ops generalizing store with
  | nil => exact h
  | cons op ops ih => exact ih (card_apply h op)

theorem applyAll_sameOn {ops : List EvidenceOp} (h : ∀ op ∈ ops, op.chainId ≠ chainId) :
    SameOn chainId store (store.applyAll ops) := by
  induction ops generalizing store with
  | nil => exact fun _ _ => rfl
  | cons op ops ih =>
    intro key hkey
    refine (ih (fun op hop => h op (List.mem_cons_of_mem _ hop)) key hkey).trans ?_
    exact (apply_sameOn store store (h op List.mem_cons_self)).1 key hkey

end

/-- Over any run, no chain holds more than the limit and an operation changes its own chain only. From any point on,
    while no removal by name or block hash takes out retained records of a chain with others still displaced, the store
    retains exactly the newest of what it held there and was injected since. An injection takes out nothing but an oldest
    record, for a newer one. -/
theorem store_retains (chainId : Nat) (before after : List EvidenceOp) :
    let store := applyAll .empty before
    ((store.applyAll after).chainKeys chainId).length ≤ MAX_SLIPSTREAM_FEE_EVIDENCE_PER_CHAIN ∧
    (RunMeets chainId store store after → Retains chainId (store.applyAllUnbounded after) (store.applyAll after)) ∧
    ((∀ op ∈ after, op.chainId ≠ chainId) → SameOn chainId store (store.applyAll after)) ∧
    (∀ evidence, ∀ key ∈ store.onChain chainId, key ∉ (store.apply (.inject evidence)).onChain chainId →
      (∀ other ∈ store.onChain chainId, key.order ≤ other.order) ∧
        key.order < (SlipstreamFeeEvidenceKey.fromEvidence evidence).order) := by
  intro store
  have hempty : (onChain .empty chainId).card ≤ MAX_SLIPSTREAM_FEE_EVIDENCE_PER_CHAIN := Nat.zero_le _
  have hbound := card_applyAll hempty before
  refine ⟨?_, fun hmeets => (Retains.self hbound).run hmeets, applyAll_sameOn, ?_⟩
  · rw [← card_onChain]
    exact card_applyAll hbound after
  · intro evidence key hkey hgone
    have hchain : (EvidenceOp.inject evidence).chainId = chainId := by
      by_contra hne
      rw [(apply_sameOn store store hne).1.onChain] at hgone
      exact hgone hkey
    subst hchain
    rcases inject_cases store evidence with ⟨-, heq⟩ | ⟨-, ⟨-, heq⟩ | ⟨-, -, oldest, -, hmin, ⟨-, heq⟩ | ⟨hlt, heq⟩⟩⟩
    · rw [heq] at hgone
      exact absurd hkey hgone
    · rw [heq] at hgone
      exact absurd (mem_onChain_insert hkey) hgone
    · rw [heq] at hgone
      exact absurd hkey hgone
    · rw [heq] at hgone
      have hold : key = oldest := by
        by_contra hne
        refine hgone (mem_onChain_insert ?_)
        rw [onChain_erase]
        exact Finset.mem_erase.mpr ⟨hne, hkey⟩
      exact hold ▸ ⟨hmin, hlt⟩

/-! ### A removal after the limit was reached -/

/-- Evidence for one event of each block. -/
def baseFeeEvidence (block : Nat) : SlipstreamSwapFeeEvidence where
  runtimeFamily := .aerodromeBaseBifi
  chainId := 8453
  pool := (reviewedRuntime .aerodromeBaseBifi).pool
  factory := (reviewedRuntime .aerodromeBaseBifi).factory
  proxyRuntimeCodeHash := (reviewedRuntime .aerodromeBaseBifi).proxyRuntimeCodeHash
  implementation := (reviewedRuntime .aerodromeBaseBifi).implementation
  implementationRuntimeCodeHash := (reviewedRuntime .aerodromeBaseBifi).implementationRuntimeCodeHash
  effectiveSwapFee := 500
  effectiveUnstakedFee := 0
  unstakedFeeProof := ⟨.aerodromeBaseBifi, .unusedAllLiquidityStaked, none, none, some ⟨8453, block, 1, 2, 3, 4, 0, 0⟩⟩
  blockNumber := block
  blockHash := 1
  parentHash := 2
  blockTimestamp := 3
  transactionHash := 4
  transactionIndex := 0
  logIndex := 0

def baseKey (block : Nat) : SlipstreamFeeEvidenceKey := .fromEvidence (baseFeeEvidence block)

theorem validate_base (block : Nat) : validate (baseFeeEvidence (block + 1)) = .ok () := by
  simp [validate, baseFeeEvidence, runtimeOf, snapshotIdentity, reviewedRuntime, ensure]
  rfl

theorem baseKey_injective : Function.Injective baseKey := fun _ _ h => congrArg SlipstreamFeeEvidenceKey.blockNumber h

theorem order_baseKey {a b : Nat} (h : a < b) : (baseKey a).order < (baseKey b).order :=
  Prod.Lex.toLex_lt_toLex.mpr (.inl h)

def injections (n : Nat) : List EvidenceOp := (List.range n).map fun block => .inject (baseFeeEvidence (block + 1))

theorem live_injections (n : Nat) :
    (applyAllUnbounded .empty (injections n)).onChain 8453 = (Finset.range n).image fun block => baseKey (block + 1) := by
  induction n with
  | zero => rfl
  | succ n ih =>
    have hstep : applyAllUnbounded .empty (injections (n + 1)) =
        SortedMap.insert (applyAllUnbounded .empty (injections n)) (baseKey (n + 1)) (baseFeeEvidence (n + 1)) := by
      rw [injections, List.range_succ, List.map_append, applyAllUnbounded, List.foldl_append]
      show injectUnbounded _ _ = _
      rw [injectUnbounded, validate_base]
      rfl
    have hchain : (baseKey (n + 1)).chainId = 8453 := rfl
    rw [hstep, onChain_insert hchain, ih, Finset.range_add_one, Finset.image_insert]

/-- After one record more than the limit and the removal of the newest by its block hash, the store lacks the oldest, which
    was displaced and not removed. -/
theorem displaced_not_retained : ¬ ∀ (chainId : Nat) (ops : List EvidenceOp),
    Retains chainId (applyAllUnbounded .empty ops) (applyAll .empty ops) := by
  intro h
  let limit := MAX_SLIPSTREAM_FEE_EVIDENCE_PER_CHAIN
  have hfull := (h 8453 (injections (limit + 1))).newest
  have hdropped := (h 8453 (injections (limit + 1) ++ [.retainForBlock 8453 (limit + 1) 0])).newest
  let keep := (EvidenceOp.retainForBlock 8453 (limit + 1) 0).keeps
  have hlive : onChain (applyAllUnbounded .empty (injections (limit + 1) ++ [.retainForBlock 8453 (limit + 1) 0])) 8453 =
      (onChain (applyAllUnbounded .empty (injections (limit + 1))) 8453).filter (keep · = true) := by
    rw [applyAllUnbounded, List.foldl_append]
    exact onChain_retain keep
  have hkept : onChain (applyAll .empty (injections (limit + 1) ++ [.retainForBlock 8453 (limit + 1) 0])) 8453 =
      (onChain (applyAll .empty (injections (limit + 1))) 8453).filter (keep · = true) := by
    rw [applyAll, List.foldl_append]
    exact onChain_retain keep
  rw [hlive, hkept] at hdropped
  generalize onChain (applyAll .empty (injections (limit + 1))) 8453 = kept at hfull hdropped
  rw [live_injections] at hfull hdropped
  have hkeep : ∀ block, keep (baseKey block) = true ↔ block ≠ limit + 1 := by
    intro block
    simp [keep, EvidenceOp.keeps, baseKey, baseFeeEvidence, SlipstreamFeeEvidenceKey.fromEvidence]
  have hcard : kept.card = limit := by
    rw [hfull.card, Finset.card_image_of_injective _ fun _ _ heq => Nat.succ_injective (baseKey_injective heq),
      Finset.card_range]
    exact min_eq_left (Nat.le_succ _)
  -- The newest record is kept, since it is newer than any other.
  have hnewest : baseKey (limit + 1) ∈ kept := by
    by_contra hnot
    obtain ⟨key, hkey⟩ := Finset.card_pos.mp (hcard ▸ (by decide : 0 < limit))
    obtain ⟨block, hblock, rfl⟩ := Finset.mem_image.mp (hfull.subset hkey)
    have hle := hfull.newest _ hkey (baseKey (limit + 1)) (Finset.mem_image.mpr ⟨limit, by simp, rfl⟩) hnot
    have hlt : block + 1 < limit + 1 := by
      refine lt_of_le_of_ne (Nat.succ_le_of_lt (Finset.mem_range.mp hblock)) fun heq => hnot ?_
      exact heq ▸ hkey
    exact absurd (order_baseKey hlt) (not_lt.mpr hle)
  have hless : (kept.filter (keep · = true)).card < limit := by
    rw [← hcard]
    refine Finset.card_lt_card ⟨Finset.filter_subset _ _, fun hle => ?_⟩
    exact (hkeep (limit + 1)).mp (Finset.mem_filter.mp (hle hnewest)).2 rfl
  have hleft : limit ≤ (((Finset.range (limit + 1)).image fun block => baseKey (block + 1)).filter
      (keep · = true)).card := by
    have hsub : ((Finset.range limit).image fun block => baseKey (block + 1)) ⊆
        ((Finset.range (limit + 1)).image fun block => baseKey (block + 1)).filter (keep · = true) := by
      intro key hkey
      obtain ⟨block, hblock, rfl⟩ := Finset.mem_image.mp hkey
      have hlt := Finset.mem_range.mp hblock
      exact Finset.mem_filter.mpr ⟨Finset.mem_image.mpr ⟨block, Finset.mem_range.mpr (by omega), rfl⟩,
        (hkeep _).mpr (by omega)⟩
    refine le_trans (le_of_eq ?_) (Finset.card_le_card hsub)
    rw [Finset.card_image_of_injective _ fun _ _ heq => Nat.succ_injective (baseKey_injective heq), Finset.card_range]
  have hmin := hdropped.card
  rw [min_eq_left hleft] at hmin
  exact absurd hmin hless.ne

end FeeEvidenceStore
end AmmState.Slipstream
