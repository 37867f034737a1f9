import AmmState.Slipstream.Staking

/-! Staking evidence of a batch: it depends on the records and not on their order, every delta stands for one gauge event
    with its own custody transfer, and an ambiguous transaction leaves no evidence. -/

namespace AmmState.Slipstream

/-! ### Collecting the logs -/

/-- The entries of one transaction. -/
def entriesOf (entries : List Entry) (transaction : TransactionKey) : List Entry :=
  entries.filter (·.transaction = transaction)

/-- A transaction whose logs stand at different positions and were delivered in one scope. -/
structure Sound (entries : List Entry) (transaction : TransactionKey) : Prop where
  positions : ((entriesOf entries transaction).map (·.position)).Nodup
  scope : ∀ a ∈ entriesOf entries transaction, ∀ b ∈ entriesOf entries transaction, a.scope = b.scope

theorem mem_entriesOf {entries : List Entry} {transaction : TransactionKey} {e : Entry} :
    e ∈ entriesOf entries transaction ↔ e ∈ entries ∧ e.transaction = transaction := by
  simp [entriesOf]

theorem entriesOf_append (entries : List Entry) (e : Entry) (transaction : TransactionKey) :
    entriesOf (entries ++ [e]) transaction =
      if e.transaction = transaction then entriesOf entries transaction ++ [e] else entriesOf entries transaction := by
  rw [entriesOf, List.filter_append]
  by_cases h : e.transaction = transaction
  · simp [h, entriesOf]
  · simp [h, entriesOf]

theorem Collected.logs_add (c : Collected) (e : Entry) (transaction : TransactionKey) (position : Nat) :
    ((c.add e).logs transaction).get position =
      if transaction = e.transaction ∧ position = e.position then some e.log else (c.logs transaction).get position := by
  unfold Collected.logs Collected.add
  simp only [SortedMap.get_insert]
  by_cases ht : transaction = e.transaction
  · subst ht
    simp [SortedMap.get_insert, Collected.logs]
  · simp [ht]

/-- What a collection knows of the entries it was given. -/
structure CollectedSpec (entries : List Entry) (c : Collected) : Prop where
  logs : ∀ transaction position, (c.logs transaction).get position =
    ((entriesOf entries transaction).filter (·.position = position)).getLast?.map (·.log)
  scopes : ∀ transaction, c.scopes.get transaction = (entriesOf entries transaction).getLast?.map (·.scope)
  transactions : ∀ transaction, c.transactions.get transaction = none ↔ entriesOf entries transaction = []
  invalid : ∀ transaction, transaction ∈ c.invalid ↔ ¬ Sound entries transaction

/-- A further entry keeps its transaction sound where it brings a new position in the same scope. -/
theorem sound_append {entries : List Entry} {e : Entry} {transaction : TransactionKey} :
    Sound (entries ++ [e]) transaction ↔ Sound entries transaction ∧
      (e.transaction = transaction → (∀ a ∈ entriesOf entries transaction, a.position ≠ e.position) ∧
        ∀ a ∈ (entriesOf entries transaction).getLast?, a.scope = e.scope) := by
  by_cases ht : e.transaction = transaction
  · have heq : entriesOf (entries ++ [e]) transaction = entriesOf entries transaction ++ [e] := by
      rw [entriesOf_append, if_pos ht]
    simp only [ht, true_implies]
    constructor
    · rintro ⟨hpos, hscope⟩
      rw [heq] at hpos hscope
      rw [List.map_append, List.nodup_append] at hpos
      refine ⟨⟨hpos.1, fun a ha b hb => ?_⟩, fun a ha heq => ?_, fun a ha => ?_⟩
      · exact hscope a (List.mem_append_left _ ha) b (List.mem_append_left _ hb)
      · exact hpos.2.2 _ (List.mem_map_of_mem ha) _ List.mem_cons_self heq
      · exact hscope a (List.mem_append_left _ (List.mem_of_getLast? ha)) e (List.mem_append_right _ List.mem_cons_self)
    · rintro ⟨⟨hpos, hscope⟩, hnew, hlast⟩
      have hsame : ∀ a ∈ entriesOf entries transaction, a.scope = e.scope := by
        intro a ha
        cases hl : (entriesOf entries transaction).getLast? with
        | none =>
          rw [List.getLast?_eq_none_iff.mp hl] at ha
          cases ha
        | some b => exact (hscope a ha b (List.mem_of_getLast? hl)).trans (hlast b hl)
      refine ⟨?_, ?_⟩
      · rw [heq, List.map_append, List.nodup_append]
        refine ⟨hpos, List.nodup_singleton _, ?_⟩
        intro p hp q hq
        obtain ⟨a, ha, rfl⟩ := List.mem_map.mp hp
        rw [List.mem_singleton.mp hq]
        exact hnew a ha
      · rw [heq]
        intro a ha b hb
        rcases List.mem_append.mp ha with ha | ha <;> rcases List.mem_append.mp hb with hb | hb
        · exact hscope a ha b hb
        · rw [List.mem_singleton.mp hb]
          exact hsame a ha
        · rw [List.mem_singleton.mp ha]
          exact (hsame b hb).symm
        · rw [List.mem_singleton.mp ha, List.mem_singleton.mp hb]
  · have heq : entriesOf (entries ++ [e]) transaction = entriesOf entries transaction := by
      rw [entriesOf_append, if_neg ht]
    simp only [ht, false_implies, and_true]
    constructor
    · rintro ⟨hpos, hscope⟩
      rw [heq] at hpos hscope
      exact ⟨hpos, hscope⟩
    · rintro ⟨hpos, hscope⟩
      exact ⟨heq ▸ hpos, heq ▸ hscope⟩

/-- The two ways in which a further entry spoils its transaction, as the pass tests them. -/
theorem CollectedSpec.spoils {entries : List Entry} {c : Collected} (h : CollectedSpec entries c) (e : Entry) :
    (c.mixed e || ((c.logs e.transaction).get e.position).isSome) = false ↔
      (∀ a ∈ entriesOf entries e.transaction, a.position ≠ e.position) ∧
        ∀ a ∈ (entriesOf entries e.transaction).getLast?, a.scope = e.scope := by
  have hlog : ((c.logs e.transaction).get e.position).isSome = false ↔
      ∀ a ∈ entriesOf entries e.transaction, a.position ≠ e.position := by
    rw [h.logs]
    simp
  rw [Bool.or_eq_false_iff, hlog, and_comm, Collected.mixed, h.scopes]
  cases (entriesOf entries e.transaction).getLast? with
  | none => simp
  | some a => simp

theorem CollectedSpec.add {entries : List Entry} {c : Collected} (h : CollectedSpec entries c) (e : Entry) :
    CollectedSpec (entries ++ [e]) (c.add e) := by
  refine ⟨fun transaction position => ?_, fun transaction => ?_, fun transaction => ?_, fun transaction => ?_⟩
  · rw [c.logs_add, entriesOf_append, h.logs]
    by_cases ht : transaction = e.transaction
    · rw [if_pos ht.symm, List.filter_append]
      by_cases hp : position = e.position
      · simp [ht, hp]
      · simp [hp, Ne.symm hp]
    · rw [if_neg (fun h => ht h.1), if_neg (Ne.symm ht)]
  · unfold Collected.add
    rw [SortedMap.get_insert, entriesOf_append, h.scopes]
    by_cases ht : transaction = e.transaction
    · simp [ht]
    · simp [ht, Ne.symm ht]
  · unfold Collected.add
    rw [SortedMap.get_insert, entriesOf_append]
    by_cases ht : transaction = e.transaction
    · simp [ht]
    · simp [ht, Ne.symm ht, h.transactions]
  · rw [sound_append]
    have hspoils := h.spoils e
    unfold Collected.add
    simp only
    by_cases ht : e.transaction = transaction
    · subst ht
      simp only [true_implies]
      rw [← hspoils]
      split_ifs with hs
      · rw [hs]
        exact iff_of_true List.mem_cons_self fun hsound => nomatch hsound.2
      · rw [Bool.not_eq_true] at hs
        rw [hs, h.invalid]
        simp only [and_true]
    · simp only [ht, false_implies, and_true]
      split_ifs
      · rw [List.mem_cons, h.invalid]
        simp [Ne.symm ht]
      · exact h.invalid transaction

theorem collectedSpec (entries : List Entry) : CollectedSpec entries (entries.foldl Collected.add .empty) := by
  induction entries using List.reverseRecOn with
  | nil =>
    refine ⟨fun _ _ => rfl, fun _ => rfl, fun _ => ⟨fun _ => rfl, fun _ => rfl⟩, fun _ => ?_⟩
    exact ⟨nofun, fun h => absurd ⟨List.nodup_nil, nofun⟩ h⟩
  | append_singleton entries e ih =>
    rw [List.foldl_append]
    exact ih.add e

/-! ### Order -/

theorem Sound.perm {entries entries' : List Entry} (hp : entries.Perm entries') {transaction : TransactionKey}
    (h : Sound entries transaction) : Sound entries' transaction := by
  have hp' : (entriesOf entries transaction).Perm (entriesOf entries' transaction) := hp.filter _
  exact ⟨(hp'.map _).nodup_iff.mp h.positions, fun a ha b hb => h.scope a (hp'.mem_iff.mpr ha) b (hp'.mem_iff.mpr hb)⟩

/-- A sound transaction has its logs at their positions. -/
theorem CollectedSpec.logs_eq_some {entries : List Entry} {c : Collected} (h : CollectedSpec entries c)
    {transaction : TransactionKey} (hs : Sound entries transaction) {position : Nat} {log : Log} :
    (c.logs transaction).get position = some log ↔ ∃ e ∈ entries, e.transaction = transaction ∧
    e.position = position ∧ e.log = log := by
  rw [h.logs, Option.map_eq_some_iff]
  constructor
  · rintro ⟨e, he, rfl⟩
    obtain ⟨he, hposition⟩ := List.mem_filter.mp (List.mem_of_getLast? he)
    obtain ⟨he, ht⟩ := mem_entriesOf.mp he
    exact ⟨e, he, ht, of_decide_eq_true hposition, rfl⟩
  · rintro ⟨e, he, ht, rfl, rfl⟩
    have he : e ∈ (entriesOf entries transaction).filter (·.position = e.position) := by
      simp [mem_entriesOf, he, ht]
    cases hl : ((entriesOf entries transaction).filter (·.position = e.position)).getLast? with
    | none =>
      rw [List.getLast?_eq_none_iff.mp hl] at he
      cases he
    | some a =>
      obtain ⟨ha, hposition⟩ := List.mem_filter.mp (List.mem_of_getLast? hl)
      have heq : a = e := List.inj_on_of_nodup_map hs.positions ha (List.mem_filter.mp he).1 (of_decide_eq_true hposition)
      exact ⟨a, rfl, by rw [heq]⟩


/-! ### Patterns -/

/-- A gauge event with all its counterparts: the last custody transfer of its token before it, the owner's last `Collect`
    of the token before that, and the pool's `Collect` two logs earlier, which names the range. -/
structure Pattern (logs : SortedMap Nat Log) (index : Nat) (m : StakingMatch) : Prop where
  gauge : ∃ log, logs.get index = some log ∧ log.address = GAUGE ∧ decodeGauge log = some (m.deposit, m.event)
  amount_lt : m.event.liquidityToStake.toNat < 2 ^ 127
  transfer : (if m.deposit then lastTransfer logs m.event.tokenId m.event.user GAUGE index
    else lastTransfer logs m.event.tokenId GAUGE m.event.user index) = some m.transfer
  collect : ∃ position poolLog, lastCollect logs m.event.tokenId m.transfer = some (position, m.event.user) ∧ 2 ≤ position ∧
    logs.get (position - 2) = some poolLog ∧ poolLog.address = POOL ∧ canonicalEvent poolCollectEvent poolLog = some m.range
  range : m.range.recipient = m.event.user ∧ m.range.owner = if m.deposit then NFT else GAUGE

theorem guard_bind_eq_some {α : Type} {c : Prop} [Decidable c] {f : Unit → Option α} {a : α} :
    (guard c >>= f) = some a ↔ c ∧ f () = some a := by
  by_cases h : c
  · simp [h, guard]
  · simp [h, guard]

theorem pattern_iff {logs : SortedMap Nat Log} {index : Nat} {m : StakingMatch} :
    Pattern logs index m ↔ ∃ log, logs.get index = some log ∧ matchGauge logs index log = some m := by
  constructor
  · rintro ⟨⟨log, hlog, haddress, hdecode⟩, hamount, htransfer, ⟨position, poolLog, hcollect, htwo, hpool, hpoolAddress,
      hrange⟩, hparties⟩
    refine ⟨log, hlog, ?_⟩
    unfold matchGauge
    rw [guard_bind_eq_some, hdecode]
    refine ⟨haddress, guard_bind_eq_some.mpr ⟨hamount, ?_⟩⟩
    rw [htransfer, Option.bind_eq_bind, Option.bind_some, hcollect]
    refine guard_bind_eq_some.mpr ⟨rfl, guard_bind_eq_some.mpr ⟨htwo, ?_⟩⟩
    rw [hpool]
    refine guard_bind_eq_some.mpr ⟨hpoolAddress, ?_⟩
    rw [hrange]
    exact guard_bind_eq_some.mpr ⟨hparties, rfl⟩
  · rintro ⟨log, hlog, hm⟩
    unfold matchGauge at hm
    obtain ⟨haddress, hm⟩ := guard_bind_eq_some.mp hm
    obtain ⟨⟨deposit, event⟩, hdecode, hm⟩ := Option.bind_eq_some_iff.mp hm
    obtain ⟨hamount, hm⟩ := guard_bind_eq_some.mp hm
    obtain ⟨transfer, htransfer, hm⟩ := Option.bind_eq_some_iff.mp hm
    obtain ⟨⟨position, recipient⟩, hcollect, hm⟩ := Option.bind_eq_some_iff.mp hm
    obtain ⟨hrecipient, hm⟩ := guard_bind_eq_some.mp hm
    obtain ⟨htwo, hm⟩ := guard_bind_eq_some.mp hm
    obtain ⟨poolLog, hpool, hm⟩ := Option.bind_eq_some_iff.mp hm
    obtain ⟨hpoolAddress, hm⟩ := guard_bind_eq_some.mp hm
    obtain ⟨range, hrange, hm⟩ := Option.bind_eq_some_iff.mp hm
    obtain ⟨hparties, hm⟩ := guard_bind_eq_some.mp hm
    obtain rfl := Option.some.inj hm
    rw [hrecipient] at hcollect
    exact ⟨⟨log, hlog, haddress, hdecode⟩, hamount, htransfer,
      ⟨position, poolLog, hcollect, htwo, hpool, hpoolAddress, hrange⟩, hparties⟩

theorem lastTransfer_spec {logs : SortedMap Nat Log} {tokenId : U256} {sender recipient : Address} {before t : Nat}
    (h : lastTransfer logs tokenId sender recipient before = some t) :
    ∃ log, logs.get t = some log ∧ t < before ∧ log.address = NFT ∧
      canonicalEvent transferEvent log = some ⟨sender, recipient, tokenId⟩ := by
  obtain ⟨⟨position, log⟩, hlast, rfl⟩ := Option.map_eq_some_iff.mp h
  obtain ⟨hmem, hp⟩ := List.mem_filter.mp (List.mem_of_getLast? hlast)
  obtain ⟨hlt, haddress, hevent⟩ := of_decide_eq_true hp
  exact ⟨log, SortedMap.get_eq_some.mpr hmem, hlt, haddress, hevent⟩

/-- The log at the transfer of a pattern is a transfer of the manager, and so no gauge log. -/
theorem Pattern.transfer_log {logs : SortedMap Nat Log} {index : Nat} {m : StakingMatch} (h : Pattern logs index m) :
    ∃ log, logs.get m.transfer = some log ∧ m.transfer < index ∧ log.address = NFT := by
  have htransfer := h.transfer
  split_ifs at htransfer
  · obtain ⟨log, hlog, hlt, haddress, -⟩ := lastTransfer_spec htransfer
    exact ⟨log, hlog, hlt, haddress⟩
  · obtain ⟨log, hlog, hlt, haddress, -⟩ := lastTransfer_spec htransfer
    exact ⟨log, hlog, hlt, haddress⟩

theorem Pattern.transfer_ne_index {logs : SortedMap Nat Log} {i j : Nat} {m n : StakingMatch} (h : Pattern logs i m)
    (h' : Pattern logs j n) : m.transfer ≠ j := by
  intro heq
  obtain ⟨log, hlog, -, haddress⟩ := h.transfer_log
  obtain ⟨log', hlog', haddress', -⟩ := h'.gauge
  rw [heq, hlog'] at hlog
  obtain rfl := Option.some.inj hlog
  exact absurd (haddress.symm.trans haddress') (by decide)

/-! ### Matches of a transaction -/

/-- A gauge log with its match. -/
structure Matched where
  index : Nat
  log : Log
  match_ : StakingMatch

def matchedOf (logs : SortedMap Nat Log) (entry : Nat × Log) : Option Matched :=
  (matchGauge logs entry.1 entry.2).map fun m => ⟨entry.1, entry.2, m⟩

section
variable (keccak256 : Bytes → B256) (transaction : TransactionKey) (logs : SortedMap Nat Log)

def Matched.evidence (x : Matched) : List SlipstreamStakingEvidence :=
  matchEvidence keccak256 transaction logs x.index x.log x.match_

/-- The pass over a list of logs: every match in turn, unless two share a transfer. -/
theorem foldlM_matchStep (entries : List (Nat × Log)) (s : List SlipstreamStakingEvidence × List Nat) :
    entries.foldlM (matchStep keccak256 transaction logs) s =
      let matched := entries.filterMap (matchedOf logs)
      let transfers := matched.map (·.match_.transfer)
      if transfers.Nodup ∧ ∀ t ∈ transfers, t ∉ s.2
      then some (s.1 ++ matched.flatMap (Matched.evidence keccak256 transaction logs), transfers.reverse ++ s.2)
      else none := by
  induction entries generalizing s with
  | nil => simp
  | cons entry rest ih =>
    rw [List.foldlM_cons, matchStep]
    cases hm : matchGauge logs entry.1 entry.2 with
    | none =>
      have hrest : (entry :: rest).filterMap (matchedOf logs) = rest.filterMap (matchedOf logs) :=
        List.filterMap_cons_none (by rw [matchedOf, hm]; rfl)
      rw [hrest]
      exact ih s
    | some m =>
      have hrest : (entry :: rest).filterMap (matchedOf logs) = ⟨entry.1, entry.2, m⟩ :: rest.filterMap (matchedOf logs) :=
        List.filterMap_cons_some (by rw [matchedOf, hm]; rfl)
      simp only [hrest, List.map_cons, List.flatMap_cons, List.nodup_cons, List.reverse_cons]
      by_cases hused : m.transfer ∈ s.2
      · rw [if_pos hused, if_neg fun h => h.2 _ List.mem_cons_self hused]
        rfl
      · rw [if_neg hused]
        refine (ih _).trans ?_
        simp only [List.append_assoc, List.cons_append, List.nil_append]
        congr 1
        refine propext ⟨fun ⟨hn, hnot⟩ => ⟨⟨fun hmem => hnot _ hmem List.mem_cons_self, hn⟩, fun t ht => ?_⟩,
          fun ⟨⟨hmem, hn⟩, hnot⟩ => ⟨hn, fun t ht hmem' => ?_⟩⟩
        · rcases List.mem_cons.mp ht with rfl | ht
          · exact hused
          · exact fun h => hnot t ht (List.mem_cons_of_mem _ h)
        · rcases List.mem_cons.mp hmem' with rfl | hmem'
          · exact hmem ht
          · exact hnot t (List.mem_cons_of_mem _ ht) hmem'

theorem mem_matched {x : Matched} :
    x ∈ logs.entries.filterMap (matchedOf logs) ↔ logs.get x.index = some x.log ∧
      matchGauge logs x.index x.log = some x.match_ := by
  rw [List.mem_filterMap, SortedMap.get_eq_some]
  constructor
  · rintro ⟨entry, hentry, hx⟩
    obtain ⟨m, hm, rfl⟩ := Option.map_eq_some_iff.mp hx
    exact ⟨hentry, hm⟩
  · rintro ⟨hentry, hm⟩
    refine ⟨_, hentry, ?_⟩
    rw [matchedOf, hm]
    rfl

theorem pairwise_matched : (logs.entries.filterMap (matchedOf logs)).Pairwise fun x y => x.index < y.index := by
  refine List.Pairwise.filterMap _ ?_ (List.pairwise_map.mp logs.sorted)
  intro a b hab x hx y hy
  obtain ⟨m, -, rfl⟩ := Option.map_eq_some_iff.mp hx
  obtain ⟨n, -, rfl⟩ := Option.map_eq_some_iff.mp hy
  exact hab

theorem Matched.pattern {x : Matched} (h : x ∈ logs.entries.filterMap (matchedOf logs)) : Pattern logs x.index x.match_ :=
  pattern_iff.mpr ⟨x.log, mem_matched logs |>.mp h⟩

/-- Where the evidence of a match applies its delta: a deposit at its own log, a withdrawal at its transfer. -/
def StakingMatch.applyIndex (m : StakingMatch) (index : Nat) : Nat := if m.deposit then index else m.transfer

def StakingMatch.delta (m : StakingMatch) : Int := if m.deposit then m.amount else -m.amount

/-- A position has evidence with the range of a match, a delta and the payload of its log, and every context of the position
    finds it. -/
def Attests (output : Map EventKey SlipstreamStakingEvidence) (transaction : TransactionKey) (position : Nat) (log : Log)
    (m : StakingMatch) (delta : Int) : Prop :=
  let proof : SlipstreamStakingEvidence :=
    ⟨⟨transaction, position⟩, fingerprint keccak256 log, m.range.tickLower.toInt, m.range.tickUpper.toInt, delta⟩
  output.get proof.key = some proof ∧
    ∀ context, EventKey.context context = some proof.key → evidence output POOL context = some proof

theorem mem_matchEvidence {index : Nat} {log : Log} {m : StakingMatch} {e : SlipstreamStakingEvidence}
    (h : e ∈ matchEvidence keccak256 transaction logs index log m) : e.key.transaction = transaction ∧
      (e.key.log = m.applyIndex index ∧ e.delta = m.delta ∨ m.deposit = false ∧ e.key.log = index ∧ e.delta = 0) := by
  unfold matchEvidence at h
  unfold StakingMatch.applyIndex StakingMatch.delta
  split_ifs at h ⊢ with hd
  · rw [List.mem_singleton.mp h]
    exact ⟨rfl, .inl ⟨rfl, rfl⟩⟩
  · rcases List.mem_cons.mp h with rfl | h
    · exact ⟨rfl, .inl ⟨rfl, rfl⟩⟩
    · rw [List.mem_singleton.mp h]
      exact ⟨rfl, .inr ⟨by simpa using hd, rfl, rfl⟩⟩

/-- The positions that the evidence of a match is for. -/
theorem mem_evidence {x : Matched} {e : SlipstreamStakingEvidence} (h : e ∈ x.evidence keccak256 transaction logs) :
    e.key.transaction = transaction ∧ (e.key.log = x.index ∨ e.key.log = x.match_.transfer) := by
  obtain ⟨ht, ⟨hlog, -⟩ | ⟨-, hlog, -⟩⟩ := mem_matchEvidence keccak256 transaction logs h
  · unfold StakingMatch.applyIndex at hlog
    split_ifs at hlog
    · exact ⟨ht, .inl hlog⟩
    · exact ⟨ht, .inr hlog⟩
  · exact ⟨ht, .inl hlog⟩

/-- Where no transfer is claimed twice, no two pieces of evidence are for one position. -/
theorem nodup_keys (h : ((logs.entries.filterMap (matchedOf logs)).map (·.match_.transfer)).Nodup) :
    (((logs.entries.filterMap (matchedOf logs)).flatMap
      (Matched.evidence keccak256 transaction logs)).map (·.key)).Nodup := by
  set matched := logs.entries.filterMap (matchedOf logs)
  have hpattern : ∀ x ∈ matched, Pattern logs x.index x.match_ := fun x hx => Matched.pattern logs hx
  have hindex := pairwise_matched logs
  rw [List.map_flatMap, List.nodup_flatMap]
  refine ⟨fun x hx => ?_, ?_⟩
  · have hne : x.match_.transfer ≠ x.index := (hpattern x hx).transfer_ne_index (hpattern x hx)
    unfold Matched.evidence matchEvidence
    split_ifs
    · exact List.nodup_singleton _
    · simp [hne]
  · refine (List.Pairwise.and_mem.mp (hindex.and (List.pairwise_map.mp h))).imp ?_
    rintro x y ⟨hx, hy, hlt, hne⟩ key hkey hkey'
    obtain ⟨e, he, rfl⟩ := List.mem_map.mp hkey
    obtain ⟨e', he', heq⟩ := List.mem_map.mp hkey'
    obtain ⟨-, hpos⟩ := mem_evidence keccak256 transaction logs he
    obtain ⟨-, hpos'⟩ := mem_evidence keccak256 transaction logs he'
    rw [heq] at hpos'
    have h₁ := (hpattern x hx).transfer_ne_index (hpattern y hy)
    have h₂ := (hpattern y hy).transfer_ne_index (hpattern x hx)
    omega

/-- The evidence of a transaction: that of all its matches, or none where two share a transfer. -/
theorem transactionEvidence_eq : transactionEvidence keccak256 transaction logs =
    if ((logs.entries.filterMap (matchedOf logs)).map (·.match_.transfer)).Nodup
    then (logs.entries.filterMap (matchedOf logs)).flatMap (Matched.evidence keccak256 transaction logs) else [] := by
  unfold transactionEvidence
  rw [foldlM_matchStep]
  simp only [List.not_mem_nil, not_false_eq_true, implies_true, and_true, List.nil_append, List.append_nil]
  split_ifs with h
  · exact if_pos (nodup_keys keccak256 transaction logs h)
  · rfl

/-- No two patterns share a custody transfer. -/
def TransfersOnce (logs : SortedMap Nat Log) : Prop :=
  ∀ i j m n, Pattern logs i m → Pattern logs j n → m.transfer = n.transfer → i = j

theorem transfersOnce_iff :
    TransfersOnce logs ↔ ((logs.entries.filterMap (matchedOf logs)).map (·.match_.transfer)).Nodup := by
  constructor
  · intro h
    have hnodup : (logs.entries.filterMap (matchedOf logs)).Nodup :=
      (pairwise_matched logs).imp fun {x y} hlt heq => hlt.ne (congrArg Matched.index heq)
    refine List.Nodup.map_on (fun x hx y hy heq => ?_) hnodup
    have hindex := h _ _ _ _ (Matched.pattern logs hx) (Matched.pattern logs hy) heq
    obtain ⟨hlog, hmatch⟩ := (mem_matched logs).mp hx
    obtain ⟨hlog', hmatch'⟩ := (mem_matched logs).mp hy
    obtain ⟨i, log, m⟩ := x
    obtain ⟨j, log', n⟩ := y
    obtain rfl : i = j := hindex
    obtain rfl : log = log' := Option.some.inj (hlog.symm.trans hlog')
    obtain rfl : m = n := Option.some.inj (hmatch.symm.trans hmatch')
    rfl
  · intro h i j m n hm hn heq
    obtain ⟨log, hlog⟩ := pattern_iff.mp hm
    obtain ⟨log', hlog'⟩ := pattern_iff.mp hn
    have hx : (⟨i, log, m⟩ : Matched) ∈ logs.entries.filterMap (matchedOf logs) := (mem_matched logs).mpr hlog
    have hy : (⟨j, log', n⟩ : Matched) ∈ logs.entries.filterMap (matchedOf logs) := (mem_matched logs).mpr hlog'
    exact congrArg Matched.index (List.inj_on_of_nodup_map h hx hy heq)

/-- Evidence at a position of a transaction stands for a pattern. -/
theorem mem_transactionEvidence {e : SlipstreamStakingEvidence} : e ∈ transactionEvidence keccak256 transaction logs ↔
    TransfersOnce logs ∧ ∃ index log m, logs.get index = some log ∧ Pattern logs index m ∧
      e ∈ matchEvidence keccak256 transaction logs index log m := by
  rw [transactionEvidence_eq, transfersOnce_iff]
  split_ifs with h
  · rw [List.mem_flatMap]
    simp only [h, true_and]
    constructor
    · rintro ⟨x, hx, he⟩
      exact ⟨x.index, x.log, x.match_, ((mem_matched logs).mp hx).1, Matched.pattern logs hx, he⟩
    · rintro ⟨index, log, m, hlog, hpattern, he⟩
      obtain ⟨log', hlog', hmatch⟩ := pattern_iff.mp hpattern
      obtain rfl := Option.some.inj (hlog.symm.trans hlog')
      exact ⟨⟨index, log, m⟩, (mem_matched logs).mpr ⟨hlog, hmatch⟩, he⟩
  · simp [h]

theorem transactionEvidence_keys : ((transactionEvidence keccak256 transaction logs).map (·.key)).Nodup := by
  rw [transactionEvidence_eq]
  split_ifs with h
  · exact nodup_keys keccak256 transaction logs h
  · exact List.nodup_nil

theorem transactionEvidence_transaction {e : SlipstreamStakingEvidence}
    (h : e ∈ transactionEvidence keccak256 transaction logs) : e.key.transaction = transaction := by
  obtain ⟨-, index, log, m, -, -, he⟩ := (mem_transactionEvidence keccak256 transaction logs).mp h
  exact (mem_evidence keccak256 transaction logs (x := ⟨index, log, m⟩) he).1

end

/-! ### Batches -/

section
variable (keccak256 : Bytes → B256)

/-- The output after a list of transactions: each piece of evidence of the valid ones, over what stood there. -/
theorem get_foldl_transactions (invalid : List TransactionKey) (l : List (TransactionKey × SortedMap Nat Log))
    (hl : (l.map Prod.fst).Nodup) (output : Map EventKey SlipstreamStakingEvidence) {key : EventKey}
    {e : SlipstreamStakingEvidence} (hkey : ∀ x ∈ l, x.1 = key.transaction → output.get key = none) :
    (l.foldl (fun output x => if x.1 ∈ invalid then output
      else (transactionEvidence keccak256 x.1 x.2).foldl (fun output proof => output.insert proof.key proof) output)
      output).get key = some e ↔
      (∃ x ∈ l, x.1 ∉ invalid ∧ e ∈ transactionEvidence keccak256 x.1 x.2 ∧ e.key = key) ∨ output.get key = some e := by
  induction l generalizing output with
  | nil => simp
  | cons head rest ih =>
    obtain ⟨hhead, hrest⟩ := List.nodup_cons.mp hl
    rw [List.foldl_cons]
    set next := if head.1 ∈ invalid then output
      else (transactionEvidence keccak256 head.1 head.2).foldl (fun output proof => output.insert proof.key proof) output
      with hnext
    have hstep : ∀ e, next.get key = some e ↔
        (head.1 ∉ invalid ∧ e ∈ transactionEvidence keccak256 head.1 head.2 ∧ e.key = key) ∨ output.get key = some e := by
      intro e
      rw [hnext]
      split_ifs with hinvalid
      · simp [hinvalid]
      · rw [Map.get_foldl_insert _ (transactionEvidence_keys keccak256 head.1 head.2)]
        simp only [hinvalid, not_false_eq_true, true_and]
        refine or_congr_right ⟨fun h => h.2, fun h => ⟨fun w hw heq => ?_, h⟩⟩
        have hnone := hkey head List.mem_cons_self
          ((transactionEvidence_transaction keccak256 head.1 head.2 hw).symm.trans (congrArg EventKey.transaction heq))
        rw [hnone] at h
        cases h
    have hnone : ∀ x ∈ rest, x.1 = key.transaction → next.get key = none := by
      intro x hx hxt
      cases hget : next.get key with
      | none => rfl
      | some e =>
        rcases (hstep e).mp hget with ⟨-, he, hek⟩ | hout
        · have ht := transactionEvidence_transaction keccak256 head.1 head.2 he
          rw [hek, ← hxt] at ht
          exact absurd (ht ▸ List.mem_map_of_mem hx) hhead
        · rw [hkey x (List.mem_cons_of_mem _ hx) hxt] at hout
          cases hout
    rw [ih hrest next hnone, hstep]
    constructor
    · rintro (⟨x, hx, h⟩ | ⟨h⟩ | h)
      · exact .inl ⟨x, List.mem_cons_of_mem _ hx, h⟩
      · exact .inl ⟨head, List.mem_cons_self, h⟩
      · exact .inr h
    · rintro (⟨x, hx, h⟩ | h)
      · rcases List.mem_cons.mp hx with rfl | hx
        · exact .inr (.inl h)
        · exact .inl ⟨x, hx, h⟩
      · exact .inr (.inr h)

variable (handlerId : PoolInstanceId → HandlerId)

/-- The reviewed pool on its chain, with the reviewed code, and a batch of a size that is looked at. -/
def Reviewed (batch : List ReactiveInputRecord) (instance_ : PoolInstanceId) (snapshot : EvmSnapshot) : Prop :=
  instance_.key = .slipstream POOL ∧ snapshot.chainId = 10 ∧ runtimeMatches snapshot = true ∧ batch.length ≤ MAX_RECORDS

/-- The logs that a batch places in a transaction, one at each position and all delivered in one scope. -/
structure Places (handler : HandlerId) (batch : List ReactiveInputRecord) (transaction : TransactionKey)
    (logs : SortedMap Nat Log) : Prop where
  sound : Sound (batch.filterMap (entryOf handler)) transaction
  logs : ∀ position log, logs.get position = some log ↔ ∃ e ∈ batch.filterMap (entryOf handler),
    e.transaction = transaction ∧ e.position = position ∧ e.log = log

theorem Places.eq {handler : HandlerId} {batch : List ReactiveInputRecord} {transaction : TransactionKey}
    {logs logs' : SortedMap Nat Log} (h : Places handler batch transaction logs)
    (h' : Places handler batch transaction logs') : logs = logs' := by
  ext position log
  rw [h.logs, h'.logs]

/-- Evidence of a batch, by the logs that the batch places in its transaction. -/
theorem get_fromBatch {batch : List ReactiveInputRecord} {instance_ : PoolInstanceId} {snapshot : EvmSnapshot}
    {key : EventKey} {e : SlipstreamStakingEvidence} :
    (fromBatch keccak256 handlerId batch instance_ snapshot).get key = some e ↔
      Reviewed batch instance_ snapshot ∧ ∃ logs, Places (handlerId instance_) batch key.transaction logs ∧
        e ∈ transactionEvidence keccak256 key.transaction logs ∧ e.key = key := by
  unfold fromBatch
  by_cases hr : Reviewed batch instance_ snapshot
  · obtain ⟨hkey, hchain, hcode, hlen⟩ := hr
    rw [if_neg (by simp [hkey, hchain, hcode]), if_neg (by omega)]
    rw [get_foldl_transactions keccak256 _ _ (SortedMap.nodup_keys _) _ fun _ _ _ => rfl]
    have hspec : CollectedSpec (batch.filterMap (entryOf (handlerId instance_))) (collect (handlerId instance_) batch) :=
      collectedSpec _
    set c := collect (handlerId instance_) batch
    have hlogs : ∀ {transaction logs}, c.transactions.get transaction = some logs → c.logs transaction = logs := by
      intro transaction logs h
      rw [Collected.logs, h]
      rfl
    simp only [Map.get_empty, reduceCtorEq, or_false]
    constructor
    · rintro ⟨⟨transaction, logs⟩, hx, hinvalid, he, rfl⟩
      obtain rfl := transactionEvidence_transaction keccak256 transaction logs he
      have hsound := not_not.mp fun h => hinvalid ((hspec.invalid _).mpr h)
      refine ⟨⟨hkey, hchain, hcode, hlen⟩, logs, ⟨hsound, fun position log => ?_⟩, he, rfl⟩
      rw [← hlogs (SortedMap.get_eq_some.mpr hx)]
      exact hspec.logs_eq_some hsound
    · rintro ⟨-, logs, ⟨hsound, hplaced⟩, he, rfl⟩
      obtain ⟨-, index, log, -, hlog, -⟩ := (mem_transactionEvidence keccak256 _ logs).mp he
      cases hget : c.transactions.get e.key.transaction with
      | none =>
        obtain ⟨entry, hentry, htransaction, -⟩ := (hplaced index log).mp hlog
        have hmem := mem_entriesOf.mpr ⟨hentry, htransaction⟩
        rw [(hspec.transactions _).mp hget] at hmem
        cases hmem
      | some logs' =>
        have heq : logs' = logs := by
          ext position log
          rw [← hlogs hget, hspec.logs_eq_some hsound, hplaced]
        rw [heq] at hget
        exact ⟨_, SortedMap.get_eq_some.mp hget, fun h => (hspec.invalid _).mp h hsound, he, rfl⟩
  · refine iff_of_false ?_ fun h => hr h.1
    split_ifs with h₁ h₂
    · intro h
      cases h
    · intro h
      cases h
    · simp only [not_or, not_not, Bool.not_eq_false] at h₁
      exact absurd ⟨h₁.1, h₁.2.1, h₁.2.2, not_lt.mp h₂⟩ hr

theorem Places.perm {handler : HandlerId} {batch batch' : List ReactiveInputRecord} (hp : batch.Perm batch')
    {transaction : TransactionKey} {logs : SortedMap Nat Log} (h : Places handler batch transaction logs) :
    Places handler batch' transaction logs := by
  have hentries := hp.filterMap (entryOf handler)
  refine ⟨h.sound.perm hentries, fun position log => ?_⟩
  simp only [h.logs, hentries.mem_iff]

/-- The evidence of a batch does not depend on the order of its records. -/
theorem fromBatch_perm {batch batch' : List ReactiveInputRecord} (hp : batch.Perm batch') (instance_ : PoolInstanceId)
    (snapshot : EvmSnapshot) :
    fromBatch keccak256 handlerId batch instance_ snapshot = fromBatch keccak256 handlerId batch' instance_ snapshot := by
  have hmp : ∀ {batch batch' : List ReactiveInputRecord}, batch.Perm batch' → ∀ {key e},
      (fromBatch keccak256 handlerId batch instance_ snapshot).get key = some e →
        (fromBatch keccak256 handlerId batch' instance_ snapshot).get key = some e := by
    intro batch batch' hp key e h
    obtain ⟨⟨h₁, h₂, h₃, hlen⟩, logs, hplaces, he⟩ := (get_fromBatch keccak256 handlerId).mp h
    exact (get_fromBatch keccak256 handlerId).mpr ⟨⟨h₁, h₂, h₃, hp.length_eq ▸ hlen⟩, logs, hplaces.perm hp, he⟩
  ext key e
  exact ⟨hmp hp, hmp hp.symm⟩

variable {batch : List ReactiveInputRecord} {instance_ : PoolInstanceId} {snapshot : EvmSnapshot}

/-- Evidence stands for a pattern of its transaction, where no two patterns share a transfer. -/
theorem fromBatch_pattern {key : EventKey} {e : SlipstreamStakingEvidence}
    (h : (fromBatch keccak256 handlerId batch instance_ snapshot).get key = some e) :
    ∃ logs, Places (handlerId instance_) batch key.transaction logs ∧ TransfersOnce logs ∧
      ∃ index m, Pattern logs index m ∧ (key.log = m.applyIndex index ∧ e.delta = m.delta ∨
        m.deposit = false ∧ key.log = index ∧ e.delta = 0) := by
  obtain ⟨-, logs, hplaces, he, rfl⟩ := (get_fromBatch keccak256 handlerId).mp h
  obtain ⟨honce, index, log, m, -, hpattern, he⟩ := (mem_transactionEvidence keccak256 _ logs).mp he
  exact ⟨logs, hplaces, honce, index, m, hpattern, (mem_matchEvidence keccak256 _ logs he).2⟩

/-- Every pattern of a transaction whose transfers serve once is attested, with its range, its delta and its logs. -/
theorem evidence_of_pattern (hreviewed : Reviewed batch instance_ snapshot) {transaction : TransactionKey}
    {logs : SortedMap Nat Log} (hplaces : Places (handlerId instance_) batch transaction logs) (honce : TransfersOnce logs)
    {index : Nat} {m : StakingMatch} (hpattern : Pattern logs index m) :
    (∃ log, logs.get (m.applyIndex index) = some log ∧
      Attests keccak256 (fromBatch keccak256 handlerId batch instance_ snapshot) transaction (m.applyIndex index) log m
        m.delta) ∧
    (m.deposit = false → ∃ log, logs.get index = some log ∧
      Attests keccak256 (fromBatch keccak256 handlerId batch instance_ snapshot) transaction index log m 0) := by
  obtain ⟨log, hlog, -⟩ := hpattern.gauge
  obtain ⟨moved, hmoved, -⟩ := hpattern.transfer_log
  have hattests : ∀ proof ∈ matchEvidence keccak256 transaction logs index log m,
      (fromBatch keccak256 handlerId batch instance_ snapshot).get proof.key = some proof ∧
        ∀ context, EventKey.context context = some proof.key →
          evidence (fromBatch keccak256 handlerId batch instance_ snapshot) POOL context = some proof := by
    intro proof hproof
    have ht := (mem_matchEvidence keccak256 _ logs hproof).1
    have hget : (fromBatch keccak256 handlerId batch instance_ snapshot).get proof.key = some proof := by
      refine (get_fromBatch keccak256 handlerId).mpr ⟨hreviewed, logs, ht ▸ hplaces, ?_, rfl⟩
      rw [ht]
      exact (mem_transactionEvidence keccak256 _ logs).mpr ⟨honce, index, log, m, hlog, hpattern, hproof⟩
    refine ⟨hget, fun context hcontext => ?_⟩
    rw [evidence, if_pos rfl, hcontext]
    exact hget
  unfold matchEvidence at hattests
  unfold StakingMatch.applyIndex StakingMatch.delta Attests
  rcases hd : m.deposit with _ | _
  · rw [hd] at hattests
    rw [if_neg nofun, if_neg nofun]
    rw [if_neg nofun, if_neg nofun, if_neg nofun, hmoved] at hattests
    exact ⟨⟨moved, hmoved, hattests _ List.mem_cons_self⟩, fun _ =>
      ⟨log, hlog, hattests _ (List.mem_cons_of_mem _ List.mem_cons_self)⟩⟩
  · rw [hd] at hattests
    rw [if_pos rfl, if_pos rfl]
    rw [if_pos rfl, if_pos rfl, if_pos rfl, hlog] at hattests
    exact ⟨⟨log, hlog, hattests _ List.mem_cons_self⟩, nofun⟩

variable (batch instance_ snapshot)

/-- Staking evidence is order-free and single-use. The evidence of a batch is the same for every order of its records.
    Every gauge event with its counterparts, in a reviewed batch and a transaction whose transfers serve once, is attested
    with its range, its delta and the payload of its log: a withdrawal has its delta at its transfer and none at its own
    log. A nonzero delta stands for exactly one such event, and no custody transfer serves two of them. A transaction with
    a repeated position or a mixed scope, or whose patterns share a transfer, has no evidence, and neither has a position
    that no pattern applies at. -/
theorem fromBatch_single_use :
    let output := fromBatch keccak256 handlerId batch instance_ snapshot
    let Placed := Places (handlerId instance_) batch
    (∀ batch', batch.Perm batch' → fromBatch keccak256 handlerId batch' instance_ snapshot = output) ∧
    (Reviewed batch instance_ snapshot → ∀ transaction logs index m, Placed transaction logs → TransfersOnce logs →
      Pattern logs index m →
        (∃ log, logs.get (m.applyIndex index) = some log ∧
          Attests keccak256 output transaction (m.applyIndex index) log m m.delta) ∧
        (m.deposit = false → ∃ log, logs.get index = some log ∧ Attests keccak256 output transaction index log m 0)) ∧
    (∀ key e, output.get key = some e → e.delta ≠ 0 → ∃! index, ∃ logs m, Placed key.transaction logs ∧
      Pattern logs index m ∧ key.log = m.applyIndex index ∧ e.delta = m.delta) ∧
    (∀ key e logs i j m n, output.get key = some e → Placed key.transaction logs → Pattern logs i m → Pattern logs j n →
      m.transfer = n.transfer → i = j) ∧
    (∀ key e logs index m, output.get key = some e → Placed key.transaction logs → Pattern logs index m →
      m.deposit = false → m.transfer ≠ index ∧
        (∃ proof, output.get ⟨key.transaction, m.transfer⟩ = some proof ∧ proof.delta = -m.amount) ∧
        ∃ proof, output.get ⟨key.transaction, index⟩ = some proof ∧ proof.delta = 0) ∧
    (∀ transaction position, ¬ Sound (batch.filterMap (entryOf (handlerId instance_))) transaction →
      output.get ⟨transaction, position⟩ = none) ∧
    (∀ transaction logs position, Placed transaction logs → ¬ TransfersOnce logs →
      output.get ⟨transaction, position⟩ = none) ∧
    (∀ transaction logs position, Placed transaction logs →
      (∀ index m, Pattern logs index m → position ≠ index ∧ position ≠ m.transfer) →
        output.get ⟨transaction, position⟩ = none) := by
  intro output Placed
  refine ⟨fun batch' hp => (fromBatch_perm keccak256 handlerId hp instance_ snapshot).symm,
    fun hreviewed transaction logs index m hplaces honce hpattern =>
      evidence_of_pattern keccak256 handlerId hreviewed hplaces honce hpattern, fun key e h hdelta => ?_,
    fun key e logs i j m n h hplaces hm hn => ?_, fun key e logs index m h hplaces hpattern hd => ?_,
    fun transaction position hsound => ?_, fun transaction logs position hplaces honce => ?_,
    fun transaction logs position hplaces hnone => ?_⟩
  · obtain ⟨logs, hplaces, honce, index, m, hpattern, ⟨hlog, he⟩ | ⟨-, -, he⟩⟩ := fromBatch_pattern keccak256 handlerId h
    · refine ⟨index, ⟨logs, m, hplaces, hpattern, hlog, he⟩, ?_⟩
      rintro j ⟨logs', n, hplaces', hpattern', hlog', -⟩
      obtain rfl := hplaces.eq hplaces'
      rw [hlog] at hlog'
      unfold StakingMatch.applyIndex at hlog'
      split_ifs at hlog'
      · exact hlog'.symm
      · exact absurd hlog'.symm (hpattern'.transfer_ne_index hpattern)
      · exact absurd hlog' (hpattern.transfer_ne_index hpattern')
      · exact (honce _ _ _ _ hpattern hpattern' hlog').symm
    · exact absurd he hdelta
  · obtain ⟨logs', hplaces', honce, -⟩ := fromBatch_pattern keccak256 handlerId h
    obtain rfl := hplaces.eq hplaces'
    exact honce i j m n hm hn
  · obtain ⟨hreviewed, logs', hplaces', he, -⟩ := (get_fromBatch keccak256 handlerId).mp h
    obtain rfl := hplaces.eq hplaces'
    obtain ⟨honce, -⟩ := (mem_transactionEvidence keccak256 _ logs).mp he
    obtain ⟨⟨_, -, happly, -⟩, hown⟩ := evidence_of_pattern keccak256 handlerId hreviewed hplaces honce hpattern
    obtain ⟨_, -, hown, -⟩ := hown hd
    rw [StakingMatch.applyIndex, StakingMatch.delta, if_neg (by rw [hd]; exact nofun),
      if_neg (by rw [hd]; exact nofun)] at happly
    exact ⟨hpattern.transfer_ne_index hpattern, ⟨_, happly, rfl⟩, _, hown, rfl⟩
  · cases hget : output.get ⟨transaction, position⟩ with
    | none => rfl
    | some e =>
      obtain ⟨logs, hplaces, -⟩ := fromBatch_pattern keccak256 handlerId hget
      exact absurd hplaces.sound hsound
  · cases hget : output.get ⟨transaction, position⟩ with
    | none => rfl
    | some e =>
      obtain ⟨logs', hplaces', honce', -⟩ := fromBatch_pattern keccak256 handlerId hget
      obtain rfl := hplaces.eq hplaces'
      exact absurd honce' honce
  · cases hget : output.get ⟨transaction, position⟩ with
    | none => rfl
    | some e =>
      obtain ⟨logs', hplaces', -, index, m, hpattern, happly⟩ := fromBatch_pattern keccak256 handlerId hget
      obtain rfl := hplaces.eq hplaces'
      obtain ⟨hindex, htransfer⟩ := hnone index m hpattern
      unfold StakingMatch.applyIndex at happly
      split_ifs at happly with hd
      · exact absurd (happly.elim (·.1) (·.2.1)) hindex
      · exact absurd (happly.elim (·.1)  fun h => absurd h.2.1 hindex) htransfer

end

/-- A deposit of token 3 by holder 9: the pool's `Collect`, the manager's, the custody transfer and the gauge's
    `Deposit`. -/
def depositLogs : List (Nat × Log) :=
  [(5, ⟨POOL, poolCollectEvent.encode ⟨NFT, 9, -200, 200, 0, 0⟩⟩), (7, ⟨NFT, collectEvent.encode ⟨3, 9, 0, 0⟩⟩),
    (8, ⟨NFT, transferEvent.encode ⟨9, GAUGE, 3⟩⟩), (9, ⟨GAUGE, (gaugeEvent DEPOSIT_SIGNATURE).encode ⟨9, 3, 50⟩⟩)]

example : (transactionEvidence (fun _ => 0) ⟨10, 1, 2, 3, 4, 5, 6⟩
    (depositLogs.foldl (fun m e => m.insert e.1 e.2) .empty)) =
    [⟨⟨⟨10, 1, 2, 3, 4, 5, 6⟩, 9⟩, 0, -200, 200, 50⟩] := by decide +kernel

end AmmState.Slipstream
