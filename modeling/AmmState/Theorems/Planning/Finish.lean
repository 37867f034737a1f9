import AmmState.Planning.V3Planner

/-! When a planner's end is coherent: the registration and the report have one status, a ready pool has every mandatory
    slot, what was known of the pool's identity stays known, and a repair names every mandatory slot that failed. -/

namespace AmmState.Planning
open V3 (Keccak StateView)
open Repairs (StorageSlot ColdStartPolicy RepairAction)

/-! ### Runs -/

/-- What a driver answers in a round: a result for every slot, the changes it injected, and the view after them. -/
structure Answer where
  fetch : Cell → SlotFetch
  verified : List SlotChange
  view : StateView

def Answer.of (answer : Answer) (slot : StorageSlot) : SlotFetch := answer.fetch ⟨slot.1, slot.2⟩

/-- The slots of the plan with their results. -/
def Answer.results (answer : Answer) (plan : ColdStartPlan) : ColdStartResults :=
  ⟨answer.verified, plan.verify.map fun slot => ⟨slot.1, slot.2, answer.of slot⟩, []⟩

structure Asked where
  plan : ColdStartPlan
  answer : Answer

/-- The rounds of a planner up to its end, and the planner then. -/
def transcript (planner : AdapterColdStartPlanner) :
    planner.State → ColdStartPlan → List Answer → Option (List Asked × planner.State)
  | _, _, [] => none
  | state, plan, answer :: rest =>
    match planner.onResults state (answer.results plan) answer.view with
    | (state, .done) => some ([⟨plan, answer⟩], state)
    | (state, .continues next) =>
      (transcript planner state next rest).map fun (rounds, last) => (⟨plan, answer⟩ :: rounds, last)

/-- The rounds of a planner that was just built. -/
def runPlanner (planner : AdapterColdStartPlanner) (state : planner.State) (start : StateView) (answers : List Answer) :
    Option (List Asked × planner.State) :=
  let (state, plan) := planner.initialPlan state start
  transcript planner state plan answers

/-! ### Identity -/

/-- Something that is known of a pool's identity. -/
inductive IdentityFact
  | token0 (token : Address)
  | token1 (token : Address)
  | feeBps (fee : Nat)
  | fee (fee : Nat)
  | tickSpacing (spacing : Int)
  | factory (factory : Address)
  | quoter (quoter : Address)
  | layout (layout : V3.V3StorageLayout)
  | stable (stable : Bool)
  | solidlyLayout (layout : SolidlyStorageLayout)
  | other (metadata : ProtocolMetadata)

inductive IdentityField
  | token0 | token1 | feeBps | fee | tickSpacing | factory | quoter | layout | stable | solidlyLayout | other

def IdentityFact.field : IdentityFact → IdentityField
  | .token0 _ => .token0
  | .token1 _ => .token1
  | .feeBps _ => .feeBps
  | .fee _ => .fee
  | .tickSpacing _ => .tickSpacing
  | .factory _ => .factory
  | .quoter _ => .quoter
  | .layout _ => .layout
  | .stable _ => .stable
  | .solidlyLayout _ => .solidlyLayout
  | .other _ => .other

def v3Facts (metadata : V3Metadata) : List IdentityFact :=
  metadata.token0.toList.map .token0 ++ metadata.token1.toList.map .token1 ++ metadata.fee.toList.map .fee ++
    metadata.tickSpacing.toList.map .tickSpacing ++ metadata.factory.toList.map .factory ++
    metadata.quoter.toList.map .quoter ++ metadata.storageLayout.toList.map .layout

/-- The facts of a registration's metadata; those of the venues that have other planners count as one. -/
def facts : ProtocolMetadata → List IdentityFact
  | .unknown => []
  | .uniswapV2 metadata =>
    metadata.token0.toList.map .token0 ++ metadata.token1.toList.map .token1 ++ metadata.feeBps.toList.map .feeBps
  | .uniswapV3 metadata | .pancakeV3 metadata | .slipstream metadata => v3Facts metadata
  | .solidlyV2 metadata =>
    metadata.token0.toList.map .token0 ++ metadata.token1.toList.map .token1 ++ metadata.stable.toList.map .stable ++
      metadata.storageLayout.toList.map .solidlyLayout
  | metadata => [.other metadata]

/-! ### Coherence -/

def ColdStartOutcome.report : ColdStartOutcome → Option ColdStartReport
  | .ready report | .readyWithDeferred report _ | .needsRepair report _ => some report
  | .unsupported _ => none

def ColdStartOutcome.isReady : ColdStartOutcome → Bool
  | .ready _ | .readyWithDeferred _ _ => true
  | .needsRepair _ _ | .unsupported _ => false

/-- A repair fetches or purges the slot. -/
def Names : RepairAction → StorageSlot → Prop
  | .verifySlots slots, slot => slot ∈ slots
  | .purgeSlots address slots, slot => slot.1 = address ∧ slot.2 ∈ slots
  | .purgeStorage address, slot => slot.1 = address
  | _, _ => False

/-- The end of a run in which some mandatory slots failed and some facts were decoded from held slots. -/
structure Coherent (failed : StorageSlot → Prop) (decoded : IdentityFact → Prop) (prior : PoolRegistration)
    (finish : PoolRegistration × ColdStartOutcome) : Prop where
  status : ∀ report ∈ finish.2.report, finish.1.status = report.status
  ready : finish.2.isReady = true → ∀ slot, ¬ failed slot
  identity : ∀ fact ∈ facts prior.metadata, fact ∈ facts finish.1.metadata ∨
    ∃ fact' ∈ facts finish.1.metadata, fact'.field = fact.field ∧ decoded fact'
  repair : ∀ report repair, finish.2 = .needsRepair report repair → ∀ slot, failed slot → Names repair slot

/-! ### Venues -/

inductive Venue
  | uniswapV2 | solidlyV2 | v3Family

def Venue.planner (keccak : Keccak) : Venue → AdapterColdStartPlanner
  | .uniswapV2 => uniswapV2Planner
  | .solidlyV2 => solidlyV2Planner
  | .v3Family => uniswapV3Planner keccak

def isValue (fetch : SlotFetch) : Bool :=
  match fetch with
  | .value _ => true
  | .zero | .fetchFailed _ | .notAttempted => false

/-- The mandatory slots of a pair venue, the token slots, and the facts that no slot of the pool holds. -/
structure Pair where
  reserves : List StorageSlot
  token0 : StorageSlot
  token1 : StorageSlot
  own : IdentityFact → Prop

/-- A reserve must be a value. -/
def Pair.Failed (pair : Pair) (rounds : List Asked) (slot : StorageSlot) : Prop :=
  slot ∈ pair.reserves ∧ ∃ asked ∈ rounds, isValue (asked.answer.of slot) = false

def held (view : StateView) (slot : StorageSlot) : Option U256 := view.storage slot.1 slot.2

/-- The tokens of the held token slots. -/
def Pair.Decoded (pair : Pair) (rounds : List Asked) (fact : IdentityFact) : Prop :=
  ∃ asked ∈ rounds, ∃ word, held asked.answer.view pair.token0 = some word ∧ fact = .token0 (decodeAddressSlot word) ∨
    held asked.answer.view pair.token1 = some word ∧ fact = .token1 (decodeAddressSlot word)

/-- A known token is held in its slot; what else is known is the venue's own. -/
def Pair.Keeps (pair : Pair) (view : StateView) : IdentityFact → Prop
  | .token0 _ => (held view pair.token0).isSome = true
  | .token1 _ => (held view pair.token1).isSome = true
  | fact => pair.own fact

/-- The condition of a pair planner: where a reserve fails, the pool was degraded before; else it keeps all that is
    known. -/
structure Pair.Meets (pair : Pair) (pool : PoolRegistration) (asked : Asked) : Prop where
  repaired : (∃ slot ∈ pair.reserves, isValue (asked.answer.of slot) = false) → pool.status = .degraded
  ready : (∀ slot ∈ pair.reserves, isValue (asked.answer.of slot) = true) →
    ∀ fact ∈ facts pool.metadata, pair.Keeps asked.answer.view fact

def UniswapV2ColdStartPlanner.pair (planner : UniswapV2ColdStartPlanner) : Pair where
  reserves := [(planner.address, V2_RESERVES_SLOT)]
  token0 := (planner.address, V2_TOKEN0_SLOT)
  token1 := (planner.address, V2_TOKEN1_SLOT)
  own fact := fact.field = .feeBps

def SolidlyV2ColdStartPlanner.pair (planner : SolidlyV2ColdStartPlanner) : Pair where
  reserves := [(planner.address, planner.layout.reserve0Slot), (planner.address, planner.layout.reserve1Slot)]
  token0 := (planner.address, planner.layout.token0Slot)
  token1 := (planner.address, planner.layout.token1Slot)
  own fact := fact.field = .stable ∨ fact.field = .solidlyLayout

namespace UniswapV3ColdStartPlanner
variable (planner : UniswapV3ColdStartPlanner)

def slot0 : StorageSlot := (planner.address, planner.layout.slot0Slot)

/-- `slot0` must be a value. With an exact surface every slot must be fetched, as a value or as a zero; without one, a
    bitmap must be fetched or held. -/
def FailedAt (round : Nat) (asked : Asked) (slot : StorageSlot) : Prop :=
  slot ∈ asked.plan.verify ∧
    (round = 0 ∧ slot = planner.slot0 ∧ isValue (asked.answer.of slot) = false ∨
      planner.exactSurface ≠ .none ∧ isUnfetched (asked.answer.of slot) = true ∨
      planner.exactSurface = .none ∧ round = 1 ∧ isUnfetched (asked.answer.of slot) = true ∧
        held asked.answer.view slot = none)

def Failed (rounds : List Asked) (slot : StorageSlot) : Prop :=
  ∃ round asked, rounds[round]? = some asked ∧ planner.FailedAt round asked slot

/-- Where `slot0` fails, no other mandatory slot of the first round fails with it. -/
def Meets (asked : Asked) : Prop :=
  isValue (asked.answer.of planner.slot0) = false → planner.exactSurface ≠ .none →
    ∀ slot ∈ asked.plan.verify, slot ≠ planner.slot0 → isUnfetched (asked.answer.of slot) = false

end UniswapV3ColdStartPlanner

namespace Venue
variable (keccak : Keccak)

/-- The mandatory slots that failed in a run of a planner. -/
def Failed : (venue : Venue) → (venue.planner keccak).State → List Asked → StorageSlot → Prop
  | .uniswapV2 => fun (planner : UniswapV2ColdStartPlanner) => planner.pair.Failed
  | .solidlyV2 => fun (planner : SolidlyV2ColdStartPlanner) => planner.pair.Failed
  | .v3Family => UniswapV3ColdStartPlanner.Failed

/-- The facts that a run decoded from held slots. -/
def Decoded : (venue : Venue) → (venue.planner keccak).State → List Asked → IdentityFact → Prop
  | .uniswapV2 => fun (planner : UniswapV2ColdStartPlanner) => planner.pair.Decoded
  | .solidlyV2 => fun (planner : SolidlyV2ColdStartPlanner) => planner.pair.Decoded
  | .v3Family => fun _ _ _ => False

/-- The condition on the first round. -/
def Meets : (venue : Venue) → (venue.planner keccak).State → PoolRegistration → Asked → Prop
  | .uniswapV2 => fun (planner : UniswapV2ColdStartPlanner) => planner.pair.Meets
  | .solidlyV2 => fun (planner : SolidlyV2ColdStartPlanner) => planner.pair.Meets
  | .v3Family => fun (planner : UniswapV3ColdStartPlanner) _ => planner.Meets

end Venue

/-! ### Results of a round -/

theorem fetchOf_results {answer : Answer} {plan : ColdStartPlan} {slot : StorageSlot} (h : slot ∈ plan.verify) :
    (answer.results plan).fetchOf slot.1 slot.2 = some (answer.of slot) := by
  have hfind : ∀ slots : List StorageSlot, slot ∈ slots →
      (slots.map fun slot => (⟨slot.1, slot.2, answer.of slot⟩ : SlotOutcome)).find?
        (fun outcome => outcome.address = slot.1 && outcome.slot = slot.2) =
          some ⟨slot.1, slot.2, answer.of slot⟩ := by
    intro slots hmem
    induction slots with
    | nil => exact absurd hmem List.not_mem_nil
    | cons other rest ih =>
      rw [List.map_cons, List.find?_cons]
      by_cases heq : other = slot
      · simp [heq]
      · have hne : ¬ (other.1 = slot.1 ∧ other.2 = slot.2) := fun h => heq (Prod.ext h.1 h.2)
        have hrest := ih ((List.mem_cons.mp hmem).resolve_left (Ne.symm heq))
        rw [← Bool.decide_and, decide_eq_false hne]
        exact hrest
  rw [ColdStartResults.fetchOf, Answer.results, hfind plan.verify h]
  rfl

theorem classifySlot_results (answer : Answer) {plan : ColdStartPlan} {slot : StorageSlot} (h : slot ∈ plan.verify) :
    classifySlot (answer.results plan) slot.1 slot.2 = .ready ↔ isValue (answer.of slot) = true := by
  rw [classifySlot, fetchOf_results h]
  cases answer.of slot <;> simp [isValue]

/-! ### The pair venues -/

/-- A fact that a pair planner decodes or keeps. -/
def Pair.Known (pair : Pair) (pool : PoolRegistration) (view : StateView) (fact : IdentityFact) : Prop :=
  (∃ word, held view pair.token0 = some word ∧ fact = .token0 (decodeAddressSlot word)) ∨
    (∃ word, held view pair.token1 = some word ∧ fact = .token1 (decodeAddressSlot word)) ∨
    fact ∈ facts pool.metadata ∧ pair.own fact

/-- How a pair planner ends after its one round. -/
inductive Pair.Ends (pair : Pair) (pool : PoolRegistration) (asked : Asked) : PoolRegistration × ColdStartOutcome → Prop
  | repair (report : ColdStartReport) (repair : RepairAction)
      (failed : ∃ slot ∈ pair.reserves, isValue (asked.answer.of slot) = false) (status : report.status = .degraded)
      (names : ∀ slot ∈ pair.reserves, Names repair slot) : pair.Ends pool asked (pool, .needsRepair report repair)
  | ready (after : PoolRegistration) (outcome : ColdStartOutcome)
      (values : ∀ slot ∈ pair.reserves, isValue (asked.answer.of slot) = true) (ready : outcome.isReady = true)
      (status : ∀ report ∈ outcome.report, after.status = report.status)
      (known : ∀ fact, fact ∈ facts after.metadata ↔ pair.Known pool asked.answer.view fact) :
      pair.Ends pool asked (after, outcome)

/-- A pair venue's own facts are not its tokens. -/
structure Pair.Apart (pair : Pair) : Prop where
  token0 : ∀ fact, pair.own fact → fact.field ≠ .token0
  token1 : ∀ fact, pair.own fact → fact.field ≠ .token1

section
variable {pair : Pair} {pool : PoolRegistration} {asked : Asked} {fact : IdentityFact}

/-- A fact is there after the run, as it was or decoded anew. -/
def Pair.Survives (pair : Pair) (pool : PoolRegistration) (asked : Asked) (fact : IdentityFact) : Prop :=
  pair.Known pool asked.answer.view fact ∨
    ∃ fact', pair.Known pool asked.answer.view fact' ∧ fact'.field = fact.field ∧ pair.Decoded [asked] fact'

theorem Pair.decoded_singleton : pair.Decoded [asked] fact ↔
    (∃ word, held asked.answer.view pair.token0 = some word ∧ fact = .token0 (decodeAddressSlot word)) ∨
      ∃ word, held asked.answer.view pair.token1 = some word ∧ fact = .token1 (decodeAddressSlot word) := by
  simp only [Pair.Decoded, List.mem_singleton, exists_eq_left, exists_or]

/-- A token survives exactly where its slot is held. -/
theorem Pair.survives_token0 (hapart : pair.Apart) {token : Address} :
    pair.Survives pool asked (.token0 token) ↔ (held asked.answer.view pair.token0).isSome = true := by
  rw [Option.isSome_iff_exists]
  constructor
  · rintro ((⟨word, hword, -⟩ | ⟨word, -, hfact⟩ | ⟨-, hown⟩) | ⟨fact', -, hfield, hdecoded⟩)
    · exact ⟨word, hword⟩
    · cases hfact
    · exact absurd rfl (hapart.token0 _ hown)
    · rcases Pair.decoded_singleton.mp hdecoded with ⟨word, hword, -⟩ | ⟨word, -, rfl⟩
      · exact ⟨word, hword⟩
      · cases hfield
  · rintro ⟨word, hword⟩
    exact .inr ⟨_, .inl ⟨word, hword, rfl⟩, rfl, Pair.decoded_singleton.mpr (.inl ⟨word, hword, rfl⟩)⟩

theorem Pair.survives_token1 (hapart : pair.Apart) {token : Address} :
    pair.Survives pool asked (.token1 token) ↔ (held asked.answer.view pair.token1).isSome = true := by
  rw [Option.isSome_iff_exists]
  constructor
  · rintro ((⟨word, -, hfact⟩ | ⟨word, hword, -⟩ | ⟨-, hown⟩) | ⟨fact', -, hfield, hdecoded⟩)
    · cases hfact
    · exact ⟨word, hword⟩
    · exact absurd rfl (hapart.token1 _ hown)
    · rcases Pair.decoded_singleton.mp hdecoded with ⟨word, -, rfl⟩ | ⟨word, hword, -⟩
      · cases hfield
      · exact ⟨word, hword⟩
  · rintro ⟨word, hword⟩
    exact .inr ⟨_, .inr (.inl ⟨word, hword, rfl⟩), rfl, Pair.decoded_singleton.mpr (.inr ⟨word, hword, rfl⟩)⟩

/-- What else was known survives exactly where it is the venue's own. -/
theorem Pair.survives_other (hfact : fact ∈ facts pool.metadata) (h0 : fact.field ≠ .token0) (h1 : fact.field ≠ .token1) :
    pair.Survives pool asked fact ↔ pair.own fact := by
  constructor
  · rintro ((⟨word, -, rfl⟩ | ⟨word, -, rfl⟩ | ⟨-, hown⟩) | ⟨fact', -, hfield, hdecoded⟩)
    · exact absurd rfl h0
    · exact absurd rfl h1
    · exact hown
    · rcases Pair.decoded_singleton.mp hdecoded with ⟨word, -, rfl⟩ | ⟨word, -, rfl⟩
      · exact absurd hfield.symm h0
      · exact absurd hfield.symm h1
  · exact fun hown => .inl (.inr (.inr ⟨hfact, hown⟩))

theorem Pair.survives_iff (hapart : pair.Apart) (hfact : fact ∈ facts pool.metadata) :
    pair.Survives pool asked fact ↔ pair.Keeps asked.answer.view fact := by
  cases fact
  case token0 => exact survives_token0 hapart
  case token1 => exact survives_token1 hapart
  all_goals exact survives_other hfact nofun nofun

/-- An end of a pair planner is coherent exactly under the condition. -/
theorem Pair.Ends.coherent_iff {finish : PoolRegistration × ColdStartOutcome} (hapart : pair.Apart)
    (h : pair.Ends pool asked finish) :
    Coherent (pair.Failed [asked]) (pair.Decoded [asked]) pool finish ↔ pair.Meets pool asked := by
  have hfailed : ∀ slot, pair.Failed [asked] slot ↔ slot ∈ pair.reserves ∧ isValue (asked.answer.of slot) = false :=
    fun slot => by simp [Pair.Failed]
  cases h with
  | repair report repair failed status names =>
    refine ⟨fun h => ⟨fun _ => ?_, fun values => ?_⟩, fun h => ⟨?_, nofun, fun fact hfact => .inl hfact, ?_⟩⟩
    · exact (h.status report rfl).trans status
    · obtain ⟨slot, hslot, hvalue⟩ := failed
      exact absurd (values slot hslot) (by rw [hvalue]; nofun)
    · intro report' hreport
      cases hreport
      exact (h.repaired failed).trans status.symm
    · intro report' repair' heq slot hslot
      cases heq
      exact names slot ((hfailed slot).mp hslot).1
  | ready after outcome values ready status known =>
    have hsurvives : ∀ fact, (fact ∈ facts after.metadata ∨ ∃ fact' ∈ facts after.metadata, fact'.field = fact.field ∧
        pair.Decoded [asked] fact') ↔ pair.Survives pool asked fact := fun fact => by
      simp only [known, Pair.Survives]
    refine ⟨fun h => ⟨fun failed => ?_, fun _ fact hfact => ?_⟩, fun h => ⟨status, fun _ slot hslot => ?_, ?_, ?_⟩⟩
    · obtain ⟨slot, hslot, hvalue⟩ := failed
      exact absurd (values slot hslot) (by rw [hvalue]; nofun)
    · exact (survives_iff hapart hfact).mp ((hsurvives fact).mp (h.identity fact hfact))
    · have hvalue := (hfailed slot).mp hslot
      rw [values slot hvalue.1] at hvalue
      exact absurd hvalue.2 nofun
    · exact fun fact hfact => (hsurvives fact).mpr ((survives_iff hapart hfact).mpr (h.ready values fact hfact))
    · intro report repair heq
      rw [show outcome = .needsRepair report repair from heq] at ready
      exact absurd ready nofun

end

/-! ### The two pair planners -/

section
variable {pool : PoolRegistration} {policy : ColdStartPolicy} {start : StateView} {answers : List Answer}
  {rounds : List Asked}

/-- A run ends in its first round, or goes on after it. -/
theorem transcript_cons {planner : AdapterColdStartPlanner} {state last : planner.State} {plan : ColdStartPlan}
    {answer : Answer} (h : transcript planner state plan (answer :: answers) = some (rounds, last)) :
    (planner.onResults state (answer.results plan) answer.view = (last, .done) ∧ rounds = [⟨plan, answer⟩]) ∨
      ∃ next nextPlan more, planner.onResults state (answer.results plan) answer.view = (next, .continues nextPlan) ∧
        transcript planner next nextPlan answers = some (more, last) ∧ rounds = ⟨plan, answer⟩ :: more := by
  rw [transcript] at h
  rcases hstep : planner.onResults state (answer.results plan) answer.view with ⟨next, _ | nextPlan⟩
  · simp only [hstep, Option.some.injEq, Prod.mk.injEq] at h
    exact .inl ⟨by rw [h.2], h.1.symm⟩
  · simp only [hstep, Option.map_eq_some_iff, Prod.mk.injEq] at h
    obtain ⟨⟨more, _⟩, hmore, rfl, rfl⟩ := h
    exact .inr ⟨next, nextPlan, more, rfl, hmore, rfl⟩

/-- A planner that is always done has one round. -/
theorem transcript_of_done (planner : AdapterColdStartPlanner) {state last : planner.State} {plan : ColdStartPlan}
    (hdone : ∀ state results view, (planner.onResults state results view).2 = .done)
    (h : transcript planner state plan answers = some (rounds, last)) :
    ∃ answer : Answer, rounds = [⟨plan, answer⟩] ∧
      last = (planner.onResults state (answer.results plan) answer.view).1 := by
  cases answers with
  | nil => cases h
  | cons answer rest =>
    rcases transcript_cons h with ⟨hstep, hrounds⟩ | ⟨next, nextPlan, more, hstep, -⟩
    · exact ⟨answer, hrounds, by rw [hstep]⟩
    · exact absurd (hdone state (answer.results plan) answer.view) (by rw [hstep]; nofun)

theorem UniswapV2ColdStartPlanner.reserves_mem (planner : UniswapV2ColdStartPlanner) :
    (planner.address, V2_RESERVES_SLOT) ∈ planner.initialPlan.2.verify := by
  unfold initialPlan
  cases planner.policy <;> simp [verifyPlan]

theorem mem_toList_map {α : Type} {o : Option α} {f : α → IdentityFact} {fact : IdentityFact} :
    fact ∈ o.toList.map f ↔ ∃ a, o = some a ∧ fact = f a := by
  simp [eq_comm]

theorem exists_map {o : Option U256} {f : Address → IdentityFact} {fact : IdentityFact} :
    (∃ token, o.map decodeAddressSlot = some token ∧ fact = f token) ↔
      ∃ word, o = some word ∧ fact = f (decodeAddressSlot word) := by
  cases o <;> simp

theorem facts_uniswapV2 {metadata : UniswapV2Metadata} {fact : IdentityFact} :
    fact ∈ facts (.uniswapV2 metadata) ↔ (∃ token, metadata.token0 = some token ∧ fact = .token0 token) ∨
      (∃ token, metadata.token1 = some token ∧ fact = .token1 token) ∨ ∃ fee, metadata.feeBps = some fee ∧
      fact = .feeBps fee := by
  simp only [facts, List.mem_append, mem_toList_map, or_assoc]

/-- The fee of the metadata, where the venue has set it. -/
theorem facts_feeBps {metadata : ProtocolMetadata} {fact : IdentityFact} :
    (fact ∈ facts metadata ∧ fact.field = .feeBps) ↔ ∃ fee, existingFeeBps metadata = some fee ∧ fact = .feeBps fee := by
  constructor
  · rintro ⟨hfact, hfield⟩
    cases fact <;> cases hfield
    cases metadata <;> simp [facts, v3Facts, existingFeeBps] at hfact ⊢
    exact hfact
  · rintro ⟨fee, hfee, rfl⟩
    cases metadata with
    | uniswapV2 existing => exact ⟨facts_uniswapV2.mpr (.inr (.inr ⟨fee, hfee, rfl⟩)), rfl⟩
    | _ => cases hfee

/-- The end of a planner whose verdict and tokens are those of a round. -/
theorem UniswapV2ColdStartPlanner.ends (planner : UniswapV2ColdStartPlanner) {asked : Asked}
    (hverdict : planner.verdict = some .ready ↔ isValue (asked.answer.of (planner.address, V2_RESERVES_SLOT)) = true)
    (h0 : planner.decodedToken0 = (held asked.answer.view planner.pair.token0).map decodeAddressSlot)
    (h1 : planner.decodedToken1 = (held asked.answer.view planner.pair.token1).map decodeAddressSlot) :
    planner.pair.Ends pool asked (planner.finish pool) := by
  have hfailed : planner.verdict ≠ some .ready →
      ∃ slot ∈ planner.pair.reserves, isValue (asked.answer.of slot) = false := fun hne =>
    ⟨_, List.mem_singleton_self _, Bool.eq_false_iff.mpr fun h => hne (hverdict.mpr h)⟩
  have hvalues : planner.verdict = some .ready →
      ∀ slot ∈ planner.pair.reserves, isValue (asked.answer.of slot) = true := fun h slot hslot => by
    rw [List.mem_singleton.mp hslot]
    exact hverdict.mp h
  unfold finish
  cases hv : planner.verdict with
  | none =>
    exact .repair _ _ (hfailed (by rw [hv]; nofun)) rfl fun slot => id
  | some verdict =>
    cases verdict with
    | degenerateZero =>
      refine .repair _ _ (hfailed (by rw [hv]; nofun)) rfl fun slot hslot => ?_
      rw [List.mem_singleton.mp hslot]
      exact ⟨rfl, List.mem_singleton_self _⟩
    | fetchFailed => exact .repair _ _ (hfailed (by rw [hv]; nofun)) rfl fun slot => id
    | ready =>
      have hknown : ∀ fact, fact ∈ facts (.uniswapV2 ⟨planner.decodedToken0, planner.decodedToken1,
          existingFeeBps pool.metadata⟩) ↔ planner.pair.Known pool asked.answer.view fact := fun fact => by
        simp only [facts_uniswapV2, Pair.Known, h0, h1, exists_map, pair, facts_feeBps]
      simp only
      split_ifs
      · exact .ready _ _ (hvalues hv) rfl (fun report hreport => by cases hreport; rfl) hknown
      · exact .ready _ _ (hvalues hv) rfl (fun report hreport => by cases hreport; rfl) hknown

theorem uniswapV2_ends {built last : UniswapV2ColdStartPlanner} (report : ColdStartRunReport)
    (h : runPlanner uniswapV2Planner built start answers = some (rounds, last)) :
    ∃ asked, rounds = [asked] ∧ built.pair.Ends pool asked (uniswapV2Planner.finish last pool report) := by
  obtain ⟨answer, hrounds, rfl⟩ := transcript_of_done uniswapV2Planner (fun _ _ _ => rfl) h
  have hclassify := classifySlot_results answer built.reserves_mem
  exact ⟨_, hrounds, UniswapV2ColdStartPlanner.ends
    (built.initialPlan.1.onResults (answer.results built.initialPlan.2) answer.view).1
    (Option.some_inj.trans hclassify) rfl rfl⟩

theorem facts_solidlyV2 {metadata : SolidlyV2Metadata} {fact : IdentityFact} :
    fact ∈ facts (.solidlyV2 metadata) ↔ (∃ token, metadata.token0 = some token ∧ fact = .token0 token) ∨
      (∃ token, metadata.token1 = some token ∧ fact = .token1 token) ∨
      (∃ stable, metadata.stable = some stable ∧ fact = .stable stable) ∨
      ∃ layout, metadata.storageLayout = some layout ∧ fact = .solidlyLayout layout := by
  simp only [facts, List.mem_append, mem_toList_map, or_assoc]

/-- The facts of the configuration. -/
theorem facts_solidly_own {existing : SolidlyV2Metadata} {fact : IdentityFact} :
    (fact ∈ facts (.solidlyV2 existing) ∧ (fact.field = .stable ∨ fact.field = .solidlyLayout)) ↔
      (∃ stable, existing.stable = some stable ∧ fact = .stable stable) ∨
        ∃ layout, existing.storageLayout = some layout ∧ fact = .solidlyLayout layout := by
  rw [facts_solidlyV2]
  constructor
  · rintro ⟨⟨token, -, rfl⟩ | ⟨token, -, rfl⟩ | hown, hfield⟩
    · exact absurd hfield (by simp [IdentityFact.field])
    · exact absurd hfield (by simp [IdentityFact.field])
    · exact hown
  · rintro (⟨stable, hstable, rfl⟩ | ⟨layout, hlayout, rfl⟩)
    · exact ⟨.inr (.inr (.inl ⟨stable, hstable, rfl⟩)), .inl rfl⟩
    · exact ⟨.inr (.inr (.inr ⟨layout, hlayout, rfl⟩)), .inr rfl⟩

theorem SolidlyV2ColdStartPlanner.build_eq_ok {planner : SolidlyV2ColdStartPlanner} (h : build pool policy = .ok planner) :
    ∃ existing, pool.metadata = .solidlyV2 existing := by
  unfold build at h
  cases haddress : pool.key.address with
  | none => simp [haddress] at h
  | some address =>
    cases hlayout : solidlyLayout pool with
    | none => simp [haddress, hlayout] at h
    | some layout =>
      unfold solidlyLayout at hlayout
      split at hlayout
      · exact ⟨_, ‹_›⟩
      · cases hlayout

theorem SolidlyV2ColdStartPlanner.reserve0_mem (planner : SolidlyV2ColdStartPlanner) :
    (planner.address, planner.layout.reserve0Slot) ∈ planner.initialPlan.2.verify := by
  unfold initialPlan
  cases planner.policy <;> simp [verifyPlan]

theorem SolidlyV2ColdStartPlanner.reserve1_mem (planner : SolidlyV2ColdStartPlanner) :
    (planner.address, planner.layout.reserve1Slot) ∈ planner.initialPlan.2.verify := by
  unfold initialPlan
  cases planner.policy <;> simp [verifyPlan]

theorem combineVerdicts_eq_ready {left right : ReserveVerdict} :
    SolidlyV2ColdStartPlanner.combineVerdicts left right = .ready ↔ left = .ready ∧ right = .ready := by
  cases left <;> cases right <;> simp [SolidlyV2ColdStartPlanner.combineVerdicts]

/-- The end of a planner whose verdict and tokens are those of a round. -/
theorem SolidlyV2ColdStartPlanner.ends (planner : SolidlyV2ColdStartPlanner) {asked : Asked} {existing : SolidlyV2Metadata}
    (hmetadata : pool.metadata = .solidlyV2 existing)
    (hverdict : planner.verdict = some .ready ↔ ∀ slot ∈ planner.pair.reserves, isValue (asked.answer.of slot) = true)
    (h0 : planner.decodedToken0 = (held asked.answer.view planner.pair.token0).map decodeAddressSlot)
    (h1 : planner.decodedToken1 = (held asked.answer.view planner.pair.token1).map decodeAddressSlot) :
    planner.pair.Ends pool asked (planner.finish pool) := by
  have hfailed : planner.verdict ≠ some .ready →
      ∃ slot ∈ planner.pair.reserves, isValue (asked.answer.of slot) = false := fun hne => by
    by_contra hnone
    exact hne (hverdict.mpr fun slot hslot => by simpa using fun h => hnone ⟨slot, hslot, h⟩)
  unfold finish
  cases hv : planner.verdict with
  | none => exact .repair _ _ (hfailed (by rw [hv]; nofun)) rfl fun slot => id
  | some verdict =>
    cases verdict with
    | degenerateZero =>
      refine .repair _ _ (hfailed (by rw [hv]; nofun)) rfl fun slot hslot => ?_
      rcases List.mem_cons.mp hslot with rfl | hslot
      · exact ⟨rfl, List.mem_cons_self⟩
      · rw [List.mem_singleton.mp hslot]
        exact ⟨rfl, List.mem_cons_of_mem _ (List.mem_singleton_self _)⟩
    | fetchFailed => exact .repair _ _ (hfailed (by rw [hv]; nofun)) rfl fun slot => id
    | ready =>
      have hknown : ∀ fact, fact ∈ facts (.solidlyV2 ⟨planner.decodedToken0, planner.decodedToken1, existing.stable,
          existing.storageLayout⟩) ↔ planner.pair.Known pool asked.answer.view fact := fun fact => by
        rw [facts_solidlyV2]
        simp only [Pair.Known, h0, h1, exists_map, pair, hmetadata, facts_solidly_own]
      simp only [hmetadata]
      split_ifs
      · exact .ready _ _ (hverdict.mp hv) rfl (fun report hreport => by cases hreport; rfl) hknown
      · exact .ready _ _ (hverdict.mp hv) rfl (fun report hreport => by cases hreport; rfl) hknown

theorem solidlyV2_ends {built last : SolidlyV2ColdStartPlanner} (report : ColdStartRunReport)
    (hbuilt : SolidlyV2ColdStartPlanner.build pool policy = .ok built)
    (h : runPlanner solidlyV2Planner built start answers = some (rounds, last)) :
    ∃ asked, rounds = [asked] ∧ built.pair.Ends pool asked (solidlyV2Planner.finish last pool report) := by
  obtain ⟨existing, hmetadata⟩ := SolidlyV2ColdStartPlanner.build_eq_ok hbuilt
  obtain ⟨answer, hrounds, rfl⟩ := transcript_of_done solidlyV2Planner (fun _ _ _ => rfl) h
  have hverdict : some (SolidlyV2ColdStartPlanner.combineVerdicts
      (classifySlot (answer.results built.initialPlan.2) built.address built.layout.reserve0Slot)
      (classifySlot (answer.results built.initialPlan.2) built.address built.layout.reserve1Slot)) = some .ready ↔
      ∀ slot ∈ built.pair.reserves, isValue (answer.of slot) = true := by
    rw [Option.some_inj, combineVerdicts_eq_ready, classifySlot_results answer built.reserve0_mem,
      classifySlot_results answer built.reserve1_mem]
    simp [SolidlyV2ColdStartPlanner.pair]
  exact ⟨_, hrounds, SolidlyV2ColdStartPlanner.ends
    (built.initialPlan.1.onResults (answer.results built.initialPlan.2) answer.view).1
    hmetadata hverdict rfl rfl⟩

end

/-! ### The concentrated-liquidity planner -/

namespace UniswapV3ColdStartPlanner
variable {keccak : Keccak} {built planner : UniswapV3ColdStartPlanner} {rounds : List Asked} {plan : ColdStartPlan}
  {answer : Answer} {slot : StorageSlot}

theorem failed_concat {asked : Asked} : built.Failed (rounds ++ [asked]) slot ↔
    built.Failed rounds slot ∨ built.FailedAt rounds.length asked slot := by
  simp only [Failed, List.getElem?_append, List.getElem?_singleton]
  constructor
  · rintro ⟨round, asked', hget, hfailed⟩
    split_ifs at hget with hlt hzero
    · exact .inl ⟨round, asked', hget, hfailed⟩
    · cases hget
      have hround : round = rounds.length := by omega
      exact .inr (hround ▸ hfailed)
  · rintro (⟨round, asked', hget, hfailed⟩ | hfailed)
    · have hlt : round < rounds.length := (List.getElem?_eq_some_iff.mp hget).1
      exact ⟨round, asked', by rw [if_pos hlt, hget], hfailed⟩
    · exact ⟨rounds.length, asked, by simp, hfailed⟩

theorem mem_absorb (hexact : ∀ slot ∈ plan.verify, planner.exactSurface ≠ .none → planner.isExactSlot slot = true) :
    slot ∈ (planner.absorb (answer.results plan)).failedExactSlots ↔ slot ∈ planner.failedExactSlots ∨
      planner.exactSurface ≠ .none ∧ slot ∈ plan.verify ∧ isUnfetched (answer.of slot) = true := by
  unfold absorb
  by_cases hsurface : planner.exactSurface = .none
  · simp [hsurface]
  · simp only [hsurface, if_false, sortDedupSlots, SortDedup.mem_sortDedup_iff, List.mem_append, ne_eq, not_false_eq_true,
      true_and]
    refine or_congr_right ?_
    simp only [Answer.results, List.mem_map, List.mem_filter, Bool.and_eq_true]
    constructor
    · rintro ⟨outcome, ⟨⟨asked, hasked, rfl⟩, -, hunfetched⟩, rfl⟩
      exact ⟨hasked, hunfetched⟩
    · rintro ⟨hslot, hunfetched⟩
      exact ⟨_, ⟨⟨slot, hslot, rfl⟩, hexact slot hslot hsurface, hunfetched⟩, rfl⟩

def windowKeys (planner : UniswapV3ColdStartPlanner) : List StorageSlot :=
  planner.window.map fun entry => (planner.address, entry.2)

/-- The planner was built as `built` and has neither found `slot0` cold nor lost a failed slot. -/
structure Warm (built planner : UniswapV3ColdStartPlanner) (rounds : List Asked) : Prop where
  address : planner.address = built.address
  layout : planner.layout = built.layout
  surface : planner.exactSurface = built.exactSurface
  external : planner.externalExactSlots = built.externalExactSlots
  cold : planner.slot0Cold = false
  failed : ∀ slot, slot ∈ planner.failedExactSlots ↔ built.Failed rounds slot

/-- The planner before a round. -/
structure Asks (built planner : UniswapV3ColdStartPlanner) (rounds : List Asked) (plan : ColdStartPlan) : Prop
    extends Warm built planner rounds where
  value : ∀ first ∈ rounds.head?, isValue (first.answer.of built.slot0) = true
  exact : ∀ slot ∈ plan.verify, planner.exactSurface ≠ .none → planner.isExactSlot slot = true
  phase : match planner.phase with
    | .slot0Liquidity => rounds = [] ∧ built.slot0 ∈ plan.verify
    | .bitmapWord => rounds.length = 1 ∧ planner.failedExactSlots = [] ∧ planner.windowKeys ⊆ plan.verify ∧
        (planner.exactSurface = .none → plan.verify = planner.windowKeys)
    | .tickInfo => 2 ≤ rounds.length

/-- How the planner ends: in the first round where `slot0` was no value, else with all slots that failed. -/
inductive Ends (built last : UniswapV3ColdStartPlanner) (rounds : List Asked) : Prop
  | cold (first : Asked) (rounds_eq : rounds = [first]) (unusable : isValue (first.answer.of built.slot0) = false)
      (cold : last.slot0Cold = true) (slot0 : last.slot0 = built.slot0)
  | warm (value : ∀ first ∈ rounds.head?, isValue (first.answer.of built.slot0) = true) (warm : Warm built last rounds)

/-- What one step of the planner leaves. -/
def StepEnds (built : UniswapV3ColdStartPlanner) (rounds : List Asked) :
    UniswapV3ColdStartPlanner × ColdStartStep → Prop
  | (last, .done) => Ends built last rounds
  | (planner, .continues plan) => Asks built planner rounds plan

theorem isExactSlot_of_address (haddress : slot.1 = planner.address) (hsurface : planner.exactSurface ≠ .none) :
    planner.isExactSlot slot = true := by
  simp [isExactSlot, haddress, hsurface]

theorem head_concat {asked : Asked} (hvalue : ∀ first ∈ rounds.head?, isValue (first.answer.of built.slot0) = true)
    (hasked : rounds = [] → isValue (asked.answer.of built.slot0) = true) :
    ∀ first ∈ (rounds ++ [asked]).head?, isValue (first.answer.of built.slot0) = true := by
  cases rounds with
  | nil => exact fun first hfirst => by cases hfirst; exact hasked rfl
  | cons head rest => exact hvalue

/-- A round is absorbed: what it could not fetch is kept as failed, where the round's other demands are met. -/
theorem Asks.absorb (h : Asks built planner rounds plan)
    (hmet : ∀ slot, built.FailedAt rounds.length ⟨plan, answer⟩ slot →
      built.exactSurface ≠ .none ∧ isUnfetched (answer.of slot) = true) :
    Warm built (planner.absorb (answer.results plan)) (rounds ++ [⟨plan, answer⟩]) where
  address := h.address
  layout := h.layout
  surface := h.surface
  external := h.external
  cold := h.cold
  failed slot := by
    rw [mem_absorb h.exact, failed_concat, h.failed slot, h.surface]
    refine or_congr_right ⟨fun ⟨hsurface, hslot, hunfetched⟩ => ⟨hslot,
      .inr (.inl ⟨hsurface, hunfetched⟩)⟩, fun hfailed => ?_⟩
    obtain ⟨hsurface, hunfetched⟩ := hmet slot hfailed
    exact ⟨hsurface, hfailed.1, hunfetched⟩

/-- Another phase, window or list of deferred work does not matter. -/
theorem Warm.congr {other : UniswapV3ColdStartPlanner} (h : Warm built planner rounds)
    (haddress : other.address = planner.address) (hlayout : other.layout = planner.layout)
    (hsurface : other.exactSurface = planner.exactSurface)
    (hexternal : other.externalExactSlots = planner.externalExactSlots) (hcold : other.slot0Cold = planner.slot0Cold)
    (hfailed : other.failedExactSlots = planner.failedExactSlots) : Warm built other rounds where
  address := haddress.trans h.address
  layout := hlayout.trans h.layout
  surface := hsurface.trans h.surface
  external := hexternal.trans h.external
  cold := hcold.trans h.cold
  failed slot := hfailed ▸ h.failed slot

theorem observationSlots_none (planner : UniswapV3ColdStartPlanner) (h : planner.exactSurface = .none) (word : U256) :
    planner.observationSlots word = [] := by
  rw [observationSlots, h]

/-- The round of the bitmaps, with the observations of an exact surface. -/
theorem Warm.asksBitmaps (planner : UniswapV3ColdStartPlanner) (h : Warm built planner rounds)
    (hvalue : ∀ first ∈ rounds.head?, isValue (first.answer.of built.slot0) = true) (hlength : rounds.length = 1)
    (hphase : planner.phase = .bitmapWord) (hnone : planner.failedExactSlots = []) {observations : List U256}
    (hobservations : planner.exactSurface = .none → observations = []) :
    Asks built planner rounds (verifyPlan (planner.windowKeys ++ observations.map (planner.address, ·))) where
  toWarm := h
  value := hvalue
  exact slot hslot := by
    refine isExactSlot_of_address ?_
    rcases List.mem_append.mp hslot with hslot | hslot
    · obtain ⟨entry, -, rfl⟩ := List.mem_map.mp hslot
      rfl
    · obtain ⟨observation, -, rfl⟩ := List.mem_map.mp hslot
      rfl
  phase := by
    rw [hphase]
    refine ⟨hlength, hnone, List.subset_append_left _ _, fun hsurface => ?_⟩
    rw [hobservations hsurface, List.map_nil, List.append_nil]
    rfl

/-- The round of the ticks. -/
theorem Warm.asksTicks (planner : UniswapV3ColdStartPlanner) (h : Warm built planner rounds)
    (hvalue : ∀ first ∈ rounds.head?, isValue (first.answer.of built.slot0) = true) (hlength : 2 ≤ rounds.length)
    (hphase : planner.phase = .tickInfo) (haddress : ∀ slot ∈ plan.verify, slot.1 = planner.address) :
    Asks built planner rounds plan where
  toWarm := h
  value := hvalue
  exact slot hslot := isExactSlot_of_address (haddress slot hslot)
  phase := by rwa [hphase]

/-- The first round. -/
theorem Asks.onSlot0 (h : Asks built planner rounds plan) (hphase : planner.phase = .slot0Liquidity) :
    StepEnds built (rounds ++ [⟨plan, answer⟩])
      ((planner.absorb (answer.results plan)).onSlot0 keccak (answer.results plan)) := by
  obtain ⟨rfl, hslot0⟩ : rounds = [] ∧ built.slot0 ∈ plan.verify := by simpa [hphase] using h.phase
  have hfetch : (answer.results plan).fetchOf (planner.absorb (answer.results plan)).address
      (planner.absorb (answer.results plan)).layout.slot0Slot = some (answer.of built.slot0) := by
    show (answer.results plan).fetchOf planner.address planner.layout.slot0Slot = _
    rw [h.address, h.layout]
    exact fetchOf_results hslot0
  have hcold : isValue (answer.of built.slot0) = false → Ends built
      { planner.absorb (answer.results plan) with slot0Cold := true } ([] ++ [⟨plan, answer⟩]) := fun hvalue =>
    .cold ⟨plan, answer⟩ rfl hvalue rfl (by rw [slot0, slot0, ← h.address, ← h.layout]; rfl)
  rw [UniswapV3ColdStartPlanner.onSlot0, hfetch]
  cases hof : answer.of built.slot0 with
  | zero | fetchFailed reason | notAttempted => exact hcold (by rw [hof]; rfl)
  | value word =>
    have hvalue : isValue (answer.of built.slot0) = true := by rw [hof]; rfl
    have hwarm : Warm built (planner.absorb (answer.results plan)) ([] ++ [⟨plan, answer⟩]) :=
      h.absorb fun slot hfailed => by
      rcases hfailed.2 with ⟨-, rfl, hunusable⟩ | hexact | ⟨-, hround, -⟩
      · exact absurd (hvalue.symm.trans hunusable) nofun
      · exact hexact
      · cases hround
    have hhead : ∀ first ∈ ([] ++ [(⟨plan, answer⟩ : Asked)]).head?, isValue (first.answer.of built.slot0) = true :=
      head_concat h.value fun _ => hvalue
    simp only
    split_ifs with hfailed
    · exact .warm hhead hwarm
    · have hnone : (planner.absorb (answer.results plan)).failedExactSlots = [] := by simpa using hfailed
      generalize planner.absorb (answer.results plan) = absorbed at hwarm hnone
      generalize absorbed.resolveWindow keccak _ = window
      have hasks : ∀ verified, Asks built { absorbed with window, phase := .bitmapWord, verifiedSlots := verified }
          ([] ++ [⟨plan, answer⟩]) (verifyPlan (windowKeys { absorbed with window } ++
            (observationSlots { absorbed with window } word).map (absorbed.address, ·))) := fun verified =>
        Warm.asksBitmaps { absorbed with window, phase := .bitmapWord, verifiedSlots := verified }
          (hwarm.congr rfl rfl rfl rfl rfl rfl) hhead rfl rfl hnone fun hsurface =>
            observationSlots_none { absorbed with window } hsurface word
      split
      · exact hasks _
      · exact hasks _
      · exact .warm hhead (hwarm.congr rfl rfl rfl rfl rfl rfl)
      · exact .warm hhead (hwarm.congr rfl rfl rfl rfl rfl rfl)

theorem bitmapOf_eq_none {state : StateView} {key : U256} (hslot : (planner.address, key) ∈ plan.verify) :
    planner.bitmapOf (answer.results plan) state key = none ↔
      isUnfetched (answer.of (planner.address, key)) = true ∧ held state (planner.address, key) = none := by
  have hfetch : (answer.results plan).fetchOf planner.address key = some (answer.of (planner.address, key)) :=
    fetchOf_results hslot
  rw [bitmapOf, hfetch]
  cases answer.of (planner.address, key) <;> simp [isUnfetched, held]

/-- The second round. -/
theorem Asks.onBitmaps (h : Asks built planner rounds plan) (hphase : planner.phase = .bitmapWord) :
    StepEnds built (rounds ++ [⟨plan, answer⟩])
      ((planner.absorb (answer.results plan)).onBitmaps keccak (answer.results plan) answer.view) := by
  obtain ⟨hlength, hnone, hsubset, hkeys⟩ : rounds.length = 1 ∧ planner.failedExactSlots = [] ∧
      planner.windowKeys ⊆ plan.verify ∧ (planner.exactSurface = .none → plan.verify = planner.windowKeys) := by
    simpa [hphase] using h.phase
  have hhead : ∀ first ∈ (rounds ++ [(⟨plan, answer⟩ : Asked)]).head?, isValue (first.answer.of built.slot0) = true :=
    head_concat h.value fun hnil => absurd hlength (by simp [hnil])
  have habsorbed : ∀ slot, slot ∈ (planner.absorb (answer.results plan)).failedExactSlots ↔
      built.exactSurface ≠ .none ∧ slot ∈ plan.verify ∧ isUnfetched (answer.of slot) = true := fun slot => by
    rw [mem_absorb h.exact, hnone, h.surface]
    simp
  have hfailedAt : ∀ slot, built.FailedAt rounds.length ⟨plan, answer⟩ slot ↔ slot ∈ plan.verify ∧
      (built.exactSurface ≠ .none ∧ isUnfetched (answer.of slot) = true ∨
        built.exactSurface = .none ∧ isUnfetched (answer.of slot) = true ∧ held answer.view slot = none) := fun slot => by
    simp [FailedAt, hlength]
  have hfailedRounds : ∀ slot, ¬ built.Failed rounds slot := fun slot => by
    rw [← h.failed slot, hnone]
    exact List.not_mem_nil
  rw [UniswapV3ColdStartPlanner.onBitmaps]
  split_ifs with hne
  · -- A failed slot shows that the surface is exact.
    obtain ⟨slot, hslot⟩ := List.exists_mem_of_ne_nil _ hne
    have hsurface := ((habsorbed slot).mp hslot).1
    refine .warm hhead (h.absorb fun slot hfailed => ?_)
    rcases ((hfailedAt slot).mp hfailed).2 with hexact | ⟨hnot, -⟩
    · exact hexact
    · exact absurd hnot hsurface
  · have hempty : (planner.absorb (answer.results plan)).failedExactSlots = [] := by simpa using hne
    have hunknown : ∀ slot, slot ∈ ((planner.absorb (answer.results plan)).window.filter fun entry =>
        ((planner.absorb (answer.results plan)).bitmapOf (answer.results plan) answer.view entry.2).isNone).map
          (fun entry => (planner.address, entry.2)) ↔
        slot ∈ planner.windowKeys ∧ isUnfetched (answer.of slot) = true ∧ held answer.view slot = none := fun slot => by
      simp only [windowKeys, List.mem_map, List.mem_filter, Option.isNone_iff_eq_none]
      constructor
      · rintro ⟨entry, ⟨hentry, hbitmap⟩, rfl⟩
        exact ⟨⟨entry, hentry, rfl⟩, (bitmapOf_eq_none (hsubset (List.mem_map_of_mem hentry))).mp hbitmap⟩
      · rintro ⟨⟨entry, hentry, rfl⟩, hbitmap⟩
        exact ⟨entry, ⟨hentry, (bitmapOf_eq_none (hsubset (List.mem_map_of_mem hentry))).mpr hbitmap⟩, rfl⟩
    have hfailed : ∀ slot, built.Failed (rounds ++ [⟨plan, answer⟩]) slot ↔
        slot ∈ planner.windowKeys ∧ isUnfetched (answer.of slot) = true ∧ held answer.view slot = none := fun slot => by
      rw [failed_concat, or_iff_right (hfailedRounds slot), hfailedAt slot]
      constructor
      · rintro ⟨hslot, ⟨hsurface, hunfetched⟩ | ⟨hsurface, hunknown⟩⟩
        · exact absurd ((habsorbed slot).mpr ⟨hsurface, hslot, hunfetched⟩) (by rw [hempty]; exact List.not_mem_nil)
        · rw [hkeys (h.surface.trans hsurface)] at hslot
          exact ⟨hslot, hunknown⟩
      · rintro ⟨hslot, hunknown⟩
        refine ⟨hsubset hslot, ?_⟩
        by_cases hsurface : built.exactSurface = .none
        · exact .inr ⟨hsurface, hunknown⟩
        · exact .inl ⟨hsurface, hunknown.1⟩
    have hwarm : ∀ {next : UniswapV3ColdStartPlanner}, next.address = planner.address → next.layout = planner.layout →
        next.exactSurface = planner.exactSurface → next.externalExactSlots = planner.externalExactSlots →
        next.slot0Cold = planner.slot0Cold → (∀ slot, slot ∈ next.failedExactSlots ↔ slot ∈ planner.windowKeys ∧
          isUnfetched (answer.of slot) = true ∧ held answer.view slot = none) →
        Warm built next (rounds ++ [⟨plan, answer⟩]) := fun haddress hlayout hsurface hexternal hcold hslots =>
      ⟨haddress.trans h.address, hlayout.trans h.layout, hsurface.trans h.surface, hexternal.trans h.external,
        hcold.trans h.cold, fun slot => (hslots slot).trans (hfailed slot).symm⟩
    simp only [hempty, List.nil_append]
    split_ifs with hticks
    · exact .warm hhead (hwarm rfl rfl rfl rfl rfl hunknown)
    · refine Warm.asksTicks _ (hwarm rfl rfl rfl rfl rfl hunknown) hhead (by simp [hlength]) rfl fun slot hslot => ?_
      obtain ⟨entry, -, hslot⟩ := List.mem_flatMap.mp hslot
      split at hslot
      · exact absurd hslot List.not_mem_nil
      · obtain ⟨tick, -, hslot⟩ := List.mem_flatMap.mp hslot
        obtain ⟨key, -, rfl⟩ := List.mem_map.mp hslot
        rfl

/-- The third round. -/
theorem Asks.onTicks (h : Asks built planner rounds plan) (hphase : planner.phase = .tickInfo) :
    Ends built (planner.absorb (answer.results plan)) (rounds ++ [⟨plan, answer⟩]) := by
  have hlength : 2 ≤ rounds.length := by simpa [hphase] using h.phase
  refine .warm (head_concat h.value fun hnil => absurd hlength (by simp [hnil])) (h.absorb fun slot hfailed => ?_)
  rcases hfailed.2 with ⟨hzero, -⟩ | hexact | ⟨-, hone, -⟩
  · omega
  · exact hexact
  · omega

theorem Asks.onResults (keccak : Keccak) (answer : Answer) (h : Asks built planner rounds plan) :
    StepEnds built (rounds ++ [⟨plan, answer⟩]) (planner.onResults keccak (answer.results plan) answer.view) := by
  rw [UniswapV3ColdStartPlanner.onResults]
  cases hphase : planner.phase with
  | slot0Liquidity =>
    simp only [show (planner.absorb (answer.results plan)).phase = .slot0Liquidity from hphase]
    exact h.onSlot0 hphase
  | bitmapWord =>
    simp only [show (planner.absorb (answer.results plan)).phase = .bitmapWord from hphase]
    exact h.onBitmaps hphase
  | tickInfo =>
    simp only [show (planner.absorb (answer.results plan)).phase = .tickInfo from hphase]
    exact h.onTicks hphase

/-- A run of the planner ends in one of the two ways. -/
theorem Asks.ends {answers : List Answer} {last : UniswapV3ColdStartPlanner} {more : List Asked}
    (h : Asks built planner rounds plan)
    (hrun : transcript (uniswapV3Planner keccak) planner plan answers = some (more, last)) :
    Ends built last (rounds ++ more) := by
  induction answers generalizing planner rounds plan more with
  | nil => cases hrun
  | cons answer rest ih =>
    have hstep := h.onResults keccak answer
    rcases transcript_cons hrun with ⟨hresult, rfl⟩ | ⟨next, nextPlan, more, hresult, hrest, rfl⟩
    · rw [show planner.onResults keccak (answer.results plan) answer.view = _ from hresult] at hstep
      exact hstep
    · rw [show planner.onResults keccak (answer.results plan) answer.view = _ from hresult] at hstep
      have hends := ih (show Asks built next _ nextPlan from hstep) hrest
      rwa [List.append_assoc] at hends

theorem build_eq_ok {pool : PoolRegistration} {policy : ColdStartPolicy} (h : build keccak pool policy = .ok built) :
    built.phase = .slot0Liquidity ∧ built.failedExactSlots = [] ∧ built.slot0Cold = false := by
  unfold build at h
  cases haddress : pool.key.address with
  | none => simp [haddress] at h
  | some address =>
    cases hlayout : layoutFor pool with
    | none => simp [haddress, hlayout] at h
    | some layout =>
      simp only [haddress, hlayout] at h
      obtain rfl := Except.ok.inj h
      exact ⟨rfl, rfl, rfl⟩

/-- A planner that was just built asks for `slot0`, the liquidity and the exact cells. -/
theorem asks_initialPlan (hphase : built.phase = .slot0Liquidity) (hnone : built.failedExactSlots = [])
    (hcold : built.slot0Cold = false) : Asks built built.initialPlan.1 [] built.initialPlan.2 where
  address := rfl
  layout := rfl
  surface := rfl
  external := rfl
  cold := hcold
  failed slot := by
    show slot ∈ built.failedExactSlots ↔ _
    simp [hnone, Failed]
  value := nofun
  exact slot hslot hsurface := by
    rcases List.mem_append.mp hslot with hslot | hslot
    · refine isExactSlot_of_address ?_ hsurface
      rcases List.mem_append.mp hslot with hslot | hslot
      · rcases List.mem_cons.mp hslot with rfl | hslot
        · rfl
        · rw [List.mem_singleton.mp hslot]
          rfl
      · obtain ⟨global, -, rfl⟩ := List.mem_map.mp hslot
        rfl
    · have hexternal : slot ∈ built.initialPlan.1.externalExactSlots := hslot
      simp [isExactSlot, hsurface, hexternal]
  phase := by
    show match built.phase with
      | .slot0Liquidity => _
      | .bitmapWord => _
      | .tickInfo => _
    rw [hphase]
    exact ⟨rfl, List.mem_append_left _ (List.mem_append_left _ List.mem_cons_self)⟩

theorem facts_recordV3WarmedSlots {pool : PoolRegistration} {address : Address} {verified : List StorageSlot} :
    facts (recordV3WarmedSlots pool address verified).metadata = facts pool.metadata := by
  unfold recordV3WarmedSlots
  cases hmetadata : pool.metadata <;> simp [facts, v3Facts, hmetadata]

/-- An end in the first round is coherent exactly where `slot0` failed alone; every other end is. -/
theorem Ends.coherent_iff {last : UniswapV3ColdStartPlanner} {first : Asked} {rest : List Asked} {pool : PoolRegistration}
    (h : Ends built last (first :: rest)) :
    Coherent (built.Failed (first :: rest)) (fun _ => False) pool (last.finish pool) ↔ built.Meets first := by
  cases h with
  | cold first' hrounds hvalue hcold hslot0 =>
    obtain ⟨rfl, rfl⟩ := List.cons.inj hrounds
    rw [finish, if_pos hcold]
    have hnamed : ∀ slot, Names (.verifySlots [(last.address, last.layout.slot0Slot)]) slot ↔ slot = built.slot0 :=
      fun slot => by rw [← hslot0]; exact List.mem_singleton
    constructor
    · intro h _ hsurface slot hslot hne
      refine Bool.eq_false_iff.mpr fun hunfetched => hne ((hnamed slot).mp ?_)
      exact h.repair _ _ rfl slot ⟨0, first, rfl, hslot, .inr (.inl ⟨hsurface, hunfetched⟩)⟩
    · refine fun h => ⟨fun report hreport => by cases hreport; rfl, nofun, fun fact hfact => .inl hfact, ?_⟩
      rintro report repair heq slot ⟨round, asked, hget, hslot, hfailed⟩
      cases heq
      obtain ⟨rfl, rfl⟩ : round = 0 ∧ first = asked := by
        cases round with
        | zero => exact ⟨rfl, Option.some.inj hget⟩
        | succ round => cases hget
      refine (hnamed slot).mpr ?_
      rcases hfailed with ⟨-, rfl, -⟩ | ⟨hsurface, hunfetched⟩ | ⟨-, hone, -⟩
      · rfl
      · by_contra hne
        exact absurd (hunfetched.symm.trans (h hvalue hsurface slot hslot hne)) nofun
      · cases hone
  | warm hvalue hwarm =>
    have hmeets : built.Meets first := fun hunusable => absurd ((hvalue first rfl).symm.trans hunusable) nofun
    refine iff_of_true ?_ hmeets
    rw [finish, if_neg (by rw [hwarm.cold]; nofun)]
    by_cases hnone : last.failedExactSlots = []
    · have hready : ∀ slot, ¬ built.Failed (first :: rest) slot := fun slot => by
        rw [← hwarm.failed slot, hnone]
        exact List.not_mem_nil
      have hidentity : ∀ fact ∈ facts pool.metadata,
          fact ∈ facts (recordV3WarmedSlots pool last.address last.verifiedSlots).metadata := fun fact hfact => by
        rw [facts_recordV3WarmedSlots]
        exact hfact
      rw [if_neg (not_not.mpr hnone)]
      simp only
      split_ifs
      · exact ⟨fun report hreport => by cases hreport; rfl, fun _ => hready, fun fact hfact => .inl (hidentity fact hfact),
          fun _ _ heq => nomatch heq⟩
      · exact ⟨fun report hreport => by cases hreport; rfl, fun _ => hready, fun fact hfact => .inl (hidentity fact hfact),
          fun _ _ heq => nomatch heq⟩
    · rw [if_pos hnone]
      refine ⟨fun report hreport => by cases hreport; rfl, nofun, fun fact hfact => .inl hfact, ?_⟩
      intro report repair heq slot hslot
      cases heq
      exact (hwarm.failed slot).mpr hslot

end UniswapV3ColdStartPlanner

/-! ### All three planners -/

/-- The end of a run is coherent exactly under the condition on its first round. -/
theorem finish_coherent_iff (keccak : Keccak) (venue : Venue) {pool : PoolRegistration} {policy : ColdStartPolicy}
    {built last : (venue.planner keccak).State} (start : StateView) (answers : List Answer) {rounds : List Asked}
    (report : ColdStartRunReport) (hbuilt : (venue.planner keccak).coldStartPlanner pool policy = .ok built)
    (hrun : runPlanner (venue.planner keccak) built start answers = some (rounds, last)) :
    ∃ first rest, rounds = first :: rest ∧
      (Coherent (venue.Failed keccak built rounds) (venue.Decoded keccak built rounds) pool
        ((venue.planner keccak).finish last pool report) ↔ venue.Meets keccak built pool first) := by
  cases venue with
  | uniswapV2 =>
    obtain ⟨asked, rfl, hends⟩ := uniswapV2_ends report hrun
    exact ⟨asked, [], rfl, hends.coherent_iff ⟨fun fact hown => by rw [show fact.field = _ from hown]; nofun,
      fun fact hown => by rw [show fact.field = _ from hown]; nofun⟩⟩
  | solidlyV2 =>
    obtain ⟨asked, rfl, hends⟩ := solidlyV2_ends report hbuilt hrun
    exact ⟨asked, [], rfl, hends.coherent_iff
      ⟨fun fact hown => by rcases hown with hown | hown <;> rw [hown] <;> nofun,
        fun fact hown => by rcases hown with hown | hown <;> rw [hown] <;> nofun⟩⟩
  | v3Family =>
    obtain ⟨hphase, hnone, hcold⟩ := UniswapV3ColdStartPlanner.build_eq_ok hbuilt
    have hends := (UniswapV3ColdStartPlanner.asks_initialPlan hphase hnone hcold).ends hrun
    cases answers with
    | nil => cases hrun
    | cons answer answers =>
      rcases transcript_cons hrun with ⟨-, rfl⟩ | ⟨next, nextPlan, more, -, -, rfl⟩
      · exact ⟨_, _, rfl, hends.coherent_iff⟩
      · exact ⟨_, _, rfl, hends.coherent_iff⟩

/-- A pair whose tokens and fee are known, not started yet. -/
def knownPair : PoolRegistration := ⟨.uniswapV2 17, [17], [], .uniswapV2 ⟨some 1, some 2, some 30⟩, .pending⟩

/-- A provider for which every slot is as given, and the view that holds none. -/
def uniformly (fetch : SlotFetch) : Answer := ⟨fun _ => fetch, [], fun _ _ => none⟩

/-- The planner of the pair, its first round answered alike for all slots. -/
def knownPairRound (policy : ColdStartPolicy) (fetch : SlotFetch) : Asked :=
  ⟨(UniswapV2ColdStartPlanner.new 17 policy).initialPlan.2, uniformly fetch⟩

def knownPairEnd (policy : ColdStartPolicy) (fetch : SlotFetch) : UniswapV2ColdStartPlanner :=
  ((UniswapV2ColdStartPlanner.new 17 policy).initialPlan.1.onResults
    ((uniformly fetch).results (knownPairRound policy fetch).plan) (uniformly fetch).view).1

theorem finish_coherent_iff_knownPair :
    ∃ first rest, [knownPairRound .strict (.value 5)] = first :: rest ∧
      (Coherent (Venue.Failed (fun _ _ => 0) .uniswapV2 (.new 17 .strict) [knownPairRound .strict (.value 5)])
        (Venue.Decoded (fun _ _ => 0) .uniswapV2 (.new 17 .strict) [knownPairRound .strict (.value 5)]) knownPair
        ((Venue.planner (fun _ _ => 0) .uniswapV2).finish (knownPairEnd .strict (.value 5)) knownPair .empty) ↔
        Venue.Meets (fun _ _ => 0) .uniswapV2 (.new 17 .strict) knownPair first) :=
  finish_coherent_iff (fun _ _ => 0) .uniswapV2 (fun _ _ => none) [uniformly (.value 5)] .empty rfl rfl

/-- Reserves of zero degrade the report of a pending pair but not its registration; a lazy start forgets both tokens. -/
theorem finish_incoherent :
    (runPlanner uniswapV2Planner (.new 17 .lazy) (fun _ _ => none) [uniformly .zero] =
        some ([knownPairRound .lazy .zero], knownPairEnd .lazy .zero) ∧
      ¬ Coherent ((UniswapV2ColdStartPlanner.new 17 .lazy).pair.Failed [knownPairRound .lazy .zero])
        ((UniswapV2ColdStartPlanner.new 17 .lazy).pair.Decoded [knownPairRound .lazy .zero]) knownPair
        ((knownPairEnd .lazy .zero).finish knownPair)) ∧
      runPlanner uniswapV2Planner (.new 17 .lazy) (fun _ _ => none) [uniformly (.value 5)] =
        some ([knownPairRound .lazy (.value 5)], knownPairEnd .lazy (.value 5)) ∧
      ¬ Coherent ((UniswapV2ColdStartPlanner.new 17 .lazy).pair.Failed [knownPairRound .lazy (.value 5)])
        ((UniswapV2ColdStartPlanner.new 17 .lazy).pair.Decoded [knownPairRound .lazy (.value 5)]) knownPair
        ((knownPairEnd .lazy (.value 5)).finish knownPair) := by
  refine ⟨⟨rfl, fun h => ?_⟩, rfl, fun h => ?_⟩
  · exact absurd (h.status _ rfl) nofun
  · have hfacts : facts ((knownPairEnd .lazy (.value 5)).finish knownPair).1.metadata = [.feeBps 30] := rfl
    have htoken := h.identity (.token0 1) List.mem_cons_self
    simp only [hfacts, List.mem_singleton, exists_eq_left] at htoken
    rcases htoken with heq | ⟨hfield, -⟩
    · cases heq
    · cases hfield

end AmmState.Planning
