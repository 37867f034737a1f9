import AmmState.Lib.Packed
import AmmState.Registration
import Mathlib.Logic.Function.Basic

/-! Where the Balancer vault keeps each token's cash (`balancer_v2.rs`): the search for it by value, and the swap that edits
    what the search found. A packed balance holds its cash in the low 112 bits; the next 112 bits are what is managed or, in
    the word that a two-token pool shares, the cash of the other token. -/

namespace AmmState.Balancer

/-- The cached words of an account's storage. -/
abbrev StateView := Address → U256 → Option U256

/-! ### Cash fields -/

def CASH_BITS : Nat := 112

def CASH_MASK : U256 := .ofNat 256 (2 ^ 112 - 1)

def TWO_TOKEN_SPECIALIZATION : BitVec 16 := 2

/-- The specialization stands after the 20 bytes of the pool's address. -/
def isTwoTokenPool (poolId : B256) : Bool := decide (poolId.extractLsb' 80 16 = TWO_TOKEN_SPECIALIZATION)

def cashShift (high : Bool) : Nat := if high then CASH_BITS else 0

def cashField (word : U256) (high : Bool) : U256 := (word >>> cashShift high) &&& CASH_MASK

def setCashField (word : U256) (high : Bool) (cash : U256) : U256 :=
  (word &&& (BitVec.allOnes 256 ^^^ (CASH_MASK <<< cashShift high))) ||| ((cash &&& CASH_MASK) <<< cashShift high)

/-- The word after a credit or a debit that its field can hold. -/
def applyCashDelta (word : U256) (high add : Bool) (amount : U256) : Option U256 :=
  let old := cashField word high
  let new? := if add then if old.toNat + amount.toNat < 2 ^ 256 then some (old + amount) else none
    else if amount.toNat ≤ old.toNat then some (old - amount) else none
  new?.bind fun new => if new.toNat > CASH_MASK.toNat then none else some (setCashField word high new)

/-! ### The search -/

/-- The fields of one word that hold a balance. -/
def fieldsHolding (balance : U256) (highFieldCanBeCash : Bool) (slot word : U256) : List (U256 × Bool) :=
  (if cashField word false = balance then [(slot, false)] else []) ++
    if highFieldCanBeCash ∧ cashField word true = balance then [(slot, true)] else []

/-- The fields of the warmed vault words that hold a balance. -/
def cashMatches (verifiedSlots : List (Address × U256)) (vault : Address) (state : StateView) (highFieldCanBeCash : Bool)
    (balance : U256) : List (U256 × Bool) :=
  ((verifiedSlots.filter (·.1 = vault)).filterMap fun entry => (state vault entry.2).map (entry.2, ·)).flatMap fun entry =>
    fieldsHolding balance highFieldCanBeCash entry.1 entry.2

/-- A token is located by the only field that holds its balance; a balance of zero locates nothing. -/
def probeTokenCash (tokens : List Address) (balances : List U256) (verifiedSlots : List (Address × U256)) (vault : Address)
    (state : StateView) (highFieldCanBeCash : Bool) : List BalancerTokenBalance :=
  (tokens.zip balances).filterMap fun (token, balance) =>
    if balance = 0 then none
    else match cashMatches verifiedSlots vault state highFieldCanBeCash balance with
      | [(slot, high)] => some ⟨token, slot, high⟩
      | _ => none

/-! ### Swaps -/

def tokenCashLocation (metadata : BalancerV2Metadata) (token : Address) : Option BalancerTokenBalance :=
  metadata.tokenCash.find? (·.token = token)

structure SwapCashDelta where
  tokenIn : Address
  amountIn : U256
  tokenOut : Address
  amountOut : U256
  deriving DecidableEq

structure SlotUpdate where
  address : Address
  slot : U256
  value : U256
  deriving DecidableEq

def StateView.write (view : StateView) (update : SlotUpdate) : StateView :=
  Function.update view update.address (Function.update (view update.address) update.slot (some update.value))

/-- The writes of a swap whose two cash fields are known and warm. The fields of one word are edited in one write. -/
def eventSourceSwap (view : StateView) (vault : Address) (poolId : B256) (metadata : BalancerV2Metadata)
    (swap : SwapCashDelta) : Option (List SlotUpdate) := do
  let inLoc ← tokenCashLocation metadata swap.tokenIn
  let outLoc ← tokenCashLocation metadata swap.tokenOut
  if !isTwoTokenPool poolId && (inLoc.highField || outLoc.highField) then none
  else if inLoc.slot = outLoc.slot then
    if inLoc.highField = outLoc.highField then none
    else
      let word ← view vault inLoc.slot
      let word ← applyCashDelta word inLoc.highField true swap.amountIn
      let word ← applyCashDelta word outLoc.highField false swap.amountOut
      return [⟨vault, inLoc.slot, word⟩]
  else
    let wordIn ← view vault inLoc.slot
    let wordIn ← applyCashDelta wordIn inLoc.highField true swap.amountIn
    let wordOut ← view vault outLoc.slot
    let wordOut ← applyCashDelta wordOut outLoc.highField false swap.amountOut
    return [⟨vault, inLoc.slot, wordIn⟩, ⟨vault, outLoc.slot, wordOut⟩]

end AmmState.Balancer
