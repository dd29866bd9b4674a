import Mathlib.Tactic.Ring
import Exchange.BalanceView
import Exchange.PipelineCalls
import Exchange.RestingView

/-!
# The order of releases

`release_closed_orders` goes through a hash map. What it reads and writes is seen here as functions (`Books`): a closed
order gives its hold back to its own account, passes that account on to risk and leaves the registry (`forget`). Two
such steps can be exchanged (`forget_comm`), so every order of the ids ends with the same books; the loop of the
pipeline takes these steps (`Closing.books`).
-/

namespace Exchange.Pipeline

open Clearing (AccountClearingSystem AccountSnapshot HoldRecord ClearingStatus)
open Clearing.AccountClearingSystem (Released)
open Risk (PreTradeRiskEngine AccountRiskState)
open Gateway (GatewayRequest)

def riskStateOf (snapshot : AccountSnapshot) : AccountRiskState := ⟨snapshot.availableQuote, snapshot.availableBase⟩

/-- The accounts, holds and tracked orders, and the balances risk has, as what is found under each key. A tracked
order names its own hold, which is on the account of its user. -/
@[ext]
structure Books where
  accounts : String → Option AccountSnapshot
  holds : String → Option HoldRecord
  registry : String → Option ManagedOrder
  balances : String → Option AccountRiskState
  holdIds : ∀ id managed, registry id = some managed → managed.holdId = holdIdFor id
  owned : ∀ id managed hold, registry id = some managed → holds (holdIdFor id) = some hold →
    hold.accountId = managed.userId

namespace Books

def residue (b : Books) (id : String) : Option HoldRecord :=
  (b.holds (holdIdFor id)).filter fun hold => kEpsilon < hold.amount

def givenBack (residue : Option HoldRecord) (account : String) (snapshot : AccountSnapshot) : AccountSnapshot :=
  match residue with
  | none => snapshot
  | some hold => if hold.accountId = account then snapshot.freeze hold.asset (-hold.amount) else snapshot

def accountsAfter (b : Books) (id account : String) : Option AccountSnapshot :=
  (b.accounts account).map (givenBack (b.residue id) account)

/-- The hold of an order is given back, its user's account passed on to risk and the order forgotten. -/
def close (symbol : String) (b : Books) (id userId : String) : Books where
  accounts := b.accountsAfter id
  holds key := if key = holdIdFor id ∧ (b.residue id).isSome then none else b.holds key
  registry key := if key = id then none else b.registry key
  balances key :=
    if key = PreTradeRiskEngine.accountKey userId symbol then
      ((b.accountsAfter id userId).map riskStateOf).or (b.balances key)
    else b.balances key
  holdIds key managed h := by
    split_ifs at h
    exact b.holdIds key managed h
  owned key managed hold h hhold := by
    split_ifs at h hhold
    exact b.owned key managed hold h hhold

/-- A step of the loop: orders that are live or not tracked are passed over. -/
def forget (symbol : String) (live : List String) (b : Books) (id : String) : Books :=
  if id ∈ live then b
  else
    match b.registry id with
    | none => b
    | some managed => b.close symbol id managed.userId

variable {b : Books} {symbol : String} {live : List String} {id id' userId userId' account : String}

theorem holds_close (key : String) : (b.close symbol id userId).holds key =
    if key = holdIdFor id ∧ (b.residue id).isSome then none else b.holds key := rfl

theorem registry_close (key : String) : (b.close symbol id userId).registry key =
    if key = id then none else b.registry key := rfl

theorem balances_close (key : String) : (b.close symbol id userId).balances key =
    if key = PreTradeRiskEngine.accountKey userId symbol then
      ((b.accountsAfter id userId).map riskStateOf).or (b.balances key)
    else b.balances key := rfl

theorem freeze_comm (a : AccountSnapshot) (asset asset' : Clearing.HoldAsset) (x y : ℚ) :
    (a.freeze asset x).freeze asset' y = (a.freeze asset' y).freeze asset x := by
  cases asset <;> cases asset' <;> simp [AccountSnapshot.freeze] <;> constructor <;> ring

theorem givenBack_comm (r r' : Option HoldRecord) (account : String) (a : AccountSnapshot) :
    givenBack r account (givenBack r' account a) = givenBack r' account (givenBack r account a) := by
  cases r with
  | none => rfl
  | some hold =>
    cases r' with
    | none => rfl
    | some hold' =>
      unfold givenBack
      dsimp only
      split_ifs
      · exact freeze_comm _ _ _ _ _
      · rfl
      · rfl
      · rfl

theorem givenBack_of_ne {r : Option HoldRecord} (h : ∀ hold ∈ r, hold.accountId ≠ account) (a : AccountSnapshot) :
    givenBack r account a = a := by
  cases r with
  | none => rfl
  | some hold => exact if_neg (h hold rfl)

theorem map_givenBack_of_ne {r : Option HoldRecord} (h : ∀ hold ∈ r, hold.accountId ≠ account)
    (a : Option AccountSnapshot) : a.map (givenBack r account) = a := by
  cases a with
  | none => rfl
  | some snapshot => rw [Option.map_some, givenBack_of_ne h]

theorem residue_close (hne : id' ≠ id) : (b.close symbol id userId).residue id' = b.residue id' := by
  have hkey : ¬ holdIdFor id' = holdIdFor id := mt holdIdFor_inj.1 hne
  simp [residue, close, hkey]

theorem accountsAfter_close (hne : id' ≠ id) : (b.close symbol id userId).accountsAfter id' account =
    (b.accounts account).map fun a => givenBack (b.residue id') account (givenBack (b.residue id) account a) := by
  rw [accountsAfter, residue_close hne]
  simp [close, accountsAfter, Function.comp_def]

theorem accountsAfter_close_comm (hne : id' ≠ id) (userId' : String) : (b.close symbol id userId).accountsAfter id' account =
    (b.close symbol id' userId').accountsAfter id account := by
  rw [accountsAfter_close hne, accountsAfter_close hne.symm]
  simp only [givenBack_comm (b.residue id')]

theorem accountsAfter_close_of_ne (hne : id' ≠ id) {managed : ManagedOrder} (hmanaged : b.registry id = some managed)
    (huser : managed.userId ≠ account) :
    (b.close symbol id userId).accountsAfter id' account = b.accountsAfter id' account := by
  have hnone : ∀ hold ∈ b.residue id, hold.accountId ≠ account := by
    intro hold hhold heq
    have hl := (Option.filter_eq_some_iff.1 hhold).1
    exact huser ((b.owned id managed hold hmanaged hl).symm.trans heq)
  rw [accountsAfter_close hne, accountsAfter]
  simp only [givenBack_of_ne hnone]

theorem close_comm (hne : id' ≠ id) {managed managed' : ManagedOrder} (hmanaged : b.registry id = some managed)
    (hmanaged' : b.registry id' = some managed') :
    (b.close symbol id managed.userId).close symbol id' managed'.userId =
      (b.close symbol id' managed'.userId).close symbol id managed.userId := by
  refine Books.ext ?_ ?_ ?_ ?_
  · exact funext fun account => accountsAfter_close_comm hne _
  · funext key
    rw [holds_close, holds_close, holds_close, holds_close, residue_close hne, residue_close hne.symm]
    split_ifs <;> rfl
  · funext key
    rw [registry_close, registry_close, registry_close, registry_close]
    split_ifs <;> rfl
  · funext key
    rw [balances_close, balances_close, balances_close, balances_close]
    by_cases huser : managed.userId = managed'.userId
    · -- one account: the later of the two syncs sees both releases
      rw [huser, accountsAfter_close_comm hne managed.userId]
      split_ifs with hkey
      · rw [accountsAfter_close (Ne.symm hne), accountsAfter_close (Ne.symm hne), accountsAfter, accountsAfter]
        cases b.accounts managed'.userId <;> rfl
      · rfl
    · -- two accounts: each sync sees the release on its own account only
      rw [accountsAfter_close_of_ne hne hmanaged huser, accountsAfter_close_of_ne hne.symm hmanaged' (Ne.symm huser)]
      have hkeys : PreTradeRiskEngine.accountKey managed.userId symbol ≠
          PreTradeRiskEngine.accountKey managed'.userId symbol := mt ExchangePipeline.accountKey_inj.1 huser
      split_ifs with h h'
      · exact absurd (h'.symm.trans h) hkeys
      · rfl
      · rfl
      · rfl

theorem forget_of_mem (h : id ∈ live) : forget symbol live b id = b := if_pos h

theorem forget_of_none (h : b.registry id = none) : forget symbol live b id = b := by
  unfold forget
  rw [h]
  split_ifs <;> rfl

theorem forget_of_some (hlive : id ∉ live) {managed : ManagedOrder} (h : b.registry id = some managed) :
    forget symbol live b id = b.close symbol id managed.userId := by
  unfold forget
  rw [if_neg hlive, h]

theorem registry_forget (hne : id' ≠ id) : (forget symbol live b id).registry id' = b.registry id' := by
  by_cases hlive : id ∈ live
  · rw [forget_of_mem hlive]
  cases hid : b.registry id with
  | none => rw [forget_of_none hid]
  | some managed => rw [forget_of_some hlive hid, registry_close, if_neg hne]

theorem forget_comm (symbol : String) (live : List String) (b : Books) (id id' : String) :
    forget symbol live (forget symbol live b id) id' = forget symbol live (forget symbol live b id') id := by
  by_cases hne : id' = id
  · rw [hne]
  by_cases hlive : id ∈ live
  · rw [forget_of_mem hlive, forget_of_mem hlive]
  by_cases hlive' : id' ∈ live
  · rw [forget_of_mem hlive', forget_of_mem hlive']
  cases hid : b.registry id with
  | none => rw [forget_of_none hid, forget_of_none ((registry_forget (Ne.symm hne)).trans hid)]
  | some managed =>
    cases hid' : b.registry id' with
    | none => rw [forget_of_none hid', forget_of_none ((registry_forget hne).trans hid')]
    | some managed' =>
      rw [forget_of_some hlive' ((registry_forget hne).trans hid'), forget_of_some hlive hid,
        forget_of_some hlive ((registry_forget (Ne.symm hne)).trans hid), forget_of_some hlive' hid']
      exact close_comm hne hid hid'

instance (symbol : String) (live : List String) : RightCommutative (forget symbol live) := ⟨forget_comm symbol live⟩

end Books

namespace ExchangePipeline

variable {p p' q : ExchangePipeline} {request : GatewayRequest} {order : ParsedOrder} {w : WorkflowResult}

/-! ### The loop takes these steps -/

/-- The books of the pipeline, between two calls. -/
def books (p : ExchangePipeline) (h : p.Ready) : Books where
  accounts id := p.clearing.accounts.lookup id
  holds id := p.clearing.holds.lookup id
  registry id := p.orderRegistry.lookup id
  balances key := p.risk.accounts.lookup key
  holdIds := h.holdIds
  owned id managed hold hmanaged hhold := (h.owned id managed hold hmanaged hhold).1

theorem lookup_syncedAccounts (symbol : String) (c : AccountClearingSystem) (userId : String)
    (accounts : AList fun _ : String => AccountRiskState) (key : String) :
    (syncedAccounts symbol c userId accounts).lookup key =
      if key = PreTradeRiskEngine.accountKey userId symbol then
        ((c.accounts.lookup userId).map riskStateOf).or (accounts.lookup key)
      else accounts.lookup key := by
  unfold syncedAccounts AccountClearingSystem.account
  cases c.accounts.lookup userId with
  | none => simp
  | some snapshot =>
    dsimp only
    rw [Assoc.lookup_insert]
    rfl

theorem Residual.books {c' : AccountClearingSystem} {id : String} (h : p.Ready)
    (hr : Residual p.clearing (holdIdFor id) c') (key : String) :
    c'.accounts.lookup key = (p.books h).accountsAfter id key ∧
      c'.holds.lookup key =
        if key = holdIdFor id ∧ ((p.books h).residue id).isSome then none else (p.books h).holds key := by
  cases hr with
  | kept hdust =>
    have hres : (p.books h).residue id = none := by
      refine Option.filter_eq_none_iff.2 fun hold hl => ?_
      simpa using hdust hold hl
    rw [Books.accountsAfter, hres, Books.map_givenBack_of_ne (by simp)]
    exact ⟨rfl, by simp [ExchangePipeline.books]⟩
  | @released _ hold snapshot hlt hrel =>
    have hres : (p.books h).residue id = some hold :=
      Option.filter_eq_some_iff.2 ⟨hrel.lookup, by simpa using hlt⟩
    rw [Books.accountsAfter, hres, hrel.accounts, hrel.holds, Assoc.lookup_insert, Assoc.lookup_erase]
    refine ⟨?_, by simp [ExchangePipeline.books]⟩
    by_cases hkey : key = hold.accountId
    · subst hkey
      have hl : (p.books h).accounts hold.accountId = some snapshot := hrel.account
      rw [if_pos rfl, hl]
      simp [Books.givenBack]
    · rw [if_neg hkey, Books.map_givenBack_of_ne (by simpa using Ne.symm hkey)]
      rfl

theorem books_closeOrder {c' : AccountClearingSystem} {id userId : String} (h : p.Ready)
    (hr : Residual p.clearing (holdIdFor id) c') (h' : (p.closeOrder id userId c').Ready) :
    (p.closeOrder id userId c').books h' = (p.books h).close p.symbol id userId := by
  have hrisk : (p.closeOrder id userId c').risk.accounts = syncedAccounts p.symbol c' userId p.risk.accounts := by
    rw [closeOrder, syncAccountState_eq]
  refine Books.ext ?_ ?_ ?_ ?_
  · funext key
    exact (congrArg (fun c => AList.lookup key c.accounts) (clearing_closeOrder p id userId c')).trans
      (hr.books h key).1
  · funext key
    exact (congrArg (fun c => AList.lookup key c.holds) (clearing_closeOrder p id userId c')).trans (hr.books h key).2
  · funext key
    exact (congrArg (AList.lookup key) (orderRegistry_closeOrder p id userId c')).trans (Assoc.lookup_erase _ _ _)
  · funext key
    rw [Books.balances_close, ← (hr.books h userId).1]
    exact (congrArg (AList.lookup key) hrisk).trans (lookup_syncedAccounts _ _ _ _ _)

/-- The loop of `release_closed_orders` takes the steps of the books. -/
theorem Closing.books {live ids : List String} (hc : Closing live ids p p') (h : p.Ready) :
    ∃ h' : p'.Ready, p'.books h' = ids.foldl (Books.forget p.symbol live) (p.books h) := by
  induction hc with
  | done p => exact ⟨h, rfl⟩
  | @kept id rest p p' hkeep _ ih =>
    obtain ⟨h', he⟩ := ih h
    refine ⟨h', ?_⟩
    rw [he, List.foldl_cons]
    congr 1
    rcases hkeep with hlive | hnone
    · exact (Books.forget_of_mem hlive).symm
    · exact (Books.forget_of_none hnone).symm
  | @closed id rest p p' managed c' hlive hmanaged hr _ ih =>
    rw [h.holdIds id managed hmanaged] at hr
    have hclosed : (p.closeOrder id managed.userId c').Ready := hr.ready h
    obtain ⟨h', he⟩ := ih hclosed
    refine ⟨h', ?_⟩
    rw [he, List.foldl_cons, books_closeOrder h hr hclosed, (SameVenue.closeOrder p id managed.userId c').symbol]
    congr 1
    exact (Books.forget_of_some hlive hmanaged).symm

/-! ### Every order of the registry -/

/-- `release_closed_orders` when it goes through the registry in the order of `entries`. -/
def releaseClosedOrdersVia (entries : List (Σ _ : String, ManagedOrder)) (p : ExchangePipeline) (order : ParsedOrder)
    (workflow : WorkflowResult) : Option (ExchangePipeline × WorkflowResult × Bool) := do
  let resting ← p.matching.restingOrders
  let tracked := (entries.filter fun entry => entry.2.symbol = p.symbol).map (·.1)
  match releaseClosed (resting.map (·.orderId)) (order.timestampMs + 2) tracked p with
  | (p, none) => some (p, workflow, true)
  | (p, some status) =>
    some (p, { workflow with status := .invariantViolation, errorDetail := Clearing.statusMessage status
                             accepted := false }, false)

theorem releaseClosedOrders_eq (p : ExchangePipeline) (order : ParsedOrder) (w : WorkflowResult) :
    p.releaseClosedOrders order w = p.releaseClosedOrdersVia p.orderRegistry.entries order w := rfl

/-- The same account snapshots, holds, tracked orders and account states of risk. -/
structure SameBooks (p p' : ExchangePipeline) : Prop where
  account : ∀ userId, p'.clearing.account userId = p.clearing.account userId
  holds : ∀ holdId, p'.clearing.holds.lookup holdId = p.clearing.holds.lookup holdId
  registry : ∀ orderId, p'.orderRegistry.lookup orderId = p.orderRegistry.lookup orderId
  riskStates : ∀ key, p'.risk.accounts.lookup key = p.risk.accounts.lookup key

theorem sameBooks_of_eq (h : p.Ready) (h' : p'.Ready) (heq : p'.books h' = p.books h) : SameBooks p p' where
  account userId := congrFun (congrArg Books.accounts heq) userId
  holds holdId := congrFun (congrArg Books.holds heq) holdId
  registry orderId := congrFun (congrArg Books.registry heq) orderId
  riskStates key := congrFun (congrArg Books.balances heq) key

/-- In whatever order the registry is gone through, `release_closed_orders` answers the same and ends with the same
books. -/
def OrderFree (p : ExchangePipeline) : Prop :=
  ∀ entries, entries.Perm p.orderRegistry.entries → ∀ order workflow, ∃ p₁ p₂ answer,
    p.releaseClosedOrders order workflow = some (p₁, answer) ∧
      p.releaseClosedOrdersVia entries order workflow = some (p₂, answer) ∧ SameBooks p₁ p₂

theorem Ready.orderFree (h : p.Ready) : p.OrderFree := by
  intro entries hperm order workflow
  obtain ⟨resting, hresting, -⟩ := Matching.OrderbookMatchingEngine.restingOrders_spec h.rep.toRepCore
  obtain ⟨live, hlive⟩ : ∃ live, resting.map (·.orderId) = live := ⟨_, rfl⟩
  -- any order of the entries ends the loop with the books of all steps
  have hloop : ∀ entries : List (Σ _ : String, ManagedOrder), ∃ p' h',
      p.releaseClosedOrdersVia entries order workflow = some (p', workflow, true) ∧
        p'.books h' = ((entries.filter fun entry => entry.2.symbol = p.symbol).map (·.1)).foldl
          (Books.forget p.symbol live) (p.books h) := by
    intro entries
    obtain ⟨p', he, hc⟩ := releaseClosed_spec live (order.timestampMs + 2)
      ((entries.filter fun entry => entry.2.symbol = p.symbol).map (·.1)) p h.holds
    obtain ⟨h', hbooks⟩ := hc.books h
    refine ⟨p', h', ?_, hbooks⟩
    rw [releaseClosedOrdersVia, hresting]
    simp only [Option.bind_eq_bind, Option.bind_some, hlive, he]
  obtain ⟨p₁, h₁, he₁, hbooks₁⟩ := hloop p.orderRegistry.entries
  obtain ⟨p₂, h₂, he₂, hbooks₂⟩ := hloop entries
  refine ⟨p₁, p₂, (workflow, true), he₁, he₂, sameBooks_of_eq h₁ h₂ ?_⟩
  rw [hbooks₁, hbooks₂]
  exact ((hperm.filter _).map _).foldl_eq _

/-- After every run the order of the registry does not matter to `release_closed_orders`, and neither does it in the
state in which the next submit calls it. -/
theorem run_release_order_free {symbol : String} {p₀ : ExchangePipeline} (hnew : new symbol = .ok p₀)
    {ops : List PipelineOp} {replies : List PipelineReply} (hrun : pipeline.run p₀ ops = some (p, replies)) :
    p.OrderFree ∧ ∀ request q order w, p.releaseCall request = some (q, order, w) →
      p.submit request = ((q.releaseClosedOrders order w).bind fun r => r.1.finish r.2.1 r.2.2) ∧ q.OrderFree := by
  obtain rfl := eq_start hnew
  have h := ready_of_run hrun
  exact ⟨h.orderFree, fun request q order w hr => ⟨submit_of_releaseCall hr, (releaseCall_ready h hr).orderFree⟩⟩

def askPair : List PipelineOp := openMarket 1 {} ++
  [orderOf "alice" "order_id=s;side=sell;type=limit;tif=gtc;price=1;quantity=1" 1,
   orderOf "alice" "order_id=t;side=sell;type=limit;tif=gtc;price=1;quantity=1" 2]

/-- The order that takes them, for less than it froze. -/
def sweep : GatewayRequest := clientRequest "bob" "secret"
  "symbol=BTC-USD;source_ip=ip;order_id=b;side=buy;type=limit;tif=gtc;price=2;quantity=2" 3

theorem run_release_order_free_sweep : ∃ p replies q order w,
    pipeline.run (start "BTC-USD") askPair = some (p, replies) ∧ p.releaseCall sweep = some (q, order, w) ∧
      q.trackedIds.length = 3 ∧ q.OrderFree := by
  have hcall : ((pipeline.run (start "BTC-USD") askPair).bind fun r =>
      (r.1.releaseCall sweep).map fun call => call.1.trackedIds.length) = some 3 := by decide +kernel
  obtain ⟨⟨p, replies⟩, hrun, hcall⟩ := Option.bind_eq_some_iff.1 hcall
  obtain ⟨⟨q, order, w⟩, hr, hlength⟩ := Option.map_eq_some_iff.1 hcall
  exact ⟨p, replies, q, order, w, hrun, hr, hlength,
    ((@run_release_order_free p "BTC-USD" _ rfl _ _ hrun).2 sweep q order w hr).2⟩

end ExchangePipeline
end Exchange.Pipeline
