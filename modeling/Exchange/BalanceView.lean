import Exchange.PipelineRun

/-!
# Risk sees the spendable balances

Every stage that moves money passes the accounts it touched on to risk. `SeenBut users` says that the
balances of all other accounts are what risk has of them: a movement makes it hold for the accounts
it touched, and passing an account on takes it off the list.
-/

namespace Exchange.Pipeline

open Clearing (AccountClearingSystem AccountSnapshot SettlementResult TradeFill)
open Risk (PreTradeRiskEngine AccountRiskState)
open Gateway (GatewayRequest)

namespace ExchangePipeline

variable {p p' p₁ : ExchangePipeline} {request : GatewayRequest} {order : ParsedOrder} {users : List String}
  {symbol : String} {c c' : AccountClearingSystem} {accounts : AList fun _ : String => AccountRiskState}

theorem accountKey_inj {a b symbol : String} :
    PreTradeRiskEngine.accountKey a symbol = PreTradeRiskEngine.accountKey b symbol ↔ a = b := by
  unfold PreTradeRiskEngine.accountKey
  rw [String.append_left_inj, String.append_left_inj]

/-- Risk has the spendable balances of all accounts but `users`, and balances of accounts only. -/
structure SeenBut (users : List String) (symbol : String) (c : AccountClearingSystem)
    (accounts : AList fun _ : String => AccountRiskState) : Prop where
  balance : ∀ id snapshot, id ∉ users → c.accounts.lookup id = some snapshot →
    accounts.lookup (PreTradeRiskEngine.accountKey id symbol) =
      some ⟨snapshot.availableQuote, snapshot.availableBase⟩
  keys : ∀ key ∈ accounts, ∃ id ∈ c.accounts, key = PreTradeRiskEngine.accountKey id symbol

theorem SeenBut.sync {user : String} (h : SeenBut (user :: users) symbol c accounts) :
    SeenBut users symbol c (syncedAccounts symbol c user accounts) := by
  unfold syncedAccounts AccountClearingSystem.account
  cases hu : c.accounts.lookup user with
  | none =>
    refine ⟨fun id snapshot hid hl => h.balance id snapshot ?_ hl, h.keys⟩
    rw [List.mem_cons, not_or]
    refine ⟨fun heq => ?_, hid⟩
    rw [heq, hu] at hl
    cases hl
  | some s =>
    refine ⟨fun id snapshot hid hl => ?_, fun key hkey => ?_⟩
    · dsimp only
      rw [Assoc.lookup_insert]
      split_ifs with hkey
      · rw [accountKey_inj] at hkey
        rw [hkey, hu] at hl
        rw [Option.some.inj hl]
      · exact h.balance id snapshot (by simp [mt accountKey_inj.2 hkey, hid]) hl
    · rcases (AList.mem_insert _).1 hkey with rfl | hkey
      · exact ⟨user, Assoc.mem_of_lookup hu, rfl⟩
      · exact h.keys key hkey

theorem SeenBut.move (h : SeenBut [] symbol c accounts)
    (hc : ∀ id, id ∉ users → c'.accounts.lookup id = c.accounts.lookup id)
    (hmem : ∀ id, id ∈ c.accounts → id ∈ c'.accounts) : SeenBut users symbol c' accounts := by
  refine ⟨fun id snapshot hid hl => h.balance id snapshot (by simp) (by rwa [hc id hid] at hl), fun key hkey => ?_⟩
  obtain ⟨id, hid, rfl⟩ := h.keys key hkey
  exact ⟨id, hmem id hid, rfl⟩

def Seen (p : ExchangePipeline) : Prop := SeenBut [] p.symbol p.clearing p.risk.accounts

theorem Seen.of_eq (h : p.Seen) (hsymbol : p'.symbol = p.symbol) (hclearing : p'.clearing = p.clearing)
    (haccounts : p'.risk.accounts = p.risk.accounts) : p'.Seen := by
  unfold Seen
  rw [hsymbol, hclearing, haccounts]
  exact h

theorem seen_sync {user : String} (h : SeenBut [user] p.symbol p.clearing p.risk.accounts) :
    (p.syncAccountState user).Seen := by
  rw [syncAccountState_eq]
  exact h.sync

theorem seen_syncParties {fill : TradeFill}
    (h : SeenBut [fill.buyerAccountId, fill.sellerAccountId] p.symbol p.clearing p.risk.accounts) :
    (p.syncParties fill).Seen := by
  unfold syncParties
  rw [syncAccountState_eq, syncAccountState_eq]
  exact h.sync.sync

theorem Entered.seen (hin : Entered p request order p₁) (h : p.Seen) : p₁.Seen := by
  obtain ⟨snapshot, hf⟩ := hin.frozen
  unfold Seen
  rw [hin.accounts, hin.symbol]
  refine SeenBut.sync (SeenBut.move h (fun id hid => ?_) fun id => hin.mem_accounts.2)
  rw [hf.accounts, Assoc.lookup_insert, if_neg (by simpa using hid)]

theorem Settling.seen {trades : List Matching.Trade} {results : List SettlementResult}
    {stop : Option WorkflowStatus} (hs : Settling order trades p results p' stop) (h : p.Seen) : p'.Seen := by
  induction hs with
  | done p => exact h
  | orphan _ => exact h
  | refused _ _ _ _ => exact h
  | duplicate _ _ _ _ ih => exact ih (seen_syncParties (SeenBut.move h (fun _ _ => rfl) fun _ hid => hid))
  | settled _ _ _ hset _ _ ih =>
    exact ih (seen_syncParties (SeenBut.move h hset.lookup_accounts fun _ => hset.mem_accounts.2))

theorem Residual.seen {id user : String} (hr : Residual p.clearing (holdIdFor id) c') (h : p.Seen)
    (howner : ∀ hold, p.clearing.holds.lookup (holdIdFor id) = some hold → hold.accountId = user) :
    (p.closeOrder id user c').Seen := by
  refine seen_sync (SeenBut.move h (fun account haccount => ?_) fun _ => hr.mem_accounts.2)
  cases hr with
  | kept _ => rfl
  | released _ hrel =>
    have hne : account ≠ user := by simpa using haccount
    rw [hrel.accounts, Assoc.lookup_insert, howner _ hrel.lookup, if_neg hne]

theorem Closing.seen {live ids : List String} (hc : Closing live ids p p') (hp : p.Ready) (h : p.Seen) : p'.Seen := by
  induction hc with
  | done p => exact h
  | kept _ _ ih => exact ih hp h
  | @closed id rest p p' managed c' _ hmanaged hr _ ih =>
    rw [hp.holdIds id managed hmanaged] at hr
    exact ih (hr.ready hp) (hr.seen h fun hold hl => (hp.owned id managed hold hmanaged hl).1)

theorem Resynced.seen {views : List Matching.RestingOrderView} (hs : Resynced p p' views) (h : p.Seen) : p'.Seen := by
  obtain ⟨restingOrders, restingUsers, rfl⟩ := hs.frame
  exact h

theorem Outcome.seen {reply : Except String WorkflowResult} (ho : Outcome p request p' reply) (hp : p.Ready)
    (h : p.Seen) : p'.Seen := by
  cases ho with
  | refused _ hquiet _ _ _ => exact h.of_eq hquiet.symbol hquiet.clearing hquiet.accounts
  | @rejected order p₁ p' e' c' views w hin hsubmit haccepted _ hr hsync _ _ =>
    refine hsync.seen (Residual.seen (p := { p₁ with matching := e' }) hr (hin.seen h) fun hold hl => ?_)
    have hmanaged : p₁.orderRegistry.lookup order.orderId = some (managedOf order) := by
      rw [hin.orderRegistry, AList.lookup_insert]
    exact ((hin.ready hp).owned _ _ hold hmanaged hl).1
  | broken hin htaken hset => exact hset.seen (hin.seen h)
  | finished hin htaken hset _ hclose hsync _ _ hrefresh _ =>
    have hp₂ := hset.ready ((hin.ready hp).withMatching htaken.submitted.rep)
    rw [hrefresh]
    exact hsync.seen (hclose.seen hp₂ (hset.seen (hin.seen h)))
  | thrown hin htaken hset _ hclose hsync _ hprices =>
    have hp₂ := hset.ready ((hin.ready hp).withMatching htaken.submitted.rep)
    rw [hprices]
    exact hsync.seen (hclose.seen hp₂ (hset.seen (hin.seen h)))

/-! ### Runs -/

theorem Called.seen {op : PipelineOp} {reply : PipelineReply} (hc : Called p op reply p') (hp : p.Ready) (h : p.Seen) :
    p'.Seen := by
  cases hc with
  | configured _ _ => exact h
  | registered apiKey secret userId snapshot maxRequests windowMs =>
    refine seen_sync (SeenBut.move h (fun id hid => ?_) fun id hid => (AList.mem_insert _).2 (.inr hid))
    exact (Assoc.lookup_insert _ _ _ _).trans (if_neg (by simpa using hid))
  | submitted ho => exact ho.seen hp h

theorem start_seen (symbol : String) : (start symbol).Seen :=
  ⟨fun id snapshot _ hl => (by cases hl), fun key hkey => absurd hkey (AList.notMem_empty key)⟩

def registers : PipelineOp → Option String
  | .registerUser _ _ userId _ _ _ => some userId
  | _ => none

theorem Called.mem_accounts {op : PipelineOp} {reply : PipelineReply} (hc : Called p op reply p') {user : String}
    (h : user ∈ p.clearing.accounts ∨ registers op = some user) : user ∈ p'.clearing.accounts := by
  cases hc with
  | configured _ _ => exact h.resolve_right (by simp [registers])
  | registered apiKey secret userId snapshot maxRequests windowMs =>
    unfold registerUser
    rw [clearing_sync]
    refine (AList.mem_insert _).2 (h.symm.imp_left fun hu => ?_)
    exact (Option.some.inj hu).symm
  | submitted ho => exact ho.mem_accounts.2 (h.resolve_right (by simp [registers]))

theorem registered_open {ops : List PipelineOp} : ∀ {p p' : ExchangePipeline} {replies : List PipelineReply}, p.Ready →
    pipeline.run p ops = some (p', replies) → ∀ user, user ∈ p.clearing.accounts ∨ user ∈ ops.filterMap registers →
      user ∈ p'.clearing.accounts := by
  induction ops with
  | nil =>
    intro p p' replies _ hrun user hu
    obtain ⟨rfl, -⟩ := Machine.run_nil hrun
    exact hu.resolve_right List.not_mem_nil
  | cons op ops ih =>
    intro p p' replies hp hrun user hu
    obtain ⟨p₁, reply, replies, hstep, hrest, -⟩ := Machine.run_cons_eq_some.1 hrun
    obtain ⟨p₂, reply₂, he, hc⟩ := step_called hp op
    obtain ⟨rfl, rfl⟩ := Prod.mk.inj (Option.some.inj (hstep.symm.trans he))
    refine ih (hc.ready hp) hrest user ?_
    rcases hu with hu | hu
    · exact .inl (hc.mem_accounts (.inl hu))
    · rw [← List.singleton_append, List.filterMap_append, List.mem_append] at hu
      refine hu.imp_left fun hu => hc.mem_accounts (.inr ?_)
      obtain ⟨op', hop', hu⟩ := List.mem_filterMap.1 hu
      rwa [List.mem_singleton.1 hop'] at hu

/-- After every call of a run, whatever it was answered, risk has the spendable balances of every user
that was registered. -/
theorem run_balances_seen {symbol : String} {p₀ : ExchangePipeline} (hnew : new symbol = .ok p₀)
    (ops : List PipelineOp) : ∃ p replies, pipeline.run p₀ ops = some (p, replies) ∧
      ∀ userId ∈ ops.filterMap registers, ∃ snapshot, p.clearing.account userId = some snapshot ∧
        p.risk.accounts.lookup (PreTradeRiskEngine.accountKey userId p.symbol) =
          some ⟨snapshot.availableQuote, snapshot.availableBase⟩ := by
  have hstep : ∀ (p : ExchangePipeline) (op : PipelineOp), p.Ready ∧ p.Seen →
      ∃ p' reply, pipeline.step p op = some (p', reply) ∧ p'.Ready ∧ p'.Seen := by
    rintro p op ⟨hp, hseen⟩
    obtain ⟨p', reply, he, hc⟩ := step_called hp op
    exact ⟨p', reply, he, hc.ready hp, hc.seen hp hseen⟩
  obtain rfl := eq_start hnew
  obtain ⟨p, replies, hrun, -, hseen⟩ := Machine.run_invariant_total hstep ⟨start_ready symbol, start_seen symbol⟩ ops
  refine ⟨p, replies, hrun, fun userId huser => ?_⟩
  obtain ⟨snapshot, hl⟩ := Assoc.exists_lookup (registered_open (start_ready symbol) hrun userId (.inr huser))
  exact ⟨snapshot, hl, hseen.balance userId snapshot (by simp) hl⟩

/-- alice registers and bids 2 at 10 with her 100: 80 are left to spend. -/
def registeredBid : List PipelineOp :=
  [.configureMarket 10 10 ⟨0, 0⟩ ⟨"BTC-USD", 100, 10000, 1, 10, 1000, true⟩,
   .registerUser "alice" "sa" "alice" { availableQuote := 100 } 10 1000,
   .submit (clientRequest "alice" "sa"
    "order_id=b;symbol=BTC-USD;side=buy;type=limit;tif=gtc;price=10;quantity=2;source_ip=ip" 1)]

theorem run_balances_seen_registered : ∃ p₀, new "BTC-USD" = .ok p₀ ∧ ∃ p replies,
    pipeline.run p₀ registeredBid = some (p, replies) ∧ registeredBid.filterMap registers = ["alice"] ∧
      ∃ snapshot, p.clearing.account "alice" = some snapshot ∧ snapshot.availableQuote = 80 ∧
        p.risk.accounts.lookup (PreTradeRiskEngine.accountKey "alice" p.symbol) =
          some ⟨snapshot.availableQuote, snapshot.availableBase⟩ := by
  have hnew : new "BTC-USD" = .ok (start "BTC-USD") := rfl
  obtain ⟨p, replies, hrun, hseen⟩ := run_balances_seen hnew registeredBid
  obtain ⟨snapshot, hl, hrisk⟩ := hseen "alice" (by decide)
  have hleft : (pipeline.run (start "BTC-USD") registeredBid).bind
      (fun r => (r.1.clearing.account "alice").map AccountSnapshot.availableQuote) = some 80 := by decide +kernel
  rw [hrun, Option.bind_some, hl, Option.map_some] at hleft
  exact ⟨_, hnew, p, replies, hrun, rfl, snapshot, hl, Option.some.inj hleft, hrisk⟩

end ExchangePipeline
end Exchange.Pipeline
