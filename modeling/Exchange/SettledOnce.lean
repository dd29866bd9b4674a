import Exchange.Journal

/-!
# A trade is settled and announced once

The outbox is a function of two lists: the fills that were settled, in order, and the ids that were
marked as dispatched (`announcement`). The ids of the fills are distinct because settling checks the
settled ids; that is also why marking the first message with an id marks the message of that trade.
-/

namespace Exchange

namespace OutboxStore

theorem mem_pendingLoop {maxItems : ℕ} {message : OutboxMessage} (messages : List OutboxMessage) :
    ∀ {batch : List OutboxMessage}, message ∈ pendingLoop maxItems messages batch →
      message ∈ batch ∨ message ∈ messages ∧ message.state = .pending := by
  induction messages with
  | nil => intro batch h; exact .inl h
  | cons m rest ih =>
    intro batch h
    rw [pendingLoop] at h
    have hbatch : ∀ {x}, x ∈ (if m.state = .pending then batch ++ [m] else batch) →
        x ∈ batch ∨ x ∈ m :: rest ∧ x.state = .pending := by
      intro x hx
      split_ifs at hx with hm
      · rcases List.mem_append.1 hx with hx | hx
        · exact .inl hx
        · rw [List.mem_singleton.1 hx]
          exact .inr ⟨List.mem_cons_self, hm⟩
      · exact .inl hx
    split_ifs at h with hm hfull hfull
    · exact hbatch (by rwa [if_pos hm])
    · rcases ih h with hx | ⟨hx, hp⟩
      · exact hbatch (by rwa [if_pos hm])
      · exact .inr ⟨List.mem_cons_of_mem m hx, hp⟩
    · exact .inl h
    · rcases ih h with hx | ⟨hx, hp⟩
      · exact .inl hx
      · exact .inr ⟨List.mem_cons_of_mem m hx, hp⟩

theorem markLoop_eq (messageId : String) (messages : List OutboxMessage) (hnd : (messages.map (·.id)).Nodup) :
    markLoop messageId messages = if messageId ∈ messages.map (·.id) then
      some (messages.map fun m => if m.id = messageId then { m with state := .dispatched } else m) else none := by
  induction messages with
  | nil => rfl
  | cons m rest ih =>
    rw [List.map_cons, List.nodup_cons] at hnd
    rw [markLoop, ih hnd.2]
    by_cases hm : m.id = messageId
    · -- no later message has the id
      have hrest : rest.map (fun m => if m.id = messageId then { m with state := .dispatched } else m) = rest := by
        refine (List.map_congr_left fun x hx => ?_).trans (List.map_id rest)
        exact if_neg fun hxid => hnd.1 (List.mem_map.2 ⟨x, hx, hxid.trans hm.symm⟩)
      simp [hm, hrest]
    · have hm' : messageId ≠ m.id := Ne.symm hm
      by_cases hid : messageId ∈ rest.map (·.id)
      · simp [hm, hm', hid]
      · simp [hm, hm', hid]

end OutboxStore

namespace Clearing.AccountClearingSystem

variable {c c' : AccountClearingSystem}

/-- The message of a settled fill, given the ids that were marked as dispatched. -/
def announcement (dispatched : List String) (fill : TradeFill) : OutboxMessage :=
  ⟨fill.tradeId, "clearing.settlement", fill.symbol ++ ":" ++ fill.buyerAccountId ++ ":" ++ fill.sellerAccountId,
    if fill.tradeId ∈ dispatched then .dispatched else .pending⟩

/-- What was settled, in order, and what was marked as dispatched. -/
structure Announced where
  fills : List TradeFill
  dispatched : List String

def Announced.ids (log : Announced) : List String := log.fills.map (·.tradeId)

def Announced.after (log : Announced) (_ : AccountClearingSystem) (op : ClearingOp) (reply : ClearingReply)
    (_ : AccountClearingSystem) : Announced :=
  match op, reply with
  | .settleSpotTrade fill _, .settlement result =>
    if result.status = .applied then { log with fills := log.fills ++ [fill] } else log
  | .markOutboxDispatched id, .operation result =>
    if result.ok then { log with dispatched := log.dispatched ++ [id] } else log
  | _, _ => log

/-- The settled ids and the outbox are those of the log. -/
structure Announces (c : AccountClearingSystem) (log : Announced) : Prop where
  messages : c.outbox.messages = log.fills.map (announcement log.dispatched)
  distinct : log.ids.Nodup
  settled : ∀ id, id ∈ c.settledTradeIds ↔ id ∈ log.ids
  dispatched : ∀ id ∈ log.dispatched, id ∈ log.ids

theorem Announces.of_eq {log : Announced} (h : Announces c log) (houtbox : c'.outbox = c.outbox)
    (hsettled : c'.settledTradeIds = c.settledTradeIds) : Announces c' log :=
  ⟨houtbox ▸ h.messages, h.distinct, hsettled ▸ h.settled, h.dispatched⟩

theorem Announces.messageIds {log : Announced} (h : Announces c log) : c.outbox.messages.map (·.id) = log.ids := by
  rw [h.messages, List.map_map]
  rfl

theorem Announces.not_pending {log : Announced} (h : Announces c log) (maxItems : ℕ) :
    ∀ message ∈ c.pendingOutbox maxItems, message.id ∉ log.dispatched := by
  intro message hmessage hdispatched
  rcases OutboxStore.mem_pendingLoop _ hmessage with hm | ⟨hm, hpending⟩
  · cases hm
  · rw [h.messages] at hm
    obtain ⟨fill, -, rfl⟩ := List.mem_map.1 hm
    have hstate : (announcement log.dispatched fill).state = .dispatched := if_pos hdispatched
    rw [hstate] at hpending
    cases hpending

theorem Announces.settle {log : Announced} {fill : TradeFill} {fees : FeeSchedule} {result : SettlementResult}
    (h : Announces c log) (he : c.settleSpotTrade fill fees = some (c', result)) (hst : result.status = .applied) :
    Announces c' { log with fills := log.fills ++ [fill] } := by
  obtain ⟨buyer, seller, hcov, happly, -⟩ := settleSpotTrade_applied he hst
  obtain ⟨holds, rfl⟩ := applySettlement_frame happly
  have hfresh : fill.tradeId ∉ log.ids := fun hid => hcov.fresh ((h.settled _).2 hid)
  have hids : Announced.ids { log with fills := log.fills ++ [fill] } = log.ids ++ [fill.tradeId] := by
    simp [Announced.ids]
  refine ⟨?_, ?_, fun id => ?_, fun id hid => ?_⟩
  · have hpending : announcement log.dispatched fill = ⟨fill.tradeId, "clearing.settlement",
        fill.symbol ++ ":" ++ fill.buyerAccountId ++ ":" ++ fill.sellerAccountId, .pending⟩ := by
      rw [announcement, if_neg fun hd => hfresh (h.dispatched _ hd)]
    rw [List.map_append, ← h.messages, List.map_singleton, hpending]
    rfl
  · rw [hids]
    exact List.nodup_append.2 ⟨h.distinct, List.nodup_singleton _, fun a ha b hb heq =>
      hfresh (List.mem_singleton.1 hb ▸ heq ▸ ha)⟩
  · rw [hids, List.mem_append, List.mem_singleton, ← h.settled, or_comm]
    exact List.mem_insert_iff
  · rw [hids]
    exact List.mem_append_left _ (h.dispatched id hid)

theorem markOutboxDispatched_spec {log : Announced} (h : Announces c log) (id : String) :
    ∃ outbox result, c.markOutboxDispatched id = ({ c with outbox := outbox }, result) ∧
      (result.ok = true ↔ id ∈ log.ids) ∧ outbox.messages =
        c.outbox.messages.map fun m => if m.id = id then { m with state := .dispatched } else m := by
  have hmark := OutboxStore.markLoop_eq id c.outbox.messages (h.messageIds ▸ h.distinct)
  rw [h.messageIds] at hmark
  unfold markOutboxDispatched OutboxStore.markDispatched
  by_cases hid : id ∈ log.ids
  · rw [hmark, if_pos hid]
    exact ⟨_, _, rfl, iff_of_true rfl hid, rfl⟩
  · rw [hmark, if_neg hid]
    refine ⟨_, _, rfl, iff_of_false (by decide) hid, ?_⟩
    refine ((List.map_congr_left fun m hm => ?_).trans (List.map_id _)).symm
    exact if_neg fun hmid => hid (by rw [← h.messageIds]; exact List.mem_map.2 ⟨m, hm, hmid⟩)

theorem Announces.mark {log : Announced} {id : String} {result : ClearingOperationResult} (h : Announces c log)
    (he : c.markOutboxDispatched id = (c', result)) :
    Announces c' (log.after c (.markOutboxDispatched id) (.operation result) c') := by
  obtain ⟨outbox, result', he', hok, hmessages⟩ := markOutboxDispatched_spec h id
  obtain ⟨rfl, rfl⟩ := Prod.mk.inj (he'.symm.trans he)
  rw [Announced.after]
  have hmap : outbox.messages = log.fills.map (announcement (log.dispatched ++ [id])) := by
    rw [hmessages, h.messages, List.map_map]
    refine List.map_congr_left fun fill _ => ?_
    by_cases hfill : fill.tradeId = id
    · simp [announcement, hfill]
    · simp [announcement, hfill]
  split_ifs with hr
  · refine ⟨hmap, h.distinct, h.settled, fun id' hid' => ?_⟩
    rcases List.mem_append.1 hid' with hid' | hid'
    · exact h.dispatched id' hid'
    · rw [List.mem_singleton.1 hid']
      exact hok.1 hr
  · refine ⟨?_, h.distinct, h.settled, h.dispatched⟩
    rw [hmap]
    refine List.map_congr_left fun fill hfill => ?_
    have hne : fill.tradeId ≠ id := fun heq => hr (hok.2 (heq ▸ List.mem_map.2 ⟨fill, hfill, rfl⟩))
    simp [announcement, hne]

/-! ### Runs -/

/-- What a step does to the settled trades and to the outbox. -/
def Once (s : AccountClearingSystem × Announced) (op : ClearingOp) (reply : ClearingReply)
    (s' : AccountClearingSystem × Announced) : Prop :=
  match op, reply with
  | .settleSpotTrade fill fees, .settlement result =>
    (result.status = .duplicate ↔ fill.tradeId ∈ s.2.ids) ∧
      (result.status = .applied ↔ ∃ buyer seller, Covered s.1 fill fees buyer seller) ∧
      (result.status ≠ .applied → s'.1 = s.1)
  | .markOutboxDispatched id, .operation result =>
    (result.ok = true ↔ id ∈ s.2.ids) ∧ s'.1 = { s.1 with outbox := s'.1.outbox } ∧
      s'.1.outbox.messages = s.1.outbox.messages.map fun m => if m.id = id then { m with state := .dispatched } else m
  | _, _ => s'.1.outbox = s.1.outbox

/-- The outbox after a step: one message for every settled trade, in the order of settlement; what was
marked as dispatched is not among the pending messages. -/
def AnnouncedOnce (s : AccountClearingSystem × Announced) : Prop :=
  s.1.outbox.messages = s.2.fills.map (announcement s.2.dispatched) ∧ s.2.ids.Nodup ∧
    ∀ maxItems, ∀ message ∈ s.1.pendingOutbox maxItems, message.id ∉ s.2.dispatched

theorem settleSpotTrade_once {log : Announced} {fill : TradeFill} {fees : FeeSchedule} {result : SettlementResult}
    (h : Announces c log) (he : c.settleSpotTrade fill fees = some (c', result)) :
    (result.status = .duplicate ↔ fill.tradeId ∈ log.ids) ∧
      (result.status = .applied ↔ ∃ buyer seller, Covered c fill fees buyer seller) ∧
      (result.status ≠ .applied → c' = c) := by
  refine ⟨⟨fun hst => ?_, fun hid => ?_⟩, ⟨fun hst => ?_, fun hcov => ?_⟩, settleSpotTrade_not_applied he⟩
  · by_contra hid
    exact settleSpotTrade_ne_duplicate (fun hs => hid ((h.settled _).1 hs)) he hst
  · rw [settleSpotTrade_duplicate ((h.settled _).2 hid)] at he
    obtain ⟨-, rfl⟩ := Prod.mk.inj (Option.some.inj he)
    rfl
  · obtain ⟨buyer, seller, hcov, -⟩ := settleSpotTrade_applied he hst
    exact ⟨buyer, seller, hcov⟩
  · obtain ⟨buyer, seller, hcov⟩ := hcov
    obtain ⟨c₁, result₁, he₁, hst, -⟩ := hcov.settleSpotTrade
    obtain ⟨-, rfl⟩ := Prod.mk.inj (Option.some.inj (he₁.symm.trans he))
    exact hst

theorem freeze_announces {asset : HoldAsset} {operation accountId holdId : String} {insufficient : ClearingStatus}
    {amount : ℚ} {t : ℤ} :
    (freeze asset operation insufficient c accountId holdId amount t).1.outbox = c.outbox ∧
      (freeze asset operation insufficient c accountId holdId amount t).1.settledTradeIds = c.settledTradeIds := by
  unfold freeze
  split
  · exact ⟨rfl, rfl⟩
  · split_ifs
    all_goals exact ⟨rfl, rfl⟩

theorem releaseHold_announces {holdId : String} {t : ℤ} : (c.releaseHold holdId t).1.outbox = c.outbox ∧
    (c.releaseHold holdId t).1.settledTradeIds = c.settledTradeIds := by
  unfold releaseHold
  split
  · exact ⟨rfl, rfl⟩
  · dsimp only
    split
    · exact ⟨rfl, rfl⟩
    · exact ⟨rfl, rfl⟩

theorem Announces.step {log : Announced} {op : ClearingOp} {reply : ClearingReply} (h : Announces c log)
    (hstep : clearing.step c op = some (c', reply)) :
    Announces c' (log.after c op reply c') ∧ Once (c, log) op reply (c', log.after c op reply c') := by
  cases op with
  | upsertAccount id snapshot =>
    obtain ⟨rfl, rfl⟩ := Prod.mk.inj (Option.some.inj hstep)
    exact ⟨h.of_eq rfl rfl, rfl⟩
  | freezeQuote id holdId amount t =>
    obtain ⟨rfl, rfl⟩ := Prod.mk.inj (Option.some.inj hstep)
    exact ⟨h.of_eq freeze_announces.1 freeze_announces.2, freeze_announces.1⟩
  | freezeBase id holdId amount t =>
    obtain ⟨rfl, rfl⟩ := Prod.mk.inj (Option.some.inj hstep)
    exact ⟨h.of_eq freeze_announces.1 freeze_announces.2, freeze_announces.1⟩
  | releaseHold holdId t =>
    obtain ⟨rfl, rfl⟩ := Prod.mk.inj (Option.some.inj hstep)
    exact ⟨h.of_eq releaseHold_announces.1 releaseHold_announces.2, releaseHold_announces.1⟩
  | settleSpotTrade fill fees =>
    obtain ⟨⟨c₁, result⟩, he, heq⟩ := Option.map_eq_some_iff.1 hstep
    obtain ⟨rfl, rfl⟩ := Prod.mk.inj heq
    have honce := settleSpotTrade_once h he
    refine ⟨?_, honce⟩
    rw [Announced.after]
    split_ifs with hst
    · exact h.settle he hst
    · rw [honce.2.2 hst]
      exact h
  | markOutboxDispatched id =>
    obtain ⟨outbox, result, he, hok, hmessages⟩ := markOutboxDispatched_spec h id
    have hpair : ({ c with outbox := outbox }, ClearingReply.operation result) = (c', reply) := by
      simpa only [clearing, he, Option.some.injEq] using hstep
    obtain ⟨rfl, rfl⟩ := Prod.mk.inj hpair
    exact ⟨h.mark he, hok, rfl, hmessages⟩

/-- In every run a trade is settled at most once and then announced once; a fill that was refused changes
nothing and is judged afresh when it is sent again; and marking a message changes that message only, for good. -/
theorem run_settled_once (ops : List ClearingOp) : (clearing.recording Announced.after).Steps
    (fun s op reply s' => Once s op reply s' ∧ AnnouncedOnce s') (new, ⟨[], []⟩) ops := by
  have hinit : Announces new ⟨[], []⟩ := ⟨rfl, List.nodup_nil, fun id => by simp [new, Announced.ids], by simp⟩
  refine Machine.steps_of_guarded (I := fun s => Announces s.1 s.2) (P := fun _ _ => True) ?_ hinit
    (Machine.Guarded.of_forall fun _ _ => trivial)
  rintro ⟨c, log⟩ op h -
  obtain ⟨c', reply, he⟩ := step_defined c op
  obtain ⟨h', honce⟩ := h.step he
  exact ⟨(c', log.after c op reply c'), reply, Machine.recording_step he _, h', honce,
    h'.messages, h'.distinct, h'.not_pending⟩

end Clearing.AccountClearingSystem

end Exchange
