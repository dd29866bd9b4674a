import Exchange.GatewayForward
import Exchange.Lib.Lease

/-!
# The sessions of the gateway

A session is opened with a timeout, kept alive by heartbeats and closed by the first `close_stale_sessions` that comes
too long after the last of them; a closed session ignores its heartbeats until it is opened again. The stamps are
the callers' and need not grow, and the difference of two is that of 64-bit integers. What the gateway knows of a session
is a lease over the calls so far (`Tracks.run`), so the calls alone say which sessions are live and what is answered
(`run_sessions`).
-/

namespace Exchange.Gateway

def GatewayOp.leaseEvent (sessionId : String) : GatewayOp → Option (Lease.Event ℤ ℤ)
  | .openSession id _ heartbeatTimeoutMs timestampMs =>
    if id = sessionId then some (.grant heartbeatTimeoutMs timestampMs) else none
  | .recordHeartbeat id timestampMs => if id = sessionId then some (.renew timestampMs) else none
  | .closeStaleSessions nowMs => some (.sweep nowMs)
  | _ => none

/-- How long `nowMs` is after `lastHeartbeatMs`, as the gateway computes it. -/
def elapsed (nowMs lastHeartbeatMs : ℤ) : ℤ := Counter.signed64 (nowMs - lastHeartbeatMs)

/-- The calls leave the session live: it was opened, and since then no `close_stale_sessions` came later than its
timeout after the last heartbeat before it. -/
def Live (ops : List GatewayOp) (sessionId : String) : Prop :=
  ∃ timeout renewed, Lease.Held elapsed timeout renewed (ops.filterMap (GatewayOp.leaseEvent sessionId))

/-- What is answered about sessions after the calls `ops`. -/
def Answers (ops : List GatewayOp) : GatewayOp → GatewayReply → Prop
  | .recordHeartbeat sessionId _, .recorded live => live = true ↔ Live ops sessionId
  | .recordHeartbeat _ _, _ => False
  | .closeStaleSessions nowMs, .closed count => ∃ lost : Finset String, count = lost.card ∧
      ∀ id, id ∈ lost ↔ Live ops id ∧ ¬ Live (ops ++ [.closeStaleSessions nowMs]) id
  | .closeStaleSessions _, _ => False
  | _, _ => True

def SessionState.lease (session : SessionState) : Lease ℤ ℤ where
  timeout := session.heartbeatTimeoutMs
  renewed := session.lastHeartbeatMs
  live := session.live

namespace UnifiedAccessGateway

def leaseOf (g : UnifiedAccessGateway) (sessionId : String) : Option (Lease ℤ ℤ) :=
  (g.sessions.lookup sessionId).map SessionState.lease

variable {g g' : UnifiedAccessGateway} {ops : List GatewayOp} {op : GatewayOp} {reply : GatewayReply}
  {replies : List GatewayReply} {sessionId : String} {nowMs : ℤ}

theorem lookup_closeStaleSessions (g : UnifiedAccessGateway) (nowMs : ℤ) (sessionId : String) :
    (g.closeStaleSessions nowMs).1.sessions.lookup sessionId = (g.sessions.lookup sessionId).map fun session =>
      if isStale nowMs session then { session with live := false } else session := by
  have hkeys : (g.sessions.entries.filter fun entry => isStale nowMs entry.2).NodupKeys :=
    g.sessions.nodupKeys.sublist List.filter_sublist
  have hlookup := Assoc.lookup_foldl_insert (fun session : SessionState => { session with live := false }) hkeys
    sessionId g.sessions
  rw [Assoc.dlookup_filter _ g.sessions.nodupKeys] at hlookup
  refine hlookup.trans ?_
  show (((g.sessions.lookup sessionId).filter fun session => isStale nowMs session).map _).or _ = _
  cases g.sessions.lookup sessionId with
  | none => rfl
  | some session => cases hstale : isStale nowMs session <;> simp [Option.filter, hstale]

theorem leaseOf_openSession (g : UnifiedAccessGateway) (id : String) (protocol : Protocol) (timeout t : ℤ) :
    (g.openSession id protocol timeout t).leaseOf sessionId =
      if sessionId = id then some ⟨timeout, t, true⟩ else g.leaseOf sessionId := by
  rw [leaseOf, openSession, Assoc.lookup_insert]
  split_ifs <;> rfl

theorem leaseOf_recordHeartbeat (g : UnifiedAccessGateway) (id : String) (t : ℤ) :
    (g.recordHeartbeat id t).1.leaseOf sessionId =
      if sessionId = id then Lease.after elapsed (g.leaseOf id) (.renew t) else g.leaseOf sessionId := by
  unfold recordHeartbeat
  cases hsession : g.sessions.lookup id with
  | none =>
    split_ifs with hid
    · subst hid
      rw [leaseOf, hsession]
      rfl
    · rfl
  | some session =>
    dsimp only
    have hlease : Lease.after elapsed (g.leaseOf id) (.renew t) =
        some (if session.live then { session.lease with renewed := t } else session.lease) := by
      rw [leaseOf, hsession]
      rfl
    rw [hlease]
    by_cases hlive : session.live = true
    · rw [if_pos hlive, if_pos hlive, leaseOf, Assoc.lookup_insert]
      split_ifs <;> rfl
    · rw [if_neg hlive, if_neg hlive]
      split_ifs with hid
      · subst hid
        rw [leaseOf, hsession]
        rfl
      · rfl

theorem leaseOf_closeStaleSessions (g : UnifiedAccessGateway) (nowMs : ℤ) :
    (g.closeStaleSessions nowMs).1.leaseOf sessionId = Lease.after elapsed (g.leaseOf sessionId) (.sweep nowMs) := by
  rw [leaseOf, leaseOf, lookup_closeStaleSessions]
  cases g.sessions.lookup sessionId with
  | none => rfl
  | some session =>
    by_cases hstale : session.live = true ∧ elapsed nowMs session.lastHeartbeatMs > session.heartbeatTimeoutMs
    · have hyes : isStale nowMs session = true := by simpa [isStale, elapsed] using hstale
      simp [Lease.after, SessionState.lease, hyes, hstale]
    · have hno : isStale nowMs session = false := by simpa [isStale, elapsed] using hstale
      simp only [Option.map_some, hno, Lease.after, SessionState.lease, if_neg hstale]
      rfl

theorem sessions_route (request : GatewayRequest) : (g.route request).1.sessions = g.sessions := by
  obtain ⟨windows, hlimit⟩ := g.consumeRateLimit_frame request.userId request.timestampMs
  unfold route
  split_ifs
  · rfl
  · rfl
  cases g.matchRoute request.path with
  | none => rfl
  | some route =>
    dsimp only
    rw [hlimit]
    split_ifs <;> rfl

theorem leaseOf_step (h : gateway.step g op = some (g', reply)) :
    g'.leaseOf sessionId =
      (op.leaseEvent sessionId).elim (g.leaseOf sessionId) (Lease.after elapsed (g.leaseOf sessionId)) := by
  cases op with
  | route request =>
    obtain ⟨rfl, -⟩ := Prod.mk.inj (Option.some.inj h)
    rw [leaseOf, sessions_route]
    rfl
  | openSession id protocol timeout t =>
    obtain ⟨rfl, -⟩ := Prod.mk.inj (Option.some.inj h)
    rw [leaseOf_openSession, GatewayOp.leaseEvent]
    by_cases hid : sessionId = id
    · rw [if_pos hid, if_pos hid.symm]
      rfl
    · rw [if_neg hid, if_neg (Ne.symm hid)]
      rfl
  | recordHeartbeat id t =>
    obtain ⟨rfl, -⟩ := Prod.mk.inj (Option.some.inj h)
    rw [leaseOf_recordHeartbeat, GatewayOp.leaseEvent]
    by_cases hid : sessionId = id
    · rw [if_pos hid, if_pos hid.symm, hid]
      rfl
    · rw [if_neg hid, if_neg (Ne.symm hid)]
      rfl
  | closeStaleSessions nowMs =>
    obtain ⟨rfl, -⟩ := Prod.mk.inj (Option.some.inj h)
    exact leaseOf_closeStaleSessions g nowMs
  | pollForwardedRequest =>
    obtain ⟨rfl, -⟩ := Prod.mk.inj (Option.some.inj h)
    rfl
  | registerCredential =>
    obtain ⟨rfl, -⟩ := Prod.mk.inj (Option.some.inj h)
    rfl
  | configureRoute =>
    obtain ⟨rfl, -⟩ := Prod.mk.inj (Option.some.inj h)
    rfl
  | setUserRateLimit =>
    obtain ⟨rfl, -⟩ := Prod.mk.inj (Option.some.inj h)
    rfl
  | setBackendHealth =>
    obtain ⟨rfl, -⟩ := Prod.mk.inj (Option.some.inj h)
    rfl

/-! ### Runs -/

def Tracks (ops : List GatewayOp) (g : UnifiedAccessGateway) : Prop :=
  ∀ sessionId, g.leaseOf sessionId = Lease.run elapsed (ops.filterMap (GatewayOp.leaseEvent sessionId))

theorem Tracks.step (h : Tracks ops g) (hstep : gateway.step g op = some (g', reply)) : Tracks (ops ++ [op]) g' := by
  intro sessionId
  rw [leaseOf_step hstep, h sessionId, List.filterMap_append]
  cases hevent : op.leaseEvent sessionId with
  | none => rw [List.filterMap_cons_none hevent, List.filterMap_nil, List.append_nil]; rfl
  | some event => rw [List.filterMap_cons_some hevent, List.filterMap_nil, Lease.run_concat]; rfl

theorem Tracks.start {capacity : ℕ} (hnew : construct capacity = some g) : Tracks [] g := by
  obtain ⟨queue, -, rfl⟩ := Option.map_eq_some_iff.1 hnew
  exact fun sessionId => rfl

theorem Tracks.run {ops' : List GatewayOp} : ∀ {ops : List GatewayOp} {g : UnifiedAccessGateway} {replies : List GatewayReply},
    Tracks ops g → gateway.run g ops' = some (g', replies) → Tracks (ops ++ ops') g' := by
  induction ops' with
  | nil =>
    intro ops g replies h hrun
    obtain ⟨rfl, -⟩ := Machine.run_nil hrun
    rwa [List.append_nil]
  | cons op ops' ih =>
    intro ops g replies h hrun
    obtain ⟨g₁, reply, replies₁, hstep, hrest, -⟩ := Machine.run_cons_eq_some.1 hrun
    have := ih (h.step hstep) hrest
    rwa [List.append_assoc] at this

theorem Tracks.live_iff (h : Tracks ops g) :
    (∃ session, g.sessions.lookup sessionId = some session ∧ session.live = true) ↔ Live ops sessionId := by
  have hlive : Live ops sessionId ↔ ∃ timeout renewed, g.leaseOf sessionId = some ⟨timeout, renewed, true⟩ := by
    rw [h sessionId]
    exact exists_congr fun _ => exists_congr fun _ => Lease.run_eq_some_iff.symm
  rw [hlive]
  constructor
  · rintro ⟨session, hsession, hlive⟩
    refine ⟨session.heartbeatTimeoutMs, session.lastHeartbeatMs, ?_⟩
    rw [leaseOf, hsession, ← hlive]
    rfl
  · rintro ⟨timeout, renewed, hlease⟩
    obtain ⟨session, hsession, heq⟩ := Option.map_eq_some_iff.1 hlease
    exact ⟨session, hsession, congrArg Lease.live heq⟩

theorem Tracks.mem_live (h : Tracks ops g) : sessionId ∈ Assoc.keysWhere SessionState.live g.sessions ↔ Live ops sessionId :=
  Assoc.mem_keysWhere.trans h.live_iff

theorem mem_stale_iff : sessionId ∈ Assoc.keysWhere (isStale nowMs) g.sessions ↔
    sessionId ∈ Assoc.keysWhere SessionState.live g.sessions ∧
      sessionId ∉ Assoc.keysWhere SessionState.live (g.closeStaleSessions nowMs).1.sessions := by
  simp only [Assoc.mem_keysWhere, lookup_closeStaleSessions]
  cases g.sessions.lookup sessionId with
  | none => simp
  | some session =>
    cases hstale : isStale nowMs session with
    | true =>
      have hlive : session.live = true := (Bool.and_eq_true_iff.1 hstale).1
      simp [hstale, hlive]
    | false => simp [hstale]

theorem Tracks.answers (h : Tracks ops g) (hstep : gateway.step g op = some (g', reply)) : Answers ops op reply := by
  cases op with
  | recordHeartbeat id t =>
    obtain ⟨-, rfl⟩ := Prod.mk.inj (Option.some.inj hstep)
    refine Iff.trans ?_ h.live_iff
    unfold recordHeartbeat
    cases hsession : g.sessions.lookup id with
    | none => simp
    | some session => cases hlive : session.live <;> simp [hlive]
  | closeStaleSessions nowMs =>
    have hnext := h.step hstep
    obtain ⟨rfl, rfl⟩ := Prod.mk.inj (Option.some.inj hstep)
    refine ⟨Assoc.keysWhere (isStale nowMs) g.sessions, (Assoc.card_keysWhere _ _).symm, fun id => ?_⟩
    rw [mem_stale_iff, h.mem_live, hnext.mem_live]
  | route => trivial
  | pollForwardedRequest => trivial
  | registerCredential => trivial
  | configureRoute => trivial
  | setUserRateLimit => trivial
  | setBackendHealth => trivial
  | openSession => trivial

/-- Over every run, whatever its stamps: the live sessions are those that no `close_stale_sessions` found late since
they were opened last; `record_heartbeat` answers whether its session is live, `close_stale_sessions` how many live
sessions it closed, and `live_session_count` how many there are. -/
theorem run_sessions {capacity : ℕ} (hnew : construct capacity = some g) (ops : List GatewayOp) :
    ∃ g' replies, gateway.run g ops = some (g', replies) ∧
      (∃ live : Finset String, g'.liveSessionCount = live.card ∧ ∀ id, id ∈ live ↔ Live ops id) ∧
      ∀ before op rest, ops = before ++ op :: rest →
        ∃ reply, replies[before.length]? = some reply ∧ Answers before op reply := by
  obtain ⟨g', replies, hrun, -⟩ := Machine.run_invariant_total (M := gateway) (I := fun _ => True)
    (fun s op _ => by cases op <;> exact ⟨_, _, rfl, trivial⟩) trivial ops
  have hend : Tracks ops g' := (Tracks.start hnew).run hrun
  refine ⟨g', replies, hrun, ⟨_, (Assoc.card_keysWhere _ _).symm, fun id => hend.mem_live⟩, ?_⟩
  rintro before op rest rfl
  obtain ⟨g₁, replies₁, replies₂, hbefore, hrest, rfl⟩ := Machine.run_append_eq_some.1 hrun
  obtain ⟨g₂, reply, replies₃, hstep, -, rfl⟩ := Machine.run_cons_eq_some.1 hrest
  refine ⟨reply, ?_, ((Tracks.start hnew).run hbefore).answers hstep⟩
  rw [← Machine.length_of_run hbefore, List.getElem?_append_right (le_refl _), Nat.sub_self, List.getElem?_cons_zero]

/-- A session that is closed although a heartbeat came, because that was too late, and opened again. -/
def lateHeartbeat : List GatewayOp := [.openSession "s" .fix 10 100, .recordHeartbeat "s" 108, .closeStaleSessions 118,
  .closeStaleSessions 119, .recordHeartbeat "s" 120, .openSession "s" .fix 5 121]

theorem run_sessions_lateHeartbeat : ∃ g g' replies, construct 2 = some g ∧
    gateway.run g lateHeartbeat = some (g', replies) ∧
    replies = [.done, .recorded true, .closed 0, .closed 1, .recorded false, .done] ∧
    ∃ live : Finset String, g'.liveSessionCount = live.card ∧ ∀ id, id ∈ live ↔ Live lateHeartbeat id := by
  have hnew : construct 2 = some (new 2) := rfl
  obtain ⟨g', replies, hrun, hlive, -⟩ := run_sessions hnew lateHeartbeat
  refine ⟨new 2, g', replies, hnew, hrun, ?_, hlive⟩
  obtain ⟨-, rfl⟩ := Prod.mk.inj (Option.some.inj hrun)
  rfl

end UnifiedAccessGateway

end Exchange.Gateway
