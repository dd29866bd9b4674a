import Exchange.Gateway

/-!
# Routing by the longest path

`configure_route` sorts the routes after each call, the longest path first, and `std::sort` may put routes of one
length in any order. `Configured` lets it: some order of the routes, sorted by the comparator. Two configured paths of
one length never start the same request path, so the first match is the only one of its length, and neither the order
within a length nor that of the calls shows in what is matched (`match_route_longest`).
-/

namespace Exchange.Gateway

/-- The gateway after calls of `configure_route`, with whatever `std::sort` makes of routes of one length. -/
inductive Configured : List RouteConfig → UnifiedAccessGateway → Prop
  | new (ingressQueueCapacity : ℕ) : Configured [] (.new ingressQueueCapacity)
  | configureRoute {calls : List RouteConfig} {g : UnifiedAccessGateway} (route : RouteConfig)
      {routes : List RouteConfig} : Configured calls g → routes.Perm (g.routes ++ [route]) →
      routes.Pairwise (fun left right => ¬ right.pathPrefix.utf8ByteSize > left.pathPrefix.utf8ByteSize) →
      Configured (calls ++ [route]) { g with routes := routes }

/-- The configured path starts the path of a request. -/
def RouteConfig.Starts (route : RouteConfig) (path : String) : Prop :=
  route.pathPrefix.toList.isPrefixOf path.toList = true

/-- Of the routes called for, the one with the longest path that starts the request's. -/
structure LongestStart (calls : List RouteConfig) (path : String) (route : RouteConfig) : Prop where
  called : route ∈ calls
  starts : route.Starts path
  longest : ∀ other ∈ calls, other.Starts path → other ≠ route →
    other.pathPrefix.utf8ByteSize < route.pathPrefix.utf8ByteSize

variable {calls calls' : List RouteConfig} {g g' : UnifiedAccessGateway} {route other : RouteConfig} {path : String}

theorem eq_of_isPrefix {p q : String} (h : p.toList.IsPrefix q.toList) (hsize : q.utf8ByteSize ≤ p.utf8ByteSize) :
    p = q := by
  obtain ⟨rest, hrest⟩ := h
  have hq : q = p ++ String.ofList rest := by
    rw [← String.toList_inj, String.toList_append, String.toList_ofList, hrest]
  have hempty : (String.ofList rest).utf8ByteSize = 0 := by
    rw [hq, String.utf8ByteSize_append] at hsize
    omega
  rw [hq, String.utf8ByteSize_eq_zero_iff.1 hempty, String.append_empty]

theorem RouteConfig.Starts.pathPrefix_eq (h : route.Starts path) (h' : other.Starts path)
    (hsize : route.pathPrefix.utf8ByteSize = other.pathPrefix.utf8ByteSize) : route.pathPrefix = other.pathPrefix := by
  rcases List.prefix_or_prefix_of_prefix (List.isPrefixOf_iff_prefix.1 h) (List.isPrefixOf_iff_prefix.1 h') with hp | hp
  · exact eq_of_isPrefix hp hsize.ge
  · exact (eq_of_isPrefix hp hsize.le).symm

/-! ### The configured routes -/

theorem Configured.perm (h : Configured calls g) : g.routes.Perm calls := by
  induction h with
  | new => exact .refl _
  | configureRoute route _ hperm _ ih => exact hperm.trans (ih.append_right [route])

theorem Configured.sorted (h : Configured calls g) :
    g.routes.Pairwise fun left right => right.pathPrefix.utf8ByteSize ≤ left.pathPrefix.utf8ByteSize := by
  cases h with
  | new => exact .nil
  | configureRoute route _ _ hsorted => exact hsorted.imp not_lt.1

theorem Configured.call (h : Configured calls g) (route : RouteConfig) :
    Configured (calls ++ [route]) (g.configureRoute route.pathPrefix route.backend route.routeName) := by
  let longer := fun left right : RouteConfig => right.pathPrefix.utf8ByteSize ≤ left.pathPrefix.utf8ByteSize
  have : IsTrans RouteConfig longer := ⟨fun _ _ _ hab hbc => hbc.trans hab⟩
  have : Std.Total longer := ⟨fun a b => Nat.le_total _ _⟩
  exact h.configureRoute route (List.perm_insertionSort longer _)
    ((List.pairwise_insertionSort longer _).imp fun hle => not_lt.2 hle)

theorem matchRoute_eq_none : g.matchRoute path = none ↔ ∀ route ∈ g.routes, ¬ route.Starts path := by
  rw [UnifiedAccessGateway.matchRoute, List.find?_eq_none]
  rfl

theorem Configured.matchRoute_spec (h : Configured calls g) (hmatch : g.matchRoute path = some route) :
    route ∈ calls ∧ route.Starts path ∧
      ∀ other ∈ calls, other.Starts path → other.pathPrefix.utf8ByteSize ≤ route.pathPrefix.utf8ByteSize := by
  obtain ⟨hstarts, before, later, hroutes, hbefore⟩ := List.find?_eq_some_iff_append.1 hmatch
  have hmem : route ∈ g.routes := by rw [hroutes]; exact List.mem_append_right _ (List.mem_cons_self ..)
  refine ⟨h.perm.mem_iff.1 hmem, hstarts, fun other hother hstarts' => ?_⟩
  have hsorted := h.sorted
  rw [hroutes, List.pairwise_append, List.pairwise_cons] at hsorted
  rw [← h.perm.mem_iff, hroutes, List.mem_append, List.mem_cons] at hother
  rcases hother with hb | rfl | hl
  · have := hbefore other hb
    rw [show List.isPrefixOf _ _ = true from hstarts'] at this
    cases this
  · exact le_rfl
  · exact hsorted.2.1.1 other hl

theorem Configured.matchRoute_eq_some (h : Configured calls g) (hdistinct : (calls.map RouteConfig.pathPrefix).Nodup) :
    g.matchRoute path = some route ↔ LongestStart calls path route := by
  constructor
  · intro hmatch
    obtain ⟨hcalled, hstarts, hlongest⟩ := h.matchRoute_spec hmatch
    refine ⟨hcalled, hstarts, fun other hother hstarts' hne => ?_⟩
    refine lt_of_le_of_ne (hlongest other hother hstarts') fun hsize => hne ?_
    exact List.inj_on_of_nodup_map hdistinct hother hcalled (hstarts'.pathPrefix_eq hstarts hsize)
  · intro hroute
    cases hmatch : g.matchRoute path with
    | none => exact absurd hroute.starts (matchRoute_eq_none.1 hmatch route (h.perm.mem_iff.2 hroute.called))
    | some found =>
      obtain ⟨hcalled, hstarts, hlongest⟩ := h.matchRoute_spec hmatch
      refine congrArg some (by_contra fun hne => ?_)
      exact absurd (hlongest route hroute.called hroute.starts) (not_le.2 (hroute.longest found hcalled hstarts hne))

/-- Different paths, called for in whatever order: a request goes to the longest one that starts its path, and nowhere
exactly when none does. -/
theorem match_route_longest (hconfigured : Configured calls g) (hdistinct : (calls.map RouteConfig.pathPrefix).Nodup)
    (path : String) :
    (∀ route, g.matchRoute path = some route ↔ LongestStart calls path route) ∧
    (g.matchRoute path = none ↔ ∀ route ∈ calls, ¬ route.Starts path) ∧
    ∀ calls' g', calls'.Perm calls → Configured calls' g' → g'.matchRoute path = g.matchRoute path := by
  refine ⟨fun route => hconfigured.matchRoute_eq_some hdistinct, ?_, fun calls' g' hperm hconfigured' => ?_⟩
  · rw [matchRoute_eq_none]
    exact forall_congr' fun route => by rw [hconfigured.perm.mem_iff]
  · have hdistinct' : (calls'.map RouteConfig.pathPrefix).Nodup := (hperm.map _).nodup_iff.2 hdistinct
    refine Option.ext fun route => ?_
    rw [hconfigured.matchRoute_eq_some hdistinct, hconfigured'.matchRoute_eq_some hdistinct']
    constructor <;> intro h
    · exact ⟨hperm.mem_iff.1 h.called, h.starts, fun other hother => h.longest other (hperm.mem_iff.2 hother)⟩
    · exact ⟨hperm.mem_iff.2 h.called, h.starts, fun other hother => h.longest other (hperm.mem_iff.1 hother)⟩

def twoRoutes : List RouteConfig := [⟨"", .matching, "all"⟩, ⟨"/risk", .risk, "risk"⟩]

theorem match_route_longest_twoRoutes : ∃ g, Configured twoRoutes g ∧
    LongestStart twoRoutes "/risk/limits" ⟨"/risk", .risk, "risk"⟩ ∧
    ∀ calls' g', calls'.Perm twoRoutes → Configured calls' g' →
      g'.matchRoute "/risk/limits" = some ⟨"/risk", .risk, "risk"⟩ := by
  have hconfigured : Configured twoRoutes _ :=
    ((Configured.new 2).call ⟨"", .matching, "all"⟩).call ⟨"/risk", .risk, "risk"⟩
  obtain ⟨hroute, -, hperm⟩ := match_route_longest hconfigured (by decide) "/risk/limits"
  exact ⟨_, hconfigured, (hroute _).1 rfl, fun calls' g' hcalls h => (hperm calls' g' hcalls h).trans rfl⟩

end Exchange.Gateway
