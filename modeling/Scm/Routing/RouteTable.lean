import Mathlib.Algebra.Order.BigOperators.Group.List
import Mathlib.Algebra.Order.Group.Nat
import Scm.Routing.Engine
import Scm.Runs

/-!
# The table of global routes — `core/src/routing/global.rs`

Routes by destination hint, at most so many for a hint and so many in all. `add_route` replaces
the route of a next hop when the advertisement has a higher sequence number, and makes room for a
new next hop by dropping the worst route, the first after a sort; `cleanup` and
`remove_routes_via` drop routes.

The comparison it sorts by takes reliabilities within 0.01 as equal and is no order, so a sort is
taken to leave the routes in any order. What a call does to the routes of one hint is then one
relation (`Advances`), and `table_run` is what it means for runs.
-/

namespace Scm.Routing

open List Collections Floats Runs

/-- `RouteAdvertisement` with the fields that the table reads and the engine does not. -/
structure Route (F : Type) extends RouteAdvertisement F where
  destinationHint : Hint
  sequence : UInt64
  ttl : UInt32

/-- `with_limits`; a limit of no routes for a hint would panic. -/
structure RouteLimits where
  maxRoutesPerHint : Nat
  maxTotalRoutes : Nat
  pos : 1 ≤ maxRoutesPerHint

/-- The routes of `GlobalRoutes`. -/
structure RouteTable (F : Type) where
  routes : AList fun _ : Hint => List (Route F)
  limits : RouteLimits

variable {F : Type} (A : FloatOps F)

/-- The new route is better than the worst one. -/
def betterThanWorst (ad worst : Route F) : Bool :=
  decide (ad.hopCount < worst.hopCount) ||
    (decide (ad.hopCount = worst.hopCount) && A.lt worst.reliability ad.reliability) ||
    (decide (ad.hopCount = worst.hopCount) &&
      A.le (A.max (A.sub ad.reliability worst.reliability) (A.sub worst.reliability ad.reliability))
        (A.lit (1 / 100)) &&
      decide (ad.lastConfirmed > worst.lastConfirmed))

/-- `add_route` on the routes of the hint, where `sort` is what the sort makes of a list. -/
def addTo (sort : Reordering (Route F)) (maxRoutesPerHint : Nat) (routes : List (Route F))
    (ad : Route F) : Bool × List (Route F) :=
  match routes.find? fun r => r.nextHop = ad.nextHop with
  | some existing =>
    if ad.sequence ≤ existing.sequence then (false, routes)
    else (true, routes.set (routes.findIdx fun r => r.nextHop = ad.nextHop) ad)
  | none =>
    if routes.length ≥ maxRoutesPerHint then
      match sort.order routes with
      | worst :: rest =>
        if betterThanWorst A ad worst then (true, rest ++ [ad]) else (false, worst :: rest)
      | [] => (false, [])
    else (true, routes ++ [ad])

namespace RouteTable

def withLimits (limits : RouteLimits) : RouteTable F := ⟨∅, limits⟩

/-- `routes_for_hint`. -/
def routesForHint (table : RouteTable F) (hint : Hint) : List (Route F) :=
  (table.routes.lookup hint).getD []

/-- `route_count`. -/
def routeCount (table : RouteTable F) : Nat := sumValues table.routes List.length

/-- `add_route`. -/
def addRoute (sort : Reordering (Route F)) (table : RouteTable F) (ad : Route F) :
    Bool × RouteTable F :=
  if table.routeCount ≥ table.limits.maxTotalRoutes then (false, table)
  else
    let (added, routes) :=
      addTo A sort table.limits.maxRoutesPerHint (table.routesForHint ad.destinationHint) ad
    (added, { table with routes := table.routes.insert ad.destinationHint routes })

/-- The `retain` of both removals: the routes to keep, and the hints that still have some. -/
def keepRoutes (table : RouteTable F) (keep : Route F → Bool) : RouteTable F where
  routes := retain (mapValues table.routes (List.filter keep)) fun _ routes => !routes.isEmpty
  limits := table.limits

/-- `cleanup`. -/
def cleanup (table : RouteTable F) (now : UInt64) : RouteTable F :=
  table.keepRoutes fun route =>
    !decide (now.toNat - route.lastConfirmed.toNat ≥ route.ttl.toNat)

/-- `remove_routes_via`. -/
def removeRoutesVia (table : RouteTable F) (peerId : PeerId) : RouteTable F :=
  table.keepRoutes fun route => !decide (route.nextHop = peerId)

end RouteTable

inductive TableCall (F : Type) where
  | addRoute (sort : Reordering (Route F)) (ad : Route F)
  | cleanup (now : UInt64)
  | removeRoutesVia (peerId : PeerId)

def RouteTable.step (table : RouteTable F) : TableCall F → RouteTable F
  | .addRoute sort ad => (table.addRoute A sort ad).2
  | .cleanup now => table.cleanup now
  | .removeRoutesVia peerId => table.removeRoutesVia peerId

/-! ## The routes of one hint -/

/-- What a call may do to the routes of a hint with different next hops: there are not too many,
the next hops stay different, and a route that was not there has a higher sequence number than
the one it replaces. -/
structure Advances (limit : Nat) (routes routes' : List (Route F)) : Prop where
  length_le : routes.length ≤ limit → routes'.length ≤ limit
  nodup : (routes'.map (·.nextHop)).Nodup
  newer : ∀ r' ∈ routes', r' ∈ routes ∨
    ∀ r ∈ routes, r.nextHop = r'.nextHop → r.sequence < r'.sequence

section
variable {A} {limit : Nat} {routes routes' : List (Route F)} {ad : Route F}
  (hnodup : (routes.map (·.nextHop)).Nodup)
include hnodup

theorem Advances.of_subperm (h : routes'.Subperm routes) : Advances limit routes routes' where
  length_le := h.length_le.trans
  nodup := by
    obtain ⟨l, hperm, hsublist⟩ := h
    exact (hperm.map _).nodup_iff.mp (hnodup.sublist (hsublist.map _))
  newer r' hr' := .inl (h.subset hr')

/-- A next hop that is new to the list. -/
theorem Advances.append (h : routes'.Subperm routes)
    (hroom : routes.length ≤ limit → routes'.length < limit)
    (hnew : ∀ r ∈ routes, r.nextHop ≠ ad.nextHop) : Advances limit routes (routes' ++ [ad]) where
  length_le hle := by simpa using Nat.succ_le_of_lt (hroom hle)
  nodup := by
    have hold : Advances limit routes routes' := .of_subperm hnodup h
    have hnot : ∀ r ∈ routes', r.nextHop ≠ ad.nextHop := fun r hr => hnew r (h.subset hr)
    simpa [nodup_append, hold.nodup] using hnot
  newer r' hr' := by
    rcases mem_append.mp hr' with hr' | hr'
    · exact .inl (h.subset hr')
    · rw [mem_singleton.mp hr']
      exact .inr fun r hr heq => absurd heq (hnew r hr)

/-- A route in the place of an older one. -/
theorem Advances.set {existing : Route F}
    (hfind : (routes.find? fun r => r.nextHop = ad.nextHop) = some existing)
    (hnewer : existing.sequence < ad.sequence) :
    Advances limit routes (routes.set (routes.findIdx fun r => r.nextHop = ad.nextHop) ad) := by
  obtain ⟨hhop, before, after, rfl, hbefore⟩ := List.find?_eq_some_iff_append.mp hfind
  have hhop : existing.nextHop = ad.nextHop := by simpa using hhop
  have hidx : ((before ++ existing :: after).findIdx fun r => r.nextHop = ad.nextHop)
      = before.length := by
    have hnone : (before.findIdx fun r => r.nextHop = ad.nextHop) = before.length :=
      findIdx_eq_length.mpr fun r hr => by simpa using hbefore r hr
    simp [findIdx_append, findIdx_cons, hnone, hhop]
  have hset : (before ++ existing :: after).set before.length ad = before ++ ad :: after := by simp
  rw [hidx, hset]
  have hhops : (before ++ ad :: after).map (·.nextHop)
      = (before ++ existing :: after).map (·.nextHop) := by simp [hhop]
  refine ⟨by simp, hhops ▸ hnodup, fun r' hr' => ?_⟩
  rcases mem_append.mp hr' with hr' | hr'
  · exact .inl (mem_append_left _ hr')
  rcases mem_cons.mp hr' with rfl | hr'
  · refine .inr fun r hr heq => ?_
    have hsame : r = existing :=
      inj_on_of_nodup_map hnodup hr (by simp) (heq.trans hhop.symm)
    exact hsame ▸ hnewer
  · exact .inl (by simp [hr'])

theorem advances_addTo {sort : Reordering (Route F)} :
    Advances limit routes (addTo A sort limit routes ad).2 := by
  unfold addTo
  split
  next existing hfind =>
    split
    next => exact .of_subperm hnodup (.refl _)
    next hnewer => exact .set hnodup hfind (UInt64.not_le.mp hnewer)
  next hnone =>
    have hnew : ∀ r ∈ routes, r.nextHop ≠ ad.nextHop := by simpa using hnone
    split
    next hfull =>
      have hperm := sort.perm routes
      split
      next worst rest hsorted =>
        rw [hsorted] at hperm
        have hlen := hperm.length_eq
        split
        next =>
          refine .append hnodup ((sublist_cons_self worst rest).subperm.trans hperm.subperm)
            (fun hle => ?_) hnew
          rw [length_cons] at hlen
          omega
        next => exact .of_subperm hnodup hperm.subperm
      next => exact .of_subperm hnodup nil_subperm
    next hroom => exact .append hnodup (.refl _) (fun _ => Nat.lt_of_not_le hroom) hnew

end

theorem length_addTo_le (sort : Reordering (Route F)) (limit : Nat) (routes : List (Route F))
    (ad : Route F) :
    (addTo A sort limit routes ad).2.length ≤ routes.length + 1 := by
  have hperm := (sort.perm routes).length_eq
  unfold addTo
  split
  next => split <;> simp
  split
  next =>
    split
    next worst rest hsorted =>
      rw [hsorted] at hperm
      split <;> simp_all
    next => simp
  next => simp

/-! ## The table -/

namespace RouteTable

variable {A} {table : RouteTable F} {hint : Hint}

theorem routesForHint_insert {routes : List (Route F)} {other : Hint} :
    routesForHint { table with routes := table.routes.insert other routes } hint
      = if hint = other then routes else table.routesForHint hint := by
  unfold routesForHint
  split
  next h => rw [h, AList.lookup_insert, Option.getD_some]
  next h => rw [AList.lookup_insert_ne h]

theorem sublist_keepRoutes (keep : Route F → Bool) :
    ((table.keepRoutes keep).routesForHint hint).Sublist (table.routesForHint hint) := by
  unfold routesForHint
  cases hkept : (table.keepRoutes keep).routes.lookup hint with
  | none => exact nil_sublist _
  | some routes =>
    obtain ⟨hkept, -⟩ := lookup_retain.mp hkept
    rw [lookup_mapValues, Option.map_eq_some_iff] at hkept
    obtain ⟨old, hold, rfl⟩ := hkept
    rw [hold]
    exact filter_sublist

theorem routeCount_keepRoutes_le (keep : Route F → Bool) :
    (table.keepRoutes keep).routeCount ≤ table.routeCount := by
  unfold routeCount keepRoutes
  rw [sumValues_retain_of_zero (by simp), sumValues_mapValues]
  exact sum_le_sum fun entry _ => length_filter_le _ _

theorem step_addRoute (sort : Reordering (Route F)) (ad : Route F) :
    table.step A (.addRoute sort ad) =
      if table.routeCount ≥ table.limits.maxTotalRoutes then table
      else ⟨table.routes.insert ad.destinationHint (addTo A sort table.limits.maxRoutesPerHint
        (table.routesForHint ad.destinationHint) ad).2, table.limits⟩ := by
  rw [step, addRoute]
  split <;> rfl

/-- What holds of every table. -/
structure Bounded (table : RouteTable F) : Prop where
  length_le : ∀ hint, (table.routesForHint hint).length ≤ table.limits.maxRoutesPerHint
  nodup : ∀ hint, ((table.routesForHint hint).map (·.nextHop)).Nodup
  total_le : table.routeCount ≤ table.limits.maxTotalRoutes

/-- What a call does to the routes of every hint. -/
theorem advances_step (h : table.Bounded) (call : TableCall F) (hint : Hint) :
    Advances table.limits.maxRoutesPerHint (table.routesForHint hint)
      ((table.step A call).routesForHint hint) := by
  have hsame : Advances table.limits.maxRoutesPerHint (table.routesForHint hint)
      (table.routesForHint hint) := .of_subperm (h.nodup hint) (.refl _)
  cases call with
  | addRoute sort ad =>
    rw [step_addRoute]
    split
    next => exact hsame
    rw [routesForHint_insert]
    split
    next heq => exact heq ▸ advances_addTo (h.nodup hint)
    next => exact hsame
  | cleanup now => exact .of_subperm (h.nodup hint) (sublist_keepRoutes _).subperm
  | removeRoutesVia peerId => exact .of_subperm (h.nodup hint) (sublist_keepRoutes _).subperm

theorem limits_step (call : TableCall F) : (table.step A call).limits = table.limits := by
  cases call with
  | addRoute sort ad =>
    rw [step_addRoute]
    split <;> rfl
  | cleanup now => rfl
  | removeRoutesVia peerId => rfl

theorem bounded_step (h : table.Bounded) (call : TableCall F) : (table.step A call).Bounded where
  length_le hint := by
    rw [limits_step]
    exact (advances_step h call hint).length_le (h.length_le hint)
  nodup hint := (advances_step h call hint).nodup
  total_le := by
    cases call with
    | addRoute sort ad =>
      rw [step_addRoute]
      split
      next => exact h.total_le
      next hroom =>
        have hlength := length_addTo_le A sort table.limits.maxRoutesPerHint
          (table.routesForHint ad.destinationHint) ad
        have hsum := sumValues_insert table.routes ad.destinationHint
          (addTo A sort table.limits.maxRoutesPerHint
            (table.routesForHint ad.destinationHint) ad).2 List.length
        have hold : ((table.routes.lookup ad.destinationHint).map List.length).getD 0
            = (table.routesForHint ad.destinationHint).length := by
          unfold routesForHint
          cases table.routes.lookup ad.destinationHint <;> rfl
        unfold routeCount at hroom ⊢
        dsimp only
        omega
    | cleanup now => exact (routeCount_keepRoutes_le _).trans h.total_le
    | removeRoutesVia peerId => exact (routeCount_keepRoutes_le _).trans h.total_le

/-- A hint's route by a next hop is there at every point of a run. -/
def Stays (A : FloatOps F) (table : RouteTable F) (calls : List (TableCall F)) (hint : Hint)
    (hop : PeerId) : Prop :=
  ∀ before after, calls = before ++ after →
    ∃ r ∈ (run (step A) table before).routesForHint hint, r.nextHop = hop

theorem sequence_run {hop : PeerId} (calls : List (TableCall F)) : ∀ table : RouteTable F,
    table.Bounded → table.Stays A calls hint hop →
      ∀ r ∈ table.routesForHint hint, r.nextHop = hop →
        ∀ r' ∈ (run (step A) table calls).routesForHint hint, r'.nextHop = hop →
          r' = r ∨ r.sequence < r'.sequence := by
  induction calls with
  | nil =>
    intro table h _ r hr hhop r' hr' hhop'
    exact .inl (inj_on_of_nodup_map (h.nodup hint) hr' hr (hhop'.trans hhop.symm))
  | cons call calls ih =>
    intro table h hstays r hr hhop r' hr' hhop'
    obtain ⟨next, hnext, hnexthop⟩ := hstays [call] calls rfl
    have hrest : (table.step A call).Stays A calls hint hop := by
      rintro before after rfl
      exact hstays (call :: before) after rfl
    have hlater := ih _ (bounded_step h call) hrest next hnext hnexthop r' hr' hhop'
    have hfirst : next = r ∨ r.sequence < next.sequence := by
      rcases (advances_step h call hint).newer next hnext with hold | hnewer
      · exact .inl (inj_on_of_nodup_map (h.nodup hint) hold hr (hnexthop.trans hhop.symm))
      · exact .inr (hnewer r hr (hhop.trans hnexthop.symm))
    grind

/-- **Along every run** the limits hold, a hint's routes have different next hops, and while a
next hop has a route for a hint, this route changes only to one with a higher sequence number. -/
theorem table_run (A : FloatOps F) (limits : RouteLimits) (calls : List (TableCall F)) :
    let table := run (step A) (withLimits limits) calls
    (∀ hint, (table.routesForHint hint).length ≤ limits.maxRoutesPerHint ∧
      ((table.routesForHint hint).map (·.nextHop)).Nodup) ∧
    table.routeCount ≤ limits.maxTotalRoutes ∧
    ∀ more hint hop, table.Stays A more hint hop →
      ∀ r ∈ table.routesForHint hint, r.nextHop = hop →
        ∀ r' ∈ (run (step A) table more).routesForHint hint, r'.nextHop = hop →
          r' = r ∨ r.sequence < r'.sequence := by
  intro table
  have hstart : (withLimits limits : RouteTable F).Bounded :=
    ⟨fun _ => Nat.zero_le _, fun _ => nodup_nil, Nat.zero_le _⟩
  have hstep : ∀ (table : RouteTable F) call, table.limits = limits ∧ table.Bounded →
      (table.step A call).limits = limits ∧ (table.step A call).Bounded :=
    fun _ call h => ⟨(limits_step call).trans h.1, bounded_step h.2 call⟩
  obtain ⟨hlimits, hbounded⟩ := run_invariant_always hstep calls (withLimits limits) ⟨rfl, hstart⟩
  exact ⟨fun hint => ⟨hlimits ▸ hbounded.length_le hint, hbounded.nodup hint⟩,
    hlimits ▸ hbounded.total_le, fun more hint hop => sequence_run more table hbounded⟩

end RouteTable

end Scm.Routing
