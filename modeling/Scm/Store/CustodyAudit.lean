import Scm.Store.CustodyLog
import Scm.Store.CustodyQueues
import Mathlib.Data.List.Chain

/-!
# The audit trail is a path

`transitions_for_custody` lists the entries of one custody id by time and number.
Within one process run, with a clock that does not go back, that is the order of
writing (`Traced.transitionsForCustody_eq`), and the list tells the life of one
record: it is accepted once, every entry starts where the previous one ended, and
nothing comes after the delivery (`Path`).

`Traced` is the invariant: the trail of a stored record is a path to the state the
record is in, with as many dispatches as the record has attempts. Every step of a
call adds one entry about a stored record and rewrites or removes that record
(`Traced.extend`), with one exception. A convergence looks for records by the
beginning of their key; a match of another destination is noted as delivered and
stays in the store (`delivered_record_still_live`).
-/

namespace Scm.Store

open List Runs

/-! ## Paths -/

/-- An entry that begins a delivery attempt. -/
def CustodyTransition.IsDispatch (t : CustodyTransition) : Prop :=
  t.fromState = some .accepted ∧ t.toState = .dispatching

instance : DecidablePred CustodyTransition.IsDispatch :=
  fun _ => inferInstanceAs (Decidable (_ ∧ _))

/-- The trail of a record that is in `state` after so many attempts. -/
inductive Path : List CustodyTransition → CustodyState → Nat → Prop where
  | accepted (t : CustodyTransition) (hfrom : t.fromState = none) (hto : t.toState = .accepted) :
      Path [t] .accepted 0
  | step {trail : List CustodyTransition} {state : CustodyState} {attempts : Nat}
      (h : Path trail state attempts) (hopen : state ≠ .delivered) (t : CustodyTransition)
      (hfrom : t.fromState = some state) :
      Path (trail ++ [t]) t.toState (attempts + if t.IsDispatch then 1 else 0)

/-- A trail as it should be. -/
structure Connected (trail : List CustodyTransition) : Prop where
  start : ∀ t ∈ trail.head?, t.fromState = none ∧ t.toState = .accepted
  linked : trail.IsChain fun a b => b.fromState = some a.toState
  closed : trail.IsChain fun a _ => a.toState ≠ .delivered
  attempts : trail.countP (fun t => t.IsDispatch) ≤ maxDeliveryAttempts

namespace Path

variable {trail : List CustodyTransition} {state : CustodyState} {attempts : Nat}
  (h : Path trail state attempts)
include h

theorem getLast_eq :
    ∃ t, trail.getLast? = some t ∧ t.toState = state := by
  cases h with
  | accepted t _ hto => exact ⟨t, rfl, hto⟩
  | step _ _ t _ => exact ⟨t, List.getLast?_concat, rfl⟩

theorem head_eq :
    ∃ t, trail.head? = some t ∧ t.fromState = none ∧ t.toState = .accepted := by
  induction h with
  | accepted t hfrom hto => exact ⟨t, rfl, hfrom, hto⟩
  | step _ _ _ _ ih => grind

/-- What holds between the last entry and the next one holds all along. -/
theorem isChain {r : CustodyTransition → CustodyTransition → Prop}
    (hr : ∀ a b, a.toState ≠ .delivered → b.fromState = some a.toState → r a b) :
    trail.IsChain r := by
  induction h with
  | accepted => exact List.IsChain.singleton _
  | step h hopen t hfrom ih =>
    refine isChain_append.mpr ⟨ih, List.IsChain.singleton _, fun a ha b hb => ?_⟩
    obtain ⟨last, hlast, hstate⟩ := h.getLast_eq
    have hlast_eq : last = a := Option.some.inj (hlast.symm.trans ha)
    cases hb
    rw [← hstate, hlast_eq] at hopen hfrom
    exact hr a _ hopen hfrom

theorem countP_isDispatch :
    trail.countP (fun t => t.IsDispatch) = attempts := by
  induction h with
  | accepted t hfrom hto => simp_all [CustodyTransition.IsDispatch]
  | step _ _ t _ ih => simp_all

theorem connected (hle : attempts ≤ maxDeliveryAttempts) :
    Connected trail := by
  refine ⟨fun t ht => ?_, h.isChain fun _ _ _ hfrom => hfrom,
    h.isChain fun _ _ hopen _ => hopen, ?_⟩
  · obtain ⟨first, hfirst, hstart⟩ := h.head_eq
    cases hfirst.symm.trans ht
    exact hstart
  · rw [h.countP_isDispatch]
    exact hle

end Path

theorem connected_nil : Connected [] :=
  ⟨nofun, .nil, .nil, Nat.zero_le _⟩

/-- Nothing comes after a delivery. -/
theorem Connected.getLast_eq {trail : List CustodyTransition} (h : Connected trail)
    {t : CustodyTransition} (ht : t ∈ trail) (hto : t.toState = .delivered) :
    trail.getLast? = some t := by
  obtain ⟨front, back, rfl⟩ := append_of_mem ht
  cases back with
  | nil => exact getLast?_concat
  | cons next back =>
    exact absurd hto (isChain_append_cons_cons.mp h.closed).2.1

namespace RelayCustodyStore

/-! ## The trail of an id -/

/-- The entries about one id, in the order of writing. -/
def trail (s : RelayCustodyStore) (custodyId : String) : List CustodyTransition :=
  s.log.filter fun t => t.custodyId = custodyId

variable {r : CustodyMessage} {t : CustodyTransition} {now : Nat} {s s' : RelayCustodyStore}

theorem trail_of_log_eq (h : s'.log = s.log) (custodyId : String) :
    s'.trail custodyId = s.trail custodyId := by
  rw [trail, trail, h]

theorem trail_concat_self (h : s'.log = s.log ++ [t]) :
    s'.trail t.custodyId = s.trail t.custodyId ++ [t] := by
  rw [trail, h, filter_append, filter_cons_of_pos (by exact decide_eq_true rfl)]
  rfl

theorem trail_concat_other (h : s'.log = s.log ++ [t]) {custodyId : String}
    (hid : t.custodyId ≠ custodyId) :
    s'.trail custodyId = s.trail custodyId := by
  have hno : ¬ decide (t.custodyId = custodyId) = true := fun heq => hid (of_decide_eq_true heq)
  rw [trail, h, filter_append, filter_cons_of_neg (by exact hno), filter_nil, append_nil]
  rfl

/-- A stored record with its trail. -/
structure Tracked (s : RelayCustodyStore) (r : CustodyMessage) : Prop where
  undelivered : r.state ≠ .delivered
  attempts : r.deliveryAttempts ≤ maxDeliveryAttempts
  path : Path (s.trail r.custodyId) r.state r.deliveryAttempts

/-- The store and its log at a time not before `now`. -/
structure Traced (now : Nat) (s : RelayCustodyStore) : Prop where
  sound : Sound s
  past : ∀ t ∈ s.log, t.atMs ≤ now
  ordered : s.log.Pairwise fun a b => a.atMs ≤ b.atMs ∧ a.sequence < b.sequence
  live : ∀ r ∈ s.values, Tracked s r
  trails : ∀ custodyId, Connected (s.trail custodyId)

theorem Traced.mono {later : Nat} (h : Traced now s) (hle : now ≤ later) : Traced later s :=
  { h with past := fun t ht => (h.past t ht).trans hle }

theorem Traced.transitionsForCustody_eq (h : Traced now s) (custodyId : String) :
    s.transitionsForCustody custodyId = s.trail custodyId := by
  have htotal : Std.Total transitionLe := ⟨fun a b => by
    unfold transitionLe
    omega⟩
  have htrans : IsTrans CustodyTransition transitionLe := ⟨fun a b c hab hbc => by
    unfold transitionLe at *
    omega⟩
  have hordered : (s.trail custodyId).Pairwise fun a b =>
    a.atMs ≤ b.atMs ∧ a.sequence < b.sequence :=
    h.ordered.sublist filter_sublist
  have hsorted : (s.trail custodyId).Pairwise transitionLe :=
    hordered.imp fun {a b} hab => by
      unfold transitionLe
      omega
  have hperm : (s.transitionsForCustody custodyId).Perm (s.trail custodyId) := by
    refine (perm_insertionSort transitionLe _).trans ?_
    exact ((reverse_perm _).filter _).symm
  refine hperm.eq_of_pairwise (fun a b ha hb hab hba => ?_)
    (pairwise_insertionSort transitionLe _) hsorted
  -- two entries of one number are the same entry
  have hsequence : a.sequence = b.sequence := by
    unfold transitionLe at hab hba
    omega
  have hne : (s.trail custodyId).Pairwise fun a b => a.sequence ≠ b.sequence :=
    hordered.imp fun {a b} hab => Nat.ne_of_lt hab.2
  have hsymm : Std.Symm fun a b : CustodyTransition => a.sequence ≠ b.sequence :=
    ⟨fun _ _ h => Ne.symm h⟩
  by_contra hdiff
  exact hne.forall (hperm.subset ha) hb hdiff hsequence

/-- Every trail is as it should be, and ends where the live record is. -/
def Told (s : RelayCustodyStore) : Prop :=
  (∀ custodyId, Connected (s.transitionsForCustody custodyId)) ∧
    ∀ r ∈ s.values, ∃ t, (s.transitionsForCustody r.custodyId).getLast? = some t ∧
      t.toState = r.state

theorem Traced.told (h : Traced now s) : Told s := by
  refine ⟨fun custodyId => ?_, fun r hr => ?_⟩
  · rw [h.transitionsForCustody_eq]
    exact h.trails custodyId
  · rw [h.transitionsForCustody_eq]
    exact (h.live r hr).path.getLast_eq

/-! ## One more entry -/

section
variable (h : Traced now s) (hs' : Sound s') (hlog : s'.log = s.log ++ [t]) (htime : t.atMs = now)
  (hsequence : t.sequence = s.registry.sequence)
include h hs' hlog htime hsequence

/-- A step that writes one entry `t`. What it leaves are records that `t` is not about, and records
in the state that `t` ends in. -/
theorem Traced.concat {attempts : Nat}
    (hpath : Path (s'.trail t.custodyId) t.toState attempts)
    (hattempts : attempts ≤ maxDeliveryAttempts)
    (hvalues : ∀ r ∈ s'.values, (r ∈ s.values ∧ t.custodyId ≠ r.custodyId) ∨
      r.custodyId = t.custodyId ∧ r.state = t.toState ∧ t.toState ≠ .delivered ∧
        r.deliveryAttempts = attempts) :
    Traced now s' := by
  refine ⟨hs', ?_, ?_, ?_, ?_⟩
  · intro x hx
    rw [hlog] at hx
    rcases mem_append.mp hx with hold | hnew
    · exact h.past x hold
    · rw [mem_singleton.mp hnew, htime]
  · rw [hlog]
    refine pairwise_append.mpr ⟨h.ordered, pairwise_singleton _ _, fun x hx y hy => ?_⟩
    rw [mem_singleton.mp hy, htime, hsequence]
    obtain ⟨key, hkey⟩ := mem_log.mp hx
    exact ⟨h.past x hx, (h.sound.audited key x hkey).2⟩
  · intro r hr
    rcases hvalues r hr with ⟨hold, hother⟩ | ⟨hid, hstate, hopen, hcount⟩
    · have hold' := h.live r hold
      exact ⟨hold'.undelivered, hold'.attempts, by
        rw [trail_concat_other hlog hother]
        exact hold'.path⟩
    · refine ⟨hstate ▸ hopen, hcount ▸ hattempts, ?_⟩
      rw [hid, hstate, hcount]
      exact hpath
  · intro custodyId
    by_cases hown : t.custodyId = custodyId
    · rw [← hown]
      exact hpath.connected hattempts
    · rw [trail_concat_other hlog hown]
      exact h.trails custodyId

/-- A step that writes one entry `t` about a stored record `r`, and leaves of `r` at
most a record in the state that `t` ends in. -/
theorem Traced.extend (hr : r ∈ s.values) (hid : t.custodyId = r.custodyId)
    (hfrom : t.fromState = some r.state)
    (hattempts : r.deliveryAttempts + (if t.IsDispatch then 1 else 0) ≤ maxDeliveryAttempts)
    (hvalues : ∀ r' ∈ s'.values, (r' ∈ s.values ∧ r' ≠ r) ∨
      r'.custodyId = r.custodyId ∧ r'.state = t.toState ∧ t.toState ≠ .delivered ∧
        r'.deliveryAttempts = r.deliveryAttempts + if t.IsDispatch then 1 else 0) :
    Traced now s' := by
  have htracked := h.live r hr
  refine h.concat hs' hlog htime hsequence ?_ hattempts fun r' hr' => ?_
  · rw [trail_concat_self hlog, hid]
    exact htracked.path.step htracked.undelivered t hfrom
  · rw [hid]
    -- of another record nothing was written
    exact (hvalues r' hr').imp_left fun ⟨hold, hne⟩ =>
      ⟨hold, fun heq => hne (h.sound.unique_id hold hr heq.symm)⟩

end

theorem mem_values_of_erase (hkeyed : Keyed s) {r' : CustodyMessage} {key : String}
    (hmessages : s'.messages = s.messages.erase key) (hstored : s.messages.lookup key = some r)
    (hr' : r' ∈ s'.values) :
    r' ∈ s.values ∧ r' ≠ r := by
  obtain ⟨other, hother⟩ := mem_values_iff_lookup.mp hr'
  rw [hmessages] at hother
  by_cases hkey : other = key
  · rw [hkey, AList.lookup_erase] at hother
    cases hother
  · rw [AList.lookup_erase_ne hkey] at hother
    refine ⟨mem_values_of_lookup hother, fun heq => hkey ?_⟩
    rw [hkeyed _ _ hother, hkeyed _ _ hstored, heq]

theorem not_isDispatch_of_same {state : CustodyState} (hfrom : t.fromState = some state)
    (hto : t.toState = state) : ¬ t.IsDispatch := by
  intro hyes
  have haccepted : state = .accepted := Option.some.inj (hfrom.symm.trans hyes.1)
  have hdispatching : state = .dispatching := hto.symm.trans hyes.2
  rw [haccepted] at hdispatching
  cases hdispatching

theorem Moves.attempts {r' : CustodyMessage} (h : Moves now r r')
    (hle : r.deliveryAttempts ≤ maxDeliveryAttempts) (hfrom : t.fromState = some r.state)
    (hto : t.toState = r'.state) :
    r'.deliveryAttempts = r.deliveryAttempts + (if t.IsDispatch then 1 else 0) ∧
      r'.deliveryAttempts ≤ maxDeliveryAttempts := by
  cases h with
  | dispatch hstate hleft =>
    have hyes : t.IsDispatch := ⟨hfrom.trans (congrArg some hstate), hto⟩
    rw [if_pos hyes]
    exact ⟨rfl, hleft⟩
  | fail hstate =>
    have hno : ¬ t.IsDispatch := fun hyes => absurd (hto.symm.trans hyes.2) nofun
    rw [if_neg hno]
    exact ⟨rfl, hle⟩
  | migrate hstate device => simp_all [not_isDispatch_of_same]

theorem Traced.change (h : Traced now s) (hchange : Change now .strict s s') : Traced now s' := by
  have hs' := hchange.sound (fun hloose => by cases hloose) h.sound
  cases hchange with
  | shrink hshrink =>
    cases hshrink with
    | quiet hmessages htransitions hsequence =>
      have hlog := log_of_transitions_eq htransitions
      have hvalues : s'.values = s.values := by rw [values, values, hmessages]
      refine ⟨hs', by rw [hlog]; exact h.past, by rw [hlog]; exact h.ordered, fun r hr => ?_,
        fun custodyId => by rw [trail_of_log_eq hlog]; exact h.trails custodyId⟩
      have hr' := h.live r (hvalues ▸ hr)
      exact ⟨hr'.undelivered, hr'.attempts, by rw [trail_of_log_eq hlog]; exact hr'.path⟩
    | @purge r reason hstored =>
      have hr := mem_values_of_lookup hstored
      -- the entry goes from the record's state to the same state
      have hno : ¬ (s.entry now r (some r.state) r.state (reason ++ "_purged")).IsDispatch :=
        not_isDispatch_of_same rfl rfl
      refine h.extend hs' (h.sound.audited.log_recordTransition ..) rfl rfl hr rfl rfl ?_
        fun r' hr' => .inl (mem_values_of_erase h.sound.keyed rfl hstored hr')
      rw [if_neg hno]
      exact (h.live r hr).attempts
  | @move r r' reason hstored hmoves =>
    have hr := mem_values_of_lookup hstored
    have hput : Audited (s.putMessage r') :=
      h.sound.audited.of_transitions_eq rfl (Nat.le_refl _)
    have hattempts := hmoves.attempts (h.live r hr).attempts
      (t := (s.putMessage r').entry now r' (some r.state) r'.state reason) rfl rfl
    refine h.extend hs' (hput.log_recordTransition ..) rfl rfl hr hmoves.same.custodyId rfl
      (hattempts.1 ▸ hattempts.2) fun x hx => ?_
    obtain ⟨key, hkey⟩ := mem_values_iff_lookup.mp hx
    rw [messages_recordTransition, messages_putMessage, hmoves.same.key] at hkey
    by_cases hown : key = r.key
    · rw [hown, AList.lookup_insert] at hkey
      cases hkey
      exact .inr ⟨hmoves.same.custodyId, rfl, hmoves.not_delivered.2, hattempts.1⟩
    · rw [AList.lookup_insert_ne hown] at hkey
      refine .inl ⟨mem_values_of_lookup hkey, fun heq => hown ?_⟩
      rw [h.sound.keyed _ _ hkey, heq]
  | @deliver r destination custodyId reason hstored hstate =>
    have hr := mem_values_of_lookup hstored
    have hno : ¬ (s.entry now { r with state := .delivered, updatedAtMs := now } (some r.state)
        .delivered reason).IsDispatch := fun hyes => by cases hyes.2
    refine h.extend hs' (h.sound.audited.log_recordTransition ..) rfl rfl hr rfl rfl ?_
      fun r' hr' => .inl (mem_values_of_erase h.sound.keyed rfl hstored hr')
    rw [if_neg hno]
    exact (h.live r hr).attempts
  | cut _ _ hslack => exact hslack.elim

theorem Traced.changes (h : Traced now s) (hchanges : Changes now .strict s s') :
    Traced now s' := by
  induction hchanges with
  | refl => exact h
  | tail _ hstep ih => exact ih.change hstep

theorem Traced.enter {n : Nat} {t : RelayCustodyStore} (h : Traced now t) (hbelow : Below n t)
    (hdrawn : n < t.registry.sequence) {message : CustodyMessage}
    (hnumbered : Numbered message.custodyId n) (hstate : message.state = .accepted)
    (hattempts : message.deliveryAttempts = 0) (reason : String) :
    Traced now (t.enter now message reason) := by
  have hlog := h.sound.audited.log_enter now message reason
  -- no entry about the id was written before
  have hnone : t.trail message.custodyId = [] := by
    refine filter_eq_nil_iff.mpr fun x hx hid => ?_
    obtain ⟨k, hk, hxk⟩ := hbelow.logged x hx
    rw [of_decide_eq_true hid] at hxk
    have heq := hxk.inj hnumbered
    omega
  refine h.concat (h.sound.enter hbelow hdrawn now hnumbered reason) hlog rfl rfl ?_
    (Nat.zero_le _) fun r hr => ?_
  · rw [trail_concat_self hlog]
    show Path (t.trail message.custodyId ++ _) .accepted 0
    rw [hnone]
    exact .accepted _ rfl rfl
  · rcases mem_values_enter hr with rfl | hold
    · exact .inr ⟨rfl, hstate, nofun, hattempts⟩
    · refine .inl ⟨hold, fun heq => ?_⟩
      obtain ⟨k, hk, hrk⟩ := hbelow.stored r hold
      rw [← heq] at hrk
      have hkn := hrk.inj hnumbered
      omega

/-! ## Histories -/

/-- A call whose matches are its own keeps every trail a path. -/
theorem traced_call (P : Platform) (now : Nat) (s : RelayCustodyStore) (c : CustodyCall)
    (h : Traced now s) (hlater : now ≤ c.now) (hown : MatchesOwn s c) :
    Traced c.now (s.call P c) := by
  have hnow := h.mono hlater
  rcases h.sound.call_cases .strict P c fun _ => hown with hchanges | ⟨n, t, message,
    reason, hshrinks, hle, hlt, hnumbered, hstate, hattempts, hcall⟩
  · exact hnow.changes hchanges
  · have hchanges : Changes c.now .strict s t := hshrinks.changes
    rw [hcall]
    exact (hnow.changes hchanges).enter ((hchanges.below nofun h.sound h.sound.below).mono hle) hlt
      hnumbered hstate hattempts reason

theorem traced_empty (localIdentity : Option String) (sequence : Nat) :
    Traced 0 (empty localIdentity sequence) :=
  ⟨sound_empty localIdentity sequence, fun _ h => absurd h not_mem_nil, .nil,
    fun _ h => absurd h not_mem_nil, fun _ => connected_nil⟩

/-- A match of another destination is noted as delivered, and stays. -/
theorem Traced.matchesOwn (h : Traced now s) (P : Platform) {c : CustodyCall}
    (htold : Told (s.call P c)) : MatchesOwn s c := by
  cases c with
  | convergeDeliveredForMessage env destination relayMessageId reason =>
    intro r hr
    by_contra hother
    have hsub := (s.matching_sublist destination relayMessageId).subset
    have hundelivered := (h.live r (hsub hr)).undelivered
    have hlookup := h.sound.keyed.lookup (hsub hr)
    have hkept := (lookup_convergeLoop env.now destination reason _ (fun x hx heq => by
      cases h.sound.eq_of_lookup (hsub hx) (heq ▸ hlookup)
      have hprefix := (String.append_left_inj _).mp heq
      exact hother ((String.append_right_inj _).mp ((String.append_left_inj _).mp hprefix)))
      0 s).trans hlookup
    obtain ⟨more, hlog, hnoted⟩ := log_convergeLoop env.now destination reason
      (s.matching destination relayMessageId) 0 s h.sound.audited
    obtain ⟨t, ht, hid, _, hto⟩ := hnoted r hr hundelivered
    have hin := mem_append_right s.log ht
    rw [← hlog, log, mem_reverse] at hin
    obtain ⟨last, hlast, hstate⟩ := htold.2 r (mem_values_of_lookup hkept)
    cases hlast.symm.trans ((htold.1 r.custodyId).getLast_eq ((mem_insertionSort _).mpr
      (mem_filter.mpr ⟨hin, decide_eq_true hid⟩)) hto)
    exact hundelivered (hstate.symm.trans hto)
  | _ => trivial

section
variable (P : Platform) (localIdentity : Option String) (sequence : Nat) (calls : List CustodyCall)
  (hclock : (calls.map CustodyCall.now).Pairwise (· ≤ ·))
include hclock

theorem traced_run (hown : Along (call P) MatchesOwn (empty localIdentity sequence) calls) :
    ∃ now, Traced now (run (call P) (empty localIdentity sequence) calls) :=
  run_invariant_clock (traced_call P) calls 0 _ (traced_empty localIdentity sequence)
    (fun _ _ => Nat.zero_le _) hclock hown

/-- **The audit trail of every id is a path, and ends where the live record is**, all
along a history of calls with a clock that does not go back, exactly when convergences
match records of their own destination only. -/
theorem audit_trail_connected :
    (∀ before after, calls = before ++ after →
      Told (run (call P) (empty localIdentity sequence) before)) ↔
    Along (call P) MatchesOwn (empty localIdentity sequence) calls := by
  constructor
  · intro htold
    induction calls using List.reverseRecOn with
    | nil => trivial
    | append_singleton before c ih =>
      rw [map_append] at hclock
      have hfront := (pairwise_append.mp hclock).1
      have halong := ih hfront fun front after heq => htold front (after ++ [c]) (by
        rw [heq, append_assoc])
      obtain ⟨now, htraced⟩ := traced_run P localIdentity sequence before hfront halong
      have hlast := htold (before ++ [c]) [] (append_nil _).symm
      rw [run_append] at hlast
      exact along_append.mpr ⟨halong, htraced.matchesOwn P hlast, trivial⟩
  · rintro hown before after rfl
    rw [map_append] at hclock
    obtain ⟨now, htraced⟩ := traced_run P localIdentity sequence before
      (pairwise_append.mp hclock).1 (along_append.mp hown).1
    exact htraced.told

end

/-- One message, accepted and sent on. -/
def firstDispatch : List CustodyCall :=
  [.acceptCustody (idleReading 1000) "alice" "bob" "m" [1] none none,
    .markDispatching (idleReading 2000) "bob" "m-1000-0" "peer_reconnect"]

theorem audit_trail_firstDispatch :
    (firstDispatch.map CustodyCall.now).Pairwise (· ≤ ·) ∧
      Along (call plainPlatform) MatchesOwn (empty none 0) firstDispatch ∧
      Connected ((run (call plainPlatform) (empty none 0) firstDispatch).transitionsForCustody
        "m-1000-0") := by
  have hclock : (firstDispatch.map CustodyCall.now).Pairwise (· ≤ ·) := by decide
  have hown : Along (call plainPlatform) MatchesOwn (empty none 0) firstDispatch :=
    ⟨trivial, trivial, trivial⟩
  exact ⟨hclock, hown, ((audit_trail_connected plainPlatform none 0 firstDispatch hclock).mpr hown
    firstDispatch [] rfl).1 "m-1000-0"⟩

/-- A message for `bob` whose id begins with `abc_`, and a convergence for `bob_abc`. -/
def strayConvergence : List CustodyCall :=
  [.acceptCustody (idleReading 1000) "alice" "bob" "abc_z" [1] none none,
    .convergeDeliveredForMessage (idleReading 2000) "bob_abc" "abc_z" "delivery_convergence_marker"]

/-- The log says that the message was delivered, the record is there as `Accepted`. -/
theorem delivered_record_still_live :
    let s := run (call plainPlatform) (empty none 0) strayConvergence
    (strayConvergence.map CustodyCall.now).Pairwise (· ≤ ·) ∧
      s.values.map (fun r => (r.custodyId, r.state)) = [("abc_z-1000-0", .accepted)] ∧
      (s.transitionsForCustody "abc_z-1000-0").map CustodyTransition.toState
        = [.accepted, .delivered] := by
  decide +kernel

end RelayCustodyStore

end Scm.Store
