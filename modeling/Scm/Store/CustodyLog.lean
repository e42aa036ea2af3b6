import Scm.Store.CustodySteps

/-!
# The audit log of the custody store

Every audit entry is written under a key that contains its sequence number, and
every entry draws a new number. So within one process no entry is ever overwritten
(`auditKey_sequence_inj`), and the log only grows: `log` lists it in the order of
writing, and `log_recordTransition` is what one more entry does to it. `Noted` is
the part of this that needs no history: what has been noted stays noted.

The same counter numbers the custody ids. `Sound` collects what that gives for a
store in one process run: the ids of records and log entries carry numbers already
drawn, and no two stored records share one.
-/

namespace Scm.Store

open List AList

/-! ## Keys -/

/-- The key an audit entry is written under. -/
def auditKey (t : CustodyTransition) : String :=
  "relay_custody_audit_" ++ padded 20 t.atMs ++ "_" ++ padded 6 t.sequence ++ "_" ++
    t.custodyId ++ "_" ++ t.toState.asStr

theorem toList_padded (width n : Nat) :
    (padded width n).toList
      = List.replicate (width - (toString n).length) '0' ++ Nat.toDigits 10 n := by
  rw [padded, String.toList_append, String.toList_ofList, Nat.toString_eq_repr, Nat.toList_repr]

theorem underscore_notMem_padded (width n : Nat) : '_' ∉ (padded width n).toList := by
  rw [toList_padded]
  intro hmem
  rcases mem_append.mp hmem with hzero | hdigit
  · exact absurd (eq_of_mem_replicate hzero) (by decide)
  · exact absurd (Nat.isDigit_of_mem_toDigits (by decide) (by decide) hdigit) (by decide)

variable {m n : Nat}

theorem padded_inj {width : Nat} (h : padded width n = padded width m) : n = m := by
  have hvalue : ∀ n, Nat.ofDigitChars 10 (padded width n).toList 0 = n := by
    intro n
    have hzeros : ∀ k, Nat.ofDigitChars 10 (List.replicate k '0') 0 = 0 := by
      intro k
      induction k with
      | zero => rfl
      | succ k ih => simp
    have hsplit : Nat.ofDigitChars 10 (padded width n).toList 0
        = Nat.ofDigitChars 10 (Nat.toDigits 10 n)
          (Nat.ofDigitChars 10 (List.replicate (width - (toString n).length) '0') 0) := by
      rw [toList_padded]
      exact foldl_append
    rw [hsplit, hzeros, Nat.ofDigitChars_ten_toDigits]
  rw [← hvalue n, h, hvalue m]

theorem toList_auditKey (t : CustodyTransition) :
    (auditKey t).toList = "relay_custody_audit_".toList ++ ((padded 20 t.atMs).toList ++ '_' ::
      ((padded 6 t.sequence).toList ++ '_' ::
        (t.custodyId ++ "_" ++ t.toState.asStr).toList)) := by
  have hseparator : ∀ rest, "_".toList ++ rest = '_' :: rest := fun _ => rfl
  unfold auditKey
  generalize "relay_custody_audit_" = lead
  simp only [String.toList_append, append_assoc]
  simp only [hseparator]

theorem auditKey_sequence_inj {t t' : CustodyTransition} (h : auditKey t = auditKey t') :
    t.sequence = t'.sequence := by
  have hlist := congrArg String.toList h
  rw [toList_auditKey, toList_auditKey] at hlist
  have hcut := append_cancel_left hlist
  have htail := (Collections.eq_of_cons_append_eq (underscore_notMem_padded 20 t.atMs)
    (underscore_notMem_padded 20 t'.atMs) hcut).2
  have hdigits := (Collections.eq_of_cons_append_eq (underscore_notMem_padded 6 t.sequence)
    (underscore_notMem_padded 6 t'.sequence) htail).1
  exact padded_inj (String.toList_inj.mp hdigits)

/-- A custody id made under the number `n`. -/
def Numbered (custodyId : String) (n : Nat) : Prop :=
  ∃ relayMessageId now, custodyId = formatCustodyId relayMessageId now n

theorem Numbered.inj {custodyId : String} (hn : Numbered custodyId n) (hm : Numbered custodyId m) :
    n = m := by
  obtain ⟨_, _, heq⟩ := hn
  obtain ⟨_, _, heq'⟩ := hm
  exact formatCustodyId_sequence_inj (heq.symm.trans heq')

/-- Records that could be taken for one another by key share their number. -/
theorem Numbered.of_messageKey_eq {d d' c c' : String} (hn : Numbered c n) (hm : Numbered c' m)
    (h : messageKey d c = messageKey d' c') : n = m := by
  obtain ⟨m₁, now₁, rfl⟩ := hn
  obtain ⟨m₂, now₂, rfl⟩ := hm
  -- both keys end in a custody id, of which only the last part matters
  have hkey : ∀ d m now k, messageKey d (formatCustodyId m now k)
      = formatCustodyId (destinationPrefix d ++ m) now k := by
    intro d m now k
    simp only [messageKey, formatCustodyId, String.append_assoc]
  rw [hkey, hkey] at h
  exact formatCustodyId_sequence_inj h

namespace RelayCustodyStore

/-! ## One more entry -/

/-- The entry `record_transition` writes. -/
def entry (s : RelayCustodyStore) (now : Nat) (r : CustodyMessage) (fromState : Option CustodyState)
    (toState : CustodyState) (reason : String) :
    CustodyTransition :=
  { custodyId := r.custodyId, relayMessageId := r.relayMessageId
    sourcePeerId := r.sourcePeerId, destinationPeerId := r.destinationPeerId
    fromState, toState, reason, atMs := now, sequence := s.registry.sequence }

section
variable {p : CustodyTransition → Prop} (s : RelayCustodyStore) (now : Nat) (r : CustodyMessage)
  (fromState : Option CustodyState) (toState : CustodyState) (reason : String)

theorem transitions_recordTransition :
    (s.recordTransition now r fromState toState reason).transitions
      = s.transitions.insert (auditKey (s.entry now r fromState toState reason))
        (s.entry now r fromState toState reason) := by
  unfold recordTransition auditKey entry
  rfl

/-- An entry with this property is in the log, under a number drawn before. -/
def Noted (p : CustodyTransition → Prop) (s : RelayCustodyStore) : Prop :=
  ∃ t, s.transitions.lookup (auditKey t) = some t ∧ t.sequence < s.registry.sequence ∧ p t

variable {s} in
theorem Noted.recordTransition (h : Noted p s) :
    Noted p (s.recordTransition now r fromState toState reason) := by
  obtain ⟨t, hlookup, hlt, hp⟩ := h
  refine ⟨t, ?_, Nat.lt_succ_of_lt hlt, hp⟩
  have hkey : auditKey t ≠ auditKey (s.entry now r fromState toState reason) := by
    intro heq
    have hsequence : t.sequence = s.registry.sequence := auditKey_sequence_inj heq
    omega
  rw [transitions_recordTransition, lookup_insert_ne hkey]
  exact hlookup

theorem noted_recordTransition (hp : p (s.entry now r fromState toState reason)) :
    Noted p (s.recordTransition now r fromState toState reason) := by
  refine ⟨s.entry now r fromState toState reason, ?_, Nat.lt_succ_self _, hp⟩
  rw [transitions_recordTransition, lookup_insert]

end

variable {r : CustodyMessage} {p : CustodyTransition → Prop} {k now : Nat}
  {s s' : RelayCustodyStore} {slack : Slack}

theorem Noted.of_transitions_eq (h : Noted p s) (htransitions : s'.transitions = s.transitions)
    (hsequence : s.registry.sequence ≤ s'.registry.sequence) : Noted p s' := by
  obtain ⟨t, hlookup, hlt, hp⟩ := h
  exact ⟨t, by rw [htransitions]; exact hlookup, hlt.trans_le hsequence, hp⟩

theorem Noted.removeMessage (h : Noted p s) (destination custodyId : String) :
    Noted p (s.removeMessage destination custodyId) :=
  h.of_transitions_eq rfl (Nat.le_refl _)

theorem Change.noted (h : Change now slack s s') (hs : Noted p s) : Noted p s' := by
  cases h with
  | shrink h =>
    cases h with
    | quiet _ htransitions hsequence => exact hs.of_transitions_eq htransitions hsequence
    | purge => exact hs.recordTransition ..
  | @move r r' reason =>
    have hput : Noted p (s.putMessage r') := hs.of_transitions_eq rfl (Nat.le_refl _)
    exact hput.recordTransition ..
  | deliver => exact hs.recordTransition ..
  | cut => exact hs.recordTransition ..

theorem Noted.mem_transitionsForCustody {custodyId : String}
    (h : Noted (fun t => t.custodyId = custodyId ∧ p t) s) :
    ∃ t ∈ s.transitionsForCustody custodyId, p t := by
  obtain ⟨t, hlookup, _, hid, hp⟩ := h
  refine ⟨t, ?_, hp⟩
  rw [transitionsForCustody, mem_insertionSort, mem_filter, decide_eq_true_iff]
  exact ⟨mem_map.mpr ⟨⟨_, t⟩, mem_lookup_iff.mp hlookup, rfl⟩, hid⟩

/-- The entry that a purge of `r` leaves. -/
def IsPurgeOf (r : CustodyMessage) (t : CustodyTransition) : Prop :=
  t.custodyId = r.custodyId ∧ t.fromState = some r.state ∧ t.toState = r.state ∧
    ∃ cause, t.reason = cause ++ "_purged"

theorem Noted.mem_transitions_of_isPurgeOf (h : Noted (IsPurgeOf r) s) :
    ∃ t ∈ s.transitionsForCustody r.custodyId, IsPurgeOf r t := by
  obtain ⟨t, hlookup, hlt, ht⟩ := h
  have hid : Noted (fun t => t.custodyId = r.custodyId ∧ IsPurgeOf r t) s :=
    ⟨t, hlookup, hlt, ht.1, ht⟩
  exact hid.mem_transitionsForCustody

theorem Shrinks.lookup_of_lookup (h : Shrinks now s s') {key : String}
    (hr : s'.messages.lookup key = some r) :
    s.messages.lookup key = some r := by
  induction h with
  | refl => exact hr
  | tail _ hstep ih =>
    refine ih ?_
    cases hstep with
    | quiet hmessages => rwa [hmessages] at hr
    | @purge purged reason hstored =>
      rw [messages_removeMessage, messages_recordTransition] at hr
      by_cases hkey : key = messageKey purged.destinationPeerId purged.custodyId
      · rw [hkey, lookup_erase] at hr
        cases hr
      · rwa [lookup_erase_ne hkey] at hr

/-- A chain of purges leaves a record as it is or notes that it is gone. -/
theorem Shrinks.kept_or_noted (h : Shrinks now s s') {key : String}
    (hr : s.messages.lookup key = some r) :
    s'.messages.lookup key = some r ∨ Noted (IsPurgeOf r) s' := by
  induction h with
  | refl => exact .inl hr
  | tail _ hstep ih =>
    rcases ih with hkept | hnoted
    · cases hstep with
      | quiet hmessages => exact .inl (by rw [hmessages]; exact hkept)
      | @purge purged reason hstored =>
        by_cases hkey : key = messageKey purged.destinationPeerId purged.custodyId
        · rw [hkey] at hkept
          cases hkept.symm.trans hstored
          refine .inr ?_
          exact noted_recordTransition _ now r _ _ _ ⟨rfl, rfl, rfl, reason, rfl⟩
        · simp_all
    · have hchange : Change now .strict _ _ := .shrink hstep
      exact .inr (hchange.noted hnoted)

/-! ## The log as a list -/

/-- The audit log, oldest entry first. -/
def log (s : RelayCustodyStore) : List CustodyTransition :=
  (s.transitions.entries.map Sigma.snd).reverse

/-- Entries lie under their own keys and carry numbers already drawn. -/
def Audited (s : RelayCustodyStore) : Prop :=
  ∀ key t, s.transitions.lookup key = some t → key = auditKey t ∧ t.sequence < s.registry.sequence

theorem log_of_transitions_eq (h : s'.transitions = s.transitions) :
    s'.log = s.log := by
  rw [log, log, h]

theorem mem_log {t : CustodyTransition} :
    t ∈ s.log ↔ ∃ key, s.transitions.lookup key = some t := by
  rw [log, mem_reverse, mem_map]
  constructor
  · rintro ⟨⟨key, _⟩, hmem, rfl⟩
    exact ⟨key, mem_lookup_iff.mpr hmem⟩
  · rintro ⟨key, hkey⟩
    exact ⟨⟨key, t⟩, mem_lookup_iff.mp hkey, rfl⟩

theorem Audited.of_transitions_eq (h : Audited s) (htransitions : s'.transitions = s.transitions)
    (hsequence : s.registry.sequence ≤ s'.registry.sequence) : Audited s' := by
  intro key t ht
  rw [htransitions] at ht
  exact ⟨(h key t ht).1, (h key t ht).2.trans_le hsequence⟩

section
variable (h : Audited s) (now : Nat) (r : CustodyMessage) (fromState : Option CustodyState)
  (toState : CustodyState) (reason : String)
include h

theorem Audited.recordTransition :
    Audited (s.recordTransition now r fromState toState reason) := by
  intro key t ht
  rw [transitions_recordTransition] at ht
  by_cases hkey : key = auditKey (s.entry now r fromState toState reason)
  · rw [hkey, lookup_insert] at ht
    cases ht
    exact ⟨hkey, Nat.lt_succ_self _⟩
  · rw [lookup_insert_ne hkey] at ht
    exact ⟨(h key t ht).1, Nat.lt_succ_of_lt (h key t ht).2⟩

theorem Audited.log_recordTransition :
    (s.recordTransition now r fromState toState reason).log
      = s.log ++ [s.entry now r fromState toState reason] := by
  have hfresh : auditKey (s.entry now r fromState toState reason) ∉ s.transitions := by
    intro hmem
    obtain ⟨t, ht⟩ := Option.isSome_iff_exists.mp (lookup_isSome.mpr hmem)
    obtain ⟨hkey, hlt⟩ := h _ t ht
    have hsequence : s.registry.sequence = t.sequence := auditKey_sequence_inj hkey
    omega
  rw [log, transitions_recordTransition, entries_insert_of_notMem hfresh, map_cons,
    reverse_cons]
  rfl

end

theorem Audited.log_enter (h : Audited s) (now : Nat) (message : CustodyMessage) (reason : String) :
    (s.enter now message reason).log
      = s.log ++ [(s.putMessage message).entry now message none .accepted reason] :=
  (h.of_transitions_eq rfl (Nat.le_refl _)).log_recordTransition ..

section
variable (h : Audited s) (now : Nat) (q : CustodyMessage)
  (fromState : Option CustodyState) (toState : CustodyState) (reason dest custodyId : String)
include h

theorem Audited.deliver :
    Audited ((s.recordTransition now q fromState toState reason).removeMessage dest custodyId) :=
  (h.recordTransition now q fromState toState reason).of_transitions_eq rfl (Nat.le_refl _)

theorem Audited.log_deliver :
    ((s.recordTransition now q fromState toState reason).removeMessage dest custodyId).log
      = s.log ++ [s.entry now q fromState toState reason] :=
  h.log_recordTransition now q fromState toState reason

end

/-- Every undelivered match of a convergence is noted, whatever its destination. -/
theorem log_convergeLoop (now : Nat) (destination reason : String) (records : List CustodyMessage) :
    ∀ (converged : Nat) (s : RelayCustodyStore), Audited s →
      ∃ more, (convergeLoop now destination reason records converged s).2.log = s.log ++ more ∧
        ∀ r ∈ records, r.state ≠ .delivered →
          ∃ t ∈ more, t.custodyId = r.custodyId ∧ t.destinationPeerId = r.destinationPeerId ∧
            t.toState = .delivered := by
  induction records with
  | nil => exact fun _ s _ => ⟨[], by simp [convergeLoop], by simp⟩
  | cons record records ih =>
    intro converged s haudited
    unfold convergeLoop
    split
    next hstate =>
      obtain ⟨more, hlog, hall⟩ := ih converged s haudited
      refine ⟨more, hlog, fun r hr hundelivered => ?_⟩
      rcases mem_cons.mp hr with rfl | hr
      · exact absurd hstate hundelivered
      · exact hall r hr hundelivered
    obtain ⟨more, hlog, hall⟩ := ih (converged + 1) _ (haudited.deliver now
      { record with state := .delivered, updatedAtMs := now } (some record.state) .delivered reason
      destination record.custodyId)
    refine ⟨s.entry now { record with state := .delivered, updatedAtMs := now }
      (some record.state) .delivered reason :: more, ?_, fun r hr hundelivered => ?_⟩
    · rw [hlog, haudited.log_deliver, append_assoc, singleton_append]
    · rcases mem_cons.mp hr with rfl | hr
      · exact ⟨_, mem_cons_self, rfl, rfl, rfl⟩
      · grind

/-! ## One process run -/

/-- The custody ids of records and log carry numbers below `k`. -/
structure Below (k : Nat) (s : RelayCustodyStore) : Prop where
  stored : ∀ r ∈ s.values, ∃ n < k, Numbered r.custodyId n
  logged : ∀ t ∈ s.log, ∃ n < k, Numbered t.custodyId n

/-- What holds of a store as long as the process runs. -/
structure Sound (s : RelayCustodyStore) : Prop where
  keyed : Keyed s
  audited : Audited s
  below : Below s.registry.sequence s
  unique : ∀ r ∈ s.values, ∀ r' ∈ s.values, ∀ n, Numbered r.custodyId n →
    Numbered r'.custodyId n → r = r'

theorem Below.mono {k' : Nat} (h : Below k s) (hle : k ≤ k') :
    Below k' s := by
  constructor
  · intro r hr
    obtain ⟨n, hn, hnumbered⟩ := h.stored r hr
    exact ⟨n, hn.trans_le hle, hnumbered⟩
  · intro t ht
    obtain ⟨n, hn, hnumbered⟩ := h.logged t ht
    exact ⟨n, hn.trans_le hle, hnumbered⟩

theorem Sound.unique_id (h : Sound s) {r' : CustodyMessage} (hr : r ∈ s.values)
    (hr' : r' ∈ s.values) (hid : r.custodyId = r'.custodyId) : r = r' := by
  obtain ⟨n, _, hn⟩ := h.below.stored r hr
  exact h.unique r hr r' hr' n hn (hid ▸ hn)

/-- What lies under a key that ends in the id of a stored record is that record. -/
theorem Sound.eq_of_lookup (h : Sound s) {found : CustodyMessage} {destination : String}
    (hr : r ∈ s.values)
    (hfound : s.messages.lookup (messageKey destination r.custodyId) = some found) : found = r := by
  have hmem := mem_values_of_lookup hfound
  obtain ⟨n, _, hn⟩ := h.below.stored r hr
  obtain ⟨m, _, hm⟩ := h.below.stored found hmem
  have hnm : n = m := hn.of_messageKey_eq hm (h.keyed _ _ hfound)
  exact h.unique found hmem r hr n (hnm ▸ hm) hn

section
variable (h : Change now slack s s')
include h

theorem Change.sequence_le :
    s.registry.sequence ≤ s'.registry.sequence := by
  cases h with
  | shrink h =>
    cases h with
    | quiet _ _ hsequence => exact hsequence
    | purge => exact Nat.le_succ _
  | move => exact Nat.le_succ _
  | deliver => exact Nat.le_succ _
  | cut => exact Nat.le_succ _

theorem Change.audited (hs : Audited s) : Audited s' := by
  cases h with
  | shrink h =>
    cases h with
    | quiet _ htransitions hsequence => exact hs.of_transitions_eq htransitions hsequence
    | purge => exact hs.recordTransition _ _ _ _ _
  | @move r r' reason =>
    have hput : Audited (s.putMessage r') := hs.of_transitions_eq rfl (Nat.le_refl _)
    exact hput.recordTransition _ _ _ _ _
  | deliver => exact hs.recordTransition _ _ _ _ _
  | cut => exact hs.recordTransition _ _ _ _ _

theorem Change.log_eq (hs : Audited s) (hslack : slack ≠ .loose) :
    s'.log = s.log ∨ ∃ r ∈ s.values, ∃ t, t.custodyId = r.custodyId ∧ s'.log = s.log ++ [t] := by
  cases h with
  | shrink h =>
    cases h with
    | quiet _ htransitions => exact .inl (log_of_transitions_eq htransitions)
    | purge reason hstored =>
      exact .inr ⟨_, mem_values_of_lookup hstored, _, rfl, hs.log_recordTransition ..⟩
  | @move r r' reason hstored hmoves =>
    have hput : Audited (s.putMessage r') := hs.of_transitions_eq rfl (Nat.le_refl _)
    exact .inr ⟨r, mem_values_of_lookup hstored, _, hmoves.same.custodyId,
      hput.log_recordTransition ..⟩
  | deliver destination custodyId reason hstored =>
    exact .inr ⟨_, mem_values_of_lookup hstored, _, rfl, hs.log_recordTransition ..⟩
  | @cut r destination reason hpermits =>
    cases slack with
    | strict => exact hpermits.elim
    | tidy => exact .inr ⟨r, hpermits.2, _, rfl, hs.log_recordTransition ..⟩
    | loose => exact absurd rfl hslack

theorem Change.below (hs : Audited s) (hslack : slack ≠ .loose) (hbelow : Below k s) :
    Below k s' := by
  constructor
  · intro r' hr'
    obtain ⟨key, hkey⟩ := mem_values_iff_lookup.mp hr'
    obtain ⟨r, hr, hsame, _⟩ := h.within.origin key r' hkey
    rw [hsame.custodyId]
    exact hbelow.stored r (mem_values_of_lookup hr)
  · intro t ht
    rcases h.log_eq hs hslack with hlog | ⟨r, hr, entry, hid, hlog⟩
    · exact hbelow.logged t (hlog ▸ ht)
    · rw [hlog] at ht
      rcases mem_append.mp ht with hold | hnew
      · exact hbelow.logged t hold
      · rw [mem_singleton.mp hnew, hid]
        exact hbelow.stored r hr

theorem Change.sound (hslack : slack ≠ .loose) (hs : Sound s) :
    Sound s' := by
  have hkeyed := h.within.keyed hs.keyed
  refine ⟨hkeyed, h.audited hs.audited,
    (h.below hs.audited hslack hs.below).mono h.sequence_le, fun r₁ h₁ r₂ h₂ n hn₁ hn₂ => ?_⟩
  obtain ⟨q₁, hq₁, hsame₁, _⟩ := h.within.origin r₁.key r₁ (hkeyed.lookup h₁)
  obtain ⟨q₂, hq₂, hsame₂, _⟩ := h.within.origin r₂.key r₂ (hkeyed.lookup h₂)
  have hq : q₁ = q₂ := hs.unique q₁ (mem_values_of_lookup hq₁) q₂ (mem_values_of_lookup hq₂) n
    (hsame₁.custodyId ▸ hn₁) (hsame₂.custodyId ▸ hn₂)
  exact hkeyed.eq_of_key_eq h₁ h₂ (by rw [hsame₁.key, hsame₂.key, hq])

end

section
variable (h : Changes now slack s s') (hslack : slack ≠ .loose) (hs : Sound s)
include h hslack hs

theorem Changes.sound : Sound s' := by
  induction h with
  | refl => exact hs
  | tail _ hstep ih => exact hstep.sound hslack ih

theorem Changes.below (hbelow : Below k s) : Below k s' := by
  induction h with
  | refl => exact hbelow
  | tail hchain hstep ih =>
    exact hstep.below (Changes.sound hchain hslack hs).audited hslack ih

end

/-! ## Calls in one process run -/

theorem Sound.nodup_custodyIds (h : Sound s) :
    (s.values.map CustodyMessage.custodyId).Nodup := by
  have hvalues : s.values.Nodup := List.Nodup.of_map CustodyMessage.key h.keyed.stocked.nodup
  exact hvalues.map_on fun r hr r' hr' hid => h.unique_id hr hr' hid

theorem matching_sublist (s : RelayCustodyStore) (destination relayMessageId : String) :
    (s.matching destination relayMessageId).Sublist s.values :=
  filter_sublist.trans (filter_sublist.map _)

/-- A convergence notes a delivery for stored records only, and what it removes for a
record is that record, if anything. Where all matches are of the destination it names,
nothing is noted without being removed. -/
theorem Sound.changes_converge (h : Sound s) (env : Reading)
    (destination relayMessageId reason : String)
    (hown : slack = .strict →
      ∀ r ∈ s.matching destination relayMessageId, r.destinationPeerId = destination) :
    Changes env.now slack s
      (s.convergeDeliveredForMessage env destination relayMessageId reason).2 := by
  have hsub := s.matching_sublist destination relayMessageId
  refine changes_convergeLoop env.now destination reason _ 0 s h.keyed
    (h.nodup_custodyIds.sublist (hsub.map _)) fun r hr => ⟨hsub.subset hr, ?_⟩
  cases hfound : s.messages.lookup (messageKey destination r.custodyId) with
  | some found => exact .inl (congrArg some (h.eq_of_lookup (hsub.subset hr) hfound))
  | none =>
    refine .inr ⟨rfl, fun hstrict => ?_⟩
    have hlookup := h.keyed.lookup (hsub.subset hr)
    rw [CustodyMessage.key, hown hstrict r hr, hfound] at hlookup
    cases hlookup

/-- A new record, under a number that no record and no entry carries. -/
theorem Sound.enter {t : RelayCustodyStore} (h : Sound t) {n : Nat} (hbelow : Below n t)
    (hdrawn : n < t.registry.sequence) (now : Nat) {message : CustodyMessage}
    (hnumbered : Numbered message.custodyId n) (reason : String) :
    Sound (t.enter now message reason) := by
  have hput : Audited (t.putMessage message) := h.audited.of_transitions_eq rfl (Nat.le_refl _)
  have hlog := h.audited.log_enter now message reason
  have hsequence : t.registry.sequence ≤ (t.enter now message reason).registry.sequence :=
    Nat.le_succ _
  refine ⟨h.keyed.enter now message reason, hput.recordTransition _ _ _ _ _, ⟨?_, ?_⟩, ?_⟩
  · intro r hr
    rcases mem_values_enter hr with rfl | hold
    · exact ⟨n, hdrawn.trans_le hsequence, hnumbered⟩
    · obtain ⟨k, hk, hrk⟩ := hbelow.stored r hold
      exact ⟨k, (hk.trans hdrawn).trans_le hsequence, hrk⟩
  · intro entry hentry
    rw [hlog] at hentry
    rcases mem_append.mp hentry with hold | hnew
    · obtain ⟨k, hk, hrk⟩ := hbelow.logged entry hold
      exact ⟨k, (hk.trans hdrawn).trans_le hsequence, hrk⟩
    · rw [mem_singleton.mp hnew]
      exact ⟨n, hdrawn.trans_le hsequence, hnumbered⟩
  · -- a stored record has a number below `n`, the new one has `n`
    have hclash : ∀ r ∈ t.values, ∀ k, Numbered r.custodyId k → ¬ Numbered message.custodyId k := by
      intro r hr k hrk hmk
      obtain ⟨k', hk', hrk'⟩ := hbelow.stored r hr
      have hrn := hrk.inj hrk'
      have hmn := hmk.inj hnumbered
      omega
    intro r hr r' hr' k hrk hrk'
    rcases mem_values_enter hr with rfl | hold
    · grind [mem_values_enter]
    · rcases mem_values_enter hr' with rfl | hold'
      · exact absurd hrk' (hclash r hold k hrk)
      · exact h.unique r hold r' hold' k hrk hrk'

theorem sound_empty (localIdentity : Option String) (sequence : Nat) :
    Sound (empty localIdentity sequence) :=
  ⟨fun _ _ h => (Option.some_ne_none _ h.symm).elim,
    fun _ _ h => (Option.some_ne_none _ h.symm).elim,
    ⟨fun _ h => absurd h not_mem_nil, fun _ h => absurd h not_mem_nil⟩,
    fun _ h => absurd h not_mem_nil⟩

/-- A convergence that the call is finds only records of the destination it names. -/
def MatchesOwn (s : RelayCustodyStore) : CustodyCall → Prop
  | .convergeDeliveredForMessage _ destination relayMessageId _ =>
    ∀ r ∈ s.matching destination relayMessageId, r.destinationPeerId = destination
  | _ => True

section
variable (slack : Slack) (h : Sound s) (P : Platform)
include h

theorem Sound.changes_call {c : CustodyCall} (haccept : ¬ c.IsAcceptance)
    (hslack : slack = .strict → MatchesOwn s c) : Changes c.now slack s (s.call P c) := by
  refine RelayCustodyStore.changes_call h.keyed P c haccept
    fun env destination relayMessageId reason heq => ?_
  refine h.changes_converge env destination relayMessageId reason fun hstrict => ?_
  have hmatches := hslack hstrict
  rw [heq] at hmatches
  exact hmatches

/-- A call is a chain of changes, or it brings in a record under a new number. -/
theorem Sound.call_cases (c : CustodyCall) (hslack : slack = .strict → MatchesOwn s c) :
    Changes c.now slack s (s.call P c) ∨
    ∃ n t message reason, Shrinks c.now s t ∧ s.registry.sequence ≤ n ∧ n < t.registry.sequence ∧
      Numbered message.custodyId n ∧ message.state = .accepted ∧ message.deliveryAttempts = 0 ∧
      s.call P c = t.enter c.now message reason := by
  by_cases haccept : c.IsAcceptance
  · cases c with
    | acceptCustody env source destination relayMessageId data identityId deviceId =>
      rcases acceptCustody_cases P env source destination relayMessageId data identityId deviceId
        h.keyed with ⟨existing, _, hout⟩ | ⟨_, e, t, hshrinks, hout⟩ |
          ⟨_, _, n, t, reason, hshrinks, hle, hlt, hout⟩
      · refine .inl ?_
        show Changes env.now slack s (s.acceptCustody P env source destination relayMessageId data
          identityId deviceId).2
        rw [hout]
      · refine .inl ?_
        show Changes env.now slack s (s.acceptCustody P env source destination relayMessageId data
          identityId deviceId).2
        rw [hout]
        exact hshrinks.changes
      · exact .inr ⟨n, t, _, reason, hshrinks, hle, hlt, ⟨relayMessageId, env.now, rfl⟩, rfl, rfl,
          congrArg Prod.snd hout⟩
    | _ => exact haccept.elim
  · exact .inl (h.changes_call slack P haccept hslack)

theorem Sound.call (c : CustodyCall) : Sound (s.call P c) := by
  rcases h.call_cases .tidy P c nofun with hchanges | ⟨n, t, message, reason, hshrinks,
    hle, hlt, hnumbered, _, _, hcall⟩
  · exact hchanges.sound nofun h
  · have hchanges : Changes c.now .tidy s t := hshrinks.changes
    rw [hcall]
    exact (hchanges.sound nofun h).enter
      ((hchanges.below nofun h h.below).mono hle) hlt c.now hnumbered reason

end

end RelayCustodyStore

end Scm.Store
