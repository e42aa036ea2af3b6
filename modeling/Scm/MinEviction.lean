import Scm.Collections

/-!
# A cache that makes room by its least key

The keys of a cache of limited capacity, the latest stored in front. When a key too many is
there, `trim` takes out the least one in the order of the keys. That is the key stored first
exactly when that key is the least (`trimsEarliest_iff`).
-/

namespace Scm.MinEviction

open List Collections

variable {κ : Type} [DecidableEq κ]

section
variable (cap : Nat) (cmp : κ → κ → Ordering)

/-- Over the capacity, the least key goes. -/
def trim (keys : List κ) : List κ :=
  if keys.length > cap then
    match minBy cmp keys with
    | some least => keys.erase least
    | none => keys
  else keys

/-- What is taken out was stored first. -/
def TrimsEarliest (keys : List κ) : Prop :=
  ∀ key ∈ keys, key ∉ trim cap cmp keys → keys.getLast? = some key

/-- The key stored first is below the others. -/
def EarliestLeast (keys : List κ) : Prop :=
  ∀ earliest ∈ keys.getLast?, ∀ other ∈ keys, other ≠ earliest → cmp earliest other = .lt

end

variable {cap : Nat} {cmp : κ → κ → Ordering} {keys : List κ}

theorem trim_sublist : (trim cap cmp keys).Sublist keys := by
  unfold trim
  split
  · split
    · exact erase_sublist
    · exact List.Sublist.refl _
  · exact List.Sublist.refl _

theorem trim_of_le (h : keys.length ≤ cap) : trim cap cmp keys = keys :=
  if_neg (Nat.not_lt.mpr h)

theorem trim_of_lt (cmp : κ → κ → Ordering) (h : cap < keys.length) :
    ∃ least, minBy cmp keys = some least ∧ trim cap cmp keys = keys.erase least := by
  cases hmin : minBy cmp keys with
  | none =>
    rw [minBy_eq_none hmin, length_nil] at h
    omega
  | some least => simp_all [trim]

/-- One key too many, and there is one less. -/
theorem length_trim_le (h : keys.length ≤ cap + 1) : (trim cap cmp keys).length ≤ cap := by
  by_cases hover : cap < keys.length
  · obtain ⟨least, hmin, htrim⟩ := trim_of_lt cmp hover
    rw [htrim, length_erase_of_mem (minBy_mem hmin)]
    omega
  · rw [trim_of_le (by omega)]
    omega

/-- A key that comes in below all others to a full cache goes again. -/
theorem trim_cons_of_lt [Std.OrientedCmp cmp] {key : κ} (hfull : cap ≤ keys.length)
    (hbelow : ∀ other ∈ keys, cmp key other = .lt) : trim cap cmp (key :: keys) = keys := by
  have hover : cap < (key :: keys).length := Nat.lt_succ_of_le hfull
  obtain ⟨least, hmin, htrim⟩ := trim_of_lt cmp hover
  have hleast : least = key := by
    refine minBy_of_preferred (p := (· = key)) (key :: keys) ?_ ⟨key, mem_cons_self, rfl⟩ hmin
    rintro _ - rfl other hother hne
    have hlt := hbelow other ((mem_cons.mp hother).resolve_left hne)
    exact ⟨Std.OrientedCmp.gt_of_lt hlt, by rw [hlt]; nofun⟩
  rw [htrim, hleast, erase_cons_head]

/-- **When the least key is the oldest one.** -/
theorem trimsEarliest_iff [Std.TransCmp cmp] [Std.LawfulEqCmp cmp] (hnodup : keys.Nodup)
    (hover : cap < keys.length) : TrimsEarliest cap cmp keys ↔ EarliestLeast cmp keys := by
  obtain ⟨least, hmin, htrim⟩ := trim_of_lt cmp hover
  have hmem : least ∈ keys := minBy_mem hmin
  unfold TrimsEarliest EarliestLeast
  rw [htrim]
  constructor
  · intro h earliest hearliest other hother hne
    have hlast := h least hmem fun hleft => ((hnodup.mem_erase_iff).mp hleft).1 rfl
    obtain rfl : least = earliest := Option.some.inj (hlast.symm.trans hearliest)
    have hle := minBy_isLE hmin other hother
    cases hcmp : cmp least other with
    | lt => rfl
    | eq => exact absurd (Std.LawfulEqCmp.eq_of_compare hcmp).symm hne
    | gt => rw [hcmp] at hle; cases hle
  · intro h key hkey hgone
    obtain rfl : key = least := by grind
    cases hlast : keys.getLast? with
    | none => simp_all
    | some earliest =>
      by_contra hne
      have hne' : key ≠ earliest := fun heq => hne (congrArg some heq.symm)
      have hlt := h earliest hlast key hkey hne'
      have hle := minBy_isLE hmin earliest (List.mem_of_getLast? hlast)
      rw [Std.OrientedCmp.gt_of_lt hlt] at hle
      cases hle

end Scm.MinEviction
