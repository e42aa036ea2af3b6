import Mathlib.Data.List.Induction

/-!
# Hash chains

Entries that each name the hash of the one before, from an anchor on: `Linked`. The chain ends in
`endHash`, the hash the next entry has to name, so a chain is taken apart and extended at any
point (`linked_append`) and loses a front without harm when the anchor moves along.

Where no two entries collide, a chain is determined by its two ends and its length
(`eq_of_endHash_eq`). So two chains from one anchor run together, and once they have parted they
never meet again in the same place (`exists_parting`).
-/

namespace Scm.HashChain

open List

variable {E H : Type} (hash prev : E → H)

/-- Each entry names the hash of the one before, the first one the anchor. -/
def Linked : H → List E → Prop
  | _, [] => True
  | anchor, entry :: entries => prev entry = anchor ∧ Linked (hash entry) entries

/-- The hash of the last entry, or the anchor. -/
def endHash (anchor : H) (entries : List E) : H := entries.foldl (fun _ entry => hash entry) anchor

@[simp] theorem endHash_nil (anchor : H) : endHash hash anchor [] = anchor := rfl

@[simp] theorem endHash_cons (anchor : H) (entry : E) (entries : List E) :
    endHash hash anchor (entry :: entries) = endHash hash (hash entry) entries := rfl

theorem endHash_append (anchor : H) (front back : List E) :
    endHash hash anchor (front ++ back) = endHash hash (endHash hash anchor front) back :=
  foldl_append

theorem endHash_concat (anchor : H) (front : List E) (entry : E) :
    endHash hash anchor (front ++ [entry]) = hash entry := endHash_append hash anchor front [entry]

theorem linked_append {front back : List E} : ∀ {anchor : H},
    Linked hash prev anchor (front ++ back) ↔
      Linked hash prev anchor front ∧ Linked hash prev (endHash hash anchor front) back := by
  induction front with
  | nil => exact fun {anchor} => ⟨fun h => ⟨trivial, h⟩, fun h => h.2⟩
  | cons entry front ih => exact fun {anchor} => (and_congr_right fun _ => ih).trans and_assoc.symm

theorem linked_concat {front : List E} {entry : E} {anchor : H} :
    Linked hash prev anchor (front ++ [entry]) ↔
      Linked hash prev anchor front ∧ prev entry = endHash hash anchor front := by
  rw [linked_append]
  exact and_congr_right fun _ => and_iff_left trivial

section
variable {anchor : H} {chain other : List E}
  (hinj : ∀ entry ∈ chain, ∀ entry' ∈ other, hash entry = hash entry' → entry = entry')
  (hchain : Linked hash prev anchor chain) (hother : Linked hash prev anchor other)
include hinj hchain hother

/-- Two chains of the same length with the same ends are the same. -/
theorem eq_of_endHash_eq (hlen : chain.length = other.length)
    (hend : endHash hash anchor chain = endHash hash anchor other) : chain = other := by
  -- from the end, where the hashes agree, back to the anchor
  induction chain using List.reverseRecOn generalizing other with
  | nil => exact (eq_nil_of_length_eq_zero hlen.symm).symm
  | append_singleton front entry ih =>
    rcases eq_nil_or_concat other with rfl | ⟨front', entry', hconcat⟩
    · grind
    · rw [concat_eq_append] at hconcat
      subst hconcat
      rw [endHash_concat, endHash_concat] at hend
      have hsame : entry = entry' := hinj entry (by simp) entry' (by simp) hend
      obtain ⟨hfront, hentry⟩ := (linked_concat hash prev).mp hchain
      obtain ⟨hfront', hentry'⟩ := (linked_concat hash prev).mp hother
      have hfronts : front = front' := by
        refine ih (fun x hx y hy => hinj x (by simp [hx]) y (by simp [hy])) hfront hfront' ?_ ?_
        · simpa using hlen
        · rw [← hentry, ← hentry', hsame]
      rw [hfronts, hsame]

/-- Chains that agree in one place agree up to it. -/
theorem take_eq_of_getElem?_eq {i : Nat} {entry : E} (hi : chain[i]? = some entry)
    (hi' : other[i]? = some entry) : chain.take (i + 1) = other.take (i + 1) := by
  have htake : ∀ l : List E, l[i]? = some entry → l.take (i + 1) = l.take i ++ [entry] :=
    fun l hl => by rw [take_add_one, hl]; rfl
  have hlinked : ∀ l : List E, Linked hash prev anchor l →
      Linked hash prev anchor (l.take (i + 1)) := by grind [linked_append, take_append_drop]
  refine eq_of_endHash_eq hash prev ?_ (hlinked chain hchain) (hlinked other hother) ?_ ?_
  · exact fun x hx y hy => hinj x (mem_of_mem_take hx) y (mem_of_mem_take hy)
  · grind
  · rw [htake chain hi, htake other hi', endHash_concat, endHash_concat]

end

/-- Two chains from one anchor run together, and part for good. -/
theorem exists_parting {chain : List E} : ∀ {anchor : H} {other : List E},
    (∀ entry ∈ chain, ∀ entry' ∈ other, hash entry = hash entry' → entry = entry') →
    Linked hash prev anchor chain → Linked hash prev anchor other →
    ∃ kept cut added : List E, chain = kept ++ cut ∧ other = kept ++ added ∧
      ∀ (i : Nat) (entry : E), cut[i]? = some entry → added[i]? ≠ some entry := by
  induction chain with
  | nil => exact fun {_ other} _ _ _ => ⟨[], [], other, rfl, rfl, fun _ _ h => nomatch h⟩
  | cons first chain ih =>
    intro anchor other hinj hchain hother
    cases other with
    | nil => exact ⟨[], first :: chain, [], rfl, rfl, fun _ _ _ h => nomatch h⟩
    | cons first' other =>
      by_cases hfirst : first = first'
      · subst hfirst
        obtain ⟨kept, cut, added, hcut, hadded, happart⟩ := ih
          (fun x hx y hy => hinj x (mem_cons_of_mem _ hx) y (mem_cons_of_mem _ hy))
          hchain.2 hother.2
        exact ⟨first :: kept, cut, added, by rw [hcut, cons_append],
          by rw [hadded, cons_append], happart⟩
      · refine ⟨[], first :: chain, first' :: other, rfl, rfl, fun i entry hi hi' => hfirst ?_⟩
        have htake := take_eq_of_getElem?_eq hash prev hinj hchain hother hi hi'
        exact (List.cons.inj htake).1

end Scm.HashChain
