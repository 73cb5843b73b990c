import BftCore.Lib.UInt64
import Mathlib

/-!
# Entries in key order

A key-value bucket that keeps its entries in increasing order of their `UInt64` keys, as a B+
tree bucket does: `put` replaces the entry of a key or inserts one in order, and `lastAtMost` is
the entry a cursor walking back from the last one meets first with a key at most a bound.

`lastAtMost_eq_some_iff` says which entry that is, as a split of the list; over entries whose keys
increase it is the one of the largest key at most the bound (`lastAtMost_greatest`), it moves
forward as the bound grows (`lastAtMost_mono`), and by at most one entry when the bound grows by
one (`lastAtMost_succ`).
-/

namespace KeyedList

variable {β : Type}

/-- `Put`: replaces the entry of `k`, or inserts one in key order. -/
def put (k : UInt64) (v : β) : List (UInt64 × β) → List (UInt64 × β)
  | [] => [(k, v)]
  | e :: es => if k < e.1 then (k, v) :: e :: es else if k = e.1 then (k, v) :: es else e :: put k v es

/-- The entry a cursor walking back from the last one meets first with a key at most `r`. -/
def lastAtMost (r : UInt64) (es : List (UInt64 × β)) : Option (UInt64 × β) :=
  es.reverse.find? fun e => e.1 ≤ r

/-- An entry whose key is larger than all goes at the end. -/
theorem put_of_lt {k : UInt64} {v : β} :
    ∀ {es : List (UInt64 × β)}, (∀ e ∈ es, e.1 < k) → put k v es = es ++ [(k, v)]
  | [], _ => rfl
  | e :: es, h => by
    have hlt := h e List.mem_cons_self
    have hne : k ≠ e.1 := fun heq => UInt64.lt_irrefl _ (heq ▸ hlt)
    rw [put, if_neg (UInt64.not_lt.mpr (UInt64.le_of_lt hlt)), if_neg hne,
      put_of_lt fun d hd => h d (List.mem_cons_of_mem _ hd)]
    rfl

/-- The cursor stops at the last entry with a key at most `r`. -/
theorem lastAtMost_eq_some_iff {r : UInt64} {es : List (UInt64 × β)} {e : UInt64 × β} :
    lastAtMost r es = some e ↔ ∃ pre post, es = pre ++ e :: post ∧ e.1 ≤ r ∧ ∀ d ∈ post, r < d.1 := by
  rw [lastAtMost, List.find?_eq_some_iff_append]
  constructor
  · rintro ⟨he, as, bs, hrev, has⟩
    refine ⟨bs.reverse, as.reverse, ?_, by simpa using he, fun d hd => ?_⟩
    · simpa using congrArg List.reverse hrev
    · simpa using has d (List.mem_reverse.mp hd)
  · rintro ⟨pre, post, rfl, he, hpost⟩
    refine ⟨by simpa using he, post.reverse, pre.reverse, by simp, fun d hd => ?_⟩
    simpa using hpost d (List.mem_reverse.mp hd)

/-- The cursor finds nothing when every key is above `r`. -/
theorem lastAtMost_eq_none_iff {r : UInt64} {es : List (UInt64 × β)} :
    lastAtMost r es = none ↔ ∀ e ∈ es, r < e.1 := by
  rw [lastAtMost, List.find?_eq_none]
  simp

theorem mem_of_lastAtMost {r : UInt64} {es : List (UInt64 × β)} {e : UInt64 × β}
    (h : lastAtMost r es = some e) : e ∈ es ∧ e.1 ≤ r := by
  obtain ⟨pre, post, rfl, he, -⟩ := lastAtMost_eq_some_iff.mp h
  exact ⟨by simp, he⟩

/-- With the largest bound the cursor stops at the last entry. -/
theorem lastAtMost_max (es : List (UInt64 × β)) :
    lastAtMost 18446744073709551615 es = es.getLast? := by
  rcases List.eq_nil_or_concat es with rfl | ⟨pre, e, rfl⟩
  · rfl
  · have hle : e.1 ≤ 18446744073709551615 := by
      rw [UInt64.le_iff_toNat_le]
      have := e.1.toNat_lt
      simp only [UInt64.reduceToNat]
      omega
    rw [List.concat_eq_append, List.getLast?_concat]
    exact lastAtMost_eq_some_iff.mpr ⟨pre, [], rfl, hle, fun d hd => absurd hd List.not_mem_nil⟩

/-- Every member of a list related pairwise is its last one or related to it. -/
theorem eq_or_rel_getLast {γ : Type} {R : γ → γ → Prop} {l : List γ} (hl : l.Pairwise R)
    {last : γ} (hlast : l.getLast? = some last) : ∀ d ∈ l, d = last ∨ R d last := by
  obtain ⟨ys, rfl⟩ := List.getLast?_eq_some_iff.mp hlast
  intro d hd
  rcases List.mem_append.mp hd with hd | hd
  · exact .inr (hl.rel_of_mem_append hd (List.mem_singleton_self _))
  · exact .inl (List.mem_singleton.mp hd)

/-- Two members of a list related pairwise are equal or related one way or the other. -/
theorem eq_or_rel_of_pairwise {γ : Type} {R : γ → γ → Prop} :
    ∀ {l : List γ}, l.Pairwise R → ∀ {a b : γ}, a ∈ l → b ∈ l → a = b ∨ R a b ∨ R b a
  | [], _, _, _, ha, _ => absurd ha List.not_mem_nil
  | x :: l, hl, a, b, ha, hb => by
    rw [List.pairwise_cons] at hl
    rcases List.mem_cons.mp ha with hax | hal
    · rcases List.mem_cons.mp hb with hbx | hbl
      · exact .inl (hax.trans hbx.symm)
      · exact .inr (.inl (hax ▸ hl.1 b hbl))
    · rcases List.mem_cons.mp hb with hbx | hbl
      · exact .inr (.inr (hbx ▸ hl.1 a hal))
      · exact eq_or_rel_of_pairwise hl.2 hal hbl

section Sorted

variable {R : β → β → Prop} {es : List (UInt64 × β)}

/-- In entries whose keys increase, a key names one entry. -/
theorem eq_of_key_eq (hs : es.Pairwise fun a b => a.1 < b.1) {e e' : UInt64 × β} (he : e ∈ es)
    (he' : e' ∈ es) (hkey : e.1 = e'.1) : e = e' := by
  rcases eq_or_rel_of_pairwise hs he he' with h | h | h
  · exact h
  · exact absurd (hkey ▸ h) (UInt64.lt_irrefl _)
  · exact absurd (hkey ▸ h) (UInt64.lt_irrefl _)

/-- In entries whose keys increase, the cursor finds the entry of the largest key at most `r`. -/
theorem lastAtMost_greatest (hs : es.Pairwise fun a b => a.1 < b.1) {r : UInt64}
    {e : UInt64 × β} (h : lastAtMost r es = some e) : ∀ d ∈ es, d.1 ≤ r → d.1 ≤ e.1 := by
  obtain ⟨pre, post, rfl, -, hpost⟩ := lastAtMost_eq_some_iff.mp h
  intro d hd hdr
  rcases List.mem_append.mp hd with hd | hd
  · exact UInt64.le_of_lt (hs.rel_of_mem_append hd List.mem_cons_self)
  · rcases List.mem_cons.mp hd with rfl | hd
    · exact UInt64.le_refl _
    · exact absurd hdr (UInt64.not_le.mpr (hpost d hd))

/-- In entries whose keys increase and whose values are related in key order, a larger bound
finds the same entry or a later one. -/
theorem lastAtMost_mono (hs : es.Pairwise fun a b => a.1 < b.1 ∧ R a.2 b.2) {r r' : UInt64}
    (hr : r ≤ r') {e e' : UInt64 × β} (h : lastAtMost r es = some e)
    (h' : lastAtMost r' es = some e') : e = e' ∨ R e.2 e'.2 := by
  have hkeys : es.Pairwise fun a b => a.1 < b.1 := hs.imp fun h => h.1
  obtain ⟨he, her⟩ := mem_of_lastAtMost h
  obtain ⟨he', -⟩ := mem_of_lastAtMost h'
  -- the entry found for `r` is a candidate for `r'`, so its key is at most the one found
  have hle : e.1 ≤ e'.1 := lastAtMost_greatest hkeys h' e he (UInt64.le_trans her hr)
  rcases eq_or_rel_of_pairwise hs he he' with heq | hrel | hrel
  · exact .inl heq
  · exact .inr hrel.2
  · exact absurd hle (UInt64.not_le.mpr hrel.1)

/-- In entries whose keys increase, a bound one larger finds the same entry or the next one. -/
theorem lastAtMost_succ (hs : es.Pairwise fun a b => a.1 < b.1)
    (hc : es.IsChain fun a b => R a.2 b.2) {r : UInt64} (hr : r + 1 ≠ 0) {e e' : UInt64 × β}
    (h : lastAtMost r es = some e) (h' : lastAtMost (r + 1) es = some e') :
    e' = e ∨ R e.2 e'.2 := by
  obtain ⟨pre, post, hes, her, hpost⟩ := lastAtMost_eq_some_iff.mp h
  have hrr : r ≤ r + 1 := UInt64.le_of_lt (UInt64.lt_add_one_of_ne_zero hr)
  -- the entry found for `r` is found again unless the next entry has key `r + 1`
  have hsame : (∀ d ∈ post, r + 1 < d.1) → e' = e := by
    intro hpost'
    have hfind : lastAtMost (r + 1) es = some e :=
      lastAtMost_eq_some_iff.mpr ⟨pre, post, hes, UInt64.le_trans her hrr, hpost'⟩
    exact Option.some.inj (h'.symm.trans hfind)
  cases post with
  | nil => exact .inl (hsame fun d hd => absurd hd List.not_mem_nil)
  | cons d post =>
    have hd : ∀ x ∈ post, d.1 < x.1 := by
      rw [hes, List.pairwise_append, List.pairwise_cons, List.pairwise_cons] at hs
      exact hs.2.1.2.1
    have hrd : r < d.1 := hpost d List.mem_cons_self
    by_cases hdr : d.1 ≤ r + 1
    · -- the next entry has key `r + 1`, and is the one found
      have hkey : d.1 = r + 1 := UInt64.le_antisymm hdr (UInt64.add_one_le_of_lt hrd)
      have hfind : lastAtMost (r + 1) es = some d :=
        lastAtMost_eq_some_iff.mpr
          ⟨pre ++ [e], post, by rw [hes]; simp, hdr, fun x hx => hkey ▸ hd x hx⟩
      have hed : R e.2 d.2 := by
        rw [hes] at hc
        have hpair : List.IsChain (fun a b => R a.2 b.2) [e, d] := hc.infix ⟨pre, post, by simp⟩
        exact (List.isChain_cons_cons.mp hpair).1
      rw [Option.some.inj (h'.symm.trans hfind)]
      exact .inr hed
    · exact .inl (hsame fun x hx => by
        rcases List.mem_cons.mp hx with rfl | hx
        · exact UInt64.not_le.mp hdr
        · exact UInt64.lt_trans (UInt64.not_le.mp hdr) (hd x hx))

end Sorted

end KeyedList
