import Mathlib.Data.List.Nodup
import Whitecoin.Lib.Outcome

/-!
# Loops over keyed entries

A loop over the entries of a map touches, at each key, only what belongs to that key. So what can
be observed at one key after the loop is what the iteration for that key made of it, and the other
iterations do not matter. This module says that once, for plain folds and for loops whose body may
throw, over an arbitrary notion of observation. The entries are a list whose keys are distinct, as
the entries of an ordered map are.
-/

namespace List

variable {α κ σ ο : Type*} (key : α → κ) (obs : σ → ο) {f : σ → α → σ} {k : κ}

theorem foldl_obs_of_notMem (hother : ∀ s a, key a ≠ k → obs (f s a) = obs s) :
    ∀ {l : List α} {s : σ}, (∀ a ∈ l, key a ≠ k) → obs (l.foldl f s) = obs s
  | [], _, _ => rfl
  | a :: l, s, h => by
    rw [foldl_cons, foldl_obs_of_notMem hother fun b hb => h b (mem_cons_of_mem _ hb),
      hother s a (h a mem_cons_self)]

theorem foldl_obs_of_mem {g : α → ο → ο} (hother : ∀ s a, key a ≠ k → obs (f s a) = obs s)
    (hself : ∀ s a, key a = k → obs (f s a) = g a (obs s)) :
    ∀ {l : List α} {s : σ} {a : α}, (l.map key).Nodup → a ∈ l → key a = k →
      obs (l.foldl f s) = g a (obs s)
  | b :: l, s, a, hnd, ha, hk => by
    obtain ⟨hb, hnd⟩ := nodup_cons.1 hnd
    rw [foldl_cons]
    rcases mem_cons.1 ha with rfl | ha
    · rw [foldl_obs_of_notMem key obs hother, hself s a hk]
      intro c hc hck
      exact hb (mem_map.2 ⟨c, hc, by rw [hck, hk]⟩)
    · rw [foldl_obs_of_mem hother hself hnd ha hk, hother s b]
      intro hbk
      exact hb (mem_map.2 ⟨a, ha, by rw [hbk, hk]⟩)

end List

namespace Outcome

variable {ε α κ σ ο : Type*} (key : α → κ) (obs : σ → ο) {body : α → σ → Outcome ε σ} {k : κ}

theorem forEach_obs_of_notMem
    (hother : ∀ a s s', body a s = ok s' → key a ≠ k → obs s' = obs s) :
    ∀ {l : List α} {s s' : σ}, forEach body l s = ok s' → (∀ a ∈ l, key a ≠ k) → obs s' = obs s
  | [], s, s', h, _ => by
    obtain rfl : s = s' := by simpa using h
    rfl
  | a :: l, s, s', h, hl => by
    obtain ⟨t, ht, h⟩ := bind_eq_ok.1 h
    rw [forEach_obs_of_notMem hother h fun b hb => hl b (List.mem_cons_of_mem _ hb),
      hother a s t ht (hl a List.mem_cons_self)]

theorem forEach_obs_of_mem {g : α → ο}
    (hother : ∀ a s s', body a s = ok s' → key a ≠ k → obs s' = obs s)
    (hself : ∀ a s s', body a s = ok s' → key a = k → obs s' = g a) :
    ∀ {l : List α} {s s' : σ} {a : α}, forEach body l s = ok s' → (l.map key).Nodup → a ∈ l →
      key a = k → obs s' = g a
  | b :: l, s, s', a, h, hnd, ha, hk => by
    obtain ⟨t, ht, hrest⟩ := bind_eq_ok.1 h
    obtain ⟨hb, hnd'⟩ := List.nodup_cons.1 hnd
    rcases List.mem_cons.1 ha with rfl | ha
    · rw [forEach_obs_of_notMem key obs hother hrest, hself a s t ht hk]
      intro c hc hck
      exact hb (List.mem_map.2 ⟨c, hc, by rw [hck, hk]⟩)
    · exact forEach_obs_of_mem hother hself hrest hnd' ha hk

end Outcome

/-! ### Ordered maps and sets -/

namespace Std

variable {κ β : Type*} [Ord κ] [TransOrd κ] [LawfulEqOrd κ]

theorem ExtTreeMap.nodup_map_fst_toList (m : ExtTreeMap κ β compare) :
    (m.toList.map Prod.fst).Nodup := by
  refine List.pairwise_map.2 (m.distinct_keys_toList.imp fun h heq => h ?_)
  rw [heq]
  exact compare_self

theorem ExtTreeSet.nodup_toList (m : ExtTreeSet κ compare) : m.toList.Nodup := by
  refine m.distinct_toList.imp fun h heq => h ?_
  rw [heq]
  exact compare_self

end Std

section ordered

variable {κ β ε σ ο : Type*} [Ord κ] [Std.TransOrd κ] [Std.LawfulEqOrd κ] (obs : σ → ο) {k : κ}

theorem List.foldl_obs_toList {f : σ → κ × β → σ} {g : β → ο → ο}
    (hother : ∀ s item, item.1 ≠ k → obs (f s item) = obs s)
    (hself : ∀ s item, item.1 = k → obs (f s item) = g item.2 (obs s))
    (m : Std.ExtTreeMap κ β compare) (s : σ) :
    obs (m.toList.foldl f s) = (m[k]?).elim (obs s) fun b => g b (obs s) := by
  cases hm : m[k]? with
  | none =>
    refine List.foldl_obs_of_notMem Prod.fst obs hother ?_
    rintro ⟨j, b⟩ hmem rfl
    simp [Std.ExtTreeMap.mem_toList_iff_getElem?_eq_some, hm] at hmem
  | some b =>
    exact List.foldl_obs_of_mem Prod.fst obs (g := fun item => g item.2) hother hself
      m.nodup_map_fst_toList
      (Std.ExtTreeMap.mem_toList_iff_getElem?_eq_some.2 hm) rfl

theorem Outcome.forEach_obs_toList {body : κ × β → σ → Outcome ε σ} {g : β → ο}
    (hother : ∀ item s s', body item s = .ok s' → item.1 ≠ k → obs s' = obs s)
    (hself : ∀ item s s', body item s = .ok s' → item.1 = k → obs s' = g item.2)
    {m : Std.ExtTreeMap κ β compare} {s s' : σ} (h : Outcome.forEach body m.toList s = .ok s') :
    obs s' = (m[k]?).elim (obs s) g := by
  cases hm : m[k]? with
  | none =>
    refine Outcome.forEach_obs_of_notMem Prod.fst obs hother h ?_
    rintro ⟨j, b⟩ hmem rfl
    simp [Std.ExtTreeMap.mem_toList_iff_getElem?_eq_some, hm] at hmem
  | some b =>
    exact Outcome.forEach_obs_of_mem Prod.fst obs (g := fun item => g item.2) hother hself h
      m.nodup_map_fst_toList (Std.ExtTreeMap.mem_toList_iff_getElem?_eq_some.2 hm) rfl

theorem Outcome.forEach_obs_eq {α : Type*} {body : α → σ → Outcome ε σ}
    (hbody : ∀ a s s', body a s = .ok s' → obs s' = obs s) {l : List α} {s s' : σ}
    (h : Outcome.forEach body l s = .ok s') : obs s' = obs s :=
  Outcome.forEach_obs_of_notMem (fun _ => true) obs (k := false)
    (fun a s s' hs _ => hbody a s s' hs) h (by simp)

end ordered
