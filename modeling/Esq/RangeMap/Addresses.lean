import Esq.RangeMap.Step

/-!
# tree と chain から辿り着く node

どの順に操作しても、tree と `next` から辿り着く node は all_list にいて解放されていない。
`range_map_get_addresses` は `RM_NODE_DELETE` の node の次を調べずに読むが、
chain の node は `RM_NODE_DELETE` を持たないので、chain の終わりを越えて読むことは無い。
-/

namespace Esq

open Infra

/-- map `i` の tree から `next` を辿って着く node。 -/
inductive FromIndex (st : RangeMaps) (i : Fin 10) : Nat → Prop where
  | tree {l n : Nat} (h : n ∈ (st.slot i).rbByLength l) : FromIndex st i n
  | next {n m : Nat} (h : FromIndex st i n) (hm : st.next n = some m) : FromIndex st i m

section

variable {st : RangeMaps} {i : Fin 10} {xs ys : List Nat} {n : Nat}

theorem Loaded.fromIndex (h : Loaded st i ys) (hn : FromIndex st i n) : n ∈ ys := by
  induction hn with
  | tree hm => exact h.tree _ _ hm
  | next _ hm ih => exact h.threaded.next_mem ih hm

theorem Loaded.chain (h : Loaded st i ys) (hash : HashT) :
    Linked st.next (search (rbFind st i) hash.buf (st.slot i).longest)
      (chainFrom st.hash ys hash.buf (st.slot i).longest) := by
  refine h.threaded.linked_chainFrom ?_
  rw [HashT.buf, hash.property]
  exact h.longest_lt.le

theorem Loaded.mem_chain (h : Loaded st i ys) (hash : HashT) :
    n ∈ chainFrom st.hash ys hash.buf (st.slot i).longest ↔ n ∈ ys ∧ st.hash n <+: hash.buf := by
  have hl : (st.slot i).longest ≤ hash.buf.length := by
    rw [HashT.buf, hash.property]
    exact h.longest_lt.le
  rw [mem_chainFrom hl]
  constructor
  · rintro ⟨hn, hp, -⟩
    exact ⟨hn, hp⟩
  · rintro ⟨hn, hp⟩
    exact ⟨hn, hp, h.longest n hn⟩

/-- **`RM_NODE_DELETE` の無い chain では、loop は番地を順に写すだけである。** -/
theorem rangeMapGetAddressesLoop_eq {m : Nat} : ∀ (chain : List Nat) (fuel : Nat) (p : Option Nat)
    (acc : List SockaddrIn), Linked st.next p chain →
    (∀ n ∈ chain, (st.node n).deleted = false) → chain.length ≤ fuel → acc.length ≤ m →
    rangeMapGetAddressesLoop st m fuel p acc
      = .ok (if m < acc.length + chain.length then none
        else some (acc ++ chain.map fun n => (st.node n).address))
  | [], fuel, p, acc, hl, _, _, hacc => by
    rw [linked_nil.mp hl, if_neg (by simpa using hacc)]
    cases fuel <;> simp [rangeMapGetAddressesLoop]
  | n :: chain, 0, p, acc, hl, hd, hn, hacc => by simp at hn
  | n :: chain, fuel + 1, p, acc, hl, hd, hn, hacc => by
    obtain ⟨rfl, hl⟩ := hl
    have hdn := hd n List.mem_cons_self
    rw [rangeMapGetAddressesLoop]
    simp only [hdn, Bool.false_eq_true, if_false, List.length_cons]
    by_cases hfull : acc.length = m
    · rw [if_pos (by omega), if_pos (by omega)]
    · rw [if_neg (by omega)]
      rw [rangeMapGetAddressesLoop_eq chain fuel (st.next n) (acc ++ [(st.node n).address]) hl
        (fun k hk => hd k (List.mem_cons_of_mem n hk)) (by simpa using hn)
        (by rw [List.length_append, List.length_singleton]; omega)]
      simp only [List.length_append, List.length_singleton, List.append_assoc, List.singleton_append,
        List.map_cons]
      have hcomm : acc.length + 1 + chain.length = acc.length + (chain.length + 1) := by omega
      rw [hcomm]

theorem MapInv.chain_length_le (h : MapInv st i xs ys) (hash : HashT) :
    (chainFrom st.hash ys hash.buf (st.slot i).longest).length ≤ st.mallocs := by
  have hnd := (h.index.chain hash).nodup
  have hsub : ∀ n ∈ chainFrom st.hash ys hash.buf (st.slot i).longest, n ∈ xs :=
    fun n hn => h.subset n ((h.index.mem_chain hash).mp hn).1
  exact (hnd.subperm hsub).length_le.trans h.size

end

/-- node は重複せず、辿り着く node は生きていて、番地は chain の順に返る。 -/
structure RangeMapSound (st : RangeMaps) : Prop where
  unique : ∀ i, ∃ all, Linked st.allNext (st.slot i).allList all ∧
    (all.map fun p => (st.node p).key).Nodup ∧ ∀ n, FromIndex st i n → n ∈ all ∧ st.live n = true
  /-- `-1` を返すのは、番地が `maxAddresses` を越えるときに限る -/
  addresses : ∀ (mapName : CStr) (hash : HashT) (maxAddresses : Nat),
    ∃ chain, Linked st.next (rangeMapFindAndLock st mapName hash) chain ∧
      rangeMapGetAddresses st mapName hash maxAddresses
        = .ok (if maxAddresses < (chain.filter fun n => !(st.node n).deleted).length then none
          else some ((chain.filter fun n => !(st.node n).deleted).map
            fun n => (st.node n).address))

/-- **range map のどの操作の列の後も、index は生きている node だけを指し、番地は正しく返る。** -/
theorem rangeMap_sound (ops : List RangeMapOp) : RangeMapSound (rangeMapRun RangeMaps.init ops) := by
  obtain ⟨all, loaded, h⟩ := rangeMapsInv_run ops rangeMapsInv_init
  generalize rangeMapRun RangeMaps.init ops = st at h
  refine ⟨fun i => ⟨all i, (h.maps i).linked, (h.maps i).keys, fun n hn => ?_⟩,
    fun mapName hash m => ?_⟩
  · have hmem := (h.maps i).subset n ((h.maps i).index.fromIndex hn)
    exact ⟨hmem, (h.maps i).live n hmem⟩
  · unfold rangeMapGetAddresses rangeMapFindAndLock
    cases rangeMapFindByName st mapName with
    | none => exact ⟨[], rfl, by simp⟩
    | some i =>
      have hm := h.maps i
      have hchain := hm.index.chain hash
      have hlen := hm.chain_length_le hash
      have hkept : ∀ n ∈ chainFrom st.hash (loaded i) hash.buf (st.slot i).longest,
          (st.node n).deleted = false :=
        fun n hn => hm.kept n ((hm.index.mem_chain hash).mp hn).1
      refine ⟨_, hchain, ?_⟩
      generalize chainFrom st.hash (loaded i) hash.buf (st.slot i).longest = chain
        at hchain hlen hkept ⊢
      have hfilter : (chain.filter fun n => !(st.node n).deleted) = chain :=
        List.filter_eq_self.mpr fun n hn => by simp [hkept n hn]
      have hloop := rangeMapGetAddressesLoop_eq (m := m) chain st.mallocs _ [] hchain hkept hlen
        (Nat.zero_le _)
      rw [hfilter]
      simp only
      cases hs : search (rbFind st i) hash.buf (st.slot i).longest with
      | none =>
        rw [hs] at hchain
        have hnil : chain = [] := hchain.eq_none_iff.mp rfl
        subst hnil
        simp
      | some n =>
        rw [hs] at hloop
        simpa using hloop

end Esq
