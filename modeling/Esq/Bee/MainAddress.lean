import Esq.Bee.PonyService
import Esq.Bee.Register
import Esq.RangeMap.Addresses
import Esq.RangeMap.Dump

/-!
# 主な番地

`range_map_get_main_address` が返す番地と、それを使う `pony`。

hash の chain に `RM_NODE_MAIN` の node が無ければ -1 を返し、`pony` は接続せずに
`ESQ_ERROR_NOTFOUND` を返す。ただし chain が空のときは、番地を書かずに 0 を返す。
-/

namespace Esq

open Infra

def RangeNode.main (n : RangeNode) : Bool := hasFlag n.flags rmNodeMain

/-! ## pony の側 -/

/-- 問い合わせを記録しながら、`env` の通りに答える。 -/
def recordCalls (env : List (McoCall PonyOs) → McoCall PonyOs → OsResult)
    (calls : List (McoCall PonyOs)) (q : McoCall PonyOs) :
    Option (List (McoCall PonyOs) × OsResult) :=
  some (calls ++ [q], env calls q)

def callsBeforeSocket (req : PonyRequest) : List (McoCall PonyOs) :=
  [.os .getTimeOfDay, .os (.rangeMapGetMainAddress req.rangeMapName req.key)]

theorem pony_notfound {env : List (McoCall PonyOs) → McoCall PonyOs → OsResult}
    (stack : List UInt8) {req : PonyRequest} (hkey : req.key ≠ [])
    (htime : (env [] (.os .getTimeOfDay)).r = 0)
    (haddr : (env [.os .getTimeOfDay]
      (.os (.rangeMapGetMainAddress req.rangeMapName req.key))).r ≠ 0) :
    (OnMco.pony stack req).interpret (recordCalls env) []
      = some (callsBeforeSocket req, { r := esqErrorNotfound, result := [] }) := by
  unfold OnMco.pony
  rw [if_neg hkey]
  show Co.interpret _ _ (Co.ask _ _ >>= _) = _
  rw [Co.ask_bind, Co.interpret_ask]
  simp only [recordCalls, List.nil_append, Option.bind_some, Co.done_bind, htime, ne_eq,
    not_true_eq_false, if_false]
  show Co.interpret _ _ (Co.ask _ _ >>= _) = _
  rw [Co.ask_bind, Co.interpret_ask]
  simp only [recordCalls, List.singleton_append, Option.bind_some, Co.done_bind, haddr,
    not_false_eq_true, if_true]
  rfl

/-! ## 番地の仕様 -/

/-- `chain` から引いた番地は正しく、`pony` は番地の無い key のために接続しない。 -/
structure MainAddressRight (maps : RangeMaps) (name : CStr) (hash : HashT) (chain : List Nat) :
    Prop where
  found : (rangeMapGetMainAddress maps name hash).1 = 0 ↔ ∃ p ∈ chain, (maps.node p).main = true
  /-- 書くのは最初の `RM_NODE_MAIN` の node の番地である -/
  address : ∀ as p bs, chain = as ++ p :: bs → (∀ q ∈ as, (maps.node q).main = false) →
    (maps.node p).main = true →
    (rangeMapGetMainAddress maps name hash).2 = some (maps.node p).address
  otherwise : (¬ ∃ p ∈ chain, (maps.node p).main = true) →
    (rangeMapGetMainAddress maps name hash).1 = -1
  pony : (¬ ∃ p ∈ chain, (maps.node p).main = true) →
    ∀ (sha256 : List UInt8 → HashT) (stack : List UInt8) (req : PonyRequest)
      (env : List (McoCall PonyOs) → McoCall PonyOs → OsResult),
      req.rangeMapName = name → req.key ≠ [] → sha256 req.key = hash →
      (env [] (.os .getTimeOfDay)).r = 0 →
      (∀ calls name key, (env calls (.os (.rangeMapGetMainAddress name key))).r
        = (rangeMapGetMainAddress maps name (sha256 key)).1) →
      (OnMco.pony stack req).interpret (recordCalls env) []
        = some (callsBeforeSocket req, { r := esqErrorNotfound, result := [] })

/-- hash に一致する prefix の node が読み込まれている。 -/
def Matched (maps : RangeMaps) (name : CStr) (hash : HashT) : Prop :=
  ∃ i n, rangeMapFindByName maps name = some i ∧ FromIndex maps i n ∧ maps.hash n <+: hash.buf

section

variable {st : RangeMaps} {name : CStr} {hash : HashT} {chain : List Nat} {n : Nat}

theorem rangeMapGetMainAddress_eq (hfound : rangeMapFindAndLock st name hash = some n)
    (hchain : Linked st.next (some n) chain) (hlen : chain.length ≤ st.mallocs) :
    rangeMapGetMainAddress st name hash
      = match chain.find? fun p => (st.node p).main with
        | some p => (0, some (st.node p).address)
        | none => (-1, none) := by
  unfold rangeMapGetMainAddress
  rw [hfound]
  simp only [rangeNodes, hchain.walk_eq hlen]
  rfl

theorem mainAddressRight_of_found (hfound : rangeMapFindAndLock st name hash = some n)
    (hchain : Linked st.next (some n) chain) (hlen : chain.length ≤ st.mallocs) :
    MainAddressRight st name hash chain := by
  have heq := rangeMapGetMainAddress_eq hfound hchain hlen
  have hnone : (¬ ∃ p ∈ chain, (st.node p).main = true) →
      rangeMapGetMainAddress st name hash = (-1, none) := by
    intro hno
    have hfind : chain.find? (fun p => (st.node p).main) = none :=
      List.find?_eq_none.mpr fun p hp hm => hno ⟨p, hp, hm⟩
    rw [heq, hfind]
  refine ⟨⟨fun hz => ?_, ?_⟩, ?_, fun hno => ?_, ?_⟩
  · by_contra hno
    rw [hnone hno] at hz
    exact absurd hz (by decide)
  · rintro ⟨p, hp, hm⟩
    obtain ⟨q, hq⟩ := Option.isSome_iff_exists.mp
      (List.find?_isSome.mpr ⟨p, hp, hm⟩ : (chain.find? fun p => (st.node p).main).isSome)
    rw [heq, hq]
  · intro as p bs hsplit has hm
    have hfind : chain.find? (fun p => (st.node p).main) = some p :=
      List.find?_eq_some_iff_append.mpr ⟨hm, as, bs, hsplit, fun q hq => by simp [has q hq]⟩
    rw [heq, hfind]
  · rw [hnone hno]
  · intro hno sha256 stack req env hname hkey hhash htime haddr
    have hne : (-1 : Int) ≠ 0 := by decide
    refine pony_notfound stack hkey htime ?_
    rw [haddr, hname, hhash, hnone hno]
    exact hne

theorem rangeMapGetMainAddress_of_none (hnone : rangeMapFindAndLock st name hash = none) :
    rangeMapGetMainAddress st name hash = (0, none) := by
  unfold rangeMapGetMainAddress
  rw [hnone]

end

/-- **`range_map_get_main_address` が正しいのは、hash に一致する node が読み込まれているときに限る。** -/
theorem main_address_iff (ops : List RangeMapOp) (name : CStr) (hash : HashT) :
    ∃ chain, Linked (rangeMapRun .init ops).next
        (rangeMapFindAndLock (rangeMapRun .init ops) name hash) chain ∧
      (MainAddressRight (rangeMapRun .init ops) name hash chain ↔
        Matched (rangeMapRun .init ops) name hash) := by
  obtain ⟨all, loaded, h⟩ := rangeMapsInv_run ops rangeMapsInv_init
  generalize rangeMapRun RangeMaps.init ops = st at h
  have hempty : rangeMapFindAndLock st name hash = none → ¬ MainAddressRight st name hash [] := by
    intro hnone hright
    have hz := hright.found.mp (by rw [rangeMapGetMainAddress_of_none hnone])
    simp at hz
  cases hname : rangeMapFindByName st name with
  | none =>
    have hnone : rangeMapFindAndLock st name hash = none := by
      unfold rangeMapFindAndLock
      rw [hname]
    rw [hnone]
    refine ⟨[], rfl, iff_of_false (hempty hnone) ?_⟩
    rintro ⟨i, n, hi, -⟩
    rw [hname] at hi
    cases hi
  | some i =>
    have hm := h.maps i
    have hfind : rangeMapFindAndLock st name hash
        = search (rbFind st i) hash.buf (st.slot i).longest := by
      unfold rangeMapFindAndLock
      rw [hname]
    have hchain := hm.index.chain hash
    have hmem := fun n => hm.index.mem_chain (n := n) hash
    have hlen := hm.chain_length_le hash
    rw [← hfind] at hchain
    generalize chainFrom st.hash (loaded i) hash.buf (st.slot i).longest = chain
      at hchain hmem hlen
    refine ⟨chain, hchain, ?_⟩
    cases hhead : rangeMapFindAndLock st name hash with
    | none =>
      have hnil : chain = [] := hchain.eq_none_iff.mp hhead
      subst hnil
      refine iff_of_false (hempty hhead) ?_
      rintro ⟨j, n, hj, hn, hpre⟩
      rw [hname, Option.some.injEq] at hj
      subst hj
      exact List.not_mem_nil ((hmem n).mpr ⟨hm.index.fromIndex hn, hpre⟩)
    | some n =>
      rw [hhead] at hchain
      refine iff_of_true (mainAddressRight_of_found hhead hchain hlen) ?_
      obtain ⟨rest, rfl⟩ : ∃ rest, chain = n :: rest := by
        cases chain with
        | nil => cases hchain
        | cons a rest => exact ⟨rest, by rw [Option.some.inj hchain.1]⟩
      -- chain の先頭は tree から引いた node である
      obtain ⟨k, hk⟩ := exists_find_of_search (hfind ▸ hhead)
      exact ⟨i, n, hname, .tree (List.mem_of_find?_eq_some hk),
        ((hmem n).mp List.mem_cons_self).2⟩

/-- **map が一つも無くても、番地を書かずに 0 を返す。** -/
theorem main_address_of_no_map :
    rangeMapGetMainAddress .init sampleName (sampleNode.sha256 []) = (0, none) ∧
      Linked RangeMaps.init.next
        (rangeMapFindAndLock .init sampleName (sampleNode.sha256 [])) [] ∧
      ¬ MainAddressRight .init sampleName (sampleNode.sha256 []) [] := by
  have hnone : rangeMapFindAndLock .init sampleName (sampleNode.sha256 []) = none := by
    decide +kernel
  have hget := rangeMapGetMainAddress_of_none hnone
  refine ⟨hget, hnone, fun hright => ?_⟩
  have hz := hright.found.mp (by rw [hget])
  simp at hz

end Esq
