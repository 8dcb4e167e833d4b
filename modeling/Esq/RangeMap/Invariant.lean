import Esq.RangeMap.Load

/-!
# range map の不変量

どの順に操作しても次が保たれる（`RangeMapsInv`）。

* all_list の node は解放されておらず、他の map の node でもない
* 一つの map に、ip・port・prefix の等しい node は二つ無い
* tree と `next` は、読み込んだ node だけを指す

足したばかりの node はまだ読み込まれていない。そこで all_list の中身 `all` と、
最後に読み込んだ node `loaded` を分けて持つ。読み込んだ node は `RM_NODE_DELETE` を持たない。
-/

namespace Esq

open Infra

/-! ## 操作 -/

/-- range map に対する操作。`env` はその時点の、range map の外の状態である。 -/
inductive RangeMapOp where
  | new (name : CStr)
  | addNode (env : Env) (oracle : Option Nat) (mapName ipStr : CStr) (port : Int)
      (flags : BitVec 32) (hashString : CStr)
  | delNode (mapName ipStr : CStr) (port : Int) (hashString : CStr)
  | delAllNode (mapName : CStr)
  | flush (name : CStr)
  | bucketOnline (b : BucketView) (mapName : List UInt8)
  | bucketOffline (bucket : Nat) (mapName : List UInt8)
  | selfPortSetup (env : Env)

/-- 一つの操作と、その戻り値。`none` は NULL、すなわち成功である。 -/
def rangeMapStep (st : RangeMaps) : RangeMapOp → Option String × RangeMaps
  | .new name => rangeMapNew st name
  | .addNode env oracle mapName ipStr port flags hashString =>
    rangeMapAddNode env oracle st mapName ipStr port flags hashString
  | .delNode mapName ipStr port hashString => rangeMapDelNode st mapName ipStr port hashString
  | .delAllNode mapName => rangeMapDelAllNode st mapName
  | .flush name => rangeMapFlush st name
  | .bucketOnline b mapName => (none, rangeMapNotifyBucketOnline st b mapName)
  | .bucketOffline bucket mapName => (none, rangeMapNotifyBucketOffline st bucket mapName)
  | .selfPortSetup env => (none, esqRangeMapNotifySelfPortSetup env st)

def rangeMapRun (st : RangeMaps) (ops : List RangeMapOp) : RangeMaps :=
  ops.foldl (fun st op => (rangeMapStep st op).2) st

/-! ## 不変量 -/

structure Listed (st : RangeMaps) (i : Fin 10) (all : List Nat) : Prop where
  linked : Linked st.allNext (st.slot i).allList all
  size : all.length ≤ st.mallocs
  live : ∀ p ∈ all, st.live p = true
  short : ∀ p ∈ all, (st.hash p).length < hashValueLength
  keys : (all.map fun p => (st.node p).key).Nodup

/-- map `i` の all_list は `all` で、そのうち `loaded` が読み込まれている。 -/
structure MapInv (st : RangeMaps) (i : Fin 10) (all loaded : List Nat) : Prop
    extends Listed st i all where
  index : Loaded st i loaded
  subset : ∀ p ∈ loaded, p ∈ all
  nodup : loaded.Nodup
  kept : ∀ p ∈ loaded, (st.node p).deleted = false

structure RangeMapsInv (st : RangeMaps) (all loaded : Fin 10 → List Nat) : Prop where
  maps : ∀ i, MapInv st i (all i) (loaded i)
  disjoint : ∀ {i j p}, p ∈ all i → p ∈ all j → i = j

section

variable {st st' : RangeMaps} {i j : Fin 10} {p q n : Nat} {xs ys : List Nat}
  {all loaded : Fin 10 → List Nat}

theorem Listed.allNodes_eq (h : Listed st i xs) : st.allNodes i = xs := h.linked.walk_eq h.size

/-- 不変量が見る node の欄。`bucket` と `RM_NODE_ME` は見ない。 -/
structure SameNode (a b : RangeNode) : Prop where
  key : b.key = a.key
  next : b.next = a.next
  allNext : b.allNodeListNext = a.allNodeListNext
  deleted : b.deleted = a.deleted

theorem SameNode.refl (a : RangeNode) : SameNode a a := ⟨rfl, rfl, rfl, rfl⟩

theorem SameNode.trans {a b c : RangeNode} (h : SameNode a b) (h' : SameNode b c) : SameNode a c :=
  ⟨h'.key.trans h.key, h'.next.trans h.next, h'.allNext.trans h.allNext, h'.deleted.trans h.deleted⟩

theorem SameNode.hash {a b : RangeNode} (h : SameNode a b) : b.hash = a.hash :=
  congrArg (fun k => k.2.2) h.key

theorem Listed.congr (h : Listed st i xs) (hkey : ∀ p ∈ xs, (st'.node p).key = (st.node p).key)
    (hnext : ∀ p ∈ xs, st'.allNext p = st.allNext p)
    (hlive : ∀ p ∈ xs, st'.live p = st.live p) (hmal : st.mallocs ≤ st'.mallocs)
    (hslot : (st'.slot i).allList = (st.slot i).allList) : Listed st' i xs where
  linked := by
    rw [hslot]
    exact h.linked.congr hnext
  size := h.size.trans hmal
  live p hp := (hlive p hp).trans (h.live p hp)
  short p hp := by
    have hhash : st'.hash p = st.hash p := congrArg (fun k => k.2.2) (hkey p hp)
    rw [hhash]
    exact h.short p hp
  keys := by
    rw [List.map_congr_left hkey]
    exact h.keys

theorem Loaded.congr (h : Loaded st i xs) (hnode : ∀ p ∈ xs, SameNode (st.node p) (st'.node p))
    (hrb : (st'.slot i).rbByLength = (st.slot i).rbByLength)
    (hlong : (st'.slot i).longest = (st.slot i).longest) : Loaded st' i xs := by
  have hhash : ∀ p ∈ xs, st'.hash p = st.hash p := fun p hp => (hnode p hp).hash
  have hfind : rbFind st' i = rbFind st i := by
    funext k
    unfold rbFind
    rw [hrb, ← List.head?_filter, ← List.head?_filter]
    refine congrArg List.head? (List.filter_congr fun a ha => ?_)
    rw [hhash a (h.tree _ a ha)]
  refine ⟨h.threaded.congr hhash (fun p hp => (hnode p hp).next) hfind, ?_, fun p hp => ?_, ?_⟩
  · rw [hrb]
    exact h.tree
  · rw [hhash p hp, hlong]
    exact h.longest p hp
  · rw [hlong]
    exact h.longest_lt

theorem MapInv.congr (h : MapInv st i xs ys) (hnode : ∀ p ∈ xs, SameNode (st.node p) (st'.node p))
    (hlive : ∀ p ∈ xs, st'.live p = st.live p) (hmal : st.mallocs ≤ st'.mallocs)
    (hall : (st'.slot i).allList = (st.slot i).allList)
    (hrb : (st'.slot i).rbByLength = (st.slot i).rbByLength)
    (hlong : (st'.slot i).longest = (st.slot i).longest) : MapInv st' i xs ys where
  toListed := h.toListed.congr (fun p hp => (hnode p hp).key) (fun p hp => (hnode p hp).allNext)
    hlive hmal hall
  index := h.index.congr (fun p hp => hnode p (h.subset p hp)) hrb hlong
  subset := h.subset
  nodup := h.nodup
  kept p hp := (hnode p (h.subset p hp)).deleted.trans (h.kept p hp)

/-! ## 掃除と読み込み -/

structure Reloaded (st : RangeMaps) (i : Fin 10) (xs : List Nat) (st' : RangeMaps) : Prop where
  data : ∀ p, (st'.node p).data = (st.node p).data
  others : ∀ p, p ∉ xs → SameNode (st.node p) (st'.node p) ∧ st'.live p = st.live p
  mallocs : st'.mallocs = st.mallocs
  slots : ∀ j, j ≠ i → st'.slot j = st.slot j
  name : (st'.slot i).name = (st.slot i).name

theorem Listed.clean (h : Listed st i xs) :
    Listed (rangeMapClean st i) i (xs.filter fun p => !(st.node p).deleted) ∧
      ((rangeMapClean st i).slot i).rbByLength = (fun _ => []) ∧
      Reloaded st i xs (rangeMapClean st i) := by
  have hc := rangeMapClean_spec h.linked h.size
  generalize rangeMapClean st i = st1 at hc ⊢
  have hdata : ∀ p, (st1.node p).data = (st.node p).data := hc.data
  have hkeys : (fun p => (st1.node p).key) = fun p => (st.node p).key :=
    funext fun p => RangeNode.key_of_data (hdata p)
  have hslot := hc.slot none
  have hmal : st1.mallocs = st.mallocs := hc.mallocs
  refine ⟨⟨hc.linked, ?_, fun p hp => ?_, fun p hp => ?_, ?_⟩, ?_, ⟨hdata, fun p hp => ?_, hmal,
    fun j hj => ?_, ?_⟩⟩
  · rw [hmal]
    exact (List.length_filter_le _ _).trans h.size
  · obtain ⟨hx, hd⟩ := List.mem_filter.mp hp
    rw [hc.live p, if_neg]
    · exact h.live p hx
    · rintro ⟨-, hd'⟩
      have hd' : (st.node p).deleted = true := hd'
      simp [hd'] at hd
  · rw [RangeMaps.hash_eq_of_data hdata]
    exact h.short p (List.mem_of_mem_filter hp)
  · rw [hkeys]
    exact (List.filter_sublist.map _).nodup h.keys
  · have := congrArg RangeMap.rbByLength hslot
    simpa [RangeMaps.setSlot] using this
  · have hnode : st1.node p = st.node p := hc.others p List.not_mem_nil hp
    rw [hnode]
    refine ⟨.refl _, ?_⟩
    rw [hc.live p, if_neg fun hh => hp hh.1]
    rfl
  · rw [hc.slots j hj]
    exact Function.update_of_ne hj _ _
  · have := congrArg RangeMap.name hslot
    simpa [RangeMaps.setSlot] using this

/-- **掃除して読み込むと、`RM_NODE_DELETE` の無い node がちょうど読み込まれる。** -/
theorem Listed.reload (h : Listed st i xs) :
    MapInv (rangeMapLoad (rangeMapClean st i) i) i
        (xs.filter fun p => !(st.node p).deleted) (xs.filter fun p => !(st.node p).deleted) ∧
      Reloaded st i xs (rangeMapLoad (rangeMapClean st i) i) := by
  obtain ⟨h1, hrb, hr1⟩ := h.clean
  generalize rangeMapClean st i = st1 at h1 hrb hr1 ⊢
  obtain ⟨hload, hf⟩ := rangeMapLoad_spec h1.linked h1.size hrb h1.short
  generalize rangeMapLoad st1 i = st2 at hload hf ⊢
  have hdata : ∀ p, (st2.node p).data = (st.node p).data :=
    fun p => (hf.data p).trans (hr1.data p)
  refine ⟨⟨⟨?_, ?_, fun p hp => ?_, fun p hp => ?_, ?_⟩, hload, fun _ hp => hp, ?_,
    fun p hp => ?_⟩, ⟨hdata, fun p hp => ?_, hf.mallocs.trans hr1.mallocs,
    fun j hj => (hf.slots j hj).trans (hr1.slots j hj), hf.name.trans hr1.name⟩⟩
  · rw [hf.allNext, hf.allList]
    exact h1.linked
  · rw [hf.mallocs]
    exact h1.size
  · rw [hf.live]
    exact h1.live p hp
  · rw [hf.hash]
    exact h1.short p hp
  · have hkeys : (fun p => (st2.node p).key) = fun p => (st1.node p).key :=
      funext fun p => RangeNode.key_of_data (hf.data p)
    rw [hkeys]
    exact h1.keys
  · exact h1.linked.nodup
  · rw [RangeNode.deleted_of_data (hdata p)]
    simpa using (List.mem_filter.mp hp).2
  · obtain ⟨hsame, hlive⟩ := hr1.others p hp
    have hp' : p ∉ xs.filter fun p => !(st.node p).deleted := fun hm => hp (List.mem_of_mem_filter hm)
    refine ⟨hsame.trans ⟨RangeNode.key_of_data (hf.data p), hf.next p hp', ?_,
      RangeNode.deleted_of_data (hf.data p)⟩, by rw [hf.live, hlive]⟩
    exact congrFun hf.allNext p

theorem RangeMapsInv.reload (h : RangeMapsInv st all loaded) {st1 : RangeMaps} (i : Fin 10)
    (hl : Listed st1 i (all i)) (hnode : ∀ p, p ∉ all i → SameNode (st.node p) (st1.node p))
    (hlive : st1.live = st.live) (hmal : st1.mallocs = st.mallocs) (hslot : st1.slot = st.slot) :
    RangeMapsInv (rangeMapLoad (rangeMapClean st1 i) i)
      (Function.update all i ((all i).filter fun p => !(st1.node p).deleted))
      (Function.update loaded i ((all i).filter fun p => !(st1.node p).deleted)) := by
  obtain ⟨hmap, hr⟩ := hl.reload
  have hsub : ∀ j p, p ∈ Function.update all i ((all i).filter fun p => !(st1.node p).deleted) j →
      p ∈ all j := by
    intro j p hp
    by_cases hj : j = i
    · subst hj
      rw [Function.update_self] at hp
      exact List.mem_of_mem_filter hp
    · rwa [Function.update_of_ne hj] at hp
  refine ⟨fun j => ?_, fun hp hq => h.disjoint (hsub _ _ hp) (hsub _ _ hq)⟩
  by_cases hj : j = i
  · subst hj
    rw [Function.update_self, Function.update_self]
    exact hmap
  · rw [Function.update_of_ne hj, Function.update_of_ne hj]
    have hout : ∀ p ∈ all j, p ∉ all i := fun p hp hi => hj (h.disjoint hp hi)
    refine (h.maps j).congr (fun p hp => ?_) (fun p hp => ?_) ?_ ?_ ?_ ?_
    · exact (hnode p (hout p hp)).trans (hr.others p (hout p hp)).1
    · rw [(hr.others p (hout p hp)).2, hlive]
    · rw [hr.mallocs, hmal]
    · rw [hr.slots j hj, hslot]
    · rw [hr.slots j hj, hslot]
    · rw [hr.slots j hj, hslot]

/-! ## 操作 -/

theorem RangeMapsInv.congr (h : RangeMapsInv st all loaded)
    (hnode : ∀ p, SameNode (st.node p) (st'.node p)) (hlive : st'.live = st.live)
    (hmal : st'.mallocs = st.mallocs) (hslot : ∀ j, (st'.slot j).allList = (st.slot j).allList ∧
      (st'.slot j).rbByLength = (st.slot j).rbByLength ∧
      (st'.slot j).longest = (st.slot j).longest) : RangeMapsInv st' all loaded :=
  ⟨fun j => (h.maps j).congr (fun p _ => hnode p) (fun p _ => by rw [hlive]) hmal.ge (hslot j).1
    (hslot j).2.1 (hslot j).2.2, h.disjoint⟩

theorem RangeMapsInv.setName (h : RangeMapsInv st all loaded) (i : Fin 10) (name : CStr) :
    RangeMapsInv (st.setSlot i fun m => { m with name := name }) all loaded := by
  refine h.congr (fun p => .refl _) rfl rfl fun j => ?_
  by_cases hj : j = i
  · subst hj
    simp [RangeMaps.setSlot]
  · simp [RangeMaps.setSlot, hj]

theorem rangeMapFindNode_eq_none {ip : Nat} {port : Int} {hash : List UInt8}
    (h : Listed st i xs) (hf : rangeMapFindNode st i ip port hash = none) :
    ∀ p ∈ xs, (st.node p).key ≠ (ip, port, hash) := by
  intro p hp he
  unfold rangeMapFindNode at hf
  rw [h.allNodes_eq] at hf
  have := List.find?_eq_none.mp hf p hp
  simp only [RangeNode.key, Prod.mk.injEq] at he
  simp [he] at this

theorem rangeMapFindNode_eq_some {ip : Nat} {port : Int} {hash : List UInt8}
    (h : Listed st i xs) (hf : rangeMapFindNode st i ip port hash = some p) :
    p ∈ xs ∧ (st.node p).key = (ip, port, hash) := by
  unfold rangeMapFindNode at hf
  rw [h.allNodes_eq] at hf
  refine ⟨List.mem_of_find?_eq_some hf, ?_⟩
  have hk := List.find?_some hf
  simp only [decide_eq_true_eq] at hk
  simp only [RangeNode.key, hk]

theorem translateMkcParams_hash_length {ipStr hashString : CStr} {params : MkcParams}
    (h : translateMkcParams ipStr hashString = .ok params) : params.hash.length ≤ 16 := by
  unfold translateMkcParams at h
  simp only at h
  split at h
  · cases h
  · split at h
    · cases h
    · split at h
      · cases h
      · next hl =>
        split at h
        · cases h
        · split at h
          · cases h
          · next hlen =>
            split at h
            · cases h
            · next hash hbin =>
              cases h
              have hb := hashStr2Bin_length _ hbin
              simp only [not_or, not_lt, not_not] at hl hlen
              simp only [List.length_take, List.length_drop, hashValueLength] at hb hl hlen
              show hash.length ≤ 16
              omega

/-- **足した node は all_list の先頭に入り、まだ読み込まれない。** -/
theorem RangeMapsInv.join (h : RangeMapsInv st all loaded) (i : Fin 10) {node : RangeNode}
    (hp : st.live p = false) (hkey : ∀ q ∈ all i, (st.node q).key ≠ node.key)
    (hshort : node.hash.length < hashValueLength) :
    RangeMapsInv (st.joinAllList i p node) (Function.update all i (p :: all i)) loaded := by
  have hout : ∀ j, p ∉ all j := by
    intro j hm
    have := (h.maps j).live p hm
    rw [hp] at this
    cases this
  have hnode : ∀ j, ∀ q ∈ all j, (st.joinAllList i p node).node q = st.node q := by
    intro j q hq
    refine Function.update_of_ne ?_ _ _
    rintro rfl
    exact hout j hq
  have hlive : ∀ j, ∀ q ∈ all j, (st.joinAllList i p node).live q = st.live q := by
    intro j q hq
    refine Function.update_of_ne ?_ _ _
    rintro rfl
    exact hout j hq
  have hmal : st.mallocs ≤ (st.joinAllList i p node).mallocs := Nat.le_succ _
  have hrb : ∀ j, ((st.joinAllList i p node).slot j).rbByLength = (st.slot j).rbByLength ∧
      ((st.joinAllList i p node).slot j).longest = (st.slot j).longest := by
    intro j
    by_cases hj : j = i
    · subst hj
      simp [RangeMaps.joinAllList, RangeMaps.setSlot]
    · simp [RangeMaps.joinAllList, RangeMaps.setSlot, hj]
  have hsame : ∀ j, ∀ q ∈ all j, SameNode (st.node q) ((st.joinAllList i p node).node q) := by
    intro j q hq
    rw [hnode j q hq]
    exact .refl _
  have hself : (st.joinAllList i p node).node p
      = { node with allNodeListNext := (st.slot i).allList } := Function.update_self ..
  refine ⟨fun j => ?_, fun {j k q} hj hk => ?_⟩
  · by_cases hj : j = i
    · subst hj
      rw [Function.update_self]
      have hinv := h.maps j
      have hindex := hinv.index.congr (fun q hq => hsame j q (hinv.subset q hq)) (hrb j).1 (hrb j).2
      refine ⟨⟨?_, ?_, fun q hq => ?_, fun q hq => ?_, ?_⟩, hindex,
        fun q hq => List.mem_cons_of_mem p (hinv.subset q hq), hinv.nodup, fun q hq => ?_⟩
      · refine ⟨by simp [RangeMaps.joinAllList, RangeMaps.setSlot], ?_⟩
        have hnext : (st.joinAllList j p node).allNext p = (st.slot j).allList := by
          unfold RangeMaps.allNext
          rw [hself]
        rw [hnext]
        refine hinv.linked.congr fun q hq => ?_
        unfold RangeMaps.allNext
        rw [hnode j q hq]
      · exact Nat.succ_le_succ hinv.size
      · rcases List.mem_cons.mp hq with rfl | hq
        · exact Function.update_self ..
        · rw [hlive j q hq]
          exact hinv.live q hq
      · rcases List.mem_cons.mp hq with rfl | hq
        · unfold RangeMaps.hash
          rw [hself]
          exact hshort
        · unfold RangeMaps.hash
          rw [hnode j q hq]
          exact hinv.short q hq
      · rw [List.map_cons, List.nodup_cons, List.map_congr_left fun q hq => by rw [hnode j q hq]]
        refine ⟨fun hm => ?_, hinv.keys⟩
        obtain ⟨q, hq, he⟩ := List.mem_map.mp hm
        rw [hself] at he
        exact hkey q hq he
      · rw [hnode j q (hinv.subset q hq)]
        exact hinv.kept q hq
    · rw [Function.update_of_ne hj]
      refine (h.maps j).congr (hsame j) (hlive j) hmal ?_ (hrb j).1 (hrb j).2
      simp [RangeMaps.joinAllList, RangeMaps.setSlot, hj]
  · have hcase : ∀ {j q}, q ∈ Function.update all i (p :: all i) j →
        (q = p ∧ j = i) ∨ q ∈ all j := by
      intro j q hq
      by_cases hj : j = i
      · subst hj
        rw [Function.update_self] at hq
        rcases List.mem_cons.mp hq with rfl | hq
        · exact Or.inl ⟨rfl, rfl⟩
        · exact Or.inr hq
      · rw [Function.update_of_ne hj] at hq
        exact Or.inr hq
    rcases hcase hj with ⟨rfl, rfl⟩ | hj'
    · rcases hcase hk with ⟨-, rfl⟩ | hk'
      · rfl
      · exact absurd hk' (hout k)
    · rcases hcase hk with ⟨rfl, rfl⟩ | hk'
      · exact absurd hj' (hout j)
      · exact h.disjoint hj' hk'

theorem markDelete_node (st : RangeMaps) (p q : Nat) :
    ((st.markDelete p).node q).key = (st.node q).key ∧
      (st.markDelete p).allNext q = st.allNext q :=
  ⟨RangeMaps.apply_setNode RangeNode.key
      (fun n => { n with flags := n.flags ||| rmNodeDelete }) (fun _ => rfl) q,
    RangeMaps.apply_setNode RangeNode.allNodeListNext
      (fun n => { n with flags := n.flags ||| rmNodeDelete }) (fun _ => rfl) q⟩

theorem deleted_markDelete (st : RangeMaps) (p q : Nat) :
    ((st.markDelete p).node q).deleted = (decide (q = p) || (st.node q).deleted) := by
  by_cases hq : q = p
  · subst hq
    rw [RangeMaps.markDelete, RangeMaps.node_setNode_self]
    simp [RangeNode.deleted, hasFlag_or_self (show rmNodeDelete ≠ 0 by decide)]
  · rw [RangeMaps.markDelete, RangeMaps.node_setNode_of_ne _ hq]
    simp [hq]

theorem node_markDelete_of_ne (h : q ≠ p) : (st.markDelete p).node q = st.node q :=
  RangeMaps.node_setNode_of_ne _ h

theorem foldl_markDelete : ∀ (ps : List Nat) (st : RangeMaps),
    (ps.foldl RangeMaps.markDelete st).live = st.live ∧
      (ps.foldl RangeMaps.markDelete st).mallocs = st.mallocs ∧
      (ps.foldl RangeMaps.markDelete st).slot = st.slot ∧
      (∀ q, ((ps.foldl RangeMaps.markDelete st).node q).key = (st.node q).key ∧
        (ps.foldl RangeMaps.markDelete st).allNext q = st.allNext q ∧
        ((ps.foldl RangeMaps.markDelete st).node q).deleted
          = (decide (q ∈ ps) || (st.node q).deleted)) ∧
      ∀ q, q ∉ ps → (ps.foldl RangeMaps.markDelete st).node q = st.node q
  | [], st => ⟨rfl, rfl, rfl, fun q => ⟨rfl, rfl, by simp⟩, fun _ _ => rfl⟩
  | p :: ps, st => by
    obtain ⟨h1, h2, h3, h4, h5⟩ := foldl_markDelete ps (st.markDelete p)
    rw [List.foldl_cons]
    refine ⟨h1, h2, h3, fun q => ?_, fun q hq => ?_⟩
    · obtain ⟨hk, ha, hd⟩ := h4 q
      obtain ⟨hk', ha'⟩ := markDelete_node st p q
      refine ⟨hk.trans hk', ha.trans ha', ?_⟩
      rw [hd, deleted_markDelete]
      by_cases hq : q = p
      · simp [hq]
      · simp [hq]
    · rw [List.mem_cons, not_or] at hq
      rw [h5 q hq.2, node_markDelete_of_ne hq.1]

theorem Listed.marked (h : Listed st i xs) (ps : List Nat) :
    Listed (ps.foldl RangeMaps.markDelete st) i xs := by
  obtain ⟨hlive, hmal, hslot, hnode, -⟩ := foldl_markDelete ps st
  exact h.congr (fun p _ => (hnode p).1) (fun p _ => (hnode p).2.1) (fun p _ => by rw [hlive])
    hmal.ge (by rw [hslot])

theorem RangeMapsInv.delete (h : RangeMapsInv st all loaded) (i : Fin 10) (ps : List Nat)
    (hps : ∀ p ∈ ps, p ∈ all i) :
    RangeMapsInv (rangeMapLoad (rangeMapClean (ps.foldl RangeMaps.markDelete st) i) i)
      (Function.update all i ((all i).filter fun p => !(decide (p ∈ ps) || (st.node p).deleted)))
      (Function.update loaded i
        ((all i).filter fun p => !(decide (p ∈ ps) || (st.node p).deleted))) := by
  obtain ⟨hlive, hmal, hslot, hnode, hother⟩ := foldl_markDelete ps st
  have hl := (h.maps i).toListed.marked ps
  have hr := h.reload i hl (fun p hp => ?_) hlive hmal hslot
  · have hdel : ∀ p, ((ps.foldl RangeMaps.markDelete st).node p).deleted
        = (decide (p ∈ ps) || (st.node p).deleted) := fun p => (hnode p).2.2
    simpa only [hdel] using hr
  · rw [hother p fun hm => hp (hps p hm)]
    exact .refl _

theorem Listed.delete_frame (h : Listed st i xs) (ps : List Nat) :
    (∀ q, ((rangeMapLoad (rangeMapClean (ps.foldl RangeMaps.markDelete st) i) i).node q).key
        = (st.node q).key ∧
      ((rangeMapLoad (rangeMapClean (ps.foldl RangeMaps.markDelete st) i) i).node q).deleted
        = (decide (q ∈ ps) || (st.node q).deleted)) ∧
      ∀ j, ((rangeMapLoad (rangeMapClean (ps.foldl RangeMaps.markDelete st) i) i).slot j).name
        = (st.slot j).name := by
  obtain ⟨-, -, hslot, hnode, -⟩ := foldl_markDelete ps st
  obtain ⟨-, hr⟩ := (h.marked ps).reload
  refine ⟨fun q => ⟨?_, ?_⟩, fun j => ?_⟩
  · exact (RangeNode.key_of_data (hr.data q)).trans (hnode q).1
  · exact (RangeNode.deleted_of_data (hr.data q)).trans (hnode q).2.2
  · by_cases hj : j = i
    · subst hj
      rw [hr.name, hslot]
    · rw [hr.slots j hj, hslot]

theorem RangeMapsInv.delete_data (h : RangeMapsInv st all loaded) (i : Fin 10) (ps : List Nat)
    (hps : ∀ p ∈ ps, p ∈ all i) {j : Fin 10} (hp : p ∈ Function.update all i
      ((all i).filter fun p => !(decide (p ∈ ps) || (st.node p).deleted)) j) :
    p ∈ all j ∧
      ((rangeMapLoad (rangeMapClean (ps.foldl RangeMaps.markDelete st) i) i).node p).data
        = (st.node p).data := by
  obtain ⟨-, -, -, -, hother⟩ := foldl_markDelete ps st
  have hl := (h.maps i).toListed.marked ps
  have hdata : p ∉ ps →
      ((rangeMapLoad (rangeMapClean (ps.foldl RangeMaps.markDelete st) i) i).node p).data
        = (st.node p).data := by
    intro hn
    rw [hl.reload.2.data p, hother p hn]
  by_cases hj : j = i
  · subst hj
    rw [Function.update_self, List.mem_filter] at hp
    refine ⟨hp.1, hdata fun hm => ?_⟩
    simp [hm] at hp
  · rw [Function.update_of_ne hj] at hp
    exact ⟨hp, hdata fun hm => hj (h.disjoint hp (hps p hm))⟩

theorem foldl_setNode {f : RangeNode → RangeNode} (hf : ∀ n, SameNode n (f n)) :
    ∀ (ps : List Nat) (st : RangeMaps),
      (ps.foldl (fun st p => st.setNode p f) st).live = st.live ∧
      (ps.foldl (fun st p => st.setNode p f) st).mallocs = st.mallocs ∧
      (ps.foldl (fun st p => st.setNode p f) st).slot = st.slot ∧
      ∀ q, SameNode (st.node q) ((ps.foldl (fun st p => st.setNode p f) st).node q)
  | [], st => ⟨rfl, rfl, rfl, fun _ => .refl _⟩
  | p :: ps, st => by
    obtain ⟨h1, h2, h3, h4⟩ := foldl_setNode hf ps (st.setNode p f)
    rw [List.foldl_cons]
    refine ⟨h1, h2, h3, fun q => SameNode.trans ?_ (h4 q)⟩
    by_cases hq : q = p
    · subst hq
      rw [RangeMaps.node_setNode_self]
      exact hf _
    · rw [RangeMaps.node_setNode_of_ne _ hq]
      exact .refl _

theorem node_foldl_setNode {f : RangeNode → RangeNode} {ps : List Nat} (hn : ps.Nodup) (q : Nat) :
    (ps.foldl (fun st p => st.setNode p f) st).node q
      = if q ∈ ps then f (st.node q) else st.node q := by
  induction ps generalizing st with
  | nil => simp
  | cons p ps ih =>
    obtain ⟨hp, hn⟩ := List.nodup_cons.mp hn
    rw [List.foldl_cons, ih hn]
    by_cases hq : q = p
    · subst hq
      rw [if_neg hp, if_pos List.mem_cons_self, RangeMaps.node_setNode_self]
    · rw [RangeMaps.node_setNode_of_ne _ hq]
      simp [hq]

theorem RangeMapsInv.setNodes (h : RangeMapsInv st all loaded) {f : RangeNode → RangeNode}
    (hf : ∀ n, SameNode n (f n)) (ps : List Nat) :
    RangeMapsInv (ps.foldl (fun st p => st.setNode p f) st) all loaded := by
  obtain ⟨hlive, hmal, hslot, hnode⟩ := foldl_setNode hf ps st
  exact h.congr hnode hlive hmal fun j => by rw [hslot]; exact ⟨rfl, rfl, rfl⟩

theorem rangeMapReconnect_same (env : Env) (name : CStr) (n : RangeNode) :
    SameNode n (rangeMapReconnect env name n) := by
  unfold rangeMapReconnect
  split
  · exact ⟨rfl, rfl, rfl, hasFlag_or (by decide)⟩
  · exact ⟨rfl, rfl, rfl, hasFlag_and_not (by decide)⟩

theorem foldl_reconnect_eq (env : Env) (i : Fin 10) (ps : List Nat) (st : RangeMaps) :
    ps.foldl (fun st p => st.setNode p (rangeMapReconnect env (st.slot i).name)) st
      = ps.foldl (fun s p => s.setNode p (rangeMapReconnect env (st.slot i).name)) st := by
  have hfold : ∀ (ps : List Nat) (st' : RangeMaps), st'.slot = st.slot →
      ps.foldl (fun st p => st.setNode p (rangeMapReconnect env (st.slot i).name)) st'
        = ps.foldl (fun s p => s.setNode p (rangeMapReconnect env (st.slot i).name)) st' := by
    intro ps
    induction ps with
    | nil => exact fun _ _ => rfl
    | cons p ps ih =>
      intro st' hs
      rw [List.foldl_cons, List.foldl_cons, hs]
      exact ih _ hs
  exact hfold ps st rfl

theorem selfPortSetup_frame (env : Env) (st : RangeMaps) :
    (esqRangeMapNotifySelfPortSetup env st).live = st.live ∧
      (esqRangeMapNotifySelfPortSetup env st).mallocs = st.mallocs ∧
      (esqRangeMapNotifySelfPortSetup env st).slot = st.slot ∧
      ∀ q, SameNode (st.node q) ((esqRangeMapNotifySelfPortSetup env st).node q) := by
  unfold esqRangeMapNotifySelfPortSetup
  generalize List.finRange 10 = is
  induction is generalizing st with
  | nil => exact ⟨rfl, rfl, rfl, fun _ => .refl _⟩
  | cons i is ih =>
    rw [List.foldl_cons]
    split
    · exact ih st
    · rw [foldl_reconnect_eq]
      obtain ⟨h1, h2, h3, h4⟩ :=
        foldl_setNode (rangeMapReconnect_same env (st.slot i).name) (st.allNodes i) st
      obtain ⟨g1, g2, g3, g4⟩ := ih ((st.allNodes i).foldl
        (fun s p => s.setNode p (rangeMapReconnect env (st.slot i).name)) st)
      exact ⟨g1.trans h1, g2.trans h2, g3.trans h3, fun q => (h4 q).trans (g4 q)⟩

/-- **名前のある map の node は、一度ずつ接続が直される。** -/
theorem RangeMapsInv.node_selfPortSetup (h : RangeMapsInv st all loaded) (env : Env)
    (hp : p ∈ all i) : (esqRangeMapNotifySelfPortSetup env st).node p
      = if (st.slot i).name = .empty then st.node p
        else rangeMapReconnect env (st.slot i).name (st.node p) := by
  have hloop : ∀ (is : List (Fin 10)), is.Nodup → ∀ {st : RangeMaps}, RangeMapsInv st all loaded →
      (is.foldl (fun st i => if (st.slot i).name = .empty then st
        else (st.allNodes i).foldl (fun st p =>
          st.setNode p (rangeMapReconnect env (st.slot i).name)) st) st).node p
        = if i ∈ is ∧ (st.slot i).name ≠ .empty
          then rangeMapReconnect env (st.slot i).name (st.node p) else st.node p := by
    intro is
    induction is with
    | nil => simp
    | cons j is ih =>
      intro hn st h
      obtain ⟨hj, hn⟩ := List.nodup_cons.mp hn
      rw [List.foldl_cons]
      split
      · next hname =>
        rw [ih hn h]
        by_cases hij : i = j
        · subst hij
          simp [hj, hname]
        · simp [hij]
      · next hname =>
        rw [foldl_reconnect_eq, (h.maps j).toListed.allNodes_eq]
        have hinv := h.setNodes (rangeMapReconnect_same env (st.slot j).name) (all j)
        obtain ⟨-, -, hslot, -⟩ :=
          foldl_setNode (rangeMapReconnect_same env (st.slot j).name) (all j) st
        rw [ih hn hinv, hslot, node_foldl_setNode (h.maps j).toListed.linked.nodup]
        by_cases hij : i = j
        · subst hij
          simp [hj, hname, hp]
        · have hpj : p ∉ all j := fun hm => hij (h.disjoint hp hm)
          simp [hij, hpj]
  unfold esqRangeMapNotifySelfPortSetup
  rw [hloop _ (List.nodup_finRange 10) h]
  by_cases hname : (st.slot i).name = .empty <;> simp [hname]

theorem RangeMapsInv.selfPortSetup (h : RangeMapsInv st all loaded) (env : Env) :
    RangeMapsInv (esqRangeMapNotifySelfPortSetup env st) all loaded := by
  obtain ⟨hlive, hmal, hslot, hnode⟩ := selfPortSetup_frame env st
  exact h.congr hnode hlive hmal fun j => by rw [hslot]; exact ⟨rfl, rfl, rfl⟩

theorem rangeMapsInv_init : RangeMapsInv RangeMaps.init (fun _ => []) (fun _ => []) := by
  refine ⟨fun i => ⟨⟨rfl, Nat.zero_le _, by simp, by simp, List.nodup_nil⟩, ⟨?_, ?_, by simp, ?_⟩,
    by simp, List.nodup_nil, by simp⟩, by simp⟩
  · refine ⟨fun _ => rfl, fun _ _ => rfl, fun k _ hg => absurd rfl hg⟩
  · intro l n hn
    cases hn
  · exact Nat.zero_lt_succ 31

end

end Esq
