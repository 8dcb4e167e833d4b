import Esq.RangeMap.Addresses
import Esq.RangeMap.Step

/-!
# hash から引いた chain

成功した操作の記録（`log`）を map の名前ごとに持ち、all_list がその記録の通りであることと、
読み込んだ直後の chain が prefix の一致する node をちょうど並べることを示す（`rangeMap_lookup`）。

記録は新しい順に並ぶ。`RM_NODE_DELETE` を付けて足した node は、足した map が次に掃除されるまで
all_list に残る。そこで記録と突き合わせるのは、`RM_NODE_DELETE` の無い node だけである。

名前の無い map（名前が空の slot）には操作しない。
-/

namespace Esq

open Infra

/-! ## 操作の記録 -/

structure Entry where
  addr : Nat
  ip : Nat
  port : Int
  hash : List UInt8
  flags : BitVec 32
deriving DecidableEq

def Entry.key (e : Entry) : Nat × Int × List UInt8 := (e.ip, e.port, e.hash)

def Entry.deleted (e : Entry) : Bool := hasFlag e.flags rmNodeDelete

def logStep (log : CStr → List Entry) : RangeMapOp → CStr → List Entry
  | .addNode _ oracle mapName ipStr port flags hashString =>
    match translateMkcParams ipStr hashString, oracle with
    | .ok params, some p =>
      Function.update log mapName
        ({ addr := p, ip := params.ip, port, hash := params.hash, flags } :: log mapName)
    | _, _ => log
  | .delNode mapName ipStr port hashString =>
    match translateMkcParams ipStr hashString with
    | .ok params =>
      Function.update log mapName
        ((log mapName).filter fun e => e.key ≠ (params.ip, port, params.hash))
    | .error _ => log
  | .delAllNode mapName => Function.update log mapName []
  | _ => log

structure RangeHistory where
  maps : RangeMaps
  log : CStr → List Entry

def RangeHistory.init : RangeHistory := { maps := .init, log := fun _ => [] }

def rangeHistoryStep (h : RangeHistory) (op : RangeMapOp) : Option String × RangeHistory :=
  match rangeMapStep h.maps op with
  | (none, maps) => (none, { maps, log := logStep h.log op })
  | (some errs, maps) => (some errs, { h with maps })

def rangeHistoryRun (h : RangeHistory) (ops : List RangeMapOp) : RangeHistory :=
  ops.foldl (fun h op => (rangeHistoryStep h op).2) h

def RangeMapOp.Named : RangeMapOp → Prop
  | .addNode _ _ mapName _ _ _ _ => mapName ≠ .empty
  | .delNode mapName _ _ _ => mapName ≠ .empty
  | .delAllNode mapName => mapName ≠ .empty
  | .flush name => name ≠ .empty
  | _ => True

/-! ## 記録と all_list -/

def keptNodes (st : RangeMaps) (xs : List Nat) : List (Nat × Nat × Int × List UInt8) :=
  (xs.filter fun p => !(st.node p).deleted).map fun p => (p, (st.node p).key)

/-- 記録のうち、`RM_NODE_DELETE` を付けずに足されたもの。 -/
def survivors (es : List Entry) : List (Nat × Nat × Int × List UInt8) :=
  (es.filter fun e => !e.deleted).map fun e => (e.addr, e.key)

structure HistoryInv (h : RangeHistory) (all loaded : Fin 10 → List Nat) : Prop where
  inv : RangeMapsInv h.maps all loaded
  names : ∀ {i j}, (h.maps.slot i).name = (h.maps.slot j).name →
    (h.maps.slot i).name ≠ .empty → i = j
  unnamed : ∀ i, (h.maps.slot i).name = .empty → all i = []
  log : ∀ i, (h.maps.slot i).name ≠ .empty →
    keptNodes h.maps (all i) = survivors (h.log (h.maps.slot i).name)
  nolog : ∀ m, m ≠ .empty → (∀ i, (h.maps.slot i).name ≠ m) → h.log m = []

section

variable {st st' : RangeMaps} {i j : Fin 10} {p q : Nat} {xs ys : List Nat} {m : CStr}
  {all loaded : Fin 10 → List Nat} {h : RangeHistory}

theorem keptNodes_congr (hkey : ∀ p ∈ xs, (st'.node p).key = (st.node p).key)
    (hdel : ∀ p ∈ xs, (st'.node p).deleted = (st.node p).deleted) :
    keptNodes st' xs = keptNodes st xs := by
  unfold keptNodes
  rw [List.filter_congr fun p hp => by rw [hdel p hp]]
  refine List.map_congr_left fun p hp => ?_
  rw [hkey p (List.mem_of_mem_filter hp)]

theorem HistoryInv.congr (hi : HistoryInv h all loaded) (hinv : RangeMapsInv st' all loaded)
    (hname : ∀ i, (st'.slot i).name = (h.maps.slot i).name)
    (hnode : ∀ p, SameNode (h.maps.node p) (st'.node p)) :
    HistoryInv { h with maps := st' } all loaded where
  inv := hinv
  names {i j} he hne := by
    simp only [hname] at he hne
    exact hi.names he hne
  unnamed i he := hi.unnamed i (by rw [← hname]; exact he)
  log i hne := by
    simp only [hname] at hne ⊢
    rw [keptNodes_congr (fun p _ => (hnode p).key) fun p _ => (hnode p).deleted]
    exact hi.log i hne
  nolog m hm0 hm := hi.nolog m hm0 fun i => by rw [← hname]; exact hm i

theorem HistoryInv.setNodes (hi : HistoryInv h all loaded) {f : RangeNode → RangeNode}
    (hf : ∀ n, SameNode n (f n)) (ps : List Nat) :
    HistoryInv { h with maps := ps.foldl (fun st p => st.setNode p f) h.maps } all loaded := by
  obtain ⟨-, -, hslot, hnode⟩ := foldl_setNode hf ps h.maps
  exact hi.congr (hi.inv.setNodes hf ps) (fun i => by rw [hslot]) hnode

/-- **一つの map の一部の node を消して読み込み直す。** -/
theorem HistoryInv.delete (hi : HistoryInv h all loaded) (i : Fin 10) (ps : List Nat)
    (es : List Entry) (hps : ∀ p ∈ ps, p ∈ all i) (hne : (h.maps.slot i).name ≠ .empty)
    (hes : survivors es = (keptNodes h.maps (all i)).filter fun e => e.1 ∉ ps) :
    HistoryInv
      { maps := rangeMapLoad (rangeMapClean (ps.foldl RangeMaps.markDelete h.maps) i) i
        log := Function.update h.log (h.maps.slot i).name es }
      (Function.update all i
        ((all i).filter fun p => !(decide (p ∈ ps) || (h.maps.node p).deleted)))
      (Function.update loaded i
        ((all i).filter fun p => !(decide (p ∈ ps) || (h.maps.node p).deleted))) := by
  have hinv := hi.inv.delete i ps hps
  obtain ⟨hnode, hname⟩ := (hi.inv.maps i).toListed.delete_frame ps
  generalize rangeMapLoad (rangeMapClean (ps.foldl RangeMaps.markDelete h.maps) i) i = st'
    at hinv hnode hname ⊢
  refine ⟨hinv, fun {j k} he hj => ?_, fun j hj => ?_, fun j hj => ?_, fun m hm0 hm => ?_⟩
  · simp only [hname] at he hj
    exact hi.names he hj
  · simp only [hname] at hj
    have hji : j ≠ i := by
      rintro rfl
      exact hne hj
    rw [Function.update_of_ne hji]
    exact hi.unnamed j hj
  · simp only [hname] at hj ⊢
    by_cases hji : j = i
    · subst hji
      rw [Function.update_self, Function.update_self, hes]
      unfold keptNodes
      rw [List.filter_filter, List.filter_map, List.filter_filter]
      simp only [hnode, Function.comp]
      congr 1
      refine List.filter_congr fun p _ => ?_
      cases (h.maps.node p).deleted <;> simp
    · have hnamei : (h.maps.slot j).name ≠ (h.maps.slot i).name := fun he => hji (hi.names he hj)
      rw [Function.update_of_ne hji, Function.update_of_ne hnamei, ← hi.log j hj]
      refine keptNodes_congr (fun p _ => (hnode p).1) fun p hp => ?_
      have hp' : p ∉ ps := fun hm => hji (hi.inv.disjoint hp (hps p hm))
      simp [(hnode p).2, hp']
  · simp only [hname] at hm
    show Function.update h.log (h.maps.slot i).name es m = []
    rw [Function.update_of_ne (fun he => hm i he.symm)]
    exact hi.nolog m hm0 hm

theorem HistoryInv.setName (hi : HistoryInv h all loaded) {name : CStr} (hname : name ≠ .empty)
    (hfree : ∀ j, (h.maps.slot j).name ≠ name) (hslot : (h.maps.slot i).name = .empty) :
    HistoryInv { h with maps := h.maps.setSlot i fun m => { m with name := name } } all loaded := by
  refine ⟨hi.inv.setName i name, RangeMaps.names_setName hi.names hfree, fun j hj => ?_,
    fun j hj => ?_, fun m hm0 hm => ?_⟩
  · by_cases hji : j = i
    · rw [hji]
      exact hi.unnamed i hslot
    · rw [RangeMaps.name_setName_of_ne _ hji] at hj
      exact hi.unnamed j hj
  · by_cases hji : j = i
    · subst hji
      rw [RangeMaps.name_setName_self, hi.unnamed j hslot, hi.nolog name hname hfree]
      rfl
    · rw [RangeMaps.name_setName_of_ne _ hji] at hj ⊢
      exact hi.log j hj
  · refine hi.nolog m hm0 fun j hj => ?_
    by_cases hji : j = i
    · rw [hji, hslot] at hj
      exact hm0 hj.symm
    · exact hm j ((RangeMaps.name_setName_of_ne _ hji name).trans hj)

theorem HistoryInv.join (hi : HistoryInv h all loaded) (i : Fin 10) {node : RangeNode} {e : Entry}
    (hp : h.maps.live e.addr = false) (hkey : ∀ q ∈ all i, (h.maps.node q).key ≠ node.key)
    (hshort : node.hash.length < hashValueLength) (hne : (h.maps.slot i).name ≠ .empty)
    (hek : e.key = node.key) (hed : e.deleted = node.deleted) :
    HistoryInv
      { maps := h.maps.joinAllList i e.addr node
        log := Function.update h.log (h.maps.slot i).name (e :: h.log (h.maps.slot i).name) }
      (Function.update all i (e.addr :: all i)) loaded := by
  have hinv := hi.inv.join i hp hkey hshort
  have hname : ∀ j, ((h.maps.joinAllList i e.addr node).slot j).name = (h.maps.slot j).name :=
    RangeMaps.name_joinAllList h.maps i e.addr node
  have hself : (h.maps.joinAllList i e.addr node).node e.addr
      = { node with allNodeListNext := (h.maps.slot i).allList } := Function.update_self ..
  have hkept : ∀ j, keptNodes (h.maps.joinAllList i e.addr node) (all j)
      = keptNodes h.maps (all j) := by
    intro j
    have hnode : ∀ q ∈ all j, (h.maps.joinAllList i e.addr node).node q = h.maps.node q := by
      intro q hq
      refine Function.update_of_ne ?_ _ _
      rintro rfl
      have := (hi.inv.maps j).live _ hq
      rw [hp] at this
      cases this
    exact keptNodes_congr (fun q hq => by rw [hnode q hq]) fun q hq => by rw [hnode q hq]
  refine ⟨hinv, fun {j k} he hj => ?_, fun j hj => ?_, fun j hj => ?_, fun m hm0 hm => ?_⟩
  · simp only [hname] at he hj
    exact hi.names he hj
  · simp only [hname] at hj
    have hji : j ≠ i := by
      rintro rfl
      exact hne hj
    rw [Function.update_of_ne hji]
    exact hi.unnamed j hj
  · simp only [hname] at hj ⊢
    by_cases hji : j = i
    · subst hji
      have hlog := hi.log j hj
      rw [← hkept j] at hlog
      rw [Function.update_self, Function.update_self]
      have hdel : ((h.maps.joinAllList j e.addr node).node e.addr).deleted = e.deleted := by
        rw [hself, hed]
        rfl
      have hk : ((h.maps.joinAllList j e.addr node).node e.addr).key = e.key := by
        rw [hself, hek]
        rfl
      unfold keptNodes survivors at hlog ⊢
      rw [List.filter_cons, List.filter_cons, hdel]
      split
      · rw [List.map_cons, List.map_cons, hlog, hk]
      · exact hlog
    · have hnamei : (h.maps.slot j).name ≠ (h.maps.slot i).name := fun he => hji (hi.names he hj)
      rw [Function.update_of_ne hji, Function.update_of_ne hnamei, ← hi.log j hj]
      exact hkept j
  · simp only [hname] at hm
    show Function.update h.log (h.maps.slot i).name _ m = []
    rw [Function.update_of_ne (fun he => hm i he.symm)]
    exact hi.nolog m hm0 hm

/-- `m` という名前の map は読み込んだばかりで、足したままの node が無い。 -/
def Fresh (st : RangeMaps) (m : CStr) (all loaded : Fin 10 → List Nat) : Prop :=
  ∃ i, rangeMapFindByName st m = some i ∧ all i = loaded i

theorem HistoryInv.reload (hi : HistoryInv h all loaded)
    (hf : rangeMapFindByName h.maps m = some i) (hm : m ≠ .empty) (ps : List Nat)
    (es : List Entry) (hps : ∀ p ∈ ps, p ∈ all i)
    (hes : survivors es = (survivors (h.log m)).filter fun e => e.1 ∉ ps) :
    ∃ all' loaded', HistoryInv
      { maps := rangeMapLoad (rangeMapClean (ps.foldl RangeMaps.markDelete h.maps) i) i
        log := Function.update h.log m es } all' loaded' ∧
      Fresh (rangeMapLoad (rangeMapClean (ps.foldl RangeMaps.markDelete h.maps) i) i) m
        all' loaded' := by
  have hname := rangeMapFindByName_eq_some hf
  have hne : (h.maps.slot i).name ≠ .empty := by
    rw [hname]
    exact hm
  have hdel := hi.delete i ps es hps hne (by rw [hes, hi.log i hne, hname])
  rw [hname] at hdel
  refine ⟨_, _, hdel, i, ?_, ?_⟩
  · rw [rangeMapFindByName_congr ((hi.inv.maps i).toListed.delete_frame ps).2]
    exact hf
  · rw [Function.update_self, Function.update_self]

theorem HistoryInv.survivors_filter {k : Nat × Int × List UInt8} (hi : HistoryInv h all loaded)
    (hf : rangeMapFindByName h.maps m = some i) (hm : m ≠ .empty) (hp : p ∈ all i)
    (hk : (h.maps.node p).key = k) :
    survivors ((h.log m).filter fun e => e.key ≠ k)
      = (survivors (h.log m)).filter fun e => e.1 ∉ [p] := by
  have hname := rangeMapFindByName_eq_some hf
  have hlog := hi.log i (by rw [hname]; exact hm)
  rw [hname] at hlog
  have hleft : survivors ((h.log m).filter fun e => e.key ≠ k)
      = (survivors (h.log m)).filter fun e => e.2 ≠ k := by
    unfold survivors
    rw [List.filter_filter, List.filter_map, List.filter_filter]
    congr 1
    refine List.filter_congr fun e _ => ?_
    exact Bool.and_comm _ _
  rw [hleft, ← hlog]
  refine List.filter_congr fun e he => ?_
  obtain ⟨q, hq, rfl⟩ := List.mem_map.mp he
  have hq := List.mem_of_mem_filter hq
  have hinj := List.inj_on_of_nodup_map (hi.inv.maps i).keys
  have hiff : (h.maps.node q).key = k ↔ q = p := by
    rw [← hk]
    exact ⟨fun hqk => hinj hq hp hqk, fun hqp => by rw [hqp]⟩
  simp [hiff]

/-- 一つの操作の後も記録と合い、読み込み直した map には、足したままの node が無い。 -/
def RangeHistory.Advances (h : RangeHistory) (op : RangeMapOp) : Prop :=
  ∃ all' loaded', HistoryInv (rangeHistoryStep h op).2 all' loaded' ∧
    ∀ m, op.Reloads m → (rangeHistoryStep h op).1 = none →
      Fresh (rangeHistoryStep h op).2.maps m all' loaded'

theorem rangeHistoryStep_of_error {op : RangeMapOp} {errs : String}
    (he : rangeMapStep h.maps op = (some errs, h.maps)) :
    rangeHistoryStep h op = (some errs, h) := by
  unfold rangeHistoryStep
  rw [he]

theorem rangeHistoryStep_of_ok {op : RangeMapOp} (he : rangeMapStep h.maps op = (none, st')) :
    rangeHistoryStep h op = (none, { maps := st', log := logStep h.log op }) := by
  unfold rangeHistoryStep
  rw [he]

theorem HistoryInv.advances_of_error (hi : HistoryInv h all loaded) {op : RangeMapOp}
    (errs : String) (he : rangeMapStep h.maps op = (some errs, h.maps)) : h.Advances op := by
  unfold RangeHistory.Advances
  rw [rangeHistoryStep_of_error he]
  exact ⟨all, loaded, hi, fun _ _ hn => by cases hn⟩

theorem RangeHistory.advances_of_ok {op : RangeMapOp} (he : rangeMapStep h.maps op = (none, st'))
    (hr : ∀ m, ¬ op.Reloads m)
    (hi : ∃ all' loaded', HistoryInv { maps := st', log := logStep h.log op } all' loaded') :
    h.Advances op := by
  obtain ⟨all', loaded', hi⟩ := hi
  unfold RangeHistory.Advances
  rw [rangeHistoryStep_of_ok he]
  exact ⟨all', loaded', hi, fun m hm => absurd hm (hr m)⟩

theorem HistoryInv.advances_of_reload (hi : HistoryInv h all loaded) {op : RangeMapOp}
    (ps : List Nat) (es : List Entry)
    (he : rangeMapStep h.maps op
      = (none, rangeMapLoad (rangeMapClean (ps.foldl RangeMaps.markDelete h.maps) i) i))
    (hop : ∀ m', op.Reloads m' → m' = m) (hf : rangeMapFindByName h.maps m = some i)
    (hm : m ≠ .empty) (hps : ∀ p ∈ ps, p ∈ all i)
    (hlog : logStep h.log op = Function.update h.log m es)
    (hes : survivors es = (survivors (h.log m)).filter fun e => e.1 ∉ ps) : h.Advances op := by
  obtain ⟨all', loaded', hr, hfresh⟩ := hi.reload hf hm ps es hps hes
  unfold RangeHistory.Advances
  rw [rangeHistoryStep_of_ok he, hlog]
  refine ⟨all', loaded', hr, ?_⟩
  intro m' hm' _
  rw [hop m' hm']
  exact hfresh

theorem HistoryInv.new (hi : HistoryInv h all loaded) (name : CStr) : h.Advances (.new name) := by
  rcases rangeMapNew_cases h.maps name with ⟨errs, he⟩ | ⟨i, he, hname, hfree, hslot⟩
  · exact hi.advances_of_error errs he
  · exact RangeHistory.advances_of_ok he (fun _ hr => hr) ⟨_, _, hi.setName hname hfree hslot⟩

theorem HistoryInv.addNode (hi : HistoryInv h all loaded) (env : Env) (oracle : Option Nat)
    {mapName : CStr} (ipStr : CStr) (port : Int) (flags : BitVec 32) (hashString : CStr)
    (hnamed : mapName ≠ .empty) :
    h.Advances (.addNode env oracle mapName ipStr port flags hashString) := by
  rcases rangeMapStep_cases h.maps (.addNode env oracle mapName ipStr port flags hashString) with
    ⟨errs, he⟩ | ⟨st', he, heff⟩
  · exact hi.advances_of_error errs he
  · refine RangeHistory.advances_of_ok he (fun _ hr => hr) ?_
    cases heff with
    | reload hop => exact hop.elim
    | @addNode _ _ _ _ _ _ _ params i p hparams hf hfind hmalloc =>
      obtain ⟨hor, hlive⟩ := RangeMaps.malloc_eq_some hmalloc
      have hname := rangeMapFindByName_eq_some hf
      obtain ⟨hkey, hdel⟩ := rangeMapNewNode_spec env mapName ipStr hashString port flags params
      have hjoin := hi.join i
        (e := { addr := p, ip := params.ip, port, hash := params.hash, flags }) hlive
        ((hi.inv.maps i).toListed.newNode_key env mapName ipStr hashString flags hfind)
        (rangeMapNewNode_hash_length env mapName port flags hparams)
        (by rw [hname]; exact hnamed) hkey.symm hdel.symm
      rw [hname] at hjoin
      have hlog : logStep h.log (.addNode env oracle mapName ipStr port flags hashString)
          = Function.update h.log mapName
            ({ addr := p, ip := params.ip, port, hash := params.hash, flags }
              :: h.log mapName) := by
        simp only [logStep, hparams, hor]
      rw [hlog]
      exact ⟨_, _, hjoin⟩

theorem HistoryInv.delNode (hi : HistoryInv h all loaded) {mapName : CStr} (ipStr : CStr)
    (port : Int) (hashString : CStr) (hnamed : mapName ≠ .empty) :
    h.Advances (.delNode mapName ipStr port hashString) := by
  cases hparams : translateMkcParams ipStr hashString with
  | error errs =>
    exact hi.advances_of_error errs (by simp only [rangeMapStep, rangeMapDelNode, hparams])
  | ok params =>
    cases hf : rangeMapFindByName h.maps mapName with
    | none =>
      exact hi.advances_of_error "range map not exist"
        (by simp only [rangeMapStep, rangeMapDelNode, hparams, hf])
    | some i =>
      cases hfind : rangeMapFindNode h.maps i params.ip port params.hash with
      | none =>
        exact hi.advances_of_error "range node not exist"
          (by simp only [rangeMapStep, rangeMapDelNode, hparams, hf, hfind])
      | some p =>
        obtain ⟨hp, hk⟩ := rangeMapFindNode_eq_some (hi.inv.maps i).toListed hfind
        refine hi.advances_of_reload [p] _ ?_ (fun _ hr => hr.symm) hf hnamed
          (by simpa using hp) ?_ (hi.survivors_filter hf hnamed hp hk)
        · simp only [rangeMapStep, rangeMapDelNode, hparams, hf, hfind, List.foldl_cons,
            List.foldl_nil]
        · simp only [logStep, hparams]

theorem HistoryInv.delAllNode (hi : HistoryInv h all loaded) {mapName : CStr}
    (hnamed : mapName ≠ .empty) : h.Advances (.delAllNode mapName) := by
  cases hf : rangeMapFindByName h.maps mapName with
  | none =>
    exact hi.advances_of_error "range map not exist"
      (by simp only [rangeMapStep, rangeMapDelAllNode, hf])
  | some i =>
    have hname := rangeMapFindByName_eq_some hf
    have hlog := hi.log i (by rw [hname]; exact hnamed)
    rw [hname] at hlog
    refine hi.advances_of_reload (all i) [] ?_ (fun _ hr => hr.symm) hf hnamed
      (fun _ hp => hp) rfl ?_
    · simp only [rangeMapStep, rangeMapDelAllNode, hf, (hi.inv.maps i).toListed.allNodes_eq]
    · rw [← hlog]
      refine (List.filter_eq_nil_iff.mpr fun e he => ?_).symm
      obtain ⟨q, hq, rfl⟩ := List.mem_map.mp he
      simpa using List.mem_of_mem_filter hq

theorem HistoryInv.flush (hi : HistoryInv h all loaded) {name : CStr} (hnamed : name ≠ .empty) :
    h.Advances (.flush name) := by
  cases hf : rangeMapFindByName h.maps name with
  | none =>
    exact hi.advances_of_error "range map not found" (by simp only [rangeMapStep, rangeMapFlush, hf])
  | some i =>
    refine hi.advances_of_reload [] (h.log name) ?_ (fun _ hr => hr.symm) hf hnamed
      (List.forall_mem_nil _) ?_ (by simp)
    · simp only [rangeMapStep, rangeMapFlush, hf, List.foldl_nil]
    · rw [Function.update_eq_self]
      rfl

/-- **記録との対応は、名前の無い map に触れない操作で保たれる。** -/
theorem historyInv_step (hi : HistoryInv h all loaded) (op : RangeMapOp) (hnamed : op.Named) :
    h.Advances op := by
  cases op with
  | new name => exact hi.new name
  | addNode env oracle mapName ipStr port flags hashString =>
    exact hi.addNode env oracle ipStr port flags hashString hnamed
  | delNode mapName ipStr port hashString => exact hi.delNode ipStr port hashString hnamed
  | delAllNode mapName => exact hi.delAllNode hnamed
  | flush name => exact hi.flush hnamed
  | bucketOnline b mapName =>
    obtain ⟨f, ps, hf, he⟩ := rangeMapNotifyBucketOnline_eq h.maps b mapName
    refine RangeHistory.advances_of_ok rfl (fun _ hr => hr) ?_
    rw [he]
    exact ⟨_, _, hi.setNodes hf ps⟩
  | bucketOffline bucket mapName =>
    obtain ⟨f, ps, hf, he⟩ := rangeMapNotifyBucketOffline_eq h.maps bucket mapName
    refine RangeHistory.advances_of_ok rfl (fun _ hr => hr) ?_
    rw [he]
    exact ⟨_, _, hi.setNodes hf ps⟩
  | selfPortSetup env =>
    obtain ⟨-, -, hslot, hnode⟩ := selfPortSetup_frame env h.maps
    exact RangeHistory.advances_of_ok rfl (fun _ hr => hr)
      ⟨_, _, hi.congr (hi.inv.selfPortSetup env) (fun i => by rw [hslot]) hnode⟩

theorem historyInv_init : HistoryInv .init (fun _ => []) (fun _ => []) :=
  ⟨rangeMapsInv_init, fun _ hne => absurd rfl hne, fun _ _ => rfl, fun _ _ => rfl, fun _ _ _ => rfl⟩

theorem historyInv_run : ∀ (ops : List RangeMapOp) {h : RangeHistory} {all loaded},
    HistoryInv h all loaded → (∀ op ∈ ops, op.Named) →
    ∃ all' loaded', HistoryInv (rangeHistoryRun h ops) all' loaded'
  | [], _, _, _, hi, _ => ⟨_, _, hi⟩
  | op :: ops, _, _, _, hi, hn => by
    obtain ⟨_, _, hi, -⟩ := historyInv_step hi op (hn op List.mem_cons_self)
    exact historyInv_run ops hi fun o ho => hn o (List.mem_cons_of_mem op ho)

/-! ## 引いた chain -/

/-- `chain` は、prefix が `hash` に一致する node を、長い順に、同じ prefix では新しい順に並べる。 -/
structure ChainOf (st : RangeMaps) (all : List Nat) (hash : HashT) (chain : List Nat) : Prop where
  mem : ∀ p, p ∈ chain ↔ p ∈ all ∧ st.hash p <+: hash.buf
  nodup : chain.Nodup
  longest_first : chain.Pairwise fun a b =>
    (st.hash b).length < (st.hash a).length ∨ st.hash a = st.hash b
  newest_first : ∀ k, k <+: hash.buf → group st.hash chain k = group st.hash all k

theorem Loaded.chainOf (hl : Loaded st i ys) (hash : HashT) :
    ChainOf st ys hash (chainFrom st.hash ys hash.buf (st.slot i).longest) := by
  have hlen : (st.slot i).longest ≤ hash.buf.length := by
    rw [HashT.buf, hash.property]
    exact hl.longest_lt.le
  refine ⟨fun p => hl.mem_chain hash, (hl.chain hash).nodup, ?_, fun k hk => ?_⟩
  · -- `hash` の prefix は、長さが等しければ等しい
    refine List.Pairwise.imp_of_mem ?_ (chainFrom_pairwise hlen)
    intro a b ha hb hab
    rcases Nat.lt_or_eq_of_le hab with hlt | heq
    · exact Or.inl hlt
    · have ha := List.prefix_iff_eq_take.mp ((hl.mem_chain hash).mp ha).2
      have hb := List.prefix_iff_eq_take.mp ((hl.mem_chain hash).mp hb).2
      exact Or.inr (by rw [ha, hb, heq])
  · by_cases hk' : k.length ≤ (st.slot i).longest
    · exact group_chainFrom hlen hk hk'
    · have hnil : ∀ {zs : List Nat}, (∀ p ∈ zs, p ∈ ys) → group st.hash zs k = [] := by
        intro zs hzs
        refine List.eq_nil_iff_forall_not_mem.mpr fun p hp => hk' ?_
        obtain ⟨hp, he⟩ := mem_group.mp hp
        rw [← he]
        exact hl.longest p (hzs p hp)
      rw [hnil fun p hp => ((hl.mem_chain hash).mp hp).1, hnil fun _ hp => hp]

end

structure LookupSpec (h : RangeHistory) (m : CStr) (all : List Nat) : Prop where
  allList : ∃ i, rangeMapFindByName h.maps m = some i ∧
    Linked h.maps.allNext (h.maps.slot i).allList all
  /-- all_list は、足されて消されていない、`RM_NODE_DELETE` の無い node を新しい順に並べる -/
  log : (all.map fun p => (p, (h.maps.node p).key)) = survivors (h.log m)
  chain : ∀ hash, ∃ chain, Linked h.maps.next (rangeMapFindAndLock h.maps m hash) chain ∧
    ChainOf h.maps all hash chain
  notFound : ∀ hash, rangeMapFindAndLock h.maps m hash = none ↔
    ∀ p ∈ all, ¬ h.maps.hash p <+: hash.buf

/--
**読み込みや削除の直後に hash から引くと、prefix の一致する node がちょうど一度ずつ、
長い prefix から順に、同じ prefix では新しい順に並ぶ。**
-/
theorem rangeMap_lookup (ops : List RangeMapOp) (op : RangeMapOp) (m : CStr)
    (hops : ∀ o ∈ ops, o.Named) (hop : op.Named) (hm : op.Reloads m)
    (hok : (rangeHistoryStep (rangeHistoryRun .init ops) op).1 = none) :
    ∃ all, LookupSpec (rangeHistoryStep (rangeHistoryRun .init ops) op).2 m all := by
  obtain ⟨_, _, hi⟩ := historyInv_run ops historyInv_init hops
  obtain ⟨all, loaded, hi, hfresh⟩ := historyInv_step hi op hop
  obtain ⟨i, hf, hall⟩ := hfresh m hm hok
  generalize (rangeHistoryStep (rangeHistoryRun .init ops) op).2 = h at hi hf
  have hmap := hi.inv.maps i
  have hname := rangeMapFindByName_eq_some hf
  have hne : (h.maps.slot i).name ≠ .empty := by
    rw [hname]
    cases op with
    | delNode mapName ipStr port hashString =>
      have hm : mapName = m := hm
      exact hm ▸ hop
    | delAllNode mapName =>
      have hm : mapName = m := hm
      exact hm ▸ hop
    | flush name =>
      have hm : name = m := hm
      exact hm ▸ hop
    | _ => exact hm.elim
  have hfind : ∀ hash, rangeMapFindAndLock h.maps m hash
      = search (rbFind h.maps i) hash.buf (h.maps.slot i).longest := by
    intro hash
    simp only [rangeMapFindAndLock, hf]
  have hindex := hmap.index
  rw [← hall] at hindex
  refine ⟨all i, ⟨i, hf, hmap.linked⟩, ?_, fun hash => ?_, fun hash => ?_⟩
  · have hlog := hi.log i hne
    rw [hname] at hlog
    rw [← hlog, keptNodes, List.filter_eq_self.mpr]
    intro p hp
    rw [hall] at hp
    simp [hmap.kept p hp]
  · rw [hfind]
    exact ⟨_, hindex.chain hash, hindex.chainOf hash⟩
  · rw [hfind, (hindex.chain hash).eq_none_iff, List.eq_nil_iff_forall_not_mem]
    constructor
    · exact fun h p hp hpre => h p ((hindex.mem_chain hash).mpr ⟨hp, hpre⟩)
    · intro h p hp
      obtain ⟨hp, hpre⟩ := (hindex.mem_chain hash).mp hp
      exact h p hp hpre

def Env.remote : Env where
  inetAddr _ := 0
  osIpAddressIsMe _ := false
  beeServerIsMyPort _ := false
  esqBeeFindBucket _ _ _ _ := none

/-- 名前 `a` の map に、prefix が `aa` の node と空の node を足して読み込む。 -/
theorem rangeMap_lookup_two :
    ∃ all, LookupSpec
      (rangeHistoryStep (rangeHistoryRun .init
        [.new ⟨[97], by decide⟩,
          .addNode .remote (some 100) ⟨[97], by decide⟩ ⟨[49, 46, 49, 46, 49, 46, 49], by decide⟩ 80 0
            ⟨[97, 97, 120], by decide⟩,
          .addNode .remote (some 101) ⟨[97], by decide⟩ ⟨[49, 46, 49, 46, 49, 46, 50], by decide⟩ 80 0
            ⟨[120], by decide⟩])
        (.flush ⟨[97], by decide⟩)).2 ⟨[97], by decide⟩ all := by
  have hne : (⟨[97], by decide⟩ : CStr) ≠ CStr.empty := by
    intro h
    exact absurd (congrArg CStr.bytes h) (by decide)
  refine rangeMap_lookup _ _ _ ?_ hne rfl ?_
  · intro o ho
    simp only [List.mem_cons, List.not_mem_nil, or_false] at ho
    rcases ho with rfl | rfl | rfl
    · trivial
    · exact hne
    · exact hne
  · decide +kernel

end Esq
