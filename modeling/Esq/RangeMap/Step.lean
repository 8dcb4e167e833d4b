import Esq.RangeMap.Invariant

/-!
# range map の操作の効果

操作は失敗すれば何も変えない。成功した操作が行うことは `RangeMapEffect` に尽きる。
-/

namespace Esq

open Infra

def RangeMapOp.Reloads (m : CStr) : RangeMapOp → Prop
  | .delNode mapName _ _ _ => mapName = m
  | .delAllNode mapName => mapName = m
  | .flush name => name = m
  | _ => False

inductive RangeMapEffect (st : RangeMaps) : RangeMapOp → RangeMaps → Prop where
  | new {name : CStr} {i : Fin 10} (hcheck : rangeMapNameCheck name = none)
      (hfree : rangeMapFindByName st name = none)
      (hslot : (List.finRange 10).find? (fun i => (st.slot i).name = .empty) = some i) :
      RangeMapEffect st (.new name) (st.setSlot i fun m => { m with name := name })
  | addNode {env : Env} {oracle : Option Nat} {mapName ipStr hashString : CStr} {port : Int}
      {flags : BitVec 32} {params : MkcParams} {i : Fin 10} {p : Nat}
      (hparams : translateMkcParams ipStr hashString = .ok params)
      (hf : rangeMapFindByName st mapName = some i)
      (hfind : rangeMapFindNode st i params.ip port params.hash = none)
      (hmalloc : st.malloc oracle = some p) :
      RangeMapEffect st (.addNode env oracle mapName ipStr port flags hashString)
        (st.joinAllList i p (rangeMapNewNode env mapName ipStr hashString port flags params))
  /-- `ps` に `RM_NODE_DELETE` を立ててから、掃除して読み込む -/
  | reload {op : RangeMapOp} {name : CStr} {i : Fin 10} {ps : List Nat} (hop : op.Reloads name)
      (hf : rangeMapFindByName st name = some i) (hps : ∀ p ∈ ps, p ∈ st.allNodes i) :
      RangeMapEffect st op (rangeMapLoad (rangeMapClean (ps.foldl RangeMaps.markDelete st) i) i)
  | bucketOnline {b : BucketView} {mapName : List UInt8} :
      RangeMapEffect st (.bucketOnline b mapName) (rangeMapNotifyBucketOnline st b mapName)
  | bucketOffline {bucket : Nat} {mapName : List UInt8} :
      RangeMapEffect st (.bucketOffline bucket mapName)
        (rangeMapNotifyBucketOffline st bucket mapName)
  | selfPortSetup {env : Env} :
      RangeMapEffect st (.selfPortSetup env) (esqRangeMapNotifySelfPortSetup env st)

section

variable {st st' : RangeMaps} {i : Fin 10} {p : Nat} {m : CStr}

theorem rangeMapFindByName_eq_some (hf : rangeMapFindByName st m = some i) :
    (st.slot i).name = m := by
  simpa using List.find?_some hf

theorem rangeMapFindByName_eq_none (hf : rangeMapFindByName st m = none) (i : Fin 10) :
    (st.slot i).name ≠ m := by
  simpa using List.find?_eq_none.mp hf i (List.mem_finRange i)

theorem rangeMapFindByName_congr (h : ∀ i, (st'.slot i).name = (st.slot i).name) (m : CStr) :
    rangeMapFindByName st' m = rangeMapFindByName st m := by
  unfold rangeMapFindByName
  simp only [h]

theorem RangeMaps.name_joinAllList (st : RangeMaps) (i : Fin 10) (p : Nat) (node : RangeNode)
    (j : Fin 10) : ((st.joinAllList i p node).slot j).name = (st.slot j).name := by
  by_cases hj : j = i
  · subst hj
    simp [RangeMaps.joinAllList, RangeMaps.setSlot]
  · simp [RangeMaps.joinAllList, RangeMaps.setSlot, hj]

theorem RangeMaps.malloc_eq_some {oracle : Option Nat} (h : st.malloc oracle = some p) :
    oracle = some p ∧ st.live p = false := by
  rw [RangeMaps.malloc, Option.filter_eq_some_iff] at h
  exact ⟨h.1, by simpa using h.2⟩

@[simp] theorem RangeMaps.name_setName_self (st : RangeMaps) (i : Fin 10) (name : CStr) :
    ((st.setSlot i fun m => { m with name := name }).slot i).name = name := by
  simp [RangeMaps.setSlot]

theorem RangeMaps.name_setName_of_ne (st : RangeMaps) {i j : Fin 10} (hj : j ≠ i) (name : CStr) :
    ((st.setSlot i fun m => { m with name := name }).slot j).name = (st.slot j).name := by
  simp [RangeMaps.setSlot, hj]

theorem RangeMaps.names_setName {name : CStr}
    (hnames : ∀ {i j}, (st.slot i).name = (st.slot j).name → (st.slot i).name ≠ .empty → i = j)
    (hfree : ∀ j, (st.slot j).name ≠ name) {j k : Fin 10}
    (hjk : ((st.setSlot i fun m => { m with name := name }).slot j).name
      = ((st.setSlot i fun m => { m with name := name }).slot k).name)
    (hj : ((st.setSlot i fun m => { m with name := name }).slot j).name ≠ .empty) : j = k := by
  by_cases hji : j = i
  · subst hji
    by_cases hki : k = j
    · exact hki.symm
    · rw [name_setName_self, name_setName_of_ne st hki] at hjk
      exact absurd hjk.symm (hfree k)
  · rw [name_setName_of_ne st hji] at hj hjk
    by_cases hki : k = i
    · rw [hki, name_setName_self] at hjk
      exact absurd hjk (hfree j)
    · rw [name_setName_of_ne st hki] at hjk
      exact hnames hjk hj

theorem rangeMapNew_cases (st : RangeMaps) (name : CStr) :
    (∃ errs, rangeMapNew st name = (some errs, st)) ∨
      ∃ i, rangeMapNew st name = (none, st.setSlot i fun m => { m with name := name }) ∧
        name ≠ .empty ∧ (∀ j, (st.slot j).name ≠ name) ∧ (st.slot i).name = .empty := by
  unfold rangeMapNew
  split
  · exact Or.inl ⟨_, rfl⟩
  · next hcheck =>
    split
    · exact Or.inl ⟨_, rfl⟩
    · next hfree =>
      split
      · exact Or.inl ⟨_, rfl⟩
      · next i hslot =>
        refine Or.inr ⟨i, rfl, ?_, rangeMapFindByName_eq_none hfree, ?_⟩
        · rintro rfl
          cases hcheck
        · simpa using List.find?_some hslot

theorem rangeMapNewNode_spec (env : Env) (mapName ipStr hashString : CStr) (port : Int)
    (flags : BitVec 32) (params : MkcParams) :
    (rangeMapNewNode env mapName ipStr hashString port flags params).key
        = (params.ip, port, params.hash) ∧
      (rangeMapNewNode env mapName ipStr hashString port flags params).deleted
        = hasFlag flags rmNodeDelete := by
  simp only [rangeMapNewNode]
  split
  · exact ⟨rfl, hasFlag_or (by decide)⟩
  · exact ⟨rfl, rfl⟩

theorem rangeMapNewNode_hash_length {ipStr hashString : CStr} {params : MkcParams} (env : Env)
    (mapName : CStr) (port : Int) (flags : BitVec 32)
    (hparams : translateMkcParams ipStr hashString = .ok params) :
    (rangeMapNewNode env mapName ipStr hashString port flags params).hash.length
      < hashValueLength := by
  have hlen := translateMkcParams_hash_length hparams
  have hkey := (rangeMapNewNode_spec env mapName ipStr hashString port flags params).1
  have hhash := congrArg (fun k => k.2.2.length) hkey
  simp only [RangeNode.key] at hhash
  rw [hhash, hashValueLength]
  omega

theorem Listed.newNode_key {xs : List Nat} {port : Int} {params : MkcParams} (h : Listed st i xs)
    (env : Env) (mapName ipStr hashString : CStr) (flags : BitVec 32)
    (hfind : rangeMapFindNode st i params.ip port params.hash = none) :
    ∀ q ∈ xs, (st.node q).key
      ≠ (rangeMapNewNode env mapName ipStr hashString port flags params).key := by
  rw [(rangeMapNewNode_spec env mapName ipStr hashString port flags params).1]
  exact rangeMapFindNode_eq_none h hfind

/-- **操作は失敗して何も変えないか、成功して `RangeMapEffect` の通りに変える。** -/
theorem rangeMapStep_cases (st : RangeMaps) (op : RangeMapOp) :
    (∃ errs, rangeMapStep st op = (some errs, st)) ∨
      ∃ st', rangeMapStep st op = (none, st') ∧ RangeMapEffect st op st' := by
  cases op with
  | new name =>
    simp only [rangeMapStep, rangeMapNew]
    split
    · exact Or.inl ⟨_, rfl⟩
    · next hcheck =>
      split
      · exact Or.inl ⟨_, rfl⟩
      · next hfree =>
        split
        · exact Or.inl ⟨_, rfl⟩
        · next i hslot => exact Or.inr ⟨_, rfl, .new hcheck hfree hslot⟩
  | addNode env oracle mapName ipStr port flags hashString =>
    simp only [rangeMapStep, rangeMapAddNode]
    split
    · exact Or.inl ⟨_, rfl⟩
    · next params hparams =>
      split
      · exact Or.inl ⟨_, rfl⟩
      · next i hf =>
        split
        · exact Or.inl ⟨_, rfl⟩
        · next hfind =>
          split
          · exact Or.inl ⟨_, rfl⟩
          · next p hmalloc => exact Or.inr ⟨_, rfl, .addNode hparams hf hfind hmalloc⟩
  | delNode mapName ipStr port hashString =>
    simp only [rangeMapStep, rangeMapDelNode]
    split
    · exact Or.inl ⟨_, rfl⟩
    · next params hparams =>
      split
      · exact Or.inl ⟨_, rfl⟩
      · next i hf =>
        split
        · exact Or.inl ⟨_, rfl⟩
        · next p hfind =>
          have hp : ∀ q ∈ [p], q ∈ st.allNodes i := by
            intro q hq
            rw [List.mem_singleton] at hq
            subst hq
            exact List.mem_of_find?_eq_some hfind
          have heff : RangeMapEffect st (.delNode mapName ipStr port hashString) _ :=
            .reload rfl hf hp
          exact Or.inr ⟨_, rfl, heff⟩
  | delAllNode mapName =>
    simp only [rangeMapStep, rangeMapDelAllNode]
    split
    · exact Or.inl ⟨_, rfl⟩
    · next i hf =>
      have heff : RangeMapEffect st (.delAllNode mapName) _ :=
        .reload rfl hf fun _ hp => hp
      exact Or.inr ⟨_, rfl, heff⟩
  | flush name =>
    simp only [rangeMapStep, rangeMapFlush]
    split
    · exact Or.inl ⟨_, rfl⟩
    · next i hf =>
      have heff : RangeMapEffect st (.flush name) _ :=
        .reload rfl hf (List.forall_mem_nil _)
      exact Or.inr ⟨_, rfl, heff⟩
  | bucketOnline b mapName => exact Or.inr ⟨_, rfl, .bucketOnline⟩
  | bucketOffline bucket mapName => exact Or.inr ⟨_, rfl, .bucketOffline⟩
  | selfPortSetup env => exact Or.inr ⟨_, rfl, .selfPortSetup⟩

theorem RangeMapsInv.bucketOnline {all loaded : Fin 10 → List Nat} (h : RangeMapsInv st all loaded)
    (b : BucketView) (mapName : List UInt8) :
    RangeMapsInv (rangeMapNotifyBucketOnline st b mapName) all loaded ∧
      (rangeMapNotifyBucketOnline st b mapName).slot = st.slot ∧
      ∀ i, ∀ q ∈ all i, (rangeMapNotifyBucketOnline st b mapName).node q
        = if rangeMapFindByName2 st mapName = some i ∧ b.matches (st.node q) = true
          then { st.node q with bucket := some b.bucket } else st.node q := by
  have hsn : ∀ n : RangeNode,
      SameNode n (if b.matches n = true then { n with bucket := some b.bucket } else n) := by
    intro n
    split
    · exact ⟨rfl, rfl, rfl, rfl⟩
    · exact .refl _
  unfold rangeMapNotifyBucketOnline
  cases hf : rangeMapFindByName2 st mapName with
  | none => exact ⟨h, rfl, fun i q _ => by simp⟩
  | some j =>
    dsimp only
    rw [(h.maps j).toListed.allNodes_eq]
    obtain ⟨-, -, hslot, -⟩ := foldl_setNode hsn (all j) st
    refine ⟨h.setNodes hsn (all j), hslot, ?_⟩
    intro i q hq
    rw [node_foldl_setNode (h.maps j).toListed.linked.nodup]
    by_cases hij : j = i
    · subst hij
      simp [hq]
    · rw [if_neg fun hm => hij (h.disjoint hm hq)]
      simp [hij]

theorem rangeMapNotifyBucketOffline_eq (st : RangeMaps) (bucket : Nat) (mapName : List UInt8) :
    ∃ (f : RangeNode → RangeNode) (ps : List Nat), (∀ n, SameNode n (f n)) ∧
      rangeMapNotifyBucketOffline st bucket mapName = ps.foldl (fun st p => st.setNode p f) st := by
  unfold rangeMapNotifyBucketOffline
  split
  · exact ⟨id, [], SameNode.refl, rfl⟩
  · refine ⟨_, _, fun n => ?_, rfl⟩
    split
    · exact ⟨rfl, rfl, rfl, rfl⟩
    · exact .refl _

theorem rangeMapNotifyBucketOnline_eq (st : RangeMaps) (b : BucketView) (mapName : List UInt8) :
    ∃ (f : RangeNode → RangeNode) (ps : List Nat), (∀ n, SameNode n (f n)) ∧
      rangeMapNotifyBucketOnline st b mapName = ps.foldl (fun st p => st.setNode p f) st := by
  unfold rangeMapNotifyBucketOnline
  split
  · exact ⟨id, [], SameNode.refl, rfl⟩
  · refine ⟨_, _, fun n => ?_, rfl⟩
    split
    · exact ⟨rfl, rfl, rfl, rfl⟩
    · exact .refl _

theorem RangeMapEffect.inv {all loaded : Fin 10 → List Nat} {op : RangeMapOp}
    (heff : RangeMapEffect st op st') (h : RangeMapsInv st all loaded) :
    ∃ all' loaded', RangeMapsInv st' all' loaded' := by
  cases heff with
  | @new name i => exact ⟨_, _, h.setName i name⟩
  | @addNode env _ mapName ipStr hashString port flags params i p hparams _ hfind hmalloc =>
    exact ⟨_, _, h.join i (RangeMaps.malloc_eq_some hmalloc).2
      ((h.maps i).toListed.newNode_key env mapName ipStr hashString flags hfind)
      (rangeMapNewNode_hash_length env mapName port flags hparams)⟩
  | @reload _ name i ps _ _ hps =>
    rw [(h.maps i).toListed.allNodes_eq] at hps
    exact ⟨_, _, h.delete i ps hps⟩
  | @bucketOnline b mapName =>
    obtain ⟨f, ps, hf, he⟩ := rangeMapNotifyBucketOnline_eq st b mapName
    rw [he]
    exact ⟨_, _, h.setNodes hf ps⟩
  | @bucketOffline bucket mapName =>
    obtain ⟨f, ps, hf, he⟩ := rangeMapNotifyBucketOffline_eq st bucket mapName
    rw [he]
    exact ⟨_, _, h.setNodes hf ps⟩
  | @selfPortSetup env => exact ⟨_, _, h.selfPortSetup env⟩

theorem rangeMapsInv_step {all loaded : Fin 10 → List Nat} (h : RangeMapsInv st all loaded)
    (op : RangeMapOp) : ∃ all' loaded', RangeMapsInv (rangeMapStep st op).2 all' loaded' := by
  rcases rangeMapStep_cases st op with ⟨errs, he⟩ | ⟨st', he, heff⟩
  · rw [he]
    exact ⟨all, loaded, h⟩
  · rw [he]
    exact heff.inv h

theorem rangeMapsInv_run : ∀ (ops : List RangeMapOp) {st : RangeMaps} {all loaded},
    RangeMapsInv st all loaded → ∃ all' loaded', RangeMapsInv (rangeMapRun st ops) all' loaded'
  | [], _, _, _, h => ⟨_, _, h⟩
  | op :: ops, _, _, _, h => by
    obtain ⟨_, _, h⟩ := rangeMapsInv_step h op
    exact rangeMapsInv_run ops h

end

end Esq
