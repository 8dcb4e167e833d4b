import Esq.RangeMap.Lookup
import Esq.Infra.Run

/-!
# map どうしの独立

空の slot の名前は空文字列であり、名前から引く関数はこれを除かない。したがって空の名前への操作は、
先頭の空の slot に届く。空の名前を使わない限り、map は互いに干渉しない（`maps_isolated`）。

* 一つの map への操作は、他の名前で引いた node を変えない
* 作っていない名前への操作は失敗し、何も変えない
* 作ったばかりの map に node は無い
-/

namespace Esq

open Infra

/-! ## 性質 -/

def RangeMapOp.target : RangeMapOp → Option CStr
  | .new name => some name
  | .addNode _ _ mapName _ _ _ _ => some mapName
  | .delNode mapName _ _ _ => some mapName
  | .delAllNode mapName => some mapName
  | .flush name => some name
  | _ => none

def createdNames : RangeMaps → List RangeMapOp → List CStr
  | _, [] => []
  | st, op :: ops =>
    match op, (rangeMapStep st op).1 with
    | .new name, none => name :: createdNames (rangeMapStep st op).2 ops
    | _, _ => createdNames (rangeMapStep st op).2 ops

/-- `name` という map を `hash` で引いて見つかる node を、chain の順に並べる。 -/
def lookupNodes (st : RangeMaps) (name : CStr) (hash : HashT) : List (Nat × RangeNode) :=
  (walk st.next st.mallocs (rangeMapFindAndLock st name hash)).map fun p => (p, (st.node p).data)

/-- 空の名前を使うのは、空の slot が無いときに限る。 -/
def RangeMapOp.SparesFree (st : RangeMaps) (op : RangeMapOp) : Prop :=
  op.Named ∨ rangeMapFindByName st .empty = none

/-- `st` で行う `op` は、他の map に干渉しない。`created` はそれまでに作った名前である。 -/
structure Isolated (st : RangeMaps) (created : List CStr) (op : RangeMapOp) : Prop where
  frame : ∀ a b hash, op.target = some a → b ≠ a →
    lookupNodes (rangeMapStep st op).2 b hash = lookupNodes st b hash
  unknown : ∀ a, op.target = some a → (∀ name, op ≠ .new name) → a ∉ created →
    ∃ errs, rangeMapStep st op = (some errs, st)
  fresh : ∀ name, op = .new name → (rangeMapStep st op).1 = none →
    ∃ i, rangeMapFindByName (rangeMapStep st op).2 name = some i ∧
      ((rangeMapStep st op).2.slot i).allList = none ∧
      ∀ hash, lookupNodes (rangeMapStep st op).2 name hash = []

section

variable {st st' : RangeMaps} {i j : Fin 10} {p : Nat} {m b : CStr} {op : RangeMapOp}
  {all loaded all' loaded' : Fin 10 → List Nat}

theorem RangeMapOp.target_of_reloads (h : op.Reloads m) : op.target = some m := by
  cases op with
  | delNode mapName ipStr port hashString => exact congrArg some h
  | delAllNode mapName => exact congrArg some h
  | flush name => exact congrArg some h
  | _ => exact h.elim

/-! ## 引いた node -/

theorem RangeMapsInv.lookupNodes_eq (h : RangeMapsInv st all loaded)
    (hf : rangeMapFindByName st m = some i) (hash : HashT) :
    lookupNodes st m hash = (chainFrom st.hash (loaded i) hash.buf (st.slot i).longest).map
      fun p => (p, (st.node p).data) := by
  have hchain := (h.maps i).index.chain hash
  simp only [lookupNodes, rangeMapFindAndLock, hf]
  rw [hchain.walk_eq ((h.maps i).chain_length_le hash)]

theorem lookupNodes_of_none (hf : rangeMapFindByName st m = none) (hash : HashT) :
    lookupNodes st m hash = [] := by
  simp only [lookupNodes, rangeMapFindAndLock, hf]
  cases st.mallocs <;> rfl

theorem RangeMapsInv.lookupNodes_congr (h : RangeMapsInv st all loaded)
    (h' : RangeMapsInv st' all' loaded') (hf : rangeMapFindByName st' m = rangeMapFindByName st m)
    (hslot : ∀ j, rangeMapFindByName st m = some j → loaded' j = loaded j ∧
      (st'.slot j).longest = (st.slot j).longest ∧
      ∀ p ∈ loaded j, (st'.node p).data = (st.node p).data) (hash : HashT) :
    lookupNodes st' m hash = lookupNodes st m hash := by
  cases hj : rangeMapFindByName st m with
  | none =>
    rw [lookupNodes_of_none hj]
    exact lookupNodes_of_none (hf.trans hj) hash
  | some j =>
    obtain ⟨hload, hlong, hdata⟩ := hslot j hj
    rw [h.lookupNodes_eq hj, h'.lookupNodes_eq (hf.trans hj), hload, hlong]
    have hhash : ∀ p ∈ loaded j, st'.hash p = st.hash p :=
      fun p hp => RangeNode.hash_of_data (hdata p hp)
    rw [chainFrom_congr hhash]
    refine List.map_congr_left fun p hp => ?_
    rw [hdata p (((h.maps j).index.mem_chain hash).mp hp).1]

/-! ## 空の slot -/

structure NamesInv (st : RangeMaps) (all loaded : Fin 10 → List Nat) : Prop where
  inv : RangeMapsInv st all loaded
  names : ∀ {i j}, (st.slot i).name = (st.slot j).name → (st.slot i).name ≠ .empty → i = j
  unnamed : ∀ i, (st.slot i).name = .empty → all i = []

theorem HistoryInv.namesInv {h : RangeHistory} (hi : HistoryInv h all loaded) :
    NamesInv h.maps all loaded := ⟨hi.inv, hi.names, hi.unnamed⟩

theorem NamesInv.loaded_nil (h : NamesInv st all loaded) (hi : (st.slot i).name = .empty) :
    loaded i = [] := by
  refine List.eq_nil_iff_forall_not_mem.mpr fun p hp => ?_
  have hp := (h.inv.maps i).subset p hp
  rw [h.unnamed i hi] at hp
  cases hp

theorem RangeMapsInv.lookupNodes_nil (h : RangeMapsInv st all loaded)
    (hnil : ∀ i, rangeMapFindByName st m = some i → loaded i = []) (hash : HashT) :
    lookupNodes st m hash = [] := by
  cases hf : rangeMapFindByName st m with
  | none => exact lookupNodes_of_none hf hash
  | some i =>
    have hchain : chainFrom st.hash (loaded i) hash.buf (st.slot i).longest = [] := by
      refine List.eq_nil_iff_forall_not_mem.mpr fun p hp => ?_
      have hp := (((h.maps i).index.mem_chain hash).mp hp).1
      rw [hnil i hf] at hp
      cases hp
    rw [h.lookupNodes_eq hf, hchain]
    rfl

theorem NamesInv.lookupNodes_empty (h : NamesInv st all loaded) (hash : HashT) :
    lookupNodes st .empty hash = [] :=
  h.inv.lookupNodes_nil (fun _ hf => h.loaded_nil (rangeMapFindByName_eq_some hf)) hash

/-! ## 操作 -/

theorem rangeMapFindByName_setName {name : CStr} (hi : (st.slot i).name = .empty) (hb : b ≠ name)
    (hne : b ≠ .empty) :
    rangeMapFindByName (st.setSlot i fun m => { m with name := name }) b
      = rangeMapFindByName st b := by
  unfold rangeMapFindByName
  congr 1
  funext j
  by_cases hj : j = i
  · subst hj
    simp [RangeMaps.setSlot, hi, hb.symm, hne.symm]
  · simp [RangeMaps.setSlot, hj]

theorem rangeMapFindByName_new {name : CStr} (hfree : rangeMapFindByName st name = none) :
    rangeMapFindByName (st.setSlot i fun m => { m with name := name }) name = some i := by
  cases hf : rangeMapFindByName (st.setSlot i fun m => { m with name := name }) name with
  | none =>
    have hne := rangeMapFindByName_eq_none hf i
    simp [RangeMaps.setSlot] at hne
  | some j =>
    by_cases hj : j = i
    · rw [hj]
    · have hname := rangeMapFindByName_eq_some hf
      rw [RangeMaps.setSlot] at hname
      simp only [Function.update_of_ne hj] at hname
      exact absurd hname (rangeMapFindByName_eq_none hfree j)

theorem Listed.delete_slot {xs : List Nat} (h : Listed st i xs) (ps : List Nat) (hj : j ≠ i) :
    (rangeMapLoad (rangeMapClean (ps.foldl RangeMaps.markDelete st) i) i).slot j = st.slot j := by
  obtain ⟨-, -, hslot, -⟩ := foldl_markDelete ps st
  rw [(h.marked ps).reload.2.slots j hj, hslot]

/-- **一つの map への操作は、他の名前で引いた node を変えない。** -/
theorem NamesInv.lookupNodes_step (h : NamesInv st all loaded) (heff : RangeMapEffect st op st')
    {a : CStr} (ha : op.target = some a) (hb : b ≠ a) (hash : HashT) :
    lookupNodes st' b hash = lookupNodes st b hash := by
  -- 名前の異なる map は、異なる slot にある
  have hslot : ∀ {i j}, rangeMapFindByName st a = some i → rangeMapFindByName st b = some j →
      j ≠ i := by
    rintro i j hi hj rfl
    exact hb ((rangeMapFindByName_eq_some hj).symm.trans (rangeMapFindByName_eq_some hi))
  cases heff with
  | @new name i hcheck hfree hfind =>
    obtain rfl : name = a := Option.some.inj ha
    have hi : (st.slot i).name = .empty := by simpa using List.find?_some hfind
    have hnew := h.inv.setName i name
    by_cases hbe : b = .empty
    · -- 空の名前は別の空の slot を指すかもしれないが、どちらにも node は無い
      subst hbe
      rw [h.lookupNodes_empty]
      refine hnew.lookupNodes_nil (fun j hj => ?_) hash
      have hname := rangeMapFindByName_eq_some hj
      by_cases hji : j = i
      · rw [hji]
        exact h.loaded_nil hi
      · refine h.loaded_nil ?_
        simpa [RangeMaps.setSlot, hji] using hname
    · refine h.inv.lookupNodes_congr hnew (rangeMapFindByName_setName hi hb hbe) ?_ hash
      intro j hj
      have hji : j ≠ i := by
        rintro rfl
        exact hbe ((rangeMapFindByName_eq_some hj).symm.trans hi)
      refine ⟨rfl, ?_, fun _ _ => rfl⟩
      simp [RangeMaps.setSlot, hji]
  | @addNode env oracle mapName ipStr hashString port flags params i p hparams hf hfind hmalloc =>
    obtain rfl : mapName = a := Option.some.inj ha
    obtain ⟨-, hlive⟩ := RangeMaps.malloc_eq_some hmalloc
    have hjoin := h.inv.join i hlive
      ((h.inv.maps i).toListed.newNode_key env mapName ipStr hashString flags hfind)
      (rangeMapNewNode_hash_length env mapName port flags hparams)
    refine h.inv.lookupNodes_congr hjoin
      (rangeMapFindByName_congr (RangeMaps.name_joinAllList st i p _) b) ?_ hash
    intro j hj
    have hji := hslot hf hj
    refine ⟨rfl, ?_, ?_⟩
    · simp [RangeMaps.joinAllList, RangeMaps.setSlot, hji]
    · intro q hq
      have hqp : q ≠ p := by
        rintro rfl
        have hq := (h.inv.maps j).live q ((h.inv.maps j).subset q hq)
        rw [hlive] at hq
        cases hq
      simp [RangeMaps.joinAllList, hqp]
  | @reload _ name i ps hop hf hps =>
    obtain rfl : name = a := Option.some.inj ((RangeMapOp.target_of_reloads hop).symm.trans ha)
    have hlisted := (h.inv.maps i).toListed
    have hps : ∀ p ∈ ps, p ∈ all i := by
      rw [hlisted.allNodes_eq] at hps
      exact hps
    have hdel := h.inv.delete i ps hps
    refine h.inv.lookupNodes_congr hdel
      (rangeMapFindByName_congr (hlisted.delete_frame ps).2 b) ?_ hash
    intro j hj
    have hji := hslot hf hj
    refine ⟨Function.update_of_ne hji _ _, by rw [hlisted.delete_slot ps hji], ?_⟩
    intro q hq
    refine (h.inv.delete_data i ps hps (j := j) ?_).2
    rw [Function.update_of_ne hji]
    exact (h.inv.maps j).subset q hq
  | bucketOnline => cases ha
  | bucketOffline => cases ha
  | selfPortSetup => cases ha

theorem RangeMapsInv.name_step (h : RangeMapsInv st all loaded) (heff : RangeMapEffect st op st')
    (i : Fin 10) :
    (st'.slot i).name = (st.slot i).name ∨ op = .new (st'.slot i).name := by
  cases heff with
  | @new name k hcheck hfree hfind =>
    by_cases hik : i = k
    · subst hik
      right
      simp [RangeMaps.setSlot]
    · left
      simp [RangeMaps.setSlot, hik]
  | addNode => exact Or.inl (RangeMaps.name_joinAllList st _ _ _ i)
  | @reload _ name k ps hop hf hps =>
    exact Or.inl (((h.maps k).toListed.delete_frame ps).2 i)
  | @bucketOnline b mapName => exact Or.inl (by rw [(h.bucketOnline b mapName).2.1])
  | @bucketOffline bucket mapName =>
    left
    obtain ⟨f, ps, hf, he⟩ := rangeMapNotifyBucketOffline_eq st bucket mapName
    rw [he, (foldl_setNode hf ps st).2.2.1]
  | @selfPortSetup env => exact Or.inl (by rw [(selfPortSetup_frame env st).2.2.1])

theorem RangeMapEffect.find (heff : RangeMapEffect st op st') {a : CStr} (ha : op.target = some a)
    (hnew : ∀ name, op ≠ .new name) : ∃ i, rangeMapFindByName st a = some i := by
  cases heff with
  | new => exact absurd rfl (hnew _)
  | addNode _ hf =>
    cases ha
    exact ⟨_, hf⟩
  | reload hop hf =>
    obtain rfl := Option.some.inj ((RangeMapOp.target_of_reloads hop).symm.trans ha)
    exact ⟨_, hf⟩
  | bucketOnline => cases ha
  | bucketOffline => cases ha
  | selfPortSetup => cases ha

theorem rangeMapStep_eq_of_none {a : CStr} (ha : op.target = some a) (hnew : ∀ name, op ≠ .new name)
    (hf : rangeMapFindByName st a = none) : ∃ errs, rangeMapStep st op = (some errs, st) := by
  rcases rangeMapStep_cases st op with hfail | ⟨st', -, heff⟩
  · exact hfail
  · obtain ⟨i, hi⟩ := heff.find ha hnew
    rw [hf] at hi
    cases hi

theorem RangeMapOp.target_of_not_named (h : ¬ op.Named) :
    op.target = some .empty ∧ ∀ name, op ≠ .new name := by
  cases op with
  | addNode env oracle mapName ipStr port flags hashString =>
    exact ⟨congrArg some (not_not.mp h), nofun⟩
  | delNode mapName ipStr port hashString => exact ⟨congrArg some (not_not.mp h), nofun⟩
  | delAllNode mapName => exact ⟨congrArg some (not_not.mp h), nofun⟩
  | flush name => exact ⟨congrArg some (not_not.mp h), nofun⟩
  | _ => exact absurd trivial h

theorem RangeMapOp.Named.target_ne_empty (h : op.Named) (hnew : ∀ name, op ≠ .new name) :
    op.target ≠ some .empty := by
  intro ha
  cases op with
  | new name => exact hnew name rfl
  | addNode env oracle mapName ipStr port flags hashString => exact h (Option.some.inj ha)
  | delNode mapName ipStr port hashString => exact h (Option.some.inj ha)
  | delAllNode mapName => exact h (Option.some.inj ha)
  | flush name => exact h (Option.some.inj ha)
  | _ => cases ha

/-! ## 実行 -/

theorem maps_rangeHistoryStep (h : RangeHistory) (op : RangeMapOp) :
    (rangeHistoryStep h op).2.maps = (rangeMapStep h.maps op).2 := by
  unfold rangeHistoryStep
  rcases rangeMapStep h.maps op with ⟨errs, maps⟩
  cases errs <;> rfl

/-- 到達した状態。名前の付いた slot は、`created` にある名前の map である。 -/
structure CreatedInv (st : RangeMaps) (created : List CStr) : Prop where
  history : ∃ log all loaded, HistoryInv { maps := st, log } all loaded
  created : ∀ i, (st.slot i).name ≠ .empty → (st.slot i).name ∈ created

theorem CreatedInv.mono {created created' : List CStr} (h : CreatedInv st created)
    (hsub : created ⊆ created') : CreatedInv st created' :=
  ⟨h.history, fun i hi => hsub (h.created i hi)⟩

theorem CreatedInv.step {created : List CStr} (h : CreatedInv st created)
    (hok : op.SparesFree st) :
    CreatedInv (rangeMapStep st op).2 (created ++ createdNames st [op]) := by
  obtain ⟨⟨log, all, loaded, hi⟩, hcreated⟩ := h
  rcases rangeMapStep_cases st op with ⟨errs, hfail⟩ | ⟨st', hstep, heff⟩
  · rw [hfail]
    exact CreatedInv.mono ⟨⟨log, all, loaded, hi⟩, hcreated⟩ (List.subset_append_left _ _)
  · have hnamed : op.Named := by
      by_contra hn
      obtain ⟨ha, hnew⟩ := RangeMapOp.target_of_not_named hn
      obtain ⟨i, hf⟩ := heff.find ha hnew
      rcases hok with hok | hok
      · exact hn hok
      · rw [hok] at hf
        cases hf
    refine ⟨?_, ?_⟩
    · obtain ⟨all', loaded', hi', -⟩ := historyInv_step hi op hnamed
      refine ⟨(rangeHistoryStep { maps := st, log } op).2.log, all', loaded', ?_⟩
      rw [← maps_rangeHistoryStep { maps := st, log } op]
      exact hi'
    · intro i hne
      rw [hstep] at hne ⊢
      rcases hi.inv.name_step heff i with hname | hop
      · rw [hname] at hne ⊢
        exact List.mem_append_left _ (hcreated i hne)
      · refine List.mem_append_right _ ?_
        generalize (st'.slot i).name = name at hop
        subst hop
        simp [createdNames, hstep]

theorem createdNames_cons (st : RangeMaps) (op : RangeMapOp) (ops : List RangeMapOp) :
    createdNames st (op :: ops)
      = createdNames st [op] ++ createdNames (rangeMapStep st op).2 ops := by
  simp only [createdNames]
  split <;> rfl

theorem CreatedInv.run : ∀ (ops : List RangeMapOp) {st : RangeMaps} {created : List CStr},
    CreatedInv st created →
    Along (fun st op => some (rangeMapStep st op).2) (fun st op => op.SparesFree st) st ops →
    CreatedInv (rangeMapRun st ops) (created ++ createdNames st ops)
  | [], _, _, h, _ => by
    rw [createdNames, List.append_nil]
    exact h
  | op :: ops, st, created, h, hok => by
    have hrun := CreatedInv.run ops (h.step hok.1) (hok.2 _ rfl)
    rw [List.append_assoc, ← createdNames_cons] at hrun
    exact hrun

end

/-! ## 主定理 -/

/--
**map は名前で分かれている。**

空の名前を使うのは空の slot が無いときに限る、という列のどの状態でも、次の操作は他の map に
干渉しない。
-/
theorem maps_isolated (ops : List RangeMapOp) (op : RangeMapOp)
    (hops : Along (fun st op => some (rangeMapStep st op).2) (fun st op => op.SparesFree st) .init ops)
    (hop : op.SparesFree (rangeMapRun .init ops)) :
    Isolated (rangeMapRun .init ops) (createdNames .init ops) op := by
  have hinit : CreatedInv .init [] := by
    refine ⟨⟨_, _, _, historyInv_init⟩, fun i hi => absurd rfl hi⟩
  obtain ⟨⟨log, all, loaded, hi⟩, hcreated⟩ := hinit.run ops hops
  rw [List.nil_append] at hcreated
  generalize rangeMapRun .init ops = st at hop hi hcreated ⊢
  have hnames : NamesInv st all loaded := hi.namesInv
  refine ⟨fun a b hash ha hb => ?_, fun a ha hnew hnot => ?_, fun name hname hnone => ?_⟩
  · rcases rangeMapStep_cases st op with ⟨errs, hfail⟩ | ⟨st', hstep, heff⟩
    · rw [hfail]
    · rw [hstep]
      exact hnames.lookupNodes_step heff ha hb hash
  · refine rangeMapStep_eq_of_none ha hnew ?_
    cases hf : rangeMapFindByName st a with
    | none => rfl
    | some i =>
      have hai := rangeMapFindByName_eq_some hf
      by_cases hae : a = .empty
      · -- 空の名前は、空の slot が無いときにしか使わない
        subst hae
        rcases hop with hnamed | hfull
        · exact absurd ha (hnamed.target_ne_empty hnew)
        · rw [hfull] at hf
          cases hf
      · have hmem := hcreated i (by rw [hai]; exact hae)
        rw [hai] at hmem
        exact absurd hmem hnot
  · subst hname
    rcases rangeMapStep_cases st (.new name) with ⟨errs, hfail⟩ | ⟨st', hstep, heff⟩
    · rw [hfail] at hnone
      cases hnone
    · rw [hstep]
      cases heff with
      | @new _ i hcheck hfree hfind =>
        have hslot : (st.slot i).name = .empty := by simpa using List.find?_some hfind
        have hnew := hnames.inv.setName i name
        refine ⟨i, rangeMapFindByName_new hfree, ?_, fun hash => ?_⟩
        · have hlinked := (hnew.maps i).linked
          rw [hnames.unnamed i hslot] at hlinked
          exact linked_nil.mp hlinked
        · refine hnew.lookupNodes_nil (fun j hj => ?_) hash
          rw [rangeMapFindByName_new hfree] at hj
          cases hj
          exact hnames.loaded_nil hslot
      | reload hop => exact hop.elim

/-- `name` という map に、全ての hash に当たる node を足す。 -/
def RangeMapOp.addAnywhere (name : CStr) : RangeMapOp :=
  .addNode .remote (some 100) name (.ofBytes [49, 46, 49, 46, 49, 46, 49]) 80 0
    (.ofBytes [120])

/-- 名前 `a` の map に node を足して読み込んだ後で、名前 `b` の map を作る。 -/
theorem maps_isolated_two :
    Isolated
      (rangeMapRun .init [.new ⟨[97], by decide⟩, .addAnywhere ⟨[97], by decide⟩,
        .flush ⟨[97], by decide⟩])
      (createdNames .init [.new ⟨[97], by decide⟩, .addAnywhere ⟨[97], by decide⟩,
        .flush ⟨[97], by decide⟩])
      (.new ⟨[98], by decide⟩) := by
  have hne : (⟨[97], by decide⟩ : CStr) ≠ CStr.empty := by
    intro h
    exact absurd (congrArg CStr.bytes h) (by decide)
  refine maps_isolated _ _ ?_ (Or.inl trivial)
  refine ⟨Or.inl trivial, fun _ _ => ⟨Or.inl hne, fun _ _ => ⟨Or.inl hne, fun _ _ => trivial⟩⟩⟩

/-- 空の名前は作れないのに、空の名前への追加は成功し、次に作る map に node が入っている。 -/
theorem node_added_to_free_slot :
    ¬ Isolated .init (createdNames .init []) (.addAnywhere .empty) ∧
      ¬ Isolated (rangeMapRun .init [.addAnywhere .empty])
        (createdNames .init [.addAnywhere .empty]) (.new ⟨[97], by decide⟩) := by
  refine ⟨fun h => ?_, fun h => ?_⟩
  · obtain ⟨errs, herr⟩ := h.unknown .empty rfl nofun (List.not_mem_nil)
    have hnone : (rangeMapStep .init (.addAnywhere .empty)).1 = none := by decide +kernel
    rw [herr] at hnone
    cases hnone
  · obtain ⟨i, hf, hall, -⟩ := h.fresh _ rfl (by decide +kernel)
    have h0 : rangeMapFindByName (rangeMapStep (rangeMapRun .init [.addAnywhere .empty])
        (.new ⟨[97], by decide⟩)).2 ⟨[97], by decide⟩ = some 0 := by decide +kernel
    rw [h0] at hf
    cases hf
    have hsome : ((rangeMapStep (rangeMapRun .init [.addAnywhere .empty])
        (.new ⟨[97], by decide⟩)).2.slot 0).allList = some 100 := by decide +kernel
    rw [hsome] at hall
    cases hall

end Esq
