import Esq.Bee.Online
import Esq.Infra.Run
import Esq.RangeMap.Step

/-!
# node と bucket の対応

node の `bucket` は、その node を受け持つ bucket を指すはずである（`LinksRight`）。受け持つとは、
map の名前、prefix、持ち主（`RM_NODE_ME` の node では ip も port も 0）が等しいことをいう。

対応を付ける所は三つあり、prefix の比べ方がどれも違う。

* `range_map_add_node` は末尾の `x` を付けた文字列で探すので、決して見つからない
* `range_map_notify_bucket_online` は node の二進の prefix と bucket の文字列を、同じ byte の列として比べる
* port が決まったときの付け直しも、二進の prefix を文字列として探す

二進と文字列の比較が prefix の一致と合うのは、prefix が空のときだけである。
-/

namespace Esq

open Infra

/-! ## 仕様 -/

def RangeNode.owner (n : RangeNode) : Nat × Int :=
  if hasFlag n.flags rmNodeMe then (0, 0) else (n.ip, n.port)

/-- bucket は、`mapName` という map の node `n` を受け持つ。 -/
def Serves (b : BeeBucket) (mapName : CStr) (n : RangeNode) : Prop :=
  b.rangeMapName = mapName.bytes ∧ hashStr2Bin b.hashStr = some n.hash ∧ (b.ip, b.port) = n.owner

instance (b : BeeBucket) (mapName : CStr) (n : RangeNode) : Decidable (Serves b mapName n) :=
  inferInstanceAs (Decidable (_ ∧ _))

/-- `n` の `bucket` は受け持つ bucket を指し、受け持つ bucket が無いときに限り NULL である。 -/
def Bee.LinkRight (st : Bee) (mapName : CStr) (n : RangeNode) : Prop :=
  match n.bucket with
  | some a => a ∈ st.online ∧ Serves (st.bucket a) mapName n
  | none => ∀ a ∈ st.online, ¬ Serves (st.bucket a) mapName n

/-- どの map のどの node も、正しい bucket を指す。 -/
def LinksRight (st : Bee) : Prop :=
  ∀ i, ∀ p ∈ st.maps.allNodes i, st.LinkRight (st.maps.slot i).name (st.maps.node p)

/-! ## 一歩ごとの条件 -/

/-- 名前の無い slot の node は、新しい名前になっても開いている bucket に受け持たれない。 -/
def newOk (st : Bee) (name : CStr) : Prop :=
  rangeMapNameCheck name = none → rangeMapFindByName st.maps name = none →
    ∀ i, (List.finRange 10).find? (fun i => (st.maps.slot i).name = .empty) = some i →
      ∀ p ∈ st.maps.allNodes i, ∀ a ∈ st.online, ¬ Serves (st.bucket a) name (st.maps.node p)

/-- 足す node を受け持つ bucket は、まだ開いていない。 -/
def addNodeOk (st : Bee) (host : Host) (oracle : Option Nat) (mapName ipStr : CStr) (port : Int)
    (flags : BitVec 32) (hashString : CStr) : Prop :=
  ∀ params i, translateMkcParams ipStr hashString = .ok params →
    rangeMapFindByName st.maps mapName = some i →
    rangeMapFindNode st.maps i params.ip port params.hash = none →
    st.maps.malloc oracle ≠ none → ∀ a ∈ st.online, ¬ Serves (st.bucket a) mapName
      (rangeMapNewNode (st.env host) mapName ipStr hashString port flags params)

/-- その map のどの node についても、byte の列の比較は受け持つかどうかと合う。 -/
def announceOk (st : Bee) (b : BeeBucket) : Prop :=
  ∀ i, (st.maps.slot i).name.bytes = b.rangeMapName → ∀ p ∈ st.maps.allNodes i,
    BucketView.matches ⟨0, b.ip, b.port, b.hashStr⟩ (st.maps.node p) = true ↔
      Serves b (st.maps.slot i).name (st.maps.node p)

instance (st : Bee) (b : BeeBucket) : Decidable (announceOk st b) :=
  inferInstanceAs (Decidable (∀ i, (st.maps.slot i).name.bytes = b.rangeMapName →
    ∀ p ∈ st.maps.allNodes i,
      BucketView.matches ⟨0, b.ip, b.port, b.hashStr⟩ (st.maps.node p) = true ↔
        Serves b (st.maps.slot i).name (st.maps.node p)))

def openOk (io : OpenIo) (st : Bee) (b : BeeBucket) : Prop :=
  st.malloc io.malloc ≠ none → io.kcdb ≠ none → st.rbFind b = none → announceOk st b

def fileOk (io : OpenIo) (st : Bee) (folder dName : List UInt8) : Prop :=
  match dotsOf dName with
  | [d0, d1, d2] => ∀ x, localBucketFile folder dName d0 d1 d2 = some x → openOk io st x.1
  | [d0, _, _, _, d4, d5, d6] =>
    ∀ x, remotePatchBucketFile folder dName d0 d4 d5 d6 = some x → openOk io st x.1
  | _ => True

def filesOk (folder : List UInt8) : Bee → List Dirent → Prop
  | _, [] => True
  | st, ent :: ents =>
    if !ent.isReg then filesOk folder st ents
    else fileOk ent.io st folder ent.dName.bytes ∧
      filesOk folder (beeOpenBucketFile ent.io st folder ent.dName).2 ents

def configOk (io : OpenIo) (st : Bee) (c : DiskBucketConfig) : Prop :=
  ∀ k, checkConfig c = .ok k → openOk io st (configBucket c k).1

def shiftOk (io : ShiftIo) (st : Bee) (rangeMapName hash : List UInt8) : Prop :=
  ∀ hashLen, checkNameHash rangeMapName hash "invalid hash string (mem bucket)"
      "invalid hash string format (mem bucket)" = .ok hashLen →
    st.malloc io.malloc ≠ none → io.kcdbnew = true → io.kcdbopen = true →
    (∀ p, st.rbFind (memBucket rangeMapName hash hashLen) = some p → (st.bucket p).kcdb 0 = none) →
    announceOk st (memBucket rangeMapName hash hashLen)

def RangeNode.ownerAt (n : RangeNode) (host : Host) (port : Int) : Nat × Int :=
  if host.osIpAddressIsMe n.address && n.port = port then (0, 0) else (n.ip, n.port)

/--
新しい持ち主の bucket について、byte の列の比較は prefix の一致と合う。見つかるはずの bucket があれば、
`esq_bee_bucket_cmp` は開いている bucket の上で順序になっている。
-/
def reconnectOk (host : Host) (st : Bee) (port : Int) : Prop :=
  ∀ i, (st.maps.slot i).name ≠ .empty → ∀ p ∈ st.maps.allNodes i, ∀ a ∈ st.online,
    (st.bucket a).rangeMapName = (st.maps.slot i).name.bytes →
    ((st.bucket a).ip, (st.bucket a).port) = (st.maps.node p).ownerAt host port →
    ((st.bucket a).hashStr = (st.maps.node p).hash ↔
      hashStr2Bin (st.bucket a).hashStr = some (st.maps.node p).hash) ∧
    ((st.bucket a).hashStr = (st.maps.node p).hash → OrderedOn st.cmp st.online)

def startOk (io : StartIo) (st : Bee) (port : Int) : Prop :=
  0 < port → st.sd = -1 → io.sessionNew = true → io.prepare.isOk = true →
    reconnectOk io.host st port

def linkOk (st : Bee) : BeeOp → Prop
  | .rangeMapNew name => newOk st name
  | .addNode host oracle mapName ipStr port flags hashString =>
    addNodeOk st host oracle mapName ipStr port.toInt flags hashString
  | .openBucketsFromFolder folder dir => folder.length ≤ maxDiskBucketFolder →
    ∀ ents, dir = some ents → filesOk (if folder = [] then [46] else folder) st ents
  | .addDiskBucket io folder rangeMap hash idx =>
    configOk io st { folder, rangeMap, ip := none, port := -1, hash, idx := idx.toInt }
  | .addRemotePatchBucket io folder rangeMap ip port hash =>
    configOk io st { folder, rangeMap, ip := some ip, port := port.toInt, hash, idx := 1 }
  | .shiftMemBucket io rangeMap hash => shiftOk io st rangeMap hash
  | .bucketSetOffline _ ip port rangeMap hash _ => esqBeeFindBucket st rangeMap hash ip port.toInt = none
  | .startBeeServer io port => startOk io st port.toInt
  | _ => True

/-! ## 不変量 -/

structure LinkInv (st : Bee) (all loaded : Fin 10 → List Nat) : Prop where
  maps : RangeMapsInv st.maps all loaded
  names : ∀ {i j}, (st.maps.slot i).name = (st.maps.slot j).name →
    (st.maps.slot i).name ≠ .empty → i = j
  fits : ∀ i, ∀ p ∈ all i, (st.maps.node p).ip < 2 ^ 32 ∧ -2 ^ 31 ≤ (st.maps.node p).port ∧
    (st.maps.node p).port < 2 ^ 31
  online : OnlineInv st
  links : ∀ i, ∀ p ∈ all i, st.LinkRight (st.maps.slot i).name (st.maps.node p)

section

variable {st st' : Bee} {all loaded all' loaded' : Fin 10 → List Nat} {i j : Fin 10} {p a : Nat}
  {b b' : BeeBucket} {n n' : RangeNode} {name : CStr}

theorem RangeNode.fields_of_data (h : n'.data = n.data) :
    n'.flags = n.flags ∧ n'.ip = n.ip ∧ n'.port = n.port ∧ n'.bucket = n.bucket := by
  simp only [RangeNode.data, RangeNode.mk.injEq] at h
  obtain ⟨-, hip, hport, hflags, -, -, -, hbucket⟩ := h
  exact ⟨hflags, hip, hport, hbucket⟩

theorem RangeNode.owner_of_data (h : n'.data = n.data) : n'.owner = n.owner := by
  obtain ⟨h1, h2, h3, -⟩ := RangeNode.fields_of_data h
  unfold RangeNode.owner
  rw [h1, h2, h3]

theorem serves_congr (hk : b'.key = b.key) (hhash : n'.hash = n.hash) (howner : n'.owner = n.owner) :
    Serves b' name n' ↔ Serves b name n := by
  obtain ⟨h1, h2, h3, h4⟩ := BeeBucket.key_eq_iff.mp hk
  unfold Serves
  rw [h1, h2, h3, h4, hhash, howner]

theorem OnlineInv.not_serves_empty (h : OnlineInv st) (ha : a ∈ st.online) :
    ¬ Serves (st.bucket a) .empty n := by
  intro hs
  have hname := (h.named a ha).name
  rw [hs.1] at hname
  cases hname

theorem Bee.LinkRight.congr (h : st.LinkRight name n) (hdata : n'.data = n.data)
    (hs : SameOnline st st') : st'.LinkRight name n' := by
  obtain ⟨-, -, -, hbucket⟩ := RangeNode.fields_of_data hdata
  have howner := RangeNode.owner_of_data hdata
  have hhash := RangeNode.hash_of_data hdata
  unfold Bee.LinkRight at h ⊢
  rw [hbucket, hs.online]
  cases hb : n.bucket with
  | none =>
    rw [hb] at h
    intro a ha hserves
    exact h a ha ((serves_congr (hs.key a ha) hhash howner).mp hserves)
  | some a =>
    rw [hb] at h
    exact ⟨h.1, (serves_congr (hs.key a h.1) hhash howner).mpr h.2⟩

theorem LinkInv.shrink (h : LinkInv st all loaded) (hmaps : RangeMapsInv st'.maps all' loaded')
    (hs : SameOnline st st') (hname : ∀ i, (st'.maps.slot i).name = (st.maps.slot i).name)
    (hall : ∀ i, ∀ p ∈ all' i, p ∈ all i ∧ (st'.maps.node p).data = (st.maps.node p).data) :
    LinkInv st' all' loaded' where
  maps := hmaps
  names {i j} he hne := by
    rw [hname i, hname j] at he
    rw [hname i] at hne
    exact h.names he hne
  fits i p hp := by
    obtain ⟨hm, hd⟩ := hall i p hp
    obtain ⟨-, h1, h2, -⟩ := RangeNode.fields_of_data hd
    rw [h1, h2]
    exact h.fits i p hm
  online := h.online.congr hs
  links i p hp := by
    obtain ⟨hm, hd⟩ := hall i p hp
    rw [hname i]
    exact (h.links i p hm).congr hd hs

theorem sameOnline_onMaps (st : Bee) (m : RangeMaps) : SameOnline st { st with maps := m } :=
  ⟨rfl, fun _ _ => rfl⟩

/-! ## range map の操作 -/

theorem LinkInv.new (h : LinkInv st all loaded) (hok : newOk st name) :
    LinkInv { st with maps := (rangeMapNew st.maps name).2 } all loaded := by
  rcases rangeMapStep_cases st.maps (.new name) with ⟨errs, he⟩ | ⟨maps, he, heff⟩
  · have he : rangeMapNew st.maps name = (some errs, st.maps) := he
    rw [he]
    exact h
  · have he : rangeMapNew st.maps name = (none, maps) := he
    cases heff with
    | reload hop => exact hop.elim
    | @new _ i hcheck hfree hslot =>
      rw [he]
      have hempty : (st.maps.slot i).name = .empty := by
        simpa using List.find?_some hslot
      have hinv := h.maps.setName i name
      have hself := RangeMaps.name_setName_self st.maps i name
      have hother : ∀ j, j ≠ i → _ := fun j hj => RangeMaps.name_setName_of_ne st.maps hj name
      have hnames : ∀ j k, _ → _ → j = k := fun j k =>
        RangeMaps.names_setName (i := i) (j := j) (k := k) h.names (rangeMapFindByName_eq_none hfree)
      have hnode : (st.maps.setSlot i fun m => { m with name := name }).node = st.maps.node := rfl
      generalize (st.maps.setSlot i fun m => { m with name := name }) = maps'
        at hinv hself hother hnode hnames
      refine ⟨hinv, fun {j k} => hnames j k, ?_, h.online.congr (sameOnline_onMaps st _), ?_⟩
      · simp only [hnode]
        exact h.fits
      · intro j p hp
        show Bee.LinkRight { st with maps := maps' } (maps'.slot j).name (maps'.node p)
        rw [hnode]
        have hright := h.links j p hp
        by_cases hji : j = i
        · subst hji
          rw [hself]
          -- 名前の無い間は、どの bucket も受け持たない
          unfold Bee.LinkRight at hright ⊢
          cases hb : (st.maps.node p).bucket with
          | some a =>
            rw [hb, hempty] at hright
            exact absurd hright.2 (h.online.not_serves_empty hright.1)
          | none =>
            rw [← (h.maps.maps j).toListed.allNodes_eq] at hp
            exact hok hcheck hfree j hslot p hp
        · rw [hother j hji]
          exact hright.congr rfl (sameOnline_onMaps st _)

theorem LinkInv.reload (h : LinkInv st all loaded) (i : Fin 10) (ps : List Nat)
    (hps : ∀ p ∈ ps, p ∈ st.maps.allNodes i) :
    ∃ all' loaded', LinkInv { st with
      maps := rangeMapLoad (rangeMapClean (ps.foldl RangeMaps.markDelete st.maps) i) i }
      all' loaded' := by
  rw [(h.maps.maps i).toListed.allNodes_eq] at hps
  refine ⟨_, _, h.shrink (h.maps.delete i ps hps) (sameOnline_onMaps st _) ?_ ?_⟩
  · exact ((h.maps.maps i).toListed.delete_frame ps).2
  · intro j p hp
    exact h.maps.delete_data i ps hps hp

theorem LinkInv.reloads (h : LinkInv st all loaded) (op : RangeMapOp) (hop : op.Reloads name) :
    ∃ all' loaded', LinkInv { st with maps := (rangeMapStep st.maps op).2 } all' loaded' := by
  rcases rangeMapStep_cases st.maps op with ⟨errs, he⟩ | ⟨maps, he, heff⟩
  · rw [he]
    exact ⟨all, loaded, h⟩
  · rw [he]
    cases heff with
    | @reload _ _ i ps _ _ hps => exact h.reload i ps hps
    | new => exact hop.elim
    | addNode => exact hop.elim
    | bucketOnline => exact hop.elim
    | bucketOffline => exact hop.elim
    | selfPortSetup => exact hop.elim

theorem translateMkcParams_eq_ok {ipStr hashString : CStr} {params : MkcParams}
    (h : translateMkcParams ipStr hashString = .ok params) : params.ip < 2 ^ 32 ∧
      ∃ c ∈ hashString.bytes.take (params.hashStrLen + 1), hashStringHandleTable c = .endMark := by
  unfold translateMkcParams at h
  simp only at h
  split at h
  · cases h
  · split at h
    · cases h
    · next ip hip =>
      split at h
      · cases h
      · split at h
        · cases h
        · next start len hget =>
          split at h
          · cases h
          · next hlen =>
            split at h
            · cases h
            · cases h
              simp only [not_or, not_not] at hlen
              obtain ⟨hstart, hl, -⟩ := hlen
              subst hstart
              obtain ⟨⟨x⟩, -⟩ := getHashString_split hget
              refine ⟨getIpv4Addr_lt hip, x.mark, ?_, x.mark_eq⟩
              show x.mark ∈ hashString.bytes.take (len + 1)
              rw [hl]
              exact x.mark_mem

theorem OnlineInv.bucket_newNode (h : OnlineInv st) (host : Host) (name : CStr)
    {ipStr hashString : CStr} {port : Int} (flags : BitVec 32) {params : MkcParams} (hport : -2 ^ 31 ≤ port ∧ port < 2 ^ 31)
    (hparams : translateMkcParams ipStr hashString = .ok params) :
    (rangeMapNewNode (st.env host) name ipStr hashString port flags params).bucket = none := by
  obtain ⟨hip, c, hc, hmark⟩ := translateMkcParams_eq_ok hparams
  simp only [rangeMapNewNode]
  split
  · refine h.rbFind_of_mark ⟨?_, ?_, ?_⟩ hc hmark
    · exact Nat.two_pow_pos 32
    · show -2 ^ 31 ≤ (0 : Int)
      decide
    · show (0 : Int) < 2 ^ 31
      decide
  · exact h.rbFind_of_mark ⟨hip, hport.1, hport.2⟩ hc hmark

theorem LinkInv.addNode (h : LinkInv st all loaded) {host : Host} {oracle : Option Nat}
    {ipStr hashString : CStr} {port : Int} {flags : BitVec 32}
    (hport : -2 ^ 31 ≤ port ∧ port < 2 ^ 31)
    (hok : addNodeOk st host oracle name ipStr port flags hashString) :
    ∃ all' loaded', LinkInv { st with
      maps := (rangeMapAddNode (st.env host) oracle st.maps name ipStr port flags hashString).2 }
      all' loaded' := by
  rcases rangeMapStep_cases st.maps
    (.addNode (st.env host) oracle name ipStr port flags hashString) with ⟨errs, he⟩ | ⟨m, he, heff⟩
  · have he : rangeMapAddNode (st.env host) oracle st.maps name ipStr port flags hashString
        = (some errs, st.maps) := he
    rw [he]
    exact ⟨all, loaded, h⟩
  · have he : rangeMapAddNode (st.env host) oracle st.maps name ipStr port flags hashString
        = (none, m) := he
    rw [he]
    cases heff with
    | reload hop => exact hop.elim
    | @addNode _ _ _ _ _ _ _ params i p hparams hf hfind hmalloc =>
      have hnew := rangeMapNewNode_spec (st.env host) name ipStr hashString port flags params
      have hfresh := (h.maps.maps i).toListed.newNode_key (st.env host) name ipStr
        hashString flags hfind
      have hshort := rangeMapNewNode_hash_length (st.env host) name port flags hparams
      have hnone := h.online.bucket_newNode host name flags hport hparams
      have hserves := hok params i hparams hf hfind (by rw [hmalloc]; simp)
      have hip := (translateMkcParams_eq_ok hparams).1
      generalize rangeMapNewNode (st.env host) name ipStr hashString port flags params = node
        at hnew hfresh hshort hnone hserves ⊢
      obtain ⟨hkey, -⟩ := hnew
      obtain ⟨hkip, hkport, hkhash⟩ : node.ip = params.ip ∧ node.port = port ∧
          node.hash = params.hash := by
        simpa [RangeNode.key] using hkey
      obtain ⟨-, hlive⟩ := RangeMaps.malloc_eq_some hmalloc
      have hinv : RangeMapsInv (st.maps.joinAllList i p node) _ _ := h.maps.join i hlive
        hfresh hshort
      have hname : ∀ j, ((st.maps.joinAllList i p node).slot j).name = (st.maps.slot j).name :=
        RangeMaps.name_joinAllList st.maps i p node
      have hself : ((st.maps.joinAllList i p node).node p).data = node.data := by
        simp [RangeMaps.joinAllList, RangeNode.data]
      have hother : ∀ j, ∀ q ∈ all j, (st.maps.joinAllList i p node).node q = st.maps.node q := by
        intro j q hq
        refine Function.update_of_ne ?_ _ _
        rintro rfl
        have := (h.maps.maps j).live q hq
        rw [hlive] at this
        cases this
      generalize st.maps.joinAllList i p node = maps' at hinv hname hself hother ⊢
      have hsame := sameOnline_onMaps st maps'
      -- 足した node と、もとからの node
      have hcases : ∀ j q, q ∈ Function.update all i (p :: all i) j →
          (j = i ∧ (maps'.node q).data = node.data) ∨
            q ∈ all j ∧ (maps'.node q).data = (st.maps.node q).data := by
        intro j q hq
        by_cases hji : j = i
        · subst hji
          rw [Function.update_self, List.mem_cons] at hq
          rcases hq with rfl | hq
          · exact Or.inl ⟨rfl, hself⟩
          · exact Or.inr ⟨hq, congrArg RangeNode.data (hother j q hq)⟩
        · rw [Function.update_of_ne hji] at hq
          exact Or.inr ⟨hq, congrArg RangeNode.data (hother j q hq)⟩
      refine ⟨_, _, hinv, ?_, ?_, h.online.congr hsame, ?_⟩
      · intro j k hjk hj
        simp only [hname] at hjk hj
        exact h.names hjk hj
      · intro j q hq
        rcases hcases j q hq with ⟨-, hd⟩ | ⟨hq, hd⟩
        · obtain ⟨-, h1, h2, -⟩ := RangeNode.fields_of_data hd
          rw [h1, h2, hkip, hkport]
          exact ⟨hip, hport⟩
        · obtain ⟨-, h1, h2, -⟩ := RangeNode.fields_of_data hd
          rw [h1, h2]
          exact h.fits j q hq
      · intro j q hq
        show Bee.LinkRight _ (maps'.slot j).name (maps'.node q)
        rw [hname]
        rcases hcases j q hq with ⟨rfl, hd⟩ | ⟨hq, hd⟩
        · have hright : st.LinkRight name node := by
            unfold Bee.LinkRight
            rw [hnone]
            exact hserves
          rw [rangeMapFindByName_eq_some hf]
          exact hright.congr hd hsame
        · exact (h.links j q hq).congr hd hsame

/-! ## bucket を開いたとき -/

theorem rangeMapFindByName2_eq_some {maps : RangeMaps} {m : List UInt8}
    (hf : rangeMapFindByName2 maps m = some i) : (maps.slot i).name.bytes = m := by
  simpa using List.find?_some hf

theorem rangeMapFindByName2_eq_none {maps : RangeMaps} {m : List UInt8}
    (hf : rangeMapFindByName2 maps m = none) (i : Fin 10) : (maps.slot i).name.bytes ≠ m := by
  simpa using List.find?_eq_none.mp hf i (List.mem_finRange i)

/-- `p` のほかは、開いている bucket とその key が同じ。 -/
structure OnlineWith (st st' : Bee) (p : Nat) : Prop where
  maps : st'.maps = st.maps
  inv : OnlineInv st'
  mem : p ∈ st'.online
  old : ∀ a ∈ st.online, a ∈ st'.online ∧ (st'.bucket a).key = (st.bucket a).key
  new : ∀ a ∈ st'.online, a = p ∨ a ∈ st.online

theorem LinkInv.eq_of_bytes (h : LinkInv st all loaded) (hb : b.Named)
    (hi : (st.maps.slot i).name.bytes = b.rangeMapName)
    (hj : (st.maps.slot j).name.bytes = b.rangeMapName) : i = j := by
  refine h.names (Subtype.ext (hi.trans hj.symm)) ?_
  intro he
  have hname := hb.name
  rw [← hi, he] at hname
  cases hname

theorem OnlineWith.linkRight (hw : OnlineWith st st' p) (h : st.LinkRight name n)
    (hns : ¬ Serves (st'.bucket p) name n) : st'.LinkRight name n := by
  unfold Bee.LinkRight at h ⊢
  cases hb : n.bucket with
  | some a =>
    rw [hb] at h
    obtain ⟨ha, hk⟩ := hw.old a h.1
    exact ⟨ha, (serves_congr hk rfl rfl).mpr h.2⟩
  | none =>
    rw [hb] at h
    intro a ha hserves
    rcases hw.new a ha with rfl | ha
    · exact hns hserves
    · exact h a ha ((serves_congr (hw.old a ha).2 rfl rfl).mp hserves)

/-- **比較が合っていれば、開いた bucket の通知は対応を正しくする。** -/
theorem LinkInv.announce (h : LinkInv st all loaded) (hw : OnlineWith st st' p)
    (hok : announceOk st (st'.bucket p)) : LinkInv (st'.notifyOnline p) all loaded := by
  have hb := hw.inv.named p hw.mem
  have hsame : SameOnline st' (st'.notifyOnline p) := ⟨rfl, fun _ _ => rfl⟩
  obtain ⟨hmaps, hslot, hset⟩ := h.maps.bucketOnline ⟨p, (st'.bucket p).ip, (st'.bucket p).port,
    (st'.bucket p).hashStr⟩ (st'.bucket p).rangeMapName
  have hnotify : (st'.notifyOnline p).maps = rangeMapNotifyBucketOnline st.maps ⟨p, (st'.bucket p).ip,
      (st'.bucket p).port, (st'.bucket p).hashStr⟩ (st'.bucket p).rangeMapName := by
    unfold Bee.notifyOnline
    rw [hw.maps]
  rw [← hnotify] at hmaps hslot hset
  -- 選ばれた node が、受け持つ node である
  have hnode : ∀ i, ∀ q ∈ all i, ((st'.notifyOnline p).maps.node q = st.maps.node q ∧
        ¬ Serves (st'.bucket p) (st.maps.slot i).name (st.maps.node q)) ∨
      ((st'.notifyOnline p).maps.node q = { st.maps.node q with bucket := some p } ∧
        Serves (st'.bucket p) (st.maps.slot i).name (st.maps.node q)) := by
    intro i q hq
    have hq' : q ∈ st.maps.allNodes i := by rwa [(h.maps.maps i).toListed.allNodes_eq]
    rw [hset i q hq]
    by_cases hname : (st.maps.slot i).name.bytes = (st'.bucket p).rangeMapName
    · have hiff := hok i hname q hq'
      have hf : rangeMapFindByName2 st.maps (st'.bucket p).rangeMapName = some i := by
        cases hf : rangeMapFindByName2 st.maps (st'.bucket p).rangeMapName with
        | none => exact absurd hname (rangeMapFindByName2_eq_none hf i)
        | some j => rw [h.eq_of_bytes hb (rangeMapFindByName2_eq_some hf) hname]
      by_cases hm : BucketView.matches
          ⟨p, (st'.bucket p).ip, (st'.bucket p).port, (st'.bucket p).hashStr⟩ (st.maps.node q) = true
      · rw [if_pos ⟨hf, hm⟩]
        exact Or.inr ⟨rfl, hiff.mp hm⟩
      · rw [if_neg fun hc => hm hc.2]
        exact Or.inl ⟨rfl, fun hs => hm (hiff.mpr hs)⟩
    · rw [if_neg fun hc => hname (rangeMapFindByName2_eq_some hc.1)]
      exact Or.inl ⟨rfl, fun hs => hname hs.1.symm⟩
  refine ⟨hmaps, ?_, ?_, hw.inv.congr hsame, ?_⟩
  · intro i j hij hi
    rw [hslot] at hij hi
    exact h.names hij hi
  · intro i q hq
    rcases hnode i q hq with ⟨he, -⟩ | ⟨he, -⟩
    · rw [he]
      exact h.fits i q hq
    · rw [he]
      exact h.fits i q hq
  · intro i q hq
    rw [hslot]
    rcases hnode i q hq with ⟨he, hns⟩ | ⟨he, hs⟩
    · rw [he]
      exact (hw.linkRight (h.links i q hq) hns).congr rfl hsame
    · rw [he]
      exact ⟨hw.mem, (serves_congr rfl rfl rfl).mp hs⟩

theorem LinkInv.sameOnline (h : LinkInv st all loaded) (hs : SameOnline st st')
    (hm : st'.maps = st.maps) : LinkInv st' all loaded := by
  refine h.shrink ?_ hs ?_ ?_
  · rw [hm]
    exact h.maps
  · intro i
    rw [hm]
  · intro i q hq
    rw [hm]
    exact ⟨hq, rfl⟩

theorem Inserted.onlineWith (hins : Inserted st p b st') (hp : p ∉ st.online) :
    OnlineWith st st' p where
  maps := hins.maps
  inv := hins.inv
  mem := (hins.online p).mpr (Or.inl rfl)
  old a ha := by
    have hap : a ≠ p := fun he => hp (he ▸ ha)
    exact ⟨(hins.online a).mpr (Or.inr ha), by rw [hins.others a hap]⟩
  new a ha := (hins.online a).mp ha

theorem OnlineWith.refl (h : OnlineInv st) (hp : p ∈ st.online) : OnlineWith st st p :=
  ⟨rfl, h, hp, fun _ ha => ⟨ha, rfl⟩, fun _ ha => Or.inr ha⟩

theorem OnlineWith.setBucket (hw : OnlineWith st st' p) (hk : b.key = (st'.bucket p).key) :
    OnlineWith st (st'.setBucket p b) p := by
  have hs : SameOnline st' (st'.setBucket p b) := .setBucket hk
  refine ⟨hw.maps, hw.inv.congr hs, ?_, ?_, ?_⟩
  · rw [hs.online]
    exact hw.mem
  · intro a ha
    obtain ⟨ha, hk⟩ := hw.old a ha
    rw [hs.online]
    exact ⟨ha, (hs.key a ha).trans hk⟩
  · intro a ha
    rw [hs.online] at ha
    exact hw.new a ha

theorem announceOk.congr (h : announceOk st b) (hk : b'.key = b.key) : announceOk st b' := by
  obtain ⟨h1, h2, h3, h4⟩ := BeeBucket.key_eq_iff.mp hk
  intro i hi p hp
  rw [h2, h3, h4, serves_congr hk rfl rfl]
  exact h i (hi.trans h1) p hp

theorem LinkInv.openDisk (h : LinkInv st all loaded) {io : OpenIo} {idx : Fin 2} (hb : b.Named)
    (hp : st.malloc io.malloc = some p) (hok : openOk io st b) :
    LinkInv (beeOpenDiskBucket io st p b idx).2 all loaded := by
  unfold beeOpenDiskBucket
  cases hf : st.rbFind b with
  | some q =>
    simp only
    split
    · exact h
    · split
      · exact h
      · exact h.sameOnline (.setBucket (BeeBucket.key_setKcdb _ _ _)) rfl
  | none =>
    simp only
    split
    · exact h
    · next kcdb hk =>
      have hnew : (b.setKcdb idx (some kcdb)).Named := hb.congr (BeeBucket.key_setKcdb _ _ _)
      have hf' : st.rbFind (b.setKcdb idx (some kcdb)) = none := hf
      obtain ⟨-, hins⟩ := h.online.rbInsert hf' (Bee.malloc_eq_some hp) hnew io.rotate
      have hagree := hok (by rw [hp]; simp) (by rw [hk]; simp) hf
      refine h.announce (hins.onlineWith (Bee.malloc_eq_some hp)) ?_
      rw [hins.self]
      exact hagree

theorem LinkInv.allocAndOpen (h : LinkInv st all loaded) {io : OpenIo} {idx : Fin 2} (hb : b.Named)
    (hok : openOk io st b) (noMemory : String) :
    LinkInv (allocAndOpen io st noMemory b idx).2 all loaded := by
  unfold Esq.allocAndOpen
  split
  · exact h
  · next p hp => exact h.openDisk hb hp hok

theorem LinkInv.openFile (h : LinkInv st all loaded) {io : OpenIo} {folder : List UInt8} {dName : CStr}
    (hok : fileOk io st folder dName.bytes) :
    LinkInv (beeOpenBucketFile io st folder dName).2 all loaded := by
  unfold fileOk at hok
  unfold beeOpenBucketFile
  split
  · next d0 d1 d2 hd =>
    rw [hd] at hok
    have hok : ∀ x, localBucketFile folder dName.bytes d0 d1 d2 = some x → openOk io st x.1 := hok
    unfold beeOpenLocalBucketFile
    split
    · exact h
    · next b idx hb =>
      have hopen : openOk io st b := hok (b, idx) hb
      exact h.allocAndOpen (localBucketFile_named hb) hopen _
  · next d0 _ _ _ d4 d5 d6 hd =>
    rw [hd] at hok
    have hok : ∀ x, remotePatchBucketFile folder dName.bytes d0 d4 d5 d6 = some x →
        openOk io st x.1 := hok
    unfold beeOpenRemotePatchBucketFile
    split
    · exact h
    · next b idx hb =>
      have hopen : openOk io st b := hok (b, idx) hb
      exact h.allocAndOpen (remotePatchBucketFile_named hb) hopen _
  · exact h

theorem LinkInv.openFiles {folder : List UInt8} {ents : List Dirent} (h : LinkInv st all loaded)
    (hok : filesOk folder st ents) : LinkInv (beeOpenBucketFiles folder st ents).2 all loaded := by
  induction ents generalizing st with
  | nil => exact h
  | cons ent ents ih =>
    unfold filesOk at hok
    unfold beeOpenBucketFiles
    split
    · next hreg =>
      rw [if_pos hreg] at hok
      exact ih h hok
    · next hreg =>
      rw [if_neg hreg] at hok
      have hfile := h.openFile hok.1
      split
      · next errs st' he =>
        rw [he] at hfile
        exact hfile
      · next st' he =>
        rw [he] at hfile hok
        exact ih hfile hok.2

theorem LinkInv.addConfig (h : LinkInv st all loaded) {io : OpenIo} {c : DiskBucketConfig}
    (hok : configOk io st c) : LinkInv (beeAddDiskBucketByConfig io st c).2 all loaded := by
  unfold beeAddDiskBucketByConfig
  split
  · exact h
  · next k hk =>
    split
    · exact h
    · next p hp =>
      split
      · exact h
      · exact h.openDisk (configBucket_named hk) hp (hok k hk)

theorem LinkInv.shiftMem (h : LinkInv st all loaded) {io : ShiftIo} {rangeMap hash : List UInt8}
    (hok : shiftOk io st rangeMap hash) :
    LinkInv (beeShiftMemBucket io st rangeMap hash).2 all loaded := by
  unfold beeShiftMemBucket
  split
  · exact h
  · next hashLen hcheck =>
    split
    · exact h
    · next a ha =>
      split
      · exact h
      · next hnew =>
        split
        · exact h
        · next hopen =>
          have hb := memBucket_named (checkNameHash_eq_ok hcheck)
          have hok := hok hashLen hcheck (by rw [ha]; simp) (by simpa using hnew)
            (by simpa using hopen)
          have hempty : (memBucket rangeMap hash hashLen).kcdb 0 = none := rfl
          generalize memBucket rangeMap hash hashLen = b at hb hok hempty ⊢
          cases hf : st.rbFind b with
          | some q =>
            -- もう開いている bucket
            have hins : st.rbInsert io.rotate a b = (some q, st) := by
              simp only [Bee.rbInsert, hf]
            obtain ⟨hq, hk⟩ := h.online.rbFind_eq_some hb.toFits hf
            have hkey := BeeBucket.key_shift (st.bucket q) .empty
            simp only [hins, Option.getD_some]
            split
            · exact h.sameOnline (.setBucket hkey) rfl
            · next hkcdb =>
              have hagree := hok fun p hp => by
                rw [hf, Option.some.injEq] at hp
                subst hp
                simpa using hkcdb
              refine h.announce ((OnlineWith.refl h.online hq).setBucket hkey) (hagree.congr ?_)
              exact (SameOnline.setBucket hkey).key q hq |>.trans hk.symm
          | none =>
            obtain ⟨hep, hins⟩ := h.online.rbInsert hf (Bee.malloc_eq_some ha) hb io.rotate
            have hagree := hok fun p hp => by
              rw [hf] at hp
              cases hp
            generalize st.rbInsert io.rotate a b = r at hep hins ⊢
            obtain ⟨ep, st'⟩ := r
            have hep : ep = none := hep
            have hself : st'.bucket a = b := hins.self
            subst hep
            have hkey := BeeBucket.key_shift (st'.bucket a) .empty
            simp only [Option.getD_none]
            rw [if_neg (by simp [hself, hempty])]
            have hw := hins.onlineWith (Bee.malloc_eq_some ha)
            refine h.announce (hw.setBucket hkey) (hagree.congr ?_)
            refine ((SameOnline.setBucket hkey).key a hw.mem).trans ?_
            rw [hself]

/-! ## 閉じる関数と server -/

theorem setOffline_same {rotate : SearchTree Nat → SearchTree Nat} {ip : Nat} {port : Int}
    {rangeMap hash : List UInt8} {idx : Int}
    (hf : esqBeeFindBucket st rangeMap hash ip port = none) :
    (beeBucketSetOffline rotate ip port st rangeMap hash idx).2 = st := by
  have hf : st.rbFind { rangeMapName := rangeMap, hashStr := hash, ip, port } = none := hf
  unfold beeBucketSetOffline
  split
  · rfl
  · split
    · rfl
    · split
      · rfl
      · rw [hf]

theorem hasFlag_and_not_self (f flag : BitVec 32) : hasFlag (f &&& ~~~flag) flag = false := by
  unfold hasFlag
  have hzero : flag &&& (f &&& ~~~flag) = 0 := by
    ext i hi
    simp
    intro h1 _
    exact h1
  simp [hzero]

theorem rangeMapReconnect_spec (host : Host) (hport : st.port ≠ -1) (name : CStr) (n : RangeNode) :
    (rangeMapReconnect (st.env host) name n).hash = n.hash ∧
      (rangeMapReconnect (st.env host) name n).ip = n.ip ∧
      (rangeMapReconnect (st.env host) name n).port = n.port ∧
      (rangeMapReconnect (st.env host) name n).owner = n.ownerAt host st.port ∧
      (rangeMapReconnect (st.env host) name n).bucket
        = esqBeeFindBucket st name.bytes n.hash (n.ownerAt host st.port).1
          (n.ownerAt host st.port).2 := by
  have hcond : (host.osIpAddressIsMe n.address && beeServerIsMyPort st n.port)
      = (host.osIpAddressIsMe n.address && decide (n.port = st.port)) := by
    simp [beeServerIsMyPort, hport]
  unfold rangeMapReconnect RangeNode.ownerAt RangeNode.owner
  simp only [Bee.env, hcond]
  split
  · simp [hasFlag_or_self (show rmNodeMe ≠ 0 by decide), esqBeeFindBucket]
  · simp [hasFlag_and_not_self, esqBeeFindBucket]

theorem LinkInv.reconnect_right (h : LinkInv st all loaded) {host : Host} (hport : st.port ≠ -1)
    (hok : reconnectOk host st st.port) (hp : p ∈ all i) (hname : (st.maps.slot i).name ≠ .empty) :
    st.LinkRight (st.maps.slot i).name
      (rangeMapReconnect (st.env host) (st.maps.slot i).name (st.maps.node p)) := by
  obtain ⟨hhash, -, -, howner, hbucket⟩ :=
    rangeMapReconnect_spec host hport (st.maps.slot i).name (st.maps.node p)
  have hok := hok i hname p (by rwa [(h.maps.maps i).toListed.allNodes_eq])
  have hfits : BeeBucket.Fits { rangeMapName := (st.maps.slot i).name.bytes,
                                hashStr := (st.maps.node p).hash,
                                ip := ((st.maps.node p).ownerAt host st.port).1,
                                port := ((st.maps.node p).ownerAt host st.port).2 } := by
    obtain ⟨h1, h2, h3⟩ := h.fits i p hp
    unfold RangeNode.ownerAt
    split
    · refine ⟨Nat.two_pow_pos 32, ?_, ?_⟩
      · show -2 ^ 31 ≤ (0 : Int)
        decide
      · show (0 : Int) < 2 ^ 31
        decide
    · exact ⟨h1, h2, h3⟩
  unfold Bee.LinkRight Serves
  rw [hhash, howner, hbucket]
  unfold esqBeeFindBucket
  cases hf : st.rbFind { rangeMapName := (st.maps.slot i).name.bytes,
                         hashStr := (st.maps.node p).hash,
                         ip := ((st.maps.node p).ownerAt host st.port).1,
                         port := ((st.maps.node p).ownerAt host st.port).2 } with
  | some a =>
    obtain ⟨ha, hk⟩ := h.online.rbFind_eq_some hfits hf
    obtain ⟨h1, h2, h3, h4⟩ := BeeBucket.key_eq_iff.mp hk
    have howner : ((st.bucket a).ip, (st.bucket a).port)
        = (st.maps.node p).ownerAt host st.port := by
      rw [← h3, ← h4]
    exact ⟨ha, h1.symm, (hok a ha h1.symm howner).1.mp h2.symm, howner⟩
  | none =>
    rintro a ha ⟨h1, h2, h3⟩
    obtain ⟨hiff, hord⟩ := hok a ha h1 h3
    have hhash := hiff.mpr h2
    refine h.online.rbFind_ne_none (hord hhash) ha ?_ hf
    exact BeeBucket.key_eq_iff.mpr ⟨h1.symm, hhash.symm, (congrArg Prod.fst h3).symm,
      (congrArg Prod.snd h3).symm⟩

/-- **port が決まると、名前のある map の node はすべて付け直される。** -/
theorem LinkInv.reconnect (h : LinkInv st all loaded) {host : Host} (hport : st.port ≠ -1)
    (hok : reconnectOk host st st.port) :
    LinkInv { st with maps := esqRangeMapNotifySelfPortSetup (st.env host) st.maps } all loaded := by
  obtain ⟨-, -, hslot, -⟩ := selfPortSetup_frame (st.env host) st.maps
  have hset : ∀ i, ∀ p ∈ all i, (esqRangeMapNotifySelfPortSetup (st.env host) st.maps).node p
      = if (st.maps.slot i).name = .empty then st.maps.node p
        else rangeMapReconnect (st.env host) (st.maps.slot i).name (st.maps.node p) := by
    intro i p hp
    exact h.maps.node_selfPortSetup (st.env host) hp
  have hinv := h.maps.selfPortSetup (st.env host)
  generalize esqRangeMapNotifySelfPortSetup (st.env host) st.maps = maps' at hslot hset hinv ⊢
  refine ⟨hinv, ?_, ?_, h.online.congr (sameOnline_onMaps st _), ?_⟩
  · intro i j hij hi
    simp only [hslot] at hij hi
    exact h.names hij hi
  · intro i p hp
    show (maps'.node p).ip < 2 ^ 32 ∧ _
    rw [hset i p hp]
    split
    · exact h.fits i p hp
    · obtain ⟨-, h1, h2, -⟩ :=
        rangeMapReconnect_spec host hport (st.maps.slot i).name (st.maps.node p)
      rw [h1, h2]
      exact h.fits i p hp
  · intro i p hp
    show Bee.LinkRight { st with maps := maps' } (maps'.slot i).name (maps'.node p)
    rw [hset i p hp, hslot]
    split
    · exact (h.links i p hp).congr rfl (sameOnline_onMaps st _)
    · next hname => exact (h.reconnect_right hport hok hp hname).congr rfl (sameOnline_onMaps st _)

theorem LinkInv.start (h : LinkInv st all loaded) {io : StartIo} {port : Int}
    (hok : startOk io st port) : LinkInv (beeServerStartInstance io st port).2 all loaded := by
  unfold beeServerStartInstance
  split
  · exact h
  · next hpos =>
    split
    · exact h
    · next hsd =>
      split
      · exact h
      · next hnew =>
        dsimp only
        split
        · exact h.sameOnline ⟨rfl, fun _ _ => rfl⟩ rfl
        · next sd hprep =>
          have hok := hok (by omega) (by omega) (by simpa using hnew) (by rw [hprep]; rfl)
          have h' : LinkInv { st with port, sd } all loaded :=
            h.sameOnline ⟨rfl, fun _ _ => rfl⟩ rfl
          exact h'.reconnect (by show port ≠ -1; omega) hok

/-! ## 実行 -/

theorem linkInv_step (h : LinkInv st all loaded) (op : BeeOp) (hok : linkOk st op) :
    ∃ all' loaded', LinkInv (beeStep st op).2 all' loaded' := by
  cases op with
  | rangeMapNew name => exact ⟨all, loaded, h.new hok⟩
  | addNode host oracle mapName ipStr port flags hashString =>
    exact h.addNode ⟨port.le_toInt, port.toInt_lt⟩ hok
  | delNode mapName ipStr port hashString =>
    exact h.reloads (.delNode mapName ipStr port.toInt hashString) rfl
  | delAllNode mapName => exact h.reloads (.delAllNode mapName) rfl
  | flush name => exact h.reloads (.flush name) rfl
  | openBucketsFromFolder folder dir =>
    refine ⟨all, loaded, ?_⟩
    simp only [beeStep, beeOpenBucketsFromFolder]
    split
    · exact h
    · next hlen =>
      split
      · exact h
      · next ents => exact h.openFiles (hok (by omega) ents rfl)
  | addDiskBucket io folder rangeMap hash idx => exact ⟨all, loaded, h.addConfig hok⟩
  | addRemotePatchBucket io folder rangeMap ip port hash => exact ⟨all, loaded, h.addConfig hok⟩
  | shiftMemBucket io rangeMap hash => exact ⟨all, loaded, h.shiftMem hok⟩
  | bucketSetOffline rotate ip port rangeMap hash idx =>
    refine ⟨all, loaded, ?_⟩
    simp only [beeStep]
    rw [setOffline_same hok]
    exact h
  | startBeeServer io port => exact ⟨all, loaded, h.start hok⟩
  | serverClose => exact ⟨all, loaded, h.sameOnline ⟨rfl, fun _ _ => rfl⟩ rfl⟩

theorem linkInv_init : LinkInv Bee.init (fun _ => []) (fun _ => []) where
  maps := rangeMapsInv_init
  names _ hne := absurd rfl hne
  fits _ _ hp := by cases hp
  online := ⟨List.forall_mem_nil _, fun _ => List.Pairwise.nil⟩
  links _ _ hp := by cases hp

theorem LinkInv.linksRight (h : LinkInv st all loaded) : LinksRight st := by
  intro i p hp
  rw [(h.maps.maps i).toListed.allNodes_eq] at hp
  exact h.links i p hp

end

/-- **条件を満たす操作の列では、どの順に行っても、どの node も正しい bucket を指す。** -/
theorem link_run (ops : List BeeOp)
    (hok : Along (fun st op => some (beeStep st op).2) linkOk Bee.init ops) :
    LinksRight (beeRun Bee.init ops) := by
  have hinv : ∃ all loaded, LinkInv (beeRun Bee.init ops) all loaded := by
    refine runFrom_invariant (P := fun st => ∃ all loaded, LinkInv st all loaded) ?_
      ⟨_, _, linkInv_init⟩ hok (runFrom_total (fun st op => (beeStep st op).2) ops Bee.init)
    rintro st op st' ⟨all, loaded, h⟩ hop he
    rw [Option.some.injEq] at he
    subst he
    exact linkInv_step h op hop
  obtain ⟨all, loaded, h⟩ := hinv
  exact h.linksRight

def Host.sample : Host where
  inetAddr s := if s.bytes = [49, 50, 55, 46, 48, 46, 48, 46, 49] then 16777343 else 4294967295
  osIpAddressIsMe address := address.sinAddr = 16777343

def StartIo.sample : StartIo := { host := .sample, sessionNew := true, prepare := .ok 3 }

def ShiftIo.sample : ShiftIo := { malloc := some 1, kcdbnew := true, kcdbopen := true, rotate := id }

/-- 名前 `a` の map の、自分の node。prefix は空である。 -/
def sampleAddNode : BeeOp :=
  .addNode .sample (some 100) (.ofBytes [97]) (.ofBytes [49, 50, 55, 46, 48, 46, 48, 46, 49])
    12121 0 (.ofBytes [120])

def sampleLinkOps : List BeeOp :=
  [.rangeMapNew (.ofBytes [97]), .startBeeServer .sample 12121, sampleAddNode,
    .shiftMemBucket .sample [97] [120]]

theorem link_run_sample :
    LinksRight (beeRun Bee.init sampleLinkOps) ∧
      ((beeRun Bee.init sampleLinkOps).maps.node 100).bucket = some 1 := by
  refine ⟨link_run sampleLinkOps ?_, by decide +kernel⟩
  refine along_cons_of_eq rfl ?_ (along_cons_of_eq rfl ?_ (along_cons_of_eq rfl ?_
    (along_cons_of_eq rfl ?_ trivial)))
  · intro _ _ i _ p _ a ha
    cases ha
  · intro _ _ _ _ i _ p _ a ha
    cases ha
  · intro params i _ _ _ _ a ha
    cases ha
  · intro hashLen hcheck _ _ _ _
    cases hcheck
    decide +kernel

/-- **bucket を先に開くと、後から足した node は、受け持つ bucket があっても NULL を指す。** -/
theorem node_after_bucket_unlinked :
    ¬ LinksRight (beeRun Bee.init [.rangeMapNew ⟨[97], by decide⟩, .startBeeServer .sample 12121,
      .shiftMemBucket .sample [97] [120], sampleAddNode]) := by
  intro h
  have hright := h 0 100 (by decide +kernel)
  have hbucket : ((beeRun Bee.init [.rangeMapNew ⟨[97], by decide⟩, .startBeeServer .sample 12121,
      .shiftMemBucket .sample [97] [120], sampleAddNode]).maps.node 100).bucket = none := by
    decide +kernel
  unfold Bee.LinkRight at hright
  rw [hbucket] at hright
  exact hright 1 (by decide +kernel) (by decide +kernel)

end Esq
