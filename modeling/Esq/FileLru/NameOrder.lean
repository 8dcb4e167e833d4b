import Esq.FileLru.Accounting
import Esq.Infra.CircleOrder
import Mathlib.Data.List.Pairwise

/-!
# 名前の順序

`file_lru_name_cmp` は、まず hash の差を 32 bit で取る。hash は 32 bit の全体にわたるので、差の符号が順序に
なるのは、hash が円周の半分に収まる名前の集まりに限る（`name_order_iff`）。長さと文字列の比較は
いつも順序になる。

順序になる間は木も並んでいるので、同じ名前の entry は一つしか入らず、入っている名前は必ず見つかる。
-/

namespace Esq

open Infra

/-! ## 比較 -/

def nameCmp (a b : CStr) : Int := fileLruNameCmp (fileLruKeyOf a) (fileLruKeyOf b)

def nameHash (a : CStr) : Int := fileLruNameHash a.bytes

theorem nameHash_bounds (a : CStr) : -2 ^ 31 ≤ nameHash a ∧ nameHash a < 2 ^ 31 := by
  unfold nameHash fileLruNameHash
  exact toInt32_bounds _

theorem nameHash_diff_eq_zero {a b : CStr} :
    toInt32 (nameHash a - nameHash b) = 0 ↔ nameHash a = nameHash b := by
  have ha := nameHash_bounds a
  have hb := nameHash_bounds b
  constructor
  · intro h
    exact eq_of_toInt32_sub (dvd_of_toInt32_sub h) (by omega) (by omega)
  · intro h
    rw [h, Int.sub_self]
    rfl

/-- **比較は、hash、長さ、文字列の順に見る。** -/
theorem nameCmp_eq_lexCmp : nameCmp =
    lexCmp nameHash (fun x y => toInt32 (x - y))
      (lexCmp (fun a : CStr => a.bytes.length) (fun x y => (x : Int) - y) strcmp) := by
  funext a b
  have hlen : (a.bytes.length : Int) - b.bytes.length = 0 ↔ a.bytes.length = b.bytes.length := by
    omega
  show (if toInt32 (nameHash a - nameHash b) ≠ 0 then toInt32 (nameHash a - nameHash b)
    else if (a.bytes.length : Int) - b.bytes.length ≠ 0 then
      (a.bytes.length : Int) - b.bytes.length
    else strcmp a b) = _
  simp only [lexCmp, ne_eq, nameHash_diff_eq_zero, hlen]

theorem nameCmp_eq_zero {a b : CStr} : nameCmp a b = 0 ↔ a = b := by
  rw [nameCmp_eq_lexCmp]
  unfold lexCmp
  constructor
  · intro h
    split at h
    · next hne => exact absurd (nameHash_diff_eq_zero.mp h) hne
    · split at h
      · next hne =>
        have h : (a.bytes.length : Int) - b.bytes.length = 0 := h
        have hne : a.bytes.length ≠ b.bytes.length := hne
        omega
      · exact strcmp_eq_zero.mp h
  · rintro rfl
    rw [if_neg (fun h => h rfl), if_neg (fun h => h rfl)]
    exact strcmp_self a

/-- **比較が順序になるのは、hash が円周の半分に収まるときである。** -/
theorem orderedOn_nameCmp_iff (S : List CStr) : OrderedOn nameCmp S ↔ InArc (S.map nameHash) := by
  rw [nameCmp_eq_lexCmp]
  exact orderedOn_hash_length_iff (fun _ _ => nameHash_diff_eq_zero)
    (orderedOn_memcmp fun a : CStr => a.bytes ++ [0]) S

/-! ## 並んだ木 -/

def FileLru.nameOf (st : FileLru) (p : Nat) : CStr := (st.entry p).fileName

/-- block の名前はどれも `S` にあり、木は名前の順に並ぶ。 -/
structure OrderInv (S : List CStr) (st : FileLru) (own : Nat → Prop) : Prop
    extends CacheInv st own where
  lost : st.rb.lost = []
  key : ∀ p < st.next, (st.entry p).key = fileLruKeyOf (st.nameOf p)
  name : ∀ p < st.next, st.nameOf p ∈ S
  sorted : st.rb.root.Sorted fun p q => nameCmp (st.nameOf p) (st.nameOf q)

section

variable {S : List CStr} {st st' : FileLru} {own own' : Nat → Prop} {p q : Nat} {io : ForestIo Nat}

theorem SameCache.nameOf (h : SameCache st st') (p : Nat) : st'.nameOf p = st.nameOf p :=
  congrArg FileLruKey.fileName (h.key p)

theorem OrderInv.congr (h : OrderInv S st own) (hs : SameCache st st') : OrderInv S st' own where
  toCacheInv := h.toCacheInv.congr hs
  lost := by
    rw [hs.rb]
    exact h.lost
  key p hp := by
    rw [hs.next] at hp
    rw [hs.key, hs.nameOf]
    exact h.key p hp
  name p hp := by
    rw [hs.next] at hp
    rw [hs.nameOf]
    exact h.name p hp
  sorted := by
    simp only [hs.nameOf, hs.rb]
    exact h.sorted

theorem OrderInv.mono (h : OrderInv S st own) (hc : CacheInv st own') : OrderInv S st own' :=
  { hc with lost := h.lost, key := h.key, name := h.name, sorted := h.sorted }

theorem OrderInv.ordered (h : OrderInv S st own) (ho : OrderedOn nameCmp S) {l : List Nat}
    (hl : ∀ p ∈ l, p < st.next) :
    OrderedOn (fun p q => nameCmp (st.nameOf p) (st.nameOf q)) l := by
  refine OrderedOn.map_iff.mp (ho.mono fun a ha => ?_)
  obtain ⟨p, hp, rfl⟩ := List.mem_map.mp ha
  exact h.name p (hl p hp)

theorem OrderInv.root_lt (h : OrderInv S st own) : ∀ p ∈ st.rb.root.toList, p < st.next :=
  fun p hp => h.list_lt p ((h.toCacheInv.mem_root h.lost).mp hp)

theorem OrderInv.find_eq (h : OrderInv S st own) (hp : p < st.next) :
    st.rbFind (st.entry p).key
      = st.rb.root.find fun q => nameCmp (st.nameOf p) (st.nameOf q) := by
  refine (SearchTree.descend_congr p fun q hq => ?_).1
  rw [h.key p hp, h.key q (h.root_lt q hq)]
  rfl

theorem OrderInv.leave (h : OrderInv S st own) (hp : p ∈ st.list) (hl : st.leave io p = some st') :
    OrderInv S st' own := by
  have hcache : CacheInv st' own := (h.toCacheInv.leave hp hl).mono fun _ hq => Or.inl hq
  rw [h.toCacheInv.leave_of_lost_nil h.lost hp] at hl
  cases hl
  refine ⟨hcache, rfl, h.key, h.name, ?_⟩
  show List.Pairwise _ ((st.rb.root.erase p).rotate io.rotate).toList
  rw [SearchTree.toList_rotate]
  exact h.sorted.sublist (SearchTree.erase_sublist p _)

/-- **同じ名前の entry が無ければ、どれを追い出しても見つからないままである。** -/
theorem OrderInv.makeRoom (h : OrderInv S st own) (ho : OrderedOn nameCmp S) (hp : p < st.next)
    (hfind : st.rbFind (st.entry p).key = none) (hr : fileLruMakeRoom io st p = some st') :
    OrderInv S st' own ∧ (∀ q, (st'.entry q).key = (st.entry q).key) ∧ st'.next = st.next ∧
      st'.rbFind (st.entry p).key = none := by
  obtain ⟨hinv, hsub, hkey, hnext⟩ : OrderInv S st' own ∧ (∀ q ∈ st'.list, q ∈ st.list) ∧
      (∀ q, (st'.entry q).key = (st.entry q).key) ∧ st'.next = st.next := by
    refine fileLruMakeRoom_rule (P := fun s => OrderInv S s own ∧ (∀ q ∈ s.list, q ∈ st.list) ∧
      (∀ q, (s.entry q).key = (st.entry q).key) ∧ s.next = st.next) ?_
      ⟨h, fun _ hq => hq, fun _ => rfl, rfl⟩ h.nodup hr
    rintro s q s' ⟨hs, hsub, hkey, hnext⟩ hq hl
    have hsame := SameCache.evict s' q
    have hleft := hs.leave hq hl
    obtain ⟨rb, -, rfl⟩ := FileLru.leave_eq_some hl
    refine ⟨hleft.congr hsame, fun x hx => ?_, fun x => ?_, ?_⟩
    · rw [hsame.list] at hx
      exact hsub x (List.mem_of_mem_erase hx)
    · rw [hsame.key]
      exact hkey x
    · rw [hsame.next]
      exact hnext
  refine ⟨hinv, hkey, hnext, Option.eq_none_iff_forall_ne_some.mpr fun e he => ?_⟩
  -- 見つかれば、その entry は初めから木にあり、初めの探索でも見つかる
  obtain ⟨hmem, hcmp⟩ := hinv.toCacheInv.mem_of_rbFind he
  have helt := h.list_lt e (hsub e hmem)
  rw [hkey, h.key p hp, h.key e helt] at hcmp
  have hname : st.nameOf p = st.nameOf e := nameCmp_eq_zero.mp hcmp
  have hroot := (h.toCacheInv.mem_root h.lost).mpr (hsub e hmem)
  have hfound := h.sorted.find_ne_none (h.ordered ho h.root_lt) hroot
  rw [h.find_eq hp, hname] at hfind
  exact hfound hfind

theorem OrderInv.join (h : OrderInv S st own) (ho : OrderedOn nameCmp S) (hp : own p)
    (hfind : st.rbFind (st.entry p).key = none) (hj : fileLruBorrowJoin io st p = some st') :
    OrderInv S st' fun q => own q ∧ q ≠ p := by
  have hcache := h.toCacheInv.join hp hj
  have hsame := SameCache.counted st p
  have hc := h.congr hsame
  have hplt : p < (st.counted p).next := by
    rw [hsame.next]
    exact h.own_lt p hp
  have hfind' : (st.counted p).rbFind ((st.counted p).entry p).key = none := by
    rw [hsame.rbFind, hsame.key]
    exact hfind
  rw [fileLruBorrowJoin_eq] at hj
  unfold FileLru.rbInsert at hj
  rw [SearchForest.insert_of_find_none hc.lost hfind'] at hj
  cases hj
  refine ⟨hcache, rfl, hc.key, hc.name, ?_⟩
  have hord := hc.ordered ho (l := p :: (st.counted p).rb.root.toList) fun q hq => by
    rcases List.mem_cons.mp hq with rfl | hq
    · exact hplt
    · exact hc.root_lt q hq
  have hnone := hfind'
  rw [hc.find_eq hplt] at hnone
  have hdescend := (SearchTree.descend_congr (t := (st.counted p).rb.root)
    (c := fun x => fileLruNameCmp ((st.counted p).entry p).key ((st.counted p).entry x).key)
    (d := fun x => nameCmp ((st.counted p).nameOf p) ((st.counted p).nameOf x)) p fun x hx => by
      rw [hc.key p hplt, hc.key x (hc.root_lt x hx)]
      rfl).2
  show List.Pairwise _ (SearchTree.rotate io.rotate
    (SearchTree.insert _ p (st.counted p).rb.root)).toList
  rw [SearchTree.toList_rotate, hdescend]
  exact hc.sorted.insert hord hnone

/-- **同じ名前の entry は一つしか無く、入っている名前は見つかる。** -/
theorem OrderInv.found (h : OrderInv S st own) (ho : OrderedOn nameCmp S) (hp : p ∈ st.list) :
    st.rbFind (fileLruKeyOf (st.nameOf p)) = some p ∧
      ∀ q ∈ st.list, st.nameOf q = st.nameOf p → q = p := by
  have hplt := h.list_lt p hp
  have hord := h.ordered ho h.root_lt
  have hroot := fun {x} => h.toCacheInv.mem_root (p := x) h.lost
  -- 並んだ木の中に、同じ名前の entry は二つ無い
  have hone : ∀ q ∈ st.list, st.nameOf q = st.nameOf p → q = p := by
    intro q hq hname
    have hpw : st.rb.root.toList.Pairwise fun x y => st.nameOf x ≠ st.nameOf y :=
      h.sorted.imp fun hlt he => absurd hlt (not_lt.mpr (nameCmp_eq_zero.mpr he).ge)
    have : Std.Symm fun x y => st.nameOf x ≠ st.nameOf y := ⟨fun _ _ => Ne.symm⟩
    by_contra hne
    exact hpw.forall (hroot.mpr hq) (hroot.mpr hp) hne hname
  refine ⟨?_, hone⟩
  rw [← h.key p hplt]
  cases hf : st.rbFind (st.entry p).key with
  | none =>
    rw [h.find_eq hplt] at hf
    exact absurd hf (h.sorted.find_ne_none hord (hroot.mpr hp))
  | some e =>
    obtain ⟨he, hcmp⟩ := h.toCacheInv.mem_of_rbFind hf
    rw [h.key p hplt, h.key e (h.list_lt e he)] at hcmp
    rw [hone e he (nameCmp_eq_zero.mp hcmp).symm]

end

/-! ## 実行 -/

/-- 借りるのは、名前が `S` にある file だけである。 -/
def LruOp.Within (S : List CStr) : LruOp → Prop
  | .call _ (.borrow fileName) => fileName ∈ S
  | _ => True

def LruPc.wanted : LruPc → Option CStr
  | borrow fileName => some fileName
  | load fileName => some fileName
  | _ => none

structure OrderWorld (S : List CStr) (w : LruWorld) : Prop where
  world : CacheWorld LruPc.inserting w
  order : OrderInv S w.lru (w.Owns LruPc.inserting)
  wanted : ∀ c n, (w.pc c).wanted = some n → n ∈ S

section

variable {S : List CStr} {w w' : LruWorld}

theorem LruWorld.wanted_goto (h : ∀ c n, (w.pc c).wanted = some n → n ∈ S) {c : Nat} {pc : LruPc}
    (hpc : w'.pc = Function.update w.pc c pc) (hnew : ∀ n, pc.wanted = some n → n ∈ S) :
    ∀ c n, (w'.pc c).wanted = some n → n ∈ S := by
  intro c' n hn
  rw [hpc] at hn
  by_cases hc : c' = c
  · subst hc
    rw [Function.update_self] at hn
    exact hnew n hn
  · rw [Function.update_of_ne hc] at hn
    exact h c' n hn

theorem lruStep_wanted (h : ∀ c n, (w.pc c).wanted = some n → n ∈ S) {op : LruOp}
    (hop : op.Within S)
    (hs : lruStep w op = some w') : ∀ c n, (w'.pc c).wanted = some n → n ∈ S := by
  have hnone : ∀ {c : Nat} {pc : LruPc}, w'.pc = Function.update w.pc c pc → pc.wanted = none →
      ∀ c n, (w'.pc c).wanted = some n → n ∈ S := fun hpc hw =>
    LruWorld.wanted_goto h hpc fun n hn => by rw [hw] at hn; cases hn
  cases op with
  | setup stat rootPath max =>
    cases hs
    exact h
  | setBloom bf =>
    cases hs
    exact h
  | call c f =>
    have hs : lruCall w c f = some w' := hs
    unfold lruCall at hs
    cases f with
    | borrow fileName =>
      dsimp only at hs
      split at hs
      · cases hs
      · split at hs
        · cases hs
          exact h
        · cases hs
          refine LruWorld.wanted_goto h rfl fun n hn => ?_
          cases hn
          exact hop
    | giveBack p =>
      dsimp only at hs
      split at hs
      · cases hs
      · split at hs
        · cases hs
          exact hnone rfl rfl
        · cases hs
          exact h
    | purgeAll =>
      dsimp only at hs
      split at hs
      · cases hs
      · cases hs
        exact hnone rfl rfl
  | run c io =>
    have hs : lruRun w c io = some w' := hs
    unfold lruRun at hs
    cases hpc : w.pc c with
    | idle =>
      simp only [hpc] at hs
      cases hs
    | borrow fileName =>
      simp only [hpc] at hs
      rcases hr : fileLruBorrowFind w.lru fileName with ⟨r, lru⟩
      rw [hr] at hs
      cases r with
      | blocked =>
        cases hs
        exact hnone rfl rfl
      | hit p =>
        cases hs
        exact hnone rfl rfl
      | miss =>
        cases hs
        refine LruWorld.wanted_goto h rfl fun n hn => h c n ?_
        rw [hpc]
        exact hn
    | load fileName =>
      simp only [hpc] at hs
      rcases hr : fileLruLoadFromDisk io.disk w.lru fileName with ⟨r, lru⟩
      rw [hr] at hs
      cases r <;> cases hs <;> exact hnone rfl rfl
    | insert p =>
      simp only [hpc] at hs
      rcases hr : fileLruBorrowInsert io.rb w.lru p with _ | ⟨r, lru⟩
      · rw [hr] at hs
        cases hs
      · rw [hr] at hs
        cases r <;> cases hs <;> exact hnone rfl rfl
    | free p again =>
      simp only [hpc] at hs
      cases hs
      refine hnone rfl ?_
      cases again <;> rfl
    | giveBack p =>
      simp only [hpc] at hs
      rcases hr : fileLruReturn w.lru p with ⟨last, lru⟩
      rw [hr] at hs
      cases hs
      refine hnone rfl ?_
      cases last <;> rfl
    | purgeAll =>
      simp only [hpc] at hs
      rcases hr : fileLruPurgeAll io.rb w.lru with _ | ⟨r, lru⟩
      · rw [hr] at hs
        cases hs
      · rw [hr] at hs
        cases r <;> cases hs <;> exact hnone rfl rfl

theorem OrderInv.alloc {st : FileLru} {own : Nat → Prop} (h : OrderInv S st own) {fileName : CStr}
    (hname : fileName ∈ S) {size : Int} (hsize : 0 < size ∧ size < 2 ^ 31) (data : List UInt8) :
    OrderInv S (st.alloc (.ofFile fileName size data)) fun q => own q ∨ q = st.next := by
  have hcache := h.toCacheInv.alloc (e := .ofFile fileName size data) hsize
  have hold : ∀ p < st.next, (st.alloc (.ofFile fileName size data)).entry p = st.entry p :=
    fun p hp => Function.update_of_ne hp.ne _ _
  have hnew : (st.alloc (.ofFile fileName size data)).entry st.next = .ofFile fileName size data :=
    Function.update_self ..
  have hcases : ∀ p < st.next + 1, p < st.next ∨ p = st.next := fun p hp => by omega
  refine ⟨hcache, h.lost, fun p hp => ?_, fun p hp => ?_, ?_⟩
  · unfold FileLru.nameOf
    rcases hcases p hp with hlt | rfl
    · rw [hold p hlt]
      exact h.key p hlt
    · rw [hnew, FileLruEntry.key_ofFile]
      rfl
  · unfold FileLru.nameOf
    rcases hcases p hp with hlt | rfl
    · rw [hold p hlt]
      exact h.name p hlt
    · rw [hnew]
      exact hname
  · refine h.sorted.imp_of_mem fun {p q} hp hq hlt => ?_
    show nameCmp ((st.alloc (.ofFile fileName size data)).nameOf p)
      ((st.alloc (.ofFile fileName size data)).nameOf q) < 0
    unfold FileLru.nameOf
    rw [hold p (h.root_lt p hp), hold q (h.root_lt q hq)]
    exact hlt

/-- **比較が順序になる名前だけを借りる間、木は並んでいる。** -/
theorem orderWorld_step (ho : OrderedOn nameCmp S) (h : OrderWorld S w) (op : LruOp)
    (hop : op.Within S) (hs : lruStep w op = some w') : OrderWorld S w' := by
  have hord := h.order
  have hworld := cacheWorld_step h.world op hs
  suffices hinv : ∃ own, OrderInv S w'.lru own by
    obtain ⟨own, hinv⟩ := hinv
    exact ⟨hworld, hinv.mono hworld.cache, lruStep_wanted h.wanted hop hs⟩
  cases lruStep_effect hs with
  | same hsame ht => exact ⟨_, hord.congr hsame⟩
  | @alloc c io lru fileName size hpc hsize hsame ht =>
    have hname : fileName ∈ S := h.wanted c fileName (by rw [hpc]; rfl)
    exact ⟨_, (hord.alloc hname hsize io.disk.read).congr hsame⟩
  | @head c io lru p e hpc he hlru =>
    have hinc := hord.congr (.borrowInc w.lru e)
    have hmem : e ∈ (w.lru.borrowInc e).list := (hord.toCacheInv.mem_of_rbFind he).1
    rw [hlru]
    exact ⟨_, { hinc.toCacheInv.toHead hmem with
      lost := hinc.lost, key := hinc.key, name := hinc.name, sorted := hinc.sorted }⟩
  | @join c io _ s p hpc hfind hfit hroom hjoin =>
    have hp : w.Owns LruPc.inserting p := ⟨c, by rw [hpc]; rfl⟩
    obtain ⟨hs, hkey, -, hnone⟩ := hord.makeRoom ho (hord.own_lt p hp) hfind hroom
    refine ⟨_, hs.join ho hp ?_ hjoin⟩
    rw [hkey]
    exact hnone
  | @purge c io lru r hpc hr =>
    have hstep : ∀ s p s', OrderInv S s (w.Owns LruPc.inserting) → p ∈ s.list →
        s.leave io.rb p = some s' → (s'.entry p).borrowCnt ≠ 0 →
        OrderInv S (s'.joinPurged p) (w.Owns LruPc.inserting) := fun s p s' hs hp hl _ =>
      (hs.leave hp hl).congr (.joinPurged s' p)
    rcases fileLruPurgeAll_rule hstep hord hord.nodup hr with ⟨-, h'⟩ | ⟨p, s, -, hs, hp, hl, -⟩
    · exact ⟨_, h'⟩
    · exact ⟨_, hs.leave hp hl⟩

theorem orderWorld_init (S : List CStr) : OrderWorld S .init where
  world := cacheWorld_init _ rfl
  order :=
    { (cacheWorld_init LruPc.inserting rfl).cache with
      lost := rfl
      key := fun p hp => absurd hp (Nat.not_lt_zero p)
      name := fun p hp => absurd hp (Nat.not_lt_zero p)
      sorted := List.Pairwise.nil }
  wanted c n hn := by cases hn

end

/-! ## 比較の性質 -/

/-- 名前の集まり `S` の上での、比較と cache の性質。 -/
structure NameOrder (S : List CStr) : Prop where
  antisymm : ∀ a ∈ S, ∀ b ∈ S, nameCmp a b < 0 ↔ 0 < nameCmp b a
  trans : ∀ a ∈ S, ∀ b ∈ S, ∀ c ∈ S, nameCmp a b < 0 → nameCmp b c < 0 → nameCmp a c < 0
  zero : ∀ a ∈ S, ∀ b ∈ S, nameCmp a b = 0 ↔ a = b
  /-- どの並びで借りても、入っている名前は見つかり、同じ名前の entry は一つである -/
  found : ∀ ops w, (∀ op ∈ ops, LruOp.Within S op) → runFrom lruStep .init ops = some w →
    ∀ p ∈ w.lru.list, w.lru.rbFind (fileLruKeyOf (w.lru.nameOf p)) = some p ∧
      ∀ q ∈ w.lru.list, w.lru.nameOf q = w.lru.nameOf p → q = p

theorem orderWorld_run {S : List CStr} (ho : OrderedOn nameCmp S) {ops : List LruOp}
    {w w' : LruWorld}
    (h : OrderWorld S w) (hops : ∀ op ∈ ops, op.Within S) (hrun : runFrom lruStep w ops = some w') :
    OrderWorld S w' := by
  induction ops generalizing w with
  | nil =>
    cases hrun
    exact h
  | cons op ops ih =>
    obtain ⟨u, hu, hrun⟩ := runFrom_cons_eq_some.mp hrun
    exact ih (orderWorld_step ho h op (hops op List.mem_cons_self) hu)
      (fun op hop => hops op (List.mem_cons_of_mem _ hop)) hrun

/--
**比較が全順序になり、入っている名前が必ず見つかることは、hash が円周の半分に収まることと
同値である。**
-/
theorem name_order_iff (S : List CStr) : NameOrder S ↔ InArc (S.map nameHash) := by
  rw [← orderedOn_nameCmp_iff]
  constructor
  · intro h
    exact .of_antisymm h.antisymm h.trans
  · intro ho
    refine ⟨fun a ha b hb => ho.antisymm (fun a b he => ?_) ha hb, ho.trans,
      fun _ _ _ _ => nameCmp_eq_zero, fun ops w hops hrun p hp => ?_⟩
    · exact nameCmp_eq_zero.mpr (nameCmp_eq_zero.mp he).symm
    · have hinv := orderWorld_run ho (orderWorld_init S) hops hrun
      exact hinv.order.found ho hp

def sampleNames : List CStr :=
  [⟨[97, 97], by decide⟩, ⟨[97, 97, 83], by decide⟩, ⟨[97, 97, 83, 83], by decide⟩]

/-- **`aa` は `aaS` より、`aaS` は `aaSS` より前だが、`aaSS` は `aa` より前である。** -/
theorem name_cmp_cycle : ¬ NameOrder sampleNames := by
  intro h
  have hmem : ∀ i : Fin 3, sampleNames.get i ∈ sampleNames := fun i => List.get_mem sampleNames i
  have hlt := h.trans _ (hmem 0) _ (hmem 1) _ (hmem 2) (by decide +kernel) (by decide +kernel)
  exact absurd hlt (by decide +kernel)

end Esq
