import Esq.Bee.Open

/-!
# 開いている bucket

どの順に開いても、開いている bucket の名前は map の名前として正しく、hash の文字列に `x` は無い
（`OnlineInv`）。したがって `x` を付けたままの文字列で bucket を探しても、決して見つからない。

`esq_bucket_rb` から見つかる bucket は key の等しいものだけである。逆に、key の等しい bucket が必ず
見つかるのは、`esq_bee_bucket_cmp` が開いている bucket の上で順序になっているときである。
-/

namespace Esq

open Infra

/-! ## 作った bucket の欄 -/

structure BeeBucket.Named (b : BeeBucket) : Prop extends b.Fits where
  name : rangeMapNameCheck2 b.rangeMapName = none
  hash : ∀ c ∈ b.hashStr, hashStringHandleTable c ≠ .endMark

section

variable {dName folder rangeMap hash : List UInt8} {b : BeeBucket} {idx : Fin 2}

theorem BeeBucket.fits_local (buf : List UInt8) (nameAt nameLen hashAt hashLen : Nat) :
    (BeeBucket.ofBuf buf nameAt nameLen hashAt hashLen 0 0).Fits where
  ip := Nat.two_pow_pos 32
  port_ge := by
    show -2 ^ 31 ≤ (0 : Int)
    decide
  port_lt := by
    show (0 : Int) < 2 ^ 31
    decide

theorem getHashString_take {s : List UInt8} {r len : Nat} (h : getHashString s = some (r, 0, len)) :
    ∀ c ∈ s.take len, hashStringHandleTable c ≠ .endMark := by
  obtain ⟨⟨x⟩, -⟩ := getHashString_split h
  have hlen : x.digits.length = len := by rw [x.length, Nat.zero_add]
  have htake : s.take len = x.digits :=
    (congrArg (List.take len) x.eq).trans (List.take_left' hlen)
  rw [htake]
  exact x.digits_ne

theorem getHashString_lt {s : List UInt8} {r st len : Nat}
    (h : getHashString s = some (r, st, len)) : st + len < s.length := by
  obtain ⟨⟨x⟩, -⟩ := getHashString_split h
  have := congrArg List.length x.eq
  rw [List.length_append, List.length_cons, x.length] at this
  omega

theorem hashBetweenDots_eq_some {d1 d2 len : Nat} (h : hashBetweenDots dName d1 d2 = some len) :
    ∀ c ∈ (dName.drop (d1 + 1)).take len, hashStringHandleTable c ≠ .endMark := by
  unfold hashBetweenDots at h
  split at h
  · cases h
  · next r start n hget =>
    split at h
    · cases h
    · next hcond =>
      cases h
      simp only [not_or, not_not] at hcond
      obtain ⟨hstart, -⟩ := hcond
      subst hstart
      have hlt := getHashString_lt hget
      have htake : ((dName.drop (d1 + 1)).take (d2 - d1 - 1)).take len
          = (dName.drop (d1 + 1)).take len := by
        rw [List.take_take]
        congr 1
        unfold betweenDots at hlt
        rw [List.length_take] at hlt
        omega
      rw [← htake]
      exact getHashString_take hget

theorem drop_folder (n : Nat) :
    (folder ++ [47] ++ dName).drop (folder.length + 1 + n) = dName.drop n := by
  rw [← List.drop_drop, List.drop_left' (by simp)]

theorem localBucketFile_named {d0 d1 d2 : Nat}
    (h : localBucketFile folder dName d0 d1 d2 = some (b, idx)) : b.Named := by
  unfold localBucketFile at h
  split at h
  · cases h
  · split at h
    · cases h
    · split at h
      · cases h
      · split at h
        · cases h
        · next hname =>
          split at h
          · cases h
          · next len hhash =>
            cases h
            refine ⟨BeeBucket.fits_local .., ?_, ?_⟩
            · show rangeMapNameCheck2 (((folder ++ [47] ++ dName).drop (folder.length + 1)).take d0)
                = none
              rw [← Nat.add_zero (folder.length + 1), drop_folder, List.drop_zero]
              simpa using hname
            · show ∀ c ∈ ((folder ++ [47] ++ dName).drop (folder.length + 1 + d0 + 1)).take len, _
              rw [Nat.add_assoc _ d0 1, drop_folder]
              exact hashBetweenDots_eq_some hhash

theorem remotePatchBucketFile_named {d0 d4 d5 d6 : Nat}
    (h : remotePatchBucketFile folder dName d0 d4 d5 d6 = some (b, idx)) : b.Named := by
  unfold remotePatchBucketFile at h
  split at h
  · cases h
  · split at h
    · cases h
    · split at h
      · cases h
      · next hname =>
        split at h
        · cases h
        · next ap hip =>
          split at h
          · cases h
          · next port hport =>
            split at h
            · cases h
            · next hvalid =>
              split at h
              · cases h
              · next len hhash =>
                cases h
                have hbound : port ≤ 65535 := by
                  simp only [portNumberInvalid, Bool.or_eq_true, decide_eq_true_eq, not_or,
                    not_lt] at hvalid
                  omega
                refine ⟨⟨getIpv4Addr_lt hip, ?_, ?_⟩, ?_, ?_⟩
                · show -2 ^ 31 ≤ (port : Int)
                  omega
                · show (port : Int) < 2 ^ 31
                  omega
                · show rangeMapNameCheck2
                    (((folder ++ [47] ++ dName).drop (folder.length + 1)).take d0) = none
                  rw [← Nat.add_zero (folder.length + 1), drop_folder, List.drop_zero]
                  simpa using hname
                · show ∀ c ∈ ((folder ++ [47] ++ dName).drop (folder.length + 1 + d5 + 1)).take len,
                    _
                  rw [Nat.add_assoc _ d5 1, drop_folder]
                  exact hashBetweenDots_eq_some hhash

structure CheckedNameHash (rangeMap hash : List UInt8) (hashLen : Nat) : Prop where
  name : rangeMapNameCheck2 rangeMap = none
  length : hash.length = hashLen + 1
  digits : ∀ c ∈ hash.take hashLen, hashStringHandleTable c ≠ .endMark

theorem checkNameHash_eq_ok {e1 e2 : String} {hashLen : Nat}
    (h : checkNameHash rangeMap hash e1 e2 = .ok hashLen) :
    CheckedNameHash rangeMap hash hashLen := by
  unfold checkNameHash at h
  split at h
  · cases h
  · next hname =>
    split at h
    · cases h
    · next r start len hget =>
      split at h
      · cases h
      · next hcond =>
        cases h
        simp only [not_or, not_not] at hcond
        obtain ⟨hstart, hlen⟩ := hcond
        subst hstart
        exact ⟨hname, hlen, getHashString_take hget⟩

theorem memBucket_named {hashLen : Nat} (h : CheckedNameHash rangeMap hash hashLen) :
    (memBucket rangeMap hash hashLen).Named := by
  refine ⟨BeeBucket.fits_local .., ?_, ?_⟩
  · show rangeMapNameCheck2 ((rangeMap ++ [46] ++ hash ++ [46, 37]).take rangeMap.length) = none
    rw [List.append_assoc, List.append_assoc, List.take_left]
    exact h.name
  · show ∀ c ∈ ((rangeMap ++ [46] ++ hash ++ [46, 37]).drop (rangeMap.length + 1)).take hashLen, _
    have hdrop : (rangeMap ++ [46] ++ hash ++ [46, 37]).drop (rangeMap.length + 1)
        = hash ++ [46, 37] := by
      rw [List.append_assoc _ hash]
      exact List.drop_left' (by simp)
    rw [hdrop, List.take_append_of_le_length (by rw [h.length]; omega)]
    exact h.digits

theorem checkIpPort_eq_ok {port : Int} {ip : Option (List UInt8)} {s : List UInt8} {ap : Nat}
    (h : checkIpPort port ip = .ok (some (s, ap))) : ap < 2 ^ 32 ∧ 0 ≤ port ∧ port ≤ 65535 := by
  unfold checkIpPort at h
  split at h
  · cases h
  · split at h
    · cases h
    · next hip =>
      split at h
      · cases h
      · split at h
        · cases h
        · next hvalid =>
          cases h
          simp only [portNumberInvalid, Bool.or_eq_true, decide_eq_true_eq, not_or, not_lt] at hvalid
          exact ⟨getIpv4Addr_lt hip, hvalid.1, hvalid.2⟩

theorem checkConfig_eq_ok {c : DiskBucketConfig} {k : ConfigChecked} (h : checkConfig c = .ok k) :
    CheckedNameHash c.rangeMap c.hash k.hashLen ∧
      ∀ x, k.remote = some x → x.2 < 2 ^ 32 ∧ 0 ≤ c.port ∧ c.port ≤ 65535 := by
  unfold checkConfig at h
  obtain ⟨ip, -, h⟩ := bind_eq_ok.mp h
  split at h
  · cases h
  · obtain ⟨remote, hremote, h⟩ := bind_eq_ok.mp h
    obtain ⟨folder, -, h⟩ := bind_eq_ok.mp h
    obtain ⟨hashLen, hhash, h⟩ := bind_eq_ok.mp h
    cases h
    refine ⟨checkNameHash_eq_ok hhash, ?_⟩
    intro x hx
    have hx : remote = some x := hx
    subst hx
    exact checkIpPort_eq_ok hremote

theorem ofBuf_slices (pre name mid hashStr post : List UInt8) (ip : Nat) (port : Int) (at1 at2 : Nat)
    (h1 : at1 = pre.length) (h2 : at2 = pre.length + name.length + mid.length) :
    (BeeBucket.ofBuf (pre ++ name ++ mid ++ hashStr ++ post) at1 name.length at2 hashStr.length ip
        port).rangeMapName = name ∧
      (BeeBucket.ofBuf (pre ++ name ++ mid ++ hashStr ++ post) at1 name.length at2 hashStr.length ip
        port).hashStr = hashStr := by
  subst h1 h2
  constructor
  · show ((pre ++ name ++ mid ++ hashStr ++ post).drop pre.length).take name.length = name
    rw [List.append_assoc, List.append_assoc, List.append_assoc, List.drop_left, List.take_left]
  · show ((pre ++ name ++ mid ++ hashStr ++ post).drop _).take hashStr.length = hashStr
    rw [List.append_assoc _ hashStr, List.drop_left' (by simp [Nat.add_assoc]), List.take_left]

theorem CheckedNameHash.split {hashLen : Nat} (h : CheckedNameHash rangeMap hash hashLen) :
    ∃ x, hash = hash.take hashLen ++ [x] ∧ (hash.take hashLen).length = hashLen := by
  have hlen : (hash.take hashLen).length = hashLen := by
    rw [List.length_take, h.length]
    omega
  have hdrop : (hash.drop hashLen).length = 1 := by
    rw [List.length_drop, h.length]
    omega
  obtain ⟨x, hx⟩ := List.length_eq_one_iff.mp hdrop
  refine ⟨x, ?_, hlen⟩
  rw [← hx, List.take_append_drop]

theorem configBucket_key {c : DiskBucketConfig} {k : ConfigChecked} (h : checkConfig c = .ok k) :
    (configBucket c k).1.key = (c.rangeMap, c.hash.take k.hashLen,
      match k.remote with | none => (0, 0) | some (_, ap) => (ap, c.port)) := by
  obtain ⟨hch, -⟩ := checkConfig_eq_ok h
  obtain ⟨x, hx, hlen⟩ := hch.split
  unfold configBucket
  cases hr : k.remote with
  | none =>
    have hbuf : k.folder ++ [47] ++ c.rangeMap ++ [46] ++ c.hash ++ [46] ++ decimal k.idx
          ++ [46, 107, 99, 116]
        = (k.folder ++ [47]) ++ c.rangeMap ++ [46] ++ c.hash.take k.hashLen
          ++ (x :: 46 :: (decimal k.idx ++ [46, 107, 99, 116])) := by
      conv_lhs => rw [hx]
      simp
    have hs := ofBuf_slices (k.folder ++ [47]) c.rangeMap [46] (c.hash.take k.hashLen)
      (x :: 46 :: (decimal k.idx ++ [46, 107, 99, 116])) 0 0 (k.folder.length + 1)
      (k.folder.length + 1 + c.rangeMap.length + 1) (by simp) (by simp)
    rw [hlen] at hs
    simp only [hbuf, BeeBucket.key, hs.1, hs.2]
    rfl
  | some r =>
    have hbuf : k.folder ++ [47] ++ c.rangeMap ++ [46] ++ r.1 ++ [46] ++ decimal c.port.toNat ++ [46]
          ++ c.hash ++ [46, 107, 99, 116]
        = (k.folder ++ [47]) ++ c.rangeMap ++ (46 :: (r.1 ++ [46] ++ decimal c.port.toNat ++ [46]))
          ++ c.hash.take k.hashLen ++ (x :: [46, 107, 99, 116]) := by
      conv_lhs => rw [hx]
      simp
    have hs := ofBuf_slices (k.folder ++ [47]) c.rangeMap
      (46 :: (r.1 ++ [46] ++ decimal c.port.toNat ++ [46])) (c.hash.take k.hashLen)
      (x :: [46, 107, 99, 116]) r.2 c.port (k.folder.length + 1) ((k.folder ++ [47] ++ c.rangeMap
        ++ (46 :: (r.1 ++ [46] ++ decimal c.port.toNat ++ [46])) ++ c.hash.take k.hashLen
        ++ (x :: [46, 107, 99, 116])).length - 5 - k.hashLen) (by simp)
      (by
        simp only [List.length_append, List.length_cons, List.length_nil, hlen]
        omega)
    rw [hlen] at hs
    simp only [hbuf, BeeBucket.key, hs.1, hs.2]
    rfl

theorem configBucket_named {c : DiskBucketConfig} {k : ConfigChecked} (h : checkConfig c = .ok k) :
    (configBucket c k).1.Named := by
  obtain ⟨hch, hremote⟩ := checkConfig_eq_ok h
  have hkey := configBucket_key h
  simp only [BeeBucket.key, Prod.mk.injEq] at hkey
  obtain ⟨hname, hhash, hrest⟩ := hkey
  have hfits : (configBucket c k).1.ip < 2 ^ 32 ∧ -2 ^ 31 ≤ (configBucket c k).1.port
      ∧ (configBucket c k).1.port < 2 ^ 31 := by
    cases hr : k.remote with
    | none =>
      rw [hr] at hrest
      obtain ⟨hip, hport⟩ := Prod.mk.inj hrest
      rw [hip, hport]
      decide
    | some r =>
      obtain ⟨hap, hp1, hp2⟩ := hremote r hr
      rw [hr] at hrest
      obtain ⟨hip, hport⟩ := Prod.mk.inj hrest
      rw [hip, hport]
      exact ⟨hap, by omega, by omega⟩
  refine ⟨⟨hfits.1, hfits.2.1, hfits.2.2⟩, ?_, ?_⟩
  · rw [hname]
    exact hch.name
  · rw [hhash]
    exact hch.digits

end

/-! ## 不変量 -/

def Bee.cmp (st : Bee) (a b : Nat) : Int := esqBeeBucketCmp (st.bucket a) (st.bucket b)

/-- 開いている bucket は、どれも開く関数が作ったものである。 -/
def Bee.AllNamed (st : Bee) : Prop := ∀ a ∈ st.online, (st.bucket a).Named

structure OnlineInv (st : Bee) : Prop where
  named : ∀ a ∈ st.online, (st.bucket a).Named
  /-- 比較が順序になっている間は、木は比較の順に並ぶ -/
  sorted : OrderedOn st.cmp st.online → st.esqBucketRb.Sorted st.cmp

section

variable {st st' : Bee} {a p : Nat} {b n : BeeBucket}

theorem Bee.malloc_eq_some {oracle : Option Nat} (h : st.malloc oracle = some p) :
    p ∉ st.online := by
  rw [Bee.malloc, Option.filter_eq_some_iff] at h
  simpa using h.2

/-- **見つかった bucket は開いていて、key が等しい。** -/
theorem OnlineInv.rbFind_eq_some (h : OnlineInv st) (hn : n.Fits) (hf : st.rbFind n = some a) :
    a ∈ st.online ∧ n.key = (st.bucket a).key := by
  obtain ⟨hm, hc⟩ := SearchTree.find_eq_some hf
  exact ⟨hm, esqBeeBucketCmp_eq_zero hn (h.named a hm).toFits hc⟩

/-- **比較が順序になっていれば、key の等しい bucket は見つかる。** -/
theorem OnlineInv.rbFind_ne_none (h : OnlineInv st) (ho : OrderedOn st.cmp st.online)
    (ha : a ∈ st.online) (hk : n.key = (st.bucket a).key) : st.rbFind n ≠ none := by
  have hfun : (fun x => esqBeeBucketCmp n (st.bucket x)) = st.cmp a :=
    funext fun x => esqBeeBucketCmp_congr hk rfl
  unfold Bee.rbFind
  rw [hfun]
  exact (h.sorted ho).find_ne_none ho ha

theorem Bee.AllNamed.rbFind_of_mark (h : st.AllNamed) (hn : n.Fits) {c : UInt8}
    (hc : c ∈ n.hashStr) (hmark : hashStringHandleTable c = .endMark) : st.rbFind n = none := by
  cases hf : st.rbFind n with
  | none => rfl
  | some a =>
    obtain ⟨ha, hcmp⟩ := SearchTree.find_eq_some hf
    have hk := esqBeeBucketCmp_eq_zero hn (h a ha).toFits hcmp
    have hhash := (BeeBucket.key_eq_iff.mp hk).2.1
    exact absurd hmark ((h a ha).hash c (hhash ▸ hc))

theorem OnlineInv.rbFind_of_mark (h : OnlineInv st) (hn : n.Fits) {c : UInt8}
    (hc : c ∈ n.hashStr) (hmark : hashStringHandleTable c = .endMark) : st.rbFind n = none :=
  Bee.AllNamed.rbFind_of_mark h.named hn hc hmark

structure SameOnline (st st' : Bee) : Prop where
  tree : st'.esqBucketRb = st.esqBucketRb
  key : ∀ a ∈ st.online, (st'.bucket a).key = (st.bucket a).key

theorem SameOnline.online (h : SameOnline st st') : st'.online = st.online :=
  congrArg SearchTree.toList h.tree

theorem BeeBucket.Named.congr (h : b.Named) (hk : n.key = b.key) : n.Named := by
  obtain ⟨h1, h2, h3, h4⟩ := BeeBucket.key_eq_iff.mp hk
  exact ⟨⟨h3 ▸ h.ip, h4 ▸ h.port_ge, h4 ▸ h.port_lt⟩, h1 ▸ h.name, h2 ▸ h.hash⟩

theorem SameOnline.cmp_eq (h : SameOnline st st') :
    ∀ a ∈ st.online, ∀ b ∈ st.online, st'.cmp a b = st.cmp a b := by
  intro a ha b hb
  exact esqBeeBucketCmp_congr (h.key a ha) (h.key b hb)

theorem OnlineInv.congr (h : OnlineInv st) (hs : SameOnline st st') : OnlineInv st' where
  named a ha := by
    rw [hs.online] at ha
    exact (h.named a ha).congr (hs.key a ha)
  sorted ho := by
    rw [hs.online] at ho
    have hsorted := h.sorted (ho.congr fun a ha b hb => (hs.cmp_eq a ha b hb).symm)
    unfold SearchTree.Sorted at hsorted ⊢
    rw [hs.tree]
    refine hsorted.imp_of_mem ?_
    intro x y hx hy hxy
    rw [hs.cmp_eq x hx y hy]
    exact hxy

theorem BeeBucket.key_setKcdb (b : BeeBucket) (idx : Fin 2) (db : Option Kcdb) :
    (b.setKcdb idx db).key = b.key := rfl

theorem BeeBucket.key_shift (b : BeeBucket) (db : Kcdb) : (b.shift db).key = b.key := by
  unfold shift
  split <;> rfl

theorem SameOnline.setBucket (hk : b.key = (st.bucket p).key) : SameOnline st (st.setBucket p b) where
  tree := rfl
  key a _ := by
    by_cases hap : a = p
    · subst hap
      exact (congrArg BeeBucket.key (Function.update_self ..)).trans hk
    · exact congrArg BeeBucket.key (Function.update_of_ne hap _ _)

structure Inserted (st : Bee) (p : Nat) (b : BeeBucket) (st' : Bee) : Prop where
  maps : st'.maps = st.maps
  self : st'.bucket p = b
  others : ∀ a, a ≠ p → st'.bucket a = st.bucket a
  online : ∀ a, a ∈ st'.online ↔ a = p ∨ a ∈ st.online
  inv : OnlineInv st'

theorem OnlineInv.rbInsert (h : OnlineInv st) (hf : st.rbFind b = none) (hp : p ∉ st.online)
    (hb : b.Named) (rotate : SearchTree Nat → SearchTree Nat) :
    (st.rbInsert rotate p b).1 = none ∧ Inserted st p b (st.rbInsert rotate p b).2 := by
  have hperm := SearchTree.perm_insert (a := p) hf
  unfold Bee.rbInsert
  rw [hf]
  refine ⟨rfl, rfl, Function.update_self .., fun a ha => Function.update_of_ne ha _ _, ?_, ?_, ?_⟩
  · intro a
    simp only [Bee.online, SearchTree.toList_rotate]
    rw [hperm.mem_iff, List.mem_cons]
  · intro a ha
    simp only [Bee.online, SearchTree.toList_rotate] at ha
    rcases List.mem_cons.mp (hperm.mem_iff.mp ha) with rfl | hm
    · simpa [Bee.setBucket] using hb
    · have hap : a ≠ p := fun he => hp (he ▸ hm)
      simpa [Bee.setBucket, hap] using h.named a hm
  · intro ho
    simp only [Bee.online, SearchTree.toList_rotate] at ho
    -- `p` は木に無いので、`p` に書いても木の要素の比較は変わらない
    have hne : ∀ x ∈ st.online, x ≠ p := fun x hx he => hp (he ▸ hx)
    have hcmp : ∀ x ∈ st.online, ∀ y ∈ st.online, (st.setBucket p b).cmp x y = st.cmp x y := by
      intro x hx y hy
      simp [Bee.cmp, Bee.setBucket, hne x hx, hne y hy]
    have hself : ∀ x ∈ st.online, (st.setBucket p b).cmp p x = esqBeeBucketCmp b (st.bucket x) := by
      intro x hx
      simp [Bee.cmp, Bee.setBucket, hne x hx]
    obtain ⟨hfind, hins⟩ := SearchTree.descend_congr p hself
    have ho : OrderedOn (st.setBucket p b).cmp (p :: st.online) :=
      ho.mono fun x hx => hperm.mem_iff.mpr hx
    have hold : OrderedOn st.cmp st.online :=
      (ho.mono fun x hx => List.mem_cons_of_mem p hx).congr fun x hx y hy => (hcmp x hx y hy).symm
    have hsorted : st.esqBucketRb.Sorted (st.setBucket p b).cmp := by
      refine (h.sorted hold).imp_of_mem ?_
      intro x y hx hy hxy
      rw [hcmp x hx y hy]
      exact hxy
    show SearchTree.Sorted (st.setBucket p b).cmp _
    unfold SearchTree.Sorted
    rw [SearchTree.toList_rotate, ← hins]
    exact hsorted.insert ho (hfind.trans hf)

/-! ## 操作の列 -/

theorem Bee.AllNamed.congr (h : st.AllNamed) (hs : SameOnline st st') : st'.AllNamed := by
  intro a ha
  rw [hs.online] at ha
  exact (h a ha).congr (hs.key a ha)

theorem Bee.AllNamed.rbInsert (h : st.AllNamed) (hb : b.Named)
    (rotate : SearchTree Nat → SearchTree Nat) : (st.rbInsert rotate p b).2.AllNamed := by
  unfold Bee.rbInsert
  split
  · exact h
  · next hf =>
    intro a ha
    simp only [Bee.online, SearchTree.toList_rotate] at ha
    show (Function.update st.bucket p b a).Named
    by_cases hap : a = p
    · subst hap
      rw [Function.update_self]
      exact hb
    · rw [Function.update_of_ne hap]
      rcases List.mem_cons.mp ((SearchTree.perm_insert hf).mem_iff.mp ha) with rfl | hm
      · exact absurd rfl hap
      · exact h a hm

theorem beeShiftMemBucket_cases (io : ShiftIo) (st : Bee) (rangeMap hash : List UInt8) :
    (∃ errs, beeShiftMemBucket io st rangeMap hash = (some errs, st)) ∨
      ∃ hashLen a ep s st', CheckedNameHash rangeMap hash hashLen ∧ st.malloc io.malloc = some a ∧
        st.rbInsert io.rotate a (memBucket rangeMap hash hashLen) = (ep, s) ∧
        beeShiftMemBucket io st rangeMap hash = (none, st') ∧
        st'.esqBucketRb = s.esqBucketRb ∧
        st'.bucket = Function.update s.bucket (ep.getD a) ((s.bucket (ep.getD a)).shift .empty) := by
  unfold beeShiftMemBucket
  split
  · exact Or.inl ⟨_, rfl⟩
  · next hashLen hcheck =>
    have hch := checkNameHash_eq_ok hcheck
    split
    · exact Or.inl ⟨_, rfl⟩
    · next a hmalloc =>
      split
      · exact Or.inl ⟨_, rfl⟩
      · split
        · exact Or.inl ⟨_, rfl⟩
        · rcases hr : st.rbInsert io.rotate a (memBucket rangeMap hash hashLen) with ⟨ep, s⟩
          dsimp only
          split
          · exact Or.inr ⟨hashLen, a, ep, s, _, hch, hmalloc, hr, rfl, rfl, rfl⟩
          · exact Or.inr ⟨hashLen, a, ep, s, _, hch, hmalloc, hr, rfl, rfl, rfl⟩

theorem Bee.AllNamed.openDisk (h : st.AllNamed) (hb : b.Named) (io : OpenIo) (idx : Fin 2) :
    (beeOpenDiskBucket io st p b idx).2.AllNamed := by
  unfold beeOpenDiskBucket
  split
  · split
    · exact h
    · split
      · exact h
      · exact h.congr (.setBucket (BeeBucket.key_setKcdb _ _ _))
  · split
    · exact h
    · next kcdb hk =>
      have hnew : (b.setKcdb idx (some kcdb)).Named := hb.congr (BeeBucket.key_setKcdb _ _ _)
      have hins := h.rbInsert (p := p) hnew io.rotate
      exact hins.congr ⟨rfl, fun _ _ => rfl⟩

theorem Bee.AllNamed.allocAndOpen (h : st.AllNamed) (hb : b.Named) (io : OpenIo) (noMemory : String)
    (idx : Fin 2) : (allocAndOpen io st noMemory b idx).2.AllNamed := by
  unfold Esq.allocAndOpen
  split
  · exact h
  · exact h.openDisk hb io idx

theorem Bee.AllNamed.openFile (h : st.AllNamed) (io : OpenIo) (folder : List UInt8) (dName : CStr) :
    (beeOpenBucketFile io st folder dName).2.AllNamed := by
  unfold beeOpenBucketFile
  split
  · unfold beeOpenLocalBucketFile
    split
    · exact h
    · next b idx hb => exact h.allocAndOpen (localBucketFile_named hb) io _ idx
  · unfold beeOpenRemotePatchBucketFile
    split
    · exact h
    · next b idx hb => exact h.allocAndOpen (remotePatchBucketFile_named hb) io _ idx
  · exact h

theorem Bee.AllNamed.openFiles {folder : List UInt8} {ents : List Dirent} (h : st.AllNamed) :
    (beeOpenBucketFiles folder st ents).2.AllNamed := by
  induction ents generalizing st with
  | nil => exact h
  | cons ent ents ih =>
    unfold beeOpenBucketFiles
    split
    · exact ih h
    · have hfile := h.openFile ent.io folder ent.dName
      split
      · next he =>
        rw [he] at hfile
        exact hfile
      · next he =>
        rw [he] at hfile
        exact ih hfile

theorem Bee.AllNamed.addConfig (h : st.AllNamed) (io : OpenIo) (c : DiskBucketConfig) :
    (beeAddDiskBucketByConfig io st c).2.AllNamed := by
  unfold beeAddDiskBucketByConfig
  split
  · exact h
  · next k hk =>
    split
    · exact h
    · split
      · exact h
      · exact h.openDisk (configBucket_named hk) io k.idx

theorem Bee.AllNamed.shiftMem (h : st.AllNamed) (io : ShiftIo) (rangeMap hash : List UInt8) :
    (beeShiftMemBucket io st rangeMap hash).2.AllNamed := by
  rcases beeShiftMemBucket_cases io st rangeMap hash with
    ⟨errs, hfail⟩ | ⟨hashLen, a, ep, s, st', hch, -, hr, hstep, htree, hbucket⟩
  · rw [hfail]
    exact h
  · rw [hstep]
    have hins := h.rbInsert (p := a) (memBucket_named hch) io.rotate
    rw [hr] at hins
    have hkey := BeeBucket.key_shift (s.bucket (ep.getD a)) .empty
    refine hins.congr ⟨htree, fun x _ => ?_⟩
    have hset := (SameOnline.setBucket hkey).key x
    show (st'.bucket x).key = (s.bucket x).key
    rw [hbucket]
    by_cases hx : x = ep.getD a
    · subst hx
      rw [Function.update_self, hkey]
    · rw [Function.update_of_ne hx]

theorem Bee.AllNamed.setOffline (h : st.AllNamed) (rotate : SearchTree Nat → SearchTree Nat) (ip : Nat)
    (port : Int) (rangeMap hash : List UInt8) (idx : Int) :
    (beeBucketSetOffline rotate ip port st rangeMap hash idx).2.AllNamed := by
  unfold beeBucketSetOffline
  split
  · exact h
  · split
    · exact h
    · split
      · exact h
      · next i _ =>
        split
        · exact h
        · next q hq =>
          have hset : (st.setBucket q ((st.bucket q).setKcdb i none)).AllNamed :=
            h.congr (.setBucket (BeeBucket.key_setKcdb _ _ _))
          split
          · exact h
          · dsimp only
            split
            · intro a ha
              simp only [Bee.online, SearchTree.toList_rotate] at ha
              exact hset a ((SearchTree.erase_sublist _ _).subset ha)
            · exact hset

theorem allNamed_step (h : st.AllNamed) (op : BeeOp) : (beeStep st op).2.AllNamed := by
  cases op with
  | rangeMapNew name => exact h
  | addNode host oracle mapName ipStr port flags hashString => exact h
  | delNode mapName ipStr port hashString => exact h
  | delAllNode mapName => exact h
  | flush name => exact h
  | openBucketsFromFolder folder dir =>
    simp only [beeStep, beeOpenBucketsFromFolder]
    split
    · exact h
    · split
      · exact h
      · exact h.openFiles
  | addDiskBucket io folder rangeMap hash idx => exact h.addConfig io _
  | addRemotePatchBucket io folder rangeMap ip port hash => exact h.addConfig io _
  | shiftMemBucket io rangeMap hash => exact h.shiftMem io rangeMap hash
  | bucketSetOffline rotate ip port rangeMap hash idx => exact h.setOffline rotate ip _ rangeMap hash _
  | startBeeServer io port =>
    simp only [beeStep, beeServerStartInstance]
    split
    · exact h
    · split
      · exact h
      · split
        · exact h
        · split
          · exact h
          · exact h
  | serverClose => exact h

/-- **どの順に操作しても、開いている bucket の hash に `x` は無い。** -/
theorem allNamed_run : ∀ (ops : List BeeOp) {st : Bee}, st.AllNamed → (beeRun st ops).AllNamed
  | [], _, h => h
  | op :: ops, _, h => allNamed_run ops (allNamed_step h op)

theorem allNamed_init : Bee.init.AllNamed := fun _ ha => by cases ha

end

end Esq
