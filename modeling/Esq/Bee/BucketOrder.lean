import Esq.Bee.Online
import Esq.Infra.CircleOrder
import Esq.Infra.Run
import Mathlib.Data.List.Pairwise

/-!
# bucket の順序

`esq_bee_bucket_cmp` が順序になる bucket の集まりはどれか。

比較は欄を順に見る（`esqBeeBucketCmp_eq_lexCmp`）。search id と ip の欄だけは差があふれるので、
順序になるのは search id が円周の半分に収まり、search id と長さの等しい bucket の ip も
円周の半分に収まるときに限る（`Spread`）。

* `bucket_order_iff` — 開く関数が作る bucket の集まりで、比較が順序になり、どの順に木に入れても
  木にある bucket が自分の key で見つかることは、`Spread` と同値である
-/

namespace Esq

open Infra

/-! ## 開く関数が作る bucket -/

/-- 四つの開く関数のどれかが作った bucket。 -/
inductive BeeBucket.Constructed : BeeBucket → Prop where
  | localFile (folder dName : List UInt8) (d0 d1 d2 : Nat) (b : BeeBucket) (idx : Fin 2)
      (h : localBucketFile folder dName d0 d1 d2 = some (b, idx)) : Constructed b
  | remotePatchFile (folder dName : List UInt8) (d0 d4 d5 d6 : Nat) (b : BeeBucket) (idx : Fin 2)
      (h : remotePatchBucketFile folder dName d0 d4 d5 d6 = some (b, idx)) : Constructed b
  | config (c : DiskBucketConfig) (k : ConfigChecked) (h : checkConfig c = .ok k) :
      Constructed (configBucket c k).1
  | mem (rangeMap hash : List UInt8) (e1 e2 : String) (hashLen : Nat)
      (h : checkNameHash rangeMap hash e1 e2 = .ok hashLen) :
      Constructed (memBucket rangeMap hash hashLen)

theorem BeeBucket.Constructed.named {b : BeeBucket} (h : b.Constructed) : b.Named := by
  cases h with
  | localFile folder dName d0 d1 d2 b idx h => exact localBucketFile_named h
  | remotePatchFile folder dName d0 d4 d5 d6 b idx h => exact remotePatchBucketFile_named h
  | config c k h => exact configBucket_named h
  | mem rangeMap hash e1 e2 hashLen h => exact memBucket_named (checkNameHash_eq_ok h)

/-! ## 欄ごとの比較 -/

def ipDiff (x y : Nat) : Int := toInt32 (toInt32 x - toInt32 y)

def lengthDiff (x y : Nat) : Int := (x : Int) - y

def idDiff (x y : Int) : Int := toInt32 (x - y)

theorem esqBeeBucketCmp_eq_lexCmp : esqBeeBucketCmp =
    lexCmp beeBucketCalculateSearchId idDiff
      (lexCmp (fun b => b.hashStr.length) lengthDiff
        (lexCmp (fun b => b.rangeMapName.length) lengthDiff
          (lexCmp BeeBucket.ip ipDiff
            (lexCmp BeeBucket.port idDiff
              fun a b => if memcmp a.hashStr b.hashStr ≠ 0 then memcmp a.hashStr b.hashStr
                else memcmp a.rangeMapName b.rangeMapName)))) := rfl

/-! ## 順序になる集まり -/

section

variable {S : List BeeBucket}

def sameLengths (S : List BeeBucket) (c : BeeBucket) : List BeeBucket :=
  S.filter fun a => beeBucketCalculateSearchId a = beeBucketCalculateSearchId c ∧
    a.hashStr.length = c.hashStr.length ∧ a.rangeMapName.length = c.rangeMapName.length

/--
差があふれない集まり。search id が 2 ^ 31 個の連続した値に収まり、search id と長さの等しい
bucket の ip もそうである。どちらも 2 ^ 32 を法として数える。
-/
structure Spread (S : List BeeBucket) : Prop where
  searchId : InArc (S.map beeBucketCalculateSearchId)
  ip : ∀ c ∈ S, InArc ((sameLengths S c).map fun b => (b.ip : Int))

theorem ipDiff_eq (x y : Nat) : ipDiff x y = toInt32 ((x : Int) - y) := by
  unfold ipDiff
  simp only [toInt32_eq]
  omega

theorem ipDiff_eq_zero {x y : Nat} (hx : x < 2 ^ 32) (hy : y < 2 ^ 32) :
    ipDiff x y = 0 ↔ x = y := by
  rw [ipDiff_eq, toInt32_eq]
  omega

theorem idDiff_eq_zero {x y : Int} (hx : -2 ^ 31 ≤ x ∧ x < 2 ^ 31) (hy : -2 ^ 31 ≤ y ∧ y < 2 ^ 31) :
    idDiff x y = 0 ↔ x = y := by
  unfold idDiff
  rw [toInt32_eq]
  omega

theorem searchId_bounds (b : BeeBucket) :
    -2 ^ 31 ≤ beeBucketCalculateSearchId b ∧ beeBucketCalculateSearchId b < 2 ^ 31 :=
  toInt32_bounds _

/-- 欄が `int` に収まり、port が番号の範囲にある。 -/
def BeeBucket.InRange (b : BeeBucket) : Prop := b.ip < 2 ^ 32 ∧ 0 ≤ b.port ∧ b.port ≤ 65535

theorem remotePatchBucketFile_port {folder dName : List UInt8} {d0 d4 d5 d6 : Nat} {b : BeeBucket}
    {idx : Fin 2} (h : remotePatchBucketFile folder dName d0 d4 d5 d6 = some (b, idx)) :
    0 ≤ b.port ∧ b.port ≤ 65535 := by
  simp only [remotePatchBucketFile, Option.ite_none_left_eq_some] at h
  obtain ⟨-, -, -, h⟩ := h
  split at h
  · cases h
  · split at h
    · cases h
    next port _ =>
      rw [Option.ite_none_left_eq_some] at h
      obtain ⟨hvalid, h⟩ := h
      split at h
      · cases h
      · cases h
        simp only [portNumberInvalid, Bool.or_eq_true, decide_eq_true_eq, not_or, not_lt] at hvalid
        exact hvalid

theorem BeeBucket.Constructed.inRange {b : BeeBucket} (h : b.Constructed) : b.InRange := by
  refine ⟨h.named.ip, ?_⟩
  have hzero : (0 : Int) ≤ 0 ∧ (0 : Int) ≤ 65535 := by decide
  cases h with
  | localFile folder dName d0 d1 d2 b idx h =>
    simp only [localBucketFile, Option.ite_none_left_eq_some] at h
    obtain ⟨-, h⟩ := h
    split at h
    · cases h
    · simp only [Option.ite_none_left_eq_some] at h
      obtain ⟨-, -, h⟩ := h
      split at h
      · cases h
      · cases h
        exact hzero
  | remotePatchFile folder dName d0 d4 d5 d6 b idx h => exact remotePatchBucketFile_port h
  | config c k h =>
    unfold configBucket
    split
    · exact hzero
    next ip ap hr => exact ((checkConfig_eq_ok h).2 (ip, ap) hr).2
  | mem rangeMap hash e1 e2 hashLen h => exact hzero

theorem orderedOn_strings (hl : ∀ a ∈ S, ∀ b ∈ S, a.hashStr.length = b.hashStr.length) :
    OrderedOn (fun a b => if memcmp a.hashStr b.hashStr ≠ 0 then memcmp a.hashStr b.hashStr
      else memcmp a.rangeMapName b.rangeMapName) S := by
  have hz : ∀ a ∈ S, ∀ b ∈ S, memcmp a.hashStr b.hashStr = 0 ↔ a.hashStr = b.hashStr :=
    fun a ha b hb => ⟨memcmp_eq_zero (hl a ha b hb), fun h => by rw [h, memcmp_self]⟩
  have hlex : OrderedOn (lexCmp BeeBucket.hashStr memcmp
      fun a b => memcmp a.rangeMapName b.rangeMapName) S :=
    (OrderedOn.lex_iff hz).mpr ⟨orderedOn_memcmp _ S, fun c _ => orderedOn_memcmp _ _⟩
  refine hlex.congr fun a ha b hb => ?_
  unfold lexCmp
  simp only [ne_eq, hz a ha b hb]

theorem orderedOn_port (hp : ∀ b ∈ S, b.InRange)
    (hl : ∀ a ∈ S, ∀ b ∈ S, a.hashStr.length = b.hashStr.length) :
    OrderedOn (lexCmp BeeBucket.port idDiff fun a b =>
      if memcmp a.hashStr b.hashStr ≠ 0 then memcmp a.hashStr b.hashStr
        else memcmp a.rangeMapName b.rangeMapName) S := by
  have hsub : ∀ a ∈ S, ∀ b ∈ S, idDiff a.port b.port = a.port - b.port := fun a ha b hb => by
    have := (hp a ha).2
    have := (hp b hb).2
    exact toInt32_of_range (by omega) (by omega)
  refine (OrderedOn.lex_iff fun a ha b hb => ?_).mpr ⟨?_, fun c _ => ?_⟩
  · rw [hsub a ha b hb]
    omega
  · exact (OrderedOn.sub BeeBucket.port S).congr hsub
  · exact orderedOn_strings fun a ha b hb =>
      hl a (List.mem_of_mem_filter ha) b (List.mem_of_mem_filter hb)

theorem mem_filter_field {β : Type*} [DecidableEq β] {f : BeeBucket → β} {a c : BeeBucket} :
    a ∈ S.filter (fun a => f a = f c) ↔ a ∈ S ∧ f a = f c := by
  rw [List.mem_filter, decide_eq_true_eq]

theorem mem_sameLengths {a c : BeeBucket} : a ∈ sameLengths S c ↔ a ∈ S ∧
    beeBucketCalculateSearchId a = beeBucketCalculateSearchId c ∧
      a.hashStr.length = c.hashStr.length ∧ a.rangeMapName.length = c.rangeMapName.length := by
  unfold sameLengths
  rw [List.mem_filter, decide_eq_true_eq]

theorem orderedOn_cmp_iff (hS : ∀ b ∈ S, b.InRange) : OrderedOn esqBeeBucketCmp S ↔
    OrderedOn (fun a b => idDiff (beeBucketCalculateSearchId a) (beeBucketCalculateSearchId b)) S ∧
      ∀ c ∈ S, OrderedOn (fun a b => ipDiff a.ip b.ip) (sameLengths S c) := by
  have hid : ∀ a ∈ S, ∀ b ∈ S,
      idDiff (beeBucketCalculateSearchId a) (beeBucketCalculateSearchId b) = 0
        ↔ beeBucketCalculateSearchId a = beeBucketCalculateSearchId b := fun a _ b _ =>
    idDiff_eq_zero (searchId_bounds a) (searchId_bounds b)
  have hlen : ∀ {T : List BeeBucket} {f : BeeBucket → Nat}, ∀ a ∈ T, ∀ b ∈ T,
      lengthDiff (f a) (f b) = 0 ↔ f a = f b := fun a _ b _ => by
    unfold lengthDiff
    omega
  have hip : ∀ {T : List BeeBucket}, (∀ b ∈ T, b.InRange) → ∀ a ∈ T, ∀ b ∈ T,
      ipDiff a.ip b.ip = 0 ↔ a.ip = b.ip := fun hT a ha b hb =>
    ipDiff_eq_zero (hT a ha).1 (hT b hb).1
  rw [esqBeeBucketCmp_eq_lexCmp, OrderedOn.lex_iff hid]
  refine and_congr_right fun _ => ⟨fun h c hc => ?_, fun h c hc => ?_⟩
  · have h1 := ((OrderedOn.lex_iff hlen).mp (h c hc)).2 c (mem_filter_field.mpr ⟨hc, rfl⟩)
    have h2 := ((OrderedOn.lex_iff hlen).mp h1).2 c
      (mem_filter_field.mpr ⟨mem_filter_field.mpr ⟨hc, rfl⟩, rfl⟩)
    have h3 := ((OrderedOn.lex_iff (hip fun b hb => hS b (List.mem_of_mem_filter
      (List.mem_of_mem_filter (List.mem_of_mem_filter hb))))).mp h2).1
    refine h3.mono fun a ha => ?_
    obtain ⟨ha, ha1, ha2, ha3⟩ := mem_sameLengths.mp ha
    exact mem_filter_field.mpr ⟨mem_filter_field.mpr ⟨mem_filter_field.mpr ⟨ha, ha1⟩, ha2⟩, ha3⟩
  · refine (OrderedOn.lex_iff hlen).mpr ⟨OrderedOn.sub (fun b : BeeBucket => (b.hashStr.length : Int)) _,
      fun c1 hc1 => (OrderedOn.lex_iff hlen).mpr
        ⟨OrderedOn.sub (fun b : BeeBucket => (b.rangeMapName.length : Int)) _, fun c2 hc2 => ?_⟩⟩
    -- ここに残るのは、`c2` と search id も長さも等しい bucket である
    obtain ⟨hc1, hid1⟩ := mem_filter_field.mp hc1
    obtain ⟨hc2, hlen2⟩ := mem_filter_field.mp hc2
    obtain ⟨hc2, hid2⟩ := mem_filter_field.mp hc2
    have hsub : ∀ a ∈ ((S.filter fun a => beeBucketCalculateSearchId a
        = beeBucketCalculateSearchId c).filter fun a => a.hashStr.length = c1.hashStr.length).filter
        fun a => a.rangeMapName.length = c2.rangeMapName.length, a ∈ sameLengths S c2 := by
      intro a ha
      obtain ⟨ha, ha3⟩ := mem_filter_field.mp ha
      obtain ⟨ha, ha2⟩ := mem_filter_field.mp ha
      obtain ⟨ha, ha1⟩ := mem_filter_field.mp ha
      exact mem_sameLengths.mpr ⟨ha, ha1.trans hid2.symm, ha2.trans hlen2.symm, ha3⟩
    refine (OrderedOn.lex_iff (hip fun b hb => hS b (mem_sameLengths.mp (hsub b hb)).1)).mpr
      ⟨(h c2 hc2).mono hsub, fun c3 _ => orderedOn_port (fun b hb => ?_) fun a ha b hb => ?_⟩
    · exact hS b (mem_sameLengths.mp (hsub b (List.mem_of_mem_filter hb))).1
    · have ha' := mem_sameLengths.mp (hsub a (List.mem_of_mem_filter ha))
      have hb' := mem_sameLengths.mp (hsub b (List.mem_of_mem_filter hb))
      exact ha'.2.2.1.trans hb'.2.2.1.symm

/-- **比較が順序になるのは、`Spread` のときである。** -/
theorem orderedOn_cmp_iff_spread (hS : ∀ b ∈ S, b.InRange) :
    OrderedOn esqBeeBucketCmp S ↔ Spread S := by
  rw [orderedOn_cmp_iff hS]
  have harc : ∀ {T : List BeeBucket} {f : BeeBucket → Int},
      OrderedOn (fun a b => toInt32 (f a - f b)) T ↔ InArc (T.map f) := fun {T f} => by
    rw [← orderedOn_circle_iff]
    exact (OrderedOn.map_iff (d := fun x y => toInt32 (x - y))).symm
  have hip : ∀ T : List BeeBucket, OrderedOn (fun a b => ipDiff a.ip b.ip) T
      ↔ InArc (T.map fun b => (b.ip : Int)) := fun T => by
    simp only [ipDiff_eq]
    exact harc
  constructor
  · rintro ⟨h, h'⟩
    exact ⟨harc.mp h, fun c hc => (hip _).mp (h' c hc)⟩
  · intro h
    exact ⟨harc.mpr h.searchId, fun c hc => (hip _).mpr (h.ip c hc)⟩

end

/-! ## 木の操作 -/

/-- `esq_bucket_rb` を変える操作。bucket を入れるときの番地は `malloc` が返したものである。 -/
inductive TreeOp where
  | insert (p : Nat) (b : BeeBucket) (rotate : SearchTree Nat → SearchTree Nat)
  | remove (p : Nat) (rotate : SearchTree Nat → SearchTree Nat)

def TreeOp.Within (S : List BeeBucket) : TreeOp → Prop
  | .insert _ b _ => b ∈ S
  | .remove _ _ => True

def treeStep (st : Bee) : TreeOp → Option Bee
  | .insert p b rotate => if p ∈ st.online then none else some (st.rbInsert rotate p b).2
  | .remove p rotate =>
    if p ∈ st.online then some { st with esqBucketRb := (st.esqBucketRb.erase p).rotate rotate }
    else none

/-- 木にある bucket は、どれも自分の key で見つかる。 -/
def Bee.FindsAll (st : Bee) : Prop := ∀ p ∈ st.online,
  esqBeeFindBucket st (st.bucket p).rangeMapName (st.bucket p).hashStr (st.bucket p).ip
    (st.bucket p).port = some p

structure TreeInv (S : List BeeBucket) (st : Bee) : Prop extends OnlineInv st where
  within : ∀ p ∈ st.online, st.bucket p ∈ S

section

variable {S : List BeeBucket} {st st' : Bee}

theorem treeInv_init : TreeInv S Bee.init where
  named _ ha := by cases ha
  sorted _ := List.Pairwise.nil
  within _ ha := by cases ha

theorem TreeInv.ordered (h : TreeInv S st) (ho : OrderedOn esqBeeBucketCmp S) :
    OrderedOn st.cmp st.online := by
  have hmap : OrderedOn esqBeeBucketCmp (st.online.map st.bucket) := ho.mono fun b hb => by
    obtain ⟨p, hp, rfl⟩ := List.mem_map.mp hb
    exact h.within p hp
  exact (OrderedOn.map_iff (f := st.bucket) (d := esqBeeBucketCmp)).mp hmap

/-- **比較が順序になる間、木の操作は木の並びを保つ。** -/
theorem treeInv_step (hS : ∀ b ∈ S, b.Named) (ho : OrderedOn esqBeeBucketCmp S) (op : TreeOp)
    (h : TreeInv S st) (hop : op.Within S) (hs : treeStep st op = some st') : TreeInv S st' := by
  unfold treeStep at hs
  cases op with
  | insert p b rotate =>
    dsimp only at hs
    split at hs
    · cases hs
    next hp =>
      cases hs
      cases hf : st.rbFind b with
      | some q =>
        unfold Bee.rbInsert
        rw [hf]
        exact h
      | none =>
        obtain ⟨-, hins⟩ := h.toOnlineInv.rbInsert hf hp (hS b hop) rotate
        refine ⟨hins.inv, fun a ha => ?_⟩
        by_cases hap : a = p
        · rw [hap, hins.self]
          exact hop
        · rw [hins.others a hap]
          exact h.within a (((hins.online a).mp ha).resolve_left hap)
  | remove p rotate =>
    dsimp only at hs
    split at hs
    next hp =>
      cases hs
      have hsub : ((st.esqBucketRb.erase p).rotate rotate).toList.Sublist st.online := by
        rw [SearchTree.toList_rotate]
        exact SearchTree.erase_sublist p _
      exact ⟨⟨fun a ha => h.named a (hsub.subset ha),
        fun _ => (h.sorted (h.ordered ho)).sublist hsub⟩, fun a ha => h.within a (hsub.subset ha)⟩
    · cases hs

theorem TreeInv.findsAll (h : TreeInv S st) (ho : OrderedOn esqBeeBucketCmp S) : st.FindsAll := by
  intro p hp
  have hord := h.ordered ho
  unfold esqBeeFindBucket
  generalize hf : st.rbFind _ = r
  cases r with
  | none => exact absurd hf (h.toOnlineInv.rbFind_ne_none hord hp rfl)
  | some q =>
    obtain ⟨hq, hk⟩ := h.toOnlineInv.rbFind_eq_some (h.named p hp).toFits hf
    -- 並んだ木の中に、key の等しい bucket は二つ無い
    have hpw : st.online.Pairwise fun x y => (st.bucket x).key ≠ (st.bucket y).key :=
      (h.sorted hord).imp fun hlt he =>
        absurd hlt (by rw [show st.cmp _ _ = 0 from esqBeeBucketCmp_of_key_eq he]; exact lt_irrefl 0)
    have : Std.Symm fun x y => (st.bucket x).key ≠ (st.bucket y).key := ⟨fun _ _ => Ne.symm⟩
    by_contra hne
    exact hpw.forall hp hq (fun he => hne (congrArg some he.symm)) hk

end

/-! ## 比較の性質 -/

/-- 集まり `S` の上での、比較と木の性質。 -/
structure BucketOrder (S : List BeeBucket) : Prop where
  antisymm : ∀ a ∈ S, ∀ b ∈ S, esqBeeBucketCmp a b < 0 ↔ 0 < esqBeeBucketCmp b a
  trans : ∀ a ∈ S, ∀ b ∈ S, ∀ c ∈ S, esqBeeBucketCmp a b < 0 → esqBeeBucketCmp b c < 0 →
    esqBeeBucketCmp a c < 0
  zero : ∀ a ∈ S, ∀ b ∈ S, esqBeeBucketCmp a b = 0 ↔ a.key = b.key
  /-- どの順に入れ、外し、回転しても、木にある bucket は自分の key で見つかる -/
  found : ∀ ops st, (∀ op ∈ ops, TreeOp.Within S op) → runFrom treeStep Bee.init ops = some st →
    st.FindsAll

theorem treeInv_run {S : List BeeBucket} (hS : ∀ b ∈ S, b.Named)
    (ho : OrderedOn esqBeeBucketCmp S) {ops : List TreeOp} {st st' : Bee}
    (h : TreeInv S st) (hops : ∀ op ∈ ops, op.Within S) (hrun : runFrom treeStep st ops = some st') :
    TreeInv S st' := by
  induction ops generalizing st with
  | nil =>
    cases hrun
    exact h
  | cons op ops ih =>
    obtain ⟨u, hu, hrun⟩ := runFrom_cons_eq_some.mp hrun
    exact ih (treeInv_step hS ho op h (hops op List.mem_cons_self) hu)
      (fun op hop => hops op (List.mem_cons_of_mem _ hop)) hrun

/--
**開く関数が作る bucket の集まりで、比較が全順序になり、木に入れた bucket が必ず見つかることは、
search id と、search id と長さの等しい bucket の ip とが、どれも円周の半分に収まることと
同値である。**
-/
theorem bucket_order_iff (S : List BeeBucket) (hS : ∀ b ∈ S, b.Constructed) :
    BucketOrder S ↔ Spread S := by
  rw [← orderedOn_cmp_iff_spread fun b hb => (hS b hb).inRange]
  have hzero : ∀ a ∈ S, ∀ b ∈ S, esqBeeBucketCmp a b = 0 ↔ a.key = b.key := fun a ha b hb =>
    ⟨esqBeeBucketCmp_eq_zero (hS a ha).named.toFits (hS b hb).named.toFits,
      esqBeeBucketCmp_of_key_eq⟩
  constructor
  · intro h
    refine ⟨fun a ha hlt => ?_, fun a ha b hb => (h.antisymm b hb a ha).mpr, h.trans⟩
    have := (h.antisymm a ha a ha).mp hlt
    omega
  · intro ho
    refine ⟨fun a ha b hb => ⟨fun hlt => ?_, ho.symm b hb a ha⟩, ho.trans, hzero,
      fun ops st hops hrun => ?_⟩
    · have hge := ho.asymm ha hb hlt
      have hne : esqBeeBucketCmp b a ≠ 0 := fun he => by
        have := (hzero a ha b hb).mpr ((hzero b hb a ha).mp he).symm
        omega
      omega
    · exact (treeInv_run (fun b hb => (hS b hb).named) ho treeInv_init hops hrun).findsAll ho

/-! ## 例 -/

def sampleRemote (ip : List UInt8) : DiskBucketConfig where
  folder := ⟨[46], by decide⟩
  rangeMap := [97]
  ip := some ip
  port := 80
  hash := [120]
  idx := 1

def sampleRemoteBucket (ip : List UInt8) (ap : Nat) : BeeBucket :=
  (configBucket (sampleRemote ip) ⟨[46], some (ip, ap), 1, 0⟩).1

def sampleRemoteBuckets : List BeeBucket :=
  [sampleRemoteBucket [49, 48, 46, 48, 46, 48, 46, 49] 0x0a000001,
    sampleRemoteBucket [56, 48, 46, 48, 46, 48, 46, 49] 0x50000001,
    sampleRemoteBucket [49, 57, 50, 46, 49, 54, 56, 46, 48, 46, 49] 0xc0a80001]

theorem sampleRemoteBuckets_constructed : ∀ b ∈ sampleRemoteBuckets, b.Constructed := by
  have h1 : checkConfig (sampleRemote [49, 48, 46, 48, 46, 48, 46, 49]) = .ok
      ⟨[46], some ([49, 48, 46, 48, 46, 48, 46, 49], 0x0a000001), 1, 0⟩ := rfl
  have h2 : checkConfig (sampleRemote [56, 48, 46, 48, 46, 48, 46, 49]) = .ok
      ⟨[46], some ([56, 48, 46, 48, 46, 48, 46, 49], 0x50000001), 1, 0⟩ := rfl
  have h3 : checkConfig (sampleRemote [49, 57, 50, 46, 49, 54, 56, 46, 48, 46, 49]) = .ok
      ⟨[46], some ([49, 57, 50, 46, 49, 54, 56, 46, 48, 46, 49], 0xc0a80001), 1, 0⟩ := rfl
  intro b hb
  simp only [sampleRemoteBuckets, List.mem_cons, List.not_mem_nil, or_false] at hb
  rcases hb with rfl | rfl | rfl
  · exact .config _ _ h1
  · exact .config _ _ h2
  · exact .config _ _ h3

/-- 始めの二つだけなら、ip は円周の半分に収まる。 -/
theorem bucket_order_sample : BucketOrder (sampleRemoteBuckets.take 2) := by
  refine (bucket_order_iff _ fun b hb => sampleRemoteBuckets_constructed b (List.mem_of_mem_take hb)).mpr
    ⟨⟨0, by decide +kernel⟩, fun c hc => ⟨0, ?_⟩⟩
  intro x hx
  obtain ⟨b, hb, rfl⟩ := List.mem_map.mp hx
  have hall : ∀ b ∈ sampleRemoteBuckets.take 2, ((b.ip : Int) - 0) % 2 ^ 32 < 2 ^ 31 := by decide +kernel
  exact hall b (mem_sameLengths.mp hb).1

/--
`80.0.0.1` は `192.168.0.1` より前、`192.168.0.1` は `10.0.0.1` より前だが、
`10.0.0.1` は `80.0.0.1` より前である。
-/
theorem bucket_cmp_cycle : (∀ b ∈ sampleRemoteBuckets, b.Constructed) ∧ ¬ BucketOrder sampleRemoteBuckets := by
  refine ⟨sampleRemoteBuckets_constructed, fun h => ?_⟩
  have hmem : ∀ i : Fin 3, sampleRemoteBuckets.get i ∈ sampleRemoteBuckets := fun i =>
    List.get_mem sampleRemoteBuckets i
  have hlt := h.trans _ (hmem 1) _ (hmem 2) _ (hmem 0) (by decide +kernel) (by decide +kernel)
  exact absurd hlt (by decide +kernel)

end Esq
