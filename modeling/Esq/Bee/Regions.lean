import Esq.Bee.Sync

/-!
# header の長さと buffer の中の領域

`bee_session_receive_request` は header の五つの `int` から `payload_size` を計算して `recv_buf` を
`malloc` し、`bee_db_set`・`bee_db_get`・`bee_db_del`・`bee_monkey` は、同じ header の長さで
`recv_buf` の中の領域を指す。`bee_db_start_merge_sprint0` は `malloc_size` と自分の buffer で同じことをする。

検査されるのは長さの符号と、名前と hash の長さの上限だけである。和は `int` で計算されるので、`2^31` 以上の
和は桁あふれし、buffer は領域より小さくなる。pointer の計算は桁あふれしない。
-/

namespace Esq

open Infra

/-! ## 領域 -/

structure Region where
  start : Int
  len : Int
deriving DecidableEq, Repr

namespace Region

variable (r : Region)

def InBuf (size : Int) : Prop := 0 ≤ r.start ∧ 0 ≤ r.len ∧ r.start + r.len ≤ size

instance (size : Int) : Decidable (r.InBuf size) := inferInstanceAs (Decidable (_ ∧ _))

def read (buf : List UInt8) : List UInt8 := (buf.drop r.start.toNat).take r.len.toNat

end Region

/-- buffer の大きさ `size` は、領域の長さの和 `sum` に等しく、どの領域も収まる。 -/
structure SizeFits (size sum : Int) (regions : List Region) : Prop where
  exact : size = sum
  pos : 0 < size
  inside : ∀ r ∈ regions, r.InBuf size

/-! ## 要求の領域 -/

namespace HeaderFromPonyToBee

variable (h : HeaderFromPonyToBee)

def payloadSum : Int := h.rangeMapNameLen + 1 + h.keyLen + timevalSize + h.dataLen

def nameRegion : Region := ⟨0, h.rangeMapNameLen + 1⟩

/-- `session.key` と `session.key_len`。`bee_monkey` では `script` である。 -/
def keyRegion : Region := ⟨h.rangeMapNameLen + 1, h.keyLen⟩

def timevalRegion : Region := ⟨h.rangeMapNameLen + 1 + h.keyLen, timevalSize⟩

/-- `bee_db_set` の `session.value`。`session.value_len` は `int` である。 -/
def valueRegion : Region :=
  ⟨h.rangeMapNameLen + 1 + h.keyLen, toInt32 (timevalSize + h.dataLen)⟩

def dataRegion : Region := ⟨h.rangeMapNameLen + 1 + h.keyLen + timevalSize, h.dataLen⟩

/-- 要求を処理する関数が `recv_buf` の中に指す領域。 -/
def requestRegions : List Region :=
  [h.nameRegion, h.keyRegion, h.timevalRegion, h.valueRegion, h.dataRegion]

/-- `bee_db_start_merge_sprint0` が `buffer` の中に指す領域。 -/
def mergeRegions : List Region :=
  [⟨0, h.rangeMapNameLen⟩, ⟨h.rangeMapNameLen, h.resultBufSize⟩,
    ⟨h.rangeMapNameLen + h.resultBufSize, h.keyLen⟩,
    ⟨h.rangeMapNameLen + h.resultBufSize + h.keyLen, h.dataLen⟩]

def mallocSize : Int := toInt32 h.frameSize

variable {h}

theorem accepted_iff :
    h.accepted = true ↔ 0 < h.rangeMapNameLen ∧ 0 < h.keyLen ∧ 0 ≤ h.dataLen
      ∧ h.rangeMapNameLen < rangeMapNameMax := by
  simp [accepted, and_assoc]

theorem nonneg_of_mergeable (hm : h.mergeable = true) :
    0 ≤ h.rangeMapNameLen ∧ 0 < h.keyLen ∧ (timevalSize : Int) ≤ h.dataLen
      ∧ 0 ≤ h.resultBufSize := by
  simp [mergeable] at hm
  tauto

/-! ## 領域と読むもの -/

end HeaderFromPonyToBee

section

variable {ctx : BeeServiceCtx} {h : HeaderFromPonyToBee}

theorem key_eq_read (ha : ctx.header.accepted = true) :
    ctx.key = ctx.header.keyRegion.read ctx.recvBuf := by
  have hn := (HeaderFromPonyToBee.accepted_iff.mp ha).1
  unfold BeeServiceCtx.key Region.read HeaderFromPonyToBee.keyRegion
  rw [Int.toNat_add hn.le (by decide)]
  rfl

theorem drop_tail (ha : ctx.header.accepted = true) :
    ctx.tail
      = ctx.recvBuf.drop (ctx.header.rangeMapNameLen + 1 + ctx.header.keyLen).toNat := by
  obtain ⟨hn, hk, -⟩ := HeaderFromPonyToBee.accepted_iff.mp ha
  unfold BeeServiceCtx.tail
  congr 1
  omega

theorem timeval_eq_read (ha : ctx.header.accepted = true) :
    ctx.timeval = ctx.header.timevalRegion.read ctx.recvBuf := by
  unfold BeeServiceCtx.timeval
  rw [drop_tail ha]
  rfl

theorem setRecord_eq_read (ha : ctx.header.accepted = true)
    (hs : ctx.header.payloadSum < 2 ^ 31) :
    ctx.setRecord = ctx.header.valueRegion.read ctx.recvBuf := by
  obtain ⟨hn, hk, hd, -⟩ := HeaderFromPonyToBee.accepted_iff.mp ha
  unfold HeaderFromPonyToBee.payloadSum at hs
  unfold BeeServiceCtx.setRecord Region.read HeaderFromPonyToBee.valueRegion
  rw [drop_tail ha, toInt32_of_range (by omega) (by omega), Int.toNat_add (by decide) hd]
  rfl

theorem data_eq_read (ha : ctx.header.accepted = true) :
    ctx.data = ctx.header.dataRegion.read ctx.recvBuf := by
  obtain ⟨hn, hk, -⟩ := HeaderFromPonyToBee.accepted_iff.mp ha
  unfold BeeServiceCtx.data Region.read HeaderFromPonyToBee.dataRegion
  rw [drop_tail ha, List.drop_drop, ← Int.toNat_add_nat (by omega)]

end

/-! ## 大きさと領域 -/

variable {h : HeaderFromPonyToBee}

theorem lt_of_toInt32_eq {n : Int} (h : toInt32 n = n) : n < 2 ^ 31 := by
  have := toInt32_bounds n
  omega

theorem requestFits_iff (ha : h.accepted = true) :
    SizeFits h.payloadSize h.payloadSum h.requestRegions ↔ h.payloadSum < 2 ^ 31 := by
  obtain ⟨hn, hk, hd, -⟩ := HeaderFromPonyToBee.accepted_iff.mp ha
  constructor
  · intro hf
    exact lt_of_toInt32_eq hf.exact
  · intro hs
    have hdef : h.payloadSum = h.rangeMapNameLen + 1 + h.keyLen + 16 + h.dataLen := rfl
    have hsize : h.payloadSize = h.payloadSum := toInt32_of_range (by omega) hs
    have hvalue : toInt32 ((16 : Nat) + h.dataLen) = 16 + h.dataLen :=
      toInt32_of_range (by omega) (by omega)
    refine ⟨hsize, by omega, ?_⟩
    rw [hsize, hdef]
    simp only [HeaderFromPonyToBee.requestRegions, HeaderFromPonyToBee.nameRegion,
      HeaderFromPonyToBee.keyRegion, HeaderFromPonyToBee.timevalRegion,
      HeaderFromPonyToBee.valueRegion, HeaderFromPonyToBee.dataRegion, timevalSize, hvalue,
      List.forall_mem_cons, List.not_mem_nil, false_implies, implies_true, and_true,
      Region.InBuf]
    omega

theorem mergeFits_iff (hm : h.mergeable = true) :
    SizeFits h.mallocSize h.frameSize h.mergeRegions ↔ h.frameSize < 2 ^ 31 := by
  obtain ⟨hn, hk, hd, hh⟩ := HeaderFromPonyToBee.nonneg_of_mergeable hm
  have hdef : h.frameSize = h.rangeMapNameLen + h.keyLen + h.dataLen + h.resultBufSize := rfl
  constructor
  · intro hf
    exact lt_of_toInt32_eq hf.exact
  · intro hs
    have hsize : h.mallocSize = h.frameSize := toInt32_of_range (by omega) hs
    refine ⟨hsize, by omega, ?_⟩
    rw [hsize, hdef]
    simp only [HeaderFromPonyToBee.mergeRegions, List.forall_mem_cons, List.not_mem_nil,
      false_implies, implies_true, and_true, Region.InBuf]
    omega

/--
**header の検査を通った要求で、`payload_size` が領域の長さの和に等しく正で、どの領域も `recv_buf` に収まる
のは、和が `2^31` より小さいときに限る。** `bee_db_start_merge_sprint0` の `malloc_size` と領域も同じである。
`header` は socket から読んだ任意の byte の列である。
-/
theorem header_regions_fit_iff (buf : List UInt8) :
    ((HeaderFromPonyToBee.ofBytes buf).accepted = true →
      (SizeFits (HeaderFromPonyToBee.ofBytes buf).payloadSize
          (HeaderFromPonyToBee.ofBytes buf).payloadSum
          (HeaderFromPonyToBee.ofBytes buf).requestRegions ↔
        (HeaderFromPonyToBee.ofBytes buf).payloadSum < 2 ^ 31)) ∧
    ((HeaderFromPonyToBee.ofBytes buf).mergeable = true →
      (SizeFits (HeaderFromPonyToBee.ofBytes buf).mallocSize
          (HeaderFromPonyToBee.ofBytes buf).frameSize
          (HeaderFromPonyToBee.ofBytes buf).mergeRegions ↔
        (HeaderFromPonyToBee.ofBytes buf).frameSize < 2 ^ 31)) :=
  ⟨requestFits_iff, mergeFits_iff⟩

/-- `"a"` の map への 1 byte の key と 2 byte の値の SET と、同じ key の同期の frame。 -/
theorem header_regions_fit_small :
    SizeFits 21 21 (HeaderFromPonyToBee.ofBytes (structBytes [1, 1, 1, 2, 0])).requestRegions ∧
      SizeFits 22 22 (HeaderFromPonyToBee.ofBytes (structBytes [10, 1, 1, 18, 2])).mergeRegions :=
  ⟨((header_regions_fit_iff (structBytes [1, 1, 1, 2, 0])).1 (by decide)).mpr (by decide),
    ((header_regions_fit_iff (structBytes [10, 1, 1, 18, 2])).2 (by decide)).mpr (by decide)⟩

/--
`key_len` と `data_len` がどちらも `0x7fffffff` の要求は検査を通り、`recv_buf` は 16 byte しか無い。hash の長さが
34 の同期の frame では `malloc_size` は 32 である。
-/
theorem huge_lengths_wrap_payload_size :
    ((HeaderFromPonyToBee.ofBytes (structBytes [1, 1, 0x7fffffff, 0x7fffffff, 0])).accepted = true ∧
      (HeaderFromPonyToBee.ofBytes (structBytes [1, 1, 0x7fffffff, 0x7fffffff, 0])).payloadSize
        = 16 ∧
      ¬ SizeFits
        (HeaderFromPonyToBee.ofBytes (structBytes [1, 1, 0x7fffffff, 0x7fffffff, 0])).payloadSize
        (HeaderFromPonyToBee.ofBytes (structBytes [1, 1, 0x7fffffff, 0x7fffffff, 0])).payloadSum
        (HeaderFromPonyToBee.ofBytes
          (structBytes [1, 1, 0x7fffffff, 0x7fffffff, 0])).requestRegions) ∧
    (HeaderFromPonyToBee.ofBytes (structBytes [10, 0, 0x7fffffff, 0x7fffffff, 34])).mergeable
        = true ∧
      (HeaderFromPonyToBee.ofBytes (structBytes [10, 0, 0x7fffffff, 0x7fffffff, 34])).mallocSize
        = 32 := by
  refine ⟨⟨by decide, by decide, fun hf => ?_⟩, by decide, by decide⟩
  have hkey := hf.inside _ (List.mem_cons_of_mem _ List.mem_cons_self)
  exact absurd hkey (by decide)

end Esq
