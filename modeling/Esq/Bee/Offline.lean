import Esq.Bee.Link

/-!
# bucket を外す

`bee_bucket_set_offline` は、引数の hash を末尾の `x` ごと key に入れる。開いている bucket の
`hash_str` は `x` を含まない（`allNamed_run`）から、この key ではどの bucket も見つからない。
`bee_bucket_start_sync_session` は同じ引数から末尾の `x` を除いて探している。
-/

namespace Esq

open Infra

/-! ## あるべき結果 -/

/-- `p` は、引数 `(rangeMap, hash, idx)` で開いた local の bucket である。 -/
structure BroughtOnline (st : Bee) (rangeMap hash : List UInt8) (idx : Fin 2) (p : Nat) : Prop where
  online : p ∈ st.online
  name : (st.bucket p).rangeMapName = rangeMap
  hash : ∃ x, hash = (st.bucket p).hashStr ++ [x] ∧ hashStringHandleTable x = .endMark
  isLocal : (st.bucket p).ip = 0 ∧ (st.bucket p).port = 0
  kcdb : ((st.bucket p).kcdb idx).isSome

/-- `p` の `idx` の database だけが外れた。もう一つも無ければ `p` は消え、それを指す node は NULL を指す。 -/
structure DetachedExactly (st : Bee) (p : Nat) (idx : Fin 2) (r : Option String × Bee) : Prop where
  succeeds : r.1 = none
  online : ∀ a, a ∈ r.2.online ↔ a ∈ st.online ∧
    (a = p → ∃ i, i ≠ idx ∧ ((st.bucket p).kcdb i).isSome)
  self : p ∈ r.2.online → r.2.bucket p = (st.bucket p).setKcdb idx none
  others : ∀ a ∈ st.online, a ≠ p → r.2.bucket a = st.bucket a
  links : ∀ n, (r.2.maps.node n).bucket =
    if (st.maps.node n).bucket = some p ∧ p ∉ r.2.online then none else (st.maps.node n).bucket

/-! ## 見つからない key -/

section

variable {st : Bee} {rangeMap hash : List UInt8}

/-- **検査を通った引数の hash には `x` があるから、外す bucket は見つからない。** -/
theorem Bee.AllNamed.setOffline_fails (h : st.AllNamed) (rotate : SearchTree Nat → SearchTree Nat)
    (ip : BitVec 32) (port : Int32) (idx : Int) :
    (beeBucketSetOffline rotate ip.toNat port.toInt st rangeMap hash idx).1 ≠ none ∧
      (beeBucketSetOffline rotate ip.toNat port.toInt st rangeMap hash idx).2 = st := by
  unfold beeBucketSetOffline
  split
  · exact ⟨nofun, rfl⟩
  · split
    · exact ⟨nofun, rfl⟩
    · next hget =>
      split
      · exact ⟨nofun, rfl⟩
      · have hfind : esqBeeFindBucket st rangeMap hash ip.toNat port.toInt = none := by
          cases hr : getHashString hash with
          | none => simp [hr] at hget
          | some r =>
            obtain ⟨value, start, len⟩ := r
            obtain ⟨⟨x⟩, -⟩ := getHashString_split hr
            exact h.rbFind_of_mark ⟨ip.isLt, port.le_toInt, port.toInt_lt⟩ x.mark_mem x.mark_eq
        unfold esqBeeFindBucket at hfind
        rw [hfind]
        exact ⟨nofun, rfl⟩

end

/-- **どの順に開いた bucket も、`bee_bucket_set_offline` では外せない。状態も変わらない。** -/
theorem bucket_set_offline_never (ops : List BeeOp) (rotate : SearchTree Nat → SearchTree Nat)
    (ip : BitVec 32) (port : Int32) (rangeMap hash : List UInt8) (idx : Int32) (p : Nat)
    (i : Fin 2) :
    let st := beeRun Bee.init ops
    let r := beeBucketSetOffline rotate ip.toNat port.toInt st rangeMap hash idx.toInt
    ¬ DetachedExactly st p i r ∧ r.1 ≠ none ∧ r.2 = st := by
  intro st r
  have hfails : r.1 ≠ none ∧ r.2 = st :=
    (allNamed_run ops allNamed_init).setOffline_fails rotate ip port idx.toInt
  exact ⟨fun hd => hfails.1 hd.succeeds, hfails⟩

def sampleOnlineOps : List BeeOp :=
  [.rangeMapNew (.ofBytes [97]), .shiftMemBucket .sample [97] [120]]

/-- **memory bucket を開いたときと同じ引数で外そうとしても、その bucket は見つからない。** -/
theorem bucket_set_offline_misses :
    BroughtOnline (beeRun Bee.init sampleOnlineOps) [97] [120] 0 1 ∧
      (beeBucketSetOffline id 0 0 (beeRun Bee.init sampleOnlineOps) [97] [120] 0).1
        = some "no such range map item" ∧
      ¬ DetachedExactly (beeRun Bee.init sampleOnlineOps) 1 0
        (beeBucketSetOffline id 0 0 (beeRun Bee.init sampleOnlineOps) [97] [120] 0) := by
  have hmiss : (beeBucketSetOffline id 0 0 (beeRun Bee.init sampleOnlineOps) [97] [120] 0).1
      = some "no such range map item" := by decide +kernel
  refine ⟨⟨by decide +kernel, by decide +kernel, ⟨120, by decide +kernel⟩, by decide +kernel,
    by decide +kernel⟩, hmiss, ?_⟩
  intro hd
  have hsucc := hd.succeeds
  rw [hmiss] at hsucc
  cases hsucc

end Esq
