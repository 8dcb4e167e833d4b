import Esq.Bee.Reply

/-!
# GET の値

GET の返事が運ぶ値と、`pony` の `result_buf` に入る byte。

`result_buf_size` は、`pony` では値の長さと比べられ、`bee_db_get` では `timeval` から始まる record の
長さと比べられる。返事の長さは record 全体の長さから決まるので、`timeval` の分だけ短い buffer では、
写していない byte が値の終わりとして送られる。
-/

namespace Esq

open Infra

/-! ## 値の部分 -/

def replyValue (written : List UInt8) : List UInt8 :=
  (written.drop (replySize + timevalSize)).take (ReplyFromBeeToPony.ofBytes written).resultLen.toNat

/-- `n` byte の `result_buf` を持つ `pony` の GET が、値 `v` を正しく受け取る。 -/
structure GetRight (n : Int) (v written : List UInt8) : Prop where
  fits : v.length ≤ n → ponyReceive (some n) written = { r := esqOk, result := v }
  short : n < v.length → (ponyReceive (some n) written).r ≠ esqOk
  /-- 送られた値の byte は record から写したものである -/
  copied : 0 < n → replyValue written <+: v

def GetCond (n : Int) (v : List UInt8) (mallocOk : Bool) : Prop :=
  n ≤ 0 ∨ (mallocOk = false ∧ n < v.length) ∨
    (mallocOk = true ∧ v.length + timevalSize ≤ n)

/-! ## 失敗の返事 -/

section

variable {ctx : BeeServiceCtx} {heap : Nat → UInt8} {n r : Int} {v tv rest mem : List UInt8}

theorem beeWriteReply_exx :
    beeWriteReply ((ctx.setReplyPtr none).exx r) heap = structBytes [r, 0] := rfl

theorem ponyReceive_exx (size : Option Int) (hr : IsCode r) :
    ponyReceive size (structBytes [r, 0]) = { r, result := [] } := by
  have h := @ponyReceive_append _ _ [] size hr.toInt32_eq (show toInt32 0 = 0 from rfl)
  rw [List.append_nil] at h
  rw [h]
  simp [ponyReceiveResult]

theorem replyValue_exx : replyValue (structBytes [r, 0]) = [] := by
  have h := ofBytes_structBytes r 0 []
  rw [List.append_nil] at h
  simp [replyValue, h, toInt32]

theorem getRight_exx (hr : IsCode r) (hne : r ≠ esqOk) :
    GetRight n v (beeWriteReply ((ctx.setReplyPtr none).exx r) heap) ↔ n < v.length := by
  rw [beeWriteReply_exx]
  constructor
  · intro h
    by_contra hle
    have hfit := h.fits (not_lt.mp hle)
    rw [ponyReceive_exx _ hr, PonyResult.mk.injEq] at hfit
    exact hne hfit.1
  · intro hlt
    refine ⟨fun hle => absurd hlt (not_lt.mpr hle), fun _ => ?_, fun _ => ?_⟩
    · rw [ponyReceive_exx _ hr]
      exact hne
    · rw [replyValue_exx]
      exact List.nil_prefix

/-! ## 見つかった record の返事 -/

/-- 見つかった record の返事の、header の後ろに書かれる byte。 -/
def sentRecord (n : Int) (record mem : List UInt8) (heap : Nat → UInt8) : List UInt8 :=
  writeBlock (overwrite mem (record.take n.toNat)) heap record.length

theorem length_sentRecord (n : Int) (record mem : List UInt8) (heap : Nat → UInt8) :
    (sentRecord n record mem heap).length = record.length := by
  unfold sentRecord writeBlock
  simp only [List.length_append, List.length_take, List.length_map, List.length_range,
    Int.toNat_natCast]
  omega

theorem sentRecord_of_le {record : List UInt8} (hle : record.length ≤ n) :
    sentRecord n record mem heap = record := by
  have htake : record.take n.toNat = record := List.take_of_length_le (by omega)
  have hlen : record.length - (record ++ mem.drop record.length).length = 0 := by
    rw [List.length_append]
    omega
  unfold sentRecord writeBlock overwrite
  rw [htake, Int.toNat_natCast, hlen, List.take_left]
  simp

theorem sentRecord_replicate {record : List UInt8} (x : UInt8) (hlt : n < record.length) :
    sentRecord n record (List.replicate (n + timevalSize).toNat x) (fun _ => x)
      = record.take n.toNat ++ List.replicate (record.length - n.toNat) x := by
  have htake : (record.take n.toNat).length = n.toNat := by
    rw [List.length_take]
    omega
  unfold sentRecord writeBlock overwrite
  rw [htake, Int.toNat_natCast, List.drop_replicate, List.take_append,
    List.take_of_length_le (by omega), htake, List.take_replicate, List.append_assoc,
    List.map_const', List.length_range, List.length_append, htake, List.length_replicate,
    List.replicate_append_replicate]
  congr 2
  omega

theorem beeWriteReply_found (record : List UInt8) (hlen : timevalSize ≤ record.length) :
    beeWriteReply (ctx.setReplyPtr (some
        { returnCode := esqOk
          resultLen := record.length - timevalSize
          result := overwrite mem (record.take n.toNat) })) heap
      = structBytes [esqOk, record.length - timevalSize] ++
          (sentRecord n record mem heap ++ ctx.reply.bytes) := by
  have h8 : (structBytes [esqOk, (record.length : Int) - timevalSize]).length = replySize :=
    length_structBytes _
  have hn : ((record.length : Int) - timevalSize + timevalSize + replySize).toNat
      = replySize + record.length := by omega
  show writeBlock (structBytes [esqOk, (record.length : Int) - timevalSize] ++ _) heap _ ++ _ = _
  rw [← List.append_assoc]
  congr 1
  unfold sentRecord writeBlock
  rw [hn, List.take_append, List.take_of_length_le (by omega), List.append_assoc, h8,
    Nat.add_sub_cancel_left, List.length_append, h8, Nat.add_sub_add_left, Int.toNat_natCast]

structure FoundReply (sent v written : List UInt8) : Prop where
  value : replyValue written = sent.drop timevalSize
  pony : ∀ n : Int, ponyReceive (some n) written
    = if v.length ≤ n then { r := esqOk, result := sent.drop timevalSize }
      else { r := esqErrorSize, result := [] }

theorem foundReply {sent tail : List UInt8} (hv : v ≠ []) (hint : v.length < 2 ^ 31)
    (hsent : sent.length = timevalSize + v.length) :
    FoundReply sent v (structBytes [esqOk, v.length] ++ (sent ++ tail)) := by
  have hpos : 0 < v.length := List.length_pos_iff.mpr hv
  have hl : toInt32 v.length = v.length := toInt32_of_range (by omega) (by omega)
  have hr := isCode_esqOk.toInt32_eq
  have h8 : (structBytes [esqOk, (v.length : Int)]).length = replySize := length_structBytes _
  have hdrop : (sent.drop timevalSize).length = v.length := by
    rw [List.length_drop]
    omega
  have hsplit : sent ++ tail
      = sent.take timevalSize ++ (sent.drop timevalSize ++ tail) := by
    rw [← List.append_assoc, List.take_append_drop]
  refine ⟨?_, fun n => ?_⟩
  · unfold replyValue
    rw [ofBytes_structBytes, hl, Int.toNat_natCast, ← List.drop_drop, List.drop_left' h8,
      List.drop_append_of_le_length (by omega), List.take_left' hdrop]
  · have htv : esqMcoSocketRead (sent ++ tail) timevalSize
        = (esqOk, sent.take timevalSize, sent.drop timevalSize ++ tail) := by
      rw [hsplit]
      exact esqMcoSocketRead_append (by decide) (by rw [List.length_take]; omega)
    have hval := @esqMcoSocketRead_append tail _ _ hpos hdrop
    rw [ponyReceive_append _ hr hl]
    unfold ponyReceiveResult
    simp only [htv, hval, ne_eq, not_true_eq_false, if_false, show esqOk = 0 from rfl,
      show ¬ (v.length : Int) = 0 by omega]
    by_cases hsize : (v.length : Int) ≤ n
    · simp only [hsize, not_lt.mpr hsize, if_true, if_false]
    · simp only [hsize, not_le.mp hsize, if_true, if_false]

theorem getRight_of_found {written : List UInt8} (h : FoundReply (tv ++ v) v written)
    (htv : tv.length = timevalSize) : GetRight n v written := by
  have hdrop : (tv ++ v).drop timevalSize = v := List.drop_left' htv
  refine ⟨fun hle => ?_, fun hlt => ?_, fun _ => ?_⟩
  · rw [h.pony, if_pos hle, hdrop]
  · rw [h.pony, if_neg (not_le.mpr hlt)]
    exact by decide
  · rw [h.value, hdrop]

theorem not_getRight_of_short {written : List UInt8} {x : UInt8} {k : Nat} {copied : List UInt8}
    (h : FoundReply (copied ++ List.replicate (k + 1) x) v written) (hn : 0 < n)
    (hlen : (copied ++ List.replicate (k + 1) x).length = timevalSize + v.length)
    (hv : v ≠ []) (hx : v.getLast? ≠ some x) : ¬ GetRight n v written := by
  intro hright
  have hcopied := hright.copied hn
  rw [h.value] at hcopied
  have hsame : (copied ++ List.replicate (k + 1) x).drop timevalSize = v := by
    refine hcopied.eq_of_length ?_
    rw [List.length_drop]
    omega
  have hlast : (copied ++ List.replicate (k + 1) x).getLast? = some x := by
    rw [List.replicate_succ', ← List.append_assoc, List.getLast?_append]
    rfl
  have hsplit := List.take_append_drop timevalSize (copied ++ List.replicate (k + 1) x)
  rw [hsame] at hsplit
  rw [← hsplit, List.getLast?_append_of_ne_nil _ hv] at hlast
  exact hx hlast

end

/-! ## GET が正しい条件 -/

def otherByte (v : List UInt8) : UInt8 := v.getLastD 0 + 1

theorem getLast?_ne_otherByte (v : List UInt8) : v.getLast? ≠ some (otherByte v) := by
  intro h
  have hlast : v.getLastD 0 = otherByte v := by
    rw [List.getLastD_eq_getLast?, h]
    rfl
  have hone : (1 : UInt8) = 0 := left_eq_add.mp hlast
  exact absurd hone (by decide)

/-! ## 例 -/

end Esq
